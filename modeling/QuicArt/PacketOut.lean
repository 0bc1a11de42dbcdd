import QuicArt.Table

namespace QuicArt

abbrev PktId := Nat
abbrev StreamId := Nat
abbrev Time := Nat

def u16add (a b : Nat) : Nat := (a + b) % 65536
def u16sub (a b : Nat) : Nat := (a + 65536 - b) % 65536
def u32 (x : Int) : Nat := (x % 4294967296).toNat
def u64sub (a b : Nat) : Nat := (a + 18446744073709551616 - b) % 18446744073709551616

/-- Packet numbers are integers whose initial value may be -1; C compares them unsigned. -/
def asU64 (x : Int) : Int := if x < 0 then x + 18446744073709551616 else x

def maxPackno : Nat := 2 ^ 62 - 1

def u64 (x : Int) : Nat := (x % 18446744073709551616).toNat

/-- `ietf_v1_calc_packno_bits`. -/
def ietfCalcPacknoBits (packno leastUnacked : Int) (nInFlight : Nat) : Nat :=
  let delta := u64 (max (u64 (packno - leastUnacked)) nInFlight * 4 : Nat)
  (decide (2 ^ 8 ≤ delta)).toNat + (decide (2 ^ 16 ≤ delta)).toNat + (decide (2 ^ 24 ≤ delta)).toNat

def packnoBits2len (bits : Nat) : Nat := bits + 1

def vintVal2bits (val : Nat) : Nat :=
  (decide (2 ^ 6 ≤ val)).toNat + (decide (2 ^ 14 ≤ val)).toNat + (decide (2 ^ 30 ≤ val)).toNat

inductive Pns
  | init | hsk | app
  deriving DecidableEq, Repr, Inhabited

inductive HeaderType
  | notSet | verneg | initial | retry | handshake | zeroRtt
  deriving DecidableEq, Repr, Inhabited

def HeaderType.pns : HeaderType → Pns
  | .notSet | .zeroRtt => .app
  | .handshake => .hsk
  | .verneg | .initial | .retry => .init

inductive Ecn
  | notEct | ect1 | ect0 | ce
  deriving DecidableEq, Repr, Inhabited

/-- `enum quic_frame_type`, in the order of the source; the bit of a type is its position. -/
inductive FrameType
  | invalid | stream | ack | padding | rstStream | connectionClose | goaway | windowUpdate
  | blocked | stopWaiting | ping | maxData | maxStreamData | maxStreams | streamBlocked
  | streamsBlocked | newConnectionId | stopSending | pathChallenge | pathResponse | crypto
  | retireConnectionId | newToken | handshakeDone | ackFrequency | timestamp | datagram
  deriving DecidableEq, Repr, Inhabited

abbrev FtBits := BitVec 32

def FrameType.bit (t : FrameType) : FtBits := 1#32 <<< t.ctorIdx

def ftMask (ts : List FrameType) : FtBits := ts.foldl (fun m t => m ||| t.bit) 0#32

def FtBits.has (b m : FtBits) : Bool := b &&& m != 0#32

def allIquicFrames : FtBits :=
  ftMask [.stream, .ack, .padding, .rstStream, .connectionClose, .blocked, .ping, .maxData,
    .maxStreamData, .maxStreams, .streamBlocked, .streamsBlocked, .newConnectionId,
    .stopSending, .pathChallenge, .pathResponse, .retireConnectionId, .newToken,
    .handshakeDone, .ackFrequency, .timestamp, .crypto]

def iquicFrameAckableMask : FtBits :=
  (allIquicFrames ||| FrameType.datagram.bit)
    &&& ~~~ ftMask [.ack, .padding, .connectionClose, .timestamp]

def iquicFrameRetxMask : FtBits :=
  allIquicFrames &&& ~~~ ftMask [.padding, .pathResponse, .pathChallenge, .ack, .timestamp]

def gquicFrameRetransmittableMask : FtBits :=
  ftMask [.stream, .rstStream, .goaway, .windowUpdate, .blocked, .connectionClose, .crypto,
    .ping]

def bquicFrameRegenMask : FtBits :=
  ftMask [.ack, .pathChallenge, .pathResponse, .stopWaiting, .timestamp, .datagram]

/-- `struct frame_rec`; an elided record has type `invalid`. -/
structure FrameRec where
  frameType : FrameType
  stream : StreamId
  off : Nat
  len : Nat
  deriving DecidableEq, Repr, Inhabited

/-- `struct lsquic_packet_out`, also for loss records and poison packets; the history variable `tx`
is the serial number of the last transmission. -/
structure PacketOut where
  sent : Time := 0
  expectedSent : Time := 0
  retransTimes : Nat := 0
  retransPacketNumber : Nat := 0
  remainedTime : Time := 0
  lastLostTime : Time := 0
  retransNo : Int := 0
  needRetransNumber : Nat := 0
  beenDetectLoss : Nat := 0
  fakeLossRec : Nat := 0
  feedbackRecorded : Nat := 0
  packno : Int := 0
  ack2ed : Int := 0
  lossChain : PktId := 0
  frameTypes : FtBits := 0#32
  mini : Bool := false
  hello : Bool := false
  encrypted : Bool := false
  repackno : Bool := false
  streamEnd : Bool := false
  sched : Bool := false
  hasSentSz : Bool := false
  mtuProbe : Bool := false
  pns : Pns := .init
  retx : Bool := false
  poison : Bool := false
  lossRec : Bool := false
  unacked : Bool := false
  lost : Bool := false
  packnoBits : Nat := 0
  dataSz : Nat := 0
  sentSz : Nat := 0
  regenSz : Nat := 0
  nAlloc : Nat := 0
  tokenLen : Nat := 0
  headerType : HeaderType := .notSet
  encLevel : Nat := 0
  ecn : Ecn := .notEct
  logQlBits : Bool := false
  squareBit : Bool := false
  lossBit : Bool := false
  limited : Bool := false
  facked : Bool := false
  data : Nat := 0
  frecs : List FrameRec := []
  path : Nat := 0
  tx : Nat := 0
  deriving DecidableEq, Repr, Inhabited

namespace PacketOut

def avail (p : PacketOut) : Nat := u16sub p.nAlloc p.dataSz

def hasAck (p : PacketOut) : Bool := p.frameTypes.has FrameType.ack.bit

/-- Loop state of `lsquic_packet_out_elide_reset_stream_frames` and `lsquic_packet_out_chop_regen`.
-/
structure Squash where
  adj : Nat := 0
  dataSz : Nat
  nStreamFrames : Nat := 0
  nElided : Nat := 0
  frecs : List FrameRec := []
  deriving DecidableEq, Repr

def Squash.step (victim : FrameRec → Bool) (st : Squash) (f : FrameRec) : Squash :=
  if f.frameType = .invalid then
    { st with frecs := st.frecs ++ [f] }
  else
    let f := { f with off := u16sub f.off st.adj }
    let st := if f.frameType = .stream then { st with nStreamFrames := st.nStreamFrames + 1 }
      else st
    if victim f then
      { st with
        adj := u16add st.adj f.len
        dataSz := u16sub st.dataSz f.len
        nElided := st.nElided + 1
        frecs := st.frecs ++ [{ f with frameType := .invalid }] }
    else
      { st with frecs := st.frecs ++ [f] }

def squash (victim : FrameRec → Bool) (p : PacketOut) : Squash :=
  p.frecs.foldl (Squash.step victim) { dataSz := p.dataSz }

/-- `streamId = none` stands for `UINT64_MAX`: elide the frames of all reset streams. -/
def elideResetStreamFrames (isWriteReset : StreamId → Bool) (streamId : Option StreamId)
    (p : PacketOut) : PacketOut × Nat :=
  let st := p.squash fun f => f.frameType = .stream &&
    match streamId with
    | some id => f.stream = id
    | none => isWriteReset f.stream
  let p := { p with dataSz := st.dataSz, frecs := st.frecs }
  if st.nElided = st.nStreamFrames then
    ({ p with frameTypes := p.frameTypes &&& ~~~ FrameType.stream.bit, streamEnd := false },
      st.adj)
  else
    (p, st.adj)

def chopRegen (p : PacketOut) : PacketOut :=
  let st := p.squash fun f => FtBits.has f.frameType.bit bquicFrameRegenMask
  { p with
    dataSz := st.dataSz
    frecs := st.frecs
    regenSz := 0
    frameTypes := p.frameTypes &&& ~~~ bquicFrameRegenMask }

def scheduleTime (init : Bool) (now rand : Nat) (p : PacketOut) : PacketOut :=
  let p := if init then { p with lastLostTime := now } else p
  if 0 < p.remainedTime ∧ p.retransPacketNumber ≤ p.needRetransNumber then
    let timeLeft : Int := p.remainedTime - (now - p.lastLostTime)
    if timeLeft ≤ 0 then
      { p with expectedSent := now }
    else
      { p with expectedSent := now + rand % timeLeft.toNat }
  else
    { p with expectedSent := now }

end PacketOut

end QuicArt
