import QuicArt.Dropping

namespace QuicArt
namespace SendCtl

section
variable (env : Env)

def maxBpqCount (s : SendCtl) (b : BufPacketType) : Nat :=
  match b with
  | .otherPrio => 10
  | .highestPrio =>
    let count := u32 (s.nScheduled + s.nInFlightRetx)
    max 10 (env.cwnd s.tick / env.scPackSize s.tick - count)

def firstFrec (pk : PacketOut) : Option FrameRec := pk.frecs.find? (·.frameType ≠ .invalid)

/-- `send_ctl_move_ack`: `false` is the failure to record the frame. -/
def moveAck (s : SendCtl) (dst src : PktId) : SendCtl × Bool :=
  let from_ := s.pkt src
  match firstFrec from_ with
  | some f =>
    if from_.regenSz ≤ (s.pkt dst).avail ∧ f.frameType = .ack then
      if env.malo s.tick then
        let s := s.ticked.upd dst fun pk =>
          { pk with
            frecs := pk.frecs ++ [{ f with off := pk.dataSz, len := from_.regenSz }]
            dataSz := from_.regenSz
            regenSz := from_.regenSz
            frameTypes := pk.frameTypes ||| (bquicFrameRegenMask &&& from_.frameTypes) }
        (s.upd src PacketOut.chopRegen, true)
      else (s.ticked, false)
    else (s, true)
  | none => (s, true)

inductive AckAction
  | steal | generate | none
  deriving DecidableEq, Repr

/-- Whether the first packet of a buffered queue takes an ACK frame with it. -/
def ackAction (s : SendCtl) (b : BufPacketType) (canWriteAck : Bool) : AckAction :=
  if u32 (s.bpqCount.get b) = 0 then
    if b = .highestPrio ∧ (s.queue (.buffered .otherPrio)).head?.any
        fun p => (s.pkt p).hasAck then .steal
    else if canWriteAck then .generate
    else .none
  else .none

/-- `ack` is the ACK frame the connection writes into the packet when it can. -/
def newBufferedPacket (s : SendCtl) (b : BufPacketType) (needAtLeast path : Nat)
    (ack : Option Content) : SendCtl × Option PktId :=
  let action := s.ackAction b ack.isSome
  let bits := if action = .none then guessPacknoBits else s.maxPacknoBits
  match s.allocatePacket env bits needAtLeast .app path with
  | (s, none) => (s, none)
  | (s, some p) =>
    match action, (s.queue (.buffered .otherPrio)).head? with
    | .steal, some src =>
      match s.moveAck env p src with
      | (s, true) => (s.bufferedAppend b p, some p)
      | (s, false) => (s, none)
    | .generate, _ => ((s.upd p (write (ack.getD {}))).bufferedAppend b p, some p)
    | _, _ => (s.bufferedAppend b p, some p)

def getBufferedPacket (s : SendCtl) (b : BufPacketType) (needAtLeast path : Nat)
    (ack : Option Content) : SendCtl × Option PktId :=
  match (s.queue (.buffered b)).getLast? with
  | some p =>
    if !(s.pkt p).streamEnd ∧ needAtLeast ≤ (s.pkt p).avail then (s, some p)
    else if s.maxBpqCount env b ≤ u32 (s.bpqCount.get b) then (s, none)
    else s.newBufferedPacket env b needAtLeast path ack
  | none =>
    if s.maxBpqCount env b ≤ u32 (s.bpqCount.get b) then (s, none)
    else s.newBufferedPacket env b needAtLeast path ack

def bufferStreamData (s : SendCtl) (b : BufPacketType) (needAtLeast path : Nat)
    (ack : Option Content) (c : Content) : SendCtl :=
  match s.getBufferedPacket env b needAtLeast path ack with
  | (s, some p) => s.upd p (write c)
  | (s, none) => s

def insertBufferedPiece (b : BufPacketType) (victim : PktId) (s : SendCtl) (c : Content) :
    SendCtl :=
  let new := s.nextId
  let s := s.ticked.alloc (s.piece env victim c)
  let s := s.setQueue (.buffered b) (insertBefore victim new (s.queue (.buffered b)))
  { s with bpqCount := s.bpqCount.modify b (· + 1) }

/-- The oversized packet leaves its queue. The counter goes up once more, as in the source. -/
def removeOversized (s : SendCtl) (b : BufPacketType) (p : PktId) : SendCtl :=
  let s := s.setQueue (.buffered b) ((s.queue (.buffered b)).erase p)
  { s with bpqCount := s.bpqCount.modify b (· + 1) }

def splitBufferedPacket (s : SendCtl) (b : BufPacketType) (p : PktId) : SendCtl × Bool :=
  let (pieces, _, isError) := s.resizeOne env p
  let s := pieces.foldl (insertBufferedPiece env b p) s.ticked
  if isError || decide (pieces.length ≤ 1) then (s, false) else (s.removeOversized b p, true)

def scheduleBufferedOne (s : SendCtl) (b : BufPacketType) (p : PktId) : SendCtl :=
  let s := (s.bufferedRemove b p).nextPackno
  (s.upd p ({ · with packno := s.curPackno })).scheduledOne env p

def needsSplit (bits : Nat) (pk : PacketOut) : Bool :=
  let need := env.packnoBits2len bits
  let used := env.packnoBits2len pk.packnoBits
  decide (bits ≠ pk.packnoBits) && decide (used < need) && decide (pk.avail < need - used)

/-- The loop of `lsquic_send_ctl_schedule_buffered`, followed for at most the given number of
rounds. -/
def scheduleBufferedLoop (b : BufPacketType) (bits : Nat) : Nat → SendCtl → SendCtl
  | 0, s => s
  | n + 1, s =>
    match (s.queue (.buffered b)).head? with
    | none => s
    | some p =>
      match s.canSend env with
      | (s, false) => s
      | (s, true) =>
        let stale := (s.pkt p).hasAck && decide ((s.pkt p).ack2ed < s.largestAcked)
        let s := if stale then s.upd p PacketOut.chopRegen else s
        if stale && (s.pkt p).dataSz == 0 then
          scheduleBufferedLoop b bits n (s.bufferedRemove b p)
        else if needsSplit env bits (s.pkt p) then
          match s.splitBufferedPacket env b p with
          | (s, true) =>
            match (s.queue (.buffered b)).head? with
            | some first => scheduleBufferedLoop b bits n (s.scheduleBufferedOne env b first)
            | none => s
          | (s, false) => s
        else scheduleBufferedLoop b bits n (s.scheduleBufferedOne env b p)

def scheduleBuffered (s : SendCtl) (b : BufPacketType) (rounds : Nat) : SendCtl :=
  scheduleBufferedLoop env b (s.calcPacknoBits env) rounds s

def resizeInputOne (q : Queue) (path : Nat) (st : SendCtl × List PktId) (p : PktId) :
    (SendCtl × List PktId) × Option PktId :=
  let next := nextOf p (st.1.queue q)
  match q with
  | .scheduled =>
    if (st.1.pkt p).path = path ∧ !(st.1.pkt p).mtuProbe then
      ((st.1.schedRemove env p, st.2 ++ [p]), next)
    else (st, next)
  | .buffered b =>
    if (st.1.pkt p).path = path then ((st.1.bufferedRemove b p, st.2 ++ [p]), next)
    else (st, next)
  | _ => (st, next)

def resizeInput (s : SendCtl) (q : Queue) (path : Nat) : SendCtl × List PktId :=
  scan (fun _ _ => true) (resizeInputOne env q path) (s.queue q).length (s, []) (s.queue q).head?

def discardInput (s : SendCtl) (p : PktId) : SendCtl := (s.destroyChain env p none).1

def resizedPacket (s : SendCtl) (path : Nat) (c : Content) : PacketOut :=
  writePiece c (s.freshPacket env (s.calcPacknoBits env) .app path)

def appendResized (q : Queue) (path : Nat) (s : SendCtl) (c : Content) : SendCtl :=
  let new := s.nextId
  let s := s.ticked.alloc (s.resizedPacket env path c)
  match q with
  | .buffered b => s.bufferedAppend b new
  | _ =>
    let s := s.nextPackno
    (s.upd new ({ · with packno := s.curPackno })).schedAppend env new

def beginResize (s : SendCtl) (q : Queue) : SendCtl :=
  if q = .scheduled then { s with curPackno := s.lastSent } else s

/-- The input is discarded for new packets; if that fails the connection is aborted. -/
def applyResize (s : SendCtl) (q : Queue) (path : Nat) (input : List PktId) (pieces : List Content)
    (nDiscarded : Nat) (isError : Bool) : SendCtl :=
  let s := (if isError then input.take nDiscarded else input).foldl (discardInput env) s
  let s := pieces.foldl (appendResized env q path) s
  if isError || pieces.isEmpty then { s with aborted := true } else s

def resizeQ (s : SendCtl) (q : Queue) (path : Nat) : SendCtl :=
  let (s, input) := (s.beginResize q).resizeInput env q path
  let (pieces, nDiscarded, isError) := env.resize s.tick (s.ticked.resizedPacket env path {}).nAlloc
    (input.map s.pkt)
  s.ticked.applyResize env q path input pieces nDiscarded isError

/-- The last iovec of the write, the frame it ends in, and the queue lengths of the snapshot. -/
structure Rollback where
  iovBase : Nat
  iovLen : Nat
  shortfall : Nat
  dfSize : Option Nat
  toEnd : Bool
  highCount : Nat
  deriving DecidableEq, Repr

def rollbackQueue (s : SendCtl) (rb : Rollback) : Queue :=
  if !s.bufferStream then .scheduled
  else if rb.highCount < u32 (s.bpqCount.get .highestPrio) then .buffered .highestPrio
  else .buffered .otherPrio

def holdsByte (pk : PacketOut) (addr : Nat) : Bool :=
  decide (pk.data ≤ addr) && decide (addr < pk.data + pk.dataSz)

def rollbackFrec (pk : PacketOut) (rb : Rollback) (f : FrameRec) : Bool :=
  f.frameType == .stream && decide (pk.data + f.off < rb.iovBase) &&
    decide (rb.iovBase < pk.data + f.off + f.len)

def truncateFrecs (pk : PacketOut) (rb : Rollback) (len : FrameRec → Nat) :
    List FrameRec → List FrameRec
  | [] => []
  | f :: l =>
    if rollbackFrec pk rb f then
      { f with len := len f } :: l.map ({ · with frameType := .invalid })
    else f :: truncateFrecs pk rb len l

def rollbackPacket (rb : Rollback) (dfSize : Nat) (pk : PacketOut) : PacketOut :=
  if rb.iovLen - rb.shortfall < dfSize then
    let dataSz := rb.iovBase + rb.iovLen - rb.shortfall - pk.data
    { pk with
      dataSz := dataSz
      frecs := truncateFrecs pk rb (fun f => dataSz - f.off) pk.frecs
      streamEnd := pk.streamEnd || rb.toEnd }
  else { pk with frecs := truncateFrecs pk rb (·.len) pk.frecs }

def returnUnused (q : Queue) (s : SendCtl) (p : PktId) : SendCtl :=
  match q with
  | .buffered b => s.bufferedRemove b p
  | _ => s.schedRemove env p

def rollback (s : SendCtl) (rb : Rollback) : SendCtl :=
  let q := s.rollbackQueue rb
  match (s.queue q).find? fun p => holdsByte (s.pkt p) rb.iovBase with
  | none => s
  | some p =>
    match (s.pkt p).frecs.find? (rollbackFrec (s.pkt p) rb), rb.dfSize with
    | some f, some dfSize =>
      let pk := s.pkt p
      let pk' := rollbackPacket rb dfSize pk
      let cut : Int := f.len - (pk'.dataSz - f.off : Nat)
      let s := s.upd p (rollbackPacket rb dfSize)
      let s := if q = .scheduled ∧ rb.iovLen - rb.shortfall < dfSize then
          { s with bytesScheduled := s.bytesScheduled - cut }
        else s
      (after p (s.queue q)).foldl (returnUnused env q) s
    | _, _ => s

end

end SendCtl
end QuicArt
