import QuicArt.Rechist

namespace QuicArt

inductive WasMissing
  | none
  | maxGap
  | smaller
  deriving DecidableEq, Repr

inductive DecPackin
  | ok
  | notYet
  | nomem
  | tooShort
  | badcrypt
  | violation
  deriving DecidableEq, Repr

abbrev EcnTally := Ecn → Nat

/-- What the connection keeps for a packet number space. -/
structure AckSpace where
  nSlackAkbl : Nat := 0
  /-- `IFC_ACK_QUED_INIT << pns`. -/
  ackQued : Bool := false
  /-- `IFC_IGNORE_INIT` and `IFC_IGNORE_HSK`; never set for the application space. -/
  ignored : Bool := false
  rechist : Rechist
  ecnCountsIn : EcnTally := fun _ => 0

/-- An ACK frame that has been put into a packet; the ECN counts are those it carries. -/
structure AckWritten where
  pns : Pns
  ecnCounts : Option EcnTally

/-- `struct ietf_ack_state`, with the frames that were out when it was taken. -/
structure AckSnapshot where
  ackHadMiss : Bool
  ackQuedApp : Bool
  sendPing : Bool
  armed : Bool
  nSlackAkbl : Nat
  nSlackAll : Nat
  unretxThresh : Nat
  ackFrames : List AckWritten

/-- `struct lsquic_packet_in`, with what the stages before the receive history find out. -/
structure IncomingPacket where
  headerType : HeaderType
  packno : Nat
  received : Nat
  ecn : Ecn
  /-- The packet is from a server address that is not known. -/
  strayPath : Bool
  /-- `none`: the packet has been decrypted before. -/
  decrypted : Option DecPackin
  /-- What `is_stateless_reset` says, and the settings with it. -/
  statelessReset : Bool
  malo : Allocator

structure ParsedPacket where
  packet : IncomingPacket
  isRechistEmpty : Bool

/-- The part of `struct ietf_full_conn` that sends ACKs; `saved` are snapshots, `parsing` packets
whose frames are being parsed, `ackFrames` the ACK frames in packets. -/
structure AckConn where
  spaces : Pns → AckSpace
  ackHadMiss : Bool := false
  delayedAcks : Bool := false
  ignoreMissing : Bool := false
  sendWrongCounts : Bool := false
  sendPing : Bool := false
  gotPrst : Bool := false
  nSlackAll : Nat := 0
  maxRetxSinceLastAck : Nat
  maxAckDelay : Nat
  maxAckFreqSeqno : Nat := 0
  maxAckablePacknoIn : Nat := 0
  pingUnretxThresh : Nat
  incomingEcn : Nat := 0
  armed : Bool := false
  expiry : Nat := 0
  saved : List AckSnapshot := []
  parsing : List ParsedPacket := []
  ackFrames : List AckWritten := []

namespace AckConn

def maxRetrPackets : Nat := 2
def maxAnyPackets : Nat := 20
def ackTimeout : Nat := 25 * 1000
def tpMinAckDelay : Nat := 10000

/-- `ietf_full_conn_init`, and what a server's connection takes over from the mini connection. -/
def init (ignoreInit : Bool) (rechist : Pns → Rechist) (ecnCounts : Pns → EcnTally)
    (incomingEcn : Nat) : AckConn where
  spaces pns :=
    { rechist := rechist pns
      ecnCountsIn := ecnCounts pns
      ignored := ignoreInit && pns == .init }
  maxRetxSinceLastAck := maxRetrPackets
  maxAckDelay := ackTimeout
  pingUnretxThresh := 20
  incomingEcn := incomingEcn

def modify (s : AckConn) (pns : Pns) (f : AckSpace → AckSpace) : AckConn :=
  { s with spaces := Function.update s.spaces pns (f (s.spaces pns)) }

def queue (s : AckConn) (pns : Pns) : AckConn := s.modify pns ({ · with ackQued := true })

/-- The alarm is unset and an ACK is queued, as in `force_queueing_ack_app`. -/
def forceQueueingAckApp (s : AckConn) : AckConn := { s with armed := false }.queue .app

/-- `lsquic_alarmset_ring_expired` for the ACK alarm, with `ack_alarm_expired`. -/
def ringExpired (s : AckConn) (now : Nat) : AckConn :=
  if s.armed ∧ s.expiry < now then { s with armed := false }.queue .app else s

def snapshot (s : AckConn) : AckSnapshot where
  ackHadMiss := s.ackHadMiss
  ackQuedApp := (s.spaces .app).ackQued
  sendPing := s.sendPing
  armed := s.armed
  nSlackAkbl := (s.spaces .app).nSlackAkbl
  nSlackAll := s.nSlackAll
  unretxThresh := s.pingUnretxThresh
  ackFrames := s.ackFrames

/-- `ietf_full_conn_ci_ack_rollback`; the packets with the ACK frames are destroyed. -/
def restore (s : AckConn) (a : AckSnapshot) : AckConn :=
  { s with
    ackHadMiss := a.ackHadMiss
    sendPing := a.sendPing
    armed := a.armed
    nSlackAll := a.nSlackAll
    pingUnretxThresh := a.unretxThresh
    ackFrames := a.ackFrames }.modify .app
      ({ · with ackQued := a.ackQuedApp, nSlackAkbl := a.nSlackAkbl })

/-- Whether the frame fits and is recorded, whether ranges are missing in it, and the sending side.
-/
structure AckRoom where
  fits : Bool
  recorded : Bool
  hasMissing : Bool
  ecnTurnedOn : Bool
  nConsUnretx : Nat
  haveOutgoingRetxFrames : Bool
  nybble : Nat

/-- The first lines of `generate_ack_frame_for_pns`: wrong counts are sent once. -/
def ecnCountsFor (s : AckConn) (pns : Pns) (g : AckRoom) : AckConn × Option EcnTally :=
  if s.incomingEcn ≠ 0 ∧ g.ecnTurnedOn then (s, some (s.spaces pns).ecnCountsIn)
  else if s.sendWrongCounts ∧ pns = .app then
    ({ s with sendWrongCounts := false }, some (s.spaces pns).ecnCountsIn)
  else (s, none)

def schedulePing (s : AckConn) (g : AckRoom) : AckConn :=
  if s.pingUnretxThresh ≤ g.nConsUnretx ∧ ¬ g.haveOutgoingRetxFrames then
    { s with sendPing := true, pingUnretxThresh := 12 + g.nybble }
  else s

/-- The ACK state is reset: the end of `generate_ack_frame_for_pns`. -/
def resetAckState (s : AckConn) (pns : Pns) : AckConn :=
  let s := s.modify pns ({ · with nSlackAkbl := 0, ackQued := false })
  if pns = .app then { s with nSlackAll := 0, armed := false } else s

/-- `generate_ack_frame_for_pns`; a failure ends the connection later. -/
def generateAckFrameForPns (s : AckConn) (pns : Pns) (g : AckRoom) : AckConn × Bool :=
  let (s, ecnCounts) := s.ecnCountsFor pns g
  if ¬ g.fits then (s, false)
  else if ¬ g.recorded then (s, false)
  else
    let s := { s with
      ackHadMiss := g.hasMissing && !s.ignoreMissing
      ackFrames := ⟨pns, ecnCounts⟩ :: s.ackFrames }
    ((s.schedulePing g).resetAckState pns, true)

/-- The loop of `generate_ack_frame` from a space on; there may be no packet for a frame. -/
def generateAckFrames (room : Pns → Option AckRoom) : List Pns → AckConn → AckConn
  | [], s => s
  | pns :: rest, s =>
    if (s.spaces pns).ackQued then
      match room pns with
      | none => s
      | some g =>
        match s.generateAckFrameForPns pns g with
        | (s, true) => generateAckFrames room rest s
        | (s, false) => s
    else generateAckFrames room rest s

def generateAckFrame (s : AckConn) (room : Pns → Option AckRoom) : AckConn :=
  generateAckFrames room [.init, .hsk, .app] s

/-- What a tick finds; the pacer is asked first. -/
structure AckTick where
  pacerBlocked : Bool
  lostAcks : Pns → Bool
  haveDelayedPackets : Bool
  thingsToWrite : Bool
  writeIsPossible : Bool
  room : Pns → Option AckRoom

/-- `should_generate_ack` adds the lost ACKs to the queued ones. -/
def queueLost (s : AckConn) (lost : Pns → Bool) : AckConn :=
  { s with spaces := fun pns =>
    { s.spaces pns with ackQued := (s.spaces pns).ackQued || lost pns } }

def anyQued (s : AckConn) : Bool :=
  (s.spaces .init).ackQued || (s.spaces .hsk).ackQued || (s.spaces .app).ackQued

def maybeQueueOppAck (s : AckConn) (t : AckTick) : Option AckConn :=
  if 0 < (s.spaces .app).nSlackAkbl ∧ (t.thingsToWrite ∨ s.sendPing) ∧ t.writeIsPossible then
    some s.forceQueueingAckApp
  else none

/-- The generation of ACKs in `ietf_full_conn_ci_tick`. -/
def tick (s : AckConn) (t : AckTick) : AckConn :=
  if t.pacerBlocked then s
  else
    let s := s.queueLost t.lostAcks
    if s.anyQued then s.generateAckFrame t.room
    else if t.haveDelayedPackets then s
    else
      match s.maybeQueueOppAck t with
      | some s => s.generateAckFrame t.room
      | none => s

def holesAfter (h : Rechist) (packno : Nat) : Bool :=
  match h.first with
  | some range => decide (packno < range.low) && decide (h.cutoff < packno)
  | none => false

/-- `process_regular_packet` up to the receive history. -/
def processRegularPacket (s : AckConn) (p : IncomingPacket) : AckConn × Int :=
  if p.headerType = .retry then (s, 0)
  else if (s.spaces p.headerType.pns).ignored then (s, 0)
  else if p.strayPath then (s, 0)
  else
    match p.decrypted with
    | some .violation => (s, -1)
    | some .badcrypt | some .tooShort =>
      if p.statelessReset then ({ s with gotPrst := true }, -1) else (s, 0)
    | some .notYet | some .nomem => (s, 0)
    | some .ok | none =>
      let space := s.spaces p.headerType.pns
      let isRechistEmpty := decide (space.rechist.nUsed = 0)
      let (rechist, st) := space.rechist.received p.malo p.packno p.received
      let s := s.modify p.headerType.pns ({ · with rechist := rechist })
      match st with
      | .ok => ({ s with parsing := ⟨p, isRechistEmpty⟩ :: s.parsing }, 0)
      | .dup => (s, 0)
      | .err => (s, -1)

/-- What is known once the frames of a packet are parsed. -/
structure ParseResult where
  frameTypes : FtBits
  onDcidChangeFails : Bool
  ecnTurnedOn : Bool
  /-- There are frames to send besides PING, or streams that write. -/
  willWrite : Bool
  srtt : Nat

def manyInAndWillWrite (s : AckConn) (r : ParseResult) : Bool :=
  decide (maxAnyPackets < s.nSlackAll) && (s.sendPing || r.willWrite)

def tryQueueingAckApp (s : AckConn) (wasMissing : WasMissing) (ecn : Ecn) (now : Nat)
    (r : ParseResult) : AckConn :=
  let n := (s.spaces .app).nSlackAkbl
  if s.maxRetxSinceLastAck ≤ n ∨ (ecn = .ce ∧ r.ecnTurnedOn) ∨ wasMissing = .maxGap
      ∨ (s.ackHadMiss ∧ wasMissing = .smaller ∧ 0 < n) ∨ s.manyInAndWillWrite r then
    s.forceQueueingAckApp
  else if 0 < n then
    if s.armed then s
    else
      let timeout := if r.srtt ≠ 0 then max 1000 (min s.maxAckDelay (r.srtt / 4))
        else s.maxAckDelay
      { s with armed := true, expiry := (now + timeout) % 2 ^ 64 }
  else s

def tryQueueingAckInitOrHsk (s : AckConn) (pns : Pns) : AckConn :=
  if 0 < (s.spaces pns).nSlackAkbl then s.queue pns else s

/-- How an ackable packet of the application space lies among the others. -/
def wasMissing (s : AckConn) (p : ParsedPacket) : WasMissing :=
  let packno := p.packet.packno
  if s.maxAckablePacknoIn < packno then
    if ¬ p.isRechistEmpty ∧ s.maxAckablePacknoIn + 1 < packno
        ∧ holesAfter (s.spaces .app).rechist s.maxAckablePacknoIn then .maxGap else .none
  else if packno < s.maxAckablePacknoIn then .smaller
  else .none

def countPacket (s : AckConn) (p : ParsedPacket) (frameTypes : FtBits) : AckConn × WasMissing :=
  let pns := p.packet.headerType.pns
  let ackable := frameTypes.has iquicFrameAckableMask
  let missing := if ackable ∧ pns = .app then s.wasMissing p else .none
  let s := if ackable ∧ pns = .app then
      { s with maxAckablePacknoIn := max s.maxAckablePacknoIn p.packet.packno }
    else s
  let s := if ackable then
      s.modify pns fun x => { x with nSlackAkbl := (x.nSlackAkbl + 1) % 2 ^ 32 }
    else s
  let s := if pns = .app then { s with nSlackAll := (s.nSlackAll + 1) % 2 ^ 32 } else s
  (s, missing)

/-- An ACK is queued for a packet if there is reason to and none is queued yet. -/
def tryQueueing (s : AckConn) (p : IncomingPacket) (missing : WasMissing) (r : ParseResult) :
    AckConn :=
  let pns := p.headerType.pns
  if (s.spaces pns).ackQued then s
  else if pns = .app then s.tryQueueingAckApp missing p.ecn p.received r
  else s.tryQueueingAckInitOrHsk pns

def noteEcn (s : AckConn) (pns : Pns) (ecn : Ecn) : AckConn :=
  { s with incomingEcn := (2 * s.incomingEcn + if ecn = Ecn.notEct then 0 else 1) % 2 ^ 8 }.modify
    pns fun x => { x with
      ecnCountsIn := Function.update x.ecnCountsIn ecn ((x.ecnCountsIn ecn + 1) % 2 ^ 64) }

/-- `process_regular_packet` after `parse_regular_packet`. -/
def packetParsed (s : AckConn) (r : ParseResult) : AckConn × Int :=
  match s.parsing with
  | [] => (s, 0)
  | p :: rest =>
    let s := { s with parsing := rest }
    if r.onDcidChangeFails then (s, -1)
    else
      let (s, missing) := s.countPacket p r.frameTypes
      let s := s.tryQueueing p.packet missing r
      (s.noteEcn p.packet.headerType.pns p.packet.ecn, 0)

structure AckFrequency where
  seqno : Nat
  packTol : Nat
  updMad : Nat
  ignore : Bool
  parsedLen : Nat

/-- `process_ack_frequency_frame`; zero is an error. -/
def processAckFrequencyFrame (s : AckConn) (f : Option AckFrequency) : AckConn × Nat :=
  if ¬ s.delayedAcks then (s, 0)
  else
    match f with
    | none => (s, 0)
    | some f =>
      if f.packTol = 0 ∨ f.updMad < tpMinAckDelay then (s, 0)
      else if 0 < s.maxAckFreqSeqno ∧ f.seqno ≤ s.maxAckFreqSeqno then (s, f.parsedLen)
      else
        ({ s with
          maxAckFreqSeqno := f.seqno
          maxRetxSinceLastAck :=
            if f.packTol < 2 ^ 32 - 1 then f.packTol else s.maxRetxSinceLastAck
          maxAckDelay := f.updMad
          ignoreMissing := f.ignore
          ackHadMiss := if f.ignore then false else s.ackHadMiss }, f.parsedLen)

/-- The end of `ietf_full_conn_ci_retx_timeout`: ECN is turned off on both sides. -/
def retxTimeout (s : AckConn) (ecnTurnedOn : Bool) : AckConn :=
  if ecnTurnedOn ∧ (s.spaces .app).rechist.first.isSome then
    let s := s.modify .app ({ · with ecnCountsIn := fun _ => 0 })
    { { s with sendWrongCounts := true }.forceQueueingAckApp with sendPing := true }
  else s

def ignoreSpace (s : AckConn) (pns : Pns) : AckConn :=
  s.modify pns ({ · with
    ignored := true
    ackQued := false
    rechist := { cutoff := 0, maxRanges := 0 } })

end AckConn

/-- A packet comes in and, once parsed, is counted; a vectored write drops its snapshot or rolls
back. -/
inductive AckOp
  | packetIn (p : IncomingPacket)
  | packetParsed (r : AckConn.ParseResult)
  | ackFrequency (f : Option AckConn.AckFrequency)
  | ringExpired (now : Nat)
  | tick (t : AckConn.AckTick)
  | writeAck (g : AckConn.AckRoom)
  | snapshot
  | written
  | rollback
  | retxTimeout (ecnTurnedOn : Bool)
  | ignoreInit
  | ignoreHsk
  | stopWait (pns : Pns) (cutoff : Nat)
  | delayedAcks
  | ping (send : Bool)

namespace AckConn

def step (s : AckConn) : AckOp → AckConn
  | .packetIn p => (s.processRegularPacket p).1
  | .packetParsed r => (s.packetParsed r).1
  | .ackFrequency f => (s.processAckFrequencyFrame f).1
  | .ringExpired now => s.ringExpired now
  | .tick t => s.tick t
  | .writeAck g => (s.generateAckFrameForPns .app g).1
  | .snapshot => { s with saved := s.snapshot :: s.saved }
  | .written => { s with saved := s.saved.tail }
  | .rollback =>
    match s.saved with
    | [] => s
    | a :: rest => { s with saved := rest }.restore a
  | .retxTimeout on => s.retxTimeout on
  | .ignoreInit => s.ignoreSpace .init
  | .ignoreHsk => s.ignoreSpace .hsk
  | .stopWait pns cutoff => s.modify pns fun x => { x with rechist := x.rechist.stopWait cutoff }
  | .delayedAcks => { s with delayedAcks := true }
  | .ping send => { s with sendPing := send }

def run (s : AckConn) (ops : List AckOp) : AckConn := ops.foldl step s

end AckConn

end QuicArt
