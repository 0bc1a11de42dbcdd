import QuicArt.PacketOut
import QuicArt.Tailq
import QuicArt.Scan

namespace QuicArt

inductive BufPacketType
  | highestPrio | otherPrio
  deriving DecidableEq, Repr, Inhabited

inductive Queue
  | unacked (pns : Pns) | scheduled | lost | stash
  | buffered (b : BufPacketType)
  deriving DecidableEq, Repr

/-- What the stream and frame writers put into a packet before or after it is queued. -/
structure Content where
  frameTypes : FtBits := 0#32
  frecs : List FrameRec := []
  dataSz : Nat := 0
  regenSz : Nat := 0
  streamEnd : Bool := false
  hello : Bool := false
  mtuProbe : Bool := false
  headerType : Option HeaderType := none
  encLevel : Nat := 0
  ack2ed : Int := 0
  deriving DecidableEq, Repr, Inhabited

/-- What was handed to the engine, the streams, the congestion controller and the feedback window,
and the turns of retransmissions. -/
inductive Event
  | sent (p : PktId) (packno : Int)
  | ackStreams (p : PktId)
  | declared (p : PktId)
  | newTurn (p : PktId) (index rpn need : Nat)
  | duplicate (p : PktId) (rpn need : Nat)
  | feedback (tx value : Nat) (recorded : Bool)
  | cciLoss
  deriving DecidableEq, Repr

/-- The code around the send controller; calls take the number of calls made so far. -/
structure Env where
  ietf : Bool
  server : Bool
  nstp : Bool
  ecn : Bool
  pace : Bool
  malo : Nat → Bool
  timeNow : Nat → Time
  rand : Nat → Nat
  crandByte : Nat → Nat
  cwnd : Nat → Nat
  pacerCanSchedule : Nat → Bool
  bytesIn : Nat → Nat
  bytesOut : Nat → Nat
  handshakeDone : Nat → Bool
  equalDcids : Nat → Bool
  dataAddr : Nat → Nat
  packSize : Nat → Nat
  curPath : Nat → Nat
  headerSz : HeaderType → Nat → Nat → Nat → Nat
  tagLen : Nat
  maxPeerAckUsec : Time
  calcPacknoBits : Int → Int → Nat → Nat
  packnoBits2len : Nat → Nat
  vintVal2bits : Int → Nat
  resize : Nat → Nat → List PacketOut → List Content × Nat × Bool

/-- `SC_PACK_SIZE`: what the current path takes. -/
def Env.scPackSize (env : Env) (tick : Nat) : Nat := env.packSize (env.curPath tick)

/-- `lsquic_packet_resize.c` returns no packet without data, none that has more than the room of a
new packet, and none with a frame that its input does not have. -/
def Env.Resizes (env : Env) : Prop :=
  ∀ tick room input, ∀ c ∈ (env.resize tick room input).1, 0 < c.dataSz ∧ c.dataSz ≤ room ∧
    ∀ f ∈ c.frecs, ∃ pk ∈ input, ∃ f' ∈ pk.frecs,
      f.frameType = f'.frameType ∧ f.stream = f'.stream

def Env.retxFrames (env : Env) : FtBits :=
  if env.ietf then iquicFrameRetxMask else gquicFrameRetransmittableMask

def PacketOut.totalSz (env : Env) (p : PacketOut) : Nat :=
  env.headerSz p.headerType p.packnoBits p.tokenLen p.path + p.dataSz + env.tagLen

def PacketOut.sentSize (env : Env) (p : PacketOut) : Nat :=
  if p.hasSentSz then p.sentSz else p.totalSz env

structure RttStats where
  srtt : Time := 0
  rttvar : Time := 0
  minRtt : Time := 0
  deriving DecidableEq, Repr

def RttStats.update (st : RttStats) (sendDelta lackDelta : Time) : RttStats :=
  let sendDelta := if lackDelta < sendDelta then sendDelta - lackDelta else sendDelta
  if st.srtt ≠ 0 then
    { srtt := st.srtt - st.srtt >>> 3 + sendDelta >>> 3
      rttvar := st.rttvar - st.rttvar >>> 2 + ((sendDelta : Int) - st.srtt).natAbs >>> 2
      minRtt := min sendDelta st.minRtt }
  else
    { srtt := sendDelta, rttvar := sendDelta >>> 1, minRtt := sendDelta }

def maxRoundBound : Nat := 20
def maxFeedbackWindowSize : Nat := 10

/-- `struct lsquic_send_ctl`. Counters are integers, to be read modulo `2 ^ 32`. `pkts` are all
packets allocated so far, `tick` counts the calls into `Env`, `log` is the history. -/
structure SendCtl where
  pkts : Table PktId PacketOut := ∅
  nextId : PktId := 0
  queues : Table Queue (List PktId) := ∅
  bpqCount : Table BufPacketType Int := ∅
  nInFlightAll : Int := 0
  bytesUnackedAll : Int := 0
  nInFlightRetx : Int := 0
  bytesUnackedRetx : Int := 0
  nScheduled : Int := 0
  bytesScheduled : Int := 0
  lostPacketNumber : Int := 0
  curPackno : Int := 0
  lastSent : Int := 0
  gap : Int := 18446744073709551614
  largestAckedPackno : Int := 0
  largestAckedSentTime : Time := 0
  largestSentAtCutback : Int := 0
  maxRttPackno : Int := 0
  largestAck2ed : Table Pns Int := ∅
  largestAcked : Int := 0
  lastSentTime : Time := 0
  lastRtoTime : Time := 0
  lossTo : Time := 0
  ecn : Ecn := .notEct
  ecnTotalAcked : Table Pns Nat := ∅
  ecnCeCnt : Table Pns Nat := ∅
  nextLimit : Nat := 0
  nConsecRtos : Nat := 0
  nHsk : Nat := 0
  nTlp : Nat := 0
  nStopWaiting : Nat := 0
  rtCount : Nat := 0
  curRtEnd : Int := 0
  reordThresh : Int := 3
  lossCount : Nat := 0
  squareCount : Nat := 0
  maxPacknoBits : Nat := 2
  roundsMap : List Nat := []
  feedbackWindow : List Nat := []
  feedbackWindowSize : Nat := 0
  allRetransPacketNum : Nat := 0
  rttStats : RttStats := {}
  retxAlarm : Table Pns (Option Time) := ∅
  artAlarm : Option Time := none
  ackRecv : Table Pns Bool := ∅
  lostAck : Table Pns Bool := ∅
  schedTick : Bool := false
  bufferStream : Bool := false
  wasQuiet : Bool := false
  oneRttAcked : Bool := false
  qlBits : Bool := false
  poison : Bool := false
  roughRtt : Bool := false
  senhistGapOk : Bool := false
  preHsk : Bool := false
  tokenSz : Option Nat := none
  writeReset : List StreamId := []
  nTotalSent : Nat := 0
  aborted : Bool := false
  tick : Nat := 0
  log : List Event := []

namespace SendCtl

def pkt (s : SendCtl) (p : PktId) : PacketOut := s.pkts.get p
def queue (s : SendCtl) (q : Queue) : List PktId := s.queues.get q

def upd (s : SendCtl) (p : PktId) (f : PacketOut → PacketOut) : SendCtl :=
  { s with pkts := s.pkts.modify p f }

def setQueue (s : SendCtl) (q : Queue) (l : List PktId) : SendCtl :=
  { s with queues := s.queues.set q l }

def emit (s : SendCtl) (e : Event) : SendCtl := { s with log := e :: s.log }

def alloc (s : SendCtl) (pk : PacketOut) : SendCtl :=
  { s with pkts := s.pkts.set s.nextId pk, nextId := s.nextId + 1 }

def ticked (s : SendCtl) : SendCtl := { s with tick := s.tick + 1 }

/-- `sc_rounds_map[i]` as `lsquic_send_ctl_init` fills it, in unsigned arithmetic. -/
def initialRound (i : Nat) : Nat := u32 (2 * i - 1)

def init (env : Env) : SendCtl :=
  let first : Int := if env.ietf then 0 else 1
  { curPackno := first - 1
    lastSent := if env.ietf then -1 else 0
    ecn := if env.ecn then .ect0 else .notEct
    roundsMap := (List.range maxRoundBound).map initialRound
    preHsk := env.ietf && env.server }

def overQueue (q : Queue) (body : SendCtl → PktId → SendCtl × Option PktId) (s : SendCtl) :
    SendCtl :=
  scan (fun _ _ => true) body (s.queue q).length s (s.queue q).head?

section
variable (env : Env)

def unackedAppend (s : SendCtl) (p : PktId) : SendCtl :=
  let pk := s.pkt p
  let s := s.setQueue (.unacked pk.pns) (s.queue (.unacked pk.pns) ++ [p])
  let s := s.upd p ({ · with unacked := true })
  let s := { s with
    bytesUnackedAll := s.bytesUnackedAll + pk.sentSize env
    nInFlightAll := s.nInFlightAll + 1 }
  if pk.frameTypes.has env.retxFrames then
    { s with
      bytesUnackedRetx := s.bytesUnackedRetx + pk.totalSz env
      nInFlightRetx := s.nInFlightRetx + 1 }
  else s

def unackedRemove (s : SendCtl) (p : PktId) (packetSz : Nat) : SendCtl :=
  let pk := s.pkt p
  let s := s.setQueue (.unacked pk.pns) ((s.queue (.unacked pk.pns)).erase p)
  let s := s.upd p ({ · with unacked := false })
  let s := { s with
    bytesUnackedAll := s.bytesUnackedAll - packetSz
    nInFlightAll := s.nInFlightAll - 1 }
  if pk.frameTypes.has env.retxFrames then
    { s with
      bytesUnackedRetx := s.bytesUnackedRetx - packetSz
      nInFlightRetx := s.nInFlightRetx - 1 }
  else s

def schedAppend (s : SendCtl) (p : PktId) : SendCtl :=
  let s := s.setQueue .scheduled (s.queue .scheduled ++ [p])
  let s := s.upd p ({ · with sched := true })
  { s with
    nScheduled := s.nScheduled + 1
    bytesScheduled := s.bytesScheduled + (s.pkt p).totalSz env }

def schedRemove (s : SendCtl) (p : PktId) : SendCtl :=
  let s := s.setQueue .scheduled ((s.queue .scheduled).erase p)
  let s := s.upd p ({ · with sched := false })
  { s with
    nScheduled := s.nScheduled - 1
    bytesScheduled := s.bytesScheduled - (s.pkt p).totalSz env }

/-- `TAILQ_REMOVE` from the lost queue together with its counter. -/
def lostRemove (s : SendCtl) (p : PktId) : SendCtl :=
  let s := s.setQueue .lost ((s.queue .lost).erase p)
  { s with lostPacketNumber := s.lostPacketNumber - 1 }

/-- `TAILQ_INSERT_TAIL` into the lost queue together with its counter and flag. -/
def lostAppend (s : SendCtl) (p : PktId) : SendCtl :=
  let s := s.setQueue .lost (s.queue .lost ++ [p])
  { s with lostPacketNumber := s.lostPacketNumber + 1 }.upd p ({ · with lost := true })

def bufferedAppend (s : SendCtl) (b : BufPacketType) (p : PktId) : SendCtl :=
  let s := s.setQueue (.buffered b) (s.queue (.buffered b) ++ [p])
  { s with bpqCount := s.bpqCount.modify b (· + 1) }

def bufferedRemove (s : SendCtl) (b : BufPacketType) (p : PktId) : SendCtl :=
  let s := s.setQueue (.buffered b) ((s.queue (.buffered b)).erase p)
  { s with bpqCount := s.bpqCount.modify b (· - 1) }

/-- `send_ctl_next_packno`; the number is the new `curPackno`. -/
def nextPackno (s : SendCtl) : SendCtl :=
  if s.curPackno + 1 = s.gap then { s with curPackno := s.curPackno + 2 }
  else { s with curPackno := s.curPackno + 1 }

def senhistAdd (s : SendCtl) (packno : Int) : SendCtl :=
  if s.lastSent < packno then { s with lastSent := packno } else s

def beginOptackDetection (s : SendCtl) : SendCtl :=
  { s.ticked with gap := s.curPackno + 1 + (env.crandByte s.tick % 256 : Nat) }

def poisonPacket (s : SendCtl) : PacketOut :=
  { unacked := true, poison := true, packno := s.gap, lossChain := s.nextId }

/-- `send_ctl_add_poison`: `false` is the -1 of a failed allocation. -/
def addPoison (s : SendCtl) : SendCtl × Bool :=
  if env.malo s.tick then
    let poison := s.nextId
    let s := s.ticked.alloc s.poisonPacket
    let s := s.setQueue (.unacked .app) (s.queue (.unacked .app) ++ [poison])
    ({ s with poison := true }, true)
  else
    (s.ticked, false)

def reschedulePoison (s : SendCtl) : SendCtl :=
  match (s.queue (.unacked .app)).find? fun p => (s.pkt p).poison with
  | some poison =>
    let s := s.setQueue (.unacked .app) ((s.queue (.unacked .app)).erase poison)
    { s.beginOptackDetection env with poison := false }
  | none => s

def updatePoisonHist (s : SendCtl) (packno : Int) : SendCtl × Bool :=
  if packno = s.gap + 1 then (s.senhistAdd s.gap).addPoison env else (s, true)

/-- Mark the packets of a stretch of the scheduled queue up to the first marked one. -/
def markRepackno (s : SendCtl) : List PktId → SendCtl
  | [] => s
  | p :: l =>
    if (s.pkt p).repackno then s
    else (s.upd p ({ · with repackno := true })).markRepackno l

def maybeRenumberSchedToRight (s : SendCtl) (cur : PktId) : SendCtl :=
  if (s.pkt cur).repackno then s
  else
    { s with curPackno := (s.pkt cur).packno - 1 }.markRepackno (after cur (s.queue .scheduled))

inductive RetxMode
  | handshake | loss | tlp | rto
  deriving DecidableEq, Repr

def firstUnackedRetxPacket (s : SendCtl) (pns : Pns) : Option PktId :=
  (s.queue (.unacked pns)).find? fun p =>
    !(s.pkt p).lossRec && !(s.pkt p).poison && (s.pkt p).frameTypes.has env.retxFrames

def lastUnackedRetxPacket (s : SendCtl) (pns : Pns) : Option PktId :=
  (s.queue (.unacked pns)).reverse.find? fun p =>
    !(s.pkt p).lossRec && !(s.pkt p).poison && (s.pkt p).frameTypes.has env.retxFrames

def allPns : List Pns := if env.ietf then [.init, .hsk, .app] else [.app]

def haveUnackedHandshakePackets (s : SendCtl) : Bool :=
  (allPns env).any fun pns => (s.queue (.unacked pns)).any fun p => (s.pkt p).hello

def getRetxMode (s : SendCtl) : RetxMode :=
  if !env.handshakeDone s.tick && s.haveUnackedHandshakePackets env then .handshake
  else if s.lossTo ≠ 0 then .loss
  else if s.nTlp < 2 then .tlp
  else .rto

def getRetxDelay (st : RttStats) : Time :=
  if st.srtt ≠ 0 then max (st.srtt + 4 * st.rttvar) 200000 else 500000

def calculatePacketRto (s : SendCtl) : Time :=
  getRetxDelay s.rttStats * 2 ^ min s.nConsecRtos 10

def calculateTlpDelay (s : SendCtl) : Time :=
  let srtt := s.rttStats.srtt
  if 1 < u32 s.nInFlightAll then max 10000 (2 * srtt)
  else max (srtt + srtt / 2 + env.maxPeerAckUsec) (2 * srtt)

def setRetxAlarm (s : SendCtl) (pns : Pns) (now : Time) : SendCtl :=
  let (delay, nHsk) : Time × Nat := match s.getRetxMode env with
    | .handshake =>
      let srtt := s.rttStats.srtt
      let delay := if srtt ≠ 0 then max (srtt + srtt / 2) 10000 else 150000
      (delay * 2 ^ s.nHsk, s.nHsk + 1)
    | .loss => (s.lossTo, s.nHsk)
    | .tlp => (s.calculateTlpDelay env, s.nHsk)
    | .rto => (s.calculatePacketRto, s.nHsk)
  { s.ticked with
    nHsk := nHsk
    retxAlarm := s.retxAlarm.set pns (some (now + min delay 60000000)) }

def armForSent (s : SendCtl) (pk : PacketOut) : SendCtl :=
  if pk.frameTypes.has env.retxFrames then
    let s := if s.retxAlarm.get pk.pns = none then s.setRetxAlarm env pk.pns pk.sent else s
    if u32 s.nInFlightRetx = 1 then { s with wasQuiet := true } else s
  else s

/-- The packet goes on the unacked queue; the transmission gets the next serial number. -/
def launch (s : SendCtl) (p : PktId) (pk : PacketOut) : SendCtl :=
  let s := s.senhistAdd pk.packno
  let s := s.upd p ({ · with tx := s.nTotalSent })
  let s := (s.unackedAppend env p).armForSent env pk
  { s with nTotalSent := s.nTotalSent + 1 }

/-- `lsquic_send_ctl_sent_packet`. The packet number is logged as it is handed over. -/
def sentPacket (s : SendCtl) (p : PktId) : SendCtl × Bool :=
  let pk := s.pkt p
  let s := { s.emit (.sent p pk.packno) with lastSentTime := pk.sent }
  match s.updatePoisonHist env pk.packno with
  | (s, false) => (s, false)
  | (s, true) => (s.launch env p pk, true)

def lossEvent (s : SendCtl) : SendCtl :=
  { s.emit .cciLoss with largestSentAtCutback := s.lastSent }

def disableEcn (s : SendCtl) : SendCtl :=
  (s.queue .scheduled).foldl (fun s p => s.upd p ({ · with ecn := .notEct }))
    { s with ecn := .notEct }

end

end SendCtl

end QuicArt
