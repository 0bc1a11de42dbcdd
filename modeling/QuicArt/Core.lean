import QuicArt.Run
import QuicArt.Ring

namespace QuicArt

/-- The bytes charged for a packet, whether they were fixed when it was sent, and whether it carries
a handshake message or 0-RTT data. -/
structure Body where
  bytes : Nat
  fixed : Bool
  early : Bool

/-- What the numbering, the chains and the counters depend on in a packet. -/
@[ext] structure Pkt where
  packno : Int
  lossChain : PktId
  pns : Pns
  mtuProbe : Bool
  repackno : Bool
  sched : Bool
  unacked : Bool
  lost : Bool
  lossRec : Bool
  poison : Bool
  fakeLossRec : Nat
  retransTimes : Nat
  retransPacketNumber : Nat
  needRetransNumber : Nat
  feedbackRecorded : Nat
  tx : Nat
  body : Body

def Pkt.data (pk : Pkt) : Prop := pk.lossRec = false ∧ pk.poison = false

def PacketOut.core (env : Env) (pk : PacketOut) : Pkt where
  packno := pk.packno
  lossChain := pk.lossChain
  pns := pk.pns
  mtuProbe := pk.mtuProbe
  repackno := pk.repackno
  sched := pk.sched
  unacked := pk.unacked
  lost := pk.lost
  lossRec := pk.lossRec
  poison := pk.poison
  fakeLossRec := pk.fakeLossRec
  retransTimes := pk.retransTimes
  retransPacketNumber := pk.retransPacketNumber
  needRetransNumber := pk.needRetransNumber
  feedbackRecorded := pk.feedbackRecorded
  tx := pk.tx
  body := ⟨pk.sentSize env, pk.hasSentSz, pk.hello || pk.headerType == .zeroRtt⟩

/-- The send controller without timing, congestion control and the contents of packets. -/
@[ext] structure Core where
  pkts : PktId → Pkt
  nextId : PktId
  queue : Queue → List PktId
  bpqCount : BufPacketType → Int
  nInFlightAll : Int
  bytesUnackedAll : Int
  curPackno : Int
  lastSent : Int
  gap : Int
  nTotalSent : Nat
  rounds : List Nat
  log : List Event

def SendCtl.core (env : Env) (s : SendCtl) : Core where
  pkts p := (s.pkt p).core env
  nextId := s.nextId
  queue q := s.queue q
  bpqCount b := s.bpqCount.get b
  nInFlightAll := s.nInFlightAll
  bytesUnackedAll := s.bytesUnackedAll
  curPackno := s.curPackno
  lastSent := s.lastSent
  gap := s.gap
  nTotalSent := s.nTotalSent
  rounds := s.roundsMap
  log := s.log

namespace Core

def upd (c : Core) (p : PktId) (f : Pkt → Pkt) : Core :=
  { c with pkts := Function.update c.pkts p (f (c.pkts p)) }

def setQueue (c : Core) (q : Queue) (l : List PktId) : Core :=
  { c with queue := Function.update c.queue q l }

def emit (c : Core) (e : Event) : Core := { c with log := e :: c.log }

def alloc (c : Core) (pk : Pkt) : Core :=
  { c with pkts := Function.update c.pkts c.nextId pk, nextId := c.nextId + 1 }

def charge (c : Core) (n sz : Int) : Core :=
  { c with nInFlightAll := c.nInFlightAll + n, bytesUnackedAll := c.bytesUnackedAll + sz }

def addBpq (c : Core) (b : BufPacketType) (n : Int) : Core :=
  { c with bpqCount := Function.update c.bpqCount b (c.bpqCount b + n) }

def remove (c : Core) (q : Queue) (p : PktId) : Core := c.setQueue q ((c.queue q).erase p)

def append (c : Core) (q : Queue) (p : PktId) : Core := c.setQueue q (c.queue q ++ [p])

def unackedAppend (c : Core) (p : PktId) : Core :=
  ((c.append (.unacked (c.pkts p).pns) p).upd p ({ · with unacked := true })).charge 1
    (c.pkts p).body.bytes

def unackedRemove (c : Core) (p : PktId) : Core :=
  ((c.remove (.unacked (c.pkts p).pns) p).upd p ({ · with unacked := false })).charge (-1)
    (-(c.pkts p).body.bytes)

def schedAppend (c : Core) (p : PktId) : Core :=
  (c.append .scheduled p).upd p ({ · with sched := true })

def schedRemove (c : Core) (p : PktId) : Core :=
  (c.remove .scheduled p).upd p ({ · with sched := false })

def lostRemove (c : Core) (p : PktId) : Core :=
  (c.remove .lost p).upd p ({ · with lost := false })

def lostAppend (c : Core) (p : PktId) : Core :=
  (c.append .lost p).upd p ({ · with lost := true })

def recRemove (c : Core) (pns : Pns) (r : PktId) : Core :=
  (if (c.pkts r).fakeLossRec = 1 then c.charge (-1) (-(c.pkts r).body.bytes) else c).remove
    (.unacked pns) r

def nextPackno (c : Core) : Core :=
  if c.curPackno + 1 = c.gap then { c with curPackno := c.curPackno + 2 }
  else { c with curPackno := c.curPackno + 1 }

def senhistAdd (c : Core) (packno : Int) : Core :=
  if c.lastSent < packno then { c with lastSent := packno } else c

def markAll (c : Core) (l : List PktId) : Core :=
  { c with pkts := fun p => if p ∈ l then { c.pkts p with repackno := true } else c.pkts p }

/-- The packets behind `cur`, up to the first marked one, will get new numbers. -/
def renumberToRight (c : Core) (cur : PktId) : Core :=
  if (c.pkts cur).repackno then c
  else
    { c with curPackno := (c.pkts cur).packno - 1 }.markAll
      ((after cur (c.queue .scheduled)).takeWhile fun p => !(c.pkts p).repackno)

def resetPacknos (c : Core) : Core :=
  { c with curPackno := c.lastSent }.markAll (c.queue .scheduled)

/-- The record that stands for a lost transmission of `pk`. -/
def recordOf (pk : Pkt) : Pkt :=
  { pk with
    mtuProbe := false
    repackno := false
    sched := false
    unacked := true
    lost := false
    lossRec := true
    poison := false
    needRetransNumber := 0
    feedbackRecorded := 0
    body := ⟨pk.body.bytes, true, false⟩ }

/-- A record takes the place of a transmission in the chain, in front of the packet on its queue. -/
def recordLoss (c : Core) (p : PktId) : Core :=
  let pk := c.pkts p
  let r := c.nextId
  let c := (c.alloc (recordOf pk)).upd p ({ · with lossChain := r })
  let c := c.setQueue (.unacked pk.pns) (insertBefore p r (c.queue (.unacked pk.pns)))
  if pk.fakeLossRec = 1 then c.charge 1 pk.body.bytes else c

def recordFeedback (c : Core) (p : PktId) (value : Nat) (ok : Bool) : Core :=
  { c with log := (if ok then [.feedback (c.pkts p).tx value ((c.pkts p).feedbackRecorded ≠ 0)]
      else []) ++ c.log }

def enqueue (c : Core) (p : PktId) (body : Body) (mtu : Bool) : Core :=
  let c := c.nextPackno
  (c.upd p ({ · with packno := c.curPackno, body := body, mtuProbe := mtu })).schedAppend p

def addPoison (c : Core) (sz : Nat) : Core :=
  (c.alloc
    { packno := c.gap, lossChain := c.nextId, pns := .init, mtuProbe := false,
      repackno := false, sched := false, unacked := true, lost := false, lossRec := false,
      poison := true, fakeLossRec := 0, retransTimes := 0, retransPacketNumber := 0,
      needRetransNumber := 0, feedbackRecorded := 0, tx := 0, body := ⟨sz, false, false⟩ }).append
    (.unacked .app) c.nextId

def takeHead (c : Core) (p : PktId) (body : Body) : Core :=
  ((c.schedRemove p).upd p ({ · with body := body })).emit (.sent p (c.pkts p).packno)

/-- A poison packet goes in front of the number behind the gap. -/
def withPoison (c : Core) (packno : Int) (sz : Nat) : Core :=
  if packno = c.gap + 1 then (c.senhistAdd c.gap).addPoison sz else c

/-- The packet is reported as sent; the transmission gets the next serial number. -/
def launch (c : Core) (p : PktId) (packno : Int) : Core :=
  let c := c.senhistAdd packno
  let c := (c.upd p ({ · with tx := c.nTotalSent })).unackedAppend p
  { c with nTotalSent := c.nTotalSent + 1 }

def sendHead (c : Core) (p : PktId) (body : Body) (poisonSz : Nat) : Core :=
  ((c.takeHead p body).withPoison (c.pkts p).packno poisonSz).launch p (c.pkts p).packno

def renumberHead (c : Core) (p : PktId) (body : Body) : Core :=
  let c := c.nextPackno
  c.upd p ({ · with packno := c.curPackno, body := body, repackno := false })

/-- An entry of the map may go up or down by one, but not down to zero. -/
def RoundStep (i : Nat) (rounds rounds' : List Nat) : Prop :=
  ∃ v, rounds' = rounds.set i v ∧ (1 ≤ rounds.getD i 0 → rounds.getD i 0 + 1 < 2 ^ 32 →
    1 ≤ v ∧ v ≤ rounds.getD i 0 + 1)

def newTurn (c : Core) (p : PktId) (need : Nat) (rounds : List Nat) : Core :=
  let times := u16add (c.pkts p).retransTimes 1
  (upd { c with rounds } p
    ({ · with retransTimes := times, needRetransNumber := need, fakeLossRec := 1 })).emit
    (.newTurn p times (c.pkts p).retransPacketNumber need)

def duplicate (c : Core) (p : PktId) : Core :=
  let rpn := u16add (c.pkts p).retransPacketNumber 1
  (c.upd p ({ · with retransPacketNumber := rpn })).emit
    (.duplicate p rpn (c.pkts p).needRetransNumber)

def ackIf (c : Core) (p : PktId) (ack : Bool) : Core :=
  if ack then c.emit (.ackStreams p) else c

def replicaFeedback (c : Core) (p : PktId) (ok : Bool) : Core :=
  if (c.pkts p).fakeLossRec = 1 then c.recordFeedback p 0 ok else c

end Core

end QuicArt
