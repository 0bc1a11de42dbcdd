import QuicArt.Core

namespace QuicArt

/-- `l` is a ring through loss records, on the unacked queue of the space of `d` or just taken off
it. -/
structure ChainAt (c : Core) (hand : List PktId) (d : PktId) (l : List PktId) : Prop where
  ring : Ring (fun p => (c.pkts p).lossChain) d l
  recs : ∀ r ∈ l, (c.pkts r).lossRec = true
  space : ∀ r ∈ l, (c.pkts r).pns = (c.pkts d).pns
  here : ∀ r ∈ l, r ∈ c.queue (.unacked (c.pkts d).pns) ∨ r ∈ hand

/-- What a step of the controller may do besides moving packets about. -/
inductive Kind
  /-- scheduled packets lose their numbers -/
  | mark
  /-- numbered packets are appended to the scheduled queue -/
  | append
  /-- they are appended behind packets that have lost their numbers -/
  | tangle
  /-- the scheduled queue is built anew -/
  | resize
  | send
  /-- a retransmission turn goes on or begins -/
  | lose
  /-- a turn begins whose index is past the end of the table of rounds -/
  | deep
  /-- a turn begins with the duplicates of the turn before it -/
  | again
  /-- a duplicate is made beyond the quota of the turn -/
  | overrun
  /-- an ACK is taken as feedback for a replica whose loss was reported -/
  | late
  /-- a dropped replica is given back twice -/
  | elide
  /-- replicas are dropped without being given back -/
  | purge
  /-- the counter of a buffered queue goes astray -/
  | miscount
  | stash
  /-- new packets are allocated -/
  | alloc
  deriving DecidableEq

structure Pkt.Fresh (pk : Pkt) (p : PktId) : Prop where
  chain : pk.lossChain = p
  data : pk.data
  flags : pk.sched = false ∧ pk.unacked = false ∧ pk.lost = false
  repackno : pk.repackno = false
  mtuProbe : pk.mtuProbe = false
  turn : pk.fakeLossRec = 0 ∧ pk.retransTimes = 0 ∧ pk.retransPacketNumber = 0
  feedback : pk.feedbackRecorded = 0

/-- The machine, the packets in hand, and those that are being destroyed with their chains. -/
structure Cfg where
  core : Core
  hand : List PktId
  doomed : List PktId

/-- `doomed` takes whole chains. -/
def ClosedUnderChains (c : Core) (h x : List PktId) : Prop :=
  ∀ d l, (c.pkts d).data → ChainAt c h d l →
    (d ∈ x ∧ ∀ r ∈ l, r ∈ x) ∨ (d ∉ x ∧ ∀ r ∈ l, r ∉ x)

def NoMarks (c : Core) : Prop := ∀ p ∈ c.queue .scheduled, (c.pkts p).repackno = false

/-- The elementary steps of the send controller; `m` tells which kinds a function may make. -/
inductive Move (m : Kind → Prop) : Cfg → Cfg → Prop
  | resize (hp : ∀ n, p ∉ c.queue (.unacked n)) (hd : (c.pkts p).data) :
      Move m ⟨c, h, x⟩ ⟨c.upd p ({ · with body := body }), h, x⟩
  | congest : Move m ⟨c, h, x⟩ ⟨c.emit .cciLoss, h, x⟩
  | declare (hp : p ∈ c.queue (.unacked n)) (hd : (c.pkts p).data)
      (hn : (c.pkts p).fakeLossRec = 0 ∨
        (c.pkts p).needRetransNumber ≤ (c.pkts p).retransPacketNumber) :
      Move m ⟨c, h, x⟩ ⟨c.emit (.declared p), h, x⟩
  | setGap (hg : c.curPackno < g) : Move m ⟨c, h, x⟩ ⟨{ c with gap := g }, h, x⟩
  | scrub (hq : ∀ q, p ∉ c.queue q) (hh : p ∉ h) :
      Move m ⟨c, h, x⟩ ⟨c.upd p ({ · with lossChain := a }), h, x⟩
  | shuffle (hp : h.Perm h') : Move m ⟨c, h, x⟩ ⟨c, h', x⟩
  | fresh (hm : m .alloc) (hpk : pk.Fresh c.nextId) :
      Move m ⟨c, h, []⟩ ⟨c.alloc pk, c.nextId :: h, []⟩
  | takeSched (hp : p ∈ c.queue .scheduled) :
      Move m ⟨c, h, []⟩ ⟨c.schedRemove p, p :: h, []⟩
  | takeLost (hm : m .append) (hp : p ∈ c.queue .lost) :
      Move m ⟨c, h, []⟩ ⟨c.lostRemove p, p :: h, []⟩
  | takeBuffered (hp : p ∈ c.queue (.buffered b)) :
      Move m ⟨c, h, []⟩ ⟨(c.remove (.buffered b) p).addBpq b (-1), p :: h, []⟩
  | splitBuffered (hm : m .miscount) (hp : p ∈ c.queue (.buffered b)) :
      Move m ⟨c, h, []⟩ ⟨(c.remove (.buffered b) p).addBpq b 1, p :: h, []⟩
  | takeUnacked (hp : p ∈ c.queue (.unacked n)) (hd : (c.pkts p).data) :
      Move m ⟨c, h, []⟩ ⟨c.unackedRemove p, p :: h, []⟩
  | lose (hm : m .lose) (hp : p ∈ c.queue (.unacked n)) (hd : (c.pkts p).data)
      (hu : (c.pkts p).mtuProbe = false) :
      Move m ⟨c, h, []⟩ ⟨(c.recordLoss p).unackedRemove p, p :: h, []⟩
  | ackData (hp : p ∈ c.queue (.unacked n)) (hd : (c.pkts p).data)
      (hl : (c.pkts p).fakeLossRec = 1 → (c.pkts p).feedbackRecorded = 0 ∨ m .late) :
      Move m ⟨c, h, []⟩ ⟨(c.replicaFeedback p ok).unackedRemove p, p :: h, []⟩
  | ackRecord (hp : p ∈ c.queue (.unacked n)) (hr : (c.pkts p).lossRec = true)
      (hl : (c.pkts p).fakeLossRec = 1 → (c.pkts p).feedbackRecorded = 0 ∨ m .late) :
      Move m ⟨c, h, []⟩ ⟨(c.replicaFeedback p ok).recRemove n p, p :: h, []⟩
  | reportLoss (hp : p ∈ c.queue (.unacked n)) (hr : (c.pkts p).lossRec = true)
      (hf : (c.pkts p).fakeLossRec = 1) (hn : (c.pkts p).feedbackRecorded = 0) :
      Move m ⟨c, h, []⟩
        ⟨(c.recordFeedback p 1 ok).upd p ({ · with feedbackRecorded := 1 }), h, []⟩
  | toLost (hd : (c.pkts p).data) (hr : (c.pkts p).repackno = false)
      (he : c.queue .lost = pre ++ suf) :
      Move m ⟨c, p :: h, []⟩
        ⟨(c.setQueue .lost (pre ++ p :: suf)).upd p ({ · with lost := true }), h, []⟩
  | newTurn (hm : m .lose) (hd : (c.pkts p).data) (hr : (c.pkts p).repackno = false)
      (hu : (c.pkts p).mtuProbe = false)
      (ht : (c.pkts p).retransTimes + 1 < maxRoundBound ∨ m .deep)
      (ha : (c.pkts p).fakeLossRec = 0 ∨ (c.pkts p).retransPacketNumber = 0 ∨ m .again)
      (hn : need < 65536)
      (hl : Core.RoundStep (u16add (c.pkts p).retransTimes 1) c.rounds rounds) :
      Move m ⟨c, p :: h, []⟩ ⟨(c.lostAppend p).newTurn p need rounds, h, []⟩
  | duplicate (hm : m .lose) (hd : (c.pkts p).data) (hr : (c.pkts p).repackno = false)
      (hf : (c.pkts p).fakeLossRec ≠ 0)
      (hq : (c.pkts p).retransPacketNumber < (c.pkts p).needRetransNumber ∨ m .overrun) :
      Move m ⟨c, p :: h, []⟩ ⟨(c.lostAppend p).duplicate p, h, []⟩
  | toStash (hm : m .stash) (hd : (c.pkts p).data) (hr : (c.pkts p).repackno = false) :
      Move m ⟨c, p :: h, []⟩ ⟨c.append .stash p, h, []⟩
  | toBuffered (hd : (c.pkts p).data) (hr : (c.pkts p).repackno = false)
      (hc : (c.pkts p).lossChain = p) (he : c.queue (.buffered b) = pre ++ suf) :
      Move m ⟨c, p :: h, []⟩ ⟨(c.setQueue (.buffered b) (pre ++ p :: suf)).addBpq b 1, h, []⟩
  | enqueue (hm : m .append) (ht : NoMarks c ∨ m .tangle) (hd : (c.pkts p).data)
      (hr : (c.pkts p).repackno = false)
      (hu : mtu = (c.pkts p).mtuProbe ∨
        ((c.pkts p).lossChain = p ∧ (c.pkts p).fakeLossRec = 0)) :
      Move m ⟨c, p :: h, []⟩ ⟨c.enqueue p body mtu, h, []⟩
  | renumberHead (hm : m .send) (hp : c.queue .scheduled = p :: l)
      (hr : (c.pkts p).repackno = true) :
      Move m ⟨c, h, []⟩ ⟨c.renumberHead p body, h, []⟩
  | sendHead (hm : m .send) (hp : c.queue .scheduled = p :: l)
      (hr : (c.pkts p).repackno = false) :
      Move m ⟨c, h, []⟩ ⟨c.sendHead p body poisonSz, h, []⟩
  | dropPoison (hp : p ∈ c.queue (.unacked n)) (hd : (c.pkts p).poison = true) :
      Move m ⟨c, h, x⟩ ⟨c.remove (.unacked n) p, h, x⟩
  | elideTwice (hm : m .elide) : Move m ⟨c, h, x⟩ ⟨c.charge (-1) (-sz), h, x⟩
  | rewind (hm : m .resize) : Move m ⟨c, h, x⟩ ⟨{ c with curPackno := c.lastSent }, h, x⟩
  | requeue (hm : m .resize) (hd : (c.pkts p).data) (hr : (c.pkts p).repackno = false) :
      Move m ⟨c, p :: h, []⟩
        ⟨(c.nextPackno.upd p ({ · with packno := c.nextPackno.curPackno, body := body })).schedAppend
          p, h, []⟩
  | doom (hx : ClosedUnderChains c h x) : Move m ⟨c, h, []⟩ ⟨c, h, x⟩
  | undoom (hh : ∀ p ∈ x, p ∉ h) (hq : ∀ p ∈ x, ∀ q ≠ .stash, p ∉ c.queue q) :
      Move m ⟨c, h, x⟩ ⟨c, h, []⟩
  | release {ack : Bool} (hx : p ∈ x) (ha : ack = true → (c.pkts p).data) :
      Move m ⟨c, p :: h, x⟩ ⟨c.ackIf p ack, h, x⟩
  | killRecord (hp : r ∈ c.queue (.unacked n)) (hr : (c.pkts r).lossRec = true) (hx : r ∈ x) :
      Move m ⟨c, h, x⟩ ⟨c.recRemove n r, h, x⟩
  | killUnacked (hp : p ∈ c.queue (.unacked n)) (hd : (c.pkts p).data) (hx : p ∈ x) :
      Move m ⟨c, h, x⟩ ⟨(c.unackedRemove p).emit (.ackStreams p), h, x⟩
  | killLost {ack : Bool} (hp : p ∈ c.queue .lost) (hx : p ∈ x) :
      Move m ⟨c, h, x⟩ ⟨(c.remove .lost p).ackIf p ack, h, x⟩
  | killStashed (hp : p ∈ c.queue .stash) (hx : p ∈ x) :
      Move m ⟨c, h, x⟩ ⟨c.emit (.ackStreams p), h, x⟩
  | purgeRecord (hp : r ∈ c.queue (.unacked n)) (hr : (c.pkts r).lossRec = true) (hx : r ∈ x)
      (hf : (c.pkts r).fakeLossRec = 1 → m .purge) :
      Move m ⟨c, h, x⟩ ⟨c.remove (.unacked n) r, h, x⟩
  | purgeBuffered (hm : m .miscount) (hp : p ∈ c.queue (.buffered b)) (hx : p ∈ x) :
      Move m ⟨c, h, x⟩ ⟨c.remove (.buffered b) p, h, x⟩
  | killSched {ack : Bool} (hm : m .mark) (hp : p ∈ c.queue .scheduled) (hx : p ∈ x) :
      Move m ⟨c, h, x⟩ ⟨((c.renumberToRight p).schedRemove p).ackIf p ack, h, x⟩
  | reset (hm : m .mark) : Move m ⟨c, h, x⟩ ⟨c.resetPacknos, h, x⟩

/-- A packet is reported as sent, but there is no memory for the poison packet in front of it. -/
inductive SendFails : Core → Core → Prop
  | fails (hp : c.queue .scheduled = p :: l) (hr : (c.pkts p).repackno = false)
      (hg : (c.pkts p).packno = c.gap + 1) :
      SendFails c ((c.takeHead p body).senhistAdd c.gap)

inductive Moves (m : Kind → Prop) : Cfg → Cfg → Prop
  | refl : Moves m g g
  | snoc (h : Moves m g g') (hm : Move m g' g'') : Moves m g g''

theorem Moves.one (h : Move m g g') : Moves m g g' := .snoc .refl h

theorem Moves.trans (h : Moves m g g') (h' : Moves m g' g'') : Moves m g g'' := by
  induction h' with
  | refl => exact h
  | snoc _ hm ih => exact .snoc ih hm

theorem Moves.invariant {I : Cfg → Prop} (hI : ∀ g g', Move m g g' → I g → I g')
    (h : Moves m g g') (hg : I g) : I g' := by
  induction h with
  | refl => exact hg
  | snoc _ hm ih => exact hI _ _ hm ih

end QuicArt
