import QuicArt.ChainDestruction
import QuicArt.Frames

namespace QuicArt

/-- The loss of a packet with STREAM frames begins a turn, or makes a duplicate in its turn. -/
def PacketOut.beginsTurn (pk : PacketOut) : Bool :=
  pk.fakeLossRec == 0 || pk.lossRec || pk.beenDetectLoss != 0

/-- The turn that begins has an index past the end of the table of rounds. -/
def PacketOut.tooDeep (pk : PacketOut) : Bool :=
  pk.frameTypes.has FrameType.stream.bit && pk.beginsTurn &&
    decide (maxRoundBound ≤ pk.retransTimes + 1)

def PacketOut.restarts (pk : PacketOut) : Bool :=
  pk.frameTypes.has FrameType.stream.bit && pk.beginsTurn && pk.fakeLossRec != 0 &&
    pk.retransPacketNumber != 0

def PacketOut.exhausted (pk : PacketOut) : Bool :=
  pk.frameTypes.has FrameType.stream.bit && !pk.beginsTurn &&
    decide (pk.needRetransNumber ≤ pk.retransPacketNumber)

structure Admits (m : Kind → Prop) (pk : PacketOut) : Prop where
  lose : m .lose
  deep : pk.tooDeep = true → m .deep
  again : pk.restarts = true → m .again
  overrun : pk.exhausted = true → m .overrun

section
variable {m : Kind → Prop} {pk pk' : PacketOut}

theorem Admits.congr (hk : Admits m pk) (hl : pk'.lasting = pk.lasting) : Admits m pk' := by
  have hd : pk'.tooDeep = pk.tooDeep := PacketOut.congr_lasting hl fun _ => rfl
  have ha : pk'.restarts = pk.restarts := PacketOut.congr_lasting hl fun _ => rfl
  have ho : pk'.exhausted = pk.exhausted := PacketOut.congr_lasting hl fun _ => rfl
  exact ⟨hk.lose, hd ▸ hk.deep, ha ▸ hk.again, ho ▸ hk.overrun⟩

theorem admits_anything (pk : PacketOut) : Admits (fun _ => True) pk :=
  ⟨trivial, fun _ => trivial, fun _ => trivial, fun _ => trivial⟩

section
variable (hk : Admits m pk) (hs : pk.frameTypes.has FrameType.stream.bit = true)
include hk hs

theorem Admits.depth
    (hb : pk.beginsTurn = true) : pk.retransTimes + 1 < maxRoundBound ∨ m .deep := by
  by_cases hd : maxRoundBound ≤ pk.retransTimes + 1
  · exact .inr (hk.deep (by simp only [PacketOut.tooDeep, hs, hb, hd, decide_true, Bool.and_self]))
  · exact .inl (Nat.lt_of_not_le hd)

theorem Admits.count (hb : pk.beginsTurn = true) :
    pk.fakeLossRec = 0 ∨ pk.retransPacketNumber = 0 ∨ m .again := by
  by_cases hf : pk.fakeLossRec = 0
  · exact .inl hf
  · by_cases hp : pk.retransPacketNumber = 0
    · exact .inr (.inl hp)
    · exact .inr (.inr (hk.again (by simp [PacketOut.restarts, hs, hb, hf, hp])))

theorem Admits.quota (hb : pk.beginsTurn = false) :
    pk.retransPacketNumber < pk.needRetransNumber ∨ m .overrun := by
  by_cases hq : pk.needRetransNumber ≤ pk.retransPacketNumber
  · exact .inr (hk.overrun (by simp [PacketOut.exhausted, hs, hb, hq]))
  · exact .inl (Nat.lt_of_not_le hq)

end

end

namespace SendCtl

section
variable {env : Env} {s : SendCtl} {p : PktId} {n : Pns} {next : Option PktId} {g : Cfg}

structure Outstanding (env : Env) (s : SendCtl) (n : Pns) (p : PktId) : Prop where
  mem : p ∈ (s.core env).queue (.unacked n)
  data : ((s.core env).pkts p).data

theorem Outstanding.facts (hp : Outstanding env s n p) (hS : Sound (s.core env) h x) :
    (s.pkt p).sched = false ∧ (s.pkt p).unacked = true ∧ (s.pkt p).lost = false ∧
      (s.pkt p).pns = n ∧ (s.pkt p).repackno = false ∧ (s.pkt p).lossRec = false := by
  obtain ⟨⟨hsc, hu, hl⟩, hn, hr, -⟩ := hS.placed.unacked hp.mem
  exact ⟨hsc, hu, hl, hn hp.data.2, hr, hp.data.1⟩

theorem turnQuota_lt (s : SendCtl) (times : Nat) : s.turnQuota times < 65536 :=
  Nat.mod_lt _ (by decide)

theorem updateTurn_moves {c : Core} (hM : Moves m g ⟨c, [p], []⟩)
    (hc : s.core env = c.lostAppend p) (hd : (c.pkts p).data) (hr : (c.pkts p).repackno = false)
    (hu : (c.pkts p).mtuProbe = false) (hk : Admits m (s.pkt p))
    (hs : (s.pkt p).frameTypes.has FrameType.stream.bit = true) :
    Moves m g ⟨(s.updateTurn env p).core env, [], []⟩ ∧
      ((s.updateTurn env p).core env).queue = (c.lostAppend p).queue := by
  have hpk : (s.pkt p).core env = { c.pkts p with lost := true } := by
    rw [← core_pkts, hc, lostAppend_self]
  have hf : (s.pkt p).fakeLossRec = (c.pkts p).fakeLossRec := congrArg Pkt.fakeLossRec hpk
  have hrpn : (s.pkt p).retransPacketNumber = (c.pkts p).retransPacketNumber :=
    congrArg Pkt.retransPacketNumber hpk
  have hneed : (s.pkt p).needRetransNumber = (c.pkts p).needRetransNumber :=
    congrArg Pkt.needRetransNumber hpk
  have htimes : (s.pkt p).retransTimes = (c.pkts p).retransTimes :=
    congrArg Pkt.retransTimes hpk
  by_cases ht : (s.pkt p).fakeLossRec ≠ 0 ∧ !(s.pkt p).lossRec ∧ (s.pkt p).beenDetectLoss = 0
  · rw [core_updateTurn_duplicate ht, hc]
    refine ⟨hM.snoc (.duplicate hk.lose hd hr (hf ▸ ht.1) ?_), rfl⟩
    have hb : (s.pkt p).beginsTurn = false := by simpa [PacketOut.beginsTurn, and_assoc] using ht
    rw [← hrpn, ← hneed]
    exact hk.quota hs hb
  · rw [core_updateTurn_newTurn ht, hc]
    have hb : (s.pkt p).beginsTurn = true := by
      simp only [PacketOut.beginsTurn, Bool.or_eq_true, beq_iff_eq, bne_iff_ne]
      by_contra hn
      simp only [not_or, Decidable.not_not, Bool.not_eq_true] at hn
      exact ht ⟨hn.1.1, by rw [hn.1.2, Bool.not_false], hn.2⟩
    have hstep := artDuplicateNumber_roundStep s (u16add (s.pkt p).retransTimes 1)
    have hmap : s.roundsMap = c.rounds := congrArg Core.rounds hc
    rw [hmap, htimes] at hstep
    refine ⟨hM.snoc (.newTurn hk.lose hd hr hu ?_ ?_ (turnQuota_lt _ _) (htimes ▸ hstep)), rfl⟩
    · rw [← htimes]
      exact hk.depth hs hb
    · rw [← hf, ← hrpn]
      exact hk.count hs hb

theorem moveToLost_moves (hM : Moves m g ⟨(s.core env).unackedRemove p, [p], []⟩)
    (hlt : p < s.nextId) (hd : ((s.core env).pkts p).data) (hl : (s.pkt p).lost = false)
    (hr : (s.pkt p).repackno = false) (hm : (s.pkt p).mtuProbe = false)
    (hk : Admits m (s.pkt p)) (hz : sz = (s.pkt p).sentSize env) :
    Moves m g ⟨(s.moveToLost env p sz).core env, [], []⟩ ∧
      ∀ n, ((s.moveToLost env p sz).core env).queue (.unacked n) =
        ((s.core env).unackedRemove p).queue (.unacked n) := by
  subst hz
  have hcore : ((s.unackedRemove env p ((s.pkt p).sentSize env)).lostAppend p).core env =
      ((s.core env).unackedRemove p).lostAppend p := by
    rw [core_lostAppend, core_unackedRemove]
  have hlast : (((s.unackedRemove env p ((s.pkt p).sentSize env)).lostAppend p).pkt p).lasting =
      (s.pkt p).lasting :=
    lasting_of_spares (fun _ => (unackedRemove_spares s p _).trans (lostAppend_spares _ p)) hlt
  simp only [moveToLost, hl, Bool.false_eq_true, if_false]
  generalize (s.unackedRemove env p ((s.pkt p).sentSize env)).lostAppend p = s' at hcore hlast ⊢
  have hself : ((s.core env).unackedRemove p).pkts p =
      { (s.core env).pkts p with unacked := false } := unackedRemove_self _ _
  have hd' : (((s.core env).unackedRemove p).pkts p).data := by
    rw [hself]
    exact hd
  have hr' : (((s.core env).unackedRemove p).pkts p).repackno = false := by
    rw [hself]
    exact hr
  have hu' : (((s.core env).unackedRemove p).pkts p).mtuProbe = false := by
    rw [hself]
    exact hm
  have hq : ∀ n, (((s.core env).unackedRemove p).lostAppend p).queue (.unacked n) =
      ((s.core env).unackedRemove p).queue (.unacked n) := fun n => by
    simp only [Core.lostAppend, Core.append, Core.setQueue, Core.upd, Function.update_apply,
      reduceCtorEq, if_false]
  split
  next hs =>
    have hT := updateTurn_moves hM hcore hd' hr' hu' (hk.congr hlast) hs.2
    exact ⟨hT.1, fun n => (congrFun hT.2 _).trans (hq n)⟩
  · rw [hcore]
    exact ⟨hM.snoc (.toLost hd' hr' (List.append_nil _).symm), hq⟩

structure Handled (env : Env) (m : Kind → Prop) (s : SendCtl) (n : Pns) (p : PktId)
    (next : Option PktId) (s' : SendCtl) (next' : Option PktId) : Prop where
  moves : Moves m ⟨s.core env, [], []⟩ ⟨s'.core env, [], []⟩
  keeps : Keeps p s s'
  others : ∀ n' ≠ n, ∀ a ∈ s'.queue (.unacked n'), a ∈ s.queue (.unacked n')
  cursor : ∀ rest, Cursor (s.queue (.unacked n)) next rest → p ∉ rest →
    ∃ rest', Cursor (s'.queue (.unacked n)) next' rest' ∧ rest'.Sublist rest ∧
      ∀ a ∈ rest, a ∈ s'.queue (.unacked n) → a ∈ rest'

theorem cursor_of_queue (env : Env) {s' : SendCtl} (hq : (s'.core env).queue (.unacked n) =
    ((s.core env).queue (.unacked n)).erase p) (hC : Cursor (s.queue (.unacked n)) next rest)
    (hp : p ∉ rest) : Cursor (s'.queue (.unacked n)) next rest := by
  rw [core_queue env s', core_queue env s] at hq
  rw [hq]
  exact hC.erase_of_not_mem hp

theorem unackedRemove_queue (c : Core) (hn : (c.pkts p).pns = n) :
    (c.unackedRemove p).queue (.unacked n) = (c.queue (.unacked n)).erase p := by
  subst hn
  simp only [Core.unackedRemove, Core.charge, Core.upd, Core.remove, Core.setQueue,
    Function.update_self]

theorem unackedRemove_queue_ne (c : Core) (hn : (c.pkts p).pns = n) (hne : n' ≠ n) :
    (c.unackedRemove p).queue (.unacked n') = c.queue (.unacked n') := by
  subst hn
  have hq : Queue.unacked n' ≠ .unacked (c.pkts p).pns := fun he => hne (Queue.unacked.inj he)
  simp only [Core.unackedRemove, Core.charge, Core.upd, Core.remove, Core.setQueue,
    Function.update_apply, if_neg hq]

section
variable (hS : s.Settled env) (hp : Outstanding env s n p)
include hS hp

theorem recordLoss_frame :
    (∃ a, ((s.recordLoss env p).1.core env).pkts p =
      { (s.core env).pkts p with lossChain := a }) ∧
    ∀ q, (s.recordLoss env p).1.queue q = s.queue q ∨
      q = .unacked n ∧ (s.recordLoss env p).1.queue q = insertBefore p s.nextId (s.queue q) := by
  obtain ⟨hsc, -, -, hn, -, -⟩ := hp.facts hS
  cases hmal : env.malo s.tick with
  | true =>
    have hcore := core_recordLoss hmal hsc
    refine ⟨⟨s.nextId, ?_⟩, fun q => ?_⟩
    · rw [hcore]
      exact recordLoss_self _ (hS.placed.on hp.mem)
    · rw [← core_queue env, hcore, recordLoss_queue]
      split
      next hq => exact .inr ⟨hq.trans (congrArg _ hn), rfl⟩
      · exact .inl rfl
  | false =>
    have hcore := core_recordLoss_fails (p := p) hmal
    refine ⟨⟨(s.pkt p).lossChain, ?_⟩, fun q => .inl ?_⟩
    · rw [hcore]
      rfl
    · rw [← core_queue env, hcore]
      rfl

/-- The packet goes on the lost queue, and a loss record takes its place. -/
theorem loseRetx_spec
    (hm : (s.pkt p).mtuProbe = false) (hk : Admits m (s.pkt p)) (hz : sz = (s.pkt p).sentSize env) :
    Handled env m s n p next ((s.recordLoss env p).1.moveToLost env p sz) next := by
  obtain ⟨hsc, -, hl, hn, hr, -⟩ := hp.facts hS
  have hlt : p < (s.core env).nextId := hS.placed.on hp.mem
  have hsp : Spares p s ((s.recordLoss env p).1.moveToLost env p sz) :=
    (recordLoss_spares s p).trans (moveToLost_spares _ p sz)
  have hk' : Admits m ((s.recordLoss env p).1.pkt p) :=
    hk.congr (lasting_of_spares (fun _ => recordLoss_spares s p) hlt)
  have hlt' : p < (s.recordLoss env p).1.nextId :=
    Nat.lt_of_lt_of_le hlt (recordLoss_spares (p := p) s p).nextId
  have hM : Moves m ⟨s.core env, [], []⟩
      ⟨((s.recordLoss env p).1.core env).unackedRemove p, [p], []⟩ := by
    cases hmal : env.malo s.tick with
    | true =>
      rw [core_recordLoss hmal hsc]
      exact .one (.lose hk.lose hp.mem hp.data hm)
    | false =>
      rw [core_recordLoss_fails hmal]
      exact .one (.takeUnacked hp.mem hp.data)
  obtain ⟨⟨a, hself⟩, hqueue⟩ := recordLoss_frame hS hp
  generalize (s.recordLoss env p).1 = s' at hself hqueue hM hsp hk' hlt' ⊢
  have hd : ((s'.core env).pkts p).data := by
    rw [hself]
    exact hp.data
  have hn' : ((s'.core env).pkts p).pns = n := by
    rw [hself]
    exact hn
  have hT := moveToLost_moves hM hlt' hd ((congrArg Pkt.lost hself).trans hl)
    ((congrArg Pkt.repackno hself).trans hr) ((congrArg Pkt.mtuProbe hself).trans hm) hk'
    (hz.trans (congrArg (·.body.bytes) hself).symm)
  refine ⟨hT.1, hsp.toKeeps, fun n' hne a ha => ?_,
    fun rest hC hpr => ⟨rest, ?_, List.Sublist.refl _, fun _ ha _ => ha⟩⟩
  · rw [← core_queue env _, hT.2, unackedRemove_queue_ne _ hn' hne, core_queue] at ha
    rcases hqueue (.unacked n') with he | ⟨he, -⟩
    · exact he ▸ ha
    · exact absurd (Queue.unacked.inj he) hne
  · rw [← core_queue env _, hT.2, unackedRemove_queue _ hn', core_queue]
    rcases hqueue (.unacked n) with he | ⟨-, he⟩
    · rw [he]
      exact hC.erase_of_not_mem hpr
    · rw [he]
      exact (hC.insertBefore hp.mem hpr).erase_of_not_mem hpr

theorem loseOther_gone (hs : s'.core env = (s.core env).unackedRemove p) (next : Option PktId) :
    Moves m ⟨s.core env, [], []⟩ ⟨s'.core env, [p], []⟩ ∧
      ∃ l, (∀ a ∈ l, ((s'.core env).pkts a).lossRec = true) ∧
        ChainGone env m (s'.core env) [] p l s' next (s'.destroyChain env p next) := by
  have hM : Moves m ⟨s.core env, [], []⟩ ⟨s'.core env, [p], []⟩ := by
    rw [hs]
    exact .one (.takeUnacked hp.mem hp.data)
  have hd : ((s'.core env).pkts p).data := by
    rw [hs, unackedRemove_self]
    exact hp.data
  exact ⟨hM, dropChain_spec (hM.sound hS) hd (by simp)⟩

theorem loseOther_spec (hz : sz = (s.pkt p).sentSize env) :
    Handled env m s n p next ((s.unackedRemove env p sz).destroyChain env p next).1
      ((s.unackedRemove env p sz).destroyChain env p next).2 := by
  subst hz
  obtain ⟨-, -, -, hn, -, -⟩ := hp.facts hS
  have hcore : (s.unackedRemove env p ((s.pkt p).sentSize env)).core env =
      (s.core env).unackedRemove p := core_unackedRemove s p
  have hsp : Spares p s ((s.unackedRemove env p ((s.pkt p).sentSize env)).destroyChain env p
      next).1 := (unackedRemove_spares s p _).trans (destroyChain_spares _ p next)
  generalize s.unackedRemove env p ((s.pkt p).sentSize env) = s' at hcore hsp ⊢
  obtain ⟨hM, l, -, hG⟩ := loseOther_gone (m := m) hS hp hcore next
  refine ⟨hM.trans hG.moves, hsp.toKeeps, fun n' hne a ha => ?_,
    fun rest hC hpr => ⟨_, hG.cursor n rest ?_, List.diff_sublist _ _, fun a ha haq =>
      List.mem_diff_of_mem ha fun hal => hG.gone a (.tail _ hal) _ (by simp) haq⟩⟩
  · have hal : a ∉ l := fun hal =>
      hG.gone a (.tail _ hal) (.unacked n') (by simp) ha
    have hm := (hG.keep (.unacked n') a hal).1 ha
    rw [hcore, unackedRemove_queue_ne _ hn hne] at hm
    exact hm
  · refine cursor_of_queue env ?_ hC hpr
    rw [hcore, unackedRemove_queue _ hn]

theorem handleLostMtuProbe_spec (hm : (s.pkt p).mtuProbe = true) :
    Handled env m s n p next (s.handleLostMtuProbe env p) next := by
  obtain ⟨-, -, -, hn, -, -⟩ := hp.facts hS
  have hcore : (s.unackedRemove env p ((s.pkt p).sentSize env)).core env =
      (s.core env).unackedRemove p := core_unackedRemove s p
  have hsp : Spares p s (s.handleLostMtuProbe env p) := handleLostMtuProbe_spares s p
  simp only [handleLostMtuProbe] at hsp ⊢
  generalize s.unackedRemove env p ((s.pkt p).sentSize env) = s' at hcore hsp ⊢
  have hM : Moves m ⟨s.core env, [], []⟩ ⟨s'.core env, [p], []⟩ := by
    rw [hcore]
    exact .one (.takeUnacked hp.mem hp.data)
  have hS' : Sound (s'.core env) [p] [] := hM.sound hS
  have hself : (s'.core env).pkts p = { (s.core env).pkts p with unacked := false } := by
    rw [hcore, unackedRemove_self]
  have hd : ((s'.core env).pkts p).data := by
    rw [hself]
    exact hp.data
  obtain ⟨l, hl, -, hB⟩ := hS'.chains.chain p ⟨hd, by simp, .inl (.head _)⟩
  have hnil : l = [] := hB (.inl ((congrArg Pkt.mtuProbe hself).trans hm))
  subst hnil
  refine ⟨hM.trans (hS'.free_single hd hl.ring.walk), hsp.toKeeps, fun n' hne a ha => ?_,
    fun rest hC hpr => ⟨rest, cursor_of_queue env ?_ hC hpr, List.Sublist.refl _,
        fun _ ha _ => ha⟩⟩
  · rw [← core_queue env s', hcore, unackedRemove_queue_ne _ hn hne] at ha
    exact ha
  · rw [hcore, unackedRemove_queue _ hn]

end

theorem Handled.of_core {s₁ : SendCtl} (hL : Handled env m s₁ n p next s' next')
    (hc : s₁.core env = s.core env) (hs : Keeps p s s₁) :
    Handled env m s n p next s' next' := by
  have hq : ∀ n, s₁.queue (.unacked n) = s.queue (.unacked n) := fun n =>
    congrFun (congrArg Core.queue hc) (.unacked n)
  exact ⟨hc ▸ hL.moves, hs.trans hL.keeps, fun n' hne a ha => hq n' ▸ hL.others n' hne a ha,
    hq n ▸ hL.cursor⟩

theorem Handled.to_core {s' s₁ : SendCtl} (hL : Handled env m s n p next s' next')
    (hc : s₁.core env = s'.core env) (hs : Keeps p s' s₁) :
    Handled env m s n p next s₁ next' := by
  have hq : ∀ n, s₁.queue (.unacked n) = s'.queue (.unacked n) := fun n =>
    congrFun (congrArg Core.queue hc) (.unacked n)
  exact ⟨hc.symm ▸ hL.moves, hL.keeps.trans hs,
    fun n' hne a ha => hL.others n' hne a (hq n' ▸ ha), (hq n).symm ▸ hL.cursor⟩

theorem Handled.of_queue (hM : s.Evolves env m s') (hs : Keeps p s s')
    (hq : (s'.core env).queue = (s.core env).queue) :
    Handled env m s n p next s' next := by
  have hq : ∀ n, s'.queue (.unacked n) = s.queue (.unacked n) := fun n => congrFun hq (.unacked n)
  exact ⟨hM, hs, fun n' _ a ha => hq n' ▸ ha,
    fun rest hC _ => ⟨rest, (hq n).symm ▸ hC, List.Sublist.refl _, fun _ ha _ => ha⟩⟩

theorem Handled.refl (s : SendCtl) : Handled env m s n p next s next :=
  .of_queue .refl (.same rfl rfl) rfl

theorem handleRegularLostPacket_spec (hS : s.Settled env) (hp : Outstanding env s n p)
    (hm : (s.pkt p).mtuProbe = false) (hk : Admits m (s.pkt p)) :
    Handled env m s n p next (s.handleRegularLostPacket env p next).1
      (s.handleRegularLostPacket env p next).2.2 := by
  have hr : (s.pkt p).lossRec = false := hp.data.1
  have hlt : p < (s.core env).nextId := hS.placed.on hp.mem
  have hcore : (s.countLoss p).core env = s.core env := core_countLoss s p
  have hsp : ∀ q, Spares q s (s.countLoss p) := fun _ => countLoss_spares s p
  have hpk : ((s.countLoss p).pkt p).core env = (s.pkt p).core env :=
    congrFun (congrArg Core.pkts hcore) p
  have hp' : Outstanding env (s.countLoss p) n p := ⟨hcore.symm ▸ hp.mem, hcore.symm ▸ hp.data⟩
  have hz : (s.pkt p).sentSize env = ((s.countLoss p).pkt p).sentSize env :=
    (congrArg (·.body.bytes) hpk).symm
  have hm' : ((s.countLoss p).pkt p).mtuProbe = false := (congrArg Pkt.mtuProbe hpk).trans hm
  have hk' : Admits m ((s.countLoss p).pkt p) := hk.congr (lasting_of_spares hsp hlt)
  simp only [handleRegularLostPacket, hr, Bool.false_eq_true, if_false]
  split
  · exact (loseRetx_spec (hS.of_core hcore) hp' hm' hk' hz).of_core hcore (hsp p).toKeeps
  · exact (loseOther_spec (hS.of_core hcore) hp' hz).of_core hcore (hsp p).toKeeps

theorem handleLostPacket_spec (hS : s.Settled env) (hp : Outstanding env s n p)
    (hk : Admits m (s.pkt p)) :
    Handled env m s n p next (s.handleLostPacket env p next).1
      (s.handleLostPacket env p next).2 := by
  simp only [handleLostPacket]
  split
  next hm => exact handleLostMtuProbe_spec hS hp hm
  next hm => exact handleRegularLostPacket_spec hS hp (by simpa using hm) hk

theorem recordReplicaLoss_spec (hp : p ∈ (s.core env).queue (.unacked n))
    (hr : (s.pkt p).lossRec = true) :
    Handled env m s n p next (s.recordReplicaLoss env p) next := by
  have hsp : Spares p s (s.recordReplicaLoss env p) := recordReplicaLoss_spares s p
  simp only [recordReplicaLoss] at hsp ⊢
  split at hsp
  next hc =>
    obtain ⟨ok, hcore⟩ : ∃ ok, (s.recordFeedback env p 1).core env =
        (s.core env).recordFeedback p 1 ok := core_recordFeedback s p 1
    have hcore' : ((s.recordFeedback env p 1).upd p ({ · with feedbackRecorded := 1 })).core env =
        ((s.core env).recordFeedback p 1 ok).upd p ({ · with feedbackRecorded := 1 }) := by
      rw [← hcore]
      exact core_upd rfl
    rw [if_pos hc]
    refine .of_queue (.of_move hcore' (.reportLoss hp hr hc.1 hc.2)) hsp.toKeeps ?_
    rw [hcore']
    rfl
  next hc =>
    rw [if_neg hc]
    exact .refl s

structure Reached (env : Env) (s₀ : SendCtl) (n : Pns) (s : SendCtl) (p : PktId) : Prop where
  sound : Sound (s.core env) [] []
  mem : p ∈ (s.core env).queue (.unacked n)
  start : p ∈ s₀.queue (.unacked n)
  lasting : (s.pkt p).lasting = (s₀.pkt p).lasting

structure Looping (env : Env) (m : Kind → Prop) (s₀ : SendCtl) (n : Pns) (s : SendCtl)
    (l : List PktId) : Prop where
  moves : Moves m ⟨s₀.core env, [], []⟩ ⟨s.core env, [], []⟩
  suffix : l <:+ s.queue (.unacked n)
  sub : l.Sublist (s₀.queue (.unacked n))
  lasting : ∀ a ∈ l, (s.pkt a).lasting = (s₀.pkt a).lasting
  others : ∀ n' ≠ n, ∀ a ∈ s.queue (.unacked n'),
    a ∈ s₀.queue (.unacked n') ∧ (s.pkt a).lasting = (s₀.pkt a).lasting

theorem Looping.reached (hI : Looping env m s₀ n s (p :: l)) (hS₀ : s₀.Settled env) :
    Reached env s₀ n s p :=
  ⟨hI.moves.sound hS₀, hI.suffix.subset (.head _), hI.sub.subset (.head _),
    hI.lasting p (.head _)⟩

theorem Looping.step (hI : Looping env m s₀ n s (p :: l)) (hS₀ : s₀.Settled env)
    (hL : Handled env m s n p (nextOf p (s.queue (.unacked n))) s' next') :
    ∃ l', next' = l'.head? ∧ l'.Sublist l ∧ Looping env m s₀ n s' l' ∧
      ∀ a ∈ l, a ∈ s'.queue (.unacked n) → a ∈ l' := by
  have hS : s.Settled env := hI.moves.sound hS₀
  obtain ⟨hC, hp, hpl⟩ := Cursor.next hI.suffix (hS.placed.nodup (some (.unacked n)))
  obtain ⟨l', hC', hsub, hfront⟩ := hL.cursor l hC hpl
  refine ⟨l', hC'.head, hsub, ⟨hI.moves.trans hL.moves, hC'.suffix,
    hsub.trans ((List.sublist_cons_self p l).trans hI.sub), fun a ha => ?_,
    fun n' hne a ha => ?_⟩, hfront⟩
  · have hal : a ∈ l := hsub.subset ha
    have hlt : a < s.nextId :=
      hS.placed.on (hI.suffix.subset (.tail _ hal))
    rw [hL.keeps.lasting a (fun he => hpl (he ▸ hal)) hlt]
    exact hI.lasting a (.tail _ hal)
  · have ha' := hL.others n' hne a ha
    have hap : a ≠ p := by
      rintro rfl
      have he := hS.placed.uniq a (some (.unacked n')) (some (.unacked n)) ha' hp
      exact hne (Queue.unacked.inj (Option.some.inj he))
    obtain ⟨hm, hl⟩ := hI.others n' hne a ha'
    exact ⟨hm, (hL.keeps.lasting a hap (hS.placed.on ha')).trans hl⟩

theorem Looping.start (hc : s.core env = s₀.core env) (hl : s.pkts = s₀.pkts) :
    Looping env m s₀ n s (s.queue (.unacked n)) := by
  have hq : ∀ n, s.queue (.unacked n) = s₀.queue (.unacked n) := fun n =>
    congrFun (congrArg Core.queue hc) (.unacked n)
  have hp : ∀ a, s.pkt a = s₀.pkt a := fun a => by simp only [pkt, hl]
  refine ⟨?_, List.suffix_refl _, hq n ▸ List.Sublist.refl _,
    fun a _ => congrArg _ (hp a), fun n' _ a ha => ⟨hq n' ▸ ha, congrArg _ (hp a)⟩⟩
  rw [hc]
  exact .refl

structure Passed (env : Env) (m : Kind → Prop) (n : Pns) (s s' : SendCtl) : Prop where
  moves : Moves m ⟨s.core env, [], []⟩ ⟨s'.core env, [], []⟩
  others : ∀ n' ≠ n, ∀ a ∈ s'.queue (.unacked n'),
    a ∈ s.queue (.unacked n') ∧ (s'.pkt a).lasting = (s.pkt a).lasting

theorem overQueue_passes {body : SendCtl → PktId → SendCtl × Option PktId}
    (hS : s.Settled env)
    (hb : ∀ s' p, Reached env s n s' p →
      Handled env m s' n p (nextOf p (s'.queue (.unacked n))) (body s' p).1 (body s' p).2) :
    Passed env m n s (s.overQueue (.unacked n) body) := by
  obtain ⟨l, hI, -⟩ := scan_rule (fun _ _ => true) body (fun s' l => Looping env m s n s' l)
    (fun s' p l hI _ => by
      obtain ⟨l', hl', hsub, hI', -⟩ := hI.step hS (hb s' p (hI.reached hS))
      exact ⟨l', hl', hsub.length_le, hI'⟩)
    (.start rfl rfl) le_rfl
  exact ⟨hI.moves, hI.others⟩

def declarable (pk : PacketOut) : Bool :=
  !pk.lossRec && !pk.poison &&
    (pk.fakeLossRec == 0 || decide (pk.needRetransNumber ≤ pk.retransPacketNumber))

theorem core_markDetected (s : SendCtl) (p : PktId) :
    (s.markDetected p).core env = (s.core env).emit (.declared p) := by
  have hc : (s.upd p ({ · with beenDetectLoss := 1 })).core env = s.core env := core_upd_same rfl
  rw [markDetected, core_emit, hc]

section
variable (hS : s.Settled env) (hp : Outstanding env s n p)
include hS hp

theorem markDetected_spec (hl : declarable (s.pkt p) = true) :
    s.Evolves env m (s.markDetected p) ∧
      (s.markDetected p).Settled env ∧ Outstanding env (s.markDetected p) n p ∧
      (s.markDetected p).pkt p = { s.pkt p with beenDetectLoss := 1 } := by
  have hcore : (s.markDetected p).core env = (s.core env).emit (.declared p) :=
    core_markDetected s p
  simp only [declarable, Bool.and_eq_true, Bool.or_eq_true, beq_iff_eq, decide_eq_true_eq] at hl
  have hM : s.Evolves env m (s.markDetected p) :=
    .of_move hcore (.declare hp.mem hp.data hl.2)
  exact ⟨hM, hM.sound hS, ⟨hcore ▸ hp.mem, hcore ▸ hp.data⟩, pkt_upd_self s p _⟩

theorem mayBeLost_eq : mayBeLost (s.pkt p) = declarable (s.pkt p) := by
  obtain ⟨-, -, hl, -, -, hr⟩ := hp.facts hS
  have hpo : (s.pkt p).poison = false := hp.data.2
  simp only [mayBeLost, declarable, hl, hr, hpo, Bool.not_false, Bool.true_and]

theorem handleDetected_spec (hl : mayBeLost (s.pkt p) = true)
    (hk : declarable (s.pkt p) = true → Admits m { s.pkt p with beenDetectLoss := 1 }) :
    Handled env m s n p next ((s.markDetected p).handleLostPacket env p next).1
      ((s.markDetected p).handleLostPacket env p next).2 := by
  rw [mayBeLost_eq hS hp] at hl
  obtain ⟨hM, hS', hO, hpk⟩ := markDetected_spec (m := m) hS hp hl
  have hsp := markDetected_spares s p
  have hq : ∀ n, (s.markDetected p).queue (.unacked n) = s.queue (.unacked n) := fun _ => rfl
  generalize s.markDetected p = s' at hM hS' hO hpk hsp hq ⊢
  have hL : Handled env m s' n p next _ _ := handleLostPacket_spec hS' hO (hpk ▸ hk hl)
  exact ⟨hM.trans hL.moves, hsp.toKeeps.trans hL.keeps,
    fun n' hne a ha => hq n' ▸ hL.others n' hne a ha, hq n ▸ hL.cursor⟩

end

def lostBy (env : Env) (s : SendCtl) (largestRetx : Int) (p : PktId) : Bool :=
  s.lostByFack p || s.lostByEarlyRetransmit env largestRetx p || s.lostByTime p

theorem detectOne_spec {d : Detection} (hS : d.ctl.Settled env)
    (hp : p ∈ (d.ctl.core env).queue (.unacked n))
    (hk : d.ctl.lostBy env largestRetx p = true → declarable (d.ctl.pkt p) = true →
      Admits m { d.ctl.pkt p with beenDetectLoss := 1 }) :
    Handled env m d.ctl n p (nextOf p (d.ctl.queue (.unacked n)))
      (detectOne env n largestRetx d p).1.ctl (detectOne env n largestRetx d p).2 := by
  by_cases hlost : d.ctl.lostBy env largestRetx p = true
  case neg =>
    simp only [lostBy, Bool.or_eq_true, not_or, Bool.not_eq_true] at hlost
    simp only [detectOne, hlost, Bool.false_eq_true, if_false, ite_self]
    exact .of_queue .refl (.same rfl rfl) rfl
  specialize hk hlost
  have hD := (@detectOne_step env p n largestRetx d).1
  generalize (detectOne env n largestRetx d p).1.ctl = s',
    (detectOne env n largestRetx d p).2 = next' at hD ⊢
  cases hD with
  | stay lossTo hl => exact .of_queue (Moves.refl.view rfl) (.same rfl rfl) rfl
  | replica hn hr => exact recordReplicaLoss_spec hp hr
  | probe hn hd hm => exact handleLostMtuProbe_spec hS ⟨hp, hd⟩ hm
  | lost lossTo s' hd hl hn hs =>
    have hc : ({ d.ctl with lossTo } : SendCtl).core env = d.ctl.core env := core_congr rfl
    have hO : Outstanding env { d.ctl with lossTo } n p := ⟨hc.symm ▸ hp, hc.symm ▸ hd⟩
    have hL := (@handleDetected_spec env _ p n (nextOf p (d.ctl.queue (.unacked n)))
      (hS.of_core hc) hO m hl hk).of_core hc (.same rfl rfl)
    rcases hs with rfl | ⟨r, rfl⟩
    · exact hL
    · exact hL.to_core (core_upd_same rfl)
        (Spares.touch _ _ (f := ({ · with facked := true })) fun _ => rfl).toKeeps

/-- The packets that `send_ctl_detect_losses` hands to loss handling. -/
def declaring (env : Env) (s : SendCtl) (n : Pns) : List PacketOut :=
  ((s.queue (.unacked n)).filter fun p => decide ((s.pkt p).packno ≤ s.largestAckedPackno) &&
    (s.lostBy env (s.largestRetxPacketNumber env n) p && declarable (s.pkt p))).map
      fun p => { s.pkt p with beenDetectLoss := 1 }

/-- The tests of the loop read only what it keeps. -/
theorem lostBy_congr {s s' : SendCtl} (hl : (s'.pkt p).lasting = (s.pkt p).lasting)
    (hs : s'.steady = s.steady) : s'.lostByFack p = s.lostByFack p ∧
      s'.lostByEarlyRetransmit env largestRetx p = s.lostByEarlyRetransmit env largestRetx p ∧
      s'.lostByTime p = s.lostByTime p := by
  have hview : ((s'.pkt p).packno, (s'.pkt p).mtuProbe, (s'.pkt p).frameTypes, (s'.pkt p).sent) =
      ((s.pkt p).packno, (s.pkt p).mtuProbe, (s.pkt p).frameTypes, (s.pkt p).sent) :=
    PacketOut.congr_lasting
      (f := fun pk => (pk.packno, pk.mtuProbe, pk.frameTypes, pk.sent)) hl fun _ => rfl
  simp only [Prod.mk.injEq] at hview
  simp only [SendCtl.steady, Prod.mk.injEq] at hs
  obtain ⟨hpn, hm, hf, ht⟩ := hview
  obtain ⟨hla, -, -, -, -, hrtt, -, hth, htm, -⟩ := hs
  simp only [lostByFack, lostByEarlyRetransmit, lostByTime, hpn, hm, hf, ht, hla, hrtt, hth, htm,
    and_self]

theorem Admits.detected (hk : declarable pk = true → Admits m { pk with beenDetectLoss := 1 })
    (hl : pk'.lasting = pk.lasting) (hd : declarable pk' = true) :
    Admits m { pk' with beenDetectLoss := 1 } := by
  have he : declarable pk' = declarable pk := PacketOut.congr_lasting hl fun _ => rfl
  exact (hk (he ▸ hd)).congr (congrArg ({ · with beenDetectLoss := 1 } : PacketOut → PacketOut) hl)

theorem detectLoop_moves (hS : s.Settled env) (hk : ∀ pk ∈ s.declaring env n, Admits m pk) :
    s.Evolves env m (s.detectLoop env n).ctl := by
  have hI : Looping env m s n { s with lossTo := 0 } (s.queue (.unacked n)) :=
    .start (core_congr rfl) rfl
  obtain ⟨l, hI, -⟩ := scan_rule
    (fun (d : Detection) p => decide ((d.ctl.pkt p).packno ≤ d.ctl.largestAckedPackno))
    (detectOne env n (s.largestRetxPacketNumber env n))
    (fun d l => Looping env m s n d.ctl l ∧ d.ctl.steady = s.steady)
    (fun d p l ⟨hI, hs⟩ hc => by
      have hR := hI.reached hS
      have hle := of_decide_eq_true hc
      have hpn : (d.ctl.pkt p).packno = (s.pkt p).packno :=
        PacketOut.lasting_packno hR.lasting
      have hla : d.ctl.largestAckedPackno = s.largestAckedPackno := congrArg (·.1) hs
      rw [hpn, hla] at hle
      have hadm : d.ctl.lostBy env (s.largestRetxPacketNumber env n) p = true →
          declarable (s.pkt p) = true → Admits m { s.pkt p with beenDetectLoss := 1 } := by
        intro hlost hd
        obtain ⟨hf, he, ht⟩ := @lostBy_congr env p (s.largestRetxPacketNumber env n) _ _
            hR.lasting hs
        rw [lostBy, hf, he, ht] at hlost
        apply hk
        simp only [declaring, List.mem_map, List.mem_filter, Bool.and_eq_true, decide_eq_true_eq]
        exact ⟨p, ⟨hR.start, hle, hlost, hd⟩, rfl⟩
      obtain ⟨l', hl', hsub, hI', -⟩ := hI.step hS
        (detectOne_spec hR.sound hR.mem fun hlost => Admits.detected (hadm hlost) hR.lasting)
      exact ⟨l', hl', hsub.length_le, hI', detectOne_spares.steady.trans hs⟩)
    (s := ⟨{ s with lossTo := 0 }, 0⟩) ⟨hI, rfl⟩ le_rfl
  exact hI.1.moves

theorem core_lossEvent (s : SendCtl) :
    s.lossEvent.core env = (s.core env).emit .cciLoss :=
  core_congr (s := s.emit .cciLoss) rfl

theorem detectLosses_moves (hS : s.Settled env) (hk : ∀ pk ∈ s.declaring env n, Admits m pk) :
    s.Evolves env m (s.detectLosses env n).1 := by
  have hM : s.Evolves env m (s.detectLoop env n).ctl := detectLoop_moves hS hk
  simp only [detectLosses]
  split
  · exact hM.step (core_lossEvent _) .congest
  · exact hM

theorem data_of_early {pk : Pkt} (hs : pk.Shape) (he : pk.body.early = true) : pk.data := by
  constructor
  · cases hr : pk.lossRec with
    | false => rfl
    | true => cases (hs.record hr).2.2.2.symm.trans he
  · cases hp : pk.poison with
    | false => rfl
    | true => cases (hs.poison hp).2.2.symm.trans he

theorem expireEach_moves {filter : PacketOut → Bool} (hS : s.Settled env)
    (hf : ∀ pk : PacketOut, (pk.core env).Shape → filter pk = true → (pk.core env).data)
    (hl : ∀ pk : PacketOut, filter pk.lasting = filter pk)
    (hk : ∀ p ∈ s.queue (.unacked n), filter (s.pkt p) = true → Admits m (s.pkt p)) :
    s.Evolves env m (s.expireEach env n filter) := by
  refine (overQueue_passes hS fun s' p hR => ?_).moves
  simp only [expireOne]
  split
  next hfp =>
    have hO : Outstanding env s' n p := ⟨hR.mem, hf _ (hR.sound.placed.unacked hR.mem).2.2.2 hfp⟩
    have hfs : filter (s.pkt p) = true := by
      rw [← hl, ← hR.lasting, hl]
      exact hfp
    exact handleLostPacket_spec hR.sound hO ((hk p hR.start hfs).congr hR.lasting)
  · exact .refl _

def expires (env : Env) (s : SendCtl) (n : Pns) (filter : ExpireFilter) (p : PktId) : Bool :=
  match filter with
  | .all => !(s.pkt p).lossRec && !(s.pkt p).poison
  | .hsk => (s.pkt p).hello
  | .last => s.lastUnackedRetxPacket env n == some p

theorem expire_moves (hS : s.Settled env) (filter : ExpireFilter)
    (hk : ∀ p ∈ s.queue (.unacked n), expires env s n filter p = true → Admits m (s.pkt p)) :
    s.Evolves env m (s.expire env n filter) := by
  cases filter with
  | all =>
    apply expireEach_moves hS _ (fun _ => rfl) hk
    intro pk _ hf
    simp only [Bool.and_eq_true, Bool.not_eq_true'] at hf
    exact hf
  | hsk =>
    apply expireEach_moves hS _ (fun _ => rfl) hk
    intro pk hs hf
    exact data_of_early hs (by simp only [PacketOut.core, hf, Bool.true_or])
  | last =>
    simp only [expire]
    split
    next p hp =>
      have hm := List.mem_reverse.1 (List.mem_of_find?_eq_some hp)
      have hf := List.find?_some hp
      simp only [Bool.and_eq_true, Bool.not_eq_true'] at hf
      have hO : Outstanding env s n p := ⟨hm, hf.1.1, hf.1.2⟩
      have hx : expires env s n .last p = true := by simp only [expires, hp, beq_self_eq_true]
      exact (handleLostPacket_spec hS hO (hk p hm hx)).moves
    · exact .refl

def replicable (pk : PacketOut) : Bool :=
  pk.frameTypes.has FrameType.stream.bit && (pk.fakeLossRec != 0) && !pk.lossRec &&
    decide (pk.retransPacketNumber < pk.needRetransNumber)

theorem outstanding_of_due (hS : s.Settled env) (hp : p ∈ (s.core env).queue (.unacked n))
    (h : replicaDue (s.pkt p) now = true) (hc : s'.core env = s.core env) :
    Outstanding env s' n p ∧ replicable (s.pkt p) = true ∧ (s.pkt p).mtuProbe = false ∧
      (s.pkt p).fakeLossRec = 1 ∧ (s.pkt p).frameTypes.has FrameType.stream.bit = true := by
  have hs := (hS.placed.unacked hp).2.2.2
  simp only [replicaDue, Bool.and_eq_true, bne_iff_ne, Bool.not_eq_true'] at h
  obtain ⟨⟨⟨⟨hx, hf⟩, hr⟩, hlt⟩, -⟩ := h
  have hpo : (s.pkt p).poison = false := by
    cases hpo : (s.pkt p).poison with
    | false => rfl
    | true => exact absurd (hs.poison hpo).1 hf
  have hm : (s.pkt p).mtuProbe = false := by
    cases hm : (s.pkt p).mtuProbe with
    | false => rfl
    | true => exact absurd (hs.probe hm) hf
  have hle : (s.pkt p).fakeLossRec ≤ 1 := hs.fake
  refine ⟨⟨hc.symm ▸ hp, hc.symm ▸ ⟨hr, hpo⟩⟩, ?_, hm, by omega, hx⟩
  simp only [replicable, hx, hr, hlt, bne_iff_ne.2 hf, Bool.and_true, Bool.not_false]

theorem artScheduleOne_spec (hS : s.Settled env)
    (hp : p ∈ (s.core env).queue (.unacked n))
    (hk : replicable (s.pkt p) = true → Admits m (s.pkt p)) :
    Handled env m s n p (nextOf p (s.queue (.unacked n))) (s.artScheduleOne env n p).1
      (s.artScheduleOne env n p).2 := by
  simp only [artScheduleOne]
  split
  next hdue =>
    have hcore : ({ s.ticked with allRetransPacketNum := s.allRetransPacketNum + 1 } :
        SendCtl).core env = s.core env := core_congr rfl
    have hsp : Spares p s { s.ticked with allRetransPacketNum := s.allRetransPacketNum + 1 } :=
      .same rfl
    obtain ⟨hO, hrep, hm, -, -⟩ := outstanding_of_due hS hp hdue hcore
    exact (handleRegularLostPacket_spec (hS.of_core hcore) hO hm (hk hrep)).of_core hcore
      hsp.toKeeps
  · exact .of_queue (Moves.refl.view rfl) (.same rfl rfl) rfl

def ArtKinds (m : Kind → Prop) (s : SendCtl) (n : Pns) : Prop :=
  ∀ p ∈ s.queue (.unacked n), replicable (s.pkt p) = true → Admits m (s.pkt p)

theorem artSchedulePns_passes (hS : s.Settled env) (hk : ArtKinds m s n) :
    Passed env m n s (s.artSchedulePns env n) := by
  apply overQueue_passes hS
  intro s' p hR
  apply artScheduleOne_spec hR.sound hR.mem
  intro hrep
  have he : replicable (s'.pkt p) = replicable (s.pkt p) :=
    PacketOut.congr_lasting (f := replicable) hR.lasting fun _ => rfl
  exact (hk p hR.start (he ▸ hrep)).congr hR.lasting

theorem ArtKinds.pass (hk : ArtKinds m s n') (hP : Passed env m n s s') (hne : n' ≠ n) :
    ArtKinds m s' n' := by
  intro p hp hrep
  obtain ⟨hm, hl⟩ := hP.others n' hne p hp
  have he : replicable (s'.pkt p) = replicable (s.pkt p) :=
    PacketOut.congr_lasting (f := replicable) hl fun _ => rfl
  exact (hk p hm (he ▸ hrep)).congr hl

theorem artScheduleAll_moves (l : List Pns) (hl : l.Nodup) (hS : s.Settled env)
    (hk : ∀ n ∈ l, ArtKinds m s n) :
    s.Evolves env m (l.foldl (artSchedulePns env) s) := by
  induction l generalizing s with
  | nil => exact .refl
  | cons n l ih =>
    obtain ⟨hn, hl⟩ := List.nodup_cons.1 hl
    have hP := artSchedulePns_passes hS (hk n (.head _))
    refine hP.moves.trans (ih hl (hP.moves.sound hS) fun n' hn' => ?_)
    exact (hk n' (.tail _ hn')).pass hP fun he => hn (he ▸ hn')

theorem artSchedule_moves (hS : s.Settled env) (hk : ∀ n, ArtKinds m s n) :
    s.Evolves env m (s.artSchedule env) := by
  have hM : s.Evolves env m ([Pns.init, .hsk, .app].foldl (artSchedulePns env) s) :=
    artScheduleAll_moves _ (by decide) hS fun n _ => hk n
  simp only [artSchedule]
  generalize [Pns.init, .hsk, .app].foldl (artSchedulePns env) s = s' at hM
  split
  · exact hM.view rfl
  · exact hM

end

end SendCtl

end QuicArt
