import QuicArt.AckMatching

namespace QuicArt
namespace SendCtl

section
variable (env : Env)

/-- The packets of the space `n` whose numbers one call of `send_ctl_detect_losses` notes. -/
def countsAsLost (s : SendCtl) (n : Pns) (p : PktId) : Bool :=
  decide ((s.pkt p).packno ≤ s.largestAckedPackno) &&
    s.notesLoss env (s.largestRetxPacketNumber env n) p

/-- A retransmittable packet that is no MTU probe and has no replicas left to send in its turn. -/
def resendable (pk : PacketOut) : Bool :=
  (pk.frameTypes.has env.retxFrames && !pk.mtuProbe) && declarable pk

structure Shed (n : Pns) (p : PktId) (moved : Bool) (s s' : SendCtl) : Prop where
  stays : ∀ a ∈ s.queue (.unacked n), a ≠ p → (s.pkt a).lossRec = false → a ∈ s'.queue (.unacked n)
  lost : ∀ a, a ∈ s'.queue .lost ↔ a ∈ s.queue .lost ∨ a = p ∧ moved = true

end

section
variable {env : Env} {s s' s₁ : SendCtl} {n : Pns} {p : PktId} {next : Option PktId} {moved : Bool}

theorem Shed.of_queue (hq : (s'.core env).queue = (s.core env).queue) : Shed n p false s s' := by
  have hq : ∀ q, s'.queue q = s.queue q := fun q => congrFun hq q
  constructor
  · intro a ha _ _
    rw [hq]
    exact ha
  · intro a
    rw [hq]
    simp

theorem Shed.before (h : Shed n p moved s₁ s') (hq : (s₁.core env).queue = (s.core env).queue)
    (hp : (s₁.core env).pkts = (s.core env).pkts) : Shed n p moved s s' := by
  have hq : ∀ q, s₁.queue q = s.queue q := fun q => congrFun hq q
  constructor
  · intro a ha hne hr
    apply h.stays a (hq _ ▸ ha) hne
    exact (congrArg Pkt.lossRec (congrFun hp a)).trans hr
  · intro a
    rw [h.lost, hq]

theorem Shed.then (h : Shed n p moved s s') (hq : (s₁.core env).queue = (s'.core env).queue) :
    Shed n p moved s s₁ := by
  have hq : ∀ q, s₁.queue q = s'.queue q := fun q => congrFun hq q
  constructor
  · intro a ha hne hr
    rw [hq]
    exact h.stays a ha hne hr
  · intro a
    rw [hq]
    exact h.lost a

theorem queue_unackedRemove (s : SendCtl) (p : PktId) (sz : Nat) (q : Queue) :
    (s.unackedRemove env p sz).queue q =
      if q = .unacked (s.pkt p).pns then (s.queue q).erase p else s.queue q := by
  have h : (s.unackedRemove env p sz).queue q = (s.setQueue (.unacked (s.pkt p).pns)
      ((s.queue (.unacked (s.pkt p).pns)).erase p)).queue q := by
    simp only [unackedRemove]
    split <;> rfl
  rw [h, queue_setQueue]
  split
  next he => rw [he]
  · rfl

theorem mem_unackedRemove {q : Queue} (ha : a ∈ s.queue q) (hne : a ≠ p) (sz : Nat) :
    a ∈ (s.unackedRemove env p sz).queue q := by
  rw [queue_unackedRemove]
  split
  · exact (List.mem_erase_of_ne hne).2 ha
  · exact ha

theorem unackedRemove_shed (s : SendCtl) (p : PktId) (sz : Nat) :
    Shed n p false s (s.unackedRemove env p sz) := by
  constructor
  · intro a ha hne _
    exact mem_unackedRemove ha hne sz
  · intro a
    rw [queue_unackedRemove, if_neg (by simp)]
    simp

theorem updateTurn_queue (s : SendCtl) (p : PktId) : (s.updateTurn env p).queue = s.queue := by
  simp only [updateTurn]
  split <;> rfl

theorem moveToLost_queue (hl : (s.pkt p).lost = false) (sz : Nat) (q : Queue) :
    (s.moveToLost env p sz).queue q =
      if q = .lost then s.queue .lost ++ [p] else (s.unackedRemove env p sz).queue q := by
  have hq : ((s.unackedRemove env p sz).lostAppend p).queue q =
      if q = .lost then s.queue .lost ++ [p] else (s.unackedRemove env p sz).queue q := by
    have hl : (s.unackedRemove env p sz).queue .lost = s.queue .lost := by
      rw [queue_unackedRemove, if_neg (by simp)]
    rw [← hl]
    exact queue_setQueue ..
  simp only [moveToLost, hl, Bool.false_eq_true, if_false]
  split
  · rw [updateTurn_queue, hq]
  · exact hq

section
variable (hS : s.Settled env) (hp : Outstanding env s n p)
include hS hp

theorem loseRetx_shed (sz : Nat) :
    Shed n p true s ((s.recordLoss env p).1.moveToLost env p sz) := by
  obtain ⟨-, -, hl, -, -, -⟩ := hp.facts hS
  obtain ⟨⟨x, hself⟩, hqueue⟩ := recordLoss_frame hS hp
  generalize (s.recordLoss env p).1 = s' at hself hqueue ⊢
  have hl' : (s'.pkt p).lost = false := (congrArg Pkt.lost hself).trans hl
  have hlost : s'.queue .lost = s.queue .lost := (hqueue .lost).resolve_right (by simp)
  constructor
  · intro a ha hne _
    rw [moveToLost_queue hl', if_neg (by simp)]
    apply mem_unackedRemove _ hne sz
    rcases hqueue (.unacked n) with he | ⟨-, he⟩
    · rw [he]
      exact ha
    · rw [he]
      exact (mem_insertBefore hp.mem).2 (.inr ha)
  · intro a
    rw [moveToLost_queue hl', if_pos rfl, List.mem_append, hlost]
    simp

theorem loseOther_shed (hz : sz = (s.pkt p).sentSize env) :
    Shed n p false s ((s.unackedRemove env p sz).destroyChain env p next).1 := by
  subst hz
  have hU : Shed n p false s (s.unackedRemove env p ((s.pkt p).sentSize env)) :=
    unackedRemove_shed s p _
  have hcore : (s.unackedRemove env p ((s.pkt p).sentSize env)).core env =
      (s.core env).unackedRemove p := core_unackedRemove s p
  generalize s.unackedRemove env p ((s.pkt p).sentSize env) = s' at hU hcore ⊢
  obtain ⟨hM, l, hl, hG⟩ := loseOther_gone (m := fun _ => True) hS hp hcore next
  have hpk : ∀ a, ((s'.core env).pkts a).lossRec = (s.pkt a).lossRec := fun a => by
    rw [hcore]
    simp only [Core.unackedRemove, Core.charge, Core.upd, Function.update_apply]
    split
    next he =>
      rw [he]
      rfl
    · rfl
  constructor
  · intro a ha hne hr
    apply (hG.keep _ a fun hal => ?_).2 (hU.stays a ha hne hr)
    rw [← hpk, hl a hal] at hr
    cases hr
  · intro a
    rw [← hU.lost]
    by_cases hal : a ∈ l
    · apply iff_of_false (hG.gone a (.tail _ hal) .lost (by simp))
      intro ha
      have hr := ((hM.sound hS).placed.lost ha).2.1.1
      rw [hl a hal] at hr
      cases hr
    · exact hG.keep .lost a hal

theorem handleRegularLostPacket_shed :
    Shed n p ((s.pkt p).frameTypes.has env.retxFrames) s
      (s.handleRegularLostPacket env p next).1 := by
  have hr : (s.pkt p).lossRec = false := hp.data.1
  have hcore : (s.countLoss p).core env = s.core env := core_countLoss s p
  have hp' : Outstanding env (s.countLoss p) n p := ⟨hcore.symm ▸ hp.mem, hcore.symm ▸ hp.data⟩
  have hz : (s.pkt p).sentSize env = ((s.countLoss p).pkt p).sentSize env :=
    (congrArg (fun c : Core => (c.pkts p).body.bytes) hcore).symm
  simp only [handleRegularLostPacket, hr, Bool.false_eq_true, if_false]
  split
  next h =>
    rw [h]
    exact (loseRetx_shed (hS.of_core hcore) hp' _).before (by rw [hcore]) (by rw [hcore])
  next h =>
    rw [eq_false_of_ne_true h]
    exact (loseOther_shed (hS.of_core hcore) hp' hz).before (by rw [hcore]) (by rw [hcore])

theorem handleLostPacket_shed :
    Shed n p ((s.pkt p).frameTypes.has env.retxFrames && !(s.pkt p).mtuProbe) s
      (s.handleLostPacket env p next).1 := by
  simp only [handleLostPacket]
  split
  next h =>
    rw [h, Bool.not_true, Bool.and_false]
    exact unackedRemove_shed s p _
  next h =>
    rw [eq_false_of_ne_true h, Bool.not_false, Bool.and_true]
    exact handleRegularLostPacket_shed hS hp

end

end

section
variable {env : Env} {d : Detection} {s s' : SendCtl} {n : Pns} {p : PktId} {next : Option PktId}
  {moved : Bool}

structure Looked (env : Env) (n : Pns) (p : PktId) (noted : Bool) (d d' : Detection) : Prop where
  largest : d'.largestLost = if noted then (d.ctl.pkt p).packno else d.largestLost
  shed : Shed n p (noted && resendable env (d.ctl.pkt p)) d.ctl d'.ctl

theorem recordReplicaLoss_queue (s : SendCtl) (p : PktId) :
    (s.recordReplicaLoss env p).queue = s.queue := by
  simp only [recordReplicaLoss]
  split
  · obtain ⟨ok, h⟩ : ∃ ok, (s.recordFeedback env p 1).core env = _ := core_recordFeedback s p 1
    exact congrArg Core.queue h
  · rfl

theorem handleDetected_shed (hS : s.Settled env) (hp : Outstanding env s n p)
    (hl : declarable (s.pkt p) = true) :
    Shed n p ((s.pkt p).frameTypes.has env.retxFrames && !(s.pkt p).mtuProbe) s
      ((s.markDetected p).handleLostPacket env p next).1 := by
  have hcore : (s.markDetected p).core env = (s.core env).emit (.declared p) :=
    core_markDetected s p
  obtain ⟨-, hS', hp', hpk⟩ := markDetected_spec (m := fun _ => True) hS hp hl
  have hL : Shed n p _ _ ((s.markDetected p).handleLostPacket env p next).1 :=
    handleLostPacket_shed hS' hp'
  rw [hpk] at hL
  apply @Shed.before env _ _ _ _ _ _ hL
  · rw [hcore]
    rfl
  · rw [hcore]
    rfl

theorem detectOne_looked (hS : d.ctl.Settled env) (hp : p ∈ (d.ctl.core env).queue (.unacked n)) :
    Looked env n p (d.ctl.notesLoss env largestRetx p) d (detectOne env n largestRetx d p).1 := by
  obtain ⟨hD, hlargest⟩ := @detectOne_step env p n largestRetx d
  refine ⟨hlargest, ?_⟩
  generalize d.ctl.notesLoss env largestRetx p = noted,
    (detectOne env n largestRetx d p).1.ctl = s',
    (detectOne env n largestRetx d p).2 = next' at hD ⊢
  cases hD with
  | stay lossTo hl =>
    have hf : (noted && resendable env (d.ctl.pkt p)) = false := by
      cases hn : noted with
      | false => rfl
      | true =>
        obtain ⟨hd, hl⟩ := hl hn
        rw [mayBeLost_eq hS ⟨hp, hd⟩] at hl
        rw [resendable, hl, Bool.and_false, Bool.and_false]
    rw [hf]
    exact @Shed.of_queue env _ _ _ _ rfl
  | replica hn hr =>
    rw [hn]
    exact @Shed.of_queue env _ _ _ _ (recordReplicaLoss_queue _ _)
  | probe hn hd hm =>
    rw [hn]
    exact unackedRemove_shed _ p _
  | lost lossTo s' hd hl hn hs =>
    have hc : ({ d.ctl with lossTo } : SendCtl).core env = d.ctl.core env := core_congr rfl
    have hO : Outstanding env { d.ctl with lossTo } n p := ⟨hc.symm ▸ hp, hc.symm ▸ hd⟩
    rw [mayBeLost_eq hS ⟨hp, hd⟩] at hl
    have hL : Shed n p _ d.ctl _ :=
      (@handleDetected_shed env _ n p (nextOf p (d.ctl.queue (.unacked n)))
      (hS.of_core hc) hO hl).before (by rw [hc]) (by rw [hc])
    rw [resendable, hl, Bool.and_true, Bool.and_eq_right_iff_imp.2 hn]
    rcases hs with rfl | ⟨r, rfl⟩
    · exact hL
    · exact @Shed.then env _ _ _ _ _ _ hL rfl

structure Detecting (env : Env) (s : SendCtl) (n : Pns) (d : Detection) (l : List PktId) :
    Prop where
  looping : Looping env (fun _ => True) s n d.ctl l
  steady : d.ctl.steady = s.steady
  behind : ∀ a ∈ s.queue (.unacked n), a ∉ l → (s.pkt a).lossRec = false →
    ∀ b ∈ l, (s.pkt a).packno < (s.pkt b).packno
  largest : asU64 s.largestSentAtCutback < d.largestLost ↔
    ∃ a ∈ s.queue (.unacked n), a ∉ l ∧ s.countsAsLost env n a = true ∧
      asU64 s.largestSentAtCutback < (s.pkt a).packno
  lost : ∀ a ∈ s.queue (.unacked n), a ∈ d.ctl.queue .lost ↔
    a ∉ l ∧ s.countsAsLost env n a = true ∧ resendable env (s.pkt a) = true

theorem countsAsLost_record (h : s.countsAsLost env n a = true) : (s.pkt a).lossRec = false := by
  simp only [countsAsLost, notesLoss, Bool.and_eq_true, Bool.not_eq_true'] at h
  exact h.2.1.2

theorem Detecting.test (hI : Detecting env s n d (p :: l)) (hS : s.Settled env)
    (hle : (s.pkt p).packno ≤ s.largestAckedPackno) :
    (d.ctl.pkt p).packno = (s.pkt p).packno ∧
      d.ctl.notesLoss env (s.largestRetxPacketNumber env n) p = s.countsAsLost env n p ∧
      resendable env (d.ctl.pkt p) = resendable env (s.pkt p) := by
  have hl := (hI.looping.reached hS).lasting
  have hpn : (d.ctl.pkt p).packno = (s.pkt p).packno :=
    PacketOut.lasting_packno hl
  obtain ⟨hfack, hearly, htime⟩ :=
    @lostBy_congr env p (s.largestRetxPacketNumber env n) _ _ hl hI.steady
  refine ⟨hpn, ?_, PacketOut.congr_lasting hl fun _ => rfl⟩
  have hview : ((d.ctl.pkt p).poison, (d.ctl.pkt p).lossRec, (d.ctl.pkt p).mtuProbe,
      (d.ctl.pkt p).frameTypes) = ((s.pkt p).poison, (s.pkt p).lossRec, (s.pkt p).mtuProbe,
      (s.pkt p).frameTypes) :=
    PacketOut.congr_lasting
      (f := fun pk => (pk.poison, pk.lossRec, pk.mtuProbe, pk.frameTypes)) hl fun _ => rfl
  simp only [Prod.mk.injEq] at hview
  obtain ⟨hpo, hr, hm, hf⟩ := hview
  simp only [countsAsLost, notesLoss, hfack, hearly, htime, hpo, hr, hm, hf, decide_eq_true hle,
    Bool.true_and]

theorem Detecting.step (hI : Detecting env s n d (p :: l)) (hS : s.Settled env)
    (ho : Ordered s n) (hle : (s.pkt p).packno ≤ s.largestAckedPackno) :
    ∃ l', (detectOne env n (s.largestRetxPacketNumber env n) d p).2 = l'.head? ∧
      l'.length ≤ l.length ∧
      Detecting env s n (detectOne env n (s.largestRetxPacketNumber env n) d p).1 l' := by
  have hR := hI.looping.reached hS
  have hH : Handled env (fun _ => True) d.ctl n p (nextOf p (d.ctl.queue (.unacked n)))
      (detectOne env n (s.largestRetxPacketNumber env n) d p).1.ctl
      (detectOne env n (s.largestRetxPacketNumber env n) d p).2 :=
    detectOne_spec hR.sound hR.mem fun _ _ => admits_anything _
  obtain ⟨l', hl', hsub, hL, hfront⟩ := hI.looping.step hS hH
  have hK : Looked env n p _ d (detectOne env n (s.largestRetxPacketNumber env n) d p).1 :=
    detectOne_looked hR.sound hR.mem
  obtain ⟨hpn, hnote, hsend⟩ := hI.test hS hle
  rw [hnote] at hK
  have hsteady : (detectOne env n (s.largestRetxPacketNumber env n) d p).1.ctl.steady =
      d.ctl.steady :=
    detectOne_spares.steady
  generalize detectOne env n (s.largestRetxPacketNumber env n) d p = r at hl' hL hfront hK hsteady ⊢
  have hnd : (p :: l).Nodup := hI.looping.sub.nodup (hS.placed.nodup (some (.unacked n)))
  have hpl : p ∉ l := (List.nodup_cons.1 hnd).1
  -- a data packet stays in front until it is its turn
  have hin : ∀ a, (s.pkt a).lossRec = false → (a ∉ l' ↔ a = p ∨ a ∉ p :: l) := by
    intro a hr
    constructor
    · intro hal'
      by_contra hn
      simp only [not_or, Decidable.not_not] at hn
      obtain ⟨hne, hal⟩ := hn
      have hr' : (d.ctl.pkt a).lossRec = false :=
        (PacketOut.congr_lasting (f := PacketOut.lossRec) (hI.looping.lasting a hal)
          fun _ => rfl).trans hr
      have hal₂ : a ∈ l := (List.mem_cons.1 hal).resolve_left hne
      exact hal' (hfront a hal₂ (hK.shed.stays a (hI.looping.suffix.subset hal) hne hr'))
    · rintro (rfl | hal) ha
      · exact hpl (hsub.subset ha)
      · exact hal (.tail _ (hsub.subset ha))
  refine ⟨l', hl', hsub.length_le, hL, hsteady.trans hI.steady, ?_, ?_, ?_⟩
  · intro a ha hal hr b hb
    rcases (hin a hr).1 hal with rfl | hal
    · exact List.rel_of_pairwise_cons (ho.sublist hI.looping.sub) (hsub.subset hb)
    · exact hI.behind a ha hal hr b (.tail _ (hsub.subset hb))
  · rw [hK.largest, hpn]
    split
    next hc =>
      constructor
      · intro hlt
        exact ⟨p, hR.start, (hin p (countsAsLost_record hc)).2 (.inl rfl), hc, hlt⟩
      · rintro ⟨a, ha, hal, hca, hlt⟩
        rcases (hin a (countsAsLost_record hca)).1 hal with rfl | hal
        · exact hlt
        · exact hlt.trans (hI.behind a ha hal (countsAsLost_record hca) p (.head _))
    next hc =>
      rw [hI.largest]
      constructor
      · rintro ⟨a, ha, hal, hca, hlt⟩
        exact ⟨a, ha, (hin a (countsAsLost_record hca)).2 (.inr hal), hca, hlt⟩
      · rintro ⟨a, ha, hal, hca, hlt⟩
        rcases (hin a (countsAsLost_record hca)).1 hal with rfl | hal
        · exact absurd hca hc
        · exact ⟨a, ha, hal, hca, hlt⟩
  · intro a ha
    rw [hK.shed.lost, hI.lost a ha, hsend, Bool.and_eq_true]
    constructor
    · rintro (⟨hal, hca, hre⟩ | ⟨rfl, hca, hre⟩)
      · exact ⟨(hin a (countsAsLost_record hca)).2 (.inr hal), hca, hre⟩
      · exact ⟨(hin a (countsAsLost_record hca)).2 (.inl rfl), hca, hre⟩
    · rintro ⟨hal, hca, hre⟩
      rcases (hin a (countsAsLost_record hca)).1 hal with rfl | hal
      · exact .inr ⟨rfl, hca, hre⟩
      · exact .inl ⟨hal, hca, hre⟩

/-- What the loop notes and puts on the lost queue, told from the state before it. -/
theorem detectLoop_detects (hS : s.Settled env) (ho : Ordered s n)
    (hcut : 0 ≤ asU64 s.largestSentAtCutback) :
    (s.detectLoop env n).ctl.largestSentAtCutback = s.largestSentAtCutback ∧
    (asU64 s.largestSentAtCutback < (s.detectLoop env n).largestLost ↔
      ∃ a ∈ s.queue (.unacked n), s.countsAsLost env n a = true ∧
        asU64 s.largestSentAtCutback < (s.pkt a).packno) ∧
    ∀ a ∈ s.queue (.unacked n), a ∈ (s.detectLoop env n).ctl.queue .lost ↔
      s.countsAsLost env n a = true ∧ resendable env (s.pkt a) = true := by
  have hI : Detecting env s n ⟨{ s with lossTo := 0 }, 0⟩ (s.queue (.unacked n)) := by
    refine ⟨.start (core_congr rfl) rfl, rfl, fun a ha hn => absurd ha hn, ?_, fun a ha => ?_⟩
    · apply iff_of_false
      · exact Int.not_lt.2 hcut
      · rintro ⟨a, ha, hn, -⟩
        exact hn ha
    · apply iff_of_false
      · intro hl
        cases hS.placed.uniq a (some .lost) (some (.unacked n)) hl ha
      · rintro ⟨hn, -⟩
        exact hn ha
  obtain ⟨l, hI, hend⟩ := scan_rule
    (fun (d : Detection) p => decide ((d.ctl.pkt p).packno ≤ d.ctl.largestAckedPackno))
    (detectOne env n (s.largestRetxPacketNumber env n)) (fun d l => Detecting env s n d l)
    (fun d p l hI hc => by
      have hle := of_decide_eq_true hc
      have hla : d.ctl.largestAckedPackno = s.largestAckedPackno := congrArg (·.1) hI.steady
      have hpn : (d.ctl.pkt p).packno = (s.pkt p).packno :=
        PacketOut.lasting_packno (hI.looping.reached hS).lasting
      rw [hpn, hla] at hle
      exact hI.step hS ho hle)
    hI le_rfl
  have hI : Detecting env s n (s.detectLoop env n) l := hI
  have hend : ∀ a ∈ l.head?, ¬ ((s.detectLoop env n).ctl.pkt a).packno ≤
      (s.detectLoop env n).ctl.largestAckedPackno := fun a ha => of_decide_eq_false (hend a ha)
  generalize s.detectLoop env n = d at hI hend ⊢
  -- the loop ends in front of a number above the largest acknowledged one
  have hout : ∀ a, s.countsAsLost env n a = true → a ∉ l := by
    intro a hca hal
    simp only [countsAsLost, Bool.and_eq_true, decide_eq_true_eq] at hca
    cases l with
    | nil => cases hal
    | cons b l =>
      have hb := hend b rfl
      have hla : d.ctl.largestAckedPackno = s.largestAckedPackno := congrArg (·.1) hI.steady
      have hpn : (d.ctl.pkt b).packno = (s.pkt b).packno :=
        PacketOut.lasting_packno (hI.looping.lasting b (.head _))
      rw [hpn, hla] at hb
      rcases List.mem_cons.1 hal with rfl | hal
      · exact hb hca.1
      · have hlt := List.rel_of_pairwise_cons (ho.sublist hI.looping.sub) hal
        exact hb ((Int.le_of_lt hlt).trans hca.1)
  refine ⟨congrArg (·.2.2.2.2.2.2.2.2.2) hI.steady, hI.largest.trans ?_, fun a ha =>
    (hI.lost a ha).trans (and_iff_right_of_imp fun h => hout a h.1)⟩
  constructor
  · rintro ⟨a, ha, -, h⟩
    exact ⟨a, ha, h⟩
  · rintro ⟨a, ha, h⟩
    exact ⟨a, ha, hout a h.1, h⟩

/-- The window is reduced only if a retransmittable packet that is no probe, with a number above the
last cutback, goes on the lost queue. -/
def EventReflectsLoss (env : Env) (s : SendCtl) (n : Pns) : Prop :=
  (s.detectLosses env n).1.log = .cciLoss :: (s.detectLoop env n).ctl.log →
    ∃ p ∈ s.queue (.unacked n), (s.pkt p).frameTypes.has env.retxFrames = true ∧
      (s.pkt p).mtuProbe = false ∧ asU64 s.largestSentAtCutback < (s.pkt p).packno ∧
      p ∈ (s.detectLosses env n).1.queue .lost

/-- Of the packets that reduce the window, counted as lost, one has to be resendable. -/
theorem eventReflectsLoss_iff (hS : Sound (s.core env) [] []) (ho : Ordered s n)
    (hcut : 0 ≤ asU64 s.largestSentAtCutback) :
    EventReflectsLoss env s n ↔
      ((∃ p ∈ s.queue (.unacked n), s.countsAsLost env n p = true ∧
          asU64 s.largestSentAtCutback < (s.pkt p).packno) →
        ∃ p ∈ s.queue (.unacked n), s.countsAsLost env n p = true ∧
          resendable env (s.pkt p) = true ∧ asU64 s.largestSentAtCutback < (s.pkt p).packno) := by
  obtain ⟨hsame, hlargest, hlost⟩ := @detectLoop_detects env _ _ hS ho hcut
  have hevent : (s.detectLosses env n).1.log = .cciLoss :: (s.detectLoop env n).ctl.log ↔
      asU64 s.largestSentAtCutback < (s.detectLoop env n).largestLost := by
    simp only [detectLosses, hsame]
    split
    next h => exact iff_of_true rfl h
    next h => exact iff_of_false (fun he => List.cons_ne_self _ _ he.symm) h
  have hq : (s.detectLosses env n).1.queue = (s.detectLoop env n).ctl.queue := by
    simp only [detectLosses]
    split <;> rfl
  rw [EventReflectsLoss, hevent, hlargest, hq]
  apply imp_congr_right
  intro _
  apply exists_congr
  intro p
  apply and_congr_right
  intro hp
  rw [hlost p hp]
  simp only [resendable, Bool.and_eq_true, Bool.not_eq_true']
  tauto

end

def ackOfPing (n : Int) : AckInfo := ⟨.app, [⟨n, n⟩], 0, none⟩

def atDetection (s : SendCtl) (n : Int) : SendCtl :=
  (s.processAckLoop quietEnv (ackOfPing n) 1000).ctl

def reducesWindow (s : SendCtl) : Bool :=
  decide ((s.detectLosses quietEnv .app).1.log = .cciLoss :: (s.detectLoop quietEnv .app).ctl.log)

theorem eventReflectsLoss_first : ∃ s : SendCtl, Reachable quietEnv s ∧
    (s.atDetection 2).reducesWindow = true ∧ EventReflectsLoss quietEnv (s.atDetection 2) .app := by
  obtain ⟨s, hs, ha, ho, hcut, hev, hloss⟩ : ∃ s, Reachable quietEnv s ∧ s.aborted = false ∧
      Ordered (s.atDetection 2) .app ∧ 0 ≤ asU64 (s.atDetection 2).largestSentAtCutback ∧
      (s.atDetection 2).reducesWindow = true ∧
      ∃ p ∈ (s.atDetection 2).queue (.unacked .app),
        (s.atDetection 2).countsAsLost quietEnv .app p = true ∧
          resendable quietEnv ((s.atDetection 2).pkt p) = true ∧
          asU64 (s.atDetection 2).largestSentAtCutback < ((s.atDetection 2).pkt p).packno :=
    exists_run (pingAcked 0 ++ sendNew streamContent ++ sendNew pingContent) (by decide +kernel)
  have hL : s.Evolves quietEnv (fun _ => True) (s.atDetection 2) :=
    processAckLoop_moves 1000 (hs.sound ha) trivial fun _ _ _ _ _ => .inr trivial
  have hS : Sound ((s.atDetection 2).core quietEnv) [] [] := hL.sound (hs.sound ha)
  exact ⟨s, hs, hev, (eventReflectsLoss_iff hS ho hcut).2 fun _ => hloss⟩

/-- A packet that is in flight with a replica still to be sent reduces the window by itself. -/
theorem pending_replica_reduces_window : ∃ s : SendCtl, Reachable quietEnv s ∧
    Ordered (s.atDetection 6) .app ∧ (s.atDetection 6).reducesWindow = true ∧
    ¬ EventReflectsLoss quietEnv (s.atDetection 6) .app := by
  obtain ⟨s, hs, ho, hev, hlost⟩ : ∃ s, Reachable quietEnv s ∧ Ordered (s.atDetection 6) .app ∧
      (s.atDetection 6).reducesWindow = true ∧
      ((s.atDetection 6).detectLosses quietEnv .app).1.queue .lost = [] :=
    exists_run (turnsOfPacket [] 4 ++ resend ++ sendNew pingContent) (by decide +kernel)
  refine ⟨s, hs, ho, hev, fun h => ?_⟩
  obtain ⟨p, -, -, -, -, hp⟩ := h (of_decide_eq_true hev)
  rw [hlost] at hp
  cases hp

end SendCtl
end QuicArt
