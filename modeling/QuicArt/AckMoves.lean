import QuicArt.LossMoves

namespace QuicArt

namespace SendCtl

section
variable {env : Env} {s : SendCtl} {p : PktId} {n : Pns} {next : Option PktId} {ack : Bool}

theorem core_noteAcked (s : SendCtl) (p : PktId) :
    ∃ ok, (s.noteAcked env p).core env = (s.core env).replicaFeedback p ok := by
  have hc : ({ s with
      largestAckedPackno := (s.pkt p).packno
      largestAckedSentTime := (s.pkt p).sent } : SendCtl).core env = s.core env := core_congr rfl
  simp only [noteAcked, Core.replicaFeedback, core_pkts]
  by_cases hf : (s.pkt p).fakeLossRec = 1
  · have hf' : ((s.pkt p).core env).fakeLossRec = 1 := hf
    simp only [hf, hf', if_true]
    rw [← hc]
    exact core_recordFeedback _ p 0
  · have hf' : ¬ ((s.pkt p).core env).fakeLossRec = 1 := hf
    simp only [hf, hf', if_false]
    exact ⟨true, hc⟩

theorem core_reordThresh (s : SendCtl) (r : PktId) (prev : Int) :
    (s.maybeIncreaseReordThresh r prev).core env = s.core env := by
  simp only [maybeIncreaseReordThresh]
  split
  · exact core_congr rfl
  · rfl

end

end SendCtl

structure EntryTaken (c₀ : Core) (n : Pns) (p : PktId) (c : Core) : Prop where
  queue : c.queue = (c₀.remove (.unacked n) p).queue
  ident : ∀ a, (c.pkts a).ident = (c₀.pkts a).ident

structure Acked (c : Core) (p : PktId) (c' : Core) : Prop where
  gone : ∀ d l, (c.pkts d).data → ChainAt c [] d l → p ∈ d :: l →
    (∀ a ∈ d :: l, ∀ q, q ≠ .stash → a ∉ c'.queue q) ∧
      ((c.pkts d).mtuProbe = false → .ackStreams d ∈ c'.log)
  keep : ∀ d l, (c.pkts d).data → ChainAt c [] d l → p ∉ d :: l →
    ChainAt c' [] d l ∧ ∀ a ∈ d :: l,
      (c'.pkts a).ident = (c.pkts a).ident ∧ ∀ q, a ∈ c'.queue q ↔ a ∈ c.queue q

theorem EntryTaken.chainAt {c₀ c : Core} (hT : EntryTaken c₀ n p c) (hP : Placed c₀ [])
    (hC : ChainAt c₀ [] d l) : ChainAt c [p] d l := by
  refine hC.frame (fun a _ => congrArg Prod.fst (hT.ident a)) fun r _ hr => ?_
  rw [hT.queue, mem_queue_remove hP]
  by_cases he : r = p
  · exact .inr (List.mem_singleton.2 he)
  · exact .inl ⟨hr.resolve_right (by simp), fun hn => he hn.2⟩

namespace SendCtl

section
variable {env : Env} {s : SendCtl} {p : PktId} {n : Pns} {next : Option PktId} {ack : Bool}

theorem ackChain_acked {c₀ c : Core} {s' : SendCtl} (hP : Placed c₀ []) (hT : EntryTaken c₀ n p c)
    (hF : ChainFrom c [] p l) (hc : s'.core env = c.ackIf p ack)
    (hack : (c₀.pkts p).data → (c₀.pkts p).mtuProbe = false → ack = true)
    (hG : ChainGone env m c [] p l s' next r) : Acked c₀ p (r.1.core env) := by
  refine ⟨fun d l₀ hd hC hp => ?_, fun d l₀ hd hC hp => ?_⟩
  · have hmem : ∀ a, a ∈ p :: l ↔ a ∈ d :: l₀ := fun a =>
      (hT.chainAt hP hC).ring.mem_iff hF.ring hp
    refine ⟨fun a ha => hG.gone a ((hmem a).2 ha), fun hm => ?_⟩
    rcases List.mem_cons.1 ((hmem d).2 (.head _)) with rfl | hdl
    · have hs : Event.ackStreams d ∈ (s'.core env).log := by
        rw [hc, ackIf_log, hack hd hm, if_pos rfl]
        exact .head _
      exact hG.log.subset hs
    · apply hG.acked d hdl
      have hl : (c.pkts d).links = (c₀.pkts d).links := congrArg Prod.fst (hT.ident d)
      simp only [Pkt.links, Prod.mk.injEq] at hl
      exact hl.2.1.trans hd.1
  · have hC' := hT.chainAt hP hC
    have hnl : ∀ a ∈ d :: l₀, a ∉ l := by
      intro a ha hal
      obtain ⟨l₁, l₂, he⟩ := List.append_of_mem hal
      subst he
      have hmem := (hC'.ring.mem_iff hF.ring.rotate ha (x := p)).1
      exact hp (hmem (.tail _ (List.mem_append_right _ (.head _))))
    have hne : ∀ a ∈ d :: l₀, a ≠ p := by
      rintro a ha rfl
      exact hp ha
    have hid : ∀ a ∈ d :: l₀, ((r.1.core env).pkts a).ident = (c₀.pkts a).ident := fun a ha =>
      (hG.ident a (hne a ha)).trans (hT.ident a)
    have hq : ∀ a ∈ d :: l₀, ∀ q, a ∈ (r.1.core env).queue q ↔ a ∈ c₀.queue q := by
      intro a ha q
      rw [hG.keep q a (hnl a ha), hT.queue, mem_queue_remove hP]
      exact and_iff_left fun hn => hne a ha hn.2
    refine ⟨hC.frame (fun a ha => congrArg Prod.fst (hid a ha)) fun r hr hm => ?_,
      fun a ha => ⟨hid a ha, hq a ha⟩⟩
    exact hm.imp_left (hq r (.tail _ hr) _).2

structure EntryAcked (env : Env) (m : Kind → Prop) (s : SendCtl) (n : Pns) (p : PktId)
    (next : Option PktId) (s' : SendCtl) (next' : Option PktId) : Prop where
  handled : Handled env m s n p next s' next'
  acked : Acked (s.core env) p (s'.core env)
  ident : ∀ a, ((s'.core env).pkts a).ident.2 = ((s.core env).pkts a).ident.2
  links : ∀ a, a ≠ p → ((s'.core env).pkts a).lossChain = ((s.core env).pkts a).lossChain
  chain : ∃ l, Ring (fun a => ((s.core env).pkts a).lossChain) p l ∧
    ∀ q, q ≠ .stash → ∀ a, a ∈ s'.queue q ↔ a ∈ s.queue q ∧ a ∉ p :: l

/-- With the entry that was acknowledged goes the rest of its chain. -/
theorem ackChain_spec {c : Core} {s' : SendCtl} (hS : s.Settled env)
    (hM : Moves m ⟨s.core env, [], []⟩ ⟨c, [p], []⟩) (hT : EntryTaken (s.core env) n p c)
    (hF : ChainFrom c [] p l) (hc : s'.core env = c.ackIf p ack)
    (ha : ack = true → (c.pkts p).data)
    (hack : ((s.core env).pkts p).data → ((s.core env).pkts p).mtuProbe = false → ack = true)
    (hm : m .mark) (hk : Keeps p s (s'.destroyChain env p next).1) :
    EntryAcked env m s n p next (s'.destroyChain env p next).1
      (s'.destroyChain env p next).2 := by
  have hG : ChainGone env m c [] p l s' next (s'.destroyChain env p next) :=
    destroyChain_spec (hM.sound hS) hF hc ha (.inl hm)
  -- nothing is put on a queue
  have hsub : ∀ q, q ≠ .stash → ∀ a ∈ (s'.destroyChain env p next).1.queue q,
      a ≠ p ∧ a ∈ s.queue q := by
    intro q hq a haq
    have hal : a ∉ p :: l := fun hal => hG.gone a hal q hq haq
    simp only [List.mem_cons, not_or] at hal
    obtain ⟨hap, hal⟩ := hal
    have hac : a ∈ c.queue q := (hG.keep q a hal).1 haq
    rw [hT.queue, mem_queue_remove hS.placed] at hac
    exact ⟨hap, hac.1⟩
  have hlink : ∀ a, (c.pkts a).lossChain = ((s.core env).pkts a).lossChain := fun a =>
    congrArg Prod.fst (congrArg Prod.fst (hT.ident a))
  refine ⟨⟨hM.trans hG.moves, hk, fun n' _ a ha => (hsub _ (by simp) a ha).2,
    fun rest hC hpr => ⟨_, hG.cursor n rest (cursor_of_queue env ?_ hC hpr),
      List.diff_sublist _ _, fun a ha haq => ?_⟩⟩,
    ackChain_acked hS.placed hT hF hc hack hG, fun a => ?_, fun a ha => ?_,
    ⟨l, hF.ring.congr fun a _ => (hlink a).symm, fun q hq a => ⟨fun haq => ⟨(hsub q hq a haq).2,
      fun hal => hG.gone a hal q hq haq⟩, fun haq => ?_⟩⟩⟩
  · rw [hc, ackIf_queue, hT.queue]
    exact Function.update_self ..
  · have hal : a ∉ l := fun hal => hG.gone a (.tail _ hal) _ (by simp) haq
    exact List.mem_diff_of_mem ha hal
  · by_cases he : a = p
    · rw [he, hG.self, hT.ident]
    · rw [hG.ident a he, hT.ident]
  · have hl : ((_ : Core).pkts a).links = _ := congrArg Prod.fst (hG.ident a ha)
    exact (congrArg Prod.fst hl).trans (hlink a)
  · obtain ⟨haq, hal⟩ := haq
    simp only [List.mem_cons, not_or] at hal
    apply (hG.keep q a hal.2).2
    rw [hT.queue, mem_queue_remove hS.placed]
    exact ⟨haq, fun hn => hal.1 hn.2⟩

theorem entryTaken_data {c : Core} (hn : (c.pkts p).pns = n) (ok : Bool) :
    EntryTaken c n p ((c.replicaFeedback p ok).unackedRemove p) := by
  subst hn
  constructor
  · simp only [Core.unackedRemove, Core.charge, Core.upd, Core.remove, Core.setQueue,
      replicaFeedback_pkts, replicaFeedback_queue]
  · intro a
    apply (ident_upd (f := ({ · with unacked := false })) rfl a).trans
    simp only [Core.remove, Core.setQueue, replicaFeedback_pkts]

theorem entryTaken_record {c : Core} (n : Pns) (ok : Bool) :
    EntryTaken c n p ((c.replicaFeedback p ok).recRemove n p) := by
  constructor
  · simp only [recRemove_queue, Core.remove, Core.setQueue, replicaFeedback_queue]
  · intro a
    rw [recRemove_pkts, replicaFeedback_pkts]

/-- The delivery of a replica is a second sample only where that is permitted. -/
def Timely (m : Kind → Prop) (pk : PacketOut) : Prop :=
  pk.fakeLossRec = 1 → pk.feedbackRecorded = 0 ∨ m .late

theorem ackData_spec {s₁ : SendCtl} (hS : s.Settled env)
    (hp : p ∈ (s.core env).queue (.unacked n)) (hd : ((s.core env).pkts p).data)
    (hc : s₁.core env = (((s.core env).replicaFeedback p ok).unackedRemove p).ackIf p ack)
    (hack : ((s.core env).pkts p).mtuProbe = false → ack = true) (hm : m .mark)
    (hl : Timely m (s.pkt p)) (hk : Keeps p s (s₁.destroyChain env p next).1) :
    EntryAcked env m s n p next (s₁.destroyChain env p next).1
      (s₁.destroyChain env p next).2 := by
  have hn := (hS.placed.unacked hp).2.1 hd.2
  have hM : Moves m ⟨s.core env, [], []⟩
      ⟨((s.core env).replicaFeedback p ok).unackedRemove p, [p], []⟩ := .one (.ackData hp hd hl)
  have hd' : ((((s.core env).replicaFeedback p ok).unackedRemove p).pkts p).data := by
    rw [unackedRemove_self, replicaFeedback_pkts]
    exact hd
  obtain ⟨l, hF, -⟩ := (hM.sound hS).chainFrom_data hd' (by simp)
  exact ackChain_spec hS hM (entryTaken_data hn ok) hF hc (fun _ => hd') (fun _ => hack) hm hk

theorem ackRecord_spec {s₁ : SendCtl} (ok : Bool) (hS : s.Settled env)
    (hp : p ∈ (s.core env).queue (.unacked n)) (hr : ((s.core env).pkts p).lossRec = true)
    (hc : s₁.core env = ((s.core env).replicaFeedback p ok).recRemove n p) (hm : m .mark)
    (hl : Timely m (s.pkt p)) (hk : Keeps p s (s₁.destroyChain env p next).1) :
    EntryAcked env m s n p next (s₁.destroyChain env p next).1
      (s₁.destroyChain env p next).2 := by
  have hM : Moves m ⟨s.core env, [], []⟩
      ⟨((s.core env).replicaFeedback p ok).recRemove n p, [p], []⟩ := .one (.ackRecord hp hr hl)
  have hr' : ((((s.core env).replicaFeedback p ok).recRemove n p).pkts p).lossRec = true := by
    rw [recRemove_pkts, replicaFeedback_pkts]
    exact hr
  obtain ⟨l, d, hF, -, -, -⟩ := (hM.sound hS).chainFrom_record hr'
  have hc : s₁.core env = (((s.core env).replicaFeedback p ok).recRemove n p).ackIf p false := hc
  exact ackChain_spec hS hM (entryTaken_record n ok) hF hc (by simp)
    (fun hd => absurd (hd.1.symm.trans hr) (by simp)) hm hk

theorem ackEntry_spec {s₁ s₂ : SendCtl} (hS : s.Settled env)
    (hp : p ∈ (s.core env).queue (.unacked n))
    (hs : s₁.core env = (s.core env).replicaFeedback p ok)
    (he : s₁.ackEntry env n prev p = some s₂) (hm : m .mark) (hl : Timely m (s.pkt p))
    (hk : Keeps p s (s₂.destroyChain env p next).1) :
    EntryAcked env m s n p next (s₂.destroyChain env p next).1
      (s₂.destroyChain env p next).2 := by
  have hpk : (s₁.pkt p).core env = (s.core env).pkts p := by
    rw [← core_pkts, hs, replicaFeedback_pkts]
  have hsh := (hS.placed.unacked hp).2.2.2
  have hcore : (s₁.unackedRemove env p ((s₁.pkt p).sentSize env)).core env =
      ((s.core env).replicaFeedback p ok).unackedRemove p := by
    rw [core_unackedRemove, hs]
  simp only [ackEntry] at he
  split at he
  next hc =>
    simp only [Bool.and_eq_true, Bool.not_eq_true'] at hc
    have he := Option.some.inj he
    subst he
    have hc' : ((s₁.unackedRemove env p ((s₁.pkt p).sentSize env)).emit (.ackStreams p)).core env =
        (((s.core env).replicaFeedback p ok).unackedRemove p).ackIf p true := by
      rw [core_emit, hcore]
      rfl
    exact ackData_spec hS hp (hpk ▸ hc.1) hc' (fun _ => rfl) hm hl hk
  · split at he
    next hr =>
      have hr : ((s.core env).pkts p).lossRec = true := hpk ▸ hr
      have hz : (s₁.pkt p).hasSentSz = true := by
        have hz := (hsh.record hr).2.2.1
        rw [← hpk] at hz
        exact hz
      have hc' : s₂.core env = ((s.core env).replicaFeedback p ok).recRemove n p := by
        rw [← Option.some.inj he, core_reordThresh, ← hs, ← core_recRemove s₁ n hz]
        split <;> rfl
      exact ackRecord_spec ok hS hp hr hc' hm hl hk
    · split at he
      next hmtu =>
        have hr : (s₁.pkt p).lossRec = false := eq_false_of_ne_true ‹_›
        have hd : ((s.core env).pkts p).data := by
          refine ⟨hpk ▸ hr, ?_⟩
          cases hpo : ((s.core env).pkts p).poison with
          | false => rfl
          | true =>
            have hm' : ((s.core env).pkts p).mtuProbe = true := hpk ▸ hmtu
            cases (hsh.poison hpo).2.1.symm.trans hm'
        have he := Option.some.inj he
        subst he
        have hc' : (s₁.unackedRemove env p ((s₁.pkt p).sentSize env)).core env =
            (((s.core env).replicaFeedback p ok).unackedRemove p).ackIf p false := hcore
        refine ackData_spec hS hp hd hc' (fun hm' => ?_) hm hl hk
        rw [← hpk] at hm'
        cases hm'.symm.trans hmtu
      · cases he

theorem poison_of_ackEntry (he : s.ackEntry env n prev p = none) : (s.pkt p).poison = true := by
  simp only [ackEntry] at he
  split at he
  · cases he
  next hc =>
    split at he
    · cases he
    next hr =>
      split at he
      · cases he
      next hm =>
        cases hpo : (s.pkt p).poison with
        | true => rfl
        | false => exact absurd (by simp [hpo, hr, hm]) hc

theorem advance_poisoned (st : AckLoop) (packno : Int) :
    (st.advance packno).poisoned = st.poisoned := by
  unfold AckLoop.advance
  split <;> rfl

/-- A packet in range is poison, or is acknowledged with its chain; any other stays. -/
theorem ackOne_spec {st : AckLoop} {acki : AckInfo} (hS : st.ctl.Settled env)
    (hp : p ∈ (st.ctl.core env).queue (.unacked acki.pns)) (hm : m .mark)
    (hl : (st.advance (st.ctl.pkt p).packno).inRange (st.ctl.pkt p).packno = true →
      Timely m (st.ctl.pkt p)) :
    Handled env m st.ctl acki.pns p (nextOf p (st.ctl.queue (.unacked acki.pns)))
      (ackOne env acki prev st p).1.ctl (ackOne env acki prev st p).2 ∧
    (if (st.advance (st.ctl.pkt p).packno).inRange (st.ctl.pkt p).packno then
      ((st.ctl.core env).pkts p).poison = true ∨
        (ackOne env acki prev st p).1.poisoned = st.poisoned ∧
          EntryAcked env m st.ctl acki.pns p (nextOf p (st.ctl.queue (.unacked acki.pns)))
            (ackOne env acki prev st p).1.ctl (ackOne env acki prev st p).2
    else (ackOne env acki prev st p).1 = st.advance (st.ctl.pkt p).packno) := by
  obtain ⟨ok, hfb⟩ : ∃ ok, (st.ctl.noteAcked env p).core env =
      (st.ctl.core env).replicaFeedback p ok := core_noteAcked st.ctl p
  have hk : Keeps p st.ctl (ackOne env acki prev st p).1.ctl := ackOne_keeps acki prev st p
  simp only [ackOne, advance_ctl] at hk ⊢
  split at hk
  next hin =>
    simp only [hin, if_true]
    split at hk
    next he =>
      have hpk : ((st.ctl.noteAcked env p).pkt p).core env = (st.ctl.core env).pkts p := by
        rw [← core_pkts, hfb, replicaFeedback_pkts]
      have hpo : ((st.ctl.core env).pkts p).poison = true :=
        (congrArg Pkt.poison hpk).symm.trans (poison_of_ackEntry he)
      have hf := ((hS.placed.unacked hp).2.2.2.poison hpo).1
      have hc : (st.ctl.noteAcked env p).core env = st.ctl.core env := by
        rw [hfb, Core.replicaFeedback, if_neg (by rw [hf]; simp)]
      refine ⟨.of_queue (.of_core .refl hc) hk ?_, .inl hpo⟩
      simp only [hc]
    next s₂ he =>
      have hA : EntryAcked env m st.ctl acki.pns p (nextOf p (st.ctl.queue (.unacked acki.pns)))
          (s₂.destroyChain env p (nextOf p (st.ctl.queue (.unacked acki.pns)))).1
          (s₂.destroyChain env p (nextOf p (st.ctl.queue (.unacked acki.pns)))).2 :=
        ackEntry_spec hS hp hfb he hm (hl hin) hk
      exact ⟨hA.handled, .inr ⟨advance_poisoned st _, hA⟩⟩
  next hin =>
    have hc : (st.advance (st.ctl.pkt p).packno).ctl = st.ctl := advance_ctl st _
    have hin' : (st.advance (st.ctl.pkt p).packno).inRange (st.ctl.pkt p).packno = false :=
      eq_false_of_ne_true hin
    simp only [hin', Bool.false_eq_true, if_false, hc]
    exact ⟨.refl _, trivial⟩

def overtaken (s : SendCtl) (n : Pns) (p : PktId) : Bool :=
  (s.queue (.unacked n)).any fun a =>
    (after a (s.queue (.unacked n))).contains p && decide ((s.pkt p).packno < (s.pkt a).packno)

/-- Once the checks are skipped, some entry that the loop has passed reached into the highest range.
-/
structure AckLooping (env : Env) (m : Kind → Prop) (s₀ : SendCtl) (acki : AckInfo)
    (st : AckLoop) (l : List PktId) : Prop where
  looping : Looping env m s₀ acki.pns st.ctl l
  ranges : st.ranges <:+ acki.ranges.reverse
  skip : st.skipChecks = true → ∃ a ∈ s₀.queue (.unacked acki.pns),
    (∀ b ∈ l, b ∈ after a (s₀.queue (.unacked acki.pns))) ∧
      ∃ r ∈ acki.ranges, r.low ≤ (s₀.pkt a).packno ∧ r.high = acki.largestAcked

theorem advance_ranges (st : AckLoop) (packno : Int) :
    (st.advance packno).ranges <:+ st.ranges := by
  unfold AckLoop.advance
  split
  · exact List.suffix_refl _
  · exact List.dropWhile_suffix _

theorem advance_skipChecks (st : AckLoop) (packno : Int) :
    (st.advance packno).skipChecks = st.skipChecks := by
  unfold AckLoop.advance
  split <;> rfl

theorem inRange_advance {st : AckLoop} {packno : Int} (hs : st.skipChecks = false)
    (hin : (st.advance packno).inRange packno = true) :
    ∃ r l, (st.advance packno).ranges = r :: l ∧ r.low ≤ packno ∧ packno ≤ r.high := by
  have hadv : (st.advance packno).ranges =
      st.ranges.dropWhile fun r => decide (r.high < packno) := by
    simp only [AckLoop.advance, hs, Bool.false_eq_true, if_false]
  simp only [AckLoop.inRange, advance_skipChecks, hs, Bool.false_or] at hin
  rw [hadv] at hin ⊢
  cases hd : st.ranges.dropWhile fun r => decide (r.high < packno) with
  | nil =>
    rw [hd] at hin
    cases hin
  | cons r l =>
    rw [hd] at hin
    have hh := List.head?_dropWhile_not (fun r : PacknoRange => decide (r.high < packno)) st.ranges
    rw [hd] at hh
    simp only [List.head?_cons, decide_eq_false_iff_not, Int.not_lt] at hh
    exact ⟨r, l, rfl, of_decide_eq_true hin, hh⟩

theorem largest_of_singleton {acki : AckInfo} (h : [r] <:+ acki.ranges.reverse) :
    r ∈ acki.ranges ∧ r.high = acki.largestAcked := by
  obtain ⟨pre, hp⟩ := h
  have hr : acki.ranges = r :: pre.reverse := by
    rw [← List.reverse_reverse acki.ranges, ← hp, List.reverse_append]
    rfl
  rw [AckInfo.largestAcked, hr]
  exact ⟨.head _, rfl⟩

theorem AckLooping.taken {st : AckLoop} (hI : AckLooping env m s₀ acki st (p :: l))
    (hle : (s₀.pkt p).packno ≤ acki.largestAcked)
    (hin : (st.advance (s₀.pkt p).packno).inRange (s₀.pkt p).packno = true) :
    acki.covers (s₀.pkt p).packno = true ∨ overtaken s₀ acki.pns p = true := by
  cases hs : st.skipChecks with
  | true =>
    obtain ⟨a, ha, haft, r, hr, hlow, hhigh⟩ := hI.skip hs
    by_cases hc : r.low ≤ (s₀.pkt p).packno
    · refine .inl (List.any_eq_true.2 ⟨r, hr, ?_⟩)
      simp only [Bool.and_eq_true, decide_eq_true_eq]
      exact ⟨hc, hhigh ▸ hle⟩
    · refine .inr (List.any_eq_true.2 ⟨a, ha, ?_⟩)
      simp only [Bool.and_eq_true, decide_eq_true_eq, List.contains_iff_mem]
      exact ⟨haft p (.head _), by omega⟩
  | false =>
    obtain ⟨r, l', hr, hlow, hhigh⟩ := inRange_advance hs hin
    have hm : r ∈ acki.ranges := by
      have hsub := ((advance_ranges st _).trans hI.ranges).subset (hr ▸ List.mem_cons_self)
      exact List.mem_reverse.1 hsub
    refine .inl (List.any_eq_true.2 ⟨r, hm, ?_⟩)
    simp only [Bool.and_eq_true, decide_eq_true_eq]
    exact ⟨hlow, hhigh⟩

theorem ackOne_ranges (acki : AckInfo) (prev : Int) (st : AckLoop) (p : PktId) :
    (ackOne env acki prev st p).1.ranges = (st.advance (st.ctl.pkt p).packno).ranges ∧
      (ackOne env acki prev st p).1.skipChecks = (st.skipChecks ||
        ((st.advance (st.ctl.pkt p).packno).inRange (st.ctl.pkt p).packno &&
          (st.advance (st.ctl.pkt p).packno).ranges.length == 1)) := by
  simp only [ackOne]
  split
  next hin =>
    split <;> simp only [hin, advance_skipChecks, Bool.true_and, and_self]
  next hin =>
    have hin := eq_false_of_ne_true hin
    simp only [hin, advance_skipChecks, Bool.false_and, Bool.or_false, and_self]

def AckKinds (m : Kind → Prop) (s : SendCtl) (acki : AckInfo) : Prop :=
  ∀ p ∈ s.queue (.unacked acki.pns), (s.pkt p).packno ≤ acki.largestAcked →
    acki.covers (s.pkt p).packno = true ∨ overtaken s acki.pns p = true → Timely m (s.pkt p)

theorem AckLooping.step {st : AckLoop} (hI : AckLooping env m s₀ acki st (p :: l))
    (hS : s₀.Settled env) (hm : m .mark) (hk : AckKinds m s₀ acki)
    (hle : (st.ctl.pkt p).packno ≤ acki.largestAcked) :
    ∃ l', (ackOne env acki prev st p).2 = l'.head? ∧ l'.Sublist l ∧
      AckLooping env m s₀ acki (ackOne env acki prev st p).1 l' := by
  have hR := hI.looping.reached hS
  have hpn : (st.ctl.pkt p).packno = (s₀.pkt p).packno :=
    PacketOut.lasting_packno hR.lasting
  have htk : (st.advance (st.ctl.pkt p).packno).inRange (st.ctl.pkt p).packno = true →
      Timely m (st.ctl.pkt p) := by
    intro hin
    rw [hpn] at hin
    have hT := hk p hR.start (hpn ▸ hle) (hI.taken (hpn ▸ hle) hin)
    have he : Timely m (st.ctl.pkt p) = Timely m (s₀.pkt p) :=
      PacketOut.congr_lasting (f := Timely m) hR.lasting fun _ => rfl
    exact he.mpr hT
  obtain ⟨hH, -⟩ : _ ∧ _ := ackOne_spec hR.sound hR.mem hm htk
  obtain ⟨hrg, hskip⟩ : (ackOne env acki prev st p).1.ranges = _ ∧ _ :=
    ackOne_ranges acki prev st p
  obtain ⟨l', hl', hsub, hL, -⟩ := hI.looping.step hS hH
  refine ⟨l', hl', hsub, hL, ?_, ?_⟩
  · rw [hrg]
    exact (advance_ranges st _).trans hI.ranges
  · intro hs
    rw [hskip] at hs
    cases hsk : st.skipChecks with
    | true =>
      obtain ⟨a, ha, haft, hr⟩ := hI.skip hsk
      exact ⟨a, ha, fun b hb => haft b (.tail _ (hsub.subset hb)), hr⟩
    | false =>
      rw [hsk, Bool.false_or, Bool.and_eq_true, beq_iff_eq] at hs
      obtain ⟨r, lr, hr, hlow, -⟩ := inRange_advance hsk hs.1
      have hlr : lr = [] := by
        rw [hr, List.length_cons] at hs
        exact List.eq_nil_of_length_eq_zero (by omega)
      have hsuf := (advance_ranges st (st.ctl.pkt p).packno).trans hI.ranges
      rw [hr, hlr] at hsuf
      have hnd : (s₀.queue (.unacked acki.pns)).Nodup :=
        hS.placed.nodup (some (.unacked acki.pns))
      refine ⟨p, hR.start, fun b hb =>
        mem_after_of_sublist hI.looping.sub hnd (hsub.subset hb), r, ?_⟩
      obtain ⟨hmem, hhigh⟩ := largest_of_singleton hsuf
      exact ⟨hmem, hpn ▸ hlow, hhigh⟩

theorem ackLoop_moves {acki : AckInfo} (hS : s.Settled env) (hm : m .mark)
    (hk : AckKinds m s acki) :
    s.Evolves env m (s.ackLoop env acki).ctl := by
  have hI : AckLooping env m s acki { ctl := s, ranges := acki.ranges.reverse }
      (s.queue (.unacked acki.pns)) := ⟨.start rfl rfl, List.suffix_refl _, nofun⟩
  obtain ⟨l, hI, -⟩ := scan_rule
    (fun (st : AckLoop) p => !st.poisoned && decide ((st.ctl.pkt p).packno ≤ acki.largestAcked))
    (ackOne env acki s.largestAckedPackno)
    (fun st l => AckLooping env m s acki st l)
    (fun st p l hI hc => by
      rw [Bool.and_eq_true, decide_eq_true_eq] at hc
      obtain ⟨l', hl', hsub, hI⟩ := hI.step hS hm hk hc.2
      exact ⟨l', hl', hsub.length_le, hI⟩)
    hI le_rfl
  exact hI.looping.moves

theorem core_takeRttSample (s : SendCtl) (now lackDelta : Time) :
    (s.takeRttSample now lackDelta).core env = s.core env := by
  simp only [takeRttSample]
  split
  · exact core_congr rfl
  · rfl

theorem core_countRoundTrip (s : SendCtl) (largestAcked : Int) :
    (s.countRoundTrip largestAcked).core env = s.core env := by
  simp only [countRoundTrip]
  split
  · exact core_congr rfl
  · rfl

theorem processAckLoop_core (s : SendCtl) (acki : AckInfo) (t : Time) :
    (s.processAckLoop env acki t).ctl.core env =
      ((s.countRoundTrip acki.largestAcked).ackLoop env acki).ctl.core env := by
  simp only [processAckLoop]
  split
  · exact (core_congr rfl).trans (core_takeRttSample _ _ _)
  · rfl

theorem processAckLoop_poisoned (s : SendCtl) (acki : AckInfo) (t : Time) :
    (s.processAckLoop env acki t).poisoned =
      ((s.countRoundTrip acki.largestAcked).ackLoop env acki).poisoned := by
  simp only [processAckLoop]
  split <;> rfl

theorem countRoundTrip_frame (s : SendCtl) (largestAcked : Int) :
    (s.countRoundTrip largestAcked).pkts = s.pkts ∧
      (s.countRoundTrip largestAcked).queues = s.queues := by
  simp only [countRoundTrip]
  split <;> exact ⟨rfl, rfl⟩

theorem processAckLoop_moves {acki : AckInfo} (t : Time) (hS : s.Settled env) (hm : m .mark)
    (hk : AckKinds m s acki) : s.Evolves env m (s.processAckLoop env acki t).ctl := by
  have hc : (s.countRoundTrip acki.largestAcked).core env = s.core env := core_countRoundTrip ..
  obtain ⟨hp, hq⟩ := countRoundTrip_frame s acki.largestAcked
  have hk' : AckKinds m (s.countRoundTrip acki.largestAcked) acki := by
    simp only [AckKinds, overtaken, pkt, queue, hp, hq]
    exact hk
  have hL : SendCtl.Evolves env m (s.countRoundTrip acki.largestAcked) _ :=
    ackLoop_moves (hS.of_core hc) hm hk'
  rw [Evolves, processAckLoop_core, ← hc]
  exact hL

theorem processEcn_moves (s : SendCtl) (acki : AckInfo) (total ce : Nat) (lost : Bool) :
    Moves m ⟨s.core env, h, x⟩ ⟨(s.processEcn acki total ce lost).core env, h, x⟩ := by
  have hR : Moves m ⟨s.core env, h, x⟩ ⟨s.core env, h, x⟩ := .refl
  simp only [processEcn]
  split
  · exact hR
  · split
    · exact hR
    · split
      · split
        · split
          · exact hR.view rfl
          · rw [core_lossEvent]
            exact Moves.snoc (hR.view rfl) .congest
        · exact hR.view rfl
      · rw [core_disableEcn]
        exact hR.view rfl

theorem core_rearmRetxAlarm (s : SendCtl) (n : Pns) (now : Time) :
    (s.rearmRetxAlarm env n now).core env = s.core env := by
  simp only [rearmRetxAlarm]
  split
  · exact core_setRetxAlarm _ _ _
  · exact core_congr rfl

theorem core_noteAck2ed (s : SendCtl) (n : Pns) (ack2ed : Int) :
    (s.noteAck2ed env n ack2ed).core env = s.core env := by
  simp only [noteAck2ed]
  split
  · exact core_congr rfl
  · rfl

theorem core_countStopWaiting (s : SendCtl) (acki : AckInfo) (smallest : Int) :
    (s.countStopWaiting env acki smallest).core env = s.core env := by
  simp only [countStopWaiting]
  split
  · rfl
  · split <;> exact core_congr rfl

theorem afterAckLoop_moves (st : AckLoop) {acki : AckInfo} (hS : st.ctl.Settled env)
    (hk : ∀ pk ∈ st.ctl.declaring env acki.pns, Admits m pk) :
    st.ctl.Evolves env m (afterAckLoop env st acki now) := by
  have hM : st.ctl.Evolves env m (st.ctl.detectLosses env acki.pns).1 := detectLosses_moves hS hk
  simp only [afterAckLoop]
  generalize st.ctl.detectLosses env acki.pns = r at hM
  have hc : (((r.1.rearmRetxAlarm env acki.pns now).noteAck2ed env acki.pns st.ack2ed).noteProgress
      st.oneRttCnt).core env = r.1.core env :=
    ((core_congr rfl).trans (core_noteAck2ed _ _ _)).trans (core_rearmRetxAlarm _ _ _)
  exact (hM.of_core hc).trans (processEcn_moves _ _ _ _ _)

theorem beginOptackDetection_moves (s : SendCtl) :
    Moves m ⟨s.core env, h, x⟩ ⟨(s.beginOptackDetection env).core env, h, x⟩ := by
  refine .one (.setGap ?_)
  show s.curPackno < s.curPackno + 1 + (env.crandByte s.tick % 256 : Nat)
  omega

theorem reschedulePoison_moves (s : SendCtl) :
    Moves m ⟨s.core env, h, x⟩ ⟨(s.reschedulePoison env).core env, h, x⟩ := by
  simp only [reschedulePoison]
  split
  next p hp =>
    have hm : p ∈ (s.core env).queue (.unacked .app) := List.mem_of_find?_eq_some hp
    have hpo := List.find?_some hp
    have hM : Moves m ⟨s.core env, h, x⟩
        ⟨(s.setQueue (.unacked .app) ((s.queue (.unacked .app)).erase p)).core env, h, x⟩ := by
      rw [core_remove s]
      exact .one (.dropPoison hm hpo)
    exact (hM.trans (beginOptackDetection_moves _)).view rfl
  · exact .refl

theorem finishAck_moves (s : SendCtl) (acki : AckInfo) (smallest : Int) :
    Moves m ⟨s.core env, h, x⟩ ⟨(s.finishAck env acki smallest).core env, h, x⟩ := by
  have hc : (s.countStopWaiting env acki smallest).core env = s.core env :=
    core_countStopWaiting _ _ _
  simp only [finishAck]
  rw [← hc]
  split
  · exact reschedulePoison_moves _
  · exact .refl

/-- What `processAck` hands to loss handling once the ACK loop is through. -/
def ackDeclaring (env : Env) (s : SendCtl) (acki : AckInfo) (t : Time) : List PacketOut :=
  match (s.queue (.unacked acki.pns)).head? with
  | none => []
  | some first =>
    if acki.largestAcked < (s.pkt first).packno then s.declaring env acki.pns
    else
      let st := s.processAckLoop env acki t
      if st.poisoned then [] else st.ctl.declaring env acki.pns

theorem processAck_moves {acki : AckInfo} (hS : s.Settled env) (hm : m .mark)
    (hk : AckKinds m s acki) (hd : ∀ pk ∈ s.ackDeclaring env acki t, Admits m pk) :
    s.Evolves env m (s.processAck env acki t now).1 := by
  have hR : s.Evolves env m s := .refl
  simp only [processAck]
  simp only [ackDeclaring] at hd
  split
  · have hM : s.Evolves env m ({ s with wasQuiet := true } : SendCtl) := hR.view rfl
    exact hM.trans (finishAck_moves _ _ _)
  next first hf =>
    simp only [hf] at hd
    split
    next hlt =>
      rw [if_pos hlt] at hd
      have hM : s.Evolves env m (afterAckLoop env { ctl := s, ranges := [] } acki now) :=
        afterAckLoop_moves { ctl := s, ranges := [] } hS hd
      exact hM.trans (finishAck_moves _ _ _)
    next hlt =>
      rw [if_neg hlt] at hd
      have hL : s.Evolves env m (s.processAckLoop env acki t).ctl := processAckLoop_moves t hS hm hk
      split
      · exact hL
      next hpo =>
        rw [if_neg hpo] at hd
        have hM : (s.processAckLoop env acki t).ctl.Evolves env m
            (afterAckLoop env (s.processAckLoop env acki t) acki now) :=
          afterAckLoop_moves _ (hL.sound hS) hd
        exact (hL.trans hM).trans (finishAck_moves _ _ _)

/-- The packets that `lsquic_send_ctl_got_ack` hands to loss handling. -/
def gotAckDeclaring (env : Env) (s : SendCtl) (acki : AckInfo) (t : Time) : List PacketOut :=
  if asU64 s.lastSent < acki.largestAcked then []
  else ackDeclaring env
    { s with ackRecv := s.ackRecv.set acki.pns true, wasQuiet := false } acki t

theorem gotAck_moves {acki : AckInfo} (hS : s.Settled env) (hm : m .mark) (hk : AckKinds m s acki)
    (hd : ∀ pk ∈ s.gotAckDeclaring env acki t, Admits m pk) :
    s.Evolves env m (s.gotAck env acki t now).1 := by
  have hR : s.Evolves env m s := .refl
  simp only [gotAck]
  split
  · exact hR.view rfl
  next hlt =>
    rw [gotAckDeclaring, if_neg hlt] at hd
    have hM : s.Evolves env m ({ s with
        ackRecv := s.ackRecv.set acki.pns true
        wasQuiet := false } : SendCtl) := hR.view rfl
    exact hM.trans (processAck_moves (hM.sound hS) hm hk hd)

def RetxKinds (env : Env) (m : Kind → Prop) (s : SendCtl) (n : Pns) : Prop :=
  match s.getRetxMode env with
  | .handshake => ∀ p ∈ s.queue (.unacked n), expires env s n .hsk p = true → Admits m (s.pkt p)
  | .loss => ∀ pk ∈ s.declaring env n, Admits m pk
  | .tlp => ∀ p ∈ s.queue (.unacked n), expires env s n .last p = true → Admits m (s.pkt p)
  | .rto => ∀ p ∈ s.queue (.unacked n), expires env s n .all p = true → Admits m (s.pkt p)

theorem retransmit_moves (hS : s.Settled env) (hk : RetxKinds env m s n) :
    s.Evolves env m (s.retransmit env n now) := by
  have hR : s.Evolves env m s := .refl
  cases he : s.getRetxMode env with
  | handshake =>
    simp only [RetxKinds, he] at hk
    have hM : s.Evolves env m s.ticked := hR.view rfl
    simp only [retransmit, he]
    exact hM.trans (expire_moves (hM.sound hS) _ hk)
  | loss =>
    simp only [RetxKinds, he] at hk
    have hM : s.Evolves env m s.ticked := hR.view rfl
    simp only [retransmit, he]
    exact hM.trans (detectLosses_moves (hM.sound hS) hk)
  | tlp =>
    simp only [RetxKinds, he] at hk
    have hM : s.Evolves env m ({ s.ticked with nTlp := s.nTlp + 1 } : SendCtl) := hR.view rfl
    simp only [retransmit, he]
    exact hM.trans (expire_moves (hM.sound hS) _ hk)
  | rto =>
    simp only [RetxKinds, he] at hk
    have hM : s.Evolves env m ({ s.ticked with
        lastRtoTime := now
        nConsecRtos := s.nConsecRtos + 1
        nextLimit := 2 } : SendCtl) := hR.view rfl
    simp only [retransmit, he]
    exact hM.trans (expire_moves (hM.sound hS) _ hk)

theorem retxAlarmRings_moves (hS : s.Settled env) (hk : RetxKinds env m s n) :
    s.Evolves env m (s.retxAlarmRings env n now) := by
  have hR : s.Evolves env m s := .refl
  have hM : s.Evolves env m { s with retxAlarm := s.retxAlarm.set n none } := hR.view rfl
  have hM' : s.Evolves env m
      (({ s with retxAlarm := s.retxAlarm.set n none } : SendCtl).retransmit env n now) :=
    hM.trans (retransmit_moves (hM.sound hS) hk)
  simp only [retxAlarmRings]
  split
  · exact hM'.of_core (core_setRetxAlarm _ _ _)
  · exact hM'

end

end SendCtl

end QuicArt
