import QuicArt.DropMoves

namespace QuicArt

section
variable {c : Core} {d r : PktId} {l x : List PktId} {n : Pns}

theorem renumberToRight_nextId (c : Core) (p : PktId) :
    (c.renumberToRight p).nextId = c.nextId := by
  unfold Core.renumberToRight
  split <;> rfl

def Marked (c : Core) (n : Pns) (x : List PktId) : Prop :=
  ∀ p, p ∈ x ↔ p < c.nextId ∧ (c.pkts p).pns = n ∧ (c.pkts p).poison = false

theorem marked_filter (c : Core) (n : Pns) :
    Marked c n ((List.range c.nextId).filter fun p => (c.pkts p).pns =
      n && !(c.pkts p).poison) := by
  intro p
  simp

theorem ChainAt.root_lt (hC : ChainAt c [] d l) (hS : Sound c [] []) (hd : (c.pkts d).data)
    (hr : r ∈ l) : d < c.nextId := by
  have hm : r ∈ c.queue (.unacked (c.pkts d).pns) := (hC.here r hr).resolve_right (by simp)
  obtain ⟨d', l', hd', -, hL, hC', hr', -⟩ :=
    hS.chains.owner r (hC.recs r hr) (by simp) (.inr ⟨_, hm⟩)
  have hrec : ∀ a ∈ l', a ≠ d := by
    rintro a ha rfl
    cases hd.1.symm.trans (hC'.recs a ha)
  obtain ⟨l₁, l₂, rfl⟩ := List.append_of_mem hr'
  have hd₁ : d ∈ r :: (l₂ ++ d' :: l₁) :=
    (hC.ring.mem_iff hC'.ring.rotate (.tail _ hr)).2 (.head _)
  have he : d = d' := by
    simp only [List.mem_cons, List.mem_append] at hd₁
    rcases hd₁ with rfl | hd₁ | rfl | hd₁
    · exact absurd rfl (hrec d hr')
    · exact absurd rfl (hrec d (List.mem_append_right _ (.tail _ hd₁)))
    · rfl
    · exact absurd rfl (hrec d (List.mem_append_left _ hd₁))
  subst he
  obtain ⟨L, hL⟩ := hL
  exact hS.placed.lt d L hL

theorem Marked.closed (hx : Marked c n x) (hS : Sound c [] []) : ClosedUnderChains c [] x := by
  intro d l hd hC
  have hiff : ∀ r ∈ l, r ∈ x ↔ d ∈ x := by
    intro r hr
    have hm : r ∈ c.queue (.unacked (c.pkts d).pns) := (hC.here r hr).resolve_right (by simp)
    have hlt : r < c.nextId := hS.placed.on hm
    have hpo := ((hS.placed.unacked hm).2.2.2.record (hC.recs r hr)).2.1
    rw [hx r, hx d, hC.space r hr]
    simp only [hlt, hpo, hd.2, hC.root_lt hS hd hr, true_and, and_true]
  by_cases hdx : d ∈ x
  · exact .inl ⟨hdx, fun r hr => (hiff r hr).2 hdx⟩
  · exact .inr ⟨hdx, fun r hr hrx => hdx ((hiff r hr).1 hrx)⟩

end

namespace SendCtl

section
variable {env : Env} {m : Kind → Prop} {s s₀ s₁ s' : SendCtl} {p : PktId} {q : Queue}
  {x : List PktId}

theorem core_purgeSched (hS : Sound (s.core env) h x) (p : PktId) :
    ((s.maybeRenumberSchedToRight p).schedRemove env p).core env =
      (((s.core env).renumberToRight p).schedRemove p).ackIf p false := by
  rw [core_schedRemove, core_renumberToRight s (hS.placed.nodup (some .scheduled))]
  rfl

theorem pkt_markRepackno (s : SendCtl) (l : List PktId) (a : PktId) :
    ((s.markRepackno l).pkt a).path = (s.pkt a).path ∧
      ((s.markRepackno l).pkt a).lossChain = (s.pkt a).lossChain := by
  induction l generalizing s with
  | nil => exact ⟨rfl, rfl⟩
  | cons p l ih =>
    simp only [markRepackno]
    split
    · exact ⟨rfl, rfl⟩
    · obtain ⟨hp, hl⟩ := ih (s.upd p ({ · with repackno := true }))
      rw [hp, hl, pkt_upd]
      split
      · exact ⟨rfl, rfl⟩
      · exact ⟨rfl, rfl⟩

theorem pkt_purgeSched (env : Env) (s : SendCtl) (p a : PktId) :
    (((s.maybeRenumberSchedToRight p).schedRemove env p).pkt a).path = (s.pkt a).path ∧
      (((s.maybeRenumberSchedToRight p).schedRemove env p).pkt a).lossChain =
        (s.pkt a).lossChain := by
  have hm : ((s.maybeRenumberSchedToRight p).pkt a).path = (s.pkt a).path ∧
      ((s.maybeRenumberSchedToRight p).pkt a).lossChain = (s.pkt a).lossChain := by
    simp only [maybeRenumberSchedToRight]
    split
    · exact ⟨rfl, rfl⟩
    · exact pkt_markRepackno _ _ a
  have hu : ((s.maybeRenumberSchedToRight p).schedRemove env p).pkt a =
      ((s.maybeRenumberSchedToRight p).upd p ({ · with sched := false })).pkt a := rfl
  rw [hu, pkt_upd]
  split
  · exact hm
  · exact hm

structure CancelLoop (env : Env) (m : Kind → Prop) (path : Nat) (s₀ s : SendCtl)
    (next : Option PktId) : Prop extends QueueLoop env m .scheduled s₀ s next where
  alone : ∀ p ∈ (s.core env).queue .scheduled, (s.pkt p).path = path → (s.pkt p).lossChain = p

theorem purgeAlone_moves (hm : m .mark) (hS : s.Settled env)
    (hp : p ∈ (s.core env).queue .scheduled) (hl : (s.pkt p).lossChain = p) :
    s.Evolves env m ((s.maybeRenumberSchedToRight p).schedRemove env p) := by
  have hd := (hS.placed.sched hp).2.1
  have hx : ClosedUnderChains (s.core env) [] [p] :=
    (ChainAt.single hl).closed hd fun a => by simp
  have hM : Moves m ⟨s.core env, [], []⟩
      ⟨(((s.core env).renumberToRight p).schedRemove p).ackIf p false, [], [p]⟩ :=
    .snoc (.one (.doom hx)) (.killSched hm hp (.head _))
  rw [SendCtl.Evolves, core_purgeSched hS p]
  apply hM.snoc
  apply Move.undoom
  · simp
  · intro a ha q hq
    rw [List.mem_singleton.1 ha]
    exact (Erased.scheduled hS.placed hp false).gone q hq

theorem cancelPathOne_spec (hm : m .mark) (hS : s₀.Settled env)
    (hI : CancelLoop env m path s₀ s (some p)) :
    CancelLoop env m path s₀ (cancelPathOne env path s p).1 (cancelPathOne env path s p).2 := by
  have hS' : s.Settled env := hI.moves.sound hS
  have hp := hI.cursor p rfl
  have hnext : ∀ a, nextOf p (s.queue .scheduled) = some a →
      a ∈ (s.core env).queue .scheduled ∧ a ≠ p := fun a ha =>
    mem_of_nextOf ha (hS'.placed.nodup (some .scheduled))
  simp only [cancelPathOne, purgeSchedOne]
  split
  next hg =>
    have hE := Erased.scheduled hS'.placed hp false
    have hc := core_purgeSched hS' p
    refine ⟨⟨hI.moves.trans (purgeAlone_moves hm hS' hp (hI.alone p hp (by simpa using hg))),
      ?_⟩, ?_⟩
    · intro a ha
      obtain ⟨ha, hne⟩ := hnext a ha
      rw [hc]
      exact (hE.keep .scheduled a hne).2 ha
    · intro a ha hpath
      obtain ⟨hp', hl'⟩ := pkt_purgeSched env s p a
      rw [hc] at ha
      have hne : a ≠ p := by
        rintro rfl
        exact hE.gone .scheduled (by simp) ha
      rw [hl']
      exact hI.alone a ((hE.keep .scheduled a hne).1 ha) (hp'.symm.trans hpath)
  · exact ⟨⟨hI.moves, fun a ha => (hnext a ha).1⟩, hI.alone⟩

theorem cancelPathVerification_moves (hm : m .mark) (hS : s.Settled env)
    (ha : ∀ p ∈ s.queue .scheduled, (s.pkt p).path = path → (s.pkt p).lossChain = p) :
    s.Evolves env m (s.cancelPathVerification env path) := by
  obtain ⟨next, hI'⟩ := scan_invariant (fun _ _ => true) (cancelPathOne env path)
    (fun s' next => CancelLoop env m path s s' next)
    (fun s' p hI _ => cancelPathOne_spec hm hS hI) ⟨.start s, ha⟩ (s.queue .scheduled).length
  exact hI'.moves

/-- What emptying the space `n` takes: replicas among its loss records, and buffered packets. -/
structure PurgeKinds (m : Kind → Prop) (c : Core) (n : Pns) : Prop where
  mark : m .mark
  record : ∀ p ∈ c.queue (.unacked n), (c.pkts p).lossRec = true → (c.pkts p).fakeLossRec = 1 →
    m .purge
  buffered : ∀ b, ∀ p ∈ c.queue (.buffered b), (c.pkts p).pns = n → m .miscount

/-- Packets have left the queues, and nothing else has changed but flags, marks and counters. -/
structure Purged (env : Env) (m : Kind → Prop) (x : List PktId) (s s' : SendCtl) : Prop where
  moves : Moves m ⟨s.core env, [], x⟩ ⟨s'.core env, [], x⟩
  nextId : s'.nextId = s.nextId
  ident : ∀ p, ((s'.core env).pkts p).ident = ((s.core env).pkts p).ident
  shrink : ∀ q p, p ∈ (s'.core env).queue q → p ∈ (s.core env).queue q

theorem Purged.refl (s : SendCtl) : Purged env m x s s :=
  ⟨.refl, rfl, fun _ => rfl, fun _ _ hp => hp⟩

theorem Purged.trans (h : Purged env m x s s₁) (h' : Purged env m x s₁ s') : Purged env m x s s' :=
  ⟨h.moves.trans h'.moves, h'.nextId.trans h.nextId, fun p => (h'.ident p).trans (h.ident p),
    fun q p hp => h.shrink q p (h'.shrink q p hp)⟩

theorem Purged.marked (h : Purged env m x s s') (hx : Marked (s.core env) n x) :
    Marked (s'.core env) n x := by
  intro p
  have hl := h.ident p
  simp only [Pkt.ident, Pkt.links, Prod.mk.injEq] at hl
  rw [hx p, hl.1.2.2.1, hl.1.2.2.2]
  exact and_congr_left fun _ => by rw [show (s'.core env).nextId = (s.core env).nextId from h.nextId]

theorem PurgeKinds.purged (hk : PurgeKinds m (s.core env) n) (h : Purged env m x s s') :
    PurgeKinds m (s'.core env) n := by
  refine ⟨hk.mark, fun p hp hr hf => ?_, fun b p hp hn => ?_⟩
  · have hl := h.ident p
    simp only [Pkt.ident, Pkt.links, Prod.mk.injEq] at hl
    rw [hl.1.2.1] at hr
    rw [hl.2.2.2.1] at hf
    exact hk.record p (h.shrink _ p hp) hr hf
  · have hl := h.ident p
    simp only [Pkt.ident, Pkt.links, Prod.mk.injEq] at hl
    rw [hl.1.2.2.2] at hn
    exact hk.buffered b p (h.shrink _ p hp) hn

theorem Purged.absent (h : Purged env m x s s') (ha : ∀ p ∈ x, p ∉ (s.core env).queue q) :
    ∀ p ∈ x, p ∉ (s'.core env).queue q :=
  fun p hp hm => ha p hp (h.shrink q p hm)

structure PurgeStep (env : Env) (m : Kind → Prop) (x : List PktId) (q : Queue) (s : SendCtl)
    (p : PktId)
    (r : SendCtl × Option PktId) : Prop where
  purged : Purged env m x s r.1
  next : r.2 = nextOf p (s.queue q)
  queue : (r.1.core env).queue q = ((s.core env).queue q).erase p ∨
    ((r.1.core env).queue q = (s.core env).queue q ∧ p ∉ x)

theorem PurgeStep.keep (hp : p ∉ x) : PurgeStep env m x q s p (s, nextOf p (s.queue q)) :=
  ⟨.refl s, rfl, .inr ⟨rfl, hp⟩⟩

theorem PurgeStep.leave (hm : Move m ⟨s.core env, [], x⟩ ⟨s'.core env, [], x⟩)
    (hn : s'.nextId = s.nextId)
    (hl : ∀ p, ((s'.core env).pkts p).ident = ((s.core env).pkts p).ident)
    (hq : (s'.core env).queue = ((s.core env).remove q p).queue) :
    PurgeStep env m x q s p (s', nextOf p (s.queue q)) := by
  refine ⟨⟨.one hm, hn, hl, ?_⟩, rfl, .inl ?_⟩
  · intro q' a ha
    simp only [hq, Core.remove, Core.setQueue, Function.update_apply] at ha
    split at ha
    next he =>
      rw [he]
      exact List.mem_of_mem_erase ha
    · exact ha
  · simp only [hq, Core.remove, Core.setQueue, Function.update_self]

/-- A loop over a queue takes every doomed packet off it. -/
theorem overQueue_purged {body : SendCtl → PktId → SendCtl × Option PktId}
    (hS : Sound (s.core env) [] x) (hx : Marked (s.core env) n x)
    (hk : PurgeKinds m (s.core env) n)
    (hb : ∀ s p, Sound (s.core env) [] x → Marked (s.core env) n x → PurgeKinds m (s.core env) n →
      p ∈ (s.core env).queue q → PurgeStep env m x q s p (body s p)) :
    Purged env m x s (s.overQueue q body) ∧
      ∀ p ∈ x, p ∉ ((s.overQueue q body).core env).queue q := by
  have step : ∀ s' p l,
      (Purged env m x s s' ∧ p :: l <:+ (s'.core env).queue q ∧
        ∀ a ∈ (s'.core env).queue q, a ∉ p :: l → a ∉ x) → true = true →
      ∃ l', (body s' p).2 = l'.head? ∧ l'.length ≤ l.length ∧
        (Purged env m x s (body s' p).1 ∧ l' <:+ ((body s' p).1.core env).queue q ∧
          ∀ a ∈ ((body s' p).1.core env).queue q, a ∉ l' → a ∉ x) := by
    rintro s' p l ⟨hI, hsuf, hdone⟩ -
    have hS' : Sound (s'.core env) [] x := hI.moves.sound hS
    obtain ⟨hC, hp, hpl⟩ := Cursor.next hsuf (hS'.placed.nodup (some q))
    have hB := hb s' p hS' (hI.marked hx) (hk.purged hI) hp
    refine ⟨l, ?_, le_rfl, hI.trans hB.purged, ?_⟩
    · rw [hB.next, ← hC.head, core_queue env s']
    · rcases hB.queue with he | ⟨he, hpx⟩
      · rw [he]
        refine ⟨(hC.erase_of_not_mem hpl).suffix, ?_⟩
        intro a ha hal
        have hne : a ≠ p := by
          rintro rfl
          exact (hS'.placed.nodup (some q)).not_mem_erase ha
        exact hdone a (List.mem_of_mem_erase ha) (by simp [hne, hal])
      · rw [he]
        refine ⟨hC.suffix, ?_⟩
        intro a ha hal
        by_cases hne : a = p
        · rw [hne]
          exact hpx
        · exact hdone a ha (by simp [hne, hal])
  have hstart : Purged env m x s s ∧ s.queue q <:+ (s.core env).queue q ∧
      ∀ a ∈ (s.core env).queue q, a ∉ s.queue q → a ∉ x := by
    rw [core_queue env s]
    exact ⟨.refl s, List.suffix_refl _, fun a ha hn => absurd ha hn⟩
  obtain ⟨l, ⟨hI, -, hdone⟩, hend⟩ := scan_rule (fun _ _ => true) body
    (fun s' l => Purged env m x s s' ∧ l <:+ (s'.core env).queue q ∧
      ∀ a ∈ (s'.core env).queue q, a ∉ l → a ∉ x) step hstart le_rfl
  have hl : l = [] := by
    cases l with
    | nil => rfl
    | cons a l => cases hend a rfl
  subst hl
  exact ⟨hI, fun p hp hm => hdone p hm (by simp) hp⟩

theorem emptySchedOne_spec (hm : m .mark) (hS : Sound (s.core env) [] x)
    (hx : Marked (s.core env) n x)
    (hp : p ∈ (s.core env).queue .scheduled) :
    PurgeStep env m x .scheduled s p (emptySchedOne env n s p) := by
  have hd := (hS.placed.sched hp).2.1
  have hlt := hS.placed.on hp
  simp only [emptySchedOne, purgeSchedOne]
  split
  next hg =>
    have hpx : p ∈ x := (hx p).2 ⟨hlt, beq_iff_eq.1 hg, hd.2⟩
    have hc := core_purgeSched hS p
    apply PurgeStep.leave
    · rw [hc]
      exact .killSched hm hp hpx
    · have hn := congrArg Core.nextId hc
      exact hn.trans (renumberToRight_nextId (s.core env) p)
    · rw [hc]
      exact (Erased.scheduled hS.placed hp false).ident
    · rw [hc, killSched_queue]
  next hg =>
    apply PurgeStep.keep
    intro hpx
    exact hg (beq_iff_eq.2 ((hx p).1 hpx).2.1)

theorem PurgeStep.unlinked
    (hm : Move m ⟨s.core env, [], x⟩ ⟨(s.core env).remove q p, [], x⟩) :
    PurgeStep env m x q s p (s.setQueue q ((s.queue q).erase p), nextOf p (s.queue q)) := by
  have hc : (s.setQueue q ((s.queue q).erase p)).core env = (s.core env).remove q p :=
    core_remove s p
  apply PurgeStep.leave
  · rw [hc]
    exact hm
  · rfl
  · intro a
    rw [hc]
    rfl
  · rw [hc]

theorem emptyData_spec (hS : Sound (s.core env) [] x) (hpx : p ∈ x)
    (hp : p ∈ (s.core env).queue (.unacked n)) (hd : ((s.core env).pkts p).data) :
    PurgeStep env m x (.unacked n) s p
      ((s.unackedRemove env p ((s.pkt p).sentSize env)).emit (.ackStreams p),
        nextOf p (s.queue (.unacked n))) := by
  have hc : ((s.unackedRemove env p ((s.pkt p).sentSize env)).emit (.ackStreams p)).core env =
      ((s.core env).unackedRemove p).emit (.ackStreams p) := by
    rw [core_emit, core_unackedRemove]
  have hn : ((s.core env).pkts p).pns = n := (hS.placed.unacked hp).2.1 hd.2
  apply PurgeStep.leave
  · rw [hc]
    exact .killUnacked hp hd hpx
  · exact congrArg Core.nextId hc
  · rw [hc]
    exact (Erased.unacked hS.placed hp hd).ident
  · rw [hc, ← hn]
    rfl

section
variable (hS : Sound (s.core env) [] x) (hx : Marked (s.core env) n x)
include hS hx

theorem emptyUnackedOne_spec
    (hk : PurgeKinds m (s.core env) n) (hp : p ∈ (s.core env).queue (.unacked n)) :
    PurgeStep env m x (.unacked n) s p (emptyUnackedOne env n s p) := by
  obtain ⟨-, hn, -, hs⟩ := hS.placed.unacked hp
  have hlt := hS.placed.on hp
  have hpx : (s.pkt p).poison = false → p ∈ x := fun hpo => (hx p).2 ⟨hlt, hn hpo, hpo⟩
  simp only [emptyUnackedOne]
  cases hr : (s.pkt p).lossRec with
  | true =>
    simp only [Bool.true_or, if_true]
    exact .unlinked (.purgeRecord hp hr (hpx (hs.record hr).2.1) (hk.record p hp hr))
  | false =>
    cases hpo : (s.pkt p).poison with
    | true =>
      simp only [Bool.false_or, if_true]
      exact .unlinked (.dropPoison hp hpo)
    | false =>
      simp only [Bool.false_or, Bool.false_eq_true, if_false]
      exact emptyData_spec hS (hpx hpo) hp ⟨hr, hpo⟩

theorem emptyQueueOne_spec (hp : p ∈ (s.core env).queue q) (hq : ∀ n, q ≠ .unacked n)
    (hm : ((s.core env).pkts p).pns = n → p ∈ x →
      Move m ⟨s.core env, [], x⟩ ⟨(s.core env).remove q p, [], x⟩) :
    PurgeStep env m x q s p (emptyQueueOne q n s p) := by
  simp only [emptyQueueOne]
  split
  next hg =>
    exact .unlinked (hm hg ((hx p).2 ⟨hS.placed.on hp, hg, (hS.placed.data hp hq).2⟩))
  next hg => exact .keep fun hpx => hg ((hx p).1 hpx).2.1

theorem emptied
    (hq : ∀ q ∈ [Queue.scheduled, .unacked n, .lost, .buffered .highestPrio, .buffered .otherPrio],
      ∀ p ∈ x, p ∉ (s.core env).queue q) : ∀ p ∈ x, ∀ q, q ≠ .stash → p ∉ (s.core env).queue q := by
  intro p hp q hs hm
  cases q with
  | scheduled => exact hq .scheduled (by simp) p hp hm
  | lost => exact hq .lost (by simp) p hp hm
  | stash => exact hs rfl
  | buffered b =>
    cases b with
    | highestPrio => exact hq (.buffered .highestPrio) (by simp) p hp hm
    | otherPrio => exact hq (.buffered .otherPrio) (by simp) p hp hm
  | unacked n' =>
    obtain ⟨-, hn, hpo⟩ := (hx p).1 hp
    have he : n = n' := hn.symm.trans ((hS.placed.unacked hm).2.1 hpo)
    subst he
    exact hq (.unacked n) (by simp) p hp hm

/-- After the five loops no doomed packet is left, except in the stash. -/
theorem emptyQueues_purged (hk : PurgeKinds m (s.core env) n) :
    Purged env m x s (s.emptyQueues env n) ∧
      ∀ p ∈ x, ∀ q, q ≠ .stash → p ∉ ((s.emptyQueues env n).core env).queue q := by
  obtain ⟨h₁, e₁⟩ := overQueue_purged (q := .scheduled) hS hx hk
    fun _ _ hS hx hk hp => emptySchedOne_spec hk.mark hS hx hp
  simp only [emptyQueues, List.foldl_cons, List.foldl_nil]
  generalize s.overQueue .scheduled (emptySchedOne env n) = s₁ at h₁ e₁
  obtain ⟨h₂, e₂⟩ := overQueue_purged (q := .unacked n) (h₁.moves.sound hS) (h₁.marked hx)
    (hk.purged h₁) fun _ _ hS hx hk hp => emptyUnackedOne_spec hS hx hk hp
  have h₁₂ := h₁.trans h₂
  generalize s₁.overQueue (.unacked n) (emptyUnackedOne env n) = s₂ at h₂ h₁₂ e₂
  obtain ⟨h₃, e₃⟩ := overQueue_purged (q := .lost) (h₁₂.moves.sound hS) (h₁₂.marked hx)
    (hk.purged h₁₂) fun _ _ hS hx _ hp =>
      emptyQueueOne_spec hS hx hp (by simp) fun _ => @Move.killLost m _ _ _ _ false hp
  have h₁₃ := h₁₂.trans h₃
  generalize s₂.overQueue .lost (emptyQueueOne .lost n) = s₃ at h₃ h₁₃ e₃
  obtain ⟨h₄, e₄⟩ := overQueue_purged (q := .buffered .highestPrio) (h₁₃.moves.sound hS)
    (h₁₃.marked hx) (hk.purged h₁₃) fun _ _ hS hx hk hp =>
      emptyQueueOne_spec hS hx hp (by simp) fun hn => .purgeBuffered (hk.buffered _ _ hp hn) hp
  have h₁₄ := h₁₃.trans h₄
  generalize s₃.overQueue (.buffered .highestPrio) (emptyQueueOne (.buffered .highestPrio) n) = s₄
    at h₄ h₁₄ e₄
  obtain ⟨h₅, e₅⟩ := overQueue_purged (q := .buffered .otherPrio) (h₁₄.moves.sound hS)
    (h₁₄.marked hx) (hk.purged h₁₄) fun _ _ hS hx hk hp =>
      emptyQueueOne_spec hS hx hp (by simp) fun hn => .purgeBuffered (hk.buffered _ _ hp hn) hp
  have h₁₅ := h₁₄.trans h₅
  generalize s₄.overQueue (.buffered .otherPrio) (emptyQueueOne (.buffered .otherPrio) n) = s₅
    at h₅ h₁₅ e₅
  refine ⟨h₁₅, emptied (h₁₅.moves.sound hS) (h₁₅.marked hx) ?_⟩
  -- a queue that one loop has emptied stays so in the later ones
  intro q hq
  simp only [List.mem_cons, List.not_mem_nil, or_false] at hq
  rcases hq with rfl | rfl | rfl | rfl | rfl
  · exact h₅.absent (h₄.absent (h₃.absent (h₂.absent e₁)))
  · exact h₅.absent (h₄.absent (h₃.absent e₂))
  · exact h₅.absent (h₄.absent e₃)
  · exact h₅.absent e₄
  · exact e₅

end

theorem emptyPns_moves (hS : s.Settled env) (hk : PurgeKinds m (s.core env) n) :
    s.Evolves env m (s.emptyPns env n) := by
  have hx := marked_filter (s.core env) n
  generalize ((List.range (s.core env).nextId).filter fun p =>
    ((s.core env).pkts p).pns = n && !((s.core env).pkts p).poison) = x at hx
  have hD : Moves m ⟨s.core env, [], []⟩ ⟨s.core env, [], x⟩ := .one (.doom (hx.closed hS))
  obtain ⟨hP, hq⟩ := emptyQueues_purged (hD.sound hS) hx hk
  have hM : s.Evolves env m (s.emptyQueues env n) := (hD.trans hP.moves).snoc (.undoom (by simp) hq)
  simp only [emptyPns]
  generalize s.emptyQueues env n = s₁ at hM
  exact hM.view rfl

theorem stashOne_spec (hm : m .stash) (hS : s.Settled env)
    (hp : p ∈ (s.core env).queue (.unacked .app)) :
    Handled env m s .app p (nextOf p (s.queue (.unacked .app))) (stashOne env s p).1
      (stashOne env s p).2 := by
  simp only [stashOne]
  split
  next hz =>
    obtain ⟨-, hn, hr, hs⟩ := hS.placed.unacked hp
    have hd : ((s.core env).pkts p).data :=
      data_of_early hs (by simp [core_pkts, PacketOut.core, hz])
    have hcore : (s.unackedRemove env p ((s.pkt p).sentSize env)).core env =
        (s.core env).unackedRemove p := core_unackedRemove s p
    have hk : Spares p s (s.unackedRemove env p ((s.pkt p).sentSize env)) :=
      unackedRemove_spares s p _
    generalize s.unackedRemove env p ((s.pkt p).sentSize env) = s₁ at hcore hk
    have hc : (s₁.setQueue .stash (s₁.queue .stash ++ [p])).core env =
        ((s.core env).unackedRemove p).append .stash p := by
      rw [core_append s₁, hcore]
    refine ⟨?_, ?_, ?_, ?_⟩
    · rw [hc]
      refine .snoc (.one (.takeUnacked hp hd)) (.toStash hm ?_ ?_)
      · rw [unackedRemove_self]
        exact hd
      · rw [unackedRemove_self]
        exact hr
    · have hK : Spares p s (s₁.setQueue .stash (s₁.queue .stash ++ [p])) := hk.view rfl
      exact hK.toKeeps
    · intro n' hne a ha
      have ha' : a ∈ (((s.core env).unackedRemove p).append .stash p).queue (.unacked n') := by
        rw [← hc]
        exact ha
      have hq : (((s.core env).unackedRemove p).append .stash p).queue (.unacked n') =
          ((s.core env).unackedRemove p).queue (.unacked n') := rfl
      rw [hq, unackedRemove_queue_ne _ (hn hd.2) hne] at ha'
      exact ha'
    · intro rest hC hpr
      refine ⟨rest, cursor_of_queue env ?_ hC hpr, List.Sublist.refl _, fun _ ha _ => ha⟩
      rw [hc, ← unackedRemove_queue _ (hn hd.2)]
      rfl
  · exact .refl _

theorem stash0rttPackets_moves (hm : m .stash) (hS : s.Settled env) :
    s.Evolves env m (s.stash0rttPackets env) :=
  (overQueue_passes hS fun _ _ hR => stashOne_spec hm hR.sound hR.mem).moves

end

end SendCtl

end QuicArt
