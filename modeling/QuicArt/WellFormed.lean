import QuicArt.Moves

namespace QuicArt

/-- A packet is on a queue, or in the hands of the running function (`none`). -/
abbrev Loc := Option Queue

def Core.locs (c : Core) (h : List PktId) : Loc → List PktId
  | none => h
  | some q => c.queue q

def Pkt.flags (pk : Pkt) : Bool × Bool × Bool := (pk.sched, pk.unacked, pk.lost)

structure Pkt.Shape (pk : Pkt) : Prop where
  record : pk.lossRec = true →
    pk.mtuProbe = false ∧ pk.poison = false ∧ pk.body.fixed = true ∧ pk.body.early = false
  poison : pk.poison = true →
    pk.fakeLossRec = 0 ∧ pk.mtuProbe = false ∧ pk.body.early = false
  fake : pk.fakeLossRec ≤ 1
  probe : pk.mtuProbe = true → pk.fakeLossRec = 0
  feedback : pk.lossRec = false → pk.feedbackRecorded = 0

theorem Pkt.Shape.moved {pk : Pkt} (hs : pk.Shape) :
    Pkt.Shape
      { pk with lossChain := n, sched := a, unacked := b, lost := c, repackno := r, tx := t } :=
  ⟨hs.record, hs.poison, hs.fake, hs.probe, hs.feedback⟩

/-- The one matching queue flag is set, and loss records and poison packets are only on unacked
queues. -/
def Fits (pk : Pkt) : Loc → Prop
  | none => pk.poison = false ∧ (pk.lossRec = false → pk.flags = (false, false, false))
  | some (.unacked n) =>
    pk.flags = (false, true, false) ∧ (pk.poison = false → pk.pns = n) ∧ pk.repackno = false
  | some .scheduled => pk.flags = (true, false, false) ∧ pk.data
  | some .lost => pk.flags = (false, false, true) ∧ pk.data ∧ pk.repackno = false
  | some .stash => pk.flags = (false, false, false) ∧ pk.data ∧ pk.repackno = false
  | some (.buffered _) => pk.flags = (false, false, false) ∧ pk.data ∧ pk.repackno = false

/-- No packet is in two places, and every packet fits where it is. -/
structure Placed (c : Core) (h : List PktId) : Prop where
  nodup : ∀ L, (c.locs h L).Nodup
  uniq : ∀ p L L', p ∈ c.locs h L → p ∈ c.locs h L' → L = L'
  lt : ∀ p L, p ∈ c.locs h L → p < c.nextId
  fits : ∀ p L, p ∈ c.locs h L → Fits (c.pkts p) L ∧ (c.pkts p).Shape

theorem Placed.on (hP : Placed c h) (hp : p ∈ c.queue q) : p < c.nextId := hP.lt p (some q) hp

def Off (c : Core) (h : List PktId) (p : PktId) : Prop := ∀ L, p ∉ c.locs h L

section
variable {c c' : Core} {h h' : List PktId} {p : PktId} {q : Queue} {pre suf : List PktId}

theorem locs_congr (hq : c'.queue = c.queue) (L : Loc) : c'.locs h L = c.locs h L := by
  cases L with
  | none => rfl
  | some q => exact congrFun hq q

theorem Placed.restrict (hP : Placed c h) (hn : ∀ L, (c'.locs h' L).Nodup)
    (hm : ∀ p L, p ∈ c'.locs h' L → p ∈ c.locs h L) (hi : c.nextId ≤ c'.nextId)
    (hp : ∀ p, p < c.nextId → c'.pkts p = c.pkts p) : Placed c' h' := by
  refine ⟨hn, fun p L L' hL hL' => hP.uniq p L L' (hm p L hL) (hm p L' hL'),
    fun p L hL => Nat.lt_of_lt_of_le (hP.lt p L (hm p L hL)) hi, fun p L hL => ?_⟩
  rw [hp p (hP.lt p L (hm p L hL))]
  exact hP.fits p L (hm p L hL)

theorem Placed.congr (hP : Placed c h) (hp : c'.pkts = c.pkts) (hq : c'.queue = c.queue)
    (hn : c'.nextId = c.nextId) : Placed c' h := by
  apply hP.restrict
  · intro L
    rw [locs_congr hq]
    exact hP.nodup L
  · intro p L hL
    rwa [locs_congr hq] at hL
  · exact Nat.le_of_eq hn.symm
  · intro p _
    rw [hp]

theorem upd_pkts (c : Core) (p p' : PktId) (f : Pkt → Pkt) :
    (c.upd p f).pkts p' = if p' = p then f (c.pkts p') else c.pkts p' := by
  simp only [Core.upd, Function.update_apply]
  by_cases h : p' = p
  · rw [if_pos h, if_pos h, h]
  · rw [if_neg h, if_neg h]

theorem Placed.update (hP : Placed c h) {f : Pkt → Pkt}
    (hf : ∀ L, p ∈ c.locs h L → Fits (c.pkts p) L → (c.pkts p).Shape →
      Fits (f (c.pkts p)) L ∧ (f (c.pkts p)).Shape) : Placed (c.upd p f) h := by
  refine ⟨hP.nodup, hP.uniq, hP.lt, fun p' L hL => ?_⟩
  obtain ⟨hfit, hshape⟩ := hP.fits p' L hL
  rw [upd_pkts]
  split
  next he =>
    subst he
    exact hf L hL hfit hshape
  · exact ⟨hfit, hshape⟩

theorem locs_setQueue (c : Core) (q : Queue) (l : List PktId) (L : Loc) :
    (c.setQueue q l).locs h L = if L = some q then l else c.locs h L := by
  cases L with
  | none => simp only [Core.locs, reduceCtorEq, ↓reduceIte]
  | some q' =>
    simp only [Core.locs, Core.setQueue, Function.update_apply, Option.some.injEq]

theorem mem_locs_remove (hP : Placed c h) {p' : PktId} {L : Loc} :
    p' ∈ (c.remove q p).locs h L ↔ p' ∈ c.locs h L ∧ ¬ (L = some q ∧ p' = p) := by
  rw [Core.remove, locs_setQueue]
  split
  next he =>
    subst he
    have hn : (c.queue q).Nodup := hP.nodup (some q)
    simp only [hn.mem_erase_iff, Core.locs, true_and]
    exact and_comm
  next hne => simp only [hne, false_and, not_false_eq_true, and_true]

theorem Placed.leave (hP : Placed c h) : Placed (c.remove q p) h := by
  refine hP.restrict (fun L => ?_) (fun p' L hL => ((mem_locs_remove hP).1 hL).1) le_rfl
    fun _ _ => rfl
  rw [Core.remove, locs_setQueue]
  split
  · exact (hP.nodup (some q)).erase p
  · exact hP.nodup L

theorem Placed.off_remove (hP : Placed c h) (hp : p ∈ c.queue q) : Off (c.remove q p) h p := by
  intro L hL
  obtain ⟨hmem, hne⟩ := (mem_locs_remove hP).1 hL
  exact hne ⟨hP.uniq p L (some q) hmem hp, rfl⟩

theorem Placed.unhand (hP : Placed c (p :: h)) : Placed c h := by
  refine hP.restrict (fun L => ?_) (fun p' L hL => ?_) le_rfl fun _ _ => rfl
  · cases L with
    | none => exact (List.nodup_cons.1 (hP.nodup none)).2
    | some q => exact hP.nodup (some q)
  · cases L with
    | none => exact .tail _ hL
    | some q => exact hL

theorem Placed.off_unhand (hP : Placed c (p :: h)) : Off c h p := by
  intro L hL
  cases L with
  | none => exact (List.nodup_cons.1 (hP.nodup none)).1 hL
  | some q =>
    have hne := hP.uniq p none (some q) List.mem_cons_self hL
    cases hne

theorem Placed.join (hP : Placed c h) (hoff : Off c h p) (hlt : p < c.nextId) {L₀ : Loc}
    (hf : Fits (c.pkts p) L₀) (hs : (c.pkts p).Shape) (hn : ∀ L, (c'.locs h' L).Nodup)
    (hm : ∀ p' L, p' ∈ c'.locs h' L → p' ∈ c.locs h L ∨ (p' = p ∧ L = L₀))
    (hp : c'.pkts = c.pkts) (hi : c'.nextId = c.nextId) : Placed c' h' := by
  refine ⟨hn, fun p' L L' hL hL' => ?_, fun p' L hL => ?_, fun p' L hL => ?_⟩
  · rcases hm p' L hL with h₁ | ⟨rfl, rfl⟩ <;> rcases hm p' L' hL' with h₂ | ⟨h₂, h₃⟩
    · exact hP.uniq p' L L' h₁ h₂
    · exact absurd (h₂ ▸ h₁) (hoff L)
    · exact absurd h₂ (hoff L')
    · exact h₃.symm
  · rw [hi]
    rcases hm p' L hL with h₁ | ⟨rfl, -⟩
    · exact hP.lt p' L h₁
    · exact hlt
  · rw [hp]
    rcases hm p' L hL with h₁ | ⟨rfl, rfl⟩
    · exact hP.fits p' L h₁
    · exact ⟨hf, hs⟩

theorem Placed.hold (hP : Placed c h) (hoff : Off c h p) (hlt : p < c.nextId)
    (hf : Fits (c.pkts p) none) (hs : (c.pkts p).Shape) : Placed c (p :: h) := by
  refine hP.join hoff hlt hf hs (fun L => ?_) (fun p' L hL => ?_) rfl rfl
  · cases L with
    | none => exact List.nodup_cons.2 ⟨hoff none, hP.nodup none⟩
    | some q => exact hP.nodup (some q)
  · cases L with
    | none => exact (List.mem_cons.1 hL).symm.imp_right fun he => ⟨he, rfl⟩
    | some q => exact .inl hL

theorem Placed.perm (hP : Placed c h) (hh : h.Perm h') : Placed c h' := by
  refine hP.restrict (fun L => ?_) (fun p L hL => ?_) le_rfl fun _ _ => rfl
  · cases L with
    | none => exact hh.nodup (hP.nodup none)
    | some q => exact hP.nodup (some q)
  · cases L with
    | none => exact hh.symm.subset hL
    | some q => exact hL

theorem Placed.enter (hP : Placed c h) (hoff : Off c h p) (hlt : p < c.nextId)
    (he : c.queue q = pre ++ suf) (hf : Fits (c.pkts p) (some q)) (hs : (c.pkts p).Shape) :
    Placed (c.setQueue q (pre ++ p :: suf)) h := by
  refine hP.join hoff hlt hf hs (fun L => ?_) (fun p' L hL => ?_) rfl rfl
  · rw [locs_setQueue]
    split
    · have hn := hP.nodup (some q)
      have ho := hoff (some q)
      simp only [Core.locs, he] at hn ho
      exact (List.perm_middle.nodup_iff).2 (List.nodup_cons.2 ⟨ho, hn⟩)
    · exact hP.nodup L
  · rw [locs_setQueue] at hL
    split at hL
    next hLq =>
      subst hLq
      simp only [Core.locs, he]
      rw [List.perm_middle.mem_iff, List.mem_cons] at hL
      exact hL.symm.imp_right fun hp => ⟨hp, trivial⟩
    · exact .inl hL

theorem Placed.off_next (hP : Placed c h) : Off c h c.nextId :=
  fun L hL => Nat.lt_irrefl _ (hP.lt _ L hL)

theorem alloc_pkts_of_lt (c : Core) (pk : Pkt) {p : PktId} (hp : p < c.nextId) :
    (c.alloc pk).pkts p = c.pkts p :=
  Function.update_of_ne (Nat.ne_of_lt hp) ..

theorem alloc_pkts_next (c : Core) (pk : Pkt) : (c.alloc pk).pkts c.nextId = pk :=
  Function.update_self ..

theorem Placed.alloc (hP : Placed c h) (pk : Pkt) : Placed (c.alloc pk) h :=
  hP.restrict hP.nodup (fun _ _ hL => hL) (Nat.le_succ _) fun _ hp => alloc_pkts_of_lt c pk hp

theorem Placed.update_off (hP : Placed c h) (hoff : Off c h p) {f : Pkt → Pkt} :
    Placed (c.upd p f) h :=
  hP.update fun L hL => absurd hL (hoff L)

theorem upd_self (c : Core) (p : PktId) (f : Pkt → Pkt) : (c.upd p f).pkts p = f (c.pkts p) := by
  rw [upd_pkts, if_pos rfl]

theorem Placed.scrub (hP : Placed c h) (hq : ∀ q, p ∉ c.queue q) (hh : p ∉ h) :
    Placed (c.upd p ({ · with lossChain := a })) h := by
  refine hP.update_off fun L hL => ?_
  cases L with
  | none => exact hh hL
  | some q => exact hq q hL

theorem Placed.kill (hP : Placed c h) (hp : p ∈ c.queue q) {f : Pkt → Pkt} :
    Placed ((c.remove q p).upd p f) h :=
  hP.leave.update_off (hP.off_remove hp)

theorem Placed.take (hP : Placed c h) (hp : p ∈ c.queue q) {f : Pkt → Pkt}
    (hf : Fits (f (c.pkts p)) none) (hs : (f (c.pkts p)).Shape) :
    Placed ((c.remove q p).upd p f) (p :: h) := by
  refine (hP.kill hp).hold (hP.off_remove hp) (hP.on hp) ?_ ?_
  · rw [upd_self]
    exact hf
  · rw [upd_self]
    exact hs

theorem Placed.put (hP : Placed c (p :: h)) {f : Pkt → Pkt} (he : c.queue q = pre ++ suf)
    (hf : Fits (f (c.pkts p)) (some q)) (hs : (f (c.pkts p)).Shape) :
    Placed ((c.setQueue q (pre ++ p :: suf)).upd p f) h := by
  have hoff := hP.off_unhand
  have hlt := hP.lt p none (.head _)
  have hU : Placed (c.upd p f) h := hP.unhand.update_off hoff
  exact hU.enter hoff hlt he ((upd_self c p f).symm ▸ hf) ((upd_self c p f).symm ▸ hs)

theorem Placed.append (hP : Placed c (p :: h)) {f : Pkt → Pkt}
    (hf : Fits (f (c.pkts p)) (some q)) (hs : (f (c.pkts p)).Shape) :
    Placed ((c.append q p).upd p f) h :=
  hP.put (List.append_nil _).symm hf hs

theorem Placed.sched (hP : Placed c h) (hp : p ∈ c.queue .scheduled) :
    ((c.pkts p).sched = true ∧ (c.pkts p).unacked = false ∧ (c.pkts p).lost = false) ∧
      (c.pkts p).data ∧ (c.pkts p).Shape := by
  obtain ⟨⟨hf, hd⟩, hs⟩ := hP.fits p (some .scheduled) hp
  simp only [Pkt.flags, Prod.mk.injEq] at hf
  exact ⟨hf, hd, hs⟩

theorem Placed.unacked (hP : Placed c h) (hp : p ∈ c.queue (.unacked n)) :
    ((c.pkts p).sched = false ∧ (c.pkts p).unacked = true ∧ (c.pkts p).lost = false) ∧
      ((c.pkts p).poison = false → (c.pkts p).pns = n) ∧ (c.pkts p).repackno = false ∧
      (c.pkts p).Shape := by
  obtain ⟨⟨hf, hn, hr⟩, hs⟩ := hP.fits p (some (.unacked n)) hp
  simp only [Pkt.flags, Prod.mk.injEq] at hf
  exact ⟨hf, hn, hr, hs⟩

theorem Placed.lost (hP : Placed c h) (hp : p ∈ c.queue .lost) :
    ((c.pkts p).sched = false ∧ (c.pkts p).unacked = false ∧ (c.pkts p).lost = true) ∧
      (c.pkts p).data ∧ (c.pkts p).repackno = false ∧ (c.pkts p).Shape := by
  obtain ⟨⟨hf, hd, hr⟩, hs⟩ := hP.fits p (some .lost) hp
  simp only [Pkt.flags, Prod.mk.injEq] at hf
  exact ⟨hf, hd, hr, hs⟩

theorem Placed.buffered (hP : Placed c h) (hp : p ∈ c.queue (.buffered b)) :
    ((c.pkts p).sched = false ∧ (c.pkts p).unacked = false ∧ (c.pkts p).lost = false) ∧
      (c.pkts p).data ∧ (c.pkts p).repackno = false ∧ (c.pkts p).Shape := by
  obtain ⟨⟨hf, hd, hr⟩, hs⟩ := hP.fits p (some (.buffered b)) hp
  simp only [Pkt.flags, Prod.mk.injEq] at hf
  exact ⟨hf, hd, hr, hs⟩

theorem Placed.off_unacked (hP : Placed c h) (hp : p ∈ c.queue q) (hq : ∀ n, q ≠ .unacked n) :
    ∀ n, p ∉ c.queue (.unacked n) := by
  intro n hn
  have he := hP.uniq p (some q) (some (.unacked n)) hp hn
  exact hq n (Option.some.inj he)

theorem Placed.held_off_unacked (hP : Placed c (p :: h)) : ∀ n, p ∉ c.queue (.unacked n) :=
  fun n hn => hP.off_unhand (some (.unacked n)) hn

/-- Only among the packets sent are there records that carry no data. -/
theorem Placed.data (hP : Placed c h) (hp : p ∈ c.queue q) (hq : ∀ n, q ≠ .unacked n) :
    (c.pkts p).data := by
  cases q with
  | unacked n => exact absurd rfl (hq n)
  | scheduled => exact (hP.sched hp).2.1
  | lost => exact (hP.lost hp).2.1
  | stash => exact (hP.fits p (some .stash) hp).1.2.1
  | buffered b => exact (hP.buffered hp).2.1

theorem Placed.held (hP : Placed c (p :: h)) (hd : (c.pkts p).data) :
    ((c.pkts p).sched = false ∧ (c.pkts p).unacked = false ∧ (c.pkts p).lost = false) ∧
      (c.pkts p).Shape := by
  obtain ⟨⟨-, hf⟩, hs⟩ := hP.fits p none (.head _)
  have hf := hf hd.1
  simp only [Pkt.flags, Prod.mk.injEq] at hf
  exact ⟨hf, hs⟩

theorem Placed.touch (hP : Placed c h) {f : Pkt → Pkt}
    (hf : (f (c.pkts p)).flags = (c.pkts p).flags)
    (hd : (f (c.pkts p)).lossRec = (c.pkts p).lossRec)
    (hpo : (f (c.pkts p)).poison = (c.pkts p).poison)
    (hn : (f (c.pkts p)).pns = (c.pkts p).pns)
    (hr : (f (c.pkts p)).repackno = (c.pkts p).repackno)
    (hs : (c.pkts p).Shape → (f (c.pkts p)).Shape) : Placed (c.upd p f) h := by
  refine hP.update fun L hL hfit hshape => ⟨?_, hs hshape⟩
  cases L with
  | none => simpa only [Fits, hf, hd, hpo] using hfit
  | some q => cases q <;> simp only [Fits, Pkt.data, hf, hd, hpo, hn, hr] at hfit ⊢ <;> exact hfit

theorem Placed.markAll (hP : Placed c h) (hl : ∀ p ∈ l, p ∈ c.queue .scheduled) :
    Placed (c.markAll l) h := by
  refine ⟨hP.nodup, hP.uniq, hP.lt, fun p L hL => ?_⟩
  obtain ⟨hfit, hs⟩ := hP.fits p L hL
  simp only [Core.markAll]
  split
  next hp =>
    have hL : L = some .scheduled := hP.uniq p L (some .scheduled) hL (hl p hp)
    subst hL
    exact ⟨hfit, hs.moved⟩
  · exact ⟨hfit, hs⟩

theorem Placed.renumberToRight (hP : Placed c h) : Placed (c.renumberToRight p) h := by
  unfold Core.renumberToRight
  split
  · exact hP
  · refine Placed.markAll (hP.congr rfl rfl rfl) fun p' hp' => ?_
    exact (after_sublist _ _).subset ((List.takeWhile_sublist _).subset hp')

theorem renumberToRight_queue (c : Core) (p : PktId) :
    (c.renumberToRight p).queue = c.queue := by
  unfold Core.renumberToRight
  split <;> rfl

theorem Placed.schedRemove (hP : Placed c h) (hp : p ∈ c.queue .scheduled) :
    Placed (c.schedRemove p) (p :: h) := by
  obtain ⟨⟨-, hu, hl⟩, hd, hs⟩ := hP.sched hp
  refine hP.take hp ⟨hd.2, fun _ => ?_⟩ hs.moved
  simp only [Pkt.flags, hu, hl]

theorem Placed.unackedRemove (hP : Placed c h) (hp : p ∈ c.queue (.unacked n))
    (hd : (c.pkts p).data) : Placed (c.unackedRemove p) (p :: h) := by
  obtain ⟨⟨hsc, -, hl⟩, hn, -, hs⟩ := hP.unacked hp
  have hn := hn hd.2
  subst hn
  have ht : Placed ((c.remove (.unacked (c.pkts p).pns) p).upd p ({ · with unacked := false }))
      (p :: h) := by
    refine hP.take hp ⟨hd.2, fun _ => ?_⟩ hs.moved
    simp only [Pkt.flags, hsc, hl]
  exact ht.congr rfl rfl rfl

theorem unackedRemove_self (c : Core) (p : PktId) :
    (c.unackedRemove p).pkts p = { c.pkts p with unacked := false } := by
  simp only [Core.unackedRemove, Core.charge, upd_self]
  rfl

theorem lostAppend_self (c : Core) (p : PktId) :
    (c.lostAppend p).pkts p = { c.pkts p with lost := true } := by
  simp only [Core.lostAppend, upd_self]
  rfl

theorem Placed.recRemove (hP : Placed c h) : Placed (c.recRemove n p) h := by
  unfold Core.recRemove
  split
  · have hQ : Placed (c.charge (-1) (-(c.pkts p).body.bytes)) h := hP.congr rfl rfl rfl
    exact hQ.leave
  · exact hP.leave

theorem recRemove_queue (c : Core) (n : Pns) (p : PktId) :
    (c.recRemove n p).queue = (c.remove (.unacked n) p).queue := by
  unfold Core.recRemove
  split <;> rfl

theorem recRemove_pkts (c : Core) (n : Pns) (p : PktId) : (c.recRemove n p).pkts = c.pkts := by
  unfold Core.recRemove
  split <;> rfl

theorem recRemove_nextId (c : Core) (n : Pns) (p : PktId) :
    (c.recRemove n p).nextId = c.nextId := by
  unfold Core.recRemove
  split <;> rfl

theorem Pkt.Shape.recordOf {pk : Pkt} (hs : pk.Shape) : (Core.recordOf pk).Shape :=
  ⟨fun _ => ⟨rfl, rfl, rfl, rfl⟩, nofun, hs.fake,
    nofun, nofun⟩

theorem Placed.recordLoss (hP : Placed c h) (hp : p ∈ c.queue (.unacked n))
    (hd : (c.pkts p).data) : Placed (c.recordLoss p) h := by
  obtain ⟨-, hn, -, hs⟩ := hP.unacked hp
  have hn := hn hd.2
  subst hn
  have hlt := hP.lt p (some (.unacked (c.pkts p).pns)) hp
  obtain ⟨pre, suf, he, hpre⟩ := List.eq_append_cons_of_mem hp
  have hA : Placed ((c.alloc (Core.recordOf (c.pkts p))).upd p
      ({ · with lossChain := c.nextId })) h := by
    exact (hP.alloc _).touch rfl rfl rfl rfl rfl Pkt.Shape.moved
  have hr : ((c.alloc (Core.recordOf (c.pkts p))).upd p
      ({ · with lossChain := c.nextId })).pkts c.nextId = Core.recordOf (c.pkts p) := by
    rw [upd_pkts, if_neg (Nat.ne_of_gt hlt), alloc_pkts_next]
  have hE := hA.enter hP.off_next (Nat.lt_succ_self _) he
    (hr.symm ▸ ⟨rfl, fun _ => rfl, rfl⟩) (hr.symm ▸ hs.recordOf)
  rw [← insertBefore_split hpre, ← he] at hE
  unfold Core.recordLoss
  simp only
  split
  · exact hE.congr rfl rfl rfl
  · exact hE

theorem recordLoss_queue (c : Core) (p : PktId) (q : Queue) :
    (c.recordLoss p).queue q = if q = .unacked (c.pkts p).pns
      then insertBefore p c.nextId (c.queue q) else c.queue q := by
  have hq : (c.recordLoss p).queue q = Function.update c.queue (.unacked (c.pkts p).pns)
      (insertBefore p c.nextId (c.queue (.unacked (c.pkts p).pns))) q := by
    unfold Core.recordLoss
    simp only
    split <;> rfl
  rw [hq, Function.update_apply]
  split
  next he => rw [he]
  · rfl

theorem recordLoss_pkts (c : Core) (hlt : p < c.nextId) (p' : PktId) :
    (c.recordLoss p).pkts p' = if p' = p then { c.pkts p with lossChain := c.nextId }
      else if p' = c.nextId then Core.recordOf (c.pkts p) else c.pkts p' := by
  have hq : (c.recordLoss p).pkts p' = ((c.alloc (Core.recordOf (c.pkts p))).upd p
      ({ · with lossChain := c.nextId })).pkts p' := by
    unfold Core.recordLoss
    simp only
    split <;> rfl
  rw [hq, upd_pkts]
  split
  next he => rw [he, alloc_pkts_of_lt _ _ hlt]
  · simp only [Core.alloc, Function.update_apply]

theorem recordLoss_self (c : Core) (hlt : p < c.nextId) :
    (c.recordLoss p).pkts p = { c.pkts p with lossChain := c.nextId } := by
  rw [recordLoss_pkts c hlt, if_pos rfl]

theorem Placed.mem_recordLoss (hP : Placed c h) (hp : p ∈ c.queue (.unacked n))
    (hd : (c.pkts p).data) : p ∈ (c.recordLoss p).queue (.unacked n) := by
  have hn := (hP.unacked hp).2.1 hd.2
  subst hn
  rw [recordLoss_queue, if_pos rfl]
  exact (mem_insertBefore hp).2 (.inr hp)

theorem Placed.lose (hP : Placed c h) (hp : p ∈ c.queue (.unacked n)) (hd : (c.pkts p).data) :
    Placed ((c.recordLoss p).unackedRemove p) (p :: h) := by
  have hlt := hP.lt p _ (show p ∈ c.locs h (some (.unacked n)) from hp)
  apply (hP.recordLoss hp hd).unackedRemove (hP.mem_recordLoss hp hd)
  rw [recordLoss_self c hlt]
  exact hd

theorem Placed.unackedAppend (hP : Placed c (p :: h)) (hd : (c.pkts p).data)
    (hr : (c.pkts p).repackno = false) : Placed (c.unackedAppend p) h := by
  obtain ⟨⟨hsc, -, hl⟩, hs⟩ := hP.held hd
  have ha : Placed ((c.append (.unacked (c.pkts p).pns) p).upd p
      ({ · with unacked := true })) h := by
    refine hP.append ⟨?_, fun _ => rfl, hr⟩ hs.moved
    simp only [Pkt.flags, hsc, hl]
  exact ha.congr rfl rfl rfl

theorem Placed.schedAppend (hP : Placed c (p :: h)) (hd : (c.pkts p).data) :
    Placed (c.schedAppend p) h := by
  obtain ⟨⟨-, hu, hl⟩, hs⟩ := hP.held hd
  refine hP.append ⟨?_, hd⟩ hs.moved
  simp only [Pkt.flags, hu, hl]

theorem senhistAdd_pkts (c : Core) (n : Int) : (c.senhistAdd n).pkts = c.pkts := by
  unfold Core.senhistAdd
  split <;> rfl

theorem senhistAdd_queue (c : Core) (n : Int) : (c.senhistAdd n).queue = c.queue := by
  unfold Core.senhistAdd
  split <;> rfl

theorem senhistAdd_nextId (c : Core) (n : Int) : (c.senhistAdd n).nextId = c.nextId := by
  unfold Core.senhistAdd
  split <;> rfl

theorem Placed.senhistAdd (hP : Placed c h) (n : Int) : Placed (c.senhistAdd n) h :=
  hP.congr (senhistAdd_pkts c n) (senhistAdd_queue c n) (senhistAdd_nextId c n)

theorem nextPackno_pkts (c : Core) : c.nextPackno.pkts = c.pkts := by
  unfold Core.nextPackno
  split <;> rfl

theorem nextPackno_queue (c : Core) : c.nextPackno.queue = c.queue := by
  unfold Core.nextPackno
  split <;> rfl

theorem nextPackno_nextId (c : Core) : c.nextPackno.nextId = c.nextId := by
  unfold Core.nextPackno
  split <;> rfl

theorem Placed.nextPackno (hP : Placed c h) : Placed c.nextPackno h :=
  hP.congr (nextPackno_pkts c) (nextPackno_queue c) (nextPackno_nextId c)

theorem Placed.addPoison (hP : Placed c h) (sz : Nat) : Placed (c.addPoison sz) h := by
  refine (hP.alloc _).enter hP.off_next (Nat.lt_succ_self _) (List.append_nil _).symm ?_ ?_
  · rw [alloc_pkts_next]
    exact ⟨rfl, nofun, rfl⟩
  · rw [alloc_pkts_next]
    exact ⟨nofun, fun _ => ⟨rfl, rfl, rfl⟩, Nat.zero_le _,
      fun _ => rfl, fun _ => rfl⟩

theorem Pkt.Shape.of_data {pk pk' : Pkt} (hs : pk.Shape) (hd : pk'.data)
    (hf : pk'.fakeLossRec = pk.fakeLossRec) (hm : pk'.mtuProbe = true → pk'.fakeLossRec = 0)
    (hl : pk.lossRec = false) (hb : pk'.feedbackRecorded = pk.feedbackRecorded) : pk'.Shape :=
  ⟨fun he => absurd (hd.1.symm.trans he) (by simp), fun he => absurd (hd.2.symm.trans he) (by simp),
    hf ▸ hs.fake, hm, fun _ => hb ▸ hs.feedback hl⟩

theorem Placed.resized (hP : Placed c h) (hd : (c.pkts p).data) (body : Body) :
    Placed (c.upd p ({ · with body := body })) h :=
  hP.touch rfl rfl rfl rfl rfl fun hs => hs.of_data hd rfl hs.probe hd.1 rfl

theorem Placed.takeHead (hP : Placed c h) (hp : p ∈ c.queue .scheduled) (body : Body) :
    Placed (c.takeHead p body) (p :: h) := by
  have hd : ((c.schedRemove p).pkts p).data := by
    simp only [Core.schedRemove, upd_self]
    exact (hP.sched hp).2.1
  exact ((hP.schedRemove hp).resized hd body).congr rfl rfl rfl

theorem addPoison_pkts_of_lt (c : Core) (sz : Nat) (hlt : p < c.nextId) :
    (c.addPoison sz).pkts p = c.pkts p :=
  alloc_pkts_of_lt c _ hlt

theorem withPoison_pkts_of_lt (c : Core) (packno : Int) (sz : Nat) (hlt : p < c.nextId) :
    (c.withPoison packno sz).pkts p = c.pkts p := by
  unfold Core.withPoison
  split
  · rw [addPoison_pkts_of_lt _ _ (senhistAdd_nextId c _ ▸ hlt), senhistAdd_pkts]
  · rfl

theorem Placed.withPoison (hP : Placed c h) (packno : Int) (sz : Nat) :
    Placed (c.withPoison packno sz) h := by
  unfold Core.withPoison
  split
  · exact (hP.senhistAdd _).addPoison sz
  · exact hP

theorem Placed.launch (hP : Placed c (p :: h)) (hd : (c.pkts p).data)
    (hr : (c.pkts p).repackno = false) (packno : Int) : Placed (c.launch p packno) h := by
  have hS := hP.senhistAdd packno
  have hT : Placed ((c.senhistAdd packno).upd p ({ · with tx := (c.senhistAdd packno).nTotalSent }))
      (p :: h) :=
    hS.touch rfl rfl rfl rfl rfl Pkt.Shape.moved
  have hU := hT.unackedAppend (by rw [upd_self, senhistAdd_pkts]; exact hd)
    (by rw [upd_self, senhistAdd_pkts]; exact hr)
  exact hU.congr rfl rfl rfl

theorem takeHead_self (c : Core) (p : PktId) (body : Body) :
    (c.takeHead p body).pkts p = { c.pkts p with sched := false, body := body } := by
  simp only [Core.takeHead, Core.emit, upd_self, Core.schedRemove]
  rfl

theorem Placed.sendHead (hP : Placed c h) (hp : p ∈ c.queue .scheduled)
    (hr : (c.pkts p).repackno = false) (body : Body) (poisonSz : Nat) :
    Placed (c.sendHead p body poisonSz) h := by
  have hT := hP.takeHead hp body
  have hlt := hT.lt p none (.head _)
  refine (hT.withPoison _ poisonSz).launch ?_ ?_ _
  · rw [withPoison_pkts_of_lt _ _ _ hlt, takeHead_self]
    exact (hP.sched hp).2.1
  · rw [withPoison_pkts_of_lt _ _ _ hlt, takeHead_self]
    exact hr

theorem replicaFeedback_pkts (c : Core) (p : PktId) (ok : Bool) :
    (c.replicaFeedback p ok).pkts = c.pkts := by
  unfold Core.replicaFeedback
  split <;> rfl

theorem replicaFeedback_queue (c : Core) (p : PktId) (ok : Bool) :
    (c.replicaFeedback p ok).queue = c.queue := by
  unfold Core.replicaFeedback
  split <;> rfl

theorem Placed.replicaFeedback (hP : Placed c h) (ok : Bool) :
    Placed (c.replicaFeedback p ok) h := by
  apply hP.congr (replicaFeedback_pkts c p ok) (replicaFeedback_queue c p ok)
  unfold Core.replicaFeedback
  split <;> rfl

theorem Placed.ackIf (hP : Placed c h) (ack : Bool) : Placed (c.ackIf p ack) h := by
  unfold Core.ackIf
  split
  · exact hP.congr rfl rfl rfl
  · exact hP

theorem Placed.enqueue (hP : Placed c (p :: h)) (hd : (c.pkts p).data)
    (hm : mtu = (c.pkts p).mtuProbe ∨ ((c.pkts p).lossChain = p ∧ (c.pkts p).fakeLossRec = 0)) :
    Placed (c.enqueue p body mtu) h := by
  have hN := hP.nextPackno
  have hU : Placed (c.nextPackno.upd p
      ({ · with packno := c.nextPackno.curPackno, body := body, mtuProbe := mtu })) (p :: h) := by
    refine hN.touch rfl rfl rfl rfl rfl fun hs => ?_
    rw [nextPackno_pkts] at hs ⊢
    refine hs.of_data hd rfl (fun he => ?_) hd.1 rfl
    rcases hm with hm | hm
    · exact hs.probe (hm ▸ he)
    · exact hm.2
  apply Placed.schedAppend (hU.congr rfl rfl rfl)
  simp only [upd_self, nextPackno_pkts]
  exact hd

theorem Placed.lostRemove (hP : Placed c h) (hp : p ∈ c.queue .lost) :
    Placed (c.lostRemove p) (p :: h) := by
  obtain ⟨⟨hsc, hu, -⟩, hd, -, hs⟩ := hP.lost hp
  refine hP.take hp ⟨hd.2, fun _ => ?_⟩ hs.moved
  simp only [Pkt.flags, hsc, hu]

theorem Placed.unbuffer (hP : Placed c h) (hp : p ∈ c.queue (.buffered b)) :
    Placed (c.remove (.buffered b) p) (p :: h) := by
  obtain ⟨⟨hsc, hu, hl⟩, hd, -, hs⟩ := hP.buffered hp
  refine hP.leave.hold (hP.off_remove hp) (hP.on hp) ⟨hd.2, fun _ => ?_⟩ hs
  exact Prod.ext hsc (Prod.ext hu hl)

section
variable (hP : Placed c h) (hp : p ∈ c.queue (.unacked n))
include hP hp

theorem Placed.recTake (hr : (c.pkts p).lossRec = true) : Placed (c.recRemove n p) (p :: h) := by
  have hs := (hP.unacked hp).2.2.2
  refine hP.recRemove.hold (fun L => ?_) ?_ ?_ ?_
  · rw [locs_congr (recRemove_queue c n p)]
    exact hP.off_remove hp L
  · rw [recRemove_nextId]
    exact hP.on hp
  · rw [recRemove_pkts]
    exact ⟨(hs.record hr).2.1, fun he => absurd he (by simp [hr])⟩
  · rw [recRemove_pkts]
    exact hs

theorem Placed.ackData (hd : (c.pkts p).data) (ok : Bool) :
    Placed ((c.replicaFeedback p ok).unackedRemove p) (p :: h) := by
  have hp' : p ∈ (c.replicaFeedback p ok).queue (.unacked n) := by
    rw [replicaFeedback_queue]
    exact hp
  apply (hP.replicaFeedback ok).unackedRemove hp'
  rw [replicaFeedback_pkts]
  exact hd

theorem Placed.ackRecord (hr : (c.pkts p).lossRec = true) (ok : Bool) :
    Placed ((c.replicaFeedback p ok).recRemove n p) (p :: h) := by
  refine (hP.replicaFeedback ok).recTake ?_ ?_
  · rw [replicaFeedback_queue]
    exact hp
  · rw [replicaFeedback_pkts]
    exact hr

end

theorem Placed.reportLoss (hP : Placed c h) (hr : (c.pkts p).lossRec = true) (value : Nat)
    (ok : Bool) :
    Placed ((c.recordFeedback p value ok).upd p ({ · with feedbackRecorded := 1 })) h := by
  have hE : Placed (c.recordFeedback p value ok) h := hP.congr rfl rfl rfl
  refine hE.touch rfl rfl rfl rfl rfl fun hs => ?_
  exact ⟨hs.record, hs.poison, hs.fake, hs.probe, fun he => absurd (hr.symm.trans he) (by simp)⟩

theorem Placed.toLost (hP : Placed c (p :: h)) (hd : (c.pkts p).data)
    (hr : (c.pkts p).repackno = false) (he : c.queue .lost = pre ++ suf) :
    Placed ((c.setQueue .lost (pre ++ p :: suf)).upd p ({ · with lost := true })) h := by
  obtain ⟨⟨hsc, hu, -⟩, hs⟩ := hP.held hd
  refine hP.put he ⟨?_, hd, hr⟩ hs.moved
  simp only [Pkt.flags, hsc, hu]

theorem Placed.shelve (hP : Placed c (p :: h)) (hd : (c.pkts p).data)
    (hr : (c.pkts p).repackno = false) (hq : q = .stash ∨ ∃ b, q = .buffered b)
    (he : c.queue q = pre ++ suf) : Placed (c.setQueue q (pre ++ p :: suf)) h := by
  obtain ⟨⟨hsc, hu, hl⟩, hs⟩ := hP.held hd
  have hf : (c.pkts p).flags = (false, false, false) := by simp only [Pkt.flags, hsc, hu, hl]
  refine hP.unhand.enter hP.off_unhand (hP.lt p none (.head _)) he ?_ hs
  rcases hq with rfl | ⟨b, rfl⟩
  · exact ⟨hf, hd, hr⟩
  · exact ⟨hf, hd, hr⟩

theorem Placed.newTurn (hP : Placed c h) (hm : (c.pkts p).mtuProbe = false)
    (hd : (c.pkts p).data) (need : Nat) (rounds : List Nat) :
    Placed (c.newTurn p need rounds) h := by
  have hU : Placed (c.upd p ({ · with
      retransTimes := u16add (c.pkts p).retransTimes 1, needRetransNumber := need,
      fakeLossRec := 1 })) h := by
    refine hP.touch rfl rfl rfl rfl rfl fun hs => ?_
    exact ⟨hs.record, fun he => absurd (hd.2.symm.trans he) (by simp), Nat.le_refl 1,
      fun he => absurd (hm.symm.trans he) (by simp), hs.feedback⟩
  exact hU.congr rfl rfl rfl

theorem Placed.lostAppend (hP : Placed c (p :: h)) (hd : (c.pkts p).data)
    (hr : (c.pkts p).repackno = false) : Placed (c.lostAppend p) h :=
  hP.toLost hd hr (List.append_nil _).symm

theorem Placed.duplicate (hP : Placed c h) : Placed (c.duplicate p) h := by
  have hU : Placed (c.upd p
      ({ · with retransPacketNumber := u16add (c.pkts p).retransPacketNumber 1 })) h :=
    hP.touch rfl rfl rfl rfl rfl fun hs => { hs with }
  exact hU.congr rfl rfl rfl

theorem Placed.renumberHead (hP : Placed c h) (hp : p ∈ c.queue .scheduled) (body : Body) :
    Placed (c.renumberHead p body) h := by
  unfold Core.renumberHead
  refine hP.nextPackno.update fun L hL hfit hs => ?_
  rw [locs_congr (nextPackno_queue c)] at hL
  have hL : L = some .scheduled := hP.uniq p L (some .scheduled) hL hp
  subst hL
  have hd : (c.nextPackno.pkts p).data := nextPackno_pkts c ▸ (hP.sched hp).2.1
  exact ⟨hfit, hs.of_data hd rfl hs.probe hd.1 rfl⟩

theorem Placed.requeue (hP : Placed c (p :: h)) (hd : (c.pkts p).data) (body : Body) :
    Placed ((c.nextPackno.upd p
      ({ · with packno := c.nextPackno.curPackno, body := body })).schedAppend p) h := by
  have hU : Placed (c.nextPackno.upd p
      ({ · with packno := c.nextPackno.curPackno, body := body })) (p :: h) :=
    hP.nextPackno.touch rfl rfl rfl rfl rfl fun hs =>
      hs.of_data (nextPackno_pkts c ▸ hd) rfl hs.probe (nextPackno_pkts c ▸ hd.1) rfl
  apply hU.schedAppend
  simp only [upd_self, nextPackno_pkts]
  exact hd

theorem Placed.killSched (hP : Placed c h) (hp : p ∈ c.queue .scheduled) :
    Placed ((c.renumberToRight p).schedRemove p) h := by
  refine (hP.renumberToRight.schedRemove ?_).unhand
  rw [renumberToRight_queue]
  exact hp

end

/-- Every move leaves the packets in their places. -/
theorem Move.placed (hm : Move m g g') (hP : Placed g.core g.hand) :
    Placed g'.core g'.hand := by
  cases hm with
  | resize hp hd => exact hP.resized hd _
  | congest => exact hP.congr rfl rfl rfl
  | declare => exact hP.congr rfl rfl rfl
  | setGap => exact hP.congr rfl rfl rfl
  | scrub hq hh => exact Placed.scrub hP hq hh
  | shuffle hh => exact hP.perm hh
  | fresh _ hpk =>
    apply (hP.alloc _).hold hP.off_next (Nat.lt_succ_self _)
    · rw [alloc_pkts_next]
      exact ⟨hpk.data.2, fun _ => by simp only [Pkt.flags, hpk.flags]⟩
    · rw [alloc_pkts_next]
      exact ⟨fun he => absurd (hpk.data.1.symm.trans he) (by simp),
        fun he => absurd (hpk.data.2.symm.trans he) (by simp), hpk.turn.1 ▸ Nat.zero_le _,
        fun _ => hpk.turn.1, fun _ => hpk.feedback⟩
  | takeSched hp => exact hP.schedRemove hp
  | takeLost _ hp => exact hP.lostRemove hp
  | takeBuffered hp => exact (hP.unbuffer hp).congr rfl rfl rfl
  | splitBuffered _ hp => exact (hP.unbuffer hp).congr rfl rfl rfl
  | takeUnacked hp hd => exact hP.unackedRemove hp hd
  | lose _ hp hd => exact hP.lose hp hd
  | ackData hp hd => exact hP.ackData hp hd _
  | ackRecord hp hr => exact hP.ackRecord hp hr _
  | reportLoss hp hr => exact hP.reportLoss hr 1 _
  | toLost hd hr he => exact hP.toLost hd hr he
  | newTurn _ hd hr hu =>
    apply (hP.lostAppend hd hr).newTurn
    · rw [lostAppend_self]
      exact hu
    · rw [lostAppend_self]
      exact hd
  | duplicate _ hd hr => exact (hP.lostAppend hd hr).duplicate
  | toStash _ hd hr => exact hP.shelve hd hr (.inl rfl) (List.append_nil _).symm
  | toBuffered hd hr hc he => exact (hP.shelve hd hr (.inr ⟨_, rfl⟩) he).congr rfl rfl rfl
  | enqueue _ _ hd hr hu => exact hP.enqueue hd hu
  | renumberHead _ hp => exact hP.renumberHead (hp ▸ List.mem_cons_self) _
  | sendHead _ hp hr => exact hP.sendHead (hp ▸ List.mem_cons_self) hr _ _
  | dropPoison hp hd => exact hP.leave
  | elideTwice => exact hP.congr rfl rfl rfl
  | rewind => exact hP.congr rfl rfl rfl
  | requeue _ hd => exact hP.requeue hd _
  | doom => exact hP
  | undoom => exact hP
  | release => exact hP.unhand.ackIf _
  | killRecord => exact hP.recRemove
  | killUnacked hp hd => exact (hP.unackedRemove hp hd).unhand.congr rfl rfl rfl
  | killLost hp => exact hP.leave.ackIf _
  | killStashed => exact hP.congr rfl rfl rfl
  | purgeRecord => exact hP.leave
  | purgeBuffered => exact hP.leave
  | killSched _ hp => exact (hP.killSched hp).ackIf _
  | reset => exact Placed.markAll (hP.congr rfl rfl rfl) fun p hp => hp

section
variable {c : Core} {p : PktId}

section
variable (c : Core)

theorem senhistAdd_log (n : Int) : (c.senhistAdd n).log = c.log := by
  unfold Core.senhistAdd
  split <;> rfl

theorem nextPackno_log : c.nextPackno.log = c.log := by
  unfold Core.nextPackno
  split <;> rfl

theorem withPoison_log (packno : Int) (sz : Nat) : (c.withPoison packno sz).log = c.log := by
  unfold Core.withPoison
  split
  · exact senhistAdd_log c _
  · rfl

theorem sendHead_log (p : PktId) (body : Body) (poisonSz : Nat) :
    (c.sendHead p body poisonSz).log = .sent p (c.pkts p).packno :: c.log :=
  ((senhistAdd_log _ _).trans (withPoison_log _ _ _)).trans rfl

theorem recordLoss_log (p : PktId) : (c.recordLoss p).log = c.log := by
  unfold Core.recordLoss
  simp only
  split <;> rfl

theorem recRemove_log (n : Pns) (p : PktId) : (c.recRemove n p).log = c.log := by
  unfold Core.recRemove
  split <;> rfl

theorem renumberToRight_log (p : PktId) : (c.renumberToRight p).log = c.log := by
  unfold Core.renumberToRight
  split <;> rfl

theorem replicaFeedback_log (p : PktId) (ok : Bool) :
    (c.replicaFeedback p ok).log = if (c.pkts p).fakeLossRec = 1
      then (c.recordFeedback p 0 ok).log else c.log := by
  unfold Core.replicaFeedback
  split <;> rfl

theorem ackIf_log (p : PktId) (ack : Bool) :
    (c.ackIf p ack).log = if ack then .ackStreams p :: c.log else c.log := by
  unfold Core.ackIf
  split <;> rfl

theorem enqueue_log (p : PktId) (body : Body) (mtu : Bool) : (c.enqueue p body mtu).log = c.log :=
  nextPackno_log c

end

end

/-- The log only grows. -/
theorem Move.log (hm : Move m g g') : g.core.log <:+ g'.core.log := by
  cases hm with
  | lose =>
    simp only [Core.unackedRemove, Core.charge, Core.upd, Core.remove, Core.setQueue,
      recordLoss_log]
    exact List.suffix_refl _
  | ackData =>
    simp only [Core.unackedRemove, Core.charge, Core.upd, Core.remove, Core.setQueue,
      replicaFeedback_log]
    split
    · exact List.suffix_append _ _
    · exact List.suffix_refl _
  | ackRecord =>
    simp only [recRemove_log, replicaFeedback_log]
    split
    · exact List.suffix_append _ _
    · exact List.suffix_refl _
  | reportLoss => exact List.suffix_append _ _
  | enqueue =>
    simp only [enqueue_log]
    exact List.suffix_refl _
  | renumberHead =>
    simp only [Core.renumberHead, Core.upd, nextPackno_log]
    exact List.suffix_refl _
  | sendHead =>
    simp only [sendHead_log]
    exact List.suffix_cons _ _
  | requeue =>
    simp only [Core.schedAppend, Core.append, Core.setQueue, Core.upd, nextPackno_log]
    exact List.suffix_refl _
  | release =>
    simp only [ackIf_log]
    split
    · exact List.suffix_cons _ _
    · exact List.suffix_refl _
  | killRecord =>
    simp only [recRemove_log]
    exact List.suffix_refl _
  | killLost =>
    simp only [ackIf_log]
    split
    · exact List.suffix_cons _ _
    · exact List.suffix_refl _
  | killSched =>
    simp only [ackIf_log, Core.schedRemove, Core.remove, Core.setQueue, Core.upd,
      renumberToRight_log]
    split
    · exact List.suffix_cons _ _
    · exact List.suffix_refl _
  | _ => first | exact List.suffix_refl _ | exact List.suffix_cons _ _

theorem Moves.log (hM : Moves m g g') : g.core.log <:+ g'.core.log := by
  induction hM with
  | refl => exact List.suffix_refl _
  | snoc _ hm ih => exact ih.trans hm.log

end QuicArt
