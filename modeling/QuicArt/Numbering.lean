import QuicArt.Reach

namespace QuicArt

/-- A packet that still has its number follows only packets that have theirs, and smaller ones. -/
def Place.before (e e' : Place) : Prop :=
  e'.marked = false → e.marked = false ∧ e.packno < e'.packno

/-- The numbers on `l` are in order and not used yet; `cur` was given out last, `last` sent last. -/
structure Numbered (l : List Place) (cur last gap : Int) (sent : List Int) : Prop where
  order : l.Pairwise Place.before
  range : ∀ e ∈ l, e.marked = false → last < e.packno ∧ e.packno ≤ cur ∧ e.packno ≠ gap
  last_le : last ≤ cur
  last_ne : last ≠ gap
  sent_le : ∀ k ∈ sent, k ≤ last
  increasing : sent.Pairwise (· > ·)

def Num (c : Core) : Prop := Numbered c.line c.curPackno c.lastSent c.gap (sentNumbers c.log)

section
variable {c c' : Core} {m : Kind → Prop} {env : Env} {s : SendCtl} {gap : Int}

theorem marked_of_before (h : (e :: l).Pairwise Place.before) (he : e.marked = true) :
    ∀ e' ∈ l, e'.marked = true := by
  intro e' hm
  cases hk : e'.marked with
  | true => rfl
  | false => cases ((List.pairwise_cons.1 h).1 e' hm hk).1.symm.trans he

theorem marked_of_markRun (h : l.Pairwise Place.before) : ∀ e ∈ markRun l, e.marked = true := by
  intro e he
  rcases List.mem_append.1 he with he | he
  · obtain ⟨a, -, rfl⟩ := List.mem_map.1 he
    rfl
  · have hD := h.sublist (List.dropWhile_sublist fun e => !e.marked)
    cases hd : l.dropWhile fun e => !e.marked with
    | nil =>
      rw [hd] at he
      exact absurd he List.not_mem_nil
    | cons a l' =>
      have ha : a.marked = true := by
        have hn := List.head?_dropWhile_not (fun e : Place => !e.marked) l
        rw [hd] at hn
        simpa using hn
      rw [hd] at he hD
      rcases List.mem_cons.1 he with rfl | he
      · exact ha
      · exact marked_of_before hD ha e he

theorem pairwise_append_marked {l l' : List Place} (h : l.Pairwise Place.before)
    (hm : ∀ e ∈ l', e.marked = true) : (l ++ l').Pairwise Place.before := by
  have hmark : ∀ e, ∀ e' ∈ l', Place.before e e' := fun e e' he' hk =>
    absurd ((hm e' he').symm.trans hk) (by simp)
  refine List.pairwise_append.2 ⟨h, ?_, fun e _ => hmark e⟩
  exact List.pairwise_of_forall_mem_list fun e _ => hmark e

theorem Numbered.setGap (hN : Numbered l cur last gap sent) (hg : cur < gap') :
    Numbered l cur last gap' sent := by
  refine { hN with range := fun e he hk => ?_, last_ne := ?_ }
  · obtain ⟨h₁, h₂, -⟩ := hN.range e he hk
    omega
  · have := hN.last_le
    omega

theorem Numbered.sublist (hN : Numbered l cur last gap sent) (hl : List.Sublist l' l) :
    Numbered l' cur last gap sent :=
  { hN with order := hN.order.sublist hl, range := fun e he => hN.range e (hl.subset he) }

theorem Numbered.enter (hN : Numbered l cur last gap sent) (hm : ∀ e ∈ l, e.marked = false)
    (hk : cur < k) (hg : k ≠ gap) : Numbered (l ++ [⟨p, k, false⟩]) k last gap sent := by
  have hle := hN.last_le
  refine ⟨List.pairwise_append.2 ⟨hN.order, List.pairwise_singleton .., ?_⟩,
    ?_, by omega, hN.last_ne,
    hN.sent_le, hN.increasing⟩
  · intro e he e' he' _
    rw [List.mem_singleton.1 he']
    have hr := (hN.range e he (hm e he)).2.1
    exact ⟨hm e he, by show e.packno < k; omega⟩
  · intro e he hu
    rcases List.mem_append.1 he with he | he
    · obtain ⟨h₁, h₂, h₃⟩ := hN.range e he hu
      exact ⟨h₁, by omega, h₃⟩
    · rw [List.mem_singleton.1 he]
      exact ⟨by show last < k; omega, Int.le_refl k, hg⟩

theorem Numbered.renumber (hN : Numbered (⟨p, k, true⟩ :: l) cur last gap sent) (hk : cur < k')
    (hg : k' ≠ gap) : Numbered (⟨p, k', false⟩ :: l) k' last gap sent := by
  have hle := hN.last_le
  have hm := marked_of_before hN.order rfl
  have hmark : ∀ e' ∈ l, e'.marked ≠ false := fun e' he' hu =>
    absurd ((hm e' he').symm.trans hu) (by simp)
  refine ⟨List.pairwise_cons.2 ⟨fun e' he' hu => absurd hu (hmark e' he'),
    (List.pairwise_cons.1 hN.order).2⟩, ?_, by omega, hN.last_ne, hN.sent_le, hN.increasing⟩
  intro e he hu
  rcases List.mem_cons.1 he with rfl | he
  · exact ⟨by show last < k'; omega, Int.le_refl k', hg⟩
  · exact absurd hu (hmark e he)

theorem Numbered.send (hN : Numbered (⟨p, k, false⟩ :: l) cur last gap sent) :
    Numbered l cur (max last k) gap (k :: sent) := by
  obtain ⟨h₁, h₂, h₃⟩ := hN.range _ (.head _) rfl
  have hlt : last < k := h₁
  have hmax : max last k = k := Int.max_eq_right (Int.le_of_lt hlt)
  obtain ⟨hhead, hl⟩ := List.pairwise_cons.1 hN.order
  rw [hmax]
  refine ⟨hl, fun e he hu => ?_, h₂, h₃, ?_, List.pairwise_cons.2 ⟨?_, hN.increasing⟩⟩
  · obtain ⟨-, h₅, h₆⟩ := hN.range e (.tail _ he) hu
    exact ⟨(hhead e he hu).2, h₅, h₆⟩
  · intro k' hk'
    rcases List.mem_cons.1 hk' with rfl | hk'
    · exact Int.le_refl _
    · exact Int.le_trans (hN.sent_le k' hk') (Int.le_of_lt hlt)
  · intro k' hk'
    exact Int.lt_of_le_of_lt (hN.sent_le k' hk') hlt

theorem Numbered.cut (hN : Numbered (pre ++ ⟨p, k, false⟩ :: suf) cur last gap sent) :
    Numbered (pre ++ markRun suf) (k - 1) last gap sent := by
  obtain ⟨hpre, hsuf, hcross⟩ := List.pairwise_append.1 hN.order
  have hm := marked_of_markRun (List.pairwise_cons.1 hsuf).2
  obtain ⟨h₁, -, -⟩ := hN.range ⟨p, k, false⟩ (List.mem_append_right _ (.head _)) rfl
  have hlt : last < k := h₁
  refine ⟨pairwise_append_marked hpre hm, ?_, by omega, hN.last_ne, hN.sent_le, hN.increasing⟩
  intro e he hu
  rcases List.mem_append.1 he with he | he
  · obtain ⟨h₂, -, h₄⟩ := hN.range e (List.mem_append_left _ he) hu
    have hlt' : e.packno < k := (hcross e he _ (.head _) rfl).2
    exact ⟨h₂, by omega, h₄⟩
  · cases (hm e he).symm.trans hu

theorem Numbered.reset (hN : Numbered l cur last gap sent) :
    Numbered (l.map Place.mark) last last gap sent := by
  have hm : ∀ e ∈ l.map Place.mark, e.marked = true := by
    intro e he
    obtain ⟨a, -, rfl⟩ := List.mem_map.1 he
    rfl
  refine ⟨?_, fun e he hu => absurd ((hm e he).symm.trans hu) (by simp), Int.le_refl _, hN.last_ne,
    hN.sent_le, hN.increasing⟩
  exact pairwise_append_marked (l := []) .nil hm

theorem num_of_counters (hl : c'.line = l) (hc : c'.counters = (cur, last, sent))
    (hg : c'.gap = gap) (hN : Numbered l cur last gap sent) : Num c' := by
  simp only [Core.counters, Prod.mk.injEq] at hc
  rw [Num, hl, hc.1, hc.2.1, hc.2.2, hg]
  exact hN

/-- Appending behind marked packets, or resizing them, can break the order. -/
theorem LineStep.num (hL : LineStep m c c') (ht : ¬ m .tangle) (hr : ¬ m .resize) (hN : Num c) :
    Num c' := by
  cases hL with
  | idle hl hc hg => exact num_of_counters hl hc hg hN
  | setGap hl hc hg => exact num_of_counters hl hc rfl (hN.setGap hg)
  | @leave pre e suf he hl hc hg =>
    apply num_of_counters hl hc hg
    apply hN.sublist
    rw [he]
    exact (List.Sublist.refl pre).append (List.sublist_cons_self e suf)
  | enter _ hmk hk hn hl hc hg =>
    exact num_of_counters hl hc hg (hN.enter (hmk.resolve_right ht) hk hn)
  | renumber _ he hk hn hl hc hg =>
    rw [Num, he] at hN
    exact num_of_counters hl hc hg (hN.renumber hk hn)
  | send _ he hl hc hg =>
    rw [Num, he] at hN
    exact num_of_counters hl hc hg hN.send
  | cut _ he hl hc hg =>
    rw [Num, he] at hN
    exact num_of_counters hl hc hg hN.cut
  | reset _ hl hc hg => exact num_of_counters hl hc hg hN.reset
  | rebuild hm => exact absurd hm hr

theorem SendFails.increasing (hF : SendFails c c') (hN : Num c) :
    (sentNumbers c'.log).Pairwise (· > ·) := by
  cases hF with
  | @fails p l _ _ hp hr =>
    have he : c.line = ⟨p, (c.pkts p).packno, false⟩ ::
        l.map c.place := by
      simp only [Core.line, hp, List.map_cons, Core.place, hr]
    rw [Num, he] at hN
    rw [senhistAdd_log]
    exact hN.send.increasing

theorem num_init (env : Env) : Num ((SendCtl.init env).core env) := by
  refine ⟨.nil, fun e he => absurd he List.not_mem_nil, ?_, ?_,
    fun k hk => absurd hk List.not_mem_nil, .nil⟩
  · simp only [SendCtl.core, SendCtl.init]
    split <;> decide
  · simp only [SendCtl.core, SendCtl.init]
    split <;> decide

theorem Run.num (h : Run env (fun s op =>
      s.needs env op .tangle = false ∧ s.needs env op .resize = false) s) :
    (sentNumbers s.log).Pairwise (· > ·) ∧ (s.aborted = false → Num (s.core env)) := by
  refine h.live_invariant (I := Num) (J := fun c => (sentNumbers c.log).Pairwise (· > ·))
    (num_init env) ?_ (fun c hN => hN.increasing) (fun c c' hF _ hN => hF.increasing hN)
  intro s op g g' hp hm hS hN
  obtain ⟨c, hand, x⟩ := g
  obtain ⟨c', hand', x'⟩ := g'
  exact (hm.line_of hS.placed).num (by simp [hp.1]) (by simp [hp.2]) hN

/-- The numbers handed to `lsquic_send_ctl_sent_packet` increase. -/
theorem sentNumbers_increasing (h : Run env (fun s op =>
      s.needs env op .tangle = false ∧ s.needs env op .resize = false) s) :
    (sentNumbers s.log).Pairwise (· > ·) :=
  h.num.1

end

def challengeContent : Content :=
  { frameTypes := FrameType.pathChallenge.bit ||| FrameType.padding.bit
    frecs := [⟨.pathChallenge, 0, 0, 9⟩]
    dataSz := 1344
    regenSz := 9 }

theorem sentNumbers_of_renumbered : ∃ s, Run quietEnv (fun s op =>
      s.needs quietEnv op .tangle = false ∧ s.needs quietEnv op .resize = false) s ∧
    (sentNumbers s.log).length = 2 ∧ (sentNumbers s.log).Pairwise (· > ·) := by
  obtain ⟨s, hs, hl⟩ : ∃ s, Run quietEnv (fun s op =>
        s.needs quietEnv op .tangle = false ∧ s.needs quietEnv op .resize = false) s ∧
      (sentNumbers s.log).length = 2 := exists_run
    [.scheduleNew 0 .app 0 streamContent, .scheduleNew 0 .app 1 challengeContent,
      .scheduleNew 0 .app 0 streamContent, .cancelPathVerification 1, .send none 150 1000,
      .send none 150 1000]
    (by decide +kernel)
  exact ⟨s, hs, hl, sentNumbers_increasing hs⟩

/-- A packet behind a renumbered one keeps its number, which is given out once more. -/
theorem number_sent_twice : ∃ s, Reachable quietEnv s ∧ sentNumbers s.log = [1, 1, 0] :=
  exists_run
    [.scheduleNew 0 .app 2 challengeContent, .scheduleNew 0 .app 1 challengeContent,
      .scheduleNew 0 .app 0 streamContent, .scheduleNew 0 .app 0 streamContent,
      .cancelPathVerification 1, .scheduleNew 0 .app 0 streamContent, .cancelPathVerification 2,
      .send none 150 1000, .send none 150 1000, .send none 150 1000] (by decide +kernel)

/-- No packet is appended behind one that has lost its number, and none is resized. -/
abbrev SendCtl.orderly (env : Env) (s : SendCtl) (op : Op) : Prop :=
  s.needs env op .tangle = false ∧ s.needs env op .resize = false

/-- The numbers that packets wait with increase and have not been used. -/
theorem scheduled_numbers_fresh (h : Run env (SendCtl.orderly env) s) (ha : s.aborted = false) :
    (s.queue .scheduled).Pairwise (fun p p' => (s.pkt p').repackno = false →
      (s.pkt p).repackno = false ∧ (s.pkt p).packno < (s.pkt p').packno) ∧
    ∀ p ∈ s.queue .scheduled, (s.pkt p).repackno = false → (s.pkt p).packno ≠ s.gap ∧
      (s.pkt p).packno ≤ s.curPackno ∧ ∀ k ∈ sentNumbers s.log, k < (s.pkt p).packno := by
  have hN : Num (s.core env) := h.num.2 ha
  refine ⟨List.pairwise_map.1 hN.order, fun p hp hu => ?_⟩
  obtain ⟨hlast, hcur, hgap⟩ := hN.range _ (List.mem_map_of_mem hp) hu
  exact ⟨hgap, hcur, fun k hk => Int.lt_of_le_of_lt (hN.sent_le k hk) hlast⟩

theorem scheduled_numbers_fresh_second : ∃ s, Run quietEnv (SendCtl.orderly quietEnv) s ∧
    sentNumbers s.log = [0] ∧ 0 < (s.pkt 1).packno := by
  obtain ⟨s, hs, ha, hl, hq, hu⟩ : ∃ s, Run quietEnv (SendCtl.orderly quietEnv) s ∧
      s.aborted = false ∧ sentNumbers s.log = [0] ∧ s.queue .scheduled = [1] ∧
      (s.pkt 1).repackno = false := exists_run
    (sendNew streamContent ++ [.scheduleNew 0 .app 0 streamContent]) (by decide +kernel)
  have hw := (scheduled_numbers_fresh hs ha).2 1 (by simp [hq]) hu
  exact ⟨s, hs, hl, hw.2.2 0 (by simp [hl])⟩

end QuicArt
