import QuicArt.NocopyDataIn

namespace QuicArt

def DataFrame.Has (df : DataFrame) (x : Nat) : Prop := df.offset ≤ x ∧ x < df.endOff

theorem DataFrame.offset_le (df : DataFrame) : df.offset ≤ df.endOff := Nat.le_add_right _ _

namespace NocopyDataIn

def Before (f g : StreamFrame) : Prop := f.df.endOff ≤ g.df.offset

/-- In order, without overlaps, none read to its end, and only the one at the read offset in part.
-/
structure Ordered (n : NocopyDataIn) (r : Nat) : Prop where
  sorted : n.frames.Pairwise Before
  readOff_le : ∀ f ∈ n.frames, f.df.readOff ≤ f.df.size
  unread : ∀ f ∈ n.frames, r ≤ f.df.offset + f.df.readOff
  reading : ∀ f ∈ n.frames, f.df.readOff = 0 ∨ f.df.offset + f.df.readOff = r

def Has (n : NocopyDataIn) (x : Nat) : Prop := ∃ f ∈ n.frames, f.df.Has x

inductive Tried (n : NocopyDataIn) (f : StreamFrame) (r : Nat) : NocopyDataIn → InsFrame → Prop
  | err : Tried n f r n .err
  | overlap : Tried n f r n .overlap
  | dup (hd : ∀ x, r ≤ x → f.df.Has x → n.Has x) : Tried n f r n .dup
  | ok (hs : n.frames = pre ++ post) (hpre : ∀ g ∈ pre, Before g f) (hpost : ∀ g ∈ post, Before f g)
    (hr : r ≤ f.df.offset) (hb : before = pre.reverse) :
    Tried n f r (n.place f before post) .ok

inductive Inserted (n : NocopyDataIn) (f : StreamFrame) (r : Nat) (n' : NocopyDataIn) :
    InsFrame → Prop
  | same (he : n' = n) (hne : ins ≠ .ok)
      (hd : ins = .dup → ∀ x, r ≤ x → f.df.Has x → n.Has x) : Inserted n f r n' ins
  | ok (hs : n.frames = pre ++ post) (hpre : ∀ g ∈ pre, Before g f) (hpost : ∀ g ∈ post, Before f g)
      (hr : r ≤ f.df.offset) (he : n'.frames = pre ++ f :: post)
      (hfin : n'.finSet = (n.finSet || f.df.fin))
      (hoff : n'.finOff = if f.df.fin then f.df.endOff else n.finOff) : Inserted n f r n' .ok

section
variable {n : NocopyDataIn} {f : StreamFrame} {r : Nat} {before after pre post : List StreamFrame}

theorem Ordered.le_endOff (h : n.Ordered r) (hf : f ∈ n.frames) : r ≤ f.df.endOff := by
  have hu := h.unread f hf
  have hr := h.readOff_le f hf
  rw [DataFrame.endOff]
  omega

theorem seekBack_spec (offset : Nat) (before after : List StreamFrame) (count : Nat) :
    ∃ pre post, (seekBack offset before after count).1 = pre ∧
      (seekBack offset before after count).2.1 = post ∧
      pre.reverse ++ post = before.reverse ++ after ∧
      (∀ p, pre.head? = some p → p.df.offset ≤ offset) := by
  induction before generalizing after count with
  | nil => exact ⟨[], after, rfl, rfl, rfl, fun p hp => absurd hp (by simp)⟩
  | cons f before ih =>
    rw [seekBack]
    split
    next hlt =>
      obtain ⟨pre, post, hpre, hpost, heq, hhead⟩ := ih (f :: after) (count + 1)
      refine ⟨pre, post, hpre, hpost, ?_, hhead⟩
      rw [heq, List.reverse_cons, List.append_assoc, List.singleton_append]
    next hge =>
      refine ⟨_, _, rfl, rfl, rfl, fun p hp => ?_⟩
      rw [List.head?_cons, Option.some.injEq] at hp
      subst hp
      exact Nat.le_of_not_lt hge

theorem checkNext_ok {new next : DataFrame} (h : checkNext new next r = .ok) :
    new.endOff ≤ next.offset ∧ r ≤ new.offset := by
  rw [checkNext] at h
  split at h
  · cases h
  · split at h
    · cases h
    · omega

theorem checkNext_cases (new next : DataFrame) (r : Nat) :
    checkNext new next r = .ok ∨ checkNext new next r = .overlap := by
  rw [checkNext]
  split
  · exact .inr rfl
  · split
    · exact .inr rfl
    · exact .inl rfl

def Fits (new : DataFrame) (r : Nat) (prev next : Option StreamFrame) : InsFrame → Prop
  | .ok => (∀ p, prev = some p → p.df.endOff ≤ new.offset) ∧
      (∀ x, next = some x → new.endOff ≤ x.df.offset) ∧ (prev = none → r ≤ new.offset)
  | .dup => new.endOff = r ∨ ∃ p, prev = some p ∧ p.df.offset = new.offset ∧ p.df.size = new.size
  | .err => False
  | .overlap => True

theorem fits_next {next : StreamFrame} (new : DataFrame) (r : Nat) (prev : Option StreamFrame)
    (hp : ∀ p, prev = some p → p.df.endOff ≤ new.offset) :
    Fits new r prev (some next) (checkNext new next.df r) := by
  rcases checkNext_cases new next.df r with he | he
  · obtain ⟨hle, hr⟩ := checkNext_ok he
    rw [he]
    refine ⟨hp, fun x hx => ?_, fun _ => hr⟩
    cases hx
    exact hle
  · rw [he]
    trivial

theorem checkNeighbors_fits (n : NocopyDataIn) (new : DataFrame) (r : Nat)
    (prev next : Option StreamFrame) :
    Fits new r prev next (n.checkNeighbors new r prev next) := by
  cases prev with
  | none =>
    cases next with
    | some next => exact fits_next new r none (fun p hp => absurd hp (by simp))
    | none =>
      simp only [checkNeighbors]
      split
      next hend =>
        split
        · split
          · trivial
          · exact .inl hend.symm
        next hsize =>
          split
          · exact .inl hend.symm
          · have hle : r ≤ new.offset := by
              rw [DataFrame.endOff] at hend
              omega
            exact ⟨fun p hp => absurd hp (by simp), fun x hx => absurd hx (by simp), fun _ => hle⟩
      next hend =>
        split
        · trivial
        next hlt =>
          exact ⟨fun p hp => absurd hp (by simp), fun x hx => absurd hx (by simp),
            fun _ => Nat.le_of_not_lt hlt⟩
  | some prev =>
    simp only [checkNeighbors]
    split
    next hsame =>
      split
      · trivial
      · exact .inr ⟨prev, rfl, hsame⟩
    · split
      · trivial
      next hlt =>
        have hp : ∀ p, some prev = some p → p.df.endOff ≤ new.offset := by
          intro p hp
          cases hp
          exact Nat.le_of_not_lt hlt
        cases next with
        | none => exact ⟨hp, fun x hx => absurd hx (by simp), nofun⟩
        | some next => exact fits_next new r _ hp

theorem before_of_head (hs : (pre.reverse ++ post).Pairwise Before) (hp : pre.head? = some p)
    (hle : p.df.endOff ≤ e) : ∀ g ∈ pre.reverse, g.df.endOff ≤ e := by
  cases pre with
  | nil => cases hp
  | cons q pre =>
    rw [List.head?_cons, Option.some.injEq] at hp
    subst hp
    intro g hg
    rw [List.reverse_cons] at hg hs
    rcases List.mem_append.1 hg with hg | hg
    · have hb := (List.pairwise_append.1 (List.pairwise_append.1 hs).1).2.2 g hg q (by simp)
      have ho := q.df.offset_le
      rw [Before] at hb
      omega
    · rw [List.mem_singleton.1 hg]
      exact hle

theorem after_of_head (hs : (pre ++ post).Pairwise Before) (hx : post.head? = some x)
    (hle : e ≤ x.df.offset) : ∀ g ∈ post, e ≤ g.df.offset := by
  cases post with
  | nil => cases hx
  | cons q post =>
    rw [List.head?_cons, Option.some.injEq] at hx
    subst hx
    intro g hg
    rcases List.mem_cons.1 hg with rfl | hg
    · exact hle
    · have hb := (List.pairwise_cons.1 (List.pairwise_append.1 hs).2.1).1 g hg
      have ho := q.df.offset_le
      rw [Before] at hb
      omega

theorem checkOffsets_dup (h : n.checkOffsets f.df r = some .dup) : f.df.endOff ≤ r := by
  rw [checkOffsets] at h
  split at h
  · omega
  · split at h
    · split at h
      · cases h
      · split at h
        · cases h
        · split at h
          · omega
          · cases h
    · split at h
      next hd => omega
      · cases h

theorem checkOffsets_ne (h : n.checkOffsets f.df r = some ins) : ins = .err ∨ ins = .dup := by
  rw [checkOffsets] at h
  split at h
  · cases h
    split
    · exact .inl rfl
    · exact .inr rfl
  · split at h
    · split at h
      · exact .inl (Option.some.inj h).symm
      · split at h
        · exact .inl (Option.some.inj h).symm
        · split at h
          · exact .inr (Option.some.inj h).symm
          · cases h
    · split at h
      · exact .inr (Option.some.inj h).symm
      · cases h

theorem tryInsert_spec (h : n.Ordered r) (f : StreamFrame) :
    Tried n f r (n.tryInsert f r).1 (n.tryInsert f r).2.1 := by
  rw [tryInsert]
  cases hc : n.checkOffsets f.df r with
  | some ins =>
    rcases checkOffsets_ne hc with rfl | rfl
    · exact .err
    · refine .dup fun x hx hf => ?_
      have hle := checkOffsets_dup hc
      rw [DataFrame.Has] at hf
      omega
  | none =>
    obtain ⟨pre, post, hpre, hpost, heq, hhead⟩ := seekBack_spec f.df.offset n.frames.reverse [] 0
    rw [List.reverse_reverse, List.append_nil] at heq
    simp only [hpre, hpost]
    have hfit := checkNeighbors_fits n f.df r pre.head? post.head?
    have hs := h.sorted
    rw [← heq] at hs
    generalize n.checkNeighbors f.df r pre.head? post.head? = ins at hfit
    cases ins with
    | err => cases hfit
    | overlap => exact .overlap
    | dup =>
      refine .dup fun x hx hf => ?_
      rcases hfit with hend | ⟨p, hp, hoff, hsize⟩
      · rw [DataFrame.Has] at hf
        omega
      · refine ⟨p, ?_, ?_⟩
        · rw [← heq, List.mem_append, List.mem_reverse]
          exact .inl (List.mem_of_mem_head? hp)
        · rw [DataFrame.Has, DataFrame.endOff, hoff, hsize]
          exact hf
    | ok =>
      obtain ⟨hp, hx, hr⟩ := hfit
      refine .ok heq.symm (fun g hg => ?_) (fun g hg => ?_) ?_ (List.reverse_reverse pre).symm
      · cases hq : pre.head? with
        | none =>
          rw [List.head?_eq_none_iff] at hq
          rw [hq] at hg
          cases hg
        | some q => exact before_of_head hs hq (hp q hq) g hg
      · cases hq : post.head? with
        | none =>
          rw [List.head?_eq_none_iff] at hq
          rw [hq] at hg
          cases hg
        | some q => exact after_of_head hs hq (hx q hq) g hg
      · cases hq : pre.head? with
        | none => exact hr hq
        | some q =>
          have hm : q ∈ n.frames := by
            rw [← heq, List.mem_append, List.mem_reverse]
            exact .inl (List.mem_of_mem_head? hq)
          exact Nat.le_trans (h.le_endOff hm) (hp q hq)

theorem checkEfficiency_same (n : NocopyDataIn) (count : Nat) :
    (n.checkEfficiency count).1.frames = n.frames ∧ (n.checkEfficiency count).1.finSet = n.finSet ∧
      (n.checkEfficiency count).1.finOff = n.finOff := by
  simp only [checkEfficiency, apply_ite Prod.fst, apply_ite NocopyDataIn.frames,
    apply_ite NocopyDataIn.finSet, apply_ite NocopyDataIn.finOff, ite_self, and_self]

theorem insertFrame_inserted (h : n.Ordered r) (f : StreamFrame) :
    Inserted n f r (n.insertFrame f r).1 (n.insertFrame f r).2 := by
  have ht := tryInsert_spec h f
  rw [insertFrame]
  generalize n.tryInsert f r = res at ht
  obtain ⟨n₁, ins, count⟩ := res
  cases ins with
  | ok =>
    obtain ⟨hf, hfin, hoff⟩ := checkEfficiency_same n₁ count
    simp only
    generalize n₁.checkEfficiency count = e at hf hfin hoff
    obtain ⟨n₂, b⟩ := e
    cases ht with
    | ok hs hpre hpost hr hb =>
      rename_i pre post before
      have he : before.reverse ++ f :: post = pre ++ f :: post := by rw [hb, List.reverse_reverse]
      cases b with
      | true => exact .ok hs hpre hpost hr (hf.trans he) hfin hoff
      | false => exact .ok hs hpre hpost hr (hf.trans he) hfin hoff
  | err =>
    cases ht
    exact .same rfl (by simp) nofun
  | overlap =>
    cases ht
    exact .same rfl (by simp) nofun
  | dup =>
    cases ht with
    | dup hd => exact .same rfl (by simp) fun _ => hd

theorem Inserted.mem {g : StreamFrame} (h : Inserted n f r n' ins) (hg : g ∈ n'.frames) :
    g ∈ n.frames ∨ g = f := by
  cases h with
  | same he => exact .inl (he ▸ hg)
  | ok hs hpre hpost hr he =>
    rw [he, List.perm_middle.mem_iff, ← hs, List.mem_cons] at hg
    exact hg.symm

theorem insertFrame_snd (n : NocopyDataIn) (f : StreamFrame) (r : Nat) :
    (n.insertFrame f r).2 = (n.tryInsert f r).2.1 := by
  rw [insertFrame]
  generalize n.tryInsert f r = res
  obtain ⟨n', ins, count⟩ := res
  cases ins with
  | ok =>
    simp only
    split <;> rfl
  | err => rfl
  | dup => rfl
  | overlap => rfl

theorem insertFrame_same (n : NocopyDataIn) (f : StreamFrame) (r : Nat)
    (hne : (n.insertFrame f r).2 ≠ .ok) : (n.insertFrame f r).1 = n := by
  have ht : (n.tryInsert f r).2.1 ≠ .ok → (n.tryInsert f r).1 = n := by
    rw [tryInsert]
    repeat' split
    all_goals simp
  rw [insertFrame_snd] at hne
  replace ht := ht hne
  rw [insertFrame]
  generalize n.tryInsert f r = res at ht hne
  obtain ⟨n', ins, count⟩ := res
  cases ins with
  | ok => exact absurd rfl hne
  | err => exact ht
  | dup => exact ht
  | overlap => exact ht

theorem Ordered.place {m : NocopyDataIn} (h : n.Ordered r) (hs : n.frames = pre ++ post)
    (hpre : ∀ g ∈ pre, Before g f) (hpost : ∀ g ∈ post, Before f g) (hr : r ≤ f.df.offset)
    (h0 : f.df.readOff = 0) (hm : m.frames = pre ++ f :: post) : m.Ordered r := by
  have hmem : ∀ g ∈ m.frames, g = f ∨ g ∈ n.frames := by
    intro g hg
    rw [hm, List.mem_append, List.mem_cons] at hg
    rw [hs, List.mem_append]
    tauto
  have hsort := h.sorted
  rw [hs] at hsort
  obtain ⟨h1, h2, h3⟩ := List.pairwise_append.1 hsort
  refine ⟨?_, fun g hg => ?_, fun g hg => ?_, fun g hg => ?_⟩
  · rw [hm, List.pairwise_append]
    refine ⟨h1, List.pairwise_cons.2 ⟨hpost, h2⟩, fun a ha c hc => ?_⟩
    rcases List.mem_cons.1 hc with rfl | hc
    · exact hpre a ha
    · exact h3 a ha c hc
  · rcases hmem g hg with rfl | hg
    · omega
    · exact h.readOff_le g hg
  · rcases hmem g hg with rfl | hg
    · omega
    · exact h.unread g hg
  · rcases hmem g hg with rfl | hg
    · exact .inl h0
    · exact h.reading g hg

theorem Ordered.read {m : NocopyDataIn} (h : n.Ordered r) (hf : n.frames = f :: fs)
    (hr : f.df.offset + f.df.readOff = r) (hk : f.df.readOff + k ≤ f.df.size)
    (hm : m.frames = { f with df := { f.df with readOff := f.df.readOff + k } } :: fs) :
    m.Ordered (r + k) := by
  have hs := h.sorted
  rw [hf, List.pairwise_cons] at hs
  -- the other frames start where the first one ends, or after it
  have hrest : ∀ g ∈ fs, r + k ≤ g.df.offset ∧ g.df.readOff = 0 := by
    intro g hg
    have hb : f.df.offset + f.df.size ≤ g.df.offset := hs.1 g hg
    refine ⟨by omega, ?_⟩
    rcases h.reading g (by rw [hf]; exact .tail _ hg) with h0 | h0
    · exact h0
    · omega
  have hmem : ∀ g ∈ m.frames,
      g = { f with df := { f.df with readOff := f.df.readOff + k } } ∨ g ∈ fs := by
    intro g hg
    rw [hm] at hg
    exact List.mem_cons.1 hg
  refine ⟨?_, fun g hg => ?_, fun g hg => ?_, fun g hg => ?_⟩
  · rw [hm, List.pairwise_cons]
    exact ⟨fun g hg => hs.1 g hg, hs.2⟩
  · rcases hmem g hg with rfl | hg
    · exact hk
    · have h0 := (hrest g hg).2
      omega
  · rcases hmem g hg with rfl | hg
    · dsimp only
      omega
    · have h0 := hrest g hg
      omega
  · rcases hmem g hg with rfl | hg
    · refine .inr ?_
      dsimp only
      omega
    · exact .inl (hrest g hg).2

theorem Ordered.tail {m : NocopyDataIn} (h : n.Ordered r) (hf : n.frames = f :: m.frames) :
    m.Ordered r := by
  have hsub : ∀ g ∈ m.frames, g ∈ n.frames := by
    intro g hg
    rw [hf]
    exact .tail _ hg
  have hs := h.sorted
  rw [hf, List.pairwise_cons] at hs
  exact ⟨hs.2, fun g hg => h.readOff_le g (hsub g hg), fun g hg => h.unread g (hsub g hg),
    fun g hg => h.reading g (hsub g hg)⟩

end

end NocopyDataIn

end QuicArt
