import Mathlib.Algebra.Order.Ring.Int
import Mathlib.Algebra.Order.Ring.Nat
import Mathlib.Data.List.Nodup
import Mathlib.Tactic.Tauto

namespace QuicArt

section
variable {α : Type u} [DecidableEq α] {a x y : α} {l pre suf : List α}

def after (a : α) : List α → List α
  | [] => []
  | b :: l => if b = a then l else after a l

def nextOf (a : α) (l : List α) : Option α := (after a l).head?

def insertBefore (a x : α) : List α → List α
  | [] => []
  | b :: l => if b = a then x :: b :: l else b :: insertBefore a x l

theorem after_split (h : a ∉ pre) : after a (pre ++ a :: suf) = suf := by
  induction pre with
  | nil => simp only [List.nil_append, after, ↓reduceIte]
  | cons b pre ih =>
    simp only [List.mem_cons, not_or] at h
    simp only [List.cons_append, after, if_neg (Ne.symm h.1), ih h.2]

theorem nextOf_split (h : a ∉ pre) : nextOf a (pre ++ a :: suf) = suf.head? := by
  rw [nextOf, after_split h]

theorem insertBefore_split (h : a ∉ pre) :
    insertBefore a x (pre ++ a :: suf) = pre ++ x :: a :: suf := by
  induction pre with
  | nil => simp only [List.nil_append, insertBefore, ↓reduceIte]
  | cons b pre ih =>
    simp only [List.mem_cons, not_or] at h
    simp only [List.cons_append, insertBefore, if_neg (Ne.symm h.1), ih h.2]

theorem erase_split (h : a ∉ pre) : (pre ++ a :: suf).erase a = pre ++ suf := by
  rw [List.erase_append_right _ h, List.erase_cons_head]

theorem mem_insertBefore (h : a ∈ l) : y ∈ insertBefore a x l ↔ y = x ∨ y ∈ l := by
  obtain ⟨pre, suf, he, hn⟩ := List.eq_append_cons_of_mem h
  subst he
  rw [insertBefore_split hn]
  simp only [List.mem_append, List.mem_cons]
  tauto

omit [DecidableEq α] in
theorem takeWhile_congr {f g : α → Bool} (h : ∀ a ∈ l, f a = g a) :
    l.takeWhile f = l.takeWhile g := by
  induction l with
  | nil => rfl
  | cons b l ih =>
    rw [List.takeWhile_cons, List.takeWhile_cons, h b (.head _),
      ih fun a ha => h a (.tail _ ha)]

theorem after_sublist (a : α) (l : List α) : (after a l).Sublist l := by
  induction l with
  | nil => exact List.Sublist.refl _
  | cons b l ih =>
    simp only [after]
    split
    · exact List.sublist_cons_self b l
    · exact ih.cons b

theorem mem_after_of_sublist {Q : List α} (h : (a :: l).Sublist Q) (hn : Q.Nodup) (hx : x ∈ l) :
    x ∈ after a Q := by
  obtain ⟨pre, suf, hQ, hp⟩ := List.eq_append_cons_of_mem (h.subset (.head _))
  subst hQ
  rw [after_split hp]
  have hl : (a :: l).Sublist (a :: suf) := by
    obtain ⟨l₁, l₂, he, h₁, h₂⟩ := List.sublist_append_iff.1 h
    cases l₁ with
    | nil => rwa [he]
    | cons b l₁ =>
      have hb : b = a := (List.cons.inj he).1.symm
      exact absurd (h₁.subset (.head _)) (hb ▸ hp)
  exact (List.cons_sublist_cons.1 hl).subset hx

theorem mem_of_nextOf (h : nextOf a l = some x) (hl : l.Nodup) : x ∈ l ∧ x ≠ a := by
  have hx : x ∈ l := (after_sublist a l).subset (List.mem_of_head? h)
  refine ⟨hx, ?_⟩
  rintro rfl
  obtain ⟨pre, suf, he, hn⟩ := List.eq_append_cons_of_mem hx
  subst he
  rw [nextOf_split hn] at h
  have hs := List.mem_of_head? h
  exact (List.nodup_cons.1 (List.nodup_append.1 hl).2.1).1 hs

omit [DecidableEq α] in
theorem Nodup.suffix_eq {l' : List α} (h : a :: l <:+ a :: l') (hn : (a :: l').Nodup) :
    a :: l = a :: l' := by
  rcases List.suffix_cons_iff.1 h with he | hs
  · exact he
  · exact absurd (hs.subset (.head _)) (List.nodup_cons.1 hn).1

/-- `rest` is what a loop with the cursor `next` has in front of it on the queue `l`. -/
structure Cursor (l : List α) (next : Option α) (rest : List α) : Prop where
  head : next = rest.head?
  suffix : rest <:+ l

omit [DecidableEq α] in
theorem Cursor.mem (h : Cursor l (some a) rest) : a ∈ l := by
  have hm : a ∈ rest := List.mem_of_head? h.head.symm
  exact h.suffix.subset hm

theorem Cursor.of_not_mem (h : Cursor l next rest) (ha : a ∉ l) :
    next ≠ some a ∧ rest.erase a = rest := by
  refine ⟨?_, List.erase_of_not_mem fun hm => ha (h.suffix.subset hm)⟩
  intro he
  exact ha (he ▸ h).mem

omit [DecidableEq α] in
theorem Cursor.unique {rest' : List α} (h : Cursor l next rest) (h' : Cursor l next rest')
    (hn : l.Nodup) : rest = rest' := by
  have hhead : rest.head? = rest'.head? := h.head.symm.trans h'.head
  cases rest with
  | nil => exact (List.head?_eq_none_iff.1 hhead.symm).symm
  | cons a rest =>
    cases rest' with
    | nil => cases hhead
    | cons b rest' =>
      cases hhead
      rcases List.suffix_or_suffix_of_suffix h.suffix h'.suffix with hs | hs
      · exact Nodup.suffix_eq hs (hn.sublist h'.suffix.sublist)
      · exact (Nodup.suffix_eq hs (hn.sublist h.suffix.sublist)).symm

/-- A cursor on an element that is removed moves on to the next one. -/
theorem Cursor.erase (h : Cursor l next rest) (hn : l.Nodup) :
    Cursor (l.erase a) (if next = some a then nextOf a l else next) (rest.erase a) := by
  obtain ⟨pre, hl⟩ := h.suffix
  subst hl
  by_cases ha : a ∈ pre
  · have har : a ∉ rest := fun hm => (List.nodup_append.1 hn).2.2 a ha a hm rfl
    have hne : next ≠ some a := by
      intro he
      rw [h.head] at he
      exact har (List.mem_of_head? he)
    rw [if_neg hne, List.erase_append_left _ ha, List.erase_of_not_mem har]
    exact ⟨h.head, List.suffix_append _ _⟩
  · rw [List.erase_append_right _ ha]
    refine ⟨?_, List.suffix_append _ _⟩
    rw [h.head]
    cases rest with
    | nil => rfl
    | cons b rest =>
      by_cases he : b = a
      · subst he
        rw [List.head?_cons, if_pos rfl, nextOf_split ha, List.erase_cons_head]
      · have hne : some b ≠ some a := fun hs => he (Option.some.inj hs)
        rw [List.head?_cons, if_neg hne, List.erase_cons_tail (by simpa using he), List.head?_cons]

theorem Cursor.erase_of_not_mem (h : Cursor l next rest) (ha : a ∉ rest) :
    Cursor (l.erase a) next rest := by
  obtain ⟨pre, hl⟩ := h.suffix
  subst hl
  refine ⟨h.head, ?_⟩
  by_cases hp : a ∈ pre
  · rw [List.erase_append_left _ hp]
    exact List.suffix_append _ _
  · rw [List.erase_append_right _ hp, List.erase_of_not_mem ha]
    exact List.suffix_append _ _

theorem Cursor.insertBefore (h : Cursor l next rest) (ha : a ∈ l) (har : a ∉ rest) :
    Cursor (insertBefore a x l) next rest := by
  obtain ⟨pre, hl⟩ := h.suffix
  subst hl
  have hp : a ∈ pre := (List.mem_append.1 ha).resolve_right har
  obtain ⟨pre₁, pre₂, he, hn⟩ := List.eq_append_cons_of_mem hp
  subst he
  refine ⟨h.head, ?_⟩
  rw [List.append_assoc, List.cons_append, insertBefore_split hn]
  exact ⟨pre₁ ++ x :: a :: pre₂, by simp⟩

theorem Cursor.next (h : a :: rest <:+ l) (hn : l.Nodup) :
    Cursor l (nextOf a l) rest ∧ a ∈ l ∧ a ∉ rest := by
  obtain ⟨pre, hl⟩ := h
  subst hl
  obtain ⟨-, hr, hd⟩ := List.nodup_append.1 hn
  have hp : a ∉ pre := fun hm => hd a hm a (.head _) rfl
  refine ⟨⟨nextOf_split hp, ?_⟩, by simp, (List.nodup_cons.1 hr).1⟩
  exact ⟨pre ++ [a], by simp⟩

end

end QuicArt
