import Mathlib.Data.List.Nodup
import Mathlib.Logic.Function.Basic
import Mathlib.Tactic.Tauto

namespace QuicArt

section
variable {α : Type u} {next next' : α → α} {a b x y : α} {l l' l₁ l₂ : List α}

/-- Following `next` from `a` passes through `l` and then arrives at `b`. -/
def Walk (next : α → α) (a : α) : List α → α → Prop
  | [], b => next a = b
  | x :: l, b => next a = x ∧ Walk next x l b

theorem Walk.append : Walk next a (l₁ ++ x :: l₂) b ↔ Walk next a l₁ x ∧ Walk next x l₂ b := by
  induction l₁ generalizing a with
  | nil => exact Iff.rfl
  | cons y l₁ ih => simp only [List.cons_append, Walk, ih, and_assoc]

theorem Walk.congr (h : Walk next a l b) (he : ∀ y ∈ a :: l, next' y = next y) :
    Walk next' a l b := by
  induction l generalizing a with
  | nil => exact (he a (.head _)).trans h
  | cons x l ih =>
    exact ⟨(he a (.head _)).trans h.1,
      ih h.2 fun y hy => he y (.tail _ hy)⟩

theorem Walk.unique (h : Walk next a l b) (h' : Walk next a l' b) (hb : b ∉ l) (hb' : b ∉ l') :
    l = l' := by
  induction l generalizing a l' with
  | nil =>
    cases l' with
    | nil => rfl
    | cons x l' =>
      have he : x = b := h'.1.symm.trans h
      exact absurd (he ▸ List.mem_cons_self) hb'
  | cons x l ih =>
    cases l' with
    | nil =>
      have he : x = b := h.1.symm.trans h'
      exact absurd (he ▸ List.mem_cons_self) hb
    | cons y l' =>
      obtain ⟨hx, hw⟩ := h
      obtain ⟨hy, hw'⟩ := h'
      subst hx
      subst hy
      rw [ih hw hw' (fun hm => hb (.tail _ hm))
        (fun hm => hb' (.tail _ hm))]

/-- A circular list: `next` leads from `a` through `l` back to `a`, with no repetition. -/
structure Ring (next : α → α) (a : α) (l : List α) : Prop where
  walk : Walk next a l a
  nodup : (a :: l).Nodup

theorem Ring.single (h : next a = a) : Ring next a [] :=
  ⟨h, List.nodup_singleton a⟩

theorem Ring.congr (h : Ring next a l) (he : ∀ y ∈ a :: l, next' y = next y) :
    Ring next' a l :=
  ⟨h.walk.congr he, h.nodup⟩

theorem Ring.unique (h : Ring next a l) (h' : Ring next a l') : l = l' :=
  h.walk.unique h'.walk (List.nodup_cons.1 h.nodup).1 (List.nodup_cons.1 h'.nodup).1

theorem Ring.rotate (h : Ring next a (l₁ ++ x :: l₂)) : Ring next x (l₂ ++ a :: l₁) := by
  obtain ⟨h₁, h₂⟩ := Walk.append.1 h.walk
  refine ⟨Walk.append.2 ⟨h₂, h₁⟩, ?_⟩
  have hp : List.Perm ((a :: l₁) ++ (x :: l₂)) ((x :: l₂) ++ (a :: l₁)) := List.perm_append_comm
  exact hp.nodup_iff.1 h.nodup

theorem Ring.mem_of_mem (h : Ring next a l) (hx : x ∈ l) (h' : Ring next x l') : a ∈ l' := by
  obtain ⟨l₁, l₂, he⟩ := List.append_of_mem hx
  subst he
  rw [h'.unique h.rotate]
  exact List.mem_append_right _ (.head _)

theorem Ring.mem_iff (h : Ring next a l) (h' : Ring next b l') (hb : b ∈ a :: l) :
    x ∈ b :: l' ↔ x ∈ a :: l := by
  rcases List.mem_cons.1 hb with rfl | hb
  · rw [h'.unique h]
  · obtain ⟨l₁, l₂, he⟩ := List.append_of_mem hb
    subst he
    rw [h'.unique h.rotate]
    simp only [List.mem_cons, List.mem_append]
    tauto

theorem Ring.insert [DecidableEq α] (h : Ring next a l) (hx : x ∉ a :: l) :
    Ring (Function.update (Function.update next x (next a)) a x) a (x :: l) := by
  have hxa : x ≠ a := fun he => hx (he ▸ List.mem_cons_self)
  have ha : a ∉ l := (List.nodup_cons.1 h.nodup).1
  refine ⟨⟨Function.update_self .., ?_⟩, ?_⟩
  · have hstart : Function.update (Function.update next x (next a)) a x x = next a := by
      rw [Function.update_of_ne hxa, Function.update_self]
    cases l with
    | nil => exact hstart.trans h.walk
    | cons y l =>
      refine ⟨hstart.trans h.walk.1, h.walk.2.congr fun z hz => ?_⟩
      have hza : z ≠ a := fun he => ha (he ▸ hz)
      have hzx : z ≠ x := fun he => hx (he ▸ List.mem_cons_of_mem _ hz)
      rw [Function.update_of_ne hza, Function.update_of_ne hzx]
  · have hp : List.Perm (x :: a :: l) (a :: x :: l) := List.Perm.swap a x l
    exact hp.nodup_iff.1 (List.nodup_cons.2 ⟨hx, h.nodup⟩)

end

end QuicArt
