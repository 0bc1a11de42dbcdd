import Mathlib.Algebra.Order.Ring.Int
import Mathlib.Algebra.Order.Ring.Nat
import Mathlib.Data.List.Basic

namespace QuicArt

/-- A finite table with a default value for the keys it does not hold. -/
structure Table (κ β : Type) where
  entries : List (κ × β)
  deriving DecidableEq, Repr

namespace Table

section
variable {κ β : Type} [DecidableEq κ]

def find (k : κ) (d : β) : List (κ × β) → β
  | [] => d
  | (k', v) :: l => if k' = k then v else find k d l

def put (k : κ) (v : β) : List (κ × β) → List (κ × β)
  | [] => [(k, v)]
  | (k', w) :: l => if k' = k then (k, v) :: l else (k', w) :: put k v l

def get [Inhabited β] (t : Table κ β) (k : κ) : β := find k default t.entries

def set (t : Table κ β) (k : κ) (v : β) : Table κ β := ⟨put k v t.entries⟩

def modify [Inhabited β] (t : Table κ β) (k : κ) (f : β → β) : Table κ β :=
  t.set k (f (t.get k))

instance : EmptyCollection (Table κ β) := ⟨⟨[]⟩⟩

theorem find_put (l : List (κ × β)) (k k' : κ) (v d : β) :
    find k' d (put k v l) = if k' = k then v else find k' d l := by
  induction l with
  | nil =>
    simp only [put, find, eq_comm]
  | cons e l ih =>
    obtain ⟨k₀, w⟩ := e
    simp only [put]
    by_cases h : k₀ = k
    · subst h
      by_cases h' : k₀ = k'
      · simp only [↓reduceIte, find, if_pos h', if_pos h'.symm]
      · simp only [↓reduceIte, find, if_neg h', if_neg (Ne.symm h')]
    · simp only [if_neg h, find, ih]
      by_cases h' : k₀ = k'
      · subst h'
        simp only [↓reduceIte, if_neg h]
      · simp only [if_neg h']

theorem get_set [Inhabited β] (t : Table κ β) (k k' : κ) (v : β) :
    (t.set k v).get k' = if k' = k then v else t.get k' :=
  find_put t.entries k k' v default

@[simp] theorem get_set_self [Inhabited β] (t : Table κ β) (k : κ) (v : β) :
    (t.set k v).get k = v := by
  rw [get_set, if_pos rfl]

theorem get_modify [Inhabited β] (t : Table κ β) (k k' : κ) (f : β → β) :
    (t.modify k f).get k' = if k' = k then f (t.get k') else t.get k' := by
  rw [modify, get_set]
  by_cases h : k' = k
  · rw [if_pos h, if_pos h, h]
  · rw [if_neg h, if_neg h]

end

end Table

end QuicArt
