import Mathlib.Algebra.Order.Ring.Int
import Mathlib.Algebra.Order.Ring.Nat
import Mathlib.Data.List.Pairwise
import Mathlib.Data.List.Sort
import Mathlib.Tactic.Tauto

namespace QuicArt

/-- The numbers from `low` to `high`. -/
structure Span where
  low : Nat
  high : Nat
  deriving DecidableEq, Repr, Inhabited

def Span.Has (r : Span) (x : Nat) : Prop := r.low ≤ x ∧ x ≤ r.high

instance (r : Span) (x : Nat) : Decidable (r.Has x) := inferInstanceAs (Decidable (_ ∧ _))

/-- The set of numbers that a list of ranges stands for. -/
def Covers (l : List Span) (x : Nat) : Prop := ∃ r ∈ l, r.Has x

instance (l : List Span) (x : Nat) : Decidable (Covers l x) :=
  inferInstanceAs (Decidable (∃ r ∈ l, r.Has x))

/-- Nonempty ranges, none of which touches a later one, from high to low. -/
structure Descending (l : List Span) : Prop where
  valid : ∀ r ∈ l, r.low ≤ r.high
  order : l.Pairwise fun r q => q.high < r.low

/-- The ranges are maximal: there is a number missing between any two. -/
structure Separated (l : List Span) : Prop where
  valid : ∀ r ∈ l, r.low ≤ r.high
  order : l.Pairwise fun r q => q.high + 1 < r.low

section
variable {l : List Span} {r q : Span} {x : Nat}

theorem covers_nil : ¬ Covers [] x := by simp [Covers]

theorem covers_cons : Covers (r :: l) x ↔ r.Has x ∨ Covers l x := by simp [Covers]

theorem Descending.tail (h : Descending (r :: l)) : Descending l :=
  ⟨fun q hq => h.valid q (.tail _ hq), (List.pairwise_cons.1 h.order).2⟩

theorem Descending.lt_head (h : Descending (r :: l)) (hq : q ∈ l) : q.high < r.low :=
  (List.pairwise_cons.1 h.order).1 q hq

theorem Descending.high_le_head (h : Descending (r :: l)) (hq : q ∈ r :: l) : q.high ≤ r.high := by
  rcases List.mem_cons.1 hq with rfl | hq
  · exact le_rfl
  · exact Nat.le_of_lt (Nat.lt_of_lt_of_le (h.lt_head hq) (h.valid r (.head _)))

theorem Separated.descending (h : Separated l) : Descending l :=
  ⟨h.valid, h.order.imp fun h => Nat.lt_of_succ_lt h⟩

end

end QuicArt
