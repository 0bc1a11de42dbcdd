import Mathlib.Algebra.Order.Ring.Int
import Mathlib.Algebra.Order.Ring.Nat
import Mathlib.Logic.Equiv.Basic
import Mathlib.Order.Defs.LinearOrder

namespace QuicArt

/-! Binary heaps in an array: the array is a function of which the first `n` values count. -/

def heapParent (i : Nat) : Nat := (i - 1) / 2

def heapLevel (i : Nat) : Nat := Nat.log2 (i + 1)

theorem heapParent_lt (h : 0 < i) : heapParent i < i := by
  unfold heapParent
  omega

theorem heapParent_eq_iff (h : 0 < j) : heapParent j = i ↔ j = 2 * i + 1 ∨ j = 2 * i + 2 := by
  unfold heapParent
  omega

theorem heapLevel_parent (h : 0 < i) : heapLevel (heapParent i) + 1 = heapLevel i := by
  have hp : (heapParent i + 1) = (i + 1) / 2 := by
    unfold heapParent
    omega
  rw [heapLevel, heapLevel, hp]
  conv => rhs; rw [Nat.log2_def]
  rw [if_pos (by omega)]

theorem heapLevel_le_iff : l ≤ heapLevel i ↔ 2 ^ l ≤ i + 1 := Nat.le_log2 (by omega)

theorem heapLevel_lt_iff : heapLevel i < l ↔ i + 1 < 2 ^ l := Nat.log2_lt (by omega)

section
variable {α : Type} [LinearOrder α] {t : Nat → α} {n i : Nat}

def HeapOrdered (n : Nat) (t : Nat → α) : Prop :=
  ∀ j, 0 < j → j < n → t (heapParent j) ≤ t j

/-- The heap is ordered, but the value at `i` may belong further up. -/
structure RisesAt (n : Nat) (t : Nat → α) (i : Nat) : Prop where
  order : ∀ j, 0 < j → j < n → j ≠ i → t (heapParent j) ≤ t j
  grand : 0 < i → ∀ j, 0 < j → j < n → heapParent j = i → t (heapParent i) ≤ t j

/-- The heap is ordered, but the value at `i` may belong further down. -/
structure SinksAt (n : Nat) (t : Nat → α) (i : Nat) : Prop where
  order : ∀ j, 0 < j → j < n → heapParent j ≠ i → t (heapParent j) ≤ t j
  grand : 0 < i → ∀ j, 0 < j → j < n → heapParent j = i → t (heapParent i) ≤ t j

theorem RisesAt.done (h : RisesAt n t i) (hi : 0 < i → t (heapParent i) ≤ t i) :
    HeapOrdered n t := by
  intro j hj hlt
  by_cases he : j = i
  · subst he
    exact hi hj
  · exact h.order j hj hlt he

theorem SinksAt.done (h : SinksAt n t i)
    (hi : ∀ j, 0 < j → j < n → heapParent j = i → t i ≤ t j) : HeapOrdered n t := by
  intro j hj hlt
  by_cases he : heapParent j = i
  · rw [he]
    exact hi j hj hlt he
  · exact h.order j hj hlt he

/-- Swapped with its parent, the element is out of place one level up. -/
theorem RisesAt.swap (h : RisesAt n t i) (hi : 0 < i) (hlt : i < n)
    (hle : t i ≤ t (heapParent i)) :
    RisesAt n (t ∘ Equiv.swap i (heapParent i)) (heapParent i) := by
  have hpi := heapParent_lt hi
  constructor
  · intro j hj hjn hne
    simp only [Function.comp]
    by_cases hji : j = i
    · subst hji
      rw [Equiv.swap_apply_right, Equiv.swap_apply_left]
      exact hle
    · rw [Equiv.swap_apply_of_ne_of_ne hji hne]
      by_cases hpj : heapParent j = i
      · rw [hpj, Equiv.swap_apply_left]
        exact h.grand hi j hj hjn hpj
      · by_cases hpp : heapParent j = heapParent i
        · rw [hpp, Equiv.swap_apply_right]
          have hord := h.order j hj hjn hji
          rw [hpp] at hord
          exact le_trans hle hord
        · rw [Equiv.swap_apply_of_ne_of_ne hpj hpp]
          exact h.order j hj hjn hji
  · intro hp j hj hjn hpj
    have hpp := heapParent_lt hp
    have hup := h.order (heapParent i) hp (by omega) (by omega)
    simp only [Function.comp]
    rw [Equiv.swap_apply_of_ne_of_ne (by omega) (by omega)]
    by_cases hji : j = i
    · subst hji
      rw [Equiv.swap_apply_left]
      exact hup
    · have hjp : j ≠ heapParent i := by
        have := heapParent_lt hj
        omega
      rw [Equiv.swap_apply_of_ne_of_ne hji hjp]
      have hord := h.order j hj hjn hji
      rw [hpj] at hord
      exact le_trans hup hord

/-- Swapped with its smallest child, the element is out of place one level down. -/
theorem SinksAt.swap (h : SinksAt n t i) (hc : 0 < c) (hcn : c < n) (hpc : heapParent c = i)
    (hmin : ∀ j, 0 < j → j < n → heapParent j = i → t c ≤ t j) (hle : t c ≤ t i) :
    SinksAt n (t ∘ Equiv.swap c i) c := by
  have hci := heapParent_lt hc
  constructor
  · intro j hj hjn hne
    simp only [Function.comp]
    by_cases hjc : j = c
    · subst hjc
      rw [hpc, Equiv.swap_apply_right, Equiv.swap_apply_left]
      exact hle
    · by_cases hji : j = i
      · subst hji
        have hpj := heapParent_lt hj
        rw [Equiv.swap_apply_right, Equiv.swap_apply_of_ne_of_ne (by omega) (by omega)]
        exact h.grand hj c hc hcn hpc
      · rw [Equiv.swap_apply_of_ne_of_ne hjc hji]
        by_cases hpj : heapParent j = i
        · rw [hpj, Equiv.swap_apply_right]
          exact hmin j hj hjn hpj
        · rw [Equiv.swap_apply_of_ne_of_ne hne hpj]
          exact h.order j hj hjn hpj
  · intro _ j hj hjn hpj
    have hcj := heapParent_lt hj
    simp only [Function.comp]
    rw [hpc, Equiv.swap_apply_right, Equiv.swap_apply_of_ne_of_ne (by omega) (by omega)]
    have hord := h.order j hj hjn (by omega)
    rwa [hpj] at hord

theorem HeapOrdered.ancestor (h : HeapOrdered n t) (hi : i < n) (hl : l ≤ heapLevel i) :
    ∃ j, j ≤ i ∧ heapLevel j = l ∧ t j ≤ t i := by
  induction i using Nat.strongRecOn with
  | ind i ih =>
    by_cases he : l = heapLevel i
    · exact ⟨i, le_rfl, he.symm, le_refl _⟩
    · have hpos : 0 < i := by
        rcases Nat.eq_zero_or_pos i with rfl | hpos
        · have hz : heapLevel 0 = 0 := rfl
          omega
        · exact hpos
      have hp := heapParent_lt hpos
      have hlev := heapLevel_parent hpos
      obtain ⟨j, hj, hlj, hle⟩ := ih (heapParent i) hp (by omega) (by omega)
      exact ⟨j, by omega, hlj, le_trans hle (h i hpos hi)⟩

end

end QuicArt
