import Mathlib.Data.List.Basic

namespace QuicArt

/-- A loop over a tail queue that its body may edit; the body returns the state and the cursor. -/
def scan (more : σ → α → Bool) (body : σ → α → σ × Option α) : Nat → σ → Option α → σ
  | 0, s, _ => s
  | _ + 1, s, none => s
  | n + 1, s, some a =>
    if more s a then scan more body n (body s a).1 (body s a).2 else s

/-- The loop rule: `I s l` says that `l` is still in front of the cursor, which the body may
shorten. -/
theorem scan_rule (more : σ → α → Bool) (body : σ → α → σ × Option α)
    (I : σ → List α → Prop)
    (step : ∀ s a l, I s (a :: l) → more s a = true →
      ∃ l', (body s a).2 = l'.head? ∧ l'.length ≤ l.length ∧ I (body s a).1 l')
    (h : I s l) (hn : l.length ≤ n) :
    ∃ l', I (scan more body n s l.head?) l' ∧
      ∀ a ∈ l'.head?, more (scan more body n s l.head?) a = false := by
  induction n generalizing s l with
  | zero =>
    have hl : l = [] := List.eq_nil_of_length_eq_zero (Nat.le_zero.1 hn)
    subst hl
    exact ⟨[], h, by simp⟩
  | succ n ih =>
    cases l with
    | nil => exact ⟨[], h, by simp⟩
    | cons a l =>
      simp only [List.head?_cons, scan]
      by_cases hm : more s a = true
      · obtain ⟨l', hc, hlen, hI⟩ := step s a l h hm
        simp only [hm, ↓reduceIte, hc]
        exact ih hI (by simp only [List.length_cons] at hn; omega)
      · rw [if_neg hm]
        exact ⟨a :: l, h, by simpa using hm⟩

/-- The loop rule for an invariant that says only where the cursor is. -/
theorem scan_invariant (more : σ → α → Bool) (body : σ → α → σ × Option α)
    (I : σ → Option α → Prop)
    (step : ∀ s a, I s (some a) → more s a = true → I (body s a).1 (body s a).2)
    (h : I s next) (n : Nat) : ∃ next', I (scan more body n s next) next' := by
  induction n generalizing s next with
  | zero => exact ⟨next, h⟩
  | succ n ih =>
    cases next with
    | none => exact ⟨none, h⟩
    | some a =>
      simp only [scan]
      split
      next hm => exact ih (step s a h hm)
      · exact ⟨some a, h⟩

theorem scan_map {more : σ → α → Bool} {body : σ → α → σ × Option α} {more' : τ → α → Bool}
    {body' : τ → α → τ × Option α} (f : τ → σ) (hmore : ∀ t a, more' t a = more (f t) a)
    (hbody : ∀ t a, (f (body' t a).1, (body' t a).2) = body (f t) a) (n : Nat) (t : τ)
    (next : Option α) : f (scan more' body' n t next) = scan more body n (f t) next := by
  induction n generalizing t next with
  | zero => rfl
  | succ n ih =>
    cases next with
    | none => rfl
    | some a =>
      simp only [scan, hmore]
      split
      · rw [ih, ← hbody]
      · rfl

end QuicArt
