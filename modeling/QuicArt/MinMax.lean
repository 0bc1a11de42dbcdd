import Mathlib.Data.List.Induction

namespace QuicArt

structure MinmaxSample where
  time : Nat
  value : Nat
deriving DecidableEq

structure Minmax where
  window : Nat
  s0 : MinmaxSample
  s1 : MinmaxSample
  s2 : MinmaxSample

namespace Minmax

def reset (m : Minmax) (sample : MinmaxSample) : Minmax :=
  { m with s0 := sample, s1 := sample, s2 := sample }

def init (window : Nat) : Minmax := ⟨window, ⟨0, 0⟩, ⟨0, 0⟩, ⟨0, 0⟩⟩

def shift (m : Minmax) (sample : MinmaxSample) : Minmax :=
  { m with s0 := m.s1, s1 := m.s2, s2 := sample }

/-- As time advances, update the 1st, 2nd, and 3rd choices. -/
def subwinUpdate (m : Minmax) (sample : MinmaxSample) : Minmax :=
  if m.window < sample.time - m.s0.time then
    if m.window < sample.time - (m.shift sample).s0.time then (m.shift sample).shift sample
    else m.shift sample
  else if m.s1.time = m.s0.time ∧ m.window / 4 < sample.time - m.s0.time then
    { m with s1 := sample, s2 := sample }
  else if m.s2.time = m.s1.time ∧ m.window / 2 < sample.time - m.s0.time then
    { m with s2 := sample }
  else m

section
variable (ge : Nat → Nat → Prop)

/-- A measurement that is at least as extreme as a choice takes its place. -/
def update [DecidableRel ge] (m : Minmax) (sample : MinmaxSample) : Minmax :=
  if m.s0.value = 0 ∨ ge sample.value m.s0.value ∨ m.window < sample.time - m.s2.time then
    m.reset sample
  else if ge sample.value m.s1.value then
    { m with s1 := sample, s2 := sample }.subwinUpdate sample
  else if ge sample.value m.s2.value then { m with s2 := sample }.subwinUpdate sample
  else m.subwinUpdate sample

/-- A measurement really made, at least as extreme as every one made after it. -/
def Choice (log : List MinmaxSample) (s : MinmaxSample) : Prop :=
  ∃ before after, log = before ++ s :: after ∧ ∀ x ∈ after, ge s.value x.value

structure Choices (log : List MinmaxSample) (now : Nat) (m : Minmax) : Prop where
  choice : Choice ge log m.s0 ∧ Choice ge log m.s1 ∧ Choice ge log m.s2
  times : m.s0.time ≤ m.s1.time ∧ m.s1.time ≤ m.s2.time ∧ m.s2.time ≤ now
  values : ge m.s0.value m.s1.value ∧ ge m.s1.value m.s2.value

/-- The reported choice is also not older than the window. -/
def Reports (w : Nat) (log : List MinmaxSample) (now : Nat) (m : Minmax) : Prop :=
  Choices ge log now m ∧ now ≤ m.s0.time + w

end

def updateMax : Minmax → MinmaxSample → Minmax := update (· ≥ ·)

def updateMin : Minmax → MinmaxSample → Minmax := update (· ≤ ·)

section
variable {ge : Nat → Nat → Prop} (total : ∀ a b, ge a b ∨ ge b a)
  (trans : ∀ a b c, ge a b → ge b c → ge a c) {m : Minmax} {x : MinmaxSample}

theorem Choice.mem (h : Choice ge log s) : s ∈ log := by
  obtain ⟨before, after, rfl, -⟩ := h
  simp

theorem Choice.append (h : Choice ge log s) (hx : ge s.value x.value) :
    Choice ge (log ++ [x]) s := by
  obtain ⟨before, after, rfl, h⟩ := h
  exact ⟨before, after ++ [x], by simp, List.forall_mem_append.2 ⟨h, by simpa using hx⟩⟩

theorem Choice.latest : Choice ge (log ++ [x]) x := ⟨log, [], rfl, by simp⟩

include total trans in
theorem Choices.subwinUpdate (h : Choices ge log x.time m) (hx : Choice ge log x)
    (hv : ge m.s2.value x.value) (hr : x.time ≤ m.s2.time + m.window) :
    Choices ge log x.time (m.subwinUpdate x) ∧
      x.time ≤ (m.subwinUpdate x).s0.time + m.window := by
  obtain ⟨⟨c0, c1, c2⟩, ht, hval⟩ := h
  have hxx := (total x.value x.value).elim id id
  have h1 := trans _ _ _ hval.2 hv
  have h0 := trans _ _ _ hval.1 h1
  have t1 := Nat.le_trans ht.2.1 ht.2.2
  have t0 := Nat.le_trans ht.1 t1
  unfold Minmax.subwinUpdate
  split
  · split
    · exact ⟨⟨⟨c2, hx, hx⟩, ⟨ht.2.2, Nat.le_refl _, Nat.le_refl _⟩, hv, hxx⟩, hr⟩
    next hw =>
      have hw : x.time ≤ m.s1.time + m.window := by
        simp only [shift] at hw
        omega
      exact ⟨⟨⟨c1, c2, hx⟩, ⟨ht.2.1, ht.2.2, Nat.le_refl _⟩, hval.2, hv⟩, hw⟩
  next hw =>
    have hw : x.time ≤ m.s0.time + m.window := by omega
    split
    · exact ⟨⟨⟨c0, hx, hx⟩, ⟨t0, Nat.le_refl _, Nat.le_refl _⟩, h0, hxx⟩, hw⟩
    · split
      · exact ⟨⟨⟨c0, c1, hx⟩, ⟨ht.1, t1, Nat.le_refl _⟩, hval.1, h1⟩, hw⟩
      · exact ⟨⟨⟨c0, c1, c2⟩, ht, hval⟩, hw⟩

variable [DecidableRel ge]

include total trans in
theorem Choices.update (h : Choices ge log now m)
    (hx : ∀ y ∈ log, y.time ≤ x.time) : Choices ge (log ++ [x]) x.time (m.update ge x) ∧
      x.time ≤ (m.update ge x).s0.time + m.window := by
  have hc : Choice ge (log ++ [x]) x := .latest
  have hxx := (total x.value x.value).elim id id
  obtain ⟨⟨c0, c1, c2⟩, ht, hval⟩ := h
  unfold Minmax.update
  split
  · exact ⟨⟨⟨hc, hc, hc⟩, ⟨Nat.le_refl _, Nat.le_refl _, Nat.le_refl _⟩, hxx, hxx⟩,
      Nat.le_add_right ..⟩
  next hn =>
    obtain ⟨-, hn0, hn2⟩ := not_or.1 hn |>.imp id not_or.1
    have h0 : ge m.s0.value x.value := (total _ _).resolve_right hn0
    have t1 := hx _ c1.mem
    split
    · exact Choices.subwinUpdate total trans ⟨⟨c0.append h0, hc, hc⟩,
        ⟨hx _ c0.mem, Nat.le_refl _, Nat.le_refl _⟩, h0, hxx⟩ hc hxx (Nat.le_add_right ..)
    next h1 =>
      have h1 : ge m.s1.value x.value := (total _ _).resolve_right h1
      split
      · exact Choices.subwinUpdate total trans ⟨⟨c0.append h0, c1.append h1, hc⟩,
          ⟨ht.1, t1, Nat.le_refl _⟩, hval.1, h1⟩ hc hxx (Nat.le_add_right ..)
      next h2 =>
        have h2 : ge m.s2.value x.value := (total _ _).resolve_right h2
        exact Choices.subwinUpdate total trans ⟨⟨c0.append h0, c1.append h1, c2.append h2⟩,
          ⟨ht.1, ht.2.1, hx _ c2.mem⟩, hval⟩ hc h2 (by omega)

theorem update_window : (m.update ge x).window = m.window := by
  unfold Minmax.update subwinUpdate
  split_ifs <;> rfl

theorem foldl_window (log : List MinmaxSample) (m : Minmax) :
    (log.foldl (update ge) m).window = m.window := by
  induction log generalizing m with
  | nil => rfl
  | cons y log ih => exact (ih _).trans update_window

include total trans in
theorem foldl_reports (ht : (log ++ [x]).Pairwise fun a b => a.time ≤ b.time) :
    Reports ge w (log ++ [x]) x.time ((log ++ [x]).foldl (update ge) (init w)) := by
  rw [List.foldl_append]
  induction log using List.reverseRecOn generalizing x with
  | nil =>
    have hxx := (total x.value x.value).elim id id
    have hc : Choice ge [x] x := @Choice.latest ge x []
    exact ⟨⟨⟨hc, hc, hc⟩, ⟨Nat.le_refl _, Nat.le_refl _, Nat.le_refl _⟩, hxx, hxx⟩,
      Nat.le_add_right ..⟩
  | append_singleton log y ih =>
    obtain ⟨ht, -, hx⟩ := List.pairwise_append.1 ht
    rw [List.foldl_append]
    obtain ⟨hc, hage⟩ := (ih ht).1.update total trans fun z hz => hx z hz x (by simp)
    rw [foldl_window, foldl_window] at hage
    exact ⟨hc, hage⟩

end

/-- After every sequence of measurements, none before the one before it, for both filters. -/
theorem minmax_reports (w : Nat) (log : List MinmaxSample) (x : MinmaxSample)
    (ht : (log ++ [x]).Pairwise fun a b => a.time ≤ b.time) :
    Reports (· ≥ ·) w (log ++ [x]) x.time ((log ++ [x]).foldl updateMax (init w)) ∧
      Reports (· ≤ ·) w (log ++ [x]) x.time ((log ++ [x]).foldl updateMin (init w)) :=
  ⟨foldl_reports (fun a b => Nat.le_total b a) (fun _ _ _ h h' => Nat.le_trans h' h) ht,
    foldl_reports Nat.le_total (fun _ _ _ => Nat.le_trans) ht⟩

theorem minmax_reports_three : Reports (· ≥ ·) 10 [⟨1, 5⟩, ⟨2, 3⟩, ⟨2, 4⟩] 2
    ([⟨1, 5⟩, ⟨2, 3⟩, ⟨2, 4⟩].foldl updateMax (init 10)) :=
  (minmax_reports 10 [⟨1, 5⟩, ⟨2, 3⟩] ⟨2, 4⟩ (by decide)).1

/-- Of two measurements at one time the smaller, made second, is reported later on. -/
theorem updateMax_forgets : ∃ log : List MinmaxSample, (∀ y ∈ log, y.value ≠ 0) ∧
    (log.Pairwise fun a b => a.time ≤ b.time) ∧
    ∃ y ∈ log, (log.foldl updateMax (init 100)).s0.time ≤ y.time ∧
      (log.foldl updateMax (init 100)).s0.value < y.value :=
  ⟨[⟨1, 100⟩, ⟨31, 50⟩, ⟨102, 40⟩, ⟨102, 10⟩, ⟨132, 5⟩], by decide, by decide, by decide⟩

end Minmax
end QuicArt
