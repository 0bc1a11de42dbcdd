import Mathlib.Algebra.Order.Field.Basic
import Mathlib.Order.Monotone.Basic
import QuicArt.ArtFeedback
import QuicArt.ArtTurns
import QuicArt.BufferedCount

namespace QuicArt

/-- `f` goes one step towards the numbers from `a` to `b`, and rests there. -/
structure Walks (f : Nat → Nat) (a b : Nat) : Prop where
  le : a ≤ b
  up : ∀ m, m < a → f m = m + 1
  down : ∀ m, b < m → f m = m - 1
  rest : ∀ m, a ≤ m → m ≤ b → f m = m

section
variable {f : Nat → Nat} {a b : Nat}

theorem Walks.iterate (h : Walks f a b) (m i : Nat) :
    f^[i] m = if m < a then min (m + i) a else if b < m then max (m - i) b else m := by
  induction i generalizing m with
  | zero =>
    have hle := h.le
    rw [Function.iterate_zero, id_eq]
    split
    · omega
    · split <;> omega
  | succ i ih =>
    have hle := h.le
    rw [Function.iterate_succ_apply]
    by_cases hup : m < a
    · rw [h.up m hup, ih, if_pos hup]
      split
      · omega
      · split <;> omega
    · by_cases hdown : b < m
      · rw [h.down m hdown, ih, if_neg hup, if_pos hdown]
        split
        · omega
        · split <;> omega
      · rw [h.rest m (by omega) (by omega), ih]
        simp only [if_neg hup, if_neg hdown]

theorem Walks.settles (h : Walks f a b) (m : Nat) :
    (∃ m' n, a ≤ m' ∧ m' ≤ b ∧ ∀ i, n ≤ i → f^[i] m = m') ∧
      (Monotone (fun i => f^[i] m) ∨ Antitone fun i => f^[i] m) := by
  have hle := h.le
  simp only [h.iterate]
  by_cases hup : m < a
  · simp only [if_pos hup]
    refine ⟨⟨a, a, le_rfl, hle, ?_⟩, .inl ?_⟩
    · intro i hi
      omega
    · intro i j hij
      simp only
      omega
  · by_cases hdown : b < m
    · simp only [if_neg hup, if_pos hdown]
      refine ⟨⟨b, m, hle, le_rfl, ?_⟩, .inr ?_⟩
      · intro i hi
        omega
      · intro i j hij
        simp only
        omega
    · simp only [if_neg hup, if_neg hdown]
      exact ⟨⟨m, 0, by omega, by omega, fun _ _ => rfl⟩, .inl monotone_const⟩

end

/-- `art_duplicate_number` on one entry, with `ones` losses among `size` samples. -/
def redundancy (ones size m : Nat) : Nat :=
  if m = 0 ∨ size * m < ones * m + size then m + 1
  else if ones * m + 2 * size ≤ size * m then m - 1
  else m

section
variable {ones size m : Nat}

theorem redundancy_walks (h : ones < size) :
    Walks (redundancy ones size) ((size + (size - ones) - 1) / (size - ones))
      ((2 * size - 1) / (size - ones)) := by
  have hd : 0 < size - ones := by omega
  have hmul : ∀ m, size * m = (size - ones) * m + ones * m := fun m => by
    rw [← Nat.add_mul, Nat.sub_add_cancel h.le]
  have hlow : ∀ m, m < (size + (size - ones) - 1) / (size - ones) ↔ (size - ones) * m < size := by
    intro m
    rw [Nat.lt_iff_add_one_le, Nat.le_div_iff_mul_le hd, Nat.add_mul, Nat.mul_comm m]
    omega
  have hhigh : ∀ m, (2 * size - 1) / (size - ones) < m ↔ 2 * size ≤ (size - ones) * m := by
    intro m
    rw [Nat.div_lt_iff_lt_mul hd, Nat.mul_comm m]
    omega
  refine ⟨Nat.div_le_div_right (by omega), ?_, ?_, ?_⟩
  · intro m hm
    have := hmul m
    rw [hlow] at hm
    rw [redundancy, if_pos (.inr (by omega))]
  · intro m hm
    have := hmul m
    rw [hhigh] at hm
    have hz : m ≠ 0 := by
      rintro rfl
      omega
    rw [redundancy, if_neg (by omega), if_pos (by omega)]
  · intro m hm hm'
    have := hmul m
    rw [← Nat.not_lt, hlow] at hm
    rw [← Nat.not_lt, hhigh] at hm'
    have hz : m ≠ 0 := by
      rintro rfl
      omega
    rw [redundancy, if_neg (by omega), if_neg (by omega)]

theorem one_le_redundancy (hs : 0 < size) (hm : 1 ≤ m) : 1 ≤ redundancy ones size m := by
  rw [redundancy]
  split
  · omega
  · split
    next hd =>
      have h : size * 2 ≤ size * m := by omega
      have := Nat.le_of_mul_le_mul_left h hs
      omega
    · exact hm

end

namespace SendCtl

/-- The losses and the size of the feedback window; an empty one counts as one delivery. -/
def samples (s : SendCtl) : Nat × Nat :=
  if s.feedbackWindowSize = 0 then (0, 1) else (s.feedbackWindow.count 1, s.feedbackWindowSize)

def lossRate (s : SendCtl) : ℚ := s.samples.1 / s.samples.2

def redundancyOf (s : SendCtl) (round : Nat) : Nat := s.roundsMap.getD round 0

def afterCalls (s : SendCtl) (round i : Nat) : SendCtl :=
  (fun s : SendCtl => (s.artDuplicateNumber round).1)^[i] s

section
variable {s : SendCtl} {round r : Nat}

theorem samples_pos (s : SendCtl) : 0 < s.samples.2 := by
  rw [samples]
  split
  · exact Nat.one_pos
  next h => exact Nat.pos_of_ne_zero h

theorem lossRate_lt_one (h : s.lossRate < 1) : s.samples.1 < s.samples.2 := by
  have hpos : (0 : ℚ) < s.samples.2 := Nat.cast_pos.2 s.samples_pos
  rw [lossRate, div_lt_one hpos] at h
  exact_mod_cast h

theorem getD_set_self {l : List Nat} {i v : Nat} (h : i < l.length) : (l.set i v).getD i 0 = v := by
  simp [List.getD_eq_getElem?_getD, h]

theorem getD_set_ne {l : List Nat} {i j v : Nat} (h : i ≠ j) :
    (l.set i v).getD j 0 = l.getD j 0 := by
  simp [List.getD_eq_getElem?_getD, List.getElem?_set_ne h]

/-- As long as the counter does not wrap around, the call does what exact arithmetic does. -/
theorem artDuplicateNumber_map (h : s.redundancyOf round + 1 < 2 ^ 32 ∨
      ¬ (s.redundancyOf round = 0 ∨ s.samples.2 * s.redundancyOf round <
        s.samples.1 * s.redundancyOf round + s.samples.2) ∧ s.redundancyOf round < 2 ^ 32) :
    (s.artDuplicateNumber round).1.roundsMap =
      s.roundsMap.set round (redundancy s.samples.1 s.samples.2 (s.redundancyOf round)) := by
  have hones : s.samples.1 = if s.feedbackWindowSize = 0 then 0 else s.feedbackWindow.count 1 := by
    rw [samples]
    split <;> rfl
  have hsize : s.samples.2 = if s.feedbackWindowSize = 0 then 1 else s.feedbackWindowSize := by
    rw [samples]
    split <;> rfl
  have hm : s.roundsMap.getD round 0 = s.redundancyOf round := rfl
  simp only [artDuplicateNumber, ← hones, ← hsize, hm, redundancy]
  congr 1
  split
  next hup => simp only [u32]; omega
  next hup =>
    split
    · simp only [u32]; omega
    · rfl

theorem artDuplicateNumber_samples (s : SendCtl) (round : Nat) :
    (s.artDuplicateNumber round).1.samples = s.samples := rfl

theorem afterCalls_eq (hr : round < s.roundsMap.length) (hp : s.samples.1 < s.samples.2)
    (hs : s.samples.2 < 2 ^ 32) (hm : s.redundancyOf round < 2 ^ 32) (i : Nat) :
    (s.afterCalls round i).redundancyOf round =
      (redundancy s.samples.1 s.samples.2)^[i] (s.redundancyOf round) := by
  induction i generalizing s with
  | zero => rfl
  | succ i ih =>
    have hd : s.samples.2 = (s.samples.2 - s.samples.1) + s.samples.1 := by omega
    have hmul : s.redundancyOf round ≤
        (s.samples.2 - s.samples.1) * s.redundancyOf round :=
      Nat.le_mul_of_pos_left _ (by omega)
    have hsum : s.samples.2 * s.redundancyOf round =
        (s.samples.2 - s.samples.1) * s.redundancyOf round +
          s.samples.1 * s.redundancyOf round := by
      rw [← Nat.add_mul, ← hd]
    have hmap := @artDuplicateNumber_map s round (by omega)
    have hent : (s.artDuplicateNumber round).1.redundancyOf round =
        redundancy s.samples.1 s.samples.2 (s.redundancyOf round) := by
      rw [redundancyOf, hmap, getD_set_self hr]
    have hlt : redundancy s.samples.1 s.samples.2 (s.redundancyOf round) < 2 ^ 32 := by
      rw [redundancy]
      split
      · omega
      · split <;> omega
    have hlen : round < (s.artDuplicateNumber round).1.roundsMap.length := by
      rw [hmap, List.length_set]
      exact hr
    have h := @ih (s.artDuplicateNumber round).1 hlen hp hs (hent ▸ hlt)
    rw [afterCalls] at h ⊢
    rw [Function.iterate_succ_apply, h, hent, artDuplicateNumber_samples,
      Function.iterate_succ_apply]

theorem bounds_of_walk (h : s.lossRate < 1) {m : Nat}
    (ha : (s.samples.2 + (s.samples.2 - s.samples.1) - 1) / (s.samples.2 - s.samples.1) ≤ m)
    (hb : m ≤ (2 * s.samples.2 - 1) / (s.samples.2 - s.samples.1)) :
    1 / (1 - s.lossRate) ≤ m ∧ (m : ℚ) < 2 / (1 - s.lossRate) := by
  have hlt := lossRate_lt_one h
  have hd : 0 < s.samples.2 - s.samples.1 := by omega
  have hpos : (0 : ℚ) < s.samples.2 := Nat.cast_pos.2 s.samples_pos
  have hlow : s.samples.2 ≤ m * (s.samples.2 - s.samples.1) := by
    rw [← Nat.not_lt, Nat.lt_iff_add_one_le, Nat.le_div_iff_mul_le hd, Nat.add_mul] at ha
    omega
  have hhigh : m * (s.samples.2 - s.samples.1) < 2 * s.samples.2 := by
    rw [Nat.le_div_iff_mul_le hd] at hb
    omega
  have hrate : 1 - s.lossRate = ((s.samples.2 - s.samples.1 : Nat) : ℚ) / s.samples.2 := by
    rw [lossRate, Nat.cast_sub hlt.le, sub_div, div_self hpos.ne']
  have hdq : (0 : ℚ) < ((s.samples.2 - s.samples.1 : Nat) : ℚ) := Nat.cast_pos.2 hd
  rw [hrate, one_div_div, div_div_eq_mul_div, div_le_iff₀ hdq, lt_div_iff₀ hdq]
  exact ⟨by exact_mod_cast hlow, by exact_mod_cast hhigh⟩

end

end SendCtl

theorem TurnStep.log_le (h : TurnStep m c c') : c.log.length ≤ c'.log.length := by
  cases h with
  | idle _ _ hl =>
    obtain ⟨es, hl, -⟩ := hl
    rw [hl, List.length_append]
    exact Nat.le_add_left _ _
  | create _ _ _ hl =>
    obtain ⟨es, hl, -⟩ := hl
    rw [hl, List.length_append]
    exact Nat.le_add_left _ _
  | declare _ _ _ _ _ hl => exact hl ▸ Nat.le_succ _
  | begin _ _ _ _ _ _ _ _ hl => exact hl ▸ Nat.le_succ _
  | again _ _ _ _ _ _ _ hl => exact hl ▸ Nat.le_succ _

/-- The entries of the rounds do not reach zero; they grow at most as fast as the log. -/
structure Rounds (c : Core) : Prop where
  length : c.rounds.length = maxRoundBound
  entry : c.log.length < 2 ^ 31 → ∀ r, 1 ≤ r → r < maxRoundBound →
    1 ≤ c.rounds.getD r 0 ∧ c.rounds.getD r 0 ≤ 2 ^ 31 + c.log.length

theorem rounds_init (env : Env) : Rounds ((SendCtl.init env).core env) := by
  have hlen : ((SendCtl.init env).core env).rounds.length = maxRoundBound := by
    simp [SendCtl.core, SendCtl.init]
  refine ⟨hlen, fun _ r hr hb => ?_⟩
  have hi : ((SendCtl.init env).core env).rounds.getD r 0 = SendCtl.initialRound r := by
    simp [SendCtl.core, SendCtl.init, List.getD_eq_getElem?_getD, hb]
  rw [maxRoundBound] at hb
  rw [hi, SendCtl.initialRound, u32]
  omega

theorem Rounds.same (h : Rounds c) (hr : c'.rounds = c.rounds) (hl : c.log.length ≤ c'.log.length) :
    Rounds c' := by
  refine ⟨hr ▸ h.length, fun hlt r h₁ hb => ?_⟩
  obtain ⟨hpos, hle⟩ := h.entry (by omega) r h₁ hb
  rw [hr]
  omega

theorem Rounds.move (h : Rounds g.core) (hm : Move m g g') (hT : TurnStep m g.core g'.core) :
    Rounds g'.core := by
  rcases hm.aside with ⟨hr, -⟩ | ⟨-, hl, i, v, hset, hv⟩
  · exact h.same hr hT.log_le
  · refine ⟨by rw [hset, List.length_set, h.length], fun hlt r h₁ hb => ?_⟩
    obtain ⟨hpos, hle⟩ := h.entry (by omega) r h₁ hb
    rw [hset]
    by_cases hi : i = r
    · subst hi
      have hbounds := hv hpos (by omega)
      rw [SendCtl.getD_set_self (h.length ▸ hb)]
      omega
    · rw [SendCtl.getD_set_ne hi]
      omega

theorem Reachable.rounds (h : Reachable env s) : Rounds (s.core env) := by
  refine Run.core_invariant (I := Rounds) h (rounds_init env) ?_ ?_
  · intro s op g g' _ hm hS hI
    exact hI.move hm (hm.turnStep hS)
  · intro c c' hF _ hI
    exact hI.same (congrArg (·.2.2) hF.aside) (hF.turnStep (m := fun _ => False)).log_le

/-- The redundancy moves to a value between `1 / (1 - p)` and `2 / (1 - p)` without turning back,
and is never zero. -/
theorem redundancy_converges (env : Env) :
    (∀ (s : SendCtl) (round : Nat), round < s.roundsMap.length → 1 ≤ s.redundancyOf round →
      s.redundancyOf round < 2 ^ 32 → s.samples.2 < 2 ^ 32 → s.lossRate < 1 →
      (∃ R n : Nat, 1 / (1 - s.lossRate) ≤ R ∧ (R : ℚ) < 2 / (1 - s.lossRate) ∧
        ∀ i, n ≤ i → (s.afterCalls round i).redundancyOf round = R) ∧
      (Monotone (fun i => (s.afterCalls round i).redundancyOf round) ∨
        Antitone fun i => (s.afterCalls round i).redundancyOf round) ∧
      ∀ i, 1 ≤ (s.afterCalls round i).redundancyOf round) ∧
    ∀ s, Reachable env s → s.log.length < 2 ^ 31 →
      ∀ r, 1 ≤ r → r < maxRoundBound → 1 ≤ s.redundancyOf r := by
  refine ⟨?_, fun s h hl r hr hb => (h.rounds.entry hl r hr hb).1⟩
  intro s round hr h₁ hR hs hp
  have hlt := SendCtl.lossRate_lt_one hp
  obtain ⟨⟨R, n, ha, hb, hfix⟩, hmono⟩ := (redundancy_walks hlt).settles (s.redundancyOf round)
  simp only [SendCtl.afterCalls_eq hr hlt hs hR]
  obtain ⟨hlow, hhigh⟩ := SendCtl.bounds_of_walk hp ha hb
  refine ⟨⟨R, n, hlow, hhigh, hfix⟩, hmono, ?_⟩
  intro i
  induction i with
  | zero => exact h₁
  | succ i ih =>
    rw [Function.iterate_succ_apply']
    exact one_le_redundancy s.samples_pos ih

/-- A replica was lost and one was delivered; the entry of the second round has gone up to 4. -/
theorem redundancy_of_second_round : ∃ s, Reachable quietEnv s ∧ s.samples = (1, 2) ∧
    s.redundancyOf 2 = 4 ∧ 1 ≤ s.redundancyOf 1 ∧ (s.afterCalls 2 1).redundancyOf 2 = 3 ∧
    ∃ R n : Nat, 1 / (1 - s.lossRate) ≤ R ∧ (R : ℚ) < 2 / (1 - s.lossRate) ∧
      ∀ i, n ≤ i → (s.afterCalls 2 i).redundancyOf 2 = R := by
  obtain ⟨s, hs, hsamples, hR, hlen, hlog, hmoves⟩ : ∃ s, Reachable quietEnv s ∧
      s.samples = (1, 2) ∧ s.redundancyOf 2 = 4 ∧ 2 < s.roundsMap.length ∧
      s.log.length < 2 ^ 31 ∧ (s.afterCalls 2 1).redundancyOf 2 = 3 :=
    exists_run (turnsOfPacket [4] 7 ++ resend ++ replicate ++ [ackOnly 9]) (by decide +kernel)
  have hp : s.lossRate < 1 := by
    rw [SendCtl.lossRate, hsamples]
    exact (div_lt_one (by decide)).2 (by decide)
  obtain ⟨hconv, hrun⟩ := redundancy_converges quietEnv
  refine ⟨s, hs, hsamples, hR, hrun s hs hlog 1 (by decide) (by decide), hmoves, ?_⟩
  exact (hconv s 2 hlen (by omega) (by omega) (by rw [hsamples]; decide) hp).1

end QuicArt
