import Mathlib.Data.List.Basic

namespace QuicArt

/-- What bounds the search on a path: `es_max_plpmtu`, the peer's limit and the headers. -/
structure MtuLimits where
  maxPlpmtu : Nat
  maxUdpPayload : Nat
  isIpv6 : Bool

/-- `struct dplpmtud_state`, with the `np_pack_size` of its path. -/
structure MtuSearch where
  packSize : Nat
  failedSize : Nat := 0
  probedSize : Nat := 0
  probePackno : Nat := 0
  probeCount : Nat := 0
  probeSent : Bool := false

def MtuLimits.configured (L : MtuLimits) : Nat :=
  if L.maxPlpmtu ≠ 0 then L.maxPlpmtu else 1500 - ((if L.isIpv6 then 40 else 20) + 8)

namespace MtuSearch

def ceiling (L : MtuLimits) (s : MtuSearch) : Nat :=
  min (if s.failedSize ≠ 0 then s.failedSize else L.configured) L.maxUdpPayload

def probeSize (L : MtuLimits) (s : MtuSearch) : Nat :=
  if s.failedSize = 0 ∧ s.ceiling L < 1500 then s.ceiling L
  else if s.ceiling L ≤ s.packSize * 2 then (s.ceiling L + s.packSize) / 2
  else s.packSize * 2

/-- The probe that is out is lost, and its size fails at the third loss. -/
def expire (s : MtuSearch) : MtuSearch :=
  if s.probeSent then
    if 3 ≤ s.probeCount then
      { s with probeSent := false, failedSize := s.probedSize, probeCount := 0 }
    else { s with probeSent := false }
  else s

def probing (L : MtuLimits) (n : Nat) (s : MtuSearch) : MtuSearch :=
  { s with
    probePackno := n
    probedSize := s.probeSize L
    probeSent := true
    probeCount := s.probeCount + 1 }

/-- `check_or_schedule_mtu_probe`, with the number and the size of the probe.  `ready` stands for
the checks of the connection and the send controller, `packno` for the new packet, if any. -/
def check (L : MtuLimits) (ready : Bool) (packno : Option Nat) (s : MtuSearch) :
    MtuSearch × Option (Nat × Nat) :=
  let s := s.expire
  if !ready ∨ s.ceiling L ≤ s.packSize ∨ 99 * s.ceiling L ≤ 100 * s.packSize then (s, none) else
    match packno with
    | none => (s, none)
    | some n => (s.probing L n, some (n, s.probeSize L))

def acked (s : MtuSearch) (packno sentSz : Nat) : MtuSearch :=
  if s.probePackno ≠ packno then s
  else { s with probeSent := false, probeCount := 0, packSize := sentSz }

def tooLarge (s : MtuSearch) (sentSz : Nat) : MtuSearch := { s with failedSize := sentSz }

end MtuSearch

inductive MtuEvent where
  | check (ready : Bool) (packno : Option Nat)
  | acked (packno sentSz : Nat)
  | tooLarge (sentSz : Nat)

/-- The search with all probes so far, and all sizes that were recorded as failed. -/
structure MtuLog extends MtuSearch where
  probes : List (Nat × Nat) := []
  failed : List Nat := []

namespace MtuLog

def note (g : MtuLog) (s : MtuSearch) (new : List (Nat × Nat)) : MtuLog :=
  ⟨s, new ++ g.probes, if s.failedSize = 0 then g.failed else s.failedSize :: g.failed⟩

def next (L : MtuLimits) (g : MtuLog) : MtuEvent → MtuLog
  | .check ready packno => g.note (g.check L ready packno).1 (g.check L ready packno).2.toList
  | .acked n sz => g.note (g.acked n sz) []
  | .tooLarge sz => g.note (g.tooLarge sz) []

/-- A new packet has a new number, what is acknowledged is a probe, and only the last probe can be
found too large: while one is still to be sent, the tick ends before the check. -/
def allowed (g : MtuLog) : MtuEvent → Bool
  | .check _ packno => ∀ p ∈ g.probes, some p.1 ≠ packno
  | .acked n sz => (n, sz) ∈ g.probes
  | .tooLarge sz => g.probes.head?.map Prod.snd = some sz

/-- All steps of a run are allowed. -/
def steps (L : MtuLimits) : MtuLog → List MtuEvent → Bool
  | _, [] => true
  | g, e :: es => g.allowed e && steps L (g.next L e) es

def start (size : Nat) : MtuLog := { packSize := size }

def after (L : MtuLimits) (size : Nat) (es : List MtuEvent) : MtuLog := es.foldl (next L)
    (start size)

/-- What a step may do: a new probe is above the size of the path and below what bounds it, and the
size of the path does not decrease. -/
structure StepRight (L : MtuLimits) (g : MtuLog) (e : MtuEvent) : Prop where
  probe : ∀ p ∈ (g.next L e).probes, p ∉ g.probes → g.packSize < p.2 ∧
    p.2 ≤ L.maxUdpPayload ∧ p.2 ≤ L.configured ∧ ∀ f ∈ (g.next L e).failed, p.2 < f
  grows : g.packSize ≤ (g.next L e).packSize

def budget (L : MtuLimits) (s : MtuSearch) : Nat :=
  4 * (s.ceiling L - s.packSize) + (if s.failedSize = 0 then 4 else 0) +
    -- A size reported too large is taken for lost later.
    (if s.probeSent ∧ s.failedSize = s.probedSize then 3 else 0) + (3 - s.probeCount)

structure Inv (L : MtuLimits) (N : Nat) (g : MtuLog) : Prop where
  base : 99 ≤ g.packSize
  newest : ∀ p ∈ g.probes.head?, p.2 = g.probedSize
  last : ∀ p ∈ g.probes, (p.1 = g.probePackno → p.2 = g.probedSize) ∧
    g.packSize ≤ g.probedSize ∧ g.probedSize ≤ g.ceiling L ∧
    (g.probedSize = g.packSize → g.probeCount = 0)
  sent : g.probeSent = true → g.probes ≠ [] ∧ (g.failedSize = 0 ∨
    g.failedSize = g.probedSize ∨ g.probedSize < g.ceiling L)
  cap : g.failedSize ≤ L.configured
  fails : ∀ f ∈ g.failed, g.failedSize ≠ 0 ∧ g.failedSize ≤ f
  tries : g.probeCount ≤ 3 ∧ (g.probeSent = false → g.probeCount < 3)
  bound : g.probes.length + budget L g.toMtuSearch ≤ N

variable {L : MtuLimits} {g : MtuLog} {N : Nat}

theorem Inv.ceiling_le (h : Inv L N g) :
    g.ceiling L ≤ L.configured ∧ g.ceiling L ≤ L.maxUdpPayload ∧
      (g.failedSize ≠ 0 → g.ceiling L ≤ g.failedSize) := by
  have hc := h.cap
  rw [MtuSearch.ceiling]
  split <;> omega

theorem fails_note {s : MtuSearch} (h : ∀ f ∈ g.failed, s.failedSize ≠ 0 ∧ s.failedSize ≤ f) :
    ∀ f ∈ (g.note s new).failed, s.failedSize ≠ 0 ∧ s.failedSize ≤ f := by
  intro f hf
  rw [note] at hf
  split at hf
  · exact h f hf
  · rename_i hne
    rcases List.mem_cons.1 hf with rfl | hf
    · exact ⟨hne, Nat.le_refl _⟩
    · exact h f hf

theorem Inv.fail (h : Inv L N g) (hp : p ∈ g.probes) {b : Bool} {c : Nat}
    (hbc : (b = g.probeSent ∧ c = g.probeCount) ∨
      (g.probeSent = true ∧ 3 ≤ g.probeCount ∧ b = false ∧ c = 0)) :
    Inv L N (g.note { g.toMtuSearch with
      failedSize := g.probedSize, probeSent := b, probeCount := c } []) := by
  obtain ⟨⟨np, fs, ps, pn, c₀, b₀⟩, probes, failed⟩ := g
  obtain ⟨hudp, hconf, hfail⟩ := h.ceiling_le
  obtain ⟨hb, hn, hl, hs, hcap, hf, ht, hN⟩ := h
  obtain ⟨-, hle, hpc, hzero⟩ := hl p hp
  dsimp only at *
  have hceil : MtuSearch.ceiling L ⟨np, ps, ps, pn, c, b⟩ = ps := by
    simp only [MtuSearch.ceiling]
    rw [if_pos (by omega)]
    omega
  refine ⟨hb, hn, fun p hp => ⟨(hl p hp).1, hle, Nat.le_of_eq hceil.symm, ?_⟩, fun _ => ?_, ?_,
    fails_note ?_, ?_, ?_⟩
  · rcases hbc with ⟨-, rfl⟩ | ⟨-, -, -, rfl⟩
    · exact hzero
    · exact fun _ => rfl
  · exact ⟨List.ne_nil_of_mem hp, .inr (.inl rfl)⟩
  · exact Nat.le_trans hpc hudp
  · intro f hf'
    obtain ⟨h0, hle'⟩ := hf f hf'
    have := hfail h0
    exact ⟨by dsimp only; omega, by dsimp only; omega⟩
  · rcases hbc with ⟨rfl, rfl⟩ | ⟨-, -, rfl, rfl⟩
    · exact ht
    · exact ⟨Nat.zero_le 3, fun _ => Nat.zero_lt_succ 2⟩
  · simp only [note, List.nil_append, budget, hceil] at hN ⊢
    rw [if_neg (by omega : ps ≠ 0)]
    rcases hbc with ⟨rfl, rfl⟩ | ⟨rfl, h3, rfl, rfl⟩
    · cases b with
      | false => simp at hN ⊢; split at hN <;> omega
      | true =>
        have := (hs rfl).2
        simp at hN ⊢
        split at hN <;> split at hN <;> omega
    · have := (hs rfl).2
      simp at hN ⊢
      split at hN <;> split at hN <;> omega

theorem Inv.expire (h : Inv L N g) :
    Inv L N (g.note g.expire []) ∧ g.expire.probeSent = false ∧
      g.expire.packSize = g.packSize := by
  rw [MtuSearch.expire]
  split
  case isTrue hs =>
    obtain ⟨p, hp⟩ := List.exists_mem_of_ne_nil _ (h.sent hs).1
    split
    case isTrue h3 => exact ⟨h.fail hp (.inr ⟨hs, h3, rfl, rfl⟩), rfl, rfl⟩
    case isFalse h3 =>
      refine ⟨⟨h.base, h.newest, h.last, fun hf => Bool.noConfusion hf, h.cap, fails_note h.fails,
        ⟨h.tries.1, fun _ => Nat.lt_of_not_le h3⟩, Nat.le_trans ?_ h.bound⟩, rfl, rfl⟩
      simp [note, budget, MtuSearch.ceiling]
  case isFalse hs =>
    exact ⟨{ h with fails := fails_note h.fails }, by simpa using hs, rfl⟩

theorem probeSize_spec {s : MtuSearch} (hb : 99 ≤ s.packSize)
    (hr : ¬ 99 * s.ceiling L ≤ 100 * s.packSize) :
    s.packSize < s.probeSize L ∧ s.probeSize L ≤ s.ceiling L ∧
      (s.failedSize ≠ 0 → s.probeSize L < s.ceiling L) := by
  rw [MtuSearch.probeSize]
  split
  · omega
  · split <;> omega

theorem Inv.generate (h : Inv L N g) (hs : g.probeSent = false)
    (hr : ¬ 99 * g.ceiling L ≤ 100 * g.packSize) (hn : ∀ p ∈ g.probes, p.1 ≠ n) :
    Inv L N ⟨g.probing L n, (n, g.probeSize L) :: g.probes, g.failed⟩ := by
  obtain ⟨hlt, hle, hstrict⟩ := probeSize_spec h.base hr
  have hfail := h.ceiling_le.2.2
  have ht := h.tries.2 hs
  refine ⟨h.base, ?_, fun p hp => ⟨fun he => ?_, Nat.le_of_lt hlt, hle, fun he => ?_⟩,
    fun _ => ⟨List.cons_ne_nil _ _, ?_⟩, h.cap, h.fails, ⟨ht, fun hs => Bool.noConfusion hs⟩, ?_⟩
  · rintro p ⟨⟩
    rfl
  · rcases List.mem_cons.1 hp with rfl | hp
    · rfl
    · exact absurd he (hn p hp)
  · exact absurd he (Nat.ne_of_gt hlt)
  · by_cases h0 : g.failedSize = 0
    · exact .inl h0
    · exact .inr (.inr (hstrict h0))
  · have hN := h.bound
    have hne : g.failedSize ≠ g.probeSize L := by
      intro he
      by_cases h0 : g.failedSize = 0
      · omega
      · have := hstrict h0
        have := hfail h0
        omega
    simp only [budget, hs, Bool.false_eq_true, false_and, if_false] at hN
    change g.probes.length + 1 + (4 * (g.ceiling L - g.packSize) +
      (if g.failedSize = 0 then 4 else 0) +
      (if true = true ∧ g.failedSize = g.probeSize L then 3 else 0) +
      (3 - (g.probeCount + 1))) ≤ N
    simp only [hne, and_false, if_false]
    omega

theorem Inv.acked (h : Inv L N g) (hp : (n, sz) ∈ g.probes) :
    Inv L N (g.note (g.acked n sz) []) ∧ g.packSize ≤ (g.acked n sz).packSize := by
  rw [MtuSearch.acked]
  split
  case isTrue =>
    exact ⟨{ h with fails := fails_note h.fails }, Nat.le_refl _⟩
  case isFalse he =>
    obtain ⟨hsz, hle, hpc, hzero⟩ := h.last _ hp
    obtain rfl : sz = g.probedSize := hsz (not_not.1 he).symm
    refine ⟨⟨Nat.le_trans h.base hle, h.newest, fun p hp => ⟨(h.last p hp).1, Nat.le_refl _, hpc,
      fun _ => rfl⟩, fun hf => Bool.noConfusion hf, h.cap, fails_note h.fails,
      ⟨Nat.zero_le 3, fun _ => Nat.zero_lt_succ 2⟩, ?_⟩, hle⟩
    have hN := h.bound
    have hc : MtuSearch.ceiling L { g.toMtuSearch with
      probeSent := false, probeCount := 0, packSize := g.probedSize } = g.ceiling L := rfl
    simp only [note, List.nil_append, budget, hc, Bool.false_eq_true, false_and, if_false] at hN ⊢
    omega

theorem check_cases (L : MtuLimits) (ready : Bool) (packno : Option Nat) (s : MtuSearch) :
    s.check L ready packno = (s.expire, none) ∨
      ∃ n, packno = some n ∧ ¬ 99 * s.expire.ceiling L ≤ 100 * s.expire.packSize ∧
        s.check L ready packno = (s.expire.probing L n, some (n, s.expire.probeSize L)) := by
  unfold MtuSearch.check
  dsimp only
  split
  case isTrue => exact .inl rfl
  case isFalse h =>
    cases packno with
    | none => exact .inl rfl
    | some n => exact .inr ⟨n, rfl, fun hr => h (.inr (.inr hr)), rfl⟩

theorem Inv.next (h : Inv L N g) (ha : g.allowed e = true) :
    Inv L N (g.next L e) ∧ StepRight L g e := by
  cases e with
  | check ready packno =>
    obtain ⟨hI, hs, hp⟩ := h.expire
    rcases check_cases L ready packno g.toMtuSearch with hc | ⟨n, rfl, hr, hc⟩
    · have hn : g.next L (.check ready packno) = g.note g.expire [] := by
        rw [MtuLog.next, hc]
        rfl
      refine ⟨hn ▸ hI, fun p hp' hnew => ?_, hn ▸ Nat.le_of_eq hp.symm⟩
      rw [hn] at hp'
      exact absurd hp' hnew
    · have hG := hI.generate hs hr fun p hp he => of_decide_eq_true ha p hp (congrArg some he)
      have hn : g.next L (.check ready (some n)) = ⟨g.expire.probing L n,
          (n, g.expire.probeSize L) :: g.probes, (g.note g.expire []).failed⟩ := by
        rw [MtuLog.next, hc]
        rfl
      obtain ⟨hlt, hle, hstrict⟩ := probeSize_spec hI.base hr
      obtain ⟨hconf, hudp, hfail⟩ := hI.ceiling_le
      refine ⟨hn ▸ hG, fun p hp' hnew => ?_, hn ▸ Nat.le_of_eq hp.symm⟩
      rw [hn] at hp' ⊢
      rcases List.mem_cons.1 hp' with rfl | hp'
      · refine ⟨hp ▸ hlt, Nat.le_trans hle hudp, Nat.le_trans hle hconf, fun f hf => ?_⟩
        obtain ⟨h0, hf⟩ := hG.fails f hf
        exact Nat.lt_of_lt_of_le (hstrict h0) (Nat.le_trans (hfail h0) hf)
      · exact absurd hp' hnew
  | acked n sz =>
    obtain ⟨hI, hle⟩ := h.acked (of_decide_eq_true ha)
    exact ⟨hI, fun p hp hn => absurd hp hn, hle⟩
  | tooLarge sz =>
    obtain ⟨p, hp, rfl⟩ := Option.map_eq_some_iff.1 (of_decide_eq_true ha)
    have hI := h.fail (List.mem_of_head? hp) (.inl ⟨rfl, rfl⟩)
    rw [← h.newest p hp] at hI
    exact ⟨hI, fun p hp hn => absurd hp hn, Nat.le_refl _⟩

theorem Inv.steps (h : Inv L N g) (hs : steps L g es = true) :
    Inv L N (es.foldl (MtuLog.next L) g) := by
  induction es generalizing g with
  | nil => exact h
  | cons e es ih =>
    rw [MtuLog.steps, Bool.and_eq_true] at hs
    exact ih (h.next hs.1).1 hs.2

theorem inv_start (L : MtuLimits) (h : 99 ≤ size) :
    Inv L (budget L (start size).toMtuSearch) (start size) :=
  ⟨h, (by rintro p ⟨⟩), fun _ hp => absurd hp List.not_mem_nil, fun hs => Bool.noConfusion hs,
    Nat.zero_le _,
    fun _ hf => absurd hf List.not_mem_nil,
    ⟨Nat.zero_le 3, fun _ => Nat.zero_lt_succ 2⟩, Nat.le_of_eq (Nat.zero_add _)⟩

/-- If the path starts with 99 bytes or more, all steps of a run are right and the number of its
probes is bounded. -/
theorem search_right (L : MtuLimits) {size : Nat} (h : 99 ≤ size) :
    ∃ N, ∀ es, steps L (start size) es = true → (after L size es).probes.length ≤ N ∧
      ∀ e, (after L size es).allowed e = true → StepRight L (after L size es) e := by
  refine ⟨budget L (start size).toMtuSearch, fun es hs => ?_⟩
  have hI := (inv_start L h).steps hs
  exact ⟨Nat.le_trans (Nat.le_add_right _ _) hI.bound, fun e ha => (hI.next ha).2⟩

theorem search_right_1252 :
    let L : MtuLimits := ⟨0, 65527, false⟩
    let g := after L 1252 [.check true (some 0), .tooLarge 1472, .check true (some 1),
      .acked 1 1362]
    (g.next L (.check true (some 2))).probes = [(2, 1417), (1, 1362), (0, 1472)] ∧
      StepRight L g (.check true (some 2)) := by
  obtain ⟨N, h⟩ := search_right ⟨0, 65527, false⟩ (by decide : 99 ≤ 1252)
  exact ⟨by decide, (h _ (by decide)).2 _ (by decide)⟩

/-- On a path of 98 bytes, a probe has 98 bytes. -/
theorem probe_not_right : ∃ L es e, steps L (start 98) es = true ∧
    (after L 98 es).allowed e = true ∧ ¬ StepRight L (after L 98 es) e := by
  refine ⟨⟨99, 65527, false⟩, (List.range 3).map (fun n => .check true (some n)),
    .check true (some 3), by decide, by decide, fun h => ?_⟩
  exact absurd (h.probe (3, 98) (by decide) (by decide)).1 (by decide)

end MtuLog

end QuicArt
