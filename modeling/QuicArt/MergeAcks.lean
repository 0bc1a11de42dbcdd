import QuicArt.PacketOut
import QuicArt.Ranges

namespace QuicArt

/-- The number of elements of the array `ranges` of `struct ack_info`. -/
def maxAckRanges : Nat := 256

/-- `struct ack_info`; the counts keep their values when `AI_ECN` is not set. -/
structure AckFrame where
  pns : Pns
  ecn : Bool
  truncated : Bool
  lackDelta : Nat
  ecnCounts : Vector Nat 4
  ranges : List Span
  deriving DecidableEq, Repr

/-- The ranges are what the parsers accept. -/
structure AckFrame.Valid (f : AckFrame) : Prop where
  ranges : Descending f.ranges
  packno : ∀ r ∈ f.ranges, r.high ≤ maxPackno

/-- The range that comes next in the merge, from either frame; on a tie the one of `a`. -/
def nextRange : List Span → List Span → Option (Span × List Span × List Span)
  | r :: a, q :: b => if q.high ≤ r.high then some (r, a, q :: b) else some (q, r :: a, b)
  | r :: a, [] => some (r, a, [])
  | [], q :: b => some (q, [], b)
  | [], [] => none

/-- The loop of `lsquic_merge_acks`: `done` is in front of `out`, which is being extended. -/
def mergeLoop : Nat → List Span → List Span → List Span → Span → Option (List Span)
  | 0, _, _, done, out => some (done ++ [out])
  | n + 1, a, b, done, out =>
    match nextRange a b with
    | none => some (done ++ [out])
    | some (p, a, b) =>
      if out.low ≤ (p.high + 1) % 2 ^ 64 then mergeLoop n a b done { out with low := p.low }
      else if done.length + 1 < maxAckRanges then mergeLoop n a b (done ++ [out]) p
      else none

/-- `lsquic_merge_acks`: the frame at `dst` afterwards and the value returned. -/
def mergeAcks (dst src : AckFrame) : AckFrame × Int :=
  match dst.ranges, src.ranges with
  | r :: _, q :: _ =>
    let first := if q.high ≤ r.high then r else q
    match mergeLoop (dst.ranges.length + src.ranges.length) dst.ranges src.ranges [] first with
    | none => (dst, -1)
    | some out =>
      let merged := { dst with
        ecn := dst.ecn || src.ecn
        truncated := dst.truncated || src.truncated
        lackDelta := src.lackDelta
        ranges := out }
      if src.ecn then
        -- the counts of the new frame must not be smaller than those of the saved one
        if ∀ i : Fin 4, dst.ecnCounts.get i ≤ src.ecnCounts.get i then
          ({ merged with ecnCounts := src.ecnCounts }, 0)
        else (dst, -1)
      else (merged, 0)
  | _, _ => (dst, -1)

structure Pick where
  new : Bool
  range : Span

def pickOrder (a b : List Span) : List Pick :=
  (a.map (Pick.mk false)).merge (b.map (Pick.mk true)) fun x y =>
    decide (y.range.high ≤ x.range.high)

structure Later (e f : Pick) : Prop where
  apart : e.new = f.new → f.range.high < e.range.low
  le : f.range.high ≤ e.range.high
  tie : f.range.high = e.range.high → e.new = false ∧ f.new = true

theorem pickOrder_nil_left (b : List Span) : pickOrder [] b = b.map (Pick.mk true) := by
  simp [pickOrder]

theorem pickOrder_nil_right (a : List Span) : pickOrder a [] = a.map (Pick.mk false) := by
  simp [pickOrder]

theorem pickOrder_cons (r q : Span) (a b : List Span) : pickOrder (r :: a) (q :: b) =
    if q.high ≤ r.high then ⟨false, r⟩ :: pickOrder a (q :: b)
    else ⟨true, q⟩ :: pickOrder (r :: a) b := by
  simp only [pickOrder, List.map_cons, List.cons_merge_cons, decide_eq_true_eq]

theorem mem_pickOrder {e : Pick} :
    e ∈ pickOrder a b ↔ (e.new = false ∧ e.range ∈ a) ∨ (e.new = true ∧ e.range ∈ b) := by
  obtain ⟨new, range⟩ := e
  cases new <;> simp [pickOrder, List.mem_merge]

theorem Descending.pairwise_map {new : Bool} (h : Descending a) :
    (a.map (Pick.mk new)).Pairwise Later := by
  rw [List.pairwise_map]
  refine h.order.imp_of_mem fun {r q} hr hq hlt => ?_
  have hv := h.valid r hr
  exact ⟨fun _ => hlt, by simp only; omega, by simp only; omega⟩

theorem pickOrder_pairwise (ha : Descending a) (hb : Descending b) :
    (pickOrder a b).Pairwise Later := by
  induction a generalizing b with
  | nil => exact pickOrder_nil_left b ▸ hb.pairwise_map
  | cons r a iha =>
    induction b with
    | nil => exact pickOrder_nil_right _ ▸ ha.pairwise_map
    | cons q b ihb =>
      have hr := ha.valid r (.head _)
      have hq := hb.valid q (.head _)
      rw [pickOrder_cons]
      split
      next hle =>
        refine List.pairwise_cons.2 ⟨fun e he => ?_, iha ha.tail hb⟩
        rcases mem_pickOrder.1 he with ⟨hn, hm⟩ | ⟨hn, hm⟩
        · have := ha.lt_head hm
          exact ⟨fun _ => this, by simp only; omega, by simp only; omega⟩
        · have := hb.high_le_head hm
          exact ⟨by simp [hn], by simp only; omega, fun _ => ⟨rfl, hn⟩⟩
      next hlt =>
        refine List.pairwise_cons.2 ⟨fun e he => ?_, ihb hb.tail⟩
        rcases mem_pickOrder.1 he with ⟨hn, hm⟩ | ⟨hn, hm⟩
        · have := ha.high_le_head hm
          exact ⟨by simp [hn], by simp only; omega, by simp only; omega⟩
        · have := hb.lt_head hm
          exact ⟨fun _ => this, by simp only; omega, by simp only; omega⟩

def gap (p q : Span) : Bool := decide (q.high + 1 < p.low)

/-- The ranges that come of a range that begins at `high` and of which `p` was added last. -/
def gather (high : Nat) (p : Pick) : List Pick → List Span
  | [] => [⟨p.range.low, high⟩]
  | q :: l =>
    if gap p.range q.range then ⟨p.range.low, high⟩ :: gather q.range.high q l
    else gather high q l

section
variable {high : Nat} {p : Pick} {l : List Pick} {r : Span}

theorem gather_high_le (hl : (p :: l).Pairwise Later) (hh : p.range.high ≤ high)
    (hr : r ∈ gather high p l) : r.high ≤ high := by
  induction l generalizing high p with
  | nil => simp_all [gather]
  | cons q l ih =>
    obtain ⟨hp, hl'⟩ := List.pairwise_cons.1 hl
    have hle := (hp q (.head _)).le
    simp only [gather] at hr
    split at hr
    · rcases List.mem_cons.1 hr with rfl | hr
      · exact le_rfl
      · have := ih hl' le_rfl hr
        omega
    · exact ih hl' (by omega) hr

theorem gather_separated (hl : (p :: l).Pairwise Later)
    (hv : ∀ e ∈ p :: l, e.range.low ≤ e.range.high) (hh : p.range.high ≤ high) :
    Separated (gather high p l) := by
  induction l generalizing high p with
  | nil =>
    have := hv p (.head _)
    refine ⟨fun r hr => ?_, List.pairwise_singleton _ _⟩
    rw [gather, List.mem_singleton] at hr
    subst hr
    simp only
    omega
  | cons q l ih =>
    obtain ⟨hp, hl'⟩ := List.pairwise_cons.1 hl
    have hle := (hp q (.head _)).le
    have hv' : ∀ e ∈ q :: l, e.range.low ≤ e.range.high :=
      fun e he => hv e (.tail _ he)
    have hpv := hv p (.head _)
    simp only [gather]
    split
    next hg =>
      have hS := ih hl' hv' le_rfl
      rw [gap, decide_eq_true_eq] at hg
      constructor
      · intro r hr
        rcases List.mem_cons.1 hr with rfl | hr
        · simp only
          omega
        · exact hS.valid r hr
      · refine List.pairwise_cons.2 ⟨fun r hr => ?_, hS.order⟩
        have := gather_high_le hl' le_rfl hr
        simp only
        omega
    · exact ih hl' hv' (by omega)

theorem mem_of_gather (h : Covers (gather high p l) x) :
    (p.range.low ≤ x ∧ x ≤ high) ∨ Covers (l.map Pick.range) x := by
  induction l generalizing high p with
  | nil =>
    left
    simpa [gather, Covers, Span.Has] using h
  | cons q l ih =>
    simp only [List.map_cons, covers_cons, Span.Has]
    simp only [gather] at h
    split at h
    next hg =>
      rcases covers_cons.1 h with h | h
      · exact .inl h
      · rcases ih h with h | h
        · exact .inr (.inl h)
        · exact .inr (.inr h)
    next hg =>
      simp only [gap, decide_eq_true_eq, Nat.not_lt] at hg
      rcases ih h with h | h
      · by_cases hx : p.range.low ≤ x
        · exact .inl ⟨hx, h.2⟩
        · exact .inr (.inl ⟨h.1, by omega⟩)
      · exact .inr (.inr h)

structure EndsAt (l : List Pick) (r : Span) (pre : List Pick) (t : Pick) (post : List Pick) :
    Prop where
  split : l = pre ++ t :: post
  low : r.low = t.range.low
  behind : ∀ q ∈ post, q.range.high + 1 < t.range.low

theorem EndsAt.cons (h : EndsAt l r pre t post) : EndsAt (p :: l) r (p :: pre) t post :=
  ⟨by rw [h.split, List.cons_append], h.low, h.behind⟩

theorem EndsAt.first (hl : (p :: q :: l).Pairwise Later) (hg : gap p.range q.range = true) :
    EndsAt (p :: q :: l) ⟨p.range.low, high⟩ [] p (q :: l) := by
  refine ⟨rfl, rfl, fun e he => ?_⟩
  rw [gap, decide_eq_true_eq] at hg
  obtain ⟨-, hl'⟩ := List.pairwise_cons.1 hl
  rcases List.mem_cons.1 he with rfl | he
  · exact hg
  · have := ((List.pairwise_cons.1 hl').1 e he).le
    omega

theorem gather_head (high : Nat) (hl : (p :: l).Pairwise Later) :
    ∃ r ∈ gather high p l, r.high = high ∧
    ∃ pre t post, EndsAt (p :: l) r pre t post ∧ p ∈ pre ++ [t] := by
  induction l generalizing p with
  | nil => exact ⟨_, List.mem_singleton_self _, rfl, [], p, [], ⟨rfl, rfl, by simp⟩, by simp⟩
  | cons q l ih =>
    simp only [gather]
    split
    next hg => exact ⟨_, .head _, rfl, [], p, q :: l, .first hl hg, by simp⟩
    · obtain ⟨r, hr, hh, pre, t, post, hE, -⟩ := ih (List.pairwise_cons.1 hl).2
      exact ⟨r, hr, hh, p :: pre, t, post, hE.cons, .head _⟩

theorem gather_group (hl : (p :: l).Pairwise Later) (hh : p.range.high ≤ high) (he : e ∈ p :: l) :
    ∃ r ∈ gather high p l, e.range.high ≤ r.high ∧
      ∃ pre t post, EndsAt (p :: l) r pre t post ∧ e ∈ pre ++ [t] := by
  induction l generalizing high p with
  | nil =>
    obtain ⟨r, hr, hr', hE⟩ := gather_head high hl
    obtain rfl := List.mem_singleton.1 he
    exact ⟨r, hr, by omega, hE⟩
  | cons q l ih =>
    rcases List.mem_cons.1 he with rfl | he
    · obtain ⟨r, hr, hr', hE⟩ := gather_head high hl
      exact ⟨r, hr, by omega, hE⟩
    · obtain ⟨hp, hl'⟩ := List.pairwise_cons.1 hl
      have hle := (hp q (.head _)).le
      simp only [gather]
      split
      · obtain ⟨r, hr, hh', pre, t, post, hE, hm⟩ := ih hl' le_rfl he
        exact ⟨r, .tail _ hr, hh', p :: pre, t, post, hE.cons, .tail _ hm⟩
      · obtain ⟨r, hr, hh', pre, t, post, hE, hm⟩ := ih hl' (Nat.le_trans hle hh) he
        exact ⟨r, hr, hh', p :: pre, t, post, hE.cons, .tail _ hm⟩

theorem gather_behind (hl : (p :: l).Pairwise Later)
    (hv : ∀ e ∈ p :: l, e.range.low ≤ e.range.high) (hs : p :: l = pre ++ t :: post)
    (hg : ∀ q ∈ post, q.range.high + 1 < t.range.low) (hr : r ∈ gather high p l) :
    t.range.low ≤ r.low ∨ r.high + 1 < t.range.low := by
  induction l generalizing high p pre with
  | nil =>
    have ht : t ∈ [p] := hs ▸ by simp
    rw [List.mem_singleton] at ht
    rw [gather, List.mem_singleton] at hr
    exact .inl (by rw [hr, ht])
  | cons q l ih =>
    obtain ⟨hp, hl'⟩ := List.pairwise_cons.1 hl
    cases pre with
    | nil =>
      cases hs
      have hq := hg q (.head _)
      rw [gather, if_pos (by rw [gap, decide_eq_true_eq]; exact hq)] at hr
      rcases List.mem_cons.1 hr with rfl | hr
      · exact .inl le_rfl
      · have := gather_high_le hl' le_rfl hr
        exact .inr (by omega)
    | cons p' pre =>
      obtain ⟨rfl, hs'⟩ := List.cons.inj hs
      have hv' : ∀ e ∈ q :: l, e.range.low ≤ e.range.high :=
        fun e he => hv e (.tail _ he)
      simp only [gather] at hr
      split at hr
      next hgap =>
        rcases List.mem_cons.1 hr with rfl | hr
        · left
          have htm : t ∈ q :: l := hs' ▸ by simp
          have htv := hv' t htm
          have hqt : t.range.high ≤ q.range.high := by
            rcases List.mem_cons.1 htm with rfl | htm
            · exact le_rfl
            · exact ((List.pairwise_cons.1 hl').1 t htm).le
          rw [gap, decide_eq_true_eq] at hgap
          simp only
          omega
        · exact ih hl' hv' hs' hr
      · exact ih hl' hv' hs' hr

theorem length_gather :
    (gather high p l).length = ((p :: l).zip l).countP (fun e => gap e.1.range e.2.range) + 1 := by
  induction l generalizing high p with
  | nil => rfl
  | cons q l ih =>
    simp only [gather, List.zip_cons_cons, List.countP_cons]
    split
    · rw [List.length_cons, ih]
    · rw [ih, Nat.add_zero]

end

theorem nextRange_none (h : nextRange a b = none) : a = [] ∧ b = [] := by
  match a, b with
  | [], [] => exact ⟨rfl, rfl⟩
  | r :: a, [] => simp [nextRange] at h
  | [], q :: b => simp [nextRange] at h
  | r :: a, q :: b =>
    simp only [nextRange] at h
    split at h <;> simp at h

structure Taken (a b : List Span) (p : Pick) (a' b' : List Span) : Prop where
  order : pickOrder a b = p :: pickOrder a' b'
  length : a.length + b.length = a'.length + b'.length + 1

theorem nextRange_some (h : nextRange a b = some (p, a', b')) :
    ∃ new, Taken a b ⟨new, p⟩ a' b' := by
  match a, b with
  | [], [] => simp [nextRange] at h
  | r :: a, [] =>
    simp only [nextRange, Option.some.injEq, Prod.mk.injEq] at h
    obtain ⟨rfl, rfl, rfl⟩ := h
    exact ⟨false, by simp [pickOrder_nil_right], by simp⟩
  | [], q :: b =>
    simp only [nextRange, Option.some.injEq, Prod.mk.injEq] at h
    obtain ⟨rfl, rfl, rfl⟩ := h
    exact ⟨true, by simp [pickOrder_nil_left], by simp⟩
  | r :: a, q :: b =>
    simp only [nextRange] at h
    split at h
    next hle =>
      simp only [Option.some.injEq, Prod.mk.injEq] at h
      obtain ⟨rfl, rfl, rfl⟩ := h
      refine ⟨false, by rw [pickOrder_cons, if_pos hle], ?_⟩
      simp only [List.length_cons]
      omega
    next hlt =>
      simp only [Option.some.injEq, Prod.mk.injEq] at h
      obtain ⟨rfl, rfl, rfl⟩ := h
      refine ⟨true, by rw [pickOrder_cons, if_neg hlt], ?_⟩
      simp only [List.length_cons]
      omega

/-- The loop gathers the ranges as they are picked, and gives up on too many. -/
theorem mergeLoop_eq (p : Pick) (high : Nat) (done : List Span) (hn : a.length + b.length ≤ n)
    (hv : ∀ e ∈ pickOrder a b, e.range.high ≤ maxPackno) (hd : done.length < maxAckRanges) :
    mergeLoop n a b done ⟨p.range.low, high⟩ =
      if done.length + (gather high p (pickOrder a b)).length ≤ maxAckRanges then
        some (done ++ gather high p (pickOrder a b))
      else none := by
  induction n generalizing a b done p high with
  | zero =>
    have ha : a = [] := List.length_eq_zero_iff.1 (by omega)
    have hb : b = [] := List.length_eq_zero_iff.1 (by omega)
    subst ha hb
    rw [pickOrder_nil_left, List.map_nil, gather, if_pos (by exact hd)]
    rfl
  | succ n ih =>
    rw [mergeLoop]
    split
    next h =>
      obtain ⟨rfl, rfl⟩ := nextRange_none h
      rw [pickOrder_nil_left, List.map_nil, gather, if_pos (by exact hd)]
    next q a' b' h =>
      obtain ⟨new, hT⟩ := nextRange_some h
      have hl := hT.length
      rw [hT.order] at hv ⊢
      have hv' : ∀ e ∈ pickOrder a' b', e.range.high ≤ maxPackno :=
        fun e he => hv e (.tail _ he)
      -- packet numbers are far from the end of their type
      have hq : (q.high + 1) % 2 ^ 64 = q.high + 1 := by
        have := hv ⟨new, q⟩ List.mem_cons_self
        simp only [maxPackno] at this
        exact Nat.mod_eq_of_lt (by omega)
      rw [hq]
      by_cases hg : p.range.low ≤ q.high + 1
      · have hG : gather high p (⟨new, q⟩ :: pickOrder a' b') =
            gather high ⟨new, q⟩ (pickOrder a' b') :=
          if_neg (by simpa [gap] using hg)
        rw [if_pos hg, hG]
        exact ih ⟨new, q⟩ high done (by omega) hv' hd
      · have hG : gather high p (⟨new, q⟩ :: pickOrder a' b') =
            ⟨p.range.low, high⟩ :: gather q.high ⟨new, q⟩ (pickOrder a' b') :=
          if_pos (by simpa [gap] using hg)
        rw [if_neg hg, hG, List.length_cons]
        split
        next hc =>
          have hd' : (done ++ [(⟨p.range.low, high⟩ : Span)]).length < maxAckRanges := by
            simpa using hc
          rw [List.append_cons, Nat.add_comm _ 1, ← Nat.add_assoc]
          simpa using ih ⟨new, q⟩ q.high _ (by omega) hv' hd'
        next hc =>
          have hpos : 0 < (gather q.high ⟨new, q⟩ (pickOrder a' b')).length := by
            rw [length_gather]
            exact Nat.succ_pos _
          rw [if_neg (by simp only [maxAckRanges] at *; omega)]

/-- A range of `inner` lies inside one of `outer`, ends above it and does not go on below it. On a
tie at the upper end `outer` comes first. -/
def Hides (first : Prop) (outer inner : List Span) : Prop :=
  ∃ r ∈ outer, ∃ p ∈ inner, r.low < p.low ∧ (p.high < r.high ∨ first ∧ p.high = r.high) ∧
    ∀ q ∈ inner, q.high + 1 ≠ p.low

/-- There are ranges, those that are apart fit into the array, and the counts do not go back. -/
structure Mergeable (dst src : AckFrame) : Prop where
  saved : dst.ranges ≠ []
  new : src.ranges ≠ []
  fits : ((pickOrder dst.ranges src.ranges).zip (pickOrder dst.ranges src.ranges).tail).countP
    (fun e => gap e.1.range e.2.range) < maxAckRanges
  counts : src.ecn = true → ∀ i : Fin 4, dst.ecnCounts.get i ≤ src.ecnCounts.get i

/-- The merge stands for the union, and a failed one leaves the saved frame as it was. -/
def MergesExactly (dst src : AckFrame) : Prop :=
  ((mergeAcks dst src).2 = 0 → Descending (mergeAcks dst src).1.ranges ∧
    ∀ x, Covers (mergeAcks dst src).1.ranges x ↔ Covers dst.ranges x ∨ Covers src.ranges x) ∧
  ((mergeAcks dst src).2 = -1 → (mergeAcks dst src).1 = dst)

theorem covers_pickOrder :
    Covers ((pickOrder a b).map Pick.range) x ↔ Covers a x ∨ Covers b x := by
  simp only [Covers, List.mem_map, mem_pickOrder]
  constructor
  · rintro ⟨r, ⟨e, ⟨-, he⟩ | ⟨-, he⟩, rfl⟩, hx⟩
    · exact .inl ⟨_, he, hx⟩
    · exact .inr ⟨_, he, hx⟩
  · rintro (⟨r, hr, hx⟩ | ⟨r, hr, hx⟩)
    · exact ⟨r, ⟨⟨false, r⟩, .inl ⟨rfl, hr⟩, rfl⟩, hx⟩
    · exact ⟨r, ⟨⟨true, r⟩, .inr ⟨rfl, hr⟩, rfl⟩, hx⟩

theorem valid_pickOrder (ha : Descending a) (hb : Descending b) :
    ∀ e ∈ pickOrder a b, e.range.low ≤ e.range.high := by
  intro e he
  rcases mem_pickOrder.1 he with ⟨-, h⟩ | ⟨-, h⟩
  · exact ha.valid _ h
  · exact hb.valid _ h

/-- A pick that is hidden in an earlier one, with a gap of its own frame behind it. -/
def Hidden (l : List Pick) (e p : Pick) : Prop :=
  e ∈ l ∧ p ∈ l ∧ e.new ≠ p.new ∧ e.range.low < p.range.low ∧
    (p.range.high < e.range.high ∨ e.new = false ∧ p.range.high = e.range.high) ∧
    ∀ q ∈ l, q.new = p.new → q.range.high + 1 ≠ p.range.low

theorem hides_iff : (∃ e p, Hidden (pickOrder a b) e p) ↔ Hides True a b ∨ Hides False b a := by
  constructor
  · rintro ⟨⟨en, e⟩, ⟨pn, p⟩, he, hp, hne, hlow, hhigh, hq⟩
    rw [mem_pickOrder] at he hp
    cases en <;> cases pn <;> simp only [ne_eq, not_true_eq_false, Bool.false_eq_true, false_and,
      true_and, or_false, false_or, reduceCtorEq, not_false_eq_true] at he hp hne hhigh
    · refine .inl ⟨e, he, p, hp, hlow, ?_, fun q hm => ?_⟩
      · exact hhigh.imp_right fun h => ⟨trivial, h⟩
      · exact hq ⟨true, q⟩ (mem_pickOrder.2 (.inr ⟨rfl, hm⟩)) rfl
    · refine .inr ⟨e, he, p, hp, hlow, .inl hhigh, fun q hm => ?_⟩
      exact hq ⟨false, q⟩ (mem_pickOrder.2 (.inl ⟨rfl, hm⟩)) rfl
  · rintro (⟨e, he, p, hp, hlow, hhigh, hq⟩ | ⟨e, he, p, hp, hlow, hhigh, hq⟩)
    · refine ⟨⟨false, e⟩, ⟨true, p⟩, mem_pickOrder.2 (.inl ⟨rfl, he⟩),
        mem_pickOrder.2 (.inr ⟨rfl, hp⟩), by simp, hlow, ?_, ?_⟩
      · exact hhigh.imp_right fun h => ⟨rfl, h.2⟩
      · rintro ⟨qn, q⟩ hm rfl
        rcases mem_pickOrder.1 hm with ⟨hn, -⟩ | ⟨-, hm⟩
        · simp at hn
        · exact hq q hm
    · refine ⟨⟨true, e⟩, ⟨false, p⟩, mem_pickOrder.2 (.inr ⟨rfl, he⟩),
        mem_pickOrder.2 (.inl ⟨rfl, hp⟩), by simp, hlow, ?_, ?_⟩
      · exact hhigh.imp_right fun h => h.1.elim
      · rintro ⟨qn, q⟩ hm rfl
        rcases mem_pickOrder.1 hm with ⟨-, hm⟩ | ⟨hn, -⟩
        · exact hq q hm
        · simp at hn

section
variable {p : Pick} {l : List Pick}

theorem covers_gather (hl : (p :: l).Pairwise Later)
    (hv : ∀ e ∈ p :: l, e.range.low ≤ e.range.high) (hno : ¬ ∃ e t, Hidden (p :: l) e t)
    (he : e ∈ p :: l) (hx : e.range.Has x) : Covers (gather p.range.high p l) x := by
  obtain ⟨r, hr, hhigh, pre, t, post, hE, hm⟩ := gather_group hl le_rfl he
  by_cases hlow : t.range.low ≤ x
  · exact ⟨r, hr, by rw [hE.low]; exact hlow, Nat.le_trans hx.2 hhigh⟩
  · obtain ⟨hx, -⟩ := hx
    have ht : t ∈ p :: l := hE.split ▸ by simp
    have htv := hv t ht
    have hL : ∀ e' ∈ pre, Later e' t := by
      rw [hE.split, List.pairwise_append] at hl
      exact fun e' he' => hl.2.2 e' he' t (.head _)
    -- the last pick of the range is another one, so it is of the other frame
    have hpre : e ∈ pre := by
      rcases List.mem_append.1 hm with h | h
      · exact h
      · rw [List.mem_singleton.1 h] at hx
        omega
    have hle := hL e hpre
    have hne : e.new ≠ t.new := fun h => by have := hle.apart h; omega
    refine absurd ⟨e, t, he, ht, hne, by omega, ?_, ?_⟩ hno
    · rcases Nat.lt_or_eq_of_le hle.le with h | h
      · exact .inl h
      · exact .inr ⟨(hle.tie h).1, h⟩
    · intro q hq hn hadj
      have hqv := hv q hq
      rw [hE.split] at hq
      rcases List.mem_append.1 hq with hq | hq
      · have := (hL q hq).apart hn
        omega
      · rcases List.mem_cons.1 hq with rfl | hq
        · omega
        · have := hE.behind q hq
          omega

theorem not_covers_gather (hl : (p :: l).Pairwise Later)
    (hv : ∀ e ∈ p :: l, e.range.low ≤ e.range.high) (hh : Hidden (p :: l) e t) :
    ¬ Covers (gather p.range.high p l) (t.range.low - 1) := by
  obtain ⟨he, ht, hne, hlow, hhigh, hq⟩ := hh
  obtain ⟨pre, post, hs⟩ := List.append_of_mem ht
  have hl' := hl
  rw [hs, List.pairwise_append] at hl'
  obtain ⟨-, hpost, hpre⟩ := hl'
  have hpost := (List.pairwise_cons.1 hpost).1
  have hbehind : ∀ q ∈ post, q.range.high + 1 < t.range.low := by
    intro q hm
    have hqt := hpost q hm
    have hmem : q ∈ p :: l := hs ▸ List.mem_append_right _ (.tail _ hm)
    by_cases hn : q.new = t.new
    · have := hqt.apart hn.symm
      have := hq q hmem hn
      omega
    · -- the pick that hides `t` and this one are of the same frame
      have hen : e.new = q.new := by
        revert hn hne
        cases e.new <;> cases t.new <;> cases q.new <;> simp
      have hel : Later e q := by
        rw [hs, List.mem_append, List.mem_cons] at he
        rcases he with he | rfl | he
        · exact hpre e he q (.tail _ hm)
        · omega
        · have hte := hpost e he
          rcases hhigh with h | ⟨h, heq⟩
          · have := hte.le
            omega
          · exact absurd (hte.tie heq.symm).2 (by simp [h])
      have := hel.apart hen
      omega
  rintro ⟨r, hr, hx⟩
  obtain ⟨hx, hx'⟩ := hx
  rcases gather_behind hl hv hs hbehind hr with h | h <;> omega

end

section
variable {dst src : AckFrame}

theorem pickOrder_first (r q : Span) (a b : List Span) : ∃ new l, pickOrder (r :: a) (q :: b) =
    ⟨new, if q.high ≤ r.high then r else q⟩ :: l := by
  rw [pickOrder_cons]
  split
  · exact ⟨false, _, rfl⟩
  · exact ⟨true, _, rfl⟩

theorem mergeLoop_ranges (hd : dst.Valid) (hs : src.Valid)
    (ho : pickOrder dst.ranges src.ranges = p :: l) :
    mergeLoop (dst.ranges.length + src.ranges.length) dst.ranges src.ranges [] p.range =
      if (gather p.range.high p l).length ≤ maxAckRanges then some (gather p.range.high p l)
      else none := by
  have hv : ∀ e ∈ pickOrder dst.ranges src.ranges, e.range.high ≤ maxPackno := by
    intro e he
    rcases mem_pickOrder.1 he with ⟨-, h⟩ | ⟨-, h⟩
    · exact hd.packno _ h
    · exact hs.packno _ h
  -- the first turn finds the range that is already there
  have hG : gather p.range.high p (p :: l) = gather p.range.high p l := by
    have := valid_pickOrder hd.ranges hs.ranges p (ho ▸ List.mem_cons_self)
    exact if_neg (by simp only [gap, decide_eq_true_eq]; omega)
  have hL := mergeLoop_eq p p.range.high [] le_rfl hv (by decide)
  rwa [ho, hG, List.length_nil, Nat.zero_add, List.nil_append] at hL

/-- Two frames are left alone, or their ranges are gathered in one pass. -/
theorem mergeAcks_spec (hd : dst.Valid) (hs : src.Valid) :
    (¬ Mergeable dst src ∧ mergeAcks dst src = (dst, -1)) ∨
    (Mergeable dst src ∧ ∃ p l, pickOrder dst.ranges src.ranges = p :: l ∧
      (mergeAcks dst src).2 = 0 ∧ (mergeAcks dst src).1.ranges = gather p.range.high p l) := by
  cases ha : dst.ranges with
  | nil => exact .inl ⟨fun h => h.saved ha, by simp only [mergeAcks, ha]⟩
  | cons r a =>
    cases hb : src.ranges with
    | nil => exact .inl ⟨fun h => h.new hb, by simp only [mergeAcks, ha, hb]⟩
    | cons q b =>
      obtain ⟨new, l, ho⟩ := pickOrder_first r q a b
      simp only [mergeAcks, ha, hb]
      generalize (if q.high ≤ r.high then r else q) = first at ho ⊢
      rw [← ha, ← hb] at ho ⊢
      have hF : (gather first.high ⟨new, first⟩ l).length ≤ maxAckRanges ↔
          ((pickOrder dst.ranges src.ranges).zip (pickOrder dst.ranges src.ranges).tail).countP
            (fun e => gap e.1.range e.2.range) < maxAckRanges := by
        rw [length_gather, ho]
        rfl
      have hL : mergeLoop (dst.ranges.length + src.ranges.length) dst.ranges src.ranges [] first =
          if (gather first.high ⟨new, first⟩ l).length ≤ maxAckRanges then
            some (gather first.high ⟨new, first⟩ l)
          else none := mergeLoop_ranges hd hs ho
      by_cases hlen : (gather first.high ⟨new, first⟩ l).length ≤ maxAckRanges
      · rw [hL, if_pos hlen]
        have ha' : dst.ranges ≠ [] := by simp [ha]
        have hb' : src.ranges ≠ [] := by simp [hb]
        cases he : src.ecn with
        | false =>
          have hM : Mergeable dst src := ⟨ha', hb', hF.1 hlen, by simp [he]⟩
          exact .inr ⟨hM, _, l, ho, rfl, rfl⟩
        | true =>
          by_cases hc : ∀ i : Fin 4, dst.ecnCounts.get i ≤ src.ecnCounts.get i
          · have hM : Mergeable dst src := ⟨ha', hb', hF.1 hlen, fun _ => hc⟩
            refine .inr ⟨hM, _, l, ho, ?_⟩
            simp only [if_true, if_pos hc, and_self]
          · refine .inl ⟨fun h => hc (h.counts he), ?_⟩
            simp only [if_true, if_neg hc]
      · rw [hL, if_neg hlen]
        exact .inl ⟨fun h => hlen (hF.2 h.fits), rfl⟩

end

/-- Unless a range of one frame is hidden in one of the other. -/
theorem mergesExactly_iff (hd : dst.Valid) (hs : src.Valid) : MergesExactly dst src ↔
    ¬ (Mergeable dst src ∧
      (Hides True dst.ranges src.ranges ∨ Hides False src.ranges dst.ranges)) := by
  rcases mergeAcks_spec hd hs with ⟨hM, he⟩ | ⟨hM, p, l, ho, h0, hr⟩
  · rw [MergesExactly, he]
    simp [hM]
  · have hl := ho ▸ pickOrder_pairwise hd.ranges hs.ranges
    have hv := ho ▸ valid_pickOrder hd.ranges hs.ranges
    have hU : ∀ x, Covers ((p :: l).map Pick.range) x ↔ Covers dst.ranges x ∨ Covers src.ranges x :=
      fun x => ho ▸ covers_pickOrder
    rw [← hides_iff, ho, MergesExactly, h0, hr]
    simp only [hM, true_and]
    constructor
    · rintro ⟨h, -⟩ ⟨e, t, hh⟩
      have hcov : Covers ((p :: l).map Pick.range) (t.range.low - 1) := by
        obtain ⟨he, ht, -, hlow, hhigh, -⟩ := hh
        have := hv t ht
        exact ⟨e.range, List.mem_map_of_mem he, by omega, by omega⟩
      exact not_covers_gather hl hv hh (((h trivial).2 _).2 ((hU _).1 hcov))
    · intro hno
      refine ⟨fun _ => ⟨(gather_separated hl hv le_rfl).descending, fun x => ?_⟩, by simp⟩
      rw [← hU]
      constructor
      · intro hx
        rw [List.map_cons, covers_cons]
        exact mem_of_gather hx
      · rintro ⟨r, hr, hx⟩
        obtain ⟨e, he, rfl⟩ := List.mem_map.1 hr
        exact covers_gather hl hv hno he hx

def frameOf (ranges : List Span) : AckFrame :=
  ⟨.app, false, false, 0, #v[0, 0, 0, 0], ranges⟩

theorem mergesExactly_of_overlapping :
    MergesExactly (frameOf [⟨5, 10⟩, ⟨1, 2⟩]) (frameOf [⟨4, 6⟩]) ∧
    mergeAcks (frameOf [⟨5, 10⟩, ⟨1, 2⟩]) (frameOf [⟨4, 6⟩]) =
      (frameOf [⟨4, 10⟩, ⟨1, 2⟩], 0) := by
  refine ⟨(mergesExactly_iff ⟨⟨?_, ?_⟩, ?_⟩ ⟨⟨?_, ?_⟩, ?_⟩).2 ?_, by decide⟩
  · decide
  · decide
  · decide
  · decide
  · decide
  · decide
  · rintro ⟨-, h | h⟩
    · exact absurd h (by simp [Hides, frameOf])
    · exact absurd h (by simp [Hides, frameOf])

/-- What is below the range of the new frame is forgotten. -/
theorem nested_range_forgets :
    (frameOf [⟨1, 10⟩]).Valid ∧ (frameOf [⟨3, 5⟩]).Valid ∧
    mergeAcks (frameOf [⟨1, 10⟩]) (frameOf [⟨3, 5⟩]) = (frameOf [⟨3, 10⟩], 0) ∧
    ¬ MergesExactly (frameOf [⟨1, 10⟩]) (frameOf [⟨3, 5⟩]) := by
  have hm : mergeAcks (frameOf [⟨1, 10⟩]) (frameOf [⟨3, 5⟩]) = (frameOf [⟨3, 10⟩], 0) := by decide
  refine ⟨⟨⟨by decide, by decide⟩, by decide⟩, ⟨⟨by decide, by decide⟩, by decide⟩, hm, fun h => ?_⟩
  rw [MergesExactly, hm] at h
  exact absurd (((h.1 rfl).2 1).2 (.inl (by decide))) (by decide)

end QuicArt
