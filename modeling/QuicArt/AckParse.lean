import QuicArt.FlowControl
import QuicArt.Ranges
import QuicArt.VarintReaders

namespace QuicArt

/-- `vint_read` of what lies before `end`, and `p += r`. -/
def readVint (bs : List UInt8) : TpRead (Nat × List UInt8) := do
  let r ← varintRead bs bs.length
  .ok (r.1, bs.drop r.2)

/-- The number of elements of `ranges` in `struct ack_info`. -/
def ackArraySize : Nat := 256

/-- `struct ack_info` with the ranges that were stored; the counts come with `AI_ECN`. -/
structure ParsedAck where
  ranges : List Span
  nRanges : Nat
  lackDelta : Nat
  truncated : Bool
  ecnCounts : Option (Nat × Nat × Nat)
  deriving DecidableEq, Repr

/-- The loop over the further ranges; `i` is an unsigned int. -/
def ackBlocks (blockCount : Nat) :
    Nat → Nat → List Span → List UInt8 → TpRead (Nat × List Span × List UInt8)
  | 0, _, _, _ => .error .outOfFuel
  | fuel + 1, i, ranges, bs =>
    if i ≤ blockCount then do
      let gap ← readVint bs
      let block ← readVint gap.2
      if i < ackArraySize then
        match ranges[(i + 2 ^ 32 - 1) % 2 ^ 32]? with
        | none => .error .pastEnd
        | some prev =>
          let high := sub64 (sub64 prev.low gap.1) 2
          let low := sub64 high block.1
          if prev.low ≤ high ∨ high < low then .error .invalid
          else ackBlocks blockCount fuel ((i + 1) % 2 ^ 32) (ranges ++ [⟨low, high⟩]) block.2
      else ackBlocks blockCount fuel ((i + 1) % 2 ^ 32) ranges block.2
    else .ok (i, ranges, bs)

def readEcnCounts (mem bs : List UInt8) : TpRead (Option (Nat × Nat × Nat) × List UInt8) :=
  if mem.head? = some 3 then do
    let ect0 ← readVint bs
    let ect1 ← readVint ect0.2
    let ce ← readVint ect1.2
    .ok (some (ect0.1, ect1.1, ce.1), ce.2)
  else .ok (none, bs)

/-- `ietf_v1_parse_ack_frame`: the frame and its length. -/
def parseAckFrame (mem : List UInt8) (exp : Nat) : TpRead (ParsedAck × Nat) := do
  let high ← readVint mem.tail
  let delay ← readVint high.2
  let blockCount ← readVint delay.2
  let block ← readVint blockCount.2
  let low := sub64 high.1 block.1
  if high.1 < low then .error .invalid
  else do
    let (i, ranges, bs) ←
      ackBlocks blockCount.1 (block.2.length + 1) 1 [⟨low, high.1⟩] block.2
    let ecn ← readEcnCounts mem bs
    .ok ({ ranges
           nRanges := if i < ackArraySize then (blockCount.1 + 1) % 2 ^ 32 else ackArraySize
           lackDelta := delay.1 <<< exp % 2 ^ 64
           truncated := !decide (i < ackArraySize)
           ecnCounts := ecn.1 }, mem.length - ecn.2.length)

structure AckFields where
  largest : Nat
  delay : Nat
  first : Nat
  blocks : List (Nat × Nat)
  ecn : Option (Nat × Nat × Nat)
  deriving DecidableEq, Repr

def decodeBlocks : Nat → List UInt8 → Option (List (Nat × Nat) × List UInt8)
  | 0, bs => some ([], bs)
  | n + 1, bs =>
    (decodeVarint bs).bind fun gap =>
      (decodeVarint gap.2).bind fun block =>
        (decodeBlocks n block.2).map fun r => ((gap.1, block.1) :: r.1, r.2)

def decodeEcn (mem bs : List UInt8) : Option (Option (Nat × Nat × Nat) × List UInt8) :=
  if mem.head? = some 3 then
    (decodeVarint bs).bind fun ect0 =>
      (decodeVarint ect0.2).bind fun ect1 =>
        (decodeVarint ect1.2).map fun ce => (some (ect0.1, ect1.1, ce.1), ce.2)
  else some (none, bs)

/-- The fields of the frame at the beginning of the bytes, and the bytes after it. -/
def decodeAck (mem : List UInt8) : Option (AckFields × List UInt8) :=
  (decodeVarint mem.tail).bind fun largest =>
    (decodeVarint largest.2).bind fun delay =>
      (decodeVarint delay.2).bind fun count =>
        (decodeVarint count.2).bind fun first =>
          (decodeBlocks count.1 first.2).bind fun blocks =>
            (decodeEcn mem blocks.2).map fun ecn =>
              (⟨largest.1, delay.1, first.1, blocks.1, ecn.1⟩, ecn.2)

/-- The ranges below `low`; none of them may go below zero. -/
def rangesBelow (low : Nat) : List (Nat × Nat) → Option (List Span)
  | [] => some []
  | (gap, block) :: l =>
    if low < gap + 2 ∨ low - (gap + 2) < block then none
    else (rangesBelow (low - (gap + 2) - block) l).map
      (⟨low - (gap + 2) - block, low - (gap + 2)⟩ :: ·)

/-- The first range is one below two more than the largest number, without a gap. -/
def AckFields.ranges (f : AckFields) (blocks : List (Nat × Nat)) : Option (List Span) :=
  rangesBelow (f.largest + 2) ((0, f.first) :: blocks)

def WellFormedAck (mem : List UInt8) : Prop :=
  (mem.head? = some 2 ∨ mem.head? = some 3) ∧
    ∃ f rest, decodeAck mem = some (f, rest) ∧ f.ranges f.blocks ≠ none

/-- The ranges are valid and there are just as many as the array holds. -/
def FillsArray (mem : List UInt8) : Prop :=
  ∃ f rest, decodeAck mem = some (f, rest) ∧ f.blocks.length + 1 = ackArraySize ∧
    f.ranges f.blocks ≠ none

structure AckParserRight (mem : List UInt8) (exp : Nat) : Prop where
  safe : Safe (parseAckFrame mem exp)
  valid : ∀ ack n, parseAckFrame mem exp = .ok (ack, n) →
    1 ≤ ack.nRanges ∧ ack.nRanges ≤ ackArraySize ∧ ack.ranges.length = ack.nRanges ∧
      Separated ack.ranges ∧ ∀ r ∈ ack.ranges, r.high < 2 ^ 62
  whole : ∀ ack n, parseAckFrame mem exp = .ok (ack, n) →
    ∃ f rest, decodeAck mem = some (f, rest) ∧ n + rest.length = mem.length ∧
      (ack.truncated = true ↔ ackArraySize < f.blocks.length + 1)
  accepts : WellFormedAck mem → ∃ r, parseAckFrame mem exp = .ok r

section
variable {bs rest mem : List UInt8} {ranges : List Span} {prev : Span}
  {fuel i count low gap block v : Nat}

theorem readVint_eq (bs : List UInt8) : readVint bs = TpRead.ofOption (decodeVarint bs) := by
  rw [readVint, varintRead_all]
  cases hd : decodeVarint bs with
  | none => rfl
  | some r =>
    obtain ⟨v, rest⟩ := r
    obtain ⟨ys, rfl, -, -⟩ := decodeVarint_split hd
    have hn : (ys ++ rest).length - rest.length = ys.length := by
      rw [List.length_append, Nat.add_sub_cancel]
    rw [Option.map_some, TpRead.ofOption, Except.ok_bind, hn, List.drop_left, TpRead.ofOption]

theorem readEcnCounts_eq (mem bs : List UInt8) :
    readEcnCounts mem bs = TpRead.ofOption (decodeEcn mem bs) := by
  rw [readEcnCounts, decodeEcn]
  split
  · simp only [readVint_eq, TpRead.ofOption_bind, TpRead.ofOption_map]
  · rfl

theorem decodeVarint_shorter (h : decodeVarint bs = some (v, rest)) :
    rest.length < bs.length := by
  obtain ⟨ys, rfl, -, hpos⟩ := decodeVarint_split h
  rw [List.length_append]
  omega

theorem sub64_checks (hl : low < 2 ^ 62) (hg : gap < 2 ^ 62) (hb : block < 2 ^ 62) :
    (low ≤ sub64 (sub64 low gap) 2 ∨
      sub64 (sub64 low gap) 2 < sub64 (sub64 (sub64 low gap) 2) block ↔
        low < gap + 2 ∨ low - (gap + 2) < block) ∧
    (¬ (low < gap + 2 ∨ low - (gap + 2) < block) →
      sub64 (sub64 low gap) 2 = low - (gap + 2) ∧
        sub64 (sub64 (sub64 low gap) 2) block = low - (gap + 2) - block) := by
  simp only [sub64]
  omega

theorem ackBlocks_eq (hf : bs.length < fuel) (hi : i + bs.length < 2 ^ 32) (h₁ : 1 ≤ i)
    (hc : i ≤ count + 1) (hp : i < ackArraySize → ranges[i - 1]? = some prev)
    (hr : i < ackArraySize → ranges.length = i) (hlow : prev.low < 2 ^ 62) :
    ackBlocks count fuel i ranges bs =
      TpRead.ofOption ((decodeBlocks (count + 1 - i) bs).bind fun r =>
        (rangesBelow prev.low (r.1.take (ackArraySize - i))).map fun l =>
          (count + 1, ranges ++ l, r.2)) := by
  induction fuel generalizing i bs ranges prev with
  | zero => exact absurd hf (Nat.not_lt_zero _)
  | succ fuel ih =>
    rw [ackBlocks]
    split
    next hle =>
      obtain ⟨n, hn⟩ : ∃ n, count + 1 - i = n + 1 := ⟨count - i, by omega⟩
      have hn' : count + 1 - (i + 1) = n := by omega
      simp only [hn, decodeBlocks, readVint_eq, TpRead.ofOption_bind, TpRead.ofOption_map,
        bind_assoc]
      refine TpRead.bind_congr fun gap hg => TpRead.bind_congr fun block hb => ?_
      have hlen₁ := decodeVarint_shorter hg
      have hlen₂ := decodeVarint_shorter hb
      have hmod : (i + 1) % 2 ^ 32 = i + 1 := Nat.mod_eq_of_lt (by omega)
      have hix : (i + 2 ^ 32 - 1) % 2 ^ 32 = i - 1 := by omega
      rw [hmod, hix]
      split
      next hlt =>
        obtain ⟨hcheck, hval⟩ := sub64_checks hlow (VarintReadState.decodeVarint_lt hg)
          (VarintReadState.decodeVarint_lt hb)
        obtain ⟨k, hk⟩ : ∃ k, ackArraySize - i = k + 1 := ⟨ackArraySize - i - 1, by omega⟩
        have hk' : ackArraySize - (i + 1) = k := by omega
        rw [hp hlt]
        simp only [hcheck, hk, Except.ok_bind, List.take_succ_cons, rangesBelow]
        by_cases hbad : prev.low < gap.1 + 2 ∨ prev.low - (gap.1 + 2) < block.1
        · simp only [if_pos hbad, TpRead.none_bind, TpRead.bind_invalid]
        · obtain ⟨hhigh, hlow'⟩ := hval hbad
          rw [if_neg hbad, hlow', hhigh,
            @ih block.2 _ ⟨prev.low - (gap.1 + 2) - block.1, prev.low - (gap.1 + 2)⟩ (i + 1)
            (by omega) (by omega) (by omega) (by omega)
            (fun _ => by rw [Nat.add_sub_cancel, ← hr hlt, List.getElem?_concat_length])
            (fun _ => by rw [List.length_append, hr hlt, List.length_singleton])
            (by show prev.low - (gap.1 + 2) - block.1 < 2 ^ 62; omega), hn', hk']
          simp only [TpRead.ofOption_bind, TpRead.ofOption_map, if_neg hbad, bind_assoc,
            Except.ok_bind, List.append_assoc, List.singleton_append]
      next hge =>
        have hz : ackArraySize - i = 0 := by omega
        have hz' : ackArraySize - (i + 1) = 0 := by omega
        rw [@ih block.2 ranges prev (i + 1) (by omega) (by omega) (by omega) (by omega)
          (fun h => absurd h (by omega)) (fun h => absurd h (by omega)) hlow, hn', hz, hz']
        simp only [TpRead.ofOption_bind, TpRead.ofOption_map, Except.ok_bind, List.take_zero]
    next hgt =>
      have hn : count + 1 - i = 0 := by omega
      have hi : i = count + 1 := by omega
      rw [hn, decodeBlocks, Option.bind_some, List.take_nil, rangesBelow, Option.map_some,
        List.append_nil, ← hi]
      rfl

theorem decodeBlocks_length {n : Nat} {r : List (Nat × Nat) × List UInt8}
    (h : decodeBlocks n bs = some r) : r.1.length = n ∧ r.2.length + n ≤ bs.length := by
  induction n generalizing bs r with
  | zero =>
    cases h
    exact ⟨rfl, le_rfl⟩
  | succ n ih =>
    simp only [decodeBlocks, Option.bind_eq_some_iff, Option.map_eq_some_iff] at h
    obtain ⟨gap, hg, block, hb, r', hr, rfl⟩ := h
    obtain ⟨hl, hle⟩ := ih hr
    have h₁ := decodeVarint_shorter hg
    have h₂ := decodeVarint_shorter hb
    refine ⟨by rw [List.length_cons, hl], ?_⟩
    show r'.2.length + (n + 1) ≤ bs.length
    omega

theorem AckFields.ranges_eq (f : AckFields) (blocks : List (Nat × Nat)) :
    f.ranges blocks = if f.largest < f.first then none
      else (rangesBelow (f.largest - f.first) blocks).map
        (⟨f.largest - f.first, f.largest⟩ :: ·) := by
  have hc : f.largest + 2 < 2 ∨ f.largest < f.first ↔ f.largest < f.first := by omega
  simp only [AckFields.ranges, rangesBelow, Nat.zero_add, Nat.add_sub_cancel, hc]

theorem parseAckFrame_eq (h : mem.length < 2 ^ 31) (exp : Nat) :
    parseAckFrame mem exp =
      TpRead.ofOption ((decodeAck mem).bind fun r =>
        (r.1.ranges (r.1.blocks.take (ackArraySize - 1))).map fun ranges =>
          ({ ranges
             nRanges := min (r.1.blocks.length + 1) ackArraySize
             lackDelta := r.1.delay <<< exp % 2 ^ 64
             truncated := decide (ackArraySize ≤ r.1.blocks.length + 1)
             ecnCounts := r.1.ecn }, mem.length - r.2.length)) := by
  simp only [parseAckFrame, decodeAck, readVint_eq, TpRead.ofOption_bind, TpRead.ofOption_map,
    bind_assoc, Except.ok_bind]
  refine TpRead.bind_congr fun high h₁ => TpRead.bind_congr fun delay h₂ =>
    TpRead.bind_congr fun count h₃ => TpRead.bind_congr fun block h₄ => ?_
  have hlt := VarintReadState.decodeVarint_lt h₁
  have hlt' := VarintReadState.decodeVarint_lt h₄
  have hs₁ := decodeVarint_shorter h₁
  have hs₂ := decodeVarint_shorter h₂
  have hs₃ := decodeVarint_shorter h₃
  have hs₄ := decodeVarint_shorter h₄
  rw [List.length_tail] at hs₁
  have hcheck : high.1 < sub64 high.1 block.1 ↔ high.1 < block.1 := by
    simp only [sub64]
    omega
  simp only [hcheck, AckFields.ranges_eq]
  by_cases hbad : high.1 < block.1
  · simp only [if_pos hbad, TpRead.none_bind, TpRead.bind_invalid]
  · have hsub : sub64 high.1 block.1 = high.1 - block.1 := by
      simp only [sub64]
      omega
    rw [if_neg hbad, hsub, @ackBlocks_eq block.2 _ ⟨high.1 - block.1, high.1⟩ _ 1 count.1
      (Nat.lt_succ_self _) (by omega) le_rfl (Nat.le_add_left _ _) (fun _ => rfl)
      (fun _ => rfl) (by show high.1 - block.1 < 2 ^ 62; omega), Nat.add_sub_cancel]
    simp only [TpRead.ofOption_bind, TpRead.ofOption_map, readEcnCounts_eq, bind_assoc,
      Except.ok_bind, if_neg hbad]
    refine TpRead.bind_congr fun blocks hd => ?_
    obtain ⟨hcount, hle⟩ := decodeBlocks_length hd
    have hmod : (count.1 + 1) % 2 ^ 32 = count.1 + 1 := Nat.mod_eq_of_lt (by omega)
    have hmin : (if count.1 + 1 < ackArraySize then count.1 + 1 else ackArraySize) =
        min (count.1 + 1) ackArraySize := by
      split <;> omega
    have htr : (!decide (count.1 + 1 < ackArraySize)) =
        decide (ackArraySize ≤ count.1 + 1) := by
      rw [← decide_not, decide_eq_decide, Nat.not_lt]
    simp only [hcount, hmod, hmin, htr, List.singleton_append]
    -- The source goes through the ranges before it reads the counts.
    cases rangesBelow (high.1 - block.1) (blocks.1.take (ackArraySize - 1)) with
    | none => simp only [TpRead.none_bind, TpRead.bind_invalid]
    | some l => rfl

theorem rangesBelow_some {l : List (Nat × Nat)} (h : rangesBelow low l = some ranges) :
    Separated ranges ∧ (∀ r ∈ ranges, r.high + 1 < low) ∧ ranges.length = l.length := by
  induction l generalizing low ranges with
  | nil =>
    cases h
    exact ⟨⟨by simp, .nil⟩, by simp, rfl⟩
  | cons pair l ih =>
    rw [rangesBelow] at h
    split at h
    · cases h
    next hok =>
      obtain ⟨rs, hrs, rfl⟩ := Option.map_eq_some_iff.1 h
      obtain ⟨hsep, hbelow, hlen⟩ := ih hrs
      refine ⟨⟨?_, List.pairwise_cons.2 ⟨hbelow, hsep.order⟩⟩, ?_, ?_⟩
      · intro r hr
        rcases List.mem_cons.1 hr with rfl | hr
        · exact Nat.sub_le _ _
        · exact hsep.valid r hr
      · intro r hr
        rcases List.mem_cons.1 hr with rfl | hr
        · show low - (pair.1 + 2) + 1 < low
          omega
        · have := hbelow r hr
          omega
      · rw [List.length_cons, List.length_cons, hlen]

theorem rangesBelow_take {l : List (Nat × Nat)} (h : rangesBelow low l ≠ none) (k : Nat) :
    rangesBelow low (l.take k) ≠ none := by
  induction l generalizing low k with
  | nil => simpa using h
  | cons pair l ih =>
    cases k with
    | zero => simp [rangesBelow]
    | succ k =>
      rw [List.take_succ_cons, rangesBelow]
      rw [rangesBelow] at h
      split
      next hbad => exact absurd (if_pos hbad) h
      next hok =>
        rw [if_neg hok, ne_eq, Option.map_eq_none_iff] at h
        rw [ne_eq, Option.map_eq_none_iff]
        exact ih h k

variable {f : AckFields}

theorem decodeEcn_length {r : Option (Nat × Nat × Nat) × List UInt8}
    (h : decodeEcn mem bs = some r) : r.2.length ≤ bs.length := by
  rw [decodeEcn] at h
  split at h
  · simp only [Option.bind_eq_some_iff, Option.map_eq_some_iff] at h
    obtain ⟨ect0, h₀, ect1, h₁, ce, h₂, rfl⟩ := h
    have := decodeVarint_shorter h₀
    have := decodeVarint_shorter h₁
    have := decodeVarint_shorter h₂
    show ce.2.length ≤ bs.length
    omega
  · cases h
    exact le_rfl

theorem decodeAck_bounds (h : decodeAck mem = some (f, rest)) :
    f.largest < 2 ^ 62 ∧ rest.length ≤ mem.length := by
  simp only [decodeAck, Option.bind_eq_some_iff, Option.map_eq_some_iff] at h
  obtain ⟨largest, h₁, delay, h₂, count, h₃, first, h₄, blocks, h₅, ecn, h₆, he⟩ := h
  cases he
  refine ⟨VarintReadState.decodeVarint_lt h₁, ?_⟩
  have hs₁ := decodeVarint_shorter h₁
  rw [List.length_tail] at hs₁
  have hs₂ := decodeVarint_shorter h₂
  have hs₃ := decodeVarint_shorter h₃
  have hs₄ := decodeVarint_shorter h₄
  have hs₅ := (decodeBlocks_length h₅).2
  have hs₆ := decodeEcn_length h₆
  omega

theorem parseAckFrame_ok (h : mem.length < 2 ^ 31) {ack : ParsedAck} {n : Nat}
    (hp : parseAckFrame mem exp = .ok (ack, n)) :
    ∃ f rest, decodeAck mem = some (f, rest) ∧
      f.ranges (f.blocks.take (ackArraySize - 1)) = some ack.ranges ∧
      ack.nRanges = min (f.blocks.length + 1) ackArraySize ∧
      ack.truncated = decide (ackArraySize ≤ f.blocks.length + 1) ∧
      n = mem.length - rest.length := by
  rw [parseAckFrame_eq h, TpRead.ofOption_eq_ok, Option.bind_eq_some_iff] at hp
  obtain ⟨⟨f, rest⟩, hd, hp⟩ := hp
  obtain ⟨ranges, hr, he⟩ := Option.map_eq_some_iff.1 hp
  cases he
  exact ⟨f, rest, hd, hr, rfl, rfl, rfl⟩

theorem parseAckFrame_accepts (h : mem.length < 2 ^ 31) (hd : decodeAck mem = some (f, rest))
    (hr : f.ranges f.blocks ≠ none) (exp : Nat) : ∃ r, parseAckFrame mem exp = .ok r := by
  have ht : f.ranges (f.blocks.take (ackArraySize - 1)) ≠ none := rangesBelow_take hr ackArraySize
  obtain ⟨ranges, hr⟩ := Option.ne_none_iff_exists'.1 ht
  rw [parseAckFrame_eq h, hd, Option.bind_some]
  simp only [hr, Option.map_some]
  exact ⟨_, rfl⟩

end

/-- Frames with just as many ranges as the array holds are taken for truncated. -/
theorem ackParserRight_iff {mem : List UInt8} (h : mem.length < 2 ^ 31) (exp : Nat) :
    AckParserRight mem exp ↔ ¬ FillsArray mem := by
  constructor
  · rintro hR ⟨f, rest, hd, hlen, hr⟩
    obtain ⟨⟨ack, n⟩, hp⟩ := parseAckFrame_accepts h hd hr exp
    obtain ⟨f', rest', hd', -, -, ht', -⟩ := parseAckFrame_ok h hp
    obtain ⟨f'', rest'', hd'', -, ht⟩ := hR.whole ack n hp
    obtain ⟨rfl, rfl⟩ := Prod.mk.inj (Option.some.inj (hd.symm.trans hd'))
    obtain ⟨rfl, rfl⟩ := Prod.mk.inj (Option.some.inj (hd.symm.trans hd''))
    rw [ht', decide_eq_true_eq, hlen] at ht
    exact absurd (ht.1 le_rfl) (Nat.lt_irrefl _)
  · intro hN
    refine ⟨?_, ?_, ?_, ?_⟩
    · rw [parseAckFrame_eq h]
      exact Safe.ofOption _
    · intro ack n hp
      obtain ⟨f, rest, hd, hr, hn, -, -⟩ := parseAckFrame_ok h hp
      obtain ⟨hsep, hle, hlen⟩ := rangesBelow_some hr
      have hbig := (decodeAck_bounds hd).1
      rw [List.length_cons, List.length_take] at hlen
      have hmax : ackArraySize = 256 := rfl
      refine ⟨by omega, by omega, by omega, hsep, ?_⟩
      intro r hr
      have := hle r hr
      omega
    · intro ack n hp
      obtain ⟨f, rest, hd, hr, -, ht, hn⟩ := parseAckFrame_ok h hp
      have hle := (decodeAck_bounds hd).2
      refine ⟨f, rest, hd, by omega, ?_⟩
      rw [ht, decide_eq_true_eq]
      have hne : f.blocks.length + 1 ≠ ackArraySize := by
        intro he
        have htake : f.blocks.take (ackArraySize - 1) = f.blocks :=
          List.take_of_length_le (by omega)
        rw [htake] at hr
        exact hN ⟨f, rest, hd, he, by simp [hr]⟩
      omega
    · rintro ⟨-, f, rest, hd, hr⟩
      exact parseAckFrame_accepts h hd hr exp

theorem ackParserRight_of_two_ranges : AckParserRight [2, 9, 0, 1, 2, 1, 1] 3 := by
  apply (ackParserRight_iff (by decide) 3).2
  rintro ⟨f, rest, hd, hlen, -⟩
  have he : decodeAck [2, 9, 0, 1, 2, 1, 1] = some (⟨9, 0, 2, [(1, 1)], none⟩, []) := by decide
  obtain ⟨rfl, -⟩ := Prod.mk.inj (Option.some.inj (he.symm.trans hd))
  cases hlen

def fullAck : List UInt8 := [2, 0x42, 0, 0, 0x40, 0xFF, 0] ++ List.replicate 510 0

theorem fullAck_truncated :
    WellFormedAck fullAck ∧
      (decodeAck fullAck).map (fun r => r.1.blocks.length + 1) = some ackArraySize ∧
      (parseAckFrame fullAck 3).map (fun r => r.1.truncated) = .ok true := by
  refine ⟨⟨.inl rfl, ?_⟩, by decide +kernel, by decide +kernel⟩
  have h : ((decodeAck fullAck).any fun r => (r.1.ranges r.1.blocks).isSome) = true := by
    decide +kernel
  obtain ⟨⟨f, rest⟩, hd, hr⟩ := (Option.any_eq_true _ _).1 h
  exact ⟨f, rest, hd, Option.isSome_iff_ne_none.1 hr⟩

end QuicArt
