import QuicArt.Ranges
import QuicArt.Varint
import QuicArt.WindowSpec

namespace QuicArt

def twobitTo1246 (bits : Nat) : Nat := 2 * bits + if bits = 0 then 1 else 0

def readFloatTime16 (val : Nat) : Nat :=
  let exp := val >>> 11 &&& 0x1F
  if exp = 0 then val else (val &&& 0x7FF ||| 0x800) <<< (exp - 1)

/-- The fields of a frame; a block is a gap and a length. -/
structure GquicAckFields where
  largest : Nat
  lackDelta : Nat
  first : Nat
  blocks : List (Nat × Nat)

def readBlocks (len : Nat) : Nat → List UInt8 → List (Nat × Nat)
  | 0, _ => []
  | n + 1, p => ((p.headD 0).toNat, bigEndian (p.tail.take len)) :: readBlocks len n
    (p.drop (1 + len))

def skipTimestamps (p : List UInt8) : Option (List UInt8) :=
  let n := (p.headD 0).toNat
  let size := if n = 0 then 0 else 5 + 3 * (n - 1)
  if p.tail.length < size then none else some (p.tail.drop size)

/-- `parse_ack_frame_with_blocks` and `parse_ack_frame_without_blocks`: the fields, and what
comes after the frame. -/
def readAckFields (type : Nat) (withBlocks : Bool) (p : List UInt8) :
    Option (GquicAckFields × List UInt8) :=
  let blockLen := twobitTo1246 (type % 4)
  let obsLen := twobitTo1246 (type / 4 % 4)
  let nBlocks := if withBlocks then (p.getD (obsLen + 2) 0).toNat else 0
  let first := p.drop (obsLen + 2 + withBlocks.toNat)
  if p.length < obsLen + 2 + blockLen + 1 then none
  else if first.length < blockLen + ((blockLen + 1) * nBlocks + 1) then none
  else (skipTimestamps (first.drop (blockLen + (blockLen + 1) * nBlocks))).map fun rest =>
    (⟨bigEndian (p.take obsLen), readFloatTime16 (bigEndian ((p.drop obsLen).take 2)),
      bigEndian (first.take blockLen), readBlocks blockLen nBlocks (first.drop blockLen)⟩, rest)

/-- The ranges below `low`; `gap` is what the blocks without a length have left. -/
def ackRanges : Nat → Nat → List (Nat × Nat) → List Span
  | _, _, [] => []
  | gap, low, (g, length) :: blocks =>
    if length = 0 then ackRanges (gap + g) low blocks
    else
      let high := sub64 (sub64 low (gap + g)) 1
      let low := add64 (sub64 high length) 1
      ⟨low, high⟩ :: ackRanges 0 low blocks

def GquicAckFields.ranges (f : GquicAckFields) : List Span :=
  let low := add64 (sub64 f.largest f.first) 1
  ⟨low, f.largest⟩ :: ackRanges 0 low f.blocks

/-- `lsquic_gquic_be_parse_ack_frame`: the ranges, the delay and the length. -/
def gquicParseAck (buf : List UInt8) : Option (List Span × Nat × Nat) :=
  let type := (buf.headD 0).toNat
  (readAckFields type (type.testBit 5) buf.tail).map fun r =>
    (r.1.ranges, r.1.lackDelta, buf.length - r.2.length)

def exactRanges : Nat → Int → List (Nat × Nat) → List (Int × Int)
  | _, _, [] => []
  | gap, low, (g, length) :: blocks =>
    if length = 0 then exactRanges (gap + g) low blocks
    else (low - (gap + g) - length, low - (gap + g) - 1) ::
      exactRanges 0 (low - (gap + g) - length) blocks

def bounds (ranges : List Span) : List (Int × Int) := ranges.map fun r => (r.low, r.high)

/-- Non-empty ranges below `low`, each with a missing number between it and the one before. -/
def Apart : Nat → List Span → Prop
  | _, [] => True
  | low, r :: ranges => r.low ≤ r.high ∧ r.high + 1 < low ∧ Apart r.low ranges

/-- There is a gap before every block, and the blocks do not go below zero. -/
def BlocksFit : Nat → Nat → List (Nat × Nat) → Prop
  | _, _, [] => True
  | gap, low, (g, length) :: blocks =>
    if length = 0 then BlocksFit (gap + g) low blocks
    else 1 ≤ gap + g ∧ gap + g + length ≤ low ∧ BlocksFit 0 (low - (gap + g + length)) blocks

theorem low_eq (h : length ≤ high + 1) (hh : high + 1 < 2 ^ 64) :
    add64 (sub64 high length) 1 = high + 1 - length := by
  rw [add64, sub64]
  omega

variable {low length gap : Nat}

theorem block_iff (h : low < 2 ^ 64) (hl : length ≠ 0) :
    (((add64 (sub64 (sub64 (sub64 low gap) 1) length) 1 : Nat) : Int) = low - gap - length ∧
        ((sub64 (sub64 low gap) 1 : Nat) : Int) = low - gap - 1) ∧
      add64 (sub64 (sub64 (sub64 low gap) 1) length) 1 ≤ sub64 (sub64 low gap) 1 ∧
      sub64 (sub64 low gap) 1 + 1 < low ↔ 1 ≤ gap ∧ gap + length ≤ low := by
  constructor
  · omega
  · rintro ⟨hg, hle⟩
    have hh : sub64 (sub64 low gap) 1 = low - gap - 1 := by
      rw [sub64_eq (by omega) h, sub64_eq (by omega) (by omega)]
    rw [hh, low_eq (by omega) (by omega)]
    omega

theorem ackRanges_iff (h : low < 2 ^ 64) :
    bounds (ackRanges gap low blocks) = exactRanges gap low blocks ∧
      Apart low (ackRanges gap low blocks) ↔ BlocksFit gap low blocks := by
  induction blocks generalizing gap low with
  | nil => simp [ackRanges, exactRanges, bounds, BlocksFit, Apart]
  | cons b blocks ih =>
    obtain ⟨g, length⟩ := b
    simp only [ackRanges, exactRanges, BlocksFit]
    split
    · exact ih h
    next hl =>
      have hb := @block_iff low length (gap + g) h hl
      simp only [bounds, List.map_cons, List.cons.injEq, Prod.mk.injEq, Apart]
      generalize sub64 (sub64 low (gap + g)) 1 = high at hb ⊢
      generalize add64 (sub64 high length) 1 = low' at hb ⊢
      have hlow (hle : gap + g + length ≤ low) :
          ((low - (gap + g + length) : Nat) : Int) = low - (gap + g : Nat) - length := by omega
      constructor
      · rintro ⟨⟨hx, ht⟩, h1, h2, ha⟩
        obtain ⟨hg, hle⟩ := hb.1 ⟨by exact_mod_cast hx, h1, h2⟩
        have hlow' : low' = low - (gap + g + length) := by omega
        subst hlow'
        refine ⟨hg, hle, (ih (by omega)).1 ⟨?_, ha⟩⟩
        rw [hlow hle]
        exact_mod_cast ht
      · rintro ⟨hg, hle, hf⟩
        obtain ⟨hx, h1, h2⟩ := hb.2 ⟨hg, hle⟩
        have hlow' : low' = low - (gap + g + length) := by omega
        subst hlow'
        obtain ⟨ht, ha⟩ := (ih (by omega)).2 hf
        rw [hlow hle] at ht
        exact ⟨⟨by exact_mod_cast hx, by exact_mod_cast ht⟩, h1, h2, ha⟩

structure ValidAck (f : GquicAckFields) (buf : List UInt8) (ranges : List Span) (n : Nat) :
    Prop where
  apart : Apart (f.largest + 2) ranges
  exact : bounds ranges = exactRanges 1 (f.largest + 2) ((0, f.first) :: f.blocks)
  count : 1 ≤ ranges.length ∧ ranges.length ≤ 256
  length : n ≤ buf.length

theorem ackRanges_length : (ackRanges gap low blocks).length ≤ blocks.length := by
  induction blocks generalizing gap low with
  | nil => exact le_rfl
  | cons b blocks ih =>
    rw [ackRanges]
    split
    · exact Nat.le_succ_of_le ih
    · exact Nat.succ_le_succ ih

theorem readBlocks_length : (readBlocks len n p).length = n := by
  induction n generalizing p with
  | zero => rfl
  | succ n ih => rw [readBlocks, List.length_cons, ih]

theorem twobitTo1246_le (h : bits < 4) : twobitTo1246 bits ≤ 6 := by
  unfold twobitTo1246
  split <;> omega

theorem bigEndian_lt (p : List UInt8) (h : len ≤ 6) : bigEndian (p.take len) < 2 ^ 48 := by
  have := (VarintReadState.foldl_bytes 0 (p.take len)).2
  have hle : (p.take len).length ≤ 6 := (List.length_take_le ..).trans h
  exact this.trans_le ((Nat.pow_le_pow_right (by decide) hle).trans (by decide))

theorem readAckFields_spec (h : readAckFields type withBlocks p = some (f, rest)) :
    f.largest < 2 ^ 48 ∧ f.blocks.length < 256 := by
  simp only [readAckFields, Option.ite_none_left_eq_some, Option.map_eq_some_iff,
    Prod.mk.injEq] at h
  obtain ⟨-, -, _, -, rfl, -⟩ := h
  refine ⟨bigEndian_lt _ (twobitTo1246_le (Nat.mod_lt _ (by decide))), ?_⟩
  rw [readBlocks_length]
  split
  · exact UInt8.toNat_lt _
  · decide

/-- The blocks cover at least one number each, are apart, and do not go below zero. -/
def GquicAckFields.Fit (f : GquicAckFields) : Prop :=
  1 ≤ f.first ∧ f.first ≤ f.largest + 1 ∧ BlocksFit 0 (f.largest + 1 - f.first) f.blocks

theorem GquicAckFields.ranges_iff (f : GquicAckFields) (hl : f.largest + 2 < 2 ^ 64) :
    bounds f.ranges = exactRanges 1 (f.largest + 2) ((0, f.first) :: f.blocks) ∧
      Apart (f.largest + 2) f.ranges ↔ f.Fit := by
  have hhigh : sub64 (sub64 (f.largest + 2) (1 + 0)) 1 = f.largest := by
    rw [sub64_eq (by omega) hl, sub64_eq (by omega) (by omega)]
    rfl
  have h := @ackRanges_iff (f.largest + 2) 1 ((0, f.first) :: f.blocks) hl
  by_cases h0 : f.first = 0
  · -- a first block that covers nothing: its range begins above its end
    have hlow : add64 (sub64 f.largest 0) 1 = f.largest + 1 := low_eq (by omega) (by omega)
    simp only [ranges, Fit, Apart, h0, hlow]
    omega
  · rw [ackRanges, if_neg h0, hhigh, BlocksFit, if_neg h0] at h
    apply Iff.trans (by exact_mod_cast h)
    rw [Fit, show f.largest + 2 - (1 + 0 + f.first) = f.largest + 1 - f.first by omega]
    exact ⟨fun ⟨_, h1, h2⟩ => ⟨by omega, by omega, h2⟩, fun ⟨_, h1, h2⟩ => ⟨by omega, by omega, h2⟩⟩

/-- The parser is right exactly about the frames whose blocks fit. -/
theorem gquicParseAck_valid_iff (h : gquicParseAck buf = some (ranges, delta, n)) :
    ∃ f rest, readAckFields (buf.headD 0).toNat ((buf.headD 0).toNat.testBit 5) buf.tail =
      some (f, rest) ∧ (ValidAck f buf ranges n ↔ f.Fit) := by
  simp only [gquicParseAck, Option.map_eq_some_iff, Prod.mk.injEq] at h
  obtain ⟨⟨f, rest⟩, hf, rfl, -, rfl⟩ := h
  obtain ⟨hl, hb⟩ := readAckFields_spec hf
  refine ⟨f, rest, hf, ?_⟩
  rw [← f.ranges_iff (by omega)]
  refine ⟨fun h => ⟨h.exact, h.apart⟩, fun ⟨he, ha⟩ => ⟨ha, he, ⟨Nat.succ_pos _, ?_⟩,
    Nat.sub_le ..⟩⟩
  exact Nat.succ_le_of_lt (ackRanges_length.trans_lt hb)

theorem gquicParseAck_valid_iff_two :
    gquicParseAck [0x60, 9, 0, 0, 1, 3, 2, 2, 0] = some ([⟨7, 9⟩, ⟨3, 4⟩], 0, 9) ∧
    ∃ f rest, readAckFields 0x60 true [9, 0, 0, 1, 3, 2, 2, 0] = some (f, rest) ∧
      (ValidAck f [0x60, 9, 0, 0, 1, 3, 2, 2, 0] [⟨7, 9⟩, ⟨3, 4⟩] 9 ↔ f.Fit) :=
  ⟨by decide, @gquicParseAck_valid_iff [0x60, 9, 0, 0, 1, 3, 2, 2, 0] _ 0 _ (by decide)⟩

/-- A first block that covers nothing. -/
theorem gquicParseAck_invalid : ∃ ranges delta n,
    gquicParseAck [0x40, 9, 0, 0, 0, 0] = some (ranges, delta, n) ∧ ∃ r ∈ ranges, r.high < r.low :=
  ⟨[⟨10, 9⟩], 0, 6, by decide, by decide⟩

end QuicArt
