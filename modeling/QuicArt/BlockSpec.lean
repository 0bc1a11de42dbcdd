import QuicArt.DataBlock

namespace QuicArt

section
variable {k i bit n : Nat}

theorem getLsbD_lowMask (hk : k < 64) (i : Nat) :
    (((1 : BitVec 64) <<< k) - 1).getLsbD i = decide (i < k) := by
  have hp : (2 : Nat) ^ k < 2 ^ 64 := Nat.pow_lt_pow_right (by omega) hk
  have h1 : 1 ≤ 2 ^ k := Nat.one_le_two_pow
  have hn : (((1 : BitVec 64) <<< k) - 1).toNat = 2 ^ k - 1 := by
    rw [BitVec.toNat_sub]
    simp only [BitVec.toNat_shiftLeft, Nat.shiftLeft_eq]
    have h1 : (1 : BitVec 64).toNat = 1 := rfl
    rw [h1, Nat.one_mul, Nat.mod_eq_of_lt hp]
    omega
  rw [← BitVec.testBit_toNat, hn, Nat.testBit_two_pow_sub_one]

theorem getLsbD_one_shiftLeft (hk : k < 64) (i : Nat) :
    ((1 : BitVec 64) <<< k).getLsbD i = decide (i = k) := by
  have h : (1 : BitVec 64) <<< k = BitVec.twoPow 64 k := by
    simp [BitVec.twoPow_eq]
  rw [h, BitVec.getLsbD_twoPow]
  simp [hk, eq_comm]

theorem getLsbD_headMask (hb : 0 < bit) (hbit : bit < 64) (hn : bit + n ≤ 64) (hi : i < 64) :
    (DataBlock.headMask bit n).getLsbD i = decide (bit ≤ i ∧ i < bit + n) := by
  rw [DataBlock.headMask, BitVec.getLsbD_and, BitVec.getLsbD_not, BitVec.getLsbD_or,
    getLsbD_lowMask hbit, getLsbD_lowMask (by omega), getLsbD_one_shiftLeft (by omega)]
  simp only [hi, decide_true, Bool.true_and]
  rw [Bool.eq_iff_iff]
  simp only [Bool.and_eq_true, Bool.not_eq_true', Bool.or_eq_true, decide_eq_true_eq,
    decide_eq_false_iff_not]
  omega

theorem bitAt_modify_or {masks : List (BitVec 64)} (hk : k < masks.length) (m : BitVec 64) :
    bitAt (masks.modify k (· ||| m)) i =
      (bitAt masks i || (decide (i / 64 = k) && m.getLsbD (i % 64))) := by
  rw [bitAt, getD_modify _ _ _ _ (.inl hk)]
  by_cases h : i / 64 = k
  · subst h
    rw [if_pos rfl, BitVec.getLsbD_or, decide_eq_true rfl, Bool.true_and, bitAt]
  · rw [if_neg h, decide_eq_false h, Bool.false_and, Bool.or_false, bitAt]

theorem bitAt_fill {masks : List (BitVec 64)} (hk : k + n ≤ masks.length) :
    bitAt (masks.mapIdx fun j x => if k ≤ j ∧ j < k + n then BitVec.allOnes 64 else x) i =
      (bitAt masks i || decide (k * 64 ≤ i ∧ i < (k + n) * 64)) := by
  simp only [bitAt, List.getD_eq_getElem?_getD, List.getElem?_mapIdx]
  have hiff : (k * 64 ≤ i ∧ i < (k + n) * 64) ↔ k ≤ i / 64 ∧ i / 64 < k + n := by omega
  simp only [hiff]
  by_cases hin : k ≤ i / 64 ∧ i / 64 < k + n
  · have hlt : i / 64 < masks.length := by omega
    have hm : i % 64 < 64 := Nat.mod_lt _ (by omega)
    rw [List.getElem?_eq_getElem hlt, Option.map_some, if_pos hin, Option.getD_some,
      BitVec.getLsbD_allOnes, decide_eq_true hm, decide_eq_true hin, Bool.or_true]
  · simp only [if_neg hin, Option.map_id', decide_eq_false hin, Bool.or_false]

end

namespace DataBlock

def has (b : DataBlock) (i : Nat) : Bool := bitAt b.set i

structure WellFormed (b : DataBlock) : Prop where
  length : b.set.length = nDbSets
  inside : ∀ i, b.has i = true → i < dbDataSize

structure Written (b b' : DataBlock) (pos : Nat) (src : Nat → UInt8) (n : Nat) : Prop where
  off : b'.off = b.off
  length : b'.set.length = b.set.length
  has : ∀ i, b'.has i = (b.has i || decide (pos ≤ i ∧ i < pos + n))
  data : ∀ i, b'.data i = if pos ≤ i ∧ i < pos + n then src (i - pos) else b.data i

theorem Written.refl (b : DataBlock) (pos : Nat) (src : Nat → UInt8) : Written b b pos src 0 where
  off := rfl
  length := rfl
  has i := by
    rw [decide_eq_false (by omega), Bool.or_false]
  data i := by
    rw [if_neg (by omega)]

theorem Written.append (h : Written b b' pos src n)
    (h' : Written b' b'' (pos + n) (fun i => src (n + i)) m) : Written b b'' pos src (n + m) where
  off := h'.off.trans h.off
  length := h'.length.trans h.length
  has i := by
    rw [h'.has, h.has, Bool.or_assoc, ← Bool.decide_or]
    congr 2
    apply propext
    omega
  data i := by
    rw [h'.data, h.data]
    split
    next hi =>
      rw [if_pos (by omega)]
      congr 1
      omega
    next hi =>
      have hiff : (pos ≤ i ∧ i < pos + n) ↔ (pos ≤ i ∧ i < pos + (n + m)) := by omega
      simp only [hiff]

def Writer.Aligned (w : Writer) (blockOff size : Nat) : Prop :=
  w.pos ≤ size ∧ w.set ≤ nDbSets ∧ (w.pos = size ∨ blockOff + w.pos = w.set * 64)

section
variable {b b' : DataBlock} {w : Writer} {blockOff size : Nat} {src : Nat → UInt8}

theorem writeHead_spec (hl : b.set.length = nDbSets) (hb : blockOff / 64 < nDbSets)
    (src : Nat → UInt8) (size : Nat) :
    (b.writeHead blockOff src size).Aligned blockOff size ∧
    Written b (b.writeHead blockOff src size).block blockOff src
      (b.writeHead blockOff src size).pos := by
  rw [writeHead]
  split
  next hbit =>
    have hn : (if size < 64 - blockOff % 64 then size else 64 - blockOff % 64) =
        min size (64 - blockOff % 64) := by
      split <;> omega
    rw [hn]
    refine ⟨⟨Nat.min_le_left _ _, hb, ?_⟩, rfl, List.length_modify .., fun i => ?_, fun i => rfl⟩
    · dsimp only
      omega
    · simp only [has]
      rw [bitAt_modify_or (by omega)]
      congr 1
      rw [getLsbD_headMask (by omega) (Nat.mod_lt _ (by omega)) (by omega)
        (Nat.mod_lt _ (by omega)), ← Bool.decide_and,
        decide_eq_decide]
      omega
  next hbit =>
    refine ⟨⟨Nat.zero_le _, Nat.le_of_lt hb, .inr ?_⟩, Written.refl b blockOff src⟩
    dsimp only
    omega

section
variable (hw : w.Aligned blockOff size) (hl : w.block.set.length = nDbSets)
  (hb : blockOff + size ≤ dbDataSize)
include hw hl hb

theorem writeFull_spec (src : Nat → UInt8) :
    (writeFull w blockOff src size).Aligned blockOff size ∧
    size - (writeFull w blockOff src size).pos < 64 ∧
    ∃ n, (writeFull w blockOff src size).pos = w.pos + n ∧
      Written w.block (writeFull w blockOff src size).block (blockOff + w.pos)
        (fun i => src (w.pos + i)) n := by
  obtain ⟨hle, hset, ha⟩ := hw
  have hN : nDbSets * 64 = dbDataSize + 32 := rfl
  rw [writeFull]
  dsimp only
  have hwords : w.set + (size - w.pos) / 64 ≤ w.block.set.length := by omega
  refine ⟨⟨by dsimp only; omega, hl ▸ hwords, by dsimp only; omega⟩, by omega, (size - w.pos) / 64 * 64,
    rfl, rfl, List.length_mapIdx .., fun i => ?_, fun i => rfl⟩
  · simp only [has]
    rw [bitAt_fill hwords]
    congr 1
    rw [decide_eq_decide]
    omega

theorem writeTail_spec (hlt : size - w.pos < 64) (src : Nat → UInt8) :
    (writeTail w blockOff src size).pos = size ∧
    Written w.block (writeTail w blockOff src size).block (blockOff + w.pos)
      (fun i => src (w.pos + i)) (size - w.pos) := by
  obtain ⟨hle, hset, ha⟩ := hw
  have hN : nDbSets * 64 = dbDataSize + 32 := rfl
  rw [writeTail]
  split
  next hp =>
    refine ⟨rfl, rfl, List.length_modify .., fun i => ?_, fun i => rfl⟩
    simp only [has]
    rw [bitAt_modify_or (by omega), getLsbD_lowMask (by omega)]
    congr 1
    rw [← Bool.decide_and, decide_eq_decide]
    omega
  next hp =>
    have hz : size - w.pos = 0 := by omega
    rw [hz]
    exact ⟨by omega, Written.refl _ _ _⟩

end

/-- A write goes on up to the end of the block. -/
theorem write_spec (hb : b.WellFormed) (hoff : blockOff < dbDataSize) (src : Nat → UInt8)
    (size : Nat) :
    (b.write blockOff src size).2 = min size (dbDataSize - blockOff) ∧
    Written b (b.write blockOff src size).1 blockOff src (min size (dbDataSize - blockOff)) := by
  have hN : nDbSets * 64 = dbDataSize + 32 := rfl
  rw [write]
  have hs : (if dbDataSize - blockOff < size then dbDataSize - blockOff else size) =
      min size (dbDataSize - blockOff) := by
    split <;> omega
  rw [hs]
  have hle : blockOff + min size (dbDataSize - blockOff) ≤ dbDataSize := by omega
  generalize min size (dbDataSize - blockOff) = sz at hle
  obtain ⟨ha, hw⟩ := writeHead_spec hb.length (by omega : blockOff / 64 < nDbSets) src sz
  generalize b.writeHead blockOff src sz = w₁ at ha hw
  have hl₁ := hw.length.trans hb.length
  obtain ⟨ha₂, hlt, n, hn, hw₂⟩ := writeFull_spec ha hl₁ hle src
  generalize writeFull w₁ blockOff src sz = w₂ at ha₂ hlt hn hw₂
  obtain ⟨hp, hw₃⟩ := writeTail_spec ha₂ (hw₂.length.trans hl₁) hle hlt src
  refine ⟨hp, ?_⟩
  have hw' := hw.append hw₂
  rw [← hn] at hw'
  have hsum : w₂.pos + (sz - w₂.pos) = sz := by
    have hle' := ha₂.1
    omega
  have hw'' := hw'.append hw₃
  rwa [hsum] at hw''

theorem Written.wellFormed (h : Written b b' pos src n) (hb : b.WellFormed)
    (hp : pos + n ≤ dbDataSize) : b'.WellFormed where
  length := h.length.trans hb.length
  inside i hi := by
    rw [h.has, Bool.or_eq_true, decide_eq_true_eq] at hi
    rcases hi with hi | hi
    · exact hb.inside i hi
    · omega

theorem has_word (b : DataBlock) {j : Nat} (hj : j < 64) (k : Nat) :
    b.has (k * 64 + j) = (b.word k).getLsbD j := by
  have hd : (k * 64 + j) / 64 = k := by omega
  have hm : (k * 64 + j) % 64 = j := by omega
  rw [has, bitAt, hd, hm, word]

theorem exists_bit (w : BitVec 64) : w ≠ 0 ↔ ∃ j < 64, w.getLsbD j = true := by
  constructor
  · intro hw
    by_contra hn
    apply hw
    apply BitVec.eq_of_getLsbD_eq
    intro j hj
    simp only [not_exists, not_and, Bool.not_eq_true] at hn
    rw [hn j hj]
    exact BitVec.getLsbD_zero.symm
  · rintro ⟨j, -, hw⟩ rfl
    exact absurd hw (by simp)

theorem hasBytesAfter_iff (hb : b.WellFormed) (off : Nat) :
    b.hasBytesAfter off = true ↔ ∃ i, off ≤ i ∧ b.has i = true := by
  simp only [hasBytesAfter, wordsAfter, Bool.or_eq_true, bne_iff_ne, List.any_eq_true, exists_bit]
  constructor
  · rintro (⟨j, hj, hw⟩ | ⟨k, hk, j, hj, hw⟩)
    · rw [BitVec.getLsbD_ushiftRight] at hw
      have hlt := BitVec.lt_of_getLsbD hw
      rw [← has_word b hlt] at hw
      exact ⟨_, by omega, hw⟩
    · rw [← has_word b hj] at hw
      rw [List.mem_range'_1] at hk
      exact ⟨_, by omega, hw⟩
  · rintro ⟨i, hle, hi⟩
    have hlt : i < nDbSets * 64 := by
      have hin := hb.inside i hi
      have hN : nDbSets * 64 = dbDataSize + 32 := rfl
      omega
    have hw : (b.word (i / 64)).getLsbD (i % 64) = true := hi
    by_cases hk : i / 64 = off / 64
    · refine .inl ⟨i % 64 - off % 64, by omega, ?_⟩
      rw [BitVec.getLsbD_ushiftRight, ← hk]
      have he : off % 64 + (i % 64 - off % 64) = i % 64 := by omega
      rwa [he]
    · refine .inr ⟨i / 64, ?_, i % 64, by omega, hw⟩
      rw [List.mem_range'_1]
      omega

theorem ctz_spec (w : BitVec 64) (h : w ≠ 0) :
    ctz w < 64 ∧ w.getLsbD (ctz w) = true ∧ ∀ i < ctz w, w.getLsbD i = false := by
  obtain ⟨j, hj, hw⟩ := (exists_bit w).1 h
  cases hf : (List.range 64).find? fun i => w.getLsbD i with
  | none =>
    rw [List.find?_eq_none] at hf
    exact absurd hw (hf j (List.mem_range.2 hj))
  | some i =>
    rw [ctz, hf, Option.getD_some]
    rw [List.find?_range_eq_some] at hf
    obtain ⟨hb, hi, hall⟩ := hf
    exact ⟨List.mem_range.1 hi, hb, fun j hj => by simpa using hall j hj⟩

def Run (b : DataBlock) (o n : Nat) : Prop :=
  (∀ i < n, b.has (o + i) = true) ∧ b.has (o + n) = false

theorem Run.append {o m n : Nat} (hm : ∀ i < m, b.has (o + i) = true) (h : b.Run (o + m) n) :
    b.Run o (m + n) := by
  refine ⟨fun i hi => ?_, by rw [← Nat.add_assoc]; exact h.2⟩
  by_cases hlt : i < m
  · exact hm i hlt
  · have he : o + i = o + m + (i - m) := by omega
    rw [he]
    exact h.1 _ (by omega)

theorem fullWords_spec (b : DataBlock) (n k : Nat) :
    b.fullWords n k ≤ n ∧ (∀ j < b.fullWords n k, b.word (k + j) = BitVec.allOnes 64) ∧
    (b.fullWords n k < n → b.word (k + b.fullWords n k) ≠ BitVec.allOnes 64) := by
  induction n generalizing k with
  | zero => exact ⟨le_rfl, fun j hj => absurd hj (by simp [fullWords]), nofun⟩
  | succ n ih =>
    rw [fullWords]
    split
    next hw =>
      obtain ⟨hle, hall, hne⟩ := ih (k + 1)
      refine ⟨Nat.succ_le_succ hle, fun j hj => ?_, fun hlt => ?_⟩
      · cases j with
        | zero => exact hw
        | succ j =>
          have he : k + (j + 1) = k + 1 + j := by omega
          rw [he]
          exact hall j (by omega)
      · have he : k + (b.fullWords n (k + 1) + 1) = k + 1 + b.fullWords n (k + 1) := by omega
        rw [he]
        exact hne (by omega)
    next hw => exact ⟨Nat.zero_le _, fun j hj => absurd hj (by simp), fun _ => hw⟩

theorem run_word {k : Nat} (hw : b.word k ≠ BitVec.allOnes 64) :
    b.Run (k * 64) (ctz (~~~ b.word k)) := by
  have hne : ~~~ b.word k ≠ 0 := by
    intro h
    apply hw
    rw [← BitVec.not_not (b := b.word k), h]
    rfl
  obtain ⟨hlt, hbit, hall⟩ := ctz_spec _ hne
  rw [BitVec.getLsbD_not, decide_eq_true hlt, Bool.true_and, Bool.not_eq_true'] at hbit
  refine ⟨fun i hi => ?_, by rw [has_word b hlt, hbit]⟩
  have hi' := hall i hi
  have h64 : i < 64 := by omega
  rw [BitVec.getLsbD_not, decide_eq_true h64, Bool.true_and, Bool.not_eq_false'] at hi'
  rw [has_word b h64, hi']

theorem has_of_allOnes {k : Nat} (hw : b.word k = BitVec.allOnes 64) {i : Nat} (hi : i < 64) :
    b.has (k * 64 + i) = true := by
  rw [has_word b hi, hw, BitVec.getLsbD_allOnes, decide_eq_true hi]

theorem headPart_spec (b : DataBlock) (k : Nat) {bit : Nat} (hbit : bit < 64) :
    (~~~ (b.word k >>> bit) ≠ 0 ∧ ctz (~~~ (b.word k >>> bit)) < 64 - bit ∧
      b.Run (k * 64 + bit) (ctz (~~~ (b.word k >>> bit)))) ∨
    (¬ (~~~ (b.word k >>> bit) ≠ 0 ∧ ctz (~~~ (b.word k >>> bit)) < 64 - bit) ∧
      (if ~~~ (b.word k >>> bit) ≠ 0 then ctz (~~~ (b.word k >>> bit)) else 64) = 64 - bit ∧
      ∀ i < 64 - bit, b.has (k * 64 + bit + i) = true) := by
  have hget : ∀ i < 64 - bit, (~~~ (b.word k >>> bit)).getLsbD i = !b.has (k * 64 + bit + i) := by
    intro i hi
    have h64 : i < 64 := by omega
    rw [BitVec.getLsbD_not, decide_eq_true h64, Bool.true_and, BitVec.getLsbD_ushiftRight,
      Nat.add_assoc, has_word b (by omega)]
  have hhigh : ∀ i, 64 - bit ≤ i → i < 64 → (~~~ (b.word k >>> bit)).getLsbD i = true := by
    intro i hi h64
    rw [BitVec.getLsbD_not, decide_eq_true h64, Bool.true_and, BitVec.getLsbD_ushiftRight,
      BitVec.getLsbD_of_ge _ _ (by omega), Bool.not_false]
  generalize ~~~ (b.word k >>> bit) = part at hget hhigh
  by_cases hp : part = 0
  · subst hp
    have hz : bit = 0 := by
      by_contra hb
      have hbad := hhigh 63 (by omega) (by omega)
      simp at hbad
    refine .inr ⟨fun h => h.1 rfl, by rw [if_neg (by simp), hz], fun i hi => ?_⟩
    have hi' := hget i hi
    simpa using hi'.symm
  · obtain ⟨hlt, hc, hall⟩ := ctz_spec part hp
    by_cases hs : ctz part < 64 - bit
    · refine .inl ⟨hp, hs, fun i hi => ?_, ?_⟩
      · have hi' := hget i (by omega)
        rw [hall i hi] at hi'
        simpa using hi'.symm
      · have hi' := hget _ hs
        rw [hc] at hi'
        simpa using hi'.symm
    · have he : ctz part = 64 - bit := by
        by_contra hne
        have hbad := hall (64 - bit) (by omega)
        rw [hhigh _ le_rfl (by omega)] at hbad
        cases hbad
      refine .inr ⟨fun h => hs h.2, by rw [if_pos hp, he], fun i hi => ?_⟩
      have hi' := hget i hi
      rw [hall i (by omega)] at hi'
      simpa using hi'.symm

/-- The bytes that are there in a row are counted across the words of the bit set. -/
theorem nAvailBytes_spec (hb : b.WellFormed) {set bit : Nat} (hset : set < nDbSets)
    (hbit : bit < 64) : b.Run (set * 64 + bit) (b.nAvailBytes set bit) := by
  rw [nAvailBytes]
  dsimp only
  rcases headPart_spec b set hbit with ⟨hp, hlt, hrun⟩ | ⟨hn, hcount, hall⟩
  · rw [if_pos ⟨hp, hlt⟩]
    exact hrun
  · rw [if_neg hn, hcount]
    obtain ⟨hle, hfull, hne⟩ := fullWords_spec b (nDbSets - (set + 1)) (set + 1)
    generalize b.fullWords (nDbSets - (set + 1)) (set + 1) = full at hle hfull hne
    have hpre : ∀ i < 64 - bit + 64 * full, b.has (set * 64 + bit + i) = true := by
      intro i hi
      by_cases h : i < 64 - bit
      · exact hall i h
      · have hw := hfull ((i - (64 - bit)) / 64) (by omega)
        have hh := has_of_allOnes hw (Nat.mod_lt (i - (64 - bit)) (by omega : 0 < 64))
        have he : (set + 1 + (i - (64 - bit)) / 64) * 64 + (i - (64 - bit)) % 64 =
            set * 64 + bit + i := by omega
        rwa [he] at hh
    have he : set * 64 + bit + (64 - bit + 64 * full) = (set + 1 + full) * 64 := by omega
    split
    next hlt =>
      have hw := hne (by omega)
      have hz : ~~~ b.word (set + 1 + full) ≠ 0 := by
        intro h
        apply hw
        rw [← BitVec.not_not (b := b.word (set + 1 + full)), h]
        rfl
      rw [if_pos hz]
      apply Run.append hpre
      rw [he]
      exact run_word hw
    next hge =>
      refine ⟨hpre, ?_⟩
      rw [he, has, bitAt_of_length_le]
      rw [hb.length]
      omega

theorem Run.le {o n : Nat} (h : b.Run o n) (hb : b.WellFormed) (ho : o ≤ dbDataSize) :
    o + n ≤ dbDataSize := by
  cases n with
  | zero => exact ho
  | succ n =>
    have hlt := hb.inside _ (h.1 n (by omega))
    omega

end

end DataBlock

end QuicArt
