import QuicArt.BlockSpec
import QuicArt.HashDataIn

namespace QuicArt

structure Memory.Ample (mem : Memory) : Prop where
  block : ∀ k, mem.block k = true
  buckets : ∀ n, mem.buckets n = true
  dataIn : mem.dataIn = true

theorem dbDataSize_pos : 0 < dbDataSize := by decide

def keyOf (x : Nat) : Nat := x - x % dbDataSize

section
variable {x k i : Nat}

theorem keyOf_add_mod (x : Nat) : keyOf x + x % dbDataSize = x :=
  Nat.sub_add_cancel (Nat.mod_le _ _)

theorem keyOf_le (x : Nat) : keyOf x ≤ x := Nat.sub_le _ _

theorem lt_keyOf (x : Nat) : x < keyOf x + dbDataSize := by
  have hx := keyOf_add_mod x
  have hm := Nat.mod_lt x dbDataSize_pos
  omega

theorem keyOf_mod (x : Nat) : keyOf x % dbDataSize = 0 := by
  rw [keyOf, ← Nat.mul_div_self_eq_mod_sub_self, Nat.mul_mod_right]

section
variable (hk : k % dbDataSize = 0)
include hk

theorem mod_key (hi : i < dbDataSize) : (k + i) % dbDataSize = i := by
  rw [Nat.add_mod, hk, Nat.zero_add, Nat.mod_mod, Nat.mod_eq_of_lt hi]

theorem keyOf_key (hi : i < dbDataSize) : keyOf (k + i) = k := by
  rw [keyOf, mod_key hk hi, Nat.add_sub_cancel]

theorem key_add : (k + dbDataSize) % dbDataSize = 0 := by
  rw [Nat.add_mod_right, hk]

theorem keyOf_eq (hle : k ≤ x) (hlt : x < k + dbDataSize) : keyOf x = k := by
  have hx : x = k + (x - k) := by omega
  rw [hx]
  exact keyOf_key hk (by omega)

theorem key_le_keyOf (hle : k ≤ x) : k ≤ keyOf x := by
  obtain ⟨a, rfl⟩ := Nat.dvd_of_mod_eq_zero hk
  rw [keyOf, ← Nat.mul_div_self_eq_mod_sub_self]
  exact Nat.mul_le_mul_left _ ((Nat.le_div_iff_mul_le dbDataSize_pos).2 (by rwa [Nat.mul_comm]))

theorem key_lt_key (hi : i % dbDataSize = 0) (hlt : k < i) : k + dbDataSize ≤ i := by
  by_contra hn
  have hki := keyOf_eq hk (Nat.le_of_lt hlt) (by omega)
  have hii := keyOf_eq hi (Nat.le_refl i) (by have hp := dbDataSize_pos; omega)
  omega

end

end

namespace HashDataIn

def byteAt (h : HashDataIn) (x : Nat) : Option UInt8 :=
  match h.find (keyOf x) with
  | some b => if b.has (x % dbDataSize) then some (b.data (x % dbDataSize)) else none
  | none => none

def HasBlock (h : HashDataIn) (k : Nat) : Prop := (h.find k).isSome = true

structure WellFormed (h : HashDataIn) : Prop where
  table : h.buckets.WellFormed DataBlock.off blockNo
  count : h.count = h.buckets.total
  block : ∀ k b, h.find k = some b → b.WellFormed
  aligned : ∀ k, h.HasBlock k → k % dbDataSize = 0

def frame (h : HashDataIn) := (h.fin, h.finOff, h.lastBlock, h.dataFrame, h.switchImpl)

section
variable {h h' : HashDataIn} {k x : Nat} {b b' : DataBlock} {mem : Memory}

theorem off_of_find (hf : h.find k = some b) : b.off = k := Buckets.find_key hf

theorem blockAt_of_find (hf : h.find k = some b) : h.blockAt k = b := by
  rw [blockAt, hf, Option.getD_some]

theorem HasBlock.find (hk : h.HasBlock k) : h.find k = some (h.blockAt k) := by
  obtain ⟨b, hb⟩ := Option.isSome_iff_exists.1 hk
  rw [blockAt_of_find hb, hb]

theorem HasBlock.of_byteAt (hx : h.byteAt x ≠ none) : h.HasBlock (keyOf x) := by
  rw [HasBlock]
  cases hf : h.find (keyOf x) with
  | none => exact absurd (by rw [byteAt, hf]) hx
  | some b => rfl

theorem new_wellFormed (hn : new mem n = some h) : h.WellFormed ∧ (∀ x, h.byteAt x = none) ∧
    (∀ k, ¬ h.HasBlock k) ∧ h.fin = false := by
  rw [new] at hn
  split at hn
  · cases hn
    have hfind : ∀ nb k, (⟨Buckets.empty nb, false, 0, none, {}, 0, false⟩ : HashDataIn).find k =
        none := fun nb k => Buckets.find_empty nb k
    refine ⟨⟨Buckets.empty_wellFormed _, (Buckets.total_empty _).symm, fun k b hf => ?_,
      fun k hk => ?_⟩, fun x => ?_, fun k hk => ?_, rfl⟩
    · rw [hfind] at hf
      cases hf
    · rw [HasBlock, hfind] at hk
      cases hk
    · rw [byteAt, hfind]
    · rw [HasBlock, hfind] at hk
      cases hk
  · cases hn

theorem has_new (i : Nat) (off : Nat) : ({ off } : DataBlock).has i = false := by
  rw [DataBlock.has, bitAt, List.getD_eq_getElem?_getD, List.getElem?_replicate]
  split <;> exact BitVec.getLsbD_zero

theorem new_block_wellFormed (off : Nat) : ({ off } : DataBlock).WellFormed where
  length := List.length_replicate
  inside i hi := by
    rw [has_new] at hi
    cases hi

theorem insert_spec (hh : h.WellFormed) (hb : b.WellFormed) (hal : b.off % dbDataSize = 0)
    (hn : h.find b.off = none) (hi : h.insert mem b = some h') :
    h'.WellFormed ∧ h'.frame = h.frame ∧
    ∀ k, h'.find k = if k = b.off then some b else h.find k := by
  rw [insert] at hi
  split at hi
  · cases hi
  next hmem =>
    cases hi
    obtain ⟨t, ht, hwt, htot, hfind⟩ : ∃ t : Buckets DataBlock,
        (if 2 ^ h.buckets.nbits / 2 ≤ h.count then h.buckets.grow DataBlock.off blockNo
          else h.buckets) = t ∧ t.WellFormed DataBlock.off blockNo ∧ t.total = h.buckets.total ∧
        ∀ k, t.find DataBlock.off blockNo k = h.find k := by
      refine ⟨_, rfl, ?_⟩
      split
      · exact ⟨Buckets.grow_wellFormed hh.table, Buckets.total_grow,
          fun k => Buckets.find_grow hh.table k⟩
      · exact ⟨hh.table, rfl, fun k => rfl⟩
    have hnone : t.find DataBlock.off blockNo b.off = none := (hfind _).trans hn
    have hf : ∀ k, (t.insert DataBlock.off blockNo b).find DataBlock.off blockNo k =
        if k = b.off then some b else h.find k := by
      intro k
      rw [Buckets.find_insert hwt hnone, hfind]
    simp only [ht]
    refine ⟨⟨Buckets.insert_wellFormed hwt hnone, ?_, fun k c hc => ?_, fun k hk => ?_⟩, rfl, hf⟩
    · rw [Buckets.total_insert hwt, htot, hh.count]
    · rw [find, hf] at hc
      split at hc
      · cases hc
        exact hb
      · exact hh.block k c hc
    · rw [HasBlock, find, hf] at hk
      split at hk
      next hk' => rw [hk', hal]
      · exact hh.aligned k hk

theorem findOrNew_spec (hh : h.WellFormed) (hk : k % dbDataSize = 0)
    (hf : h.findOrNew mem k = some h') :
    h'.WellFormed ∧ h'.frame = h.frame ∧ (∀ x, h'.byteAt x = h.byteAt x) ∧
    ∀ k', h'.HasBlock k' ↔ h.HasBlock k' ∨ k' = k := by
  rw [findOrNew] at hf
  split at hf
  next hs =>
    cases hf
    refine ⟨hh, rfl, fun x => rfl, fun k' => ⟨.inl, ?_⟩⟩
    rintro (hk' | rfl)
    · exact hk'
    · exact hs
  next hs =>
    rw [newBlock] at hf
    split at hf
    · have hnone : h.find k = none := by simpa using hs
      obtain ⟨hh', hfr, hfind⟩ :=
        insert_spec hh (new_block_wellFormed k) (b := { off := k }) hk hnone hf
      refine ⟨hh', hfr, fun x => ?_, fun k' => ?_⟩
      · rw [byteAt, byteAt, hfind]
        by_cases hx : keyOf x = k
        · rw [if_pos hx, hx, hnone]
          simp only [has_new, Bool.false_eq_true, if_false]
        · rw [if_neg hx]
      · rw [HasBlock, HasBlock, hfind]
        by_cases hk' : k' = k
        · simp [hk']
        · simp [hk']
    · cases hf

theorem findOrNew_isSome (hm : mem.Ample) (h : HashDataIn) (k : Nat) :
    (h.findOrNew mem k).isSome = true := by
  rw [findOrNew]
  split
  · rfl
  · rw [newBlock, if_pos (hm.block k), insert, if_neg (by simp [hm.buckets]), Option.isSome_some]

theorem setBlock_spec (hh : h.WellFormed) (hf : h.find k = some b) (hw : b.Written b' o src n)
    (hle : o + n ≤ dbDataSize) :
    (h.setBlock k b').WellFormed ∧ (h.setBlock k b').frame = h.frame ∧
    (∀ x, (h.setBlock k b').byteAt x =
      if k + o ≤ x ∧ x < k + o + n then some (src (x - (k + o))) else h.byteAt x) ∧
    (h.setBlock k b').find k = some b' ∧
    ∀ k', (h.setBlock k b').HasBlock k' ↔ h.HasBlock k' := by
  have hal : k % dbDataSize = 0 := hh.aligned k (by rw [HasBlock, hf]; rfl)
  have hbk : b.off = k := off_of_find hf
  have hkey : ∀ a : DataBlock, a.off = k → b'.off = a.off := by
    intro a ha
    rw [hw.off, hbk, ha]
  have hfind : ∀ k', (h.setBlock k b').find k' = if k' = k then some b' else h.find k' := by
    intro k'
    rw [find, setBlock, Buckets.find_update hh.table hkey]
    split
    · have hf' : h.buckets.find DataBlock.off blockNo k = some b := hf
      rw [hf', Option.map_some]
    · rfl
  have hblocks : ∀ k', (h.setBlock k b').HasBlock k' ↔ h.HasBlock k' := by
    intro k'
    rw [HasBlock, HasBlock, hfind]
    split
    next hk' => rw [hk', hf]; simp
    · rfl
  refine ⟨⟨?_, ?_, fun k' c hc => ?_, fun k' hk' => hh.aligned k' ((hblocks k').1 hk')⟩, rfl,
    fun x => ?_, by rw [hfind, if_pos rfl], hblocks⟩
  · exact Buckets.update_wellFormed hh.table hkey
  · exact hh.count.trans (Buckets.total_update k).symm
  · rw [hfind] at hc
    split at hc
    · cases hc
      exact hw.wellFormed (hh.block k b hf) hle
    · exact hh.block k' c hc
  · rw [byteAt, hfind]
    by_cases hx : keyOf x = k
    · have hxk := keyOf_add_mod x
      rw [hx] at hxk
      rw [if_pos hx, byteAt, hx, hf]
      simp only [hw.has, hw.data]
      by_cases hin : o ≤ x % dbDataSize ∧ x % dbDataSize < o + n
      · have hsub : x % dbDataSize - o = x - (k + o) := by omega
        rw [if_pos (by simp [hin]), if_pos hin, if_pos (by omega), hsub]
      · rw [if_neg (by omega : ¬ (k + o ≤ x ∧ x < k + o + n)), decide_eq_false hin, Bool.or_false,
          if_neg hin]
    · have hout : ¬ (k + o ≤ x ∧ x < k + o + n) := fun hin =>
        hx (keyOf_eq hal (by omega) (by omega))
      rw [if_neg hx, if_neg hout, byteAt]

structure Wrote (h h' : HashDataIn) (off : Nat) (data : Nat → UInt8) (m : Nat) : Prop where
  wellFormed : h'.WellFormed
  frame : h'.frame = h.frame
  byteAt : ∀ x, h'.byteAt x = if off ≤ x ∧ x < off + m then some (data (x - off)) else h.byteAt x

theorem Wrote.append {h'' : HashDataIn} {data : Nat → UInt8} (hw : Wrote h h' off data m)
    (hw' : Wrote h' h'' (off + m) (fun i => data (m + i)) m') :
    Wrote h h'' off data (m + m') where
  wellFormed := hw'.wellFormed
  frame := hw'.frame.trans hw.frame
  byteAt x := by
    rw [hw'.byteAt, hw.byteAt]
    split
    next hx =>
      have he : m + (x - (off + m)) = x - off := by omega
      rw [if_pos (by omega), he]
    next hx =>
      have hiff : (off ≤ x ∧ x < off + m) ↔ (off ≤ x ∧ x < off + (m + m')) := by omega
      simp only [hiff]

def lastKey (off size : Nat) : Nat := if size = 0 then keyOf off else keyOf (off + size - 1)

theorem lastKey_mod (off size : Nat) : lastKey off size % dbDataSize = 0 := by
  rw [lastKey]
  split <;> exact keyOf_mod _

theorem keyOf_le_lastKey (off size : Nat) : keyOf off ≤ lastKey off size := by
  rw [lastKey]
  split
  · exact le_rfl
  · exact key_le_keyOf (keyOf_mod off) (by have hle := keyOf_le off; omega)

theorem lastKey_of_le (hle : off % dbDataSize + size ≤ dbDataSize) :
    lastKey off size = keyOf off := by
  rw [lastKey]
  split
  · rfl
  next hs =>
    have hoff := keyOf_add_mod off
    exact keyOf_eq (keyOf_mod off) (by omega) (by omega)

theorem lastKey_add (hlt : m < size) : lastKey (off + m) (size - m) = lastKey off size := by
  have he : off + m + (size - m) - 1 = off + size - 1 := by omega
  rw [lastKey, lastKey, if_neg (by omega), if_neg (by omega), he]

def Between (k last k' : Nat) : Prop := k' % dbDataSize = 0 ∧ k ≤ k' ∧ k' ≤ last

theorem between_step (hk : k % dbDataSize = 0) (hlast : k + dbDataSize ≤ last) (k' : Nat) :
    Between k last k' ↔ k' = k ∨ Between (k + dbDataSize) last k' := by
  constructor
  · rintro ⟨hm, hle, hle'⟩
    rcases Nat.eq_or_lt_of_le hle with rfl | hlt
    · exact .inl rfl
    · exact .inr ⟨hm, key_lt_key hk hm hlt, hle'⟩
  · rintro (rfl | ⟨hm, hle, hle'⟩)
    · exact ⟨hk, le_rfl, by omega⟩
    · exact ⟨hm, by omega, hle'⟩

theorem between_self (hk : k % dbDataSize = 0) (k' : Nat) : Between k k k' ↔ k' = k := by
  constructor
  · rintro ⟨-, hle, hle'⟩
    omega
  · rintro rfl
    exact ⟨hk, le_rfl, le_rfl⟩

theorem write_round (hh : h.WellFormed) (hf : h.findOrNew mem (keyOf off) = some h')
    (data : Nat → UInt8) (size : Nat) :
    ((h'.blockAt (keyOf off)).write (off % dbDataSize) data size).2 =
      min size (dbDataSize - off % dbDataSize) ∧
    Wrote h (h'.setBlock (keyOf off)
        ((h'.blockAt (keyOf off)).write (off % dbDataSize) data size).1) off data
      (min size (dbDataSize - off % dbDataSize)) ∧
    ∀ k, (h'.setBlock (keyOf off)
        ((h'.blockAt (keyOf off)).write (off % dbDataSize) data size).1).HasBlock k ↔
      h.HasBlock k ∨ k = keyOf off := by
  obtain ⟨hh', hfr, hbyte, hblocks⟩ := findOrNew_spec hh (keyOf_mod off) hf
  have hfind := HasBlock.find ((hblocks _).2 (.inr rfl))
  obtain ⟨hnw, hw⟩ := DataBlock.write_spec (hh'.block _ _ hfind)
    (Nat.mod_lt off dbDataSize_pos) data size
  have hm := Nat.mod_lt off dbDataSize_pos
  obtain ⟨hh₂, hfr₂, hbyte₂, -, hblocks₂⟩ := setBlock_spec hh' hfind hw (by omega)
  rw [keyOf_add_mod] at hbyte₂
  refine ⟨hnw, ⟨hh₂, hfr₂.trans hfr, fun x => ?_⟩, fun k => ?_⟩
  · rw [hbyte₂, hbyte]
  · rw [hblocks₂, hblocks]

/-- A write stops early only for want of memory, and what it has written stays. -/
theorem writeBlocks_spec (mem : Memory) (hh : h.WellFormed) (off : Nat) (data : Nat → UInt8)
    (hn : size < n) :
    ((h.writeBlocks mem n (keyOf off) off data size).2 = none ∧ ¬ mem.Ample ∧
      (∃ m ≤ size, Wrote h (h.writeBlocks mem n (keyOf off) off data size).1 off data m) ∧
      ∀ k, (h.writeBlocks mem n (keyOf off) off data size).1.HasBlock k →
        h.HasBlock k ∨ Between (keyOf off) (lastKey off size) k) ∨
    ((h.writeBlocks mem n (keyOf off) off data size).2 = some (lastKey off size) ∧
      Wrote h (h.writeBlocks mem n (keyOf off) off data size).1 off data size ∧
      ∀ k, (h.writeBlocks mem n (keyOf off) off data size).1.HasBlock k ↔
        h.HasBlock k ∨ Between (keyOf off) (lastKey off size) k) := by
  induction n generalizing h off data size with
  | zero => exact absurd hn (by omega)
  | succ n ih =>
    rw [writeBlocks]
    cases hf : h.findOrNew mem (keyOf off) with
    | none =>
      refine .inl ⟨rfl, fun hm => ?_, ⟨0, Nat.zero_le _, hh, rfl, fun x => ?_⟩, fun k => .inl⟩
      · have hs := findOrNew_isSome hm h (keyOf off)
        rw [hf] at hs
        cases hs
      · rw [if_neg (by omega)]
    | some h₁ =>
      obtain ⟨hnw, hw, hblocks⟩ := write_round hh hf data size
      simp only
      generalize h₁.setBlock (keyOf off)
        ((h₁.blockAt (keyOf off)).write (off % dbDataSize) data size).1 = h₂ at hw hblocks
      rw [hnw]
      have hm := Nat.mod_lt off dbDataSize_pos
      have hoff := keyOf_add_mod off
      generalize hroom : dbDataSize - off % dbDataSize = room at hw ⊢
      split
      next hlt =>
        have hmin : min size room = room := by omega
        rw [hmin] at hw hlt ⊢
        have hnext : off + room = keyOf off + dbDataSize := by omega
        have hkey : keyOf off + dbDataSize = keyOf (off + room) := by
          rw [hnext]
          have hk := keyOf_key (key_add (keyOf_mod off)) dbDataSize_pos
          rwa [Nat.add_zero, eq_comm] at hk
        rw [hkey]
        have hlast : lastKey (off + room) (size - room) = lastKey off size :=
          lastKey_add (Nat.lt_of_sub_pos hlt)
        have hstep : ∀ k, (h.HasBlock k ∨ k = keyOf off) ∨
            Between (keyOf (off + room)) (lastKey off size) k ↔
            h.HasBlock k ∨ Between (keyOf off) (lastKey off size) k := by
          intro k
          rw [← hkey, between_step (keyOf_mod off), or_assoc]
          have hle := keyOf_le_lastKey (off + room) (size - room)
          rwa [hlast, ← hkey] at hle
        rcases ih hw.wellFormed (off + room) (fun i => data (room + i)) (by omega : size - room < n)
          with ⟨hr, hmem, ⟨m, hm, hw'⟩, hb'⟩ | ⟨hr, hw', hb'⟩
        · refine .inl ⟨hr, hmem, ⟨_, by omega, hw.append hw'⟩, fun k hk => ?_⟩
          have hk' := hb' k hk
          rw [hblocks, hlast] at hk'
          exact (hstep k).1 hk'
        · refine .inr ⟨hr.trans (by rw [hlast]), ?_, fun k => ?_⟩
          · have hall := hw.append hw'
            rwa [Nat.add_sub_of_le (by omega : room ≤ size)] at hall
          · rw [hb', hblocks, hlast, hstep]
      next hge =>
        have hmin : min size room = size := by omega
        rw [hmin] at hw
        have hlast : lastKey off size = keyOf off := lastKey_of_le (by omega)
        rw [hlast]
        refine .inr ⟨rfl, hw, fun k => ?_⟩
        rw [hblocks, between_self (keyOf_mod off)]

/-- There is data after `e`, in the block `last` or because there is a next block. -/
def SeesAfter (h : HashDataIn) (last e : Nat) : Prop :=
  (∃ x, e ≤ x ∧ x < last + dbDataSize ∧ h.byteAt x ≠ none) ∨ h.HasBlock (last + dbDataSize)

theorem dataAfter_iff (hh : h.WellFormed) (hb : h.HasBlock last) (hle : last ≤ e) :
    h.dataAfter last e = true ↔ h.SeesAfter last e := by
  have hf := hb.find
  have hwf := hh.block _ _ hf
  have hal := hh.aligned _ hb
  rw [dataAfter, Bool.or_eq_true, DataBlock.hasBytesAfter_iff hwf, SeesAfter, HasBlock]
  apply or_congr_left
  constructor
  · rintro ⟨i, hi, hhas⟩
    have hlt := hwf.inside i hhas
    refine ⟨last + i, by omega, by omega, ?_⟩
    rw [byteAt, keyOf_key hal hlt, hf, mod_key hal hlt]
    simp only [hhas, if_true]
    exact Option.some_ne_none _
  · rintro ⟨x, hx, hlt, hne⟩
    refine ⟨x - last, by omega, ?_⟩
    have hk : keyOf x = last := keyOf_eq hal (by omega) hlt
    have hm := keyOf_add_mod x
    rw [hk] at hm
    have he : x - last = x % dbDataSize := by omega
    rw [byteAt, hk, hf] at hne
    simp only [ne_eq, ite_eq_right_iff, Classical.not_imp] at hne
    rw [he]
    exact hne.1

def Stored (h h' : HashDataIn) (df : DataFrame) (r m : Nat) : Prop :=
  Wrote h h' (df.offset + overlap df r) (fun i => df.data (overlap df r + i)) m

def freshSize (df : DataFrame) (r : Nat) : Nat := df.size - overlap df r

def endBlock (df : DataFrame) (r : Nat) : Nat :=
  lastKey (df.offset + overlap df r) (freshSize df r)

theorem start_eq (df : DataFrame) (r : Nat) : df.offset + overlap df r = max df.offset r := by
  rw [overlap]
  split <;> omega

theorem start_add_fresh {df : DataFrame} (hr : r ≤ df.endOff) :
    df.offset + overlap df r + freshSize df r = df.endOff := by
  rw [freshSize, overlap, DataFrame.endOff] at *
  split <;> omega

theorem Stored.byteAt {df : DataFrame} (hs : Stored h h' df r m) (x : Nat) : h'.byteAt x =
    if max df.offset r ≤ x ∧ x < max df.offset r + m then some (df.data (x - df.offset))
    else h.byteAt x := by
  rw [Wrote.byteAt hs, start_eq]
  have hst := start_eq df r
  split
  next hx =>
    have he : overlap df r + (x - max df.offset r) = x - df.offset := by omega
    rw [he]
  · rfl

theorem endBlock_le {df : DataFrame} (hr : r ≤ df.endOff) : endBlock df r ≤ df.endOff := by
  have hs := start_add_fresh hr
  rw [endBlock, lastKey]
  split
  next h0 =>
    have hle := keyOf_le (df.offset + overlap df r)
    omega
  next h0 =>
    have hle := keyOf_le (df.offset + overlap df r + freshSize df r - 1)
    omega

theorem le_endBlock {df : DataFrame} (hr : r ≤ df.endOff) :
    df.endOff ≤ endBlock df r + dbDataSize := by
  have hs := start_add_fresh hr
  rw [endBlock, lastKey]
  split
  next h0 =>
    have hlt := lt_keyOf (df.offset + overlap df r)
    omega
  next h0 =>
    have hlt := lt_keyOf (df.offset + overlap df r + freshSize df r - 1)
    omega

inductive Inserted (mem : Memory) (h : HashDataIn) (df : DataFrame) (r : Nat) :
    HashDataIn → InsFrame → Prop
  | refused (hb : h.badFin df = true) : Inserted mem h df r h .err
  | failed (hm : ¬ mem.Ample) (hle : m ≤ freshSize df r) (hs : Stored h h₁ df r m)
    (hk : ∀ k, h₁.HasBlock k → h.HasBlock k ∨
      Between (keyOf (max df.offset r)) (endBlock df r) k) : Inserted mem h df r h₁ .err
  | late (hb : h.badFin df = false) (hfin : df.fin = true)
    (hd : h.SeesAfter (endBlock df r) df.endOff)
    (hs : Stored h h₁ df r (freshSize df r))
    (hk : ∀ k, h₁.HasBlock k ↔ h.HasBlock k ∨
      Between (keyOf (max df.offset r)) (endBlock df r) k) : Inserted mem h df r h₁ .err
  | stored (hb : h.badFin df = false) (hfin : df.fin = false)
    (hs : Stored h h₁ df r (freshSize df r))
    (hk : ∀ k, h₁.HasBlock k ↔ h.HasBlock k ∨
      Between (keyOf (max df.offset r)) (endBlock df r) k) : Inserted mem h df r h₁ .ok
  | storedFin (hb : h.badFin df = false) (hfin : df.fin = true)
    (hd : ¬ h.SeesAfter (endBlock df r) df.endOff)
    (hs : Stored h h₁ df r (freshSize df r))
    (hk : ∀ k, h₁.HasBlock k ↔ h.HasBlock k ∨
      Between (keyOf (max df.offset r)) (endBlock df r) k) :
    Inserted mem h df r { h₁ with fin := true, finOff := df.endOff } .ok

theorem seesAfter_stored {df : DataFrame} (hr : r ≤ df.endOff)
    (hs : Stored h h' df r (freshSize df r))
    (hk : ∀ k, h'.HasBlock k ↔ h.HasBlock k ∨
      Between (keyOf (max df.offset r)) (endBlock df r) k) :
    h'.SeesAfter (endBlock df r) df.endOff ↔ h.SeesAfter (endBlock df r) df.endOff := by
  have hadd := start_add_fresh hr
  rw [start_eq] at hadd
  rw [SeesAfter, SeesAfter, hk]
  apply or_congr
  · apply exists_congr
    intro x
    apply and_congr_right
    intro hx
    rw [hs.byteAt, if_neg (by omega)]
  · constructor
    · rintro (hk | ⟨-, -, hle⟩)
      · exact hk
      · have hp := dbDataSize_pos
        omega
    · exact .inl

theorem insertDataFrame_spec (mem : Memory) (hh : h.WellFormed) (df : DataFrame)
    (hr : r ≤ df.endOff) :
    Inserted mem h df r (h.insertDataFrame mem df r).1 (h.insertDataFrame mem df r).2 := by
  rw [insertDataFrame, if_neg (by omega)]
  split
  next hb => exact .refused hb
  next hb =>
    have hb' : h.badFin df = false := by simpa using hb
    have hsz : freshSize df r < df.size + 1 := by
      rw [freshSize]
      omega
    have hw := writeBlocks_spec mem hh (df.offset + overlap df r)
      (fun i => df.data (overlap df r + i)) hsz
    rw [writeFrame]
    rw [keyOf, freshSize] at hw
    generalize h.writeBlocks mem (df.size + 1)
      (df.offset + overlap df r - (df.offset + overlap df r) % dbDataSize)
      (df.offset + overlap df r) (fun i => df.data (overlap df r + i))
      (df.size - overlap df r) = res at hw
    obtain ⟨h₁, last⟩ := res
    rcases hw with ⟨hnone, hm, ⟨m, hle, hw⟩, hk⟩ | ⟨hsome, hw, hk⟩
    · obtain rfl : last = none := hnone
      refine .failed hm hle hw fun k hk' => ?_
      rw [← start_eq]
      exact hk k hk'
    · obtain rfl : last = some (endBlock df r) := hsome
      have hs : Stored h h₁ df r (freshSize df r) := hw
      have hk' : ∀ k, h₁.HasBlock k ↔ h.HasBlock k ∨
          Between (keyOf (max df.offset r)) (endBlock df r) k := by
        intro k
        rw [← start_eq]
        exact hk k
      have hlast : h₁.HasBlock (endBlock df r) := by
        rw [hk', ← start_eq]
        exact .inr ⟨lastKey_mod _ _, keyOf_le_lastKey _ _, le_rfl⟩
      simp only
      split
      next hfin =>
        have hd := dataAfter_iff hs.wellFormed hlast (endBlock_le hr)
        rw [seesAfter_stored hr hs hk'] at hd
        split
        next ha => exact .late hb' hfin (hd.1 ha) hs hk'
        next ha => exact .storedFin hb' hfin (fun h => ha (hd.2 h)) hs hk'
      next hfin =>
        have hfin' : df.fin = false := by simpa using hfin
        exact .stored hb' hfin' hs hk'

theorem writeFrame_last (hh : h.WellFormed) {df : DataFrame}
    (hw : h.writeFrame mem df r = (h', some last)) : last = endBlock df r := by
  have hsz : freshSize df r < df.size + 1 := by
    rw [freshSize]
    omega
  have hs := writeBlocks_spec mem hh (df.offset + overlap df r)
    (fun i => df.data (overlap df r + i)) hsz
  rw [keyOf, freshSize] at hs
  rw [writeFrame] at hw
  rw [hw] at hs
  rcases hs with ⟨hnone, -⟩ | ⟨hsome, -⟩
  · cases hnone
  · exact Option.some.inj hsome

theorem insertDataFrame_stale (mem : Memory) (h : HashDataIn) (df : DataFrame)
    (hr : df.endOff < r) :
    h.insertDataFrame mem df r = (h, if df.fin then .err else .dup) := by
  rw [insertDataFrame, if_pos hr]

theorem insertDataFrame_ne_overlap (mem : Memory) (h : HashDataIn) (df : DataFrame) (r : Nat) :
    (h.insertDataFrame mem df r).2 ≠ .overlap := by
  rw [insertDataFrame]
  repeat' split
  all_goals simp

structure Available (h : HashDataIn) (r n : Nat) : Prop where
  pos : 0 < n
  there : ∀ i < n, h.byteAt (r + i) ≠ none
  inside : r % dbDataSize + n ≤ dbDataSize
  stop : r % dbDataSize + n = dbDataSize ∨ h.byteAt (r + n) = none

structure Given (h : HashDataIn) (r n : Nat) (df : DataFrame) : Prop where
  offset : df.offset = keyOf r
  readOff : df.readOff = r % dbDataSize
  size : df.size = r % dbDataSize + n
  data : ∀ i < n, h.byteAt (r + i) = some (df.data (r % dbDataSize + i))
  fin : df.fin = (h.fin && r % dbDataSize + df.size == h.finOff)

theorem testBit_ne_zero (w : BitVec 64) {bit : Nat} (hb : bit < 64) :
    w &&& ((1 : BitVec 64) <<< bit) ≠ 0 ↔ w.getLsbD bit = true := by
  rw [DataBlock.exists_bit]
  constructor
  · rintro ⟨j, -, hj⟩
    rw [BitVec.getLsbD_and, Bool.and_eq_true, getLsbD_one_shiftLeft hb, decide_eq_true_eq] at hj
    rw [← hj.2]
    exact hj.1
  · intro hw
    refine ⟨bit, hb, ?_⟩
    rw [BitVec.getLsbD_and, getLsbD_one_shiftLeft hb, hw, decide_eq_true rfl, Bool.and_true]

theorem byteAt_add {i : Nat} (hf : h.find (keyOf r) = some b)
    (hi : r % dbDataSize + i < dbDataSize) : h.byteAt (r + i) =
    if b.has (r % dbDataSize + i) then some (b.data (r % dbDataSize + i)) else none := by
  have hr := keyOf_add_mod r
  have he : r + i = keyOf r + (r % dbDataSize + i) := by omega
  rw [he, byteAt, keyOf_key (keyOf_mod r) hi, hf, mod_key (keyOf_mod r) hi]

theorem word_testBit (b : DataBlock) (o : Nat) :
    b.word (o / 64) &&& ((1 : BitVec 64) <<< (o % 64)) ≠ 0 ↔ b.has o = true := by
  rw [testBit_ne_zero _ (Nat.mod_lt _ (by omega))]
  rfl

theorem byteAt_eq_none (hf : h.find (keyOf r) = some b) :
    h.byteAt r = none ↔ ¬ b.has (r % dbDataSize) = true := by
  rw [byteAt, hf]
  simp

theorem getFrame_some (hh : h.WellFormed) (hr : h.byteAt r ≠ none) :
    ∃ n df, h.Available r n ∧ h.Given r n df ∧
      h.getFrame r = ({ h with lastBlock := some (keyOf r), dataFrame := df }, some df) := by
  have hm := Nat.mod_lt r dbDataSize_pos
  have hN : nDbSets * 64 = dbDataSize + 32 := rfl
  have hf := (HasBlock.of_byteAt hr).find
  generalize h.blockAt (keyOf r) = b at hf
  have hwf := hh.block _ _ hf
  have hhas : b.has (r % dbDataSize) = true := by
    by_contra hn
    exact hr ((byteAt_eq_none hf).2 hn)
  obtain ⟨hall, hstop⟩ := DataBlock.nAvailBytes_spec hwf
    (by omega : r % dbDataSize / 64 < nDbSets) (Nat.mod_lt (r % dbDataSize) (by omega : 0 < 64))
  have hle := DataBlock.Run.le ⟨hall, hstop⟩ hwf (by omega)
  have he : r % dbDataSize / 64 * 64 + r % dbDataSize % 64 = r % dbDataSize := by omega
  rw [he] at hall hstop hle
  have hpos : 0 < b.nAvailBytes (r % dbDataSize / 64) (r % dbDataSize % 64) := by
    apply Nat.pos_of_ne_zero
    intro h0
    rw [h0, Nat.add_zero, hhas] at hstop
    cases hstop
  have hget : h.getFrame r = h.setupDataFrame r b := by
    rw [keyOf] at hf
    rw [getFrame, hf]
  rw [hget, setupDataFrame, if_pos ((word_testBit b _).2 hhas), off_of_find hf]
  generalize b.nAvailBytes (r % dbDataSize / 64) (r % dbDataSize % 64) = n at hall hstop hle hpos
  have hbyte : ∀ i < n, h.byteAt (r + i) = some (b.data (r % dbDataSize + i)) := by
    intro i hi
    rw [byteAt_add hf (by omega), if_pos (hall i hi)]
  refine ⟨n, _, ⟨hpos, fun i hi => ?_, hle, ?_⟩, ⟨rfl, rfl, rfl, hbyte, rfl⟩, rfl⟩
  · rw [hbyte i hi]
    exact Option.some_ne_none _
  · rcases Nat.eq_or_lt_of_le hle with he | hlt
    · exact .inl he
    · refine .inr ?_
      rw [byteAt_add hf hlt, hstop]
      rfl

theorem getFrame_none (hr : h.byteAt r = none) (hfin : ¬ (h.fin = true ∧ r = h.finOff)) :
    h.getFrame r = (h, none) := by
  rw [getFrame]
  cases hf : h.find (r - r % dbDataSize) with
  | none => simp only [if_neg hfin]
  | some b =>
    have hhas := (byteAt_eq_none hf).1 hr
    simp only [setupDataFrame]
    rw [if_neg (fun hw => hhas ((word_testBit b _).1 hw)), if_neg hfin]

theorem getFrame_fin (hr : h.byteAt r = none) (hfin : h.fin = true) (he : r = h.finOff) :
    ∃ k? df, h.getFrame r = ({ h with lastBlock := k?, dataFrame := df }, some df) ∧
      df.fin = true ∧ df.size = df.readOff ∧
      ((k? = none ∧ df.readOff = 0) ∨
        (k? = some (keyOf r) ∧ h.HasBlock (keyOf r) ∧ df.readOff = r % dbDataSize)) := by
  rw [getFrame]
  cases hf : h.find (r - r % dbDataSize) with
  | none =>
    simp only [if_pos (And.intro hfin he)]
    exact ⟨_, _, rfl, rfl, rfl, .inl ⟨rfl, rfl⟩⟩
  | some b =>
    have hhas := (byteAt_eq_none hf).1 hr
    simp only [setupDataFrame]
    rw [if_neg (fun hw => hhas ((word_testBit b _).1 hw)), if_pos ⟨hfin, he⟩]
    refine ⟨_, _, rfl, rfl, rfl, .inr ⟨?_, ?_, rfl⟩⟩
    · rw [off_of_find hf]
      rfl
    · rw [HasBlock, keyOf, hf]
      rfl

theorem remove_spec (hh : h.WellFormed) (hk : h.HasBlock k) :
    (h.remove k).WellFormed ∧ ∀ k', (h.remove k).find k' = if k' = k then none else h.find k' := by
  have hfind : ∀ k', (h.remove k).find k' = if k' = k then none else h.find k' := fun k' =>
    Buckets.find_remove hh.table k k'
  refine ⟨⟨Buckets.remove_wellFormed hh.table k, ?_, fun k' b hb => ?_, fun k' hk' => ?_⟩, hfind⟩
  · have ht := Buckets.total_remove hh.table hk.find
    have hc := hh.count
    simp only [remove]
    omega
  · rw [hfind] at hb
    split at hb
    · cases hb
    · exact hh.block k' b hb
  · rw [HasBlock, hfind] at hk'
    split at hk'
    · cases hk'
    · exact hh.aligned k' hk'

theorem WellFormed.noBlock (hh : h.WellFormed) (hc : h.count = 0) (k : Nat) : ¬ h.HasBlock k := by
  intro hk
  rw [HasBlock, find, Buckets.find_of_total (hh.count.symm.trans hc)] at hk
  cases hk

structure Done (h h' : HashDataIn) (pos : Nat) : Prop where
  wellFormed : h'.WellFormed
  fin : h'.fin = h.fin
  finOff : h'.finOff = h.finOff
  byteAt : ∀ x, pos ≤ x → h'.byteAt x = h.byteAt x
  less : ∀ x, h'.byteAt x = h.byteAt x ∨ h'.byteAt x = none
  blocks : ∀ k, h'.HasBlock k → h.HasBlock k
  wants : h'.switchImpl = true → h.switchImpl = true ∨ h'.fin = false ∧ ∀ k, ¬ h'.HasBlock k

theorem Done.refl (hh : h.WellFormed) (pos : Nat) : Done h h pos :=
  ⟨hh, rfl, rfl, fun _ _ => rfl, fun _ => .inl rfl, fun _ hk => hk, .inl⟩

theorem remove_done (hh : h.WellFormed) (hk : h.HasBlock k)
    (ho : ∀ x, k + o ≤ x → x < k + dbDataSize → h.byteAt x = none) : Done h (h.remove k)
    (k + o) := by
  obtain ⟨hh', hfind⟩ := remove_spec hh hk
  have hbyte : ∀ x, (h.remove k).byteAt x = if keyOf x = k then none else h.byteAt x := by
    intro x
    rw [byteAt, hfind]
    by_cases hx : keyOf x = k
    · rw [if_pos hx, if_pos hx]
    · rw [if_neg hx, if_neg hx, byteAt]
  refine ⟨hh', rfl, rfl, fun x hx => ?_, fun x => ?_, fun k' hk' => ?_, .inl⟩
  · rw [hbyte]
    split
    next hkx =>
      have hlt := lt_keyOf x
      rw [hkx] at hlt
      rw [ho x hx hlt]
    · rfl
  · rw [hbyte]
    split
    · exact .inr rfl
    · exact .inl rfl
  · rw [HasBlock, hfind] at hk'
    split at hk'
    · cases hk'
    · exact hk'

theorem frameDone_spec (hh : h.WellFormed) (hl : h.lastBlock = some k) (hk : h.HasBlock k) :
    Done h h.frameDone (k + h.dataFrame.readOff) := by
  rw [frameDone, hl]
  simp only
  split
  next hc =>
    have hal := hh.aligned k hk
    have hwf := hh.block _ _ hk.find
    have hempty : ∀ x, k + h.dataFrame.readOff ≤ x → x < k + dbDataSize → h.byteAt x = none := by
      intro x hx hlt
      rcases hc with hc | hc
      · omega
      · have hkx := keyOf_eq hal (by omega) hlt
        have hmx := keyOf_add_mod x
        rw [hkx] at hmx
        rw [byteAt, hkx, hk.find]
        simp only
        rw [if_neg]
        intro hhas
        have ha := (DataBlock.hasBytesAfter_iff hwf h.dataFrame.readOff).2
          ⟨x % dbDataSize, by omega, hhas⟩
        simp [ha] at hc
    have hd := remove_done hh hk hempty
    split
    next hs =>
      have hfin : (h.remove k).fin = false := by simpa using hs.2
      have hsw : Done h { h.remove k with switchImpl := true } (k + h.dataFrame.readOff) :=
        { hd with
          wellFormed := { hd.wellFormed with }
          wants := fun _ => .inr ⟨hfin, hd.wellFormed.noBlock hs.1⟩ }
      exact hsw
    · exact hd
  · exact Done.refl hh _

end

end HashDataIn

end QuicArt
