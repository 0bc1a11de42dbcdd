import Mathlib.Algebra.Order.Ring.Int
import Mathlib.Algebra.Order.Ring.Nat
import Mathlib.Data.List.Nodup
import Mathlib.Data.List.Perm.Subperm

namespace QuicArt

def bitAt (masks : List (BitVec 64)) (i : Nat) : Bool :=
  (masks.getD (i / 64) 0).getLsbD (i % 64)

def clearBit (masks : List (BitVec 64)) (i : Nat) : List (BitVec 64) :=
  masks.modify (i / 64) fun w => w &&& ~~~ BitVec.twoPow 64 (i % 64)

def lowestClear (w : BitVec 64) : Nat := ((List.range 64).find? fun i => !w.getLsbD i).getD 0

def firstMask (masks : List (BitVec 64)) : Nat := masks.findIdx (· != BitVec.allOnes 64)

def firstClear (masks : List (BitVec 64)) : Nat :=
  lowestClear (masks.getD (firstMask masks) 0) + firstMask masks * 64

def setFirstClear (masks : List (BitVec 64)) : List (BitVec 64) :=
  masks.modify (firstMask masks) fun w =>
    w ||| BitVec.twoPow 64 (lowestClear (masks.getD (firstMask masks) 0))

section
variable {masks : List (BitVec 64)} {i : Nat}

theorem getD_modify (masks : List (BitVec 64)) (k k' : Nat) (f : BitVec 64 → BitVec 64)
    (h : k < masks.length ∨ f 0 = 0) :
    (masks.modify k f).getD k' 0 = if k' = k then f (masks.getD k 0) else masks.getD k' 0 := by
  simp only [List.getD_eq_getElem?_getD, List.getElem?_modify]
  by_cases hk : k' = k
  · subst hk
    rw [if_pos rfl]
    cases hm : masks[k']? with
    | none =>
      rw [List.getElem?_eq_none_iff] at hm
      simp only [if_pos, Option.getD_none]
      exact (h.resolve_left (by omega)).symm
    | some w => simp
  · rw [if_neg hk]
    have hk' : k ≠ k' := fun h => hk h.symm
    simp [hk']

theorem bitAt_of_length_le (h : masks.length * 64 ≤ i) : bitAt masks i = false := by
  rw [bitAt, List.getD_eq_getElem?_getD, List.getElem?_eq_none (by omega)]
  exact BitVec.getLsbD_zero

end

def nDbSets : Nat := 57

def dbDataSize : Nat := 0x1000 - 16 - 8 - nDbSets * 8

structure DataBlock where
  off : Nat
  set : List (BitVec 64) := List.replicate nDbSets 0
  data : Nat → UInt8 := fun _ => 0
  deriving Inhabited

def memcpy (dst : Nat → UInt8) (pos : Nat) (src : Nat → UInt8) (n : Nat) : Nat → UInt8 :=
  fun i => if pos ≤ i ∧ i < pos + n then src (i - pos) else dst i

namespace DataBlock

/-- `block_write` at work: `pos` bytes have been written, and `set` is the next word. -/
structure Writer where
  block : DataBlock
  pos : Nat
  set : Nat

def headMask (bit n : Nat) : BitVec 64 :=
  ~~~ (((1 : BitVec 64) <<< bit) - 1) &&&
    (((1 : BitVec 64) <<< (bit + n - 1)) ||| (((1 : BitVec 64) <<< (bit + n - 1)) - 1))

def writeHead (b : DataBlock) (blockOff : Nat) (src : Nat → UInt8) (size : Nat) : Writer :=
  let bit := blockOff % 64
  if bit ≠ 0 then
    let n := if size < 64 - bit then size else 64 - bit
    { block :=
        { b with
          set := b.set.modify (blockOff / 64) (· ||| headMask bit n)
          data := memcpy b.data blockOff src n }
      pos := n
      set := blockOff / 64 + 1 }
  else ⟨b, 0, blockOff / 64⟩

def writeFull (w : Writer) (blockOff : Nat) (src : Nat → UInt8) (size : Nat) : Writer :=
  let n := (size - w.pos) / 64
  { block :=
      { w.block with
        set := w.block.set.mapIdx fun k x =>
          if w.set ≤ k ∧ k < w.set + n then BitVec.allOnes 64 else x
        data := memcpy w.block.data (blockOff + w.pos) (fun i => src (w.pos + i)) (n * 64) }
    pos := w.pos + n * 64
    set := w.set + n }

def writeTail (w : Writer) (blockOff : Nat) (src : Nat → UInt8) (size : Nat) : Writer :=
  if w.pos < size then
    { w with
      block :=
        { w.block with
          set := w.block.set.modify w.set
            (· ||| (((1 : BitVec 64) <<< (size - w.pos)) - 1))
          data := memcpy w.block.data (blockOff + w.pos) (fun i => src (w.pos + i))
            (size - w.pos) }
      pos := size }
  else w

/-- `block_write`: the block, and how many bytes it took. -/
def write (b : DataBlock) (blockOff : Nat) (src : Nat → UInt8) (size : Nat) : DataBlock × Nat :=
  let size := if dbDataSize - blockOff < size then dbDataSize - blockOff else size
  let w := b.writeHead blockOff src size
  let w := writeFull w blockOff src size
  let w := writeTail w blockOff src size
  (w.block, w.pos)

def word (b : DataBlock) (k : Nat) : BitVec 64 := b.set.getD k 0

def wordsAfter (off : Nat) : List Nat :=
  off / 64 :: List.range' (off / 64 + 1) (nDbSets - (off / 64 + 1))

def hasBytesAfter (b : DataBlock) (off : Nat) : Bool :=
  match wordsAfter off with
  | [] => false
  | k :: ks => b.word k >>> (off % 64) != 0 || ks.any fun k => b.word k != 0

def ctz (w : BitVec 64) : Nat := ((List.range 64).find? fun i => w.getLsbD i).getD 64

def fullWords (b : DataBlock) : Nat → Nat → Nat
  | 0, _ => 0
  | n + 1, k => if b.word k = BitVec.allOnes 64 then b.fullWords n (k + 1) + 1 else 0

def nAvailBytes (b : DataBlock) (set bit : Nat) : Nat :=
  let part := ~~~ (b.word set >>> bit)
  if part ≠ 0 ∧ ctz part < 64 - bit then ctz part
  else
    let count := if part ≠ 0 then ctz part else 64
    let full := b.fullWords (nDbSets - (set + 1)) (set + 1)
    let count := count + 64 * full
    let set := set + 1 + full
    if set < nDbSets then
      let part := ~~~ b.word set
      count + if part ≠ 0 then ctz part else 64
    else count

end DataBlock

end QuicArt
