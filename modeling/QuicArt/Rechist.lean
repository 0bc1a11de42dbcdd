import QuicArt.DataBlock
import QuicArt.PacketOut
import QuicArt.Ranges

namespace QuicArt

/-- `UINT_MAX`, which ends the list. -/
def uintMax : Nat := 2 ^ 32 - 1

structure RechistElem where
  low : Nat := 0
  count : Nat := 0
  next : Nat := 0
  deriving DecidableEq, Repr, Inhabited

def RechistElem.high (el : RechistElem) : Nat := (el.low + el.count + 2 ^ 64 - 1) % 2 ^ 64

def RechistElem.range (el : RechistElem) : Span := ⟨el.low, el.high⟩

inductive ReceivedSt
  | ok
  | dup
  | err
  deriving DecidableEq, Repr

/-- What `realloc` has room for, in slots of the array; 2^31 of them take up 32 GiB. -/
structure Allocator where
  fits : Nat → Bool
  limit : ∀ n, fits n = true → n < 2 ^ 31

/-- `struct lsquic_rechist` without its iterator. -/
structure Rechist where
  elems : Table Nat RechistElem := ∅
  masks : List (BitVec 64) := []
  cutoff : Nat
  largestAckedReceived : Nat := 0
  nAlloced : Nat := 0
  nUsed : Nat := 0
  head : Nat := 0
  maxRanges : Nat
  cutoffSet : Bool := false
  deriving DecidableEq, Repr

namespace Rechist

def elem (h : Rechist) (i : Nat) : RechistElem := h.elems.get i

def modify (h : Rechist) (i : Nat) (f : RechistElem → RechistElem) : Rechist :=
  { h with elems := h.elems.modify i f }

def freeElem (h : Rechist) (i : Nat) : Rechist :=
  { h with
    masks := clearBit h.masks i
    nUsed := h.nUsed - 1 }

/-- The number of slots after the array has grown. -/
def grownTo (h : Rechist) : Nat :=
  let n := if h.nAlloced ≠ 0 then h.nAlloced * 2 else 4
  if h.maxRanges ≠ 0 ∧ h.maxRanges < n then h.maxRanges else n

/-- `rechist_grow`: the array and the masks grow, and the new masks are zero. -/
def grow (h : Rechist) : Rechist :=
  { h with
    nAlloced := h.grownTo
    masks := h.masks ++ List.replicate ((h.grownTo + 63) / 64 - h.masks.length) 0 }

/-- The first slot for which `p` holds of the element, looking at the slots from `i` on. -/
def findSlot (h : Rechist) (p : RechistElem → Bool) : Nat → Nat → Nat
  | 0, i => i
  | n + 1, i => if p (h.elem i) then i else h.findSlot p n (i + 1)

/-- `rechist_reuse_last_elem`: all slots are in use. -/
def reuseLastElem (h : Rechist) : Rechist × Nat :=
  let last := h.findSlot (fun el => el.next == uintMax) h.nAlloced 0
  let penultimate := h.findSlot (fun el => el.next == last) h.nAlloced 0
  (h.modify penultimate ({ · with next := uintMax }), last)

def takeSlot (h : Rechist) : Rechist × Nat :=
  ({ h with masks := setFirstClear h.masks, nUsed := h.nUsed + 1 }, firstClear h.masks)

def allocElem (malo : Allocator) (h : Rechist) : Option (Rechist × Nat) :=
  if h.nUsed = h.nAlloced then
    if h.maxRanges ≠ 0 ∧ h.maxRanges ≤ h.nUsed then some h.reuseLastElem
    else if malo.fits h.grownTo then some h.grow.takeSlot
    else none
  else some h.takeSlot

inductive Spot
  | before (prev : Option Nat) (el : Nat)
  | below (el : Nat)
  | above (el : Nat)
  | inside
  | tail (el : Nat)
  deriving DecidableEq, Repr

/-- The loop of `lsquic_rechist_received`. -/
def seek (h : Rechist) (packno : Nat) : Nat → Option Nat → Nat → Spot
  | 0, _, _ => .inside
  | n + 1, prev, i =>
    let el := h.elem i
    if (el.high + 1) % 2 ^ 64 < packno then .before prev i
    else if packno = (el.low + 2 ^ 64 - 1) % 2 ^ 64 then .below i
    else if packno = (el.high + 1) % 2 ^ 64 then .above i
    else if el.low ≤ packno ∧ packno ≤ el.high then .inside
    else if el.next = uintMax then .tail i
    else h.seek packno n (some i) el.next

/-- The number extends a range downwards, perhaps onto the next one. -/
def extendBelow (h : Rechist) (i : Nat) : Rechist :=
  let h := h.modify i fun el => { el with low := el.low - 1, count := (el.count + 1) % 2 ^ 32 }
  let el := h.elem i
  if el.next ≠ uintMax ∧ el.low = ((h.elem el.next).high + 1) % 2 ^ 64 then
    let h := h.freeElem el.next
    let nx := h.elem el.next
    h.modify i fun el => { low := nx.low, count := (el.count + nx.count) % 2 ^ 32, next := nx.next }
  else h

def replaceLast (h : Rechist) (i packno : Nat) : Rechist :=
  h.modify i ({ · with low := packno, count := 1 })

def full (h : Rechist) : Bool := decide (h.maxRanges ≠ 0) && decide (h.maxRanges ≤ h.nUsed)

def insertTail (malo : Allocator) (h : Rechist) (i packno : Nat) : Rechist × ReceivedSt :=
  if h.full then (h.replaceLast i packno, .ok)
  else
    match h.allocElem malo with
    | none => (h, .err)
    | some (h, idx) =>
      ((h.modify idx fun _ => ⟨packno, 1, uintMax⟩).modify i ({ · with next := idx }), .ok)

/-- The element is put in front of `i`, behind `prev` or at the head. -/
def linkBefore (h : Rechist) (prev : Option Nat) (i idx x : Nat) : Rechist :=
  match if i = h.head then none else prev with
  | none => { h.modify idx fun _ => ⟨x, 1, i⟩ with head := idx }
  | some p => (h.modify idx fun _ => ⟨x, 1, i⟩).modify p ({ · with next := idx })

def insertBefore (malo : Allocator) (h : Rechist) (prev : Option Nat) (i packno : Nat) :
    Rechist × ReceivedSt :=
  if (h.elem i).next = uintMax ∧ h.full then (h.replaceLast i packno, .ok)
  else
    match h.allocElem malo with
    | none => (h, .err)
    | some (h, idx) => (h.linkBefore prev i idx packno, .ok)

def insertFirst (malo : Allocator) (h : Rechist) (packno now : Nat) : Rechist × ReceivedSt :=
  if packno < h.cutoff then (h, .err)
  else
    match h.allocElem malo with
    | none => (h, .err)
    | some (h, idx) =>
      ({ h.modify idx fun _ => ⟨packno, 1, uintMax⟩ with
        head := idx
        largestAckedReceived := now }, .ok)

def noteLargest (h : Rechist) (packno now : Nat) : Rechist :=
  if (h.elem h.head).high < packno then { h with largestAckedReceived := now } else h

def received (malo : Allocator) (h : Rechist) (packno now : Nat) : Rechist × ReceivedSt :=
  if h.nUsed = 0 then h.insertFirst malo packno now
  else if packno < h.cutoff then (h, .dup)
  else
    let h := h.noteLargest packno now
    match h.seek packno h.nUsed none h.head with
    | .before prev i => h.insertBefore malo prev i packno
    | .below i => (h.extendBelow i, .ok)
    | .above i => (h.modify i fun el => { el with count := (el.count + 1) % 2 ^ 32 }, .ok)
    | .inside => (h, .dup)
    | .tail i => h.insertTail malo i packno

/-- The first loop of `lsquic_rechist_stop_wait`: the slot from which on elements are freed. -/
def cutList (cutoff : Nat) : Nat → Option Nat → Nat → Rechist → Rechist × Option Nat
  | 0, _, _, h => (h, none)
  | n + 1, prev, i, h =>
    let el := h.elem i
    if el.high < cutoff then
      match prev with
      | some p => (h.modify p ({ · with next := uintMax }), some i)
      | none => (h, some i)
    else if el.low < cutoff then
      let h := h.modify i fun el =>
        { el with count := (el.high + 2 ^ 64 - cutoff + 1) % 2 ^ 32, low := cutoff }
      if el.next ≠ uintMax then (h.modify i ({ · with next := uintMax }), some el.next)
      else (h, none)
    else if el.next = uintMax then (h, none)
    else cutList cutoff n (some i) el.next h

/-- The second loop: `i` and the elements behind it are freed. -/
def freeList : Nat → Nat → Rechist → Rechist
  | 0, _, h => h
  | n + 1, i, h =>
    let h := h.freeElem i
    if (h.elem i).next ≠ uintMax then freeList n (h.elem i).next h else h

def stopWait (h : Rechist) (cutoff : Nat) : Rechist :=
  if h.cutoffSet ∧ cutoff ≤ h.cutoff then h
  else
    let n := h.nUsed
    let h := { h with cutoff := cutoff, cutoffSet := true }
    if n = 0 then h
    else
      match cutList cutoff n none h.head h with
      | (h, some i) => freeList n i h
      | (h, none) => h

def first (h : Rechist) : Option Span :=
  if h.nUsed ≠ 0 then some (h.elem h.head).range else none

end Rechist

end QuicArt
