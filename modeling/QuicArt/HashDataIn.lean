import QuicArt.Buckets
import QuicArt.DataBlock
import QuicArt.NocopyDataIn

namespace QuicArt

/-- `struct hash_data_in`; `hdi_last_block` is given by its offset. -/
structure HashDataIn where
  buckets : Buckets DataBlock
  fin : Bool := false
  finOff : Nat := 0
  lastBlock : Option Nat := none
  dataFrame : DataFrame := {}
  count : Nat := 0
  switchImpl : Bool := false

namespace HashDataIn

/-- `BUCKNO`, before the number is cut to the number of buckets. -/
def blockNo (off : Nat) : Nat := off / dbDataSize

def new (mem : Memory) (byteage : Nat) : Option HashDataIn :=
  let nbits := if dbDataSize ≤ byteage then Nat.log2 (byteage / dbDataSize) + 1 + 2 else 3
  if mem.dataIn then some { buckets := Buckets.empty nbits } else none

def find (h : HashDataIn) (off : Nat) : Option DataBlock :=
  h.buckets.find DataBlock.off blockNo off

def insert (mem : Memory) (h : HashDataIn) (b : DataBlock) : Option HashDataIn :=
  if 2 ^ h.buckets.nbits / 2 ≤ h.count ∧ !mem.buckets h.buckets.nbits then none
  else
    let buckets :=
      if 2 ^ h.buckets.nbits / 2 ≤ h.count then h.buckets.grow DataBlock.off blockNo
      else h.buckets
    some { h with buckets := buckets.insert DataBlock.off blockNo b, count := h.count + 1 }

def remove (h : HashDataIn) (off : Nat) : HashDataIn :=
  { h with buckets := h.buckets.remove DataBlock.off blockNo off, count := h.count - 1 }

def newBlock (mem : Memory) (h : HashDataIn) (off : Nat) : Option HashDataIn :=
  if mem.block off then h.insert mem { off } else none

def findOrNew (mem : Memory) (h : HashDataIn) (key : Nat) : Option HashDataIn :=
  if (h.find key).isSome then some h else h.newBlock mem key

def blockAt (h : HashDataIn) (key : Nat) : DataBlock := (h.find key).getD default

def setBlock (h : HashDataIn) (key : Nat) (b : DataBlock) : HashDataIn :=
  { h with buckets := h.buckets.update DataBlock.off blockNo key fun _ => b }

/-- The loop of `lsquic_data_in_hash_insert_data_frame`: the offset of the last block, if all can be
had. -/
def writeBlocks (mem : Memory) : Nat → HashDataIn → Nat → Nat → (Nat → UInt8) → Nat →
    HashDataIn × Option Nat
  | 0, h, _, _, _, _ => (h, none)
  | n + 1, h, key, off, data, size =>
    match h.findOrNew mem key with
    | none => (h, none)
    | some h =>
      let (b, nw) := (h.blockAt key).write (off % dbDataSize) data size
      let h := h.setBlock key b
      if 0 < size - nw then
        writeBlocks mem n h (key + dbDataSize) (off + nw) (fun i => data (nw + i)) (size - nw)
      else (h, some key)

def overlap (df : DataFrame) (readOffset : Nat) : Nat :=
  if df.offset < readOffset then readOffset - df.offset else 0

/-- Every round of the loop but the last writes at least one byte. -/
def writeFrame (mem : Memory) (h : HashDataIn) (df : DataFrame) (readOffset : Nat) :
    HashDataIn × Option Nat :=
  let diff := overlap df readOffset
  let off := df.offset + diff
  h.writeBlocks mem (df.size + 1) (off - off % dbDataSize) off (fun i => df.data (diff + i))
    (df.size - diff)

/-- Data after the final offset: in the block that was written last, or in the next one. -/
def dataAfter (h : HashDataIn) (last finOff : Nat) : Bool :=
  (h.blockAt last).hasBytesAfter (finOff - last) || (h.find (last + dbDataSize)).isSome

def badFin (h : HashDataIn) (df : DataFrame) : Bool :=
  h.fin && ((df.fin && df.endOff != h.finOff) || decide (h.finOff < df.endOff))

def insertDataFrame (mem : Memory) (h : HashDataIn) (df : DataFrame) (readOffset : Nat) :
    HashDataIn × InsFrame :=
  if df.endOff < readOffset then (h, if df.fin then .err else .dup)
  else if h.badFin df then (h, .err)
  else
    match h.writeFrame mem df readOffset with
    | (h, none) => (h, .err)
    | (h, some last) =>
      if df.fin then
        if h.dataAfter last df.endOff then (h, .err)
        else ({ h with fin := true, finOff := df.endOff }, .ok)
      else (h, .ok)

def insertFrame (mem : Memory) (h : HashDataIn) (f : StreamFrame) (readOffset : Nat) :
    HashDataIn × InsFrame × List FrameEvent :=
  match h.insertDataFrame mem f.df readOffset with
  | (h, .ok) => (h, .ok, f.release)
  | (h, ins) => (h, ins, [])

def setupDataFrame (h : HashDataIn) (readOffset : Nat) (b : DataBlock) :
    HashDataIn × Option DataFrame :=
  let offset := readOffset % dbDataSize
  let set := offset / 64
  let bit := offset % 64
  if b.word set &&& ((1 : BitVec 64) <<< bit) ≠ 0 then
    let size := offset + b.nAvailBytes set bit
    let df : DataFrame :=
      { data := b.data
        offset := b.off
        readOff := offset
        size
        fin := h.fin && offset + size == h.finOff }
    ({ h with lastBlock := some b.off, dataFrame := df }, some df)
  else if h.fin ∧ readOffset = h.finOff then
    let df : DataFrame := { offset := b.off, readOff := offset, size := offset, fin := true }
    ({ h with lastBlock := some b.off, dataFrame := df }, some df)
  else (h, none)

def getFrame (h : HashDataIn) (readOffset : Nat) : HashDataIn × Option DataFrame :=
  let key := readOffset - readOffset % dbDataSize
  match h.find key with
  | some b => h.setupDataFrame readOffset b
  | none =>
    if h.fin ∧ readOffset = h.finOff then
      let df : DataFrame := { offset := key, fin := true }
      ({ h with lastBlock := none, dataFrame := df }, some df)
    else (h, none)

def setReadOff (h : HashDataIn) (readOff : Nat) : HashDataIn :=
  { h with dataFrame := { h.dataFrame with readOff } }

/-- `hash_di_frame_done`, of the frame that was given out last. -/
def frameDone (h : HashDataIn) : HashDataIn :=
  match h.lastBlock with
  | none => h
  | some key =>
    let readOff := h.dataFrame.readOff
    if readOff = dbDataSize ∨ !(h.blockAt key).hasBytesAfter readOff then
      let h := h.remove key
      if h.count = 0 ∧ !h.fin then { h with switchImpl := true } else h
    else h

end HashDataIn

end QuicArt
