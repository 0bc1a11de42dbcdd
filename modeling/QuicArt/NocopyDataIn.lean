import Mathlib.Algebra.Order.Ring.Int
import Mathlib.Algebra.Order.Ring.Nat
import Mathlib.Data.List.Basic

namespace QuicArt

/-- `struct data_frame`: `data` is the memory that `df_data` points to. -/
structure DataFrame where
  data : Nat → UInt8 := fun _ => 0
  offset : Nat := 0
  readOff : Nat := 0
  size : Nat := 0
  fin : Bool := false
  deriving Inhabited

def DataFrame.endOff (df : DataFrame) : Nat := df.offset + df.size

/-- `struct stream_frame`, an object that holds a reference to its packet. -/
structure StreamFrame where
  id : Nat
  df : DataFrame
  deriving Inhabited

inductive InsFrame
  | ok
  | err
  | dup
  | overlap
  deriving DecidableEq, Repr

/-- An object is looked at, its packet is released, and it is given back to the pool. -/
inductive FrameEvent
  | access (id : Nat)
  | putPacket (id : Nat)
  | putFrame (id : Nat)
  deriving DecidableEq, Repr

/-- `lsquic_packet_in_put` and `lsquic_malo_put`. -/
def StreamFrame.release (f : StreamFrame) : List FrameEvent := [.putPacket f.id, .putFrame f.id]

/-- What `malloc` has memory for while one call runs: the block for an offset, and the buckets. -/
structure Memory where
  block : Nat → Bool := fun _ => true
  buckets : Nat → Bool := fun _ => true
  dataIn : Bool := true

structure NocopyDataIn where
  frames : List StreamFrame := []
  byteage : Nat := 0
  finOff : Nat := 0
  nFrames : Nat := 0
  nHoles : Nat := 0
  consFar : Nat := 0
  finSet : Bool := false
  finReached : Bool := false
  switchImpl : Bool := false

namespace NocopyDataIn

/-- The frames before the place, the last one first, those after it, and their number. -/
def seekBack (offset : Nat) : List StreamFrame → List StreamFrame → Nat →
    List StreamFrame × List StreamFrame × Nat
  | [], after, count => ([], after, count)
  | f :: before, after, count =>
    if offset < f.df.offset then seekBack offset before (f :: after) (count + 1)
    else (f :: before, after, count)

def checkNext (new next : DataFrame) (readOffset : Nat) : InsFrame :=
  if next.offset < new.endOff then .overlap
  else if new.offset < readOffset then .overlap
  else .ok

def checkNeighbors (n : NocopyDataIn) (new : DataFrame) (readOffset : Nat) :
    Option StreamFrame → Option StreamFrame → InsFrame
  | none, none =>
    if readOffset = new.endOff then
      if new.size ≠ 0 then
        if new.fin ∧ ¬ (n.finReached ∧ readOffset = n.finOff) then .overlap else .dup
      else if !new.fin ∨ (n.finReached ∧ readOffset = n.finOff) then .dup
      else .ok
    else if new.offset < readOffset then .overlap
    else .ok
  | none, some next => checkNext new next.df readOffset
  | some prev, next =>
    if prev.df.offset = new.offset ∧ prev.df.size = new.size then
      if !prev.df.fin ∧ new.fin then .overlap else .dup
    else if new.offset < prev.df.endOff then .overlap
    else
      match next with
      | none => .ok
      | some next => checkNext new next.df readOffset

def checkOffsets (n : NocopyDataIn) (new : DataFrame) (readOffset : Nat) : Option InsFrame :=
  if new.endOff < readOffset then some (if new.fin then .err else .dup)
  else if n.finSet then
    if new.fin ∧ new.endOff ≠ n.finOff then some .err
    else if n.finOff < new.endOff then some .err
    else if readOffset = new.endOff then some .dup
    else none
  else if readOffset = new.endOff ∧ !new.fin then some .dup
  else none

def holesAfter (n : NocopyDataIn) (new : DataFrame) :
    Option StreamFrame → Option StreamFrame → Nat
  | some prev, some next =>
    (n.nHoles + (prev.df.endOff != new.offset).toNat + (new.endOff != next.df.offset).toNat +
      2 ^ 32 - 1) % 2 ^ 32
  | some prev, none => (n.nHoles + (prev.df.endOff != new.offset).toNat) % 2 ^ 32
  | none, some next => (n.nHoles + (new.endOff != next.df.offset).toNat) % 2 ^ 32
  | none, none => n.nHoles

def place (n : NocopyDataIn) (f : StreamFrame) (before after : List StreamFrame) : NocopyDataIn :=
  { n with
    frames := before.reverse ++ f :: after
    nHoles := n.holesAfter f.df before.head? after.head?
    finSet := n.finSet || f.df.fin
    finOff := if f.df.fin then f.df.endOff else n.finOff
    nFrames := n.nFrames + 1
    byteage := n.byteage + f.df.size }

/-- `insert_frame`, and how many frames the search passed. -/
def tryInsert (n : NocopyDataIn) (f : StreamFrame) (readOffset : Nat) :
    NocopyDataIn × InsFrame × Nat :=
  match n.checkOffsets f.df readOffset with
  | some ins => (n, ins, 0)
  | none =>
    let (before, after, count) := seekBack f.df.offset n.frames.reverse [] 0
    match n.checkNeighbors f.df readOffset before.head? after.head? with
    | .ok => (n.place f before after, .ok, count)
    | ins => (n, ins, 0)

def checkEfficiency (n : NocopyDataIn) (count : Nat) : NocopyDataIn × Bool :=
  if n.nFrames ≤ 10 then ({ n with consFar := 0 }, false)
  else if 1000 < n.nFrames then (n, true)
  else
    let far := decide (n.nFrames / 2 ≤ count)
    let n := { n with consFar := if far then n.consFar + 1 else 0 }
    if far ∧ 4 < n.consFar then (n, true)
    else (n, decide (5 < n.nHoles) || decide (n.byteage / 64 < n.nFrames))

def insertFrame (n : NocopyDataIn) (f : StreamFrame) (readOffset : Nat) :
    NocopyDataIn × InsFrame :=
  match n.tryInsert f readOffset with
  | (n, .ok, count) =>
    match n.checkEfficiency count with
    | (n, true) => ({ n with switchImpl := true }, .ok)
    | (n, false) => (n, .ok)
  | (n, ins, _) => (n, ins)

def getFrame (n : NocopyDataIn) (readOffset : Nat) : Option DataFrame :=
  match n.frames with
  | [] => none
  | f :: _ => if f.df.offset + f.df.readOff = readOffset then some f.df else none

def setReadOff (n : NocopyDataIn) (readOff : Nat) : NocopyDataIn :=
  match n.frames with
  | [] => n
  | f :: fs => { n with frames := { f with df := { f.df with readOff } } :: fs }

/-- `nocopy_di_frame_done`, of the first frame: it is released. -/
def frameDone (n : NocopyDataIn) : NocopyDataIn × List FrameEvent :=
  match n.frames with
  | [] => (n, [])
  | f :: fs =>
    let hole := match fs with
      | [] => false
      | first :: _ => f.df.endOff != first.df.offset
    ({ n with
        frames := fs
        nHoles := (n.nHoles + 2 ^ 32 - hole.toNat) % 2 ^ 32
        nFrames := n.nFrames - 1
        byteage := n.byteage - f.df.size
        finReached := n.finReached || f.df.fin }, f.release)

def destroy (n : NocopyDataIn) : List FrameEvent := n.frames.flatMap StreamFrame.release

end NocopyDataIn

end QuicArt
