import QuicArt.HashDataIn

namespace QuicArt

/-- The frames are given to the hash one by one; after an error the rest is only released. -/
def HashDataIn.feed (mem : Memory) (readOffset : Nat) : List StreamFrame → HashDataIn →
    Option HashDataIn × List FrameEvent
  | [], h => (some h, [])
  | f :: fs, h =>
    match h.insertDataFrame mem f.df readOffset with
    | (_, .err) => (none, f.release ++ fs.flatMap StreamFrame.release)
    | (h, _) =>
      let (h?, ev) := feed mem readOffset fs h
      (h?, f.release ++ ev)

def NocopyDataIn.switchToHash (mem : Memory) (n : NocopyDataIn) (readOffset : Nat) :
    Option HashDataIn × List FrameEvent :=
  match HashDataIn.new mem n.byteage with
  | none => (none, n.destroy)
  | some h => h.feed mem readOffset n.frames

/-- `struct data_in`: one of the two implementations, or the one that stands for an error. -/
inductive DataIn
  | nocopy (n : NocopyDataIn)
  | hash (h : HashDataIn)
  | error

namespace DataIn

def insertFrame (mem : Memory) (di : DataIn) (f : StreamFrame) (readOffset : Nat) :
    DataIn × InsFrame × List FrameEvent :=
  match di with
  | nocopy n =>
    let (n, ins) := n.insertFrame f readOffset
    (nocopy n, ins, [])
  | hash h =>
    let (h, ins, ev) := h.insertFrame mem f readOffset
    (hash h, ins, ev)
  | error => (error, .err, [])

def ownOnOk : DataIn → Bool
  | nocopy _ => true
  | hash _ => false
  | error => false

def getFrame (di : DataIn) (readOffset : Nat) : DataIn × Option DataFrame :=
  match di with
  | nocopy n => (nocopy n, n.getFrame readOffset)
  | hash h =>
    let (h, df) := h.getFrame readOffset
    (hash h, df)
  | error => (error, none)

def setReadOff (di : DataIn) (readOff : Nat) : DataIn :=
  match di with
  | nocopy n => nocopy (n.setReadOff readOff)
  | hash h => hash (h.setReadOff readOff)
  | error => error

def frameDone : DataIn → DataIn × List FrameEvent
  | nocopy n =>
    let (n, ev) := n.frameDone
    (nocopy n, ev)
  | hash h => (hash h.frameDone, [])
  | error => (error, [])

def wantsSwitch : DataIn → Bool
  | nocopy n => n.switchImpl
  | hash h => h.switchImpl
  | error => false

def switchImpl (mem : Memory) (di : DataIn) (readOffset : Nat) : Option DataIn × List FrameEvent :=
  match di with
  | nocopy n =>
    let (h, ev) := n.switchToHash mem readOffset
    (h.map hash, ev)
  | hash _ => (if mem.dataIn then some (nocopy {}) else none, [])
  | error => (some error, [])

def destroy : DataIn → List FrameEvent
  | nocopy n => n.destroy
  | hash _ => []
  | error => []

/-- The part of `lsquic_stream_frame_in` that inserts a frame, after a switch if it overlaps. -/
def insertOrSwitch (mem : Memory) (di : DataIn) (f : StreamFrame) (readOffset : Nat) :
    DataIn × InsFrame × List FrameEvent :=
  match di.insertFrame mem f readOffset with
  | (di, .overlap, ev) =>
    match di.switchImpl mem readOffset with
    | (none, ev') => (error, .overlap, ev ++ ev')
    | (some di, ev') =>
      let (di, ins, ev'') := di.insertFrame mem f readOffset
      (di, ins, ev ++ ev' ++ ev'')
  | res => res

/-- `maybe_switch_data_in`; false is for the error. -/
def maybeSwitch (mem : Memory) (auto : Bool) (di : DataIn) (readOffset : Nat) :
    DataIn × Bool × List FrameEvent :=
  if auto && di.wantsSwitch then
    match di.switchImpl mem readOffset with
    | (none, ev) => (error, false, ev)
    | (some di, ev) => (di, true, ev)
  else (di, true, [])

end DataIn

structure ReadRound where
  di : DataIn
  bytes : List UInt8
  fin : Bool
  done : Bool
  events : List FrameEvent

/-- A round of the loop of `read_data_frames`, with a reader that takes up to `len` bytes. -/
def DataIn.readFrame (di : DataIn) (readOffset len : Nat) : Option ReadRound :=
  match di.getFrame readOffset with
  | (_, none) => none
  | (di, some df) =>
    let nread := min len (df.size - df.readOff)
    let bytes := (List.range nread).map fun i => df.data (df.readOff + i)
    let di := di.setReadOff (df.readOff + nread)
    if df.readOff + nread = df.size then
      let (di, ev) := di.frameDone
      some ⟨di, bytes, df.fin, true, ev⟩
    else some ⟨di, bytes, df.fin, false, []⟩

end QuicArt
