import QuicArt.DataIn
import QuicArt.FlowControl

namespace QuicArt

/-- `struct lsquic_stream`, as far as it receives.  History: the frames and the sizes of resets that
were taken, and that the stream is gone. -/
structure RecvStream where
  dataIn : DataIn
  fc : Sfcw
  readOffset : Nat := 0
  finOff : Nat := 0
  finRecvd : Bool := false
  rstRecvd : Bool := false
  ssRecvd : Bool := false
  finReached : Bool := false
  readDone : Bool := false
  headInFin : Bool := false
  useHeaders : Bool := false
  autoswitch : Bool := false
  accepted : List DataFrame := []
  resets : List Nat := []
  destroyed : Bool := false

/-- The two windows, whether the connection goes on, and what happened to frame objects. -/
structure RecvCall where
  cf : Cfcw
  stream : RecvStream
  ok : Bool := true
  events : List FrameEvent := []

def DataIn.given (di : DataIn) (readOffset : Nat) : List FrameEvent :=
  match di with
  | nocopy n =>
    if (n.getFrame readOffset).isSome then n.frames.head?.toList.map (.access ·.id) else []
  | _ => []

namespace RecvStream

def new (env : FcEnv) (mem : Memory) (cf : Cfcw) (win : UInt32)
    (hash limited useHeaders autoswitch : Bool) : Option RecvStream :=
  let dataIn : Option DataIn :=
    if hash then (HashDataIn.new mem 0).map .hash
    else if mem.dataIn then some (.nocopy {}) else none
  dataIn.map fun dataIn =>
    { dataIn, fc := Sfcw.init env cf win limited, useHeaders, autoswitch }

def updateSfcw (env : FcEnv) (cf : Cfcw) (s : RecvStream) (maxOff : Nat) :
    Cfcw × RecvStream × Bool :=
  let (cf, fc, ok) :=
    if s.fc.maxRecvOff < maxOff then s.fc.setMaxRecvOff cf maxOff else (cf, s.fc, true)
  if ok then (cf, { s with fc := (fc.fcOffsetsChanged env cf).1 }, true)
  else (cf, { s with fc }, false)

/-- The branch of `lsquic_stream_frame_in` for a frame that the data-in has taken. -/
def frameInserted (env : FcEnv) (mem : Memory) (cf : Cfcw) (s : RecvStream) (f : StreamFrame) :
    RecvCall :=
  let free : List FrameEvent := if s.dataIn.ownOnOk then [] else [.putFrame f.id]
  match s.updateSfcw env cf f.df.endOff with
  | (cf, s, false) => ⟨cf, s, false, .access f.id :: free⟩
  | (cf, s, true) =>
    let s :=
      { s with
        finRecvd := s.finRecvd || f.df.fin
        finOff := if f.df.fin then f.df.endOff else s.finOff }
    match s.dataIn.maybeSwitch mem s.autoswitch s.readOffset with
    | (dataIn, false, ev) =>
      ⟨cf, { s with dataIn }, false, .access f.id :: .access f.id :: ev ++ free⟩
    | (dataIn, true, ev) =>
      ⟨cf, { s with dataIn, accepted := f.df :: s.accepted }, true,
        .access f.id :: .access f.id :: ev ++ free⟩

def frameIn (env : FcEnv) (mem : Memory) (cf : Cfcw) (s : RecvStream) (f : StreamFrame) :
    RecvCall :=
  if s.useHeaders && s.headInFin then ⟨cf, s, false, f.release⟩
  else if f.df.fin && s.finRecvd && s.finOff != f.df.endOff then
    ⟨cf, s, false, .access f.id :: f.release⟩
  else
    match s.dataIn.insertOrSwitch mem f s.readOffset with
    | (dataIn, .ok, ev) =>
      let c := frameInserted env mem cf { s with dataIn } f
      { c with events := .access f.id :: ev ++ c.events }
    | (dataIn, .dup, ev) =>
      ⟨cf, { s with dataIn, accepted := f.df :: s.accepted }, true,
        .access f.id :: ev ++ f.release⟩
    | (dataIn, _, ev) => ⟨cf, { s with dataIn }, false, .access f.id :: ev ++ f.release⟩

/-- `lsquic_sfcw_consume_rem` for the stream. -/
def consumeRem (cf : Cfcw) (s : RecvStream) : Cfcw × RecvStream :=
  let (cf, fc) := s.fc.consumeRem cf
  (cf, { s with fc })

def dropFramesIn (s : RecvStream) : RecvStream × List FrameEvent :=
  ({ s with dataIn := .error }, s.dataIn.destroy)

def rstIn (cf : Cfcw) (s : RecvStream) (offset : Nat) : RecvCall :=
  if s.finRecvd && s.finOff != offset then ⟨cf, s, false, []⟩
  else if s.rstRecvd then ⟨cf, { s with resets := offset :: s.resets }, true, []⟩
  else
    let s := { s with rstRecvd := true }
    if offset < s.fc.maxRecvOff then ⟨cf, s, false, []⟩
    else
      match s.fc.setMaxRecvOff cf offset with
      | (cf, fc, false) => ⟨cf, { s with fc }, false, []⟩
      | (cf, fc, true) =>
        let (cf, s) := consumeRem cf { s with fc }
        let (s, ev) := s.dropFramesIn
        ⟨cf, { s with resets := offset :: s.resets }, true, ev⟩

def stopSendingIn (cf : Cfcw) (s : RecvStream) : RecvCall :=
  if s.ssRecvd then ⟨cf, s, true, []⟩
  else
    let (cf, s) := consumeRem cf { s with ssRecvd := true }
    ⟨cf, s, true, []⟩

def consumedBytes (env : FcEnv) (cf : Cfcw) (s : RecvStream) : Cfcw × RecvStream :=
  let (cf, fc) := s.fc.setReadOff cf s.readOffset
  (cf, { s with fc := (fc.fcOffsetsChanged env cf).1 })

/-- The loop of `read_data_frames`, with the sizes that the reader takes of the frames. -/
def readFrames (mem : Memory) : List Nat → RecvStream → RecvStream × Bool × Bool × List FrameEvent
  | [], s => (s, false, true, [])
  | len :: lens, s =>
    match s.dataIn.readFrame s.readOffset len with
    | none => (s, false, true, [])
    | some rd =>
      let ev := s.dataIn.given s.readOffset ++ rd.events
      let s := { s with dataIn := rd.di, readOffset := s.readOffset + rd.bytes.length }
      if rd.done then
        match s.dataIn.maybeSwitch mem s.autoswitch s.readOffset with
        | (dataIn, false, ev') => ({ s with dataIn }, true, false, ev ++ ev')
        | (dataIn, true, ev') =>
          if rd.fin then ({ s with dataIn, finReached := true }, true, true, ev ++ ev')
          else
            let (s, _, ok, ev'') := readFrames mem lens { s with dataIn }
            (s, true, ok, ev ++ ev' ++ ev'')
      else (s, true, true, ev)

def readf (env : FcEnv) (mem : Memory) (cf : Cfcw) (s : RecvStream) (lens : List Nat) : RecvCall :=
  if s.rstRecvd || s.readDone || s.finReached then ⟨cf, s, true, []⟩
  else
    match s.readFrames mem lens with
    | (s, true, true, ev) =>
      let (cf, s) := s.consumedBytes env cf
      ⟨cf, s, true, ev⟩
    | (s, _, _, ev) => ⟨cf, s, true, ev⟩

/-- The loop of `stream_readable_discard`, as far as a number of frames. -/
def discardFrames : Nat → RecvStream → RecvStream × List FrameEvent
  | 0, s => (s, [])
  | n + 1, s =>
    match (s.dataIn.getFrame s.readOffset).2 with
    | none => (s, [])
    | some df =>
      match s.dataIn.readFrame s.readOffset df.size with
      | none => (s, [])
      | some rd =>
        let ev := s.dataIn.given s.readOffset ++ rd.events
        let s := { s with dataIn := rd.di, readOffset := s.readOffset + rd.bytes.length }
        if rd.fin then (s, ev)
        else
          let (s, ev') := discardFrames n s
          (s, ev ++ ev')

def readableDiscard (mem : Memory) (cf : Cfcw) (s : RecvStream) (n : Nat) : RecvCall :=
  if s.readDone then
    let (s, ev) := s.discardFrames n
    let (dataIn, _, ev') := s.dataIn.maybeSwitch mem s.autoswitch s.readOffset
    ⟨cf, { s with dataIn }, true, ev ++ ev'⟩
  else ⟨cf, s, true, []⟩

def destroy (cf : Cfcw) (s : RecvStream) : RecvCall :=
  let (cf, s) := consumeRem cf { s with readDone := true }
  let (s, ev) := s.dropFramesIn
  ⟨cf, { s with destroyed := true }, true, ev⟩

end RecvStream

/-- The calls on a stream: frames that come in, and what the application and the connection do. -/
inductive StreamOp
  | frameIn (f : StreamFrame)
  | rstIn (offset : Nat)
  | stopSendingIn
  | readf (lens : List Nat)
  | shutdownRead
  | readableDiscard (n : Nat)
  | destroy

def RecvStream.call (env : FcEnv) (mem : Memory) (cf : Cfcw) (s : RecvStream) : StreamOp → RecvCall
  | .frameIn f => s.frameIn env mem cf f
  | .rstIn offset => s.rstIn cf offset
  | .stopSendingIn => s.stopSendingIn cf
  | .readf lens => s.readf env mem cf lens
  | .shutdownRead => ⟨cf, { s with readDone := true }, true, []⟩
  | .readableDiscard n => s.readableDiscard mem cf n
  | .destroy => s.destroy cf

/-- After an error its streams are only destroyed. -/
structure RecvConn where
  cf : Cfcw
  streams : List RecvStream := []
  failed : Bool := false
  log : List FrameEvent := []

/-- A stream is opened, one is called, or the connection checks its own window. -/
inductive RecvOp
  | newStream (win : UInt32) (hash limited useHeaders autoswitch : Bool)
  | stream (i : Nat) (op : StreamOp)
  | tick

/-- Only destruction is left for a stream of a connection that has failed. -/
def StreamOp.allowed (failed : Bool) : StreamOp → Bool
  | .destroy => true
  | _ => !failed

namespace RecvConn

/-- One step of the connection. A stream that is gone cannot be called. -/
def step (env : FcEnv) (mem : Memory) (c : RecvConn) : RecvOp → RecvConn
  | .newStream win hash limited useHeaders autoswitch =>
    match RecvStream.new env mem c.cf win hash limited useHeaders autoswitch with
    | none => c
    | some s => { c with streams := c.streams ++ [s] }
  | .stream i op =>
    match c.streams[i]? with
    | none => c
    | some s =>
      if s.destroyed || !op.allowed c.failed then c
      else
        let r := s.call env mem c.cf op
        { cf := r.cf
          streams := c.streams.set i r.stream
          failed := c.failed || !r.ok
          log := c.log ++ r.events }
  | .tick => { c with cf := (c.cf.fcOffsetsChanged env).1 }

end RecvConn

inductive RecvRun (P : RecvConn → RecvOp → Prop) : RecvConn → Prop
  | init (env : FcEnv) (win : UInt32) : RecvRun P { cf := Cfcw.init env win }
  | step (h : RecvRun P c) (hp : P c op) (env : FcEnv) (mem : Memory) :
    RecvRun P (c.step env mem op)

end QuicArt
