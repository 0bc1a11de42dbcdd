import QuicArt.Session

namespace QuicArt

inductive EncLevel
  | clear | early | init | forw
  deriving DecidableEq, Repr, Inhabited

def EncLevel.all : List EncLevel := [.clear, .early, .init, .forw]

def imicoMaxStashedFrames : Nat := 10

def imicoMaxBufferedCrypto : Nat := 6 * 1024

/-- `struct mini_crypto_stream`; the history variable `given` has the bytes that TLS took. -/
structure CryptoStream where
  readOff : Nat := 0
  wantRead : Bool := false
  created : Bool := false
  given : List UInt8 := []

/-- `MCS_CREATED` and `MCS_WANTREAD` are set. -/
def CryptoStream.readable (s : CryptoStream) : Bool := s.created && s.wantRead

/-- The part of `struct ietf_mini_conn` for CRYPTO frames; `packet` is the level of the current
packet, the history variable `received` has the accepted frames. -/
structure MiniCrypto where
  streams : EncLevel → CryptoStream := fun _ => {}
  lastIn : Option (EncLevel × DataFrame) := none
  frames : List (EncLevel × DataFrame) := []
  nFrames : Nat := 0
  framesSz : Nat := 0
  chLen : Nat := 0
  encSessInited : Bool := false
  ignoreInit : Bool := false
  error : Bool := false
  packet : Option EncLevel := none
  received : EncLevel → List DataFrame := fun _ => []

/-- Where `imico_find_stream_frame` finds a frame. -/
inductive CryptoSpot
  | last
  | stashed (i : Nat)
  deriving DecidableEq, Repr

namespace MiniCrypto

def setStream (c : MiniCrypto) (l : EncLevel) (s : CryptoStream) : MiniCrypto :=
  { c with streams := fun i => if i = l then s else c.streams i }

/-- The frame is of the level and its unread part begins at the offset (`DF_ROFF`). -/
def isAt (l : EncLevel) (off : Nat) (f : EncLevel × DataFrame) : Bool :=
  f.1 == l && off == f.2.offset + f.2.readOff

def findStreamFrame (c : MiniCrypto) (l : EncLevel) (off : Nat) :
    Option (CryptoSpot × DataFrame) :=
  match c.lastIn.filter (isAt l off) with
  | some f => some (.last, f.2)
  | none =>
    match c.frames.findIdx? (isAt l off) with
    | some i => (c.frames[i]?).map fun f => (.stashed i, f.2)
    | none => none

/-- `imico_read_chlo_size`; the first argument is the number of bytes read before. -/
def readChloSize (c : MiniCrypto) : Nat → List UInt8 → MiniCrypto
  | _, [] => c
  | 0, b :: bs => if b ≠ 1 then { c with error := true } else c.readChloSize 1 bs
  | 1, b :: bs => if b ≠ 0 then { c with error := true } else c.readChloSize 2 bs
  | 2, b :: bs => { c with chLen := b.toNat * 256 }.readChloSize 3 bs
  | _, b :: _ => { c with chLen := c.chLen ||| b.toNat }

def removeFrame (c : MiniCrypto) : CryptoSpot → DataFrame → MiniCrypto
  | .last, _ => { c with lastIn := none }
  | .stashed i, df =>
    { c with
      frames := c.frames.eraseIdx i
      nFrames := c.nFrames - 1
      framesSz := c.framesSz - df.size }

def updateFrame (c : MiniCrypto) (l : EncLevel) (df : DataFrame) : CryptoSpot → MiniCrypto
  | .last => { c with lastIn := some (l, df) }
  | .stashed i => { c with frames := c.frames.set i (l, df) }

def unread (df : DataFrame) : List UInt8 :=
  (List.range (df.size - df.readOff)).map fun i => df.data (df.readOff + i)

def give (c : MiniCrypto) (l : EncLevel) (bytes : List UInt8) : MiniCrypto :=
  c.setStream l { c.streams l with
    readOff := ((c.streams l).readOff + bytes.length) % 2 ^ 32
    given := (c.streams l).given ++ bytes }

/-- One round of the loop of `imico_stream_readf` for the frame that it has found. -/
def readFound (c : MiniCrypto) (l : EncLevel) (spot : CryptoSpot) (df : DataFrame)
    (bytes : List UInt8) : MiniCrypto :=
  let c := if l = .clear ∧ (c.streams l).readOff < 4 then
    c.readChloSize (c.streams l).readOff bytes else c
  let c := c.give l bytes
  let df := { df with readOff := df.readOff + bytes.length }
  if df.readOff = df.size then c.removeFrame spot df else c.updateFrame l df spot

/-- The loop of `imico_stream_readf`. TLS takes as many of the offered bytes as `tls` says. -/
def readLoop (tls : Nat → Nat) : Nat → MiniCrypto → EncLevel → MiniCrypto × Nat
  | 0, c, _ => (c, 0)
  | fuel + 1, c, l =>
    match c.findStreamFrame l (c.streams l).readOff with
    | none => (c, 0)
    | some (spot, df) =>
      let avail := df.size - df.readOff
      let bytes := (unread df).take (tls avail)
      let c := c.readFound l spot df bytes
      if bytes.length < avail then (c, bytes.length)
      else
        let r := readLoop tls fuel c l
        (r.1, bytes.length + r.2)

def streamReadf (tls : Nat → Nat) (c : MiniCrypto) (l : EncLevel) : MiniCrypto × Nat :=
  readLoop tls (c.frames.length + 2) c l

/-- `chsk_ietf_on_read`: it is an internal error when there was nothing to read. The handshake is
not over, so that TLS wants more: the reader is assumed to keep reading. -/
def onRead (tls : Nat → Nat) (c : MiniCrypto) (l : EncLevel) : MiniCrypto :=
  match c.streamReadf tls l with
  | (c, 0) => { c with error := true }
  | (c, _ + 1) => c.setStream l { c.streams l with wantRead := true }

/-- The first loop of `imico_dispatch_stream_events`. -/
def dispatchStreamEvents (tls : Nat → Nat) (c : MiniCrypto) : MiniCrypto :=
  EncLevel.all.foldl (fun c l => if (c.streams l).readable then c.onRead tls l else c) c

/-- `imico_stash_stream_frame`; memory can be had when `mem` says so. -/
def stashStreamFrame (c : MiniCrypto) (mem : Bool) (l : EncLevel) (df : DataFrame) :
    Option MiniCrypto :=
  if imicoMaxStashedFrames ≤ c.nFrames then none
  else if imicoMaxBufferedCrypto < c.framesSz + df.size then none
  else if mem = false then none
  else
    some { c with
      frames := c.frames ++ [(l, df)]
      nFrames := c.nFrames + 1
      framesSz := c.framesSz + df.size }

def createStream (c : MiniCrypto) (l : EncLevel) : MiniCrypto :=
  if (c.streams l).created then c
  else c.setStream l { c.streams l with created := true, wantRead := true }

/-- A frame at a level means that lower levels are no longer read. -/
def quietLower (c : MiniCrypto) (l : EncLevel) : MiniCrypto :=
  { c with
    streams := fun i => if i.ctorIdx < l.ctorIdx then { c.streams i with wantRead := false }
      else c.streams i }

def ready (c : MiniCrypto) (l : EncLevel) (df : DataFrame) : MiniCrypto :=
  { (c.createStream l).quietLower l with lastIn := some (l, df) }

/-- The end of `imico_process_crypto_frame`, for a frame that can be read. -/
def deliverFrame (tls : Nat → Nat) (c : MiniCrypto) (mem : Bool) (l : EncLevel) (df : DataFrame) :
    Option MiniCrypto :=
  let c := (c.ready l df).dispatchStreamEvents tls
  match c.lastIn with
  | some (_, df) =>
    if df.readOff < df.size then { c with lastIn := none }.stashStreamFrame mem l df
    else some { c with lastIn := none }
  | none => some c

/-- `imico_process_crypto_frame` after parsing; there is no connection when it returns zero. -/
def processCryptoFrame (tls : Nat → Nat) (c : MiniCrypto) (mem inits : Bool) (l : EncLevel)
    (df : DataFrame) : Option MiniCrypto :=
  let off := (c.streams l).readOff
  if df.offset ≤ off ∧ off < df.endOff then
    if c.encSessInited then c.deliverFrame tls mem l df
    else if inits then { c with encSessInited := true }.deliverFrame tls mem l df
    else none
  else if off < df.offset then c.stashStreamFrame mem l df
  else some c

end MiniCrypto

/-- What comes in: packets that could be decrypted, and the frames in them. -/
inductive CryptoOp
  | packetIn (l : EncLevel)
  | frame (mem inits : Bool) (df : DataFrame)

namespace MiniCrypto

/-- `ietf_mini_conn_ci_packet_in`, up to the frames. -/
def packetIn (c : MiniCrypto) : EncLevel → MiniCrypto
  | .clear => { c with packet := if c.error || c.ignoreInit then none else some .clear }
  | .init => if c.error then { c with packet := none }
      else { c with packet := some .init, ignoreInit := true }
  | .early | .forw => { c with packet := none }

/-- A frame of the packet. When its processing fails the rest of the packet is not parsed. -/
def frameIn (tls : Nat → Nat) (c : MiniCrypto) (mem inits : Bool) (df : DataFrame) : MiniCrypto :=
  match c.packet with
  | none => c
  | some l =>
    match c.processCryptoFrame tls mem inits l df with
    | some c' => { c' with received := fun i => if i = l then df :: c.received i else c.received i }
    | none => { c with error := true, packet := none }

def step (tls : Nat → Nat) (c : MiniCrypto) : CryptoOp → MiniCrypto
  | .packetIn l => c.packetIn l
  | .frame mem inits df => c.frameIn tls mem inits df

def Covered (c : MiniCrypto) (l : EncLevel) (x : Nat) : Prop :=
  ∃ df ∈ c.received l, df.offset ≤ x ∧ x < df.endOff

/-- TLS was given the longest part of the stream that was received without a gap. -/
def Delivered (c : MiniCrypto) (S : EncLevel → List UInt8) (l : EncLevel) : Prop :=
  let given := (c.streams l).given
  given = (S l).take given.length ∧ (∀ x < given.length, c.Covered l x) ∧ ¬ c.Covered l given.length

def stash (c : MiniCrypto) (l : EncLevel) : List DataFrame :=
  (c.frames.filter (·.1 == l)).map (·.2)

/-- No frame ends inside another one after `r`, except where a frame begins. -/
def Aligned (fs : List DataFrame) (r : Nat) : Prop :=
  ∀ g ∈ fs, ∀ h ∈ fs, g.offset < h.endOff → h.endOff < g.endOff → r < h.endOff →
    ∃ k ∈ fs, k.offset = h.endOff ∧ 0 < k.size

/-- The frame is old, or it does not begin before the read position and its end and those of the
stashed frames fit together. -/
def Fits (c : MiniCrypto) (l : EncLevel) (df : DataFrame) : Prop :=
  df.endOff < 2 ^ 32 ∧ (df.endOff ≤ (c.streams l).readOff ∨
    (c.streams l).readOff ≤ df.offset ∧ Aligned (df :: c.stash l) (c.streams l).readOff)

/-- The frames of the steps are slices of `S` that fit. -/
def SliceFits (S : EncLevel → List UInt8) (c : MiniCrypto) : CryptoOp → Prop
  | .packetIn _ => True
  | .frame _ _ df => ∀ l, c.packet = some l → df.Slice (S l) ∧ c.Fits l df

end MiniCrypto

inductive CryptoRun (tls : Nat → Nat) (P : MiniCrypto → CryptoOp → Prop) : MiniCrypto → Prop
  | new : CryptoRun tls P {}
  | step (h : CryptoRun tls P c) (hp : P c op) : CryptoRun tls P (c.step tls op)

end QuicArt
