import QuicArt.DataIn

namespace QuicArt

/-- A data-in, how far its reader is, the bytes that it got, and the frames that were taken in. -/
structure Session where
  di : DataIn
  readOffset : Nat := 0
  out : List UInt8 := []
  accepted : List DataFrame := []

namespace Session

/-- A frame comes in, as in `lsquic_stream_frame_in`. -/
def insert (auto : Bool) (mem : Memory) (s : Session) (f : StreamFrame) : Session :=
  match s.di.insertOrSwitch mem f s.readOffset with
  | (di, .ok, _) =>
    { s with
      di := (di.maybeSwitch mem auto s.readOffset).1
      accepted := f.df :: s.accepted }
  | (di, .dup, _) => { s with di, accepted := f.df :: s.accepted }
  | (di, _, _) => { s with di }

/-- The reader goes on, as in `read_data_frames`. -/
def read (auto : Bool) (mem : Memory) (s : Session) (len : Nat) : Session :=
  match s.di.readFrame s.readOffset len with
  | none => s
  | some rd =>
    let readOffset := s.readOffset + rd.bytes.length
    { s with
      di := if rd.done then (rd.di.maybeSwitch mem auto readOffset).1 else rd.di
      readOffset
      out := s.out ++ rd.bytes }

def Covered (s : Session) (x : Nat) : Prop := ∃ df ∈ s.accepted, df.offset ≤ x ∧ x < df.endOff

end Session

/-- Memory is as `M` says, and every frame meets `P` in the state that it finds. -/
inductive SessionRun (auto : Bool) (M : Memory → Prop) (P : Memory → Session → StreamFrame → Prop) :
    Session → Prop
  | nocopy : SessionRun auto M P { di := .nocopy {} }
  | hash (hn : HashDataIn.new mem 0 = some h) : SessionRun auto M P { di := .hash h }
  | insert (hs : SessionRun auto M P s) (hm : M mem) (hf : P mem s f) :
    SessionRun auto M P (s.insert auto mem f)
  | read (hs : SessionRun auto M P s) (hm : M mem) (len : Nat) :
    SessionRun auto M P (s.read auto mem len)

/-- The bytes of the frame are those of `S`. -/
structure DataFrame.Carries (S : List UInt8) (df : DataFrame) : Prop where
  endOff_le : df.endOff ≤ S.length
  data : ∀ i < df.size, S[df.offset + i]? = some (df.data i)

/-- A frame as it comes in, with a slice of `S`. -/
structure DataFrame.Slice (S : List UInt8) (df : DataFrame) : Prop extends df.Carries S where
  readOff : df.readOff = 0

/-- A frame of the stream `S`: only one that ends where the stream ends has FIN. -/
structure DataFrame.Part (S : List UInt8) (df : DataFrame) : Prop extends df.Slice S where
  fin : df.fin = true → df.endOff = S.length

end QuicArt
