import QuicArt.FlowControl
import QuicArt.Varint

namespace QuicArt

def hqftData : Nat := 0
def hqftHeaders : Nat := 1
def hqftCancelPush : Nat := 3
def hqftSettings : Nat := 4
def hqftPushPromise : Nat := 5
def hqftGoaway : Nat := 7
def hqftMaxPushId : Nat := 0xD
def hqftPriorityUpdateStream : Nat := 0xF0700
def hqftPriorityUpdatePush : Nat := 0xF0701

/-- Whether it is a server's request stream, whether priorities are supported, and whether
content-length is verified. -/
structure HqStream where
  server : Bool := false
  bidiClient : Bool := true
  httpPrio : Bool := false
  verifyCl : Bool := false
  contLen : Nat := 0
  deriving DecidableEq, Repr

/-- `HEC_FRAME_UNEXPECTED`, `HEC_FRAME_ERROR`, `HEC_MESSAGE_ERROR`, or `abort_connection`. -/
inductive HqAbort
  | frameUnexpected | frameError | messageError | abortConnection
  deriving DecidableEq, Repr

/-- A frame header or a header block was read, a DATA byte was handed on, or the connection is
aborted. -/
inductive HqEvent (δ : Type)
  | frame (type len : Nat)
  | headers (block : δ)
  | data (b : UInt8)
  | abort (a : HqAbort)
  deriving DecidableEq, Repr

/-- What the QPACK decoder says after a byte (`enum lsqpack_read_header_status`). -/
inductive QpackStep (δ : Type)
  | need (d : δ)
  | done (d : δ)
  | blocked (d : δ)
  | error

/-- The QPACK decoder: it is started with the size of a header block and given the block's bytes. -/
structure Qpack (δ : Type) where
  start : Nat → δ
  byte : δ → UInt8 → QpackStep δ

inductive HqfiState
  | frameHeaderBegin | frameHeaderContinue | readingPayload | pushIdBegin | pushIdContinue
  deriving DecidableEq, Repr

/-- `struct hq_filter`, with the decoder of the header block and `sm_data_in`. -/
structure HqFilter (δ : Type) where
  vint2 : VarintRead2State := {}
  vint1 : VarintReadState := {}
  error : Bool := false
  begin : Bool := false
  blocked : Bool := false
  header : Bool := false
  data : Bool := false
  trailer : Bool := false
  state : HqfiState := .frameHeaderBegin
  dec : Option δ := none
  dataIn : Nat := 0

namespace HqFilter

variable {δ : Type}

def type (f : HqFilter δ) : Nat := f.vint2.one

def left (f : HqFilter δ) : Nat := f.vint2.varint.val

def setLeft (f : HqFilter δ) (n : Nat) : HqFilter δ :=
  { f with vint2 := ⟨f.vint2.one, ⟨n, f.vint2.varint.pos⟩, f.vint2.state⟩ }

def decrLeft (f : HqFilter δ) (n : Nat) : HqFilter δ := f.setLeft (sub64 f.left n)

def endPayload (f : HqFilter δ) : HqFilter δ :=
  if f.left = 0 then { f with state := .frameHeaderBegin } else f

/-- `update_type_hist_and_check`: none is for a frame that is not expected here. -/
def updateTypeHistAndCheck (s : HqStream) (f : HqFilter δ) : Option (HqFilter δ) :=
  if f.type = hqftHeaders then
    if f.trailer then none
    else if f.data then some { f with trailer := true }
    else some { f with header := true }
  else if f.type = hqftData then
    if f.header && !f.trailer then some { f with data := true } else none
  else if f.type = hqftPushPromise then
    if s.bidiClient && !s.server then some f else none
  else if f.type = hqftCancelPush ∨ f.type = hqftSettings ∨ f.type = hqftGoaway ∨
      f.type = hqftMaxPushId then none
  else if f.type = 2 ∨ f.type = 6 ∨ f.type = 8 ∨ f.type = 9 then none
  else if f.type = hqftPriorityUpdateStream ∨ f.type = hqftPriorityUpdatePush then
    if s.httpPrio then none else some f
  else some f

def verifyClOnNewDataFrame (s : HqStream) (f : HqFilter δ) : HqFilter δ × List (HqEvent δ) :=
  let f := { f with dataIn := add64 f.dataIn f.left }
  (f, if s.contLen < f.dataIn then [.abort .messageError] else [])

def needsPayload (type : Nat) : Bool :=
  type = hqftCancelPush || type = hqftGoaway || type = hqftHeaders || type = hqftMaxPushId ||
    type = hqftPushPromise || type = hqftSettings

/-- The filter, the rest of the input, what happened, and whether it is the last turn. -/
structure Turn (δ : Type) where
  filter : HqFilter δ
  rest : List UInt8
  events : List (HqEvent δ) := []
  stop : Bool := false

/-- The code of `hq_read` behind a complete frame header. -/
def frameHeader (s : HqStream) (f : HqFilter δ) (rest : List UInt8) : Turn δ :=
  let f := { f with begin := true, state := .readingPayload }
  let ev : HqEvent δ := .frame f.type f.left
  match f.updateTypeHistAndCheck s with
  | none => ⟨{ f with error := true }, rest, [ev, .abort .frameUnexpected], true⟩
  | some f =>
    if 0 < f.left then
      if f.type = hqftData then
        if s.verifyCl then
          let (f, evs) := f.verifyClOnNewDataFrame s
          ⟨f, rest, ev :: evs, true⟩
        else ⟨f, rest, [ev], true⟩
      else if f.type = hqftPushPromise then
        if s.server then ⟨f, rest, [ev, .abort .frameUnexpected], true⟩
        else ⟨{ f with state := .pushIdBegin }, rest, [ev], false⟩
      else ⟨f, rest, [ev], false⟩
    else if needsPayload f.type then
      ⟨{ f with error := true }, rest, [ev, .abort .abortConnection], true⟩
    else ⟨{ f with begin := false, state := .frameHeaderBegin }, rest, [ev], false⟩

/-- The decoder reads bytes of a header block, as far as it gets. -/
def headerRead (q : Qpack δ) : δ → List UInt8 → QpackStep δ × List UInt8
  | d, [] => (.need d, [])
  | d, b :: bs =>
    match q.byte d b with
    | .need d => headerRead q d bs
    | r => (r, bs)

/-- `lsquic_qdh_header_in_begin` or `lsquic_qdh_header_in_continue`. A block of less than two bytes
is an error. -/
def headerIn (q : Qpack δ) (f : HqFilter δ) (input : List UInt8) : QpackStep δ × List UInt8 :=
  let d? := if f.begin then (if f.left < 2 then none else some (q.start f.left)) else f.dec
  match d? with
  | none => (.error, input)
  | some d =>
    match headerRead q d input with
    | (.error, _) => (.error, input)
    | res => res

def headerPayload (q : Qpack δ) (f : HqFilter δ) (input : List UInt8) : Turn δ :=
  let sz := min f.left input.length
  let (rhs, rest) := f.headerIn q (input.take sz)
  let f := ({ f with begin := false }.decrLeft (sz - rest.length)).endPayload
  let rest := rest ++ input.drop sz
  match rhs with
  | .done d => ⟨{ f with dec := some d }, rest, [.headers d], false⟩
  | .need d => ⟨{ f with dec := some d }, rest, [], false⟩
  | .blocked d => ⟨{ f with dec := some d, blocked := true }, rest, [], true⟩
  | .error => ⟨{ f with error := true }, rest, [.abort .abortConnection], true⟩

def turn (s : HqStream) (q : Qpack δ) (f : HqFilter δ) (input : List UInt8) : Turn δ :=
  match f.state with
  | .frameHeaderBegin | .frameHeaderContinue =>
    let f :=
      if f.state = .frameHeaderBegin then
        { f with vint2.state := .oneBegin, state := .frameHeaderContinue }
      else f
    match f.vint2.readTwo input with
    | (vint2, rest, false) => ⟨{ f with vint2 }, rest, [], false⟩
    | (vint2, rest, true) => frameHeader s { f with vint2 } rest
  | .pushIdBegin | .pushIdContinue =>
    let f :=
      if f.state = .pushIdBegin then { f with vint1.pos := 0, state := .pushIdContinue } else f
    let (vint1, rest, done) := f.vint1.readNb input
    let f := { f with vint1 }.decrLeft (input.length - rest.length)
    ⟨if done then { f with state := .readingPayload } else f, rest, [], false⟩
  | .readingPayload =>
    if f.type = hqftData then ⟨f, input, [], true⟩
    else if f.type = hqftHeaders ∨ f.type = hqftPushPromise then f.headerPayload q input
    else
      let sz := min f.left input.length
      ⟨({ f with begin := false }.decrLeft sz).endPayload, input.drop sz, [], false⟩

/-- The loop of `hq_read`, in which each turn takes a byte or is the last one. -/
def readLoop (s : HqStream) (q : Qpack δ) : Nat → HqFilter δ → List UInt8 → Turn δ
  | 0, f, input => ⟨f, input, [], true⟩
  | fuel + 1, f, input =>
    if input = [] then ⟨f, [], [], false⟩
    else
      let t := f.turn s q input
      if t.stop then t
      else
        let t' := readLoop s q fuel t.filter t.rest
        { t' with events := t.events ++ t'.events }

def hqRead (s : HqStream) (q : Qpack δ) (f : HqFilter δ) (input : List UInt8) (fin : Bool) :
    Turn δ :=
  let t := f.readLoop s q input.length input
  if fin && t.rest = [] && t.filter.state ≠ .frameHeaderBegin then
    { t with
      filter := { t.filter with error := true }
      events := t.events ++ [.abort .frameError] }
  else t

def inData (f : HqFilter δ) : Bool := f.state = .readingPayload && f.type = hqftData

def hqDecrLeft (f : HqFilter δ) (n : Nat) : HqFilter δ := (f.decrLeft n).endPayload

end HqFilter

end QuicArt
