import QuicArt.HqFilter

namespace QuicArt

inductive HqPlace (δ : Type)
  | header (acc : List UInt8)
  | pushId (len : Nat) (acc : List UInt8)
  | payload (type len seen : Nat) (dec : Option δ)
  | failed

def HqPlace.toCome {δ : Type} : HqPlace δ → Option Nat
  | .pushId len acc => some (len - acc.length)
  | .payload _ len seen _ => some (len - seen)
  | _ => none

/-- The place of the next byte, which frames there have been, and the size of the DATA frames. -/
structure HqPos (δ : Type) where
  place : HqPlace δ := .header []
  header : Bool := false
  data : Bool := false
  trailer : Bool := false
  dataIn : Nat := 0

namespace HqPos

variable {δ : Type}

def expects (s : HqStream) (x : HqPos δ) (type : Nat) : Bool :=
  if type = hqftHeaders then !x.trailer
  else if type = hqftData then x.header && !x.trailer
  else if type = hqftPushPromise then s.bidiClient && !s.server
  else if type = hqftPriorityUpdateStream ∨ type = hqftPriorityUpdatePush then !s.httpPrio
  else type ∉ [hqftCancelPush, hqftSettings, hqftGoaway, hqftMaxPushId, 2, 6, 8, 9]

def note (s : HqStream) (x : HqPos δ) (type len : Nat) : HqPos δ :=
  if type = hqftHeaders then
    if x.data then { x with trailer := true } else { x with header := true }
  else if type = hqftData then
    { x with
      data := true
      dataIn := if 0 < len ∧ s.verifyCl then add64 x.dataIn len else x.dataIn }
  else x

def enter (s : HqStream) (x : HqPos δ) (type len : Nat) : HqPos δ × List (HqEvent δ) :=
  if x.expects s type then
    let x := x.note s type len
    if len = 0 then
      if HqFilter.needsPayload type then
        ({ x with place := .failed }, [.frame type len, .abort .abortConnection])
      else ({ x with place := .header [] }, [.frame type len])
    else if type = hqftPushPromise then ({ x with place := .pushId len [] }, [.frame type len])
    else
      ({ x with place := .payload type len 0 none },
        .frame type len ::
          if type = hqftData ∧ s.verifyCl ∧ s.contLen < x.dataIn then [.abort .messageError]
            else [])
  else ({ x with place := .failed }, [.frame type len, .abort .frameUnexpected])

def behind (type len seen : Nat) (dec : Option δ) : HqPlace δ :=
  if seen + 1 = len then .header [] else .payload type len (seen + 1) dec

/-- A block of less than two bytes has no decoder. -/
def decoder (q : Qpack δ) (left : Nat) : Option δ → Option δ
  | some d => some d
  | none => if left < 2 then none else some (q.start left)

def headerByte (q : Qpack δ) (x : HqPos δ) (type len seen : Nat) (dec : Option δ) (b : UInt8) :
    HqPos δ × List (HqEvent δ) :=
  match (decoder q (len - seen) dec).map (q.byte · b) with
  | some (.need d) => ({ x with place := behind type len seen (some d) }, [])
  | some (.blocked d) => ({ x with place := behind type len seen (some d) }, [])
  | some (.done d) => ({ x with place := behind type len seen (some d) }, [.headers d])
  | _ => ({ x with place := .failed }, [.abort .abortConnection])

/-- The next byte of the stream. A PUSH_PROMISE frame that ends within its push ID is an error. -/
def next (s : HqStream) (q : Qpack δ) (x : HqPos δ) (b : UInt8) : HqPos δ × List (HqEvent δ) :=
  match x.place with
  | .header acc =>
    match VarintRead2State.decodeTwo (acc ++ [b]) with
    | none => ({ x with place := .header (acc ++ [b]) }, [])
    | some (type, len, _) => x.enter s type len
  | .pushId len acc =>
    match decodeVarint (acc ++ [b]) with
    | some _ => ({ x with place := .payload hqftPushPromise len (acc.length + 1) none }, [])
    | none =>
      if acc.length + 1 < len then ({ x with place := .pushId len (acc ++ [b]) }, [])
      else ({ x with place := .failed }, [.abort .frameError])
  | .payload type len seen dec =>
    if type = hqftData then ({ x with place := behind type len seen none }, [.data b])
    else if type = hqftHeaders ∨ type = hqftPushPromise then x.headerByte q type len seen dec b
    else ({ x with place := behind type len seen none }, [])
  | .failed => (x, [])

def feed (s : HqStream) (q : Qpack δ) : HqPos δ → List UInt8 → HqPos δ × List (HqEvent δ)
  | x, [] => (x, [])
  | x, b :: bs =>
    let r := x.next s q b
    let r' := feed s q r.1 bs
    (r'.1, r.2 ++ r'.2)

end HqPos

end QuicArt
