import QuicArt.HqFilter

namespace QuicArt

def ullongMax : Nat := 2 ^ 64 - 1

def isDigit (b : UInt8) : Bool := 48 ≤ b && b ≤ 57

def isSpace (b : UInt8) : Bool := b = 32 || (9 ≤ b && b ≤ 13)

def digitsValue (ds : List UInt8) : Nat := ds.foldl (fun n d => 10 * n + (d.toNat - 48)) 0

/-- What `strtoull` leaves: the number, where it stopped, and whether it set `errno` to `ERANGE`. -/
structure StrtoullResult where
  value : Nat
  rest : List UInt8
  erange : Bool
  deriving DecidableEq, Repr

def takeSign : List UInt8 → Bool × List UInt8
  | 43 :: bs => (false, bs)
  | 45 :: bs => (true, bs)
  | bs => (false, bs)

/-- `strtoull` in base 10, on a string without its final NUL. -/
def strtoull (text : List UInt8) : StrtoullResult :=
  let (negative, bs) := takeSign (text.dropWhile isSpace)
  let digits := bs.takeWhile isDigit
  let n := digitsValue digits
  if digits = [] then ⟨0, text, false⟩
  else if ullongMax < n then ⟨ullongMax, bs.dropWhile isDigit, true⟩
  else ⟨if negative then (2 ^ 64 - n) % 2 ^ 64 else n, bs.dropWhile isDigit, false⟩

/-- `struct cont_len`: 1 is for a value that is set, 0 for none, and -1 for an invalid one. -/
structure ContLen where
  value : Nat := 0
  has : Int := 0
  deriving DecidableEq, Repr

/-- `process_content_length`; `erange` says that `errno` already was `ERANGE`. -/
def processContentLength (erange : Bool) (cl : ContLen) (val : List UInt8) : ContLen :=
  if cl.has = 0 then
    if 30 ≤ val.length then { cl with has := -1 }
    else
      let r := strtoull val
      if r.rest.headD 0 = 0 ∧ ¬ (r.value = ullongMax ∧ (erange || r.erange) = true) then
        { value := r.value, has := 1 }
      else { value := r.value, has := -1 }
  else if 0 < cl.has then { cl with has := -1 }
  else cl

def contentLengthText : List UInt8 :=
  [99, 111, 110, 116, 101, 110, 116, 45, 108, 101, 110, 103, 116, 104]

def tnvContentLength0 : Nat := 4

/-- `struct lsxpack_header`: the name, the value, and the index of the static table. -/
structure XHeader where
  name : List UInt8
  value : List UInt8
  qpackIndex : Option Nat := none
  indexed : qpackIndex = some tnvContentLength0 → name = contentLengthText := by simp

namespace XHeader

/-- `is_content_length`. The last byte of the name is not compared. -/
def isContentLength (x : XHeader) : Bool :=
  x.qpackIndex = some tnvContentLength0 ||
    (x.name.length = 14 && x.name.take 13 = contentLengthText.take 13)

end XHeader

/-- `lsquic_stream_verify_len`, on a stream that uses the HTTP/3 filter. -/
def HqStream.verifyLen (s : HqStream) (contLen : Nat) : HqStream :=
  { s with contLen := contLen, verifyCl := true }

/-- `qdh_process_header`, for the content length; each field comes with the state of `errno`. -/
def qdhProcessHeader (s : HqStream) (x : XHeader × Bool) : HqStream :=
  if x.1.isContentLength then
    let cl := processContentLength x.2 {} x.1.value
    if 0 < cl.has then s.verifyLen cl.value else s
  else s

namespace HqFilter

variable {δ : Type}

def verifyClOnFin (s : HqStream) (f : HqFilter δ) : List (HqEvent δ) :=
  if f.dataIn ≠ 0 ∧ s.contLen ≠ f.dataIn then [.abort .messageError] else []

def atDataFrame (f : HqFilter δ) (len : Nat) : HqFilter δ :=
  { f with vint2 := ⟨hqftData, ⟨len, f.vint2.varint.pos⟩, f.vint2.state⟩ }

def dataFrames (s : HqStream) : HqFilter δ → List Nat → HqFilter δ × List (HqEvent δ)
  | f, [] => (f, [])
  | f, len :: lens =>
    let t := (f.atDataFrame len).frameHeader s []
    let (f, evs) := dataFrames s t.filter lens
    (f, t.events ++ evs)

def finReached (s : HqStream) (f : HqFilter δ) : List (HqEvent δ) :=
  if s.verifyCl then f.verifyClOnFin s else []

end HqFilter

/-- The header block field by field, and the lengths of the DATA frames. -/
structure Message where
  block : List (XHeader × Bool)
  data : List Nat
  fits : data.sum < 2 ^ 62

namespace Message

def total (m : Message) : Nat := m.data.sum

def stream (m : Message) : HqStream := m.block.foldl qdhProcessHeader {}

def events (m : Message) : List (HqEvent Unit) :=
  let (f, evs) := HqFilter.dataFrames m.stream { header := true } m.data
  evs ++ f.finReached m.stream

def Fails (m : Message) : Prop := HqEvent.abort HqAbort.messageError ∈ m.events

instance (m : Message) : Decidable m.Fails :=
  inferInstanceAs (Decidable (_ ∈ _))

def contentLengths (m : Message) : List XHeader :=
  (m.block.map Prod.fst).filter fun x => x.name = contentLengthText

end Message

def decimalNumber (text : List UInt8) : Option Nat :=
  if text ≠ [] ∧ text.all isDigit = true then some (digitsValue text) else none

/-- The number that `strtoull` reads in all of a text of fewer than 30 bytes up to the first NUL. -/
def strtoullNumber (erange : Bool) (text : List UInt8) : Option Nat :=
  if text.length < 30 ∧ (strtoull text).rest.headD 0 = 0 ∧
      ¬ ((strtoull text).value = ullongMax ∧ (erange || (strtoull text).erange) = true) then
    some (strtoull text).value
  else none

/-- A name of 14 bytes that starts as `content-length` does up to its last byte. -/
def XHeader.LooksLike (x : XHeader) : Prop :=
  x.name.length = 14 ∧ x.name.take 13 = contentLengthText.take 13

instance (x : XHeader) : Decidable x.LooksLike :=
  inferInstanceAs (Decidable (_ ∧ _))

namespace Message

def numbers (m : Message) : List Nat :=
  m.block.filterMap fun x => if x.1.LooksLike then strtoullNumber x.2 x.1.value else none

/-- The one content-length field is a decimal number other than the length of the payload. -/
def Mismatch (m : Message) : Prop :=
  ∃ x c, m.contentLengths = [x] ∧ decimalNumber x.value = some c ∧ 0 < m.total ∧ m.total ≠ c

end Message

namespace XHeader

theorem isContentLength_iff (x : XHeader) : x.isContentLength = true ↔ x.LooksLike := by
  constructor
  · intro h
    rcases Bool.or_eq_true_iff.mp h with h | h
    · have hx := x.indexed (of_decide_eq_true h)
      exact ⟨by rw [hx]; rfl, by rw [hx]⟩
    · simpa [LooksLike] using h
  · intro h
    simp [isContentLength, h.1, h.2]

end XHeader

theorem processContentLength_has :
    0 < (processContentLength e {} val).has ↔ (strtoullNumber e val).isSome = true := by
  simp only [processContentLength, strtoullNumber, if_true]
  by_cases hlen : 30 ≤ val.length
  · simp [hlen, Nat.not_lt.mpr hlen]
  · rw [if_neg hlen]
    simp only [Nat.lt_of_not_le hlen, true_and]
    split <;> simp

theorem processContentLength_value (h : strtoullNumber e val = some c) :
    (processContentLength e {} val).value = c := by
  simp only [strtoullNumber] at h
  split at h
  next hc =>
    simp only [processContentLength, if_true, if_neg (Nat.not_le.mpr hc.1), if_pos hc.2]
    exact Option.some.inj h
  · cases h

theorem qdhProcessHeader_eq :
    qdhProcessHeader s x =
      match (if x.1.LooksLike then strtoullNumber x.2 x.1.value else none) with
      | some c => s.verifyLen c
      | none => s := by
  simp only [qdhProcessHeader, x.1.isContentLength_iff]
  by_cases hl : x.1.LooksLike
  · simp only [if_pos hl, processContentLength_has]
    cases hn : strtoullNumber x.2 x.1.value with
    | none => simp
    | some c => simp [processContentLength_value hn]
  · simp only [if_neg hl]

namespace Message

theorem foldl_stream (block : List (XHeader × Bool)) (s : HqStream) :
    block.foldl qdhProcessHeader s =
      match (block.filterMap fun x => if x.1.LooksLike then strtoullNumber x.2 x.1.value
        else none).getLast? with
      | some c => s.verifyLen c
      | none => s := by
  induction block generalizing s with
  | nil => rfl
  | cons x block ih =>
    rw [List.foldl_cons, ih, qdhProcessHeader_eq, List.filterMap_cons]
    cases (if x.1.LooksLike then strtoullNumber x.2 x.1.value else none) with
    | none => rfl
    | some c =>
      rw [List.getLast?_cons]
      cases (block.filterMap _).getLast? with
      | none => rfl
      | some c' => rfl

theorem stream_eq (m : Message) :
    m.stream = match m.numbers.getLast? with
      | some c => HqStream.verifyLen {} c
      | none => {} := foldl_stream m.block {}

end Message

namespace HqFilter

variable {δ : Type}

theorem dataFrame_unverified {f : HqFilter δ} (len : Nat) (hs : s.verifyCl = false)
    (hh : f.header = true)
    (ht : f.trailer = false) :
    ∃ g, ((f.atDataFrame len).frameHeader s []).filter = g ∧ g.header = true ∧ g.trailer = false ∧
      ((f.atDataFrame len).frameHeader s []).events = [.frame hqftData len] := by
  refine ⟨_, rfl, ?_⟩
  by_cases hl : 0 < len
  · simp [frameHeader, atDataFrame, updateTypeHistAndCheck, type, left, hqftData,
      hqftHeaders, hh, ht,
      hl, hs]
  · simp [frameHeader, atDataFrame, updateTypeHistAndCheck, type, left, hqftData,
      hqftHeaders, hh, ht,
      hl, needsPayload, hqftCancelPush, hqftGoaway, hqftMaxPushId, hqftPushPromise, hqftSettings]

theorem dataFrame_verified {f : HqFilter δ} (len : Nat) (hs : s.verifyCl = true)
    (hh : f.header = true)
    (ht : f.trailer = false) (hfit : f.dataIn + len < 2 ^ 64) :
    ∃ g, ((f.atDataFrame len).frameHeader s []).filter = g ∧ g.header = true ∧ g.trailer = false ∧
      g.dataIn = f.dataIn + len ∧
      (.abort .messageError ∈ ((f.atDataFrame len).frameHeader s []).events ↔
        0 < len ∧ s.contLen < f.dataIn + len) := by
  refine ⟨_, rfl, ?_⟩
  by_cases hl : 0 < len
  · have hadd : add64 f.dataIn len = f.dataIn + len := Nat.mod_eq_of_lt hfit
    simp only [frameHeader, atDataFrame, updateTypeHistAndCheck, verifyClOnNewDataFrame, type, left,
      hqftData, hqftHeaders, hh, ht, hl, hs]
    by_cases hc : s.contLen < f.dataIn + len <;> simp [hl, hadd, hc]
  · have hz : len = 0 := Nat.eq_zero_of_not_pos hl
    simp [frameHeader, atDataFrame, updateTypeHistAndCheck, type, left, hqftData,
      hqftHeaders, hh, ht,
      hz, needsPayload, hqftCancelPush, hqftGoaway, hqftMaxPushId, hqftPushPromise, hqftSettings]

theorem dataFrames_unverified {f : HqFilter δ} (hs : s.verifyCl = false) (hh : f.header = true)
    (ht : f.trailer = false) : .abort .messageError ∉ (dataFrames s f lens).2 := by
  induction lens generalizing f with
  | nil => simp [dataFrames]
  | cons len lens ih =>
    obtain ⟨g, hg, hgh, hgt, hev⟩ := dataFrame_unverified len hs hh ht
    simp only [dataFrames, hg, hev, List.mem_append, not_or]
    exact ⟨by simp, ih hgh hgt⟩

theorem dataFrames_verified {f : HqFilter δ} (hs : s.verifyCl = true) (hh : f.header = true)
    (ht : f.trailer = false) (hfit : f.dataIn + lens.sum < 2 ^ 64) :
    (dataFrames s f lens).1.dataIn = f.dataIn + lens.sum ∧
      (.abort .messageError ∈ (dataFrames s f lens).2 ↔
        0 < lens.sum ∧ s.contLen < f.dataIn + lens.sum) := by
  induction lens generalizing f with
  | nil => simp [dataFrames]
  | cons len lens ih =>
    rw [List.sum_cons] at hfit ⊢
    obtain ⟨g, hg, hgh, hgt, hgd, hev⟩ := dataFrame_verified len hs hh ht (by omega)
    obtain ⟨hd, he⟩ := ih hgh hgt (by rw [hgd]; omega)
    simp only [dataFrames, hg, List.mem_append, hev, he, hd, hgd]
    exact ⟨by omega, by omega⟩

theorem verifyClOnFin_mem {f : HqFilter δ} :
    .abort .messageError ∈ f.verifyClOnFin s ↔ f.dataIn ≠ 0 ∧ s.contLen ≠ f.dataIn := by
  simp only [verifyClOnFin]
  split
  next h => exact ⟨fun _ => h, fun _ => List.mem_singleton_self _⟩
  next h => exact iff_of_false List.not_mem_nil h

end HqFilter

namespace Message

theorem fails_iff (m : Message) :
    m.Fails ↔ ∃ c, m.numbers.getLast? = some c ∧ 0 < m.total ∧ m.total ≠ c := by
  have hfit := m.fits
  simp only [Fails, events]
  rw [stream_eq]
  cases m.numbers.getLast? with
  | none =>
    have hno : HqEvent.abort HqAbort.messageError ∉
        (HqFilter.dataFrames (δ := Unit) {} { header := true } m.data).2 :=
      HqFilter.dataFrames_unverified rfl rfl rfl
    simp [HqFilter.finReached, hno]
  | some c =>
    obtain ⟨hd, he⟩ := HqFilter.dataFrames_verified (s := HqStream.verifyLen {} c)
      (f := ({ header := true } : HqFilter Unit)) rfl rfl rfl
      (show 0 + m.data.sum < 2 ^ 64 by omega)
    simp only [Nat.zero_add] at hd he
    have hv : (HqStream.verifyLen {} c).verifyCl = true := rfl
    have hc : (HqStream.verifyLen {} c).contLen = c := rfl
    simp only [List.mem_append, he, HqFilter.finReached, hv, if_true,
      HqFilter.verifyClOnFin_mem, hd,
      hc, total, Option.some.injEq, exists_eq_left']
    omega

/-- The last number read is not the payload's length, although there is not just one decimal
content-length field, or it states that length. -/
def WronglyHeld (m : Message) : Prop :=
  (∃ v, m.numbers.getLast? = some v ∧ v ≠ m.total) ∧
    ¬ ∃ x c, m.contentLengths = [x] ∧ decimalNumber x.value = some c ∧ c ≠ m.total

/-- The one content-length field is wrong, but no number is read, or the last one is right. -/
def WronglyPassed (m : Message) : Prop :=
  (∃ x c, m.contentLengths = [x] ∧ decimalNumber x.value = some c ∧ c ≠ m.total) ∧
    (m.numbers = [] ∨ m.numbers.getLast? = some m.total)

theorem numbers_passed (m : Message) :
    (m.numbers = [] ∨ m.numbers.getLast? = some m.total) ↔
      ¬ ∃ v, m.numbers.getLast? = some v ∧ v ≠ m.total := by
  rw [← List.getLast?_eq_none_iff]
  cases m.numbers.getLast? with
  | none => simp
  | some v => simp

/-- Exact unless a message is held to a number it does not state or passes against the one it
states. -/
theorem fails_iff_mismatch (m : Message) :
    (m.Fails ↔ m.Mismatch) ↔ m.total = 0 ∨ (¬ m.WronglyHeld ∧ ¬ m.WronglyPassed) := by
  have hm : m.Mismatch ↔ 0 < m.total ∧
      ∃ x c, m.contentLengths = [x] ∧ decimalNumber x.value = some c ∧ c ≠ m.total := by
    simp only [Mismatch]
    grind
  have hf : m.Fails ↔ 0 < m.total ∧ ∃ v, m.numbers.getLast? = some v ∧ v ≠ m.total := by
    rw [fails_iff]
    grind
  rw [hm, hf, WronglyHeld, WronglyPassed, numbers_passed]
  rcases Nat.eq_zero_or_pos m.total with h0 | hpos
  · simp [h0]
  · have hne : m.total ≠ 0 := Nat.pos_iff_ne_zero.mp hpos
    simp only [hpos, hne, true_and, false_or]
    generalize (∃ v, m.numbers.getLast? = some v ∧ v ≠ m.total) = held
    generalize (∃ x c, m.contentLengths = [x] ∧ decimalNumber x.value = some c ∧
      c ≠ m.total) = states
    by_cases held <;> by_cases states <;> simp [*]

end Message

def contentLengthField (value : List UInt8) : XHeader :=
  { name := contentLengthText, value := value }

/-- Five bytes of DATA behind the fields `content-length: 5` and `content-length: 7`. -/
def ambiguousMessage : Message where
  block := [(contentLengthField [53], false), (contentLengthField [55], false)]
  data := [5]
  fits := by decide

/-- Two content-length fields: the second one is held against the message. -/
theorem ambiguous_fails :
    ambiguousMessage.contentLengths.length = 2 ∧ ¬ ambiguousMessage.Mismatch ∧
      ambiguousMessage.Fails := by
  have hlen : ambiguousMessage.contentLengths.length = 2 := rfl
  refine ⟨hlen, ?_, by decide⟩
  rintro ⟨x, c, hx, -⟩
  rw [hx] at hlen
  cases hlen

end QuicArt
