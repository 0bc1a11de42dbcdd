import QuicArt.ContentLength
import QuicArt.CrlfText

namespace QuicArt

def ascii (s : String) : List UInt8 := s.toList.map fun c => c.toNat.toUInt8

inductive PseudoHeader
  | method
  | scheme
  | authority
  | path
  | status
  deriving DecidableEq, Repr

def PseudoHeader.text : PseudoHeader → List UInt8
  | .method => ascii ":method"
  | .scheme => ascii ":scheme"
  | .authority => ascii ":authority"
  | .path => ascii ":path"
  | .status => ascii ":status"

/-- `behind` is the byte where the name would start if the name is empty. -/
structure H1hField where
  name : List UInt8
  value : List UInt8
  behind : UInt8 := 58
  deriving DecidableEq, Repr

/-- How a call ends that does not accept: it returns -1 or 1, or writes behind a buffer. -/
inductive HwcStop
  | nomem
  | bad
  | overrun
  deriving DecidableEq, Repr

/-- `struct http1x_ctor_ctx` and the kind of the header set. -/
structure H1hSetup where
  isServer : Bool
  isPushPromise : Bool
  maxHeadersSz : Nat
  malloc : Nat → Bool

/-- `struct header_writer_ctx`. The offset is the length of `text`, the cookies' size that of
`cookieVal`. -/
structure HeaderWriterCtx where
  expectColon : Bool := true
  seenHost : Bool := false
  text : List UInt8 := []
  headersSz : Nat := 0
  cookieVal : Option (List UInt8) := none
  cookieNalloc : Nat := 0
  psehBufs : PseudoHeader → Option (List UInt8) := fun _ => none

/-- The bytes of a buffer up to the first NUL, which is where `strlen` ends. -/
def cString (bs : List UInt8) : List UInt8 := bs.takeWhile (· != 0)

def httpReasonPhrases : List (Nat × String) := [
  (100, "Continue"),
  (101, "Switching Protocols"),
  (200, "OK"),
  (201, "Created"),
  (202, "Accepted"),
  (203, "Non-Authoritative Information"),
  (204, "No Content"),
  (205, "Reset Content"),
  (206, "Partial Content"),
  (300, "Multiple Choices"),
  (301, "Moved Permanently"),
  (302, "Found"),
  (303, "See Other"),
  (304, "Not Modified"),
  (305, "Use Proxy"),
  (307, "Temporary Redirect"),
  (400, "Bad Request"),
  (401, "Unauthorized"),
  (402, "Payment Required"),
  (403, "Forbidden"),
  (404, "Not Found"),
  (405, "Method Not Allowed"),
  (406, "Not Acceptable"),
  (407, "Proxy Authentication Required"),
  (408, "Request Timeout"),
  (409, "Conflict"),
  (410, "Gone"),
  (411, "Length Required"),
  (412, "Precondition Failed"),
  (413, "Payload Too Large"),
  (414, "URI Too Long"),
  (415, "Unsupported Media Type"),
  (416, "Range Not Satisfiable"),
  (417, "Expectation Failed"),
  (426, "Upgrade Required"),
  (500, "Internal Server Error"),
  (501, "Not Implemented"),
  (502, "Bad Gateway"),
  (503, "Service Unavailable"),
  (504, "Gateway Timeout"),
  (505, "HTTP Version Not Supported")]

/-- `strtol` in base 10 on a text that is in range. -/
def strtol (text : List UInt8) : Int :=
  let (negative, bs) := takeSign (text.dropWhile isSpace)
  let n : Int := digitsValue (bs.takeWhile isDigit)
  if negative then -n else n

/-- `code_str_to_reason`; the phrase of the first code is never used. -/
def codeStrToReason (code : List UInt8) : Option (List UInt8) :=
  let n := strtol (code.take 3)
  if 0 < n - 100 ∧ n - 100 < 406 then (httpReasonPhrases.lookup n.toNat).map ascii else none

def statusTail (code : List UInt8) : List (List UInt8) :=
  match if code.length = 3 then codeStrToReason code else none with
  | some reason => [ascii " ", reason, crlf]
  | none => [ascii " " ++ crlf]

namespace HeaderWriterCtx

/-- `hwc_uh_write`. The sizes are of 32 bits. -/
def uhWrite (c : H1hSetup) (h : HeaderWriterCtx) (bs : List UInt8) :
    Except HwcStop HeaderWriterCtx :=
  let sz := h.text.length + bs.length
  if h.headersSz < sz then
    let doubled := h.headersSz * 2 % 2 ^ 32
    let headersSz := if sz ≤ doubled then doubled else sz % 2 ^ 32
    if ¬ c.malloc headersSz then .error .nomem
    else if headersSz < sz then .error .overrun
    else .ok { h with text := h.text ++ bs, headersSz := headersSz }
  else .ok { h with text := h.text ++ bs }

def uhWrites (c : H1hSetup) (h : HeaderWriterCtx) (bss : List (List UInt8)) :
    Except HwcStop HeaderWriterCtx :=
  bss.foldlM (uhWrite c) h

def checkSize (c : H1hSetup) (h : HeaderWriterCtx) : Except HwcStop HeaderWriterCtx :=
  if c.maxHeadersSz ≠ 0 ∧ c.maxHeadersSz < h.text.length then .error .bad else .ok h

def savePseudoHeader (c : H1hSetup) (h : HeaderWriterCtx) (ph : PseudoHeader) (val : List UInt8) :
    Except HwcStop HeaderWriterCtx :=
  match h.psehBufs ph with
  | none =>
    if c.malloc (val.length + 1) then
      .ok { h with psehBufs := Function.update h.psehBufs ph (some val) }
    else .error .nomem
  | some _ => .error .bad

def pseudoHeaderOf (name : List UInt8) : Option PseudoHeader :=
  if name = PseudoHeader.path.text then some .path
  else if name = PseudoHeader.scheme.text then some .scheme
  else if name = PseudoHeader.method.text then some .method
  else if name = PseudoHeader.status.text then some .status
  else if name = PseudoHeader.authority.text then some .authority
  else none

def addPseudoHeader (c : H1hSetup) (h : HeaderWriterCtx) (x : H1hField) :
    Except HwcStop HeaderWriterCtx :=
  if ¬ h.expectColon then .error .bad
  else
    match pseudoHeaderOf x.name with
    | some ph => h.savePseudoHeader c ph x.value
    | none => .error .bad

def convertResponsePseudoHeaders (c : H1hSetup) (h : HeaderWriterCtx) :
    Except HwcStop HeaderWriterCtx :=
  match h.psehBufs .status with
  | none => .error .bad
  | some status =>
    if (h.psehBufs .method).isSome ∨ (h.psehBufs .scheme).isSome ∨ (h.psehBufs .authority).isSome
        ∨ (h.psehBufs .path).isSome then .error .bad
    else
      let code := cString status
      do
        let h ← h.uhWrites c ([ascii "HTTP/1.1 ", code] ++ statusTail code)
        h.checkSize c

def convertRequestPseudoHeaders (c : H1hSetup) (h : HeaderWriterCtx) :
    Except HwcStop HeaderWriterCtx :=
  match h.psehBufs .method, h.psehBufs .scheme, h.psehBufs .path with
  | some method, some _, some path =>
    if (h.psehBufs .status).isSome then .error .bad
    else do
      let h ← h.uhWrites c [cString method, ascii " ", cString path, ascii " HTTP/1.1" ++ crlf]
      h.checkSize c
  | _, _, _ => .error .bad

def convertPseudoHeaders (c : H1hSetup) (h : HeaderWriterCtx) : Except HwcStop HeaderWriterCtx :=
  if c.isServer || c.isPushPromise then h.convertRequestPseudoHeaders c
  else h.convertResponsePseudoHeaders c

/-- At the first field that is not a pseudo-header, or at the end. -/
def leavePseudoHeaders (c : H1hSetup) (h : HeaderWriterCtx) : Except HwcStop HeaderWriterCtx :=
  if h.expectColon then do
    let h ← h.convertPseudoHeaders c
    return { h with expectColon := false }
  else .ok h

/-- `save_cookie`. The sizes are of 32 bits. -/
def saveCookie (c : H1hSetup) (h : HeaderWriterCtx) (val : List UInt8) :
    Except HwcStop HeaderWriterCtx :=
  let old := h.cookieVal.getD []
  if old.length = 0 then
    if c.malloc val.length then
      .ok { h with cookieVal := some val, cookieNalloc := val.length }
    else .error .nomem
  else
    let sz := old.length + val.length + 2
    if h.cookieNalloc < sz % 2 ^ 32 then
      let nalloc := (h.cookieNalloc * 2 + val.length + 2) % 2 ^ 32
      if ¬ c.malloc nalloc then .error .nomem
      else if nalloc < sz then .error .overrun
      else .ok { h with cookieVal := some (old ++ ascii "; " ++ val), cookieNalloc := nalloc }
    else if h.cookieNalloc < sz then .error .overrun
    else .ok { h with cookieVal := some (old ++ ascii "; " ++ val) }

def isUpper (b : UInt8) : Bool := 65 ≤ b && b ≤ 90

def noteHost (h : HeaderWriterCtx) (name : List UInt8) : HeaderWriterCtx :=
  if name = ascii "host" then { h with seenHost := true } else h

def addRealHeader (c : H1hSetup) (h : HeaderWriterCtx) (x : H1hField) :
    Except HwcStop HeaderWriterCtx := do
  let h ← h.leavePseudoHeaders c
  let h := h.noteHost x.name
  if x.name.any isUpper then .error .bad
  else if x.name = ascii "cookie" then h.saveCookie c x.value
  else do
    let h ← h.uhWrites c [x.name, ascii ": ", x.value, crlf]
    h.checkSize c

def addHeaderToUh (c : H1hSetup) (h : HeaderWriterCtx) (x : H1hField) :
    Except HwcStop HeaderWriterCtx :=
  if x.name.headD x.behind = 58 then h.addPseudoHeader c x else h.addRealHeader c x

/-- The lines at the end of `h1h_finish_hset`. -/
def lastWrites (h : HeaderWriterCtx) : List (List UInt8) :=
  (match h.psehBufs .authority with
    | some authority => if h.seenHost then [] else [ascii "Host: ", cString authority, crlf]
    | none => [])
  ++ (match h.cookieVal with
    | some cookies => [ascii "Cookie: ", cookies, crlf]
    | none => [])

/-- `h1h_finish_hset`. The NUL behind the block is written and not counted. -/
def finishHset (c : H1hSetup) (h : HeaderWriterCtx) : Except HwcStop HeaderWriterCtx := do
  let h ← h.leavePseudoHeaders c
  let h ← h.uhWrites c h.lastWrites
  let h ← h.uhWrite c (crlf ++ [0])
  { h with text := h.text.dropLast }.checkSize c

end HeaderWriterCtx

/-- `h1h_process_header` for each field and for the end of the block. -/
def h1hProcessHeaders (c : H1hSetup) (fields : List H1hField) : Except HwcStop (List UInt8) := do
  let h ← fields.foldlM (HeaderWriterCtx.addHeaderToUh c) {}
  let h ← h.finishHset c
  return h.text

end QuicArt
