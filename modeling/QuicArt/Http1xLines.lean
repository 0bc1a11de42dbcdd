import Mathlib.Data.List.Forall2
import Mathlib.Data.List.TakeWhile
import QuicArt.Http1x

namespace QuicArt

namespace H1hField

def isPseudo (x : H1hField) : Bool := x.name.headD x.behind == 58

def isCookie (x : H1hField) : Bool := x.name == ascii "cookie"

def line (x : H1hField) : List UInt8 := x.name ++ ascii ": " ++ x.value

end H1hField

def realFields (fields : List H1hField) : List H1hField := fields.filter fun x => !x.isPseudo

def plainFields (fields : List H1hField) : List H1hField :=
  (realFields fields).filter fun x => !x.isCookie

def cookieValues (fields : List H1hField) : List (List UInt8) :=
  ((realFields fields).filter H1hField.isCookie).map H1hField.value

def hasHost (fields : List H1hField) : Bool :=
  (realFields fields).any fun x => x.name == ascii "host"

def pseudoHeader (fields : List H1hField) (ph : PseudoHeader) : Option (List UInt8) :=
  (fields.find? fun x => x.name == ph.text).map H1hField.value

def reasonOf (code : List UInt8) : List UInt8 :=
  if code.length = 3 then (codeStrToReason code).getD [] else []

def startLine (c : H1hSetup) (val : PseudoHeader → List UInt8) : List UInt8 :=
  if c.isServer || c.isPushPromise then
    val .method ++ ascii " " ++ val .path ++ ascii " HTTP/1.1"
  else ascii "HTTP/1.1 " ++ val .status ++ ascii " " ++ reasonOf (val .status)

def hostLine (fields : List H1hField) (val : PseudoHeader → List UInt8) : List (List UInt8) :=
  if (pseudoHeader fields .authority).isSome && !hasHost fields then
    [ascii "Host: " ++ val .authority]
  else []

def cookieLine (cookies : Option (List UInt8)) : List (List UInt8) :=
  (cookies.map (ascii "Cookie: " ++ ·)).toList

def blockLines (c : H1hSetup) (fields : List H1hField) (val : PseudoHeader → List UInt8)
    (cookies : Option (List UInt8)) : List (List UInt8) :=
  startLine c val :: (plainFields fields).map H1hField.line
    ++ hostLine fields val ++ cookieLine cookies

def pseudoValue (fields : List H1hField) (ph : PseudoHeader) : List UInt8 :=
  (pseudoHeader fields ph).getD []

def joinedCookies (fields : List H1hField) : Option (List UInt8) :=
  if cookieValues fields = [] then none
  else some ((ascii "; ").intercalate (cookieValues fields))

/-- The start line, a line for each field, and the lines for the host and the cookies, within the
limit. -/
def BlockRight (c : H1hSetup) (fields : List H1hField) (text : List UInt8) : Prop :=
  splitCrlf text = blockLines c fields (pseudoValue fields) (joinedCookies fields) ++ [[], []]
    ∧ (c.maxHeadersSz ≠ 0 → text.length ≤ c.maxHeadersSz)

instance : Decidable (BlockRight c fields text) := inferInstanceAs (Decidable (_ ∧ _))

def addCookie (old : Option (List UInt8)) (val : List UInt8) : Option (List UInt8) :=
  some (if (old.getD []).length = 0 then val else old.getD [] ++ ascii "; " ++ val)

def savedCookies (fields : List H1hField) : Option (List UInt8) :=
  (cookieValues fields).foldl addCookie none

def writtenValue (fields : List H1hField) (ph : PseudoHeader) : List UInt8 :=
  cString (pseudoValue fields ph)

namespace HeaderWriterCtx

theorem ite_error {p : Prop} [Decidable p] {x : Except HwcStop α}
    (h : (if p then .error e else x) = .ok a) : ¬ p ∧ x = .ok a := by
  by_cases hp : p
  · rw [if_pos hp] at h
    cases h
  · rw [if_neg hp] at h
    exact ⟨hp, h⟩

theorem uhWrite_ok (h : uhWrite c s bs = .ok s') :
    ∃ n, s' = { s with text := s.text ++ bs, headersSz := n } := by
  simp only [uhWrite] at h
  by_cases hg : s.headersSz < s.text.length + bs.length
  · rw [if_pos hg] at h
    obtain ⟨-, h⟩ := ite_error h
    obtain ⟨-, h⟩ := ite_error h
    cases h
    exact ⟨_, rfl⟩
  · rw [if_neg hg] at h
    cases h
    exact ⟨s.headersSz, rfl⟩

theorem uhWrites_ok (h : uhWrites c s bss = .ok s') :
    ∃ n, s' = { s with text := s.text ++ bss.flatten, headersSz := n } := by
  induction bss generalizing s with
  | nil =>
    cases h
    exact ⟨s'.headersSz, by simp⟩
  | cons bs bss ih =>
    rw [uhWrites, List.foldlM_cons] at h
    obtain ⟨s₁, h₁, h⟩ := Except.bind_eq_ok.mp h
    obtain ⟨n, rfl⟩ := uhWrite_ok h₁
    obtain ⟨m, rfl⟩ := ih h
    exact ⟨m, by simp⟩

theorem checkSize_ok (h : checkSize c s = .ok s') :
    s' = s ∧ (c.maxHeadersSz ≠ 0 → s.text.length ≤ c.maxHeadersSz) := by
  rw [checkSize] at h
  split at h
  · cases h
  · next hc =>
    cases h
    exact ⟨rfl, fun h0 => Nat.le_of_not_lt fun hl => hc ⟨h0, hl⟩⟩

theorem statusTail_flatten (code : List UInt8) :
    (statusTail code).flatten = ascii " " ++ reasonOf code ++ crlf := by
  rw [statusTail, reasonOf]
  by_cases h3 : code.length = 3
  · rw [if_pos h3, if_pos h3]
    cases codeStrToReason code <;> simp
  · rw [if_neg h3, if_neg h3]
    simp

theorem convertPseudoHeaders_ok (h : convertPseudoHeaders c s = .ok s') :
    ∃ n, s' = { s with
      text := s.text ++ (startLine c (fun ph => cString ((s.psehBufs ph).getD [])) ++ crlf)
      headersSz := n } := by
  rw [convertPseudoHeaders] at h
  split at h
  · next hc =>
    rw [convertRequestPseudoHeaders] at h
    split at h
    · next method scheme path hm _ hp =>
      obtain ⟨-, h⟩ := ite_error h
      obtain ⟨s₁, h₁, h⟩ := Except.bind_eq_ok.mp h
      obtain ⟨n, rfl⟩ := uhWrites_ok h₁
      obtain ⟨rfl, -⟩ := checkSize_ok h
      exact ⟨n, by simp [startLine, hc, hm, hp]⟩
    · cases h
  · next hc =>
    rw [convertResponsePseudoHeaders] at h
    split at h
    · cases h
    · next status hs =>
      obtain ⟨-, h⟩ := ite_error h
      obtain ⟨s₁, h₁, h⟩ := Except.bind_eq_ok.mp h
      obtain ⟨n, rfl⟩ := uhWrites_ok h₁
      obtain ⟨rfl, -⟩ := checkSize_ok h
      exact ⟨n, by simp [startLine, hc, hs, statusTail_flatten]⟩

theorem leavePseudoHeaders_ok (h : leavePseudoHeaders c s = .ok s') :
    ∃ n, s' = { s with
      expectColon := false
      text := if s.expectColon then
          s.text ++ (startLine c (fun ph => cString ((s.psehBufs ph).getD [])) ++ crlf)
        else s.text
      headersSz := n } := by
  rw [leavePseudoHeaders] at h
  split at h
  · next hc =>
    obtain ⟨s₁, h₁, h⟩ := Except.bind_eq_ok.mp h
    obtain ⟨n, rfl⟩ := convertPseudoHeaders_ok h₁
    cases h
    exact ⟨n, by simp [hc]⟩
  · next hc =>
    cases h
    have hf := Bool.eq_false_iff.mpr hc
    refine ⟨s.headersSz, ?_⟩
    rw [if_neg hc, ← hf]

theorem saveCookie_ok (h : saveCookie c s val = .ok s') :
    ∃ n, s' = { s with cookieVal := addCookie s.cookieVal val, cookieNalloc := n } := by
  rw [saveCookie] at h
  by_cases h0 : (s.cookieVal.getD []).length = 0
  · rw [if_pos h0] at h
    split at h
    · cases h
      exact ⟨val.length, by simp [addCookie, h0]⟩
    · cases h
  · have ha : addCookie s.cookieVal val = some (s.cookieVal.getD [] ++ ascii "; " ++ val) := by
      rw [addCookie, if_neg h0]
    rw [if_neg h0] at h
    dsimp only at h
    split at h
    · obtain ⟨-, h⟩ := ite_error h
      obtain ⟨-, h⟩ := ite_error h
      cases h
      exact ⟨_, by rw [ha]⟩
    · obtain ⟨-, h⟩ := ite_error h
      cases h
      exact ⟨_, by rw [ha]⟩

theorem noteHost_eq (s : HeaderWriterCtx) (name : List UInt8) :
    s.noteHost name = { s with seenHost := s.seenHost || name == ascii "host" } := by
  by_cases hn : name = ascii "host"
  · simp [noteHost, hn]
  · rw [noteHost, if_neg hn, beq_eq_false_iff_ne.mpr hn, Bool.or_false]

theorem PseudoHeader.text_head (ph : PseudoHeader) (b : UInt8) : ph.text.headD b = 58 := by
  cases ph <;> rfl

theorem pseudoHeaderOf_text (h : pseudoHeaderOf name = some ph) : name = ph.text := by
  simp only [pseudoHeaderOf] at h
  repeat' split at h
  all_goals
    cases h
    try assumption

theorem PseudoHeader.text_inj (h : PseudoHeader.text ph = PseudoHeader.text ph') : ph = ph' := by
  revert h
  cases ph <;> cases ph' <;> decide

theorem realFields_append (fields : List H1hField) (x : H1hField) :
    realFields (fields ++ [x]) = realFields fields ++ if x.isPseudo then [] else [x] := by
  cases hx : x.isPseudo <;> simp [realFields, hx]

theorem pseudoHeader_append (fields : List H1hField) (x : H1hField) (ph : PseudoHeader) :
    pseudoHeader (fields ++ [x]) ph
      = (pseudoHeader fields ph).or (if x.name = ph.text then some x.value else none) := by
  rw [pseudoHeader, pseudoHeader, List.find?_append]
  cases hf : fields.find? fun x => x.name == ph.text with
  | some y => simp
  | none => by_cases hx : x.name = ph.text <;> simp [hx]

structure Written (c : H1hSetup) (fields : List H1hField) (s : HeaderWriterCtx) : Prop where
  pseudo : s.psehBufs = pseudoHeader fields
  cookies : s.cookieVal = savedCookies fields
  host : s.seenHost = hasHost fields
  colon : s.expectColon = (realFields fields).isEmpty
  text : s.text = if s.expectColon then [] else
    (startLine c (writtenValue fields) :: (plainFields fields).map H1hField.line).flatMap
      (· ++ crlf)

theorem Written.init (c : H1hSetup) : Written c [] {} where
  pseudo := rfl
  cookies := rfl
  host := rfl
  colon := rfl
  text := rfl

section
variable (hw : Written c fields s)
include hw

theorem Written.addPseudo (hx : x.isPseudo = true)
    (h : addPseudoHeader c s x = .ok s') : Written c (fields ++ [x]) s' := by
  obtain ⟨hc, h⟩ := ite_error h
  cases hp : pseudoHeaderOf x.name with
  | none =>
    rw [hp] at h
    cases h
  | some ph =>
    rw [hp] at h
    have hn := pseudoHeaderOf_text hp
    have hr : realFields (fields ++ [x]) = realFields fields := by
      rw [realFields_append, if_pos hx, List.append_nil]
    simp only [savePseudoHeader] at h
    split at h
    · next h0 =>
      split at h
      · cases h
        have he : s.expectColon = true := by simpa using hc
        refine ⟨?_, ?_, ?_, ?_, ?_⟩
        · funext ph'
          rw [pseudoHeader_append, hn, ← hw.pseudo]
          by_cases hq : ph' = ph
          · subst hq
            simp [h0]
          · have ht : ph.text ≠ ph'.text := fun e => hq (PseudoHeader.text_inj e).symm
            simp [Function.update_of_ne hq, ht]
        · simpa only [savedCookies, cookieValues, hr] using hw.cookies
        · simpa only [hasHost, hr] using hw.host
        · simpa only [hr] using hw.colon
        · have ht := hw.text
          simp only [he, if_true] at ht ⊢
          exact ht
      · cases h
    · cases h

theorem Written.left :
    (if s.expectColon then
        s.text ++ (startLine c (fun ph => cString ((s.psehBufs ph).getD [])) ++ crlf)
      else s.text)
      = (startLine c (writtenValue fields) :: (plainFields fields).map H1hField.line).flatMap
        (· ++ crlf) := by
  have hv : (fun ph => cString ((s.psehBufs ph).getD [])) = writtenValue fields := by
    funext ph
    rw [hw.pseudo]
    rfl
  have ht := hw.text
  split
  · next hc =>
    have hr : realFields fields = [] := by
      have h := hw.colon
      rw [hc] at h
      exact List.isEmpty_iff.mp h.symm
    rw [if_pos hc] at ht
    simp [ht, hv, plainFields, hr]
  · next hc =>
    rw [if_neg hc] at ht
    exact ht

theorem Written.addReal (hx : x.isPseudo = false)
    (h : addRealHeader c s x = .ok s') : Written c (fields ++ [x]) s' := by
  have hr : realFields (fields ++ [x]) = realFields fields ++ [x] := by
    rw [realFields_append, hx]
    rfl
  have hp : pseudoHeader (fields ++ [x]) = pseudoHeader fields := by
    funext ph
    have hn : x.name ≠ ph.text := by
      intro hn
      rw [H1hField.isPseudo, hn, PseudoHeader.text_head] at hx
      cases hx
    rw [pseudoHeader_append, if_neg hn, Option.or_none]
  have hv : writtenValue (fields ++ [x]) = writtenValue fields := by
    funext ph
    rw [writtenValue, pseudoValue, hp]
    rfl
  obtain ⟨s₁, h₁, h⟩ := Except.bind_eq_ok.mp h
  obtain ⟨n, rfl⟩ := leavePseudoHeaders_ok h₁
  rw [hw.left] at h
  have hh : hasHost (fields ++ [x]) = (hasHost fields || x.name == ascii "host") := by
    simp [hasHost, hr]
  simp only [noteHost_eq, hw.host, ← hh] at h
  obtain ⟨-, h⟩ := ite_error h
  have hce : (realFields (fields ++ [x])).isEmpty = false := by simp [hr]
  split at h
  · next hk =>
    have hk' : x.isCookie = true := by simp [H1hField.isCookie, hk]
    have hpl : plainFields (fields ++ [x]) = plainFields fields := by simp [plainFields, hr, hk']
    have hcv : cookieValues (fields ++ [x]) = cookieValues fields ++ [x.value] := by
      simp [cookieValues, hr, hk']
    obtain ⟨m, rfl⟩ := saveCookie_ok h
    refine ⟨hp ▸ hw.pseudo, ?_, rfl, hce.symm, ?_⟩
    · simp only [savedCookies, hcv, List.foldl_append, List.foldl_cons, List.foldl_nil]
      rw [hw.cookies]
      rfl
    · rw [hpl, hv]
      rfl
  · next hk =>
    have hk' : x.isCookie = false := by simp [H1hField.isCookie, hk]
    have hpl : plainFields (fields ++ [x]) = plainFields fields ++ [x] := by
      simp [plainFields, hr, hk']
    have hcv : cookieValues (fields ++ [x]) = cookieValues fields := by
      simp [cookieValues, hr, hk']
    obtain ⟨s₂, h₂, h⟩ := Except.bind_eq_ok.mp h
    obtain ⟨m, rfl⟩ := uhWrites_ok h₂
    obtain ⟨rfl, -⟩ := checkSize_ok h
    refine ⟨hp ▸ hw.pseudo, ?_, rfl, hce.symm, ?_⟩
    · rw [savedCookies, hcv]
      exact hw.cookies
    · rw [hpl, hv]
      simp [H1hField.line]

theorem Written.addHeader (h : addHeaderToUh c s x = .ok s') : Written c (fields ++ [x]) s' := by
  rw [addHeaderToUh] at h
  split at h
  · next hx => exact hw.addPseudo (by simpa [H1hField.isPseudo] using hx) h
  · next hx => exact hw.addReal (by simpa [H1hField.isPseudo] using hx) h

theorem Written.addHeaders
    (h : List.foldlM (addHeaderToUh c) s more = .ok s') : Written c (fields ++ more) s' := by
  induction more generalizing fields s with
  | nil =>
    cases h
    rwa [List.append_nil]
  | cons x more ih =>
    rw [List.foldlM_cons] at h
    obtain ⟨s₁, h₁, h⟩ := Except.bind_eq_ok.mp h
    rw [List.append_cons]
    exact ih (hw.addHeader h₁) h

theorem Written.last_writes :
    s.lastWrites.flatten
      = (hostLine fields (writtenValue fields)).flatMap (· ++ crlf)
        ++ (cookieLine (savedCookies fields)).flatMap (· ++ crlf) := by
  have hv : writtenValue fields .authority = cString ((pseudoHeader fields .authority).getD []) :=
    rfl
  rw [HeaderWriterCtx.lastWrites, hw.pseudo, hw.host, hw.cookies, hostLine, cookieLine, hv]
  cases pseudoHeader fields .authority <;> cases savedCookies fields <;>
    cases hasHost fields <;> simp

theorem Written.finish (h : finishHset c s = .ok s') :
    s'.text = textOf (blockLines c fields (writtenValue fields) (savedCookies fields))
      ∧ (c.maxHeadersSz ≠ 0 → s'.text.length ≤ c.maxHeadersSz) := by
  obtain ⟨s₁, h₁, h⟩ := Except.bind_eq_ok.mp h
  obtain ⟨n, rfl⟩ := leavePseudoHeaders_ok h₁
  obtain ⟨s₂, h₂, h⟩ := Except.bind_eq_ok.mp h
  obtain ⟨m, rfl⟩ := uhWrites_ok h₂
  obtain ⟨s₃, h₃, h⟩ := Except.bind_eq_ok.mp h
  obtain ⟨k, rfl⟩ := uhWrite_ok h₃
  obtain ⟨rfl, hsz⟩ := checkSize_ok h
  refine ⟨?_, hsz⟩
  have hl : (startLine c (writtenValue fields) :: (plainFields fields).map H1hField.line).flatMap
      (· ++ crlf) ++ s.lastWrites.flatten
      = (blockLines c fields (writtenValue fields) (savedCookies fields)).flatMap (· ++ crlf) := by
    rw [blockLines, List.flatMap_append, List.flatMap_append, List.append_assoc, hw.last_writes]
  rw [textOf_eq, ← hl, ← hw.left]
  dsimp only
  rw [← List.append_assoc, List.dropLast_concat]
  rfl

end

end HeaderWriterCtx

theorem h1hProcessHeaders_ok (h : h1hProcessHeaders c fields = .ok text) :
    text = textOf (blockLines c fields (writtenValue fields) (savedCookies fields))
      ∧ (c.maxHeadersSz ≠ 0 → text.length ≤ c.maxHeadersSz) := by
  obtain ⟨s₁, h₁, h⟩ := Except.bind_eq_ok.mp h
  obtain ⟨s₂, h₂, h⟩ := Except.bind_eq_ok.mp h
  cases h
  exact ((HeaderWriterCtx.Written.init c).addHeaders h₁).finish h₂

theorem hasCrlf_prepend (h0 : sep ≠ []) (h : ∀ c ∈ sep, c ≠ 13 ∧ c ≠ 10) :
    HasCrlf (sep ++ b) ↔ HasCrlf b := by
  simpa [not_hasCrlf_nil] using @hasCrlf_append_sep sep [] b h0 h

theorem hasCrlf_line (x : H1hField) : HasCrlf x.line ↔ HasCrlf x.name ∨ HasCrlf x.value := by
  rw [H1hField.line, List.append_assoc]
  exact hasCrlf_append_sep (by decide) (noBreak_of_all (by decide))

theorem hasCrlf_intercalate (vs : List (List UInt8)) :
    HasCrlf ((ascii "; ").intercalate vs) ↔ ∃ v ∈ vs, HasCrlf v := by
  induction vs with
  | nil => simp [not_hasCrlf_nil]
  | cons v vs ih =>
    cases vs with
    | nil => simp
    | cons w vs =>
      rw [List.intercalate_cons_cons, List.append_assoc,
        hasCrlf_append_sep (by decide) (noBreak_of_all (by decide)), ih]
      simp

theorem reasonOf_plain : ∀ b ∈ reasonOf code, b ≠ 13 ∧ b ≠ 10 ∧ b ≠ 0 := by
  have hall : httpReasonPhrases.all (fun p => (ascii p.2).all fun b => b !=
      13 && (b != 10 && b != 0))
      = true := by
    decide +kernel
  have hp : ∀ p ∈ httpReasonPhrases, ∀ b ∈ ascii p.2, b ≠ 13 ∧ b ≠ 10 ∧ b ≠ 0 := by
    intro p hp b hb
    simpa using List.all_eq_true.mp (List.all_eq_true.mp hall p hp) b hb
  rw [reasonOf]
  split
  · rw [codeStrToReason]
    split
    · cases hl : httpReasonPhrases.lookup (strtol (code.take 3)).toNat with
      | none => simp
      | some r =>
        obtain ⟨l₁, l₂, he, -⟩ := List.lookup_eq_some_iff.mp hl
        have hm : ((strtol (code.take 3)).toNat, r) ∈ httpReasonPhrases := by simp [he]
        exact hp _ hm
    · simp
  · simp

def startPseudos (c : H1hSetup) : List PseudoHeader :=
  if c.isServer || c.isPushPromise then [.method, .path] else [.status]

theorem hasCrlf_startLine (c : H1hSetup) (val : PseudoHeader → List UInt8) :
    HasCrlf (startLine c val) ↔ ∃ ph ∈ startPseudos c, HasCrlf (val ph) := by
  rw [startLine, startPseudos]
  split
  · have he : val .method ++ ascii " " ++ val .path ++ ascii " HTTP/1.1"
        = val .method ++ (ascii " " ++ (val .path ++ (ascii " HTTP/1.1" ++ []))) := by simp
    rw [he, hasCrlf_append_sep (by decide) (noBreak_of_all (by decide)),
      hasCrlf_append_sep (by decide) (noBreak_of_all (by decide))]
    simp [not_hasCrlf_nil]
  · have hsp : ∀ b ∈ ascii " ", b ≠ 13 ∧ b ≠ 10 := noBreak_of_all (by decide)
    have hr : ∀ b ∈ ascii " " ++ reasonOf (val .status), b ≠ 13 ∧ b ≠ 10 := by
      intro b hb
      rcases List.mem_append.mp hb with hb | hb
      · exact hsp b hb
      · exact ⟨(reasonOf_plain b hb).1, (reasonOf_plain b hb).2.1⟩
    have he : ascii "HTTP/1.1 " ++ val .status ++ ascii " " ++ reasonOf (val .status)
        = ascii "HTTP/1.1 " ++ (val .status ++ ((ascii " " ++ reasonOf (val .status)) ++ [])) := by
      simp
    rw [he, hasCrlf_prepend (by decide) (noBreak_of_all (by decide)),
      hasCrlf_append_sep (by simp [ascii]) hr]
    simp [not_hasCrlf_nil]

theorem forall_blockLines {p : List UInt8 → Prop} :
    (∀ l ∈ blockLines c fields val cookies, p l) ↔
      p (startLine c val) ∧ (∀ x ∈ plainFields fields, p x.line)
        ∧ (∀ l ∈ hostLine fields val, p l) ∧ ∀ l ∈ cookieLine cookies, p l := by
  simp only [blockLines, List.forall_mem_append, List.forall_mem_cons, List.forall_mem_map,
    and_assoc]

theorem cString_eq : cString bs = bs ↔ 0 ∉ bs := by
  rw [cString, List.takeWhile_eq_self_iff]
  constructor
  · intro h h0
    cases h 0 h0
  · intro h b hb
    simp only [bne_iff_ne]
    exact fun he => h (he ▸ hb)

theorem nul_not_mem_cString (bs : List UInt8) : 0 ∉ cString bs := by
  intro h
  cases List.mem_takeWhile_imp h

theorem nul_mem_startLine (c : H1hSetup) (val : PseudoHeader → List UInt8) :
    0 ∈ startLine c val ↔ ∃ ph ∈ startPseudos c, 0 ∈ val ph := by
  have h₁ : 0 ∉ ascii " " := by decide
  have h₂ : 0 ∉ ascii " HTTP/1.1" := by decide
  have h₃ : 0 ∉ ascii "HTTP/1.1 " := by decide
  have h₄ : 0 ∉ reasonOf (val .status) := fun h => (reasonOf_plain 0 h).2.2 rfl
  rw [startLine, startPseudos]
  split <;> simp [h₁, h₂, h₃, h₄]

theorem startLine_eq (h : ∀ ph ∈ startPseudos c, 0 ∉ val ph) :
    startLine c (fun ph => cString (val ph)) = startLine c val := by
  simp only [startPseudos] at h
  simp only [startLine]
  split
  · next hc =>
    simp only [hc, if_true, List.forall_mem_cons] at h
    rw [cString_eq.mpr h.1, cString_eq.mpr h.2.1]
  · next hc =>
    simp only [hc, Bool.false_eq_true, if_false, List.forall_mem_cons] at h
    rw [cString_eq.mpr h.1]

theorem foldl_addCookie (a : List UInt8) (vs : List (List UInt8)) :
    ∃ r, vs.foldl addCookie (some a) = some r
      ∧ r.length ≤ ((ascii "; ").intercalate (a :: vs)).length
      ∧ (r = (ascii "; ").intercalate (a :: vs) ↔ a ≠ [] ∨ vs = []) := by
  induction vs generalizing a with
  | nil => exact ⟨a, rfl, by simp, by simp⟩
  | cons v vs ih =>
    rw [List.foldl_cons]
    by_cases ha : a = []
    · subst ha
      obtain ⟨r, hr, hl, -⟩ := ih v
      have hlt : r.length < ((ascii "; ").intercalate ([] :: v :: vs)).length := by
        rw [List.intercalate_cons_cons, List.length_append, List.length_append]
        have : (ascii "; ").length = 2 := rfl
        omega
      refine ⟨r, hr, hlt.le, ?_⟩
      simp only [ne_eq, not_true_eq_false, reduceCtorEq, or_self, iff_false]
      intro he
      exact absurd (he ▸ hlt) (lt_irrefl _)
    · have he : (ascii "; ").intercalate (a :: v :: vs)
          = (ascii "; ").intercalate ((a ++ ascii "; " ++ v) :: vs) := by
        cases vs with
        | nil => simp [List.intercalate_cons_cons]
        | cons w vs => simp [List.intercalate_cons_cons]
      obtain ⟨r, hr, hl, hiff⟩ := ih (a ++ ascii "; " ++ v)
      have hadd : addCookie (some a) v = some (a ++ ascii "; " ++ v) := by
        simp [addCookie, ha]
      refine ⟨r, hadd ▸ hr, he ▸ hl, ?_⟩
      rw [he, hiff]
      simp [ha]

/-- The block does not lose a cookie value at its front. -/
def KeepsCookies (fields : List H1hField) : Prop :=
  (cookieValues fields).length ≤ 1 ∨ (cookieValues fields).head? ≠ some []

theorem savedCookies_eq (fields : List H1hField) :
    (savedCookies fields = joinedCookies fields ↔ KeepsCookies fields)
      ∧ List.Forall₂ (fun a b => a.length ≤ b.length) (cookieLine (savedCookies fields))
        (cookieLine (joinedCookies fields)) := by
  rw [savedCookies, joinedCookies, KeepsCookies]
  cases cookieValues fields with
  | nil => simp [cookieLine]
  | cons a vs =>
    obtain ⟨r, hr, hl, hiff⟩ := foldl_addCookie a vs
    have hf : (a :: vs).foldl addCookie none = some r := hr
    rw [hf, if_neg (by simp)]
    constructor
    · rw [Option.some_inj, hiff]
      cases vs <;> simp
    · simpa [cookieLine] using hl

def takenPseudos (c : H1hSetup) (fields : List H1hField) : List PseudoHeader :=
  startPseudos c ++ if hasHost fields then [] else [.authority]

/-- No CR LF in what the block takes, no NUL in its pseudo-headers, no empty cookie before others.
-/
structure CleanFields (c : H1hSetup) (fields : List H1hField) : Prop where
  plain : ∀ x ∈ plainFields fields, ¬ HasCrlf x.name ∧ ¬ HasCrlf x.value
  pseudos : ∀ ph ∈ takenPseudos c fields,
    ¬ HasCrlf (pseudoValue fields ph) ∧ 0 ∉ pseudoValue fields ph
  cookies : ∀ v ∈ cookieValues fields, ¬ HasCrlf v
  first : KeepsCookies fields

theorem hostLine_cases (fields : List H1hField) :
    (∀ val, hostLine fields val = []) ∧ (hasHost fields = true ∨ pseudoValue fields .authority = [])
      ∨ (∀ val, hostLine fields val = [ascii "Host: " ++ val .authority])
        ∧ hasHost fields = false := by
  simp only [hostLine, pseudoValue]
  cases pseudoHeader fields .authority <;> cases hasHost fields <;> simp

theorem blockLines_plain (c : H1hSetup) (fields : List H1hField) :
    (∀ l ∈ blockLines c fields (pseudoValue fields) (joinedCookies fields), ¬ HasCrlf l) ↔
      (∀ x ∈ plainFields fields, ¬ HasCrlf x.name ∧ ¬ HasCrlf x.value)
        ∧ (∀ ph ∈ takenPseudos c fields, ¬ HasCrlf (pseudoValue fields ph))
        ∧ ∀ v ∈ cookieValues fields, ¬ HasCrlf v := by
  have hc : (∀ l ∈ cookieLine (joinedCookies fields), ¬ HasCrlf l) ↔
      ∀ v ∈ cookieValues fields, ¬ HasCrlf v := by
    rw [joinedCookies]
    split
    · next h0 => simp [cookieLine, h0]
    · simp [cookieLine, hasCrlf_prepend (by decide : ascii "Cookie: " ≠ [])
        (noBreak_of_all (by decide)), hasCrlf_intercalate]
  have hh : (∀ l ∈ hostLine fields (pseudoValue fields), ¬ HasCrlf l) ↔
      (hasHost fields = true ∨ ¬ HasCrlf (pseudoValue fields .authority)) := by
    rcases hostLine_cases fields with ⟨h, h'⟩ | ⟨h, h'⟩
    · rcases h' with h' | h'
      · simp [h, h']
      · simp [h, h', not_hasCrlf_nil]
    · simp [h, h', hasCrlf_prepend (by decide : ascii "Host: " ≠ [])
        (noBreak_of_all (by decide))]
  rw [forall_blockLines, hc, hh, hasCrlf_startLine]
  simp only [hasCrlf_line, takenPseudos, List.forall_mem_append, not_or, not_exists, not_and]
  cases hasHost fields <;> simp <;> tauto

section Block

variable (c : H1hSetup) (fields : List H1hField)

def rightLines : List (List UInt8) :=
  blockLines c fields (pseudoValue fields) (joinedCookies fields)

def writtenLines : List (List UInt8) :=
  blockLines c fields (writtenValue fields) (savedCookies fields)

theorem startPseudos_of_split
    (h : splitCrlf (textOf (writtenLines c fields)) = rightLines c fields ++ [[], []]) :
    ∀ ph ∈ startPseudos c, 0 ∉ pseudoValue fields ph := by
  intro ph hph h0
  have hin : 0 ∈ startLine c (pseudoValue fields) := (nul_mem_startLine c _).mpr ⟨ph, hph, h0⟩
  have hpre := splitCrlf_first (startLine c (writtenValue fields)) _ h
  obtain ⟨ph', -, h0'⟩ := (nul_mem_startLine c _).mp (hpre.subset hin)
  exact nul_not_mem_cString _ h0'

theorem writtenLines_le (h : ∀ ph ∈ startPseudos c, 0 ∉ pseudoValue fields ph) :
    List.Forall₂ (fun a b => a.length ≤ b.length) (writtenLines c fields)
      (rightLines c fields) := by
  have hs : startLine c (writtenValue fields) = startLine c (pseudoValue fields) := startLine_eq h
  have hh : List.Forall₂ (fun a b : List UInt8 => a.length ≤ b.length)
      (hostLine fields (writtenValue fields)) (hostLine fields (pseudoValue fields)) := by
    rcases hostLine_cases fields with ⟨h, -⟩ | ⟨h, -⟩
    · simp [h]
    · rw [h, h]
      have hle := (List.takeWhile_prefix (· != 0) (l := pseudoValue fields .authority)).length_le
      simpa [writtenValue, cString] using hle
  apply List.rel_append _ (savedCookies_eq fields).2
  apply List.rel_append _ hh
  apply List.Forall₂.cons (hs ▸ le_rfl)
  exact List.forall₂_refl _

theorem writtenLines_eq_iff (h : ∀ ph ∈ startPseudos c, 0 ∉ pseudoValue fields ph) :
    writtenLines c fields = rightLines c fields ↔
      (hasHost fields = true ∨ 0 ∉ pseudoValue fields .authority) ∧ KeepsCookies fields := by
  have hs : startLine c (writtenValue fields) = startLine c (pseudoValue fields) := startLine_eq h
  have hc : cookieLine (savedCookies fields) = cookieLine (joinedCookies fields) ↔
      KeepsCookies fields := by
    rw [← (savedCookies_eq fields).1, cookieLine, cookieLine]
    cases savedCookies fields <;> cases joinedCookies fields <;> simp
  have hh : hostLine fields (writtenValue fields) = hostLine fields (pseudoValue fields) ↔
      (hasHost fields = true ∨ 0 ∉ pseudoValue fields .authority) := by
    rcases hostLine_cases fields with ⟨h, h' | h'⟩ | ⟨h, h'⟩
    · simp [h, h']
    · simp [h, h']
    · simp [h, h', writtenValue, cString_eq]
  have hlen : (hostLine fields (writtenValue fields)).length
      = (hostLine fields (pseudoValue fields)).length := by
    rcases hostLine_cases fields with ⟨h, -⟩ | ⟨h, -⟩ <;> simp [h]
  rw [writtenLines, rightLines, blockLines, blockLines, hs, List.append_assoc, List.append_assoc,
    List.append_right_inj, ← hh, ← hc]
  constructor
  · intro he
    exact List.append_inj he hlen
  · rintro ⟨he, he'⟩
    rw [he, he']

end Block

/-- The text reads back as the fields it was made of exactly when these are clean. -/
theorem blockRight_iff (h : h1hProcessHeaders c fields = .ok text) :
    BlockRight c fields text ↔ CleanFields c fields := by
  obtain ⟨ht, hsz⟩ := h1hProcessHeaders_ok h
  have htaken : (∀ ph ∈ takenPseudos c fields, 0 ∉ pseudoValue fields ph) ↔
      (∀ ph ∈ startPseudos c, 0 ∉ pseudoValue fields ph)
        ∧ (hasHost fields = true ∨ 0 ∉ pseudoValue fields .authority) := by
    rw [takenPseudos, List.forall_mem_append]
    cases hasHost fields <;> simp
  constructor
  · rintro ⟨hr, -⟩
    rw [ht] at hr
    have hstart := startPseudos_of_split c fields hr
    obtain ⟨hno, he⟩ := splitCrlf_eq_iff.mp hr
    have heq := textOf_inj (writtenLines_le c fields hstart) he
    obtain ⟨hauth, hkeep⟩ := (writtenLines_eq_iff c fields hstart).mp heq
    obtain ⟨hplain, hps, hck⟩ := (blockLines_plain c fields).mp hno
    have hnul := htaken.mpr ⟨hstart, hauth⟩
    exact ⟨hplain, fun ph hph => ⟨hps ph hph, hnul ph hph⟩, hck, hkeep⟩
  · rintro ⟨hplain, hps, hck, hkeep⟩
    obtain ⟨hstart, hauth⟩ := htaken.mp fun ph hph => (hps ph hph).2
    have heq := (writtenLines_eq_iff c fields hstart).mpr ⟨hauth, hkeep⟩
    have hno := (blockLines_plain c fields).mpr ⟨hplain, fun ph hph => (hps ph hph).1, hck⟩
    refine ⟨splitCrlf_eq_iff.mpr ⟨hno, ?_⟩, hsz⟩
    rw [ht]
    exact congrArg textOf heq

def plainServer : H1hSetup where
  isServer := true
  isPushPromise := false
  maxHeadersSz := 0
  malloc _ := true

def requestFields (more : List H1hField) : List H1hField :=
  [⟨ascii ":method", ascii "GET", 58⟩, ⟨ascii ":scheme", ascii "https", 58⟩,
    ⟨ascii ":path", ascii "/", 58⟩] ++ more

def cookieRequest : List H1hField :=
  requestFields [⟨ascii "a", ascii "b", 58⟩, ⟨ascii "cookie", ascii "c=1", 58⟩,
    ⟨ascii "cookie", ascii "d=2", 58⟩]

def cookieBlock : List UInt8 :=
  textOf [ascii "GET / HTTP/1.1", ascii "a: b", ascii "Cookie: c=1; d=2"]

theorem blockRight_iff_cookies :
    h1hProcessHeaders plainServer cookieRequest = .ok cookieBlock
      ∧ CleanFields plainServer cookieRequest := by
  have h : h1hProcessHeaders plainServer cookieRequest = .ok cookieBlock := by rfl
  exact ⟨h, (blockRight_iff h).mp (by decide +kernel)⟩

def smuggledRequest : List H1hField :=
  requestFields [⟨ascii "a", ascii "b" ++ crlf ++ ascii "x-admin: yes", 58⟩]

def smuggledBlock : List UInt8 :=
  textOf [ascii "GET / HTTP/1.1", ascii "a: b", ascii "x-admin: yes"]

/-- The one field becomes two lines of the block. -/
theorem smuggled_line :
    h1hProcessHeaders plainServer smuggledRequest = .ok smuggledBlock
      ∧ ¬ BlockRight plainServer smuggledRequest smuggledBlock := by
  constructor
  · rfl
  · decide +kernel

end QuicArt
