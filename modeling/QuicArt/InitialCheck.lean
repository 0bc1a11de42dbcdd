import QuicArt.HeaderParse

namespace QuicArt

/-- `vint_read` between the offset `p` and the end. -/
def vintReadAt (mem : List UInt8) (p : Nat) : TpRead (Nat × Nat) :=
  varintRead (mem.drop p) (mem.length - p)

/-- The label `read_token`: an Initial packet from the token on. -/
def readToken (mem : List UInt8) (p : Nat) : TpRead Unit := do
  let token ← vintReadAt mem p
  let p := p + token.2 + token.1
  if mem.length ≤ p then .error .invalid
  else do
    let payload ← vintReadAt mem p
    if mem.length < p + payload.2 + payload.1 then .error .invalid
    else if mem.length < p + payload.2 + 4 then .error .invalid
    else .ok ()

def checkQ046 (mem : List UInt8) (first : UInt8) : TpRead Unit := do
  let lens ← byteAt mem 5
  let dcil := nybbleLen (lens.toNat >>> 4)
  let scil := nybbleLen (lens.toNat &&& 0xF)
  if !(dcil == 8 && scil == 0) then .error .invalid
  else if mem.length < 6 + dcil + scil + (first.toNat &&& 3) then .error .invalid
  else .ok ()

def checkQ050 (mem : List UInt8) : TpRead Unit := do
  let dcil ← byteAt mem 5
  if dcil.toNat ≠ 8 then .error .invalid
  else if mem.length ≤ 6 + dcil.toNat + 1 then .error .invalid
  else do
    let scil ← byteAt mem (6 + dcil.toNat)
    if scil.toNat ≠ 0 then .error .invalid else readToken mem (7 + dcil.toNat)

def checkIetf (mem : List UInt8) : TpRead Unit := do
  let dcil ← byteAt mem 5
  if dcil.toNat < minInitialDcidLen ∨ maxCidLen < dcil.toNat then .error .invalid
  else if mem.length ≤ 6 + dcil.toNat then .error .invalid
  else do
    let scil ← byteAt mem (6 + dcil.toNat)
    if mem.length < 7 + dcil.toNat + scil.toNat ∨ maxCidLen < scil.toNat then .error .invalid
    else readToken mem (7 + dcil.toNat + scil.toNat)

def checkTag (mem : List UInt8) (first : UInt8) (tag : List UInt8) : TpRead Unit :=
  if tag = [0, 0, 0, 0] then .error .invalid
  else if tag = [81, 48, 52, 54] then checkQ046 mem first
  else if tag = [81, 48, 53, 48] then checkQ050 mem
  else checkIetf mem

/-- `lsquic_is_valid_ietf_v1_or_Q046plus_hs_packet`: the tag, or a failure where it returns 0. -/
def isValidHsPacket (mem : List UInt8) : TpRead (ByteArr 4) :=
  if mem.length < 6 then .error .invalid
  else do
    let first ← byteAt mem 0
    if bits2ht (first.toNat >>> 4 &&& 3) ≠ .initial then .error .invalid
    else do
      let tag ← bytesAt mem 1 4
      checkTag mem first tag.1
      .ok tag

/-- `lsquic_ietf_v1_parse_packet_in_long_begin`: the type, the token, and the sizes. -/
structure LongIn where
  headerType : HeaderType
  token : Nat := 0
  tokenSize : Nat := 0
  headerSz : Nat
  dataSz : Nat
  deriving DecidableEq, Repr

/-- `pi_token` is an unsigned char, the sizes are unsigned shorts. -/
def longIn (type : HeaderType) (token tokenSize header size : Nat) : LongIn :=
  ⟨type, token % 2 ^ 8, tokenSize % 2 ^ 16, header % 2 ^ 16, dataSize size⟩

/-- The part of Initial, Handshake and 0-RTT packets from the payload length on. -/
def payloadReads (mem : List UInt8) (type : HeaderType) (token tokenSize p : Nat) :
    TpRead LongIn :=
  if mem.length ≤ p then .error .invalid
  else do
    let payload ← vintReadAt mem p
    if mem.length < p + payload.2 + payload.1 then .error .invalid
    else if mem.length < p + payload.2 + 4 then .error .invalid
    else .ok (longIn type token tokenSize (p + payload.2) (p + payload.2 + payload.1))

/-- The part of Initial packets from the token length on. -/
def initialReads (isServer : Bool) (mem : List UInt8) (p : Nat) : TpRead LongIn := do
  let token ← vintReadAt mem p
  if token.1 ≠ 0 ∧ isServer = false then .error .invalid
  else if token.1 = 0 then payloadReads mem .initial 0 0 (p + token.2)
  else if 2 ^ 16 ≤ token.1 then .error .invalid
  else if mem.length < p + token.2 + token.1 then .error .invalid
  else payloadReads mem .initial (p + token.2) token.1 (p + token.2 + token.1)

def typeReads (isServer : Bool) (mem : List UInt8) (type : HeaderType) (dcil p : Nat) :
    TpRead LongIn :=
  match type with
  | .initial =>
    if isServer = true ∧ dcil < minInitialDcidLen then .error .invalid
    else initialReads isServer mem p
  | .handshake | .zeroRtt => payloadReads mem type 0 0 p
  | .retry =>
    if mem.length ≤ p then .error .invalid
    else if mem.length < p + 1 + 16 then .error .invalid
    else .ok (longIn .retry p (mem.length - p - 16) mem.length mem.length)
  | _ =>
    if mem.length ≤ p ∨ (mem.length - p) % 4 ≠ 0 then .error .invalid
    else .ok (longIn type 0 0 mem.length mem.length)

def longBeginReads (isServer : Bool) (mem : List UInt8) : TpRead LongIn :=
  if mem.length < 6 then .error .invalid
  else do
    let first ← byteAt mem 0
    let tag ← bytesAt mem 1 4
    let type := if tag.1 = [0, 0, 0, 0] then .verneg else bits2ht (first.toNat >>> 4 &&& 3)
    let dcil ← byteAt mem 5
    if mem.length ≤ 6 + dcil.toNat ∨ maxCidLen < dcil.toNat then .error .invalid
    else do
      let _ ← bytesAt mem 6 dcil.toNat
      let scil ← byteAt mem (6 + dcil.toNat)
      if mem.length < 7 + dcil.toNat + scil.toNat ∨ maxCidLen < scil.toNat then .error .invalid
      else typeReads isServer mem type dcil.toNat (7 + dcil.toNat + scil.toNat)

section
variable {α : Type} {mem : List UInt8} {isServer : Bool} {type : HeaderType} {r : LongIn}
  {p dcil token tokenSize : Nat}

theorem guard_ok {c : Prop} [Decidable c] {x : TpRead α} {a : α} :
    (if c then .error .invalid else x) = .ok a ↔ ¬ c ∧ x = .ok a := by
  split
  next h => simp [h]
  next h => simp [h]

theorem Safe.vintReadAt : Safe (vintReadAt mem p) := Safe.varintRead (by rw [List.length_drop])

theorem Safe.readToken : Safe (readToken mem p) :=
  Safe.vintReadAt.bind fun _ _ => Safe.guard fun _ =>
    Safe.vintReadAt.bind fun _ _ => Safe.guard fun _ =>
      Safe.guard fun _ => .ok ()

theorem Safe.checkQ046 (h : 6 ≤ mem.length) (first : UInt8) : Safe (checkQ046 mem first) :=
  (Safe.byteAt (by omega)).bind fun _ _ => Safe.guard fun _ =>
    Safe.guard fun _ => .ok ()

theorem Safe.checkQ050 (h : 6 ≤ mem.length) : Safe (checkQ050 mem) := by
  refine (Safe.byteAt (by omega)).bind fun dcil _ => Safe.guard fun _ =>
    Safe.guard fun hle => (Safe.byteAt (by omega)).bind fun scil _ => ?_
  exact Safe.guard fun _ => .readToken

theorem Safe.checkIetf (h : 6 ≤ mem.length) : Safe (checkIetf mem) := by
  refine (Safe.byteAt (by omega)).bind fun dcil _ => Safe.guard fun _ =>
    Safe.guard fun hle => (Safe.byteAt (by omega)).bind fun scil _ => ?_
  exact Safe.guard fun _ => .readToken

theorem Safe.isValidHsPacket (mem : List UInt8) : Safe (isValidHsPacket mem) := by
  refine Safe.guard fun h => (Safe.byteAt (by omega)).bind fun first _ => ?_
  refine Safe.guard fun _ => (Safe.bytesAt (by omega)).bind fun tag _ => ?_
  refine Safe.bind ?_ fun _ _ => .ok tag
  have h : 6 ≤ mem.length := by omega
  exact Safe.guard fun _ => Safe.ite (fun _ => .checkQ046 h first) fun _ =>
    Safe.ite (fun _ => .checkQ050 h) fun _ => .checkIetf h

theorem Safe.payloadReads : Safe (payloadReads mem type token tokenSize p) :=
  Safe.guard fun _ => Safe.vintReadAt.bind fun _ _ =>
    Safe.guard fun _ => Safe.guard fun _ => .ok _

theorem Safe.initialReads : Safe (initialReads isServer mem p) :=
  Safe.vintReadAt.bind fun _ _ => Safe.guard fun _ =>
    Safe.ite (fun _ => .payloadReads) fun _ => Safe.guard fun _ =>
      Safe.guard fun _ => .payloadReads

theorem Safe.typeReads : Safe (typeReads isServer mem type dcil p) := by
  cases type with
  | initial => exact Safe.guard fun _ => .initialReads
  | handshake => exact .payloadReads
  | zeroRtt => exact .payloadReads
  | retry => exact Safe.guard fun _ => Safe.guard fun _ => .ok _
  | _ => exact Safe.guard fun _ => .ok _

theorem Safe.longBeginReads (isServer : Bool) (mem : List UInt8) :
    Safe (longBeginReads isServer mem) := by
  refine Safe.guard fun h => (Safe.byteAt (by omega)).bind fun first _ => ?_
  refine (Safe.bytesAt (by omega)).bind fun tag _ => (Safe.byteAt (by omega)).bind fun dcil _ => ?_
  refine Safe.guard fun hd => (Safe.bytesAt (by omega)).bind fun _ _ => ?_
  refine (Safe.byteAt (by omega)).bind fun scil _ => ?_
  exact Safe.guard fun _ => .typeReads

/-- A payload length that fits, with four bytes after it. -/
structure PayloadAt (mem : List UInt8) (p : Nat) (payload : Nat × Nat) : Prop where
  room : p < mem.length
  read : vintReadAt mem p = .ok payload
  fits : p + payload.2 + payload.1 ≤ mem.length
  four : p + payload.2 + 4 ≤ mem.length

theorem payloadReads_ok : payloadReads mem type token tokenSize p = .ok r ↔
    ∃ payload, PayloadAt mem p payload ∧
      r = longIn type token tokenSize (p + payload.2) (p + payload.2 + payload.1) := by
  simp only [payloadReads, guard_ok, Except.bind_eq_ok, Nat.not_le, Nat.not_lt]
  constructor
  · rintro ⟨hp, payload, hr, hfits, hfour, he⟩
    exact ⟨payload, ⟨hp, hr, hfits, hfour⟩, (Except.ok.inj he).symm⟩
  · rintro ⟨payload, ⟨hp, hr, hfits, hfour⟩, rfl⟩
    exact ⟨hp, payload, hr, hfits, hfour, rfl⟩

theorem readToken_ok : readToken mem p = .ok () ↔
    ∃ token payload, vintReadAt mem p = .ok token ∧ PayloadAt mem
      (p + token.2 + token.1) payload := by
  simp only [readToken, guard_ok, Except.bind_eq_ok, Nat.not_le, Nat.not_lt]
  constructor
  · rintro ⟨token, ht, hp, payload, hr, hfits, hfour, -⟩
    exact ⟨token, payload, ht, hp, hr, hfits, hfour⟩
  · rintro ⟨token, payload, ht, hp, hr, hfits, hfour⟩
    exact ⟨token, ht, hp, payload, hr, hfits, hfour, trivial⟩

/-- With packets this short a token that is too long for its field does not fit either. -/
theorem readToken_iff (hlen : mem.length < 2 ^ 16) :
    readToken mem p = .ok () ↔ ∃ r, initialReads true mem p = .ok r := by
  rw [readToken_ok]
  simp only [initialReads, guard_ok, Except.bind_eq_ok, Bool.true_eq_false, and_false,
    not_false_eq_true, true_and]
  constructor
  · rintro ⟨token, payload, ht, hP⟩
    have hroom := hP.room
    by_cases hz : token.1 = 0
    · rw [hz, Nat.add_zero] at hP
      have hr := (@payloadReads_ok mem .initial _ _ 0 0).2 ⟨payload, hP, rfl⟩
      exact ⟨_, token, ht, by rw [if_pos hz]; exact hr⟩
    · have hr := (@payloadReads_ok mem .initial _ _ (p + token.2) token.1).2 ⟨payload, hP, rfl⟩
      exact ⟨_, token, ht, by rw [if_neg hz, if_neg (by omega), if_neg (by omega)]; exact hr⟩
  · rintro ⟨r, token, ht, hr⟩
    by_cases hz : token.1 = 0
    · rw [if_pos hz] at hr
      obtain ⟨payload, hP, -⟩ := payloadReads_ok.1 hr
      exact ⟨token, payload, ht, by rw [hz, Nat.add_zero]; exact hP⟩
    · rw [if_neg hz, guard_ok, guard_ok] at hr
      obtain ⟨payload, hP, -⟩ := payloadReads_ok.1 hr.2.2
      exact ⟨token, payload, ht, hP⟩

structure LongIn.Inside (r : LongIn) (mem : List UInt8) : Prop where
  header : r.headerSz ≤ mem.length
  token : r.token + r.tokenSize ≤ mem.length
  data : r.dataSz ≤ mem.length

theorem longIn_inside {header size : Nat} (hh : header ≤ mem.length)
    (ht : token + tokenSize ≤ mem.length) (hs : size ≤ mem.length) :
    (longIn type token tokenSize header size).Inside mem :=
  ⟨(Nat.mod_le _ _).trans hh, (Nat.add_le_add (Nat.mod_le _ _) (Nat.mod_le _ _)).trans ht,
    (Nat.mod_le _ _).trans hs⟩

theorem payloadReads_inside (h : payloadReads mem type token tokenSize p = .ok r)
    (ht : token + tokenSize ≤ p) : r.Inside mem ∧ r.headerType = type := by
  obtain ⟨payload, hP, rfl⟩ := payloadReads_ok.1 h
  have hfits := hP.fits
  exact ⟨longIn_inside (by omega) (by omega) hfits, rfl⟩

theorem typeReads_inside (h : typeReads isServer mem type dcil p = .ok r) :
    r.Inside mem ∧ r.headerType = type := by
  have hlast : ∀ t, (if mem.length ≤ p ∨ (mem.length - p) % 4 ≠ 0 then
      (.error .invalid : TpRead LongIn) else .ok (longIn t 0 0 mem.length mem.length)) = .ok r →
      r.Inside mem ∧ r.headerType = t := by
    intro t hr
    obtain ⟨-, hr⟩ := guard_ok.1 hr
    cases hr
    exact ⟨longIn_inside le_rfl (Nat.zero_le _) le_rfl, rfl⟩
  cases type with
  | initial =>
    simp only [typeReads, initialReads, guard_ok, Except.bind_eq_ok] at h
    obtain ⟨-, token, ht, -, hr⟩ := h
    by_cases hz : token.1 = 0
    · rw [if_pos hz] at hr
      exact payloadReads_inside hr (Nat.zero_le _)
    · rw [if_neg hz, guard_ok, guard_ok] at hr
      exact payloadReads_inside hr.2.2 le_rfl
  | handshake => exact payloadReads_inside h (Nat.zero_le _)
  | zeroRtt => exact payloadReads_inside h (Nat.zero_le _)
  | retry =>
    simp only [typeReads, guard_ok] at h
    obtain ⟨-, hroom, hr⟩ := h
    cases hr
    exact ⟨longIn_inside le_rfl (by omega) le_rfl, rfl⟩
  | verneg => exact hlast _ h
  | notSet => exact hlast _ h

def tagOf (mem : List UInt8) : List UInt8 := (mem.drop 1).take 4

theorem bytesAt_ok {off n : Nat} {bs : ByteArr n} (h : bytesAt mem off n = .ok bs) :
    bs.1 = (mem.drop off).take n := by
  rw [bytesAt] at h
  split at h
  · cases h; rfl
  · cases h

theorem checkIetf_ok : checkIetf mem = .ok () ↔
    ∃ dcil scil, byteAt mem 5 = .ok dcil ∧ minInitialDcidLen ≤ dcil.toNat ∧
      dcil.toNat ≤ maxCidLen ∧ 6 + dcil.toNat < mem.length ∧
      byteAt mem (6 + dcil.toNat) = .ok scil ∧
      ¬ (mem.length < 7 + dcil.toNat + scil.toNat ∨ maxCidLen < scil.toNat) ∧
      readToken mem (7 + dcil.toNat + scil.toNat) = .ok () := by
  simp only [checkIetf, guard_ok, Except.bind_eq_ok]
  constructor
  · rintro ⟨dcil, hd, hb, hroom, scil, hs, hb', hr⟩
    exact ⟨dcil, scil, hd, by omega, by omega, by omega, hs, hb', hr⟩
  · rintro ⟨dcil, scil, hd, hmin, hmax, hroom, hs, hb, hr⟩
    exact ⟨dcil, hd, by omega, by omega, scil, hs, hb, hr⟩

end

/-- For IETF versions the check accepts what the parser takes for an Initial packet. -/
theorem initial_check_agrees {mem : List UInt8} (hlen : mem.length ≤ 65535)
    (h₀ : tagOf mem ≠ [0, 0, 0, 0]) (h₄₆ : tagOf mem ≠ [81, 48, 52, 54])
    (h₅₀ : tagOf mem ≠ [81, 48, 53, 48]) :
    ((∃ tag, isValidHsPacket mem = .ok tag) ↔
      ∃ r, longBeginReads true mem = .ok r ∧ r.headerType = .initial) ∧
    Safe (isValidHsPacket mem) ∧ Safe (longBeginReads true mem) ∧
    ∀ r, longBeginReads true mem = .ok r → r.Inside mem := by
  refine ⟨⟨?_, ?_⟩, .isValidHsPacket mem, .longBeginReads true mem, ?_⟩
  · rintro ⟨tag, h⟩
    simp only [isValidHsPacket, guard_ok, Except.bind_eq_ok, ne_eq, Decidable.not_not] at h
    obtain ⟨h₆, first, hf, ht, tag, htag, _, hc, -⟩ := h
    have he := bytesAt_ok htag
    rw [checkTag, if_neg (he ▸ h₀), if_neg (he ▸ h₄₆), if_neg (he ▸ h₅₀)] at hc
    obtain ⟨dcil, scil, hd, hmin, hmax, hroom, hs, hb, hr⟩ := checkIetf_ok.1 hc
    obtain ⟨r, hr⟩ := (readToken_iff (by omega)).1 hr
    have htype : typeReads true mem .initial dcil.toNat (7 + dcil.toNat + scil.toNat) = .ok r := by
      rw [typeReads, if_neg (by omega)]
      exact hr
    refine ⟨r, ?_, (typeReads_inside htype).2⟩
    obtain ⟨_, hcid⟩ := @bytesAt_eq mem 6 dcil.toNat (by omega) _ rfl
    rw [longBeginReads, if_neg h₆, hf, Except.ok_bind, htag, Except.ok_bind, hd, Except.ok_bind,
      if_neg (by omega), hcid, Except.ok_bind, hs, Except.ok_bind, if_neg hb, if_neg (he ▸ h₀), ht]
    exact htype
  · rintro ⟨r, h, hi⟩
    simp only [longBeginReads, guard_ok, Except.bind_eq_ok] at h
    obtain ⟨h₆, first, hf, tag, htag, dcil, hd, hb, -, -, scil, hs, hb', hr⟩ := h
    have he := bytesAt_ok htag
    rw [if_neg (he ▸ h₀)] at hr
    have ht : bits2ht (first.toNat >>> 4 &&& 3) = .initial :=
      (typeReads_inside hr).2.symm.trans hi
    rw [ht, typeReads, guard_ok] at hr
    have hmin : ¬ dcil.toNat < minInitialDcidLen := fun h => hr.1 ⟨rfl, h⟩
    have hc : checkIetf mem = .ok () := checkIetf_ok.2 ⟨dcil, scil, hd, by omega, by omega,
      by omega, hs, hb', (readToken_iff (by omega)).2 ⟨r, hr.2⟩⟩
    refine ⟨tag, ?_⟩
    rw [isValidHsPacket, if_neg h₆, hf, Except.ok_bind, if_neg (by simp [ht]), htag,
      Except.ok_bind, checkTag, if_neg (he ▸ h₀), if_neg (he ▸ h₄₆), if_neg (he ▸ h₅₀), hc]
    rfl
  · intro r h
    simp only [longBeginReads, guard_ok, Except.bind_eq_ok] at h
    obtain ⟨-, first, -, tag, -, dcil, -, -, -, -, scil, -, -, hr⟩ := h
    exact (typeReads_inside hr).1

def initialV1 : List UInt8 := [0xC0, 0, 0, 0, 1, 8, 1, 2, 3, 4, 5, 6, 7, 8, 0, 0, 4, 9, 9, 9, 9]

theorem initial_check_agrees_v1 :
    ∃ r, longBeginReads true initialV1 = .ok r ∧ r.headerType = .initial := by
  have h := initial_check_agrees (show initialV1.length ≤ 65535 by decide) (by decide) (by decide)
    (by decide)
  exact h.1.1 ⟨⟨[0, 0, 0, 1], rfl⟩, by decide⟩

end QuicArt
