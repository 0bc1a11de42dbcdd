import QuicArt.HeaderParse

namespace QuicArt

def gquicCidLen : Nat := 8

/-- The part of `lsquic_dcid_from_packet` for Q046: the offset and the length. -/
def dcidQ046Long (buf : List UInt8) : Option (Nat × Nat) :=
  if buf.length < 14 then none
  else
    buf[5]?.bind fun lens =>
      if nybbleLen (lens.toNat >>> 4) = gquicCidLen ∧ nybbleLen (lens.toNat &&& 0xF) = 0 then
        some (6, gquicCidLen)
      else none

/-- The part for the other long headers. -/
def dcidLong (buf : List UInt8) : Option (Nat × Nat) :=
  if buf.length < 14 then none
  else
    buf[5]?.bind fun dcil =>
      if dcil.toNat ≤ maxCidLen ∧ 6 + dcil.toNat < buf.length then some (6, dcil.toNat) else none

/-- `lsquic_dcid_from_packet`; of the version only the last byte is looked at. -/
def dcidFromPacket (serverCidLen : Nat) (buf : List UInt8) : Option (Nat × Nat) :=
  if buf.length < 9 then none
  else
    buf[0]?.bind fun first =>
      if first.toNat &&& 0x80 ≠ 0 then
        if first.toNat &&& 0x30 = 0x30 ∨ buf[4]? = some 54 then dcidQ046Long buf else dcidLong buf
      else if first.toNat &&& 0x40 ≠ 0 then
        if (1 + serverCidLen) % 2 ^ 32 ≤ buf.length then some (1, serverCidLen) else none
      else if first.toNat &&& 8 = 0 then
        if (1 + serverCidLen) % 2 ^ 32 ≤ buf.length ∧ first.toNat &&& 0x40 ≠ 0 then some
          (1, serverCidLen)
        else none
      else if 1 + gquicCidLen ≤ buf.length ∧ first.toNat &&& 8 ≠ 0 then some (1, serverCidLen)
      else none

def Finds (serverCidLen : Nat) (buf cid : List UInt8) : Prop :=
  ∃ p, PacketParser.server.run serverCidLen buf = some p ∧ p.connId = true ∧ p.dcid = cid

/-- What is designated is a connection ID that the parser finds. -/
def DcidAgrees (serverCidLen : Nat) (buf : List UInt8) : Prop :=
  ∀ off len, dcidFromPacket serverCidLen buf = some (off, len) →
    off + len ≤ buf.length ∧ Finds serverCidLen buf ((buf.drop off).take len)

/-- A long header whose first byte says 1x11, or whose version ends in the digit 6. -/
def TakenForQ046 (buf : List UInt8) (first : UInt8) : Prop :=
  first.toNat &&& 0x30 = 0x30 ∨ buf[4]? = some 54

def LongLooksFine (buf : List UInt8) (first : UInt8) : Prop :=
  14 ≤ buf.length ∧ ∃ b, buf[5]? = some b ∧
    ((TakenForQ046 buf first ∧ b = 0x50) ∨
      (¬ TakenForQ046 buf first ∧ b.toNat ≤ maxCidLen ∧ 6 + b.toNat < buf.length))

/-- A gQUIC header: 00xx1xxx. -/
def GquicHeader (first : UInt8) : Prop := first.toNat &&& 0xC8 = 8

def LooksFine (serverCidLen : Nat) (buf : List UInt8) : Prop :=
  9 ≤ buf.length ∧ ∃ first, buf[0]? = some first ∧
    ((first.toNat &&& 0x80 ≠ 0 ∧ LongLooksFine buf first) ∨
      (first.toNat &&& 0xC0 = 0x40 ∧ (1 + serverCidLen) % 2 ^ 32 ≤ buf.length) ∨
      GquicHeader first)

/-- The four classes of first bytes. -/
inductive FirstByte (b : UInt8) : Prop
  | long (h : b.toNat &&& 0x80 ≠ 0) (hs : b.toNat &&& 0xC0 ≠ 0x40) (hg : ¬ GquicHeader b)
  | short (h : b.toNat &&& 0x80 = 0) (h' : b.toNat &&& 0x40 ≠ 0) (hs : b.toNat &&& 0xC0 = 0x40)
      (hg : ¬ GquicHeader b)
  | q046Short (h : b.toNat &&& 0x80 = 0) (h' : b.toNat &&& 0x40 = 0) (h'' : b.toNat &&& 8 = 0)
      (hs : b.toNat &&& 0xC0 ≠ 0x40) (hg : ¬ GquicHeader b)
  | gquic (h : b.toNat &&& 0x80 = 0) (h' : b.toNat &&& 0x40 = 0) (h'' : b.toNat &&& 8 ≠ 0)
      (hs : b.toNat &&& 0xC0 ≠ 0x40) (hg : GquicHeader b)

theorem firstByte_bits : ∀ n < 256,
    (n &&& 0x80 ≠ 0 ∧ n &&& 0xC0 ≠ 0x40 ∧ n &&& 0xC8 ≠ 8) ∨
    (n &&& 0x80 = 0 ∧ n &&& 0x40 ≠ 0 ∧ n &&& 0xC0 = 0x40 ∧ n &&& 0xC8 ≠ 8) ∨
    (n &&& 0x80 = 0 ∧ n &&& 0x40 = 0 ∧ n &&& 8 = 0 ∧ n &&& 0xC0 ≠ 0x40 ∧ n &&& 0xC8 ≠ 8) ∨
    (n &&& 0x80 = 0 ∧ n &&& 0x40 = 0 ∧ n &&& 8 ≠ 0 ∧ n &&& 0xC0 ≠ 0x40 ∧ n &&& 0xC8 = 8) := by
  decide +kernel

theorem firstByte (b : UInt8) : FirstByte b := by
  rcases firstByte_bits b.toNat b.toNat_lt with h | h | h | h
  · exact .long h.1 h.2.1 h.2.2
  · exact .short h.1 h.2.1 h.2.2.1 h.2.2.2
  · exact .q046Short h.1 h.2.1 h.2.2.1 h.2.2.2.1 h.2.2.2.2
  · exact .gquic h.1 h.2.1 h.2.2.1 h.2.2.2.1 h.2.2.2.2

theorem nybbles_eight : ∀ n < 256,
    (nybbleLen (n >>> 4) = gquicCidLen ∧ nybbleLen (n &&& 0xF) = 0) ↔ n = 0x50 := by
  decide +kernel

section
variable {buf : List UInt8} {cidLen : Nat} {p : PacketIn}

theorem dcidQ046Long_eq :
    dcidQ046Long buf = some r ↔ 14 ≤ buf.length ∧ buf[5]? = some 0x50 ∧ r = (6, gquicCidLen) := by
  rw [dcidQ046Long]
  by_cases hlen : buf.length < 14
  · simp [hlen]
  · rw [if_neg hlen]
    cases hb : buf[5]? with
    | none => simp
    | some b =>
      have hbits := nybbles_eight b.toNat b.toNat_lt
      have hb50 : b.toNat = 0x50 ↔ b = 0x50 := by
        rw [← UInt8.toNat_inj]
        rfl
      simp only [Option.bind_some, hbits, hb50, Option.some.injEq]
      by_cases h : b = 0x50
      · simp [h, Nat.le_of_not_lt hlen, eq_comm]
      · simp [h]

theorem dcidLong_eq :
    dcidLong buf = some r ↔ 14 ≤ buf.length ∧
      ∃ b, buf[5]? = some b ∧ b.toNat ≤ maxCidLen ∧ 6 + b.toNat < buf.length ∧ r =
        (6, b.toNat) := by
  rw [dcidLong]
  by_cases hlen : buf.length < 14
  · simp [hlen]
  · rw [if_neg hlen]
    cases hb : buf[5]? with
    | none => simp
    | some b =>
      by_cases h : b.toNat ≤ maxCidLen ∧ 6 + b.toNat < buf.length
      · simp [h, Nat.le_of_not_lt hlen, eq_comm]
      · simp only [Option.bind_some, if_neg h, Option.some.injEq, exists_eq_left']
        simp
        omega

theorem looksFine_iff : LooksFine cidLen buf ↔ ∃ r, dcidFromPacket cidLen buf = some r := by
  rw [dcidFromPacket, LooksFine]
  by_cases hlen : buf.length < 9
  · simp [hlen]
  · simp only [if_neg hlen, Nat.le_of_not_lt hlen, true_and]
    cases buf[0]? with
    | none => simp
    | some first =>
      simp only [Option.some.injEq, exists_eq_left', Option.bind_some]
      cases firstByte first with
      | long h hs hg =>
        simp only [h, hs, hg, ne_eq, not_false_eq_true, true_and, if_true, false_and, or_false]
        by_cases hq : TakenForQ046 buf first
        · simp only [LongLooksFine, if_pos (show _ ∨ _ from hq), dcidQ046Long_eq, hq]
          simp
        · simp only [LongLooksFine, if_neg (show ¬ (_ ∨ _) from hq), dcidLong_eq, hq]
          simp
      | short h h' hs hg => simp [h, h', hs, hg]
      | q046Short h h' h'' hs hg => simp [h, h', h'', hs, hg]
      | gquic h h' h'' hs hg =>
        have h9 : 1 + gquicCidLen ≤ buf.length := Nat.le_of_not_lt hlen
        simp [h, h', h'', hs, hg, h9]

theorem q046LongBegin_dcid (h : q046LongBegin true cidLen buf = some p) :
    ∃ b, buf[5]? = some b ∧ nybbleLen (b.toNat >>> 4) = cidLen ∧ 6 + cidLen ≤ buf.length ∧
      p.connId = true ∧ p.dcid = (buf.drop 6).take cidLen := by
  obtain ⟨type, -, h⟩ := Option.bind_eq_some_iff.mp h
  obtain ⟨first, -, h⟩ := Option.bind_eq_some_iff.mp h
  obtain ⟨b, hb, h⟩ := Option.bind_eq_some_iff.mp h
  refine ⟨b, hb, ?_⟩
  obtain ⟨hlens, h⟩ := Option.ite_none_left_eq_some.mp h
  obtain ⟨hfit, h⟩ := Option.ite_none_left_eq_some.mp h
  obtain ⟨-, h⟩ := Option.ite_none_left_eq_some.mp h
  cases h
  have hd : nybbleLen (b.toNat >>> 4) = cidLen := by
    simp at hlens
    exact hlens.1
  exact ⟨hd, by omega, rfl, rfl⟩

def DcidAt (buf dcid : List UInt8) : Prop :=
  ∃ b, buf[5]? = some b ∧ b.toNat ≤ maxCidLen ∧ 6 + b.toNat < buf.length ∧
    dcid = (buf.drop 6).take b.toNat

theorem longCids_dcid (h : longCids buf = some (dcid, scid, q)) : DcidAt buf dcid := by
  obtain ⟨b, hb, h⟩ := Option.bind_eq_some_iff.mp h
  obtain ⟨hfit, h⟩ := Option.ite_none_left_eq_some.mp h
  obtain ⟨scil, -, h⟩ := Option.bind_eq_some_iff.mp h
  obtain ⟨-, h⟩ := Option.ite_none_left_eq_some.mp h
  cases h
  exact ⟨b, hb, by omega, by omega, rfl⟩

theorem ietfLongBegin_dcid (h : ietfLongBegin true buf = some p) : DcidAt buf p.dcid := by
  obtain ⟨type, -, h⟩ := Option.bind_eq_some_iff.mp h
  obtain ⟨⟨dcid, scid, q⟩, hc, h⟩ := Option.bind_eq_some_iff.mp h
  obtain ⟨n, -, rfl⟩ := Option.map_eq_some_iff.mp h
  exact longCids_dcid hc

theorem q050LongBegin_dcid (h : q050LongBegin true buf = some p) : DcidAt buf p.dcid := by
  obtain ⟨type, -, h⟩ := Option.bind_eq_some_iff.mp h
  obtain ⟨⟨dcid, scid, q⟩, hc, h⟩ := Option.bind_eq_some_iff.mp h
  obtain ⟨hs, h⟩ := Option.ite_none_left_eq_some.mp h
  obtain ⟨n, -, rfl⟩ := Option.map_eq_some_iff.mp h
  have he : scid.isEmpty = true := by simpa using hs
  simp only [he, if_true]
  exact longCids_dcid hc

theorem longBegin_dcid (h : longBegin true cidLen buf = some p) (h6 : buf[4]? ≠ some 54) :
    DcidAt buf p.dcid := by
  obtain ⟨-, h⟩ := Option.ite_none_left_eq_some.mp h
  split at h
  next hv =>
    have h4 := congrArg (fun l => l[3]?) hv
    exact absurd (by simpa using h4) h6
  split at h
  · exact q050LongBegin_dcid h
  · exact ietfLongBegin_dcid h

/-- Of the versions that end in 6 only Q046 has packets that begin as the quick look wants. -/
theorem longBegin_q046 (h : longBegin true cidLen buf = some p) (h6 : buf[4]? = some 54)
    (h5 : buf[5]? = some 0x50) : q046LongBegin true cidLen buf = some p := by
  obtain ⟨-, h⟩ := Option.ite_none_left_eq_some.mp h
  split at h
  · exact h
  split at h
  next hv =>
    have h4 := congrArg (fun l => l[3]?) hv
    simp [h6] at h4
  · obtain ⟨b, hb, hmax, -⟩ := ietfLongBegin_dcid h
    rw [h5] at hb
    cases hb
    exact absurd hmax (by decide)

theorem ietfShortBegin_dcid (h : ietfShortBegin cidLen buf = some p) (hc : p.connId = true) :
    1 + cidLen ≤ buf.length ∧ p.dcid = (buf.drop 1).take cidLen := by
  rw [ietfShortBegin] at h
  split at h
  · obtain ⟨hfit, h⟩ := Option.ite_none_left_eq_some.mp h
    cases h
    exact ⟨Nat.le_of_not_lt hfit, rfl⟩
  · cases h
    cases hc

theorem gquicBegin_dcid (h : gquicBegin true buf = some p) (hc : p.connId = true) :
    p.dcid = (buf.drop 1).take gquicCidLen := by
  obtain ⟨-, h⟩ := Option.ite_none_left_eq_some.mp h
  obtain ⟨first, -, h⟩ := Option.bind_eq_some_iff.mp h
  obtain ⟨-, h⟩ := Option.ite_none_left_eq_some.mp h
  obtain ⟨q, -, h⟩ := Option.bind_eq_some_iff.mp h
  obtain ⟨q', -, h⟩ := Option.bind_eq_some_iff.mp h
  obtain ⟨-, h⟩ := Option.ite_none_left_eq_some.mp h
  cases h
  simp only at hc
  simp only [hc, if_true]
  rfl

theorem finds_designated (hf : Finds cidLen buf cid)
    (hq : dcidFromPacket cidLen buf = some (off, len))
    (hg : ∀ first, buf[0]? = some first → GquicHeader first → cidLen = gquicCidLen) :
    off + len ≤ buf.length ∧ cid = (buf.drop off).take len := by
  obtain ⟨p, hp, hc, rfl⟩ := hf
  obtain ⟨hlen, hq⟩ := Option.ite_none_left_eq_some.mp hq
  obtain ⟨first, hfirst, hq⟩ := Option.bind_eq_some_iff.mp hq
  rw [PacketParser.run, hfirst] at hp
  simp only [Option.bind_some] at hp
  cases firstByte first with
  | long h hs hg =>
    rw [if_pos h] at hp hq
    split at hq
    next h46 =>
      obtain ⟨h14, h5, he⟩ := dcidQ046Long_eq.mp hq
      cases he
      have hp : q046LongBegin true cidLen buf = some p := by
        split at hp
        · exact hp
        next h30 => exact longBegin_q046 hp (h46.resolve_left h30) h5
      obtain ⟨b, hb, hd, hfit, -, hdcid⟩ := q046LongBegin_dcid hp
      rw [h5] at hb
      cases hb
      have h8 : cidLen = gquicCidLen := hd.symm
      rw [h8] at hdcid hfit
      exact ⟨hfit, hdcid⟩
    next h46 =>
      rw [if_neg fun h30 => h46 (.inl h30)] at hp
      obtain ⟨h14, b, hb, hmax, hfit, he⟩ := dcidLong_eq.mp hq
      cases he
      obtain ⟨b', hb', -, -, hdcid⟩ := longBegin_dcid hp fun h6 => h46 (.inr h6)
      rw [hb] at hb'
      cases hb'
      exact ⟨Nat.le_of_lt hfit, hdcid⟩
  | short h h' hs hg =>
    rw [if_neg (not_not.mpr h), if_pos h'] at hp hq
    obtain ⟨-, he⟩ := Option.ite_none_right_eq_some.mp hq
    cases he
    exact ietfShortBegin_dcid hp hc
  | q046Short h h' h'' hs hg =>
    rw [if_neg (not_not.mpr h), if_neg (not_not.mpr h'), if_pos h''] at hq
    exact absurd h' (Option.ite_none_right_eq_some.mp hq).1.2
  | gquic h h' h'' hs hgq =>
    rw [if_neg (not_not.mpr h), if_neg (not_not.mpr h'), if_neg h''] at hp hq
    obtain ⟨hfit, he⟩ := Option.ite_none_right_eq_some.mp hq
    have h8 := hg first hfirst hgq
    cases he
    rw [h8]
    exact ⟨hfit.1, gquicBegin_dcid hp hc⟩

theorem finds_gquic (hf : Finds cidLen buf cid) (hlen : 9 ≤ buf.length)
    (hfirst : buf[0]? = some first)
    (hg : GquicHeader first) : cid.length = gquicCidLen := by
  obtain ⟨p, hp, hc, rfl⟩ := hf
  rw [PacketParser.run, hfirst] at hp
  simp only [Option.bind_some] at hp
  cases firstByte first with
  | long h hs hn => exact absurd hg hn
  | short h h' hs hn => exact absurd hg hn
  | q046Short h h' h'' hs hn => exact absurd hg hn
  | gquic h h' h'' hs _ =>
    rw [if_neg (not_not.mpr h), if_neg (not_not.mpr h'), if_neg h''] at hp
    rw [gquicBegin_dcid hp hc, List.length_take, List.length_drop]
    simp only [gquicCidLen]
    omega

theorem dcidFromPacket_gquic (hlen : 9 ≤ buf.length) (hfirst : buf[0]? = some first)
    (hg : GquicHeader first) : dcidFromPacket cidLen buf = some (1, cidLen) := by
  rw [dcidFromPacket, if_neg (Nat.not_lt.mpr hlen), hfirst]
  cases firstByte first with
  | long h hs hn => exact absurd hg hn
  | short h h' hs hn => exact absurd hg hn
  | q046Short h h' h'' hs hn => exact absurd hg hn
  | gquic h h' h'' hs _ =>
    have hfit : 1 + gquicCidLen ≤ buf.length := hlen
    simp [h, h', h'', hfit]

/-- The quick look may designate nothing, or what the parser finds, unless a gQUIC header meets a
configured length other than eight. -/
theorem dcidAgrees_iff :
    DcidAgrees cidLen buf ↔
      (LooksFine cidLen buf → (∃ cid, Finds cidLen buf cid) ∧
        ∀ first, buf[0]? = some first → GquicHeader first → cidLen = gquicCidLen) := by
  constructor
  · intro ha hl
    obtain ⟨⟨off, len⟩, hq⟩ := looksFine_iff.mp hl
    obtain ⟨hfit, hf⟩ := ha off len hq
    refine ⟨⟨_, hf⟩, fun first hfirst hg => ?_⟩
    have hlen := finds_gquic hf hl.1 hfirst hg
    rw [dcidFromPacket_gquic hl.1 hfirst hg] at hq
    cases hq
    rw [List.length_take, List.length_drop] at hlen
    omega
  · intro hc off len hq
    obtain ⟨⟨cid, hf⟩, hg⟩ := hc (looksFine_iff.mpr ⟨_, hq⟩)
    obtain ⟨hfit, rfl⟩ := finds_designated hf hq hg
    exact ⟨hfit, hf⟩

end

/-- With a length of 20 bytes the quick look designates bytes behind the datagram. -/
theorem dcid_past_datagram :
    ∃ buf : List UInt8, buf.length = 10 ∧ dcidFromPacket 20 buf = some (1, 20) ∧
      Finds 20 buf [1, 2, 3, 4, 5, 6, 7, 8] ∧ ¬ DcidAgrees 20 buf := by
  refine ⟨[8, 1, 2, 3, 4, 5, 6, 7, 8, 0], rfl, by decide, ⟨_, rfl, rfl, rfl⟩, fun h => ?_⟩
  exact absurd (h 1 20 (by decide)).1 (by decide)

end QuicArt
