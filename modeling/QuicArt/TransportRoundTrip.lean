import Mathlib.Algebra.Order.BigOperators.Group.List
import QuicArt.TransportDecode

namespace QuicArt

theorem vintVal2bits_spec (h : v < 2 ^ 62) :
    vintVal2bits v ≤ 3 ∧ v < 2 ^ vintBits2shift (vintVal2bits v) := by
  by_cases h6 : 2 ^ 6 ≤ v
  · by_cases h14 : 2 ^ 14 ≤ v
    · by_cases h30 : 2 ^ 30 ≤ v
      · have hb : vintVal2bits v = 3 := by simp only [vintVal2bits, h6, h14, h30]; rfl
        rw [hb]
        exact ⟨Nat.le_refl 3, h⟩
      · have hb : vintVal2bits v = 2 := by simp only [vintVal2bits, h6, h14, h30]; rfl
        rw [hb]
        exact ⟨by decide, Nat.not_le.mp h30⟩
    · have h30 : ¬ 2 ^ 30 ≤ v := by omega
      have hb : vintVal2bits v = 1 := by simp only [vintVal2bits, h6, h14, h30]; rfl
      rw [hb]
      exact ⟨by decide, Nat.not_le.mp h14⟩
  · have h14 : ¬ 2 ^ 14 ≤ v := by omega
    have h30 : ¬ 2 ^ 30 ≤ v := by omega
    have hb : vintVal2bits v = 0 := by simp only [vintVal2bits, h6, h14, h30]; rfl
    rw [hb]
    exact ⟨by decide, Nat.not_le.mp h6⟩

theorem vintVal2bits_small (h : v < 2 ^ 6) : vintVal2bits v = 0 := by
  have h6 : ¬ 2 ^ 6 ≤ v := Nat.not_le.mpr h
  have h14 : ¬ 2 ^ 14 ≤ v := by omega
  have h30 : ¬ 2 ^ 30 ≤ v := by omega
  simp only [vintVal2bits, h6, h14, h30]
  rfl

theorem bytesBE_length (x n : Nat) : (bytesBE x n).length = n := by
  rw [bytesBE, List.length_map, List.length_range]

theorem bytesBE_succ (x n : Nat) : bytesBE x (n + 1) = .ofNat (x / 256 ^ n) :: bytesBE x n := by
  rw [bytesBE, List.range_succ_eq_map, List.map_cons, List.map_map]
  congr 1
  · rw [Nat.shiftRight_eq_div_pow, Nat.add_sub_cancel, Nat.sub_zero, Nat.pow_mul]
  · rw [bytesBE]
    apply List.map_congr_left
    intro i _
    rw [Function.comp_apply, Nat.succ_eq_add_one, Nat.add_sub_cancel, Nat.sub_sub, Nat.add_comm 1]

theorem bigEndian_bytesBE (x n : Nat) : bigEndian (bytesBE x n) = x % 256 ^ n := by
  induction n with
  | zero => rw [Nat.pow_zero, Nat.mod_one]; rfl
  | succ n ih =>
    have hfold := (VarintReadState.foldl_bytes (UInt8.ofNat (x / 256 ^ n)).toNat (bytesBE x n)).1
    rw [bytesBE_succ, bigEndian, List.foldl_cons, Nat.zero_mul, Nat.zero_add, hfold, ih,
      bytesBE_length, UInt8.toNat_ofNat', Nat.pow_succ (n := 256), Nat.mod_mul (a := 256 ^ n),
      Nat.mul_comm (256 ^ n), Nat.add_comm]

theorem vintBits2shift_pow (h : bits ≤ 3) :
    2 ^ vintBits2shift bits = 64 * 256 ^ (2 ^ bits - 1) := by
  have hall : ∀ bits < 4, 2 ^ vintBits2shift bits = 64 * 256 ^ (2 ^ bits - 1) := by decide
  exact hall bits (Nat.lt_succ_of_le h)

theorem vintWrite_length (v bits : Nat) : (vintWrite v bits).length = 2 ^ bits :=
  bytesBE_length _ _

theorem decodeVarint_vintWrite (hbits : bits ≤ 3) (hv : v < 2 ^ vintBits2shift bits) :
    decodeVarint (vintWrite v bits) = some (v, []) := by
  have hpos : 0 < 2 ^ bits := Nat.two_pow_pos bits
  obtain ⟨m, hm⟩ : ∃ m, 2 ^ bits = m + 1 := ⟨2 ^ bits - 1, by omega⟩
  have hor : v ||| bits <<< vintBits2shift bits = v + bits * 64 * 256 ^ m := by
    rw [Nat.or_comm, Nat.shiftLeft_eq, Nat.mul_comm bits, ← Nat.two_pow_add_eq_or_of_lt hv,
      vintBits2shift_pow hbits, hm, Nat.add_sub_cancel]
    ring
  have hlow : v < 64 * 256 ^ m := by
    rw [vintBits2shift_pow hbits, hm, Nat.add_sub_cancel] at hv
    exact hv
  have hP : 0 < 256 ^ m := Nat.pow_pos (by decide)
  have hhigh : v / 256 ^ m < 64 := Nat.div_lt_of_lt_mul (by rw [Nat.mul_comm]; exact hlow)
  have hfirst : (v + bits * 64 * 256 ^ m) / 256 ^ m = v / 256 ^ m + bits * 64 :=
    Nat.add_mul_div_right _ _ hP
  have hb : (UInt8.ofNat (v / 256 ^ m + bits * 64)).toNat = v / 256 ^ m + bits * 64 :=
    UInt8.toNat_ofNat_of_lt' (by have h256 : UInt8.size = 256 := rfl; omega)
  have hsize : varintSize (.ofNat (v / 256 ^ m + bits * 64)) = m + 1 := by
    rw [varintSize, hb, ← hm, Nat.add_mul_div_right _ _ (by decide), Nat.div_eq_of_lt hhigh,
      Nat.zero_add]
  have hvalue := (VarintReadState.foldl_bytes ((v / 256 ^ m + bits * 64) % 64)
    (bytesBE (v + bits * 64 * 256 ^ m) m)).1
  rw [vintWrite, hor, hm, bytesBE_succ, hfirst, decodeVarint, bytesBE_length, hsize,
    if_neg (Nat.lt_irrefl _), Nat.add_sub_cancel, List.take_of_length_le (by rw [bytesBE_length]),
    List.drop_eq_nil_of_le (by rw [bytesBE_length]), varintValue, hb, hvalue, bigEndian_bytesBE,
    bytesBE_length, Nat.add_mul_mod_self_right, Nat.add_mul_mod_self_right, Nat.mod_eq_of_lt hhigh,
    Nat.div_add_mod']

namespace TransportParams

def valueOf (params : TransportParams) (t : Tpi) : List UInt8 :=
  match t.kind with
  | .numeric => vintWrite (params.numerics t) (vintVal2bits (params.numerics t))
  | .empty => []
  | .token => params.statelessResetToken.1
  | .cid => (params.cids t).1
  | .address => params.preferredAddress.bytes

section
variable {params : TransportParams} {t : Tpi} {isServer : Bool}

theorem vintVal2bits_le (v : Nat) : vintVal2bits v ≤ 3 := by
  rw [vintVal2bits]
  have h6 := Bool.toNat_le (decide (2 ^ 6 ≤ v))
  have h14 := Bool.toNat_le (decide (2 ^ 14 ≤ v))
  have h30 := Bool.toNat_le (decide (2 ^ 30 ≤ v))
  omega

theorem two_pow_bits_le (v : Nat) : 2 ^ vintVal2bits v ≤ 8 :=
  Nat.pow_le_pow_right (by decide) (vintVal2bits_le v)

theorem valueOf_length (params : TransportParams) (t : Tpi) :
    (params.valueOf t).length < 2 ^ 6 := by
  rw [valueOf]
  cases t.kind with
  | numeric =>
    have hle := two_pow_bits_le (params.numerics t)
    simp only [vintWrite_length]
    omega
  | empty => exact Nat.two_pow_pos 6
  | token =>
    simp only [params.statelessResetToken.2]
    decide
  | cid =>
    have hle : (params.cids t).1.length ≤ 20 := (params.cids t).2
    simp only
    omega
  | address =>
    have hle : params.preferredAddress.cid.1.length ≤ 20 := params.preferredAddress.cid.2
    simp only [PreferredAddress.bytes_length, PreferredAddress.size, sresetTokenSz]
    omega

theorem decodeVarint_write (h : v < 2 ^ 62) : decodeVarint (vintWrite v (vintVal2bits v)) = some
    (v, []) :=
  decodeVarint_vintWrite (vintVal2bits_spec h).1 (vintVal2bits_spec h).2

theorem val_lt (t : Tpi) : t.val < 2 ^ 62 := by
  cases t <;> decide

def entryOf (params : TransportParams) (t : Tpi) : TpEntry where
  id := t.val
  idBytes := vintWrite t.val (vintVal2bits t.val)
  lenBytes := vintWrite (params.valueOf t).length (vintVal2bits (params.valueOf t).length)
  value := params.valueOf t
  id_eq := decodeVarint_write (val_lt t)
  len_eq := decodeVarint_write (Nat.lt_trans (params.valueOf_length t) (by decide))

theorem entryOf_tpi : (params.entryOf t).tpi = some t := by
  cases t <;> rfl

theorem valueOf_kind : t.kind = k → params.valueOf t =
    match k with
    | .numeric => vintWrite (params.numerics t) (vintVal2bits (params.numerics t))
    | .empty => []
    | .token => params.statelessResetToken.1
    | .cid => (params.cids t).1
    | .address => params.preferredAddress.bytes := by
  rintro rfl
  rfl

section
variable (h : t.serverOnly = true → isServer = true)
include h

theorem sender_ok : ¬ (t.serverOnly && !isServer) = true := by
  cases ht : t.serverOnly <;> simp [h, ht]

theorem bytesOf_eq {junk : Tpi → Nat × Nat × Nat} :
    params.bytesOf isServer junk t = (params.entryOf t).bytes := by
  have hbits : vintVal2bits (params.valueOf t).length = 0 :=
    vintVal2bits_small (params.valueOf_length t)
  rw [TpEntry.bytes, entryOf, bytesOf, bits, if_neg (sender_ok h)]
  simp only [hbits]
  cases hk : t.kind with
  | numeric =>
    have hle := vintVal2bits_le (params.numerics t)
    have hsmall : vintVal2bits (vintVal2bits (params.numerics t)) = 0 :=
      vintVal2bits_small (by omega)
    rw [valueOf_kind hk]
    simp only [vintWrite_length, hsmall]
  | empty =>
    rw [valueOf_kind hk]
    simp only [List.append_nil, List.length_nil]
    rfl
  | token =>
    rw [valueOf_kind hk]
    simp only [params.statelessResetToken.2]
    rfl
  | cid =>
    rw [valueOf_kind hk] at hbits ⊢
    simp only at hbits ⊢
    rw [hbits]
  | address =>
    rw [valueOf_kind hk] at hbits ⊢
    simp only [PreferredAddress.bytes_length] at hbits ⊢
    rw [hbits]

theorem need_eq {junk : Tpi → Nat × Nat × Nat} :
    params.need isServer junk t = (params.bytesOf isServer junk t).length := by
  rw [need, bytesOf, if_neg (sender_ok h)]
  cases t.kind <;> simp only [List.length_append, vintWrite_length, List.length_cons,
    List.length_nil, params.statelessResetToken.2, PreferredAddress.bytes_length, Nat.add_assoc]

theorem need_le {junk : Tpi → Nat × Nat × Nat} : params.need isServer junk t ≤ 80 := by
  have hid := two_pow_bits_le t.val
  have hlen := two_pow_bits_le (params.valueOf t).length
  have hvalue := params.valueOf_length t
  rw [need_eq h, bytesOf_eq h, TpEntry.bytes, entryOf]
  simp only [List.length_append, vintWrite_length]
  omega

end

/-- The parameter may be sent, and its value is in the accepted range. -/
def Sendable (params : TransportParams) (isServer : Bool) (t : Tpi) : Prop :=
  (t.serverOnly = true → isServer = true) ∧
  (t.kind = .numeric → t.minVal ≤ params.numerics t ∧ params.numerics t ≤ t.maxVal)

theorem Sendable.numeric_lt (h : params.Sendable isServer t) (hk : t.kind = .numeric) :
    params.numerics t < 2 ^ 62 := by
  have hmax : t.maxVal < 2 ^ 62 := by cases t <;> decide
  exact Nat.lt_of_le_of_lt (h.2 hk).2 hmax

theorem Sendable.takes (h : params.Sendable isServer t) (q : TransportParams) :
    ∃ q', Takes isServer (params.valueOf t) t q q' := by
  cases hk : t.kind with
  | numeric =>
    obtain ⟨hlo, hhi⟩ := h.2 hk
    refine ⟨{ q with numerics := update q.numerics t (params.numerics t) }, h.1, ?_⟩
    rw [hk, valueOf_kind hk]
    exact ⟨_, decodeVarint_write (h.numeric_lt hk), hlo, hhi, rfl⟩
  | empty =>
    refine ⟨q, h.1, ?_⟩
    rw [hk, valueOf_kind hk]
    exact ⟨rfl, rfl⟩
  | token =>
    refine ⟨{ q with statelessResetToken := params.statelessResetToken }, h.1, ?_⟩
    rw [hk, valueOf_kind hk]
    exact ⟨_, rfl, rfl⟩
  | cid =>
    refine ⟨{ q with cids := update q.cids t (params.cids t) }, h.1, ?_⟩
    rw [hk, valueOf_kind hk]
    exact ⟨_, rfl, rfl⟩
  | address =>
    refine ⟨{ q with preferredAddress := params.preferredAddress }, h.1, ?_⟩
    rw [hk, valueOf_kind hk]
    exact ⟨_, rfl, rfl⟩

theorem exists_trace {ts : List Tpi} {ids : Tpi → Bool} {q : TransportParams} (hnodup : ts.Nodup)
    (hids : ∀ t ∈ ts, ids t = false) (hok : ∀ t ∈ ts, params.Sendable isServer t) :
    ∃ out, TpTrace isServer (ts.map params.entryOf) ids q out := by
  induction ts generalizing ids q with
  | nil => exact ⟨q, .done⟩
  | cons t ts ih =>
    obtain ⟨q', htakes⟩ := (hok t (.head _)).takes q
    obtain ⟨hnew, hnodup⟩ := List.nodup_cons.mp hnodup
    have hids' : ∀ t' ∈ ts, update ids t true t' = false := by
      intro t' ht'
      have hne : t' ≠ t := by
        rintro rfl
        exact hnew ht'
      rw [update_other hne]
      exact hids t' (.tail _ ht')
    obtain ⟨out, htrace⟩ := ih hnodup hids' (fun t' ht' => hok t' (.tail _ ht'))
    exact ⟨out, .param entryOf_tpi (hids t (.head _)) htakes htrace⟩

theorem names_entries (params : TransportParams) (ts : List Tpi) :
    TpEntry.names (ts.map params.entryOf) = ts := by
  induction ts with
  | nil => rfl
  | cons t ts ih => rw [List.map_cons, TpEntry.names_some entryOf_tpi, ih]

theorem wire_entries {ts : List Tpi} {junk : Tpi → Nat × Nat × Nat}
    (hok : ∀ t ∈ ts, t.serverOnly = true → isServer = true) :
    TpEntry.wire (ts.map params.entryOf) = ts.flatMap (params.bytesOf isServer junk) := by
  rw [TpEntry.wire, List.flatMap_map]
  apply List.flatMap_congr
  intro t ht
  exact (bytesOf_eq (hok t ht)).symm

end

end TransportParams

theorem TpEntry.bytes_pos (e : TpEntry) : 0 < e.bytes.length := by
  rw [bytes, List.length_append]
  rcases decodeVarint_length e.id_eq with h | h | h | h <;> omega

theorem decodeLoop_entry (isServer : Bool) (fuel : Nat) (e : TpEntry) (rest : List UInt8)
    (ids : Tpi → Bool) (params : TransportParams) :
    decodeLoop isServer (fuel + 1) (e.bytes ++ rest) ids params =
      match e.tpi with
      | none => decodeLoop isServer fuel rest ids params
      | some t =>
        if ids t then .error .invalid
        else (decodeValue isServer (e.value ++ rest) e.value.length t params >>= fun params =>
          decodeLoop isServer fuel rest (update ids t true) (params.mark t)) := by
  have hbytes : e.bytes ++ rest = e.idBytes ++ (e.lenBytes ++ (e.value ++ rest)) := by
    rw [TpEntry.bytes, List.append_assoc, List.append_assoc]
  have hidPos : 0 < e.idBytes.length := by
    rcases decodeVarint_length e.id_eq with h | h | h | h <;> omega
  have hid := @varintRead_append _ (e.lenBytes ++ (e.value ++ rest)) _ _ e.id_eq
    (List.length_append ▸ Nat.le_add_right _ _) le_rfl
  have hlen := @varintRead_append _ (e.value ++ rest) _ _ e.len_eq
    (List.length_append ▸ Nat.le_add_right _ _) le_rfl
  have hne : ¬ (e.idBytes ++ (e.lenBytes ++ (e.value ++ rest))).length = 0 := by
    rw [List.length_append]
    omega
  have hroom : ¬ (e.value ++ rest).length < e.value.length := by
    rw [List.length_append]
    omega
  rw [hbytes, decodeLoop, if_neg hne, hid, Except.ok_bind]
  simp only [List.drop_left, hlen, Except.ok_bind, if_neg hroom]
  rfl

theorem decodeLoop_of_trace (h : TpTrace isServer es ids params out)
    (hfuel : (TpEntry.wire es).length < fuel) :
    decodeLoop isServer fuel (TpEntry.wire es) ids params = .ok out := by
  induction h generalizing fuel with
  | done =>
    cases fuel with
    | zero => exact absurd hfuel (Nat.not_lt_zero _)
    | succ fuel => rfl
  | skip hnone htrace ih =>
    obtain ⟨fuel, rfl⟩ : ∃ n, fuel = n + 1 := ⟨fuel - 1, by omega⟩
    rw [TpEntry.wire_cons, decodeLoop_entry, hnone]
    exact ih (rest_lt (TpEntry.wire_cons _ _) (TpEntry.bytes_pos _) hfuel)
  | @param t _ _ _ es _ e hsome hnew htakes htrace ih =>
    obtain ⟨fuel, rfl⟩ : ∃ n, fuel = n + 1 := ⟨fuel - 1, by omega⟩
    have hvalue : (e.value ++ TpEntry.wire es).take e.value.length = e.value := List.take_left
    rw [← hvalue] at htakes
    have hread := htakes.decodeValue (List.length_append ▸ Nat.le_add_right _ _)
    rw [TpEntry.wire_cons, decodeLoop_entry, hsome]
    simp only [hnew, hread, Except.ok_bind]
    exact ih (rest_lt (TpEntry.wire_cons e es) e.bytes_pos hfuel)

theorem Tpi.mem_all (t : Tpi) : t ∈ Tpi.all := by
  cases t <;> decide

theorem Tpi.all_nodup : Tpi.all.Nodup := by decide

/-- The numeric value of a parameter, which is its default where it is not set. -/
def TransportParams.numeric (params : TransportParams) (t : Tpi) : Nat :=
  if params.set t then params.numerics t else t.defVal

/-- The same parameters, those with default values apart, which are all set; the values agree. -/
structure RoundTrip (p q : TransportParams) : Prop where
  set : ∀ t, q.set t = (p.set t || t.hasDef)
  decoded : ∀ t, q.decoded t = p.written t
  numerics : ∀ t, t.kind = .numeric → q.numerics t = p.numeric t
  cids : ∀ t, t.kind = .cid → p.set t = true → q.cids t = p.cids t
  token : p.set .statelessResetToken = true → q.statelessResetToken = p.statelessResetToken
  address : p.set .preferredAddress = true → q.preferredAddress = p.preferredAddress

section
variable {params out : TransportParams} {isServer : Bool} {t : Tpi} {ts : List Tpi}

theorem TransportParams.not_written (h : params.written t = false) (hset : params.set t = true) :
    t.hasDef = true ∧ params.numerics t = t.defVal := by
  rw [written, hset, Bool.true_and, Bool.not_eq_false', isDefault, Bool.and_eq_true] at h
  exact ⟨h.1, beq_iff_eq.mp h.2⟩

theorem TransportParams.set_of_written (h : params.written t = true) : params.set t = true := by
  rw [written, Bool.and_eq_true] at h
  exact h.1

theorem TransportParams.written_of_set (h : params.set t = true) (hdef : t.hasDef = false) :
    params.written t = true := by
  rw [written, h, isDefault, hdef]
  rfl

theorem PreferredAddress.bytes_inj {a b : PreferredAddress} (h : a.bytes = b.bytes) : a = b := by
  have ha := decodeAddress_of_bytes le_rfl (List.take_length (l := a.bytes))
  have hb := decodeAddress_of_bytes (a := b) le_rfl (List.take_length.trans h)
  exact Except.ok.inj (ha.symm.trans hb)

/-- Reading the entries that were written gives the parameters back. -/
theorem TpTrace.roundTrip
    (h : TpTrace isServer (ts.map params.entryOf) (fun _ => false) .initializer out)
    (hts : ∀ t, t ∈ ts ↔ params.written t = true)
    (hok : ∀ t, params.written t = true → params.Sendable isServer t) : RoundTrip params out := by
  have hwritten {t : Tpi} (ht : params.written t = true) :
      Valid isServer (params.valueOf t) t out ∧ out.set t = true ∧ out.decoded t = true :=
    h.valid (List.mem_map_of_mem ((hts t).mpr ht)) TransportParams.entryOf_tpi
  have hother {t : Tpi} (ht : params.written t = false) : SameAt t .initializer out := by
    apply h.frame
    rw [TransportParams.names_entries, hts t, ht]
    exact Bool.false_ne_true
  refine ⟨fun t => ?_, fun t => ?_, fun t hk => ?_, fun t hk hset => ?_, fun hset => ?_,
    fun hset => ?_⟩
  · cases ht : params.written t with
    | true => rw [(hwritten ht).2.1, TransportParams.set_of_written ht, Bool.true_or]
    | false =>
      rw [← (hother ht).set]
      cases hset : params.set t with
      | true => exact (TransportParams.not_written ht hset).1
      | false => exact (Bool.false_or _).symm
  · cases ht : params.written t with
    | true => exact (hwritten ht).2.2
    | false => exact (hother ht).decoded.symm
  · rw [TransportParams.numeric]
    cases ht : params.written t with
    | true =>
      obtain ⟨⟨-, hv⟩, -, -⟩ := hwritten ht
      have hlt := (hok t ht).numeric_lt hk
      rw [hk, TransportParams.valueOf_kind hk] at hv
      simp only [TransportParams.decodeVarint_write hlt] at hv
      rw [if_pos (TransportParams.set_of_written ht)]
      exact (Prod.mk.inj (Option.some.inj hv.1)).1.symm
    | false =>
      rw [← (hother ht).numerics]
      split
      next hset => exact (TransportParams.not_written ht hset).2.symm
      · rfl
  · have ht : params.written t = true :=
      TransportParams.written_of_set hset (by cases t <;> first | rfl | cases hk)
    obtain ⟨⟨-, hv⟩, -, -⟩ := hwritten ht
    rw [hk, TransportParams.valueOf_kind hk] at hv
    exact Subtype.ext hv.symm
  · obtain ⟨⟨-, hv⟩, -, -⟩ := hwritten (TransportParams.written_of_set hset rfl)
    exact Subtype.ext hv.symm
  · obtain ⟨⟨-, hv⟩, -, -⟩ := hwritten (TransportParams.written_of_set hset rfl)
    exact PreferredAddress.bytes_inj hv.symm

structure Encodable (params : TransportParams) (isServer : Bool) : Prop where
  sendable : ∀ t, params.set t = true → params.Sendable isServer t
  delay : params.set .minAckDelay = true →
    params.numeric .minAckDelay ≤ params.numeric .maxAckDelay * 1000
  delay02 : params.set .minAckDelay02 = true →
    params.numeric .minAckDelay02 ≤ params.numeric .maxAckDelay * 1000

theorem Encodable.inRange (h : Encodable params isServer) :
    ¬ (Tpi.all.any fun t => t.kind == .numeric && params.written t && !params.inRange t) =
      true := by
  rw [List.any_eq_true]
  rintro ⟨t, -, ht⟩
  simp only [Bool.and_eq_true, beq_iff_eq] at ht
  obtain ⟨⟨hk, hw⟩, hr⟩ := ht
  obtain ⟨hlo, hhi⟩ := (h.sendable t (TransportParams.set_of_written hw)).2 hk
  simp [TransportParams.inRange, hlo, hhi] at hr

theorem RoundTrip.delaysOk (h : RoundTrip params out) (hdef : t.hasDef = false)
    (hk : t.kind = .numeric)
    (hd : params.set t = true → params.numeric t ≤ params.numeric .maxAckDelay * 1000) :
    out.delaysOk t = true := by
  rw [TransportParams.delaysOk_iff]
  intro hset
  rw [h.set, hdef, Bool.or_false] at hset
  rw [h.numerics t hk, h.numerics .maxAckDelay rfl]
  exact hd hset

theorem Encodable.decodes (h : Encodable params isServer) (hnodup : ts.Nodup)
    (hts : ∀ t, t ∈ ts ↔ params.written t = true) (junk : Tpi → Nat × Nat × Nat) :
    ∃ out, tpDecode (ts.flatMap (params.bytesOf isServer junk)) isServer = .ok out ∧
      RoundTrip params out := by
  have hok (t : Tpi) (ht : params.written t = true) : params.Sendable isServer t :=
    h.sendable t (TransportParams.set_of_written ht)
  have hokTs (t : Tpi) (ht : t ∈ ts) : params.Sendable isServer t := hok t ((hts t).mp ht)
  obtain ⟨out, htrace⟩ := @TransportParams.exists_trace _ _ _ (fun _ => false) .initializer
    hnodup (fun _ _ => rfl) hokTs
  have hround := htrace.roundTrip hts hok
  have hloop := decodeLoop_of_trace htrace (Nat.lt_succ_self _)
  rw [@TransportParams.wire_entries _ _ _ junk fun t ht => (hokTs t ht).1] at hloop
  refine ⟨out, ?_, hround⟩
  rw [tpDecode, hloop, Except.ok_bind, hround.delaysOk rfl rfl h.delay,
    hround.delaysOk rfl rfl h.delay02]
  rfl

theorem Encodable.need_le (h : Encodable params isServer) (junk : Tpi → Nat × Nat × Nat) :
    ((Tpi.all.filter params.written).map (params.need isServer junk)).sum < 2048 := by
  have hsum := List.sum_le_card_nsmul ((Tpi.all.filter params.written).map
      (params.need isServer junk))
    80 (by
      intro n hn
      obtain ⟨t, ht, rfl⟩ := List.mem_map.mp hn
      have hset := TransportParams.set_of_written (List.mem_filter.mp ht).2
      exact TransportParams.need_le (h.sendable t hset).1)
  have hlen : (Tpi.all.filter params.written).length ≤ 23 := List.length_filter_le _ _
  rw [List.length_map, nsmul_eq_mul, Nat.cast_id] at hsum
  omega

theorem Encodable.written_length (h : Encodable params isServer) {junk : Tpi → Nat × Nat × Nat}
    (hts : ∀ t ∈ ts, params.written t = true) :
    (ts.flatMap (params.bytesOf isServer junk)).length
      = (ts.map (params.need isServer junk)).sum := by
  rw [List.length_flatMap]
  congr 1
  apply List.map_congr_left
  intro t ht
  have hset := TransportParams.set_of_written (hts t ht)
  exact (TransportParams.need_eq (h.sendable t hset).1).symm

/-- For every order and every size of the buffer. -/
theorem tpEncode_decode (order : List Tpi) (horder : order.Perm Tpi.all) (params : TransportParams)
    (isServer : Bool) (junk : Tpi → Nat × Nat × Nat) (bufsz : Nat)
    (h : Encodable params isServer) :
    match tpEncode order params isServer junk bufsz with
    | none => bufsz < 2048
    | some bs => bs.length ≤ bufsz ∧
        ∃ out, tpDecode bs isServer = .ok out ∧ RoundTrip params out := by
  have hlt := h.need_le junk
  have hperm := (horder.filter params.written).map (params.need isServer junk)
  rw [tpEncode, if_neg h.inRange]
  simp only
  split
  next hsmall =>
    split at hsmall
    · omega
    · cases hsmall
  next bs hbs =>
    split at hbs
    · cases hbs
    next hfits =>
      cases hbs
      constructor
      · rw [h.written_length (fun t ht => (List.mem_filter.mp ht).2), hperm.sum_eq]
        omega
      · apply h.decodes (horder.nodup_iff.mpr Tpi.all_nodup |>.filter _)
        intro t
        rw [List.mem_filter]
        exact ⟨fun ht => ht.2, fun ht => ⟨horder.mem_iff.mpr t.mem_all, ht⟩⟩

def serverParams : TransportParams :=
  { TransportParams.initializer with
    set := fun t => t.hasDef || t == .minAckDelay || t == .preferredAddress || t == .greaseQuicBit
    numerics := fun t => if t = .maxAckDelay then 30 else if t = .minAckDelay then 1000
      else t.defVal }

theorem tpEncode_decode_server :
    ∃ bs out, tpEncode Tpi.all.reverse serverParams true (fun _ => (7, 7, 7)) 2048 = some bs ∧
      tpDecode bs true = .ok out ∧ RoundTrip serverParams out := by
  have hsend (t : Tpi) (ht : serverParams.set t = true) : serverParams.Sendable true t := by
    refine ⟨fun _ => rfl, fun hk => ?_⟩
    cases t <;> first | cases hk; done | cases ht; done | decide
  have h := tpEncode_decode Tpi.all.reverse (List.reverse_perm _) serverParams true
    (fun _ => (7, 7, 7)) 2048 ⟨hsend, fun _ => by decide, fun _ => by decide⟩
  cases henc : tpEncode Tpi.all.reverse serverParams true (fun _ => (7, 7, 7)) 2048 with
  | none =>
    rw [henc] at h
    exact absurd h (Nat.lt_irrefl _)
  | some bs =>
    rw [henc] at h
    obtain ⟨-, out, hout⟩ := h
    exact ⟨bs, out, rfl, hout⟩

end

end QuicArt
