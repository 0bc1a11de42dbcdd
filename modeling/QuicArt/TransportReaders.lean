import QuicArt.TransportParams

namespace QuicArt

def Safe (r : TpRead α) : Prop := ∀ e, r = .error e → e = .invalid

section
variable {α β : Type} {x : TpRead α} {f : α → TpRead β}

theorem Safe.ok (a : α) : Safe (.ok a) := by
  intro e h
  cases h

theorem Safe.invalid : Safe (.error .invalid : TpRead α) := by
  intro e h
  cases h
  rfl

theorem Safe.bind (hx : Safe x) (hf : ∀ a, x = .ok a → Safe (f a)) : Safe (x >>= f) := by
  cases x with
  | error e =>
    intro e' h
    injection h with h
    rw [← h]
    exact hx e rfl
  | ok a => exact hf a rfl

theorem Safe.ite {c : Prop} [Decidable c] {x y : TpRead α} (hx : c → Safe x) (hy : ¬ c → Safe y) :
    Safe (if c then x else y) := by
  split
  next h => exact hx h
  next h => exact hy h

theorem Safe.guard {c : Prop} [Decidable c] {x : TpRead α} (hx : ¬ c → Safe x) :
    Safe (if c then .error .invalid else x) :=
  Safe.ite (fun _ => Safe.invalid) hx

def TpRead.ofOption : Option α → TpRead α
  | none => .error .invalid
  | some a => .ok a

theorem TpRead.ofOption_bind (x : Option α) (f : α → Option β) :
    TpRead.ofOption (x.bind f) = (TpRead.ofOption x >>= fun a => TpRead.ofOption (f a)) := by
  cases x <;> rfl

theorem TpRead.ofOption_map (x : Option α) (f : α → β) :
    TpRead.ofOption (x.map f) = (TpRead.ofOption x >>= fun a => .ok (f a)) := by
  cases x <;> rfl

theorem TpRead.ofOption_eq_ok {x : Option α} : TpRead.ofOption x = .ok a ↔ x = some a := by
  cases x <;> simp [TpRead.ofOption]

theorem TpRead.none_bind (f : α → TpRead β) :
    (TpRead.ofOption none >>= f) = .error .invalid :=
  rfl

theorem TpRead.bind_invalid (x : Option α) :
    (TpRead.ofOption x >>= fun _ => .error .invalid : TpRead β) = .error .invalid := by
  cases x <;> rfl

theorem TpRead.bind_congr {x : Option α} {f g : α → TpRead β} (h : ∀ a, x = some a → f a = g a) :
    (TpRead.ofOption x >>= f) = (TpRead.ofOption x >>= g) := by
  cases x with
  | none => rfl
  | some a => exact h a rfl

theorem Safe.ofOption (x : Option α) : Safe (TpRead.ofOption x) := by
  cases x with
  | none => exact Safe.invalid
  | some a => exact Safe.ok a

end

section
variable {mem : List UInt8} {off n i room : Nat}

theorem byteAt_eq (h : i < mem.length) : byteAt mem i = .ok mem[i] := by
  rw [byteAt, List.getElem?_eq_getElem h]

theorem bytesAt_eq (h : off + n ≤ mem.length) (l : List UInt8) (hl : l = (mem.drop off).take n) :
    ∃ hlen, bytesAt mem off n = .ok ⟨l, hlen⟩ := by
  subst hl
  rw [bytesAt, dif_pos h]
  exact ⟨_, rfl⟩

theorem Safe.byteAt (h : i < mem.length) : Safe (byteAt mem i) := by
  rw [byteAt_eq h]
  exact Safe.ok _

theorem Safe.bytesAt (h : off + n ≤ mem.length) : Safe (bytesAt mem off n) := by
  rw [QuicArt.bytesAt, dif_pos h]
  exact Safe.ok _

end

theorem decodeVarint_split {xs : List UInt8} (h : decodeVarint xs = some (v, rest)) :
    ∃ ys, xs = ys ++ rest ∧ decodeVarint ys = some (v, []) ∧ 0 < ys.length := by
  obtain ⟨b, bs, rfl, hle, rfl, rfl⟩ := decodeVarint_eq_some h
  refine ⟨b :: bs.take (varintSize b - 1), ?_, ?_, ?_⟩
  · rw [List.cons_append, List.take_append_drop]
  · rw [decodeVarint, List.length_take, if_neg (by omega), List.take_take, Nat.min_self,
      List.drop_eq_nil_of_le (by rw [List.length_take]; omega)]
  · exact Nat.succ_pos _

theorem decodeVarint_length {xs : List UInt8} (h : decodeVarint xs = some (v, [])) :
    xs.length = 1 ∨ xs.length = 2 ∨ xs.length = 4 ∨ xs.length = 8 := by
  obtain ⟨b, bs, rfl, hle, -, hnil⟩ := decodeVarint_eq_some h
  have hlen := List.drop_eq_nil_iff.mp hnil.symm
  rw [List.length_cons]
  rcases varintSize_cases b with ⟨-, hs⟩ | ⟨-, hs⟩ | ⟨-, hs⟩ | ⟨-, hs⟩ <;> omega

theorem Except.ok_bind {ε α β : Type} (a : α) (f : α → Except ε β) :
    ((.ok a : Except ε α) >>= f) = f a := rfl

theorem varintValue_four (b c d e : UInt8) :
    (b.toNat &&& 63) <<< 24 ||| c.toNat <<< 16 ||| d.toNat <<< 8 ||| e.toNat <<< 0
      = varintValue [b, c, d, e] := by
  have hc := VarintReadState.or_shift (b.toNat % 64) c 16
  have hd := VarintReadState.or_shift (b.toNat % 64 * 256 + c.toNat) d 8
  have he := VarintReadState.or_shift ((b.toNat % 64 * 256 + c.toNat) * 256 + d.toNat) e 0
  rw [Nat.and_two_pow_sub_one_eq_mod _ 6, Nat.shiftLeft_eq _ 24, hc, hd, he, pow_zero, mul_one]
  rfl

theorem varintValue_two (b c : UInt8) :
    (b.toNat &&& 63) <<< 8 ||| c.toNat = varintValue [b, c] := by
  have hc := VarintReadState.or_shift (b.toNat % 64) c 0
  rw [Nat.shiftLeft_zero, pow_zero, mul_one] at hc
  rw [Nat.and_two_pow_sub_one_eq_mod _ 6, Nat.shiftLeft_eq _ 8, hc]
  rfl

theorem take_three {l : List α} (h : 3 ≤ l.length) : ∃ c d e rest, l = c :: d :: e :: rest := by
  match l, h with
  | c :: d :: e :: rest, _ => exact ⟨c, d, e, rest, rfl⟩

theorem varintRead_cons {b : UInt8} {bs : List UInt8} {k : Nat} (hk : k ≤ bs.length) :
    varintRead (b :: bs) (k + 1) = if k + 1 < varintSize b then .error .invalid
      else .ok (varintValue (b :: bs.take (varintSize b - 1)), varintSize b) := by
  have hb : byteAt (b :: bs) 0 = .ok b := rfl
  have hshift : b.toNat >>> 6 = b.toNat / 64 := Nat.shiftRight_eq_div_pow _ 6
  rw [varintRead, if_neg (Nat.succ_ne_zero k), hb, Except.ok_bind, hshift]
  rcases varintSize_cases b with ⟨hq, hs⟩ | ⟨hq, hs⟩ | ⟨hq, hs⟩ | ⟨hq, hs⟩ <;>
    simp only [hq, hs]
  · have hv : varintValue [b] = b.toNat := by
      rw [varintValue, List.foldl_nil]
      omega
    rw [if_neg (by omega), Nat.sub_self, List.take_zero, hv]
  · by_cases hroom : k + 1 ≤ 1
    · rw [if_pos hroom, if_pos (by omega)]
    · obtain ⟨c, cs, rfl⟩ := List.exists_cons_of_length_pos (l := bs) (by omega)
      have hc : byteAt (b :: c :: cs) 1 = .ok c := rfl
      rw [if_neg hroom, if_neg (by omega), hc, Except.ok_bind, varintValue_two]
      rfl
  · by_cases hroom : k + 1 ≤ 3
    · rw [if_pos hroom, if_pos (by omega)]
    · obtain ⟨c, d, e, cs, rfl⟩ := take_three (l := bs) (by omega)
      have hc : byteAt (b :: c :: d :: e :: cs) 1 = .ok c := rfl
      have hd : byteAt (b :: c :: d :: e :: cs) 2 = .ok d := rfl
      have he : byteAt (b :: c :: d :: e :: cs) 3 = .ok e := rfl
      rw [if_neg hroom, if_neg (by omega), hc, Except.ok_bind, hd, Except.ok_bind, he,
        Except.ok_bind, varintValue_four]
      rfl
  · by_cases hroom : k + 1 ≤ 7
    · rw [if_pos hroom, if_pos (by omega)]
    · have hl : b :: bs.take 7 = ((b :: bs).drop 0).take 8 := rfl
      have hseven : (bs.take 7).length = 7 := by rw [List.length_take]; omega
      obtain ⟨_, hbytes⟩ := bytesAt_eq (by rw [List.length_cons]; omega) _ hl
      rw [if_neg hroom, if_neg (by omega), hbytes, Except.ok_bind,
        VarintReadState.mask_eight hq hseven]

theorem varintRead_eq {mem : List UInt8} {room : Nat} (h : room ≤ mem.length) :
    varintRead mem room =
      TpRead.ofOption ((decodeVarint (mem.take room)).map fun r => (r.1, room - r.2.length)) := by
  cases room with
  | zero => rfl
  | succ k =>
    cases mem with
    | nil => exact absurd h (Nat.not_succ_le_zero k)
    | cons b bs =>
      have hk : k ≤ bs.length := Nat.le_of_succ_le_succ h
      have hpos : 0 < varintSize b := Nat.two_pow_pos _
      rw [varintRead_cons hk, List.take_succ_cons, decodeVarint, List.length_take_of_le hk]
      split
      next => rfl
      next hs =>
        have hn : k + 1 - (k - (varintSize b - 1)) = varintSize b := by omega
        rw [Option.map_some, List.length_drop, List.length_take_of_le hk, hn, List.take_take,
          Nat.min_eq_left (by omega), TpRead.ofOption]

section
variable {mem ys zs : List UInt8} {room off n len : Nat}

theorem Safe.varintRead (h : room ≤ mem.length) : Safe (varintRead mem room) := by
  rw [varintRead_eq h]
  exact Safe.ofOption _

theorem varintRead_ok {r : Nat × Nat} (h : room ≤ mem.length) (hr : varintRead mem room = .ok r) :
    decodeVarint (mem.take r.2) = some (r.1, []) ∧ 0 < r.2 ∧ r.2 ≤ room := by
  rw [varintRead_eq h, TpRead.ofOption_eq_ok, Option.map_eq_some_iff] at hr
  obtain ⟨p, hp, rfl⟩ := hr
  obtain ⟨ys, hys, hd, hpos⟩ := decodeVarint_split hp
  have hlen := congrArg List.length hys
  rw [List.length_take, Nat.min_eq_left h, List.length_append] at hlen
  have hsub : room - p.2.length = ys.length := by omega
  have htake : mem.take ys.length = ys := by
    have hleft : (mem.take room).take ys.length = ys := by rw [hys, List.take_left' rfl]
    rwa [List.take_take, Nat.min_eq_left (by omega)] at hleft
  simp only [hsub, htake]
  exact ⟨hd, hpos, by omega⟩

theorem varintRead_append (hd : decodeVarint ys = some (v, [])) (hys : ys.length ≤ room)
    (hroom : room ≤ (ys ++ zs).length) : varintRead (ys ++ zs) room = .ok (v, ys.length) := by
  have htake : (ys ++ zs).take room = ys ++ zs.take (room - ys.length) := by
    rw [List.take_append, List.take_of_length_le hys]
  have hlen : (zs.take (room - ys.length)).length = room - ys.length := by
    rw [List.length_append] at hroom
    rw [List.length_take]
    omega
  rw [varintRead_eq hroom, htake, VarintReadState.decodeVarint_append hd, Option.map_some,
    List.nil_append, hlen, Nat.sub_sub_self hys, TpRead.ofOption]

theorem bytesAt_iff {bs : ByteArr n} (h : off + n ≤ mem.length) :
    bytesAt mem off n = .ok bs ↔ (mem.drop off).take n = bs.1 := by
  rw [bytesAt, dif_pos h]
  constructor
  · intro hb
    cases hb
    rfl
  · intro hb
    rw [Except.ok.injEq, Subtype.ext_iff]
    exact hb

theorem cidAt_iff {cid : Cid} (h : off + n ≤ mem.length) :
    cidAt mem off n = .ok cid ↔ (mem.drop off).take n = cid.1 := by
  have hlen : ((mem.drop off).take n).length = n := by
    rw [List.length_take, List.length_drop]
    omega
  rw [cidAt]
  split
  next hn =>
    rw [Except.bind_eq_ok]
    constructor
    · rintro ⟨bs, hbs, hcid⟩
      cases hcid
      exact (bytesAt_iff h).mp hbs
    · intro hcid
      have hbs := (@bytesAt_iff _ _ _ ⟨cid.1, by rw [← hcid]; exact hlen⟩ h).mpr hcid
      exact ⟨_, hbs, rfl⟩
  next hn =>
    constructor
    · intro hcid
      cases hcid
    · intro hcid
      have hle := cid.2
      rw [← hcid, hlen] at hle
      exact absurd hle hn

theorem Safe.cidAt (h : off + n ≤ mem.length) : Safe (cidAt mem off n) := by
  rw [QuicArt.cidAt]
  split
  · exact (Safe.bytesAt h).bind fun _ _ => Safe.ok _
  · exact Safe.invalid

/-- The value fills its length and is in the bounds of the parameter. -/
theorem decodeNumeric_iff {t : Tpi} (h : len ≤ mem.length) :
    decodeNumeric mem len t = .ok v ↔
      decodeVarint (mem.take len) = some (v, []) ∧ t.minVal ≤ v ∧ v ≤ t.maxVal := by
  have hlen : (mem.take len).length = len := by rw [List.length_take, Nat.min_eq_left h]
  constructor
  · intro hn
    rw [decodeNumeric] at hn
    split at hn
    · obtain ⟨r, hr, hn⟩ := Except.bind_eq_ok.mp hn
      obtain ⟨hd, -, -⟩ := varintRead_ok h hr
      split at hn
      next hfill =>
        split at hn
        · cases hn
        next hmax =>
          split at hn
          · cases hn
          next hmin =>
            cases hn
            rw [hfill] at hd
            exact ⟨hd, Nat.not_lt.mp hmin, Nat.not_lt.mp hmax⟩
      · cases hn
    · cases hn
  · rintro ⟨hd, hmin, hmax⟩
    have hsizes := decodeVarint_length hd
    have hread := @varintRead_append _ (mem.drop len) len _ hd (Nat.le_of_eq hlen)
      (by rw [List.take_append_drop]; exact h)
    rw [List.take_append_drop, hlen] at hread
    rw [hlen] at hsizes
    rw [decodeNumeric, if_pos hsizes, hread, Except.ok_bind, if_pos rfl,
      if_neg (Nat.not_lt.mpr hmax), if_neg (Nat.not_lt.mpr hmin)]

theorem Safe.decodeNumeric {t : Tpi} (h : len ≤ mem.length) : Safe (decodeNumeric mem len t) := by
  rw [QuicArt.decodeNumeric]
  refine Safe.ite (fun _ => (Safe.varintRead h).bind fun r _ => ?_) fun _ => Safe.invalid
  refine Safe.ite (fun _ => ?_) fun _ => Safe.invalid
  exact Safe.guard fun _ => Safe.guard fun _ => Safe.ok _

theorem bigEndian_two (b c : UInt8) : bigEndian [b, c] = b.toNat * 256 + c.toNat := by
  rw [bigEndian, List.foldl_cons, List.foldl_cons, List.foldl_nil, Nat.zero_mul, Nat.zero_add]

theorem bytesBE_two (x : Nat) : bytesBE x 2 = [.ofNat (x / 256), .ofNat x] := by
  simp [bytesBE, List.range_succ, Nat.shiftRight_eq_div_pow]

theorem portAt_iff {port : UInt16} (h : off + 2 ≤ mem.length) :
    portAt mem off = .ok port ↔ (mem.drop off).take 2 = bytesBE port.toNat 2 := by
  have hlen : ((mem.drop off).take 2).length = 2 := by
    rw [List.length_take, List.length_drop]
    omega
  obtain ⟨b, c, hbc⟩ := List.length_eq_two.mp hlen
  have hb := b.toNat_lt
  have hc := c.toNat_lt
  have hread : bytesAt mem off 2 = .ok ⟨[b, c], rfl⟩ := (bytesAt_iff h).mpr hbc
  have hlt : b.toNat * 256 + c.toNat < 2 ^ 16 := by omega
  rw [portAt, hread, Except.ok_bind, hbc, bigEndian_two, bytesBE_two, Except.ok.injEq]
  constructor
  · rintro rfl
    rw [UInt16.toNat_ofNat_of_lt' hlt]
    have hdiv : (b.toNat * 256 + c.toNat) / 256 = b.toNat := by omega
    rw [hdiv, UInt8.ofNat_toNat]
    congr 2
    rw [← UInt8.toNat_inj, UInt8.toNat_ofNat']
    omega
  · intro heq
    have hport := port.toNat_lt
    obtain ⟨rfl, htail⟩ := List.cons.inj heq
    obtain ⟨rfl, -⟩ := List.cons.inj htail
    rw [← UInt16.toNat_inj, UInt16.toNat_ofNat_of_lt' hlt, UInt8.toNat_ofNat', UInt8.toNat_ofNat']
    omega

theorem Safe.portAt (h : off + 2 ≤ mem.length) : Safe (portAt mem off) :=
  (Safe.bytesAt h).bind fun _ _ => Safe.ok _

theorem byteAt_iff {b : UInt8} (h : off + 1 ≤ mem.length) :
    byteAt mem off = .ok b ↔ (mem.drop off).take 1 = [b] := by
  rw [byteAt_eq h, List.drop_eq_getElem_cons h, List.take_succ_cons, List.take_zero,
    Except.ok.injEq, List.cons.injEq]
  exact (and_iff_left rfl).symm

theorem expectAtLeast_iff {left : Nat} : expectAtLeast n left = .ok () ↔ n ≤ left := by
  rw [expectAtLeast]
  split
  next h =>
    constructor
    · intro hok
      cases hok
    · intro hle
      omega
  next h => exact ⟨fun _ => Nat.not_lt.mp h, fun _ => rfl⟩

theorem Safe.expectAtLeast {left : Nat} : Safe (expectAtLeast n left) := by
  rw [QuicArt.expectAtLeast]
  exact Safe.guard fun _ => Safe.ok _

theorem Safe.expect {f : Unit → TpRead α} {left : Nat} (hf : n ≤ left → Safe (f ())) :
    Safe (QuicArt.expectAtLeast n left >>= f) :=
  Safe.expectAtLeast.bind fun _ h => hf (expectAtLeast_iff.mp h)

theorem part_of_take (h : off + n ≤ len) :
    ((mem.take len).drop off).take n = (mem.drop off).take n := by
  rw [List.drop_take, List.take_take, Nat.min_eq_left (by omega)]

theorem take_append_part {part : List UInt8} (h : (mem.drop off).take n = part) :
    mem.take off ++ part = mem.take (off + n) := by
  rw [List.take_add, h]

theorem drop_part {l part rest : List UInt8} (h : l.drop off = part ++ rest)
    (hn : part.length = n) : (l.drop off).take n = part ∧ l.drop (off + n) = rest := by
  rw [← List.drop_drop, h, List.take_left' hn, List.drop_left' hn]
  exact ⟨rfl, rfl⟩

theorem PreferredAddress.bytes_parts (a : PreferredAddress) :
    (a.bytes.drop 0).take 4 = a.ipv4Addr.1 ∧
    (a.bytes.drop 4).take 2 = bytesBE a.ipv4Port.toNat 2 ∧
    (a.bytes.drop 6).take 16 = a.ipv6Addr.1 ∧
    (a.bytes.drop 22).take 2 = bytesBE a.ipv6Port.toNat 2 ∧
    (a.bytes.drop 24).take 1 = [.ofNat a.cid.1.length] ∧
    (a.bytes.drop 25).take a.cid.1.length = a.cid.1 ∧
    (a.bytes.drop (25 + a.cid.1.length)).take sresetTokenSz = a.srst.1 := by
  have h0 : a.bytes.drop 0 = a.ipv4Addr.1 ++ (bytesBE a.ipv4Port.toNat 2 ++ (a.ipv6Addr.1 ++
      (bytesBE a.ipv6Port.toNat 2 ++ ([.ofNat a.cid.1.length] ++
        (a.cid.1 ++ (a.srst.1 ++ [])))))) := by
    simp only [bytes, List.drop_zero, List.append_assoc, List.append_nil]
  obtain ⟨ht0, h4⟩ := drop_part h0 a.ipv4Addr.2
  obtain ⟨ht4, h6⟩ := drop_part h4 (by rw [bytesBE_two])
  obtain ⟨ht6, h22⟩ := drop_part h6 a.ipv6Addr.2
  obtain ⟨ht22, h24⟩ := drop_part h22 (by rw [bytesBE_two])
  obtain ⟨ht24, h25⟩ := drop_part h24 rfl
  obtain ⟨ht25, hend⟩ := drop_part h25 rfl
  exact ⟨ht0, ht4, ht6, ht22, ht24, ht25, (drop_part hend a.srst.2).1⟩

theorem PreferredAddress.bytes_length (a : PreferredAddress) : a.bytes.length = a.size := by
  have h4 := a.ipv4Addr.2
  have h16 := a.ipv6Addr.2
  have hsrst := a.srst.2
  simp only [bytes, size, bytesBE_two, List.length_append, h4, h16, hsrst, List.length_cons,
    List.length_nil]

theorem decodeAddress_ok {a : PreferredAddress} (h : len ≤ mem.length)
    (ha : decodeAddress mem len = .ok a) : mem.take len = a.bytes := by
  rw [decodeAddress] at ha
  obtain ⟨_, h4, ha⟩ := Except.bind_eq_ok.mp ha
  obtain ⟨ipv4Addr, hip4, ha⟩ := Except.bind_eq_ok.mp ha
  obtain ⟨_, h6, ha⟩ := Except.bind_eq_ok.mp ha
  obtain ⟨ipv4Port, hport4, ha⟩ := Except.bind_eq_ok.mp ha
  obtain ⟨_, h22, ha⟩ := Except.bind_eq_ok.mp ha
  obtain ⟨ipv6Addr, hip6, ha⟩ := Except.bind_eq_ok.mp ha
  obtain ⟨_, h24, ha⟩ := Except.bind_eq_ok.mp ha
  obtain ⟨ipv6Port, hport6, ha⟩ := Except.bind_eq_ok.mp ha
  obtain ⟨_, h25, ha⟩ := Except.bind_eq_ok.mp ha
  obtain ⟨tlen, htlen, ha⟩ := Except.bind_eq_ok.mp ha
  split at ha
  · cases ha
  next hcidLen =>
    obtain ⟨_, hc, ha⟩ := Except.bind_eq_ok.mp ha
    obtain ⟨cid, hcid, ha⟩ := Except.bind_eq_ok.mp ha
    obtain ⟨_, hs, ha⟩ := Except.bind_eq_ok.mp ha
    obtain ⟨srst, hsrst, ha⟩ := Except.bind_eq_ok.mp ha
    split at ha
    · cases ha
    next hend =>
      have hcidLen : 25 + tlen.toNat + sresetTokenSz = len := by omega
      rw [expectAtLeast_iff] at h4 h6 h22 h24 h25 hc hs
      have p4 := take_append_part ((bytesAt_iff (by omega)).mp hip4)
      have p6 := take_append_part ((portAt_iff (by omega)).mp hport4)
      have p22 := take_append_part ((bytesAt_iff (by omega)).mp hip6)
      have p24 := take_append_part ((portAt_iff (by omega)).mp hport6)
      have p25 := take_append_part ((byteAt_iff (by omega)).mp htlen)
      have pc := take_append_part ((cidAt_iff (by omega)).mp hcid)
      have ps := take_append_part ((bytesAt_iff (by omega)).mp hsrst)
      have hlen : cid.1.length = tlen.toNat := by
        rw [← (cidAt_iff (by omega)).mp hcid, List.length_take, List.length_drop]
        omega
      cases ha
      rw [PreferredAddress.bytes]
      simp only [hlen, UInt8.ofNat_toNat]
      rw [List.take_zero, List.nil_append] at p4
      rw [p4, p6, p22, p24, p25, pc, ps, hcidLen]

theorem decodeAddress_of_bytes {a : PreferredAddress} (h : len ≤ mem.length)
    (ha : mem.take len = a.bytes) : decodeAddress mem len = .ok a := by
  have hsize : len = a.size := by
    rw [← a.bytes_length, ← ha, List.length_take, Nat.min_eq_left h]
  have hcidLe : a.cid.1.length ≤ 20 := a.cid.2
  rw [PreferredAddress.size] at hsize
  obtain ⟨p0, p4, p6, p22, p24, p25, ps⟩ := a.bytes_parts
  rw [← ha, part_of_take (by omega)] at p0 p4 p6 p22 p24 p25 ps
  have htlen : (UInt8.ofNat a.cid.1.length).toNat = a.cid.1.length :=
    UInt8.toNat_ofNat_of_lt' (Nat.lt_of_le_of_lt hcidLe (by decide))
  have hexpect {n left : Nat} (hle : n ≤ left) : expectAtLeast n left = .ok () :=
    expectAtLeast_iff.mpr hle
  rw [decodeAddress, hexpect (by omega), Except.ok_bind, (bytesAt_iff (by omega)).mpr p0,
    Except.ok_bind, hexpect (by omega), Except.ok_bind, (portAt_iff (by omega)).mpr p4,
    Except.ok_bind, hexpect (by omega), Except.ok_bind, (bytesAt_iff (by omega)).mpr p6,
    Except.ok_bind, hexpect (by omega), Except.ok_bind, (portAt_iff (by omega)).mpr p22,
    Except.ok_bind, hexpect (by omega), Except.ok_bind, (byteAt_iff (by omega)).mpr p24,
    Except.ok_bind, htlen, if_neg (Nat.not_lt.mpr a.cid.2), hexpect (by omega), Except.ok_bind,
    (cidAt_iff (by omega)).mpr p25, Except.ok_bind, hexpect (by omega), Except.ok_bind,
    (bytesAt_iff (by omega)).mpr ps, Except.ok_bind, if_neg (by omega)]

theorem Safe.decodeAddress (h : len ≤ mem.length) : Safe (decodeAddress mem len) := by
  rw [QuicArt.decodeAddress]
  refine Safe.expect fun _ => (Safe.bytesAt (by omega)).bind fun _ _ => ?_
  refine Safe.expect fun _ => (Safe.portAt (by omega)).bind fun _ _ => ?_
  refine Safe.expect fun _ => (Safe.bytesAt (by omega)).bind fun _ _ => ?_
  refine Safe.expect fun _ => (Safe.portAt (by omega)).bind fun _ _ => ?_
  refine Safe.expect fun _ => (Safe.byteAt (by omega)).bind fun tlen _ => ?_
  refine Safe.guard fun _ => ?_
  refine Safe.expect fun _ => (Safe.cidAt (by omega)).bind fun _ _ => ?_
  refine Safe.expect fun _ => (Safe.bytesAt (by omega)).bind fun _ _ => ?_
  exact Safe.guard fun _ => Safe.ok _

/-- What a recognised parameter must be, and what the decoder takes from it. -/
def Takes (isServer : Bool) (value : List UInt8) (t : Tpi) (params params' : TransportParams) :
    Prop :=
  (t.serverOnly = true → isServer = true) ∧
  match t.kind with
  | .numeric => ∃ v, decodeVarint value = some (v, []) ∧ t.minVal ≤ v ∧ v ≤ t.maxVal ∧
      params' = { params with numerics := update params.numerics t v }
  | .empty => value = [] ∧ params' = params
  | .token => ∃ token : ByteArr sresetTokenSz, value = token.1 ∧
      params' = { params with statelessResetToken := token }
  | .cid => ∃ cid : Cid, value = cid.1 ∧ params' = { params with cids := update params.cids t cid }
  | .address => ∃ a : PreferredAddress, value = a.bytes ∧
      params' = { params with preferredAddress := a }

theorem Takes.of_decodeValue {params params' : TransportParams} {t : Tpi} (h : len ≤ mem.length)
    (hv : decodeValue isServer mem len t params = .ok params') :
    Takes isServer (mem.take len) t params params' := by
  rw [decodeValue] at hv
  split at hv
  · cases hv
  next hside =>
    refine ⟨fun hs => by simpa [hs] using hside, ?_⟩
    cases hk : t.kind with
    | numeric =>
      rw [hk] at hv
      obtain ⟨v, hn, hv⟩ := Except.bind_eq_ok.mp hv
      obtain ⟨hd, hmin, hmax⟩ := (decodeNumeric_iff h).mp hn
      cases hv
      exact ⟨v, hd, hmin, hmax, rfl⟩
    | empty =>
      simp only [hk] at hv
      split at hv
      · cases hv
      next hlen =>
        cases hv
        rw [Decidable.not_not.mp hlen]
        exact ⟨rfl, rfl⟩
    | token =>
      simp only [hk] at hv
      split at hv
      · cases hv
      next hlen =>
        obtain rfl := Decidable.not_not.mp hlen
        obtain ⟨token, hn, hv⟩ := Except.bind_eq_ok.mp hv
        cases hv
        exact ⟨token, (bytesAt_iff (by omega)).mp hn, rfl⟩
    | cid =>
      rw [hk] at hv
      obtain ⟨cid, hn, hv⟩ := Except.bind_eq_ok.mp hv
      cases hv
      exact ⟨cid, (cidAt_iff (by omega)).mp hn, rfl⟩
    | address =>
      rw [hk] at hv
      obtain ⟨a, hn, hv⟩ := Except.bind_eq_ok.mp hv
      cases hv
      exact ⟨a, decodeAddress_ok h hn, rfl⟩

theorem Takes.decodeValue {params params' : TransportParams} {t : Tpi} (h : len ≤ mem.length)
    (ht : Takes isServer (mem.take len) t params params') :
    decodeValue isServer mem len t params = .ok params' := by
  obtain ⟨hside, hk⟩ := ht
  have hlen : (mem.take len).length = len := by rw [List.length_take, Nat.min_eq_left h]
  rw [QuicArt.decodeValue, if_neg (by cases ht : t.serverOnly <;> simp [hside, ht])]
  cases hkind : t.kind with
  | numeric =>
    rw [hkind] at hk
    obtain ⟨v, hd, hmin, hmax, rfl⟩ := hk
    simp only [(decodeNumeric_iff h).mpr ⟨hd, hmin, hmax⟩, Except.ok_bind]
  | empty =>
    rw [hkind] at hk
    obtain ⟨hnil, rfl⟩ := hk
    rw [hnil] at hlen
    simp [← hlen]
  | token =>
    rw [hkind] at hk
    obtain ⟨token, hv, rfl⟩ := hk
    obtain rfl : sresetTokenSz = len := by rw [← token.2, ← hv, hlen]
    simp only [ne_eq, not_true, if_false, (@bytesAt_iff _ 0 _ _ (by omega)).mpr hv, Except.ok_bind]
  | cid =>
    rw [hkind] at hk
    obtain ⟨cid, hv, rfl⟩ := hk
    simp only [(@cidAt_iff _ 0 _ _ (by omega)).mpr hv, Except.ok_bind]
  | address =>
    rw [hkind] at hk
    obtain ⟨a, hv, rfl⟩ := hk
    simp only [decodeAddress_of_bytes h hv, Except.ok_bind]

theorem Safe.decodeValue {params : TransportParams} {t : Tpi} (h : len ≤ mem.length) :
    Safe (decodeValue isServer mem len t params) := by
  rw [QuicArt.decodeValue]
  refine Safe.guard fun _ => ?_
  cases t.kind with
  | numeric => exact (Safe.decodeNumeric h).bind fun _ _ => Safe.ok _
  | empty => exact Safe.guard fun _ => Safe.ok _
  | token =>
    refine Safe.guard fun hlen => ?_
    obtain rfl := Decidable.not_not.mp hlen
    exact (Safe.bytesAt (by omega)).bind fun _ _ => Safe.ok _
  | cid => exact (Safe.cidAt (by omega)).bind fun _ _ => Safe.ok _
  | address => exact (Safe.decodeAddress h).bind fun _ _ => Safe.ok _

end

end QuicArt
