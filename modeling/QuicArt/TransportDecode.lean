import QuicArt.TransportReaders

namespace QuicArt

/-- A parameter on the wire: its ID, its length and its value. -/
structure TpEntry where
  id : Nat
  idBytes : List UInt8
  lenBytes : List UInt8
  value : List UInt8
  id_eq : decodeVarint idBytes = some (id, [])
  len_eq : decodeVarint lenBytes = some (value.length, [])

namespace TpEntry

def bytes (e : TpEntry) : List UInt8 := e.idBytes ++ (e.lenBytes ++ e.value)

def tpi (e : TpEntry) : Option Tpi := Tpi.ofVal e.id

def names (es : List TpEntry) : List Tpi := es.filterMap tpi

def wire (es : List TpEntry) : List UInt8 := es.flatMap bytes

theorem wire_cons (e : TpEntry) (es : List TpEntry) : wire (e :: es) = e.bytes ++ wire es :=
  List.flatMap_cons

theorem names_none (h : e.tpi = none) : names (e :: es) = names es := List.filterMap_cons_none h

theorem names_some (h : e.tpi = some t) : names (e :: es) = t :: names es :=
  List.filterMap_cons_some h

end TpEntry

inductive TpTrace (isServer : Bool) :
    List TpEntry → (Tpi → Bool) → TransportParams → TransportParams → Prop
  | done : TpTrace isServer [] ids params params
  | skip : e.tpi = none → TpTrace isServer es ids params out →
      TpTrace isServer (e :: es) ids params out
  | param : e.tpi = some t → ids t = false → Takes isServer e.value t params params' →
      TpTrace isServer es (update ids t true) (params'.mark t) out →
      TpTrace isServer (e :: es) ids params out

section
variable {isServer : Bool} {mem : List UInt8} {fuel : Nat} {ids : Tpi → Bool} {t t' : Tpi}
  {params params' out : TransportParams} {es : List TpEntry} {e : TpEntry}

theorem entry_of_reads {id len : Nat × Nat} (hid : varintRead mem mem.length = .ok id)
    (hlen : varintRead (mem.drop id.2) (mem.drop id.2).length = .ok len)
    (hle : len.1 ≤ ((mem.drop id.2).drop len.2).length) :
    ∃ e : TpEntry, e.id = id.1 ∧ e.value = ((mem.drop id.2).drop len.2).take len.1 ∧
      mem = e.bytes ++ ((mem.drop id.2).drop len.2).drop len.1 ∧ 0 < e.bytes.length := by
  obtain ⟨hid, hpos, hidLe⟩ := varintRead_ok le_rfl hid
  obtain ⟨hlen, -, -⟩ := varintRead_ok le_rfl hlen
  have hvalue : (((mem.drop id.2).drop len.2).take len.1).length = len.1 := by
    rw [List.length_take, Nat.min_eq_left hle]
  refine ⟨⟨id.1, mem.take id.2, (mem.drop id.2).take len.2,
    ((mem.drop id.2).drop len.2).take len.1, hid, by rw [hvalue]; exact hlen⟩, rfl, rfl, ?_, ?_⟩
  · rw [TpEntry.bytes, List.append_assoc, List.append_assoc, List.take_append_drop,
      List.take_append_drop, List.take_append_drop]
  · rw [TpEntry.bytes, List.length_append, List.length_take]
    omega

theorem rest_lt {rest bytes : List UInt8} (hmem : mem = bytes ++ rest) (hpos : 0 < bytes.length)
    (hfuel : mem.length < fuel + 1) : rest.length < fuel := by
  have hlen := congrArg List.length hmem
  rw [List.length_append] at hlen
  omega

/-- What is accepted is a sequence of entries, each of them valid when it was read. -/
theorem decodeLoop_spec (hfuel : mem.length < fuel) :
    Safe (decodeLoop isServer fuel mem ids params) ∧
    ∀ out, decodeLoop isServer fuel mem ids params = .ok out →
      ∃ es, TpEntry.wire es = mem ∧ TpTrace isServer es ids params out := by
  -- every iteration consumes at least the byte of the ID, so the fuel suffices
  induction fuel generalizing mem ids params with
  | zero => exact absurd hfuel (Nat.not_lt_zero _)
  | succ fuel ih =>
    rw [decodeLoop]
    split
    next hnil =>
      obtain rfl := List.length_eq_zero_iff.mp hnil
      refine ⟨Safe.ok _, fun out hout => ?_⟩
      cases hout
      exact ⟨[], rfl, .done⟩
    next hne =>
      constructor
      · refine (Safe.varintRead le_rfl).bind fun id hid => ?_
        refine (Safe.varintRead le_rfl).bind fun len hlen => ?_
        refine Safe.guard fun hle => ?_
        obtain ⟨e, -, -, hmem, hpos⟩ := entry_of_reads hid hlen (Nat.not_lt.mp hle)
        have hless := rest_lt hmem hpos hfuel
        split
        · exact (ih hless).1
        next t _ =>
          refine Safe.guard fun _ => ?_
          exact (Safe.decodeValue (Nat.not_lt.mp hle)).bind fun _ _ => (ih hless).1
      · intro out hout
        obtain ⟨id, hid, hout⟩ := Except.bind_eq_ok.mp hout
        obtain ⟨len, hlen, hout⟩ := Except.bind_eq_ok.mp hout
        dsimp only at hout
        split at hout
        · cases hout
        next hle =>
          obtain ⟨e, heid, hvalue, hmem, hpos⟩ := entry_of_reads hid hlen (Nat.not_lt.mp hle)
          have hless := rest_lt hmem hpos hfuel
          split at hout
          next hnone =>
            obtain ⟨es, hes, htrace⟩ := (ih hless).2 out hout
            refine ⟨e :: es, ?_, .skip (by rw [TpEntry.tpi, heid]; exact hnone) htrace⟩
            rw [TpEntry.wire_cons, hes, ← hmem]
          next t hsome =>
            split at hout
            · cases hout
            next hids =>
              obtain ⟨params', hv, hout⟩ := Except.bind_eq_ok.mp hout
              have htakes := Takes.of_decodeValue (Nat.not_lt.mp hle) hv
              obtain ⟨es, hes, htrace⟩ := (ih hless).2 out hout
              rw [← hvalue] at htakes
              refine ⟨e :: es, ?_, .param (by rw [TpEntry.tpi, heid]; exact hsome)
                (Bool.not_eq_true _ ▸ hids) htakes htrace⟩
              rw [TpEntry.wire_cons, hes, ← hmem]

structure SameAt (t : Tpi) (p q : TransportParams) : Prop where
  set : p.set t = q.set t
  decoded : p.decoded t = q.decoded t
  numerics : p.numerics t = q.numerics t
  cids : p.cids t = q.cids t
  token : t.kind = .token → p.statelessResetToken = q.statelessResetToken
  address : t.kind = .address → p.preferredAddress = q.preferredAddress

theorem SameAt.refl (t : Tpi) (p : TransportParams) : SameAt t p p :=
  ⟨rfl, rfl, rfl, rfl, fun _ => rfl, fun _ => rfl⟩

theorem SameAt.trans {p q r : TransportParams} (h : SameAt t p q) (h' : SameAt t q r) :
    SameAt t p r where
  set := h.set.trans h'.set
  decoded := h.decoded.trans h'.decoded
  numerics := h.numerics.trans h'.numerics
  cids := h.cids.trans h'.cids
  token hk := (h.token hk).trans (h'.token hk)
  address hk := (h.address hk).trans (h'.address hk)

theorem update_same {f : Tpi → α} {v : α} : update f t v t = v := if_pos rfl

theorem update_other {f : Tpi → α} {v : α} (h : t' ≠ t) : update f t v t' = f t' := if_neg h

theorem Tpi.eq_of_token (h : t.kind = .token) : t = .statelessResetToken := by
  cases t <;> first | rfl | cases h

theorem Tpi.eq_of_address (h : t.kind = .address) : t = .preferredAddress := by
  cases t <;> first | rfl | cases h

theorem Takes.sameAt (h : Takes isServer value t params params') (hne : t' ≠ t) :
    SameAt t' params (params'.mark t) := by
  have hset {f : Tpi → Bool} : f t' = update f t true t' := (update_other hne).symm
  obtain ⟨-, h⟩ := h
  cases hk : t.kind with
  | numeric =>
    rw [hk] at h
    obtain ⟨v, -, -, -, rfl⟩ := h
    exact ⟨hset, hset, (update_other hne).symm, rfl, fun _ => rfl, fun _ => rfl⟩
  | empty =>
    rw [hk] at h
    obtain ⟨-, rfl⟩ := h
    exact ⟨hset, hset, rfl, rfl, fun _ => rfl, fun _ => rfl⟩
  | token =>
    rw [hk] at h
    obtain ⟨token, -, rfl⟩ := h
    refine ⟨hset, hset, rfl, rfl, fun hk' => ?_, fun _ => rfl⟩
    exact absurd ((Tpi.eq_of_token hk').trans (Tpi.eq_of_token hk).symm) hne
  | cid =>
    rw [hk] at h
    obtain ⟨cid, -, rfl⟩ := h
    exact ⟨hset, hset, rfl, (update_other hne).symm, fun _ => rfl, fun _ => rfl⟩
  | address =>
    rw [hk] at h
    obtain ⟨a, -, rfl⟩ := h
    refine ⟨hset, hset, rfl, rfl, fun _ => rfl, fun hk' => ?_⟩
    exact absurd ((Tpi.eq_of_address hk').trans (Tpi.eq_of_address hk).symm) hne

/-- The value on the wire is one that the protocol allows, and it is the one in the result. -/
def Valid (isServer : Bool) (value : List UInt8) (t : Tpi) (params : TransportParams) : Prop :=
  (t.serverOnly = true → isServer = true) ∧
  match t.kind with
  | .numeric => decodeVarint value = some (params.numerics t, []) ∧
      t.minVal ≤ params.numerics t ∧ params.numerics t ≤ t.maxVal
  | .empty => value = []
  | .token => value = params.statelessResetToken.1
  | .cid => value = (params.cids t).1
  | .address => value = params.preferredAddress.bytes

theorem Takes.valid (h : Takes isServer value t params params') :
    Valid isServer value t params' := by
  obtain ⟨hside, h⟩ := h
  refine ⟨hside, ?_⟩
  cases hk : t.kind with
  | numeric =>
    rw [hk] at h
    obtain ⟨v, hd, hmin, hmax, rfl⟩ := h
    simp only [update_same]
    exact ⟨hd, hmin, hmax⟩
  | empty =>
    rw [hk] at h
    exact h.1
  | token =>
    rw [hk] at h
    obtain ⟨token, hv, rfl⟩ := h
    exact hv
  | cid =>
    rw [hk] at h
    obtain ⟨cid, hv, rfl⟩ := h
    simp only [update_same]
    exact hv
  | address =>
    rw [hk] at h
    obtain ⟨a, hv, rfl⟩ := h
    exact hv

theorem Valid.mark (h : Valid isServer value t params) : Valid isServer value t
    (params.mark t') := h

theorem Valid.congr {p q : TransportParams} (h : Valid isServer value t p) (hs : SameAt t p q) :
    Valid isServer value t q := by
  obtain ⟨hside, h⟩ := h
  refine ⟨hside, ?_⟩
  cases hk : t.kind with
  | numeric =>
    rw [hk] at h
    rw [← hs.numerics]
    exact h
  | empty =>
    rw [hk] at h
    exact h
  | token =>
    rw [hk] at h
    rw [← hs.token hk]
    exact h
  | cid =>
    rw [hk] at h
    rw [← hs.cids]
    exact h
  | address =>
    rw [hk] at h
    rw [← hs.address hk]
    exact h

section
variable (h : TpTrace isServer es ids params out)
include h

theorem TpTrace.fresh (hids : ids t = true) : t ∉ TpEntry.names es := by
  induction h with
  | done => exact List.not_mem_nil
  | skip hnone _ ih =>
    rw [TpEntry.names_none hnone]
    exact ih hids
  | @param t' _ _ _ _ _ _ hsome hnew _ _ ih =>
    have hne : t ≠ t' := by
      rintro rfl
      cases hids.symm.trans hnew
    rw [TpEntry.names_some hsome, List.mem_cons, not_or]
    exact ⟨hne, ih (by rw [update_other hne]; exact hids)⟩

theorem TpTrace.nodup : (TpEntry.names es).Nodup := by
  induction h with
  | done => exact List.nodup_nil
  | skip hnone _ ih =>
    rw [TpEntry.names_none hnone]
    exact ih
  | param hsome _ _ htrace ih =>
    rw [TpEntry.names_some hsome]
    exact List.nodup_cons.mpr ⟨htrace.fresh update_same, ih⟩

theorem TpTrace.frame (ht : t ∉ TpEntry.names es) : SameAt t params out := by
  induction h with
  | done => exact SameAt.refl t _
  | skip hnone _ ih =>
    rw [TpEntry.names_none hnone] at ht
    exact ih ht
  | param hsome _ htakes _ ih =>
    rw [TpEntry.names_some hsome, List.mem_cons, not_or] at ht
    exact (htakes.sameAt ht.1).trans (ih ht.2)

theorem TpTrace.valid (he : e ∈ es) (ht : e.tpi = some t) :
    Valid isServer e.value t out ∧ out.set t = true ∧ out.decoded t = true := by
  induction h with
  | done => exact absurd he List.not_mem_nil
  | skip hnone _ ih =>
    rcases List.mem_cons.mp he with rfl | he
    · cases ht.symm.trans hnone
    · exact ih he
  | param hsome _ htakes htrace ih =>
    rcases List.mem_cons.mp he with rfl | he
    · obtain rfl := Option.some.inj (ht.symm.trans hsome)
      have hsame := htrace.frame (htrace.fresh update_same)
      refine ⟨htakes.valid.mark.congr hsame, ?_, ?_⟩
      · exact hsame.set.symm.trans update_same
      · exact hsame.decoded.symm.trans update_same
    · exact ih he

end

theorem TpTrace.decoded_iff (h : TpTrace isServer es ids .initializer out) :
    out.decoded t = true ↔ t ∈ TpEntry.names es := by
  constructor
  · intro hd
    by_contra hmem
    cases (h.frame hmem).decoded.trans hd
  · intro hmem
    obtain ⟨e, he, ht⟩ := List.mem_filterMap.mp hmem
    exact (h.valid he ht).2.2

theorem Tpi.default_in_range (h : t.hasDef = true) : t.minVal ≤ t.defVal ∧ t.defVal ≤ t.maxVal := by
  cases t <;> first | decide | cases h

theorem TpTrace.in_range (h : TpTrace isServer es ids .initializer out) (hk : t.kind = .numeric)
    (hset : out.set t = true) : t.minVal ≤ out.numerics t ∧ out.numerics t ≤ t.maxVal := by
  by_cases hmem : t ∈ TpEntry.names es
  · obtain ⟨e, he, ht⟩ := List.mem_filterMap.mp hmem
    obtain ⟨⟨-, hv⟩, -, -⟩ := h.valid he ht
    rw [hk] at hv
    exact hv.2
  · have hsame := h.frame hmem
    rw [← hsame.numerics]
    exact Tpi.default_in_range (hsame.set.trans hset)

theorem TransportParams.delaysOk_iff :
    params.delaysOk t = true ↔
      (params.set t = true → params.numerics t ≤ params.numerics .maxAckDelay * 1000) := by
  rw [delaysOk]
  cases params.set t <;> simp

/-- The decoder never reads after the end; what it accepts is a list of parameters with valid
values, each recognised one once. -/
theorem tpDecode_accepts (mem : List UInt8) (isServer : Bool) :
    match tpDecode mem isServer with
    | .error e => e = .invalid
    | .ok params => ∃ es, TpEntry.wire es = mem ∧ (TpEntry.names es).Nodup ∧
        (∀ e ∈ es, ∀ t, e.tpi = some t → Valid isServer e.value t params) ∧
        (∀ t, params.decoded t = true ↔ t ∈ TpEntry.names es) ∧
        (∀ t, t.kind = .numeric → params.set t = true →
          t.minVal ≤ params.numerics t ∧ params.numerics t ≤ t.maxVal) ∧
        (∀ e ∈ es, ∀ t, e.tpi = some t → t.kind = .cid → e.value.length ≤ maxCidLen) ∧
        (∀ t, params.decoded t = true → t.serverOnly = true → isServer = true) ∧
        (params.set .minAckDelay = true →
          params.numerics .minAckDelay ≤ params.numerics .maxAckDelay * 1000) ∧
        (params.set .minAckDelay02 = true →
          params.numerics .minAckDelay02 ≤ params.numerics .maxAckDelay * 1000) := by
  obtain ⟨hsafe, hok⟩ := @decodeLoop_spec isServer mem (mem.length + 1) (fun _ => false)
    .initializer (Nat.lt_succ_self _)
  rw [tpDecode]
  cases hloop : decodeLoop isServer (mem.length + 1) mem (fun _ => false) .initializer with
  | error e => exact hsafe e hloop
  | ok params =>
    rw [Except.ok_bind]
    cases hmin : params.delaysOk .minAckDelay with
    | false => rfl
    | true =>
      cases hmin02 : params.delaysOk .minAckDelay02 with
      | false => rfl
      | true =>
        obtain ⟨es, hwire, htrace⟩ := hok params hloop
        refine ⟨es, hwire, htrace.nodup, fun e he t ht => (htrace.valid he ht).1,
          fun t => htrace.decoded_iff, fun t => htrace.in_range, ?_, ?_,
          TransportParams.delaysOk_iff.mp hmin, TransportParams.delaysOk_iff.mp hmin02⟩
        · intro e he t ht hk
          obtain ⟨⟨-, hv⟩, -, -⟩ := htrace.valid he ht
          rw [hk] at hv
          rw [hv]
          exact (params.cids t).2
        · intro t hd
          obtain ⟨e, he, ht⟩ := List.mem_filterMap.mp (htrace.decoded_iff.mp hd)
          exact (htrace.valid he ht).1.1

end

end QuicArt
