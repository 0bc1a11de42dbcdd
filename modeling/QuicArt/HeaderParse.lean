import QuicArt.TransportReaders

namespace QuicArt

/-- `struct lsquic_packet_in`: the size, the connection ID, `PI_CONN_ID` and `PI_GQUIC`. -/
structure PacketIn where
  dataSz : Nat
  dcid : List UInt8 := []
  connId : Bool := false
  gquic : Bool := false
  headerType : HeaderType := .notSet
  publicFlags : Nat := 0
  deriving DecidableEq, Repr

/-- `pi_data_sz` is an unsigned short. -/
def dataSize (length : Nat) : Nat := length % 2 ^ 16

def bits2ht : Nat → HeaderType
  | 0 => .initial
  | 1 => .zeroRtt
  | 2 => .handshake
  | _ => .retry

/-- `vint_read` at an offset of the packet. -/
def vintAt (mem : List UInt8) (p : Nat) : Option (Nat × Nat) :=
  match varintRead (mem.drop p) (mem.length - p) with
  | .ok r => some r
  | .error _ => none

/-- The token length and the token of an Initial packet: the offset after them. -/
def tokenEnd (isServer : Bool) (mem : List UInt8) (p : Nat) : Option Nat :=
  (vintAt mem p).bind fun r =>
    if r.1 ≠ 0 ∧ isServer = false then none
    else if r.1 = 0 then some (p + r.2)
    else if 2 ^ 16 ≤ r.1 then none
    else if mem.length < p + r.2 + r.1 then none
    else some (p + r.2 + r.1)

/-- The payload length: the offset of the end of the packet. -/
def payloadEnd (mem : List UInt8) (p : Nat) : Option Nat :=
  if mem.length ≤ p then none
  else
    (vintAt mem p).bind fun r =>
      if mem.length < p + r.2 + r.1 then none
      else if mem.length < p + r.2 + 4 then none
      else some (p + r.2 + r.1)

/-- A version negotiation packet goes up to the end. -/
def vernegEnd (mem : List UInt8) (p : Nat) : Option Nat :=
  if mem.length ≤ p ∨ (mem.length - p) % 4 ≠ 0 then none else some mem.length

def longType (mem : List UInt8) : Option HeaderType :=
  if mem.length < 6 then none
  else
    mem[0]?.map fun first =>
      if (mem.drop 1).take 4 = [0, 0, 0, 0] then .verneg else bits2ht (first.toNat >>> 4 &&& 3)

/-- The connection IDs of a long header, and the offset after them. -/
def longCids (mem : List UInt8) : Option (List UInt8 × List UInt8 × Nat) :=
  mem[5]?.bind fun dcil =>
    if mem.length ≤ 6 + dcil.toNat ∨ maxCidLen < dcil.toNat then none
    else
      mem[6 + dcil.toNat]?.bind fun scil =>
        if mem.length < 7 + dcil.toNat + scil.toNat ∨ maxCidLen < scil.toNat then none
        else some ((mem.drop 6).take dcil.toNat, (mem.drop (7 + dcil.toNat)).take scil.toNat,
          7 + dcil.toNat + scil.toNat)

def minInitialDcidLen : Nat := 8

def ietfLongBegin (isServer : Bool) (mem : List UInt8) : Option PacketIn :=
  (longType mem).bind fun type =>
    (longCids mem).bind fun (dcid, _, p) =>
      let size : Option Nat :=
        match type with
        | .initial =>
          if isServer = true ∧ dcid.length < minInitialDcidLen then none
          else (tokenEnd isServer mem p).bind (payloadEnd mem)
        | .handshake | .zeroRtt => payloadEnd mem p
        | .retry =>
          if mem.length ≤ p then none
          else if mem.length < p + 1 + 16 then none
          else some mem.length
        | _ => vernegEnd mem p
      size.map fun length =>
        { dataSz := dataSize length, dcid, connId := !dcid.isEmpty, headerType := type }

def ietfShortBegin (cidLen : Nat) (mem : List UInt8) : Option PacketIn :=
  if cidLen ≠ 0 then
    if mem.length < 1 + cidLen then none
    else some { dataSz := dataSize mem.length, dcid := (mem.drop 1).take cidLen, connId := true }
  else some { dataSz := dataSize mem.length }

def q050LongBegin (isServer : Bool) (mem : List UInt8) : Option PacketIn :=
  (longType mem).bind fun type =>
    (longCids mem).bind fun (dcid, scid, p) =>
      let cid := if scid.isEmpty then dcid else scid
      if (if isServer then !scid.isEmpty else !dcid.isEmpty) then none
      else
        let size : Option Nat :=
          match type with
          | .initial => (tokenEnd isServer mem p).bind (payloadEnd mem)
          | .handshake | .zeroRtt => payloadEnd mem p
          | .retry =>
            if mem.length ≤ p then none
            else
              mem[p]?.bind fun odcil =>
                if mem.length < p + 1 + odcil.toNat ∨ maxCidLen < odcil.toNat then none
                else some mem.length
          | _ => vernegEnd mem p
        size.map fun length =>
          { dataSz := dataSize length, dcid := cid, connId := !cid.isEmpty, headerType := type }

def nybbleLen (n : Nat) : Nat := if n = 0 then 0 else n + 3

def q046LongBegin (isServer : Bool) (cidLen : Nat) (mem : List UInt8) : Option PacketIn :=
  (longType mem).bind fun type =>
    mem[0]?.bind fun first =>
      mem[5]?.bind fun lens =>
        let dcil := nybbleLen (lens.toNat >>> 4)
        let scil := nybbleLen (lens.toNat &&& 0xF)
        if (if isServer then !(dcil == cidLen && scil == 0) else !(dcil == 0 && scil == cidLen))
        then none
        else
          let rest := if type = .verneg then 4 else 1 + (first.toNat &&& 3)
          if mem.length < 6 + dcil + scil + rest then none
          else if type = .verneg ∧ (mem.length ≤ 6 + cidLen ∨ (mem.length - (6 + cidLen)) % 4 ≠ 0)
          then none
          else some { dataSz := dataSize mem.length, dcid := (mem.drop 6).take cidLen,
                      connId := true, headerType := type }

def q046ShortBegin (isServer : Bool) (cidLen : Nat) (mem : List UInt8) : Option PacketIn :=
  mem[0]?.bind fun first =>
    if first.toNat &&& 0x40 = 0 then none
    else
      let packetLen := 1 + (first.toNat &&& 3)
      if mem.length < (if isServer then 1 + cidLen + packetLen else 1 + packetLen) then none
      else if isServer then
        some { dataSz := dataSize mem.length, dcid := (mem.drop 1).take cidLen, connId := true }
      else some { dataSz := dataSize mem.length }

def gquicMaxPacketSz : Nat := 1370

/-- `lsquic_gquic_parse_packet_in_begin`; the public flags are version, reset, nonce and connection
ID. -/
def gquicBegin (isServer : Bool) (mem : List UInt8) : Option PacketIn :=
  if gquicMaxPacketSz < mem.length then none
  else
    mem[0]?.bind fun first =>
      let hasCid := decide (first.toNat &&& 8 ≠ 0)
      let hasVer := decide (first.toNat &&& 1 ≠ 0)
      if hasCid ∧ mem.length < 9 then none
      else
        let p := if hasCid then 9 else 1
        let noNonce := first.toNat &&& 251
        -- the nonce bit is ignored in packets with a version
        let flags := if hasVer then noNonce else first.toNat
        let afterVer : Option Nat :=
          if hasVer then
            if isServer then
              if mem.length < p + 4 then none else some (p + 4)
            else if flags &&& 246 ≠ 0 ∨ (mem.length - p) % 4 ≠ 0 then none
            else if mem.length < p + 4 then none
            else some mem.length
          else if first.toNat &&& 0xC0 ≠ 0 then none
          else some p
        afterVer.bind fun p =>
          let afterNonce : Option Nat :=
            if isServer = false ∧ flags &&& 4 = 4 then
              if mem.length < p + 32 then none else some (p + 32)
            else some p
          afterNonce.bind fun p =>
            let bits := flags >>> 4 &&& 3
            let nbytes := bits * 2 + (if bits = 0 then 1 else 0)
            if (flags &&& 3 = 0 ∨ (hasVer ∧ isServer)) ∧ mem.length < p + nbytes then none
            else some { dataSz := dataSize mem.length, connId := hasCid, gquic := true,
                        publicFlags := first.toNat,
                        dcid := if hasCid then (mem.drop 1).take 8 else [] }

def longBegin (isServer : Bool) (cidLen : Nat) (mem : List UInt8) : Option PacketIn :=
  if mem.length < 5 then none
  else if (mem.drop 1).take 4 = [81, 48, 52, 54] then q046LongBegin isServer cidLen mem
  else if (mem.drop 1).take 4 = [81, 48, 53, 48] then q050LongBegin isServer mem
  else ietfLongBegin isServer mem

inductive PacketParser
  | server | client | gquic | ietf | q050 | q046
  deriving DecidableEq, Repr

/-- `lsquic_parse_packet_in_server_begin` with `parse_begin_funcs`, and the functions of clients. -/
def PacketParser.run (parser : PacketParser) (cidLen : Nat) (mem : List UInt8) : Option PacketIn :=
  mem[0]?.bind fun first =>
    match parser with
    | .server =>
      if first.toNat &&& 0x80 ≠ 0 then
        if first.toNat &&& 0x30 = 0x30 then q046LongBegin true cidLen mem
        else longBegin true cidLen mem
      else if first.toNat &&& 0x40 ≠ 0 then ietfShortBegin cidLen mem
      else if first.toNat &&& 8 = 0 then q046ShortBegin true cidLen mem
      else gquicBegin true mem
    | .client =>
      if first.toNat &&& 0x80 ≠ 0 then longBegin false cidLen mem
      else if first.toNat &&& 0x40 = 0 then gquicBegin false mem
      else ietfShortBegin cidLen mem
    | .gquic => gquicBegin false mem
    | .ietf =>
      if first.toNat &&& 0x80 = 0 then ietfShortBegin cidLen mem else ietfLongBegin false mem
    | .q050 => if first.toNat &&& 0x80 = 0 then ietfShortBegin 0 mem else q050LongBegin false mem
    | .q046 =>
      if first.toNat &&& 0x80 = 0 then ietfShortBegin 0 mem else q046LongBegin false cidLen mem

/-- What is parsed is not empty and lies in the input; a gQUIC packet is all of it. -/
def SizeOk (mem : List UInt8) (r : Option PacketIn) : Prop :=
  ∀ p, r = some p → 0 < p.dataSz ∧ p.dataSz ≤ mem.length ∧
    (p.gquic = true → p.dataSz = mem.length)

/-- An offset that is reached lies in the input, and not at its start. -/
def EndOk (mem : List UInt8) (r : Option Nat) : Prop := ∀ n, r = some n → 0 < n ∧ n ≤ mem.length

section
variable {mem : List UInt8} {isServer : Bool} {p cidLen : Nat} {α : Type}

theorem SizeOk.fail : SizeOk mem none := by
  intro p h
  cases h

theorem SizeOk.bind {x : Option α} {f : α → Option PacketIn}
    (h : ∀ a, x = some a → SizeOk mem (f a)) :
    SizeOk mem (x.bind f) := by
  intro p hp
  obtain ⟨a, ha, hf⟩ := Option.bind_eq_some_iff.mp hp
  exact h a ha p hf

theorem SizeOk.ite {c : Prop} [Decidable c] {x y : Option PacketIn} (hx : c → SizeOk mem x)
    (hy : ¬ c → SizeOk mem y) : SizeOk mem (if c then x else y) := by
  split
  next h => exact hx h
  next h => exact hy h

theorem SizeOk.guard {c : Prop} [Decidable c] {x : Option PacketIn} (hx : ¬ c → SizeOk mem x) :
    SizeOk mem (if c then none else x) :=
  SizeOk.ite (fun _ => SizeOk.fail) hx

theorem SizeOk.of {q : PacketIn} (hlen : mem.length < 2 ^ 16) (hn : 0 < n ∧ n ≤ mem.length)
    (hq : q.dataSz = dataSize n) (hg : q.gquic = true → n = mem.length) : SizeOk mem (some q) := by
  intro q' h
  cases h
  rw [hq, dataSize, Nat.mod_eq_of_lt (by omega)]
  exact ⟨hn.1, hn.2, hg⟩

theorem SizeOk.map {x : Option Nat} {f : Nat → PacketIn} (hlen : mem.length < 2 ^ 16)
    (hx : EndOk mem x) (hf : ∀ n, (f n).dataSz = dataSize n ∧ (f n).gquic = false) :
    SizeOk mem (x.map f) := by
  intro q hq
  obtain ⟨n, hn, rfl⟩ := Option.map_eq_some_iff.mp hq
  refine SizeOk.of hlen (hx n hn) (hf n).1 (fun hg => ?_) _ rfl
  exact absurd ((hf n).2.symm.trans hg) Bool.false_ne_true

theorem EndOk.fail : EndOk mem none := by
  intro n h
  cases h

theorem EndOk.ite {c : Prop} [Decidable c] {x y : Option Nat} (hx : c → EndOk mem x)
    (hy : ¬ c → EndOk mem y) : EndOk mem (if c then x else y) := by
  split
  next h => exact hx h
  next h => exact hy h

theorem EndOk.of (h : 0 < n ∧ n ≤ mem.length) : EndOk mem (some n) := by
  intro n' hn
  cases hn
  exact h

theorem EndOk.bind {x : Option α} {f : α → Option Nat} (h : ∀ a, x = some a → EndOk mem (f a)) :
    EndOk mem (x.bind f) := by
  intro n hn
  obtain ⟨a, ha, hf⟩ := Option.bind_eq_some_iff.mp hn
  exact h a ha n hf

theorem vintAt_size {r : Nat × Nat} (h : vintAt mem p = some r) : 0 < r.2 := by
  rw [vintAt] at h
  split at h
  next r' hr =>
    cases h
    exact (varintRead_ok (by rw [List.length_drop]) hr).2.1
  · cases h

theorem EndOk.payload : EndOk mem (payloadEnd mem p) := by
  refine EndOk.ite (fun _ => EndOk.fail) fun _ => EndOk.bind fun r hr => ?_
  have hpos := vintAt_size hr
  exact EndOk.ite (fun _ => EndOk.fail) fun _ => EndOk.ite (fun _ => EndOk.fail) fun _ =>
    EndOk.of (by omega)

theorem EndOk.verneg : EndOk mem (vernegEnd mem p) :=
  EndOk.ite (fun _ => EndOk.fail) fun _ => EndOk.of (by omega)

variable (hlen : mem.length < 2 ^ 16)
include hlen

theorem SizeOk.ietfLongBegin : SizeOk mem (ietfLongBegin isServer mem) := by
  refine SizeOk.bind fun type htype => SizeOk.bind fun cids _ => SizeOk.map hlen ?_ fun _ =>
    ⟨rfl, rfl⟩
  cases type with
  | initial => exact EndOk.ite (fun _ => EndOk.fail) fun _ => EndOk.bind fun _ _ => EndOk.payload
  | handshake => exact EndOk.payload
  | zeroRtt => exact EndOk.payload
  | retry =>
    exact EndOk.ite (fun _ => EndOk.fail) fun _ => EndOk.ite (fun _ => EndOk.fail) fun _ =>
      EndOk.of (by omega)
  | verneg => exact EndOk.verneg
  | notSet => exact EndOk.verneg

theorem SizeOk.q050LongBegin : SizeOk mem (q050LongBegin isServer mem) := by
  refine SizeOk.bind fun type htype => SizeOk.bind fun cids _ =>
    SizeOk.guard fun _ => SizeOk.map hlen ?_ fun _ => ⟨rfl, rfl⟩
  cases type with
  | initial => exact EndOk.bind fun _ _ => EndOk.payload
  | handshake => exact EndOk.payload
  | zeroRtt => exact EndOk.payload
  | retry =>
    exact EndOk.ite (fun _ => EndOk.fail) fun _ => EndOk.bind fun _ _ =>
      EndOk.ite (fun _ => EndOk.fail) fun _ => EndOk.of (by omega)
  | verneg => exact EndOk.verneg
  | notSet => exact EndOk.verneg

theorem SizeOk.whole {q : PacketIn} (hpos : 0 < mem.length) (hq : q.dataSz = dataSize mem.length) :
    SizeOk mem (Option.some q) :=
  SizeOk.of hlen ⟨hpos, le_rfl⟩ hq fun _ => rfl

theorem SizeOk.q046LongBegin : SizeOk mem (q046LongBegin isServer cidLen mem) := by
  refine SizeOk.bind fun type htype => SizeOk.bind fun _ _ => SizeOk.bind fun _ _ => ?_
  exact SizeOk.guard fun _ => SizeOk.guard fun _ =>
    SizeOk.guard fun _ => SizeOk.whole hlen (by omega) rfl

variable (hpos : 0 < mem.length)
include hpos

theorem SizeOk.ietfShortBegin : SizeOk mem (ietfShortBegin cidLen mem) := by
  rw [QuicArt.ietfShortBegin]
  exact SizeOk.ite
    (fun _ => SizeOk.guard fun _ => SizeOk.whole hlen hpos rfl)
    fun _ => SizeOk.whole hlen hpos rfl

theorem SizeOk.q046ShortBegin : SizeOk mem (q046ShortBegin isServer cidLen mem) := by
  refine SizeOk.bind fun _ _ => SizeOk.guard fun _ =>
    SizeOk.guard fun _ => ?_
  exact SizeOk.ite (fun _ => SizeOk.whole hlen hpos rfl) fun _ => SizeOk.whole hlen hpos rfl

theorem SizeOk.gquicBegin : SizeOk mem (gquicBegin isServer mem) := by
  refine SizeOk.guard fun _ => SizeOk.bind fun _ _ =>
    SizeOk.guard fun _ => SizeOk.bind fun _ _ => SizeOk.bind fun _ _ => ?_
  exact SizeOk.guard fun _ => SizeOk.whole hlen hpos rfl

omit hpos

theorem SizeOk.longBegin : SizeOk mem (longBegin isServer cidLen mem) := by
  rw [QuicArt.longBegin]
  exact SizeOk.guard fun _ => SizeOk.ite (fun _ => .q046LongBegin hlen)
    fun _ => SizeOk.ite (fun _ => .q050LongBegin hlen) fun _ => .ietfLongBegin hlen

/-- No parser makes a packet longer than its input. -/
theorem PacketParser.run_size (parser : PacketParser) : SizeOk mem (parser.run cidLen mem) := by
  refine SizeOk.bind fun first hfirst => ?_
  have hpos : 0 < mem.length := by
    cases mem with
    | nil => cases hfirst
    | cons b bs => exact Nat.succ_pos _
  cases parser with
  | server =>
    exact SizeOk.ite
      (fun _ => SizeOk.ite (fun _ => .q046LongBegin hlen) fun _ => .longBegin hlen)
      fun _ => SizeOk.ite (fun _ => .ietfShortBegin hlen hpos)
        fun _ => SizeOk.ite (fun _ => .q046ShortBegin hlen hpos) fun _ => .gquicBegin hlen hpos
  | client =>
    exact SizeOk.ite (fun _ => .longBegin hlen) fun _ =>
      SizeOk.ite (fun _ => .gquicBegin hlen hpos) fun _ => .ietfShortBegin hlen hpos
  | gquic => exact .gquicBegin hlen hpos
  | ietf =>
    exact SizeOk.ite (fun _ => .ietfShortBegin hlen hpos) fun _ => .ietfLongBegin hlen
  | q050 =>
    exact SizeOk.ite (fun _ => .ietfShortBegin hlen hpos) fun _ => .q050LongBegin hlen
  | q046 =>
    exact SizeOk.ite (fun _ => .ietfShortBegin hlen hpos) fun _ => .q046LongBegin hlen

end

end QuicArt
