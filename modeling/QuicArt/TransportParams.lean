import QuicArt.PacketOut
import QuicArt.Varint

namespace QuicArt

inductive Tpi
  | maxIdleTimeout | maxUdpPayloadSize | initMaxData | initMaxStreamDataBidiLocal
  | initMaxStreamDataBidiRemote | initMaxStreamDataUni | initMaxStreamsBidi | initMaxStreamsUni
  | ackDelayExponent | maxAckDelay | activeConnectionIdLimit
  | minAckDelay | minAckDelay02 | timestamps | maxDatagramFrameSize | lossBits
  | greaseQuicBit | disableActiveMigration
  | preferredAddress | originalDestCid | initialSourceCid | retrySourceCid | statelessResetToken
  deriving DecidableEq, Repr, Inhabited

inductive TpKind
  | numeric | empty | address | cid | token
  deriving DecidableEq, Repr

namespace Tpi

def all : List Tpi :=
  [.maxIdleTimeout, .maxUdpPayloadSize, .initMaxData, .initMaxStreamDataBidiLocal,
    .initMaxStreamDataBidiRemote, .initMaxStreamDataUni, .initMaxStreamsBidi, .initMaxStreamsUni,
    .ackDelayExponent, .maxAckDelay, .activeConnectionIdLimit, .minAckDelay, .minAckDelay02,
    .timestamps, .maxDatagramFrameSize, .lossBits, .greaseQuicBit, .disableActiveMigration,
    .preferredAddress, .originalDestCid, .initialSourceCid, .retrySourceCid, .statelessResetToken]

def val : Tpi → Nat
  | .originalDestCid => 0x0
  | .maxIdleTimeout => 0x1
  | .statelessResetToken => 0x2
  | .maxUdpPayloadSize => 0x3
  | .initMaxData => 0x4
  | .initMaxStreamDataBidiLocal => 0x5
  | .initMaxStreamDataBidiRemote => 0x6
  | .initMaxStreamDataUni => 0x7
  | .initMaxStreamsBidi => 0x8
  | .initMaxStreamsUni => 0x9
  | .ackDelayExponent => 0xA
  | .maxAckDelay => 0xB
  | .disableActiveMigration => 0xC
  | .preferredAddress => 0xD
  | .activeConnectionIdLimit => 0xE
  | .initialSourceCid => 0xF
  | .retrySourceCid => 0x10
  | .maxDatagramFrameSize => 0x20
  | .lossBits => 0x1057
  | .minAckDelay => 0xDE1A
  | .minAckDelay02 => 0xFF02DE1A
  | .timestamps => 0x7158
  | .greaseQuicBit => 0x2AB2

def ofVal : Nat → Option Tpi
  | 0 => some .originalDestCid
  | 1 => some .maxIdleTimeout
  | 2 => some .statelessResetToken
  | 3 => some .maxUdpPayloadSize
  | 4 => some .initMaxData
  | 5 => some .initMaxStreamDataBidiLocal
  | 6 => some .initMaxStreamDataBidiRemote
  | 7 => some .initMaxStreamDataUni
  | 8 => some .initMaxStreamsBidi
  | 9 => some .initMaxStreamsUni
  | 10 => some .ackDelayExponent
  | 11 => some .maxAckDelay
  | 12 => some .disableActiveMigration
  | 13 => some .preferredAddress
  | 14 => some .activeConnectionIdLimit
  | 15 => some .initialSourceCid
  | 16 => some .retrySourceCid
  | 0x20 => some .maxDatagramFrameSize
  | 0x1057 => some .lossBits
  | 0x2AB2 => some .greaseQuicBit
  | 0xDE1A => some .minAckDelay
  | 0xFF02DE1A => some .minAckDelay02
  | 0x7158 => some .timestamps
  | _ => none

/-- The groups of cases in `lsquic_tp_encode` and `lsquic_tp_decode`. -/
def kind : Tpi → TpKind
  | .greaseQuicBit | .disableActiveMigration => .empty
  | .preferredAddress => .address
  | .originalDestCid | .initialSourceCid | .retrySourceCid => .cid
  | .statelessResetToken => .token
  | _ => .numeric

/-- Numeric parameters with default values, up to `MAX_NUM_WITH_DEF_TPI`. -/
def hasDef (t : Tpi) : Bool := t.ctorIdx ≤ activeConnectionIdLimit.ctorIdx

/-- Parameters that a client must not send. -/
def serverOnly : Tpi → Bool
  | .preferredAddress | .originalDestCid | .retrySourceCid | .statelessResetToken => true
  | _ => false

/-- `def_vals`; `TP_INITIALIZER` leaves zero in what has no default value. -/
def defVal : Tpi → Nat
  | .maxUdpPayloadSize => 65527
  | .ackDelayExponent => 3
  | .maxAckDelay => 25
  | .activeConnectionIdLimit => 2
  | _ => 0

def vintMaxValue : Nat := 2 ^ 62 - 1

def maxVal : Tpi → Nat
  | .ackDelayExponent => 20
  | .initMaxStreamsUni | .initMaxStreamsBidi => 2 ^ 60
  | .maxAckDelay => 2 ^ 14 - 1
  | .lossBits => 1
  | .minAckDelay | .minAckDelay02 => 2 ^ 24 - 1
  | .timestamps => 3
  | _ => vintMaxValue

def minVal : Tpi → Nat
  | .maxUdpPayloadSize => 1200
  | .minAckDelay | .minAckDelay02 => 1
  | .activeConnectionIdLimit => 2
  | .timestamps => 1
  | _ => 0

end Tpi

abbrev ByteArr (n : Nat) : Type := { l : List UInt8 // l.length = n }

def maxCidLen : Nat := 20

abbrev Cid : Type := { l : List UInt8 // l.length ≤ maxCidLen }

def sresetTokenSz : Nat := 16

structure PreferredAddress where
  ipv4Addr : ByteArr 4
  ipv4Port : UInt16
  ipv6Addr : ByteArr 16
  ipv6Port : UInt16
  cid : Cid
  srst : ByteArr sresetTokenSz

/-- `struct transport_params`; `numerics` and `cids` are used at the parameters of these kinds. -/
structure TransportParams where
  set : Tpi → Bool
  decoded : Tpi → Bool
  numerics : Tpi → Nat
  statelessResetToken : ByteArr sresetTokenSz
  preferredAddress : PreferredAddress
  cids : Tpi → Cid

def ByteArr.zero (n : Nat) : ByteArr n := ⟨List.replicate n 0, List.length_replicate⟩

def Cid.nil : Cid := ⟨[], Nat.zero_le _⟩

def TransportParams.initializer : TransportParams where
  set := Tpi.hasDef
  decoded _ := false
  numerics := Tpi.defVal
  statelessResetToken := .zero _
  preferredAddress := ⟨.zero _, 0, .zero _, 0, .nil, .zero _⟩
  cids _ := .nil

/-- It returns -1, or would read after the end of the input, or its loop would not end. -/
inductive TpStop
  | invalid | pastEnd | outOfFuel
  deriving DecidableEq, Repr

abbrev TpRead (α : Type) := Except TpStop α

def byteAt (mem : List UInt8) (i : Nat) : TpRead UInt8 :=
  match mem[i]? with
  | some b => .ok b
  | none => .error .pastEnd

def bytesAt (mem : List UInt8) (off n : Nat) : TpRead (ByteArr n) :=
  if h : off + n ≤ mem.length then
    .ok ⟨(mem.drop off).take n, by rw [List.length_take, List.length_drop]; omega⟩
  else .error .pastEnd

/-- `lsquic_varint_read`: the memory from `p` on, and `end - p`. -/
def varintRead (mem : List UInt8) (room : Nat) : TpRead (Nat × Nat) :=
  if room = 0 then .error .invalid
  else do
    let b ← byteAt mem 0
    match b.toNat >>> 6 with
    | 0 => .ok (b.toNat, 1)
    | 1 =>
      if room ≤ 1 then .error .invalid
      else do
        let b₁ ← byteAt mem 1
        .ok ((b.toNat &&& 63) <<< 8 ||| b₁.toNat, 2)
    | 2 =>
      if room ≤ 3 then .error .invalid
      else do
        let b₁ ← byteAt mem 1
        let b₂ ← byteAt mem 2
        let b₃ ← byteAt mem 3
        .ok ((b.toNat &&& 63) <<< 24 ||| b₁.toNat <<< 16 ||| b₂.toNat <<< 8 ||| b₃.toNat <<< 0, 4)
    | _ =>
      if room ≤ 7 then .error .invalid
      else do
        let bs ← bytesAt mem 0 8
        .ok (bigEndian bs.1 &&& 2 ^ 62 - 1, 8)

def portAt (mem : List UInt8) (off : Nat) : TpRead UInt16 := do
  let bs ← bytesAt mem off 2
  .ok (.ofNat (bigEndian bs.1))

/-- `EXPECT_AT_LEAST`: `left` is `p + len - q`. -/
def expectAtLeast (n left : Nat) : TpRead Unit := if left < n then .error .invalid else .ok ()

def cidAt (mem : List UInt8) (off n : Nat) : TpRead Cid :=
  if h : n ≤ maxCidLen then do
    let bs ← bytesAt mem off n
    .ok ⟨bs.1, by rw [bs.2]; exact h⟩
  else .error .invalid

/-- The case `TPI_PREFERRED_ADDRESS`. -/
def decodeAddress (mem : List UInt8) (len : Nat) : TpRead PreferredAddress := do
  expectAtLeast 4 len
  let ipv4Addr ← bytesAt mem 0 4
  expectAtLeast 2 (len - 4)
  let ipv4Port ← portAt mem 4
  expectAtLeast 16 (len - 6)
  let ipv6Addr ← bytesAt mem 6 16
  expectAtLeast 2 (len - 22)
  let ipv6Port ← portAt mem 22
  expectAtLeast 1 (len - 24)
  let tlen ← byteAt mem 24
  if maxCidLen < tlen.toNat then .error .invalid
  else do
    expectAtLeast tlen.toNat (len - 25)
    let cid ← cidAt mem 25 tlen.toNat
    expectAtLeast sresetTokenSz (len - (25 + tlen.toNat))
    let srst ← bytesAt mem (25 + tlen.toNat) sresetTokenSz
    if 25 + tlen.toNat + sresetTokenSz ≠ len then .error .invalid
    else .ok ⟨ipv4Addr, ipv4Port, ipv6Addr, ipv6Port, cid, srst⟩

def update (f : Tpi → α) (t : Tpi) (v : α) : Tpi → α := fun i => if i = t then v else f i

def decodeNumeric (mem : List UInt8) (len : Nat) (t : Tpi) : TpRead Nat :=
  if len = 1 ∨ len = 2 ∨ len = 4 ∨ len = 8 then do
    let r ← varintRead mem len
    if r.2 = len then
      if t.maxVal < r.1 then .error .invalid
      else if r.1 < t.minVal then .error .invalid
      else .ok r.1
    else .error .invalid
  else .error .invalid

/-- The switch of `lsquic_tp_decode`. -/
def decodeValue (isServer : Bool) (mem : List UInt8) (len : Nat) (t : Tpi)
    (params : TransportParams) : TpRead TransportParams :=
  if t.serverOnly && !isServer then .error .invalid
  else
    match t.kind with
    | .numeric => do
      let v ← decodeNumeric mem len t
      .ok { params with numerics := update params.numerics t v }
    | .empty => if len ≠ 0 then .error .invalid else .ok params
    | .token =>
      if len ≠ sresetTokenSz then .error .invalid
      else do
        let token ← bytesAt mem 0 sresetTokenSz
        .ok { params with statelessResetToken := token }
    | .cid => do
      let cid ← cidAt mem 0 len
      .ok { params with cids := update params.cids t cid }
    | .address => do
      let addr ← decodeAddress mem len
      .ok { params with preferredAddress := addr }

/-- The parameter is noted in `tp_set` and `tp_decoded`. -/
def TransportParams.mark (params : TransportParams) (t : Tpi) : TransportParams :=
  { params with
    set := update params.set t true
    decoded := update params.decoded t true }

/-- The loop of `lsquic_tp_decode`: the memory from `p` to `end`, and `set_of_ids`. -/
def decodeLoop (isServer : Bool) : Nat → List UInt8 → (Tpi → Bool) → TransportParams →
    TpRead TransportParams
  | 0, _, _, _ => .error .outOfFuel
  | fuel + 1, mem, ids, params =>
    if mem.length = 0 then .ok params
    else do
      let id ← varintRead mem mem.length
      let mem := mem.drop id.2
      let len ← varintRead mem mem.length
      let mem := mem.drop len.2
      if mem.length < len.1 then .error .invalid
      else
        match Tpi.ofVal id.1 with
        | none => decodeLoop isServer fuel (mem.drop len.1) ids params
        | some t =>
          if ids t then .error .invalid
          else do
            let params ← decodeValue isServer mem len.1 t params
            decodeLoop isServer fuel (mem.drop len.1) (update ids t true) (params.mark t)

/-- The rule between the minimum and the maximum ACK delay. -/
def TransportParams.delaysOk (params : TransportParams) (t : Tpi) : Bool :=
  !(params.set t && decide (params.numerics .maxAckDelay * 1000 < params.numerics t))

def tpDecode (mem : List UInt8) (isServer : Bool) : TpRead TransportParams := do
  let params ← decodeLoop isServer (mem.length + 1) mem (fun _ => false) .initializer
  if !params.delaysOk .minAckDelay then .error .invalid
  else if !params.delaysOk .minAckDelay02 then .error .invalid
  else .ok params

def vintBits2shift (bits : Nat) : Nat := 2 ^ (3 + bits) - 2

def bytesBE (x n : Nat) : List UInt8 := (List.range n).map fun i => .ofNat (x >>> (8 * (n - 1 - i)))

def vintWrite (v bits : Nat) : List UInt8 := bytesBE (v ||| bits <<< vintBits2shift bits) (2 ^ bits)

namespace PreferredAddress

def size (a : PreferredAddress) : Nat := 4 + 2 + 16 + 2 + 1 + a.cid.1.length + sresetTokenSz

def bytes (a : PreferredAddress) : List UInt8 :=
  a.ipv4Addr.1 ++ bytesBE a.ipv4Port.toNat 2 ++ a.ipv6Addr.1 ++ bytesBE a.ipv6Port.toNat 2
    ++ [.ofNat a.cid.1.length] ++ a.cid.1 ++ a.srst.1

end PreferredAddress

namespace TransportParams

def isDefault (params : TransportParams) (t : Tpi) : Bool :=
  t.hasDef && params.numerics t == t.defVal

/-- What is left of `tp_set` when the encoder has turned off the default values. -/
def written (params : TransportParams) (t : Tpi) : Bool := params.set t && !params.isDefault t

def inRange (params : TransportParams) (t : Tpi) : Bool :=
  decide (t.minVal ≤ params.numerics t) && decide (params.numerics t ≤ t.maxVal)

/-- The array `bits`. For the server's parameters a client does not compute it; then it is `junk`.
-/
def bits (params : TransportParams) (isServer : Bool) (junk : Tpi → Nat × Nat × Nat) (t : Tpi) :
    Nat × Nat × Nat :=
  if t.serverOnly && !isServer then junk t
  else
    match t.kind with
    | .numeric => (vintVal2bits t.val, vintVal2bits (vintVal2bits (params.numerics t)),
        vintVal2bits (params.numerics t))
    | .empty => (vintVal2bits t.val, (junk t).2)
    | .token => (vintVal2bits t.val, vintVal2bits sresetTokenSz, (junk t).2.2)
    | .cid => (vintVal2bits t.val, vintVal2bits (params.cids t).1.length, (junk t).2.2)
    | .address => (vintVal2bits t.val, vintVal2bits params.preferredAddress.size, (junk t).2.2)

/-- What the parameter adds to `need`. -/
def need (params : TransportParams) (isServer : Bool) (junk : Tpi → Nat × Nat × Nat) (t : Tpi) :
    Nat :=
  let b := params.bits isServer junk t
  if t.serverOnly && !isServer then 0
  else
    match t.kind with
    | .numeric => 2 ^ b.1 + 2 ^ b.2.1 + 2 ^ b.2.2
    | .empty => 2 ^ b.1 + 1
    | .token => 2 ^ b.1 + 2 ^ b.2.1 + sresetTokenSz
    | .cid => 2 ^ b.1 + 2 ^ b.2.1 + (params.cids t).1.length
    | .address => 2 ^ b.1 + 2 ^ b.2.1 + params.preferredAddress.size

/-- The bytes that the switch of `lsquic_tp_encode` writes for the parameter. -/
def bytesOf (params : TransportParams) (isServer : Bool) (junk : Tpi → Nat × Nat × Nat) (t : Tpi) :
    List UInt8 :=
  let b := params.bits isServer junk t
  vintWrite t.val b.1 ++
    match t.kind with
    | .numeric => vintWrite (2 ^ b.2.2) b.2.1 ++ vintWrite (params.numerics t) b.2.2
    | .empty => [0]
    | .token => vintWrite sresetTokenSz b.2.1 ++ params.statelessResetToken.1
    | .cid => vintWrite (params.cids t).1.length b.2.1 ++ (params.cids t).1
    | .address => vintWrite params.preferredAddress.size b.2.1 ++ params.preferredAddress.bytes

end TransportParams

/-- `lsquic_tp_encode`; the source's `order` is that of the enumeration. -/
def tpEncode (order : List Tpi) (params : TransportParams) (isServer : Bool)
    (junk : Tpi → Nat × Nat × Nat) (bufsz : Nat) : Option (List UInt8) :=
  if Tpi.all.any fun t => t.kind == .numeric && params.written t && !params.inRange t then none
  else
    let need := ((Tpi.all.filter params.written).map (params.need isServer junk)).sum
    if bufsz < need ∨ 65535 < need then none
    else some ((order.filter params.written).flatMap (params.bytesOf isServer junk))

end QuicArt
