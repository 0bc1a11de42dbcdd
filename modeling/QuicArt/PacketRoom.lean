import QuicArt.Run

namespace QuicArt
namespace SendCtl

/-- The packet, and how many packets were allocated and neither handed out nor given back. -/
structure Handout where
  packet : Option PacketOut
  leaked : Nat := 0

def Handout.map (h : Handout) (f : PacketOut → PacketOut) : Handout :=
  { h with packet := h.packet.map f }

/-- NULL with nothing leaked, or a packet with the room that was asked for. -/
def Handout.Right (need : Nat) (h : Handout) : Prop :=
  (h.packet = none → h.leaked = 0) ∧ ∀ pk ∈ h.packet, need ≤ pk.avail

section
variable (env : Env) (tokenCopied : Bool) (s : SendCtl) (bits need : Nat) (pns : Pns) (path : Nat)

/-- `lsquic_packet_out_new`, with what `send_ctl_allocate_packet` sets in any case. -/
def packetOutNew : Option PacketOut :=
  let overhead := env.headerSz (pns2hety pns) bits 0 path + env.tagLen
  if env.packSize path ≤ overhead ∨ env.malo s.tick = false then none
  else some { s.freshPacket env bits pns path with
    nAlloc := (env.packSize path - overhead) % 65536, tokenLen := 0 }

/-- The `po_token_len` that `send_ctl_set_packet_out_token` leaves; `tokenCopied` is its `malloc`.
-/
def packetOutTokenLen (tokenSz : Nat) : Nat := if tokenCopied then tokenSz % 65536 else 0

/-- The token takes its bytes from the room of the packet. -/
def reserveToken (pk : PacketOut) (tokenSz : Nat) : Handout :=
  let tokenLen := packetOutTokenLen tokenCopied tokenSz
  if tokenLen < pk.nAlloc then
    { packet := some { pk with tokenLen, nAlloc := pk.nAlloc - tokenLen } }
  -- the packet stays behind: it is not destroyed on this way out
  else { packet := none, leaked := 1 }

def handOut : Handout :=
  match s.packetOutNew env bits pns path with
  | none => { packet := none }
  | some pk =>
    if need ≠ 0 ∧ pk.avail < need then { packet := none }
    else if pns = .init then s.tokenSz.elim { packet := some pk } (reserveToken tokenCopied pk)
    else { packet := some pk }

def handOutNew : Handout :=
  (s.handOut env tokenCopied (s.packnoBits env pns) need pns path).map
    ({ · with packno := s.nextPackno.curPackno })

def lastScheduled (regenMatch : Bool) : Option PktId :=
  (s.queue .scheduled).reverse.find? fun p =>
    (s.pkt p).pns = pns ∧ (regenMatch = true → (s.pkt p).regenSz = (s.pkt p).dataSz) ∧
      (s.pkt p).path = path

/-- The last scheduled packet, if it is open and has the room, or a new one that is scheduled. -/
def handOutScheduled (regenMatch : Bool) (closed : PacketOut → Bool) : Handout :=
  match (s.lastScheduled pns path regenMatch).filter fun p =>
    !closed (s.pkt p) && decide (need ≤ (s.pkt p).avail) with
  | some p => { packet := some (s.pkt p) }
  | none =>
    let (s, may) := s.canSend env
    if may then
      (s.handOutNew env tokenCopied need pns path).map ({ · with pns := pns, sched := true })
    else { packet := none }

def getWriteablePacket (regenMatch : Bool) : Handout :=
  s.handOutScheduled env tokenCopied need pns path regenMatch fun pk =>
    pk.mini || pk.streamEnd || pk.retx

def getPacketForCrypto : Handout :=
  s.handOutScheduled env tokenCopied need pns path false fun pk => pk.streamEnd || pk.retx

/-- The token of an Initial packet leaves the packet the room that was asked for. -/
def TokenFits : Prop :=
  ∀ pk ∈ s.packetOutNew env (s.packnoBits env pns) pns path, need ≤ pk.avail → pns = .init →
    ∀ tokenSz ∈ s.tokenSz, packetOutTokenLen tokenCopied tokenSz < pk.nAlloc ∧
      need + packetOutTokenLen tokenCopied tokenSz ≤ pk.nAlloc

/-- The last scheduled packet does, or no packet may be sent, or the token fits into a new one. -/
def LeavesRoom (regenMatch : Bool) (closed : PacketOut → Bool) : Prop :=
  (∃ p ∈ s.lastScheduled pns path regenMatch, closed (s.pkt p) = false ∧ need ≤ (s.pkt p).avail) ∨
    (s.canSend env).2 = false ∨ (s.canSend env).1.TokenFits env tokenCopied need pns path

end

section
variable {env : Env} {tokenCopied : Bool} {s : SendCtl} {bits need : Nat} {pns : Pns} {path : Nat}
  {pk : PacketOut} {h : Handout} {f : PacketOut → PacketOut}

theorem packetOutNew_room (h : s.packetOutNew env bits pns path = some pk) :
    pk.dataSz = 0 ∧ pk.nAlloc < 65536 := by
  rw [packetOutNew] at h
  split at h
  · cases h
  · cases h
    exact ⟨rfl, Nat.mod_lt _ (by decide)⟩

theorem Handout.right_none : Handout.Right need { packet := none } :=
  ⟨fun _ => rfl, fun _ h => (by cases h)⟩

theorem Handout.right_some {k : Nat} : Handout.Right need ⟨some pk, k⟩ ↔ need ≤ pk.avail := by
  simp [Handout.Right]

theorem Handout.right_map (hf : ∀ pk, (f pk).avail = pk.avail) :
    (h.map f).Right need ↔ h.Right need := by
  rcases h with ⟨_ | pk, k⟩
  · simp [Handout.Right, Handout.map]
  · simp only [Handout.map, Option.map_some, Handout.right_some, hf]

theorem reserveToken_right (hlt : pk.nAlloc < 65536) (hdata : pk.dataSz = 0) {tokenSz : Nat} :
    (reserveToken tokenCopied pk tokenSz).Right need ↔
      packetOutTokenLen tokenCopied tokenSz < pk.nAlloc ∧
        need + packetOutTokenLen tokenCopied tokenSz ≤ pk.nAlloc := by
  rw [reserveToken]
  generalize packetOutTokenLen tokenCopied tokenSz = tokenLen
  by_cases hfits : tokenLen < pk.nAlloc
  · simp only [if_pos hfits, Handout.right_some, PacketOut.avail, u16sub, hdata]
    omega
  · simp [Handout.Right, hfits]

theorem handOutNew_right :
    (s.handOutNew env tokenCopied need pns path).Right need ↔
      s.TokenFits env tokenCopied need pns path := by
  rw [handOutNew, Handout.right_map (by intro pk; rfl), handOut, TokenFits]
  cases hnew : s.packetOutNew env (s.packnoBits env pns) pns path with
  | none => simp [Handout.right_none]
  | some pk =>
    obtain ⟨hdata, hlt⟩ := packetOutNew_room hnew
    by_cases hroom : need ≤ pk.avail
    · have hnot : ¬ (need ≠ 0 ∧ pk.avail < need) := by omega
      by_cases hinit : pns = .init
      · cases hsz : s.tokenSz <;>
          simp [hnot, hinit, hroom, Handout.right_some, reserveToken_right hlt hdata]
      · simp [hnot, hinit, Handout.right_some, hroom]
    · have hneed : need ≠ 0 ∧ pk.avail < need := by omega
      simp [hroom, hneed, Handout.right_none]

theorem handOutScheduled_right {regenMatch : Bool} {closed : PacketOut → Bool} :
    (s.handOutScheduled env tokenCopied need pns path regenMatch closed).Right need ↔
      s.LeavesRoom env tokenCopied need pns path regenMatch closed := by
  rw [handOutScheduled, LeavesRoom]
  split
  · rename_i p hp
    obtain ⟨hlast, hopen⟩ := Option.filter_eq_some_iff.1 hp
    rw [Bool.and_eq_true, Bool.not_eq_true', decide_eq_true_eq] at hopen
    exact iff_of_true (Handout.right_some.2 hopen.2) (.inl ⟨p, hlast, hopen⟩)
  · rename_i hnone
    have hnot : ¬ ∃ p ∈ s.lastScheduled pns path regenMatch,
        closed (s.pkt p) = false ∧ need ≤ (s.pkt p).avail := by
      rintro ⟨p, hp, hopen⟩
      exact Option.filter_eq_none_iff.1 hnone p hp (by simp [hopen])
    rw [or_iff_right hnot]
    cases hmay : s.canSend env with
    | mk s' may =>
      cases may with
      | false => simp [Handout.right_none]
      | true =>
        apply (Handout.right_map _).trans
        · simp [handOutNew_right]
        · intro pk
          rfl

/-- The runs of the controller allocate packets this way, with the token copied. -/
theorem handOut_allocatePacket (hp : env.packSize path < 65536)
    (ht : ∀ tokenSz ∈ s.tokenSz, tokenSz < 65536) :
    (s.handOut env true bits need pns path).packet =
      (s.allocatePacket env bits need pns path).2.map
        (s.allocatePacket env bits need pns path).1.pkt := by
  have hget : ∀ pk, (s.ticked.alloc pk).pkt s.nextId = pk := fun _ => Table.get_set_self ..
  rw [handOut, allocatePacket, packetOutNew, freshPacket]
  generalize env.headerSz (pns2hety pns) bits 0 path + env.tagLen = overhead
  have hmod : (env.packSize path - overhead) % 65536 = env.packSize path - overhead :=
    Nat.mod_eq_of_lt (by omega)
  by_cases hnew : env.packSize path ≤ overhead ∨ env.malo s.tick = false
  · rw [if_pos hnew, if_pos (by rcases hnew with h | h <;> simp [h])]
    rfl
  · rw [if_neg hnew]
    rw [not_or, Bool.not_eq_false] at hnew
    simp only [hmod, PacketOut.avail, u16sub]
    generalize env.packSize path - overhead = size at hmod
    by_cases hneed : size < need
    · simp [hmod, hnew, hneed, Nat.ne_of_gt (Nat.zero_lt_of_lt hneed)]
    · by_cases hinit : pns = .init
      · cases hsz : s.tokenSz with
        | none => simp [hmod, hnew, hneed, hinit, hget]
        | some tokenSz =>
          have hlen : packetOutTokenLen true tokenSz = tokenSz := Nat.mod_eq_of_lt (ht tokenSz hsz)
          by_cases hfits : tokenSz < size
          · simp [hmod, hnew, hneed, hinit, hget, reserveToken, hlen, hfits, Nat.not_le.2 hfits]
          · simp [hmod, hnew, hneed, hinit, reserveToken, hlen, hfits, Nat.not_lt.1 hfits]
      · simp [hmod, hnew, hneed, hinit, hget]

/-- Each of the three functions is right exactly when the token leaves the room. -/
theorem handedOut_right_iff (env : Env) (tokenCopied regenMatch : Bool) (s : SendCtl) (need : Nat)
    (pns : Pns) (path : Nat) :
    ((s.handOutNew env tokenCopied need pns path).Right need ↔
      s.TokenFits env tokenCopied need pns path) ∧
    ((s.getWriteablePacket env tokenCopied need pns path regenMatch).Right need ↔
      s.LeavesRoom env tokenCopied need pns path regenMatch fun pk =>
        pk.mini || pk.streamEnd || pk.retx) ∧
    ((s.getPacketForCrypto env tokenCopied need pns path).Right need ↔
      s.LeavesRoom env tokenCopied need pns path false fun pk => pk.streamEnd || pk.retx) :=
  ⟨handOutNew_right, handOutScheduled_right, handOutScheduled_right⟩

/-- A token of 100 bytes leaves too little room, and one of 1340 bytes loses the packet. -/
theorem token_takes_room :
    ¬ (((init quietEnv).configure (.token 100)).handOutNew quietEnv true 1300 .init 0).Right 1300 ∧
    ¬ (((init quietEnv).configure (.token 1340)).handOutNew quietEnv true 1300 .init 0).Right 1300 :=
  ⟨fun h => absurd (h.2 _ rfl) (by decide), fun h => absurd (h.1 rfl) (by decide)⟩

end

end SendCtl
end QuicArt
