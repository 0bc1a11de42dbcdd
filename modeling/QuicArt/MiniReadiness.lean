import QuicArt.MiniAck

namespace QuicArt
namespace MiniConn

def firstUnsent (conn : MiniConn) : Option MiniPacket := conn.packetsOut.find? fun p => !p.sent

/-- `ietf_mini_conn_ci_is_tickable`; `canSendNow` is `ENPUB_CAN_SEND`. -/
def isTickable (conn : MiniConn) (canSendNow : Bool) : Bool :=
  canSendNow && conn.firstUnsent.any fun p => conn.canSend (conn.totalSz p)

/-- What the first loop of `imico_handle_losses_and_have_unsent` adds to `n_to_send`. -/
def nUnsent (conn : MiniConn) : List MiniPacket → Nat
  | [] => 0
  | p :: ps =>
    if p.sent then conn.nUnsent ps
    else if conn.canSend (conn.totalSz p) then conn.nUnsent ps + 1
    else 0

/-- The packets that its second loop puts back on the list. -/
def repackaged (conn : MiniConn) : List MiniPacket → List MiniPacket
  | [] => []
  | p :: ps =>
    if p.frameTypes.has iquicFrameRetxMask then
      (if miniMaxPackets < conn.nextPackno then [] else [conn.renumbered p]) ++
        (conn.repackagePacket p).repackaged ps
    else conn.repackaged ps

def resent (conn : MiniConn) (retxTo now : Nat) : List MiniPacket :=
  { conn with packetsOut := (conn.splitLost retxTo now conn.packetsOut).1 }.repackaged
    (conn.splitLost retxTo now conn.packetsOut).2

/-- `imico_have_packets_to_send`; `handleLosses` is what it does to the connection. -/
def havePacketsToSend (conn : MiniConn) (retxTo now : Nat) : Bool :=
  decide (0 < conn.nUnsent conn.packetsOut +
    (conn.resent retxTo now).countP fun p => conn.canSend (conn.totalSz p))

def nextInLine (conn : MiniConn) (retxTo now : Nat) : Option MiniPacket :=
  conn.firstUnsent.or (conn.resent retxTo now).head?

/-- A connection that is said to have something to send does send. -/
def ReadySends (conn : MiniConn) (canSendNow : Bool) (retxTo now : Nat) : Prop :=
  (conn.isTickable canSendNow = true → (conn.nextPacketToSend none).2.isSome = true) ∧
  (conn.havePacketsToSend retxTo now = true →
    ((conn.handleLosses retxTo now).nextPacketToSend none).2.isSome = true)

section
variable {conn : MiniConn} {retxTo now : Nat} {ps : List MiniPacket}

theorem nextPacketToSend_isSome : (conn.nextPacketToSend none).2.isSome = true ↔
    ∃ p ∈ conn.firstUnsent, conn.canSend (conn.totalSz p.padded) = true := by
  rw [nextPacketToSend, ← firstUnsent]
  cases conn.firstUnsent with
  | none => simp
  | some p => cases hs : conn.canSend (conn.totalSz p.padded) <;> simp [refused, hs]

theorem packetsOut_resendLost (conn : MiniConn) (ps : List MiniPacket) :
    (conn.resendLost ps).packetsOut = conn.packetsOut ++ conn.repackaged ps := by
  induction ps generalizing conn with
  | nil => exact (List.append_nil _).symm
  | cons p ps ih =>
    rw [resendLost, repackaged]
    by_cases hretx : p.frameTypes.has iquicFrameRetxMask
    · rw [if_pos hretx, if_pos hretx, ih, ← List.append_assoc, repackagePacket]
      by_cases hn : miniMaxPackets < conn.nextPackno
      · rw [if_pos hn, if_pos hn, List.append_nil]
        rfl
      · rw [if_neg hn, if_neg hn]
        rfl
    · rw [if_neg hretx, if_neg hretx, ih]

theorem canSend_resendLost (conn : MiniConn) (ps : List MiniPacket) (p : MiniPacket) :
    (conn.resendLost ps).canSend ((conn.resendLost ps).totalSz p) =
      conn.canSend (conn.totalSz p) := by
  induction ps generalizing conn with
  | nil => rfl
  | cons q ps ih =>
    rw [resendLost]
    split
    · rw [ih, repackagePacket]
      split <;> rfl
    · exact ih conn

theorem find_splitLost (conn : MiniConn) (ps : List MiniPacket) :
    (conn.splitLost retxTo now ps).1.find? (fun p => !p.sent) = ps.find? fun p => !p.sent := by
  induction ps with
  | nil => rfl
  | cons p ps ih =>
    rw [splitLost]
    cases hs : p.sent with
    | true =>
      by_cases hlost : p.sentAt + retxTo < now
      · simp [hs, hlost, ih]
      · simp [hs, hlost, ih]
    | false =>
      by_cases hc : conn.canSend (conn.totalSz p)
      · simp [hs, hc]
      · simp [hs, hc]

theorem unsent_repackaged (hp : p ∈ conn.repackaged ps) : p.sent = false := by
  induction ps generalizing conn with
  | nil => cases hp
  | cons q ps ih =>
    rw [repackaged] at hp
    split at hp
    · rcases List.mem_append.1 hp with hp | hp
      · split at hp
        · cases hp
        · rw [List.mem_singleton.1 hp]
          rfl
      · exact ih hp
    · exact ih hp

theorem firstUnsent_handleLosses :
    (conn.handleLosses retxTo now).firstUnsent = conn.nextInLine retxTo now := by
  have hhead : ∀ l : List MiniPacket, (∀ p ∈ l, p.sent = false) →
      l.find? (fun p => !p.sent) = l.head? := by
    intro l hl
    cases l with
    | nil => rfl
    | cons p l => simp [hl p List.mem_cons_self]
  rw [firstUnsent, handleLosses, packetsOut_resendLost, List.find?_append, find_splitLost,
    hhead _ fun p hp => unsent_repackaged hp]
  rfl

theorem nUnsent_pos : 0 < conn.nUnsent ps ↔
    ∃ p ∈ ps.find? fun p => !p.sent, conn.canSend (conn.totalSz p) = true := by
  induction ps with
  | nil => simp [nUnsent]
  | cons p ps ih =>
    rw [nUnsent]
    cases hs : p.sent with
    | true => simpa [hs] using ih
    | false =>
      by_cases hc : conn.canSend (conn.totalSz p)
      · simp [hs, hc]
      · simp [hs, hc]

theorem havePacketsToSend_iff : conn.havePacketsToSend retxTo now = true ↔
    ∃ p, (p ∈ conn.firstUnsent ∨ p ∈ conn.resent retxTo now) ∧
      conn.canSend (conn.totalSz p) = true := by
  rw [havePacketsToSend, decide_eq_true_eq, Nat.add_pos_iff_pos_or_pos, nUnsent_pos,
    List.countP_pos_iff, ← firstUnsent]
  constructor
  · rintro (⟨p, hp, hc⟩ | ⟨p, hp, hc⟩)
    · exact ⟨p, .inl hp, hc⟩
    · exact ⟨p, .inr hp, hc⟩
  · rintro ⟨p, hp | hp, hc⟩
    · exact .inl ⟨p, hp, hc⟩
    · exact .inr ⟨p, hp, hc⟩

theorem nextInLine_isSome (hp : p ∈ conn.firstUnsent ∨ p ∈ conn.resent retxTo now) :
    ∃ q, q ∈ conn.nextInLine retxTo now := by
  rw [nextInLine]
  cases hf : conn.firstUnsent with
  | some q => exact ⟨q, rfl⟩
  | none =>
    cases hr : conn.resent retxTo now with
    | nil => simp [hf, hr] at hp
    | cons q l => exact ⟨q, rfl⟩

/-- The size is judged without the padding that sending adds, and that of a repackaged packet
although another one is sent before it. -/
theorem readySends_iff (conn : MiniConn) (canSendNow : Bool) (retxTo now : Nat) :
    conn.ReadySends canSendNow retxTo now ↔
      (canSendNow = true → ∀ p ∈ conn.firstUnsent, conn.canSend (conn.totalSz p) = true →
        conn.canSend (conn.totalSz p.padded) = true) ∧
      (∀ p, p ∈ conn.firstUnsent ∨ p ∈ conn.resent retxTo now →
        conn.canSend (conn.totalSz p) = true → ∀ q ∈ conn.nextInLine retxTo now,
          conn.canSend (conn.totalSz q.padded) = true) := by
  apply and_congr
  · rw [isTickable, nextPacketToSend_isSome]
    cases conn.firstUnsent with
    | none => simp
    | some p => simp
  · rw [havePacketsToSend_iff, nextPacketToSend_isSome, firstUnsent_handleLosses]
    constructor
    · intro h p hp hc q hq
      obtain ⟨q', hq', hcan⟩ := h ⟨p, hp, hc⟩
      rw [handleLosses, canSend_resendLost] at hcan
      exact Option.some.inj (hq.symm.trans hq') ▸ hcan
    · rintro h ⟨p, hp, hc⟩
      obtain ⟨q, hq⟩ := nextInLine_isSome hp
      refine ⟨q, hq, ?_⟩
      rw [handleLosses, canSend_resendLost]
      exact h p hp hc q hq

end

def nearBudget : MiniConn :=
  [MiniOp.streamWrite true .initial 10 100, .take none .ok, .sent 2 2000 (by decide),
    .streamWrite true .initial 10 100, .take none .ok, .sent 3 2000 (by decide),
    .streamWrite true .initial 10 100].foldl step firstFlight

theorem ready_not_sent :
    MiniRun (fun _ _ => True) nearBudget ∧ ¬ nearBudget.ReadySends true 5000 2000 :=
  ⟨firstFlight_run.runs (fun _ _ => trivial) _, fun h => absurd (h.1 (by decide)) (by decide)⟩

end MiniConn
end QuicArt
