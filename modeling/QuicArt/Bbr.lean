import QuicArt.Table

namespace QuicArt

inductive BbrMode
  | startup | drain | probeBw | probeRtt
  deriving DecidableEq, Repr

inductive BbrRecovery
  | notInRecovery | conservation | growth
  deriving DecidableEq, Repr

/-- The bounds as `init_bbr` sets them, and the flags that nothing changes.
`BBR_FLAG_PROBE_RTT_BASED_ON_BDP` is clear. -/
structure BbrConfig where
  minCwnd : Nat := 4 * 1460
  initCwnd : Nat := 32 * 1460
  maxCwnd : Nat := 2000 * 1460
  rateBasedStartup : Bool := false
  enableAckAggInStartup : Bool := false

structure BbrAckState where
  hasLosses : Bool := false
  lostBytes : Nat := 0
  ackedBytes : Nat := 0
  maxPackno : Nat := 0
  ackTime : Nat := 0

/-- The mode, and what decides when it changes. -/
structure BbrModes where
  mode : BbrMode := .startup
  isAtFullBandwidth : Bool := false
  probeRttRoundPassed : Bool := false
  exitProbeRttAt : Nat := 0

structure Bbr where
  cfg : BbrConfig
  modes : BbrModes := {}
  recovery : BbrRecovery := .notInRecovery
  cwnd : Nat := cfg.initCwnd
  recoveryWindow : Nat := 0
  lastSentPackno : Nat := 0
  endRecoveryAt : Nat := 0
  currentRoundTripEnd : Nat := 0
  ackState : BbrAckState := {}

/-- What the bandwidth sampler and the filters give to a call of `lsquic_bbr_end_ack`. -/
structure BbrModel where
  bytesAcked : Nat := 0
  excessAcked : Nat := 0
  totalAcked : Nat := 0
  maxAckHeight : Nat := 0
  minRttExpired : Bool := false
  fullBwReached : Bool := false
  drainTarget : Nat := 0
  cwndTarget : Nat := 0

inductive BbrOp
  | sent (packno : Nat)
  | beginAck (ackTime : Nat)
  | ack (packno size : Nat)
  | lost (size : Nat)
  | endAck (inFlight : Nat) (e : BbrModel)

namespace BbrModes

def maybeExitStartupOrDrain (m : BbrModes) (inFlight target : Nat) : BbrModes :=
  let mode := if m.mode = .startup ∧ m.isAtFullBandwidth then .drain else m.mode
  { m with mode := if mode = .drain ∧ inFlight ≤ target then .probeBw else mode }

def maybeEnterOrExitProbeRtt (m : BbrModes) (now probeRttCwnd inFlight : Nat)
    (isRoundStart minRttExpired : Bool) : BbrModes :=
  let m := if minRttExpired ∧ m.mode ≠ .probeRtt then
    { m with mode := .probeRtt, exitProbeRttAt := 0 } else m
  if m.mode ≠ .probeRtt then m
  else if m.exitProbeRttAt = 0 then
    if inFlight < probeRttCwnd + 1452 then
      { m with exitProbeRttAt := now + 200000, probeRttRoundPassed := false }
    else m
  else
    let m := { m with probeRttRoundPassed := m.probeRttRoundPassed || isRoundStart }
    if m.exitProbeRttAt ≤ now ∧ m.probeRttRoundPassed then
      { m with mode := if m.isAtFullBandwidth then .probeBw else .startup }
    else m

end BbrModes

namespace Bbr

def inRecovery (b : Bbr) : Bool := b.recovery != .notInRecovery

/-- No conservation of packets in STARTUP. -/
def unconserved (b : Bbr) : Bool := b.cfg.rateBasedStartup && b.modes.mode == .startup

def getCwnd (b : Bbr) : Nat :=
  if b.modes.mode = .probeRtt then b.cfg.minCwnd
  else if b.inRecovery && !b.unconserved then min b.cwnd b.recoveryWindow
  else b.cwnd

/-- `lsquic_bbr_ack`: a number above `IQUIC_MAX_PACKNO` is not valid. -/
def ack (b : Bbr) (packno size : Nat) : Bbr :=
  { b with ackState := { b.ackState with
      maxPackno := if 2 ^ 62 ≤ b.ackState.maxPackno ∨ b.ackState.maxPackno < packno then packno
        else b.ackState.maxPackno
      ackedBytes := b.ackState.ackedBytes + size } }

def lost (b : Bbr) (size : Nat) : Bbr :=
  { b with ackState := { b.ackState with
      hasLosses := true
      lostBytes := b.ackState.lostBytes + size } }

def beginAck (b : Bbr) (ackTime : Nat) : Bbr :=
  { b with ackState := { maxPackno := 2 ^ 64 - 1, ackTime } }

/-- Without losses a number behind the end of recovery, which then stays, was acknowledged. -/
def exitsRecovery (b : Bbr) : Bool :=
  !b.ackState.hasLosses && decide (b.endRecoveryAt < b.ackState.maxPackno)

def nextRecovery (b : Bbr) (isRoundStart : Bool) : BbrRecovery :=
  match b.recovery with
  | .notInRecovery => if b.ackState.hasLosses then .conservation else .notInRecovery
  | .conservation =>
    if b.exitsRecovery then .notInRecovery else if isRoundStart then .growth else .conservation
  | .growth => if b.exitsRecovery then .notInRecovery else .growth

def updateRecoveryState (b : Bbr) (isRoundStart : Bool) : Bbr :=
  let enters := b.recovery = .notInRecovery ∧ b.ackState.hasLosses
  { b with
    endRecoveryAt := if b.ackState.hasLosses then b.lastSentPackno else b.endRecoveryAt
    recovery := b.nextRecovery isRoundStart
    recoveryWindow := if enters then 0 else b.recoveryWindow
    currentRoundTripEnd := if enters then b.lastSentPackno else b.currentRoundTripEnd }

def anyAcked (b : Bbr) : Bool := b.ackState.ackedBytes != 0

/-- The number is behind the end of the round, or there is no round. -/
def isRoundStart (b : Bbr) : Bool :=
  b.anyAcked && (decide (b.currentRoundTripEnd < b.ackState.maxPackno) ||
    decide (2 ^ 62 ≤ b.currentRoundTripEnd))

/-- What `lsquic_bbr_end_ack` does first, where bytes were acknowledged. -/
def newlyAcked (b : Bbr) : Bbr :=
  if b.anyAcked then
    updateRecoveryState { b with currentRoundTripEnd :=
      if b.isRoundStart then b.lastSentPackno else b.currentRoundTripEnd } b.isRoundStart
  else b

/-- Enforce the limits on the congestion window. -/
def limit (cfg : BbrConfig) (cwnd : Nat) : Nat :=
  if cwnd < cfg.minCwnd then cfg.minCwnd else if cfg.maxCwnd < cwnd then cfg.maxCwnd else cwnd

def calculateCwnd (b : Bbr) (e : BbrModel) (excessAcked : Nat) : Nat :=
  if b.modes.mode = .probeRtt then b.cwnd
  else
    let extra := if b.modes.isAtFullBandwidth then e.maxAckHeight
      else if b.cfg.enableAckAggInStartup then excessAcked else 0
    let target := (e.cwndTarget + extra) % 2 ^ 64
    let grown := (b.cwnd + e.bytesAcked) % 2 ^ 64
    limit b.cfg (if b.modes.isAtFullBandwidth then min target grown
      else if b.cwnd < target ∨ e.totalAcked < b.cfg.initCwnd then grown
      else b.cwnd)

def calculateRecoveryWindow (b : Bbr) (e : BbrModel) (inFlight : Nat) : Nat :=
  let flight := (inFlight + e.bytesAcked) % 2 ^ 64
  if b.unconserved || !b.inRecovery then b.recoveryWindow
  else if b.recoveryWindow = 0 then max b.cfg.minCwnd flight
  else
    let left := if b.ackState.lostBytes ≤ b.recoveryWindow then
      b.recoveryWindow - b.ackState.lostBytes else 1460
    let window := if b.recovery = .growth then (left + e.bytesAcked) % 2 ^ 64 else left
    max (max window flight) b.cfg.minCwnd

/-- `lsquic_bbr_end_ack` up to the windows. -/
def updateModel (b : Bbr) (inFlight : Nat) (e : BbrModel) : Bbr :=
  let m := { b.modes with
    isAtFullBandwidth := b.modes.isAtFullBandwidth || b.isRoundStart && e.fullBwReached }
  let m := m.maybeExitStartupOrDrain inFlight e.drainTarget
  let modes := m.maybeEnterOrExitProbeRtt b.ackState.ackTime b.cfg.minCwnd inFlight b.isRoundStart
    (b.anyAcked && e.minRttExpired)
  { b.newlyAcked with modes }

def endAck (b : Bbr) (inFlight : Nat) (e : BbrModel) : Bbr :=
  let b := b.updateModel inFlight e
  { b with
    cwnd := b.calculateCwnd e (if b.anyAcked then e.excessAcked else 0)
    recoveryWindow := b.calculateRecoveryWindow e inFlight }

def step (b : Bbr) : BbrOp → Bbr
  | .sent packno => { b with lastSentPackno := packno }
  | .beginAck ackTime => b.beginAck ackTime
  | .ack packno size => b.ack packno size
  | .lost size => b.lost size
  | .endAck inFlight e => b.endAck inFlight e

/-- The state after the calls, the last of which comes first. -/
def run (cfg : BbrConfig) (ops : List BbrOp) : Bbr := ops.foldr (fun op b => b.step op) { cfg }

/-- The number sent last. -/
def lastSentIn : List BbrOp → Nat
  | .sent packno :: _ => packno
  | _ :: ops => lastSentIn ops
  | [] => 0

/-- A loss was reported since the last `begin_ack`. -/
def lostIn : List BbrOp → Bool
  | .lost _ :: _ => true
  | .beginAck _ :: _ | [] => false
  | _ :: ops => lostIn ops

/-- The numbers and sizes that were acknowledged since the last `begin_ack`. -/
def ackedIn : List BbrOp → List (Nat × Nat)
  | .ack packno size :: ops => (packno, size) :: ackedIn ops
  | .beginAck _ :: _ | [] => []
  | _ :: ops => ackedIn ops

/-- The number sent last when an `end_ack` with acknowledged bytes last found losses. -/
def lossAt : List BbrOp → Nat
  | .endAck _ _ :: ops =>
    if ((ackedIn ops).map Prod.snd).sum != 0 && lostIn ops then lastSentIn ops else lossAt ops
  | _ :: ops => lossAt ops
  | [] => 0

/-- The number sent last when `lsquic_bbr_lost` was last called. -/
def lostAt : List BbrOp → Nat
  | .lost _ :: ops => lastSentIn ops
  | _ :: ops => lostAt ops
  | [] => 0

structure Bounded (b : Bbr) : Prop where
  cwnd : b.cfg.minCwnd ≤ b.cwnd ∧ b.cwnd ≤ b.cfg.maxCwnd
  window : b.inRecovery = true → b.unconserved = false → b.cfg.minCwnd ≤ b.recoveryWindow

/-- The state has what it needs of the calls. -/
structure Tracks (b : Bbr) (ops : List BbrOp) : Prop where
  lastSent : b.lastSentPackno = lastSentIn ops
  losses : b.ackState.hasLosses = lostIn ops
  bytes : b.ackState.ackedBytes = ((ackedIn ops).map Prod.snd).sum
  maxPackno : b.ackState.maxPackno ∈ (ackedIn ops).map Prod.fst ∨
    ackedIn ops = [] ∧ (b.ackState.maxPackno = 0 ∨ 2 ^ 62 ≤ b.ackState.maxPackno)
  endRecovery : b.endRecoveryAt = lossAt ops

section
variable {b : Bbr} {e : BbrModel} {op : BbrOp} {ops : List BbrOp} {cfg : BbrConfig}

theorem Bounded.getCwnd (h : b.Bounded) :
    b.cfg.minCwnd ≤ b.getCwnd ∧ b.getCwnd ≤ b.cfg.maxCwnd := by
  have hc := h.cwnd
  rw [Bbr.getCwnd]
  split
  · exact ⟨Nat.le_refl _, Nat.le_trans hc.1 hc.2⟩
  · split
    next hr =>
      rw [Bool.and_eq_true, Bool.not_eq_true'] at hr
      have hw := h.window hr.1 hr.2
      omega
    · exact hc

theorem calculateCwnd_bounds (h : b.cfg.minCwnd ≤ b.cwnd ∧ b.cwnd ≤ b.cfg.maxCwnd)
    (e : BbrModel) (excess : Nat) :
    b.cfg.minCwnd ≤ b.calculateCwnd e excess ∧ b.calculateCwnd e excess ≤ b.cfg.maxCwnd := by
  have hlimit : ∀ n, b.cfg.minCwnd ≤ limit b.cfg n ∧ limit b.cfg n ≤ b.cfg.maxCwnd := by
    intro n
    rw [limit]
    split
    · omega
    · split
      · omega
      · omega
  rw [calculateCwnd]
  split
  · exact h
  · exact hlimit _

theorem le_calculateRecoveryWindow (hr : b.inRecovery = true) (hu : b.unconserved = false)
    (e : BbrModel) (inFlight : Nat) : b.cfg.minCwnd ≤ b.calculateRecoveryWindow e inFlight := by
  simp only [calculateRecoveryWindow, hr, hu, Bool.not_true, Bool.or_false, Bool.false_eq_true,
    if_false]
  split
  · exact Nat.le_max_left ..
  · exact Nat.le_max_right ..

theorem newlyAcked_spec (b : Bbr) :
    b.newlyAcked.cfg = b.cfg ∧ b.newlyAcked.cwnd = b.cwnd ∧
    b.newlyAcked.lastSentPackno = b.lastSentPackno ∧ b.newlyAcked.ackState = b.ackState ∧
    b.newlyAcked.endRecoveryAt =
      if b.anyAcked && b.ackState.hasLosses then b.lastSentPackno else b.endRecoveryAt := by
  rw [newlyAcked]
  cases b.anyAcked with
  | true => exact ⟨rfl, rfl, rfl, rfl, rfl⟩
  | false => exact ⟨rfl, rfl, rfl, rfl, rfl⟩

theorem exits_of_nextRecovery (hr : b.inRecovery = true) (h : b.nextRecovery r = .notInRecovery) :
    b.exitsRecovery = true := by
  cases hx : b.exitsRecovery with
  | true => rfl
  | false =>
    cases hb : b.recovery with
    | notInRecovery => simp [inRecovery, hb] at hr
    | conservation => cases r <;> simp [nextRecovery, hb, hx] at h
    | growth => simp [nextRecovery, hb, hx] at h

theorem newlyAcked_exit (hr : b.inRecovery = true) (hr' : b.newlyAcked.inRecovery = false) :
    b.anyAcked = true ∧ b.ackState.hasLosses = false ∧ b.endRecoveryAt < b.ackState.maxPackno := by
  cases ha : b.anyAcked with
  | false =>
    rw [newlyAcked, ha] at hr'
    cases hr.symm.trans hr'
  | true =>
    rw [newlyAcked, ha] at hr'
    have hx := exits_of_nextRecovery hr (bne_eq_false_iff_eq.1 hr')
    simpa [exitsRecovery] using hx

theorem Bounded.step (h : b.Bounded) (op : BbrOp) : (b.step op).Bounded := by
  cases op with
  | endAck inFlight e =>
    obtain ⟨hcfg, hcwnd, -⟩ := b.newlyAcked_spec
    have hb := h.cwnd
    rw [← hcfg, ← hcwnd] at hb
    exact ⟨@calculateCwnd_bounds (b.updateModel inFlight e) hb e _, fun hr hu =>
      @le_calculateRecoveryWindow (b.updateModel inFlight e) hr hu e inFlight⟩
  | _ => exact ⟨h.cwnd, h.window⟩

theorem Tracks.step (h : b.Tracks ops) (op : BbrOp) : (b.step op).Tracks (op :: ops) := by
  obtain ⟨hsent, hlost, hbytes, hmax, hend⟩ := h
  cases op with
  | sent packno => exact ⟨rfl, hlost, hbytes, hmax, hend⟩
  | beginAck ackTime =>
    exact ⟨hsent, rfl, rfl, .inr ⟨rfl, .inr (by simp [Bbr.step, beginAck])⟩, hend⟩
  | lost size => exact ⟨hsent, rfl, hbytes, hmax, hend⟩
  | ack packno size =>
    refine ⟨hsent, hlost, ?_, .inl ?_, hend⟩
    · simp only [Bbr.step, ack, ackedIn, List.map_cons, List.sum_cons, hbytes, Nat.add_comm]
    · simp only [Bbr.step, ack, ackedIn, List.map_cons]
      split
      · exact .head _
      next hc =>
        rcases hmax with hmax | ⟨-, hmax⟩
        · exact .tail _ hmax
        · have heq : b.ackState.maxPackno = packno := by omega
          rw [heq]
          exact .head _
  | endAck inFlight e =>
    obtain ⟨-, -, hsent', hack, hend'⟩ := b.newlyAcked_spec
    have hack' : (b.endAck inFlight e).ackState = b.ackState := hack
    refine ⟨hsent'.trans hsent, ?_, ?_, ?_, ?_⟩
    · exact (congrArg (·.hasLosses) hack).trans hlost
    · exact (congrArg (·.ackedBytes) hack).trans hbytes
    · rw [Bbr.step, hack']
      exact hmax
    · rw [lossAt, ← hbytes, ← hlost, ← hsent, ← hend]
      exact hend'

theorem run_bounded (hmin : cfg.minCwnd ≤ cfg.initCwnd) (hmax : cfg.initCwnd ≤ cfg.maxCwnd)
    (ops : List BbrOp) : (run cfg ops).Bounded ∧ (run cfg ops).Tracks ops := by
  induction ops with
  | nil =>
    exact ⟨⟨⟨hmin, hmax⟩, fun h => by simp [run, inRecovery] at h⟩, rfl, rfl, rfl,
      .inr ⟨rfl, .inl rfl⟩, rfl⟩
  | cons op ops ih => exact ⟨ih.1.step op, ih.2.step op⟩

theorem run_cfg (cfg : BbrConfig) (ops : List BbrOp) : (run cfg ops).cfg = cfg := by
  induction ops with
  | nil => rfl
  | cons op ops ih =>
    cases op with
    | endAck inFlight e => exact (newlyAcked_spec _).1.trans ih
    | _ => exact ih

/-- The window is within its bounds after any calls, and recovery is only left by an `end_ack`
without losses, by a number that was sent after the losses that an ACK was processed with. -/
theorem bbr_window (hmin : cfg.minCwnd ≤ cfg.initCwnd) (hmax : cfg.initCwnd ≤ cfg.maxCwnd)
    (ops : List BbrOp) :
    cfg.minCwnd ≤ (run cfg ops).getCwnd ∧ (run cfg ops).getCwnd ≤ cfg.maxCwnd ∧
    ∀ op, (run cfg ops).inRecovery = true → (run cfg (op :: ops)).inRecovery = false →
      (∃ inFlight e, op = .endAck inFlight e) ∧ lostIn ops = false ∧
        ∃ p ∈ (ackedIn ops).map Prod.fst, lossAt ops < p := by
  obtain ⟨hb, ht⟩ := run_bounded hmin hmax ops
  have hc := hb.getCwnd
  rw [run_cfg] at hc
  refine ⟨hc.1, hc.2, fun op hr hr' => ?_⟩
  cases op with
  | endAck inFlight e =>
    obtain ⟨ha, hl, hlt⟩ := newlyAcked_exit hr hr'
    rw [ht.losses] at hl
    rw [ht.endRecovery] at hlt
    refine ⟨⟨inFlight, e, rfl⟩, hl, _, ht.maxPackno.resolve_right fun h => ?_, hlt⟩
    rw [anyAcked, ht.bytes, h.1] at ha
    cases ha
  | _ => cases hr.symm.trans hr'

/-- A packet is acknowledged and another one lost, and then one is acknowledged that was sent after
that. -/
def recovered : List BbrOp :=
  [.ack 11 1000, .beginAck 0, .sent 11, .endAck 0 {}, .lost 1000, .ack 2 1000, .beginAck 0,
    .sent 10]

theorem bbr_window_recovered : (run {} recovered).inRecovery = true ∧
    (run {} (.endAck 0 {} :: recovered)).inRecovery = false ∧ 5840 ≤ (run {} recovered).getCwnd ∧
    ∃ p ∈ (ackedIn recovered).map Prod.fst, lossAt recovered < p := by
  have hin : (run {} recovered).inRecovery = true := by decide
  have hout : (run {} (.endAck 0 {} :: recovered)).inRecovery = false := by decide
  obtain ⟨hlo, -, hexit⟩ := @bbr_window {} (by decide) (by decide) recovered
  exact ⟨hin, hout, hlo, (hexit _ hin hout).2.2⟩

/-- A loss between two ACKs does not move the end of recovery. -/
theorem bbr_leaves_early :
    let ops := [BbrOp.ack 15 1000, .beginAck 0, .lost 1000, .sent 20, .endAck 0 {}, .lost 1000,
      .ack 1 1000, .beginAck 0, .sent 10]
    (run {} ops).inRecovery = true ∧ (run {} (.endAck 0 {} :: ops)).inRecovery = false ∧
    ∀ p ∈ (ackedIn ops).map Prod.fst, p ≤ lostAt ops := by
  decide

end

end Bbr

end QuicArt
