import QuicArt.Buffering

namespace QuicArt

/-- The parser hands over frames with at least one range, the ranges in descending order. -/
def rangesDescend : List PacknoRange → Bool
  | [] => true
  | [r] => decide (r.low ≤ r.high)
  | r :: r' :: l => decide (r'.high < r.low) && decide (r.low ≤ r.high) && rangesDescend (r' :: l)

def AckInfo.wellFormed (acki : AckInfo) : Bool :=
  !acki.ranges.isEmpty && rangesDescend acki.ranges

/-- Parameters of the controller that its users set directly. -/
inductive Setting
  | bufferStream (on : Bool)
  | pathValidated
  | vernegDone
  | qlBits (on : Bool)
  | token (sz : Nat)
  | scheduledAck (pns : Pns) (acked : Int)
  | streamReset (id : StreamId)

inductive Op
  | scheduleNew (needAtLeast : Nat) (pns : Pns) (path : Nat) (c : Content)
  | send (toCoal : Option SendCtl.ToCoal) (encSz : Nat) (now : Time)
  | gotAck (acki : AckInfo) (ackRecvTime now : Time)
  | detectLosses (pns : Pns)
  | artSchedule
  | expire (pns : Pns) (filter : SendCtl.ExpireFilter)
  | retxAlarm (pns : Pns) (now : Time)
  | reschedulePackets (rounds : Nat)
  | bufferStreamData (b : BufPacketType) (needAtLeast path : Nat) (ack : Option Content)
      (c : Content)
  | scheduleBuffered (b : BufPacketType) (rounds : Nat)
  | elideStreamFrames (id : StreamId)
  | squeezeSched
  | resetPacknos
  | dropScheduled
  | cancelPathVerification (path : Nat)
  | emptyPns (pns : Pns)
  | stash0rttPackets
  | resizeQ (q : Queue) (path : Nat)
  | rollback (rb : SendCtl.Rollback)
  | beginOptackDetection
  | set (x : Setting)

namespace SendCtl

def configure (s : SendCtl) : Setting → SendCtl
  | .bufferStream on => { s with bufferStream := on }
  | .pathValidated => { s with preHsk := false }
  | .vernegDone => { s with maxPacknoBits := 3 }
  | .qlBits on => { s with qlBits := on }
  | .token sz => { s with tokenSz := some sz }
  | .scheduledAck pns acked =>
    let s := { s with lostAck := s.lostAck.set pns false }
    if pns = .app then { s with largestAcked := acked } else s
  | .streamReset id => { s with writeReset := id :: s.writeReset }

/-- What the alarm does in the mode it rang in. -/
def retransmit (env : Env) (s : SendCtl) (pns : Pns) (now : Time) : SendCtl :=
  match s.getRetxMode env with
  | .handshake => s.ticked.expire env pns .hsk
  | .loss => (s.ticked.detectLosses env pns).1
  | .tlp => { s.ticked with nTlp := s.nTlp + 1 }.expire env pns .last
  | .rto =>
    { s.ticked with
      lastRtoTime := now
      nConsecRtos := s.nConsecRtos + 1
      nextLimit := 2 }.expire env pns .all

/-- `retx_alarm_rings`; the alarm is unset before the callback runs. -/
def retxAlarmRings (env : Env) (s : SendCtl) (pns : Pns) (now : Time) : SendCtl :=
  let s := { s with retxAlarm := s.retxAlarm.set pns none }.retransmit env pns now
  match s.firstUnackedRetxPacket env pns with
  | some _ => s.setRetxAlarm env pns now
  | none => s

def step (env : Env) (s : SendCtl) : Op → SendCtl
  | .scheduleNew needAtLeast pns path c => s.scheduleNew env needAtLeast pns path c
  | .send toCoal encSz now => s.sendNext env toCoal encSz now
  | .gotAck acki ackRecvTime now => (s.gotAck env acki ackRecvTime now).1
  | .detectLosses pns => (s.detectLosses env pns).1
  | .artSchedule => { s with artAlarm := none }.artSchedule env
  | .expire pns filter => s.expire env pns filter
  | .retxAlarm pns now => s.retxAlarmRings env pns now
  | .reschedulePackets rounds => reschedulePackets env rounds s
  | .bufferStreamData b needAtLeast path ack c => s.bufferStreamData env b needAtLeast path ack c
  | .scheduleBuffered b rounds => s.scheduleBuffered env b rounds
  | .elideStreamFrames id => s.elideStreamFrames env id
  | .squeezeSched => s.squeezeSched env
  | .resetPacknos => s.resetPacknos
  | .dropScheduled => s.dropScheduled env
  | .cancelPathVerification path => s.cancelPathVerification env path
  | .emptyPns pns => s.emptyPns env pns
  | .stash0rttPackets => s.stash0rttPackets env
  | .resizeQ q path => s.resizeQ env q path
  | .rollback rb => s.rollback env rb
  | .beginOptackDetection => s.beginOptackDetection env
  | .set x => s.configure x

def unchained (s : SendCtl) (p : PktId) : Bool := (s.pkt p).lossChain == p

/-- What callers promise: no call after an abort, parsed ACK frames, and what is required of packets
that are freed without their chains. -/
def enabled (s : SendCtl) (op : Op) : Bool :=
  !s.aborted && match op with
    | .gotAck acki _ _ => acki.wellFormed
    | .cancelPathVerification path =>
      (s.queue .scheduled).all fun p => (s.pkt p).path != path || s.unchained p
    | .rollback rb =>
      match (s.queue (s.rollbackQueue rb)).find? fun p => holdsByte (s.pkt p) rb.iovBase with
      | some p => (after p (s.queue (s.rollbackQueue rb))).all s.unchained
      | none => true
    | .resizeQ q _ => match q with
      | .scheduled | .buffered _ => true
      | _ => false
    | _ => true

end SendCtl

theorem not_aborted_of_enabled {s : SendCtl} (he : s.enabled op = true) : s.aborted = false := by
  simp only [SendCtl.enabled, Bool.and_eq_true, Bool.not_eq_true'] at he
  exact he.1

/-- The states that runs reach, from initialisation, by steps of which each meets `P`. -/
inductive Run (env : Env) (P : SendCtl → Op → Prop) : SendCtl → Prop
  | init : Run env P (SendCtl.init env)
  | step (h : Run env P s) (he : s.enabled op = true) (hp : P s op) : Run env P (s.step env op)

abbrev Reachable (env : Env) : SendCtl → Prop := Run env fun _ _ => True

/-- Execute a list of operations; `none` when one of them is not enabled or fails the test. -/
def SendCtl.exec (env : Env) (P : SendCtl → Op → Prop) [∀ s op, Decidable (P s op)] (s : SendCtl) :
    List Op → Option SendCtl
  | [] => some s
  | op :: ops => if s.enabled op = true ∧ P s op then (s.step env op).exec env P ops else none

theorem Run.mono (h : Run env P s) (hPQ : ∀ s op, P s op → Q s op) : Run env Q s := by
  induction h with
  | init => exact .init
  | step _ he hp ih => exact .step ih he (hPQ _ _ hp)

section
variable {env : Env} {P : SendCtl → Op → Prop} [∀ s op, Decidable (P s op)]

theorem Run.exec (h : Run env P s) (ops : List Op) (he : s.exec env P ops = some s') :
    Run env P s' := by
  induction ops generalizing s with
  | nil =>
    simp only [SendCtl.exec, Option.some.injEq] at he
    exact he ▸ h
  | cons op ops ih =>
    simp only [SendCtl.exec] at he
    split at he
    next hen => exact ih (.step h hen.1 hen.2) he
    · cases he

/-- The operations are executed, and the state in which they end is tested. -/
theorem exists_run {Q : SendCtl → Prop} [DecidablePred Q] (ops : List Op)
    (h : ((SendCtl.init env).exec env P ops).any (decide <| Q ·) = true) :
    ∃ s, Run env P s ∧ Q s := by
  obtain ⟨s, he, hQ⟩ := (Option.any_eq_true _ _).1 h
  exact ⟨s, Run.init.exec ops he, of_decide_eq_true hQ⟩

end

/-- `ietf_v1_gen_stream_frame` on stream 0: how many of `size` bytes it writes, and the length of
the frame. -/
def genStreamFrame (room off size : Nat) : Option (Nat × Nat) :=
  let header := 2 + if off = 0 then 0 else 2 ^ vintVal2bits off
  let dlen := if size < room - header then 2 ^ vintVal2bits size else 0
  let n := min size (room - header - dlen)
  if room ≤ header + dlen then none else some (n, header + dlen + n)

/-- `lsquic_packet_resize_next` as long as it has data of the one STREAM frame of a packet. -/
def resizeStream (pk : PacketOut) (f : FrameRec) (room : Nat) :
    Nat → Nat → Nat → List Content × Nat × Bool
  | fuel + 1, off, size + 1 =>
    match genStreamFrame room off (size + 1) with
    | none => ([], 0, true)
    | some (n, len) =>
      let r := resizeStream pk f room fuel (off + n) (size + 1 - n)
      ({ frameTypes := pk.frameTypes, frecs := [{ f with off := 0, len }], dataSz := len,
         streamEnd := len == room } :: r.1, r.2)
  | _, _, _ => ([], 1, false)

theorem genStreamFrame_len (h : genStreamFrame room off size = some (n, len)) :
    0 < len ∧ len ≤ room := by
  simp only [genStreamFrame] at h
  generalize (if off = 0 then 0 else 2 ^ vintVal2bits off) = olen at h
  generalize (if size < room - (2 + olen) then 2 ^ vintVal2bits size else 0) = dlen at h
  split at h
  · cases h
  · cases h
    omega

theorem resizeStream_spec {pk : PacketOut} {f : FrameRec} {room c} (fuel off size : Nat)
    (hc : c ∈ (resizeStream pk f room fuel off size).1) : 0 < c.dataSz ∧ c.dataSz ≤ room ∧
      ∀ f' ∈ c.frecs, f'.frameType = f.frameType ∧ f'.stream = f.stream := by
  induction fuel generalizing off size with
  | zero => cases hc
  | succ fuel ih =>
    cases size with
    | zero => cases hc
    | succ size =>
      simp only [resizeStream] at hc
      split at hc
      · cases hc
      next n len hg =>
        obtain rfl | hc := List.mem_cons.1 hc
        · obtain ⟨hpos, hle⟩ := genStreamFrame_len hg
          exact ⟨hpos, hle, fun f' hf' => by rw [List.mem_singleton.1 hf']; exact ⟨rfl, rfl⟩⟩
        · exact ih _ _ hc

/-- A client of IETF v1 on a machine with memory and a clock that moves with every call. -/
def quietEnv : Env where
  ietf := true
  server := false
  nstp := false
  ecn := false
  pace := false
  malo _ := true
  timeNow t := t
  rand _ := 0
  crandByte _ := 7
  cwnd _ := 43840
  pacerCanSchedule _ := true
  bytesIn _ := 100000
  bytesOut _ := 0
  handshakeDone _ := true
  equalDcids _ := true
  dataAddr t := 10000 * t
  packSize _ := 1370
  curPath _ := 0
  headerSz hety bits tokenLen _ :=
    match hety with
    | .notSet => 1 + 8 + packnoBits2len bits
    | .initial => 24 + (2 ^ vintVal2bits tokenLen + tokenLen) + 2 + packnoBits2len bits
    | _ => 24 + 2 + packnoBits2len bits
  tagLen := 16
  maxPeerAckUsec := 25000
  calcPacknoBits := ietfCalcPacknoBits
  packnoBits2len := packnoBits2len
  vintVal2bits packno := vintVal2bits (asU64 packno).toNat
  resize _ room input :=
    match input with
    | [pk] => match pk.frecs with
      | [f] =>
        -- the frame of a packet that is not full has its length
        let size := pk.dataSz - if pk.avail = 0 then 2 else 4
        resizeStream pk f room size 0 size
      | _ => ([], 0, true)
    | _ => ([], 0, true)

theorem quietEnv_resizes : quietEnv.Resizes := by
  intro tick room input c hc
  simp only [quietEnv] at hc
  split at hc
  next pk =>
    split at hc
    next f hf =>
      obtain ⟨hpos, hle, hfr⟩ := resizeStream_spec _ _ _ hc
      refine ⟨hpos, hle, fun f' hf' => ⟨pk, .head _, f, ?_, hfr f' hf'⟩⟩
      rw [hf]
      exact .head _
    · cases hc
  · cases hc

def streamContent : Content :=
  { frameTypes := FrameType.stream.bit, frecs := [⟨.stream, 0, 0, 100⟩], dataSz := 100 }

def pingContent : Content :=
  { frameTypes := FrameType.ping.bit, frecs := [⟨.ping, 0, 0, 1⟩], dataSz := 1 }

def sendNew (c : Content) : List Op := [.scheduleNew 0 .app 0 c, .send none (c.dataSz + 50) 1000]

def ackOnly (n : Int) : Op := .gotAck ⟨.app, [⟨n, n⟩], 0, none⟩ 1000 1000

def pingAcked (n : Int) : List Op := sendNew pingContent ++ [ackOnly n]

def resend : List Op := [.reschedulePackets 1, .send none 150 1000]

def replicate : List Op := .artSchedule :: resend

/-- Loss detection finds the packet lost; it is sent again, with two replicas. -/
def turn (n : Int) : List Op := pingAcked n ++ resend ++ replicate ++ replicate

/-- A packet goes through turns; `acked` are the numbers of the pings that tell of its losses. -/
def turnsOfPacket (acked : List Int) (last : Int) : List Op :=
  sendNew streamContent ++ [1, 2, 3].flatMap pingAcked ++ acked.flatMap turn ++ pingAcked last

end QuicArt
