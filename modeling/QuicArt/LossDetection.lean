import QuicArt.LossChain

namespace QuicArt
namespace SendCtl

section
variable (env : Env)

def largestRetxPacketNumber (s : SendCtl) (pns : Pns) : Int :=
  match s.lastUnackedRetxPacket env pns with
  | some p => (s.pkt p).packno
  | none => 0

/-- A lost replica is reported to the feedback window once. -/
def recordReplicaLoss (s : SendCtl) (p : PktId) : SendCtl :=
  if (s.pkt p).fakeLossRec = 1 ∧ (s.pkt p).feedbackRecorded = 0 then
    (s.recordFeedback env p 1).upd p ({ · with feedbackRecorded := 1 })
  else s

def mayBeLost (pk : PacketOut) : Bool :=
  !pk.lost && (pk.fakeLossRec == 0 || decide (pk.needRetransNumber ≤ pk.retransPacketNumber))

def lostByFack (s : SendCtl) (p : PktId) : Bool :=
  (s.pkt p).packno + s.reordThresh < s.largestAckedPackno

def lostByEarlyRetransmit (s : SendCtl) (largestRetx : Int) (p : PktId) : Bool :=
  largestRetx ≠ 0 && (s.pkt p).frameTypes.has env.retxFrames && !(s.pkt p).mtuProbe &&
    decide (largestRetx ≤ s.largestAckedPackno)

def lostByTime (s : SendCtl) (p : PktId) : Bool :=
  (s.pkt p).sent + s.rttStats.srtt < s.largestAckedSentTime

structure Detection where
  ctl : SendCtl
  largestLost : Int

def markDetected (s : SendCtl) (p : PktId) : SendCtl :=
  (s.upd p ({ · with beenDetectLoss := 1 })).emit (.declared p)

def detectByFack (d : Detection) (p : PktId) (next : Option PktId) :
    Detection × Option PktId :=
  let pk := d.ctl.pkt p
  if pk.lossRec then ({ d with ctl := d.ctl.recordReplicaLoss env p }, next)
  else if pk.mtuProbe then ({ d with ctl := d.ctl.handleLostMtuProbe env p }, next)
  else if mayBeLost pk then
    let (s, r, next) := (d.ctl.markDetected p).handleRegularLostPacket env p next
    let s := match r with
      | some r => s.upd r ({ · with facked := true })
      | none => s
    ({ ctl := s, largestLost := pk.packno }, next)
  else ({ d with largestLost := pk.packno }, next)

def detectEarly (d : Detection) (p : PktId) (next : Option PktId) :
    Detection × Option PktId :=
  let pk := d.ctl.pkt p
  if pk.lossRec then ({ d with ctl := d.ctl.recordReplicaLoss env p }, next)
  else
    let s := { d.ctl with lossTo := d.ctl.rttStats.srtt / 4 }
    if mayBeLost pk then
      let (s, next) := (s.markDetected p).handleLostPacket env p next
      ({ ctl := s, largestLost := pk.packno }, next)
    else ({ ctl := s, largestLost := pk.packno }, next)

def detectByTime (d : Detection) (p : PktId) (next : Option PktId) :
    Detection × Option PktId :=
  let pk := d.ctl.pkt p
  if pk.lossRec then ({ d with ctl := d.ctl.recordReplicaLoss env p }, next)
  else
    let largestLost :=
      if pk.frameTypes.has env.retxFrames && !pk.mtuProbe then pk.packno else d.largestLost
    if mayBeLost pk then
      let (s, next) := (d.ctl.markDetected p).handleLostPacket env p next
      ({ ctl := s, largestLost := largestLost }, next)
    else ({ d with largestLost := largestLost }, next)

def detectOne (pns : Pns) (largestRetx : Int) (d : Detection) (p : PktId) :
    Detection × Option PktId :=
  let next := nextOf p (d.ctl.queue (.unacked pns))
  if (d.ctl.pkt p).poison then (d, next)
  else if d.ctl.lostByFack p then detectByFack env d p next
  else if d.ctl.lostByEarlyRetransmit env largestRetx p then detectEarly env d p next
  else if d.ctl.lostByTime p then detectByTime env d p next
  else (d, next)

def detectLoop (s : SendCtl) (pns : Pns) : Detection :=
  scan (fun d p => decide ((d.ctl.pkt p).packno ≤ d.ctl.largestAckedPackno))
    (detectOne env pns (s.largestRetxPacketNumber env pns))
    (s.queue (.unacked pns)).length
    { ctl := { s with lossTo := 0 }, largestLost := 0 }
    (s.queue (.unacked pns)).head?

/-- `send_ctl_detect_losses`. The result is computed with the new `largestSentAtCutback`. -/
def detectLosses (s : SendCtl) (pns : Pns) : SendCtl × Bool :=
  let d := s.detectLoop env pns
  let s := if asU64 d.ctl.largestSentAtCutback < d.largestLost then d.ctl.lossEvent else d.ctl
  (s, decide (asU64 s.largestSentAtCutback < d.largestLost))

inductive ExpireFilter
  | all | hsk | last
  deriving DecidableEq, Repr

def expireOne (pns : Pns) (filter : PacketOut → Bool) (s : SendCtl) (p : PktId) :
    SendCtl × Option PktId :=
  let next := nextOf p (s.queue (.unacked pns))
  if filter (s.pkt p) then s.handleLostPacket env p next else (s, next)

def expireEach (s : SendCtl) (pns : Pns) (filter : PacketOut → Bool) : SendCtl :=
  s.overQueue (.unacked pns) (expireOne env pns filter)

/-- `send_ctl_expire` with its three filters. -/
def expire (s : SendCtl) (pns : Pns) : ExpireFilter → SendCtl
  | .all => s.expireEach env pns fun pk => !pk.lossRec && !pk.poison
  | .hsk => s.expireEach env pns fun pk => pk.hello
  | .last =>
    match s.lastUnackedRetxPacket env pns with
    | some p => (s.handleLostPacket env p none).1
    | none => s

def replicaDue (pk : PacketOut) (now : Time) : Bool :=
  pk.frameTypes.has FrameType.stream.bit && (pk.fakeLossRec != 0) && !pk.lossRec &&
    decide (pk.retransPacketNumber < pk.needRetransNumber) && decide (pk.expectedSent ≤ now)

def artScheduleOne (pns : Pns) (s : SendCtl) (p : PktId) : SendCtl × Option PktId :=
  let now := env.timeNow s.tick
  let s := s.ticked
  let next := nextOf p (s.queue (.unacked pns))
  if replicaDue (s.pkt p) now then
    let s := { s with allRetransPacketNum := s.allRetransPacketNum + 1 }
    let (s, _, next) := s.handleRegularLostPacket env p next
    (s, next)
  else (s, next)

def artSchedulePns (s : SendCtl) (pns : Pns) : SendCtl :=
  s.overQueue (.unacked pns) (artScheduleOne env pns)

/-- `art_schedule`, the callback of the ART alarm. -/
def artSchedule (s : SendCtl) : SendCtl :=
  let s := [Pns.init, .hsk, .app].foldl (artSchedulePns env) s
  if s.artAlarm = none then
    { s.ticked with artAlarm := some (env.timeNow s.tick + 30) }
  else s

def artScheduleAssert (s : SendCtl) : Prop :=
  u32 (s.artSchedule env).nInFlightAll = u32 s.nInFlightAll

end

end SendCtl
end QuicArt
