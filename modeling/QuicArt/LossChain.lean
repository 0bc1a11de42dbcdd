import QuicArt.SendCtl

namespace QuicArt
namespace SendCtl

section
variable (env : Env)

/-- One round of `send_ctl_destroy_chain`; the caller's cursor moves on when its packet is removed.
-/
def destroyMember (pns : Pns) (s : SendCtl) (next : Option PktId) (cur : PktId) :
    SendCtl × Option PktId :=
  let pk := s.pkt cur
  let skip (q : Queue) := if next = some cur then nextOf cur (s.queue q) else next
  let (s, next) := match pk.sched, pk.unacked, pk.lost with
    | true, false, false => ((s.maybeRenumberSchedToRight cur).schedRemove env cur,
        skip .scheduled)
    | false, true, false =>
      if pk.lossRec then
        let s := if pk.fakeLossRec = 1 then
            { s with
              nInFlightAll := s.nInFlightAll - 1
              bytesUnackedAll := s.bytesUnackedAll - pk.sentSz }
          else s
        (s.setQueue (.unacked pns) ((s.queue (.unacked pns)).erase cur), skip (.unacked pns))
      else
        (s.unackedRemove env cur (pk.sentSize env), skip (.unacked pk.pns))
    | false, false, true => (s.lostRemove cur, skip .lost)
    | _, _, _ => (s, next)
  (if pk.lossRec then s else s.emit (.ackStreams cur), next)

def destroyChainLoop (pns : Pns) (start : PktId) :
    Nat → SendCtl → Option PktId → PktId → SendCtl × Option PktId
  | 0, s, next, _ => (s, next)
  | n + 1, s, next, cur =>
    if cur = start then (s, next)
    else
      let chainNext := (s.pkt cur).lossChain
      let (s, next) := s.destroyMember env pns next cur
      destroyChainLoop pns start n s next chainNext

/-- `send_ctl_destroy_chain`. Each allocated structure is visited at most once. -/
def destroyChain (s : SendCtl) (p : PktId) (next : Option PktId) : SendCtl × Option PktId :=
  let (s, next) :=
    destroyChainLoop env (s.pkt p).pns p s.nextId s next (s.pkt p).lossChain
  (s.upd p ({ · with lossChain := p }), next)

def lossRecordOf (pk : PacketOut) : PacketOut :=
  { unacked := true
    lossRec := true
    hasSentSz := true
    pns := pk.pns
    packno := pk.packno
    retransNo := pk.retransNo
    retransPacketNumber := pk.retransPacketNumber
    fakeLossRec := pk.fakeLossRec
    beenDetectLoss := pk.beenDetectLoss
    retransTimes := pk.retransTimes
    sent := pk.sent
    sentSz := pk.sentSize env
    frameTypes := pk.frameTypes
    lossChain := pk.lossChain
    tx := pk.tx }

/-- `send_ctl_record_loss`; `none` is the failed allocation. -/
def recordLoss (s : SendCtl) (p : PktId) : SendCtl × Option PktId :=
  if env.malo s.tick then
    let pk := s.pkt p
    let r := s.nextId
    let s := s.ticked.alloc (lossRecordOf env pk)
    let s := s.upd p ({ · with lossChain := r })
    let q : Queue := if pk.sched then .scheduled else .unacked pk.pns
    let s := s.setQueue q (insertBefore p r (s.queue q))
    let s := if pk.fakeLossRec = 1 then
        { s with
          nInFlightAll := s.nInFlightAll + 1
          bytesUnackedAll := s.bytesUnackedAll + pk.sentSize env }
      else s
    (s, some r)
  else
    (s.ticked, none)

/-- As `send_ctl_record_feedback_loss` and the ACK loop do it. Without memory the source writes
through a null pointer. -/
def recordFeedback (s : SendCtl) (p : PktId) (value : Nat) : SendCtl :=
  let pk := s.pkt p
  let sample := Event.feedback pk.tx value (pk.feedbackRecorded ≠ 0)
  if maxFeedbackWindowSize ≤ s.feedbackWindowSize then
    { s.emit sample with feedbackWindow := s.feedbackWindow.tail ++ [value] }
  else if env.malo s.tick then
    { s.ticked.emit sample with
      feedbackWindow := s.feedbackWindow ++ [value]
      feedbackWindowSize := s.feedbackWindowSize + 1 }
  else
    s.ticked

/-- `art_duplicate_number`, in exact arithmetic; `m = 0` makes the first bound minus infinity. -/
def artDuplicateNumber (s : SendCtl) (round : Nat) : SendCtl × Nat :=
  let m := s.roundsMap.getD round 0
  let size := if s.feedbackWindowSize = 0 then 1 else s.feedbackWindowSize
  let ones := if s.feedbackWindowSize = 0 then 0 else s.feedbackWindow.count 1
  let m' :=
    if m = 0 ∨ size * m < ones * m + size then u32 (m + 1)
    else if ones * m + 2 * size ≤ size * m then u32 (m - 1)
    else m
  ({ s with roundsMap := s.roundsMap.set round m' }, (s.roundsMap.set round m').getD round 0)

/-- `po_need_retrans_number` for a turn, a 16-bit field. -/
def turnQuota (s : SendCtl) (times : Nat) : Nat :=
  let dupNumber := (s.artDuplicateNumber times).2
  (if 0 < dupNumber then dupNumber else 1) % 65536

/-- A duplicate within the turn of a lost packet, or the start of a new turn. -/
def updateTurn (s : SendCtl) (p : PktId) : SendCtl :=
  let pk := s.pkt p
  let now := env.timeNow s.tick
  let rand := env.rand s.tick
  let s :=
    if pk.fakeLossRec ≠ 0 ∧ !pk.lossRec ∧ pk.beenDetectLoss = 0 then
      let rpn := u16add pk.retransPacketNumber 1
      (s.upd p fun pk => ({ pk with retransPacketNumber := rpn }).scheduleTime false now rand).emit
        (.duplicate p rpn pk.needRetransNumber)
    else
      let times := u16add pk.retransTimes 1
      let need := s.turnQuota times
      let s := (s.artDuplicateNumber times).1
      let minRtt := s.rttStats.minRtt
      (s.upd p fun pk =>
        ({ pk with
            retransTimes := times
            retransNo := if pk.retransNo ≠ 0 then pk.retransNo else pk.packno
            remainedTime := minRtt
            needRetransNumber := need
            fakeLossRec := 1 }).scheduleTime true now rand).emit
        (.newTurn p times pk.retransPacketNumber need)
  s.ticked.upd p ({ · with beenDetectLoss := 0 })

def findDataMember (s : SendCtl) (start : PktId) : Nat → PktId → Option PktId
  | 0, _ => none
  | n + 1, cur =>
    if cur = start then none
    else if (s.pkt cur).lossRec then findDataMember s start n (s.pkt cur).lossChain
    else some cur

/-- The loss is counted unless the packet still has duplicates to send in its turn. -/
def countLoss (s : SendCtl) (p : PktId) : SendCtl :=
  let pk := s.pkt p
  if pk.fakeLossRec = 0 ∨ pk.needRetransNumber ≤ pk.retransPacketNumber then
    let s := { s with lossCount := s.lossCount + 1 }
    let s := if pk.frameTypes.has FrameType.ack.bit then
        { s with lostAck := s.lostAck.set pk.pns true }
      else s
    if s.ecn ≠ .notEct ∧ s.ecnTotalAcked.get .init = 0 ∧ pk.headerType = .initial ∧
        pk.packno = 3 then
      s.disableEcn
    else s
  else s

/-- Put the packet on the lost queue, unless it is there, and advance its turn. -/
def moveToLost (s : SendCtl) (p : PktId) (packetSz : Nat) : SendCtl :=
  let s := if (s.pkt p).lost then s else (s.unackedRemove env p packetSz).lostAppend p
  if (s.pkt p).frameTypes ≠ FrameType.padding.bit ∧
      (s.pkt p).frameTypes.has FrameType.stream.bit then
    s.updateTurn env p
  else s

/-- `send_ctl_handle_regular_lost_packet`: the new state, the loss record and the cursor. -/
def handleRegularLostPacket (s : SendCtl) (p : PktId) (next : Option PktId) :
    SendCtl × Option PktId × Option PktId :=
  let pk := s.pkt p
  let packetSz := pk.sentSize env
  let s := s.countLoss p
  if pk.frameTypes.has env.retxFrames then
    if pk.lossRec then
      let s := { s with
        nInFlightAll := s.nInFlightAll - 1
        bytesUnackedAll := s.bytesUnackedAll - pk.sentSz }
      let s := s.upd p ({ · with fakeLossRec := 0 })
      match s.findDataMember p s.nextId pk.lossChain with
      | none => (s, none, next)
      | some d =>
        let (s, r) := if (s.pkt d).lost then (s, some p) else s.recordLoss env d
        let s := s.upd d ({ · with
          retransTimes := pk.retransTimes
          retransPacketNumber := 0
          fakeLossRec := 0
          beenDetectLoss := 1
          retransNo := pk.retransNo })
        (s.moveToLost env d packetSz, r, next)
    else
      let (s, r) := s.recordLoss env p
      (s.moveToLost env p packetSz, r, next)
  else
    let s := s.unackedRemove env p packetSz
    let (s, next) := s.destroyChain env p next
    (s, none, next)

def handleLostMtuProbe (s : SendCtl) (p : PktId) : SendCtl :=
  s.unackedRemove env p ((s.pkt p).sentSize env)

def handleLostPacket (s : SendCtl) (p : PktId) (next : Option PktId) :
    SendCtl × Option PktId :=
  if (s.pkt p).mtuProbe then (s.handleLostMtuProbe env p, next)
  else
    let (s, _, next) := s.handleRegularLostPacket env p next
    (s, next)

end

end SendCtl
end QuicArt
