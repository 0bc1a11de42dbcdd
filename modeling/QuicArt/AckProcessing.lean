import QuicArt.LossDetection

namespace QuicArt

structure PacknoRange where
  low : Int
  high : Int
  deriving DecidableEq, Repr, Inhabited

structure EcnCounts where
  ect0 : Nat
  ect1 : Nat
  ce : Nat
  deriving DecidableEq, Repr

/-- `struct ack_info`, the highest range first; `ecn` is there with the ECN counts. -/
structure AckInfo where
  pns : Pns
  ranges : List PacknoRange
  lackDelta : Time
  ecn : Option EcnCounts
  deriving DecidableEq, Repr

def AckInfo.largestAcked (acki : AckInfo) : Int := (acki.ranges.headD default).high
def AckInfo.smallestAcked (acki : AckInfo) : Int := (acki.ranges.getLastD default).low

def AckInfo.covers (acki : AckInfo) (packno : Int) : Bool :=
  acki.ranges.any fun r => decide (r.low ≤ packno) && decide (packno ≤ r.high)

namespace SendCtl

section
variable (env : Env)

def takeRttSample (s : SendCtl) (now lackDelta : Time) : SendCtl :=
  let measuredRtt := u64sub now s.largestAckedSentTime
  if s.maxRttPackno < s.largestAckedPackno ∧ lackDelta < measuredRtt then
    let st := if s.roughRtt then {} else s.rttStats
    { s with
      roughRtt := false
      maxRttPackno := s.largestAckedPackno
      rttStats := st.update measuredRtt lackDelta }
  else s

def maybeIncreaseReordThresh (s : SendCtl) (r : PktId) (prevLargestAcked : Int) : SendCtl :=
  if (s.pkt r).facked ∧ (s.pkt r).packno + s.reordThresh < prevLargestAcked then
    { s with reordThresh := prevLargestAcked - (s.pkt r).packno }
  else s

/-- The local variables of the loop in `lsquic_send_ctl_got_ack`; `ranges` runs up from the current
range, `ack2ed` is `ack2ed[1]`. -/
structure AckLoop where
  ctl : SendCtl
  ranges : List PacknoRange
  skipChecks : Bool := false
  doRtt : Bool := false
  ack2ed : Int := 0
  ecnTotalAcked : Nat := 0
  ecnCeCnt : Nat := 0
  oneRttCnt : Nat := 0
  poisoned : Bool := false

/-- Move to the range that may hold the packet number. -/
def AckLoop.advance (st : AckLoop) (packno : Int) : AckLoop :=
  if st.skipChecks then st
  else { st with ranges := st.ranges.dropWhile fun r => decide (r.high < packno) }

def AckLoop.inRange (st : AckLoop) (packno : Int) : Bool :=
  st.skipChecks || match st.ranges.head? with
    | some r => decide (r.low ≤ packno)
    | none => false

/-- Take an acknowledged entry off its unacked queue; `none` is the poison packet. -/
def ackEntry (s : SendCtl) (pns : Pns) (prevLargestAcked : Int) (p : PktId) :
    Option SendCtl :=
  let pk := s.pkt p
  if !pk.lossRec && !pk.poison && !pk.mtuProbe then
    some ((s.unackedRemove env p (pk.sentSize env)).emit (.ackStreams p))
  else if pk.lossRec then
    let s := if pk.fakeLossRec = 1 then
        { s with
          nInFlightAll := s.nInFlightAll - 1
          bytesUnackedAll := s.bytesUnackedAll - pk.sentSz }
      else s
    let s := s.setQueue (.unacked pns) ((s.queue (.unacked pns)).erase p)
    some (s.maybeIncreaseReordThresh p prevLargestAcked)
  else if pk.mtuProbe then
    some (s.unackedRemove env p (pk.sentSize env))
  else none

/-- What is done for every acknowledged entry: a replica also reports its delivery. -/
def noteAcked (s : SendCtl) (p : PktId) : SendCtl :=
  let pk := s.pkt p
  let s := { s with largestAckedPackno := pk.packno, largestAckedSentTime := pk.sent }
  if pk.fakeLossRec = 1 then s.recordFeedback env p 0 else s

def ackOne (acki : AckInfo) (prevLargestAcked : Int) (st : AckLoop) (p : PktId) :
    AckLoop × Option PktId :=
  let pk := st.ctl.pkt p
  let next := nextOf p (st.ctl.queue (.unacked acki.pns))
  let st := st.advance pk.packno
  if st.inRange pk.packno then
    let s := st.ctl.noteAcked env p
    let st := { st with
      skipChecks := st.skipChecks || st.ranges.length == 1
      ecnTotalAcked := st.ecnTotalAcked + (decide (pk.ecn ≠ Ecn.notEct)).toNat
      ecnCeCnt := st.ecnCeCnt + (decide (pk.ecn = Ecn.ce)).toNat
      oneRttCnt := st.oneRttCnt + (decide (pk.encLevel = 3)).toNat }
    match s.ackEntry env acki.pns prevLargestAcked p with
    | none => ({ st with ctl := s, poisoned := true }, next)
    | some s =>
      let (s, next) := s.destroyChain env p next
      ({ st with
          ctl := s
          ack2ed := if pk.frameTypes.has FrameType.ack.bit then pk.ack2ed else st.ack2ed
          doRtt := st.doRtt || pk.packno == acki.largestAcked }, next)
  else (st, next)

def ackLoop (s : SendCtl) (acki : AckInfo) : AckLoop :=
  scan (fun st p => !st.poisoned && decide ((st.ctl.pkt p).packno ≤ acki.largestAcked))
    (ackOne env acki s.largestAckedPackno) (s.queue (.unacked acki.pns)).length
    { ctl := s, ranges := acki.ranges.reverse } (s.queue (.unacked acki.pns)).head?

def processEcn (s : SendCtl) (acki : AckInfo) (totalAcked ceCnt : Nat)
    (lossesDetected : Bool) : SendCtl :=
  match acki.ecn with
  | none => s
  | some counts =>
    if s.ecn = .notEct then s
    else
      let sum := counts.ect0 + counts.ect1 + counts.ce
      let total := s.ecnTotalAcked.get acki.pns + totalAcked
      let ce := s.ecnCeCnt.get acki.pns + ceCnt
      let s := { s with
        ecnTotalAcked := s.ecnTotalAcked.set acki.pns total
        ecnCeCnt := s.ecnCeCnt.set acki.pns ce }
      if total ≤ sum then
        let s := { s with ecnTotalAcked := s.ecnTotalAcked.set acki.pns sum }
        if ce < counts.ce then
          let s := { s with ecnCeCnt := s.ecnCeCnt.set acki.pns counts.ce }
          if lossesDetected then s else s.lossEvent
        else s
      else s.disableEcn

def rearmRetxAlarm (s : SendCtl) (pns : Pns) (now : Time) : SendCtl :=
  match s.firstUnackedRetxPacket env pns with
  | some _ => s.setRetxAlarm env pns now
  | none => { s with retxAlarm := s.retxAlarm.set pns none }

def noteAck2ed (s : SendCtl) (pns : Pns) (ack2ed : Int) : SendCtl :=
  if env.nstp ∧ s.largestAck2ed.get pns < ack2ed then
    { s with largestAck2ed := s.largestAck2ed.set pns ack2ed }
  else s

def noteProgress (s : SendCtl) (oneRttCnt : Nat) : SendCtl :=
  { s with
    wasQuiet := s.wasQuiet || u32 s.nInFlightRetx == 0
    oneRttAcked := s.oneRttAcked || oneRttCnt != 0 }

/-- From the label `detect_losses` up to `update_n_stop_waiting`. -/
def afterAckLoop (st : AckLoop) (acki : AckInfo) (now : Time) : SendCtl :=
  let (s, lossesDetected) := st.ctl.detectLosses env acki.pns
  let s := s.rearmRetxAlarm env acki.pns now
  let s := s.noteAck2ed env acki.pns st.ack2ed
  let s := s.noteProgress st.oneRttCnt
  s.processEcn acki st.ecnTotalAcked st.ecnCeCnt lossesDetected

def countStopWaiting (s : SendCtl) (acki : AckInfo) (smallestUnacked : Int) : SendCtl :=
  if env.nstp ∨ env.ietf then s
  else if acki.smallestAcked < smallestUnacked then { s with nStopWaiting := s.nStopWaiting + 1 }
  else { s with nStopWaiting := 0 }

/-- From the label `update_n_stop_waiting` to the end. -/
def finishAck (s : SendCtl) (acki : AckInfo) (smallestUnacked : Int) : SendCtl :=
  let s := s.countStopWaiting env acki smallestUnacked
  if s.gap < acki.smallestAcked then s.reschedulePoison env else s

def countRoundTrip (s : SendCtl) (largestAcked : Int) : SendCtl :=
  if s.curRtEnd < largestAcked then { s with rtCount := s.rtCount + 1, curRtEnd := s.lastSent }
  else s

/-- The ACK loop with the round trip count before it and the RTT sample after it. -/
def processAckLoop (s : SendCtl) (acki : AckInfo) (ackRecvTime : Time) : AckLoop :=
  let st := (s.countRoundTrip acki.largestAcked).ackLoop env acki
  if !st.poisoned && st.doRtt then
    let s := st.ctl.takeRttSample ackRecvTime acki.lackDelta
    { st with ctl := { s with nConsecRtos := 0, nHsk := 0, nTlp := 0 } }
  else st

/-- `lsquic_send_ctl_got_ack` for a frame that mentions only numbers that were sent. -/
def processAck (s : SendCtl) (acki : AckInfo) (ackRecvTime now : Time) : SendCtl × Bool :=
  match (s.queue (.unacked acki.pns)).head? with
  | none => ({ s with wasQuiet := true }.finishAck env acki (s.lastSent + 1), true)
  | some first =>
    let smallestUnacked := (s.pkt first).packno
    if acki.largestAcked < smallestUnacked then
      ((afterAckLoop env { ctl := s, ranges := [] } acki now).finishAck env acki
        smallestUnacked, true)
    else
      let st := s.processAckLoop env acki ackRecvTime
      if st.poisoned then (st.ctl, false)
      else ((afterAckLoop env st acki now).finishAck env acki smallestUnacked, true)

/-- `lsquic_send_ctl_got_ack`: `false` is the -1 of an ACK that must not have been sent. -/
def gotAck (s : SendCtl) (acki : AckInfo) (ackRecvTime now : Time) : SendCtl × Bool :=
  let s := { s with ackRecv := s.ackRecv.set acki.pns true }
  if asU64 s.lastSent < acki.largestAcked then (s, false)
  else { s with wasQuiet := false }.processAck env acki ackRecvTime now

end

end SendCtl
end QuicArt
