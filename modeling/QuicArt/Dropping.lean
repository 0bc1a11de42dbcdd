import QuicArt.Scheduling

namespace QuicArt
namespace SendCtl

section
variable (env : Env)

def writePiece (c : Content) (pk : PacketOut) : PacketOut :=
  { pk with
    frameTypes := c.frameTypes
    frecs := c.frecs
    dataSz := c.dataSz
    regenSz := c.regenSz
    streamEnd := c.streamEnd }

/-- A piece of a packet that is being split: it inherits the packet number space and the
path. -/
def piece (s : SendCtl) (victim : PktId) (c : Content) : PacketOut :=
  let pk := s.pkt victim
  writePiece c (s.freshPacket env (s.calcPacknoBits env) pk.pns pk.path)

/-- The packet in pieces that have the room of a new packet on its path. -/
def resizeOne (s : SendCtl) (p : PktId) : List Content × Nat × Bool :=
  env.resize s.tick (s.ticked.piece env p {}).nAlloc [s.pkt p]

def insertLostPiece (victim : PktId) (s : SendCtl) (c : Content) : SendCtl :=
  let new := s.nextId
  let s := s.ticked.alloc (s.piece env victim c)
  let s := s.setQueue .lost (insertBefore victim new (s.queue .lost))
  s.upd new ({ · with lost := true })

/-- `split_lost_packet`: `false` is the -1 of a failed or unexpected resize. -/
def splitLostPacket (s : SendCtl) (p : PktId) : SendCtl × Bool :=
  let (pieces, _, isError) := s.resizeOne env p
  let s := pieces.foldl (insertLostPiece env p) s.ticked
  if isError || decide (pieces.length ≤ 1) then (s, false)
  else
    let s := (s.lostRemove p).upd p ({ · with lost := false })
    ((s.destroyChain env p none).1, true)

def isWriteReset (s : SendCtl) (id : StreamId) : Bool := s.writeReset.contains id

def popLostPacket (s : SendCtl) (p : PktId) : SendCtl :=
  (s.lostRemove p).upd p ({ · with lost := false, retx := true })

/-- The size is taken before the chain goes; for a replica the counters are adjusted once more. -/
def dropElidedLost (s : SendCtl) (p : PktId) : SendCtl :=
  let s := (s.lostRemove p).upd p ({ · with lost := false })
  let packetSz := (s.pkt p).sentSize env
  let s := (s.destroyChain env p none).1
  if (s.pkt p).fakeLossRec = 1 then
    { s with
      nInFlightAll := s.nInFlightAll - 1
      bytesUnackedAll := s.bytesUnackedAll - packetSz }
  else s

def elideLost (s : SendCtl) (p : PktId) : SendCtl :=
  let pk := s.pkt p
  if pk.frameTypes.has FrameType.stream.bit && !pk.mini then
    s.upd p fun pk => (pk.elideResetStreamFrames s.isWriteReset none).1
  else s

/-- The loop of `send_ctl_next_lost`. A packet is held against the limit of the current path. -/
def nextLostLoop : Nat → SendCtl → Option PktId → SendCtl × Option PktId
  | 0, s, _ => (s, none)
  | _ + 1, s, none => (s, none)
  | n + 1, s, some p =>
    let next := nextOf p (s.queue .lost)
    let eligible := (s.pkt p).frameTypes.has FrameType.stream.bit && !(s.pkt p).mini
    let s := s.elideLost p
    let pk := s.pkt p
    if eligible && decide (pk.dataSz ≤ pk.regenSz) then
      nextLostLoop n (s.dropElidedLost env p) next
    else
      let (s, allowed) : SendCtl × Bool :=
        if pk.fakeLossRec ≠ 0 ∧ 0 < pk.retransPacketNumber then (s, true) else s.canSend env
      if !allowed then nextLostLoop n s next
      else if pk.totalSz env ≤ env.scPackSize s.tick then (s.popLostPacket p, some p)
      else
        match s.splitLostPacket env p with
        | (s, true) =>
          match (s.queue .lost).head? with
          | some first => (s.popLostPacket first, some first)
          | none => (s, none)
        | (s, false) => (s, none)

def nextLost (s : SendCtl) : SendCtl × Option PktId :=
  nextLostLoop env (s.queue .lost).length s (s.queue .lost).head?

/-- One round of the loop in `lsquic_send_ctl_reschedule_packets`. -/
def reschedule (s : SendCtl) (p : PktId) : SendCtl :=
  let pk := s.pkt p
  let oldPackno := if pk.retransNo ≠ 0 then pk.retransNo else pk.packno
  let s := (s.updateForResending p).upd p ({ · with retransNo := oldPackno })
  let s := s.scheduledOne env p
  let pk := s.pkt p
  if pk.frameTypes ≠ FrameType.padding.bit ∧ pk.frameTypes.has FrameType.stream.bit ∧
      s.artAlarm = none then
    { s.ticked with artAlarm := some (env.timeNow s.tick + 1) }
  else s

/-- `lsquic_send_ctl_reschedule_packets`, followed for at most the given number of rounds. -/
def reschedulePackets : Nat → SendCtl → SendCtl
  | 0, s => s
  | n + 1, s =>
    match s.nextLost env with
    | (s, none) => s
    | (s, some p) => reschedulePackets n (s.reschedule env p)

def dropSched (s : SendCtl) (p : PktId) : SendCtl :=
  ((s.schedRemove env p).destroyChain env p none).1

/-- `visit` edits a scheduled packet and says whether it goes. -/
def dropSchedOne (visit : SendCtl → PktId → SendCtl × Bool) (st : SendCtl × Nat) (p : PktId) :
    (SendCtl × Nat) × Option PktId :=
  let next := nextOf p (st.1.queue .scheduled)
  let (s, drop) := visit st.1 p
  if drop then ((s.dropSched env p, st.2 + 1), next) else ((s, st.2), next)

def dropSchedLoop (visit : SendCtl → PktId → SendCtl × Bool) (s : SendCtl) : SendCtl × Nat :=
  scan (fun _ _ => true) (dropSchedOne env visit) (s.queue .scheduled).length (s, 0)
    (s.queue .scheduled).head?

/-- Packets that survive the squeeze give back their encrypted data. -/
def squeezeVisit (s : SendCtl) (p : PktId) : SendCtl × Bool :=
  let pk := s.pkt p
  if pk.regenSz < pk.dataSz ∨ pk.frameTypes = FrameType.pathChallenge.bit then
    (s.upd p ({ · with encrypted := false }), false)
  else (s, true)

def squeezeSched (s : SendCtl) : SendCtl :=
  let (s, dropped) := s.dropSchedLoop env squeezeVisit
  if 0 < dropped then s.resetPacknos else s

def dropScheduled (s : SendCtl) : SendCtl :=
  { (s.dropSchedLoop env fun s p => (s, !(s.pkt p).hello)).1 with senhistGapOk := true }

def elideVisit (id : StreamId) (s : SendCtl) (p : PktId) : SendCtl × Bool :=
  let pk := s.pkt p
  if pk.frameTypes.has FrameType.stream.bit && !pk.mini then
    let adj := (pk.elideResetStreamFrames s.isWriteReset (some id)).2
    let s := { s with bytesScheduled := s.bytesScheduled - adj }.upd p fun pk =>
      (pk.elideResetStreamFrames s.isWriteReset (some id)).1
    (s, (s.pkt p).frameTypes == 0#32)
  else (s, false)

def elideBufferedOne (b : BufPacketType) (id : StreamId) (s : SendCtl) (p : PktId) :
    SendCtl × Option PktId :=
  let next := nextOf p (s.queue (.buffered b))
  if (s.pkt p).frameTypes.has FrameType.stream.bit then
    let s := s.upd p fun pk => (pk.elideResetStreamFrames s.isWriteReset (some id)).1
    if (s.pkt p).frameTypes = 0#32 then
      (s.bufferedRemove b p, next)
    else (s, next)
  else (s, next)

def elideBuffered (id : StreamId) (s : SendCtl) (b : BufPacketType) : SendCtl :=
  s.overQueue (.buffered b) (elideBufferedOne b id)

def elideStreamFrames (s : SendCtl) (id : StreamId) : SendCtl :=
  let (s, dropped) := s.dropSchedLoop env (elideVisit id)
  let s := if 0 < dropped then s.resetPacknos else s
  [BufPacketType.highestPrio, .otherPrio].foldl (elideBuffered id) s

/-- Scheduled packets that go without their chains; those behind them get new numbers. -/
def purgeSchedOne (goes : PacketOut → Bool) (s : SendCtl) (p : PktId) :
    SendCtl × Option PktId :=
  let next := nextOf p (s.queue .scheduled)
  if goes (s.pkt p) then
    ((s.maybeRenumberSchedToRight p).schedRemove env p, next)
  else (s, next)

def cancelPathOne (path : Nat) : SendCtl → PktId → SendCtl × Option PktId :=
  purgeSchedOne env fun pk => pk.path == path

def cancelPathVerification (s : SendCtl) (path : Nat) : SendCtl :=
  s.overQueue .scheduled (cancelPathOne env path)

def emptySchedOne (pns : Pns) : SendCtl → PktId → SendCtl × Option PktId :=
  purgeSchedOne env fun pk => pk.pns == pns

/-- Loss records and poison packets leave the unacked queue without touching the counters. -/
def emptyUnackedOne (pns : Pns) (s : SendCtl) (p : PktId) : SendCtl × Option PktId :=
  let next := nextOf p (s.queue (.unacked pns))
  let pk := s.pkt p
  if pk.lossRec || pk.poison then
    (s.setQueue (.unacked pns) ((s.queue (.unacked pns)).erase p), next)
  else
    ((s.unackedRemove env p (pk.sentSize env)).emit (.ackStreams p), next)

def emptyQueueOne (q : Queue) (pns : Pns) (s : SendCtl) (p : PktId) : SendCtl × Option PktId :=
  let next := nextOf p (s.queue q)
  if (s.pkt p).pns = pns then (s.setQueue q ((s.queue q).erase p), next)
  else (s, next)

def emptyQueues (s : SendCtl) (pns : Pns) : SendCtl :=
  let s := s.overQueue .scheduled (emptySchedOne env pns)
  let s := s.overQueue (.unacked pns) (emptyUnackedOne env pns)
  [Queue.lost, .buffered .highestPrio, .buffered .otherPrio].foldl
    (fun s q => s.overQueue q (emptyQueueOne q pns)) s

def emptyPns (s : SendCtl) (pns : Pns) : SendCtl :=
  let s := s.emptyQueues env pns
  { s with
    retxAlarm := s.retxAlarm.set pns none
    lostAck := s.lostAck.set pns false }

def stashOne (s : SendCtl) (p : PktId) : SendCtl × Option PktId :=
  let next := nextOf p (s.queue (.unacked .app))
  let pk := s.pkt p
  if pk.headerType = .zeroRtt then
    let s := s.unackedRemove env p (pk.sentSize env)
    (s.setQueue .stash (s.queue .stash ++ [p]), next)
  else (s, next)

def stash0rttPackets (s : SendCtl) : SendCtl := s.overQueue (.unacked .app) (stashOne env)

end

end SendCtl
end QuicArt
