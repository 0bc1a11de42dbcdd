import QuicArt.AckProcessing

namespace QuicArt
namespace SendCtl

section
variable (env : Env)

def allBytesOut (s : SendCtl) : Nat := u32 (s.bytesScheduled + s.bytesUnackedAll)

def regularCanSend (s : SendCtl) : SendCtl × Bool :=
  let nOut := s.allBytesOut
  if env.pace then
    if env.cwnd s.tick ≤ nOut then (s.ticked, false)
    else if env.pacerCanSchedule s.tick then (s.ticked, true)
    else ({ s.ticked with schedTick := false }, false)
  else (s.ticked, decide (nOut < env.cwnd s.tick))

/-- `lsquic_send_ctl_can_send`, before and after the path is validated. -/
def canSend (s : SendCtl) : SendCtl × Bool :=
  if s.preHsk ∧ env.bytesIn s.tick * 2 + env.bytesIn s.tick / 2 ≤
      env.bytesOut s.tick + u32 s.bytesScheduled then
    (s.ticked, false)
  else s.regularCanSend env

def smallestUnacked (s : SendCtl) : Int :=
  match (allPns env).findSome? fun pns => (s.queue (.unacked pns)).head? with
  | some p => (s.pkt p).packno
  | none => s.lastSent + if env.ietf then 0 else 1

def calcPacknoBits (s : SendCtl) : Nat :=
  min (env.calcPacknoBits (s.curPackno + 1) (s.smallestUnacked env)
    (env.cwnd s.tick / env.scPackSize s.tick)) s.maxPacknoBits

def guessPacknoBits : Nat := 1

def packnoBits (s : SendCtl) (pns : Pns) : Nat :=
  if s.ackRecv.get pns then
    if s.bufferStream then guessPacknoBits else s.calcPacknoBits env
  else env.vintVal2bits (s.curPackno + 1)

def pns2hety : Pns → HeaderType
  | .init => .initial
  | .hsk => .handshake
  | .app => .notSet

/-- A packet as `send_ctl_allocate_packet` hands it out. -/
def freshPacket (s : SendCtl) (bits : Nat) (pns : Pns) (path : Nat) : PacketOut :=
  let tokenLen := if pns = .init then s.tokenSz.getD 0 else 0
  { packnoBits := bits
    nAlloc := env.packSize path - (env.headerSz (pns2hety pns) bits 0 path + env.tagLen) - tokenLen
    tokenLen := tokenLen
    headerType := pns2hety pns
    pns := pns
    path := path
    ecn := s.ecn
    data := env.dataAddr s.tick
    lossChain := s.nextId }

/-- `send_ctl_allocate_packet`. A packet that is given up again is not recorded. -/
def allocatePacket (s : SendCtl) (bits needAtLeast : Nat) (pns : Pns) (path : Nat) :
    SendCtl × Option PktId :=
  let overhead := env.headerSz (pns2hety pns) bits 0 path + env.tagLen
  let size := env.packSize path - overhead
  if !env.malo s.tick || decide (env.packSize path ≤ overhead) || decide (size < needAtLeast) ||
      (decide (pns = .init) && s.tokenSz.any fun tokenSz => decide (size ≤ tokenSz)) then
    (s.ticked, none)
  else
    (s.ticked.alloc (s.freshPacket env bits pns path), some s.nextId)

def write (c : Content) (pk : PacketOut) : PacketOut :=
  { pk with
    frameTypes := pk.frameTypes ||| c.frameTypes
    frecs := pk.frecs ++ c.frecs
    dataSz := pk.dataSz + c.dataSz
    regenSz := pk.regenSz + c.regenSz
    streamEnd := pk.streamEnd || c.streamEnd
    hello := pk.hello || c.hello
    headerType := c.headerType.getD pk.headerType
    encLevel := max pk.encLevel c.encLevel
    ack2ed := if c.frameTypes.has FrameType.ack.bit then c.ack2ed else pk.ack2ed }

def newPacketOut (s : SendCtl) (needAtLeast : Nat) (pns : Pns) (path : Nat) :
    SendCtl × Option PktId :=
  match s.allocatePacket env (s.packnoBits env pns) needAtLeast pns path with
  | (s, none) => (s, none)
  | (s, some p) =>
    let s := s.nextPackno
    (s.upd p ({ · with packno := s.curPackno }), some p)

def scheduledOne (s : SendCtl) (p : PktId) : SendCtl := s.schedAppend env p

/-- A new packet is written to and scheduled; MTU probes are made this way too. -/
def scheduleNew (s : SendCtl) (needAtLeast : Nat) (pns : Pns) (path : Nat) (c : Content) :
    SendCtl :=
  match s.newPacketOut env needAtLeast pns path with
  | (s, none) => s
  | (s, some p) =>
    (s.upd p fun pk => { write c pk with mtuProbe := c.mtuProbe }).scheduledOne env p

def updateForResending (s : SendCtl) (p : PktId) : SendCtl :=
  let s := s.nextPackno
  let s := s.upd p fun pk =>
    { pk with
      hasSentSz := false
      frameTypes := pk.frameTypes &&& ~~~ bquicFrameRegenMask
      packno := s.curPackno
      ecn := s.ecn }
  let pk := s.pkt p
  if pk.regenSz ≠ 0 then
    let s := if pk.sched then { s with bytesScheduled := s.bytesScheduled - pk.regenSz } else s
    s.upd p PacketOut.chopRegen
  else s

def resetPacknos (s : SendCtl) : SendCtl :=
  (s.queue .scheduled).foldl (fun s p => s.upd p ({ · with repackno := true }))
    { s with curPackno := s.lastSent }

def getNConsecRtos (s : SendCtl) : SendCtl × Nat :=
  if s.nConsecRtos ≠ 0 ∧ s.lastRtoTime + s.calculatePacketRto < s.lastSentTime then
    ({ s with nConsecRtos := 0 }, 0)
  else (s, s.nConsecRtos)

def predictSkips (pk : PacketOut) : Bool :=
  pk.repackno && pk.regenSz == pk.dataSz && pk.frameTypes != FrameType.pathChallenge.bit

/-- The loop of `lsquic_send_ctl_next_packet_to_send_predict`; `nRtos` is `none` until it is
initialised. -/
def predictLoop (s : SendCtl) (nRtos : Option Nat) : List PktId → SendCtl × Bool
  | [] => (s, false)
  | p :: l =>
    let pk := s.pkt p
    let (s, nRtos, blocked) : SendCtl × Option Nat × Bool :=
      if !pk.hasAck && s.nextLimit == 0 then
        match nRtos with
        | none => let (s, n) := s.getNConsecRtos; (s, some n, n != 0)
        | some n => (s, some n, n != 0)
      else (s, nRtos, false)
    if blocked then (s, false)
    else if predictSkips pk then predictLoop s nRtos l
    else (s, true)

def nextPacketToSendPredict (s : SendCtl) : SendCtl × Bool :=
  s.predictLoop none (s.queue .scheduled)

/-- The sum of the sizes of scheduled packets that fit into the padded datagram. -/
def coalescedSize (s : SendCtl) (limit : Nat) : Nat → List PktId → Nat
  | cumSize, [] => cumSize
  | cumSize, p :: l =>
    let size := (s.pkt p).totalSz env
    if limit < cumSize + size then cumSize
    else if (s.pkt p).headerType = .notSet then cumSize + size
    else coalescedSize s limit (cumSize + size) l

def maybeZeroPad (s : SendCtl) (p : PktId) (limit : Nat) : SendCtl :=
  let pk := s.pkt p
  let cumSize := pk.totalSz env
  if limit ≤ cumSize then s
  else
    let size := min (limit - s.coalescedSize env limit cumSize (s.queue .scheduled)) pk.avail
    if size ≠ 0 then
      s.upd p fun pk =>
        { pk with
          dataSz := pk.dataSz + size
          frameTypes := pk.frameTypes ||| FrameType.padding.bit }
    else s

/-- Initial packets of a client, and ackable ones of a server, are padded to a full datagram. -/
def padInitial (s : SendCtl) (p : PktId) (prevSz : Nat) : SendCtl :=
  if (s.pkt p).headerType = .initial ∧
      (!env.server ∨ (s.pkt p).frameTypes.has iquicFrameAckableMask) ∧ prevSz < 1200 then
    s.maybeZeroPad env p (1200 - prevSz)
  else s

def setQlBits (s : SendCtl) (p : PktId) : SendCtl :=
  let pk := s.pkt p
  let s := s.upd p ({ · with logQlBits := true, lossBit := s.lossCount != 0 })
  let s := { s with lossCount := s.lossCount - 1 }
  if pk.headerType = .notSet then
    let count := if s.gap + 1 = pk.packno then s.squareCount + 1 else s.squareCount
    { s with squareCount := count + 1 }.upd p ({ · with squareBit := count &&& 64 != 0 })
  else s

def noteLimited (s : SendCtl) (p : PktId) (decLimit : Bool) : SendCtl :=
  let s := s.upd p ({ · with limited := decLimit })
  if decLimit then { s with nextLimit := s.nextLimit - 1 } else s

/-- `struct to_coal`: the size of the packets already in the datagram. -/
structure ToCoal where
  prevSzSum : Nat
  deriving DecidableEq, Repr

def refused (s : SendCtl) (pk : PacketOut) : Option ToCoal → Bool
  | some tc => decide (env.scPackSize s.tick < pk.totalSz env + tc.prevSzSum) ||
      !env.equalDcids s.tick
  | none => false

/-- The part of `lsquic_send_ctl_next_packet_to_send` after the packet has its number. -/
def takeHead (s : SendCtl) (p : PktId) (toCoal : Option ToCoal) (decLimit : Bool) :
    SendCtl × Option PktId :=
  if s.refused env (s.pkt p) toCoal then (s.ticked, none)
  else
    let s := (s.ticked.schedRemove env p).noteLimited p decLimit
    let s := s.padInitial env p ((toCoal.map (·.prevSzSum)).getD 0)
    (if s.qlBits then s.setQlBits p else s, some p)

def nextPacketLoop (toCoal : Option ToCoal) : Nat → SendCtl → SendCtl × Option PktId
  | 0, s => (s, none)
  | n + 1, s =>
    match (s.queue .scheduled).head? with
    | none => (s, none)
    | some p =>
      let pk := s.pkt p
      let (s, nRtos) := if pk.hasAck then (s, 0) else s.getNConsecRtos
      if nRtos ≠ 0 ∧ s.nextLimit = 0 then (s, none)
      else if pk.repackno then
        if pk.regenSz < pk.dataSz ∧ pk.frameTypes ≠ FrameType.padding.bit then
          let s := (s.updateForResending p).upd p ({ · with repackno := false })
          s.takeHead env p toCoal (nRtos != 0)
        else
          let s := s.schedRemove env p
          nextPacketLoop toCoal n (s.destroyChain env p none).1
      else s.takeHead env p toCoal (nRtos != 0)

/-- `lsquic_send_ctl_next_packet_to_send`; each turn of the loop shortens the queue. -/
def nextPacketToSend (s : SendCtl) (toCoal : Option ToCoal) : SendCtl × Option PktId :=
  nextPacketLoop env toCoal ((s.queue .scheduled).length + 1) s

/-- The next packet is encrypted to `encSz` bytes, sent and reported. A failed report aborts the
connection. -/
def sendNext (s : SendCtl) (toCoal : Option ToCoal) (encSz : Nat) (now : Time) : SendCtl :=
  match s.nextPacketToSend env toCoal with
  | (s, none) => s
  | (s, some p) =>
    let s := s.upd p ({ · with sent := now, sentSz := encSz, hasSentSz := true })
    match s.sentPacket env p with
    | (s, true) => s
    | (s, false) => { s with aborted := true }

end

end SendCtl
end QuicArt
