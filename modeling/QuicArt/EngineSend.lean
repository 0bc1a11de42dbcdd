import QuicArt.PacketOut

namespace QuicArt

def maxOutBatchSize : Nat := 1024

/-- The number of entries of `batch->packets` and `batch->iov`. -/
def maxOutIovs : Nat := maxOutBatchSize * 2

/-- What sending reads of a connection; the last field says whether it has `ci_packet_too_large`. -/
structure OutConn where
  id : Nat
  ietf : Bool := true
  evanescent : Bool := false
  packetTooLarge : Bool := true
  deriving DecidableEq, Repr

/-- `struct lsquic_packet_out`. The history variable `ticket` counts the packets taken before. -/
structure OutPacket where
  headerType : HeaderType := .notSet
  encrypted : Bool := false
  noencrypt : Bool := false
  dataSz : Nat := 0
  encDataSz : Nat := 0
  sent : Time := 0
  ticket : Nat := 0
  deriving DecidableEq, Repr

def OutPacket.iovLen (p : OutPacket) : Nat := if p.encrypted then p.encDataSz else p.dataSz

/-- One of the Initial, Handshake and 0-RTT packets, which another packet may follow. -/
def OutPacket.coalescable (p : OutPacket) : Bool :=
  p.headerType = .initial || p.headerType = .handshake || p.headerType = .zeroRtt

structure ToCoal where
  prevPacket : OutPacket
  prevSzSum : Nat

inductive EncPackout
  | ok (encDataSz : Nat)
  | nomem
  | badcrypt

inductive SendErrno
  | again | wouldblock | msgsize | other
  deriving DecidableEq, Repr

/-- An element of `batch->outs`, with its packets and its connection. -/
structure Datagram where
  conn : OutConn
  packets : List OutPacket
  deriving DecidableEq, Repr

/-- `ci_packet_sent`, `ci_packet_not_sent` or `ci_packet_too_large`. -/
inductive Report
  | sent | notSent | tooLarge
  deriving DecidableEq, Repr

/-- A call of `packets_out`: the time taken before it, the datagram it starts at, and its result. -/
structure OutCall where
  now : Time
  skip : Nat
  nSent : Int
  errno : SendErrno
  deriving DecidableEq, Repr

/-- A packet that fails to be encrypted or copied does so behind others in its datagram. -/
inductive SendEvent
  | took (conn : OutConn) (ticket : Nat)
  | failed (conn : OutConn) (ticket behind : Nat)
  | called (call : OutCall)
  | sendError (conn : OutConn)
  | reported (r : Report) (conn : OutConn) (p : OutPacket)
  deriving DecidableEq, Repr

/-- What the engine calls while it sends; `ownPmi` is for a memory interface of its own. -/
structure EngineIf (ε : Type) where
  ownPmi : Bool := false
  timeNow : ε → Time × ε
  prqNextConn : ε → Option OutConn × ε
  prqDrop : OutConn → ε → ε
  flushEncryption : OutConn → ε → ε
  nextPacketToSend : OutConn → Option ToCoal → ε → Option OutPacket × ε
  encryptPacket : OutConn → OutPacket → ε → EncPackout × ε
  copyPacket : OutConn → OutPacket → ε → Bool × ε
  packetsOut : List Datagram → ε → (Int × SendErrno) × ε
  report : Report → OutConn → OutPacket → ε → ε

/-- `struct conns_out_iter`. The heap is the list of what `lsquic_mh_pop` returns. -/
structure ConnsOutIter where
  heap : List OutConn := []
  prq : Bool := true
  active : List OutConn := []
  inactive : List OutConn := []
  next : Option OutConn := none

/-- The callees' state, the iterator, the batch, and the variables of `send_packets_out`. -/
structure SendState (ε : Type) where
  env : ε
  iter : ConnsOutIter := {}
  outs : List Datagram := []
  iovs : Nat := 0
  batchSize : Nat := 32
  minBatchSize : Nat := 4
  maxBatchSize : Nat := 1024
  coalesce : Bool := true
  procTimeThresh : Bool := false
  deadline : Time := 0
  pastDeadline : Bool := false
  canSend : Bool := true
  resumeSendingAt : Time := 0
  lastSent : Time := 0
  closed : List OutConn := []
  ticked : List OutConn := []
  shrink : Bool := false
  nBatchesSent : Nat := 0
  taken : Nat := 0
  trace : List SendEvent := []

namespace ConnsOutIter

def after (conn : OutConn) (l : List OutConn) : Option OutConn :=
  (l.dropWhile (· != conn)).tail.head?

def deactivate (iter : ConnsOutIter) (conn : OutConn) : ConnsOutIter :=
  if conn.evanescent then iter
  else
    { iter with
      active := iter.active.erase conn
      inactive := iter.inactive ++ [conn] }

def reactivate (iter : ConnsOutIter) (conn : OutConn) : ConnsOutIter :=
  { iter with
    inactive := iter.inactive.erase conn
    active := iter.active ++ [conn] }

end ConnsOutIter

namespace SendState

variable {ε : Type}

def coiNext (I : EngineIf ε) (st : SendState ε) : Option OutConn × SendState ε :=
  match st.iter.heap with
  | conn :: heap =>
    (some conn, { st with iter := { st.iter with heap, active := st.iter.active ++ [conn] } })
  | [] =>
    let (conn?, env) := if st.iter.prq then I.prqNextConn st.env else (none, st.env)
    match conn? with
    | some conn => (some conn, { st with env })
    | none =>
      match st.iter.active with
      | [] => (none, { st with env })
      | first :: _ =>
        let conn := st.iter.next.getD first
        (some conn,
          { st with
            env
            iter :=
              { st.iter with
                prq := false
                next := ConnsOutIter.after conn st.iter.active } })

def log (st : SendState ε) (e : SendEvent) : SendState ε := { st with trace := st.trace ++ [e] }

def closeConnImmediately (st : SendState ε) (conn : OutConn) : SendState ε :=
  { st with
    closed := if conn ∈ st.closed then st.closed else st.closed ++ [conn]
    ticked := st.ticked.erase conn }

def closeConnOnSendError (I : EngineIf ε) (st : SendState ε) (conn : OutConn) : SendState ε :=
  let st := st.log (.sendError conn)
  if conn.evanescent then { st with env := I.prqDrop conn st.env }
  else st.closeConnImmediately conn

/-- A packet is given back to its connection; the buffer of one that was sent is released before. -/
def report (I : EngineIf ε) (r : Report) (conn : OutConn) (st : SendState ε) (p : OutPacket) :
    SendState ε :=
  let p := if r = .sent then { p with encrypted := false } else p
  { st with env := I.report r conn p st.env }.log (.reported r conn p)

/-- `po_sent` is set in the packets of the datagrams from one index on and before another. -/
def stamp (now : Time) (start stop : Nat) (outs : List Datagram) : List Datagram :=
  outs.mapIdx fun i d =>
    if start ≤ i ∧ i < stop then
      { d with packets := d.packets.map fun p => { p with sent := now } }
    else d

def reportSent (I : EngineIf ε) (st : SendState ε) (ds : List Datagram) : SendState ε :=
  ds.foldl (fun st d => d.packets.foldl (report I .sent d.conn) st) st

/-- In reverse order; the connection is visited again. -/
def giveBack (I : EngineIf ε) (st : SendState ε) (d : Datagram) : SendState ε :=
  let st := d.packets.reverse.foldl (report I .notSent d.conn) st
  if d.conn ∈ st.iter.active || d.conn.evanescent then st
  else { st with iter := st.iter.reactivate d.conn }

/-- The branch of `send_batch` for a call that could not send everything. -/
def cannotSend (I : EngineIf ε) (st : SendState ε) (now : Time) (nSent : Nat) (e : SendErrno) :
    SendState ε :=
  let st := { st with canSend := false, resumeSendingAt := now + 1000000 }
  if e = .again ∨ e = .wouldblock then st
  else
    match st.outs[nSent]? with
    | some d => st.closeConnOnSendError I d.conn
    | none => st

/-- `restart_batch` as far as the call of `packets_out`. -/
def callOut (I : EngineIf ε) (st : SendState ε) (skip : Nat) : OutCall × List Datagram × ε :=
  let t := I.timeNow st.env
  let outs := stamp t.1 skip (st.outs.length - skip) st.outs
  let res := I.packetsOut (outs.drop skip) t.2
  (⟨t.1, skip, res.1.1, res.1.2⟩, outs, res.2)

/-- From the call of `packets_out` to the end of the loop over the datagrams that were sent. -/
def afterCall (I : EngineIf ε) (st : SendState ε) (c : OutCall) : SendState ε :=
  let st := st.log (.called c)
  let st :=
    if c.nSent < (st.outs.length - c.skip : Nat) ∧ c.errno ≠ .msgsize then
      st.cannotSend I c.now c.nSent.toNat c.errno
    else st
  let st := if 0 < c.nSent then { st with lastSent := c.now + c.nSent.toNat } else st
  st.reportSent I ((st.outs.drop c.skip).take c.nSent.toNat)

/-- The end of `send_batch`: the datagrams from an index on are given back. -/
def giveBackFrom (I : EngineIf ε) (st : SendState ε) (i : Nat) : SendState ε :=
  (st.outs.drop i).reverse.foldl (giveBack I) st

/-- The batch starts again at another datagram, or `send_batch` returns. -/
inductive Outcome
  | restart (skip : Nat)
  | done (w : Nat)
  deriving DecidableEq

/-- `send_batch` from `restart_batch` on. -/
def attempt (I : EngineIf ε) (st : SendState ε) (skip : Nat) : SendState ε × Outcome :=
  let (call, outs, env) := st.callOut I skip
  let st := { st with env, outs }.afterCall I call
  let i := skip + call.nSent.toNat
  match st.outs[i]? with
  | none => (st.giveBackFrom I i, .done i)
  | some d =>
    if call.errno = .msgsize then
      match d.packets with
      | [p] =>
        if d.conn.packetTooLarge then
          (st.report I .tooLarge d.conn p,
            if i + 1 < st.outs.length then .restart (i + 1) else .done (skip + st.outs.length))
        else ((st.closeConnOnSendError I d.conn).giveBackFrom I i, .done i)
      | _ => ((st.closeConnOnSendError I d.conn).giveBackFrom I i, .done i)
    else (st.giveBackFrom I i, .done i)

/-- `restart_batch` is reached at most so many times. -/
def sendFrom (I : EngineIf ε) : Nat → SendState ε → Nat → SendState ε × Nat
  | 0, st, skip => (st, skip)
  | fuel + 1, st, skip =>
    match st.attempt I skip with
    | (st, .restart skip) => sendFrom I fuel st skip
    | (st, .done w) => (st, w)

def applyHp (I : EngineIf ε) (st : SendState ε) : SendState ε :=
  { st with
    env := (st.iter.active ++ st.iter.inactive).foldl (fun env conn => I.flushEncryption conn env)
      st.env }

def sendBatch (I : EngineIf ε) (st : SendState ε) : SendState ε × Nat :=
  (st.applyHp I).sendFrom I st.outs.length 0

def checkDeadline (I : EngineIf ε) (st : SendState ε) : Bool × SendState ε :=
  if st.procTimeThresh then
    let (now, env) := I.timeNow st.env
    if st.deadline < now then (true, { st with env, pastDeadline := true })
    else (false, { st with env })
  else (false, st)

def growBatchSize (st : SendState ε) : SendState ε :=
  { st with batchSize := min (st.batchSize * 2) st.maxBatchSize }

def shrinkBatchSize (st : SendState ε) : SendState ε :=
  { st with batchSize := max (st.batchSize / 2) st.minBatchSize }

/-- A packet that `ci_next_packet_to_send` returned. -/
def take (st : SendState ε) (conn : OutConn) (p : OutPacket) : SendState ε × OutPacket :=
  ({ st with taken := st.taken + 1 }.log (.took conn st.taken), { p with ticket := st.taken })

/-- A packet gets ready for sending: it is encrypted or copied, unless that is not needed. -/
def prepare (I : EngineIf ε) (st : SendState ε) (conn : OutConn) (p : OutPacket) :
    EncPackout × ε :=
  if !(p.encrypted || p.noencrypt) then I.encryptPacket conn p st.env
  else if p.noencrypt && I.ownPmi then
    let (ok, env) := I.copyPacket conn p st.env
    (if ok then .ok p.dataSz else .nomem, env)
  else (.ok p.encDataSz, st.env)

def prepares (I : EngineIf ε) (p : OutPacket) : Bool :=
  !(p.encrypted || p.noencrypt) || p.noencrypt && I.ownPmi

/-- The datagram is complete, or an exit of the loop was taken, to `end_for` or to the next
connection. -/
inductive Placed (ε : Type)
  | full (st : SendState ε) (packets : List OutPacket)
  | endFor (st : SendState ε)
  | nextConn (st : SendState ε)

def failPacket (I : EngineIf ε) (st : SendState ε) (conn : OutConn) (p : OutPacket) (behind : Nat) :
    SendState ε :=
  (st.log (.failed conn p.ticket behind)).report I .notSent conn p

/-- A connection with packets that cannot be encrypted is closed and not visited any more. -/
def leaveConn (st : SendState ε) (conn : OutConn) : SendState ε :=
  if conn.evanescent then st
  else
    let st := st.closeConnImmediately conn
    { st with iter := st.iter.deactivate conn }

/-- The code from `next_coa` on: the free entries, and the packets already in the datagram. -/
def place (I : EngineIf ε) (conn : OutConn) (room : Nat) (before : List OutPacket) (p : OutPacket)
    (st : SendState ε) : Placed ε :=
  let (enc, env) := st.prepare I conn p
  let st := { st with env }
  match enc with
  | .nomem => .endFor (st.failPacket I conn p before.length)
  | .badcrypt => .nextConn ((st.failPacket I conn p before.length).leaveConn conn)
  | .ok encDataSz =>
    let p := if prepares I p then { p with encrypted := true, encDataSz } else p
    let st := { st with iovs := st.iovs + 1 }
    let packets := before ++ [p]
    match room with
    | 0 => .full st packets
    | room + 1 =>
      if conn.ietf && p.coalescable && st.coalesce then
        match I.nextPacketToSend conn (some ⟨p, (packets.map OutPacket.iovLen).sum⟩) st.env with
        | (none, env) => .full { st with env } packets
        | (some next, env) =>
          let (st, next) := take { st with env } conn next
          place I conn room packets next st
      else .full st packets

def emptyBatch (st : SendState ε) : SendState ε :=
  { st with outs := [], iovs := 0, nBatchesSent := st.nBatchesSent + 1 }

def addDatagram (I : EngineIf ε) (st : SendState ε) (d : Datagram) : Bool × SendState ε :=
  let st := { st with outs := st.outs ++ [d] }
  if st.outs.length = st.batchSize ∨ maxOutIovs ≤ st.iovs then
    let (st, w) := st.sendBatch I
    let st := st.emptyBatch
    if w < st.batchSize then (false, { st with shrink := true })
    else
      match st.checkDeadline I with
      | (true, st) => (false, st)
      | (false, st) => (true, st.growBatchSize)
  else (true, st)

/-- A round of the loop of `send_packets_out`, which goes on with true. -/
def round (I : EngineIf ε) (st : SendState ε) : Bool × SendState ε :=
  match st.coiNext I with
  | (none, st) => (false, st)
  | (some conn, st) =>
    match I.nextPacketToSend conn none st.env with
    | (none, env) => (true, { st with env, iter := st.iter.deactivate conn })
    | (some p, env) =>
      let (st, p) := take { st with env } conn p
      match place I conn (maxOutIovs - st.iovs - 1) [] p st with
      | .full st packets => st.addDatagram I ⟨conn, packets⟩
      | .endFor st => (false, st)
      | .nextConn st => (true, st)

/-- The loop of `send_packets_out`, if it ends after so many rounds. -/
def rounds (I : EngineIf ε) : Nat → SendState ε → Option (SendState ε)
  | 0, _ => none
  | fuel + 1, st =>
    match st.round I with
    | (true, st) => rounds I fuel st
    | (false, st) => some st

def sendRest (I : EngineIf ε) (st : SendState ε) : SendState ε :=
  if 0 < st.outs.length then
    let (st', w) := st.sendBatch I
    { st' with shrink := w < st.outs.length, nBatchesSent := st'.nBatchesSent + 1 }
  else st

/-- `send_packets_out` from `end_for` on. -/
def endFor (I : EngineIf ε) (st : SendState ε) : SendState ε :=
  let st := st.sendRest I
  if st.shrink then st.shrinkBatchSize
  else if 1 < st.nBatchesSent then
    match st.checkDeadline I with
    | (true, st) => st
    | (false, st) => st.growBatchSize
  else st

/-- `coi_init` and the other initialisations of `send_packets_out`; the history starts here. -/
def start (st : SendState ε) : SendState ε :=
  { st with
    iter := { heap := st.iter.heap }
    outs := []
    iovs := 0
    shrink := false
    nBatchesSent := 0
    taken := 0
    trace := [] }

/-- `send_packets_out`, if its loop ends after so many rounds. -/
def sendPacketsOut (I : EngineIf ε) (fuel : Nat) (st : SendState ε) : Option (SendState ε) :=
  (st.start.rounds I fuel).map (endFor I)

end SendState

end QuicArt
