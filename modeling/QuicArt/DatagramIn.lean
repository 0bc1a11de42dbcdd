import QuicArt.HeaderParse

namespace QuicArt

/-- An incoming packet: the references to it, and those that connections have. -/
structure PacketObj where
  inPool : Bool := false
  refcnt : Nat := 0
  owned : Nat := 0
  deriving DecidableEq, Repr

namespace PacketObj

def mmPut (o : PacketObj) : PacketObj := { o with inPool := true }

def upref (o : PacketObj) : PacketObj := { o with refcnt := o.refcnt + 1 }

def keep (o : PacketObj) (n : Nat) : PacketObj :=
  { o with refcnt := o.refcnt + n, owned := o.owned + n }

def downref (o : PacketObj) : PacketObj := { o with refcnt := o.refcnt - 1 }

def put (o : PacketObj) : PacketObj := if o.downref.refcnt = 0 then o.downref.mmPut else o.downref

def Settled (o : PacketObj) : Prop := o.inPool = true ∨ 0 < o.owned

end PacketObj

/-- Only mini and full IETF connections have the credit against amplification. -/
inductive ConnKind
  | mini | full | gquic
  deriving DecidableEq, Repr

/-- `imc_bytes_in`, or the credit of a full connection's path: a count that does not reach `2 ^ 32`.
-/
structure InConn where
  kind : ConnKind
  bytesIn : Nat := 0
  deriving DecidableEq, Repr

def iquicTagLen : Nat := 16

namespace InConn

def setBytes (conn : InConn) (n : Nat) : InConn := { conn with bytesIn := n }

def countGarbage (conn : InConn) (size : Nat) : InConn :=
  match conn.kind with
  | .mini => conn.setBytes (conn.bytesIn + size)
  -- this one assigns
  | .full => conn.setBytes size
  | .gquic => conn

/-- `ci_packet_in`. A full connection counts a new packet that it has decrypted, without the tag. -/
def packetIn (conn : InConn) (size : Nat) (accepts : Bool) : InConn :=
  match conn.kind with
  | .mini => conn.setBytes (conn.bytesIn + size)
  | .full => if accepts then conn.setBytes (conn.bytesIn + (size - iquicTagLen)) else conn
  | .gquic => conn

end InConn

/-- The side, the settings, and the outcomes of the calls: the pool, new connections, `find_conn`,
and for each packet the references taken and whether a full connection accepts it. -/
structure InEnv where
  isServer : Bool
  knowsAddr : Bool
  parser : PacketParser
  cidLen : Nat
  honorPrst : Bool
  canGet : Nat → Bool
  takeOn : PacketIn → Option Bool
  find : PacketIn → Option Nat
  keeps : Nat → Nat
  accepts : Nat → Bool

def InEnv.parse (env : InEnv) (mem : List UInt8) : Option PacketIn :=
  (if env.isServer then PacketParser.server else env.parser).run env.cidLen mem

/-- The connections of the engine, by their IDs; those that are not in use yet have no bytes in. -/
structure InTable where
  hash : List UInt8 → Option Nat
  conn : Nat → InConn
  next : Nat
  unused : ∀ c, next ≤ c → (conn c).bytesIn = 0

/-- The connections, `curr_conn`, the objects taken from the pool, latest first, and `n_zeroes`. -/
structure InState where
  hash : List UInt8 → Option Nat
  conn : Nat → InConn
  next : Nat
  curr : Option Nat := none
  objs : List PacketObj := []
  nZeroes : Nat := 0

namespace InState

def setConn (st : InState) (c : Nat) (conn : InConn) : InState :=
  { st with conn := fun i => if i = c then conn else st.conn i }

def get (st : InState) : InState := { st with objs := {} :: st.objs }

def onLast (st : InState) (f : PacketObj → PacketObj) : InState :=
  { st with objs := st.objs.head?.toList.map f ++ st.objs.tail }

def maybeCountGarbage (st : InState) (size : Nat) : InState :=
  match st.curr with
  | some c => st.setConn c ((st.conn c).countGarbage size)
  | none => st

def create (st : InState) (dcid : List UInt8) (kind : ConnKind) : InState :=
  { st with
    hash := fun cid => if cid = dcid then some st.next else st.hash cid
    conn := fun i => if i = st.next then { kind } else st.conn i
    next := st.next + 1 }

def findOrCreate (env : InEnv) (st : InState) (p : PacketIn) : InState × Option Nat :=
  if p.connId = false then (st, none)
  else
    match st.hash p.dcid with
    | some c => (st, some c)
    | none =>
      match env.takeOn p with
      | some ietf => (st.create p.dcid (if ietf then .mini else .gquic), some st.next)
      | none => (st, none)

def setCurr (st : InState) (conn : Option Nat) : InState :=
  { st with curr := if st.curr.isSome then st.curr else conn }

def zero (st : InState) : InState := { st with nZeroes := st.nZeroes + 1 }

def deliver (env : InEnv) (st : InState) (p : PacketIn) (c : Nat) : InState :=
  ((st.setConn c ((st.conn c).packetIn p.dataSz (env.accepts st.objs.length))).onLast fun o =>
    (o.upref.keep (env.keeps st.objs.length)).put).zero

def connFor (env : InEnv) (st : InState) (p : PacketIn) : InState × Option Nat :=
  if env.isServer then
    let r := st.findOrCreate env p
    (r.1.setCurr r.2, r.2)
  else (st, env.find p)

/-- `process_packet_in`; the flag says that a connection has it. -/
def processPacketIn (env : InEnv) (st : InState) (p : PacketIn) : InState × Bool :=
  if p.gquic = true ∧ p.publicFlags &&& 2 ≠ 0 ∧ env.honorPrst = false then
    (st.onLast .mmPut, false)
  else
    let r := st.connFor env p
    match r.2 with
    | some c => (r.1.deliver env p c, true)
    | none => (r.1.onLast .mmPut, false)

def result (st : InState) (s : Int) : Int := if 0 < st.nZeroes then 0 else s

end InState

def PacketIn.sameCid (p : PacketIn) (cid : List UInt8) : Bool :=
  !p.gquic && p.connId && p.dcid == cid

/-- The loop of `lsquic_engine_packet_in`: the rest, whether it is the start, `is_ietf` and `cid`.
-/
def packetInLoop (env : InEnv) : Nat → List UInt8 → Bool → Bool → List UInt8 → InState →
    Option (InState × Int)
  | 0, _, _, _, _, _ => none
  | fuel + 1, mem, start, isIetf, cid, st =>
    if env.canGet st.objs.length = false then some (st, -1)
    else
      let st := st.get
      match env.parse mem with
      | none =>
        let st := (st.maybeCountGarbage mem.length).onLast .mmPut
        some (st, st.result 1)
      | some p =>
        let rest := mem.drop p.dataSz
        if isIetf = true ∧ start = false ∧ p.sameCid cid = false then
          -- the object is not put back here
          let st := st.maybeCountGarbage p.dataSz
          if rest.isEmpty then some (st, st.result 0)
          else packetInLoop env fuel rest false isIetf cid st
        else
          let isIetf := !p.gquic
          let cid := if isIetf && !rest.isEmpty then p.dcid else cid
          let r := st.processPacketIn env p
          if r.2 then
            if rest.isEmpty then some (r.1, r.1.result 0)
            else packetInLoop env fuel rest false isIetf cid r.1
          else some (r.1, r.1.result 1)

/-- The payload of a UDP datagram: its length has 16 bits. -/
structure UdpDatagram where
  bytes : List UInt8
  size_lt : bytes.length < 2 ^ 16

def InTable.start (table : InTable) : InState :=
  { hash := table.hash, conn := table.conn, next := table.next }

def enginePacketIn (env : InEnv) (table : InTable) (d : UdpDatagram) : Option (InState × Int) :=
  if env.isServer = false ∧ env.knowsAddr = false then some (table.start, -1)
  else packetInLoop env (d.bytes.length + 1) d.bytes true false [] table.start

end QuicArt
