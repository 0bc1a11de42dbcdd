import QuicArt.MergeAcks

namespace QuicArt

/-- `MAX_PACKETS`: the largest number that has a bit in `packno_set_t`. -/
def miniMaxPackets : Nat := 63

/-- `struct lsquic_packet_out`; `encDataSz` is there with `PO_ENCRYPTED`, `sentAt` is `po_sent`. -/
structure MiniPacket where
  packno : Nat
  headerType : HeaderType
  nAlloc : Nat
  dataSz : Nat := 0
  frameTypes : FtBits := 0#32
  sent : Bool := false
  encDataSz : Option Nat := none
  sentAt : Nat := 0
  deriving DecidableEq, Repr

namespace MiniPacket

def pns (p : MiniPacket) : Pns := p.headerType.pns

def avail (p : MiniPacket) : Nat := u16sub p.nAlloc p.dataSz

def zeroPad (p : MiniPacket) : MiniPacket :=
  { p with
    dataSz := p.dataSz + p.avail
    frameTypes := p.frameTypes ||| FrameType.padding.bit }

/-- Whether `ietf_mini_conn_ci_next_packet_to_send` pads the packet. -/
def needsPad (p : MiniPacket) : Bool :=
  p.headerType == .initial && !p.frameTypes.has FrameType.padding.bit
    && p.frameTypes.has iquicFrameAckableMask && decide (0 < p.avail)

def padded (p : MiniPacket) : MiniPacket := if p.needsPad then p.zeroPad else p

/-- The padding of `iquic_esf_encrypt_packet`; mini connections use one-byte packet numbers. -/
def hpPad (p : MiniPacket) : MiniPacket :=
  if p.dataSz + 1 < 4 then
    { p with
      dataSz := 3
      frameTypes := p.frameTypes ||| FrameType.padding.bit }
  else p

def setSent (p : MiniPacket) (b : Bool) : MiniPacket := { p with sent := b }

def setEnc (p : MiniPacket) (size? : Option Nat) : MiniPacket := { p with encDataSz := size? }

def setTime (p : MiniPacket) (now : Nat) : MiniPacket := { p with sentAt := now }

/-- Generators do not write more than there is room for. -/
def write (p : MiniPacket) (ty : FrameType) (len : Nat) : MiniPacket :=
  if len ≤ p.avail then
    { p with
      dataSz := p.dataSz + len
      frameTypes := p.frameTypes ||| ty.bit }
  else p

end MiniPacket

/-- A packet that was handed to the network: its number, space and size on the wire. -/
structure Handed where
  packno : Nat
  pns : Pns
  size : Nat
  deriving DecidableEq, Repr

/-- `struct ietf_mini_conn`, as far as it sends; `batch` are the packets taken.  History variables:
`handed` are packets sent, `received` bytes that came in. -/
structure MiniConn where
  dcidLen : Fin 21
  scidLen : Fin 21
  packSize : Fin 65536
  addrValidated : Bool
  ignoreInit : Bool := false
  handshakeDone : Bool := false
  packetsOut : List MiniPacket := []
  nextPackno : Nat := 0
  sentPacknos : Nat := 0
  ackedPacknos : Pns → Nat := fun _ => 0
  bytesIn : Nat := 0
  bytesOut : Nat := 0
  batch : List (Nat × Nat) := []
  handed : List Handed := []
  received : Nat := 0

namespace MiniConn

/-- `ietf_v1_packout_max_header_size`; the server sends no tokens. -/
def headerSize (conn : MiniConn) (ht : HeaderType) : Nat :=
  if conn.handshakeDone ∧ ht = .notSet then 1 + conn.dcidLen + 1
  else 1 + 4 + 1 + conn.dcidLen + 1 + conn.scidLen + (if ht = .initial then 1 else 0) + 2 + 1

def tagLen : Nat := 16

def totalSz (conn : MiniConn) (p : MiniPacket) : Nat :=
  conn.headerSize p.headerType + p.dataSz + tagLen

def setPacket (conn : MiniConn) (q : MiniPacket) : MiniConn :=
  { conn with packetsOut := conn.packetsOut.map fun p => if p.packno = q.packno then q else p }

def find? (conn : MiniConn) (packno : Nat) : Option MiniPacket :=
  conn.packetsOut.find? fun p => p.packno == packno

def canSend (conn : MiniConn) (size : Nat) : Bool :=
  conn.addrValidated || decide (conn.bytesOut + size ≤ conn.bytesIn * 3 % 2 ^ 32)

def openPacket (conn : MiniConn) (ht : HeaderType) (need : Nat) : Option MiniPacket :=
  if need = 0 then none
  else conn.packetsOut.find? fun p => !p.sent && p.headerType == ht && decide (need ≤ p.avail)

def nextNumber (conn : MiniConn) : MiniConn :=
  { conn with nextPackno := (conn.nextPackno + 1) % 256 }

def append (conn : MiniConn) (p : MiniPacket) : MiniConn :=
  { conn with packetsOut := conn.packetsOut ++ [p] }

def freshPacket (conn : MiniConn) (ht : HeaderType) : MiniPacket :=
  { packno := conn.nextPackno
    headerType := ht
    nAlloc := conn.packSize - conn.headerSize ht - tagLen }

/-- `imico_get_packet_out`. Allocation succeeds when `mem` says so. -/
def getPacketOut (conn : MiniConn) (mem : Bool) (ht : HeaderType) (need : Nat) :
    MiniConn × Option MiniPacket :=
  match conn.openPacket ht need with
  | some p => (conn, some p)
  | none =>
    if miniMaxPackets ≤ conn.nextPackno then (conn, none)
    else if conn.packSize ≤ conn.headerSize ht + tagLen ∨ mem = false then (conn, none)
    else (conn.nextNumber.append (conn.freshPacket ht), some (conn.freshPacket ht))

def addFrame (conn : MiniConn) (mem : Bool) (ht : HeaderType) (need : Nat) (ty : FrameType)
    (len : Nat) : MiniConn :=
  match conn.getPacketOut mem ht need with
  | (conn, some p) => conn.setPacket (p.write ty len)
  | (conn, none) => conn

/-- One round of `imico_stream_write`. -/
def streamWrite (conn : MiniConn) (mem : Bool) (ht : HeaderType) (need len : Nat) : MiniConn :=
  if ht.pns = .init ∧ conn.ignoreInit then conn else conn.addFrame mem ht need .crypto len

def generateAck (conn : MiniConn) (mem : Bool) (ht : HeaderType) (len : Nat) : MiniConn :=
  conn.addFrame mem ht 0 .ack len

/-- One round of `imico_generate_conn_close`. -/
def generateConnClose (conn : MiniConn) (mem : Bool) (ht : HeaderType) (need len : Nat) :
    MiniConn :=
  conn.addFrame mem ht need .connectionClose len

def generateHandshakeDone (conn : MiniConn) (mem : Bool) : MiniConn :=
  conn.addFrame mem .notSet 1 .handshakeDone 1

/-- `to_coal` gives the size so far and whether the DCIDs are equal. -/
def refused (conn : MiniConn) (size : Nat) : Option (Nat × Bool) → Bool
  | some (prevSzSum, equalDcids) => decide (conn.packSize < size + prevSzSum) || !equalDcids
  | none => false

def charge (conn : MiniConn) (size : Nat) : MiniConn :=
  { conn with bytesOut := (conn.bytesOut + size) % 2 ^ 32 }

def refund (conn : MiniConn) (size : Nat) : MiniConn :=
  { conn with bytesOut := (conn.bytesOut + 2 ^ 32 - size % 2 ^ 32) % 2 ^ 32 }

def nextPacketToSend (conn : MiniConn) (toCoal : Option (Nat × Bool)) :
    MiniConn × Option MiniPacket :=
  match conn.packetsOut.find? (fun p => !p.sent) with
  | none => (conn, none)
  | some p =>
    let p := p.padded
    let size := conn.totalSz p
    if conn.refused size toCoal || !conn.canSend size then (conn.setPacket p, none)
    else ((conn.setPacket (p.setSent true)).charge size, some (p.setSent true))

def packetNotSent (conn : MiniConn) (p : MiniPacket) : MiniConn :=
  (conn.setPacket (p.setSent false)).refund (conn.totalSz p)

/-- `iquic_esf_encrypt_packet`: there are no keys yet, or the packet is padded and there is no
memory or the cipher fails. -/
inductive Encryption
  | ok | noKeys | failed
  deriving DecidableEq, Repr

def enqueue (conn : MiniConn) (packno size : Nat) : MiniConn :=
  { conn with batch := conn.batch ++ [(packno, size)] }

/-- A packet is taken, encrypted if it is not yet, and put into the batch. -/
def take (conn : MiniConn) (toCoal : Option (Nat × Bool)) (enc : Encryption) : MiniConn :=
  match conn.nextPacketToSend toCoal with
  | (conn, none) => conn
  | (conn, some p) =>
    match p.encDataSz, enc with
    | some size, _ => conn.enqueue p.packno size
    | none, .ok =>
      let size := conn.totalSz p.hpPad
      (conn.setPacket (p.hpPad.setEnc (some size))).enqueue p.packno size
    | none, .noKeys => conn.packetNotSent p
    | none, .failed => conn.packetNotSent p.hpPad

/-- The packet was sent: its buffer is released and `ietf_mini_conn_ci_packet_sent` is called. -/
def packetSent (conn : MiniConn) (packno now : Nat) : MiniConn :=
  match conn.batch.find? (·.1 == packno), conn.find? packno with
  | some (n, size), some p =>
    { conn.setPacket ((p.setEnc none).setTime now) with
      batch := conn.batch.erase (n, size)
      sentPacknos := conn.sentPacknos ||| 2 ^ p.packno
      handed := conn.handed ++ [⟨p.packno, p.pns, size⟩] }
  | _, _ => conn

/-- The packet was not sent and is given back to the connection. -/
def packetReturned (conn : MiniConn) (packno now : Nat) : MiniConn :=
  match conn.batch.find? (·.1 == packno), conn.find? packno with
  | some (n, size), some p =>
    { conn with batch := conn.batch.erase (n, size) }.packetNotSent (p.setTime now)
  | _, _ => conn

/-- `imico_return_enc_data` for the packets that are encrypted and not sent. -/
def returnEncData (conn : MiniConn) : MiniConn :=
  { conn with
    packetsOut := conn.packetsOut.map fun p => if p.sent then p else p.setEnc none }

def renumbered (conn : MiniConn) (p : MiniPacket) : MiniPacket :=
  { p with
    packno := conn.nextPackno
    sent := false
    encDataSz := none }

/-- `imico_repackage_packet`; a packet for which there is no number is destroyed. -/
def repackagePacket (conn : MiniConn) (p : MiniPacket) : MiniConn :=
  if miniMaxPackets < conn.nextPackno then conn.nextNumber
  else conn.nextNumber.append (conn.renumbered p)

/-- The first loop of `imico_handle_losses_and_have_unsent`: what stays and what is lost. -/
def splitLost (conn : MiniConn) (retxTo now : Nat) : List MiniPacket →
    List MiniPacket × List MiniPacket
  | [] => ([], [])
  | p :: ps =>
    if p.sent then
      if p.sentAt + retxTo < now then
        ((conn.splitLost retxTo now ps).1, p :: (conn.splitLost retxTo now ps).2)
      else (p :: (conn.splitLost retxTo now ps).1, (conn.splitLost retxTo now ps).2)
    else if conn.canSend (conn.totalSz p) then
      (p :: (conn.splitLost retxTo now ps).1, (conn.splitLost retxTo now ps).2)
    else (p :: ps, [])

def resendLost (conn : MiniConn) : List MiniPacket → MiniConn
  | [] => conn
  | p :: ps =>
    if p.frameTypes.has iquicFrameRetxMask then (conn.repackagePacket p).resendLost ps
    else conn.resendLost ps

def handleLosses (conn : MiniConn) (retxTo now : Nat) : MiniConn :=
  let r := conn.splitLost retxTo now conn.packetsOut
  { conn with packetsOut := r.1 }.resendLost r.2

/-- `ignore_init`; the Handshake packet also validates the address. -/
def dropInit (conn : MiniConn) : MiniConn :=
  { conn with
    addrValidated := true
    ignoreInit := true
    packetsOut := conn.packetsOut.filter fun p => p.pns != .init }

end MiniConn

def packnoSetNot (s : Nat) : Nat := (2 ^ 64 - 1) ^^^ s

/-- The loop of `imico_process_ack_frame`; there is no set when a number is too large. -/
def ackedSet : List Span → Nat → Option Nat
  | [], acked => some acked
  | r :: rs, acked =>
    if r.high ≤ miniMaxPackets then
      ackedSet rs ((acked ||| (2 ^ r.high ||| (2 ^ r.high - 1))) &&& packnoSetNot (2 ^ r.low - 1))
    else none

/-- `imico_process_ack_frame`: whether the frame is accepted, whether the assertions hold, and what
it removes. -/
structure AckOutcome where
  accepted : Bool
  asserted : Bool
  removed : List MiniPacket
  conn : MiniConn

/-- `imico_process_ack_frame`; the assertions are on the packet's space and, in
`imico_take_rtt_sample`, its time. -/
def MiniConn.processAckFrame (conn : MiniConn) (pns : Pns) (frame : AckFrame) : AckOutcome :=
  match ackedSet frame.ranges 0 with
  | none => ⟨false, true, [], conn⟩
  | some acked =>
    if acked &&& packnoSetNot conn.sentPacknos ≠ 0 then ⟨false, true, [], conn⟩
    else
      let removed := conn.packetsOut.filter fun p => 2 ^ p.packno &&& acked != 0
      { accepted := true
        asserted := removed.all fun p =>
          p.pns == pns && (p.packno != (frame.ranges.headD default).high || p.sentAt != 0)
        removed := removed
        conn :=
          { conn with
            packetsOut := conn.packetsOut.filter fun p => 2 ^ p.packno &&& acked == 0
            ackedPacknos := fun n =>
              if n = pns then conn.ackedPacknos n ||| acked else conn.ackedPacknos n } }

/-- `ietf_mini_conn_ci_packet_in` ignores Initial packets after the first Handshake packet and puts
off those of the application space. -/
def MiniConn.handles (conn : MiniConn) : Pns → Bool
  | .init => !conn.ignoreInit
  | .hsk => conn.ignoreInit
  | .app => false

/-- What happens to a mini connection. The clock never shows zero. -/
inductive MiniOp
  | bytesIn (size : Nat)
  | addrValidated
  | hskPacketIn
  | hskDone
  | packSize (size : Nat)
  | streamWrite (mem : Bool) (ht : HeaderType) (need len : Nat)
  | generateAck (mem : Bool) (ht : HeaderType) (len : Nat)
  | generateConnClose (mem : Bool) (ht : HeaderType) (need len : Nat)
  | generateHandshakeDone (mem : Bool)
  | losses (retxTo now : Nat)
  | ack (pns : Pns) (frame : AckFrame)
  | closeRecvd
  | returnEncData
  | take (toCoal : Option (Nat × Bool)) (enc : MiniConn.Encryption)
  | sent (packno now : Nat) (ticking : 0 < now)
  | notSent (packno now : Nat) (ticking : 0 < now)

def MiniOp.sending : MiniOp → Bool
  | .take .. | .sent .. | .notSent .. => true
  | _ => false

namespace MiniConn

def apply (conn : MiniConn) : MiniOp → MiniConn
  | .bytesIn size =>
    { conn with
      bytesIn := (conn.bytesIn + size) % 2 ^ 32
      received := conn.received + size }
  | .addrValidated => { conn with addrValidated := true }
  | .hskPacketIn => conn.dropInit
  | .hskDone => { conn with handshakeDone := true }
  | .packSize size => if h : size < conn.packSize then
      { conn with packSize := ⟨size, Nat.lt_trans h conn.packSize.isLt⟩ } else conn
  | .streamWrite mem ht need len => conn.streamWrite mem ht need len
  | .generateAck mem ht len => conn.generateAck mem ht len
  | .generateConnClose mem ht need len => conn.generateConnClose mem ht need len
  | .generateHandshakeDone mem => conn.generateHandshakeDone mem
  | .losses retxTo now => conn.handleLosses retxTo now
  | .ack pns frame => if conn.handles pns then (conn.processAckFrame pns frame).conn else conn
  | .closeRecvd => { conn with packetsOut := [] }
  | .returnEncData => conn.returnEncData
  | .take toCoal enc => conn.take toCoal enc
  | .sent packno now _ => conn.packetSent packno now
  | .notSent packno now _ => conn.packetReturned packno now

def step (conn : MiniConn) (op : MiniOp) : MiniConn :=
  if op.sending || conn.batch.isEmpty then conn.apply op else conn

end MiniConn

inductive MiniRun (P : MiniConn → MiniOp → Prop) : MiniConn → Prop
  | new (dcidLen scidLen : Fin 21) (packSize : Fin 65536) (validated : Bool) :
      MiniRun P { dcidLen, scidLen, packSize, addrValidated := validated }
  | step (h : MiniRun P conn) (hp : P conn op) : MiniRun P (conn.step op)

end QuicArt
