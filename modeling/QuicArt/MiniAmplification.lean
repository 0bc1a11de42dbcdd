import Mathlib.Algebra.Order.BigOperators.Group.List
import QuicArt.MiniAck

namespace QuicArt

theorem MiniPacket.avail_eq (hr : p.dataSz ≤ p.nAlloc) (ha : p.nAlloc < 65536) :
    MiniPacket.avail p = p.nAlloc - p.dataSz := by
  unfold MiniPacket.avail u16sub
  omega

theorem MiniPacket.has_or_self (b : FtBits) (ty : FrameType) :
    (b ||| ty.bit).has ty.bit = true := by
  have hmask : (b ||| ty.bit) &&& ty.bit = ty.bit := by
    ext i hi
    simp only [BitVec.getElem_and, BitVec.getElem_or]
    cases b[i] <;> cases ty.bit[i] <;> rfl
  rw [FtBits.has, hmask]
  cases ty <;> decide

theorem MiniPacket.padded_needsPad (p : MiniPacket) : p.padded.needsPad = false := by
  unfold MiniPacket.padded
  split
  · have hpad : p.zeroPad.frameTypes.has FrameType.padding.bit = true :=
      MiniPacket.has_or_self p.frameTypes .padding
    simp [MiniPacket.needsPad, hpad]
  next h => simpa using h

theorem MiniPacket.padded_eq (h : p.needsPad = false) : MiniPacket.padded p = p := by
  rw [MiniPacket.padded, h]
  rfl

theorem MiniPacket.hpPad_eq (h : 3 ≤ p.dataSz) : MiniPacket.hpPad p = p := by
  rw [MiniPacket.hpPad, if_neg]
  omega

namespace MiniConn

/-- The sizes of the packets that were taken for sending and not returned. -/
def outSum (conn : MiniConn) : Nat :=
  (conn.handed.map (·.size)).sum + (conn.batch.map (·.2)).sum

def handedSum (conn : MiniConn) : Nat := (conn.handed.map (·.size)).sum

/-- An encrypted packet still has its size, and one that is not sent has a number that was not sent.
-/
structure PacketOk (conn : MiniConn) (p : MiniPacket) : Prop where
  enc : ∀ e, p.encDataSz = some e → e = conn.totalSz p ∧ p.needsPad = false
  room : p.dataSz ≤ p.nAlloc
  alloc : p.nAlloc < 65536
  fresh : p.sent = false → ∀ h ∈ conn.handed, h.packno ≠ p.packno

structure Ledger (conn : MiniConn) : Prop where
  counted : conn.Counted
  packets : ∀ p ∈ conn.packetsOut, conn.PacketOk p
  batch : ∀ b ∈ conn.batch, ∃ p ∈ conn.packetsOut,
    p.packno = b.1 ∧ p.sent = true ∧ p.encDataSz = some b.2
  numbers : (conn.handed.map (·.packno) ++ conn.batch.map (·.1)).Nodup
  sizes : ∀ h ∈ conn.handed, h.size < 2 ^ 17
  bytesIn : conn.bytesIn ≤ conn.received
  bytesOut : conn.bytesOut = conn.outSum
  limit : conn.addrValidated = false → conn.outSum ≤ 3 * conn.received

/-- Nothing is written into an encrypted packet, its header does not change its form, and no packet
is taken with fewer than three bytes of payload. -/
def Steady (conn : MiniConn) : MiniOp → Prop
  | .streamWrite _ ht need _ => ∀ p, conn.openPacket ht need = some p → p.encDataSz = none
  | .generateConnClose _ ht need _ => ∀ p, conn.openPacket ht need = some p → p.encDataSz = none
  | .generateHandshakeDone _ => ∀ p, conn.openPacket .notSet 1 = some p → p.encDataSz = none
  | .hskDone => ∀ p ∈ conn.packetsOut, p.headerType = .notSet → p.encDataSz = none
  | .take .. => ∀ p, conn.packetsOut.find? (fun p => !p.sent) = some p → 3 ≤ p.padded.dataSz
  | _ => True

structure SameBooks (conn conn' : MiniConn) : Prop where
  handed : conn'.handed = conn.handed
  batch : conn'.batch = conn.batch
  bytesIn : conn'.bytesIn = conn.bytesIn
  bytesOut : conn'.bytesOut = conn.bytesOut
  received : conn'.received = conn.received
  validated : conn'.addrValidated = conn.addrValidated
  totalSz : ∀ p, conn'.totalSz p = conn.totalSz p

section
variable {conn conn' : MiniConn} {p q : MiniPacket} {ps : List MiniPacket}

theorem PacketOk.congr (h : conn.PacketOk p) (ht : conn'.totalSz p = conn.totalSz p)
    (hh : conn'.handed = conn.handed) : conn'.PacketOk p where
  enc e he := by
    rw [ht]
    exact h.enc e he
  room := h.room
  alloc := h.alloc
  fresh := by
    rw [hh]
    exact h.fresh

theorem headerSize_le (conn : MiniConn) (ht : HeaderType) : conn.headerSize ht ≤ 51 := by
  unfold headerSize
  split
  · omega
  · split <;> omega

theorem PacketOk.totalSz_lt (h : conn.PacketOk p) : conn.totalSz p < 2 ^ 17 := by
  have hh := conn.headerSize_le p.headerType
  have hr := h.room
  have ha := h.alloc
  have htag : tagLen = 16 := rfl
  unfold totalSz
  omega

theorem PacketOk.padded (h : conn.PacketOk p) : conn.PacketOk p.padded := by
  cases hpad : p.needsPad with
  | false =>
    rw [MiniPacket.padded_eq hpad]
    exact h
  | true =>
    have henc : p.encDataSz = none := by
      cases he : p.encDataSz with
      | none => rfl
      | some e =>
        rw [(h.enc e he).2] at hpad
        cases hpad
    have heq : p.padded = p.zeroPad := if_pos hpad
    have havail := p.avail_eq h.room h.alloc
    have hroom := h.room
    rw [heq]
    refine ⟨fun e he => ?_, ?_, h.alloc, h.fresh⟩
    · rw [show p.zeroPad.encDataSz = p.encDataSz from rfl, henc] at he
      cases he
    · change p.dataSz + p.avail ≤ p.nAlloc
      omega

theorem PacketOk.write (h : conn.PacketOk p) (he : p.encDataSz = none) :
    conn.PacketOk (p.write ty len) := by
  unfold MiniPacket.write
  split
  next hle =>
    have havail := p.avail_eq h.room h.alloc
    have hroom := h.room
    refine ⟨fun e hsome => ?_, ?_, h.alloc, h.fresh⟩
    · rw [he] at hsome
      cases hsome
    · change p.dataSz + len ≤ p.nAlloc
      omega
  · exact h

theorem SameBooks.refl (conn : MiniConn) : conn.SameBooks conn :=
  ⟨rfl, rfl, rfl, rfl, rfl, rfl, fun _ => rfl⟩

theorem SameBooks.trans (h : conn.SameBooks conn') (h' : conn'.SameBooks conn'') :
    conn.SameBooks conn'' :=
  ⟨h'.handed.trans h.handed, h'.batch.trans h.batch, h'.bytesIn.trans h.bytesIn,
    h'.bytesOut.trans h.bytesOut, h'.received.trans h.received, h'.validated.trans h.validated,
    fun p => (h'.totalSz p).trans (h.totalSz p)⟩

theorem Ledger.between (h : conn.Ledger) (hb : conn.batch = []) (hh : conn'.handed = conn.handed)
    (hb' : conn'.batch = conn.batch) (ho : conn'.bytesOut = conn.bytesOut)
    (hin : conn'.bytesIn ≤ conn'.received)
    (hv : conn'.addrValidated = false →
      conn.addrValidated = false ∧ conn.received ≤ conn'.received)
    (hc : conn'.Counted) (hp : ∀ p ∈ conn'.packetsOut, conn'.PacketOk p) : conn'.Ledger where
  counted := hc
  packets := hp
  batch b hm := by
    rw [hb', hb] at hm
    cases hm
  numbers := by
    rw [hh, hb']
    exact h.numbers
  sizes := by
    rw [hh]
    exact h.sizes
  bytesIn := hin
  bytesOut := by
    rw [outSum, hh, hb', ho]
    exact h.bytesOut
  limit hval := by
    rw [outSum, hh, hb']
    obtain ⟨hval, hle⟩ := hv hval
    exact (h.limit hval).trans (Nat.mul_le_mul_left 3 hle)

theorem Ledger.idle (h : conn.Ledger) (hb : conn.batch = []) (hs : conn.SameBooks conn')
    (hc : conn'.Counted) (hp : ∀ p ∈ conn'.packetsOut, conn.PacketOk p) : conn'.Ledger := by
  refine h.between hb hs.handed hs.batch hs.bytesOut ?_ (fun hv => ?_) hc fun p hm => ?_
  · rw [hs.bytesIn, hs.received]
    exact h.bytesIn
  · exact ⟨hs.validated ▸ hv, hs.received.ge⟩
  · exact (hp p hm).congr (hs.totalSz p) hs.handed

theorem Ledger.setPacket_ok (h : conn.Ledger) (hq : conn.PacketOk q) :
    ∀ p ∈ (conn.setPacket q).packetsOut, conn.PacketOk p := by
  intro p hp
  rcases mem_setPacket hp with rfl | ⟨hp, _⟩
  · exact hq
  · exact h.packets p hp

theorem Ledger.freshPacket_ok (h : conn.Ledger) : conn.PacketOk (conn.freshPacket ht) where
  enc _ he := by cases he
  room := Nat.zero_le _
  alloc := by
    change conn.packSize - conn.headerSize ht - tagLen < 65536
    omega
  fresh _ g hg := Nat.ne_of_lt (h.counted.handed g hg).1

theorem Ledger.addFrame (h : conn.Ledger) (hb : conn.batch = [])
    (ho : ∀ p, conn.openPacket ht need = some p → p.encDataSz = none) :
    (conn.addFrame mem ht need ty len).Ledger := by
  have hcount := @Counted.addFrame _ mem ht need ty len h.counted
  unfold MiniConn.addFrame at hcount ⊢
  have hspec := @getPacketOut_spec ht need mem conn
  generalize conn.getPacketOut mem ht need = r at hspec hcount
  cases hspec with
  | none => exact h
  | found hopen hp _ =>
    have hok := @PacketOk.write _ _ ty len (h.packets _ hp) (ho _ hopen)
    exact h.idle hb ⟨rfl, rfl, rfl, rfl, rfl, rfl, fun _ => rfl⟩ hcount (h.setPacket_ok hok)
  | fresh hlt _ =>
    refine h.idle hb ⟨rfl, rfl, rfl, rfl, rfl, rfl, fun _ => rfl⟩ hcount fun p hp => ?_
    rcases mem_setPacket hp with rfl | ⟨hp, hne⟩
    · exact h.freshPacket_ok.write rfl
    · rcases List.mem_append.1 hp with hp | hp
      · exact h.packets p hp
      · rw [List.mem_singleton.1 hp] at hne
        exact absurd (MiniPacket.write_continues _).packno.symm hne

theorem repackagePacket_same (conn : MiniConn) (p : MiniPacket) :
    conn.SameBooks (conn.repackagePacket p) := by
  unfold repackagePacket
  split <;> exact ⟨rfl, rfl, rfl, rfl, rfl, rfl, fun _ => rfl⟩

theorem resendLost_same (conn : MiniConn) (ps : List MiniPacket) :
    conn.SameBooks (conn.resendLost ps) := by
  induction ps generalizing conn with
  | nil => exact .refl conn
  | cons p ps ih =>
    rw [resendLost]
    split
    · exact (conn.repackagePacket_same p).trans (ih _)
    · exact ih conn

theorem renumbered_ok (h : conn.PacketOk p) (hc : conn.Numbered ps) :
    conn.PacketOk (conn.renumbered p) where
  enc _ he := by cases he
  room := h.room
  alloc := h.alloc
  fresh _ g hg := Nat.ne_of_lt (hc.handed g hg).1

theorem mem_repackagePacket (h : q ∈ (conn.repackagePacket p).packetsOut) :
    q ∈ conn.packetsOut ∨ q = conn.renumbered p := by
  unfold repackagePacket at h
  split at h
  · exact .inl h
  · exact (List.mem_append.1 h).imp_right List.mem_singleton.1

theorem resendLost_ok (hc : conn.Numbered (conn.packetsOut ++ ps))
    (h : ∀ p ∈ conn.packetsOut ++ ps, conn.PacketOk p) :
    ∀ p ∈ (conn.resendLost ps).packetsOut, conn.PacketOk p := by
  induction ps generalizing conn with
  | nil => simpa [resendLost] using h
  | cons r ps ih =>
    rw [resendLost]
    split
    · have hs := conn.repackagePacket_same r
      intro p hp
      refine (ih hc.repackagePacket (fun q hq => ?_) p hp).congr (hs.totalSz p).symm hs.handed.symm
      refine PacketOk.congr ?_ (hs.totalSz q) hs.handed
      rcases List.mem_append.1 hq with hq | hq
      · rcases mem_repackagePacket hq with hq | rfl
        · exact h q (List.mem_append_left _ hq)
        · exact renumbered_ok (h r (List.mem_append_right _ (.head _))) hc
      · exact h q (List.mem_append_right _ (.tail _ hq))
    · have hsub : (conn.packetsOut ++ ps).Subperm (conn.packetsOut ++ r :: ps) :=
        ((List.Sublist.refl _).append (List.sublist_cons_self r ps)).subperm
      exact ih (hc.subperm hsub) fun p hp => h p (hsub.subset hp)

theorem Ledger.handleLosses (h : conn.Ledger) (hb : conn.batch = []) :
    (conn.handleLosses retxTo now).Ledger := by
  have hperm := @splitLost_perm retxTo now conn conn.packetsOut
  have hcount := @Counted.handleLosses _ retxTo now h.counted
  unfold MiniConn.handleLosses at hcount ⊢
  dsimp only at hcount ⊢
  generalize conn.splitLost retxTo now conn.packetsOut = r at hperm hcount ⊢
  have hs : conn.SameBooks { conn with packetsOut := r.1 } :=
    ⟨rfl, rfl, rfl, rfl, rfl, rfl, fun _ => rfl⟩
  refine h.idle hb (hs.trans (resendLost_same _ _)) hcount fun p hp => ?_
  have hnum : ({ conn with packetsOut := r.1 } : MiniConn).Numbered (r.1 ++ r.2) :=
    (h.counted.subperm hperm.subperm).congr rfl rfl rfl
  exact (resendLost_ok hnum (fun q hq => (h.packets q (hperm.subset hq)).congr rfl rfl) p hp).congr
    rfl rfl

theorem Ledger.entry (h : conn.Ledger) (hb : (n, size) ∈ conn.batch) (hp : p ∈ conn.packetsOut)
    (hn : p.packno = n) : p.sent = true ∧ p.encDataSz = some size ∧ conn.totalSz p = size := by
  obtain ⟨q, hq, hqn, hs, he⟩ := h.batch _ hb
  obtain rfl := h.counted.eq_of_packno hp hq (hn.trans hqn.symm)
  exact ⟨hs, he, ((h.packets p hp).enc size he).1.symm⟩

theorem Ledger.batch_lt (h : conn.Ledger) (hb : b ∈ conn.batch) : b.1 < 64 ∧ b.2 < 2 ^ 17 := by
  obtain ⟨p, hp, hn, hs, he⟩ := h.batch b hb
  have hlt := (h.packets p hp).totalSz_lt
  rw [← ((h.packets p hp).enc _ he).1] at hlt
  exact ⟨hn ▸ (h.counted.below p hp).2, hlt⟩

theorem Ledger.outSum_le (h : conn.Ledger) : conn.outSum ≤ 2 ^ 23 := by
  have hsub : conn.handed.map (·.packno) ++ conn.batch.map (·.1) ⊆ List.range 64 := by
    intro n hn
    rw [List.mem_range]
    rcases List.mem_append.1 hn with hn | hn
    · obtain ⟨g, hg, rfl⟩ := List.mem_map.1 hn
      exact (h.counted.handed g hg).2
    · obtain ⟨b, hb, rfl⟩ := List.mem_map.1 hn
      exact (h.batch_lt hb).1
  have hlen := (List.subperm_of_subset h.numbers hsub).length_le
  simp only [List.length_append, List.length_map, List.length_range] at hlen
  have hhanded : (conn.handed.map (·.size)).sum ≤ conn.handed.length * 2 ^ 17 := by
    have hle := List.sum_le_card_nsmul (conn.handed.map (·.size)) (2 ^ 17) fun x hx => by
      obtain ⟨g, hg, rfl⟩ := List.mem_map.1 hx
      exact Nat.le_of_lt (h.sizes g hg)
    simpa using hle
  have hbatch : (conn.batch.map (·.2)).sum ≤ conn.batch.length * 2 ^ 17 := by
    have hle := List.sum_le_card_nsmul (conn.batch.map (·.2)) (2 ^ 17) fun x hx => by
      obtain ⟨b, hb, rfl⟩ := List.mem_map.1 hx
      exact Nat.le_of_lt (h.batch_lt hb).2
    simpa using hle
  unfold outSum
  omega

theorem Ledger.setUnsent (h : conn.Ledger) (hp : p ∈ conn.packetsOut) (hs : p.sent = false)
    (hc : p.Continues q) (hq : conn.PacketOk q) : (conn.setPacket q).Ledger where
  counted := h.counted.setPacket hp hc
  packets r hr := (h.setPacket_ok hq r hr).congr rfl rfl
  batch b hb := by
    obtain ⟨r, hr, hn, hrs, he⟩ := h.batch b hb
    refine ⟨r, List.mem_map.2 ⟨r, hr, if_neg fun hrq => ?_⟩, hn, hrs, he⟩
    rw [h.counted.eq_of_packno hr hp (hrq.trans hc.packno), hs] at hrs
    cases hrs
  numbers := h.numbers
  sizes := h.sizes
  bytesIn := h.bytesIn
  bytesOut := h.bytesOut
  limit := h.limit

theorem canSend_le (hc : conn.canSend size = true) (hv : conn.addrValidated = false) :
    conn.bytesOut + size ≤ 3 * conn.bytesIn := by
  unfold canSend at hc
  rw [hv, Bool.false_or, decide_eq_true_eq] at hc
  omega

theorem outSum_enqueue (conn : MiniConn) :
    (conn.enqueue n size).outSum = conn.outSum + size := by
  unfold outSum enqueue
  rw [List.map_append, List.sum_append]
  simp only [List.map_cons, List.map_nil, List.sum_singleton]
  omega

theorem Ledger.taken (h : conn.Ledger) (hp : p ∈ conn.packetsOut) (hs : p.sent = false)
    (hc : p.Continues q) (hq : conn.PacketOk q) (hqs : q.sent = true)
    (hqe : q.encDataSz = some size) (hcan : conn.canSend size = true) :
    (((conn.setPacket q).charge size).enqueue q.packno size).Ledger where
  counted := (h.counted.setPacket hp hc).congr rfl rfl rfl
  packets r hr := (h.setPacket_ok hq r hr).congr rfl rfl
  batch b hb := by
    rcases List.mem_append.1 hb with hb | hb
    · obtain ⟨r, hr, hn, hrs, he⟩ := h.batch b hb
      refine ⟨r, List.mem_map.2 ⟨r, hr, if_neg fun hrq => ?_⟩, hn, hrs, he⟩
      rw [h.counted.eq_of_packno hr hp (hrq.trans hc.packno), hs] at hrs
      cases hrs
    · rw [List.mem_singleton.1 hb]
      exact ⟨q, mem_setPacket_self hp hc.packno.symm, rfl, hqs, hqe⟩
  numbers := by
    have hnew : q.packno ∉ conn.handed.map (·.packno) ++ conn.batch.map (·.1) := by
      intro hmem
      rcases List.mem_append.1 hmem with hmem | hmem
      · obtain ⟨g, hg, hn⟩ := List.mem_map.1 hmem
        exact (h.packets p hp).fresh hs g hg (hn.trans hc.packno)
      · obtain ⟨b, hb, hn⟩ := List.mem_map.1 hmem
        have hsent := (@Ledger.entry _ _ _ b.2 h hb hp (hc.packno.symm.trans hn.symm)).1
        rw [hs] at hsent
        cases hsent
    change (conn.handed.map (·.packno) ++ (conn.batch ++ [(q.packno, size)]).map (·.1)).Nodup
    rw [List.map_append, ← List.append_assoc]
    exact List.Nodup.append h.numbers (List.nodup_singleton _) (by simpa using hnew)
  sizes := h.sizes
  bytesIn := h.bytesIn
  bytesOut := by
    have hsum := h.outSum_le
    have hlt := hq.totalSz_lt
    rw [← (hq.enc _ hqe).1] at hlt
    change (conn.bytesOut + size) % 2 ^ 32 = _
    rw [outSum_enqueue, h.bytesOut, Nat.mod_eq_of_lt (by omega)]
    rfl
  limit hv := by
    have hle := canSend_le hcan hv
    have hin := h.bytesIn
    rw [h.bytesOut] at hle
    rw [outSum_enqueue]
    change conn.outSum + size ≤ 3 * conn.received
    omega

theorem setPacket_setPacket (h : p.packno = q.packno) :
    (conn.setPacket p).setPacket q = conn.setPacket q := by
  unfold setPacket
  congr 1
  rw [List.map_map]
  apply List.map_congr_left
  intro r _
  by_cases hr : r.packno = q.packno
  · simp [hr, h]
  · have hne : r.packno ≠ p.packno := fun he => hr (he.trans h)
    simp [hr, hne]

theorem refund_charge (hlt : conn.bytesOut < 2 ^ 32) : (conn.charge size).refund size = conn := by
  have hback : ((conn.bytesOut + size) % 2 ^ 32 + 2 ^ 32 - size % 2 ^ 32) % 2 ^ 32
      = conn.bytesOut := by omega
  change { conn with bytesOut := ((conn.bytesOut + size) % 2 ^ 32 + 2 ^ 32 - size % 2 ^ 32) % 2 ^ 32 }
    = conn
  rw [hback]

theorem packetNotSent_charge (hlt : conn.bytesOut < 2 ^ 32) (h : p.packno = q.packno) :
    ((conn.setPacket p).charge (conn.totalSz q)).packetNotSent q
      = conn.setPacket (q.setSent false) := by
  calc ((conn.setPacket p).charge (conn.totalSz q)).packetNotSent q
      = (((conn.setPacket p).setPacket (q.setSent false)).charge (conn.totalSz q)).refund
          (conn.totalSz q) := rfl
    _ = conn.setPacket (q.setSent false) := by
      have hset : (conn.setPacket p).setPacket (q.setSent false) = conn.setPacket
          (q.setSent false) :=
        setPacket_setPacket h
      rw [hset]
      exact refund_charge hlt

theorem Ledger.take (h : conn.Ledger)
    (hthree : ∀ p, conn.packetsOut.find? (fun p => !p.sent) = some p → 3 ≤ p.padded.dataSz) :
    (conn.take toCoal enc).Ledger := by
  unfold MiniConn.take
  have hspec := @nextPacketToSend_spec toCoal conn
  generalize conn.nextPacketToSend toCoal = r at hspec
  cases hspec with
  | none => exact h
  | @refused p hp hs => exact h.setUnsent hp hs p.padded_continues (h.packets p hp).padded
  | @taken p hp hs hf hcan =>
    have hpad := p.padded_continues
    have hok := (h.packets p hp).padded
    have hdata := hthree p hf
    have hlt : conn.bytesOut < 2 ^ 32 := by
      have := h.outSum_le
      rw [h.bytesOut]
      omega
    have hneeds := p.padded_needsPad
    generalize p.padded = q at hpad hok hdata hcan hneeds
    have hq : p.Continues (q.setSent true) := ⟨hpad.packno, hpad.pns, hpad.sentAt⟩
    have hhp : (q.setSent true).hpPad = q.setSent true := MiniPacket.hpPad_eq hdata
    have hback : (((conn.setPacket (q.setSent true)).charge (conn.totalSz q)).packetNotSent
        (q.setSent true)).Ledger := by
      rw [show conn.totalSz q = conn.totalSz (q.setSent true) from rfl, packetNotSent_charge hlt rfl]
      exact h.setUnsent hp hs ⟨hpad.packno, hpad.pns, hpad.sentAt⟩
        ⟨hok.enc, hok.room, hok.alloc, fun _ g hg => hq.packno ▸ (h.packets p hp).fresh hs g hg⟩
    dsimp only
    split
    next size he =>
      have hsize : size = conn.totalSz q := (hok.enc size he).1
      subst hsize
      exact h.taken hp hs hq ⟨hok.enc, hok.room, hok.alloc, fun hf => by cases hf⟩ rfl he hcan
    next he =>
      rw [hhp]
      have htotal : ((conn.setPacket (q.setSent true)).charge (conn.totalSz q)).totalSz
          (q.setSent true) = conn.totalSz q := rfl
      rw [htotal]
      have hset : (conn.setPacket (q.setSent true)).setPacket
            ((q.setSent true).setEnc (some (conn.totalSz q)))
          = conn.setPacket ((q.setSent true).setEnc (some (conn.totalSz q))) :=
        setPacket_setPacket rfl
      change ((((conn.setPacket (q.setSent true)).setPacket
        ((q.setSent true).setEnc (some (conn.totalSz q)))).charge (conn.totalSz q)).enqueue
          q.packno (conn.totalSz q)).Ledger
      rw [hset]
      refine h.taken hp hs ⟨hpad.packno, hpad.pns, hpad.sentAt⟩ ?_ rfl rfl hcan
      refine ⟨fun e he' => ?_, hok.room, hok.alloc, fun hf => by cases hf⟩
      cases he'
      exact ⟨rfl, hneeds⟩
    next he => exact hback
    next he =>
      rw [hhp]
      exact hback

theorem find?_batch (h : conn.batch.find? (·.1 == n) = some b) : b ∈ conn.batch ∧ b.1 = n :=
  ⟨List.mem_of_find?_eq_some h, by simpa using List.find?_some h⟩

theorem Ledger.entry_ne (h : conn.Ledger) (hb : b ∈ conn.batch) (hr : r ∈ conn.batch.erase b) :
    r.1 ≠ b.1 := by
  have hnodup := (List.nodup_append.1 h.numbers).2.1
  have hperm := (List.perm_cons_erase hb).map (·.1)
  rw [hperm.nodup_iff, List.map_cons, List.nodup_cons] at hnodup
  intro he
  exact hnodup.1 (List.mem_map.2 ⟨r, hr, he⟩)

theorem Ledger.batch_erase (h : conn.Ledger) (hb : b ∈ conn.batch) (hq : q.packno = b.1) :
    ∀ r ∈ conn.batch.erase b, ∃ p ∈ (conn.setPacket q).packetsOut,
      p.packno = r.1 ∧ p.sent = true ∧ p.encDataSz = some r.2 := by
  intro r hr
  obtain ⟨p, hp, hn, hs, he⟩ := h.batch r (List.mem_of_mem_erase hr)
  have hne : p.packno ≠ q.packno := by
    rw [hn, hq]
    exact h.entry_ne hb hr
  exact ⟨p, List.mem_map.2 ⟨p, hp, if_neg hne⟩, hn, hs, he⟩

theorem sum_erase (hb : b ∈ conn.batch) :
    (conn.batch.map (·.2)).sum = b.2 + ((conn.batch.erase b).map (·.2)).sum := by
  have hperm := (List.perm_cons_erase hb).map (·.2)
  rw [hperm.sum_eq, List.map_cons, List.sum_cons]

theorem Ledger.packetSent (h : conn.Ledger) (hnow : 0 < now) :
    (conn.packetSent n now).Ledger := by
  have hcount := h.counted.packetSent (n := n) hnow
  unfold MiniConn.packetSent at hcount ⊢
  split
  next m size p hb hp =>
    rw [hb, hp] at hcount
    obtain ⟨hbm, rfl⟩ := find?_batch hb
    obtain ⟨hmem, hn⟩ := find?_mem hp
    obtain ⟨hs, -, hsz⟩ := h.entry hbm hmem hn
    have hok := h.packets p hmem
    have hout : (((conn.handed ++ [Handed.mk p.packno p.pns size]).map (·.size)).sum
        + ((conn.batch.erase (m, size)).map (·.2)).sum) = conn.outSum := by
      have hsum := sum_erase hbm
      rw [outSum, List.map_append, List.sum_append]
      simp only [List.map_cons, List.map_nil, List.sum_singleton]
      omega
    constructor
    · exact hcount
    · intro r hr
      rcases mem_setPacket hr with rfl | ⟨hr, hne⟩
      · constructor
        · intro e he
          cases he
        · exact hok.room
        · exact hok.alloc
        · intro hf
          rw [show ((p.setEnc none).setTime now).sent = p.sent from rfl, hs] at hf
          cases hf
      · have hrok := h.packets r hr
        refine ⟨hrok.enc, hrok.room, hrok.alloc, fun hf g hg => ?_⟩
        rcases List.mem_append.1 hg with hg | hg
        · exact hrok.fresh hf g hg
        · rw [List.mem_singleton.1 hg]
          exact fun heq => hne heq.symm
    · exact h.batch_erase hbm hn
    · have hperm := (List.perm_cons_erase hbm).map (·.1)
      have hnum := h.numbers
      rw [(hperm.append_left _).nodup_iff] at hnum
      change (((conn.handed ++ [Handed.mk p.packno p.pns size]).map (·.packno))
        ++ (conn.batch.erase (m, size)).map (·.1)).Nodup
      rw [List.map_append, List.append_assoc]
      simpa [hn] using hnum
    · intro g hg
      rcases List.mem_append.1 hg with hg | hg
      · exact h.sizes g hg
      · rw [List.mem_singleton.1 hg]
        exact hsz ▸ hok.totalSz_lt
    · exact h.bytesIn
    · exact h.bytesOut.trans hout.symm
    · intro hv
      exact Nat.le_trans (Nat.le_of_eq hout) (h.limit hv)
  · exact h

theorem Ledger.packetReturned (h : conn.Ledger) (hnow : 0 < now) :
    (conn.packetReturned n now).Ledger := by
  have hcount := h.counted.packetReturned (n := n) hnow
  unfold MiniConn.packetReturned at hcount ⊢
  split
  next m size p hb hp =>
    rw [hb, hp] at hcount
    obtain ⟨hbm, rfl⟩ := find?_batch hb
    obtain ⟨hmem, hn⟩ := find?_mem hp
    obtain ⟨hs, he, hsz⟩ := h.entry hbm hmem hn
    have hok := h.packets p hmem
    have hout : conn.outSum = size
        + ((conn.handed.map (·.size)).sum + ((conn.batch.erase (m, size)).map (·.2)).sum) := by
      have hsum := sum_erase hbm
      rw [outSum]
      omega
    have hperm := (List.perm_cons_erase hbm).map (·.1)
    have hnum := h.numbers
    rw [(hperm.append_left _).nodup_iff] at hnum
    constructor
    · exact hcount
    · intro r hr
      rcases mem_setPacket hr with rfl | ⟨hr, _⟩
      · refine ⟨hok.enc, hok.room, hok.alloc, fun _ g hg heq => ?_⟩
        have hdis := (List.nodup_append.1 hnum).2.2
        exact hdis g.packno (List.mem_map.2 ⟨g, hg, rfl⟩) m (.head _) (heq.trans hn)
      · exact (h.packets r hr).congr rfl rfl
    · exact h.batch_erase hbm hn
    · exact hnum.sublist ((List.Sublist.refl _).append (List.sublist_cons_self _ _))
    · exact h.sizes
    · exact h.bytesIn
    · have hle := h.outSum_le
      have htotal : conn.totalSz (p.setTime now) = size := hsz
      change (conn.bytesOut + 2 ^ 32 - conn.totalSz (p.setTime now) % 2 ^ 32) % 2 ^ 32
        = (conn.handed.map (·.size)).sum + ((conn.batch.erase (m, size)).map (·.2)).sum
      rw [htotal, h.bytesOut]
      omega
    · intro hv
      have hlim := h.limit hv
      change (conn.handed.map (·.size)).sum + ((conn.batch.erase (m, size)).map (·.2)).sum
        ≤ 3 * conn.received
      omega
  · exact h

theorem totalSz_hskDone (h : p.headerType ≠ .notSet) :
    conn.totalSz p = ({ conn with handshakeDone := true } : MiniConn).totalSz p := by
  simp [totalSz, headerSize, h]

theorem processAckFrame_same (conn : MiniConn) :
    conn.SameBooks (conn.processAckFrame pns frame).conn := by
  unfold processAckFrame
  split
  · exact .refl conn
  · split <;> exact ⟨rfl, rfl, rfl, rfl, rfl, rfl, fun _ => rfl⟩

theorem processAckFrame_subset (h : p ∈ (conn.processAckFrame pns frame).conn.packetsOut) :
    p ∈ conn.packetsOut := by
  unfold processAckFrame at h
  split at h
  · exact h
  · split at h
    · exact h
    · exact (List.mem_filter.1 h).1

theorem Ledger.hskDone (h : conn.Ledger) (hb : conn.batch = []) (hs : conn.Steady .hskDone)
    (hc : (conn.apply .hskDone).Counted) : (conn.apply .hskDone).Ledger := by
  refine h.between hb rfl rfl rfl h.bytesIn (fun hv => ⟨hv, le_rfl⟩) hc fun p hp => ?_
  have hok := h.packets p hp
  refine ⟨fun e he => ?_, hok.room, hok.alloc, hok.fresh⟩
  have hne : p.headerType ≠ .notSet := fun hht => by
    rw [hs p hp hht] at he
    cases he
  rw [(hok.enc e he).1]
  exact ⟨totalSz_hskDone hne, (hok.enc e he).2⟩

theorem Ledger.returnEncData (h : conn.Ledger) (hb : conn.batch = [])
    (hc : (conn.apply .returnEncData).Counted) : (conn.apply .returnEncData).Ledger := by
  refine h.idle hb ⟨rfl, rfl, rfl, rfl, rfl, rfl, fun _ => rfl⟩ hc fun p hp => ?_
  obtain ⟨q, hq, rfl⟩ := List.mem_map.1 hp
  have hok := h.packets q hq
  split
  · exact hok
  · exact ⟨fun e he => (by cases he), hok.room, hok.alloc, hok.fresh⟩

/-- What happens between two batches. -/
theorem Ledger.apply (h : conn.Ledger) (hb : conn.batch = []) (hs : conn.Steady op)
    (hop : op.sending = false) (hc : (conn.apply op).Counted) : (conn.apply op).Ledger := by
  cases op with
  | bytesIn size =>
    have hmod := Nat.mod_le (conn.bytesIn + size) (2 ^ 32)
    exact h.between hb rfl rfl rfl (hmod.trans (Nat.add_le_add_right h.bytesIn _))
      (fun hv => ⟨hv, Nat.le_add_right _ _⟩) hc fun p hp => (h.packets p hp).congr rfl rfl
  | addrValidated =>
    exact h.between hb rfl rfl rfl h.bytesIn (fun hv => by cases hv) hc
      fun p hp => (h.packets p hp).congr rfl rfl
  | hskPacketIn =>
    exact h.between hb rfl rfl rfl h.bytesIn (fun hv => by cases hv) hc
      fun p hp => (h.packets p (List.mem_filter.1 hp).1).congr rfl rfl
  | hskDone => exact h.hskDone hb hs hc
  | packSize size =>
    rw [MiniConn.apply] at hc ⊢
    split
    next hlt =>
      rw [dif_pos hlt] at hc
      exact h.idle hb ⟨rfl, rfl, rfl, rfl, rfl, rfl, fun _ => rfl⟩ hc h.packets
    · exact h
  | streamWrite mem ht need len =>
    rw [MiniConn.apply, streamWrite]
    split
    · exact h
    · exact h.addFrame hb hs
  | generateAck mem ht len =>
    refine h.addFrame hb fun p hp => ?_
    cases hp
  | generateConnClose => exact h.addFrame hb hs
  | generateHandshakeDone => exact h.addFrame hb hs
  | losses => exact h.handleLosses hb
  | ack pns frame =>
    rw [MiniConn.apply] at hc ⊢
    split
    next hh =>
      rw [if_pos hh] at hc
      exact h.idle hb (processAckFrame_same conn) hc
        fun p hp => h.packets p (processAckFrame_subset hp)
    · exact h
  | closeRecvd =>
    exact h.idle hb ⟨rfl, rfl, rfl, rfl, rfl, rfl, fun _ => rfl⟩ hc fun p hp => by cases hp
  | returnEncData => exact h.returnEncData hb hc
  | take | sent | notSent => cases hop

theorem Ledger.step (h : conn.Ledger) (hs : conn.Steady op) : (conn.step op).Ledger := by
  have hcount := h.counted.step op
  unfold MiniConn.step at hcount ⊢
  split
  next hidle =>
    rw [if_pos hidle] at hcount
    cases hop : op.sending with
    | false =>
      rw [hop, Bool.false_or, List.isEmpty_iff] at hidle
      exact h.apply hidle hs hop hcount
    | true =>
      cases op with
      | take => exact h.take hs
      | sent _ _ hnow => exact h.packetSent hnow
      | notSent _ _ hnow => exact h.packetReturned hnow
      | _ => cases hop
  · exact h

end

end MiniConn

theorem MiniRun.ledger (h : MiniRun MiniConn.Steady conn) : conn.Ledger := by
  induction h with
  | new dcidLen scidLen packSize validated =>
    have hc := (MiniRun.new (P := MiniConn.Steady) dcidLen scidLen packSize validated).counted
    exact ⟨hc, by simp, by simp, List.nodup_nil, by simp, le_rfl, rfl, fun _ => le_rfl⟩
  | step _ hp ih => exact ih.step hp

/-- `imc_bytes_out` is the sum of what was taken and not returned, and before validation at most
three times what was received is sent. -/
theorem MiniRun.amplification (h : MiniRun MiniConn.Steady conn) :
    conn.bytesOut = conn.outSum ∧
      (conn.addrValidated = false → conn.handedSum ≤ 3 * conn.received) := by
  refine ⟨h.ledger.bytesOut, fun hv => ?_⟩
  exact Nat.le_trans (Nat.le_add_right _ _) (h.ledger.limit hv)

/-- A Handshake packet with a hundred bytes is written and sent. -/
def MiniConn.sentHandshake : MiniConn :=
  (((unvalidated.step (.bytesIn 1200)).step (.streamWrite true .handshake 10 100)).step
    (.take none .ok)).step
    (.sent 0 1000 (Nat.succ_pos 999))

theorem MiniConn.sentHandshake_run : MiniRun Steady sentHandshake := by
  refine .step (.step (.step (.step (.new 8 8 1200 false) ?_) ?_) ?_) ?_
  · trivial
  · change ∀ p ∈ openPacket _ _ _, p.encDataSz = none
    decide +kernel
  · change ∀ p ∈ List.find? _ (MiniConn.packetsOut _), 3 ≤ p.padded.dataSz
    decide +kernel
  · trivial

theorem MiniRun.amplification_handshake :
    MiniConn.sentHandshake.handedSum = 142 ∧
      MiniConn.sentHandshake.bytesOut = MiniConn.sentHandshake.outSum ∧
      (MiniConn.sentHandshake.addrValidated = false →
        MiniConn.sentHandshake.handedSum ≤ 3 * MiniConn.sentHandshake.received) :=
  ⟨by decide +kernel, MiniRun.amplification MiniConn.sentHandshake_run⟩

/-- Five bytes are charged that are never sent. -/
def MiniConn.closeAfterEncryption : MiniConn :=
  [MiniOp.bytesIn 1200, .streamWrite true .handshake 10 100, .take none .ok,
    .notSent 0 1000 (Nat.succ_pos 999), .generateConnClose true .handshake 5 5, .take none .ok,
    .sent 0 2000 (Nat.succ_pos 1999)].foldl MiniConn.step unvalidated

/-- The packet is padded when it is encrypted: more is refunded than was charged. -/
def MiniConn.doneNotSent : MiniConn :=
  [MiniOp.bytesIn 1200, .hskPacketIn, .hskDone, .generateHandshakeDone true, .take none .ok,
    .notSent 0 1000 (Nat.succ_pos 999)].foldl MiniConn.step unvalidated

theorem MiniRun.bytes_out_off :
    MiniRun (fun _ _ => True) MiniConn.closeAfterEncryption ∧
      MiniConn.closeAfterEncryption.bytesOut = 147 ∧
      MiniConn.closeAfterEncryption.outSum = 142 ∧
      MiniRun (fun _ _ => True) MiniConn.doneNotSent ∧
      MiniConn.doneNotSent.bytesOut = 2 ^ 32 - 2 ∧ MiniConn.doneNotSent.outSum = 0 :=
  ⟨MiniRun.runs (.new 8 8 1200 false) (fun _ _ => trivial) _, by decide +kernel, by decide +kernel,
    MiniRun.runs (.new 8 8 1200 false) (fun _ _ => trivial) _, by decide +kernel, by decide +kernel⟩

end QuicArt
