import Mathlib.Data.Nat.Bitwise
import QuicArt.MiniConn

namespace QuicArt

theorem testBit_packnoSetNot : (packnoSetNot s).testBit n = (decide (n < 64) ^^ s.testBit n) := by
  rw [packnoSetNot, Nat.testBit_xor, Nat.testBit_two_pow_sub_one]

theorem and_packnoSetNot_ne_zero (h : ∀ n, a.testBit n → n < 64) :
    a &&& packnoSetNot s ≠ 0 ↔ ∃ n, a.testBit n ∧ ¬ s.testBit n := by
  constructor
  · intro hne
    obtain ⟨n, hn, _⟩ := Nat.exists_most_significant_bit hne
    rw [Nat.testBit_and, Bool.and_eq_true, testBit_packnoSetNot] at hn
    refine ⟨n, hn.1, ?_⟩
    have hlt := h n hn.1
    simpa [hlt] using hn.2
  · rintro ⟨n, ha, hs⟩ h0
    have hlt := h n ha
    have hbit : (a &&& packnoSetNot s).testBit n = true := by
      rw [Nat.testBit_and, testBit_packnoSetNot]
      simp [ha, hs, hlt]
    rw [h0] at hbit
    simp at hbit

theorem two_pow_and_ne_zero : (2 ^ n &&& a != 0) = a.testBit n := by
  rw [Nat.two_pow_and]
  cases a.testBit n <;> simp

theorem testBit_addRange {r : Span} {a : Nat} (hle : r.low ≤ r.high) (hr : r.high ≤ miniMaxPackets)
    (ha : ∀ n, a.testBit n → n < 64 ∧ r.high < n) :
    ((a ||| (2 ^ r.high ||| (2 ^ r.high - 1))) &&& packnoSetNot (2 ^ r.low - 1)).testBit n
      ↔ r.Has n ∨ a.testBit n := by
  have hmax : miniMaxPackets = 63 := rfl
  rw [Nat.testBit_and, testBit_packnoSetNot, Nat.testBit_or, Nat.testBit_or,
    Nat.testBit_two_pow_sub_one, Nat.testBit_two_pow_sub_one, Nat.testBit_two_pow]
  by_cases han : a.testBit n
  · obtain ⟨h64, hhigh⟩ := ha n han
    have hlow : ¬ n < r.low := by omega
    simp [han, h64, hlow]
  · have h64 : r.Has n → n < 64 := fun h => by
      have := h.2
      omega
    by_cases hlow : n < r.low
    · have hn : n < 64 := by omega
      simp [han, Span.Has, hlow, hn, Nat.not_le.2 hlow]
    · by_cases hn : n < 64
      · simp only [han, hlow, hn, Span.Has, Nat.not_lt.1 hlow]
        simp
        omega
      · simp [han, hlow, hn, mt h64 hn]

theorem ackedSet_none (h : r ∈ l) (hr : miniMaxPackets < r.high) : ackedSet l a = none := by
  induction l generalizing a with
  | nil => simp at h
  | cons q l ih =>
    rw [ackedSet]
    split
    next hq =>
      rcases List.mem_cons.1 h with rfl | h
      · exact absurd hr (Nat.not_lt.2 hq)
      · exact ih h
    · rfl

theorem ackedSet_some (hd : Descending l) (hr : ∀ r ∈ l, r.high ≤ miniMaxPackets)
    (ha : ∀ n, a.testBit n → n < 64 ∧ ∀ r ∈ l, r.high < n) :
    ∃ m, ackedSet l a = some m ∧ ∀ n, m.testBit n ↔ Covers l n ∨ a.testBit n := by
  induction l generalizing a with
  | nil => exact ⟨a, rfl, fun n => by simp [covers_nil]⟩
  | cons r l ih =>
    have hmax : r.high ≤ miniMaxPackets := hr r (.head _)
    have hbits := fun n => testBit_addRange (n := n) (hd.valid r (.head _)) hmax
      fun n hn => ⟨(ha n hn).1, (ha n hn).2 r (.head _)⟩
    obtain ⟨m, hm, hiff⟩ := ih hd.tail (fun q hq => hr q (.tail _ hq))
      (fun n hn => by
        rcases (hbits n).1 hn with hn | hn
        · have h63 : miniMaxPackets = 63 := rfl
          exact ⟨by have := hn.2; omega,
            fun q hq => Nat.lt_of_lt_of_le (hd.lt_head hq) hn.1⟩
        · exact ⟨(ha n hn).1, fun q hq => (ha n hn).2 q (.tail _ hq)⟩)
    refine ⟨m, ?_, fun n => ?_⟩
    · rw [ackedSet, if_pos hmax]
      exact hm
    · rw [hiff, hbits, covers_cons]
      tauto

/-- The packet stands for the same number, in the same space, and a time that was set stays. -/
structure MiniPacket.Continues (p q : MiniPacket) : Prop where
  packno : q.packno = p.packno
  pns : q.pns = p.pns
  sentAt : p.sentAt ≠ 0 → q.sentAt ≠ 0

theorem MiniPacket.Continues.refl (p : MiniPacket) : p.Continues p := ⟨rfl, rfl, id⟩

theorem MiniPacket.write_continues (p : MiniPacket) : p.Continues (p.write ty len) := by
  unfold MiniPacket.write
  split
  · exact ⟨rfl, rfl, id⟩
  · exact .refl p

theorem MiniPacket.padded_continues (p : MiniPacket) : p.Continues p.padded := by
  unfold MiniPacket.padded
  split
  · exact ⟨rfl, rfl, id⟩
  · exact .refl p

theorem MiniPacket.hpPad_continues (p : MiniPacket) : p.Continues p.hpPad := by
  unfold MiniPacket.hpPad
  split
  · exact ⟨rfl, rfl, id⟩
  · exact .refl p

namespace MiniConn

/-- The numbers of the packets `ps`, on the list or about to be repackaged, and of those that were
sent. -/
structure Numbered (conn : MiniConn) (ps : List MiniPacket) : Prop where
  nodup : (ps.map (·.packno)).Nodup
  below : ∀ p ∈ ps, p.packno < conn.nextPackno ∧ p.packno < 64
  next : conn.nextPackno ≤ 64 ∨ conn.nextPackno + ps.length ≤ 128
  handed : ∀ h ∈ conn.handed, h.packno < conn.nextPackno ∧ h.packno < 64
  bits : ∀ n, conn.sentPacknos.testBit n ↔ ∃ h ∈ conn.handed, h.packno = n
  spaces : ∀ p ∈ ps, ∀ h ∈ conn.handed, h.packno = p.packno → h.pns = p.pns ∧ p.sentAt ≠ 0

inductive GotPacket (conn : MiniConn) (ht : HeaderType) (need : Nat) :
    MiniConn × Option MiniPacket → Prop
  | none : GotPacket conn ht need (conn, none)
  | found (h : conn.openPacket ht need = some p) (hp : p ∈ conn.packetsOut) (hs : p.sent = false) :
      GotPacket conn ht need (conn, some p)
  | fresh (hlt : conn.nextPackno < 63) (hsize : conn.headerSize ht + tagLen < conn.packSize) :
      GotPacket conn ht need
        (conn.nextNumber.append (conn.freshPacket ht), some (conn.freshPacket ht))

inductive NextPacket (conn : MiniConn) : MiniConn × Option MiniPacket → Prop
  | none : NextPacket conn (conn, none)
  | refused (hp : p ∈ conn.packetsOut) (hs : p.sent = false) :
      NextPacket conn (conn.setPacket p.padded, none)
  | taken (hp : p ∈ conn.packetsOut) (hs : p.sent = false)
      (hf : conn.packetsOut.find? (fun p => !p.sent) = some p)
      (hc : conn.canSend (conn.totalSz p.padded) = true) :
      NextPacket conn ((conn.setPacket (p.padded.setSent true)).charge (conn.totalSz p.padded),
        some (p.padded.setSent true))

section
variable {conn conn' : MiniConn} {ps qs : List MiniPacket} {p q : MiniPacket}

section
variable (h : conn.Numbered ps)
include h

theorem Numbered.congr (hn : conn'.nextPackno = conn.nextPackno)
    (hh : conn'.handed = conn.handed) (hs : conn'.sentPacknos = conn.sentPacknos) :
    conn'.Numbered ps := by
  obtain ⟨h1, h2, h3, h4, h5, h6⟩ := h
  rw [← hn] at h2 h3 h4
  rw [← hh] at h4 h5 h6
  rw [← hs] at h5
  exact ⟨h1, h2, h3, h4, h5, h6⟩

theorem Numbered.subperm (hsub : qs.Subperm ps) : conn.Numbered qs where
  nodup := by
    obtain ⟨l, hperm, hsl⟩ := hsub
    exact (hperm.map _).nodup_iff.1 (h.nodup.sublist (hsl.map _))
  below p hp := h.below p (hsub.subset hp)
  next := h.next.imp_right fun hle => Nat.le_trans (Nat.add_le_add_left hsub.length_le _) hle
  handed := h.handed
  bits := h.bits
  spaces p hp := h.spaces p (hsub.subset hp)

theorem Numbered.map (hf : ∀ p ∈ ps, p.Continues (f p)) :
    conn.Numbered (ps.map f) where
  nodup := by
    have heq : (ps.map f).map (·.packno) = ps.map (·.packno) := by
      rw [List.map_map]
      exact List.map_congr_left fun p hp => (hf p hp).packno
    rw [heq]
    exact h.nodup
  below q hq := by
    obtain ⟨p, hp, rfl⟩ := List.mem_map.1 hq
    rw [(hf p hp).packno]
    exact h.below p hp
  next := by
    rw [List.length_map]
    exact h.next
  handed := h.handed
  bits := h.bits
  spaces q hq g hg he := by
    obtain ⟨p, hp, rfl⟩ := List.mem_map.1 hq
    obtain ⟨hpns, ht⟩ := h.spaces p hp g hg (he.trans (hf p hp).packno)
    exact ⟨hpns.trans (hf p hp).pns.symm, (hf p hp).sentAt ht⟩

theorem Numbered.length_le : ps.length ≤ 64 := by
  have hsub : ps.map (·.packno) ⊆ List.range 64 := by
    intro n hn
    obtain ⟨p, hp, rfl⟩ := List.mem_map.1 hn
    exact List.mem_range.2 (h.below p hp).2
  have hle := (List.subperm_of_subset h.nodup hsub).length_le
  simpa using hle

theorem Numbered.next_mod : (conn.nextPackno + 1) % 256 = conn.nextPackno + 1 := by
  apply Nat.mod_eq_of_lt
  rcases h.next with hn | hn <;> omega

theorem Numbered.eq_of_packno (hp : p ∈ ps) (hq : q ∈ ps) (he : p.packno = q.packno) : p = q :=
  List.inj_on_of_nodup_map h.nodup hp hq he

theorem Numbered.snoc (hlt : conn.nextPackno < 64)
    (hp : p.packno = conn.nextPackno) (hn : conn'.nextPackno = conn.nextPackno + 1)
    (hh : conn'.handed = conn.handed) (hs : conn'.sentPacknos = conn.sentPacknos) :
    conn'.Numbered (ps ++ [p]) where
  nodup := by
    rw [List.map_append, List.map_singleton, List.nodup_append]
    refine ⟨h.nodup, List.nodup_singleton _, fun a ha b hb => ?_⟩
    obtain ⟨q, hq, rfl⟩ := List.mem_map.1 ha
    have hlt := (h.below q hq).1
    rw [List.mem_singleton.1 hb, hp]
    omega
  below q hq := by
    rcases List.mem_append.1 hq with hq | hq
    · have := h.below q hq
      omega
    · rw [List.mem_singleton.1 hq]
      omega
  next := .inl (by omega)
  handed g hg := by
    rw [hh] at hg
    have := h.handed g hg
    omega
  bits n := by
    rw [hs, hh]
    exact h.bits n
  spaces q hq g hg he := by
    rw [hh] at hg
    rcases List.mem_append.1 hq with hq | hq
    · exact h.spaces q hq g hg he
    · have hg' := (h.handed g hg).1
      rw [he, List.mem_singleton.1 hq, hp] at hg'
      exact absurd hg' (Nat.lt_irrefl _)

end

theorem Numbered.drop (h : conn.Numbered (ps ++ p :: qs)) (hlt : 63 < conn.nextPackno)
    (hn : conn'.nextPackno = conn.nextPackno + 1)
    (hh : conn'.handed = conn.handed) (hs : conn'.sentPacknos = conn.sentPacknos) :
    conn'.Numbered (ps ++ qs) := by
  have hsub : (ps ++ qs).Subperm (ps ++ p :: qs) :=
    ((List.Sublist.refl ps).append (List.sublist_cons_self p qs)).subperm
  obtain ⟨h1, h2, h3, h4, h5, h6⟩ := h.subperm hsub
  have hlen : (ps ++ p :: qs).length = (ps ++ qs).length + 1 := by
    simp only [List.length_append, List.length_cons]
    omega
  have hnext : conn.nextPackno + 1 + (ps ++ qs).length ≤ 128 := by
    have h64 := h.length_le
    rcases h.next with hle | hle <;> omega
  rw [← hh] at h4 h5 h6
  rw [← hs] at h5
  refine ⟨h1, fun q hq => ?_, .inr (by omega), fun g hg => ?_, h5, h6⟩
  · have := h2 q hq
    omega
  · have := h4 g hg
    omega

theorem mem_setPacket (h : p ∈ (conn.setPacket q).packetsOut) :
    p = q ∨ p ∈ conn.packetsOut ∧ p.packno ≠ q.packno := by
  obtain ⟨r, hr, rfl⟩ := List.mem_map.1 h
  by_cases he : r.packno = q.packno
  · exact .inl (by rw [if_pos he])
  · rw [if_neg he]
    exact .inr ⟨hr, he⟩

abbrev Counted (conn : MiniConn) : Prop := conn.Numbered conn.packetsOut

theorem Counted.setPacket (h : conn.Counted) (hp : p ∈ conn.packetsOut) (hc : p.Continues q) :
    (conn.setPacket q).Counted := by
  refine (h.map fun r hr => ?_).congr rfl rfl rfl
  split
  next he => rw [h.eq_of_packno hr hp (he.trans hc.packno)]; exact hc
  · exact .refl r

theorem getPacketOut_spec (conn : MiniConn) :
    GotPacket conn ht need (conn.getPacketOut mem ht need) := by
  unfold getPacketOut
  cases ho : conn.openPacket ht need with
  | some p =>
    have hf := ho
    unfold openPacket at hf
    split at hf
    · cases hf
    · have hs := List.find?_some hf
      simp only [Bool.and_eq_true, Bool.not_eq_true'] at hs
      exact .found ho (List.mem_of_find?_eq_some hf) hs.1.1
  | none =>
    dsimp only
    by_cases hmax : miniMaxPackets ≤ conn.nextPackno
    · rw [if_pos hmax]
      exact .none
    · rw [if_neg hmax]
      split
      · exact .none
      next hc =>
        rw [not_or, Nat.not_le] at hc
        exact .fresh (Nat.not_le.1 hmax) hc.1

theorem Counted.addFrame (h : conn.Counted) : (conn.addFrame mem ht need ty len).Counted := by
  unfold MiniConn.addFrame
  have hspec := @getPacketOut_spec ht need mem conn
  generalize conn.getPacketOut mem ht need = r at hspec
  cases hspec with
  | none => exact h
  | found _ hp _ => exact h.setPacket hp (MiniPacket.write_continues _)
  | fresh hlt _ =>
    have hsnoc : (conn.nextNumber.append (conn.freshPacket ht)).Counted :=
      h.snoc (Nat.lt_succ_of_lt hlt) rfl h.next_mod rfl rfl
    exact hsnoc.setPacket (List.mem_append_right _ (List.mem_singleton.2 rfl))
      (MiniPacket.write_continues _)

theorem splitLost_perm (conn : MiniConn) (ps : List MiniPacket) :
    ((conn.splitLost retxTo now ps).1 ++ (conn.splitLost retxTo now ps).2).Perm ps := by
  induction ps with
  | nil => exact .refl _
  | cons p ps ih =>
    rw [splitLost]
    split
    · split
      · exact List.perm_middle.trans (ih.cons p)
      · exact ih.cons p
    · split
      · exact ih.cons p
      · rw [List.append_nil]

theorem Numbered.repackagePacket (h : conn.Numbered (conn.packetsOut ++ p :: ps)) :
    (conn.repackagePacket p).Numbered ((conn.repackagePacket p).packetsOut ++ ps) := by
  unfold MiniConn.repackagePacket
  split
  next hlt => exact h.drop hlt h.next_mod rfl rfl
  next hle =>
    have hlt : conn.nextPackno < 64 := Nat.lt_of_le_of_lt (Nat.not_lt.1 hle) (by decide)
    have hsub : (conn.packetsOut ++ ps).Subperm (conn.packetsOut ++ p :: ps) :=
      ((List.Sublist.refl _).append (List.sublist_cons_self p ps)).subperm
    have hsnoc : (conn.nextNumber.append (conn.renumbered p)).Numbered
        ((conn.packetsOut ++ ps) ++ [conn.renumbered p]) :=
      (h.subperm hsub).snoc hlt rfl h.next_mod rfl rfl
    refine hsnoc.subperm (List.Perm.subperm ?_)
    unfold MiniConn.append nextNumber
    rw [List.append_assoc, List.append_assoc]
    exact List.Perm.append_left _ List.perm_append_comm

theorem Numbered.resendLost (h : conn.Numbered (conn.packetsOut ++ ps)) :
    (conn.resendLost ps).Counted := by
  induction ps generalizing conn with
  | nil => rwa [List.append_nil] at h
  | cons p ps ih =>
    rw [MiniConn.resendLost]
    split
    · exact ih h.repackagePacket
    · exact ih (h.subperm ((List.Sublist.refl _).append (List.sublist_cons_self p ps)).subperm)

theorem Counted.handleLosses (h : conn.Counted) : (conn.handleLosses retxTo now).Counted := by
  apply Numbered.resendLost
  exact (h.subperm (conn.splitLost_perm conn.packetsOut).subperm).congr rfl rfl rfl

theorem nextPacketToSend_spec (conn : MiniConn) :
    NextPacket conn (conn.nextPacketToSend toCoal) := by
  unfold nextPacketToSend
  cases hf : conn.packetsOut.find? (fun p => !p.sent) with
  | none => exact .none
  | some p =>
    have hp := List.mem_of_find?_eq_some hf
    have hs : p.sent = false := by simpa using List.find?_some hf
    dsimp only
    split
    · exact .refused hp hs
    next hc =>
      simp only [Bool.or_eq_true, Bool.not_eq_true', not_or, Bool.not_eq_false] at hc
      exact .taken hp hs hf hc.2

theorem Counted.packetNotSent (h : conn.Counted) (hp : p ∈ conn.packetsOut)
    (hc : p.Continues q) : (conn.packetNotSent q).Counted :=
  (h.setPacket hp (q := q.setSent false) ⟨hc.packno, hc.pns, hc.sentAt⟩).congr rfl rfl rfl

theorem mem_setPacket_self (hp : p ∈ conn.packetsOut) (he : p.packno = q.packno) :
    q ∈ (conn.setPacket q).packetsOut :=
  List.mem_map.2 ⟨p, hp, by rw [if_pos he]⟩

theorem Counted.take (h : conn.Counted) : (conn.take toCoal enc).Counted := by
  unfold MiniConn.take
  have hspec := @nextPacketToSend_spec toCoal conn
  generalize conn.nextPacketToSend toCoal = r at hspec
  cases hspec with
  | none => exact h
  | refused hp _ => exact h.setPacket hp (MiniPacket.padded_continues _)
  | @taken p hp hs _ _ =>
    have hpad := p.padded_continues
    have hc : p.Continues (p.padded.setSent true) := ⟨hpad.packno, hpad.pns, hpad.sentAt⟩
    generalize p.padded.setSent true = q at hc
    have hmem : q ∈ ((conn.setPacket q).charge (conn.totalSz p.padded)).packetsOut :=
      mem_setPacket_self hp hc.packno.symm
    have hset : ((conn.setPacket q).charge (conn.totalSz p.padded)).Counted :=
      (h.setPacket hp hc).congr rfl rfl rfl
    have hq := q.hpPad_continues
    dsimp only
    split
    · exact hset.congr rfl rfl rfl
    · have henc : ∀ size?, q.Continues (q.hpPad.setEnc size?) := fun _ =>
        ⟨hq.packno, hq.pns, hq.sentAt⟩
      exact (hset.setPacket hmem (henc _)).congr rfl rfl rfl
    · exact hset.packetNotSent hmem (.refl q)
    · exact hset.packetNotSent hmem hq

theorem find?_mem (h : conn.find? n = some p) : p ∈ conn.packetsOut ∧ p.packno = n :=
  ⟨List.mem_of_find?_eq_some h, by simpa using List.find?_some h⟩

theorem Counted.packetReturned (h : conn.Counted) (hnow : 0 < now) :
    (conn.packetReturned n now).Counted := by
  unfold MiniConn.packetReturned
  split
  next hp =>
    exact Counted.packetNotSent (h.congr rfl rfl rfl) (find?_mem hp).1
      ⟨rfl, rfl, fun _ => Nat.ne_of_gt hnow⟩
  · exact h

theorem Counted.packetSent (h : conn.Counted) (hnow : 0 < now) :
    (conn.packetSent n now).Counted := by
  unfold MiniConn.packetSent
  split
  next m size p hb hp =>
    obtain ⟨hmem, -⟩ := find?_mem hp
    have hc : p.Continues ((p.setEnc none).setTime now) := ⟨rfl, rfl, fun _ => Nat.ne_of_gt hnow⟩
    have hset : (conn.setPacket ((p.setEnc none).setTime now)).Counted := h.setPacket hmem hc
    have hqt : ((p.setEnc none).setTime now).sentAt ≠ 0 := Nat.ne_of_gt hnow
    generalize (p.setEnc none).setTime now = q at hc hset hqt
    constructor
    · exact hset.nodup
    · exact hset.below
    · exact hset.next
    · intro g hg
      rcases List.mem_append.1 hg with hg | hg
      · exact h.handed g hg
      · rw [List.mem_singleton.1 hg]
        exact h.below p hmem
    · intro k
      rw [Nat.testBit_or, Bool.or_eq_true, h.bits, Nat.testBit_two_pow, decide_eq_true_eq]
      simp only [List.mem_append, List.mem_singleton, or_and_right, exists_or, exists_eq_left]
    · intro r hr g hg he
      rcases List.mem_append.1 hg with hg | hg
      · exact hset.spaces r hr g hg he
      · rw [List.mem_singleton.1 hg] at he ⊢
        rcases mem_setPacket hr with rfl | ⟨_, hne⟩
        · exact ⟨hc.pns.symm, hqt⟩
        · exact absurd (he.symm.trans hc.packno.symm) hne
  · exact h

theorem Counted.step (h : conn.Counted) (op : MiniOp) : (conn.step op).Counted := by
  unfold MiniConn.step
  split
  · cases op with
    | bytesIn | addrValidated | hskDone => exact h.congr rfl rfl rfl
    | packSize size =>
      rw [apply]
      split
      · exact h.congr rfl rfl rfl
      · exact h
    | hskPacketIn => exact (h.subperm List.filter_sublist.subperm).congr rfl rfl rfl
    | streamWrite mem ht need len =>
      rw [apply, streamWrite]
      split
      · exact h
      · exact h.addFrame
    | generateAck | generateConnClose | generateHandshakeDone => exact h.addFrame
    | losses => exact h.handleLosses
    | ack pns frame =>
      rw [apply, processAckFrame]
      split
      · split
        · exact h
        · split
          · exact h
          · exact (h.subperm List.filter_sublist.subperm).congr rfl rfl rfl
      · exact h
    | closeRecvd => exact (h.subperm (List.nil_sublist _).subperm).congr rfl rfl rfl
    | returnEncData =>
      refine (h.map fun p _ => ?_).congr rfl rfl rfl
      split
      · exact .refl p
      · exact ⟨rfl, rfl, id⟩
    | take => exact h.take
    | sent _ _ hnow => exact h.packetSent hnow
    | notSent _ _ hnow => exact h.packetReturned hnow
  · exact h

end

end MiniConn

theorem MiniRun.counted (h : MiniRun P conn) : conn.Counted := by
  induction h with
  | new => exact ⟨List.nodup_nil, by simp, .inl (Nat.zero_le _), by simp, by simp, by simp⟩
  | step _ _ ih => exact ih.step _

theorem MiniRun.runs (h : MiniRun P conn) (hP : ∀ c op, P c op) (ops : List MiniOp) :
    MiniRun P (ops.foldl MiniConn.step conn) := by
  induction ops generalizing conn with
  | nil => exact h
  | cons op ops ih => exact ih (.step h (hP _ _))

namespace MiniConn

def SentIn (conn : MiniConn) (pns : Pns) (n : Nat) : Prop :=
  ∃ h ∈ conn.handed, h.packno = n ∧ h.pns = pns

instance (conn : MiniConn) (pns : Pns) (n : Nat) : Decidable (conn.SentIn pns n) :=
  inferInstanceAs (Decidable (∃ h ∈ conn.handed, _))

/-- Only packets of the space are removed, a number that was not sent in it is an error, and no
assertion fails. -/
structure AckRight (conn : MiniConn) (pns : Pns) (frame : AckFrame) : Prop where
  removed : ∀ p ∈ conn.packetsOut, p ∉ (conn.processAckFrame pns frame).conn.packetsOut →
    p.pns = pns
  error : (∃ n, Covers frame.ranges n ∧ ¬ conn.SentIn pns n) →
    (conn.processAckFrame pns frame).accepted = false
  asserted : (conn.processAckFrame pns frame).asserted = true
  acked : ∀ acked, ackedSet frame.ranges 0 = some acked →
    ∀ n, acked.testBit n ↔ Covers frame.ranges n

section
variable {conn : MiniConn} {frame : AckFrame} {pns : Pns} {p : MiniPacket}

theorem ackedSet_covers (hv : frame.Valid) (h : ackedSet frame.ranges 0 = some acked) :
    (∀ n, acked.testBit n ↔ Covers frame.ranges n) ∧ ∀ n, Covers frame.ranges n → n < 64 := by
  have hmax : ∀ r ∈ frame.ranges, r.high ≤ miniMaxPackets := by
    intro r hr
    by_contra hlt
    rw [ackedSet_none hr (Nat.not_le.1 hlt)] at h
    cases h
  obtain ⟨m, hm, hbits⟩ := ackedSet_some hv.ranges hmax (a := 0) (by simp)
  rw [hm, Option.some.injEq] at h
  subst h
  refine ⟨fun n => by simpa using hbits n, ?_⟩
  rintro n ⟨r, hr, hn⟩
  exact Nat.lt_of_le_of_lt hn.2 (Nat.lt_succ_of_le (hmax r hr))

/-- A frame is accepted if every number it covers was sent in some space. -/
theorem Counted.accepted_iff (h : conn.Counted) (hv : frame.Valid) :
    (conn.processAckFrame pns frame).accepted = true
      ↔ ∀ n, Covers frame.ranges n → ∃ s, conn.SentIn s n := by
  have hsent : ∀ n, conn.sentPacknos.testBit n ↔ ∃ s, conn.SentIn s n := by
    intro n
    rw [h.bits]
    constructor
    · rintro ⟨g, hg, hn⟩
      exact ⟨g.pns, g, hg, hn, rfl⟩
    · rintro ⟨_, g, hg, hn, _⟩
      exact ⟨g, hg, hn⟩
  unfold processAckFrame
  cases ha : ackedSet frame.ranges 0 with
  | none =>
    constructor
    · intro hf
      cases hf
    · intro hall
      exfalso
      have hmax : ∀ r ∈ frame.ranges, r.high ≤ miniMaxPackets := by
        intro r hr
        obtain ⟨_, g, hg, hn, _⟩ := hall r.high ⟨r, hr, hv.ranges.valid r hr, le_rfl⟩
        rw [← hn]
        exact Nat.le_of_lt_succ (h.handed g hg).2
      obtain ⟨m, hm, _⟩ := ackedSet_some hv.ranges hmax (a := 0) (by simp)
      rw [ha] at hm
      cases hm
  | some acked =>
    obtain ⟨hbits, hlt⟩ := ackedSet_covers hv ha
    have hne : acked &&& packnoSetNot conn.sentPacknos ≠ 0
        ↔ ∃ n, acked.testBit n ∧ ¬ conn.sentPacknos.testBit n :=
      and_packnoSetNot_ne_zero fun n hn => hlt n ((hbits n).1 hn)
    simp only [hbits, hsent] at hne
    dsimp only
    split
    next hc =>
      obtain ⟨n, hn, hno⟩ := hne.1 hc
      refine ⟨fun hf => ?_, fun hall => absurd (hall n hn) hno⟩
      cases hf
    next hc =>
      refine ⟨fun _ n hn => ?_, fun _ => rfl⟩
      by_contra hno
      exact hc (hne.2 ⟨n, hn, hno⟩)

theorem removed_covered (hv : frame.Valid) (hp : p ∈ conn.packetsOut)
    (hr : p ∉ (conn.processAckFrame pns frame).conn.packetsOut) : Covers frame.ranges p.packno := by
  unfold processAckFrame at hr
  split at hr
  · exact absurd hp hr
  next acked ha =>
    split at hr
    · exact absurd hp hr
    · rw [← (ackedSet_covers hv ha).1]
      by_contra hbit
      refine hr (List.mem_filter.2 ⟨hp, ?_⟩)
      have hzero := two_pow_and_ne_zero (n := p.packno) (a := acked)
      rw [Bool.eq_false_iff.2 hbit] at hzero
      simpa using hzero

theorem Counted.asserted (h : conn.Counted) (hv : frame.Valid)
    (hacc : (conn.processAckFrame pns frame).accepted = true)
    (hs : ∀ p ∈ conn.packetsOut, Covers frame.ranges p.packno → p.pns = pns) :
    (conn.processAckFrame pns frame).asserted = true := by
  have hall := (h.accepted_iff hv).1 hacc
  unfold processAckFrame
  split
  · rfl
  next acked ha =>
    split
    · rfl
    · simp only [List.all_eq_true, List.mem_filter, and_imp]
      intro p hp hbit
      rw [two_pow_and_ne_zero] at hbit
      have hcov := ((ackedSet_covers hv ha).1 _).1 hbit
      obtain ⟨_, g, hg, hn, _⟩ := hall _ hcov
      have ht := (h.spaces p hp g hg hn).2
      simp [hs p hp hcov, ht]

theorem processAckFrame_refused (h : (conn.processAckFrame pns frame).accepted = false) :
    (conn.processAckFrame pns frame).conn = conn ∧
      (conn.processAckFrame pns frame).asserted = true := by
  unfold processAckFrame at h ⊢
  split
  · exact ⟨rfl, rfl⟩
  next ha =>
    rw [ha] at h
    dsimp only at h
    split at h
    next hc =>
      rw [if_pos hc]
      exact ⟨rfl, rfl⟩
    · cases h

theorem Counted.pns_eq (h : conn.Counted) (hp : p ∈ conn.packetsOut)
    (hs : conn.SentIn pns p.packno) : p.pns = pns := by
  obtain ⟨g, hg, hn, rfl⟩ := hs
  exact (h.spaces p hp g hg hn).1.symm

end

end MiniConn

/-- Either some number that the frame names was never sent, or all were sent in the space. -/
theorem MiniRun.ack_in_space {frame : AckFrame} (h : MiniRun (fun _ _ => True) conn) (pns : Pns)
    (hv : frame.Valid) :
    conn.AckRight pns frame ↔
      (∃ n, Covers frame.ranges n ∧ ∀ s, ¬ conn.SentIn s n) ∨
      ∀ n, Covers frame.ranges n → conn.SentIn pns n := by
  have hc := h.counted
  constructor
  · intro hr
    by_contra hno
    rw [not_or] at hno
    obtain ⟨hsome, hall⟩ := hno
    push Not at hsome hall
    have hacc := (@MiniConn.Counted.accepted_iff _ _ pns hc hv).2 hsome
    rw [hr.error hall] at hacc
    cases hacc
  · intro hcond
    refine ⟨fun p hp hr => ?_, ?_, ?_, fun acked ha => (MiniConn.ackedSet_covers hv ha).1⟩
    · rcases hcond with ⟨n, hn, hnone⟩ | hall
      · have href : (conn.processAckFrame pns frame).accepted = false := by
          by_contra hacc
          obtain ⟨s, hs⟩ := (hc.accepted_iff hv).1 (Bool.eq_true_of_not_eq_false hacc) n hn
          exact hnone s hs
        rw [(MiniConn.processAckFrame_refused href).1] at hr
        exact absurd hp hr
      · exact hc.pns_eq hp (hall _ (MiniConn.removed_covered hv hp hr))
    · rintro ⟨n, hn, hno⟩
      by_contra hacc
      have hsome := (hc.accepted_iff hv).1 (Bool.eq_true_of_not_eq_false hacc)
      rcases hcond with ⟨m, hm, hnone⟩ | hall
      · obtain ⟨s, hs⟩ := hsome m hm
        exact hnone s hs
      · exact hno (hall n hn)
    · by_cases hacc : (conn.processAckFrame pns frame).accepted = true
      · apply hc.asserted hv hacc
        intro p hp hcov
        rcases hcond with ⟨m, hm, hnone⟩ | hall
        · obtain ⟨s, hs⟩ := (hc.accepted_iff hv).1 hacc m hm
          exact absurd hs (hnone s)
        · exact hc.pns_eq hp (hall _ hcov)
      · exact (MiniConn.processAckFrame_refused (Bool.eq_false_iff.2 hacc)).2

def MiniConn.unvalidated : MiniConn where
  dcidLen := 8
  scidLen := 8
  packSize := 1200
  addrValidated := false

/-- An Initial packet with number 0 and a Handshake packet with number 1 were sent. -/
def MiniConn.firstFlight : MiniConn :=
  [MiniOp.bytesIn 1200, .generateAck true .initial 5, .streamWrite true .handshake 10 100,
    .take none .ok, .take (some (50, true)) .ok, .sent 0 1000 (by decide),
    .sent 1 1000 (by decide)].foldl MiniConn.step unvalidated

theorem MiniConn.firstFlight_run : MiniRun (fun _ _ => True) firstFlight :=
  MiniRun.runs (.new 8 8 1200 false) (fun _ _ => trivial) _

def ackOf (n : Nat) : AckFrame := ⟨.init, false, false, 0, default, [⟨n, n⟩]⟩

theorem ackOf_valid (hn : n ≤ maxPackno) : (ackOf n).Valid := by
  refine ⟨⟨fun r hr => ?_, List.pairwise_singleton _ _⟩, fun r hr => ?_⟩
  · rw [List.mem_singleton.1 hr]
  · rw [List.mem_singleton.1 hr]
    exact hn

theorem MiniRun.ack_in_space_initial : MiniConn.firstFlight.AckRight .init (ackOf 0) := by
  rw [MiniRun.ack_in_space MiniConn.firstFlight_run .init (ackOf_valid (by decide))]
  right
  intro n hn
  obtain ⟨r, hr, hn⟩ := hn
  rw [List.mem_singleton.1 hr] at hn
  rw [Nat.le_zero.1 hn.2]
  decide +kernel

/-- An Initial packet's ACK removes a Handshake packet, and an assertion fails. -/
theorem MiniRun.ack_across_spaces :
    ∃ conn frame, MiniRun (fun _ _ => True) conn ∧ conn.handles .init = true ∧ frame.Valid ∧
      Covers frame.ranges 1 ∧
      ¬ conn.SentIn .init 1 ∧ (conn.processAckFrame .init frame).accepted = true ∧
      (conn.processAckFrame .init frame).asserted = false ∧
      (conn.processAckFrame .init frame).removed.map (·.pns) = [.hsk] ∧
      ¬ conn.AckRight .init frame := by
  refine ⟨MiniConn.firstFlight, ackOf 1, MiniConn.firstFlight_run, by decide +kernel,
    ackOf_valid (by decide), by decide, by decide +kernel, by decide +kernel, by decide +kernel,
    by decide +kernel, fun h => ?_⟩
  have hfalse : (MiniConn.firstFlight.processAckFrame .init (ackOf 1)).asserted = false := by
    decide +kernel
  rw [h.asserted] at hfalse
  cases hfalse

end QuicArt
