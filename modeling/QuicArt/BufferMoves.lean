import QuicArt.DropMoves

namespace QuicArt

namespace SendCtl

inductive GotBuffered (env : Env) (m : Kind → Prop) (b : BufPacketType) (s : SendCtl) :
    SendCtl × Option PktId → Prop
  | none (hM : Moves m ⟨s.core env, [], []⟩ ⟨s'.core env, [], []⟩) :
      GotBuffered env m b s (s', none)
  | some (hM : Moves m ⟨s.core env, [], []⟩ ⟨s'.core env, [], []⟩)
      (hp : p ∈ (s'.core env).queue (.buffered b)) : GotBuffered env m b s (s', some p)

section
variable {env : Env} {s s₀ s₁ s' : SendCtl} {p src : PktId} {q : Queue} {b : BufPacketType}

theorem Rewritten.pkt (hR : Rewritten env s p s') (a : PktId) :
    ∃ body, (s'.core env).pkts a = { (s.core env).pkts a with body := body } := by
  obtain ⟨body, hc⟩ := hR
  rw [hc, upd_pkts]
  split
  · exact ⟨body, rfl⟩
  · exact ⟨((s.core env).pkts a).body, rfl⟩

theorem core_bufferedAppend (s : SendCtl) (b : BufPacketType) (p : PktId) :
    (s.bufferedAppend b p).core env = ((s.core env).append (.buffered b) p).addBpq b 1 := by
  rw [← core_append s, ← core_modifyBpq]
  rfl

theorem Loose.rewritten (hL : Loose (s.core env) p) (hR : Rewritten env s src s') :
    Loose (s'.core env) p := by
  obtain ⟨body, he⟩ := hR.pkt p
  constructor
  · rw [he]
    exact hL.data
  · rw [he]
    exact hL.numbered
  · rw [he]
    exact hL.alone

theorem bufferedAppend_spec (hL : Loose (s.core env) p)
    (hM : Moves m ⟨s₀.core env, [], []⟩ ⟨s.core env, [p], []⟩) :
    GotBuffered env m b s₀ (s.bufferedAppend b p, some p) := by
  have hc : (s.bufferedAppend b p).core env = ((s.core env).append (.buffered b) p).addBpq b 1 :=
    core_bufferedAppend s b p
  apply GotBuffered.some
  · rw [hc]
    exact hM.snoc (.toBuffered hL.data hL.numbered hL.alone (List.append_nil _).symm)
  · rw [hc]
    simp [Core.append, Core.setQueue, Core.addBpq]

theorem moveAck_rewrites (s : SendCtl) (dst src : PktId) :
    ∃ s₁, Rewritten env s dst s₁ ∧ Rewritten env s₁ src (s.moveAck env dst src).1 := by
  have hsame : ∃ s₁, Rewritten env s dst s₁ ∧ Rewritten env s₁ src s :=
    ⟨s, .of_core rfl, .of_core rfl⟩
  simp only [moveAck]
  split
  · split
    · split
      · have ht : Rewritten env s dst s.ticked := .of_core (core_ticked s)
        exact ⟨_, ht.trans (.upd rfl), .upd rfl⟩
      · exact ⟨s, .of_core rfl, .of_core (core_ticked s)⟩
    · exact hsame
  · exact hsame

theorem Rewritten.held (hR : Rewritten env s p s') (hS : Sound (s.core env) [p] [])
    (hd : ((s.core env).pkts p).data) :
    Moves m ⟨s.core env, [p], []⟩ ⟨s'.core env, [p], []⟩ :=
  hR.moves hS.placed.held_off_unacked hd

theorem write_rewrites (s : SendCtl) (p : PktId) (c : Content) :
    Rewritten env s p (s.upd p (write c)) :=
  .upd rfl

theorem stealAck_spec (hS : s₀.Settled env) (hL : Loose (s.core env) p)
    (hM : Moves m ⟨s₀.core env, [], []⟩ ⟨s.core env, [p], []⟩)
    (hsrc : src ∈ (s.core env).queue (.buffered .otherPrio)) :
    GotBuffered env m b s₀ (match s.moveAck env p src with
      | (s, true) => (s.bufferedAppend b p, some p)
      | (s, false) => (s, none)) := by
  obtain ⟨s₁, hR, hR'⟩ : ∃ s₁, Rewritten env s p s₁ ∧ Rewritten env s₁ src
      (s.moveAck env p src).1 :=
    moveAck_rewrites s p src
  generalize s.moveAck env p src = r at hR'
  have hM₁ : Moves m ⟨s₀.core env, [], []⟩ ⟨s₁.core env, [p], []⟩ :=
    hM.trans (hR.held (hM.sound hS) hL.data)
  rw [← hR.queue] at hsrc
  have hM₂ : Moves m ⟨s₀.core env, [], []⟩ ⟨r.1.core env, [p], []⟩ :=
    hM₁.trans (hR'.visited (hM₁.sound hS) hsrc (by simp)).1
  have hL₂ : Loose (r.1.core env) p := (hL.rewritten hR).rewritten hR'
  obtain ⟨s₂, ok⟩ := r
  cases ok with
  | true => exact bufferedAppend_spec hL₂ hM₂
  | false => exact .none (hM₂.trans ((hM₂.sound hS).free_single hL₂.data hL₂.alone))

section
variable {m : Kind → Prop} (hm : m .alloc) (hS : s.Settled env) (b : BufPacketType)
  (needAtLeast path : Nat) (ack : Option Content)
include hm hS

theorem newBufferedPacket_spec :
    GotBuffered env m b s (s.newBufferedPacket env b needAtLeast path ack) := by
  simp only [newBufferedPacket]
  have hA : Allocated env s (s.allocatePacket env
      (if s.ackAction b ack.isSome = .none then guessPacknoBits else s.maxPacknoBits) needAtLeast
      .app path) := allocatePacket_spec _ _ _ _ _
  generalize s.allocatePacket env _ needAtLeast .app path = r at hA
  cases hA with
  | none hc =>
    apply GotBuffered.none
    rw [hc]
    exact .refl
  | @some pk s₁ hpk hc =>
    have hM : Moves m ⟨s.core env, [], []⟩ ⟨s₁.core env, [s.nextId], []⟩ := by
      rw [hc]
      exact .one (.fresh hm hpk)
    have hL : Loose (s₁.core env) s.nextId := by
      rw [hc]
      exact .fresh hpk
    simp only
    split
    next src _ hsrc => exact stealAck_spec hS hL hM (List.mem_of_head? hsrc)
    · have hR : Rewritten env s₁ s.nextId (s₁.upd s.nextId (write (ack.getD {}))) :=
        write_rewrites _ _ _
      exact bufferedAppend_spec (hL.rewritten hR) (hM.trans (hR.held (hM.sound hS) hL.data))
    · exact bufferedAppend_spec hL hM

theorem getBufferedPacket_spec :
    GotBuffered env m b s (s.getBufferedPacket env b needAtLeast path ack) := by
  simp only [getBufferedPacket]
  split
  next p hp =>
    split
    · exact .some .refl (List.mem_of_getLast? hp)
    · split
      · exact .none .refl
      · exact newBufferedPacket_spec hm hS b needAtLeast path ack
  · split
    · exact .none .refl
    · exact newBufferedPacket_spec hm hS b needAtLeast path ack

theorem bufferStreamData_moves (c : Content) :
    s.Evolves env m (s.bufferStreamData env b needAtLeast path ack c) := by
  have hG : GotBuffered env m b s (s.getBufferedPacket env b needAtLeast path ack) :=
    getBufferedPacket_spec hm hS b needAtLeast path ack
  simp only [bufferStreamData]
  generalize s.getBufferedPacket env b needAtLeast path ack = r at hG
  cases hG with
  | none hM => exact hM
  | @some p s₁ hM hp =>
    exact hM.trans ((write_rewrites s₁ p c).visited (hM.sound hS) hp (by simp)).1

end

theorem pkt_nextPackno (s : SendCtl) (p : PktId) : s.nextPackno.pkt p = s.pkt p := by
  simp only [SendCtl.nextPackno]
  split <;> rfl

def readied (s : SendCtl) (p : PktId) : PacketOut :=
  if (s.pkt p).hasAck && decide ((s.pkt p).ack2ed < s.largestAcked) then (s.pkt p).chopRegen
  else s.pkt p

def Roomy (env : Env) (s : SendCtl) (b : BufPacketType) (bits : Nat) : Prop :=
  ∀ p ∈ s.queue (.buffered b), needsSplit env bits (s.readied p) = false

theorem Roomy.frame {bits : Nat} (h : Roomy env s b bits)
    (hl : s'.largestAcked = s.largestAcked)
    (hq : ∀ a ∈ s'.queue (.buffered b), a ∈ s.queue (.buffered b) ∧ s'.pkt a = s.pkt a) :
    Roomy env s' b bits := by
  intro a ha
  obtain ⟨ha', hpk⟩ := hq a ha
  have hr : s'.readied a = s.readied a := by
    simp only [readied, hpk, hl]
  rw [hr]
  exact h a ha'

theorem bufferedRemove_queue (s : SendCtl) (b : BufPacketType) (p : PktId) :
    (s.bufferedRemove b p).queue (.buffered b) = (s.queue (.buffered b)).erase p :=
  (Table.get_set _ _ _ _).trans (if_pos rfl)

theorem Roomy.drop {bits : Nat} (h : Roomy env s b bits) (hn : (s.queue (.buffered b)).Nodup)
    (hl : s'.largestAcked = s.largestAcked)
    (hq : s'.queue (.buffered b) = (s.queue (.buffered b)).erase p)
    (hpk : ∀ a, a ≠ p → s'.pkt a = s.pkt a) : Roomy env s' b bits := by
  apply h.frame hl
  intro a ha
  rw [hq] at ha
  obtain ⟨hne, ha'⟩ := (List.Nodup.mem_erase_iff hn).1 ha
  exact ⟨ha', hpk a hne⟩

theorem scheduleBufferedOne_frame (s : SendCtl) (b : BufPacketType) (p : PktId) :
    (s.scheduleBufferedOne env b p).largestAcked = s.largestAcked ∧
      (s.scheduleBufferedOne env b p).queue (.buffered b) = (s.queue (.buffered b)).erase p ∧
      ∀ a, a ≠ p → (s.scheduleBufferedOne env b p).pkt a = s.pkt a := by
  have hN : ∀ s₁ : SendCtl, s₁.nextPackno.largestAcked = s₁.largestAcked ∧
      s₁.nextPackno.queues = s₁.queues ∧ s₁.nextPackno.pkts = s₁.pkts := by
    intro s₁
    simp only [SendCtl.nextPackno]
    split <;> exact ⟨rfl, rfl, rfl⟩
  have hA : ∀ s₁ : SendCtl, (s₁.schedAppend env p).largestAcked = s₁.largestAcked ∧
      (s₁.schedAppend env p).queue (.buffered b) = s₁.queue (.buffered b) ∧
      ∀ a, a ≠ p → (s₁.schedAppend env p).pkt a = s₁.pkt a := by
    intro s₁
    refine ⟨rfl, (Table.get_set _ _ _ _).trans (if_neg (by simp)), ?_⟩
    intro a hne
    exact (pkt_upd _ _ _ _).trans (if_neg hne)
  obtain ⟨hl, hq, hpk⟩ := hN (s.bufferedRemove b p)
  obtain ⟨hl', hq', hpk'⟩ := hA ((s.bufferedRemove b p).nextPackno.upd p
    ({ · with packno := (s.bufferedRemove b p).nextPackno.curPackno }))
  refine ⟨hl'.trans hl, hq'.trans ?_, fun a hne => (hpk' a hne).trans ?_⟩
  · rw [← bufferedRemove_queue, queue, queue, ← hq]
    rfl
  · apply ((pkt_upd _ _ _ _).trans (if_neg hne)).trans
    rw [pkt, hpk]
    rfl

theorem scheduleBufferedOne_moves (hm : m .append) (hk : ¬ m .mark ∧ ¬ m .resize)
    (ht : Tidy m (s.core env))
    (hS : s.Settled env) (hp : p ∈ (s.core env).queue (.buffered b)) :
    s.Evolves env m (s.scheduleBufferedOne env b p) := by
  have hM : Moves m ⟨s.core env, [], []⟩ ⟨(s.bufferedRemove b p).core env, [p], []⟩ :=
    bufferedRemove_moves hp
  obtain ⟨-, hd, hr, -⟩ := hS.placed.buffered hp
  rw [← bufferedRemove_pkts (b := b) (p := p)] at hd hr
  have ht' := hM.tidy hk hS.placed ht
  simp only [scheduleBufferedOne]
  generalize s.bufferedRemove b p = s₁ at hM hd hr ht'
  have hc : (s₁.nextPackno.upd p ({ · with packno := s₁.nextPackno.curPackno })).core env =
      (s₁.core env).nextPackno.upd p ({ · with
        packno := (s₁.core env).nextPackno.curPackno
        body := ((s₁.core env).pkts p).body
        mtuProbe := ((s₁.core env).pkts p).mtuProbe }) := by
    rw [← core_nextPackno]
    apply core_upd
    rw [pkt_nextPackno]
    rfl
  rw [SendCtl.Evolves, core_enqueue hc]
  exact hM.snoc (.enqueue hm ht' hd hr (.inl rfl))

theorem insertBufferedPiece_moves (ha : m .alloc) (hp : p ∈ (s.core env).queue (.buffered b))
    (c : Content) :
    Moves m ⟨s.core env, h, []⟩ ⟨(insertBufferedPiece env b p s c).core env, h, []⟩ ∧
      p ∈ ((insertBufferedPiece env b p s c).core env).queue (.buffered b) := by
  obtain ⟨pre, suf, he, hn⟩ := List.eq_append_cons_of_mem hp
  have hc : (insertBufferedPiece env b p s c).core env =
      (((s.core env).alloc ((s.piece env p c).core env)).setQueue (.buffered b)
        (pre ++ s.nextId :: p :: suf)).addBpq b 1 := by
    simp only [insertBufferedPiece]
    rw [core_modifyBpq, core_setQueue _, core_alloc, ← insertBefore_split hn, ← he]
    rfl
  rw [hc]
  have hF : ((s.piece env p c).core env).Fresh s.nextId := piece_fresh s p c
  have hL : Loose ((s.core env).alloc ((s.piece env p c).core env)) s.nextId := .fresh hF
  refine ⟨.snoc (.one (.fresh ha hF)) (.toBuffered hL.data hL.numbered hL.alone he), ?_⟩
  simp [Core.addBpq, Core.setQueue]

theorem insertBufferedPieces_moves (ha : m .alloc) (pieces : List Content)
    (hp : p ∈ (s.core env).queue (.buffered b)) :
    Moves m ⟨s.core env, h, []⟩ ⟨(pieces.foldl (insertBufferedPiece env b p) s).core env, h, []⟩ ∧
      p ∈ ((pieces.foldl (insertBufferedPiece env b p) s).core env).queue (.buffered b) := by
  induction pieces generalizing s with
  | nil => exact ⟨.refl, hp⟩
  | cons c pieces ih =>
    obtain ⟨hM, hp'⟩ := insertBufferedPiece_moves (m := m) (h := h) ha hp c
    obtain ⟨hM', hp''⟩ := ih hp'
    exact ⟨hM.trans hM', hp''⟩

theorem core_removeOversized (s : SendCtl) (b : BufPacketType) (p : PktId) :
    (s.removeOversized b p).core env = ((s.core env).remove (.buffered b) p).addBpq b 1 := by
  rw [← core_remove s, ← core_modifyBpq]
  rfl

theorem splitBufferedPacket_moves (hm : m .miscount) (ha : m .alloc) (hS : s.Settled env)
    (hp : p ∈ (s.core env).queue (.buffered b)) :
    s.Evolves env m (s.splitBufferedPacket env b p).1 := by
  obtain ⟨hM, hp'⟩ := insertBufferedPieces_moves (m := m) (h := []) (s := s.ticked) ha
    (s.resizeOne env p).1 hp
  simp only [splitBufferedPacket]
  generalize List.foldl (insertBufferedPiece env b p) s.ticked _ = s₁ at hM hp'
  split
  · exact hM
  · have hS₁ : s₁.Settled env := hM.sound hS
    have hT : Moves m ⟨s₁.core env, [], []⟩
        ⟨((s₁.core env).remove (.buffered b) p).addBpq b 1, [p], []⟩ :=
      .one (.splitBuffered hm hp')
    apply hM.trans
    rw [core_removeOversized]
    exact hT.trans ((hT.sound hS₁).free_single (hS₁.placed.buffered hp').2.1
      (lossChain_of_buffered hS₁ hp'))

theorem scheduleSplit_moves (hm : m .append) (ha : m .alloc) (hk : ¬ m .mark ∧ ¬ m .resize)
    (hc : m .miscount) (ht : Tidy m (s.core env)) (hS : s.Settled env) {bits n : Nat}
    (hp : p ∈ (s.core env).queue (.buffered b))
    (ih : ∀ {s : SendCtl}, Tidy m (s.core env) → s.Settled env →
      s.Evolves env m (scheduleBufferedLoop env b bits n s)) :
    s.Evolves env m (match s.splitBufferedPacket env b p with
      | (s, true) =>
        match (s.queue (.buffered b)).head? with
        | some first => scheduleBufferedLoop env b bits n (s.scheduleBufferedOne env b first)
        | none => s
      | (s, false) => s) := by
  have hM : s.Evolves env m (s.splitBufferedPacket env b p).1 :=
    splitBufferedPacket_moves hc ha hS hp
  generalize s.splitBufferedPacket env b p = r at hM
  obtain ⟨s₁, ok⟩ := r
  cases ok with
  | false => exact hM
  | true =>
    simp only
    split
    next first hf =>
      have hM' := hM.trans (scheduleBufferedOne_moves hm hk (hM.tidy hk hS.placed ht) (hM.sound hS)
        (List.mem_of_head? hf))
      exact hM'.trans (ih (hM'.tidy hk hS.placed ht) (hM'.sound hS))
    · exact hM

theorem canSend_frame (s : SendCtl) : (s.canSend env).1.largestAcked = s.largestAcked ∧
    (s.canSend env).1.queues = s.queues ∧ (s.canSend env).1.pkts = s.pkts := by
  simp only [SendCtl.canSend, regularCanSend]
  repeat' split
  all_goals exact ⟨rfl, rfl, rfl⟩

theorem chopped_spec (h : (if ((s.pkt p).hasAck && decide ((s.pkt p).ack2ed < s.largestAcked)) =
      true then s.upd p PacketOut.chopRegen else s) = s') :
    Rewritten env s p s' ∧ s'.largestAcked = s.largestAcked ∧ s'.queues = s.queues ∧
      s'.pkt p = s.readied p ∧ ∀ a, a ≠ p → s'.pkt a = s.pkt a := by
  simp only [readied]
  split at h
  next hc =>
    subst h
    rw [if_pos hc]
    exact ⟨chopRegen_rewrites s p, rfl, rfl, pkt_upd_self _ _ _, fun a hne =>
      (pkt_upd _ _ _ _).trans (if_neg hne)⟩
  next hc =>
    subst h
    rw [if_neg hc]
    exact ⟨.of_core rfl, rfl, rfl, rfl, fun _ _ => rfl⟩

/-- Only where a packet has to be split is the queue miscounted. -/
theorem scheduleBufferedLoop_moves (hm : m .append) (ha : m .alloc) (hk : ¬ m .mark ∧ ¬ m .resize)
    (b : BufPacketType) (bits rounds : Nat) (hc : m .miscount ∨ Roomy env s b bits)
    (ht : Tidy m (s.core env)) (hS : s.Settled env) :
    s.Evolves env m (scheduleBufferedLoop env b bits rounds s) := by
  induction rounds generalizing s with
  | zero => exact .refl
  | succ n ih =>
    simp only [scheduleBufferedLoop]
    split
    · exact .refl
    next p hp =>
      have hp : p ∈ (s.core env).queue (.buffered b) := List.mem_of_head? hp
      have hcs : (s.canSend env).1.core env = s.core env := core_canSend s
      have hF : (s.canSend env).1.largestAcked = s.largestAcked ∧
          (s.canSend env).1.queues = s.queues ∧ (s.canSend env).1.pkts = s.pkts := canSend_frame s
      generalize s.canSend env = r at hcs hF
      obtain ⟨s₁, ok⟩ := r
      have hcs : s₁.core env = s.core env := hcs
      obtain ⟨hl, hq, hpk⟩ : s₁.largestAcked = s.largestAcked ∧ s₁.queues = s.queues ∧
        s₁.pkts = s.pkts := hF
      have hc : m .miscount ∨ Roomy env s₁ b bits := by
        refine hc.imp_right fun h => h.frame hl fun a ha => ?_
        simp only [queue, pkt, hq, hpk] at ha ⊢
        exact ⟨ha, trivial⟩
      have hM₀ : s.Evolves env m s₁ := .of_core .refl hcs
      replace hS : s₁.Settled env := hM₀.sound hS
      rw [← hcs] at hp ht
      apply hM₀.trans
      cases ok with
      | false => exact .refl
      | true =>
        simp only
        generalize hs₂ : (if ((s₁.pkt p).hasAck && decide ((s₁.pkt p).ack2ed < s₁.largestAcked)) =
          true then s₁.upd p PacketOut.chopRegen else s₁) = s₂
        obtain ⟨hR, hl, hq, hself, hpk⟩ := chopped_spec hs₂
        obtain ⟨hM, hp₂, -⟩ := hR.visited (m := m) hS hp (by simp)
        have hc' : needsSplit env bits (s₂.pkt p) = true → m .miscount := by
          intro hsplit
          rw [hself] at hsplit
          exact hc.resolve_right fun h => absurd ((h p hp).symm.trans hsplit) (by simp)
        -- once the packet at the head is gone, the rest is as it was
        have hrest : ∀ s' : SendCtl, s'.largestAcked = s₂.largestAcked →
            s'.queue (.buffered b) = (s₂.queue (.buffered b)).erase p →
            (∀ a, a ≠ p → s'.pkt a = s₂.pkt a) → m .miscount ∨ Roomy env s' b bits := by
          intro s' hl' hq' hpk'
          refine hc.imp_right fun h => h.drop (hS.placed.nodup (some (.buffered b)))
            (hl'.trans hl) (hq'.trans ?_) fun a hne => (hpk' a hne).trans (hpk a hne)
          rw [queue, queue, hq]
        apply hM.trans
        have hS₂ : s₂.Settled env := hM.sound hS
        have ht₂ : Tidy m (s₂.core env) := hM.tidy hk hS.placed ht
        split
        · have hD : s₂.Evolves env m (s₂.bufferedRemove b p) := dropBuffered_moves hS₂ hp₂
          exact hD.trans (ih (hrest _ rfl (bufferedRemove_queue s₂ b p) fun _ _ => rfl)
            (hD.tidy hk hS₂.placed ht₂) (hD.sound hS₂))
        · split
          next hsplit =>
            exact scheduleSplit_moves hm ha hk (hc' hsplit) ht₂ hS₂ hp₂
              fun ht hS => ih (.inl (hc' hsplit)) ht hS
          · have hE := scheduleBufferedOne_moves hm hk ht₂ hS₂ hp₂
            obtain ⟨hl', hq', hpk'⟩ := scheduleBufferedOne_frame s₂ b p
            exact hE.trans (ih (hrest _ hl' hq' hpk') (hE.tidy hk hS₂.placed ht₂) (hE.sound hS₂))

theorem scheduleBuffered_moves (hm : m .append) (ha : m .alloc) (hk : ¬ m .mark ∧ ¬ m .resize)
    (b : BufPacketType) (rounds : Nat)
    (hc : m .miscount ∨ Roomy env s b (s.calcPacknoBits env))
    (ht : Tidy m (s.core env)) (hS : s.Settled env) :
    s.Evolves env m (s.scheduleBuffered env b rounds) :=
  scheduleBufferedLoop_moves hm ha hk b _ rounds hc ht hS

end

end SendCtl

end QuicArt
