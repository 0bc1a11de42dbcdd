import QuicArt.LossMoves

namespace QuicArt

theorem Core.upd_upd (c : Core) (p : PktId) (f g : Pkt → Pkt) :
    (c.upd p f).upd p g = c.upd p fun pk => g (f pk) := by
  refine Core.ext (funext fun p' => ?_) rfl rfl rfl rfl rfl rfl rfl rfl rfl rfl rfl
  simp only [upd_pkts]
  split <;> rfl

theorem Core.upd_congr {c : Core} {f g : Pkt → Pkt} (h : f (c.pkts p) = g (c.pkts p)) :
    c.upd p f = c.upd p g := by
  simp only [Core.upd, h]

theorem Core.upd_same {c : Core} {f : Pkt → Pkt} (h : f (c.pkts p) = c.pkts p) : c.upd p f = c := by
  simp only [Core.upd, h, Function.update_eq_self]

namespace SendCtl

inductive Allocated (env : Env) (s : SendCtl) : SendCtl × Option PktId → Prop
  | none (hc : s'.core env = s.core env) : Allocated env s (s', none)
  | some (hpk : pk.Fresh s.nextId) (hc : s'.core env = (s.core env).alloc pk) :
      Allocated env s (s', some s.nextId)

structure Taken (env : Env) (s : SendCtl) (p : PktId) (s' : SendCtl) : Prop where
  head : ∃ l, (s.core env).queue .scheduled = p :: l
  numbered : ((s.core env).pkts p).repackno = false
  taken : ∃ body, s'.core env = ((s.core env).schedRemove p).upd p ({ · with body := body })

inductive Picked (env : Env) (m : Kind → Prop) (s : SendCtl) : SendCtl × Option PktId → Prop
  | none (hM : Moves m ⟨s.core env, [], []⟩ ⟨s'.core env, [], []⟩) : Picked env m s (s', none)
  | some (hM : Moves m ⟨s.core env, [], []⟩ ⟨s₁.core env, [], []⟩) (ht : Taken env s₁ p s') :
      Picked env m s (s', some p)

/-- The poison packet is put in front of the packet behind the gap, if there is memory for it. -/
inductive PoisonAdded (env : Env) (s : SendCtl) (packno : Int) : SendCtl × Bool → Prop
  | ok (hc : s'.core env = (s.core env).withPoison packno sz) : PoisonAdded env s packno (s', true)
  | failed (hg : packno = s.gap + 1)
      (hc : s'.core env = (s.core env).senhistAdd s.gap) :
      PoisonAdded env s packno (s', false)

section
variable {env : Env} {s s₀ s₁ s' s'' : SendCtl} {p : PktId} {f : PacketOut → PacketOut}

def Rewritten (env : Env) (s : SendCtl) (p : PktId) (s' : SendCtl) : Prop :=
  ∃ body, s'.core env = (s.core env).upd p ({ · with body := body })

theorem Rewritten.of_core (hc : s'.core env = s.core env) : Rewritten env s p s' :=
  ⟨((s.core env).pkts p).body, hc.trans (Core.upd_same rfl).symm⟩

theorem Rewritten.trans (h : Rewritten env s p s') (h' : Rewritten env s' p s'') :
    Rewritten env s p s'' := by
  obtain ⟨body, hc⟩ := h
  obtain ⟨body', hc'⟩ := h'
  exact ⟨body', by rw [hc', hc, Core.upd_upd]⟩

theorem Rewritten.upd
    (hf : (f (s.pkt p)).core env =
      { (s.pkt p).core env with body := ((f (s.pkt p)).core env).body }) :
    Rewritten env s p (s.upd p f) :=
  ⟨_, core_upd (g := ({ · with body := ((f (s.pkt p)).core env).body })) hf⟩

theorem Rewritten.view (h : Rewritten env s p s') (hv : s''.view = s'.view) :
    Rewritten env s p s'' :=
  h.trans (.of_core (core_congr hv))

theorem Rewritten.moves (h : Rewritten env s p s') (hp : ∀ n, p ∉ (s.core env).queue (.unacked n))
    (hd : ((s.core env).pkts p).data) :
    Moves m ⟨s.core env, l, x⟩ ⟨s'.core env, l, x⟩ := by
  obtain ⟨body, hc⟩ := h
  rw [hc]
  exact .one (.resize hp hd)

theorem core_upd_upd (s : SendCtl) (p : PktId) (f g : PacketOut → PacketOut) :
    ((s.upd p f).upd p g).core env = (s.upd p fun pk => g (f pk)).core env := by
  refine Core.ext (funext fun p' => ?_) rfl rfl rfl rfl rfl rfl rfl rfl rfl rfl rfl
  simp only [core_pkts, pkt_upd]
  split <;> rfl

structure Dropped (env : Env) (m : Kind → Prop) (s : SendCtl) (p : PktId) (s' : SendCtl) :
    Prop where
  moves : Moves m ⟨s.core env, [], []⟩ ⟨s'.core env, [], []⟩
  keep : ∀ q a, a ≠ p → ((s.core env).pkts a).lossRec = false →
    (a ∈ (s'.core env).queue q ↔ a ∈ (s.core env).queue q)
  left : ∀ q, q ≠ .stash → ∀ a ∈ (s'.core env).queue q, a ≠ p ∧ a ∈ (s.core env).queue q

theorem dropInHand_spec (hS : s.Settled env)
    (hM : Moves m ⟨s.core env, [], []⟩ ⟨s₁.core env, [p], []⟩) (hd : ((s₁.core env).pkts p).data)
    (hk : ∀ q a, a ≠ p → (a ∈ (s₁.core env).queue q ↔ a ∈ (s.core env).queue q))
    (hr : ∀ a, ((s₁.core env).pkts a).lossRec = ((s.core env).pkts a).lossRec) :
    Dropped env m s p (s₁.destroyChain env p none).1 := by
  obtain ⟨l, hl, hG⟩ : ∃ l, (∀ a ∈ l, ((s₁.core env).pkts a).lossRec = true) ∧
      ChainGone env m (s₁.core env) [] p l s₁ none (s₁.destroyChain env p none) :=
    dropChain_spec (hM.sound hS) hd (by simp)
  refine ⟨hM.trans hG.moves, ?_, ?_⟩
  · intro q a hne ha
    have hal : a ∉ l := by
      intro hal
      cases ((hr a).trans ha).symm.trans (hl a hal)
    exact (hG.keep q a hal).trans (hk q a hne)
  · intro q hq a ha
    have hal : a ∉ p :: l := fun hal => hG.gone a hal q hq ha
    simp only [List.mem_cons, not_or] at hal
    exact ⟨hal.1, (hk q a hal.1).1 ((hG.keep q a hal.2).1 ha)⟩

theorem core_enqueue {body : Body} {mtu : Bool}
    (hc : s'.core env = (s.core env).nextPackno.upd p ({ · with
      packno := (s.core env).nextPackno.curPackno, body := body, mtuProbe := mtu })) :
    (s'.scheduledOne env p).core env = (s.core env).enqueue p body mtu := by
  rw [scheduledOne, core_schedAppend, hc]
  rfl

theorem freshPacket_fresh (s : SendCtl) (bits : Nat) (pns : Pns) (path : Nat) :
    ((s.freshPacket env bits pns path).core env).Fresh s.nextId :=
  ⟨rfl, ⟨rfl, rfl⟩, ⟨rfl, rfl, rfl⟩, rfl, rfl, ⟨rfl, rfl, rfl⟩, rfl⟩

theorem allocatePacket_spec (s : SendCtl) (bits needAtLeast : Nat) (pns : Pns) (path : Nat) :
    Allocated env s (s.allocatePacket env bits needAtLeast pns path) := by
  simp only [allocatePacket]
  split
  · exact .none (core_ticked s)
  · exact .some (freshPacket_fresh s bits pns path) (core_alloc s.ticked _)

theorem scheduleNew_moves (hS : s.Settled env) (needAtLeast : Nat) (pns : Pns) (path : Nat)
    (c : Content) (ha : m .alloc) (hm : m .append) (hk : ¬ m .mark ∧ ¬ m .resize)
    (ht : Tidy m (s.core env)) :
    s.Evolves env m (s.scheduleNew env needAtLeast pns path c) := by
  have hA : Allocated env s (s.allocatePacket env (s.packnoBits env pns) needAtLeast pns path) :=
    allocatePacket_spec _ _ _ _ _
  simp only [scheduleNew, newPacketOut]
  generalize s.allocatePacket env (s.packnoBits env pns) needAtLeast pns path = r at hA
  cases hA with
  | none hc => exact .of_core .refl hc
  | @some pk s₁ hpk hc =>
    have hM : Moves m ⟨s.core env, [], []⟩ ⟨s₁.core env, [s.nextId], []⟩ := by
      rw [hc]
      exact .one (.fresh ha hpk)
    have hself : (s₁.core env).pkts s.nextId = pk := by
      rw [hc]
      exact alloc_pkts_next _ _
    apply hM.snoc
    have hnum : ((s₁.nextPackno.upd s.nextId ({ · with packno := s₁.nextPackno.curPackno })).upd
        s.nextId fun pk => { write c pk with mtuProbe := c.mtuProbe }).core env =
        (s₁.core env).nextPackno.upd s.nextId ({ · with
          packno := (s₁.core env).nextPackno.curPackno
          body := ((write c (s₁.nextPackno.pkt s.nextId)).core env).body
          mtuProbe := c.mtuProbe }) := by
      rw [← core_nextPackno, core_upd_upd]
      exact core_upd rfl
    rw [core_enqueue hnum]
    apply Move.enqueue hm (hM.tidy hk hS.placed ht)
    · rw [hself]
      exact hpk.data
    · rw [hself]
      exact hpk.repackno
    · rw [hself]
      exact .inr ⟨hpk.chain, hpk.turn.1⟩

section
variable (s : SendCtl) (p : PktId)

theorem chopRegen_rewrites : Rewritten env s p (s.upd p PacketOut.chopRegen) :=
  .upd rfl

theorem core_updateForResending :
    ∃ body, (s.updateForResending p).core env = (s.core env).nextPackno.upd p ({ · with
      packno := (s.core env).nextPackno.curPackno, body := body }) := by
  simp only [updateForResending]
  have hc : (s.nextPackno.upd p fun pk =>
      { pk with
        hasSentSz := false
        frameTypes := pk.frameTypes &&& ~~~ bquicFrameRegenMask
        packno := s.nextPackno.curPackno
        ecn := s.nextPackno.ecn }).core env = (s.core env).nextPackno.upd p ({ · with
      packno := (s.core env).nextPackno.curPackno
      body := (({ s.nextPackno.pkt p with hasSentSz := false } : PacketOut).core env).body }) := by
    rw [← core_nextPackno]
    exact core_upd rfl
  generalize s.nextPackno.upd p _ = s₁ at hc
  split
  · have hR : Rewritten env s₁ p ((if (s₁.pkt p).sched then
        { s₁ with bytesScheduled := s₁.bytesScheduled - (s₁.pkt p).regenSz } else s₁).upd p
          PacketOut.chopRegen) := by
      apply Rewritten.trans _ (chopRegen_rewrites _ p)
      split
      · exact .of_core (core_congr rfl)
      · exact .of_core rfl
    obtain ⟨body, hb⟩ := hR
    exact ⟨body, by rw [hb, hc, Core.upd_upd]⟩
  · exact ⟨_, hc⟩

theorem noteLimited_rewrites (decLimit : Bool) : Rewritten env s p (s.noteLimited p decLimit) := by
  have hR : Rewritten env s p (s.upd p ({ · with limited := decLimit })) := .upd rfl
  simp only [noteLimited]
  split
  · exact hR.view rfl
  · exact hR

theorem padInitial_rewrites (prevSz : Nat) : Rewritten env s p (s.padInitial env p prevSz) := by
  simp only [padInitial, maybeZeroPad]
  split
  · split
    · exact .of_core rfl
    · split
      · exact .upd rfl
      · exact .of_core rfl
  · exact .of_core rfl

theorem setQlBits_rewrites : Rewritten env s p (s.setQlBits p) := by
  have hR : Rewritten env s p
      (s.upd p ({ · with logQlBits := true, lossBit := s.lossCount != 0 })) := .upd rfl
  simp only [setQlBits]
  split
  · apply hR.trans
    apply Rewritten.trans (.of_core (core_congr rfl)) (.upd rfl)
  · exact hR.view rfl

end

theorem takeHead_spec (hq : (s.core env).queue .scheduled = p :: l)
    (hr : ((s.core env).pkts p).repackno = false) :
    Picked env m s (s.takeHead env p toCoal decLimit) := by
  have hM : s.Evolves env m s := .refl
  simp only [takeHead]
  split
  · exact .none (hM.view rfl)
  · have hc : (s.ticked.schedRemove env p).core env = (s.core env).schedRemove p :=
      core_schedRemove s.ticked p
    have hR : Rewritten env (s.ticked.schedRemove env p) p
        (((s.ticked.schedRemove env p).noteLimited p decLimit).padInitial env p
          ((toCoal.map (·.prevSzSum)).getD 0)) :=
      (noteLimited_rewrites _ p decLimit).trans (padInitial_rewrites _ p _)
    generalize s.ticked.schedRemove env p = s₁ at hc hR ⊢
    generalize (s₁.noteLimited p decLimit).padInitial env p _ = s₂ at hR ⊢
    apply Picked.some hM
    refine ⟨⟨l, hq⟩, hr, ?_⟩
    rw [← hc]
    split
    · exact hR.trans (setQlBits_rewrites s₂ p)
    · exact hR

theorem Picked.after {r : SendCtl × Option PktId} (hM : s.Evolves env m s')
    (hP : Picked env m s' r) :
    Picked env m s r := by
  cases hP with
  | none hM' => exact .none (hM.trans hM')
  | some hM' ht => exact .some (hM.trans hM') ht

theorem core_getNConsecRtos (s : SendCtl) : s.getNConsecRtos.1.core env = s.core env := by
  simp only [getNConsecRtos]
  split
  · exact core_congr rfl
  · rfl

theorem renumberHead_core (s : SendCtl) (p : PktId) :
    ∃ body, ((s.updateForResending p).upd p ({ · with repackno := false })).core env =
      (s.core env).renumberHead p body := by
  obtain ⟨body, hc⟩ : ∃ body, (s.updateForResending p).core env =
      (s.core env).nextPackno.upd p ({ · with
        packno := (s.core env).nextPackno.curPackno, body := body }) := core_updateForResending s p
  refine ⟨body, ?_⟩
  rw [core_upd (g := ({ · with repackno := false })) rfl, hc, Core.upd_upd]
  rfl

theorem resendHead_spec (hm : m .send) (hq : (s.core env).queue .scheduled = p :: l)
    (hr : ((s.core env).pkts p).repackno = true) :
    Picked env m s (((s.updateForResending p).upd p ({ · with repackno := false })).takeHead env p
      toCoal decLimit) := by
  obtain ⟨body, hc⟩ : ∃ body, ((s.updateForResending p).upd p
      ({ · with repackno := false })).core env = (s.core env).renumberHead p body :=
    renumberHead_core s p
  generalize (s.updateForResending p).upd p ({ · with repackno := false }) = s₁ at hc
  have hM : s.Evolves env m s₁ := .of_move hc (.renumberHead hm hq hr)
  apply Picked.after hM
  apply takeHead_spec (l := l)
  · rw [hc]
    simp only [Core.renumberHead, Core.upd, nextPackno_queue]
    exact hq
  · rw [hc]
    simp only [Core.renumberHead, upd_self]

theorem dropSched_spec (hS : s.Settled env) (hp : p ∈ (s.core env).queue .scheduled) :
    Dropped env m s p ((s.schedRemove env p).destroyChain env p none).1 := by
  have hc : (s.schedRemove env p).core env = (s.core env).schedRemove p := core_schedRemove s p
  have hd := (hS.placed.sched hp).2.1
  generalize s.schedRemove env p = s₁ at hc
  apply dropInHand_spec hS
  · rw [hc]
    exact .one (.takeSched hp)
  · rw [hc, Core.schedRemove, upd_self]
    exact hd
  · intro q a hne
    rw [hc]
    exact (mem_queue_remove hS.placed).trans (and_iff_left fun h => hne h.2)
  · intro a
    rw [hc, Core.schedRemove, upd_pkts]
    split <;> rfl

theorem nextPacketLoop_spec (hm : m .send) (hS : s.Settled env) (toCoal : Option ToCoal) (n : Nat) :
    Picked env m s (nextPacketLoop env toCoal n s) := by
  induction n generalizing s with
  | zero => exact .none .refl
  | succ n ih =>
    simp only [nextPacketLoop]
    split
    · exact .none .refl
    next p hp =>
      obtain ⟨l, hq⟩ := List.head?_eq_some_iff.1 hp
      have hc : (if (s.pkt p).hasAck then (s, 0) else s.getNConsecRtos).1.core env =
          s.core env := by
        split
        · rfl
        · exact core_getNConsecRtos s
      generalize (if (s.pkt p).hasAck then (s, 0) else s.getNConsecRtos) = r at hc
      have hM : s.Evolves env m r.1 := .of_core .refl hc
      have hq' : (r.1.core env).queue .scheduled = p :: l := by
        rw [hc]
        exact hq
      split
      · exact .none hM
      · apply Picked.after hM
        split
        next hr =>
          have hr' : ((r.1.core env).pkts p).repackno = true := by
            rw [hc]
            exact hr
          split
          · exact resendHead_spec hm hq' hr'
          · have hD := dropSched_spec (m := m) (p := p) (hM.sound hS) (hq' ▸ List.mem_cons_self)
            exact Picked.after hD.moves (ih (hD.moves.sound (hM.sound hS)))
        next hr =>
          apply takeHead_spec hq'
          rw [hc]
          exact eq_false_of_ne_true hr

theorem core_addPoison (hm : env.malo s.tick = true) :
    (s.addPoison env).1.core env = (s.core env).addPoison (s.poisonPacket.sentSize env) := by
  have hc : ((s.ticked.alloc s.poisonPacket).setQueue (.unacked .app)
      (s.queue (.unacked .app) ++ [s.nextId])).core env =
      (s.core env).addPoison (s.poisonPacket.sentSize env) := by
    rw [core_setQueue _, core_alloc]
    rfl
  simp only [SendCtl.addPoison, hm, if_true]
  exact (core_congr rfl).trans hc

theorem updatePoisonHist_spec (s : SendCtl) (packno : Int) :
    PoisonAdded env s packno (s.updatePoisonHist env packno) := by
  simp only [updatePoisonHist]
  split
  next hg =>
    have hc : (s.senhistAdd s.gap).core env = (s.core env).senhistAdd s.gap := core_senhistAdd s _
    generalize s.senhistAdd s.gap = s₁ at hc
    cases hm : env.malo s₁.tick with
    | true =>
      have hp : (s₁.addPoison env).1.core env =
          (s.core env).withPoison packno (s₁.poisonPacket.sentSize env) := by
        rw [core_addPoison hm, hc, Core.withPoison, if_pos (by exact hg)]
        rfl
      have he : s₁.addPoison env = ((s₁.addPoison env).1, true) := by
        simp only [SendCtl.addPoison, hm, if_true]
      rw [he]
      exact .ok hp
    | false =>
      have he : s₁.addPoison env = (s₁.ticked, false) := by
        simp only [SendCtl.addPoison, hm, Bool.false_eq_true, if_false]
      rw [he]
      apply PoisonAdded.failed hg
      rw [← hc]
      exact core_ticked s₁
  next hg =>
    have hc : s.core env = (s.core env).withPoison packno 0 := by
      rw [Core.withPoison, if_neg (by exact hg)]
    exact .ok hc

theorem core_armForSent (s : SendCtl) (pk : PacketOut) :
    (s.armForSent env pk).core env = s.core env := by
  simp only [armForSent]
  split
  · have hc : (if s.retxAlarm.get pk.pns = none then s.setRetxAlarm env pk.pns pk.sent else s).core
        env = s.core env := by
      split
      · exact core_setRetxAlarm _ _ _
      · rfl
    generalize (if s.retxAlarm.get pk.pns = none then s.setRetxAlarm env pk.pns pk.sent else s) = s₁
      at hc
    split
    · exact (core_congr rfl).trans hc
    · exact hc
  · rfl

theorem core_countSent (s : SendCtl) (k : Nat) :
    ({ s with nTotalSent := k } : SendCtl).core env = { s.core env with nTotalSent := k } :=
  rfl

theorem core_launch (s : SendCtl) (p : PktId) (pk : PacketOut) :
    (s.launch env p pk).core env = (s.core env).launch p pk.packno := by
  rw [Core.launch, ← core_senhistAdd]
  simp only [SendCtl.launch]
  generalize s.senhistAdd pk.packno = s₁
  have hc : ((s₁.upd p ({ · with tx := s₁.nTotalSent })).unackedAppend env p).core env =
      ((s₁.core env).upd p ({ · with tx := s₁.nTotalSent })).unackedAppend p := by
    rw [core_unackedAppend]
    exact congrArg (Core.unackedAppend · p) (core_upd rfl)
  rw [← core_armForSent _ pk] at hc
  generalize ((s₁.upd p ({ · with tx := s₁.nTotalSent })).unackedAppend env p).armForSent
    env pk = s₂
    at hc
  have hn : s₂.nTotalSent = s₁.nTotalSent := congrArg Core.nTotalSent hc
  rw [core_countSent, hc, hn]
  rfl

/-- Sending fails only for want of memory for a poison packet. -/
theorem sentPacket_spec (hm : m .send) (ht : Taken env s₁ p s)
    (hM : s₀.Evolves env m s₁) :
    ((s.sentPacket env p).2 = true ∧
        s₀.Evolves env m (s.sentPacket env p).1) ∨
      ((s.sentPacket env p).2 = false ∧
        SendFails (s₁.core env) ((s.sentPacket env p).1.core env)) := by
  obtain ⟨l, hq⟩ := ht.head
  obtain ⟨body, hc⟩ := ht.taken
  have hpk : (s.pkt p).packno = ((s₁.core env).pkts p).packno := by
    have h := congrArg (fun c => (c.pkts p).packno) hc
    simp only [upd_self, Core.schedRemove] at h
    exact h
  have hT : ({ s.emit (.sent p (s.pkt p).packno) with lastSentTime := (s.pkt p).sent } :
      SendCtl).core env = (s₁.core env).takeHead p body := by
    apply (core_congr (s := s.emit (.sent p (s.pkt p).packno)) rfl).trans
    rw [core_emit, hc, hpk]
    rfl
  simp only [sentPacket]
  generalize ({ s.emit (.sent p (s.pkt p).packno) with lastSentTime := (s.pkt p).sent } :
      SendCtl) = s₂ at hT
  have hP : PoisonAdded env s₂ (s.pkt p).packno (s₂.updatePoisonHist env (s.pkt p).packno) :=
    updatePoisonHist_spec _ _
  generalize s₂.updatePoisonHist env (s.pkt p).packno = r at hP
  cases hP with
  | @ok s₃ sz hc' =>
    refine .inl ⟨rfl, ?_⟩
    simp only [SendCtl.Evolves, core_launch, hc', hT, hpk]
    exact hM.snoc (.sendHead hm hq ht.numbered)
  | @failed s₃ hg hc' =>
    refine .inr ⟨rfl, ?_⟩
    have hgap : s₂.gap = (s₁.core env).gap := congrArg Core.gap hT
    rw [hpk, hgap] at hg
    simp only [hc', hT, hgap]
    exact .fails hq ht.numbered hg

theorem sendNext_moves (hm : m .send) (hS : s.Settled env) (toCoal : Option ToCoal)
    (encSz : Nat) (now : Time) :
    s.Evolves env m (s.sendNext env toCoal encSz now) ∨
      ∃ c, Moves m ⟨s.core env, [], []⟩ ⟨c, [], []⟩ ∧
        SendFails c ((s.sendNext env toCoal encSz now).core env) ∧
        (s.sendNext env toCoal encSz now).aborted = true := by
  have hP : Picked env m s (s.nextPacketToSend env toCoal) := nextPacketLoop_spec hm hS toCoal _
  simp only [sendNext]
  generalize s.nextPacketToSend env toCoal = r at hP
  cases hP with
  | none hM => exact .inl hM
  | @some s₁ p s₂ hM ht =>
    have ht' : Taken env s₁ p
        (s₂.upd p ({ · with sent := now, sentSz := encSz, hasSentSz := true })) := by
      obtain ⟨body, hc⟩ := ht.taken
      have hR : Rewritten env s₂ p
          (s₂.upd p ({ · with sent := now, sentSz := encSz, hasSentSz := true })) := .upd rfl
      obtain ⟨body', hc'⟩ := hR
      exact ⟨ht.head, ht.numbered, body', by rw [hc', hc, Core.upd_upd]⟩
    simp only
    generalize s₂.upd p ({ · with sent := now, sentSz := encSz, hasSentSz := true }) = s₃ at ht'
    rcases sentPacket_spec hm ht' hM with ⟨hb, hM'⟩ | ⟨hb, hF⟩
    · have he : s₃.sentPacket env p = ((s₃.sentPacket env p).1, true) := by rw [← hb]
      rw [he]
      exact .inl hM'
    · have he : s₃.sentPacket env p = ((s₃.sentPacket env p).1, false) := by rw [← hb]
      rw [he]
      have hc : ({ (s₃.sentPacket env p).1 with aborted := true } : SendCtl).core env =
          (s₃.sentPacket env p).1.core env := core_congr rfl
      refine .inr ⟨_, hM, ?_, rfl⟩
      simp only [hc]
      exact hF

end

end SendCtl

end QuicArt
