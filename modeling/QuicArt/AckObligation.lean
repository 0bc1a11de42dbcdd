import QuicArt.AckQueueing

namespace QuicArt

structure AckView where
  slack : Nat
  qued : Bool
  armed : Bool
  acks : Nat

namespace AckView

def Stands (v : AckView) : Prop := v.qued = true ∨ v.armed = true

/-- Of `n` ACK frames none has been taken back, and one more is out or will be. -/
def Pending (n : Nat) (v : AckView) : Prop := n < v.acks ∨ (v.acks = n ∧ v.Stands)

end AckView

inductive AckMove : AckView → AckView → Prop
  | stands (ha : v'.acks = v.acks) (h : v'.Stands) : AckMove v v'
  | keeps (hs : v'.slack = v.slack ∨ v'.slack = 0) (hq : v'.qued = v.qued)
      (hr : v'.armed = v.armed) (ha : v'.acks = v.acks) : AckMove v v'
  | acks (hs : v'.slack = 0) (ha : v'.acks = v.acks + 1) : AckMove v v'

theorem AckMove.same (h : v' = v) : AckMove v v' := by
  subst h
  exact .keeps (.inl rfl) rfl rfl rfl

theorem AckMove.pending (h : AckMove v v') (hv : v.Pending n) : v'.Pending n := by
  cases h with
  | stands ha h =>
    rcases hv with hv | ⟨hv, _⟩
    · exact .inl (ha ▸ hv)
    · exact .inr ⟨ha.trans hv, h⟩
  | keeps _ hq hr ha => simpa only [AckView.Pending, AckView.Stands, hq, hr, ha] using hv
  | acks _ ha =>
    apply Or.inl
    rcases hv with hv | ⟨hv, _⟩ <;> omega

def AckWritten.isApp (f : AckWritten) : Bool := f.pns == .app

def AckConn.view (s : AckConn) : AckView where
  slack := (s.spaces .app).nSlackAkbl
  qued := (s.spaces .app).ackQued
  armed := s.armed
  acks := s.ackFrames.countP AckWritten.isApp

def AckSnapshot.view (a : AckSnapshot) : AckView where
  slack := a.nSlackAkbl
  qued := a.ackQuedApp
  armed := a.armed
  acks := a.ackFrames.countP AckWritten.isApp

structure AckMoved (s s' : AckConn) : Prop where
  view : Relation.ReflTransGen AckMove s.view s'.view
  saved : s'.saved = s.saved

namespace AckMoved

theorem refl (s : AckConn) : AckMoved s s := ⟨.refl, rfl⟩

theorem trans (h : AckMoved s t) (h' : AckMoved t u) : AckMoved s u :=
  ⟨h.view.trans h'.view, h'.saved.trans h.saved⟩

theorem move (h : AckMove s.view s'.view) (hs : s'.saved = s.saved) : AckMoved s s' :=
  ⟨.single h, hs⟩

theorem same (h : s'.view = s.view) (hs : s'.saved = s.saved) : AckMoved s s' :=
  .move (.same h) hs

end AckMoved

namespace AckConn

section
variable (s : AckConn)

@[simp] theorem modify_app (f : AckSpace → AckSpace) :
    (s.modify .app f).spaces .app = f (s.spaces .app) := by
  simp [modify]

@[simp] theorem modify_other (f : AckSpace → AckSpace) (h : pns ≠ .app) :
    (s.modify pns f).spaces .app = s.spaces .app := by
  simp [modify, Function.update_of_ne (Ne.symm h)]

theorem modify_view (pns : Pns) (f : AckSpace → AckSpace)
    (hn : ∀ x, (f x).nSlackAkbl = x.nSlackAkbl) (hq : ∀ x, (f x).ackQued = x.ackQued) :
    (s.modify pns f).view = s.view := by
  by_cases hp : pns = .app
  · subst hp
    simp only [view, modify_app, hn, hq]
    rfl
  · simp only [view, modify_other s f hp]
    rfl

theorem modify_other_view (f : AckSpace → AckSpace) (h : pns ≠ .app) :
    (s.modify pns f).view = s.view := by
  simp only [view, modify_other s f h]
  rfl

theorem queue_moved (pns : Pns) : AckMoved s (s.queue pns) := by
  by_cases hp : pns = .app
  · subst hp
    refine AckMoved.move (.stands rfl ?_) rfl
    simp [AckView.Stands, view, queue]
  · exact .same (modify_other_view s _ hp) rfl

theorem forceQueueingAckApp_moved : AckMoved s s.forceQueueingAckApp := by
  refine AckMoved.move (.stands rfl ?_) rfl
  simp [AckView.Stands, view, forceQueueingAckApp, queue]

theorem ringExpired_moved (now : Nat) : AckMoved s (s.ringExpired now) := by
  rw [ringExpired]
  split
  · exact s.forceQueueingAckApp_moved
  · exact .refl s

theorem ecnCountsFor_same (pns : Pns) (g : AckRoom) :
    (s.ecnCountsFor pns g).1.view = s.view ∧ (s.ecnCountsFor pns g).1.saved = s.saved := by
  rw [ecnCountsFor]
  split
  · exact ⟨rfl, rfl⟩
  · split <;> exact ⟨rfl, rfl⟩

theorem schedulePing_same (g : AckRoom) :
    (s.schedulePing g).view = s.view ∧ (s.schedulePing g).saved = s.saved := by
  rw [schedulePing]
  split <;> exact ⟨rfl, rfl⟩

theorem resetAckState_app : (s.resetAckState .app).view = ⟨0, false, false, s.view.acks⟩ := by
  simp [resetAckState, view]
  rfl

theorem resetAckState_other (h : pns ≠ .app) : (s.resetAckState pns).view = s.view := by
  rw [resetAckState, if_neg h]
  exact modify_other_view s _ h

theorem resetAckState_saved (pns : Pns) : (s.resetAckState pns).saved = s.saved := by
  rw [resetAckState]
  split <;> rfl

end

section
variable (s : AckConn) (pns : Pns) (g : AckRoom)

theorem generateAckFrameForPns_view (hf : g.fits = true) (hr : g.recorded = true) :
    (s.generateAckFrameForPns pns g).2 = true
      ∧ (s.generateAckFrameForPns pns g).1.view
        = if pns = .app then ⟨0, false, false, s.view.acks + 1⟩ else s.view := by
  obtain ⟨hv, -⟩ := s.ecnCountsFor_same pns g
  rcases he : s.ecnCountsFor pns g with ⟨t, ecnCounts⟩
  simp only [he] at hv
  simp only [generateAckFrameForPns, he, hf, hr, not_true_eq_false, if_false, true_and, ← hv]
  by_cases hp : pns = .app
  · subst hp
    rw [resetAckState_app, (schedulePing_same _ g).1, if_pos rfl]
    simp [view, AckWritten.isApp]
  · rw [resetAckState_other _ hp, (schedulePing_same _ g).1, if_neg hp]
    simp [view, AckWritten.isApp, hp]

theorem generateAckFrameForPns_fails (h : ¬ (g.fits = true ∧ g.recorded = true)) :
    (s.generateAckFrameForPns pns g).1.view = s.view := by
  obtain ⟨hv, -⟩ := s.ecnCountsFor_same pns g
  simp only [generateAckFrameForPns]
  split
  · exact hv
  · next hf =>
    split
    · exact hv
    · next hr => exact absurd ⟨by simpa using hf, by simpa using hr⟩ h

theorem generateAckFrameForPns_saved : (s.generateAckFrameForPns pns g).1.saved = s.saved := by
  obtain ⟨-, hs⟩ := s.ecnCountsFor_same pns g
  simp only [generateAckFrameForPns]
  split
  · exact hs
  · split
    · exact hs
    · rw [resetAckState_saved, (schedulePing_same _ g).2]
      exact hs

theorem generateAckFrameForPns_moved : AckMoved s (s.generateAckFrameForPns pns g).1 := by
  apply AckMoved.move _ (s.generateAckFrameForPns_saved pns g)
  by_cases h : g.fits = true ∧ g.recorded = true
  · have hv := (s.generateAckFrameForPns_view pns g h.1 h.2).2
    by_cases hp : pns = .app
    · rw [if_pos hp] at hv
      rw [hv]
      exact .acks rfl rfl
    · rw [if_neg hp] at hv
      exact .same hv
  · exact .same (s.generateAckFrameForPns_fails pns g h)

end

theorem generateAckFrames_moved (room : Pns → Option AckRoom) (l : List Pns) (s : AckConn) :
    AckMoved s (generateAckFrames room l s) := by
  induction l generalizing s with
  | nil => exact .refl s
  | cons pns rest ih =>
    rw [generateAckFrames]
    split
    · cases hr : room pns with
      | none => exact .refl s
      | some g =>
        have hm := s.generateAckFrameForPns_moved pns g
        rcases he : s.generateAckFrameForPns pns g with ⟨t, b⟩
        simp only [he] at hm ⊢
        cases b with
        | true => exact hm.trans (ih t)
        | false => exact hm
    · exact ih s

section
variable (s : AckConn)

theorem queueLost_moved (lost : Pns → Bool) : AckMoved s (s.queueLost lost) := by
  cases hl : lost .app with
  | true =>
    refine AckMoved.move (.stands rfl ?_) rfl
    simp [AckView.Stands, view, queueLost, hl]
  | false =>
    refine AckMoved.same ?_ rfl
    simp [view, queueLost, hl]

theorem tick_moved (t : AckTick) : AckMoved s (s.tick t) := by
  have hl := s.queueLost_moved t.lostAcks
  rw [tick]
  split
  · exact .refl s
  dsimp only
  split
  · exact hl.trans (generateAckFrames_moved _ _ _)
  · split
    · exact hl
    · rw [maybeQueueOppAck]
      split
      · next hc =>
        obtain ⟨-, hc⟩ := Option.ite_none_right_eq_some.mp hc
        cases hc
        exact (hl.trans (forceQueueingAckApp_moved _)).trans (generateAckFrames_moved _ _ _)
      · exact hl

theorem processRegularPacket_moved (p : IncomingPacket) :
    AckMoved s (s.processRegularPacket p).1 := by
  rw [processRegularPacket]
  split
  · exact .refl s
  split
  · exact .refl s
  split
  · exact .refl s
  have hm := fun h => s.modify_view p.headerType.pns ({ · with rechist := h })
    (fun _ => rfl) (fun _ => rfl)
  split
  · exact .refl s
  · split <;> exact .same rfl rfl
  · split <;> exact .same rfl rfl
  · exact .refl s
  · exact .refl s
  all_goals
    dsimp only
    split <;> exact .same (hm _) rfl

theorem countPacket_view (p : ParsedPacket) (ft : FtBits) :
    (∃ n, (s.countPacket p ft).1.view = { s.view with slack := n } ∧
        (ft.has iquicFrameAckableMask = true → p.packet.headerType.pns = .app →
          n = (s.view.slack + 1) % 2 ^ 32))
      ∧ (p.packet.headerType.pns ≠ .app → (s.countPacket p ft).1.view = s.view)
      ∧ (s.countPacket p ft).1.saved = s.saved := by
  simp only [countPacket]
  by_cases hp : p.packet.headerType.pns = .app
  · refine ⟨?_, fun h => absurd hp h, ?_⟩
    all_goals
      simp only [hp, and_true, if_true]
      cases ft.has iquicFrameAckableMask
    · exact ⟨_, rfl, fun h => Bool.noConfusion h⟩
    · exact ⟨_, rfl, fun _ _ => rfl⟩
    · rfl
    · rfl
  · have hv : ∀ f, (s.modify p.packet.headerType.pns f).view = s.view :=
      fun f => s.modify_other_view f hp
    simp only [hp, and_false, if_false]
    split
    · exact ⟨⟨_, hv _, fun _ h => h.elim⟩, fun _ => hv _, rfl⟩
    · exact ⟨⟨_, rfl, fun _ h => h.elim⟩, fun _ => rfl, rfl⟩

theorem tryQueueingAckApp_stands (m : WasMissing) (ecn : Ecn) (now : Nat) (r : ParseResult) :
    (∃ qued armed, (s.tryQueueingAckApp m ecn now r).view = { s.view with qued, armed })
      ∧ (s.tryQueueingAckApp m ecn now r).saved = s.saved
      ∧ ((s.tryQueueingAckApp m ecn now r).view.Stands
        ∨ (s.view.slack = 0 ∧ (s.tryQueueingAckApp m ecn now r).view = s.view)) := by
  rw [tryQueueingAckApp]
  split
  · refine ⟨⟨true, false, ?_⟩, rfl, .inl ?_⟩
    · simp only [view, forceQueueingAckApp, queue, modify_app]
      rfl
    · simp [AckView.Stands, view, forceQueueingAckApp, queue]
  · split
    · split
      · next ha => exact ⟨⟨_, _, rfl⟩, rfl, .inl (.inr ha)⟩
      · exact ⟨⟨_, _, rfl⟩, rfl, .inl (.inr rfl)⟩
    · next h0 => exact ⟨⟨_, _, rfl⟩, rfl, .inr ⟨Nat.eq_zero_of_not_pos h0, rfl⟩⟩

theorem tryQueueing_app (p : IncomingPacket) (m : WasMissing) (r : ParseResult)
    (hp : p.headerType.pns = .app) :
    (∃ qued armed, (s.tryQueueing p m r).view = { s.view with qued, armed })
      ∧ (s.tryQueueing p m r).saved = s.saved
      ∧ ((s.tryQueueing p m r).view.Stands
        ∨ (s.view.slack = 0 ∧ (s.tryQueueing p m r).view = s.view)) := by
  simp only [tryQueueing, hp, if_true]
  split
  · next hq => exact ⟨⟨_, _, rfl⟩, rfl, .inl (.inl hq)⟩
  · exact s.tryQueueingAckApp_stands m _ _ r

theorem tryQueueing_other (p : IncomingPacket) (m : WasMissing) (r : ParseResult)
    (hp : p.headerType.pns ≠ .app) : AckMoved s (s.tryQueueing p m r) := by
  simp only [tryQueueing, if_neg hp, tryQueueingAckInitOrHsk]
  split
  · exact .refl s
  · split
    · exact s.queue_moved _
    · exact .refl s

theorem noteEcn_same (pns : Pns) (ecn : Ecn) :
    (s.noteEcn pns ecn).view = s.view ∧ (s.noteEcn pns ecn).saved = s.saved :=
  ⟨modify_view _ _ _ (fun _ => rfl) (fun _ => rfl), rfl⟩

theorem countPacket_tryQueueing_moved (p : ParsedPacket) (r : ParseResult) :
    AckMoved s ((s.countPacket p r.frameTypes).1.tryQueueing p.packet
      (s.countPacket p r.frameTypes).2 r) := by
  obtain ⟨⟨n, hn, -⟩, ho, hs⟩ := s.countPacket_view p r.frameTypes
  rcases hc : s.countPacket p r.frameTypes with ⟨t, m⟩
  simp only [hc] at hn ho hs ⊢
  by_cases hp : p.packet.headerType.pns = .app
  · obtain ⟨⟨_, _, ha⟩, hs', hst⟩ := t.tryQueueing_app p.packet m r hp
    apply AckMoved.move _ (hs'.trans hs)
    rcases hst with hst | ⟨h0, hv⟩
    · exact .stands (by rw [ha, hn]) hst
    · rw [hv]
      exact .keeps (.inr h0) (by rw [hn]) (by rw [hn]) (by rw [hn])
  · exact (AckMoved.same (ho hp) hs).trans (t.tryQueueing_other p.packet m r hp)

theorem packetParsed_moved (r : ParseResult) : AckMoved s (s.packetParsed r).1 := by
  rw [packetParsed]
  split
  · exact .refl s
  · next p rest hl =>
    split
    · exact .same rfl rfl
    · have hd : AckMoved s { s with parsing := rest } := .same rfl rfl
      have hm := countPacket_tryQueueing_moved { s with parsing := rest } p r
      obtain ⟨hv, hs⟩ := noteEcn_same (({ s with parsing := rest }.countPacket p r.frameTypes).1
        |>.tryQueueing p.packet ({ s with parsing := rest }.countPacket p r.frameTypes).2 r)
        p.packet.headerType.pns p.packet.ecn
      exact (hd.trans hm).trans (.same hv hs)

theorem processAckFrequencyFrame_moved (f : Option AckFrequency) :
    AckMoved s (s.processAckFrequencyFrame f).1 := by
  simp only [processAckFrequencyFrame]
  split
  · exact .refl s
  cases f with
  | none => exact .refl s
  | some f =>
    dsimp only
    split
    · exact .refl s
    split
    · exact .refl s
    · exact .same rfl rfl

theorem retxTimeout_moved (on : Bool) : AckMoved s (s.retxTimeout on) := by
  rw [retxTimeout]
  split
  · have hm := s.modify_view .app ({ · with ecnCountsIn := fun _ => 0 })
      (fun _ => rfl) (fun _ => rfl)
    have h₁ : AckMoved s { s.modify .app ({ · with ecnCountsIn := fun _ => 0 }) with
        sendWrongCounts := true } := .same hm rfl
    exact (h₁.trans (forceQueueingAckApp_moved _)).trans (.same rfl rfl)
  · exact .refl s

theorem ignoreSpace_moved (h : pns ≠ .app) : AckMoved s (s.ignoreSpace pns) :=
  .same (s.modify_other_view _ h) rfl

end

structure Held (P : AckView → Prop) (s : AckConn) : Prop where
  now : P s.view
  saved : ∀ a ∈ s.saved, P a.view

theorem restore_view (s : AckConn) (a : AckSnapshot) : (s.restore a).view = a.view := by
  simp only [restore, view, modify_app]
  rfl

section Held

variable {P : AckView → Prop} (hP : ∀ {v v'}, AckMove v v' → P v → P v')
include hP

theorem Held.moved (h : Held P s) (hm : AckMoved s s') : Held P s' := by
  obtain ⟨hv, hs⟩ := hm
  refine ⟨?_, hs ▸ h.saved⟩
  generalize s'.view = v' at hv
  induction hv with
  | refl => exact h.now
  | tail _ hm ih => exact hP hm ih

theorem Held.step (h : Held P s) (op : AckOp) : Held P (s.step op) := by
  cases op with
  | packetIn p => exact h.moved hP (s.processRegularPacket_moved p)
  | packetParsed r => exact h.moved hP (s.packetParsed_moved r)
  | ackFrequency f => exact h.moved hP (s.processAckFrequencyFrame_moved f)
  | ringExpired now => exact h.moved hP (s.ringExpired_moved now)
  | tick t => exact h.moved hP (s.tick_moved t)
  | writeAck g => exact h.moved hP (s.generateAckFrameForPns_moved .app g)
  | snapshot =>
    refine ⟨h.now, fun a ha => ?_⟩
    rcases List.mem_cons.mp ha with rfl | ha
    · exact h.now
    · exact h.saved a ha
  | written => exact ⟨h.now, fun a ha => h.saved a (List.mem_of_mem_tail ha)⟩
  | rollback =>
    have hsv := h.saved
    simp only [AckConn.step]
    split
    · exact h
    · next a rest hl =>
      rw [hl] at hsv
      refine ⟨?_, fun b hb => hsv b (.tail _ hb)⟩
      rw [restore_view]
      exact hsv a (.head _)
  | retxTimeout on => exact h.moved hP (s.retxTimeout_moved on)
  | ignoreInit => exact h.moved hP (s.ignoreSpace_moved (by decide))
  | ignoreHsk => exact h.moved hP (s.ignoreSpace_moved (by decide))
  | stopWait pns cutoff =>
    have hm := s.modify_view pns (fun x => { x with rechist := x.rechist.stopWait cutoff })
      (fun _ => rfl) (fun _ => rfl)
    exact h.moved hP (.same hm rfl)
  | delayedAcks => exact h.moved hP (.same rfl rfl)
  | ping send => exact h.moved hP (.same rfl rfl)

theorem Held.run (h : Held P s) (ops : List AckOp) : Held P (s.run ops) := by
  induction ops generalizing s with
  | nil => exact h
  | cons op ops ih => exact ih (h.step hP op)

end Held

/-- The pacer lets the tick write, and there are packets with room for the frames. -/
structure AckTick.Roomy (t : AckTick) : Prop where
  paced : t.pacerBlocked = false
  room : ∀ pns, ∃ g, t.room pns = some g ∧ g.fits = true ∧ g.recorded = true

/-- The receive history takes a packet of the application space. -/
structure Takes (s : AckConn) (p : IncomingPacket) : Prop where
  app : p.headerType.pns = .app
  space : (s.spaces .app).ignored = false
  path : p.strayPath = false
  decrypted : p.decrypted = none ∨ p.decrypted = some .ok
  received : ((s.spaces .app).rechist.received p.malo p.packno p.received).2 = .ok

end AckConn

end QuicArt
