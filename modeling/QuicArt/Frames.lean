import QuicArt.Abstraction

namespace QuicArt

/-- Without its place on the queues and in its chain, and without marks. -/
def PacketOut.lasting (pk : PacketOut) : PacketOut :=
  { pk with
    sched := false
    unacked := false
    lost := false
    repackno := false
    lossChain := 0
    ecn := .notEct
    facked := false }

theorem PacketOut.congr_lasting {pk pk' : PacketOut} {α : Type} {f : PacketOut → α}
    (hl : pk'.lasting = pk.lasting) (hf : ∀ pk, f pk.lasting = f pk) : f pk' = f pk := by
  rw [← hf pk', hl, hf pk]

theorem PacketOut.lasting_packno {pk pk' : PacketOut} (hl : pk'.lasting = pk.lasting) :
    pk'.packno = pk.packno :=
  congr_lasting hl fun _ => rfl

/-- What the controller keeps while it handles a packet. -/
def SendCtl.steady (s : SendCtl) :=
  (s.largestAckedPackno, s.nextLimit, s.nConsecRtos, s.lastRtoTime, s.lastSentTime, s.rttStats,
    s.writeReset, s.reordThresh, s.largestAckedSentTime, s.largestSentAtCutback)

/-- From `s` to `s'` nothing that lasts has changed in packets other than `p`. -/
structure Keeps (p : PktId) (s s' : SendCtl) : Prop where
  nextId : s.nextId ≤ s'.nextId
  lasting : ∀ a, a ≠ p → a < s.nextId → (s'.pkt a).lasting = (s.pkt a).lasting

structure Spares (p : PktId) (s s' : SendCtl) : Prop extends Keeps p s s' where
  steady : s'.steady = s.steady

section
variable {s s' s₁ : SendCtl} {p a : PktId} {f : PacketOut → PacketOut}

theorem Keeps.same (hp : s'.pkts = s.pkts) (hn : s'.nextId = s.nextId) : Keeps p s s' :=
  ⟨Nat.le_of_eq hn.symm, fun a _ _ => by simp only [SendCtl.pkt, hp]⟩

theorem Keeps.trans (h : Keeps p s s₁) (h' : Keeps p s₁ s') : Keeps p s s' := by
  constructor
  · exact Nat.le_trans h.nextId h'.nextId
  · intro a hne ha
    rw [h'.lasting a hne (Nat.lt_of_lt_of_le ha h.nextId), h.lasting a hne ha]

theorem Spares.same (h : (s'.pkts, s'.nextId, s'.steady) = (s.pkts, s.nextId, s.steady)) :
    Spares p s s' := by
  simp only [Prod.mk.injEq] at h
  obtain ⟨hp, hn, hs⟩ := h
  exact ⟨.same hp hn, hs⟩

theorem Spares.refl (s : SendCtl) : Spares p s s := .same rfl

theorem Spares.trans (h : Spares p s s₁) (h' : Spares p s₁ s') : Spares p s s' :=
  ⟨h.toKeeps.trans h'.toKeeps, h'.steady.trans h.steady⟩

theorem Spares.view (h : Spares p s s₁)
    (hv : (s'.pkts, s'.nextId, s'.steady) = (s₁.pkts, s₁.nextId, s₁.steady)) : Spares p s s' :=
  h.trans (.same hv)

theorem Spares.emit (s : SendCtl) (e : Event) : Spares p s (s.emit e) := .same rfl

theorem lasting_of_spares (h : ∀ p, Spares p s s') (ha : a < s.nextId) :
    (s'.pkt a).lasting = (s.pkt a).lasting :=
  (h (a + 1)).lasting a (Nat.ne_of_lt (Nat.lt_succ_self a)) ha

theorem Spares.write (s : SendCtl) (f : PacketOut → PacketOut) : Spares p s (s.upd p f) := by
  refine ⟨⟨le_rfl, fun a hne _ => ?_⟩, rfl⟩
  rw [SendCtl.pkt_upd, if_neg hne]

theorem Spares.touch (s : SendCtl) (a : PktId) (hf : ∀ pk, (f pk).lasting = pk.lasting) :
    Spares p s (s.upd a f) := by
  refine ⟨⟨le_rfl, fun b _ _ => ?_⟩, rfl⟩
  rw [SendCtl.pkt_upd]
  split
  · exact hf _
  · rfl

theorem Spares.alloc (s : SendCtl) (pk : PacketOut) : Spares p s (s.alloc pk) := by
  refine ⟨⟨Nat.le_succ _, fun a _ ha => ?_⟩, rfl⟩
  simp only [SendCtl.alloc, SendCtl.pkt, Table.get_set, if_neg (Nat.ne_of_lt ha)]

theorem Spares.foldl (l : List PktId) (s : SendCtl) (hf : ∀ pk, (f pk).lasting = pk.lasting) :
    Spares p s (l.foldl (fun s a => s.upd a f) s) := by
  induction l generalizing s with
  | nil => exact .refl s
  | cons a l ih => exact (Spares.touch s a hf).trans (ih _)

end

namespace SendCtl

section
variable {env : Env} {s : SendCtl} {p a : PktId} {n : Pns} {next : Option PktId}

theorem markRepackno_spares (s : SendCtl) (l : List PktId) : Spares p s (s.markRepackno l) := by
  induction l generalizing s with
  | nil => exact .refl s
  | cons a l ih =>
    simp only [markRepackno]
    split
    · exact .refl s
    · exact (Spares.touch s a (f := ({ · with repackno := true })) fun _ => rfl).trans (ih _)

theorem renumberToRight_spares (s : SendCtl) (a : PktId) :
    Spares p s (s.maybeRenumberSchedToRight a) := by
  simp only [maybeRenumberSchedToRight]
  split
  · exact .refl s
  · have hS : Spares p s { s with curPackno := (s.pkt a).packno - 1 } := .same rfl
    exact hS.trans (markRepackno_spares _ _)

theorem schedRemove_spares (s : SendCtl) (a : PktId) : Spares p s (s.schedRemove env a) := by
  have hS : Spares p s (s.setQueue .scheduled ((s.queue .scheduled).erase a)) := .same rfl
  exact (hS.trans (.touch _ a (f := ({ · with sched := false })) fun _ => rfl)).view rfl

theorem unackedRemove_spares (s : SendCtl) (a : PktId) (sz : Nat) :
    Spares p s (s.unackedRemove env a sz) := by
  have hS : Spares p s (s.setQueue (.unacked (s.pkt a).pns)
    ((s.queue (.unacked (s.pkt a).pns)).erase a)) := .same rfl
  have hU := hS.trans (.touch _ a (f := ({ · with unacked := false })) fun _ => rfl)
  simp only [SendCtl.unackedRemove]
  split
  · exact hU.view rfl
  · exact hU.view rfl

theorem lostAppend_spares (s : SendCtl) (a : PktId) : Spares p s (s.lostAppend a) := by
  have hS : Spares p s { s.setQueue .lost (s.queue .lost ++ [a]) with
    lostPacketNumber := s.lostPacketNumber + 1 } := .same rfl
  exact hS.trans (.touch _ a (f := ({ · with lost := true })) fun _ => rfl)

theorem destroyMember_spares (s : SendCtl) (next : Option PktId) (a : PktId) :
    Spares p s (s.destroyMember env n next a).1 := by
  have emit : ∀ s', Spares p s s' →
      Spares p s (if (s.pkt a).lossRec then s' else s'.emit (.ackStreams a)) := by
    intro s' h
    split
    · exact h
    · exact h.view rfl
  simp only [destroyMember]
  apply emit
  split
  · exact (renumberToRight_spares s a).trans (schedRemove_spares _ a)
  · split
    · split <;> exact .same rfl
    · exact unackedRemove_spares s a _
  · exact .same rfl
  · exact .refl s

theorem destroyChainLoop_spares (start : PktId) (fuel : Nat) (s : SendCtl)
    (next : Option PktId) (cur : PktId) :
    Spares p s (destroyChainLoop env n start fuel s next cur).1 := by
  induction fuel generalizing s next cur with
  | zero => exact .refl s
  | succ fuel ih =>
    simp only [destroyChainLoop]
    split
    · exact .refl s
    · exact (destroyMember_spares s next cur).trans (ih _ _ _)

theorem destroyChain_spares (s : SendCtl) (a : PktId) (next : Option PktId) :
    Spares p s (s.destroyChain env a next).1 :=
  (destroyChainLoop_spares a s.nextId s next (s.pkt a).lossChain).trans
    (.touch _ a (f := ({ · with lossChain := a })) fun _ => rfl)

theorem disableEcn_spares (s : SendCtl) : Spares p s s.disableEcn := by
  have hS : Spares p s { s with ecn := .notEct } := .same rfl
  exact hS.trans (.foldl _ _ (f := ({ · with ecn := .notEct })) fun _ => rfl)

theorem countLoss_spares (s : SendCtl) (a : PktId) : Spares p s (s.countLoss a) := by
  have ecn : ∀ s', Spares p s s' → Spares p s s'.disableEcn := fun s' h =>
    h.trans (disableEcn_spares s')
  simp only [countLoss]
  split
  · split
    · split
      · exact ecn _ (.same rfl)
      · exact .same rfl
    · split
      · exact ecn _ (.same rfl)
      · exact .same rfl
  · exact .refl s

theorem recordLoss_spares (s : SendCtl) (a : PktId) : Spares p s (s.recordLoss env a).1 := by
  have hT : Spares p s s.ticked := .same rfl
  simp only [SendCtl.recordLoss]
  split
  · have hA : Spares p s ((s.ticked.alloc (lossRecordOf env (s.pkt a))).upd a
        ({ · with lossChain := s.nextId })) :=
      (hT.trans (.alloc _ _)).trans (.touch _ a fun _ => rfl)
    split
    · split
      · exact hA.view rfl
      · exact hA.view rfl
    · split
      · exact hA.view rfl
      · exact hA.view rfl
  · exact hT

theorem updateTurn_spares (s : SendCtl) (p : PktId) : Spares p s (s.updateTurn env p) := by
  have write : ∀ s' : SendCtl, Spares p s s' →
      Spares p s (s'.ticked.upd p ({ · with beenDetectLoss := 0 })) := by
    intro s' h
    have hT : Spares p s s'.ticked := h.view rfl
    exact hT.trans (.write _ _)
  simp only [updateTurn]
  apply write
  split
  · exact (Spares.write s _).trans (.emit _ _)
  · have hD : Spares p s (s.artDuplicateNumber (u16add (s.pkt p).retransTimes 1)).1 :=
      .same rfl
    exact (hD.trans (.write _ _)).trans (.emit _ _)

theorem moveToLost_spares (s : SendCtl) (p : PktId) (sz : Nat) :
    Spares p s (s.moveToLost env p sz) := by
  have turn : ∀ s', Spares p s s' → Spares p s (if (s'.pkt p).frameTypes ≠ FrameType.padding.bit ∧
      (s'.pkt p).frameTypes.has FrameType.stream.bit then s'.updateTurn env p else s') := by
    intro s' h
    split
    · exact h.trans (updateTurn_spares s' p)
    · exact h
  simp only [moveToLost]
  apply turn
  split
  · exact .refl s
  · exact (unackedRemove_spares s p sz).trans (lostAppend_spares _ p)

theorem handleRegularLostPacket_spares (hr : (s.pkt p).lossRec = false) :
    Spares p s (s.handleRegularLostPacket env p next).1 := by
  have hC : Spares p s (s.countLoss p) := countLoss_spares s p
  simp only [handleRegularLostPacket, hr, Bool.false_eq_true, if_false]
  split
  · exact (hC.trans (recordLoss_spares _ p)).trans (moveToLost_spares _ p _)
  · exact (hC.trans (unackedRemove_spares _ p _)).trans (destroyChain_spares _ p next)

theorem handleLostMtuProbe_spares (s : SendCtl) (p : PktId) :
    Spares p s (s.handleLostMtuProbe env p) :=
  unackedRemove_spares s p _

theorem handleLostPacket_spares (hr : (s.pkt p).lossRec = false) :
    Spares p s (s.handleLostPacket env p next).1 := by
  simp only [handleLostPacket]
  split
  · exact handleLostMtuProbe_spares s p
  · exact handleRegularLostPacket_spares hr

theorem recordFeedback_spares (s : SendCtl) (a : PktId) (value : Nat) :
    Spares p s (s.recordFeedback env a value) := by
  simp only [SendCtl.recordFeedback]
  split
  · exact .same rfl
  · split <;> exact .same rfl

theorem recordReplicaLoss_spares (s : SendCtl) (p : PktId) :
    Spares p s (s.recordReplicaLoss env p) := by
  simp only [recordReplicaLoss]
  split
  · exact (recordFeedback_spares s p 1).trans (.write _ _)
  · exact .refl s

theorem markDetected_spares (s : SendCtl) (p : PktId) : Spares p s (s.markDetected p) :=
  (Spares.write s _).trans (.emit _ _)

theorem markDetected_pkt (s : SendCtl) (p : PktId) :
    (s.markDetected p).pkt p = { s.pkt p with beenDetectLoss := 1 } := pkt_upd_self s p _

/-- The number is noted as lost, whether or not the loss handler gets the packet. -/
def notesLoss (env : Env) (s : SendCtl) (largestRetx : Int) (p : PktId) : Bool :=
  !(s.pkt p).poison && !(s.pkt p).lossRec &&
    if s.lostByFack p then !(s.pkt p).mtuProbe
    else s.lostByEarlyRetransmit env largestRetx p ||
      (s.lostByTime p && ((s.pkt p).frameTypes.has env.retxFrames && !(s.pkt p).mtuProbe))

inductive DetectStep (env : Env) (s : SendCtl) (p : PktId) (next : Option PktId) (noted : Bool) :
    SendCtl → Option PktId → Prop
  | stay (lossTo : Time)
      (hl : noted = true → ((s.core env).pkts p).data ∧ mayBeLost (s.pkt p) = false) :
    DetectStep env s p next noted { s with lossTo } next
  | replica (hn : noted = false) (hr : (s.pkt p).lossRec = true) :
    DetectStep env s p next noted (s.recordReplicaLoss env p) next
  | probe (hn : noted = false) (hd : ((s.core env).pkts p).data)
      (hm : (s.pkt p).mtuProbe = true) :
    DetectStep env s p next noted (s.handleLostMtuProbe env p) next
  | lost (lossTo : Time) (s' : SendCtl) (hd : ((s.core env).pkts p).data)
      (hl : mayBeLost (s.pkt p) = true)
      (hn : ((s.pkt p).frameTypes.has env.retxFrames && !(s.pkt p).mtuProbe) = true → noted = true)
      (hs : s' = (({ s with lossTo }.markDetected p).handleLostPacket env p next).1 ∨
        ∃ r, s' = (({ s with lossTo }.markDetected p).handleLostPacket env p next).1.upd r
          ({ · with facked := true })) :
    DetectStep env s p next noted s'
      (({ s with lossTo }.markDetected p).handleLostPacket env p next).2

/-- What a round of `send_ctl_detect_losses` can do with a packet. -/
theorem detectOne_step (d : Detection) :
    DetectStep env d.ctl p (nextOf p (d.ctl.queue (.unacked n)))
      (d.ctl.notesLoss env largestRetx p) (detectOne env n largestRetx d p).1.ctl
      (detectOne env n largestRetx d p).2 ∧
    (detectOne env n largestRetx d p).1.largestLost =
      if d.ctl.notesLoss env largestRetx p then (d.ctl.pkt p).packno else d.largestLost := by
  simp only [detectOne, notesLoss]
  generalize nextOf p (d.ctl.queue (.unacked n)) = next
  have hpass : DetectStep env d.ctl p next false d.ctl next := .stay d.ctl.lossTo (by simp)
  by_cases hpo : (d.ctl.pkt p).poison = true
  · simp only [hpo, if_true, Bool.not_true, Bool.false_and]
    exact ⟨hpass, rfl⟩
  by_cases hr : (d.ctl.pkt p).lossRec = true
  · have hR := @DetectStep.replica env _ _ next _ rfl hr
    simp only [hpo, hr, detectByFack, detectEarly, detectByTime, if_true, Bool.not_true,
      Bool.and_false, Bool.false_and, Bool.false_eq_true, if_false]
    split
    · exact ⟨hR, rfl⟩
    · split
      · exact ⟨hR, rfl⟩
      · split
        · exact ⟨hR, rfl⟩
        · exact ⟨hpass, rfl⟩
  have hd : ((d.ctl.core env).pkts p).data := ⟨eq_false_of_ne_true hr, eq_false_of_ne_true hpo⟩
  simp only [hpo, hr, detectByFack, detectEarly, detectByTime, Bool.false_eq_true, if_false,
    Bool.not_false, Bool.true_and]
  split
  · by_cases hm : (d.ctl.pkt p).mtuProbe = true
    · simp only [hm, if_true, Bool.not_true]
      exact ⟨.probe rfl hd hm, rfl⟩
    · have hm' : ¬ ((d.ctl.markDetected p).pkt p).mtuProbe = true := by
        rw [markDetected_pkt]
        exact hm
      have hL := @DetectStep.lost env d.ctl p next true d.ctl.lossTo
      simp only [handleLostPacket, hm', Bool.false_eq_true, if_false] at hL
      simp only [hm, Bool.false_eq_true, if_false, Bool.not_false]
      split
      next hl =>
        refine ⟨hL _ hd hl (fun _ => trivial) ?_, rfl⟩
        split
        next r _ => exact .inr ⟨r, rfl⟩
        · exact .inl rfl
      next hl => exact ⟨.stay d.ctl.lossTo fun _ => ⟨hd, eq_false_of_ne_true hl⟩, rfl⟩
  · split
    next he =>
      simp only [he, Bool.true_or]
      split
      next hl => exact ⟨.lost _ _ hd hl (fun _ => rfl) (.inl rfl), rfl⟩
      next hl => exact ⟨.stay _ fun _ => ⟨hd, eq_false_of_ne_true hl⟩, rfl⟩
    next he =>
      simp only [he, Bool.false_or]
      split
      next ht =>
        simp only [ht, Bool.true_and]
        split
        next hl => exact ⟨.lost d.ctl.lossTo _ hd hl id (.inl rfl), rfl⟩
        next hl => exact ⟨.stay d.ctl.lossTo fun _ => ⟨hd, eq_false_of_ne_true hl⟩, rfl⟩
      next ht =>
        simp only [ht, Bool.false_and]
        exact ⟨hpass, rfl⟩

theorem detectOne_spares {d : Detection} :
    Spares p d.ctl (detectOne env n largestRetx d p).1.ctl := by
  have hD := (@detectOne_step env p n largestRetx d).1
  generalize (detectOne env n largestRetx d p).1.ctl = s',
    (detectOne env n largestRetx d p).2 = next' at hD
  cases hD with
  | stay lossTo hl => exact .same rfl
  | replica hn hr => exact recordReplicaLoss_spares _ p
  | probe hn hd hm => exact handleLostMtuProbe_spares _ p
  | lost lossTo s' hd hl hn hs =>
    have hr : (({ d.ctl with lossTo }.markDetected p).pkt p).lossRec = false := by
      rw [markDetected_pkt]
      exact hd.1
    have hT : Spares p d.ctl { d.ctl with lossTo } := .same rfl
    have hL := (hT.trans (markDetected_spares _ p)).trans (@handleLostPacket_spares env _ p
      (nextOf p (d.ctl.queue (.unacked n))) hr)
    rcases hs with rfl | ⟨r, rfl⟩
    · exact hL
    · exact hL.trans (.touch _ _ fun _ => rfl)

theorem noteAcked_spares (s : SendCtl) (p : PktId) :
    Spares p { s with
      largestAckedPackno := (s.pkt p).packno
      largestAckedSentTime := (s.pkt p).sent } (s.noteAcked env p) := by
  simp only [noteAcked]
  split
  · exact recordFeedback_spares _ p 0
  · exact .refl _

theorem ackEntry_keeps (he : s.ackEntry env n prev p = some s') : Keeps p s s' := by
  simp only [ackEntry] at he
  split at he
  · rw [← Option.some.inj he]
    exact ((unackedRemove_spares s p _).trans (.emit _ _)).toKeeps
  · split at he
    · rw [← Option.some.inj he]
      simp only [maybeIncreaseReordThresh]
      split <;> split <;> exact .same rfl rfl
    · split at he
      · rw [← Option.some.inj he]
        exact (unackedRemove_spares s p _).toKeeps
      · cases he

theorem advance_ctl (st : AckLoop) (packno : Int) : (st.advance packno).ctl = st.ctl := by
  unfold AckLoop.advance
  split <;> rfl

theorem ackOne_keeps (acki : AckInfo) (prev : Int) (st : AckLoop) (p : PktId) :
    Keeps p st.ctl (ackOne env acki prev st p).1.ctl := by
  have hC : Keeps p st.ctl { st.ctl with
      largestAckedPackno := (st.ctl.pkt p).packno
      largestAckedSentTime := (st.ctl.pkt p).sent } := .same rfl rfl
  have hK : Keeps p st.ctl (st.ctl.noteAcked env p) :=
    hC.trans (noteAcked_spares st.ctl p).toKeeps
  simp only [ackOne, advance_ctl]
  split
  · split
    · exact hK
    next s₂ he =>
      have hD : Spares p s₂ (s₂.destroyChain env p
          (nextOf p (st.ctl.queue (.unacked acki.pns)))).1 := destroyChain_spares _ p _
      exact hK.trans ((ackEntry_keeps he).trans hD.toKeeps)
  · rw [advance_ctl]
    exact .same rfl rfl

end

end SendCtl

end QuicArt
