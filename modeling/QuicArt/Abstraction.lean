import QuicArt.Chains

namespace QuicArt
namespace SendCtl

section
variable {env : Env} {s : SendCtl} {p p' : PktId} {q q' : Queue} {l : List PktId}
  {f : PacketOut → PacketOut} {g : Pkt → Pkt}

theorem pkt_upd (s : SendCtl) (p p' : PktId) (f : PacketOut → PacketOut) :
    (s.upd p f).pkt p' = if p' = p then f (s.pkt p') else s.pkt p' :=
  Table.get_modify ..

theorem pkt_upd_self (s : SendCtl) (p : PktId) (f : PacketOut → PacketOut) :
    (s.upd p f).pkt p = f (s.pkt p) := by
  rw [pkt_upd, if_pos rfl]

theorem queue_setQueue (s : SendCtl) (q q' : Queue) (l : List PktId) :
    (s.setQueue q l).queue q' = if q' = q then l else s.queue q' :=
  Table.get_set ..

def view (s : SendCtl) :=
  (s.pkts, s.nextId, s.queues, s.bpqCount, s.nInFlightAll, s.bytesUnackedAll, s.curPackno,
    s.lastSent, s.gap, s.nTotalSent, s.roundsMap, s.log)

theorem core_congr {s s' : SendCtl} (h : s'.view = s.view) : s'.core env = s.core env := by
  simp only [view, Prod.mk.injEq] at h
  obtain ⟨h₁, h₂, h₃, h₄, h₅, h₆, h₇, h₈, h₉, h₁₀, h₁₁, h₁₂⟩ := h
  simp only [core, pkt, queue, h₁, h₂, h₃, h₄, h₅, h₆, h₇, h₈, h₉, h₁₀, h₁₁, h₁₂]

theorem core_pkts (s : SendCtl) (p : PktId) : (s.core env).pkts p = (s.pkt p).core env := rfl

theorem core_queue (env : Env) (s : SendCtl) : (s.core env).queue q = s.queue q := rfl

theorem core_upd (h : (f (s.pkt p)).core env = g ((s.pkt p).core env)) :
    (s.upd p f).core env = (s.core env).upd p g := by
  refine Core.ext (funext fun p' => ?_) rfl rfl rfl rfl rfl rfl rfl rfl rfl rfl rfl
  simp only [core_pkts, pkt_upd, upd_pkts]
  split
  next he => rw [he, h]
  · rfl

theorem core_upd_same (h : (f (s.pkt p)).core env = (s.pkt p).core env) :
    (s.upd p f).core env = s.core env := by
  refine Core.ext (funext fun p' => ?_) rfl rfl rfl rfl rfl rfl rfl rfl rfl rfl rfl
  simp only [core_pkts, pkt_upd]
  split
  next he => rw [he, h]
  · rfl

section
variable (s : SendCtl)

theorem core_setQueue (l : List PktId) : (s.setQueue q l).core env = (s.core env).setQueue q l := by
  refine Core.ext rfl rfl (funext fun q' => ?_) rfl rfl rfl rfl rfl rfl rfl rfl rfl
  simp only [core, queue_setQueue, Core.setQueue, Function.update_apply]

theorem core_emit (e : Event) : (s.emit e).core env = (s.core env).emit e := rfl

theorem core_ticked : s.ticked.core env = s.core env := rfl

theorem core_alloc (pk : PacketOut) : (s.alloc pk).core env = (s.core env).alloc (pk.core env) := by
  refine Core.ext (funext fun p' => ?_) rfl rfl rfl rfl rfl rfl rfl rfl rfl rfl rfl
  simp only [core, pkt, SendCtl.alloc, Table.get_set, Core.alloc, Function.update_apply]
  split <;> rfl

theorem core_append (p : PktId) :
    (s.setQueue q (s.queue q ++ [p])).core env = (s.core env).append q p := by
  rw [core_setQueue, Core.append, core_queue]

theorem core_remove (p : PktId) :
    (s.setQueue q ((s.queue q).erase p)).core env = (s.core env).remove q p := by
  rw [core_setQueue, Core.remove, core_queue]

theorem core_unackedAppend (p : PktId) :
    (s.unackedAppend env p).core env = (s.core env).unackedAppend p := by
  have h : ((s.setQueue (.unacked (s.pkt p).pns) (s.queue (.unacked (s.pkt p).pns) ++ [p])).upd p
      ({ · with unacked := true })).core env =
      ((s.core env).append (.unacked (s.pkt p).pns) p).upd p ({ · with unacked := true }) := by
    rw [← core_append s]
    exact core_upd rfl
  simp only [SendCtl.unackedAppend]
  split <;> exact congrArg (Core.charge · 1 ((s.pkt p).sentSize env)) h

theorem core_unackedRemove (p : PktId) :
    (s.unackedRemove env p ((s.pkt p).sentSize env)).core env = (s.core env).unackedRemove p := by
  have h : ((s.setQueue (.unacked (s.pkt p).pns) ((s.queue (.unacked (s.pkt p).pns)).erase p)).upd
      p ({ · with unacked := false })).core env =
      ((s.core env).remove (.unacked (s.pkt p).pns) p).upd p ({ · with unacked := false }) := by
    rw [← core_remove s]
    exact core_upd rfl
  simp only [SendCtl.unackedRemove]
  split <;> exact congrArg (Core.charge · (-1) (-(s.pkt p).sentSize env)) h

theorem core_schedAppend (p : PktId) :
    (s.schedAppend env p).core env = (s.core env).schedAppend p := by
  rw [Core.schedAppend, ← core_append s]
  exact core_upd rfl

theorem core_schedRemove (p : PktId) :
    (s.schedRemove env p).core env = (s.core env).schedRemove p := by
  rw [Core.schedRemove, ← core_remove s]
  exact core_upd rfl

theorem core_lostRemove (p : PktId) : (s.lostRemove p).core env = (s.core env).remove .lost p :=
  core_remove s p

theorem core_lostAppend (p : PktId) : (s.lostAppend p).core env = (s.core env).lostAppend p := by
  rw [Core.lostAppend, ← core_append s]
  exact core_upd rfl

theorem core_nextPackno : s.nextPackno.core env = (s.core env).nextPackno := by
  simp only [SendCtl.nextPackno, Core.nextPackno]
  split
  next h => rw [if_pos (by exact h)]; rfl
  next h => rw [if_neg (by exact h)]; rfl

theorem core_senhistAdd (n : Int) : (s.senhistAdd n).core env = (s.core env).senhistAdd n := by
  simp only [SendCtl.senhistAdd, Core.senhistAdd]
  split
  next h => rw [if_pos (by exact h)]; rfl
  next h => rw [if_neg (by exact h)]

theorem core_setRetxAlarm (n : Pns) (now : Time) :
    (s.setRetxAlarm env n now).core env = s.core env := by
  simp only [setRetxAlarm]
  split <;> exact core_congr rfl

end

theorem markAll_nil (c : Core) : c.markAll [] = c := by
  simp only [Core.markAll, List.not_mem_nil, if_false]

theorem markAll_cons (c : Core) (p : PktId) (l : List PktId) :
    (c.upd p ({ · with repackno := true })).markAll l = c.markAll (p :: l) := by
  refine Core.ext (funext fun p' => ?_) rfl rfl rfl rfl rfl rfl rfl rfl rfl rfl rfl
  simp only [Core.markAll, upd_pkts, List.mem_cons]
  by_cases hp : p' = p
  · simp only [hp, true_or, if_true, ite_self]
  · simp only [hp, false_or, if_false]

/-- Marking stops at the first packet that is marked already. -/
theorem core_markRepackno (s : SendCtl) (hl : l.Nodup) :
    (s.markRepackno l).core env =
      (s.core env).markAll (l.takeWhile fun p => !(s.pkt p).repackno) := by
  induction l generalizing s with
  | nil => exact (markAll_nil _).symm
  | cons p l ih =>
    obtain ⟨hp, hl⟩ := List.nodup_cons.1 hl
    simp only [markRepackno]
    split
    next hr =>
      simp only [List.takeWhile_cons, hr, Bool.not_true, Bool.false_eq_true, if_false]
      exact (markAll_nil _).symm
    next hr =>
      have hr : (s.pkt p).repackno = false := by simpa using hr
      have htw : l.takeWhile (fun p' => !((s.upd p ({ · with repackno := true })).pkt p').repackno) =
          l.takeWhile fun p' => !(s.pkt p').repackno := by
        refine takeWhile_congr fun p' hp' => ?_
        have hne : p' ≠ p := fun he => hp (he ▸ hp')
        rw [pkt_upd, if_neg hne]
      rw [ih _ hl, htw, core_upd (g := ({ · with repackno := true })) rfl, markAll_cons]
      simp only [List.takeWhile_cons, hr, Bool.not_false, if_true]

theorem core_renumberToRight (s : SendCtl) (hn : (s.queue .scheduled).Nodup) (cur : PktId) :
    (s.maybeRenumberSchedToRight cur).core env = (s.core env).renumberToRight cur := by
  simp only [maybeRenumberSchedToRight, Core.renumberToRight]
  split
  next h => rw [if_pos (by exact h)]
  next h =>
    rw [if_neg (by exact h), core_markRepackno _ (hn.sublist (after_sublist _ _)),
      core_queue env s]
    rfl

theorem core_foldl_mark (s : SendCtl) (l : List PktId) :
    (l.foldl (fun s p => s.upd p ({ · with repackno := true })) s).core env =
      (s.core env).markAll l := by
  induction l generalizing s with
  | nil => exact (markAll_nil _).symm
  | cons p l ih =>
    rw [List.foldl_cons, ih, core_upd (g := ({ · with repackno := true })) rfl, markAll_cons]

theorem core_resetPacknos (s : SendCtl) :
    s.resetPacknos.core env = (s.core env).resetPacknos := by
  rw [SendCtl.resetPacknos, core_foldl_mark, Core.resetPacknos, core_queue env s]
  rfl

theorem core_foldl_same (hf : ∀ pk, (f pk).core env = pk.core env) (s : SendCtl)
    (l : List PktId) : (l.foldl (fun s p => s.upd p f) s).core env = s.core env := by
  induction l generalizing s with
  | nil => rfl
  | cons p l ih => rw [List.foldl_cons, ih, core_upd_same (hf _)]

theorem core_disableEcn (s : SendCtl) : s.disableEcn.core env = s.core env :=
  core_foldl_same (f := ({ · with ecn := Ecn.notEct })) (fun _ => rfl) _ _

theorem core_countLoss (s : SendCtl) (p : PktId) : (s.countLoss p).core env = s.core env := by
  simp only [countLoss]
  split
  · split
    · split
      · exact core_disableEcn _
      · rfl
    · split
      · exact core_disableEcn _
      · rfl
  · rfl

theorem core_lossRecordOf (pk : PacketOut) :
    (lossRecordOf env pk).core env = Core.recordOf (pk.core env) := rfl

theorem core_recordLoss (hm : env.malo s.tick = true) (hs : (s.pkt p).sched = false) :
    (s.recordLoss env p).1.core env = (s.core env).recordLoss p := by
  have h : (((s.ticked.alloc (lossRecordOf env (s.pkt p))).upd p
      ({ · with lossChain := s.nextId })).setQueue (.unacked (s.pkt p).pns)
      (insertBefore p s.nextId (s.queue (.unacked (s.pkt p).pns)))).core env =
      (((s.core env).alloc (Core.recordOf ((s.pkt p).core env))).upd p
        ({ · with lossChain := s.nextId })).setQueue (.unacked (s.pkt p).pns)
        (insertBefore p s.nextId ((s.core env).queue (.unacked (s.pkt p).pns))) := by
    rw [core_setQueue _, core_upd (g := ({ · with lossChain := s.nextId })) rfl,
      core_alloc, core_lossRecordOf, core_queue env s]
    rfl
  simp only [SendCtl.recordLoss, hm, if_true, hs, Bool.false_eq_true, if_false, Core.recordLoss]
  split
  next hf =>
    rw [if_pos (by exact hf)]
    exact congrArg (Core.charge · 1 ((s.pkt p).sentSize env)) h
  next hf =>
    rw [if_neg (by exact hf)]
    exact h

theorem core_recordLoss_fails (hm : env.malo s.tick = false) :
    (s.recordLoss env p).1.core env = s.core env := by
  simp only [SendCtl.recordLoss, hm, Bool.false_eq_true, if_false]
  exact core_ticked s

theorem core_recordFeedback (s : SendCtl) (p : PktId) (value : Nat) :
    ∃ ok, (s.recordFeedback env p value).core env = (s.core env).recordFeedback p value ok := by
  have h : (s.emit (.feedback (s.pkt p).tx value ((s.pkt p).feedbackRecorded ≠ 0))).core env =
      (s.core env).recordFeedback p value true := by
    rw [Core.recordFeedback, if_pos rfl]
    rfl
  simp only [SendCtl.recordFeedback]
  split
  · exact ⟨true, (core_congr rfl).trans h⟩
  · split
    · exact ⟨true, (core_congr rfl).trans h⟩
    · refine ⟨false, ?_⟩
      rw [Core.recordFeedback, if_neg (by simp)]
      rfl

theorem core_scheduleTime (init : Bool) (now rand : Nat) (pk : PacketOut) :
    (pk.scheduleTime init now rand).core env = pk.core env := by
  simp only [PacketOut.scheduleTime]
  split <;> split <;> first | rfl | (split <;> rfl)

theorem core_updateTurn_duplicate
    (h : (s.pkt p).fakeLossRec ≠ 0 ∧ !(s.pkt p).lossRec ∧ (s.pkt p).beenDetectLoss = 0) :
    (s.updateTurn env p).core env = (s.core env).duplicate p := by
  simp only [updateTurn, if_pos h]
  rw [core_upd_same rfl, core_ticked, core_emit]
  refine congrArg (Core.emit · _) (core_upd ?_)
  rw [core_scheduleTime]
  rfl

theorem core_updateTurn_newTurn
    (h : ¬ ((s.pkt p).fakeLossRec ≠ 0 ∧ !(s.pkt p).lossRec ∧ (s.pkt p).beenDetectLoss = 0)) :
    (s.updateTurn env p).core env =
      (s.core env).newTurn p (s.turnQuota (u16add (s.pkt p).retransTimes 1))
        (s.artDuplicateNumber (u16add (s.pkt p).retransTimes 1)).1.roundsMap := by
  simp only [updateTurn, if_neg h]
  rw [core_upd_same rfl, core_ticked, core_emit]
  apply congrArg (Core.emit · _)
  rw [core_upd (g := ({ · with
    retransTimes := u16add (s.pkt p).retransTimes 1
    needRetransNumber := s.turnQuota (u16add (s.pkt p).retransTimes 1)
    fakeLossRec := 1 })) ?_]
  · rfl
  · rw [core_scheduleTime]
    rfl

theorem artDuplicateNumber_roundStep (s : SendCtl) (round : Nat) :
    Core.RoundStep round s.roundsMap (s.artDuplicateNumber round).1.roundsMap := by
  refine ⟨_, rfl, fun hm hlt => ?_⟩
  generalize s.roundsMap.getD round 0 = m at *
  generalize (if s.feedbackWindowSize = 0 then 0 else s.feedbackWindow.count 1) = ones
  have hpos : 0 < if s.feedbackWindowSize = 0 then 1 else s.feedbackWindowSize := by
    split <;> omega
  generalize (if s.feedbackWindowSize = 0 then 1 else s.feedbackWindowSize) = size at hpos
  split
  · simp only [u32]
    omega
  · split
    next hd =>
      have htwo : 2 ≤ m := Nat.le_of_mul_le_mul_left (by omega : size * 2 ≤ size * m) hpos
      simp only [u32]
      omega
    · omega

end

end SendCtl

theorem Moves.view {s s' : SendCtl} (hM : Moves m g ⟨s.core env, h, x⟩)
    (hv : s'.view = s.view) : Moves m g ⟨s'.core env, h, x⟩ := by
  rw [SendCtl.core_congr hv]
  exact hM

end QuicArt
