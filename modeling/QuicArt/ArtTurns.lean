import QuicArt.Reach

namespace QuicArt

def Pkt.turn (pk : Pkt) : Bool × Bool × Nat × Nat × Nat × Nat :=
  (pk.lossRec, pk.poison, pk.fakeLossRec, pk.retransTimes, pk.retransPacketNumber,
    pk.needRetransNumber)

namespace Core

def turn (c : Core) : PktId → Bool × Bool × Nat × Nat × Nat × Nat := fun p => (c.pkts p).turn

section
variable (c : Core)

theorem turn_upd {p : PktId} {f : Pkt → Pkt} (hf : ∀ pk, (f pk).turn = pk.turn) :
    (c.upd p f).turn = c.turn := by
  funext a
  simp only [turn, upd_pkts]
  split
  · exact hf _
  · rfl

theorem turn_markAll (l : List PktId) : (c.markAll l).turn = c.turn := by
  funext a
  simp only [turn, markAll]
  split <;> rfl

theorem turn_schedRemove (p : PktId) : (c.schedRemove p).turn = c.turn :=
  turn_upd (f := ({ · with sched := false })) (c.remove .scheduled p) fun _ => rfl

theorem turn_unackedRemove (p : PktId) : (c.unackedRemove p).turn = c.turn :=
  turn_upd (f := ({ · with unacked := false })) (c.remove (.unacked (c.pkts p).pns) p) fun _ => rfl

theorem turn_lostRemove (p : PktId) : (c.lostRemove p).turn = c.turn :=
  turn_upd (f := ({ · with lost := false })) (c.remove .lost p) fun _ => rfl

theorem turn_lostAppend (p : PktId) : (c.lostAppend p).turn = c.turn :=
  turn_upd (f := ({ · with lost := true })) (c.append .lost p) fun _ => rfl

theorem turn_nextPackno : c.nextPackno.turn = c.turn := by
  unfold nextPackno
  split <;> rfl

theorem turn_renumberHead (p : PktId) (body : Body) : (c.renumberHead p body).turn = c.turn :=
  (turn_upd (f := ({ · with packno := c.nextPackno.curPackno, body := body, repackno := false }))
    c.nextPackno fun _ => rfl).trans (turn_nextPackno c)

theorem turn_renumberToRight (p : PktId) : (c.renumberToRight p).turn = c.turn := by
  unfold renumberToRight
  split
  · rfl
  · exact turn_markAll _ _

theorem turn_recRemove (n : Pns) (p : PktId) : (c.recRemove n p).turn = c.turn := by
  unfold recRemove
  split <;> rfl

theorem turn_replicaFeedback (p : PktId) (ok : Bool) : (c.replicaFeedback p ok).turn = c.turn := by
  unfold replicaFeedback
  split <;> rfl

end

end Core

def Event.neutral : Event → Bool
  | .newTurn .. | .duplicate .. | .declared _ => false
  | _ => true

inductive TurnStep (m : Kind → Prop) (c c' : Core) : Prop
  | idle (ht : c'.turn = c.turn) (hn : c'.nextId = c.nextId)
      (hl : ∃ es, c'.log = es ++ c.log ∧ ∀ e ∈ es, e.neutral = true)
  | create (ht : ∀ p < c.nextId, c'.turn p = c.turn p) (hn : c'.nextId = c.nextId + 1)
      (hp : (c'.pkts c.nextId).data → (c'.pkts c.nextId).fakeLossRec = 0 ∧
        (c'.pkts c.nextId).retransPacketNumber = 0)
      (hl : ∃ es, c'.log = es ++ c.log ∧ ∀ e ∈ es, e.neutral = true)
  | declare (ht : c'.turn = c.turn) (hn : c'.nextId = c.nextId) (hlt : p < c.nextId)
      (hd : (c.pkts p).data)
      (hq : (c.pkts p).fakeLossRec = 0 ∨
        (c.pkts p).needRetransNumber ≤ (c.pkts p).retransPacketNumber)
      (hl : c'.log = .declared p :: c.log)
  | begin (ht : ∀ a ≠ p, c'.turn a = c.turn a) (hn : c'.nextId = c.nextId) (hlt : p < c.nextId)
      (hd : (c.pkts p).data) (hb : (c.pkts p).retransTimes + 1 < maxRoundBound ∨ m .deep)
      (ha : (c.pkts p).fakeLossRec = 0 ∨ (c.pkts p).retransPacketNumber = 0 ∨ m .again)
      (hz : need < 65536)
      (hp : c'.turn p = (false, false, 1, u16add (c.pkts p).retransTimes 1,
        (c.pkts p).retransPacketNumber, need))
      (hl : c'.log = .newTurn p (u16add (c.pkts p).retransTimes 1)
        (c.pkts p).retransPacketNumber need :: c.log)
  | again (ht : ∀ a ≠ p, c'.turn a = c.turn a) (hn : c'.nextId = c.nextId) (hlt : p < c.nextId)
      (hd : (c.pkts p).data) (hf : (c.pkts p).fakeLossRec ≠ 0)
      (hq : (c.pkts p).retransPacketNumber < (c.pkts p).needRetransNumber ∨ m .overrun)
      (hp : c'.turn p = (false, false, (c.pkts p).fakeLossRec, (c.pkts p).retransTimes,
        u16add (c.pkts p).retransPacketNumber 1, (c.pkts p).needRetransNumber))
      (hl : c'.log = .duplicate p (u16add (c.pkts p).retransPacketNumber 1)
        (c.pkts p).needRetransNumber :: c.log)

section
variable {c c' : Core} {m : Kind → Prop} {ack : Bool}

theorem TurnStep.quiet (ht : c'.turn = c.turn) (hn : c'.nextId = c.nextId) (hl : c'.log = c.log) :
    TurnStep m c c' :=
  .idle ht hn ⟨[], hl, by simp⟩

theorem TurnStep.tells {e : Event} (ht : c'.turn = c.turn) (hn : c'.nextId = c.nextId)
    (hl : c'.log = e :: c.log) (he : e.neutral = true) : TurnStep m c c' :=
  .idle ht hn ⟨[e], hl, by simpa using he⟩

theorem TurnStep.ackIf (ht : c'.turn = c.turn) (hn : c'.nextId = c.nextId) (hl : c'.log = c.log) :
    TurnStep m c (c'.ackIf p ack) := by
  cases ack with
  | true => exact .tells (e := .ackStreams p) ht hn (congrArg _ hl) rfl
  | false => exact .quiet ht hn hl

theorem replicaFeedback_neutral (c : Core) (p : PktId) (ok : Bool) :
    ∃ es, (c.replicaFeedback p ok).log = es ++ c.log ∧ ∀ e ∈ es, e.neutral = true := by
  rw [replicaFeedback_log]
  split
  · refine ⟨_, rfl, ?_⟩
    cases ok <;> simp [Event.neutral]
  · exact ⟨[], rfl, by simp⟩

theorem replicaFeedback_nextId (c : Core) (p : PktId) (ok : Bool) :
    (c.replicaFeedback p ok).nextId = c.nextId := by
  unfold Core.replicaFeedback
  split <;> rfl

theorem TurnStep.number {f : Pkt → Pkt} (hf : ∀ pk, (f pk).turn = pk.turn) :
    TurnStep m c ((c.nextPackno.upd p f).schedAppend p) := by
  have hA : ((c.nextPackno.upd p f).schedAppend p).turn = (c.nextPackno.upd p f).turn :=
    Core.turn_upd (f := ({ · with sched := true })) ((c.nextPackno.upd p f).append .scheduled p)
      fun _ => rfl
  exact .quiet ((hA.trans (Core.turn_upd _ hf)).trans (Core.turn_nextPackno c))
    (nextPackno_nextId c)
    (nextPackno_log c)

theorem turn_senhistAdd (c : Core) (packno : Int) : (c.senhistAdd packno).turn = c.turn := by
  unfold Core.senhistAdd
  split <;> rfl

theorem turn_launch (c : Core) (p : PktId) (packno : Int) : (c.launch p packno).turn = c.turn := by
  have hU : ((c.senhistAdd packno).upd p
      ({ · with tx := (c.senhistAdd packno).nTotalSent })).turn = (c.senhistAdd packno).turn :=
    Core.turn_upd _ fun _ => rfl
  have hA : ∀ c : Core, (c.unackedAppend p).turn = c.turn := fun c =>
    Core.turn_upd (f := ({ · with unacked := true })) (c.append (.unacked (c.pkts p).pns) p)
      fun _ => rfl
  exact ((hA _).trans hU).trans (turn_senhistAdd c packno)

theorem turn_takeHead (c : Core) (p : PktId) (body : Body) : (c.takeHead p body).turn = c.turn :=
  (Core.turn_upd (f := ({ · with body := body })) (c.schedRemove p) fun _ => rfl).trans
    (Core.turn_schedRemove c p)

theorem turnStep_sendHead (c : Core) (p : PktId) (body : Body) (sz : Nat) :
    TurnStep m c (c.sendHead p body sz) := by
  have hlog : ∃ es, (c.sendHead p body sz).log = es ++ c.log ∧ ∀ e ∈ es, e.neutral = true :=
    ⟨[.sent p (c.pkts p).packno], sendHead_log c p body sz, by simp [Event.neutral]⟩
  have hid : (c.sendHead p body sz).nextId =
      ((c.takeHead p body).withPoison (c.pkts p).packno sz).nextId := senhistAdd_nextId _ _
  have ht : (c.sendHead p body sz).turn =
      ((c.takeHead p body).withPoison (c.pkts p).packno sz).turn := turn_launch _ _ _
  by_cases hg : (c.pkts p).packno = (c.takeHead p body).gap + 1
  · have hw : (c.takeHead p body).withPoison (c.pkts p).packno sz =
        ((c.takeHead p body).senhistAdd (c.takeHead p body).gap).addPoison sz := if_pos hg
    have hn : ((c.takeHead p body).senhistAdd (c.takeHead p body).gap).nextId = c.nextId :=
      senhistAdd_nextId _ _
    rw [hw] at hid ht
    generalize hc₁ : (c.takeHead p body).senhistAdd (c.takeHead p body).gap = c₁ at hid ht hn
    have ht₁ : c₁.turn = c.turn := by
      rw [← hc₁, turn_senhistAdd, turn_takeHead]
    have hself : (c.sendHead p body sz).turn c.nextId = (false, true, 0, 0, 0, 0) := by
      rw [ht, ← hn]
      exact congrArg Pkt.turn (alloc_pkts_next c₁ _)
    refine .create ?_ ?_ ?_ hlog
    · intro a ha
      rw [ht, ← ht₁]
      exact congrArg Pkt.turn (alloc_pkts_of_lt c₁ _ (hn ▸ ha))
    · rw [hid, ← hn]
      rfl
    · intro hd
      simp only [Core.turn, Pkt.turn, Prod.mk.injEq] at hself
      cases hself.2.1.symm.trans hd.2
  · have hw : (c.takeHead p body).withPoison (c.pkts p).packno sz = c.takeHead p body := if_neg hg
    rw [hw] at hid ht
    exact .idle (ht.trans (turn_takeHead c p body)) hid hlog

theorem turnStep_lose (c : Core) (p : PktId) :
    TurnStep m c ((c.recordLoss p).unackedRemove p) := by
  have hid : (c.recordLoss p).nextId = c.nextId + 1 := by
    simp only [Core.recordLoss]
    split <;> rfl
  have ht : (c.recordLoss p).turn = (c.alloc (Core.recordOf (c.pkts p))).turn := by
    have hU := Core.turn_upd (p := p) (f := ({ · with lossChain := c.nextId }))
      (c.alloc (Core.recordOf (c.pkts p))) fun _ => rfl
    simp only [Core.recordLoss]
    split
    · exact hU
    · exact hU
  have hself : ((c.recordLoss p).unackedRemove p).turn c.nextId =
      (Core.recordOf (c.pkts p)).turn := by
    rw [Core.turn_unackedRemove, ht]
    exact congrArg Pkt.turn (alloc_pkts_next c _)
  refine .create ?_ hid ?_ ⟨[], recordLoss_log c p, by simp⟩
  · intro a ha
    rw [Core.turn_unackedRemove, ht]
    exact congrArg Pkt.turn (alloc_pkts_of_lt c _ ha)
  · intro hd
    simp only [Core.turn, Pkt.turn, Prod.mk.injEq] at hself
    cases hself.1.symm.trans hd.1

theorem turn_lostAppend_upd (c : Core) (p : PktId) (f : Pkt → Pkt) (a : PktId) :
    ((c.lostAppend p).upd p f).turn a =
      if a = p then (f { c.pkts p with lost := true }).turn else c.turn a := by
  simp only [Core.turn, upd_pkts]
  split
  next he => rw [he, lostAppend_self]
  next hne => exact congrFun (Core.turn_lostAppend c p) a

theorem turnStep_newTurn (hd : (c.pkts p).data) (hlt : p < c.nextId)
    (hb : (c.pkts p).retransTimes + 1 < maxRoundBound ∨ m .deep)
    (ha : (c.pkts p).fakeLossRec = 0 ∨ (c.pkts p).retransPacketNumber = 0 ∨ m .again)
    (hz : need < 65536) (rounds : List Nat) :
    TurnStep m c ((c.lostAppend p).newTurn p need rounds) := by
  have hpk := turn_lostAppend_upd c p ({ · with
    retransTimes := u16add ((c.lostAppend p).pkts p).retransTimes 1, needRetransNumber := need
    fakeLossRec := 1 })
  refine .begin (p := p) (fun a hne => ?_) rfl hlt hd hb ha hz ?_ ?_
  · exact (hpk a).trans (if_neg hne)
  · refine ((hpk p).trans (if_pos rfl)).trans ?_
    simp only [lostAppend_self, Pkt.turn, hd.1, hd.2]
  · simp only [Core.newTurn, Core.emit, lostAppend_self]
    rfl

theorem turnStep_duplicate (hd : (c.pkts p).data) (hlt : p < c.nextId)
    (hf : (c.pkts p).fakeLossRec ≠ 0)
    (hq : (c.pkts p).retransPacketNumber < (c.pkts p).needRetransNumber ∨ m .overrun) :
    TurnStep m c ((c.lostAppend p).duplicate p) := by
  have hpk := turn_lostAppend_upd c p ({ · with
    retransPacketNumber := u16add ((c.lostAppend p).pkts p).retransPacketNumber 1 })
  refine .again (p := p) (fun a hne => ?_) rfl hlt hd hf hq ?_ ?_
  · exact (hpk a).trans (if_neg hne)
  · refine ((hpk p).trans (if_pos rfl)).trans ?_
    simp only [lostAppend_self, Pkt.turn, hd.1, hd.2]
  · simp only [Core.duplicate, Core.emit, lostAppend_self]
    rfl

/-- What a move can do to the turns of the packets. -/
theorem Move.turnStep (hm : Move m g g') (hS : Sound g.core g.hand g.doomed) :
    TurnStep m g.core g'.core := by
  cases hm with
  | resize => exact .quiet (Core.turn_upd (f := ({ · with body := _ })) _ fun _ => rfl) rfl rfl
  | congest => exact .tells rfl rfl rfl rfl
  | declare hp hd hn => exact .declare rfl rfl (hS.placed.on hp) hd hn rfl
  | setGap => exact .quiet rfl rfl rfl
  | scrub => exact .quiet (Core.turn_upd (f := ({ · with lossChain := _ })) _ fun _ => rfl) rfl rfl
  | shuffle => exact .quiet rfl rfl rfl
  | fresh _ hpk =>
    refine .create (fun a ha => ?_) rfl (fun _ => ?_) ⟨[], rfl, by simp⟩
    · exact congrArg Pkt.turn (alloc_pkts_of_lt _ _ ha)
    · rw [alloc_pkts_next]
      exact ⟨hpk.turn.1, hpk.turn.2.2⟩
  | takeSched => exact .quiet (Core.turn_schedRemove _ _) rfl rfl
  | takeLost => exact .quiet (Core.turn_lostRemove _ _) rfl rfl
  | takeBuffered => exact .quiet rfl rfl rfl
  | splitBuffered => exact .quiet rfl rfl rfl
  | takeUnacked => exact .quiet (Core.turn_unackedRemove _ _) rfl rfl
  | lose => exact turnStep_lose _ _
  | ackData =>
    exact .idle ((Core.turn_unackedRemove _ _).trans (Core.turn_replicaFeedback _ _ _))
      (replicaFeedback_nextId _ _ _) (replicaFeedback_neutral _ _ _)
  | ackRecord =>
    refine .idle ((Core.turn_recRemove _ _ _).trans (Core.turn_replicaFeedback _ _ _))
      ((recRemove_nextId _ _ _).trans (replicaFeedback_nextId _ _ _)) ?_
    rw [recRemove_log]
    exact replicaFeedback_neutral _ _ _
  | reportLoss =>
    refine .idle (Core.turn_upd (f := ({ · with feedbackRecorded := 1 })) _ fun _ => rfl) rfl
      ⟨_, rfl, ?_⟩
    intro e he
    split at he
    · rw [List.mem_singleton.1 he]
      rfl
    · cases he
  | toLost => exact .quiet (Core.turn_upd (f := ({ · with lost := true })) _ fun _ => rfl) rfl rfl
  | newTurn _ hd _ _ ht ha hn =>
    exact turnStep_newTurn hd (hS.placed.lt _ none (.head _)) ht ha hn _
  | duplicate _ hd _ hf hq =>
    exact turnStep_duplicate hd (hS.placed.lt _ none (.head _)) hf hq
  | toStash => exact .quiet rfl rfl rfl
  | toBuffered => exact .quiet rfl rfl rfl
  | enqueue => exact .number (f := ({ · with packno := _, body := _, mtuProbe := _ })) fun _ => rfl
  | renumberHead =>
    exact .quiet (Core.turn_renumberHead _ _ _) (nextPackno_nextId _) (nextPackno_log _)
  | sendHead => exact turnStep_sendHead _ _ _ _
  | dropPoison => exact .quiet rfl rfl rfl
  | elideTwice => exact .quiet rfl rfl rfl
  | rewind => exact .quiet rfl rfl rfl
  | requeue => exact .number (f := ({ · with packno := _, body := _ })) fun _ => rfl
  | doom => exact .quiet rfl rfl rfl
  | undoom => exact .quiet rfl rfl rfl
  | release => exact .ackIf rfl rfl rfl
  | killRecord =>
    exact .quiet (Core.turn_recRemove _ _ _) (recRemove_nextId _ _ _) (recRemove_log _ _ _)
  | killUnacked => exact .tells (Core.turn_unackedRemove _ _) rfl rfl rfl
  | killLost => exact .ackIf rfl rfl rfl
  | killStashed => exact .tells rfl rfl rfl rfl
  | purgeRecord => exact .quiet rfl rfl rfl
  | purgeBuffered => exact .quiet rfl rfl rfl
  | killSched =>
    exact .ackIf ((Core.turn_schedRemove _ _).trans (Core.turn_renumberToRight _ _))
      (renumberToRight_nextId _ _) (renumberToRight_log _ _)
  | reset => exact .quiet (Core.turn_markAll _ _) rfl rfl

theorem SendFails.turnStep (hF : SendFails c c') : TurnStep m c c' := by
  cases hF with
  | fails =>
    exact .idle ((turn_senhistAdd _ _).trans (turn_takeHead _ _ _)) (senhistAdd_nextId _ _)
      ⟨[.sent _ _], senhistAdd_log _ _, by simp [Event.neutral]⟩

end

/-- Every turn in the history has an index inside the table of rounds. -/
def Shallow (c : Core) : Prop :=
  ∀ p i rpn need, Event.newTurn p i rpn need ∈ c.log → 1 ≤ i ∧ i < maxRoundBound

section
variable {c c' : Core} {m : Kind → Prop} {env : Env} {s : SendCtl} {p : PktId}

theorem TurnStep.shallow (hT : TurnStep m c c') (hk : ¬ m .deep) (h : Shallow c) : Shallow c' := by
  have neutral : (∃ es, c'.log = es ++ c.log ∧ ∀ e ∈ es, e.neutral = true) → Shallow c' := by
    rintro ⟨es, hl, he⟩ p i rpn need hm
    rw [hl] at hm
    rcases List.mem_append.1 hm with hm | hm
    · cases he _ hm
    · exact h p i rpn need hm
  intro p i rpn need hm
  cases hT with
  | idle _ _ hl => exact neutral hl p i rpn need hm
  | create _ _ _ hl => exact neutral hl p i rpn need hm
  | declare _ _ _ _ _ hl =>
    rw [hl] at hm
    exact h p i rpn need ((List.mem_cons.1 hm).resolve_left (by simp))
  | begin _ _ _ _ hb _ _ _ hl =>
    rw [hl] at hm
    rcases List.mem_cons.1 hm with he | hm
    · injection he with _ hi
      have hb := hb.resolve_right hk
      have hlt : maxRoundBound = 20 := rfl
      rw [hi, u16add, Nat.mod_eq_of_lt (by omega)]
      omega
    · exact h p i rpn need hm
  | again _ _ _ _ _ _ _ hl =>
    rw [hl] at hm
    exact h p i rpn need ((List.mem_cons.1 hm).resolve_left (by simp))

/-- The table is not exceeded as long as no packet that has been through all its rounds is lost once
more. -/
theorem roundIndex_bounds (h : Run env (fun s op => s.needs env op .deep = false) s)
    (he : Event.newTurn p i rpn need ∈ s.log) : 1 ≤ i ∧ i < maxRoundBound := by
  have hI : Shallow (s.core env) := by
    refine h.core_invariant (I := Shallow) nofun ?_ ?_
    · intro s op g g' hp hm hS hI
      exact (hm.turnStep hS).shallow (by simp [hp]) hI
    · intro c c' hF _ hI
      exact (hF.turnStep (m := fun _ => False)).shallow id hI
  exact hI p i rpn need he

end

theorem roundIndex_of_first : ∃ s i, Run quietEnv
    (fun s op => s.needs quietEnv op .deep = false) s ∧
    Event.newTurn 0 i 0 1 ∈ s.log ∧ i < maxRoundBound := by
  obtain ⟨s, hs, he⟩ : ∃ s, Run quietEnv (fun s op => s.needs quietEnv op .deep = false) s ∧
    Event.newTurn 0 1 0 1 ∈ s.log := exists_run (turnsOfPacket [] 4) (by decide +kernel)
  exact ⟨s, 1, hs, he, (roundIndex_bounds hs he).2⟩

/-- The twentieth loss of one packet takes the index past the end of the table. -/
theorem roundIndex_overflows : ∃ s rpn need, Reachable quietEnv s ∧
    Event.newTurn 0 maxRoundBound rpn need ∈ s.log := by
  obtain ⟨s, hs, he⟩ : ∃ s, Reachable quietEnv s ∧
      Event.newTurn 0 maxRoundBound 38 1 ∈ s.log := exists_run
    (turnsOfPacket ([4, 7, 11] ++ (List.range 17).map fun i : Nat => 13 + 4 * (i : Int)) 81)
    (by decide +kernel)
  exact ⟨s, 38, 1, hs, he⟩

def turnOf (p : PktId) : List Event → Option (Nat × Nat)
  | [] => none
  | .newTurn q _ _ need :: l => if q = p then some (need, 0) else turnOf p l
  | .duplicate q _ _ :: l =>
    if q = p then (turnOf p l).map fun t => (t.1, t.2 + 1) else turnOf p l
  | _ :: l => turnOf p l

def InTurn (l : List Event) : Event → Prop
  | .newTurn _ _ rpn _ => rpn = 0
  | .duplicate p _ _ => ∃ need k, turnOf p l = some (need, k) ∧ k < need
  | .declared p => ∀ need k, turnOf p l = some (need, k) → k = need
  | _ => True

def Agrees (pk : Pkt) : Option (Nat × Nat) → Prop
  | none => pk.fakeLossRec = 0 ∧ pk.retransPacketNumber = 0
  | some (need, k) => pk.fakeLossRec ≠ 0 ∧ pk.needRetransNumber = need ∧
      pk.retransPacketNumber = k ∧ k ≤ need ∧ need < 65536

/-- The invariant of runs in which every turn starts anew and no quota is exceeded. -/
structure Turns (c : Core) : Prop where
  agrees : ∀ p < c.nextId, (c.pkts p).data → Agrees (c.pkts p) (turnOf p c.log)
  fresh : ∀ p, c.nextId ≤ p → turnOf p c.log = none
  history : ∀ e l, e :: l <:+ c.log → InTurn l e

section
variable {c c' : Core} {m : Kind → Prop} {env : Env} {s : SendCtl} {p : PktId} {pk pk' : Pkt}

theorem turnOf_neutral {e : Event} (he : e.neutral = true) (l : List Event) :
    turnOf p (e :: l) = turnOf p l := by
  cases e with
  | newTurn => cases he
  | duplicate => cases he
  | declared => cases he
  | _ => rfl

theorem turnOf_append_neutral {es l : List Event} (he : ∀ e ∈ es, e.neutral = true) :
    turnOf p (es ++ l) = turnOf p l := by
  induction es with
  | nil => rfl
  | cons e es ih =>
    simp only [List.cons_append]
    rw [turnOf_neutral (he e (.head _)),
      ih fun e' he' => he e' (.tail _ he')]

theorem InTurn.of_neutral {e : Event} (he : e.neutral = true) (l : List Event) : InTurn l e := by
  cases e with
  | newTurn => cases he
  | duplicate => cases he
  | declared => cases he
  | _ => exact trivial

theorem history_cons (h : ∀ e l, e :: l <:+ log → InTurn l e) (he : InTurn log e₀) :
    ∀ e l, e :: l <:+ e₀ :: log → InTurn l e := by
  intro e l hs
  rcases List.suffix_cons_iff.1 hs with heq | hs
  · injection heq with h₁ h₂
    rw [h₁, h₂]
    exact he
  · exact h e l hs

theorem history_neutral (h : ∀ e l, e :: l <:+ log → InTurn l e) {es : List Event}
    (he : ∀ e ∈ es, e.neutral = true) : ∀ e l, e :: l <:+ es ++ log → InTurn l e := by
  induction es with
  | nil => exact h
  | cons e₀ es ih =>
    apply history_cons (ih fun e hm => he e (.tail _ hm))
    exact .of_neutral (he e₀ (.head _)) _

theorem Agrees.congr (h : Agrees pk t) (ht : pk'.turn = pk.turn) : Agrees pk' t := by
  simp only [Pkt.turn, Prod.mk.injEq] at ht
  cases t with
  | none => simpa only [Agrees, ht] using h
  | some t => simpa only [Agrees, ht] using h

theorem data_congr (ht : pk'.turn = pk.turn) : pk'.data ↔ pk.data := by
  simp only [Pkt.turn, Prod.mk.injEq] at ht
  simp only [Pkt.data, ht]

theorem Turns.turned (h : Turns c) (ht : ∀ a ≠ p, c'.turn a = c.turn a) (hn : c'.nextId = c.nextId)
    (hlt : p < c.nextId) (hl : c'.log = e :: c.log)
    (hother : ∀ a ≠ p, turnOf a (e :: c.log) = turnOf a c.log)
    (hself : Agrees (c'.pkts p) (turnOf p (e :: c.log))) (he : InTurn c.log e) : Turns c' := by
  refine ⟨fun a hlt' hda => ?_, fun a hlt' => ?_, ?_⟩
  · rw [hl]
    by_cases hap : a = p
    · rw [hap]
      exact hself
    · rw [hother a hap]
      exact (h.agrees a (hn ▸ hlt') ((data_congr (ht a hap)).1 hda)).congr (ht a hap)
  · rw [hn] at hlt'
    rw [hl, hother a (Nat.ne_of_gt (Nat.lt_of_lt_of_le hlt hlt'))]
    exact h.fresh a hlt'
  · rw [hl]
    exact history_cons h.history he

theorem Turns.kept (h : Turns c) (hn : c.nextId ≤ c'.nextId)
    (ht : ∀ p < c.nextId, c'.turn p = c.turn p)
    (hnew : ∀ p < c'.nextId, c.nextId ≤ p → (c'.pkts p).data → Agrees (c'.pkts p) none)
    (hl : ∀ p, turnOf p c'.log = turnOf p c.log) (hh : ∀ e l, e :: l <:+ c'.log → InTurn l e) :
    Turns c' := by
  refine ⟨fun p hp hd => ?_, fun p hp => ?_, hh⟩
  · rw [hl]
    by_cases hlt : p < c.nextId
    · exact (h.agrees p hlt ((data_congr (ht p hlt)).1 hd)).congr (ht p hlt)
    · rw [h.fresh p (Nat.not_lt.1 hlt)]
      exact hnew p hp (Nat.not_lt.1 hlt) hd
  · rw [hl]
    exact h.fresh p (hn.trans hp)

theorem Agrees.number_eq_zero (h : Agrees pk t) (hf : pk.fakeLossRec = 0) :
    pk.retransPacketNumber = 0 := by
  cases t with
  | none => exact h.2
  | some t => exact absurd hf h.1

theorem Agrees.quota (h : Agrees pk t) (hf : pk.fakeLossRec ≠ 0) :
    t = some (pk.needRetransNumber, pk.retransPacketNumber) ∧
      pk.retransPacketNumber ≤ pk.needRetransNumber ∧ pk.needRetransNumber < 65536 := by
  cases t with
  | none => exact absurd h.1 hf
  | some t =>
    obtain ⟨need, k⟩ := t
    obtain ⟨-, rfl, rfl, hle, hz⟩ := h
    exact ⟨rfl, hle, hz⟩

theorem TurnStep.turns (hT : TurnStep m c c') (ha : ¬ m .again) (ho : ¬ m .overrun)
    (h : Turns c) : Turns c' := by
  cases hT with
  | idle ht hn hl =>
    obtain ⟨es, hl, he⟩ := hl
    refine h.kept hn.ge (fun p _ => congrFun ht p) ?_ (fun p => ?_) ?_
    · intro p hlt hge
      exact absurd hlt (hn ▸ Nat.not_lt.2 hge)
    · rw [hl, turnOf_append_neutral he]
    · rw [hl]
      exact history_neutral h.history he
  | create ht hn hp hl =>
    obtain ⟨es, hl, he⟩ := hl
    refine h.kept (hn ▸ Nat.le_succ _) ht ?_ (fun p => ?_) ?_
    · intro p hlt hge hd
      rw [hn] at hlt
      obtain rfl : p = c.nextId := Nat.le_antisymm (Nat.lt_succ_iff.1 hlt) hge
      exact hp hd
    · rw [hl, turnOf_append_neutral he]
    · rw [hl]
      exact history_neutral h.history he
  | @declare p ht hn hlt hd hq hl =>
    refine h.kept hn.ge (fun p _ => congrFun ht p) ?_ (fun p => ?_) ?_
    · intro p hlt hge
      exact absurd hlt (hn ▸ Nat.not_lt.2 hge)
    · rw [hl]
      rfl
    · rw [hl]
      apply history_cons h.history
      -- the quota is used up, and it was not exceeded
      intro need k hk
      have hA := h.agrees p hlt hd
      rw [hk] at hA
      obtain ⟨hf, hneed, hrpn, hle, -⟩ := hA
      have hq := hq.resolve_left hf
      omega
  | @begin p need ht hn hlt hd hb hag hz hp hl =>
    have hrpn : (c.pkts p).retransPacketNumber = 0 := by
      rcases hag with hf | hr | hm
      · exact (h.agrees p hlt hd).number_eq_zero hf
      · exact hr
      · exact absurd hm ha
    refine h.turned ht hn hlt hl (fun a hne => if_neg (Ne.symm hne)) ?_ hrpn
    rw [turnOf, if_pos rfl]
    simp only [Core.turn, Pkt.turn, Prod.mk.injEq] at hp
    simp only [Agrees, hp, hrpn, hz, and_true]
    exact ⟨by decide, trivial, trivial, Nat.zero_le _⟩
  | @again p ht hn hlt hd hf hq hp hl =>
    obtain ⟨hk, -, hz⟩ := (h.agrees p hlt hd).quota hf
    have hroom := hq.resolve_right ho
    refine h.turned ht hn hlt hl (fun a hne => if_neg (Ne.symm hne)) ?_ ⟨_, _, hk, hroom⟩
    rw [turnOf, if_pos rfl, hk]
    simp only [Core.turn, Pkt.turn, Prod.mk.injEq] at hp
    have hrpn : u16add (c.pkts p).retransPacketNumber 1 = (c.pkts p).retransPacketNumber + 1 := by
      rw [u16add, Nat.mod_eq_of_lt (by omega)]
    simp only [Option.map_some, Agrees, hp, hrpn, hz, and_true]
    exact ⟨hf, trivial, trivial, hroom⟩

theorem turns_init (env : Env) : Turns ((SendCtl.init env).core env) := by
  refine ⟨fun p hp => absurd hp (Nat.not_lt_zero p), fun _ _ => rfl, fun e l hs => ?_⟩
  cases List.suffix_nil.1 hs

theorem turnOf_le {log : List Event} (h : ∀ e l, e :: l <:+ log → InTurn l e) (l : List Event)
    (hl : l <:+ log) (ht : turnOf p l = some (need, k)) : k ≤ need := by
  induction l generalizing need k with
  | nil => cases ht
  | cons e l ih =>
    have hI := h e l hl
    have ih : ∀ {need k}, turnOf p l = some (need, k) → k ≤ need :=
      ih ((List.suffix_cons e l).trans hl)
    cases e with
    | newTurn q i rpn need' =>
      simp only [turnOf] at ht
      split at ht
      · injection ht with ht
        injection ht with h₁ h₂
        rw [← h₂]
        exact Nat.zero_le _
      · exact ih ht
    | duplicate q rpn need' =>
      simp only [turnOf] at ht
      split at ht
      next he =>
        obtain ⟨n', k', hk, hlt⟩ := hI
        rw [← he, hk] at ht
        simp only [Option.map_some, Option.some.injEq, Prod.mk.injEq] at ht
        omega
      · exact ih ht
    | _ => exact ih ht

/-- As long as no packet with duplicates is lost again or expires with its quota used up, every turn
starts without duplicates and has at most its quota, all of it if loss detection ends it. -/
theorem turn_quotas (h : Run env (fun s op =>
      s.needs env op .again = false ∧ s.needs env op .overrun = false) s) :
    (∀ l p need k, l <:+ s.log → turnOf p l = some (need, k) → k ≤ need) ∧
      (∀ l p need k, .declared p :: l <:+ s.log → turnOf p l = some (need, k) → k = need) ∧
      ∀ p i rpn need, Event.newTurn p i rpn need ∈ s.log → rpn = 0 := by
  have hI : Turns (s.core env) := by
    refine h.core_invariant (I := Turns) (turns_init env) ?_ ?_
    · intro s op g g' hp hm hS hI
      exact (hm.turnStep hS).turns (by simp [hp.1]) (by simp [hp.2]) hI
    · intro c c' hF _ hI
      exact (hF.turnStep (m := fun _ => False)).turns id id hI
  refine ⟨fun l p need k hl ht => turnOf_le hI.history l hl ht, fun l p need k hl ht => ?_,
    fun p i rpn need he => ?_⟩
  · exact hI.history _ l hl need k ht
  · obtain ⟨pre, l, hl⟩ := List.append_of_mem he
    exact hI.history _ l ⟨pre, hl.symm⟩

end

theorem turn_quotas_of_first : ∃ s, Run quietEnv (fun s op =>
      s.needs quietEnv op .again = false ∧ s.needs quietEnv op .overrun = false) s ∧
    turnOf 0 s.log = some (1, 1) ∧
    ∀ l need k, .declared 0 :: l <:+ s.log → turnOf 0 l = some (need, k) → k = need := by
  obtain ⟨s, hs, ht⟩ : ∃ s, Run quietEnv (fun s op =>
      s.needs quietEnv op .again = false ∧ s.needs quietEnv op .overrun = false) s ∧
      turnOf 0 s.log = some (1, 1) :=
    exists_run (turnsOfPacket [] 4 ++ resend ++ replicate ++ [ackOnly 6]) (by decide +kernel)
  exact ⟨s, hs, ht, fun l need k => (turn_quotas hs).2.1 l 0 need k⟩

/-- The duplicates of the first turn count for the second. -/
theorem second_turn_falls_short : ∃ s l, Reachable quietEnv s ∧ .declared 0 :: l <:+ s.log ∧
    turnOf 0 l = some (4, 3) := by
  obtain ⟨s, hs, hd, ht⟩ : ∃ s, Reachable quietEnv s ∧
      s.log.drop 2 = .declared 0 :: s.log.drop 3 ∧ turnOf 0 (s.log.drop 3) = some (4, 3) :=
    exists_run (turnsOfPacket [4, 7, 11] 13) (by decide +kernel)
  exact ⟨s, s.log.drop 3, hs, hd ▸ List.drop_suffix 2 s.log, ht⟩

end QuicArt
