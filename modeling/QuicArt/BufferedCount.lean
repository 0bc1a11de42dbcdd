import QuicArt.Reach

namespace QuicArt

namespace Core

def drift (c : Core) (b : BufPacketType) : Int := c.bpqCount b - (c.queue (.buffered b)).length

/-- What few moves touch: the buffered queues with their counters, and the map of the rounds. -/
def aside (c : Core) : (BufPacketType → Int) × (BufPacketType → List PktId) × List Nat :=
  (c.bpqCount, fun b => c.queue (.buffered b), c.rounds)

theorem aside_congr {c c' : Core} (hb : c'.bpqCount = c.bpqCount) (hq : c'.queue = c.queue)
    (hr : c'.rounds = c.rounds) : c'.aside = c.aside := by
  rw [aside, aside, hb, hq, hr]

theorem drift_of_aside {c c' : Core} (h : c'.aside = c.aside) (b : BufPacketType) :
    c'.drift b = c.drift b := by
  have hb : c'.bpqCount b = c.bpqCount b := congrFun (congrArg Prod.fst h) b
  have hq : c'.queue (.buffered b) = c.queue (.buffered b) := congrFun (congrArg (·.2.1) h) b
  rw [drift, drift, hb, hq]

section
variable (c : Core)

@[simp] theorem aside_upd (p : PktId) (f : Pkt → Pkt) : (c.upd p f).aside = c.aside :=
  aside_congr rfl rfl rfl

@[simp] theorem aside_emit (e : Event) : (c.emit e).aside = c.aside := aside_congr rfl rfl rfl

@[simp] theorem aside_alloc (pk : Pkt) : (c.alloc pk).aside = c.aside := aside_congr rfl rfl rfl

@[simp] theorem aside_charge (n sz : Int) : (c.charge n sz).aside = c.aside :=
  aside_congr rfl rfl rfl

@[simp] theorem aside_setQueue {q : Queue} (hq : ∀ b, q ≠ .buffered b) (l : List PktId) :
    (c.setQueue q l).aside = c.aside := by
  have h : ∀ b, (c.setQueue q l).queue (.buffered b) = c.queue (.buffered b) := fun b =>
    Function.update_of_ne (Ne.symm (hq b)) ..
  simp only [aside, h]
  rfl

@[simp] theorem aside_nextPackno : c.nextPackno.aside = c.aside := by
  unfold nextPackno
  split <;> rfl

@[simp] theorem aside_senhistAdd (packno : Int) : (c.senhistAdd packno).aside = c.aside := by
  unfold senhistAdd
  split <;> rfl

@[simp] theorem aside_renumberToRight (p : PktId) :
    (c.renumberToRight p).aside = c.aside := by
  unfold renumberToRight
  split <;> rfl

@[simp] theorem aside_ackIf (p : PktId) (ack : Bool) : (c.ackIf p ack).aside = c.aside := by
  unfold ackIf
  split <;> rfl

@[simp] theorem aside_replicaFeedback (p : PktId) (ok : Bool) :
    (c.replicaFeedback p ok).aside = c.aside := by
  unfold replicaFeedback
  split <;> rfl

@[simp] theorem aside_schedRemove (p : PktId) : (c.schedRemove p).aside = c.aside := by
  simp [schedRemove, remove]

@[simp] theorem aside_schedAppend (p : PktId) : (c.schedAppend p).aside = c.aside := by
  simp [schedAppend, append]

@[simp] theorem aside_unackedRemove (p : PktId) : (c.unackedRemove p).aside = c.aside := by
  simp [unackedRemove, remove]

@[simp] theorem aside_unackedAppend (p : PktId) : (c.unackedAppend p).aside = c.aside := by
  simp [unackedAppend, append]

@[simp] theorem aside_recRemove (n : Pns) (p : PktId) : (c.recRemove n p).aside = c.aside := by
  unfold recRemove
  split <;> simp [remove]

@[simp] theorem aside_recordLoss (p : PktId) : (c.recordLoss p).aside = c.aside := by
  simp only [recordLoss]
  split <;> simp

@[simp] theorem aside_withPoison (packno : Int) (sz : Nat) :
    (c.withPoison packno sz).aside = c.aside := by
  unfold withPoison
  split
  · simp [addPoison, append]
  · rfl

@[simp] theorem aside_takeHead (p : PktId) (body : Body) :
    (c.takeHead p body).aside = c.aside := by
  simp [takeHead]

@[simp] theorem aside_launch (p : PktId) (packno : Int) :
    (c.launch p packno).aside = c.aside := by
  have hL : (c.launch p packno).aside = (((c.senhistAdd packno).upd p ({ · with
      tx := (c.senhistAdd packno).nTotalSent })).unackedAppend p).aside := rfl
  rw [hL]
  simp

@[simp] theorem aside_sendHead (p : PktId) (body : Body) (sz : Nat) :
    (c.sendHead p body sz).aside = c.aside := by
  simp [sendHead]

end

theorem drift_addBpq {c : Core} {b b' : BufPacketType} {l : List PktId} {k : Int}
    (hl : (l.length : Int) = (c.queue (.buffered b')).length + k) :
    ((c.setQueue (.buffered b') l).addBpq b' k).drift b = c.drift b := by
  by_cases hb : b = b'
  · subst hb
    simp only [drift, addBpq, setQueue, Function.update_self, hl]
    omega
  · have hq : Queue.buffered b ≠ .buffered b' := fun he => hb (Queue.buffered.inj he)
    simp only [drift, addBpq, setQueue, Function.update_of_ne hb, Function.update_of_ne hq]

end Core

/-- A move can put the counters of the buffered queues wrong only where that is permitted, and
writes the map of the rounds only when it begins a turn. -/
theorem Move.aside (hm : Move m g g') :
    g'.core.rounds = g.core.rounds ∧ (m .miscount ∨ ∀ b, g'.core.drift b = g.core.drift b) ∨
      (∀ b, g'.core.drift b = g.core.drift b) ∧ g'.core.log.length = g.core.log.length + 1 ∧
        ∃ i, Core.RoundStep i g.core.rounds g'.core.rounds := by
  have hkept : g'.core.aside = g.core.aside →
      g'.core.rounds = g.core.rounds ∧ (m .miscount ∨ ∀ b, g'.core.drift b = g.core.drift b) :=
    fun h => ⟨congrArg (·.2.2) h, .inr (Core.drift_of_aside h)⟩
  cases hm with
  | takeBuffered hp =>
    refine .inl ⟨rfl, .inr fun b => Core.drift_addBpq ?_⟩
    have hl := List.length_pos_of_mem hp
    rw [List.length_erase_of_mem hp]
    omega
  | splitBuffered hm => exact .inl ⟨rfl, .inl hm⟩
  | toBuffered _ _ _ he =>
    refine .inl ⟨rfl, .inr fun b => Core.drift_addBpq ?_⟩
    rw [he]
    simp only [List.length_append, List.length_cons]
    omega
  | purgeBuffered hm => exact .inl ⟨rfl, .inl hm⟩
  | @newTurn _ _ c p _ _ _ _ _ _ _ _ hl =>
    have hd := Core.drift_of_aside
      (c.aside_setQueue (q := .lost) (by simp) (c.queue .lost ++ [p]))
    exact .inr ⟨hd, rfl, _, hl⟩
  | setGap => exact .inl (hkept rfl)
  | reportLoss => exact .inl (hkept rfl)
  | rewind => exact .inl (hkept rfl)
  | reset => exact .inl (hkept rfl)
  | _ =>
    refine .inl (hkept ?_)
    simp [Core.remove, Core.append, Core.lostRemove, Core.lostAppend, Core.duplicate, Core.enqueue,
      Core.renumberHead]

theorem Move.drift (hm : Move m g g') (hk : ¬ m .miscount) (b : BufPacketType) :
    g'.core.drift b = g.core.drift b := by
  rcases hm.aside with ⟨-, h⟩ | ⟨h, -⟩
  · exact h.resolve_left hk b
  · exact h b

theorem SendFails.aside (hF : SendFails c c') : c'.aside = c.aside := by
  cases hF with
  | fails => simp

/-- The counters are right as long as no packet is split when its buffered queue is scheduled and no
space with buffered packets is emptied. -/
theorem bpqCount_eq_length (h : Run env (fun s op => s.needs env op .miscount = false) s)
    (b : BufPacketType) : s.bpqCount.get b = (s.queue (.buffered b)).length := by
  have hd : (s.core env).drift b = 0 := by
    refine h.core_invariant (I := fun c => c.drift b = 0) rfl ?_ ?_
    · intro s op g g' hp hm _ hI
      exact (hm.drift (by simp [hp]) b).trans hI
    · intro c c' hF _ hI
      exact (Core.drift_of_aside hF.aside b).trans hI
  exact Int.sub_eq_zero.1 hd

theorem bpqCount_of_two : ∃ s, Run quietEnv (fun s op => s.needs quietEnv op .miscount = false) s ∧
    (s.queue (.buffered .otherPrio)).length = 2 ∧ s.bpqCount.get .otherPrio = 2 := by
  obtain ⟨s, hs, hl⟩ : ∃ s, Run quietEnv (fun s op => s.needs quietEnv op .miscount = false) s ∧
      (s.queue (.buffered .otherPrio)).length = 2 := exists_run
    [.bufferStreamData .otherPrio 100 0 none { frameTypes := FrameType.stream.bit, dataSz := 1343 },
      .bufferStreamData .otherPrio 100 0 none { frameTypes := FrameType.stream.bit, dataSz := 900 }]
    (by decide +kernel)
  refine ⟨s, hs, hl, ?_⟩
  rw [bpqCount_eq_length hs, hl]
  rfl

def wideEnv : Env :=
  { quietEnv with cwnd := fun _ => 30000000 }

/-- A full packet is buffered with a two-byte number and has to be split. -/
theorem splitting_miscounts : wideEnv.Resizes ∧ ∃ s, Reachable wideEnv s ∧
    s.bpqCount.get .highestPrio ≠ (s.queue (.buffered .highestPrio)).length := by
  refine ⟨quietEnv_resizes, exists_run ?_ ?_⟩
  · exact [.bufferStreamData .highestPrio 100 0 none
        { frameTypes := FrameType.stream.bit, frecs := [⟨.stream, 0, 0, 1343⟩], dataSz := 1343 },
      .scheduleBuffered .highestPrio 10]
  · decide +kernel

end QuicArt
