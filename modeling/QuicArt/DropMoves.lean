import QuicArt.SendMoves

namespace QuicArt

namespace PacketOut

section
variable {victim : FrameRec → Bool} {reset : StreamId → Bool} {pk : PacketOut}

section
variable (hv : ∀ f off, victim { f with off := off } = victim f)
include hv

theorem squash_foldl_left {l : List FrameRec} {st : Squash}
    (hst : ∀ f ∈ st.frecs, f.frameType = .invalid ∨ victim f = false) :
    ∀ f ∈ (l.foldl (Squash.step victim) st).frecs, f.frameType = .invalid ∨ victim f = false := by
  induction l generalizing st with
  | nil => exact hst
  | cons g l ih =>
    apply ih
    intro f hf
    simp only [Squash.step] at hf
    split at hf
    next hg =>
      rcases List.mem_append.1 hf with hf | hf
      · exact hst f hf
      · rw [List.mem_singleton.1 hf]
        exact .inl hg
    · rw [hv] at hf
      split at hf
      · split at hf <;>
        · rcases List.mem_append.1 hf with hf | hf
          · exact hst f hf
          · rw [List.mem_singleton.1 hf]
            exact .inl rfl
      next hg =>
        split at hf <;>
        · rcases List.mem_append.1 hf with hf | hf
          · exact hst f hf
          · rw [List.mem_singleton.1 hf, hv]
            exact .inr (eq_false_of_ne_true hg)

theorem squash_foldl_idle {l : List FrameRec} {st : Squash}
    (hl : ∀ f ∈ l, f.frameType = .invalid ∨ victim f = false) :
    (l.foldl (Squash.step victim) st).dataSz = st.dataSz := by
  induction l generalizing st with
  | nil => rfl
  | cons g l ih =>
    simp only [List.foldl_cons]
    rw [ih fun f hf => hl f (.tail _ hf)]
    simp only [Squash.step, hv]
    rcases hl g (.head _) with hg | hg
    · rw [if_pos hg]
    · simp only [hg, Bool.false_eq_true, if_false]
      split
      · rfl
      · split <;> rfl

theorem squash_squash {pk' : PacketOut} (hf : pk'.frecs = (pk.squash victim).frecs) :
    (pk'.squash victim).dataSz = pk'.dataSz := by
  unfold squash
  apply squash_foldl_idle hv
  rw [hf]
  exact squash_foldl_left hv (by simp)

end

/-- Nothing is left of the packet once the frames of streams that were reset are elided. -/
def elidesToNothing (reset : StreamId → Bool) (pk : PacketOut) : Bool :=
  pk.frameTypes.has FrameType.stream.bit && !pk.mini &&
    decide ((pk.elideResetStreamFrames reset none).1.dataSz ≤ pk.regenSz)

theorem elide_eq (reset : StreamId → Bool) (id : Option StreamId) (pk : PacketOut) :
    ∃ types fin, (pk.elideResetStreamFrames reset id).1 =
      { pk with
        dataSz := (pk.elideResetStreamFrames reset id).1.dataSz
        frecs := (pk.elideResetStreamFrames reset id).1.frecs
        frameTypes := types
        streamEnd := fin } := by
  unfold elideResetStreamFrames
  generalize pk.squash _ = st
  simp only
  split
  · exact ⟨_, _, rfl⟩
  · exact ⟨_, _, rfl⟩

theorem elide_squash (reset : StreamId → Bool) (pk : PacketOut) :
    (pk.elideResetStreamFrames reset none).1.dataSz =
        (pk.squash fun f => f.frameType = .stream && reset f.stream).dataSz ∧
      (pk.elideResetStreamFrames reset none).1.frecs =
        (pk.squash fun f => f.frameType = .stream && reset f.stream).frecs := by
  unfold elideResetStreamFrames
  simp only
  split
  · exact ⟨rfl, rfl⟩
  · exact ⟨rfl, rfl⟩

theorem elidesToNothing_lasting (reset : StreamId → Bool) (pk : PacketOut) :
    pk.lasting.elidesToNothing reset = pk.elidesToNothing reset := by
  simp only [elidesToNothing, (elide_squash reset _).1]
  rfl

theorem elidesToNothing_elide (hs : pk.frameTypes.has FrameType.stream.bit && !pk.mini)
    (h : pk.elidesToNothing reset = false) :
    ((pk.elideResetStreamFrames reset none).1).elidesToNothing reset = false := by
  obtain ⟨types, fin, he⟩ := elide_eq reset none pk
  have hf := (elide_squash reset pk).2
  simp only [elidesToNothing, hs, Bool.true_and, decide_eq_false_iff_not] at h
  simp only [elidesToNothing, Bool.and_eq_false_iff, decide_eq_false_iff_not]
  refine .inr ?_
  rw [(elide_squash reset _).1, squash_squash (fun _ _ => rfl) hf]
  rw [he] at h ⊢
  exact h

end

end PacketOut

namespace SendCtl

/-- No replica on the lost queue is going to be emptied by elision. -/
def Solid (s : SendCtl) : Prop :=
  ∀ p ∈ s.queue .lost, (s.pkt p).fakeLossRec = 1 →
    (s.pkt p).elidesToNothing s.isWriteReset = false

inductive Popped (env : Env) (m : Kind → Prop) (s : SendCtl) : SendCtl × Option PktId → Prop
  | none (hM : Moves m ⟨s.core env, [], []⟩ ⟨s'.core env, [], []⟩) : Popped env m s (s', none)
  | some (hM : Moves m ⟨s.core env, [], []⟩ ⟨s'.core env, [p], []⟩)
      (hd : ((s'.core env).pkts p).data) (hr : ((s'.core env).pkts p).repackno = false)
      (he : m .elide ∨ s'.Solid) : Popped env m s (s', some p)

section
variable {env : Env} {m : Kind → Prop} {s s₀ s₁ s' : SendCtl} {p : PktId} {q : Queue}

theorem Rewritten.queue (hR : Rewritten env s p s') : (s'.core env).queue = (s.core env).queue := by
  obtain ⟨body, hc⟩ := hR
  rw [hc]
  rfl

/-- A loop over a queue may rewrite the packet it visits; then it goes on to the next one. -/
theorem Rewritten.visited (hR : Rewritten env s p s') (hS : Sound (s.core env) h x)
    (hp : p ∈ (s.core env).queue q) (hq : ∀ n, q ≠ .unacked n) :
    Moves m ⟨s.core env, h, x⟩ ⟨s'.core env, h, x⟩ ∧ p ∈ (s'.core env).queue q ∧
      ∀ a, nextOf p (s.queue q) = some a → a ∈ (s'.core env).queue q ∧ a ≠ p := by
  refine ⟨hR.moves (hS.placed.off_unacked hp hq) (hS.placed.data hp hq), ?_⟩
  rw [hR.queue]
  exact ⟨hp, fun a ha => mem_of_nextOf ha (hS.placed.nodup (some q))⟩

structure QueueLoop (env : Env) (m : Kind → Prop) (q : Queue) (s₀ s : SendCtl)
    (next : Option PktId) : Prop where
  moves : Moves m ⟨s₀.core env, [], []⟩ ⟨s.core env, [], []⟩
  cursor : ∀ p ∈ next, p ∈ (s.core env).queue q

theorem QueueLoop.start (s : SendCtl) : QueueLoop env m q s s (s.queue q).head? :=
  ⟨.refl, fun _ ha => List.mem_of_head? ha⟩

theorem dropSchedOne_spec {visit : SendCtl → PktId → SendCtl × Bool} {st : SendCtl × Nat}
    (hv : ∀ s p, Rewritten env s p (visit s p).1) (hS : s₀.Settled env)
    (hI : QueueLoop env m .scheduled s₀ st.1 (some p)) :
    QueueLoop env m .scheduled s₀ (dropSchedOne env visit st p).1.1
      (dropSchedOne env visit st p).2 := by
  have hR := hv st.1 p
  simp only [dropSchedOne]
  generalize visit st.1 p = r at hR
  obtain ⟨hV, hp', hnext⟩ := hR.visited (m := m) (hI.moves.sound hS) (hI.cursor p rfl) (by simp)
  have hM : s₀.Evolves env m r.1 := hI.moves.trans hV
  have hSr : r.1.Settled env := hM.sound hS
  split
  · have hD : Dropped env m r.1 p (r.1.dropSched env p) := dropSched_spec hSr hp'
    refine ⟨hM.trans hD.moves, ?_⟩
    intro a ha
    obtain ⟨hm, hne⟩ := hnext a ha
    exact (hD.keep .scheduled a hne (hSr.placed.sched hm).2.1.1).2 hm
  · exact ⟨hM, fun a ha => (hnext a ha).1⟩

theorem dropSchedLoop_moves {visit : SendCtl → PktId → SendCtl × Bool}
    (hv : ∀ s p, Rewritten env s p (visit s p).1) (hS : s.Settled env) :
    s.Evolves env m (s.dropSchedLoop env visit).1 := by
  obtain ⟨next, hI'⟩ := scan_invariant (fun _ _ => true) (dropSchedOne env visit)
    (fun st next => QueueLoop env m .scheduled s st.1 next)
    (fun st p hI _ => dropSchedOne_spec hv hS hI) (s := (s, 0)) (.start s)
      (s.queue .scheduled).length
  exact hI'.moves

theorem resetPacknos_moves (hm : m .mark) (s : SendCtl) :
    Moves m ⟨s.core env, h, x⟩ ⟨s.resetPacknos.core env, h, x⟩ := by
  rw [core_resetPacknos]
  exact .one (.reset hm)

theorem squeezeVisit_rewrites (s : SendCtl) (p : PktId) :
    Rewritten env s p (squeezeVisit s p).1 := by
  simp only [squeezeVisit]
  split
  · exact .of_core (core_upd_same rfl)
  · exact .of_core rfl

theorem squeezeSched_moves (hm : m .mark) (hS : s.Settled env) :
    s.Evolves env m (s.squeezeSched env) := by
  have hM : s.Evolves env m (s.dropSchedLoop env squeezeVisit).1 :=
    dropSchedLoop_moves squeezeVisit_rewrites hS
  simp only [squeezeSched]
  generalize s.dropSchedLoop env squeezeVisit = r at hM
  split
  · exact hM.trans (resetPacknos_moves hm _)
  · exact hM

theorem dropScheduled_moves (hS : s.Settled env) : s.Evolves env m (s.dropScheduled env) := by
  have hM : s.Evolves env m (s.dropSchedLoop env fun s p => (s, !(s.pkt p).hello)).1 :=
    dropSchedLoop_moves (fun _ _ => .of_core rfl) hS
  simp only [dropScheduled]
  generalize (s.dropSchedLoop env fun s p => (s, !(s.pkt p).hello)) = r at hM
  exact hM.view rfl

theorem core_elideResetStreamFrames (pk : PacketOut) (reset : StreamId → Bool)
    (id : Option StreamId) :
    ((pk.elideResetStreamFrames reset id).1).core env =
      { pk.core env with body := ((pk.elideResetStreamFrames reset id).1.core env).body } := by
  unfold PacketOut.elideResetStreamFrames
  generalize pk.squash _ = st
  simp only
  split
  · rfl
  · rfl

theorem elideVisit_rewrites (id : StreamId) (s : SendCtl) (p : PktId) :
    Rewritten env s p (elideVisit id s p).1 := by
  simp only [elideVisit]
  split
  · apply Rewritten.trans (.of_core (core_congr rfl))
    exact .upd (core_elideResetStreamFrames _ _ _)
  · exact .of_core rfl

theorem core_modifyBpq (s : SendCtl) (b : BufPacketType) (k : Int) :
    ({ s with bpqCount := s.bpqCount.modify b (· + k) } : SendCtl).core env =
      (s.core env).addBpq b k := by
  refine Core.ext rfl rfl rfl (funext fun b' => ?_) rfl rfl rfl rfl rfl rfl rfl rfl
  simp only [core, Core.addBpq, Table.get_modify, Function.update_apply]
  split
  next he => rw [he]
  · rfl

theorem core_bufferedRemove (s : SendCtl) (b : BufPacketType) (p : PktId) :
    (s.bufferedRemove b p).core env = ((s.core env).remove (.buffered b) p).addBpq b (-1) := by
  rw [← core_remove s, ← core_modifyBpq]
  rfl

theorem bufferedRemove_moves (hp : p ∈ (s.core env).queue (.buffered b)) :
    Moves m ⟨s.core env, h, []⟩ ⟨(s.bufferedRemove b p).core env, p :: h, []⟩ := by
  rw [core_bufferedRemove]
  exact .one (.takeBuffered hp)

theorem lossChain_of_buffered (hS : Sound (s.core env) h [])
    (hp : p ∈ (s.core env).queue (.buffered b)) :
    ((s.core env).pkts p).lossChain = p := by
  have hd := (hS.placed.buffered hp).2.1
  obtain ⟨l, hl, -, hB⟩ := hS.chains.chain p ⟨hd, by simp, .inr ⟨_, by simp, hp⟩⟩
  have hnil : l = [] := hB (.inr ⟨b, hp⟩)
  subst hnil
  exact hl.ring.walk

theorem bufferedRemove_pkts :
    ((s.bufferedRemove b p).core env).pkts = (s.core env).pkts := by
  rw [core_bufferedRemove]
  rfl

theorem dropBuffered_moves (hS : s.Settled env) (hp : p ∈ (s.core env).queue (.buffered b)) :
    s.Evolves env m (s.bufferedRemove b p) := by
  have hM : Moves m ⟨s.core env, [], []⟩ ⟨(s.bufferedRemove b p).core env, [p], []⟩ :=
    bufferedRemove_moves hp
  apply hM.trans ((hM.sound hS).free_single _ _)
  · rw [bufferedRemove_pkts]
    exact (hS.placed.buffered hp).2.1
  · rw [bufferedRemove_pkts]
    exact lossChain_of_buffered hS hp

theorem elideBufferedOne_spec {id : StreamId} (hS : s₀.Settled env)
    (hI : QueueLoop env m (.buffered b) s₀ s (some p)) :
    QueueLoop env m (.buffered b) s₀ (elideBufferedOne b id s p).1
      (elideBufferedOne b id s p).2 := by
  have hvisit : ∀ s₁, Rewritten env s p s₁ → Moves m ⟨s.core env, [], []⟩ ⟨s₁.core env, [],
      []⟩ ∧ _ :=
    fun s₁ hR => hR.visited (hI.moves.sound hS) (hI.cursor p rfl) (by simp)
  simp only [elideBufferedOne]
  split
  · have hR : Rewritten env s p (s.upd p fun pk =>
        (pk.elideResetStreamFrames s.isWriteReset (some id)).1) :=
      .upd (core_elideResetStreamFrames _ _ _)
    generalize (s.upd p fun pk => (pk.elideResetStreamFrames s.isWriteReset (some id)).1) = s₁ at hR
    obtain ⟨hV, hp, hnext⟩ := hvisit _ hR
    have hM : s₀.Evolves env m s₁ := hI.moves.trans hV
    split
    · refine ⟨hM.trans (dropBuffered_moves (hM.sound hS) hp), ?_⟩
      intro a ha
      obtain ⟨hm, hne⟩ := hnext a ha
      rw [core_bufferedRemove]
      exact (mem_queue_remove (hM.sound hS).placed).2 ⟨hm, fun he => hne he.2⟩
    · exact ⟨hM, fun a ha => (hnext a ha).1⟩
  · obtain ⟨-, -, hnext⟩ := hvisit s (.of_core rfl)
    exact ⟨hI.moves, fun a ha => (hnext a ha).1⟩

theorem elideBuffered_moves (id : StreamId) (hS : s.Settled env) (b : BufPacketType) :
    s.Evolves env m (elideBuffered id s b) := by
  obtain ⟨next, hI'⟩ := scan_invariant (fun _ _ => true) (elideBufferedOne b id)
    (fun s' next => QueueLoop env m (.buffered b) s s' next)
    (fun s' p hI _ => elideBufferedOne_spec hS hI) (.start s) (s.queue (.buffered b)).length
  exact hI'.moves

theorem foldl_moves {f : SendCtl → α → SendCtl} (l : List α) (hS : s.Settled env)
    (hf : ∀ (s : SendCtl) a, s.Settled env → s.Evolves env m (f s a)) :
    s.Evolves env m (l.foldl f s) := by
  induction l generalizing s with
  | nil => exact .refl
  | cons a l ih =>
    have hM := hf s a hS
    exact hM.trans (ih (hM.sound hS))

theorem elideStreamFrames_moves (hm : m .mark) (hS : s.Settled env) (id : StreamId) :
    s.Evolves env m (s.elideStreamFrames env id) := by
  have hM : s.Evolves env m (s.dropSchedLoop env (elideVisit id)).1 :=
    dropSchedLoop_moves (elideVisit_rewrites id) hS
  simp only [elideStreamFrames]
  generalize s.dropSchedLoop env (elideVisit id) = r at hM
  have hM' : s.Evolves env m (if 0 < r.2 then r.1.resetPacknos else r.1) := by
    split
    · exact hM.trans (resetPacknos_moves hm _)
    · exact hM
  generalize (if 0 < r.2 then r.1.resetPacknos else r.1) = s₁ at hM'
  exact hM'.trans (foldl_moves _ (hM'.sound hS) fun _ b hS => elideBuffered_moves id hS b)

theorem core_popLost (s : SendCtl) (p : PktId) :
    ((s.lostRemove p).upd p ({ · with lost := false })).core env = (s.core env).lostRemove p := by
  rw [Core.lostRemove, ← core_lostRemove]
  exact core_upd rfl

theorem core_popLostPacket (s : SendCtl) (p : PktId) :
    (s.popLostPacket p).core env = (s.core env).lostRemove p := by
  rw [Core.lostRemove, ← core_lostRemove]
  exact core_upd rfl

theorem Solid.frame (h : s.Solid) (hw : s'.writeReset = s.writeReset)
    (hl : ∀ a ∈ s'.queue .lost, (s'.pkt a).fakeLossRec = 1 →
      a ∈ s.queue .lost ∧ (s'.pkt a).lasting = (s.pkt a).lasting) : s'.Solid := by
  intro a ha hf
  obtain ⟨ha', hk⟩ := hl a ha hf
  have hr : s'.isWriteReset = s.isWriteReset := by
    unfold isWriteReset
    rw [hw]
  rw [hr, PacketOut.congr_lasting (f := (·.elidesToNothing s.isWriteReset)) hk
    (PacketOut.elidesToNothing_lasting _)]
  apply h a ha'
  rw [← hf]
  exact (PacketOut.congr_lasting (f := (·.fakeLossRec)) hk fun _ => rfl).symm

theorem Solid.same (h : s.Solid)
    (hv : (s'.pkts, s'.queues, s'.writeReset) = (s.pkts, s.queues, s.writeReset)) : s'.Solid := by
  simp only [Prod.mk.injEq] at hv
  obtain ⟨hp, hq, hw⟩ := hv
  apply h.frame hw
  intro a ha _
  simp only [queue, pkt, hq, hp] at ha ⊢
  exact ⟨ha, trivial⟩

theorem mem_lost_popLostPacket (ha : a ∈ (s.popLostPacket p).queue .lost)
    (hn : (s.queue .lost).Nodup) :
    a ≠ p ∧ a ∈ s.queue .lost := by
  have ha' : a ∈ (s.queue .lost).erase p := by
    simpa [popLostPacket, lostRemove, queue, setQueue, upd] using ha
  exact (List.Nodup.mem_erase_iff hn).1 ha'

theorem Solid.popLostPacket (h : s.Solid) (hn : (s.queue .lost).Nodup) :
    (s.popLostPacket p).Solid := by
  apply h.frame (by rfl)
  intro a ha _
  obtain ⟨hne, ha'⟩ := mem_lost_popLostPacket ha hn
  refine ⟨ha', ?_⟩
  have hpk : (s.popLostPacket p).pkt a = s.pkt a := by
    simp only [SendCtl.popLostPacket, pkt_upd, if_neg hne]
    rfl
  rw [hpk]

theorem popLostPacket_spec (hm : m .append) (hS : s.Settled env) (hp : p ∈ (s.core env).queue .lost)
    (he : m .elide ∨ s.Solid) :
    Popped env m s (s.popLostPacket p, some p) := by
  have hc : (s.popLostPacket p).core env = (s.core env).lostRemove p := core_popLostPacket s p
  obtain ⟨-, hd, hr, -⟩ := hS.placed.lost hp
  apply Popped.some
  · rw [hc]
    exact .one (.takeLost hm hp)
  · rw [hc, Core.lostRemove, upd_self]
    exact hd
  · rw [hc, Core.lostRemove, upd_self]
    exact hr
  · exact he.imp_right fun h => h.popLostPacket (hS.placed.nodup (some .lost))

def dropLost (env : Env) (s : SendCtl) (p : PktId) : SendCtl :=
  (((s.lostRemove p).upd p ({ · with lost := false })).destroyChain env p none).1

theorem dropLost_spec (hm : m .append) (hS : s.Settled env)
    (hp : p ∈ (s.core env).queue .lost) : Dropped env m s p (s.dropLost env p) := by
  have hc : ((s.lostRemove p).upd p ({ · with lost := false })).core env =
      (s.core env).lostRemove p := core_popLost s p
  have hd := (hS.placed.lost hp).2.1
  rw [dropLost]
  generalize (s.lostRemove p).upd p ({ · with lost := false }) = s₁ at hc
  apply dropInHand_spec hS
  · rw [hc]
    exact .one (.takeLost hm hp)
  · rw [hc, Core.lostRemove, upd_self]
    exact hd
  · intro q a hne
    rw [hc]
    exact (mem_queue_remove hS.placed).trans (and_iff_left fun h => hne h.2)
  · intro a
    rw [hc, Core.lostRemove, upd_pkts]
    split <;> rfl

theorem dropLost_spares (s : SendCtl) (p a : PktId) : Spares a s (s.dropLost env p) := by
  have hR : Spares a s (s.lostRemove p) := .same rfl
  have hU : Spares a s ((s.lostRemove p).upd p ({ · with lost := false })) :=
    hR.trans (.touch _ p fun _ => rfl)
  exact hU.trans (destroyChain_spares _ p none)

theorem Solid.drop (h : s.Solid) (hS : s.Settled env) (hD : Dropped env m s p s')
    (hK : ∀ a, Spares a s s') :
    s'.Solid := by
  apply h.frame (congrArg (·.2.2.2.2.2.2.1) (hK p).steady)
  intro a ha _
  have ha' : a ∈ s.queue .lost := (hD.left .lost (by simp) a ha).2
  exact ⟨ha', lasting_of_spares hK (hS.placed.on ha')⟩

theorem Popped.after {r : SendCtl × Option PktId} (hM : s.Evolves env m s')
    (hP : Popped env m s' r) :
    Popped env m s r := by
  cases hP with
  | none hM' => exact .none (hM.trans hM')
  | some hM' hd hr he => exact .some (hM.trans hM') hd hr he

theorem piece_fresh (s : SendCtl) (victim : PktId) (c : Content) :
    ((s.piece env victim c).core env).Fresh s.nextId :=
  ⟨rfl, ⟨rfl, rfl⟩, ⟨rfl, rfl, rfl⟩, rfl, rfl, ⟨rfl, rfl, rfl⟩, rfl⟩

structure Loose (c : Core) (p : PktId) : Prop where
  data : (c.pkts p).data
  numbered : (c.pkts p).repackno = false
  alone : (c.pkts p).lossChain = p

theorem Loose.fresh {c : Core} {pk : Pkt} (hpk : pk.Fresh c.nextId) :
    Loose (c.alloc pk) c.nextId := by
  constructor
  · rw [alloc_pkts_next]
    exact hpk.data
  · rw [alloc_pkts_next]
    exact hpk.repackno
  · rw [alloc_pkts_next]
    exact hpk.chain

theorem insertLostPiece_moves (hm : m .alloc) (hp : p ∈ (s.core env).queue .lost) (c : Content) :
    Moves m ⟨s.core env, h, []⟩ ⟨(insertLostPiece env p s c).core env, h, []⟩ ∧
      p ∈ ((insertLostPiece env p s c).core env).queue .lost := by
  obtain ⟨pre, suf, he, hn⟩ := List.eq_append_cons_of_mem hp
  have hc : (insertLostPiece env p s c).core env =
      (((s.core env).alloc ((s.piece env p c).core env)).setQueue .lost
        (pre ++ s.nextId :: p :: suf)).upd s.nextId ({ · with lost := true }) := by
    simp only [insertLostPiece]
    rw [core_upd (g := ({ · with lost := true })) rfl, core_setQueue _, core_alloc,
      ← insertBefore_split hn, ← he]
    rfl
  rw [hc]
  have hF : ((s.piece env p c).core env).Fresh s.nextId := piece_fresh s p c
  have hL : Loose ((s.core env).alloc ((s.piece env p c).core env)) s.nextId := .fresh hF
  refine ⟨.snoc (.one (.fresh hm hF)) (.toLost hL.data hL.numbered he), ?_⟩
  simp [Core.upd, Core.setQueue]

theorem insertLostPiece_pkt (s : SendCtl) (p a : PktId) (c : Content) :
    (insertLostPiece env p s c).pkt a =
      if a = s.nextId then { s.piece env p c with lost := true } else s.pkt a := by
  have hA : ((s.ticked.alloc (s.piece env p c)).setQueue .lost
      (insertBefore p s.nextId (s.queue .lost))).pkt a =
      if a = s.nextId then s.piece env p c else s.pkt a := Table.get_set _ _ _ _
  apply (pkt_upd _ _ _ _).trans
  split
  next he =>
    apply (congrArg ({ · with lost := true } : PacketOut → PacketOut) hA).trans
    rw [if_pos he]
  next hne =>
    apply hA.trans
    rw [if_neg hne]

theorem Solid.insertLostPiece (h : s.Solid) (hp : p ∈ s.queue .lost) (c : Content) :
    (insertLostPiece env p s c).Solid := by
  apply h.frame (by rfl)
  intro a ha hf
  rw [insertLostPiece_pkt] at hf ⊢
  split at hf
  · cases hf
  next hne =>
    rw [if_neg hne]
    have ha' : a ∈ insertBefore p s.nextId (s.queue .lost) := by
      have hq : (SendCtl.insertLostPiece env p s c).queue .lost =
          insertBefore p s.nextId (s.queue .lost) := (Table.get_set _ _ _ _).trans (if_pos rfl)
      rw [← hq]
      exact ha
    exact ⟨((mem_insertBefore hp).1 ha').resolve_left hne, rfl⟩

theorem insertLostPieces_moves (hm : m .alloc) (pieces : List Content)
    (hp : p ∈ (s.core env).queue .lost) (he : m .elide ∨ s.Solid) :
    Moves m ⟨s.core env, h, []⟩ ⟨(pieces.foldl (insertLostPiece env p) s).core env, h, []⟩ ∧
      p ∈ ((pieces.foldl (insertLostPiece env p) s).core env).queue .lost ∧
      (m .elide ∨ (pieces.foldl (insertLostPiece env p) s).Solid) := by
  induction pieces generalizing s with
  | nil => exact ⟨.refl, hp, he⟩
  | cons c pieces ih =>
    obtain ⟨hM, hp'⟩ := insertLostPiece_moves (m := m) (h := h) hm hp c
    obtain ⟨hM', hp''⟩ := ih hp' (he.imp_right fun h => h.insertLostPiece hp c)
    exact ⟨hM.trans hM', hp''⟩

theorem splitLostPacket_moves (hm : m .append) (ha : m .alloc) (hS : s.Settled env)
    (hp : p ∈ (s.core env).queue .lost) (he : m .elide ∨ s.Solid) :
    s.Evolves env m (s.splitLostPacket env p).1 ∧
      (m .elide ∨ (s.splitLostPacket env p).1.Solid) := by
  have he' : m .elide ∨ s.ticked.Solid := he.imp_right fun h => h.same rfl
  obtain ⟨hM, hp', he''⟩ := insertLostPieces_moves (h := []) (s := s.ticked) ha
    (s.resizeOne env p).1 hp he'
  simp only [splitLostPacket]
  generalize List.foldl (insertLostPiece env p) s.ticked _ = s₁ at hM hp' he''
  split
  · exact ⟨hM, he''⟩
  · have hS₁ : s₁.Settled env := hM.sound hS
    have hD : Dropped env m s₁ p (s₁.dropLost env p) := dropLost_spec hm hS₁ hp'
    exact ⟨hM.trans hD.moves, he''.imp_right fun h => h.drop hS₁ hD (dropLost_spares s₁ p)⟩

theorem core_regularCanSend (s : SendCtl) : (s.regularCanSend env).1.core env = s.core env := by
  simp only [regularCanSend]
  split
  · split
    · exact core_congr rfl
    · split
      · exact core_congr rfl
      · exact core_congr rfl
  · exact core_congr rfl

theorem core_canSend (s : SendCtl) : (s.canSend env).1.core env = s.core env := by
  simp only [canSend]
  split
  · exact core_congr rfl
  · exact core_regularCanSend s

theorem Solid.canSend (h : s.Solid) : (s.canSend env).1.Solid := by
  simp only [SendCtl.canSend, regularCanSend]
  repeat' split
  all_goals exact h.same rfl

theorem elideLost_rewrites (s : SendCtl) (p : PktId) : Rewritten env s p (s.elideLost p) := by
  simp only [elideLost]
  split
  · exact .upd (core_elideResetStreamFrames _ _ _)
  · exact .of_core rfl

theorem Solid.elideLost (h : s.Solid) (hp : p ∈ s.queue .lost) : (s.elideLost p).Solid := by
  simp only [SendCtl.elideLost]
  split
  next hs =>
    intro a ha hf
    rw [pkt_upd] at hf ⊢
    split at hf
    next he =>
      rw [if_pos he, he]
      rw [he] at hf
      apply PacketOut.elidesToNothing_elide hs (h p hp _)
      obtain ⟨types, fin, hpk⟩ := PacketOut.elide_eq s.isWriteReset none (s.pkt p)
      rw [hpk] at hf
      exact hf
    next hne =>
      rw [if_neg hne]
      exact h a ha hf
  · exact h

theorem core_elideTwice (s : SendCtl) (sz : Nat) :
    ({ s with
      nInFlightAll := s.nInFlightAll - 1
      bytesUnackedAll := s.bytesUnackedAll - sz } : SendCtl).core env =
      (s.core env).charge (-1) (-sz) :=
  rfl

theorem dropElidedLost_spec (hm : m .append) (hS : s.Settled env)
    (hp : p ∈ (s.core env).queue .lost) (he : (s.pkt p).fakeLossRec = 1 → m .elide) :
    Dropped env m s p (s.dropElidedLost env p) ∧ ∀ a, Spares a s (s.dropElidedLost env p) := by
  have hD : Dropped env m s p (s.dropLost env p) := dropLost_spec hm hS hp
  have hK : ∀ a, Spares a s (s.dropLost env p) := dropLost_spares s p
  rw [dropElidedLost, ← dropLost]
  generalize s.dropLost env p = s₂ at hD hK
  split
  next hf =>
    have hpk : (s₂.pkt p).lasting = (s.pkt p).lasting :=
      lasting_of_spares hK (hS.placed.on hp)
    rw [PacketOut.congr_lasting (f := (·.fakeLossRec)) hpk fun _ => rfl] at hf
    refine ⟨⟨?_, ?_, ?_⟩, fun a => (hK a).view rfl⟩
    · rw [core_elideTwice]
      exact hD.moves.snoc (.elideTwice (he hf))
    · rw [core_elideTwice]
      exact hD.keep
    · rw [core_elideTwice]
      exact hD.left
  · exact ⟨hD, hK⟩

theorem takeLost_spec (hm : m .append) (ha : m .alloc) (hS : s.Settled env)
    (hp : p ∈ (s.core env).queue .lost) (he : m .elide ∨ s.Solid) :
    Popped env m s (match s.splitLostPacket env p with
      | (s, true) =>
        match (s.queue .lost).head? with
        | some first => (s.popLostPacket first, some first)
        | none => (s, none)
      | (s, false) => (s, none)) := by
  obtain ⟨hM, he'⟩ : s.Evolves env m (s.splitLostPacket env p).1 ∧
      (m .elide ∨ (s.splitLostPacket env p).1.Solid) :=
    splitLostPacket_moves hm ha hS hp he
  generalize s.splitLostPacket env p = r at hM he'
  obtain ⟨s₁, ok⟩ := r
  cases ok with
  | false => exact .none hM
  | true =>
    simp only
    split
    next first hf =>
      exact .after hM (popLostPacket_spec hm (hM.sound hS) (List.mem_of_head? hf) he')
    · exact .none hM

theorem elide_of_emptied (he : m .elide ∨ s.Solid) (hp : p ∈ s.queue .lost)
    (hs : (s.pkt p).frameTypes.has FrameType.stream.bit && !(s.pkt p).mini)
    (hd : ((s.elideLost p).pkt p).dataSz ≤ ((s.elideLost p).pkt p).regenSz) :
    ((s.elideLost p).pkt p).fakeLossRec = 1 → m .elide := by
  obtain ⟨types, fin, hpk⟩ := PacketOut.elide_eq s.isWriteReset none (s.pkt p)
  have hE : (s.elideLost p).pkt p = ((s.pkt p).elideResetStreamFrames s.isWriteReset none).1 := by
    simp only [elideLost, hs, if_true, pkt_upd_self]
  intro hf
  rw [hE, hpk] at hf
  rcases he with he | he
  · exact he
  · apply absurd (he p hp hf)
    rw [hE] at hd
    have hr : ((s.pkt p).elideResetStreamFrames s.isWriteReset none).1.regenSz =
        (s.pkt p).regenSz := by
      rw [hpk]
    rw [hr] at hd
    simp [PacketOut.elidesToNothing, hs, hd]

theorem nextLostLoop_spec (hm : m .append) (ha : m .alloc) (hS : s.Settled env) (n : Nat)
    (hp : ∀ p ∈ next, p ∈ (s.core env).queue .lost) (he : m .elide ∨ s.Solid) :
    Popped env m s (nextLostLoop env n s next) := by
  induction n generalizing s next with
  | zero => exact .none .refl
  | succ n ih =>
    cases next with
    | none => exact .none .refl
    | some p =>
      have hp := hp p rfl
      have hR : Rewritten env s p (s.elideLost p) := elideLost_rewrites s p
      have he₁ : m .elide ∨ (s.elideLost p).Solid := he.imp_right fun h => h.elideLost hp
      have hfake := elide_of_emptied he hp
      simp only [nextLostLoop]
      generalize s.elideLost p = s₁ at hR he₁ hfake
      obtain ⟨hM, hp, hnext⟩ := hR.visited (m := m) hS hp (by simp)
      have hS₁ : s₁.Settled env := hM.sound hS
      apply Popped.after hM
      split
      next hd =>
        simp only [Bool.and_eq_true, decide_eq_true_eq] at hd
        obtain ⟨hD, hK⟩ : Dropped env m s₁ p (s₁.dropElidedLost env p) ∧
            ∀ a, Spares a s₁ (s₁.dropElidedLost env p) :=
          dropElidedLost_spec hm hS₁ hp (hfake (by simp [hd.1]) hd.2)
        apply Popped.after hD.moves
        refine ih (hD.moves.sound hS₁) ?_ (he₁.imp_right fun h => h.drop hS₁ hD hK)
        intro a ha
        obtain ⟨hm, hne⟩ := hnext a ha
        exact (hD.keep .lost a hne (hS₁.placed.lost hm).2.1.1).2 hm
      · generalize hr : (if (s₁.pkt p).fakeLossRec ≠ 0 ∧ 0 < (s₁.pkt p).retransPacketNumber then
          (s₁, true) else s₁.canSend env) = r
        obtain ⟨hc, he₂⟩ : r.1.core env = s₁.core env ∧ (m .elide ∨ r.1.Solid) := by
          rw [← hr]
          split
          · exact ⟨rfl, he₁⟩
          · exact ⟨core_canSend s₁, he₁.imp_right Solid.canSend⟩
        have hM' : s₁.Evolves env m r.1 := .of_core .refl hc
        have hS' : r.1.Settled env := hM'.sound hS₁
        rw [← hc] at hp hnext
        apply Popped.after hM'
        split
        · exact ih hS' (fun a ha => (hnext a ha).1) he₂
        · split
          · exact popLostPacket_spec hm hS' hp he₂
          · exact takeLost_spec hm ha hS' hp he₂

theorem reschedule_moves (hm : m .append) (ht : Tidy m (s.core env))
    (hd : ((s.core env).pkts p).data) (hr : ((s.core env).pkts p).repackno = false) :
    Moves m ⟨s.core env, [p], []⟩ ⟨(s.reschedule env p).core env, [], []⟩ := by
  obtain ⟨body, hc⟩ : ∃ body, (s.updateForResending p).core env =
      (s.core env).nextPackno.upd p ({ · with
        packno := (s.core env).nextPackno.curPackno, body := body }) := core_updateForResending s p
  simp only [reschedule]
  generalize hs₁ : ((s.updateForResending p).upd p ({ · with retransNo :=
      if (s.pkt p).retransNo ≠ 0 then (s.pkt p).retransNo else (s.pkt p).packno })).scheduledOne env
        p = s₁
  have hE : s₁.core env = (s.core env).enqueue p body ((s.core env).pkts p).mtuProbe := by
    rw [← hs₁]
    apply core_enqueue
    rw [core_upd_same rfl, hc]
    apply Core.upd_congr
    rw [nextPackno_pkts]
  have hM : Moves m ⟨s.core env, [p], []⟩ ⟨s₁.core env, [], []⟩ := by
    rw [hE]
    exact .one (.enqueue hm ht hd hr (.inl rfl))
  split
  · exact hM.view rfl
  · exact hM

theorem updateForResending_spares (s : SendCtl) (p : PktId) :
    Spares p s (s.updateForResending p) ∧ (s.updateForResending p).queues = s.queues := by
  have hN : Spares p s s.nextPackno ∧ s.nextPackno.queues = s.queues := by
    simp only [nextPackno]
    split <;> exact ⟨.same rfl, rfl⟩
  have hU : ∀ f, Spares p s (s.nextPackno.upd p f) ∧ (s.nextPackno.upd p f).queues = s.queues :=
    fun f => ⟨hN.1.trans (.write _ _), hN.2⟩
  simp only [updateForResending]
  generalize hs₁ : s.nextPackno.upd p _ = s₁
  obtain ⟨hS, hq⟩ := hs₁ ▸ hU _
  split
  · split
    · have hV : Spares p s { s₁ with
        bytesScheduled := s₁.bytesScheduled - (s₁.pkt p).regenSz } := hS.view rfl
      exact ⟨hV.trans (.write _ _), hq⟩
    · exact ⟨hS.trans (.write _ _), hq⟩
  · exact ⟨hS, hq⟩

theorem schedAppend_spares (s : SendCtl) (a : PktId) :
    Spares p s (s.schedAppend env a) ∧ (s.schedAppend env a).queue .lost = s.queue .lost := by
  have hQ : Spares p s (s.setQueue .scheduled (s.queue .scheduled ++ [a])) := .same rfl
  refine ⟨(hQ.trans (.touch _ a (f := ({ · with sched := true })) fun _ => rfl)).view rfl, ?_⟩
  exact (Table.get_set _ _ _ _).trans (if_neg (by simp))

theorem reschedule_spares (s : SendCtl) (p : PktId) :
    Spares p s (s.reschedule env p) ∧ (s.reschedule env p).queue .lost = s.queue .lost := by
  have rearm : ∀ s₁ r : SendCtl, Spares p s s₁ → s₁.queue .lost = s.queue .lost →
      (if (s₁.pkt p).frameTypes ≠ FrameType.padding.bit ∧
        (s₁.pkt p).frameTypes.has FrameType.stream.bit ∧ s₁.artAlarm = none then
        { s₁.ticked with artAlarm := some (env.timeNow s₁.tick + 1) } else s₁) = r →
      Spares p s r ∧ r.queue .lost = s.queue .lost := by
    rintro s₁ r hS hq rfl
    split
    · exact ⟨hS.view rfl, hq⟩
    · exact ⟨hS, hq⟩
  obtain ⟨hU, hq⟩ := updateForResending_spares s p
  obtain ⟨hA, hqA⟩ := @schedAppend_spares env p ((s.updateForResending p).upd p
      ({ · with retransNo :=
      if (s.pkt p).retransNo ≠ 0 then (s.pkt p).retransNo else (s.pkt p).packno })) p
  apply rearm _ _ ((hU.trans (.write _ _)).trans hA) (hqA.trans _) rfl
  rw [queue, queue, ← hq]
  rfl

theorem Solid.reschedule (h : s.Solid) (hS : Sound (s.core env) [p] []) :
    (s.reschedule env p).Solid := by
  obtain ⟨hK, hq⟩ : Spares p s (s.reschedule env p) ∧
      (s.reschedule env p).queue .lost = s.queue .lost := reschedule_spares s p
  apply h.frame (congrArg (·.2.2.2.2.2.2.1) hK.steady)
  intro a ha _
  rw [hq] at ha
  refine ⟨ha, hK.lasting a ?_ (hS.placed.on ha)⟩
  rintro rfl
  cases hS.placed.uniq a none (some .lost) (List.mem_singleton.2 rfl) ha

theorem reschedulePackets_moves (hm : m .append) (ha : m .alloc) (hk : ¬ m .mark ∧ ¬ m .resize)
    (ht : Tidy m (s.core env)) (hS : s.Settled env) (he : m .elide ∨ s.Solid) (rounds : Nat) :
    s.Evolves env m (reschedulePackets env rounds s) := by
  induction rounds generalizing s with
  | zero => exact .refl
  | succ n ih =>
    have hP : Popped env m s (s.nextLost env) :=
      nextLostLoop_spec hm ha hS _ (fun _ ha => List.mem_of_head? ha) he
    simp only [reschedulePackets]
    generalize s.nextLost env = r at hP
    cases hP with
    | none hM => exact hM
    | some hM hd hr he' =>
      have hM' := hM.trans (reschedule_moves hm (hM.tidy hk hS.placed ht) hd hr)
      exact hM'.trans (ih (hM'.tidy hk hS.placed ht) (hM'.sound hS)
        (he'.imp_right fun h => h.reschedule (hM.sound hS)))

end

end SendCtl

end QuicArt
