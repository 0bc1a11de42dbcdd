import QuicArt.Flight

namespace QuicArt

namespace SendCtl

/-- The packets in flight: regular packets and the records of lost replicas. -/
def inFlight (s : SendCtl) : List PktId :=
  [Pns.init, .hsk, .app].flatMap fun n => (s.queue (.unacked n)).filter fun p =>
    !(s.pkt p).poison && (!(s.pkt p).lossRec || (s.pkt p).fakeLossRec == 1)

/-- The counters agree with the queues. They are not below zero, so they do not wrap. -/
def Accounts (env : Env) (s : SendCtl) : Prop :=
  s.nInFlightAll = s.inFlight.length ∧
    s.bytesUnackedAll = (s.inFlight.map fun p => (s.pkt p).sentSize env).sum

end SendCtl

def Balanced (c : Core) : Prop :=
  c.nInFlightAll = ((c.entries.map fun e => e.2.units).sum : Nat) ∧
    c.bytesUnackedAll = ((c.entries.map fun e => e.2.load).sum : Nat)

section
variable {c c' : Core} {m : Kind → Prop} {env : Env} {s : SendCtl}

theorem Balanced.congr (hB : Balanced c) (hf : c'.flight = c.flight)
    (hn : c'.nInFlightAll = c.nInFlightAll) (hb : c'.bytesUnackedAll = c.bytesUnackedAll) :
    Balanced c' := by
  rw [Balanced, entries_congr hf, hn, hb]
  exact hB

theorem Balanced.splice (hB : Balanced c) {A B l l' : List (PktId × Pkt)}
    (hA : c.entries = A ++ (l ++ B)) (hA' : c'.entries = A ++ (l' ++ B))
    (hn : c'.nInFlightAll = c.nInFlightAll - ((l.map fun e => e.2.units).sum : Nat) +
      ((l'.map fun e => e.2.units).sum : Nat))
    (hb : c'.bytesUnackedAll = c.bytesUnackedAll - ((l.map fun e => e.2.load).sum : Nat) +
      ((l'.map fun e => e.2.load).sum : Nat)) : Balanced c' := by
  obtain ⟨hB₁, hB₂⟩ := hB
  rw [hA] at hB₁ hB₂
  simp only [List.map_append, List.sum_append] at hB₁ hB₂
  refine ⟨?_, ?_⟩
  · rw [hn, hB₁, hA']
    simp only [List.map_append, List.sum_append]
    omega
  · rw [hb, hB₂, hA']
    simp only [List.map_append, List.sum_append]
    omega

/-- Only an elided replica or a purged record is not counted right. -/
theorem FlightStep.balanced (hF : FlightStep m c c') (he : ¬ m .elide) (hp : ¬ m .purge)
    (hB : Balanced c) : Balanced c' := by
  cases hF with
  | idle hf hl =>
    simp only [Core.ledger, Prod.mk.injEq] at hl
    exact hB.congr hf hl.1 hl.2.1
  | overpay hm => exact absurd hm he
  | @depart _ _ p pk _ hs hf hc =>
    obtain ⟨A, B, hA, hA'⟩ := entries_splice [(p, pk)] [] hs hf
    obtain ⟨hn, hb⟩ := hc.resolve_left hp
    exact hB.splice hA hA' (by simp [hn]) (by simp [hb])
  | @lose _ _ p pk _ _ hs _ _ hf hc =>
    obtain ⟨A, B, hA, hA'⟩ := entries_splice [(p, pk)] [(c.nextId, Core.recordOf pk)] hs hf
    exact hB.splice hA hA' (by simp [hc.1]) (by simp [hc.2])
  | @report _ _ p pk _ hs hf _ _ hc =>
    obtain ⟨A, B, hA, hA'⟩ :=
      entries_splice [(p, pk)] [(p, { pk with feedbackRecorded := 1 })] hs hf
    have hu : Pkt.units { pk with feedbackRecorded := 1 } = pk.units := rfl
    have hl : Pkt.load { pk with feedbackRecorded := 1 } = pk.load := rfl
    exact hB.splice hA hA' (by simp [hc.1, hu]) (by simp [hc.2, hl])
  | @poison p pk _ hpo _ hf hl =>
    simp only [Core.ledger, Prod.mk.injEq] at hl
    obtain ⟨A, B, hA, hA'⟩ := entries_push hf
    obtain ⟨hu, hb⟩ := Pkt.units_of_poison hpo
    exact hB.splice hA hA' (by simp [hl.1, hu]) (by simp [hl.2.1, hb])
  | @launch p n pk _ _ _ _ hf hc =>
    obtain ⟨A, B, hA, hA'⟩ := entries_push hf
    exact hB.splice hA hA' (by simp [hc.1]) (by simp [hc.2])

theorem Run.balanced (h : Run env (fun s op =>
      s.needs env op .elide = false ∧ s.needs env op .purge = false) s) :
        Balanced (s.core env) := by
  apply h.flight_invariant ⟨rfl, rfl⟩
  intro s op c c' hp hF hB
  exact hF.balanced (by simp [hp.1]) (by simp [hp.2]) hB

theorem sum_filter (b : α → Bool) (f : α → Nat) (l : List α) :
    (l.map fun a => if b a then f a else 0).sum = ((l.filter b).map f).sum := by
  induction l with
  | nil => rfl
  | cons a l ih =>
    rw [List.map_cons, List.sum_cons, ih, List.filter_cons]
    split
    · rw [List.map_cons, List.sum_cons]
    · rw [Nat.zero_add]

theorem sum_units (c : Core) (l : List PktId) : (l.map fun p => (c.pkts p).units).sum =
    (l.filter fun p => (c.pkts p).counted).length := by
  have h := sum_filter (fun p => (c.pkts p).counted) (fun _ => 1) l
  rw [List.map_const', List.sum_replicate_nat, Nat.mul_one] at h
  exact h

theorem sum_load (c : Core) (l : List PktId) : (l.map fun p => (c.pkts p).load).sum =
    ((l.filter fun p => (c.pkts p).counted).map fun p => (c.pkts p).body.bytes).sum :=
  sum_filter (fun p => (c.pkts p).counted) (fun p => (c.pkts p).body.bytes) l

theorem balanced_iff (env : Env) (s : SendCtl) : Balanced (s.core env) ↔ s.Accounts env := by
  have hu : ((s.core env).entries.map fun e => e.2.units).sum = s.inFlight.length := by
    simp only [Core.entries, Core.flight, List.map_append, List.map_map, List.sum_append,
      SendCtl.inFlight, List.flatMap_cons, List.flatMap_nil, List.append_nil, List.length_append]
    have hs := sum_units (s.core env)
    exact congrArg₂ _ (hs _) (congrArg₂ _ (hs _) (hs _))
  have hl : ((s.core env).entries.map fun e => e.2.load).sum =
      (s.inFlight.map fun p => (s.pkt p).sentSize env).sum := by
    simp only [Core.entries, Core.flight, List.map_append, List.map_map, List.sum_append,
      SendCtl.inFlight, List.flatMap_cons, List.flatMap_nil, List.append_nil]
    have hs := sum_load (s.core env)
    exact congrArg₂ _ (hs _) (congrArg₂ _ (hs _) (hs _))
  rw [Balanced, hu, hl]
  exact Iff.rfl

def weigh (e : PktId × Pkt) : PktId × Bool × Nat := (e.1, e.2.counted, e.2.load)

theorem FlightStep.shrinks (hF : FlightStep m c c') (hl : ¬ m .lose) (hs : ¬ m .send) :
    (c'.entries.map weigh).Sublist (c.entries.map weigh) := by
  cases hF with
  | idle hf => rw [entries_congr hf]
  | overpay _ hf => rw [entries_congr hf]
  | @depart _ _ p pk _ he hf =>
    obtain ⟨A, B, hA, hA'⟩ := entries_splice [(p, pk)] [] he hf
    rw [hA, hA']
    exact ((List.Sublist.refl A).append (List.sublist_cons_self _ B)).map _
  | lose hm => exact absurd hm hl
  | @report _ _ p pk _ he hf =>
    obtain ⟨A, B, hA, hA'⟩ :=
      entries_splice [(p, pk)] [(p, { pk with feedbackRecorded := 1 })] he hf
    rw [hA, hA']
    simp only [List.map_append]
    exact List.Sublist.refl _
  | poison hm => exact absurd hm hs
  | launch hm => exact absurd hm hs

theorem inFlight_eq (env : Env) (s : SendCtl) : s.inFlight =
    (((s.core env).entries.map weigh).filter fun w => w.2.1).map Prod.fst := by
  have h : ∀ n, (((s.core env).flight n).map weigh |>.filter fun w => w.2.1).map Prod.fst =
      (s.queue (.unacked n)).filter fun p =>
        !(s.pkt p).poison && (!(s.pkt p).lossRec || (s.pkt p).fakeLossRec == 1) := by
    intro n
    simp only [Core.flight, List.map_map, List.filter_map]
    exact List.map_id _
  simp only [SendCtl.inFlight, List.flatMap_cons, List.flatMap_nil, List.append_nil, ← h,
    Core.entries, List.map_append, List.filter_append]

theorem sum_gone {l l' : List PktId} (h : l'.Sublist l) (hn : l.Nodup) (f : PktId → Nat) :
    (l.map f).sum = (l'.map f).sum + ((l.filter (· ∉ l')).map f).sum := by
  induction h with
  | slnil => rfl
  | @cons l' l a hl ih =>
    obtain ⟨ha, hn⟩ := List.nodup_cons.1 hn
    have hna : a ∉ l' := fun hm => ha (hl.subset hm)
    rw [List.filter_cons_of_pos (by simpa using hna), List.map_cons, List.sum_cons, ih hn,
      List.map_cons, List.sum_cons]
    omega
  | @cons_cons l' l a hl ih =>
    obtain ⟨ha, hn⟩ := List.nodup_cons.1 hn
    have hf : (a :: l).filter (· ∉ a :: l') = l.filter (· ∉ l') := by
      rw [List.filter_cons_of_neg (by simp)]
      apply List.filter_congr
      intro b hb
      have hne : b ≠ a := fun he => ha (he ▸ hb)
      simp [hne]
    rw [hf, List.map_cons, List.sum_cons, ih hn, List.map_cons, List.sum_cons]
    omega

theorem Placed.inFlight_nodup (hP : Placed (s.core env) []) : s.inFlight.Nodup := by
  simp only [SendCtl.inFlight, List.nodup_flatMap]
  refine ⟨fun n _ => (hP.nodup (some (.unacked n))).filter _, ?_⟩
  have hd : ∀ n n' : Pns, n ≠ n' → ∀ p, p ∈ s.queue (.unacked n) → p ∈ s.queue (.unacked n') →
      False := by
    intro n n' hne p hp hp'
    have he := hP.uniq p (some (.unacked n)) (some (.unacked n')) hp hp'
    simp only [Option.some.injEq, Queue.unacked.injEq] at he
    exact hne he
  have hdis : ∀ (f : PktId → Bool) (n n' : Pns), n ≠ n' →
      List.Disjoint ((s.queue (.unacked n)).filter f) ((s.queue (.unacked n')).filter f) := by
    intro f n n' hne p hp hp'
    exact hd n n' hne p (List.mem_of_mem_filter hp) (List.mem_of_mem_filter hp')
  simp only [Function.onFun, List.pairwise_cons, List.mem_cons, List.not_mem_nil, or_false]
  refine ⟨?_, ?_, ?_, .nil⟩
  · rintro n (rfl | rfl)
    · exact hdis _ _ _ (by simp)
    · exact hdis _ _ _ (by simp)
  · rintro n rfl
    exact hdis _ _ _ (by simp)
  · simp

end

def Op.drops : Op → Bool
  | .reschedulePackets _ | .emptyPns _ | .stash0rttPackets | .squeezeSched | .dropScheduled
  | .elideStreamFrames _ => true
  | _ => false

section
variable {env : Env} {s : SendCtl} {op : Op}

theorem SendCtl.needs_of_drops (hd : op.drops = true) :
    s.needs env op .lose = false ∧ s.needs env op .send = false := by
  cases op <;> simp_all [Op.drops, SendCtl.needs, SendCtl.losing]

theorem SendCtl.step_shrinks (hS : s.Settled env) (he : s.enabled op = true)
    (hd : op.drops = true) :
    (((s.step env op).core env).entries.map weigh).Sublist ((s.core env).entries.map weigh) := by
  obtain ⟨hl, hs⟩ : s.needs env op .lose = false ∧ s.needs env op .send = false :=
    SendCtl.needs_of_drops hd
  have hR := SendCtl.step_flight hS he
  generalize (s.step env op).core env = c at hR
  induction hR with
  | refl => exact List.Sublist.refl _
  | tail _ hf ih => exact (hf.shrinks (by simp [hl]) (by simp [hs])).trans ih

theorem sentSize_of_shrinks {s s' : SendCtl}
    (h : ((s'.core env).entries.map weigh).Sublist ((s.core env).entries.map weigh)) :
    ∀ p ∈ s'.inFlight, (s'.pkt p).sentSize env = (s.pkt p).sentSize env := by
  intro p hp
  rw [inFlight_eq env] at hp
  simp only [List.mem_map, List.mem_filter] at hp
  obtain ⟨w, ⟨⟨e, he, rfl⟩, hc⟩, rfl⟩ := hp
  obtain ⟨e', he', hw⟩ := List.mem_map.1 (h.subset (List.mem_map_of_mem he))
  have hpk : ∀ {s : SendCtl} {e}, e ∈ (s.core env).entries → e.2 = (s.core env).pkts e.1 := by
    intro s e he
    simp only [Core.entries, Core.flight, List.mem_append, List.mem_map] at he
    rcases he with ⟨a, -, rfl⟩ | ⟨a, -, rfl⟩ | ⟨a, -, rfl⟩ <;> rfl
  have hb : ∀ {e : PktId × Pkt}, e.2.counted = true → e.2.load = e.2.body.bytes := fun hc => by
    rw [Pkt.load, if_pos hc]
  simp only [weigh, Prod.mk.injEq] at hw hc
  have hsz := hw.2.2
  rw [hb hc, hb (hw.2.1.trans hc), hpk he, hpk he', hw.1] at hsz
  exact hsz.symm

/-- If no replica is dropped because elision emptied it, and no space with records of replicas is
emptied, the counters lose exactly what leaves the unacked queues. -/
theorem drops_account (h : Run env (fun s op =>
      s.needs env op .elide = false ∧ s.needs env op .purge = false) s)
    (he : s.enabled op = true)
    (hp : s.needs env op .elide = false ∧ s.needs env op .purge = false)
    (hd : op.drops = true) :
    (s.step env op).inFlight.Sublist s.inFlight ∧
      (s.step env op).nInFlightAll = s.nInFlightAll -
        (s.inFlight.filter (· ∉ (s.step env op).inFlight)).length ∧
      (s.step env op).bytesUnackedAll = s.bytesUnackedAll -
        ((s.inFlight.filter (· ∉ (s.step env op).inFlight)).map
          fun p => (s.pkt p).sentSize env).sum ∧
      (s.step env op).Accounts env := by
  have hna := not_aborted_of_enabled he
  have hS := h.sound hna
  have hsh := SendCtl.step_shrinks hS he hd
  have hA := (balanced_iff env s).1 h.balanced
  have hA' := (balanced_iff env _).1 (Run.step h he hp).balanced
  have hsz := sentSize_of_shrinks hsh
  generalize s.step env op = s' at hsh hA' hsz
  have hsub : s'.inFlight.Sublist s.inFlight := by
    rw [inFlight_eq env s, inFlight_eq env s']
    exact (hsh.filter _).map _
  have hnd := hS.placed.inFlight_nodup
  refine ⟨hsub, ?_, ?_, hA'⟩
  · have hg := sum_gone hsub hnd fun _ => 1
    simp only [List.map_const', List.sum_replicate_nat, Nat.mul_one] at hg
    rw [hA.1, hA'.1, hg]
    omega
  · have hg := sum_gone hsub hnd fun p => (s.pkt p).sentSize env
    have hm : s'.inFlight.map (fun p => (s'.pkt p).sentSize env) =
        s'.inFlight.map fun p => (s.pkt p).sentSize env := List.map_congr_left hsz
    rw [hA.2, hA'.2, hg, hm]
    omega

end

theorem drops_account_of_replica : ∃ s,
    Run quietEnv (fun s op =>
      s.needs quietEnv op .elide = false ∧ s.needs quietEnv op .purge = false) s ∧
      s.inFlight = [6] ∧ (s.step quietEnv (.elideStreamFrames 0)).inFlight = [] ∧
      (s.step quietEnv (.elideStreamFrames 0)).nInFlightAll = s.nInFlightAll - 1 := by
  obtain ⟨s, hs, he, hb, ha⟩ : ∃ s, Run quietEnv (fun s op =>
        s.needs quietEnv op .elide = false ∧ s.needs quietEnv op .purge = false) s ∧
      s.enabled (.elideStreamFrames 0) = true ∧ s.inFlight = [6] ∧
      (s.step quietEnv (.elideStreamFrames 0)).inFlight = [] := exists_run
    (turnsOfPacket [] 4 ++ resend ++ [.artSchedule, .reschedulePackets 1]) (by decide +kernel)
  have hn := (drops_account hs he ⟨rfl, rfl⟩ rfl).2.1
  rw [hb, ha] at hn
  exact ⟨s, hs, hb, ha, hn⟩

/-- The stream of a lost replica is reset before the replica is sent again. -/
theorem elided_replica_wraps : ∃ s, Reachable quietEnv s ∧ s.nInFlightAll < 0 ∧
    s.bytesUnackedAll < 0 := exists_run
  (turnsOfPacket [] 4 ++ [.set (.streamReset 0), .reschedulePackets 1]) (by decide +kernel)

/-- No allocation fails among the calls from one tick to another. -/
def Env.HasMemory (env : Env) (t t' : Nat) : Prop := ∀ x, t ≤ x → x < t' → env.malo x = true

namespace SendCtl

section
variable {env : Env} {s : SendCtl} {p : PktId} {n : Pns}

theorem has_retx_of_stream {b : FtBits} (h : b.has FrameType.stream.bit = true) :
    b.has env.retxFrames = true := by
  simp only [FtBits.has, bne_iff_ne] at h ⊢
  have hm : env.retxFrames &&& FrameType.stream.bit = FrameType.stream.bit := by
    simp only [Env.retxFrames]
    split <;> decide
  intro h0
  apply h
  rw [← hm, ← BitVec.and_assoc, h0, BitVec.zero_and]

theorem disableEcn_tick (s : SendCtl) : s.disableEcn.tick = s.tick := by
  have h : ∀ (l : List PktId) (s : SendCtl),
      (l.foldl (fun s p => s.upd p ({ · with ecn := .notEct })) s).tick = s.tick := by
    intro l
    induction l with
    | nil => exact fun _ => rfl
    | cons a l ih => exact fun s => ih _
  exact h _ _

theorem countLoss_tick (s : SendCtl) (p : PktId) : (s.countLoss p).tick = s.tick := by
  simp only [countLoss]
  split
  · split
    · split
      · exact disableEcn_tick _
      · rfl
    · split
      · exact disableEcn_tick _
      · rfl
  · rfl

theorem updateTurn_inFlight (s : SendCtl) (p : PktId) :
    (s.updateTurn env p).nInFlightAll = s.nInFlightAll ∧
    (s.updateTurn env p).tick = s.tick + 1 := by
  simp only [updateTurn]
  split <;> exact ⟨rfl, rfl⟩

theorem unackedRemove_inFlight (s : SendCtl) (p : PktId) (sz : Nat) :
    (s.unackedRemove env p sz).nInFlightAll = s.nInFlightAll - 1 ∧
      (s.unackedRemove env p sz).tick = s.tick := by
  simp only [unackedRemove]
  split <;> exact ⟨rfl, rfl⟩

theorem moveToLost_inFlight (hl : (s.pkt p).lost = false) (sz : Nat) :
    (s.moveToLost env p sz).nInFlightAll = s.nInFlightAll - 1 := by
  have hn : ((s.unackedRemove env p sz).lostAppend p).nInFlightAll = s.nInFlightAll - 1 :=
    (unackedRemove_inFlight s p sz).1
  simp only [moveToLost, hl, Bool.false_eq_true, ↓reduceIte]
  split
  · exact (updateTurn_inFlight _ p).1.trans hn
  · exact hn

theorem moveToLost_tick (s : SendCtl) (p : PktId) (sz : Nat) :
    s.tick ≤ (s.moveToLost env p sz).tick := by
  have ht : (if (s.pkt p).lost then s else (s.unackedRemove env p sz).lostAppend p).tick =
      s.tick := by
    split
    · rfl
    · exact (unackedRemove_inFlight s p sz).2
  simp only [moveToLost]
  generalize (if (s.pkt p).lost then s else (s.unackedRemove env p sz).lostAppend p) = s' at ht
  split
  · rw [(updateTurn_inFlight _ p).2, ht]
    exact Nat.le_succ _
  · exact ht.ge

theorem recordLoss_tick (s : SendCtl) (p : PktId) : (s.recordLoss env p).1.tick = s.tick + 1 := by
  simp only [recordLoss]
  split
  · split <;> rfl
  · rfl

theorem handleRegularLostPacket_inFlight (hS : s.Settled env)
    (hp : Outstanding env s n p) (hf : (s.pkt p).fakeLossRec = 1)
    (hx : (s.pkt p).frameTypes.has FrameType.stream.bit = true) (next : Option PktId) :
    s.tick < (s.handleRegularLostPacket env p next).1.tick ∧ (env.malo s.tick = true →
      (s.handleRegularLostPacket env p next).1.nInFlightAll = s.nInFlightAll) := by
  obtain ⟨hsc, -, hl, -, -, hr⟩ := hp.facts hS
  have hC : (s.countLoss p).core env = s.core env := core_countLoss s p
  have ht := countLoss_tick s p
  have hpk : ((s.countLoss p).pkt p).core env = (s.pkt p).core env :=
    congrFun (congrArg Core.pkts hC) p
  have hrt : ((s.countLoss p).recordLoss env p).1.tick = (s.countLoss p).tick + 1 :=
    recordLoss_tick (s.countLoss p) p
  simp only [handleRegularLostPacket, has_retx_of_stream hx, ↓reduceIte, hr, Bool.false_eq_true]
  refine ⟨?_, fun hm => ?_⟩
  · rw [ht] at hrt
    exact Nat.lt_of_lt_of_le (hrt.symm ▸ Nat.lt_succ_self _) (moveToLost_tick _ _ _)
  · have hR : ((s.countLoss p).recordLoss env p).1.core env = (s.core env).recordLoss p := by
      rw [core_recordLoss (ht.symm ▸ hm) ((congrArg Pkt.sched hpk).trans hsc), hC]
    generalize ((s.countLoss p).recordLoss env p).1 = s' at hR
    have hself : (s'.core env).pkts p = { (s.core env).pkts p with lossChain := s.nextId } := by
      rw [hR, recordLoss_self _ (hS.placed.on hp.mem)]
      rfl
    have hn : s'.nInFlightAll = s.nInFlightAll + 1 := by
      have h := congrArg Core.nInFlightAll hR
      simp only [Core.recordLoss] at h
      rw [if_pos (show ((s.core env).pkts p).fakeLossRec = 1 from hf)] at h
      exact h
    rw [moveToLost_inFlight ((congrArg Pkt.lost hself).trans hl), hn, Int.add_sub_cancel]

/-- The clock goes on, and the counter stays if no allocation fails meanwhile. -/
def Steady (env : Env) (s s' : SendCtl) : Prop :=
  s.tick ≤ s'.tick ∧ (env.HasMemory s.tick s'.tick → s'.nInFlightAll = s.nInFlightAll)

theorem Steady.trans {s' s'' : SendCtl} (h : Steady env s s') (h' : Steady env s' s'') :
    Steady env s s'' := by
  refine ⟨h.1.trans h'.1, fun hm => ?_⟩
  rw [h'.2 fun x hlo hhi => hm x (h.1.trans hlo) hhi]
  exact h.2 fun x hlo hhi => hm x hlo (hhi.trans_le h'.1)

theorem artScheduleOne_steady (hS : s.Settled env) (hp : p ∈ (s.core env).queue (.unacked n)) :
    Steady env s (s.artScheduleOne env n p).1 := by
  simp only [artScheduleOne]
  split
  next hdue =>
    have hcore : ({ s.ticked with allRetransPacketNum := s.allRetransPacketNum + 1 } :
        SendCtl).core env = s.core env := core_congr rfl
    obtain ⟨hO, -, -, hf, hx⟩ := outstanding_of_due hS hp hdue hcore
    obtain ⟨hlt, hn⟩ := handleRegularLostPacket_inFlight (hS.of_core hcore) hO hf hx
      (nextOf p (s.ticked.queue (.unacked n)))
    exact ⟨(Nat.le_succ _).trans hlt.le, fun hm => hn (hm _ (Nat.le_succ _) hlt)⟩
  · exact ⟨Nat.le_succ _, fun _ => rfl⟩

theorem artSchedulePns_steady (hS : s.Settled env) : Steady env s (s.artSchedulePns env n) := by
  obtain ⟨l, ⟨-, h⟩, -⟩ := scan_rule (fun _ _ => true) (artScheduleOne env n)
    (fun s' l => Looping env (fun _ => True) s n s' l ∧ Steady env s s')
    (fun s' p l ⟨hI, h⟩ _ => by
      have hR := hI.reached hS
      have hH := artScheduleOne_spec (m := fun _ => True) hR.sound hR.mem
        fun _ => admits_anything _
      obtain ⟨l', hl', hsub, hI', -⟩ := hI.step hS hH
      exact ⟨l', hl', hsub.length_le, hI', h.trans (artScheduleOne_steady hR.sound hR.mem)⟩)
    ⟨.start rfl rfl, le_rfl, fun _ => rfl⟩ le_rfl
  exact h

theorem artScheduleAll_steady (l : List Pns) (hS : s.Settled env) :
    Steady env s (l.foldl (artSchedulePns env) s) := by
  induction l generalizing s with
  | nil => exact ⟨le_rfl, fun _ => rfl⟩
  | cons n l ih =>
    have hP : Passed env (fun _ => True) n s (s.artSchedulePns env n) :=
      artSchedulePns_passes hS fun p _ _ => admits_anything _
    exact (artSchedulePns_steady hS).trans (ih (hP.moves.sound hS))

theorem artSchedule_steady (hS : s.Settled env) : Steady env s (s.artSchedule env) := by
  have h : Steady env s ([Pns.init, .hsk, .app].foldl (artSchedulePns env) s) :=
    artScheduleAll_steady _ hS
  simp only [artSchedule]
  generalize [Pns.init, .hsk, .app].foldl (artSchedulePns env) s = s' at h
  split
  · exact h.trans ⟨Nat.le_succ _, fun _ => rfl⟩
  · exact h

end

end SendCtl

section
variable {env : Env} {s : SendCtl}

/-- No lost replica is elided, no records of replicas are purged, and no allocation of
`art_schedule` fails. -/
def artCore (env : Env) (s : SendCtl) (op : Op) : Prop :=
  s.needs env op .elide = false ∧ s.needs env op .purge = false ∧
    (op = .artSchedule → env.HasMemory s.tick (s.step env op).tick)

/-- The counters count the packets in flight, and `art_schedule` leaves them as they are. -/
theorem inFlight_accounts (h : Run env (artCore env) s) :
    s.Accounts env ∧ (s.enabled .artSchedule = true → artCore env s .artSchedule →
      (s.step env .artSchedule).nInFlightAll = s.nInFlightAll) := by
  have hB : Run env (fun s op =>
      s.needs env op .elide = false ∧ s.needs env op .purge = false) s :=
    h.mono fun _ _ hp => ⟨hp.1, hp.2.1⟩
  refine ⟨(balanced_iff env s).1 hB.balanced, ?_⟩
  intro he hp
  have hna := not_aborted_of_enabled he
  have hS : Sound (({ s with artAlarm := none } : SendCtl).core env) [] [] := h.sound hna
  exact (SendCtl.artSchedule_steady hS).2 (hp.2.2 rfl)

end

theorem inFlight_accounts_of_replica : ∃ s, Run quietEnv (artCore quietEnv) s ∧
    s.inFlight = [0] ∧ (s.step quietEnv .artSchedule).inFlight = [6] ∧ s.nInFlightAll = 1 ∧
    (s.step quietEnv .artSchedule).nInFlightAll = 1 := by
  obtain ⟨s, hs, he, hb, ha⟩ : ∃ s, Run quietEnv (fun s op =>
        s.needs quietEnv op .elide = false ∧ s.needs quietEnv op .purge = false) s ∧
      s.enabled .artSchedule = true ∧ s.inFlight = [0] ∧
      (s.step quietEnv .artSchedule).inFlight = [6] :=
    exists_run (turnsOfPacket [] 4 ++ resend) (by decide +kernel)
  have hs : Run quietEnv (artCore quietEnv) s := hs.mono fun _ _ h => ⟨h.1, h.2, fun _ _ _ _ => rfl⟩
  obtain ⟨⟨hn, -⟩, hA⟩ := inFlight_accounts hs
  rw [hb] at hn
  exact ⟨s, hs, hb, ha, hn, (hA he ⟨rfl, rfl, fun _ _ _ _ => rfl⟩).trans hn⟩

def tightEnv : Env := { quietEnv with malo := fun t => t != 22 }

theorem artSchedule_asserts_memory : ∃ s, Reachable tightEnv s ∧ ¬ s.artScheduleAssert tightEnv :=
  exists_run (Q := fun s => u32 (s.artSchedule tightEnv).nInFlightAll ≠ u32 s.nInFlightAll)
    (turnsOfPacket [] 4 ++ resend) (by decide +kernel)

end QuicArt
