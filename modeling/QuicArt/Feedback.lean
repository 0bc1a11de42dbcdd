import QuicArt.Flight

namespace QuicArt

def replicaTx (e : PktId × Pkt) : Option Nat :=
  if e.2.fakeLossRec = 1 then some e.2.tx else none

/-- No transmission has two of the samples `ts` or stands for two replicas in flight, and those that
have not been reported have none. -/
structure Sampled (es : List (PktId × Pkt)) (ts : List Nat) (k : Nat) : Prop where
  nodup : ts.Nodup
  old : ∀ t ∈ ts, t < k
  unique : (es.filterMap replicaTx).Nodup
  sent : ∀ t ∈ es.filterMap replicaTx, t < k
  pending : ∀ e ∈ es, e.2.fakeLossRec = 1 → e.2.feedbackRecorded = 0 → e.2.tx ∉ ts

section
variable {A B es : List (PktId × Pkt)} {ts : List Nat} {k : Nat} {e e' : PktId × Pkt}

theorem filterMap_replica (hf : e.2.fakeLossRec = 1) : (A ++ e :: B).filterMap replicaTx =
    A.filterMap replicaTx ++ e.2.tx :: B.filterMap replicaTx := by
  rw [List.filterMap_append, List.filterMap_cons_some (b := e.2.tx)]
  exact if_pos hf

theorem filterMap_other (hf : e.2.fakeLossRec ≠ 1) :
    (A ++ e :: B).filterMap replicaTx = (A ++ B).filterMap replicaTx := by
  have he : replicaTx e = none := if_neg hf
  rw [List.filterMap_append, List.filterMap_cons_none he, List.filterMap_append]

section
variable (hS : Sampled (A ++ e :: B) ts k)
include hS

theorem Sampled.tx_lt (hf : e.2.fakeLossRec = 1) : e.2.tx < k := by
  apply hS.sent
  rw [filterMap_replica hf]
  exact List.mem_append_right _ (.head _)

theorem Sampled.alone (hf : e.2.fakeLossRec = 1)
    (he : e' ∈ A ++ B) (hf' : e'.2.fakeLossRec = 1) : e'.2.tx ≠ e.2.tx := by
  have hu := hS.unique
  rw [filterMap_replica hf, List.perm_middle.nodup_iff] at hu
  intro hx
  apply (List.nodup_cons.1 hu).1
  rw [← hx, ← List.filterMap_append]
  exact List.mem_filterMap.2 ⟨e', he, if_pos hf'⟩

theorem Sampled.sample (hf : e.2.fakeLossRec = 1)
    (hn : e.2.feedbackRecorded = 0) {l : List (PktId × Pkt)}
    (hu : ((A ++ (l ++ B)).filterMap replicaTx).Sublist ((A ++ e :: B).filterMap replicaTx))
    (hl : ∀ e ∈ l, e.2.feedbackRecorded ≠ 0) : Sampled (A ++ (l ++ B)) (e.2.tx :: ts) k := by
  have hnew : e.2.tx ∉ ts :=
    hS.pending e (List.mem_append_right _ (.head _)) hf hn
  refine ⟨List.nodup_cons.2 ⟨hnew, hS.nodup⟩, ?_, hu.nodup hS.unique, fun t ht => ?_, ?_⟩
  · intro t ht
    rcases List.mem_cons.1 ht with rfl | ht
    · exact hS.tx_lt hf
    · exact hS.old t ht
  · exact hS.sent t (hu.subset ht)
  · intro e' he' hf' hn' hm
    have hAB : e' ∈ A ++ B := by
      simp only [List.mem_append] at he' ⊢
      rcases he' with he' | he' | he'
      · exact .inl he'
      · exact absurd hn' (hl e' he')
      · exact .inr he'
    rcases List.mem_cons.1 hm with hx | hm
    · exact hS.alone hf hAB hf' hx
    · refine hS.pending e' ?_ hf' hn' hm
      exact (List.perm_middle.mem_iff).2 (.tail _ hAB)

theorem Sampled.leave : Sampled (A ++ B) ts k := by
  have hsub : (A ++ B).Sublist (A ++ e :: B) :=
    (List.Sublist.refl A).append (List.sublist_cons_self e B)
  have hu := hsub.filterMap replicaTx
  exact ⟨hS.nodup, hS.old, hu.nodup hS.unique, fun t ht => hS.sent t (hu.subset ht),
    fun e' he' => hS.pending e' (hsub.subset he')⟩

theorem Sampled.replace (hx : replicaTx e' = replicaTx e)
    (hp : e'.2.fakeLossRec = 1 → e'.2.feedbackRecorded = 0 → e'.2.tx ∉ ts) :
    Sampled (A ++ e' :: B) ts k := by
  have hm : (A ++ e' :: B).filterMap replicaTx = (A ++ e :: B).filterMap replicaTx := by
    simp only [List.filterMap_append, List.filterMap_cons, hx]
  refine ⟨hS.nodup, hS.old, hm ▸ hS.unique, fun t ht => hS.sent t (hm ▸ ht), ?_⟩
  intro a ha
  rcases List.mem_cons.1 ((List.perm_middle.mem_iff).1 ha) with rfl | ha
  · exact hp
  · exact hS.pending a ((List.perm_middle.mem_iff).2 (.tail _ ha))

end

theorem Sampled.join (hS : Sampled (A ++ B) ts k) (hf : e.2.fakeLossRec ≠ 1) :
    Sampled (A ++ e :: B) ts k := by
  have hm : (A ++ e :: B).filterMap replicaTx = (A ++ B).filterMap replicaTx := filterMap_other hf
  refine ⟨hS.nodup, hS.old, hm ▸ hS.unique, fun t ht => hS.sent t (hm ▸ ht), ?_⟩
  intro a ha hf'
  rcases List.mem_cons.1 ((List.perm_middle.mem_iff).1 ha) with rfl | ha
  · exact absurd hf' hf
  · exact hS.pending a ha hf'

theorem Sampled.launch (hS : Sampled (A ++ B) ts k) (hx : e.2.tx = k) :
    Sampled (A ++ e :: B) ts (k + 1) := by
  have hlt : ∀ t ∈ (A ++ B).filterMap replicaTx, t < k := hS.sent
  have hmem : ∀ t ∈ (A ++ e :: B).filterMap replicaTx, t = k ∨ t ∈ (A ++ B).filterMap
      replicaTx := by
    intro t ht
    obtain ⟨a, ha, hat⟩ := List.mem_filterMap.1 ht
    rcases List.mem_cons.1 ((List.perm_middle.mem_iff).1 ha) with rfl | ha
    · simp only [replicaTx] at hat
      split at hat
      · exact .inl ((Option.some.inj hat).symm.trans hx)
      · cases hat
    · exact .inr (List.mem_filterMap.2 ⟨a, ha, hat⟩)
  refine ⟨hS.nodup, fun t ht => Nat.lt_succ_of_lt (hS.old t ht), ?_, ?_, ?_⟩
  · by_cases hf : e.2.fakeLossRec = 1
    · rw [filterMap_replica hf, List.perm_middle.nodup_iff, ← List.filterMap_append, hx]
      exact List.nodup_cons.2 ⟨fun hk => Nat.lt_irrefl k (hlt k hk), hS.unique⟩
    · rw [filterMap_other hf]
      exact hS.unique
  · intro t ht
    rcases hmem t ht with rfl | ht
    · exact Nat.lt_succ_self _
    · exact Nat.lt_succ_of_lt (hlt t ht)
  · intro a ha hf hn hm
    rcases List.mem_cons.1 ((List.perm_middle.mem_iff).1 ha) with rfl | ha
    · exact Nat.lt_irrefl k (hx ▸ hS.old _ hm)
    · exact hS.pending a ha hf hn hm

/-- No transmission is sampled twice, unless a delivery may be recorded late. -/
theorem FlightStep.sampled {c c' : Core} {m : Kind → Prop} (hF : FlightStep m c c')
    (hl : ¬ m .late) (hS : Sampled c.entries (samples c.log) c.nTotalSent) :
    Sampled c'.entries (samples c'.log) c'.nTotalSent := by
  cases hF with
  | idle hf hk =>
    simp only [Core.ledger, Prod.mk.injEq] at hk
    rw [entries_congr hf, hk.2.2.1, hk.2.2.2]
    exact hS
  | overpay _ hf ht hs =>
    rw [entries_congr hf, ht, hs]
    exact hS
  | @depart _ _ p pk _ he hf _ ht hs =>
    obtain ⟨A, B, hA, hB⟩ := entries_splice [(p, pk)] [] he hf
    rw [hA] at hS
    rw [hB, ht]
    rcases hs with hs | ⟨hs, hk, hr⟩
    · rw [hs]
      exact hS.leave
    · rw [hs]
      refine hS.sample (l := []) hk (hr.resolve_right hl) ?_ (by simp)
      exact ((List.Sublist.refl A).append (List.sublist_cons_self _ B)).filterMap _
  | @lose _ _ p pk _ _ he _ hz hf _ ht hs =>
    obtain ⟨A, B, hA, hB⟩ := entries_splice [(p, pk)] [(c.nextId, Core.recordOf pk)] he hf
    rw [hA] at hS
    rw [hB, ht, hs]
    refine hS.replace rfl fun hk _ => ?_
    exact hS.pending (p, pk) (List.mem_append_right _ (.head _)) hk hz
  | @report _ _ p pk _ he hf hk hn _ ht hs =>
    obtain ⟨A, B, hA, hB⟩ :=
      entries_splice [(p, pk)] [(p, { pk with feedbackRecorded := 1 })] he hf
    rw [hA] at hS
    rw [hB, ht]
    rcases hs with hs | hs
    · rw [hs]
      exact hS.replace rfl nofun
    · rw [hs]
      refine hS.sample (l := [(p, { pk with feedbackRecorded := 1 })]) hk hn ?_ (by simp)
      simp only [List.filterMap_append, List.singleton_append, List.filterMap_cons]
      exact List.Sublist.refl _
  | @poison p pk _ _ hk hf hl =>
    simp only [Core.ledger, Prod.mk.injEq] at hl
    obtain ⟨A, B, hA, hB⟩ := entries_push hf
    rw [hA] at hS
    rw [hB, hl.2.2.1, hl.2.2.2]
    exact hS.join (by simp [hk])
  | @launch p n pk _ _ hx _ hf _ ht hs =>
    obtain ⟨A, B, hA, hB⟩ := entries_push hf
    rw [hA] at hS
    rw [hB, ht, hs]
    exact hS.launch hx

/-- As long as no ACK arrives for a replica whose loss has been reported. -/
theorem samples_count_le_one {env : Env} {s : SendCtl}
    (h : Run env (fun s op => s.needs env op .late = false) s) (tx : Nat) :
    (samples s.log).count tx ≤ 1 := by
  have hI : Sampled (s.core env).entries (samples s.log) (s.core env).nTotalSent := by
    refine h.flight_invariant
      (I := fun c => Sampled c.entries (samples c.log) c.nTotalSent) ?_ ?_
    · exact ⟨.nil, by simp [SendCtl.core, SendCtl.init, samples], .nil,
        fun t ht => absurd ht (List.not_mem_nil), fun e he => absurd he (List.not_mem_nil)⟩
    · intro s op c c' hp hF hc
      exact hF.sampled (by simp [hp]) hc
  exact List.nodup_iff_count_le_one.1 hI.nodup tx

end

theorem samples_of_lost_replica : ∃ s,
    Run quietEnv (fun s op => s.needs quietEnv op .late = false) s ∧ 5 ∈ samples s.log ∧
      (samples s.log).count 5 ≤ 1 := by
  obtain ⟨s, hs, h5⟩ : ∃ s, Run quietEnv (fun s op => s.needs quietEnv op .late = false) s ∧
    5 ∈ samples s.log := exists_run (turnsOfPacket [4] 7) (by decide +kernel)
  exact ⟨s, hs, h5, samples_count_le_one hs 5⟩

/-- The loss of the first replica, number 5, is reported; then its ACK arrives. -/
theorem late_ack_samples_twice : ∃ s, Reachable quietEnv s ∧
    Event.feedback 5 1 false ∈ s.log ∧ Event.feedback 5 0 true ∈ s.log :=
  exists_run (turnsOfPacket [4] 7 ++ [ackOnly 5]) (by decide +kernel)

end QuicArt
