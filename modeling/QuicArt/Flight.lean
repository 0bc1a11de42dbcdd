import QuicArt.Reach

namespace QuicArt

def Event.sample : Event → Option Nat
  | .feedback tx _ _ => some tx
  | _ => none

def samples (log : List Event) : List Nat := log.filterMap Event.sample

def Pkt.counted (pk : Pkt) : Bool := !pk.poison && (!pk.lossRec || pk.fakeLossRec == 1)

def Pkt.units (pk : Pkt) : Nat := if pk.counted then 1 else 0

def Pkt.load (pk : Pkt) : Nat := if pk.counted then pk.body.bytes else 0

namespace Core

def flight (c : Core) (n : Pns) : List (PktId × Pkt) :=
  (c.queue (.unacked n)).map fun p => (p, c.pkts p)

def entries (c : Core) : List (PktId × Pkt) := c.flight .init ++ (c.flight .hsk ++ c.flight .app)

def ledger (c : Core) : Int × Int × Nat × List Nat :=
  (c.nInFlightAll, c.bytesUnackedAll, c.nTotalSent, samples c.log)

end Core

inductive FlightStep (m : Kind → Prop) (c c' : Core) : Prop
  | idle (hf : c'.flight = c.flight) (hl : c'.ledger = c.ledger)
  | overpay (hm : m .elide) (hf : c'.flight = c.flight) (ht : c'.nTotalSent = c.nTotalSent)
      (hs : samples c'.log = samples c.log)
  | depart (he : c.flight n = pre ++ (p, pk) :: suf)
      (hf : c'.flight = Function.update c.flight n (pre ++ suf))
      (hc : m .purge ∨ c'.nInFlightAll = c.nInFlightAll - pk.units ∧
        c'.bytesUnackedAll = c.bytesUnackedAll - pk.load)
      (ht : c'.nTotalSent = c.nTotalSent)
      (hs : samples c'.log = samples c.log ∨ samples c'.log = pk.tx :: samples c.log ∧
        pk.fakeLossRec = 1 ∧ (pk.feedbackRecorded = 0 ∨ m .late))
  | lose (hm : m .lose) (he : c.flight n = pre ++ (p, pk) :: suf) (hd : pk.data)
      (hz : pk.feedbackRecorded = 0)
      (hf : c'.flight = Function.update c.flight n (pre ++ (c.nextId, Core.recordOf pk) :: suf))
      (hc : c'.nInFlightAll = c.nInFlightAll - pk.units + (Core.recordOf pk).units ∧
        c'.bytesUnackedAll = c.bytesUnackedAll - pk.load + (Core.recordOf pk).load)
      (ht : c'.nTotalSent = c.nTotalSent) (hs : samples c'.log = samples c.log)
  | report (he : c.flight n = pre ++ (p, pk) :: suf)
      (hf : c'.flight =
        Function.update c.flight n (pre ++ (p, { pk with feedbackRecorded := 1 }) :: suf))
      (hr : pk.fakeLossRec = 1) (hn : pk.feedbackRecorded = 0)
      (hc : c'.nInFlightAll = c.nInFlightAll ∧ c'.bytesUnackedAll = c.bytesUnackedAll)
      (ht : c'.nTotalSent = c.nTotalSent)
      (hs : samples c'.log = samples c.log ∨ samples c'.log = pk.tx :: samples c.log)
  | poison (hm : m .send) (hp : pk.poison = true) (hk : pk.fakeLossRec = 0)
      (hf : c'.flight = Function.update c.flight .app (c.flight .app ++ [(p, pk)]))
      (hl : c'.ledger = c.ledger)
  | launch (hm : m .send) (hd : pk.data) (hx : pk.tx = c.nTotalSent)
      (hp : ∀ n, p ∉ c.queue (.unacked n))
      (hf : c'.flight = Function.update c.flight n (c.flight n ++ [(p, pk)]))
      (hc : c'.nInFlightAll = c.nInFlightAll + pk.units ∧
        c'.bytesUnackedAll = c.bytesUnackedAll + pk.load)
      (ht : c'.nTotalSent = c.nTotalSent + 1) (hs : samples c'.log = samples c.log)

section
variable {c c' : Core} {m : Kind → Prop} {h : List PktId} {p : PktId} {q : Queue} {ack : Bool}

theorem flight_congr (hq : ∀ n, c'.queue (.unacked n) = c.queue (.unacked n))
    (hp : ∀ n, ∀ a ∈ c.queue (.unacked n), c'.pkts a = c.pkts a) : c'.flight = c.flight := by
  funext n
  simp only [Core.flight, hq]
  apply List.map_congr_left
  intro a ha
  rw [hp n a ha]

theorem flight_upd (hp : ∀ n, p ∉ c.queue (.unacked n)) {f : Pkt → Pkt} :
    (c.upd p f).flight = c.flight := by
  refine flight_congr (fun _ => rfl) ?_
  intro n a ha
  rw [upd_pkts, if_neg]
  rintro rfl
  exact hp n ha

theorem flight_setQueue (hq : ∀ n, q ≠ .unacked n) {l : List PktId} :
    (c.setQueue q l).flight = c.flight := by
  apply flight_congr
  · intro n
    exact Function.update_of_ne (hq n).symm ..
  · exact fun _ _ _ => rfl

theorem flight_alloc (hP : Placed c h) {pk : Pkt} : (c.alloc pk).flight = c.flight :=
  flight_congr (fun _ => rfl) fun _ _ ha => alloc_pkts_of_lt c pk (hP.on ha)

theorem flight_markAll (hP : Placed c h) {l : List PktId} (hl : ∀ a ∈ l, a ∈ c.queue .scheduled) :
    (c.markAll l).flight = c.flight := by
  refine flight_congr (fun _ => rfl) ?_
  intro n a ha
  apply if_neg
  intro hm
  exact hP.off_unacked (hl a hm) (fun _ => by simp) n ha

theorem flight_split (hp : p ∈ c.queue (.unacked n)) : ∃ pre suf, p ∉ pre ∧
    c.queue (.unacked n) = pre ++ p :: suf ∧
    c.flight n = pre.map (fun a => (a, c.pkts a)) ++ (p, c.pkts p) ::
      suf.map fun a => (a, c.pkts a) := by
  obtain ⟨pre, suf, he, hn⟩ := List.eq_append_cons_of_mem hp
  exact ⟨pre, suf, hn, he, by simp only [Core.flight, he, List.map_append, List.map_cons]⟩

theorem flight_update {l : List (PktId × Pkt)} (hn : c'.flight n = l)
    (hq : ∀ n' ≠ n, c'.queue (.unacked n') = c.queue (.unacked n'))
    (hp : ∀ n' ≠ n, ∀ a ∈ c.queue (.unacked n'), c'.pkts a = c.pkts a) :
    c'.flight = Function.update c.flight n l := by
  funext n'
  by_cases he : n' = n
  · subst he
    rw [hn, Function.update_self]
  · rw [Function.update_of_ne he]
    simp only [Core.flight, hq n' he]
    apply List.map_congr_left
    intro a ha
    rw [hp n' he a ha]

theorem entries_congr (hf : c'.flight = c.flight) : c'.entries = c.entries := by
  rw [Core.entries, hf, Core.entries]

theorem entries_splice {pre suf : List (PktId × Pkt)} (l l' : List (PktId × Pkt))
    (he : c.flight n = pre ++ (l ++ suf))
    (hf : c'.flight = Function.update c.flight n (pre ++ (l' ++ suf))) :
    ∃ A B, c.entries = A ++ (l ++ B) ∧ c'.entries = A ++ (l' ++ B) := by
  simp only [Core.entries, hf]
  cases n with
  | init =>
    refine ⟨pre, suf ++ (c.flight .hsk ++ c.flight .app), ?_, ?_⟩
    · simp only [he, List.append_assoc]
    · simp [List.append_assoc]
  | hsk =>
    refine ⟨c.flight .init ++ pre, suf ++ c.flight .app, ?_, ?_⟩
    · simp only [he, List.append_assoc]
    · simp [List.append_assoc]
  | app =>
    refine ⟨c.flight .init ++ (c.flight .hsk ++ pre), suf, ?_, ?_⟩
    · simp only [he, List.append_assoc]
    · simp [List.append_assoc]

theorem entries_push {e : PktId × Pkt}
    (hf : c'.flight = Function.update c.flight n (c.flight n ++ [e])) :
    ∃ A B, c.entries = A ++ ([] ++ B) ∧ c'.entries = A ++ ([e] ++ B) := by
  have he : c.flight n = c.flight n ++ ([] ++ []) := (List.append_nil _).symm
  exact entries_splice [] [e] he hf

theorem flight_remove (hp : p ∈ c.queue (.unacked n)) : ∃ pre suf,
    c.flight n = pre ++ (p, c.pkts p) :: suf ∧
      (c.remove (.unacked n) p).flight = Function.update c.flight n (pre ++ suf) := by
  obtain ⟨pre, suf, hn, he, hf⟩ := flight_split hp
  refine ⟨_, _, hf, flight_update ?_ ?_ fun _ _ _ _ => rfl⟩
  · have hq : (c.remove (.unacked n) p).queue (.unacked n) = pre ++ suf := by
      simp only [Core.remove, Core.setQueue, Function.update_self, he, erase_split hn]
    simp only [Core.flight, hq, List.map_append]
    rfl
  · intro n' hne
    exact Function.update_of_ne (by simp [hne]) ..

theorem flight_move (hp : ∀ n, p ∉ c.queue (.unacked n)) (hq : ∀ n, q ≠ .unacked n)
    {l : List PktId} {f : Pkt → Pkt} : ((c.setQueue q l).upd p f).flight = c.flight := by
  have hQ : ∀ n, (c.setQueue q l).queue (.unacked n) = c.queue (.unacked n) := fun n =>
    Function.update_of_ne (hq n).symm ..
  refine (flight_upd fun n => ?_).trans (flight_setQueue hq)
  rw [hQ]
  exact hp n

theorem flight_nextPackno (c : Core) : c.nextPackno.flight = c.flight := by
  unfold Core.nextPackno
  split <;> rfl

theorem ledger_nextPackno (c : Core) : c.nextPackno.ledger = c.ledger := by
  unfold Core.nextPackno
  split <;> rfl

theorem flight_senhistAdd (c : Core) (packno : Int) : (c.senhistAdd packno).flight = c.flight := by
  unfold Core.senhistAdd
  split <;> rfl

theorem ledger_senhistAdd (c : Core) (packno : Int) : (c.senhistAdd packno).ledger = c.ledger := by
  unfold Core.senhistAdd
  split <;> rfl

theorem FlightStep.ackIf (hF : FlightStep m c c') : FlightStep m c (c'.ackIf p ack) := by
  cases ack with
  | true =>
    cases hF with
    | idle hf hl => exact .idle hf hl
    | overpay hm hf ht hs => exact .overpay hm hf ht hs
    | depart he hf hc ht hs => exact .depart he hf hc ht hs
    | lose hm he hd hz hf hc ht hs => exact .lose hm he hd hz hf hc ht hs
    | report he hf hr hn hc ht hs => exact .report he hf hr hn hc ht hs
    | poison hm hp hk hf hl => exact .poison hm hp hk hf hl
    | launch hm hd hx hp hf hc ht hs => exact .launch hm hd hx hp hf hc ht hs
  | false => exact hF

theorem flight_renumberToRight (hP : Placed c h) : (c.renumberToRight p).flight = c.flight := by
  unfold Core.renumberToRight
  split
  · rfl
  · have hA : Placed { c with curPackno := (c.pkts p).packno - 1 } h := hP.congr rfl rfl rfl
    refine flight_markAll hA fun a ha => ?_
    exact (after_sublist p _).subset (List.takeWhile_subset _ ha)

theorem ledger_renumberToRight (c : Core) (p : PktId) :
    (c.renumberToRight p).ledger = c.ledger := by
  unfold Core.renumberToRight
  split <;> rfl

theorem FlightStep.number (hp : ∀ n, p ∉ c.queue (.unacked n)) {f : Pkt → Pkt} :
    FlightStep m c ((c.nextPackno.upd p f).schedAppend p) := by
  have hq : ∀ n, p ∉ c.nextPackno.queue (.unacked n) := by
    rw [nextPackno_queue]
    exact hp
  have hA : ((c.nextPackno.upd p f).schedAppend p).flight = (c.nextPackno.upd p f).flight :=
    flight_move (c := c.nextPackno.upd p f) (q := .scheduled) (f := ({ · with sched := true })) hq
      fun _ => by simp
  exact .idle ((hA.trans (flight_upd hq)).trans (flight_nextPackno c)) (ledger_nextPackno c)

theorem Pkt.units_of_data {pk : Pkt} (hd : pk.data) : pk.units = 1 ∧ pk.load = pk.body.bytes := by
  simp only [Pkt.units, Pkt.load, Pkt.counted, hd.1, hd.2, Bool.not_false, Bool.true_and,
    Bool.true_or, ↓reduceIte, and_self]

theorem Pkt.units_of_record {pk : Pkt} (hr : pk.lossRec = true) (hs : pk.Shape) :
    pk.units = (if pk.fakeLossRec = 1 then 1 else 0) ∧
      pk.load = if pk.fakeLossRec = 1 then pk.body.bytes else 0 := by
  simp only [Pkt.units, Pkt.load, Pkt.counted, hr, (hs.record hr).2.1, Bool.not_false,
    Bool.true_and, Bool.not_true, Bool.false_or, beq_iff_eq, and_self]

theorem Pkt.units_of_poison {pk : Pkt} (hp : pk.poison = true) : pk.units = 0 ∧ pk.load = 0 := by
  simp only [Pkt.units, Pkt.load, Pkt.counted, hp, Bool.not_true, Bool.false_and,
    Bool.false_eq_true, ↓reduceIte, and_self]

theorem flight_unackedRemove (hP : Placed c h) (hp : p ∈ c.queue (.unacked n))
    (hd : (c.pkts p).data) : ∃ pre suf, c.flight n = pre ++ (p, c.pkts p) :: suf ∧
      (c.unackedRemove p).flight = Function.update c.flight n (pre ++ suf) := by
  obtain ⟨pre, suf, he, hf⟩ := flight_remove hp
  refine ⟨pre, suf, he, ?_⟩
  rw [← hf]
  have hn := (hP.unacked hp).2.1 hd.2
  have hU : ((c.remove (.unacked n) p).upd p ({ · with unacked := false })).flight =
      (c.remove (.unacked n) p).flight := flight_upd fun n' => hP.off_remove hp (some (.unacked n'))
  rw [← hU, ← hn]
  rfl

/-- The sample of a delivery that comes with the departure of a packet. -/
def SamplesOf (m : Kind → Prop) (c : Core) (p : PktId) (log : List Event) : Prop :=
  samples log = samples c.log ∨ samples log = (c.pkts p).tx :: samples c.log ∧
    (c.pkts p).fakeLossRec = 1 ∧ ((c.pkts p).feedbackRecorded = 0 ∨ m .late)

theorem replicaFeedback_samples
    (hl : (c.pkts p).fakeLossRec = 1 → (c.pkts p).feedbackRecorded = 0 ∨ m .late) (ok : Bool) :
    ∃ log, c.replicaFeedback p ok = { c with log } ∧ SamplesOf m c p log := by
  unfold Core.replicaFeedback
  split
  next hf =>
    refine ⟨_, rfl, ?_⟩
    cases ok with
    | true => exact .inr ⟨rfl, hf, hl hf⟩
    | false => exact .inl rfl
  · exact ⟨c.log, rfl, .inl rfl⟩

theorem FlightStep.dataLeaves (hP : Placed c h) (hp : p ∈ c.queue (.unacked n))
    (hd : (c.pkts p).data) (hs : SamplesOf m c p log) :
    FlightStep m c (Core.unackedRemove { c with log } p) := by
  obtain ⟨pre, suf, he, hf⟩ := flight_unackedRemove hP hp hd
  obtain ⟨hu, hb⟩ := Pkt.units_of_data hd
  refine .depart he hf (.inr ⟨?_, ?_⟩) rfl hs
  · rw [hu]
    rfl
  · rw [hb]
    rfl

theorem recRemove_charges (hr : (c.pkts p).lossRec = true) (hs : (c.pkts p).Shape) :
    (c.recRemove n p).nInFlightAll = c.nInFlightAll - (c.pkts p).units ∧
      (c.recRemove n p).bytesUnackedAll = c.bytesUnackedAll - (c.pkts p).load := by
  obtain ⟨hu, hl⟩ := Pkt.units_of_record hr hs
  rw [hu, hl]
  by_cases hf : (c.pkts p).fakeLossRec = 1
  · simp only [Core.recRemove, if_pos hf]
    exact ⟨rfl, rfl⟩
  · simp only [Core.recRemove, if_neg hf]
    exact ⟨(Int.sub_zero _).symm, (Int.sub_zero _).symm⟩

theorem recRemove_flight (c : Core) (n : Pns) (p : PktId) :
    (c.recRemove n p).flight = (c.remove (.unacked n) p).flight ∧
      (c.recRemove n p).nTotalSent = c.nTotalSent := by
  unfold Core.recRemove
  split <;> exact ⟨rfl, rfl⟩

theorem FlightStep.recordLeaves (hP : Placed c h) (hp : p ∈ c.queue (.unacked n))
    (hr : (c.pkts p).lossRec = true) (hs : SamplesOf m c p log) :
    FlightStep m c (Core.recRemove { c with log } n p) := by
  obtain ⟨pre, suf, he, hf⟩ := flight_remove hp
  have hR := recRemove_flight { c with log } n p
  refine .depart he (hR.1.trans hf) (.inr ?_) hR.2 ?_
  · exact recRemove_charges (c := { c with log }) hr (hP.unacked hp).2.2.2
  · rw [recRemove_log]
    exact hs

theorem unackedRemove_of_ne (c : Core) (hne : a ≠ p) : (c.unackedRemove p).pkts a = c.pkts a :=
  Function.update_of_ne hne ..

theorem unackedRemove_queue_of_ne (c : Core) (hne : q ≠ .unacked (c.pkts p).pns) :
    (c.unackedRemove p).queue q = c.queue q :=
  Function.update_of_ne hne ..

theorem recordLoss_nTotalSent (c : Core) (p : PktId) :
    (c.recordLoss p).nTotalSent = c.nTotalSent := by
  simp only [Core.recordLoss]
  split <;> rfl

theorem recordLoss_charges (hP : Placed c h) (hp : p ∈ c.queue (.unacked n))
    (hd : (c.pkts p).data) :
    ((c.recordLoss p).unackedRemove p).nInFlightAll =
        c.nInFlightAll - (c.pkts p).units + (Core.recordOf (c.pkts p)).units ∧
      ((c.recordLoss p).unackedRemove p).bytesUnackedAll =
        c.bytesUnackedAll - (c.pkts p).load + (Core.recordOf (c.pkts p)).load := by
  have hS := (hP.unacked hp).2.2.2
  obtain ⟨hu, hl⟩ := Pkt.units_of_data hd
  have hr : (Core.recordOf (c.pkts p)).lossRec = true := rfl
  obtain ⟨hu', hl'⟩ := Pkt.units_of_record hr hS.recordOf
  have hself := recordLoss_self c (hP.on hp)
  simp only [Core.unackedRemove, Core.charge, hself, hu, hl, hu', hl']
  by_cases hf : (c.pkts p).fakeLossRec = 1
  · have hf' : (Core.recordOf (c.pkts p)).fakeLossRec = 1 := hf
    simp only [Core.recordLoss, if_pos hf, if_pos hf']
    exact ⟨Int.add_right_comm .., Int.add_right_comm ..⟩
  · have hf' : ¬ (Core.recordOf (c.pkts p)).fakeLossRec = 1 := hf
    simp only [Core.recordLoss, if_neg hf, if_neg hf']
    exact ⟨(Int.add_zero _).symm, (Int.add_zero _).symm⟩

theorem flight_replace (hP : Placed c h) (hq : c.queue (.unacked n) = pre ++ p :: suf)
    (hQ : c'.queue (.unacked n) = pre ++ x :: suf)
    (ho : ∀ n' ≠ n, c'.queue (.unacked n') = c.queue (.unacked n'))
    (hpk : ∀ a ≠ p, a < c.nextId → c'.pkts a = c.pkts a) :
    c'.flight = Function.update c.flight n (pre.map (fun a => (a, c.pkts a)) ++
      (x, c'.pkts x) :: suf.map fun a => (a, c.pkts a)) := by
  have hnd : (pre ++ p :: suf).Nodup := hq ▸ hP.nodup (some (.unacked n))
  have hp : p ∈ c.queue (.unacked n) := by simp [hq]
  have hsame : ∀ a ∈ pre ++ suf, c'.pkts a = c.pkts a := by
    intro a ha
    have hmem : a ∈ c.queue (.unacked n) := by
      rw [hq]
      exact (List.perm_middle.mem_iff).2 (.tail _ ha)
    apply hpk a _ (hP.on hmem)
    rintro rfl
    exact (List.nodup_cons.1 (List.perm_middle.nodup_iff.1 hnd)).1 ha
  apply flight_update _ ho
  · intro n' hne a ha
    refine hpk a ?_ (hP.on ha)
    rintro rfl
    have hu := hP.uniq a (some (.unacked n')) (some (.unacked n)) ha hp
    simp only [Option.some.injEq, Queue.unacked.injEq] at hu
    exact hne hu
  · rw [Core.flight, hQ, List.map_append, List.map_cons]
    congr 1
    · exact List.map_congr_left fun a ha => by rw [hsame a (List.mem_append_left _ ha)]
    · congr 1
      exact List.map_congr_left fun a ha => by rw [hsame a (List.mem_append_right _ ha)]

theorem FlightStep.lostPacket (hm : m .lose) (hP : Placed c h) (hp : p ∈ c.queue (.unacked n))
    (hd : (c.pkts p).data) : FlightStep m c ((c.recordLoss p).unackedRemove p) := by
  have hlt := hP.on hp
  have hn := (hP.unacked hp).2.1 hd.2
  obtain ⟨pre, suf, hpre, hq, he⟩ := flight_split hp
  have hself := recordLoss_self c hlt
  have hQ : ((c.recordLoss p).unackedRemove p).queue (.unacked n) = pre ++ c.nextId :: suf := by
    have hR : (c.recordLoss p).queue (.unacked n) = pre ++ c.nextId :: p :: suf := by
      rw [recordLoss_queue, if_pos (by rw [hn]), hq, insertBefore_split hpre]
    have hne : p ∉ pre ++ [c.nextId] := by
      simp only [List.mem_append, List.mem_singleton, not_or]
      exact ⟨hpre, Nat.ne_of_lt hlt⟩
    have hE : (pre ++ [c.nextId] ++ p :: suf).erase p = pre ++ [c.nextId] ++ suf := erase_split hne
    simp only [List.append_assoc, List.singleton_append] at hE
    have hns : ((c.recordLoss p).pkts p).pns = n := by rw [hself, ← hn]
    simp only [Core.unackedRemove, hns]
    rw [← hE, ← hR]
    exact Function.update_self ..
  have hpk : ∀ a, a ≠ p → a < c.nextId →
      ((c.recordLoss p).unackedRemove p).pkts a = c.pkts a := by
    intro a hne ha
    rw [unackedRemove_of_ne _ hne, recordLoss_pkts c hlt, if_neg hne, if_neg (Nat.ne_of_lt ha)]
  have hrec : ((c.recordLoss p).unackedRemove p).pkts c.nextId = Core.recordOf (c.pkts p) := by
    have hne : c.nextId ≠ p := Nat.ne_of_gt hlt
    rw [unackedRemove_of_ne _ hne, recordLoss_pkts c hlt, if_neg hne, if_pos rfl]
  have hz := (hP.unacked hp).2.2.2.feedback hd.1
  refine .lose hm he hd hz (hrec ▸ flight_replace hP hq hQ ?_ hpk) (recordLoss_charges hP hp hd)
    ?_ ?_
  · intro n' hne
    rw [unackedRemove_queue_of_ne, recordLoss_queue, if_neg]
    · simp [hn, hne]
    · simp [hself, hn, hne]
  · exact recordLoss_nTotalSent c p
  · rw [show ((c.recordLoss p).unackedRemove p).log = (c.recordLoss p).log from rfl, recordLoss_log]

theorem FlightStep.reportLoss (hP : Placed c h) (hp : p ∈ c.queue (.unacked n))
    (hf : (c.pkts p).fakeLossRec = 1) (hn : (c.pkts p).feedbackRecorded = 0) :
    FlightStep m c ((c.recordFeedback p 1 ok).upd p ({ · with feedbackRecorded := 1 })) := by
  obtain ⟨pre, suf, -, hq, he⟩ := flight_split hp
  have hself := upd_self (c.recordFeedback p 1 ok) p ({ · with feedbackRecorded := 1 })
  refine .report he (hself ▸ flight_replace hP hq hq (fun _ _ => rfl) ?_) hf hn ⟨rfl, rfl⟩ rfl ?_
  · intro a hne _
    exact Function.update_of_ne hne ..
  · cases ok with
    | true => exact .inr rfl
    | false => exact .inl rfl

theorem flight_append (c : Core) (n : Pns) (p : PktId) : (c.append (.unacked n) p).flight =
    Function.update c.flight n (c.flight n ++ [(p, c.pkts p)]) := by
  refine flight_update ?_ ?_ fun _ _ _ _ => rfl
  · have hQ : (c.append (.unacked n) p).queue (.unacked n) = c.queue (.unacked n) ++ [p] :=
      Function.update_self ..
    rw [Core.flight, hQ, List.map_append]
    rfl
  · intro n' hn'
    exact Function.update_of_ne (by simp [hn']) ..

theorem FlightStep.addPoison (hm : m .send) (hP : Placed c h) (sz : Nat) :
    FlightStep m c (c.addPoison sz) := by
  have hA : (c.addPoison sz).flight = _ := flight_append (c.alloc _) .app c.nextId
  rw [flight_alloc hP, alloc_pkts_next] at hA
  exact .poison hm rfl rfl hA rfl

theorem senhistAdd_eq (c : Core) (packno : Int) :
    ∃ k, c.senhistAdd packno = { c with lastSent := k } := by
  unfold Core.senhistAdd
  split
  · exact ⟨_, rfl⟩
  · exact ⟨c.lastSent, rfl⟩

theorem FlightStep.launched (hm : m .send) (hd : (c.pkts p).data)
    (hp : ∀ n, p ∉ c.queue (.unacked n)) (packno : Int) : FlightStep m c (c.launch p packno) := by
  obtain ⟨k, hk⟩ := senhistAdd_eq c packno
  have hU : (c.launch p packno).flight = ((c.upd p
      ({ · with tx := c.nTotalSent, unacked := true })).append (.unacked (c.pkts p).pns)
        p).flight := by
    simp only [Core.launch, hk, Core.unackedAppend, upd_self]
    funext n
    simp only [Core.flight, Core.charge, Core.upd, Core.append, Core.setQueue, Function.update_self,
      Function.update_idem]
  have hA := flight_append (c.upd p ({ · with tx := c.nTotalSent, unacked := true }))
    (c.pkts p).pns p
  rw [flight_upd hp, upd_self] at hA
  have hd' : Pkt.data { c.pkts p with tx := c.nTotalSent, unacked := true } := hd
  obtain ⟨hu, hb⟩ := Pkt.units_of_data hd'
  refine .launch (p := p) hm hd' rfl hp (hU.trans hA) ?_ ?_ ?_
  · rw [hu, hb]
    simp only [Core.launch, hk, Core.unackedAppend, upd_self]
    exact ⟨rfl, rfl⟩
  · simp only [Core.launch, hk]
    rfl
  · simp only [Core.launch, hk]
    rfl

theorem flight_takeHead (hP : Placed c h) (hp : p ∈ c.queue .scheduled) (body : Body) :
    (c.takeHead p body).flight = c.flight := by
  have hoff := hP.off_unacked hp fun _ => by simp
  have hR : (c.schedRemove p).flight = c.flight := flight_move hoff fun _ => by simp
  have hU : ((c.schedRemove p).upd p ({ · with body := body })).flight =
      (c.schedRemove p).flight := by
    apply flight_upd
    intro n hn
    exact (hP.schedRemove hp).held_off_unacked n hn
  exact hU.trans hR

theorem flight_sendHead (hm : m .send) (hP : Placed c h) (hp : p ∈ c.queue .scheduled)
    (body : Body) (sz : Nat) :
    Relation.ReflTransGen (FlightStep m) c (c.sendHead p body sz) := by
  have hT := hP.takeHead hp body
  have hd := (hP.sched hp).2.1
  have hlt := hP.on hp
  have hI : FlightStep m c (c.takeHead p body) := .idle (flight_takeHead hP hp body) rfl
  have hd' : ((c.takeHead p body).pkts p).data := by
    rw [takeHead_self]
    exact hd
  have hoff := hT.held_off_unacked
  refine .head hI ?_
  by_cases hg : (c.pkts p).packno = (c.takeHead p body).gap + 1
  · have hw : (c.takeHead p body).withPoison (c.pkts p).packno sz =
        ((c.takeHead p body).senhistAdd (c.takeHead p body).gap).addPoison sz := if_pos hg
    rw [Core.sendHead, hw]
    have hT₁ := hT.senhistAdd (c.takeHead p body).gap
    have hI₁ : FlightStep m (c.takeHead p body)
        ((c.takeHead p body).senhistAdd (c.takeHead p body).gap) :=
      .idle (flight_senhistAdd _ _) (ledger_senhistAdd _ _)
    refine .head hI₁ (.head (.addPoison hm hT₁ sz) (.single (.launched hm ?_ ?_ _)))
    · rw [addPoison_pkts_of_lt _ _ (senhistAdd_nextId (c.takeHead p body) _ ▸ hlt), senhistAdd_pkts]
      exact hd'
    · exact (hT₁.addPoison sz).held_off_unacked
  · have hw : (c.takeHead p body).withPoison (c.pkts p).packno sz = c.takeHead p body := if_neg hg
    rw [Core.sendHead, hw]
    exact .single (.launched hm hd' hoff _)

theorem FlightStep.shelve (l : List PktId) (k : Int) :
    FlightStep m c ((c.setQueue (.buffered b) l).addBpq b k) := by
  have hQ : (c.setQueue (.buffered b) l).flight = c.flight := flight_setQueue fun _ => by simp
  exact .idle hQ rfl

/-- An entry that was not charged, or one that `lsquic_send_ctl_empty_pns` forgets to give back. -/
theorem FlightStep.leaves (hp : p ∈ c.queue (.unacked n))
    (hu : m .purge ∨ (c.pkts p).units = 0 ∧ (c.pkts p).load = 0) :
    FlightStep m c (c.remove (.unacked n) p) := by
  obtain ⟨pre, suf, he, hf⟩ := flight_remove hp
  refine .depart he hf (hu.imp_right fun hu => ?_) rfl (.inl rfl)
  rw [hu.1, hu.2]
  exact ⟨(Int.sub_zero _).symm, (Int.sub_zero _).symm⟩

theorem FlightStep.purgeRecord (hP : Placed c h) (hp : p ∈ c.queue (.unacked n))
    (hr : (c.pkts p).lossRec = true) (hf : (c.pkts p).fakeLossRec = 1 → m .purge) :
    FlightStep m c (c.remove (.unacked n) p) := by
  by_cases hk : (c.pkts p).fakeLossRec = 1
  · exact .leaves hp (.inl (hf hk))
  · obtain ⟨hu, hl⟩ := Pkt.units_of_record hr (hP.unacked hp).2.2.2
    rw [if_neg hk] at hu hl
    exact .leaves hp (.inr ⟨hu, hl⟩)

theorem flight_lostAppend (hp : ∀ n, p ∉ c.queue (.unacked n)) :
    (c.lostAppend p).flight = c.flight :=
  flight_move hp fun _ => by simp

theorem FlightStep.newTurn (hp : ∀ n, p ∉ c.queue (.unacked n)) (need : Nat)
    (rounds : List Nat) : FlightStep m c ((c.lostAppend p).newTurn p need rounds) := by
  refine .idle ((flight_upd (c := c.lostAppend p) (p := p) hp (f := ({ · with
    retransTimes := u16add ((c.lostAppend p).pkts p).retransTimes 1
    needRetransNumber := need
    fakeLossRec := 1 }))).trans (flight_lostAppend hp)) rfl

theorem FlightStep.duplicate (hp : ∀ n, p ∉ c.queue (.unacked n)) :
    FlightStep m c ((c.lostAppend p).duplicate p) := by
  refine .idle ((flight_upd (c := c.lostAppend p) (p := p) hp (f := ({ · with
    retransPacketNumber := u16add ((c.lostAppend p).pkts p).retransPacketNumber 1 }))).trans
    (flight_lostAppend hp)) rfl

theorem FlightStep.renumberHead (hP : Placed c h) (hp : p ∈ c.queue .scheduled) (body : Body) :
    FlightStep m c (c.renumberHead p body) := by
  have hoff := hP.off_unacked hp fun _ => by simp
  rw [← nextPackno_queue c] at hoff
  exact .idle ((flight_upd (f := ({ · with
    packno := c.nextPackno.curPackno, body := body, repackno := false })) hoff).trans
    (flight_nextPackno c)) (ledger_nextPackno c)

theorem FlightStep.killSched (hP : Placed c h) (hp : p ∈ c.queue .scheduled) :
    FlightStep m c ((c.renumberToRight p).schedRemove p) := by
  have hR : Placed (c.renumberToRight p) h := hP.renumberToRight
  have hoff := hR.off_unacked (renumberToRight_queue c p ▸ hp) fun _ => by simp
  have hf : ((c.renumberToRight p).schedRemove p).flight = (c.renumberToRight p).flight :=
    flight_move hoff fun _ => by simp
  exact .idle (hf.trans (flight_renumberToRight hP)) (ledger_renumberToRight c p)

/-- A move is a run of steps on what is in flight. -/
theorem Move.flight_of {h' x x' : List PktId} (hm : Move m ⟨c, h, x⟩ ⟨c', h', x'⟩)
    (hP : Placed c h) :
    Relation.ReflTransGen (FlightStep m) c c' := by
  cases hm with
  | resize hp => exact .single (.idle (flight_upd hp) rfl)
  | congest => exact .single (.idle rfl rfl)
  | declare => exact .single (.idle rfl rfl)
  | setGap => exact .single (.idle rfl rfl)
  | scrub hq => exact .single (.idle (flight_upd fun n => hq (.unacked n)) rfl)
  | shuffle => exact .single (.idle rfl rfl)
  | fresh => exact .single (.idle (flight_alloc hP) rfl)
  | takeSched hp =>
    exact .single (.idle (flight_move (hP.off_unacked hp fun _ => by simp) fun _ => by simp) rfl)
  | takeLost _ hp =>
    exact .single (.idle (flight_move (hP.off_unacked hp fun _ => by simp) fun _ => by simp) rfl)
  | takeBuffered => exact .single (.shelve _ _)
  | splitBuffered => exact .single (.shelve _ _)
  | takeUnacked hp hd => exact .single (.dataLeaves hP hp hd (.inl rfl))
  | lose hm hp hd => exact .single (.lostPacket hm hP hp hd)
  | ackData hp hd hl =>
    obtain ⟨log, he, hs⟩ := replicaFeedback_samples hl _
    exact .single (he ▸ .dataLeaves hP hp hd hs)
  | ackRecord hp hr hl =>
    obtain ⟨log, he, hs⟩ := replicaFeedback_samples hl _
    exact .single (he ▸ .recordLeaves hP hp hr hs)
  | reportLoss hp _ hf hn => exact .single (.reportLoss hP hp hf hn)
  | toLost => exact .single (.idle (flight_move hP.held_off_unacked fun _ => by simp) rfl)
  | newTurn => exact .single (.newTurn hP.held_off_unacked _ _)
  | duplicate => exact .single (.duplicate hP.held_off_unacked)
  | toStash => exact .single (.idle (flight_setQueue fun _ => by simp) rfl)
  | toBuffered => exact .single (.shelve _ _)
  | enqueue => exact .single (.number hP.held_off_unacked)
  | renumberHead _ hp => exact .single (.renumberHead hP (hp ▸ List.mem_cons_self) _)
  | sendHead hm hp => exact flight_sendHead hm hP (hp ▸ List.mem_cons_self) _ _
  | dropPoison hp hd => exact .single (.leaves hp (.inr (Pkt.units_of_poison hd)))
  | elideTwice hm => exact .single (.overpay hm rfl rfl rfl)
  | rewind => exact .single (.idle rfl rfl)
  | requeue => exact .single (.number hP.held_off_unacked)
  | doom => exact .single (.idle rfl rfl)
  | undoom => exact .single (.idle rfl rfl)
  | release => exact .single (FlightStep.ackIf (.idle rfl rfl))
  | killRecord hp hr => exact .single (.recordLeaves hP hp hr (.inl rfl))
  | killUnacked hp hd =>
    rename_i p n _
    have hF : FlightStep m c ((c.unackedRemove p).ackIf p true) :=
      .ackIf (.dataLeaves hP hp hd (.inl rfl))
    exact .single hF
  | killLost hp =>
    exact .single (FlightStep.ackIf (.idle (flight_setQueue fun _ => by simp) rfl))
  | killStashed => exact .single (.idle rfl rfl)
  | purgeRecord hp hr _ hf => exact .single (.purgeRecord hP hp hr hf)
  | purgeBuffered => exact .single (.idle (flight_setQueue fun _ => by simp) rfl)
  | killSched _ hp => exact .single (FlightStep.ackIf (.killSched hP hp))
  | reset => exact .single (.idle (flight_markAll (hP.congr rfl rfl rfl) fun _ ha => ha) rfl)

theorem SendFails.flight (hF : SendFails c c') (hP : Placed c h) : FlightStep m c c' := by
  cases hF with
  | fails hp =>
    have hT := flight_takeHead hP (hp ▸ List.mem_cons_self)
    exact .idle ((flight_senhistAdd _ _).trans (hT _)) (ledger_senhistAdd _ _)

theorem Moves.flight {g g' : Cfg} (hM : Moves m g g') (hS : Sound g.core g.hand g.doomed) :
    Relation.ReflTransGen (FlightStep m) g.core g'.core := by
  induction hM with
  | refl => exact .refl
  | @snoc g' g'' hM hm ih =>
    obtain ⟨c', h', x'⟩ := g'
    obtain ⟨c'', h'', x''⟩ := g''
    exact ih.trans (hm.flight_of (hM.sound hS).placed)

theorem SendCtl.step_flight {env : Env} {s : SendCtl} {op : Op} (hS : s.Settled env)
    (he : s.enabled op = true) :
    Relation.ReflTransGen (FlightStep (s.may env op)) (s.core env) ((s.step env op).core env) := by
  rcases SendCtl.step_stepped hS he with hM | ⟨hM, -⟩ | ⟨hM, hF, -⟩
  · exact hM.flight hS
  · exact hM.flight hS
  · exact (hM.flight hS).tail (hF.flight (hM.sound hS).placed)

theorem Run.flight_invariant {I : Core → Prop} {env : Env} {s : SendCtl} (h : Run env P s)
    (h₀ : I ((SendCtl.init env).core env))
    (hI : ∀ s op c c', P s op → FlightStep (s.may env op) c c' → I c → I c') : I (s.core env) := by
  induction h with
  | init => exact h₀
  | @step s op h he hp ih =>
    have hna := not_aborted_of_enabled he
    have hR := SendCtl.step_flight (h.sound hna) he
    generalize (s.step env op).core env = c at hR
    induction hR with
    | refl => exact ih
    | tail _ hf ih => exact hI s op _ _ hp hf ih

end

end QuicArt
