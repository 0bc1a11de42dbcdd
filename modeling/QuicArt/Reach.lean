import QuicArt.AckMoves
import QuicArt.PurgeMoves
import QuicArt.ResizeMoves

namespace QuicArt

namespace SendCtl

def expiring (env : Env) (s : SendCtl) (n : Pns) (filter : ExpireFilter) : List PacketOut :=
  ((s.queue (.unacked n)).filter (expires env s n filter)).map s.pkt

def replicating (s : SendCtl) (n : Pns) : List PacketOut :=
  ((s.queue (.unacked n)).map s.pkt).filter replicable

def losing (env : Env) (s : SendCtl) : Op → List PacketOut
  | .gotAck acki t _ => s.gotAckDeclaring env acki t
  | .detectLosses n => s.declaring env n
  | .artSchedule => [Pns.init, .hsk, .app].flatMap s.replicating
  | .expire n filter => s.expiring env n filter
  | .retxAlarm n _ =>
    match s.getRetxMode env with
    | .handshake => s.expiring env n .hsk
    | .loss => s.declaring env n
    | .tlp => s.expiring env n .last
    | .rto => s.expiring env n .all
  | _ => []

def takenForAcked (s : SendCtl) (acki : AckInfo) (p : PktId) : Bool :=
  decide ((s.pkt p).packno ≤ acki.largestAcked) &&
    (acki.covers (s.pkt p).packno || overtaken s acki.pns p)

end SendCtl

def Op.appends : Op → Bool
  | .scheduleNew .. | .reschedulePackets _ | .scheduleBuffered .. => true
  | _ => false

def Op.marks : Op → Bool
  | .gotAck .. | .elideStreamFrames _ | .squeezeSched | .resetPacknos
  | .cancelPathVerification _ | .emptyPns _ => true
  | _ => false

namespace SendCtl

def needs (env : Env) (s : SendCtl) (op : Op) : Kind → Bool
  | .mark => op.marks
  | .append => op.appends
  | .tangle => op.appends && (s.queue .scheduled).any fun p => (s.pkt p).repackno
  | .resize => match op with
    | .resizeQ .scheduled _ => true
    | _ => false
  | .send => match op with
    | .send .. => true
    | _ => false
  | .lose => !(s.losing env op).isEmpty
  | .deep => (s.losing env op).any PacketOut.tooDeep
  | .again => (s.losing env op).any PacketOut.restarts
  | .overrun => (s.losing env op).any PacketOut.exhausted
  | .late => match op with
    | .gotAck acki _ _ => (s.queue (.unacked acki.pns)).any fun p =>
        s.takenForAcked acki p && (s.pkt p).fakeLossRec == 1 && (s.pkt p).feedbackRecorded != 0
    | _ => false
  | .elide => match op with
    | .reschedulePackets _ => (s.queue .lost).any fun p =>
        (s.pkt p).fakeLossRec == 1 && (s.pkt p).elidesToNothing s.isWriteReset
    | _ => false
  | .purge => match op with
    | .emptyPns n => (s.queue (.unacked n)).any fun p =>
        (s.pkt p).lossRec && (s.pkt p).fakeLossRec == 1
    | _ => false
  | .miscount => match op with
    | .scheduleBuffered b _ => (s.queue (.buffered b)).any fun p =>
        needsSplit env (s.calcPacknoBits env) (s.readied p)
    | .emptyPns n => [BufPacketType.highestPrio, .otherPrio].any fun b =>
        (s.queue (.buffered b)).any fun p => (s.pkt p).pns == n
    | _ => false
  | .stash => match op with
    | .stash0rttPackets => true
    | _ => false
  | .alloc => match op with
    | .scheduleNew .. | .reschedulePackets _ | .bufferStreamData .. | .scheduleBuffered ..
    | .resizeQ .. => true
    | _ => false

abbrev may (env : Env) (s : SendCtl) (op : Op) : Kind → Prop := fun k => s.needs env op k = true

section
variable {env : Env} {s s' : SendCtl} {op : Op} {n : Pns}

theorem admits_of_losing {pk : PacketOut} (h : pk ∈ s.losing env op) :
    Admits (s.may env op) pk := by
  refine ⟨?_, fun hd => List.any_eq_true.2 ⟨pk, h, hd⟩, fun ha => List.any_eq_true.2 ⟨pk, h, ha⟩,
    fun ho => List.any_eq_true.2 ⟨pk, h, ho⟩⟩
  show (!(s.losing env op).isEmpty) = true
  rw [Bool.not_eq_true', List.isEmpty_eq_false_iff]
  exact List.ne_nil_of_mem h

theorem expireKinds_of_losing {filter : ExpireFilter}
    (h : ∀ pk ∈ s.expiring env n filter, pk ∈ s.losing env op) :
    ∀ p ∈ s.queue (.unacked n), expires env s n filter p = true → Admits (s.may env op)
      (s.pkt p) := by
  intro p hp he
  apply admits_of_losing
  apply h
  simp only [expiring, List.mem_map, List.mem_filter]
  exact ⟨p, ⟨hp, he⟩, rfl⟩

theorem artKinds_of_op (s : SendCtl) (n : Pns) : ArtKinds (s.may env .artSchedule) s n := by
  intro p hp hr
  apply admits_of_losing
  simp only [losing, List.mem_flatMap, replicating, List.mem_filter, List.mem_map]
  refine ⟨n, ?_, ⟨p, hp, rfl⟩, hr⟩
  cases n <;> decide

theorem retxKinds_of_op (s : SendCtl) (n : Pns) (now : Time) :
    RetxKinds env (s.may env (.retxAlarm n now)) s n := by
  simp only [RetxKinds]
  split
  next he => exact expireKinds_of_losing fun pk hpk => by simpa only [losing, he] using hpk
  next he => exact fun pk hpk => admits_of_losing (by simpa only [losing, he] using hpk)
  next he => exact expireKinds_of_losing fun pk hpk => by simpa only [losing, he] using hpk
  next he => exact expireKinds_of_losing fun pk hpk => by simpa only [losing, he] using hpk

theorem ackKinds_of_op (s : SendCtl) (acki : AckInfo) (t now : Time) :
    AckKinds (s.may env (.gotAck acki t now)) s acki := by
  intro p hp hle hcov hf
  by_cases hz : (s.pkt p).feedbackRecorded = 0
  · exact .inl hz
  · refine .inr (List.any_eq_true.2 ⟨p, hp, ?_⟩)
    simp only [takenForAcked, Bool.and_eq_true, decide_eq_true_eq, Bool.or_eq_true, beq_iff_eq,
      bne_iff_ne]
    exact ⟨⟨⟨hle, hcov⟩, hf⟩, hz⟩

theorem tidy_of_op (ha : op.appends = true) : Tidy (s.may env op) (s.core env) := by
  by_cases hm : ((s.queue .scheduled).any fun p => (s.pkt p).repackno) = true
  · refine .inr ?_
    show (op.appends && _) = true
    rw [ha, hm, Bool.and_self]
  · refine .inl fun p hp => ?_
    simp only [List.any_eq_true, not_exists, not_and, Bool.not_eq_true] at hm
    exact hm p hp

theorem solid_of_op (s : SendCtl) (rounds : Nat) :
    s.may env (.reschedulePackets rounds) .elide ∨ s.Solid := by
  by_cases he : s.needs env (.reschedulePackets rounds) .elide = true
  · exact .inl he
  · refine .inr fun p hp hf => ?_
    simp only [needs, List.any_eq_true, not_exists, not_and, Bool.and_eq_true, beq_iff_eq,
      Bool.not_eq_true] at he
    exact he p hp hf

theorem roomy_of_op (s : SendCtl) (b : BufPacketType) (rounds : Nat) :
    s.may env (.scheduleBuffered b rounds) .miscount ∨
      Roomy env s b (s.calcPacknoBits env) := by
  by_cases hc : s.needs env (.scheduleBuffered b rounds) .miscount = true
  · exact .inl hc
  · refine .inr fun p hp => ?_
    simp only [needs, List.any_eq_true, not_exists, not_and, Bool.not_eq_true] at hc
    exact hc p hp

theorem purgeKinds_of_op (s : SendCtl) (n : Pns) :
    PurgeKinds (s.may env (.emptyPns n)) (s.core env) n := by
  refine ⟨rfl, fun p hp hr hf => List.any_eq_true.2 ⟨p, hp, ?_⟩, fun b p hp hn =>
    List.any_eq_true.2 ⟨b, ?_, List.any_eq_true.2 ⟨p, hp, ?_⟩⟩⟩
  · simp only [Bool.and_eq_true, beq_iff_eq]
    exact ⟨hr, hf⟩
  · cases b <;> decide
  · exact beq_iff_eq.2 hn

/-- After a failure packets may be left in hand, or one be sent without its poison packet. -/
inductive Stepped (env : Env) (m : Kind → Prop) (s s' : SendCtl) : Prop
  | done (hM : Moves m ⟨s.core env, [], []⟩ ⟨s'.core env, [], []⟩)
  | strands (hM : Moves m ⟨s.core env, [], []⟩ ⟨s'.core env, h, []⟩) (ha : s'.aborted = true)
  | fails (hM : Moves m ⟨s.core env, [], []⟩ ⟨c, [], []⟩) (hF : SendFails c (s'.core env))
      (ha : s'.aborted = true)

theorem configure_core (s : SendCtl) (x : Setting) : (s.configure x).core env = s.core env := by
  cases x with
  | scheduledAck pns acked =>
    simp only [configure]
    split <;> rfl
  | _ => rfl

theorem unchained_of_all {l : List PktId} (h : l.all s.unchained = true) :
    ∀ p ∈ l, (s.pkt p).lossChain = p := fun p hp =>
  beq_iff_eq.1 (List.all_eq_true.1 h p hp)

/-- Every operation is a run of moves of the kinds that it needs. -/
theorem step_stepped (hS : s.Settled env) (he : s.enabled op = true) :
    Stepped env (s.may env op) s (s.step env op) := by
  simp only [enabled, Bool.and_eq_true] at he
  cases op with
  | scheduleNew needAtLeast pns path c =>
    exact .done (scheduleNew_moves hS needAtLeast pns path c rfl rfl (by simp [needs, Op.marks])
      (tidy_of_op rfl))
  | send toCoal encSz now =>
    rcases sendNext_moves (m := s.may env (.send toCoal encSz now)) rfl hS toCoal encSz now with
      hM | ⟨c, hM, hF, ha⟩
    · exact .done hM
    · exact .fails hM hF ha
  | gotAck acki t now =>
    have hd : ∀ pk ∈ s.losing env (.gotAck acki t now),
        Admits (s.may env (.gotAck acki t now)) pk :=
      fun pk => admits_of_losing
    exact .done (gotAck_moves hS rfl (ackKinds_of_op s acki t now) hd)
  | detectLosses n =>
    have hd : ∀ pk ∈ s.losing env (.detectLosses n), Admits (s.may env (.detectLosses n)) pk :=
      fun pk => admits_of_losing
    exact .done (detectLosses_moves hS hd)
  | artSchedule =>
    have hA := artSchedule_moves (m := s.may env .artSchedule) (s := { s with artAlarm := none })
      hS fun n => artKinds_of_op s n
    exact .done hA
  | expire n filter =>
    exact .done (expire_moves hS filter (expireKinds_of_losing fun pk hpk => hpk))
  | retxAlarm n now => exact .done (retxAlarmRings_moves hS (retxKinds_of_op s n now))
  | reschedulePackets rounds =>
    exact .done (reschedulePackets_moves (m := s.may env (.reschedulePackets rounds)) rfl rfl
      (by simp [needs, Op.marks]) (tidy_of_op rfl) hS (solid_of_op s rounds) rounds)
  | bufferStreamData b needAtLeast path ack c =>
    exact .done (bufferStreamData_moves (m := s.may env (.bufferStreamData b needAtLeast path ack c))
      rfl hS b needAtLeast path ack c)
  | scheduleBuffered b rounds =>
    exact .done (scheduleBuffered_moves (m := s.may env (.scheduleBuffered b rounds)) rfl rfl
      (by simp [needs, Op.marks]) b rounds (roomy_of_op s b rounds) (tidy_of_op rfl) hS)
  | elideStreamFrames id =>
    exact .done (elideStreamFrames_moves (m := s.may env (.elideStreamFrames id)) rfl hS id)
  | squeezeSched => exact .done (squeezeSched_moves rfl hS)
  | resetPacknos => exact .done (resetPacknos_moves (m := s.may env .resetPacknos) rfl s)
  | dropScheduled => exact .done (dropScheduled_moves hS)
  | cancelPathVerification path =>
    refine .done (cancelPathVerification_moves rfl hS fun p hp hpath => ?_)
    have hall := List.all_eq_true.1 he.2 p hp
    simpa [unchained, hpath] using hall
  | emptyPns n => exact .done (emptyPns_moves hS (purgeKinds_of_op s n))
  | stash0rttPackets => exact .done (stash0rttPackets_moves rfl hS)
  | resizeQ q path =>
    have hq : (q = .scheduled ∧ s.may env (.resizeQ q path) .resize) ∨ ∃ b, q = .buffered b := by
      cases q with
      | scheduled => exact .inl ⟨rfl, rfl⟩
      | buffered b => exact .inr ⟨b, rfl⟩
      | _ => cases he.2
    obtain ⟨h, hM, hh⟩ := resizeQ_moves (m := s.may env (.resizeQ q path)) rfl hS hq path
    rcases hh with rfl | ha
    · exact .done hM
    · exact .strands hM ha
  | rollback rb =>
    refine .done (rollback_moves hS rb fun p hp => ?_)
    have he := he.2
    simp only [hp] at he
    exact unchained_of_all he
  | beginOptackDetection => exact .done (beginOptackDetection_moves s)
  | set x =>
    refine .done ?_
    simp only [step, configure_core]
    exact .refl

end

end SendCtl

theorem sound_init (env : Env) : (SendCtl.init env).Settled env := by
  have hq : ∀ L, ((SendCtl.init env).core env).locs [] L = [] := by
    intro L
    cases L <;> rfl
  have hlive : ∀ p, ¬ Live ((SendCtl.init env).core env) [] p := by
    rintro p ⟨L, hp⟩
    rw [hq] at hp
    cases hp
  refine ⟨⟨?_, ?_, ?_, ?_⟩, ?_, ?_⟩
  · intro L
    rw [hq]
    exact List.nodup_nil
  · intro p L L' hp
    exact absurd ⟨L, hp⟩ (hlive p)
  · intro p L hp
    exact absurd ⟨L, hp⟩ (hlive p)
  · intro p L hp
    exact absurd ⟨L, hp⟩ (hlive p)
  · intro p hR
    exact absurd hR.live (hlive p)
  · intro r _ _ hR
    exact absurd hR.live (hlive r)

section
variable {env : Env} {s : SendCtl} {P : SendCtl → Op → Prop}

theorem Run.sound (h : Run env P s) (ha : s.aborted = false) : s.Settled env := by
  induction h with
  | init => exact sound_init env
  | step h he hp ih =>
    have hS := ih (not_aborted_of_enabled he)
    rcases SendCtl.step_stepped hS he with hM | ⟨-, hab⟩ | ⟨-, -, hab⟩
    · exact hM.sound hS
    · cases hab.symm.trans ha
    · cases hab.symm.trans ha

/-- What every move keeps holds until the connection is aborted; `J` is what remains of it then. -/
theorem Run.live_invariant {I J : Core → Prop} (h : Run env P s)
    (h₀ : I ((SendCtl.init env).core env))
    (hm : ∀ s op g g', P s op → Move (s.may env op) g g' → Sound g.core g.hand g.doomed →
      I g.core → I g'.core)
    (hJ : ∀ c, I c → J c) (hf : ∀ c c', SendFails c c' → Sound c [] [] → I c → J c') :
    J (s.core env) ∧ (s.aborted = false → I (s.core env)) := by
  induction h with
  | init => exact ⟨hJ _ h₀, fun _ => h₀⟩
  | @step s op h he hp ih =>
    have hna := not_aborted_of_enabled he
    have run : ∀ g', Moves (s.may env op) ⟨s.core env, [], []⟩ g' → I g'.core ∧
        Sound g'.core g'.hand g'.doomed := fun g' hM =>
      hM.invariant (I := fun g => I g.core ∧ Sound g.core g.hand g.doomed)
        (fun g g' hmv ⟨hI, hS⟩ => ⟨hm s op g g' hp hmv hS hI, (Moves.one hmv).sound hS⟩)
        ⟨ih.2 hna, h.sound hna⟩
    rcases SendCtl.step_stepped (h.sound hna) he with hM | ⟨hM, hab⟩ | ⟨hM, hF, hab⟩
    · exact ⟨hJ _ (run _ hM).1, fun _ => (run _ hM).1⟩
    · exact ⟨hJ _ (run _ hM).1, fun hn => absurd (hab.symm.trans hn) (by simp)⟩
    · exact ⟨hf _ _ hF (run _ hM).2 (run _ hM).1, fun hn => absurd (hab.symm.trans hn) (by simp)⟩

theorem Run.core_invariant {I : Core → Prop} (h : Run env P s)
    (h₀ : I ((SendCtl.init env).core env))
    (hm : ∀ s op g g', P s op → Move (s.may env op) g g' → Sound g.core g.hand g.doomed →
      I g.core → I g'.core)
    (hf : ∀ c c', SendFails c c' → Sound c [] [] → I c → I c') : I (s.core env) :=
  (h.live_invariant h₀ hm (fun _ hI => hI) hf).1

end

section
variable {env : Env} {s : SendCtl}

/-- No packet is on two queues, or on one twice, and its flags say which one it is on. -/
theorem queues_exclusive (h : Reachable env s) (ha : s.aborted = false) :
    (∀ q, (s.queue q).Nodup) ∧ (∀ p q q', p ∈ s.queue q → p ∈ s.queue q' → q = q') ∧
      ∀ p q, p ∈ s.queue q → Fits ((s.pkt p).core env) (some q) := by
  have hP := (h.sound ha).placed
  refine ⟨fun q => hP.nodup (some q), ?_, fun p q hp => (hP.fits p (some q) hp).1⟩
  intro p q q' hp hp'
  exact Option.some.inj (hP.uniq p (some q) (some q') hp hp')

theorem reachable_loss : ∃ s, Reachable quietEnv s ∧ s.aborted = false ∧ s.queue .lost = [0] ∧
    s.queue (.unacked .app) = [5] ∧ (s.pkt 5).lossRec = true :=
  exists_run (turnsOfPacket [] 4) (by decide +kernel)

theorem queues_exclusive_of_loss : ∃ s, Reachable quietEnv s ∧ 0 ∈ s.queue .lost ∧
    ∀ q, 0 ∈ s.queue q → q = .lost := by
  obtain ⟨s, hs, ha, hq, -⟩ := reachable_loss
  have hl : 0 ∈ s.queue .lost := by simp [hq]
  exact ⟨s, hs, hl, fun q hq => (queues_exclusive hs ha).2.1 0 q _ hq hl⟩

theorem ChainAt.owner_unique (hC : ChainAt c h d l) (hC' : ChainAt c h d' l') (hr : r ∈ l)
    (hr' : r ∈ l') (hd : (c.pkts d').data) : d' = d := by
  obtain ⟨l₁, l₂, rfl⟩ := List.append_of_mem hr
  have hm := hC'.ring.mem_of_mem hr' hC.ring.rotate
  by_contra hne
  have hl : d' ∈ l₁ ++ r :: l₂ := by
    simp only [List.mem_append, List.mem_cons, hne, false_or] at hm ⊢
    tauto
  cases (hC.recs d' hl).symm.trans hd.1

/-- A loss chain is a ring of loss records on the unacked queue of the packet's space, and every
loss record is on the ring of one packet. -/
theorem chains_intact (h : Reachable env s) (ha : s.aborted = false) :
    (∀ p q, q ≠ .stash → p ∈ s.queue q → ((s.core env).pkts p).data →
      ∃ l, ChainAt (s.core env) [] p l) ∧
    ∀ r n, r ∈ s.queue (.unacked n) → (s.pkt r).lossRec = true →
      ∃! d, ((s.core env).pkts d).data ∧ (∃ q, d ∈ s.queue q) ∧
        ∃ l, ChainAt (s.core env) [] d l ∧ r ∈ l := by
  have hC := (h.sound ha).chains
  constructor
  · intro p q hq hp hd
    obtain ⟨l, hl, -⟩ := hC.chain p ⟨hd, List.not_mem_nil, .inr ⟨q, hq, hp⟩⟩
    exact ⟨l, hl⟩
  · intro r n hr hrec
    obtain ⟨d, l, hd, -, ⟨L, hL⟩, hl, hm, -⟩ := hC.owner r hrec List.not_mem_nil (.inr ⟨n, hr⟩)
    refine ⟨d, ⟨hd, ?_, l, hl, hm⟩, ?_⟩
    · cases L with
      | none => cases hL
      | some q => exact ⟨q, hL⟩
    · rintro d' ⟨hd', -, l', hl', hm'⟩
      exact hl.owner_unique hl' hm hm' hd'

theorem chains_intact_of_loss : ∃ s, Reachable quietEnv s ∧
    ∃ d l, ChainAt (s.core quietEnv) [] d l ∧ 5 ∈ l := by
  obtain ⟨s, hs, ha, -, hq, hr⟩ := reachable_loss
  obtain ⟨d, ⟨-, -, l, hl, hm⟩, -⟩ := (chains_intact hs ha).2 5 .app (by simp [hq]) hr
  exact ⟨s, hs, d, l, hl, hm⟩

end

end QuicArt
