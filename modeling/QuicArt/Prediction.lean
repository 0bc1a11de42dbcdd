import QuicArt.Numbering

namespace QuicArt

section
variable {α : Type} {blocked skip skip' : α → Bool} {l : List α}

/-- A scan that stops at a blocked element and succeeds at the first one it does not skip. -/
def reaches (blocked skip : α → Bool) : List α → Bool
  | [] => false
  | a :: l => if blocked a then false else if skip a then reaches blocked skip l else true

theorem reaches_iff : reaches blocked skip l = true ↔ ∃ pre a suf, l = pre ++ a :: suf ∧
    (∀ b ∈ pre, skip b = true ∧ blocked b = false) ∧ skip a = false ∧ blocked a = false := by
  induction l with
  | nil => simp [reaches]
  | cons a l ih =>
    simp only [reaches]
    constructor
    · intro h
      split at h
      · cases h
      next hb =>
        have hb : blocked a = false := by simpa using hb
        split at h
        next hs =>
          obtain ⟨pre, b, suf, he, hpre, hb'⟩ := ih.1 h
          refine ⟨a :: pre, b, suf, by rw [he]; rfl, ?_, hb'⟩
          intro b' hb'
          rcases List.mem_cons.1 hb' with rfl | hb'
          · exact ⟨hs, hb⟩
          · exact hpre b' hb'
        next hs => exact ⟨[], a, l, rfl, by simp, by simpa using hs, hb⟩
    · rintro ⟨pre, b, suf, he, hpre, hs, hb⟩
      cases pre with
      | nil =>
        cases he
        simp [hs, hb]
      | cons b' pre =>
        cases he
        obtain ⟨hs', hb'⟩ := hpre a (.head _)
        rw [hb', hs', if_neg (by simp), if_pos rfl]
        exact ih.2 ⟨pre, b, suf, rfl, fun x hx => hpre x (.tail _ hx), hs, hb⟩

theorem reaches_append (hpre : ∀ b ∈ pre, skip b = true ∧ blocked b = false) :
    reaches blocked skip (pre ++ l) = reaches blocked skip l := by
  induction pre with
  | nil => rfl
  | cons a pre ih =>
    obtain ⟨hs, hb⟩ := hpre a (.head _)
    rw [List.cons_append, reaches, hb, hs, if_neg (by simp), if_pos rfl]
    exact ih fun b hb => hpre b (.tail _ hb)

theorem reaches_congr {β : Type} {f f' : β → α} {blocked' : α → Bool} {l : List β}
    (h : ∀ b ∈ l, blocked' (f' b) = blocked (f b) ∧ skip' (f' b) = skip (f b)) :
    reaches blocked' skip' (l.map f') = reaches blocked skip (l.map f) := by
  induction l with
  | nil => rfl
  | cons b l ih =>
    obtain ⟨hb, hs⟩ := h b (.head _)
    simp only [List.map_cons, reaches, hb, hs, ih fun x hx => h x (.tail _ hx)]

theorem reaches_mono (hle : ∀ a, skip a = true → skip' a = true)
    (h : reaches blocked skip' l = true) : reaches blocked skip l = true := by
  induction l with
  | nil => cases h
  | cons a l ih =>
    simp only [reaches] at h ⊢
    split at h
    · cases h
    next hb =>
      rw [if_neg hb]
      split
      next hs =>
        rw [if_pos (hle a hs)] at h
        exact ih h
      · rfl

end

namespace SendCtl

def nextDrops (pk : PacketOut) : Bool :=
  pk.repackno && !(decide (pk.regenSz < pk.dataSz) && pk.frameTypes != FrameType.padding.bit)

def rtoLimited (s : SendCtl) : Bool := s.nextLimit == 0 && s.getNConsecRtos.2 != 0

def blocked (s : SendCtl) (pk : PacketOut) : Bool := !pk.hasAck && s.rtoLimited

/-- A packet that is dropped although the prediction counts on it. -/
def misjudged (pk : PacketOut) : Bool := nextDrops pk && !predictSkips pk

def scheduled (s : SendCtl) : List PacketOut := (s.queue .scheduled).map s.pkt

/-- It counts on a packet that is going to be dropped, and none behind it is going to be sent. -/
def Misjudges (s : SendCtl) : Prop :=
  ∃ pre pk suf, s.scheduled = pre ++ pk :: suf ∧
    (∀ x ∈ pre, predictSkips x = true ∧ s.blocked x = false) ∧
    misjudged pk = true ∧ s.blocked pk = false ∧
    ¬ ∃ pre' pk' suf', suf = pre' ++ pk' :: suf' ∧
      (∀ x ∈ pre', nextDrops x = true ∧ s.blocked x = false) ∧
      nextDrops pk' = false ∧ s.blocked pk' = false

theorem nextDrops_of_predictSkips (pk : PacketOut) (h : predictSkips pk = true) :
    nextDrops pk = true := by
  simp only [predictSkips, Bool.and_eq_true, beq_iff_eq] at h
  obtain ⟨⟨hr, hz⟩, _⟩ := h
  simp [nextDrops, hr, hz]

theorem getNConsecRtos_snd (s : SendCtl) : s.getNConsecRtos.2 =
    if s.nConsecRtos ≠ 0 ∧ s.lastRtoTime + s.calculatePacketRto < s.lastSentTime then 0
    else s.nConsecRtos := by
  unfold getNConsecRtos
  split <;> rfl

theorem getNConsecRtos_idem (s : SendCtl) :
    s.getNConsecRtos.1.getNConsecRtos.2 = s.getNConsecRtos.2 := by
  unfold getNConsecRtos
  split
  · simp
  · rfl

theorem getNConsecRtos_kept (s : SendCtl) :
    s.getNConsecRtos.1.pkts = s.pkts ∧ s.getNConsecRtos.1.nextLimit = s.nextLimit := by
  unfold getNConsecRtos
  split <;> exact ⟨rfl, rfl⟩

theorem getNConsecRtos_rtoLimited (s : SendCtl) : s.getNConsecRtos.1.rtoLimited = s.rtoLimited := by
  rw [rtoLimited, (getNConsecRtos_kept s).2, getNConsecRtos_idem, rtoLimited]

section
variable {env : Env} {s s' : SendCtl} {p : PktId} {l : List PktId}

theorem blocked_congr (hl : s'.rtoLimited = s.rtoLimited) : s'.blocked = s.blocked := by
  funext pk
  rw [blocked, hl, blocked]

theorem predictLoop_eq (l : List PktId) (nRtos : Option Nat)
    (hn : ∀ n ∈ nRtos, n = s.getNConsecRtos.2) :
    (s.predictLoop nRtos l).2 = reaches s.blocked predictSkips (l.map s.pkt) := by
  induction l generalizing s nRtos with
  | nil => rfl
  | cons p l ih =>
    simp only [predictLoop, List.map_cons, reaches]
    generalize ht : (if (!(s.pkt p).hasAck && s.nextLimit == 0) = true then _ else _ :
      SendCtl × Option Nat × Bool) = t
    -- the number of timeouts is looked up at most once, and looking it up changes nothing else
    have hT : t.1.pkts = s.pkts ∧ t.1.rtoLimited = s.rtoLimited ∧
        (∀ n ∈ t.2.1, n = t.1.getNConsecRtos.2) ∧ t.2.2 = s.blocked (s.pkt p) := by
      subst ht
      simp only [blocked, rtoLimited, ← Bool.and_assoc]
      split
      next hc =>
        rw [hc]
        cases nRtos with
        | none =>
          refine ⟨(getNConsecRtos_kept s).1, getNConsecRtos_rtoLimited s, ?_, rfl⟩
          intro n hn
          rw [getNConsecRtos_idem, ← Option.some.inj hn]
        | some n => exact ⟨rfl, rfl, hn, by rw [hn n rfl]; rfl⟩
      next hc =>
        rw [eq_false_of_ne_true hc]
        exact ⟨rfl, rfl, hn, rfl⟩
    obtain ⟨hp, hl, hn', hb⟩ := hT
    rw [hb]
    have hpk : t.1.pkt = s.pkt := by
      funext a
      simp only [pkt, hp]
    split
    · rfl
    · split
      · rw [ih t.2.1 hn', blocked_congr hl, hpk]
      · rfl

theorem nextPacketToSendPredict_eq (s : SendCtl) :
    s.nextPacketToSendPredict.2 = reaches s.blocked predictSkips s.scheduled :=
  predictLoop_eq _ none (by simp)

theorem line_sublist_of_moves {g g' : Cfg} (hM : Moves (fun _ => False) g g')
    (hS : Sound g.core g.hand g.doomed) : g'.core.line.Sublist g.core.line := by
  induction hM with
  | refl => exact .refl _
  | @snoc g' g'' hM hm ih =>
    obtain ⟨c', h', x'⟩ := g'
    obtain ⟨c'', h'', x''⟩ := g''
    cases hm.line_of (hM.sound hS).placed with
    | idle hl => exact hl ▸ ih
    | setGap hl => exact hl ▸ ih
    | leave he hl =>
      simp only [he, hl] at ih ⊢
      exact ((List.sublist_cons_self _ _).append_left _).trans ih
    | enter hm => exact hm.elim
    | renumber hm => exact hm.elim
    | send hm => exact hm.elim
    | cut hm => exact hm.elim
    | reset hm => exact hm.elim
    | rebuild hm => exact hm.elim

theorem ids_line (c : Core) : c.line.map Place.id = c.queue .scheduled := by
  simp [Core.line, Core.place, Function.comp_def]

theorem line_dropSched (hS : s.Settled env) (hq : (s.core env).queue .scheduled = p :: l) :
    ((s.dropSched env p).core env).line = (s.core env).line.tail := by
  have hp : p ∈ (s.core env).queue .scheduled := hq ▸ List.mem_cons_self
  have hnd : ((s.core env).queue .scheduled).Nodup := hS.placed.nodup (some .scheduled)
  have hD : Dropped env (fun _ => False) s p (s.dropSched env p) := dropSched_spec hS hp
  generalize s.dropSched env p = s' at hD
  have hsub := line_sublist_of_moves hD.moves hS
  have hl : (s.core env).line = (s.core env).place p :: (s.core env).line.tail := by
    rw [Core.line, hq]
    rfl
  have hids : (s.core env).line.tail.map Place.id = l := by
    rw [List.map_tail, ids_line, hq]
    rfl
  have hsub' : (s'.core env).line.Sublist (s.core env).line.tail := by
    rw [hl] at hsub
    rcases List.sublist_cons_iff.1 hsub with h | ⟨r, hr, -⟩
    · exact h
    · have hmem : p ∈ (s'.core env).queue .scheduled := by
        rw [← ids_line, hr]
        exact .head _
      exact absurd rfl (hD.left .scheduled (by simp) p hmem).1
  apply hsub'.eq_of_length_le
  have hmem : l ⊆ (s'.core env).queue .scheduled := by
    intro a ha
    have ha' : a ∈ (s.core env).queue .scheduled := hq ▸ List.mem_cons_of_mem _ ha
    have hne : a ≠ p := fun h => (List.nodup_cons.1 (hq ▸ hnd)).1 (h ▸ ha)
    exact (hD.keep .scheduled a hne (hS.placed.sched ha').2.1.1).2 ha'
  have hlen := ((List.nodup_cons.1 (hq ▸ hnd)).2.subperm hmem).length_le
  rw [← hids, ← ids_line, List.length_map, List.length_map] at hlen
  exact hlen

def outlook (pk : PacketOut) : PacketOut := { pk.lasting with repackno := pk.repackno }

theorem outlook_dropSched (hS : s.Settled env) (hq : s.queue .scheduled = p :: l) :
    (s.dropSched env p).queue .scheduled = l ∧
    ∀ a ∈ l, outlook ((s.dropSched env p).pkt a) = outlook (s.pkt a) := by
  have hL := line_dropSched hS hq
  have hsp : ∀ a, Spares a s (s.dropSched env p) :=
    fun a => (schedRemove_spares s p).trans (destroyChain_spares _ p none)
  generalize s.dropSched env p = s' at hL hsp
  have hQ : s'.queue .scheduled = l := by
    have h := congrArg (List.map Place.id) hL
    rw [ids_line, List.map_tail, ids_line] at h
    exact h.trans (congrArg List.tail hq)
  refine ⟨hQ, fun a ha => ?_⟩
  have hlt : a < s.nextId :=
    hS.placed.on (hq ▸ List.mem_cons_of_mem _ ha : a ∈ s.queue .scheduled)
  have hr : (s'.pkt a).repackno = (s.pkt a).repackno := by
    have hq₁ : (s.core env).queue .scheduled = p :: l := hq
    have hq₂ : (s'.core env).queue .scheduled = l := hQ
    rw [Core.line, Core.line, hq₁, hq₂] at hL
    exact congrArg Place.marked (List.map_inj_left.1 hL a ha)
  rw [outlook, lasting_of_spares hsp hlt, hr, outlook]

theorem rtoLimited_of_steady (h : s'.steady = s.steady) : s'.rtoLimited = s.rtoLimited := by
  simp only [steady, Prod.mk.injEq] at h
  obtain ⟨-, hl, hn, hr, ht, hrtt, -⟩ := h
  have hg : s'.getNConsecRtos.2 = s.getNConsecRtos.2 := by
    simp only [getNConsecRtos_snd, calculatePacketRto, hn, hr, ht, hrtt]
    congr
  rw [rtoLimited, hl, hg, rtoLimited]

theorem blocked_outlook (s : SendCtl) (pk : PacketOut) : s.blocked (outlook pk) = s.blocked pk :=
  rfl

theorem nextDrops_outlook (pk : PacketOut) : nextDrops (outlook pk) = nextDrops pk := rfl

theorem reaches_dropSched (hS : s.Settled env) (hq : s.queue .scheduled = p :: l) :
    reaches (s.dropSched env p).blocked nextDrops (s.dropSched env p).scheduled =
    reaches s.blocked nextDrops (l.map s.pkt) := by
  obtain ⟨hQ, hO⟩ := outlook_dropSched hS hq
  have hsp : Spares p s (s.dropSched env p) :=
    (schedRemove_spares s p).trans (destroyChain_spares _ p none)
  generalize s.dropSched env p = s' at hQ hO hsp
  rw [scheduled, hQ]
  apply reaches_congr
  intro a ha
  rw [blocked_congr (rtoLimited_of_steady hsp.steady)]
  constructor
  · rw [← blocked_outlook, hO a ha, blocked_outlook]
  · rw [← nextDrops_outlook, hO a ha, nextDrops_outlook]

theorem takeHead_isSome (s : SendCtl) (p : PktId) (decLimit : Bool) :
    (s.takeHead env p none decLimit).2.isSome = true := by
  simp [takeHead, refused]

/-- The loop sends if it gets to a packet that it neither drops nor finds blocked. -/
theorem nextPacketLoop_isSome (hS : s.Settled env) (n : Nat)
    (hn : (s.queue .scheduled).length < n) :
    (nextPacketLoop env none n s).2.isSome = reaches s.blocked nextDrops s.scheduled := by
  induction n generalizing s with
  | zero => exact absurd hn (Nat.not_lt_zero _)
  | succ n ih =>
    simp only [nextPacketLoop, scheduled]
    cases hq : s.queue .scheduled with
    | nil => rfl
    | cons p l =>
      simp only [List.head?_cons, List.map_cons, reaches]
      generalize ht : (if (s.pkt p).hasAck = true then (s, 0) else s.getNConsecRtos) = t
      have hT : t.1.core env = s.core env ∧ t.1.pkts = s.pkts ∧ t.1.queue = s.queue ∧
          t.1.rtoLimited = s.rtoLimited ∧
          ((t.2 ≠ 0 ∧ t.1.nextLimit = 0) ↔ s.blocked (s.pkt p) = true) := by
        subst ht
        split
        next ha => exact ⟨rfl, rfl, rfl, rfl, by simp [blocked, ha]⟩
        next ha =>
          obtain ⟨hp, hl⟩ := getNConsecRtos_kept s
          refine ⟨core_getNConsecRtos s, hp, ?_, getNConsecRtos_rtoLimited s, ?_⟩
          · unfold getNConsecRtos
            split <;> rfl
          · simp [blocked, rtoLimited, hl, eq_false_of_ne_true ha, and_comm]
      obtain ⟨hc, hp, hqs, hl, hb⟩ := hT
      have hpk : t.1.pkt = s.pkt := by
        funext a
        simp only [pkt, hp]
      rw [← hqs] at hq hn
      replace hS : t.1.Settled env := hS.of_core hc
      rw [← blocked_congr hl, ← hpk] at hb ⊢
      generalize t.1 = s at *
      split
      next h =>
        rw [if_pos (hb.1 h)]
        rfl
      next h =>
        rw [if_neg fun h' => h (hb.2 h')]
        split
        next hr =>
          split
          next hz =>
            rw [if_neg (by simp [nextDrops, hr, hz])]
            exact takeHead_isSome _ p _
          next hz =>
            have hd : nextDrops (s.pkt p) = true := by
              rw [nextDrops, hr, Bool.true_and, Bool.not_eq_true', ← Bool.not_eq_true]
              simpa using hz
            have hM := (dropSched_spec (m := fun _ => False) hS (hq ▸ List.mem_cons_self)).moves
            rw [if_pos hd, ← reaches_dropSched hS hq]
            refine @ih (s.dropSched env p) (hM.sound hS) ?_
            rw [(outlook_dropSched hS hq).1]
            rw [hq] at hn
            exact Nat.lt_of_succ_lt_succ hn
        next hr =>
          rw [if_neg (by simp [nextDrops, hr])]
          exact takeHead_isSome _ p _

theorem nextPacketToSend_isSome (hS : s.Settled env) :
    (s.nextPacketToSend env none).2.isSome = reaches s.blocked nextDrops s.scheduled :=
  nextPacketLoop_isSome hS _ (Nat.lt_succ_self _)

/-- The prediction is never false when a packet is going to be sent. -/
theorem misjudges_iff (s : SendCtl) : s.Misjudges ↔
    reaches s.blocked predictSkips s.scheduled = true ∧
    reaches s.blocked nextDrops s.scheduled = false := by
  constructor
  · rintro ⟨pre, pk, suf, he, hpre, hm, hb, hno⟩
    simp only [misjudged, Bool.and_eq_true, Bool.not_eq_true'] at hm
    refine ⟨reaches_iff.2 ⟨pre, pk, suf, he, hpre, hm.2, hb⟩, ?_⟩
    rw [he, reaches_append fun x hx => ⟨nextDrops_of_predictSkips x (hpre x hx).1, (hpre x hx).2⟩,
      reaches, hb, hm.1, if_neg (by simp), if_pos rfl]
    exact eq_false_of_ne_true fun h => hno (reaches_iff.1 h)
  · rintro ⟨hP, hN⟩
    obtain ⟨pre, pk, suf, he, hpre, hs, hb⟩ := reaches_iff.1 hP
    rw [he, reaches_append fun x hx => ⟨nextDrops_of_predictSkips x (hpre x hx).1, (hpre x hx).2⟩,
      reaches, hb, if_neg (by simp)] at hN
    split at hN
    next hd =>
      refine ⟨pre, pk, suf, he, hpre, by simp [misjudged, hd, hs], hb, fun h => ?_⟩
      rw [reaches_iff.2 h] at hN
      cases hN
    · cases hN

end

end SendCtl

open SendCtl

/-- The prediction is right unless it counts on a packet that is going to be dropped. -/
theorem predict_eq_isSome_iff {env : Env} {s : SendCtl} (h : Reachable env s)
    (ha : s.aborted = false) :
    s.nextPacketToSendPredict.2 = (s.nextPacketToSend env none).2.isSome ↔ ¬ s.Misjudges := by
  rw [nextPacketToSendPredict_eq, nextPacketToSend_isSome (h.sound ha), misjudges_iff]
  have hle : reaches s.blocked nextDrops s.scheduled = true →
      reaches s.blocked predictSkips s.scheduled = true := reaches_mono nextDrops_of_predictSkips
  cases hN : reaches s.blocked nextDrops s.scheduled with
  | false => simp
  | true => simp [hle hN]

theorem predict_of_renumbered : ∃ s, Reachable quietEnv s ∧ s.aborted = false ∧
    s.scheduled.length = 1 ∧ s.nextPacketToSendPredict.2 = true ∧ ¬ s.Misjudges := by
  obtain ⟨s, hs, ha, hl, hP, hN⟩ : ∃ s, Reachable quietEnv s ∧ s.aborted = false ∧
      s.scheduled.length = 1 ∧ s.nextPacketToSendPredict.2 = true ∧
      (s.nextPacketToSend quietEnv none).2.isSome = true := exists_run
    [.scheduleNew 0 .app 1 challengeContent, .scheduleNew 0 .app 0 streamContent,
      .cancelPathVerification 1] (by decide +kernel)
  exact ⟨s, hs, ha, hl, hP, (predict_eq_isSome_iff hs ha).1 (hP.trans hN.symm)⟩

/-- A renumbered PATH_CHALLENGE does not fit, which leaves only padding; then the numbers are reset.
-/
theorem padding_predicted_not_sent : ∃ s, Reachable quietEnv s ∧ s.aborted = false ∧
    s.nextPacketToSendPredict.2 = true ∧ (s.nextPacketToSend quietEnv none).2 = none :=
  exists_run
    [.scheduleNew 0 .app 0 streamContent, .scheduleNew 0 .app 0 challengeContent, .resetPacknos,
      .send none 126 1000, .send (some ⟨126⟩) 1370 1000, .resetPacknos] (by decide +kernel)

end QuicArt
