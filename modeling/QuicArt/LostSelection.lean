import QuicArt.Reach

namespace QuicArt

namespace SendCtl

section
variable (env : Env)

/-- A replica of ART goes ahead of everything, any other packet needs leave to send. -/
def lostAllowed (s : SendCtl) (p : PktId) : SendCtl × Bool :=
  if (s.pkt p).fakeLossRec ≠ 0 ∧ 0 < (s.pkt p).retransPacketNumber then (s, true) else s.canSend env

def lostEmptied (s : SendCtl) (p : PktId) : Bool :=
  (s.pkt p).frameTypes.has FrameType.stream.bit && !(s.pkt p).mini &&
    decide (((s.elideLost p).pkt p).dataSz ≤ ((s.elideLost p).pkt p).regenSz)

/-- How far the selection loop has come: the packets it has skipped and the one it lets through. -/
structure Selection where
  ctl : SendCtl
  skipped : List PktId
  chosen : Option PktId

/-- The loop of `send_ctl_next_lost` up to its choice. -/
def selectLoop : Nat → SendCtl → List PktId → Option PktId → Selection
  | 0, s, skipped, _ => ⟨s, skipped, none⟩
  | _ + 1, s, skipped, none => ⟨s, skipped, none⟩
  | n + 1, s, skipped, some p =>
    let next := nextOf p (s.queue .lost)
    if s.lostEmptied p then selectLoop n ((s.elideLost p).dropElidedLost env p) skipped next
    else
      let r := (s.elideLost p).lostAllowed env p
      if r.2 then ⟨r.1, skipped, some p⟩ else selectLoop n r.1 (skipped ++ [p]) next

def selectLost (s : SendCtl) : Selection :=
  selectLoop env (s.queue .lost).length s [] (s.queue .lost).head?

/-- What `send_ctl_next_lost` does with its choice. -/
def takeChosen (s : SendCtl) (p : PktId) : SendCtl × Option PktId :=
  if (s.pkt p).totalSz env ≤ env.scPackSize s.tick then (s.popLostPacket p, some p)
  else
    match s.splitLostPacket env p with
    | (s, true) =>
      match (s.queue .lost).head? with
      | some first => (s.popLostPacket first, some first)
      | none => (s, none)
    | (s, false) => (s, none)

def Selection.taken (sel : Selection) : SendCtl × Option PktId :=
  match sel.chosen with
  | some p => sel.ctl.takeChosen env p
  | none => (sel.ctl, none)

end

section
variable {env : Env} {s : SendCtl} {p a : PktId} {next : Option PktId} {q : Queue}

theorem canSend_pkt (s : SendCtl) (p : PktId) : (s.canSend env).1.pkt p = s.pkt p := by
  simp only [canSend, regularCanSend]
  repeat' split
  all_goals rfl

theorem canSend_queue (s : SendCtl) (q : Queue) : (s.canSend env).1.queue q = s.queue q := by
  simp only [canSend, regularCanSend]
  repeat' split
  all_goals rfl

theorem lostAllowed_pkt (s : SendCtl) (p a : PktId) :
    (s.lostAllowed env p).1.pkt a = s.pkt a := by
  simp only [lostAllowed]
  split
  · rfl
  · exact canSend_pkt s a

theorem lostAllowed_queue (s : SendCtl) (p : PktId) (q : Queue) :
    (s.lostAllowed env p).1.queue q = s.queue q := by
  simp only [lostAllowed]
  split
  · rfl
  · exact canSend_queue s q

theorem lostAllowed_core (s : SendCtl) (p : PktId) :
    (s.lostAllowed env p).1.core env = s.core env := by
  simp only [lostAllowed]
  split
  · rfl
  · exact core_canSend s

theorem nextLostLoop_eq (n : Nat) (s : SendCtl) (skipped : List PktId) (next : Option PktId) :
    nextLostLoop env n s next = (selectLoop env n s skipped next).taken env := by
  induction n generalizing s skipped next with
  | zero => rfl
  | succ n ih =>
    cases next with
    | none => rfl
    | some p =>
      cases hd : s.lostEmptied p with
      | true =>
        have hd' := hd
        simp only [lostEmptied] at hd'
        simp only [nextLostLoop, selectLoop, hd, hd', if_true]
        exact ih _ _ _
      | false =>
        have hd' := hd
        simp only [lostEmptied] at hd'
        have hpk : ((s.elideLost p).lostAllowed env p).1.pkt p = (s.elideLost p).pkt p :=
          lostAllowed_pkt _ _ _
        cases hr : (s.elideLost p).lostAllowed env p with
        | mk s₁ allowed =>
          have hr' := hr
          simp only [lostAllowed] at hr'
          have hpk : s₁.pkt p = (s.elideLost p).pkt p := by rwa [hr] at hpk
          simp only [nextLostLoop, selectLoop, hd, hd', hr, hr', Bool.false_eq_true, if_false]
          cases allowed with
          | false => exact ih _ _ _
          | true =>
            simp only [Bool.not_true, Bool.false_eq_true, if_false, if_true, Selection.taken,
              takeChosen]
            exact hpk ▸ rfl

theorem nextLost_eq (s : SendCtl) : s.nextLost env = (s.selectLost env).taken env :=
  nextLostLoop_eq _ s [] _

theorem setQueue_sublist {l : List PktId} {q' : Queue} (s : SendCtl) (h : l.Sublist (s.queue q'))
    (q : Queue) : ((s.setQueue q' l).queue q).Sublist (s.queue q) := by
  have hq : (s.setQueue q' l).queue q = if q = q' then l else s.queue q := Table.get_set _ _ _ _
  rw [hq]
  split
  next he => rw [he]; exact h
  · exact .refl _

theorem markRepackno_queues (s : SendCtl) (l : List PktId) :
    (s.markRepackno l).queues = s.queues := by
  induction l generalizing s with
  | nil => rfl
  | cons p l ih =>
    simp only [markRepackno]
    split
    · rfl
    · exact ih _

theorem maybeRenumberSchedToRight_queue (s : SendCtl) (a : PktId) (q : Queue) :
    (s.maybeRenumberSchedToRight a).queue q = s.queue q := by
  simp only [maybeRenumberSchedToRight]
  split
  · rfl
  · exact congrArg (Table.get · q) (markRepackno_queues _ _)

theorem destroyMember_sublist (n : Pns) (s : SendCtl) (next : Option PktId) (a : PktId)
    (q : Queue) :
    ((s.destroyMember env n next a).1.queue q).Sublist (s.queue q) := by
  have hunacked : ((s.unackedRemove env a ((s.pkt a).sentSize env)).queue q).Sublist
      (s.queue q) := by
    have h := setQueue_sublist s
      (List.erase_sublist (a := a) (l := s.queue (.unacked (s.pkt a).pns))) q
    simp only [unackedRemove]
    split <;> exact h
  have hsched : (((s.maybeRenumberSchedToRight a).schedRemove env a).queue q).Sublist
      (s.queue q) := by
    rw [← maybeRenumberSchedToRight_queue s a q]
    exact setQueue_sublist _ List.erase_sublist q
  have hemit : ∀ t : SendCtl, (t.queue q).Sublist (s.queue q) →
      ((if (s.pkt a).lossRec then t else t.emit (.ackStreams a)).queue q).Sublist (s.queue q) := by
    intro t ht
    split <;> exact ht
  simp only [destroyMember]
  apply hemit
  split
  · exact hsched
  · split
    · split <;> exact setQueue_sublist s List.erase_sublist q
    · exact hunacked
  · exact setQueue_sublist s List.erase_sublist q
  · exact .refl _

theorem destroyChainLoop_sublist (n : Pns) (p : PktId) (k : Nat) (s : SendCtl)
    (next : Option PktId) (cur : PktId) (q : Queue) :
    ((destroyChainLoop env n p k s next cur).1.queue q).Sublist (s.queue q) := by
  induction k generalizing s next cur with
  | zero => exact .refl _
  | succ k ih =>
    simp only [destroyChainLoop]
    split
    · exact .refl _
    · exact (ih _ _ _).trans (destroyMember_sublist n s next cur q)

theorem destroyChain_sublist (s : SendCtl) (p : PktId) (next : Option PktId) (q : Queue) :
    ((s.destroyChain env p next).1.queue q).Sublist (s.queue q) :=
  destroyChainLoop_sublist _ _ _ _ _ _ _

theorem dropLost_queue (hS : s.Settled env) (hp : p ∈ s.queue .lost) :
    (s.dropLost env p).queue .lost = (s.queue .lost).erase p := by
  have hD : Dropped env (fun _ => True) s p (s.dropLost env p) := dropLost_spec trivial hS hp
  have hnd : (s.queue .lost).Nodup := hS.placed.nodup (some .lost)
  have hq : ((s.lostRemove p).upd p ({ · with lost := false })).queue .lost =
      (s.queue .lost).erase p := (Table.get_set _ _ _ _).trans (if_pos rfl)
  have hsub := @destroyChain_sublist env ((s.lostRemove p).upd p ({ · with lost := false })) p none
    .lost
  rw [hq] at hsub
  apply hsub.eq_of_length_le
  apply List.Subperm.length_le
  refine (hnd.erase p).subperm fun a ha => ?_
  obtain ⟨hne, ha⟩ := (List.Nodup.mem_erase_iff hnd).1 ha
  exact (hD.keep .lost a hne (hS.placed.lost ha).2.1.1).2 ha

theorem dropElidedLost_queue (hS : s.Settled env) (hp : p ∈ s.queue .lost) :
    (s.dropElidedLost env p).queue .lost = (s.queue .lost).erase p := by
  rw [← dropLost_queue hS hp]
  simp only [dropElidedLost]
  split <;> rfl

theorem elideLost_queue (s : SendCtl) (p : PktId) (q : Queue) :
    (s.elideLost p).queue q = s.queue q := by
  simp only [elideLost]
  split <;> rfl

structure Selected (env : Env) (s : SendCtl) (sel : Selection) : Prop where
  moves : Moves (fun _ => True) ⟨s.core env, [], []⟩ ⟨sel.ctl.core env, [], []⟩
  queue : ∃ rest, sel.ctl.queue .lost = sel.skipped ++ rest ∧ sel.chosen = rest.head?

theorem Selected.after {s' : SendCtl} {sel : Selection} (hM : s.Evolves env (fun _ => True) s')
    (h : Selected env s' sel) :
    Selected env s sel :=
  ⟨hM.trans h.moves, h.queue⟩

theorem selectLoop_spec (hS : s.Settled env) (hq : s.queue .lost = sk ++ l) (hn : l.length ≤ n) :
    Selected env s (selectLoop env n s sk l.head?) := by
  induction n generalizing s sk l with
  | zero =>
    have hl : l = [] := List.eq_nil_of_length_eq_zero (Nat.le_zero.1 hn)
    subst hl
    exact ⟨.refl, [], hq, rfl⟩
  | succ n ih =>
    cases l with
    | nil => exact ⟨.refl, [], hq, rfl⟩
    | cons p l =>
      have hnd : (sk ++ p :: l).Nodup := hq ▸ hS.placed.nodup (some .lost)
      have hpsk : p ∉ sk := fun h => (List.nodup_append.1 hnd).2.2 p h p (.head _) rfl
      have hp : p ∈ s.queue .lost := by rw [hq]; simp
      have hnext : nextOf p (s.queue .lost) = l.head? := by rw [hq, nextOf_split hpsk]
      have hR : Rewritten env s p (s.elideLost p) := elideLost_rewrites s p
      have hM : s.Evolves env (fun _ => True) (s.elideLost p) :=
        (hR.visited hS hp (by simp)).1
      have hS₁ := hM.sound hS
      have hq₁ : (s.elideLost p).queue .lost = sk ++ p :: l := (elideLost_queue s p .lost).trans hq
      have hp₁ : p ∈ (s.elideLost p).queue .lost := by rw [hq₁]; simp
      have hlen : l.length ≤ n := Nat.le_of_succ_le_succ hn
      apply Selected.after hM
      simp only [List.head?_cons, selectLoop, hnext]
      split
      · obtain ⟨hD, -⟩ : Dropped env (fun _ => True) (s.elideLost p) p _ ∧ _ :=
          dropElidedLost_spec trivial hS₁ hp₁ fun _ => trivial
        apply Selected.after hD.moves
        refine ih (hD.moves.sound hS₁) ?_ hlen
        rw [dropElidedLost_queue hS₁ hp₁, hq₁, erase_split hpsk]
      · have hM₂ : (s.elideLost p).Evolves env (fun _ => True)
            ((s.elideLost p).lostAllowed env p).1 := .of_core .refl (lostAllowed_core _ _)
        have hq₂ : ((s.elideLost p).lostAllowed env p).1.queue .lost = sk ++ p :: l :=
          (lostAllowed_queue _ _ _).trans hq₁
        apply Selected.after hM₂
        split
        · exact ⟨.refl, p :: l, hq₂, rfl⟩
        · exact ih (hM₂.sound hS₁) (hq₂.trans (by simp)) hlen

theorem selectLost_spec (hS : s.Settled env) : Selected env s (s.selectLost env) :=
  selectLoop_spec hS (List.nil_append _).symm le_rfl

theorem insertLostPiece_queue (c : Content) (hq : s.queue .lost = sk ++ p :: rest) (hp : p ∉ sk) :
    (insertLostPiece env p s c).queue .lost = (sk ++ [s.nextId]) ++ p :: rest := by
  have h : (insertLostPiece env p s c).queue .lost = insertBefore p s.nextId (s.queue .lost) :=
    (Table.get_set _ _ _ _).trans (if_pos rfl)
  rw [h, hq, insertBefore_split hp]
  simp

theorem insertLostPieces_queue (pieces : List Content) (hq : s.queue .lost = sk ++ p :: rest)
    (hp : p ∉ sk) (hlt : p < s.nextId) :
    (pieces.foldl (insertLostPiece env p) s).queue .lost =
        sk ++ List.range' s.nextId pieces.length ++ p :: rest ∧
      ∀ a, a < s.nextId → (pieces.foldl (insertLostPiece env p) s).pkt a = s.pkt a := by
  induction pieces generalizing s sk with
  | nil => exact ⟨by simpa using hq, fun _ _ => rfl⟩
  | cons c pieces ih =>
    have hn : (insertLostPiece env p s c).nextId = s.nextId + 1 := rfl
    have hp' : p ∉ sk ++ [s.nextId] := by
      simp only [List.mem_append, List.mem_singleton, not_or]
      exact ⟨hp, Nat.ne_of_lt hlt⟩
    obtain ⟨hq', hpk⟩ := ih (insertLostPiece_queue c hq hp) hp' (Nat.lt_succ_of_lt hlt)
    rw [List.foldl_cons]
    refine ⟨?_, fun a ha => ?_⟩
    · rw [hq', hn, List.length_cons, List.range'_succ]
      simp
    · rw [hpk a (Nat.lt_succ_of_lt ha), insertLostPiece_pkt, if_neg (Nat.ne_of_lt ha)]

theorem insertLostPieces_first (c : Content) (pieces : List Content)
    (hq : s.queue .lost = sk ++ p :: rest) (hp : p ∉ sk) (hlt : p < s.nextId) :
    ((c :: pieces).foldl (insertLostPiece env p) s).pkt s.nextId =
      { s.piece env p c with lost := true } := by
  have hp' : p ∉ sk ++ [s.nextId] := by
    simp only [List.mem_append, List.mem_singleton, not_or]
    exact ⟨hp, Nat.ne_of_lt hlt⟩
  obtain ⟨-, hpk⟩ := @insertLostPieces_queue env (insertLostPiece env p s c) p _ _ pieces
    (insertLostPiece_queue c hq hp) hp' (Nat.lt_succ_of_lt hlt)
  rw [List.foldl_cons, hpk s.nextId (Nat.lt_succ_self _), insertLostPiece_pkt, if_pos rfl]

theorem splitLostPacket_fails
    (h : ¬ ((s.resizeOne env p).2.2 = false ∧ 1 < (s.resizeOne env p).1.length)) :
    (s.splitLostPacket env p).2 = false := by
  simp only [splitLostPacket]
  split
  · rfl
  next hok =>
    simp only [Bool.or_eq_true, decide_eq_true_eq, not_or, Bool.not_eq_true, Nat.not_le] at hok
    exact absurd hok h

/-- The first piece has the room of a new packet, which for an Initial packet leaves out a long
length of the token. -/
theorem piece_fits (hR : env.Resizes) (hc : c ∈ (s.resizeOne env p).1)
    (hn : (s.pkt p).pns ≠ .init) :
    (s.ticked.piece env p c).totalSz env ≤ env.packSize (s.pkt p).path := by
  obtain ⟨hpos, hle, -⟩ := hR _ _ _ c hc
  have htoken : ∀ c, (s.ticked.piece env p c).tokenLen = 0 := fun _ => if_neg hn
  have hroom : (s.ticked.piece env p {}).nAlloc = env.packSize (s.pkt p).path -
      (env.headerSz (pns2hety (s.pkt p).pns) (s.ticked.calcPacknoBits env) 0 (s.pkt p).path +
        env.tagLen) - (s.ticked.piece env p {}).tokenLen := rfl
  have htotal : (s.ticked.piece env p c).totalSz env =
      env.headerSz (pns2hety (s.pkt p).pns) (s.ticked.calcPacknoBits env)
        (s.ticked.piece env p c).tokenLen (s.pkt p).path + c.dataSz + env.tagLen := rfl
  rw [htoken] at hroom htotal
  omega

theorem splitLostPacket_spec (hS : s.Settled env) (hq : s.queue .lost = sk ++ p :: rest)
    (hr : s.resizeOne env p = (c :: pieces, n, false)) (hne : pieces ≠ []) :
    ∃ t, s.splitLostPacket env p = (t, true) ∧
      (∃ tail, t.queue .lost = sk ++ s.nextId :: tail) ∧
      (t.pkt s.nextId).totalSz env = (s.ticked.piece env p c).totalSz env ∧
      (t.pkt s.nextId).path = (s.pkt p).path := by
  have hp : p ∈ s.queue .lost := by rw [hq]; simp
  have hnd : (sk ++ p :: rest).Nodup := hq ▸ hS.placed.nodup (some .lost)
  have hpsk : p ∉ sk := fun h => (List.nodup_append.1 hnd).2.2 p h p (.head _) rfl
  have hlt : p < s.nextId := hS.placed.on hp
  obtain ⟨hM, hp₁, -⟩ := insertLostPieces_moves (m := fun _ => True) (h := []) (s := s.ticked)
    trivial (c :: pieces) hp (.inl trivial)
  obtain ⟨hq₁, -⟩ : ((c :: pieces).foldl (insertLostPiece env p) s.ticked).queue .lost =
      sk ++ List.range' s.nextId (c :: pieces).length ++ p :: rest ∧ _ :=
    insertLostPieces_queue (s := s.ticked) (c :: pieces) hq hpsk hlt
  have hfirst : ((c :: pieces).foldl (insertLostPiece env p) s.ticked).pkt s.nextId =
      { s.ticked.piece env p c with lost := true } :=
    insertLostPieces_first (s := s.ticked) c pieces hq hpsk hlt
  have hS₁ := hM.sound hS
  have hidlt : s.nextId < ((c :: pieces).foldl (insertLostPiece env p) s.ticked).nextId := by
    apply hS₁.placed.lt s.nextId (some .lost)
    show s.nextId ∈ ((c :: pieces).foldl (insertLostPiece env p) s.ticked).queue .lost
    rw [hq₁]
    simp [List.range'_succ]
  have hlen : ¬ (c :: pieces).length ≤ 1 := by
    cases pieces with
    | nil => exact absurd rfl hne
    | cons c' pieces => simp
  simp only [splitLostPacket, hr, Bool.false_or, decide_eq_true_eq, if_neg hlen]
  generalize (c :: pieces).foldl (insertLostPiece env p) s.ticked = t at hM hp₁ hq₁ hfirst hS₁ hidlt
  refine ⟨t.dropLost env p, rfl, ?_, ?_⟩
  · rw [dropLost_queue hS₁ hp₁, hq₁, erase_split]
    · exact ⟨_, by rw [List.length_cons, List.range'_succ, List.append_assoc, List.cons_append]⟩
    · simp only [List.mem_append, List.mem_range', not_or]
      refine ⟨hpsk, ?_⟩
      rintro ⟨i, -, hi⟩
      exact absurd hlt (Nat.not_lt.2 (hi ▸ Nat.le_add_right _ _))
  · have hl := @lasting_of_spares t _ s.nextId (@dropLost_spares env t p) hidlt
    exact ⟨(PacketOut.congr_lasting (f := fun pk => pk.totalSz env) hl fun _ => rfl).trans
        (by rw [hfirst]; rfl),
      (PacketOut.congr_lasting (f := fun pk => pk.path) hl fun _ => rfl).trans
        (by rw [hfirst]; rfl)⟩

/-- The packet that is let through, or a piece of it, is returned within the limit of the path; the
skipped ones stay. -/
structure NextLostRight (env : Env) (s : SendCtl) : Prop where
  chosen : ∀ p, (s.nextLost env).2 = some p → ∃ c, (s.selectLost env).chosen = some c ∧
    (p = c ∨ (s.selectLost env).ctl.nextId ≤ p)
  fits : ∀ p, (s.nextLost env).2 = some p →
    ((s.nextLost env).1.pkt p).totalSz env ≤ env.packSize ((s.nextLost env).1.pkt p).path
  stay : ∀ a ∈ (s.selectLost env).skipped, a ∈ (s.nextLost env).1.queue .lost
  none : (s.nextLost env).2 = none → (s.selectLost env).chosen = none

/-- Where the current path takes the packet, so does its own; where it has to be split, nothing was
skipped and there are pieces. The first piece of an Initial packet fits its path. -/
def Sendable (env : Env) (sel : Selection) (p : PktId) : Prop :=
  if (sel.ctl.pkt p).totalSz env ≤ env.scPackSize sel.ctl.tick then
    (sel.ctl.pkt p).totalSz env ≤ env.packSize (sel.ctl.pkt p).path
  else
    sel.skipped = [] ∧
      ((sel.ctl.resizeOne env p).2.2 = false ∧ 1 < (sel.ctl.resizeOne env p).1.length) ∧
      ((sel.ctl.pkt p).pns = .init → ∀ c ∈ (sel.ctl.resizeOne env p).1.head?,
        (sel.ctl.ticked.piece env p c).totalSz env ≤ env.packSize (sel.ctl.pkt p).path)

theorem popLostPacket_queue (s : SendCtl) (p : PktId) :
    (s.popLostPacket p).queue .lost = (s.queue .lost).erase p :=
  (Table.get_set _ _ _ _).trans (if_pos rfl)

theorem popLostPacket_pkt (s : SendCtl) (p : PktId) :
    (s.popLostPacket p).pkt p = { s.pkt p with lost := false, retx := true } :=
  pkt_upd_self _ _ _

theorem exists_pieces {r : List Content × Nat × Bool} (h : r.2.2 = false ∧ 1 < r.1.length) :
    ∃ c pieces n, r = (c :: pieces, n, false) ∧ pieces ≠ [] := by
  obtain ⟨_ | ⟨c, _ | ⟨c', pieces⟩⟩, n, err⟩ := r
  · exact absurd h.2 (by simp)
  · exact absurd h.2 (by simp)
  · obtain ⟨rfl, -⟩ := h
    exact ⟨c, c' :: pieces, n, rfl, by simp⟩

section
variable {sel : Selection} {t : SendCtl} (hsel : s.selectLost env = sel) (hc : sel.chosen = some p)
include hsel hc

theorem nextLostRight_iff (hn : s.nextLost env = (t, some a)) :
    NextLostRight env s ↔ (a = p ∨ sel.ctl.nextId ≤ a) ∧
      (t.pkt a).totalSz env ≤ env.packSize (t.pkt a).path ∧
      ∀ b ∈ sel.skipped, b ∈ t.queue .lost := by
  subst hsel
  constructor
  · intro h
    obtain ⟨c, hc', ha⟩ := h.chosen a (by rw [hn])
    obtain rfl := Option.some.inj (hc.symm.trans hc')
    have hfits := h.fits a (by rw [hn])
    have hstay := h.stay
    rw [hn] at hfits hstay
    exact ⟨ha, hfits, hstay⟩
  · rintro ⟨ha, hfits, hstay⟩
    refine ⟨fun p' hp' => ?_, fun p' hp' => ?_, fun b hb => ?_, fun hno => ?_⟩
    · rw [hn] at hp'
      cases hp'
      exact ⟨p, hc, ha⟩
    · rw [hn] at hp' ⊢
      cases hp'
      exact hfits
    · rw [hn]
      exact hstay b hb
    · rw [hn] at hno
      cases hno

theorem selectLost_split (hS : s.Settled env) : sel.ctl.Settled env ∧ ∃ rest,
    sel.ctl.queue .lost = sel.skipped ++ p :: rest ∧ ∀ b ∈ sel.skipped, b ≠ p := by
  subst hsel
  obtain ⟨hM, rest, hq, hch⟩ := @selectLost_spec env s hS
  have hS' := hM.sound hS
  rw [hc] at hch
  cases rest with
  | nil => cases hch
  | cons c rest =>
    cases hch
    have hnd : ((s.selectLost env).skipped ++ p :: rest).Nodup :=
      hq ▸ hS'.placed.nodup (some .lost)
    exact ⟨hS', rest, hq, fun b hb => (List.nodup_append.1 hnd).2.2 b hb p (.head _)⟩

theorem nextLost_pop (hS : s.Settled env)
    (hfit : (sel.ctl.pkt p).totalSz env ≤ env.scPackSize sel.ctl.tick) :
    NextLostRight env s ↔ Sendable env sel p := by
  have hn : s.nextLost env = (sel.ctl.popLostPacket p, some p) := by
    rw [nextLost_eq, hsel]
    simp only [Selection.taken, hc, takeChosen, if_pos hfit]
  rw [nextLostRight_iff hsel hc hn, popLostPacket_pkt, popLostPacket_queue, Sendable, if_pos hfit]
  constructor
  · rintro ⟨-, h, -⟩
    exact h
  · intro h
    obtain ⟨-, rest, hq, hne⟩ := selectLost_split hsel hc hS
    refine ⟨.inl rfl, h, fun b hb => (List.mem_erase_of_ne (hne b hb)).2 ?_⟩
    rw [hq]
    exact List.mem_append_left _ hb

theorem nextLost_split (hR : env.Resizes) (hS : s.Settled env)
    (hbig : ¬ (sel.ctl.pkt p).totalSz env ≤ env.scPackSize sel.ctl.tick) :
    NextLostRight env s ↔ Sendable env sel p := by
  obtain ⟨hS', rest, hq, hne⟩ := selectLost_split hsel hc hS
  rw [Sendable, if_neg hbig]
  by_cases hok : (sel.ctl.resizeOne env p).2.2 = false ∧ 1 < (sel.ctl.resizeOne env p).1.length
  · obtain ⟨c, pieces, n, hr, hpieces⟩ := exists_pieces hok
    obtain ⟨t, ht, ⟨tail, htq⟩, hsz, hpath⟩ := splitLostPacket_spec hS' hq hr hpieces
    obtain ⟨first, hfirst⟩ : ∃ first, (t.queue .lost).head? = some first := by
      rw [htq]
      cases sel.skipped <;> exact ⟨_, rfl⟩
    have hn : s.nextLost env = (t.popLostPacket first, some first) := by
      rw [nextLost_eq, hsel]
      simp only [Selection.taken, hc, takeChosen, if_neg hbig, ht, hfirst]
    rw [nextLostRight_iff hsel hc hn, popLostPacket_pkt]
    cases hsk : sel.skipped with
    | nil =>
      rw [htq, hsk] at hfirst
      cases hfirst
      constructor
      · rintro ⟨-, h, -⟩
        refine ⟨rfl, hok, fun _ c' hc' => ?_⟩
        rw [hr] at hc'
        cases hc'
        rw [← hsz, ← hpath]
        exact h
      · rintro ⟨-, -, hinit⟩
        have hfit : (sel.ctl.ticked.piece env p c).totalSz env ≤
            env.packSize (sel.ctl.pkt p).path := by
          by_cases hi : (sel.ctl.pkt p).pns = .init
          · exact hinit hi c (by rw [hr]; rfl)
          · exact piece_fits hR (by rw [hr]; exact .head _) hi
        rw [← hsz, ← hpath] at hfit
        exact ⟨.inr le_rfl, hfit, by simp⟩
    | cons b sk =>
      -- the first packet that was skipped is returned, which is no piece of the choice
      rw [htq, hsk] at hfirst
      cases hfirst
      have hb : first ∈ sel.skipped := by rw [hsk]; exact .head _
      have hlt := hS'.placed.on (show first ∈ sel.ctl.queue .lost by simp [hq, hb])
      refine iff_of_false ?_ (by simp)
      rintro ⟨rfl | hge, -⟩
      · exact hne _ hb rfl
      · exact absurd hlt (Nat.not_lt.2 hge)
  · have hf := splitLostPacket_fails hok
    have hn : (s.nextLost env).2 = none := by
      rw [nextLost_eq, hsel]
      simp only [Selection.taken, hc, takeChosen, if_neg hbig]
      rcases hr : sel.ctl.splitLostPacket env p with ⟨t, ok⟩
      rw [hr] at hf
      cases hf
      rfl
    refine iff_of_false (fun h => ?_) fun h => hok h.2.1
    have hno := h.none hn
    rw [hsel, hc] at hno
    cases hno

end

/-- `send_ctl_next_lost` is right exactly when the packet it chooses can be sent whole or split. -/
theorem nextLost_right_iff (hR : env.Resizes) (hS : Sound (s.core env) [] []) :
    NextLostRight env s ↔
      ∀ p, (s.selectLost env).chosen = some p → Sendable env (s.selectLost env) p := by
  cases hc : (s.selectLost env).chosen with
  | none =>
    have hn : s.nextLost env = ((s.selectLost env).ctl, none) := by
      rw [nextLost_eq]
      simp only [Selection.taken, hc]
    obtain ⟨rest, hq, -⟩ := (@selectLost_spec env s hS).queue
    refine iff_of_true ⟨fun p hp => ?_, fun p hp => ?_, fun a ha => ?_, fun _ => hc⟩
      fun p hp => by cases hp
    · rw [hn] at hp
      cases hp
    · rw [hn] at hp
      cases hp
    · rw [hn, hq]
      exact List.mem_append_left _ ha
  | some p =>
    have h : NextLostRight env s ↔ Sendable env (s.selectLost env) p := by
      by_cases hfit : ((s.selectLost env).ctl.pkt p).totalSz env ≤
          env.scPackSize (s.selectLost env).ctl.tick
      · exact nextLost_pop rfl hc hS hfit
      · exact nextLost_split rfl hc hR hS hfit
    rw [h]
    exact ⟨fun h p' hp => Option.some.inj hp ▸ h, fun h => h p rfl⟩

end

/-- The peer takes packets of at most 1200 bytes, as its transport parameters say, and the
congestion window is closed. -/
def narrowEnv : Env :=
  { quietEnv with
    cwnd := fun _ => 0
    packSize := fun _ => 1200 }

/-- A large packet is lost and has a replica due; a small one behind it is lost. -/
def largeReplica : List Op :=
  sendNew { frameTypes := FrameType.stream.bit, frecs := [⟨.stream, 0, 0, 1200⟩], dataSz := 1200 } ++
    [1, 2, 3].flatMap pingAcked ++ pingAcked 4 ++ resend ++ sendNew streamContent ++
    [.expire .app .last, .artSchedule]

/-- The replica has to be split, and the skipped small packet is returned. -/
theorem nextLost_returns_skipped : ∃ s, Reachable quietEnv s ∧ narrowEnv.Resizes ∧
    Sound (s.core narrowEnv) [] [] ∧ (s.selectLost narrowEnv).skipped = [6] ∧
    (s.selectLost narrowEnv).chosen = some 0 ∧ (s.nextLost narrowEnv).2 = some 6 ∧
    ¬ NextLostRight narrowEnv s := by
  obtain ⟨s, hs, ha, hsk, hc, hn, hq⟩ : ∃ s, Reachable quietEnv s ∧ s.aborted = false ∧
      (s.selectLost narrowEnv).skipped = [6] ∧ (s.selectLost narrowEnv).chosen = some 0 ∧
      (s.nextLost narrowEnv).2 = some 6 ∧ (s.nextLost narrowEnv).1.queue .lost = [9, 10] :=
    exists_run largeReplica (by decide +kernel)
  refine ⟨s, hs, quietEnv_resizes, hs.sound ha, hsk, hc, hn, fun h => ?_⟩
  have hstay := h.stay 6 (by rw [hsk]; exact (.head _))
  rw [hq] at hstay
  exact absurd hstay (by decide)

theorem nextLost_right_iff_resend : ∃ s, Reachable quietEnv s ∧ (s.nextLost quietEnv).2 = some 0 ∧
    NextLostRight quietEnv s := by
  obtain ⟨s, hs, ha, hc, hn, hsz⟩ : ∃ s, Reachable quietEnv s ∧ s.aborted = false ∧
      (s.selectLost quietEnv).chosen = some 0 ∧ (s.nextLost quietEnv).2 = some 0 ∧
      ((s.selectLost quietEnv).ctl.pkt 0).totalSz quietEnv ≤ 1370 :=
    exists_run (turnsOfPacket [] 4) (by decide +kernel)
  refine ⟨s, hs, hn, (nextLost_right_iff quietEnv_resizes (hs.sound ha)).2 fun p hp => ?_⟩
  rw [hc] at hp
  cases hp
  rw [Sendable]
  split
  · exact hsz
  next h => exact absurd hsz h

end SendCtl
end QuicArt
