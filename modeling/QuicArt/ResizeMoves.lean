import QuicArt.BufferMoves

namespace QuicArt

namespace SendCtl

section
variable {env : Env} {m : Kind → Prop} {s s₀ s₁ s' : SendCtl} {p : PktId} {q : Queue}
  {input : List PktId}

structure Holding (env : Env) (m : Kind → Prop) (s₀ s : SendCtl) (input : List PktId) : Prop where
  moves : Moves m ⟨s₀.core env, [], []⟩ ⟨s.core env, input, []⟩
  data : ∀ p ∈ input, ((s.core env).pkts p).data

theorem Holding.take (hH : Holding env m s₀ s input) (hd : ((s.core env).pkts p).data)
    (hM : Moves m ⟨s.core env, input, []⟩ ⟨s'.core env, p :: input, []⟩)
    (hl : ∀ a, ((s'.core env).pkts a).links = ((s.core env).pkts a).links) :
    Holding env m s₀ s' (input ++ [p]) := by
  constructor
  · exact (hH.moves.trans hM).snoc (.shuffle (List.perm_append_singleton p input).symm)
  · intro a ha
    have hda : ((s.core env).pkts a).data := by
      rcases List.mem_append.1 ha with ha | ha
      · exact hH.data a ha
      · rw [List.mem_singleton.1 ha]
        exact hd
    have hl := hl a
    simp only [Pkt.links, Prod.mk.injEq] at hl
    exact ⟨hl.2.1.trans hda.1, hl.2.2.1.trans hda.2⟩

structure ResizeLoop (env : Env) (m : Kind → Prop) (q : Queue) (s₀ : SendCtl)
    (st : SendCtl × List PktId) (next : Option PktId) : Prop where
  holding : Holding env m s₀ st.1 st.2
  cursor : ∀ p ∈ next, p ∈ (st.1.core env).queue q

theorem schedRemove_links (c : Core) (p a : PktId) :
    ((c.schedRemove p).pkts a).links = (c.pkts a).links := by
  rw [Core.schedRemove, upd_pkts]
  split <;> rfl

theorem resizeInputOne_spec {st : SendCtl × List PktId} (hS : s₀.Settled env)
    (hI : ResizeLoop env m q s₀ st (some p)) :
    ResizeLoop env m q s₀ (resizeInputOne env q path st p).1
      (resizeInputOne env q path st p).2 := by
  have hp := hI.cursor p rfl
  have hS' : Sound (st.1.core env) st.2 [] := hI.holding.moves.sound hS
  have hnext : ∀ a, nextOf p (st.1.queue q) = some a →
      a ∈ (st.1.core env).queue q ∧ a ≠ p := fun a ha =>
    mem_of_nextOf ha (hS'.placed.nodup (some q))
  have hstay : ResizeLoop env m q s₀ st (nextOf p (st.1.queue q)) :=
    ⟨hI.holding, fun a ha => (hnext a ha).1⟩
  cases q with
  | scheduled =>
    simp only [resizeInputOne]
    split
    · have hc : (st.1.schedRemove env p).core env = (st.1.core env).schedRemove p :=
        core_schedRemove st.1 p
      constructor
      · apply hI.holding.take (hS'.placed.sched hp).2.1
        · rw [hc]
          exact .one (.takeSched hp)
        · rw [hc]
          exact schedRemove_links _ p
      · intro a ha
        obtain ⟨hm, hne⟩ := hnext a ha
        rw [hc]
        exact (mem_queue_remove (q := .scheduled) hS'.placed).2 ⟨hm, fun he => hne he.2⟩
    · exact hstay
  | buffered b =>
    simp only [resizeInputOne]
    split
    · have hc : (st.1.bufferedRemove b p).core env = _ := core_bufferedRemove st.1 b p
      constructor
      · apply hI.holding.take (hS'.placed.buffered hp).2.1
        · exact bufferedRemove_moves hp
        · rw [hc]
          exact fun _ => rfl
      · intro a ha
        obtain ⟨hm, hne⟩ := hnext a ha
        rw [hc]
        exact (mem_queue_remove hS'.placed).2 ⟨hm, fun he => hne he.2⟩
    · exact hstay
  | unacked n => exact hstay
  | lost => exact hstay
  | stash => exact hstay

theorem resizeInput_spec (hS : s.Settled env) :
    Holding env m s (s.resizeInput env q path).1 (s.resizeInput env q path).2 := by
  have hI : ResizeLoop env m q s (s, []) (s.queue q).head? :=
    ⟨⟨.refl, by simp⟩, fun _ ha => List.mem_of_head? ha⟩
  obtain ⟨next, hI'⟩ := scan_invariant (fun _ _ => true) (resizeInputOne env q path)
    (fun st next => ResizeLoop env m q s st next)
    (fun st p hI _ => resizeInputOne_spec hS hI) hI (s.queue q).length
  exact hI'.holding

theorem Holding.discard (hH : Holding env m s₀ s (p :: input)) (hS : s₀.Settled env) :
    Holding env m s₀ (discardInput env s p) input := by
  have hS' : Sound (s.core env) (p :: input) [] := hH.moves.sound hS
  obtain ⟨l, -, hG⟩ : ∃ l, (∀ a ∈ l, ((s.core env).pkts a).lossRec = true) ∧
      ChainGone env m (s.core env) input p l s none (s.destroyChain env p none) :=
    dropChain_spec hS' (hH.data p (.head _))
      fun r hr => (hH.data r (.tail _ hr)).1
  refine ⟨hH.moves.trans hG.moves, ?_⟩
  intro a ha
  have hne : a ≠ p := by
    rintro rfl
    exact (List.nodup_cons.1 (hS'.placed.nodup none)).1 ha
  have hl := congrArg Prod.fst (hG.ident a hne)
  simp only [Pkt.ident, Pkt.links, Prod.mk.injEq] at hl
  have hd := hH.data a (.tail _ ha)
  exact ⟨hl.2.1.trans hd.1, hl.2.2.1.trans hd.2⟩

theorem discardAll_spec (discarded : List PktId) (hH : Holding env m s₀ s (discarded ++ input))
    (hS : s₀.Settled env) :
    Holding env m s₀ (discarded.foldl (discardInput env) s) input := by
  induction discarded generalizing s with
  | nil => exact hH
  | cons p l ih => exact ih (hH.discard hS)

theorem resizedPacket_fresh (s : SendCtl) (path : Nat) (c : Content) :
    ((s.resizedPacket env path c).core env).Fresh s.nextId :=
  ⟨rfl, ⟨rfl, rfl⟩, ⟨rfl, rfl, rfl⟩, rfl, rfl, ⟨rfl, rfl, rfl⟩, rfl⟩

theorem appendResized_moves (ha : m .alloc)
    (hq : (q = .scheduled ∧ m .resize) ∨ ∃ b, q = .buffered b) (path : Nat) (c : Content) :
    Moves m ⟨s.core env, h, []⟩ ⟨(appendResized env q path s c).core env, h, []⟩ := by
  have hF : ((s.resizedPacket env path c).core env).Fresh s.nextId := resizedPacket_fresh s path c
  have hc : (s.ticked.alloc (s.resizedPacket env path c)).core env =
      (s.core env).alloc ((s.resizedPacket env path c).core env) := core_alloc s.ticked _
  have hL : Loose ((s.core env).alloc ((s.resizedPacket env path c).core env)) s.nextId := .fresh hF
  rw [← hc] at hL
  have hM : Moves m ⟨s.core env, h, []⟩
      ⟨(s.ticked.alloc (s.resizedPacket env path c)).core env, s.nextId :: h, []⟩ := by
    rw [hc]
    exact .one (.fresh ha hF)
  rcases hq with ⟨rfl, hr⟩ | ⟨b, rfl⟩
  · simp only [appendResized]
    generalize s.ticked.alloc (s.resizedPacket env path c) = s₁ at hL hM
    have hN : ((s₁.nextPackno.upd s.nextId
        ({ · with packno := s₁.nextPackno.curPackno })).schedAppend
        env s.nextId).core env = ((s₁.core env).nextPackno.upd s.nextId ({ · with
          packno := (s₁.core env).nextPackno.curPackno
          body := ((s₁.core env).pkts s.nextId).body })).schedAppend s.nextId := by
      rw [core_schedAppend, ← core_nextPackno]
      apply congrArg (Core.schedAppend · s.nextId)
      apply core_upd
      rw [pkt_nextPackno]
      rfl
    rw [hN]
    exact hM.snoc (.requeue hr hL.data hL.numbered)
  · simp only [appendResized]
    generalize s.ticked.alloc (s.resizedPacket env path c) = s₁ at hL hM
    rw [core_bufferedAppend]
    exact hM.snoc (.toBuffered hL.data hL.numbered hL.alone (List.append_nil _).symm)

theorem appendAllResized_moves (ha : m .alloc) (pieces : List Content)
    (hq : (q = .scheduled ∧ m .resize) ∨ ∃ b, q = .buffered b) (path : Nat) :
    Moves m ⟨s.core env, h, []⟩
      ⟨(pieces.foldl (appendResized env q path) s).core env, h, []⟩ := by
  induction pieces generalizing s with
  | nil => exact .refl
  | cons c pieces ih =>
    have hM : Moves m ⟨s.core env, h, []⟩ ⟨(appendResized env q path s c).core env, h, []⟩ :=
      appendResized_moves ha hq path c
    exact hM.trans ih

theorem beginResize_moves (hq : (q = .scheduled ∧ m .resize) ∨ ∃ b, q = .buffered b) (s : SendCtl) :
    s.Evolves env m (s.beginResize q) := by
  rcases hq with ⟨rfl, hr⟩ | ⟨b, rfl⟩
  · exact .one (.rewind hr)
  · exact .refl

theorem applyResize_moves (ha : m .alloc) (hS : s₀.Settled env)
    (hH : Holding env m s₀ s input) (hq : (q = .scheduled ∧ m .resize) ∨ ∃ b, q = .buffered b)
    (path : Nat) (pieces : List Content) (n : Nat) (isError : Bool) :
    ∃ h, Moves m ⟨s₀.core env, [], []⟩
        ⟨(s.applyResize env q path input pieces n isError).core env, h, []⟩ ∧
      (h = [] ∨ (s.applyResize env q path input pieces n isError).aborted = true) := by
  have hT : Holding env m s₀ s ((if isError then input.take n else input) ++
      if isError then input.drop n else []) := by
    cases isError with
    | true =>
      simp only [if_true, List.take_append_drop]
      exact hH
    | false =>
      simp only [Bool.false_eq_true, if_false, List.append_nil]
      exact hH
  have hD := discardAll_spec _ hT hS
  simp only [applyResize]
  generalize (if isError then input.take n else input).foldl (discardInput env) s = s₁ at hD
  have hA : Moves m ⟨s₁.core env, if isError then input.drop n else [], []⟩
      ⟨(pieces.foldl (appendResized env q path) s₁).core env,
        if isError then input.drop n else [], []⟩ :=
    appendAllResized_moves ha pieces hq path
  have hM := hD.moves.trans hA
  generalize pieces.foldl (appendResized env q path) s₁ = s₂ at hM
  refine ⟨if isError then input.drop n else [], ?_, ?_⟩
  · split
    · exact hM.view rfl
    · exact hM
  · cases isError with
    | true => exact .inr rfl
    | false => exact .inl rfl

/-- When resizing fails, packets that were not discarded are left in hand. -/
theorem resizeQ_moves (ha : m .alloc) (hS : s.Settled env)
    (hq : (q = .scheduled ∧ m .resize) ∨ ∃ b, q = .buffered b) (path : Nat) :
    ∃ h, Moves m ⟨s.core env, [], []⟩ ⟨(s.resizeQ env q path).core env, h, []⟩ ∧
      (h = [] ∨ (s.resizeQ env q path).aborted = true) := by
  have hB : s.Evolves env m (s.beginResize q) := beginResize_moves hq s
  have hH : Holding env m (s.beginResize q) ((s.beginResize q).resizeInput env q path).1
      ((s.beginResize q).resizeInput env q path).2 := resizeInput_spec (hB.sound hS)
  simp only [resizeQ]
  generalize (s.beginResize q).resizeInput env q path = r at hH
  have hT : Holding env m (s.beginResize q) r.1.ticked r.2 := ⟨hH.moves, hH.data⟩
  let out := env.resize r.1.tick (r.1.ticked.resizedPacket env path {}).nAlloc (r.2.map r.1.pkt)
  obtain ⟨h, hM, ha⟩ := applyResize_moves ha (hB.sound hS) hT hq path out.1 out.2.1 out.2.2
  exact ⟨h, hB.trans hM, ha⟩

structure Returned (env : Env) (m : Kind → Prop) (q : Queue) (s : SendCtl) (p : PktId)
    (s' : SendCtl) :
    Prop where
  moves : Moves m ⟨s.core env, [], []⟩ ⟨s'.core env, [], []⟩
  links : ∀ a, ((s'.core env).pkts a).links = ((s.core env).pkts a).links
  keep : ∀ a, a ≠ p → a ∈ (s.core env).queue q → a ∈ (s'.core env).queue q

theorem returnUnused_spec (hS : s.Settled env) (hq : q = .scheduled ∨ ∃ b, q = .buffered b)
    (hp : p ∈ (s.core env).queue q) (hl : ((s.core env).pkts p).lossChain = p) :
    Returned env m q s p (returnUnused env q s p) := by
  rcases hq with rfl | ⟨b, rfl⟩
  · have hc : (s.schedRemove env p).core env = (s.core env).schedRemove p := core_schedRemove s p
    have hd := (hS.placed.sched hp).2.1
    have hM : Moves m ⟨s.core env, [], []⟩ ⟨(s.schedRemove env p).core env, [p], []⟩ := by
      rw [hc]
      exact .one (.takeSched hp)
    simp only [returnUnused]
    constructor
    · apply hM.trans ((hM.sound hS).free_single _ _)
      · rw [hc, Core.schedRemove, upd_self]
        exact hd
      · rw [hc, Core.schedRemove, upd_self]
        exact hl
    · rw [hc]
      exact schedRemove_links _ p
    · intro a hne ha
      rw [hc]
      exact (mem_queue_remove (q := .scheduled) hS.placed).2 ⟨ha, fun he => hne he.2⟩
  · have hc : (s.bufferedRemove b p).core env = _ := core_bufferedRemove s b p
    simp only [returnUnused]
    constructor
    · exact dropBuffered_moves hS hp
    · rw [hc]
      exact fun _ => rfl
    · intro a hne ha
      rw [hc]
      exact (mem_queue_remove (q := .buffered b) hS.placed).2 ⟨ha, fun he => hne he.2⟩

theorem returnAll_moves (l : List PktId) (hS : s.Settled env)
    (hq : q = .scheduled ∨ ∃ b, q = .buffered b) (hn : l.Nodup)
    (hp : ∀ p ∈ l, p ∈ (s.core env).queue q) (hl : ∀ p ∈ l, ((s.core env).pkts p).lossChain = p) :
    s.Evolves env m (l.foldl (returnUnused env q) s) := by
  induction l generalizing s with
  | nil => exact .refl
  | cons p l ih =>
    obtain ⟨hpl, hn⟩ := List.nodup_cons.1 hn
    have hR : Returned env m q s p (returnUnused env q s p) :=
      returnUnused_spec hS hq (hp p (.head _)) (hl p (.head _))
    apply hR.moves.trans (ih (hR.moves.sound hS) hn _ _)
    · intro a ha
      have hne : a ≠ p := fun he => hpl (he ▸ ha)
      exact hR.keep a hne (hp a (.tail _ ha))
    · intro a ha
      have hlinks := hR.links a
      simp only [Pkt.links, Prod.mk.injEq] at hlinks
      exact hlinks.1.trans (hl a (.tail _ ha))

theorem rollbackPacket_rewrites (s : SendCtl) (p : PktId) (rb : Rollback) (dfSize : Nat) :
    Rewritten env s p (s.upd p (rollbackPacket rb dfSize)) := by
  apply Rewritten.upd
  simp only [rollbackPacket]
  split
  · rfl
  · rfl

theorem rollbackQueue_cases (s : SendCtl) (rb : Rollback) :
    s.rollbackQueue rb = .scheduled ∨ ∃ b, s.rollbackQueue rb = .buffered b := by
  simp only [rollbackQueue]
  split
  · exact .inl rfl
  · split
    · exact .inr ⟨_, rfl⟩
    · exact .inr ⟨_, rfl⟩

theorem rollback_moves (hS : s.Settled env) (rb : Rollback)
    (hu : ∀ p, (s.queue (s.rollbackQueue rb)).find? (fun p => holdsByte (s.pkt p) rb.iovBase) =
      some p →
      ∀ a ∈ after p (s.queue (s.rollbackQueue rb)), (s.pkt a).lossChain = a) :
    s.Evolves env m (s.rollback env rb) := by
  have hq := rollbackQueue_cases s rb
  simp only [rollback]
  generalize s.rollbackQueue rb = q at hq hu
  split
  · exact .refl
  next p hp =>
    have hu := hu p hp
    have hm : p ∈ (s.core env).queue q := List.mem_of_find?_eq_some hp
    split
    next f dfSize hf hz =>
      generalize hs₁ : (if q = .scheduled ∧ rb.iovLen - rb.shortfall < dfSize then
            { s.upd p (rollbackPacket rb dfSize) with
              bytesScheduled := (s.upd p (rollbackPacket rb dfSize)).bytesScheduled -
                ((f.len : Int) - ((rollbackPacket rb dfSize (s.pkt p)).dataSz - f.off : Nat)) }
          else s.upd p (rollbackPacket rb dfSize)) = s₁
      have hR : Rewritten env s p s₁ := by
        rw [← hs₁]
        split
        · exact (rollbackPacket_rewrites s p rb dfSize).view rfl
        · exact rollbackPacket_rewrites s p rb dfSize
      have hM : s.Evolves env m s₁ := by
        refine (hR.visited hS hm ?_).1
        rcases hq with rfl | ⟨b, rfl⟩ <;> simp
      have hsq : s₁.queue q = s.queue q := congrFun hR.queue q
      apply hM.trans (returnAll_moves _ (hM.sound hS) hq _ _ _)
      · exact ((hM.sound hS).placed.nodup (some q)).sublist (after_sublist _ _)
      · exact fun a ha => (after_sublist _ _).subset ha
      · intro a ha
        rw [hsq] at ha
        obtain ⟨body, he⟩ := hR.pkt a
        rw [he]
        exact hu a ha
    · exact .refl

end

end SendCtl

end QuicArt
