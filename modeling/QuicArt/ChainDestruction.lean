import QuicArt.Abstraction
import QuicArt.Line
import Mathlib.Data.List.Perm.Subperm

namespace QuicArt

structure Sound (c : Core) (h x : List PktId) : Prop where
  placed : Placed c h
  chains : Chains c h x

theorem Moves.sound (hM : Moves m g g') (h : Sound g.core g.hand g.doomed) :
    Sound g'.core g'.hand g'.doomed := by
  induction hM with
  | refl => exact h
  | snoc _ hm ih => exact ⟨hm.placed ih.placed, hm.chains ih.placed ih.chains⟩

abbrev SendCtl.Settled (env : Env) (s : SendCtl) : Prop := Sound (s.core env) [] []

abbrev SendCtl.Evolves (env : Env) (m : Kind → Prop) (s s' : SendCtl) : Prop :=
  Moves m ⟨s.core env, [], []⟩ ⟨s'.core env, [], []⟩

section
variable {env : Env} {m : Kind → Prop} {s s' s'' : SendCtl}

theorem SendCtl.Settled.of_core (hS : s.Settled env) (hc : s'.core env = s.core env) :
    s'.Settled env := by
  rw [SendCtl.Settled, hc]
  exact hS

theorem SendCtl.Evolves.of_core (hM : s.Evolves env m s') (hc : s''.core env = s'.core env) :
    s.Evolves env m s'' := by
  rw [SendCtl.Evolves, hc]
  exact hM

theorem SendCtl.Evolves.step (hM : s.Evolves env m s') (hc : s''.core env = c)
    (hm : Move m ⟨s'.core env, [], []⟩ ⟨c, [], []⟩) : s.Evolves env m s'' := by
  rw [SendCtl.Evolves, hc]
  exact hM.snoc hm

theorem SendCtl.Evolves.of_move (hc : s'.core env = c)
    (hm : Move m ⟨s.core env, [], []⟩ ⟨c, [], []⟩) : s.Evolves env m s' :=
  .step .refl hc hm

end

def Pkt.ident (pk : Pkt) : (PktId × Bool × Bool × Pns) × Int × Bool × Nat × Nat × Nat :=
  (pk.links, pk.packno, pk.mtuProbe, pk.fakeLossRec, pk.feedbackRecorded, pk.tx)

/-- A packet has left all queues but the stash, and nothing else has moved. -/
structure Erased (c : Core) (a : PktId) (c' : Core) : Prop where
  gone : ∀ q, q ≠ .stash → a ∉ c'.queue q
  keep : ∀ q p, p ≠ a → (p ∈ c'.queue q ↔ p ∈ c.queue q)
  ident : ∀ p, (c'.pkts p).ident = (c.pkts p).ident

def MemberAt (c : Core) (n : Pns) (a : PktId) : Prop :=
  ((c.pkts a).lossRec = true ∧ a ∈ c.queue (.unacked n)) ∨
    ((c.pkts a).data ∧ ∃ q, (∀ b, q ≠ .buffered b) ∧ a ∈ c.queue q)

section
variable {c c' c'' : Core} {h x : List PktId} {a p : PktId} {q : Queue}

theorem Erased.remove (hP : Placed c h) (ha : a ∈ c.queue q) : Erased c a (c.remove q a) := by
  refine ⟨fun q' _ => hP.off_remove ha (some q'), fun q' p hp => ?_, fun p => rfl⟩
  rw [mem_queue_remove hP]
  exact and_iff_left fun hn => hp hn.2

theorem Erased.congr (hE : Erased c a c') (hq : c''.queue = c'.queue)
    (hl : ∀ p, (c''.pkts p).ident = (c'.pkts p).ident) : Erased c a c'' :=
  ⟨hq ▸ hE.gone, hq ▸ hE.keep, fun p => (hl p).trans (hE.ident p)⟩

theorem Erased.links (hE : Erased c a c') (p : PktId) : (c'.pkts p).links = (c.pkts p).links :=
  congrArg Prod.fst (hE.ident p)

theorem ident_upd {f : Pkt → Pkt} (hf : (f (c.pkts p)).ident = (c.pkts p).ident) (p' : PktId) :
    ((c.upd p f).pkts p').ident = (c.pkts p').ident := by
  rw [upd_pkts]
  split
  next he => rw [he, hf]
  · rfl

theorem ident_markAll (l : List PktId) (p : PktId) :
    ((c.markAll l).pkts p).ident = (c.pkts p).ident := by
  simp only [Core.markAll]
  split <;> rfl

theorem ident_renumberToRight (p : PktId) :
    ((c.renumberToRight a).pkts p).ident = (c.pkts p).ident := by
  unfold Core.renumberToRight
  split
  · rfl
  · exact ident_markAll _ _

theorem ackIf_queue (c : Core) (p : PktId) (ack : Bool) : (c.ackIf p ack).queue = c.queue := by
  unfold Core.ackIf
  split <;> rfl

theorem ackIf_pkts (c : Core) (p : PktId) (ack : Bool) : (c.ackIf p ack).pkts = c.pkts := by
  unfold Core.ackIf
  split <;> rfl

theorem Erased.ackIf (hE : Erased c a c') (ack : Bool) : Erased c a (c'.ackIf p ack) :=
  hE.congr (ackIf_queue c' p ack) fun p' => by rw [ackIf_pkts]

theorem Erased.record (hP : Placed c h) (ha : a ∈ c.queue (.unacked n)) :
    Erased c a (c.recRemove n a) :=
  (Erased.remove hP ha).congr (recRemove_queue c n a) fun p => by
    rw [recRemove_pkts]
    rfl

theorem Erased.unacked (hP : Placed c h) (ha : a ∈ c.queue (.unacked n))
    (hd : (c.pkts a).data) : Erased c a ((c.unackedRemove a).emit e) := by
  have hn := (hP.unacked ha).2.1 hd.2
  subst hn
  exact (Erased.remove hP ha).congr rfl fun p =>
    ident_upd (c := c.remove (.unacked (c.pkts a).pns) a) (f := ({ · with unacked := false })) rfl p

theorem killSched_queue (c : Core) (a : PktId) (ack : Bool) :
    (((c.renumberToRight a).schedRemove a).ackIf a ack).queue = (c.remove .scheduled a).queue := by
  simp only [ackIf_queue, Core.schedRemove, Core.remove, Core.setQueue, Core.upd,
    renumberToRight_queue]

theorem Erased.scheduled (hP : Placed c h) (ha : a ∈ c.queue .scheduled) (ack : Bool) :
    Erased c a (((c.renumberToRight a).schedRemove a).ackIf a ack) := by
  refine (Erased.remove hP ha).congr (killSched_queue c a ack) fun p => ?_
  rw [ackIf_pkts]
  refine (ident_upd (f := ({ · with sched := false })) ?_ p).trans (ident_renumberToRight p)
  rfl

theorem Erased.memberAt (hE : Erased c a c') (hb : MemberAt c n b) (hne : b ≠ a) :
    MemberAt c' n b := by
  have hl := hE.links b
  simp only [Pkt.links, Prod.mk.injEq] at hl
  simp only [MemberAt, Pkt.data, hl, hE.keep _ b hne]
  exact hb

end

namespace SendCtl

section
variable {env : Env} {s : SendCtl} {h x : List PktId} {a p : PktId}

theorem core_recRemove (s : SendCtl) (n : Pns) (hz : (s.pkt a).hasSentSz = true) :
    ((if (s.pkt a).fakeLossRec = 1 then
        { s with
          nInFlightAll := s.nInFlightAll - 1
          bytesUnackedAll := s.bytesUnackedAll - (s.pkt a).sentSz }
      else s).setQueue (.unacked n) ((s.queue (.unacked n)).erase a)).core env =
      (s.core env).recRemove n a := by
  have hsz : ((s.core env).pkts a).body.bytes = (s.pkt a).sentSz := if_pos hz
  simp only [Core.recRemove, hsz]
  split
  next hf =>
    rw [if_pos (by exact hf)]
    exact core_remove (q := .unacked n) { s with
      nInFlightAll := s.nInFlightAll - 1
      bytesUnackedAll := s.bytesUnackedAll - (s.pkt a).sentSz } a
  next hf =>
    rw [if_neg (by exact hf)]
    exact core_remove s a

structure Destroyed (env : Env) (m : Kind → Prop) (s : SendCtl) (h x : List PktId) (a : PktId)
    (n : Pns) (next : Option PktId) (r : SendCtl × Option PktId) : Prop where
  moves : Moves m ⟨s.core env, h, x⟩ ⟨r.1.core env, h, x⟩
  erased : Erased (s.core env) a (r.1.core env)
  acked : (s.pkt a).lossRec = false → .ackStreams a ∈ r.1.log
  cursor : ∀ rest, Cursor (s.queue (.unacked n)) next rest →
    Cursor (r.1.queue (.unacked n)) r.2 (rest.erase a)

theorem cursor_remove {s' : SendCtl} (hP : Placed (s.core env) h) (ha : a ∈ (s.core env).queue q)
    (hq : (s'.core env).queue = ((s.core env).remove q a).queue)
    (hC : Cursor (s.queue (.unacked n)) next rest) :
    Cursor (s'.queue (.unacked n)) (if next = some a then nextOf a (s.queue q) else next)
      (rest.erase a) := by
  have hq := congrFun hq (.unacked n)
  simp only [core_queue env s' (q := .unacked n), Core.remove, Core.setQueue,
    Function.update_apply, core_queue env s (q := .unacked n)] at hq
  rw [hq]
  split
  next he =>
    subst he
    have hn : (s.queue (.unacked n)).Nodup := hP.nodup (some (.unacked n))
    rw [core_queue env s]
    exact hC.erase hn
  next he =>
    have hna : a ∉ s.queue (.unacked n) := fun hm =>
      he (Option.some.inj (hP.uniq a (some (.unacked n)) (some q) hm ha))
    obtain ⟨hne, her⟩ := hC.of_not_mem hna
    rw [if_neg hne, her]
    exact hC

section
variable (hS : Sound (s.core env) h x) (hx : a ∈ x)
include hS hx

theorem destroyMember_record
    (hr : (s.pkt a).lossRec = true) (ha : a ∈ (s.core env).queue (.unacked n)) :
    Destroyed env m s h x a n' next (s.destroyMember env n next a) := by
  obtain ⟨⟨hsc, hu, hl⟩, -, -, hs⟩ := hS.placed.unacked ha
  have hz : (s.pkt a).hasSentSz = true := (hs.record hr).2.2.1
  have hsc : (s.pkt a).sched = false := hsc
  have hu : (s.pkt a).unacked = true := hu
  have hl : (s.pkt a).lost = false := hl
  have he : s.destroyMember env n next a =
      ((if (s.pkt a).fakeLossRec = 1 then
          { s with
            nInFlightAll := s.nInFlightAll - 1
            bytesUnackedAll := s.bytesUnackedAll - (s.pkt a).sentSz }
        else s).setQueue (.unacked n) ((s.queue (.unacked n)).erase a),
        if next = some a then nextOf a (s.queue (.unacked n)) else next) := by
    simp only [destroyMember, hsc, hu, hl, hr, if_true]
    split <;> rfl
  rw [he]
  refine ⟨.one ?_, ?_, fun hn => absurd (hn.symm.trans hr) (by simp),
    fun rest hC => cursor_remove hS.placed ha ?_ hC⟩
  · rw [core_recRemove s n hz]
    exact .killRecord ha hr hx
  · rw [core_recRemove s n hz]
    exact .record hS.placed ha
  · rw [core_recRemove s n hz, recRemove_queue]

theorem destroyMember_scheduled (ha : a ∈ (s.core env).queue .scheduled) (hm : m .mark) :
    Destroyed env m s h x a n' next (s.destroyMember env n next a) := by
  obtain ⟨⟨hsc, hu, hl⟩, hd, -⟩ := hS.placed.sched ha
  have hsc : (s.pkt a).sched = true := hsc
  have hu : (s.pkt a).unacked = false := hu
  have hl : (s.pkt a).lost = false := hl
  have hr : (s.pkt a).lossRec = false := hd.1
  have he : s.destroyMember env n next a =
      (((s.maybeRenumberSchedToRight a).schedRemove env a).emit (.ackStreams a),
        if next = some a then nextOf a (s.queue .scheduled) else next) := by
    simp only [destroyMember, hsc, hu, hl, hr, Bool.false_eq_true, if_false]
  have hn : (s.queue .scheduled).Nodup := hS.placed.nodup (some .scheduled)
  have hcore : (((s.maybeRenumberSchedToRight a).schedRemove env a).emit (.ackStreams a)).core env =
      (((s.core env).renumberToRight a).schedRemove a).ackIf a true := by
    rw [core_emit, core_schedRemove, core_renumberToRight s hn]
    rfl
  rw [he]
  refine ⟨.one ?_, ?_, fun _ => List.mem_cons_self,
    fun rest hC => cursor_remove hS.placed ha ?_ hC⟩
  · rw [hcore]
    exact .killSched hm ha hx
  · rw [hcore]
    exact .scheduled hS.placed ha true
  · rw [hcore, killSched_queue]

theorem destroyMember_unacked
    (hd : ((s.core env).pkts a).data) (ha : a ∈ (s.core env).queue (.unacked n₀)) :
    Destroyed env m s h x a n' next (s.destroyMember env n next a) := by
  obtain ⟨⟨hsc, hu, hl⟩, hn, -, -⟩ := hS.placed.unacked ha
  have hn : (s.pkt a).pns = n₀ := hn hd.2
  have hsc : (s.pkt a).sched = false := hsc
  have hu : (s.pkt a).unacked = true := hu
  have hl : (s.pkt a).lost = false := hl
  have hr : (s.pkt a).lossRec = false := hd.1
  have he : s.destroyMember env n next a =
      ((s.unackedRemove env a ((s.pkt a).sentSize env)).emit (.ackStreams a),
        if next = some a then nextOf a (s.queue (.unacked (s.pkt a).pns)) else next) := by
    simp only [destroyMember, hsc, hu, hl, hr, Bool.false_eq_true, if_false]
  have hcore : ((s.unackedRemove env a ((s.pkt a).sentSize env)).emit (.ackStreams a)).core env =
      ((s.core env).unackedRemove a).emit (.ackStreams a) := by
    rw [core_emit, core_unackedRemove]
  rw [he, hn]
  refine ⟨.one ?_, ?_, fun _ => List.mem_cons_self,
    fun rest hC => cursor_remove hS.placed ha ?_ hC⟩
  · rw [hcore]
    exact .killUnacked ha hd hx
  · rw [hcore]
    exact .unacked hS.placed ha hd
  · rw [hcore, ← hn]
    rfl

theorem destroyMember_lost (ha : a ∈ (s.core env).queue .lost) :
    Destroyed env m s h x a n' next (s.destroyMember env n next a) := by
  obtain ⟨⟨hsc, hu, hl⟩, hd, -⟩ := hS.placed.lost ha
  have hsc : (s.pkt a).sched = false := hsc
  have hu : (s.pkt a).unacked = false := hu
  have hl : (s.pkt a).lost = true := hl
  have hr : (s.pkt a).lossRec = false := hd.1
  have he : s.destroyMember env n next a = ((s.lostRemove a).emit (.ackStreams a),
      if next = some a then nextOf a (s.queue .lost) else next) := by
    simp only [destroyMember, hsc, hu, hl, hr, Bool.false_eq_true, if_false]
  have hcore : ((s.lostRemove a).emit (.ackStreams a)).core env =
      ((s.core env).remove .lost a).ackIf a true := by
    rw [core_emit, core_lostRemove]
    rfl
  rw [he]
  refine ⟨.one ?_, ?_, fun _ => List.mem_cons_self,
    fun rest hC => cursor_remove hS.placed ha ?_ hC⟩
  · rw [hcore]
    exact .killLost ha hx
  · rw [hcore]
    exact (Erased.remove hS.placed ha).ackIf true
  · rw [hcore, ackIf_queue]

theorem destroyMember_stashed (ha : a ∈ (s.core env).queue .stash) :
    Destroyed env m s h x a n' next (s.destroyMember env n next a) := by
  obtain ⟨⟨hf, hd, -⟩, -⟩ := hS.placed.fits a (some .stash) ha
  simp only [Pkt.flags, Prod.mk.injEq] at hf
  have hsc : (s.pkt a).sched = false := hf.1
  have hu : (s.pkt a).unacked = false := hf.2.1
  have hl : (s.pkt a).lost = false := hf.2.2
  have hr : (s.pkt a).lossRec = false := hd.1
  have he : s.destroyMember env n next a = (s.emit (.ackStreams a), next) := by
    simp only [destroyMember, hsc, hu, hl, hr, Bool.false_eq_true, if_false]
  have hoff : ∀ q, q ≠ .stash → a ∉ (s.core env).queue q := fun q hq hm =>
    hq (Option.some.inj (hS.placed.uniq a (some q) (some .stash) hm ha))
  rw [he]
  refine ⟨.one (.killStashed ha hx), ⟨hoff, fun _ _ _ => Iff.rfl, fun _ => rfl⟩,
    fun _ => List.mem_cons_self, fun rest hC => ?_⟩
  have hna : a ∉ s.queue (.unacked n') := fun hm => hoff (.unacked n') (by simp) hm
  rw [(hC.of_not_mem hna).2]
  exact hC

theorem destroyMember_spec
    (ha : MemberAt (s.core env) n a) (hm : m .mark ∨ (s.pkt a).lossRec = true) :
    Destroyed env m s h x a n' next (s.destroyMember env n next a) := by
  rcases ha with ⟨hr, ha⟩ | ⟨hd, q, hb, ha⟩
  · exact destroyMember_record hS hx hr ha
  · cases q with
    | unacked n₀ => exact destroyMember_unacked hS hx hd ha
    | scheduled =>
      rcases hm with hm | hm
      · exact destroyMember_scheduled hS hx ha hm
      · cases hd.1.symm.trans hm
    | lost => exact destroyMember_lost hS hx ha
    | stash => exact destroyMember_stashed hS hx ha
    | buffered b => exact absurd rfl (hb b)

end

structure DestroyedAll (env : Env) (m : Kind → Prop) (s : SendCtl) (h x l : List PktId) (n : Pns)
    (next : Option PktId) (r : SendCtl × Option PktId) : Prop where
  moves : Moves m ⟨s.core env, h, x⟩ ⟨r.1.core env, h, x⟩
  gone : ∀ a ∈ l, ∀ q, q ≠ .stash → a ∉ (r.1.core env).queue q
  keep : ∀ q p, p ∉ l → (p ∈ (r.1.core env).queue q ↔ p ∈ (s.core env).queue q)
  ident : ∀ p, ((r.1.core env).pkts p).ident = ((s.core env).pkts p).ident
  acked : ∀ a ∈ l, (s.pkt a).lossRec = false → .ackStreams a ∈ r.1.log
  cursor : ∀ rest, Cursor (s.queue (.unacked n)) next rest →
    Cursor (r.1.queue (.unacked n)) r.2 (rest.diff l)

theorem Destroyed.cons {s₁ : SendCtl} (h₁ : Destroyed env m s h x a n next (s₁, next₁))
    (h₂ : DestroyedAll env m s₁ h x l n next₁ r) (ha : a ∉ l) :
    DestroyedAll env m s h x (a :: l) n next r := by
  refine ⟨h₁.moves.trans h₂.moves, fun b hb q hq => ?_, fun q p hp => ?_, fun p => ?_,
    fun b hb hr => ?_, fun rest hC => ?_⟩
  · rcases List.mem_cons.1 hb with rfl | hb
    · rw [h₂.keep q b ha]
      exact h₁.erased.gone q hq
    · exact h₂.gone b hb q hq
  · rw [List.mem_cons, not_or] at hp
    exact (h₂.keep q p hp.2).trans (h₁.erased.keep q p hp.1)
  · exact (h₂.ident p).trans (h₁.erased.ident p)
  · rcases List.mem_cons.1 hb with rfl | hb
    · exact h₂.moves.log.subset (h₁.acked hr)
    · have hl := h₁.erased.links b
      simp only [Pkt.links, Prod.mk.injEq] at hl
      exact h₂.acked b hb (hl.2.1.trans hr)
  · rw [List.diff_cons]
    exact h₂.cursor _ (h₁.cursor rest hC)

theorem destroyChainLoop_spec (hS : Sound (s.core env) h x)
    (hw : Walk (fun p => (s.pkt p).lossChain) prev l start) (hl : l.Nodup) (hst : start ∉ l)
    (hx : ∀ a ∈ l, a ∈ x) (hat : ∀ a ∈ l, MemberAt (s.core env) n a)
    (hm : m .mark ∨ ∀ a ∈ l, (s.pkt a).lossRec = true) (hf : l.length < fuel) :
    DestroyedAll env m s h x l n' next
      (destroyChainLoop env n start fuel s next (s.pkt prev).lossChain) := by
  induction l generalizing s prev next fuel with
  | nil =>
    obtain ⟨fuel, rfl⟩ : ∃ k, fuel = k + 1 :=
      ⟨fuel - 1, by simp only [List.length_nil] at hf; omega⟩
    have hp : (s.pkt prev).lossChain = start := hw
    simp only [destroyChainLoop, hp, if_true]
    exact ⟨.refl, by simp, fun _ _ _ => Iff.rfl, fun _ => rfl, by simp, fun _ hC => hC⟩
  | cons a l ih =>
    obtain ⟨fuel, rfl⟩ : ∃ k, fuel = k + 1 :=
      ⟨fuel - 1, by simp only [List.length_cons] at hf; omega⟩
    obtain ⟨hp, hw⟩ := hw
    obtain ⟨hal, hl⟩ := List.nodup_cons.1 hl
    have hne : a ≠ start := fun he => hst (he ▸ List.mem_cons_self)
    have h₁ : Destroyed env m s h x a n' next (s.destroyMember env n next a) :=
      destroyMember_spec hS (hx a (.head _)) (hat a (.head _))
        (hm.imp_right fun hr => hr a (.head _))
    have hlinks : ∀ p, (((s.destroyMember env n next a).1.pkt p).core env).links =
        ((s.pkt p).core env).links := h₁.erased.links
    simp only [Pkt.links, Prod.mk.injEq] at hlinks
    have hchain : ∀ p, ((s.destroyMember env n next a).1.pkt p).lossChain = (s.pkt p).lossChain :=
      fun p => (hlinks p).1
    simp only [destroyChainLoop, hp, if_neg hne]
    rw [← hchain a]
    refine h₁.cons (ih (h₁.moves.sound hS) (hw.congr fun p _ => hchain p) hl
      (fun hm => hst (.tail _ hm)) (fun b hb => hx b (.tail _ hb))
      (fun b hb => ?_) (hm.imp_right fun hr b hb => ?_) ?_) hal
    · exact h₁.erased.memberAt (hat b (.tail _ hb)) fun he => hal (he ▸ hb)
    · exact (hlinks b).2.1.trans (hr b (.tail _ hb))
    · simp only [List.length_cons] at hf
      omega

end

end SendCtl

structure ChainFrom (c : Core) (h : List PktId) (p : PktId) (l : List PktId) : Prop where
  ring : Ring (fun p => (c.pkts p).lossChain) p l
  members : ∀ a ∈ l, MemberAt c (c.pkts p).pns a
  closed : ClosedUnderChains c (p :: h) (p :: l)

section
variable {c : Core} {h l : List PktId} {p d : PktId}

theorem ChainAt.closed (hC : ChainAt c h d l) (hd : (c.pkts d).data)
    (hx : ∀ a, a ∈ x ↔ a = d ∨ a ∈ l) : ClosedUnderChains c h x := by
  have hrec : ∀ r ∈ l, ∀ d', (c.pkts d').data → r ≠ d' := by
    rintro r hr _ hd' rfl
    cases hd'.1.symm.trans (hC.recs r hr)
  intro d' l' hd' hC'
  by_cases he : d' = d
  · subst he
    have hl := hC'.unique hC
    subst hl
    exact .inl ⟨(hx d').2 (.inl rfl), fun r hr => (hx r).2 (.inr hr)⟩
  · refine .inr ⟨fun hm => ?_, fun r hr hm => ?_⟩
    · rcases (hx d').1 hm with hm | hm
      · exact he hm
      · exact hrec d' hm d' hd' rfl
    · rcases (hx r).1 hm with rfl | hm
      · cases hd.1.symm.trans (hC'.recs r hr)
      · obtain ⟨l₁, l₂, hl⟩ := List.append_of_mem hm
        subst hl
        have hmem := hC'.ring.mem_of_mem hr hC.ring.rotate
        rcases List.mem_append.1 hmem with hmem | hmem
        · exact hrec d' (List.mem_append_right _ (.tail _ hmem)) d' hd' rfl
        · rcases List.mem_cons.1 hmem with hmem | hmem
          · exact he hmem
          · exact hrec d' (List.mem_append_left _ hmem) d' hd' rfl

theorem Sound.chainFrom_data (hS : Sound c (p :: h) []) (hd : (c.pkts p).data)
    (hh : ∀ r ∈ h, (c.pkts r).lossRec = false) :
    ∃ l, ChainFrom c h p l ∧ ∀ a ∈ l, (c.pkts a).lossRec = true := by
  obtain ⟨l, hl, -, -⟩ := hS.chains.chain p ⟨hd, by simp, .inl (.head _)⟩
  refine ⟨l, ⟨hl.ring, fun a ha => ?_, hl.closed hd fun a => List.mem_cons⟩, hl.recs⟩
  have hr := hl.recs a ha
  refine .inl ⟨hr, (hl.here a ha).resolve_right fun hm => ?_⟩
  rcases List.mem_cons.1 hm with rfl | hm
  · exact (List.nodup_cons.1 hl.ring.nodup).1 ha
  · cases (hh a hm).symm.trans hr

/-- From a loss record the ring leads to its data packet. -/
theorem Sound.chainFrom_record (hS : Sound c [p] []) (hr : (c.pkts p).lossRec = true) :
    ∃ l d, ChainFrom c [] p l ∧ d ∈ l ∧ (c.pkts d).data ∧
      ∀ a ∈ l, a ≠ d → (c.pkts a).lossRec = true := by
  obtain ⟨d, l, hd, -, hdl, hl, hpl, -⟩ := hS.chains.owner p hr (by simp) (.inl (.head _))
  obtain ⟨l₁, l₂, he⟩ := List.append_of_mem hpl
  subst he
  have hdp : d ≠ p := by
    rintro rfl
    cases hd.1.symm.trans hr
  have hring := hl.ring.rotate
  have hrec : ∀ a ∈ l₂ ++ d :: l₁, a ≠ d → a ∈ l₁ ++ p :: l₂ := by
    intro a ha hne
    rcases List.mem_append.1 ha with ha | ha
    · exact List.mem_append_right _ (.tail _ ha)
    · exact List.mem_append_left _ ((List.mem_cons.1 ha).resolve_left hne)
  have hnp : p ∉ l₂ ++ d :: l₁ := (List.nodup_cons.1 hring.nodup).1
  refine ⟨l₂ ++ d :: l₁, d, ⟨hring, fun a ha => ?_, hl.closed hd fun a => ?_⟩,
    List.mem_append_right _ (.head _), hd, fun a ha hne => hl.recs a (hrec a ha hne)⟩
  · by_cases hne : a = d
    · subst hne
      refine .inr ⟨hd, ?_⟩
      obtain ⟨L, hL⟩ := hdl
      cases L with
      | none => exact absurd (List.mem_singleton.1 hL) hdp
      | some q =>
        refine ⟨q, fun b hb => ?_, hL⟩
        subst hb
        obtain ⟨l', hl', -, hB⟩ := hS.chains.chain a ⟨hd, by simp, .inr ⟨_, by simp, hL⟩⟩
        have hnil := (hl.unique hl').trans (hB (.inr ⟨b, hL⟩))
        exact absurd hnil (by simp)
    · have har := hrec a ha hne
      refine .inl ⟨hl.recs a har, ?_⟩
      rw [hl.space p hpl]
      refine (hl.here a har).resolve_right fun hm => hnp ?_
      rw [← List.mem_singleton.1 hm]
      exact ha
  · simp only [List.mem_cons, List.mem_append]
    tauto

end

namespace SendCtl

section
variable {env : Env} {s : SendCtl} {c : Core} {h l : List PktId} {p : PktId} {ack : Bool}

/-- `send_ctl_destroy_chain` on the packet `p` in hand, whose other chain members are `l`. -/
structure ChainGone (env : Env) (m : Kind → Prop) (c : Core) (h : List PktId) (p : PktId)
    (l : List PktId) (s : SendCtl) (next : Option PktId) (r : SendCtl × Option PktId) : Prop where
  moves : Moves m ⟨c, p :: h, []⟩ ⟨r.1.core env, h, []⟩
  gone : ∀ a ∈ p :: l, ∀ q, q ≠ .stash → a ∉ (r.1.core env).queue q
  keep : ∀ q a, a ∉ l → (a ∈ (r.1.core env).queue q ↔ a ∈ c.queue q)
  ident : ∀ a, a ≠ p → ((r.1.core env).pkts a).ident = (c.pkts a).ident
  self : ((r.1.core env).pkts p).ident.2 = (c.pkts p).ident.2
  acked : ∀ a ∈ l, (c.pkts a).lossRec = false → .ackStreams a ∈ r.1.log
  log : s.log <:+ r.1.log
  cursor : ∀ n rest, Cursor (s.queue (.unacked n)) next rest →
    Cursor (r.1.queue (.unacked n)) r.2 (rest.diff l)

theorem length_lt_of_ring (hn : (p :: l).Nodup) (hlt : ∀ a ∈ p :: l, a < n) : l.length < n := by
  have hsub : (p :: l).length ≤ (List.range n).length :=
    (hn.subperm fun a ha => List.mem_range.2 (hlt a ha)).length_le
  simp only [List.length_range, List.length_cons] at hsub
  omega

/-- From any of its members, the loop takes the rest of a ring off the queues. -/
theorem destroyChain_spec (hS : Sound c (p :: h) []) (hF : ChainFrom c h p l)
    (hc : s.core env = c.ackIf p ack) (ha : ack = true → (c.pkts p).data)
    (hm : m .mark ∨ ∀ a ∈ l, (c.pkts a).lossRec = true) :
    ChainGone env m c h p l s next (s.destroyChain env p next) := by
  have hpk : ∀ a, (s.pkt a).core env = c.pkts a := fun a => by
    rw [← core_pkts, hc, ackIf_pkts]
  have hq : (s.core env).queue = c.queue := by rw [hc, ackIf_queue]
  have hchain : ∀ a, (s.pkt a).lossChain = (c.pkts a).lossChain := fun a => by
    rw [← hpk a]
    rfl
  obtain ⟨hpl, hnd⟩ := List.nodup_cons.1 hF.ring.nodup
  have hp : p ∉ h := (List.nodup_cons.1 (hS.placed.nodup none)).1
  have hoff := hS.placed.off_unhand
  have hM : Moves m ⟨c, p :: h, []⟩ ⟨s.core env, h, p :: l⟩ := by
    rw [hc]
    exact .snoc (.one (.doom hF.closed)) (.release (.head _) ha)
  have hS' : Sound (s.core env) h (p :: l) := hM.sound hS
  have hat : ∀ a ∈ l, MemberAt (s.core env) (s.pkt p).pns a := fun a hal => by
    have hA := hF.members a hal
    rw [← hpk p] at hA
    simp only [MemberAt, core_pkts, hpk, hq]
    exact hA
  have hfuel : l.length < s.nextId := by
    refine length_lt_of_ring hF.ring.nodup fun a hm => ?_
    have hn : s.nextId = c.nextId := by
      have hn := congrArg Core.nextId hc
      unfold Core.ackIf at hn
      split at hn <;> exact hn
    rw [hn]
    rcases List.mem_cons.1 hm with rfl | hm
    · exact hS.placed.lt a none (.head _)
    · rcases hF.members a hm with ⟨-, hm⟩ | ⟨-, q, -, hm⟩
      · exact hS.placed.on hm
      · exact hS.placed.on hm
  have hD : ∀ n, DestroyedAll env m s h (p :: l) l n next
      (destroyChainLoop env (s.pkt p).pns p s.nextId s next (s.pkt p).lossChain) := fun n =>
    destroyChainLoop_spec hS' (hF.ring.walk.congr fun a _ => hchain a) hnd hpl
      (fun a ha => List.mem_cons_of_mem _ ha) hat
      (hm.imp_right fun hr a ha => (congrArg Pkt.lossRec (hpk a)).trans (hr a ha)) hfuel
  simp only [SendCtl.destroyChain]
  generalize destroyChainLoop env (s.pkt p).pns p s.nextId s next (s.pkt p).lossChain = r at hD
  have hD₀ := hD .app
  have hcore : (r.1.upd p ({ · with lossChain := p })).core env =
      (r.1.core env).upd p ({ · with lossChain := p }) := core_upd rfl
  have hkeep : ∀ q a, a ∉ l → (a ∈ (r.1.core env).queue q ↔ a ∈ c.queue q) := fun q a hal => by
    rw [hD₀.keep q a hal, hq]
  have hpq : ∀ q, p ∉ (r.1.core env).queue q := fun q hm =>
    hoff (some q) ((hkeep q p hpl).1 hm)
  have hgone : ∀ a ∈ p :: l, ∀ q, q ≠ .stash → a ∉ (r.1.core env).queue q := by
    intro a ham q hq'
    rcases List.mem_cons.1 ham with rfl | ham
    · exact hpq q
    · exact hD₀.gone a ham q hq'
  refine ⟨?_, ?_, ?_, fun a hne => ?_, ?_, fun a hal hr => hD₀.acked a hal ?_, hD₀.moves.log,
    fun n rest hC => (hD n).cursor rest hC⟩
  · rw [hcore]
    refine .snoc (.snoc (hM.trans hD₀.moves) (.scrub hpq hp)) (.undoom (fun a ham hah => ?_) hgone)
    rcases List.mem_cons.1 ham with rfl | ham
    · exact hp hah
    · rcases hat a ham with ⟨-, hm⟩ | ⟨-, q, -, hm⟩
      · cases hS'.placed.uniq a none (some _) hah hm
      · cases hS'.placed.uniq a none (some q) hah hm
  · rw [hcore]
    exact hgone
  · rw [hcore]
    exact hkeep
  · rw [hcore, upd_pkts, if_neg hne, hD₀.ident a, core_pkts, hpk]
  · have hid : ((r.1.core env).pkts p).ident.2 = ((s.core env).pkts p).ident.2 :=
      congrArg Prod.snd (hD₀.ident p)
    rw [hcore, upd_self, ← hpk p]
    exact hid
  · exact (congrArg Pkt.lossRec (hpk a)).trans hr

theorem dropChain_spec (hS : Sound (s.core env) (p :: h) []) (hd : ((s.core env).pkts p).data)
    (hh : ∀ r ∈ h, ((s.core env).pkts r).lossRec = false) :
    ∃ l, (∀ a ∈ l, ((s.core env).pkts a).lossRec = true) ∧
      ChainGone env m (s.core env) h p l s next (s.destroyChain env p next) := by
  obtain ⟨l, hF, hr⟩ := hS.chainFrom_data hd hh
  have hc : s.core env = (s.core env).ackIf p false := rfl
  exact ⟨l, hr, destroyChain_spec hS hF hc (by simp) (.inr hr)⟩

end

end SendCtl

theorem Sound.free_single {c : Core} (hS : Sound c (p :: h) []) (hd : (c.pkts p).data)
    (hC : (c.pkts p).lossChain = p) : Moves m ⟨c, p :: h, []⟩ ⟨c, h, []⟩ := by
  have hoff := hS.placed.off_unhand
  have hx : ClosedUnderChains c (p :: h) [p] :=
    (ChainAt.single hC).closed hd fun a => by simp
  have hrel : Move m ⟨c, p :: h, [p]⟩ ⟨c.ackIf p false, h, [p]⟩ :=
    .release (.head _) (by simp)
  refine .snoc (.snoc (.one (.doom hx)) hrel) (.undoom (fun a ha => ?_) fun a ha q _ => ?_)
  · rw [List.mem_singleton.1 ha]
    exact hoff none
  · rw [List.mem_singleton.1 ha]
    exact hoff (some q)

end QuicArt
