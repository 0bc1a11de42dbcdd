import Mathlib.Data.List.Induction
import QuicArt.BatchTrace

namespace QuicArt

def SendEvent.about (t : Nat) : SendEvent → Bool
  | .took _ t' => t' = t
  | .reported _ _ p => p.ticket = t
  | _ => false

def ticketStory (tr : List SendEvent) (t : Nat) : List SendEvent := tr.filter (·.about t)

/-- Every packet that was taken is reported once afterwards, to its connection. -/
def Accounted (tr : List SendEvent) : Prop :=
  ∀ c t, .took c t ∈ tr → ∃ r p, ticketStory tr t = [.took c t, .reported r c p]

/-- A packet given back after one taken before it was taken only after that one was given back. -/
def GivenBackInReverse (tr : List SendEvent) : Prop :=
  ∀ pre mid post c p c' p',
    tr = pre ++ .reported .notSent c p :: (mid ++ .reported .notSent c' p' :: post) →
    p.ticket < p'.ticket → .took c' p'.ticket ∈ mid

/-- Since a packet was taken, none that was taken before it has been given back. -/
def Late (x : OutConn × Nat) (tr : List SendEvent) : Prop :=
  ∀ pre mid c p, tr = pre ++ .reported .notSent c p :: mid → p.ticket < x.2 → .took x.1 x.2 ∈ mid

section
variable {tr : List SendEvent} {e : SendEvent} {x : OutConn × Nat}

theorem Late.snoc (hl : Late x tr) (he : ∀ c p, e = .reported .notSent c p → x.2 ≤ p.ticket) :
    Late x (tr ++ [e]) := by
  intro pre mid c p htr hlt
  rcases List.eq_nil_or_concat' mid with rfl | ⟨mid', e', rfl⟩
  · obtain ⟨-, hlast⟩ := List.append_inj' htr rfl
    have hle := he c p (List.singleton_inj.1 hlast)
    omega
  · rw [← List.cons_append, ← List.append_assoc] at htr
    obtain ⟨htr, -⟩ := List.append_inj' htr rfl
    exact List.mem_append_left _ (hl pre mid' c p htr hlt)

theorem Late.took (c : OutConn) (t : Nat) : Late (c, t) (tr ++ [.took c t]) := by
  intro pre mid c' p htr hlt
  rcases List.eq_nil_or_concat' mid with rfl | ⟨mid', e', rfl⟩
  · obtain ⟨-, hlast⟩ := List.append_inj' htr rfl
    cases List.singleton_inj.1 hlast
  · rw [← List.cons_append, ← List.append_assoc] at htr
    obtain ⟨-, hlast⟩ := List.append_inj' htr rfl
    rw [← hlast]
    exact List.mem_append_right _ (List.mem_singleton_self _)

theorem GivenBackInReverse.snoc (hr : GivenBackInReverse tr)
    (he : ∀ c p, e = .reported .notSent c p → Late (c, p.ticket) tr) :
    GivenBackInReverse (tr ++ [e]) := by
  intro pre mid post c p c' p' htr hlt
  rcases List.eq_nil_or_concat' post with rfl | ⟨post', e', rfl⟩
  · rw [← List.cons_append, ← List.append_assoc] at htr
    obtain ⟨htr, hlast⟩ := List.append_inj' htr rfl
    exact he c' p' (List.singleton_inj.1 hlast) pre mid c p htr hlt
  · have htr' : tr ++ [e] =
        (pre ++ .reported .notSent c p :: (mid ++ .reported .notSent c' p' :: post')) ++ [e'] := by
      rw [htr]
      simp
    obtain ⟨htr, -⟩ := List.append_inj' htr' rfl
    exact hr pre mid post' c p c' p' htr hlt

end

/-- `pend` are the packets that are out, in their order; any other was given back or lost behind
another one's failure. -/
structure Books (tr : List SendEvent) (taken : Nat) (pend : List (OutConn × Nat)) : Prop where
  future : ∀ t, taken ≤ t → ticketStory tr t = []
  sorted : (pend.map Prod.snd).Pairwise (· < ·)
  lt : ∀ x ∈ pend, x.2 < taken
  out : ∀ x ∈ pend, ticketStory tr x.2 = [.took x.1 x.2]
  closed : ∀ t < taken, t ∉ pend.map Prod.snd →
    ∃ c, ticketStory tr t = [.took c t] ∨
      ∃ r p, ticketStory tr t = [.took c t, .reported r c p]
  lost : (∃ c t b, .failed c t b ∈ tr ∧ b ≠ 0) ↔
    ∃ c t, t ∉ pend.map Prod.snd ∧ ticketStory tr t = [.took c t]
  reverse : GivenBackInReverse tr
  late : ∀ x ∈ pend, Late x tr

namespace Books

section
variable {tr evs : List SendEvent} {e : SendEvent} {n : Nat} {pend a b : List (OutConn × Nat)}
  {x : OutConn × Nat}

theorem empty : Books [] 0 [] :=
  ⟨fun _ _ => rfl, .nil, by simp, by simp, by simp, by simp [ticketStory],
    by simp [GivenBackInReverse], by simp⟩

theorem story_snoc (tr : List SendEvent) (e : SendEvent) (t : Nat) : ticketStory (tr ++ [e]) t =
    if e.about t then ticketStory tr t ++ [e] else ticketStory tr t := by
  rw [ticketStory, List.filter_append, List.filter_singleton]
  cases e.about t <;> simp [ticketStory]

theorem leave {pend' : List (OutConn × Nat)} (hb : Books tr n pend) (hs : pend'.Sublist pend)
    (hout : ∀ x ∈ pend', e.about x.2 = false) (hfut : ∀ t, n ≤ t → e.about t = false)
    (hclosed : ∀ t < n, t ∉ pend'.map Prod.snd → ∃ c, ticketStory (tr ++ [e]) t = [.took c t] ∨
      ∃ r p, ticketStory (tr ++ [e]) t = [.took c t, .reported r c p])
    (hlost : (∃ c t b, .failed c t b ∈ tr ++ [e] ∧ b ≠ 0) ↔
      ∃ c t, t ∉ pend'.map Prod.snd ∧ ticketStory (tr ++ [e]) t = [.took c t])
    (hback : ∀ c p, e = .reported .notSent c p →
      Late (c, p.ticket) tr ∧ ∀ x ∈ pend', x.2 ≤ p.ticket) : Books (tr ++ [e]) n pend' where
  future t ht := by rw [story_snoc, hfut t ht]; exact hb.future t ht
  sorted := hb.sorted.sublist (hs.map _)
  lt x hx := hb.lt x (hs.subset hx)
  out x hx := by rw [story_snoc, hout x hx]; exact hb.out x (hs.subset hx)
  closed := hclosed
  lost := hlost
  reverse := hb.reverse.snoc fun c p h => (hback c p h).1
  late x hx := (hb.late x (hs.subset hx)).snoc fun c p h => (hback c p h).2 x hx

theorem drop {g : List (OutConn × Nat)} (hb : Books tr n (a ++ (g ++ b)))
    (he : ∀ t, e.about t = false) (hf : (∃ c t k, .failed c t k = e ∧ k ≠ 0) ↔ g ≠ []) :
    Books (tr ++ [e]) n (a ++ b) := by
  have hstory (t : Nat) : ticketStory (tr ++ [e]) t =
      ticketStory tr t := by rw [story_snoc, he t]; rfl
  have hs : (a ++ b).Sublist (a ++ (g ++ b)) := (List.sublist_append_right g b).append_left a
  have hg (y) (hy : y ∈ g) : ticketStory tr y.2 = [.took y.1 y.2] := hb.out y (by simp [hy])
  -- a packet that is no longer out was not before, or is one of the group
  have hcases (t : Nat) (h : t ∉ (a ++ b).map Prod.snd) :
      t ∉ (a ++ (g ++ b)).map Prod.snd ∨ ∃ y ∈ g, y.2 = t := by
    simp only [List.map_append, List.mem_append, ← List.mem_map] at h ⊢
    tauto
  refine hb.leave hs (fun x _ => he x.2) (fun t _ => he t) ?_ ?_ ?_
  · intro t ht hpend
    rw [hstory]
    rcases hcases t hpend with h | ⟨y, hy, rfl⟩
    · exact hb.closed t ht h
    · exact ⟨y.1, .inl (hg y hy)⟩
  · have hfailed : (∃ c t k, SendEvent.failed c t k ∈ tr ++ [e] ∧ k ≠ 0) ↔
        (∃ c t k, SendEvent.failed c t k ∈ tr ∧ k ≠ 0) ∨ g ≠ [] := by
      rw [← hf]
      simp only [List.mem_append, List.mem_singleton, or_and_right, exists_or]
    simp only [hstory, hfailed, hb.lost]
    constructor
    · rintro (⟨c, t, hpend, hone⟩ | hne)
      · exact ⟨c, t, fun h => hpend ((hs.map _).subset h), hone⟩
      · obtain ⟨y, hy⟩ := List.exists_mem_of_ne_nil g hne
        refine ⟨y.1, y.2, fun hmem => ?_, hg y hy⟩
        have hsorted := hb.sorted
        rw [List.map_append, List.map_append, List.pairwise_append, List.pairwise_append] at hsorted
        obtain ⟨-, ⟨-, -, hgb⟩, hab⟩ := hsorted
        have hy' : y.2 ∈ g.map Prod.snd := List.mem_map_of_mem hy
        rw [List.map_append, List.mem_append] at hmem
        rcases hmem with hmem | hmem
        · exact Nat.lt_irrefl _ (hab y.2 hmem y.2 (List.mem_append_left _ hy'))
        · exact Nat.lt_irrefl _ (hgb y.2 hy' y.2 hmem)
    · rintro ⟨c, t, hpend, hone⟩
      rcases hcases t hpend with h | ⟨y, hy, rfl⟩
      · exact .inl ⟨c, t, h, hone⟩
      · exact .inr (List.ne_nil_of_mem hy)
  · rintro c p rfl
    exact absurd (he p.ticket) (by simp [SendEvent.about])

theorem quiet (hb : Books tr n pend) (he : ∀ t, e.about t = false)
    (hf : ∀ c t k, .failed c t k = e → k = 0) : Books (tr ++ [e]) n pend := by
  have h := @drop tr e n pend [] [] (by simpa using hb) he
    (by simpa using hf)
  simpa using h

theorem take (hb : Books tr n pend) (c : OutConn) :
    Books (tr ++ [.took c n]) (n + 1) (pend ++ [(c, n)]) := by
  have hself : ticketStory (tr ++ [.took c n]) n = [.took c n] := by
    rw [story_snoc, hb.future n (Nat.le_refl n)]
    simp [SendEvent.about]
  have hother (t : Nat) (ht : t ≠ n) : ticketStory (tr ++ [.took c n]) t = ticketStory tr t := by
    rw [story_snoc, if_neg (by simpa [SendEvent.about] using ht.symm)]
  have hmap : (pend ++ [(c, n)]).map Prod.snd = pend.map Prod.snd ++ [n] := by simp
  refine ⟨?_, ?_, ?_, ?_, ?_, ?_, ?_, ?_⟩
  · intro t ht
    rw [hother t (by omega)]
    exact hb.future t (by omega)
  · rw [hmap, List.pairwise_append]
    refine ⟨hb.sorted, List.pairwise_singleton _ _, ?_⟩
    intro t ht m hm
    obtain ⟨x, hx, rfl⟩ := List.mem_map.1 ht
    rw [List.mem_singleton.1 hm]
    exact hb.lt x hx
  · intro x hx
    rcases List.mem_append.1 hx with hx | hx
    · exact Nat.lt_succ_of_lt (hb.lt x hx)
    · rw [List.mem_singleton.1 hx]
      exact Nat.lt_succ_self n
  · intro x hx
    rcases List.mem_append.1 hx with hx | hx
    · rw [hother x.2 (Nat.ne_of_lt (hb.lt x hx))]
      exact hb.out x hx
    · rw [List.mem_singleton.1 hx]
      exact hself
  · intro t ht hp
    rw [hmap, List.mem_append, List.mem_singleton] at hp
    rw [hother t fun h => hp (.inr h)]
    exact hb.closed t (by omega) fun h => hp (.inl h)
  · have hfailed : (∃ c' t b, SendEvent.failed c' t b ∈ tr ++ [.took c n] ∧ b ≠ 0) ↔
        ∃ c' t b, SendEvent.failed c' t b ∈ tr ∧ b ≠ 0 := by simp
    rw [hfailed, hb.lost, hmap]
    simp only [List.mem_append, List.mem_singleton, not_or]
    constructor
    · rintro ⟨c', t, hp, hfil⟩
      have ht : t ≠ n := by
        rintro rfl
        rw [hb.future t (Nat.le_refl t)] at hfil
        cases hfil
      exact ⟨c', t, ⟨hp, ht⟩, (hother t ht).trans hfil⟩
    · rintro ⟨c', t, ⟨hp, ht⟩, hfil⟩
      exact ⟨c', t, hp, (hother t ht).symm.trans hfil⟩
  · exact hb.reverse.snoc fun c' p h => absurd h (by simp)
  · intro x hx
    rcases List.mem_append.1 hx with hx | hx
    · exact (hb.late x hx).snoc fun c' p h => absurd h (by simp)
    · rw [List.mem_singleton.1 hx]
      exact Late.took c n

theorem report (hb : Books tr n (a ++ x :: b)) (r : Report) {p : OutPacket} (hp : p.ticket = x.2)
    (hr : r = .notSent → b = []) : Books (tr ++ [.reported r x.1 p]) n (a ++ b) := by
  have hmem : x ∈ a ++ x :: b := List.mem_append_right _ (.head _)
  have hs : (a ++ b).Sublist (a ++ x :: b) := (List.sublist_cons_self x b).append_left a
  have hsorted := hb.sorted
  rw [List.map_append, List.map_cons, List.pairwise_append, List.pairwise_cons] at hsorted
  obtain ⟨-, ⟨hxb, -⟩, hab⟩ := hsorted
  have hax : ∀ y ∈ a, y.2 < x.2 := fun y hy => hab y.2 (List.mem_map_of_mem hy) x.2 (.head _)
  have habout (t : Nat) : (SendEvent.reported r x.1 p).about t = decide (x.2 = t) := by
    simp [SendEvent.about, hp]
  have hself : ticketStory (tr ++ [.reported r x.1 p]) x.2 =
      [.took x.1 x.2, .reported r x.1 p] := by
    rw [story_snoc, habout, hb.out x hmem]
    simp
  have hother (t : Nat) (ht : t ≠ x.2) :
      ticketStory (tr ++ [.reported r x.1 p]) t = ticketStory tr t := by
    rw [story_snoc, habout, if_neg (by simpa using ht.symm)]
  have hgone (t : Nat) (ht : t ≠ x.2) :
      t ∉ (a ++ b).map Prod.snd ↔ t ∉ (a ++ x :: b).map Prod.snd := by
    simp only [List.map_append, List.map_cons, List.mem_append, List.mem_cons, ht, false_or]
  refine hb.leave hs ?_ ?_ ?_ ?_ ?_
  · intro y hy
    rw [habout, decide_eq_false_iff_not]
    rcases List.mem_append.1 hy with hy | hy
    · exact Nat.ne_of_gt (hax y hy)
    · exact Nat.ne_of_lt (hxb y.2 (List.mem_map_of_mem hy))
  · intro t ht
    have hlt := hb.lt x hmem
    rw [habout, decide_eq_false_iff_not]
    omega
  · intro t ht hpend
    by_cases htx : t = x.2
    · rw [htx]
      exact ⟨x.1, .inr ⟨r, p, hself⟩⟩
    · rw [hother t htx]
      exact hb.closed t ht ((hgone t htx).1 hpend)
  · have hfailed : (∃ c' t b, SendEvent.failed c' t b ∈ tr ++ [.reported r x.1 p] ∧ b ≠ 0) ↔
        ∃ c' t b, SendEvent.failed c' t b ∈ tr ∧ b ≠ 0 := by simp
    rw [hfailed, hb.lost]
    constructor
    · rintro ⟨c, t, hpend, hstory⟩
      have htx : t ≠ x.2 := by
        rintro rfl
        exact hpend (List.mem_map_of_mem hmem)
      exact ⟨c, t, (hgone t htx).2 hpend, (hother t htx).trans hstory⟩
    · rintro ⟨c, t, hpend, hstory⟩
      have htx : t ≠ x.2 := by
        rintro rfl
        rw [hself] at hstory
        cases hstory
      exact ⟨c, t, (hgone t htx).1 hpend, (hother t htx).symm.trans hstory⟩
  · intro c p' h
    obtain ⟨hr', rfl, rfl⟩ := SendEvent.reported.inj h
    obtain rfl := hr hr'
    rw [hp]
    refine ⟨hb.late x hmem, fun y hy => ?_⟩
    rw [List.append_nil] at hy
    exact Nat.le_of_lt (hax y hy)

/-- When nothing is out, the books are right exactly if no packet failed behind another one. -/
theorem accounted_iff (hb : Books tr n []) :
    Accounted tr ↔ ∀ c t b, .failed c t b ∈ tr → b = 0 := by
  have hmem : ∀ {c t evs}, ticketStory tr t = .took c t :: evs → .took c t ∈ tr := by
    intro c t evs h
    have hin : SendEvent.took c t ∈ ticketStory tr t := by
      rw [h]
      exact .head _
    exact (List.mem_filter.1 hin).1
  constructor
  · intro hacc c t b hf
    by_contra h0
    obtain ⟨c', t', -, hone⟩ := hb.lost.1 ⟨c, t, b, hf, h0⟩
    obtain ⟨r, p, htwo⟩ := hacc c' t' (hmem hone)
    rw [hone] at htwo
    cases htwo
  · intro hf c t htook
    have hin : SendEvent.took c t ∈ ticketStory tr t :=
      List.mem_filter.2 ⟨htook, by simp [SendEvent.about]⟩
    have hlt : t < n := by
      by_contra h
      rw [hb.future t (Nat.le_of_not_lt h)] at hin
      cases hin
    obtain ⟨c', hone | ⟨r, p, htwo⟩⟩ := hb.closed t hlt (by simp)
    · obtain ⟨c'', t', b, hm, h0⟩ := hb.lost.2 ⟨c', t, by simp, hone⟩
      exact absurd (hf c'' t' b hm) h0
    · rw [htwo] at hin
      have hc : c = c' := by simpa using hin
      subst hc
      exact ⟨r, p, htwo⟩

end

end Books

def Datagram.out (d : Datagram) : List (OutConn × Nat) := d.packets.map fun p => (d.conn, p.ticket)

def outOf (ds : List Datagram) : List (OutConn × Nat) := ds.flatMap Datagram.out

namespace Books

open SendState

section
variable {tr : List SendEvent} {n : Nat} {a b : List (OutConn × Nat)} {conn : OutConn}

theorem reportSents (ps : List OutPacket)
    (hb : Books tr n ((ps.map fun p => (conn, p.ticket)) ++ b)) :
    Books (tr ++ ps.map (reportEvent .sent conn)) n b := by
  induction ps generalizing tr with
  | nil => simpa using hb
  | cons p ps ih =>
    have hone : Books (tr ++ [reportEvent .sent conn p]) n
        ([] ++ ((ps.map fun p => (conn, p.ticket)) ++ b)) :=
      Books.report (x := (conn, p.ticket)) (a := []) hb .sent rfl (by simp)
    have h := ih hone
    rw [List.append_assoc] at h
    exact h

theorem sents (ds : List Datagram) (hb : Books tr n (outOf ds ++ b)) :
    Books (tr ++ sentEvents ds) n b := by
  induction ds generalizing tr with
  | nil => simpa [sentEvents, outOf] using hb
  | cons d ds ih =>
    rw [outOf, List.flatMap_cons, List.append_assoc] at hb
    have h := ih (reportSents d.packets hb)
    rw [List.append_assoc] at h
    exact h

theorem reportNotSents (ps : List OutPacket)
    (hb : Books tr n (a ++ ps.reverse.map fun p => (conn, p.ticket))) :
    Books (tr ++ ps.map (reportEvent .notSent conn)) n a := by
  induction ps generalizing tr with
  | nil => simpa using hb
  | cons p ps ih =>
    rw [List.reverse_cons, List.map_append, ← List.append_assoc] at hb
    have hone := Books.report (x := (conn, p.ticket)) (b := []) (p := p) hb .notSent rfl
        fun _ => rfl
    rw [List.append_nil] at hone
    have h := ih hone
    rw [List.append_assoc] at h
    exact h

theorem notSents (ds : List Datagram) (hb : Books tr n (a ++ outOf ds)) :
    Books (tr ++ notSentEvents ds) n a := by
  induction ds using List.reverseRecOn generalizing tr with
  | nil => simpa [notSentEvents, outOf] using hb
  | append_singleton ds d ih =>
    rw [outOf, List.flatMap_append, List.flatMap_singleton, ← List.append_assoc] at hb
    have hd : d.out = d.packets.reverse.reverse.map fun p => (d.conn, p.ticket) := by
      rw [List.reverse_reverse]
      rfl
    rw [hd] at hb
    have h := ih (reportNotSents d.packets.reverse hb)
    rw [notSentEvents, List.reverse_append, List.reverse_singleton, List.singleton_append,
      List.flatMap_cons, ← List.append_assoc]
    exact h

theorem errors (outs : List Datagram) (c : OutCall) (hb : Books tr n a) :
    Books (tr ++ errorEvents outs c) n a := by
  rw [errorEvents]
  split
  · cases outs[c.nSent.toNat]? with
    | none => simpa using hb
    | some d => exact hb.quiet (fun _ => rfl) (by simp)
  · simpa using hb

theorem outOf_stamp (now : Time) (start stop k : Nat) (outs : List Datagram) :
    outOf ((stamp now start stop outs).drop k) = outOf (outs.drop k) := by
  have hmap : (stamp now start stop outs).map Datagram.out = outs.map Datagram.out := by
    apply List.ext_getElem?
    intro i
    rw [List.getElem?_map, List.getElem?_map, stamp, List.getElem?_mapIdx, Option.map_map]
    congr 1
    funext d
    simp only [Function.comp]
    split
    · simp [Datagram.out, Function.comp_def]
    · rfl
  rw [outOf, outOf, List.flatMap_def, List.flatMap_def, List.map_drop, List.map_drop, hmap]

theorem rest {outs : List Datagram} {c : OutCall}
    (hb : Books tr n (outOf (outs.drop (c.skip + c.nSent.toNat)))) :
    Books (tr ++ restEvents outs c) n
      (match outcome outs c with
        | .restart skip => outOf (outs.drop skip)
        | .done _ => []) := by
  have hback : Books (tr ++ notSentEvents (outs.drop (c.skip + c.nSent.toNat))) n [] :=
    notSents (a := []) _ hb
  have hclose : ∀ conn, Books (tr ++ .sendError conn ::
      notSentEvents (outs.drop (c.skip + c.nSent.toNat))) n [] := by
    intro conn
    have h₁ : Books (tr ++ [.sendError conn]) n _ :=
      hb.quiet (fun _ => rfl) (by simp)
    have h := notSents (a := []) _ h₁
    rw [List.append_assoc] at h
    exact h
  rw [restEvents, outcome]
  cases hd : outs[c.skip + c.nSent.toNat]? with
  | none =>
    rw [List.drop_eq_nil_of_le (List.getElem?_eq_none_iff.1 hd)] at hb
    simpa [outOf] using hb
  | some d =>
    obtain ⟨hlt, hget⟩ := List.getElem?_eq_some_iff.1 hd
    obtain ⟨conn, packets⟩ := d
    simp only
    split
    next he =>
      rcases packets with _ | ⟨p, _ | ⟨q, ps⟩⟩
      · simpa using hclose conn
      · simp only
        split
        next ht =>
          rw [List.drop_eq_getElem_cons hlt, hget, outOf, List.flatMap_cons] at hb
          have hone : Books (tr ++ [.reported .tooLarge conn p]) n
              (outOf (outs.drop (c.skip + c.nSent.toNat + 1))) :=
            Books.report (x := (conn, p.ticket)) (a := []) hb .tooLarge rfl
              (by simp)
          simp only [he, ht, List.length_singleton, and_self, if_true]
          split
          next hr =>
            split at hr
            · cases hr
              exact hone
            · cases hr
          next hr =>
            split at hr
            · cases hr
            next hge =>
              rw [List.drop_eq_nil_of_le (Nat.le_of_not_lt hge)] at hone
              simpa [outOf] using hone
        next ht => simpa [ht] using hclose conn
      · simpa using hclose conn
    next he => simpa [he] using hback

theorem attempt {ε : Type} (I : EngineIf ε) (st : SendState ε) (skip : Nat)
    (hb : Books st.trace st.taken (outOf (st.outs.drop skip))) :
    Books (st.attempt I skip).1.trace (st.attempt I skip).1.taken
      (match (st.attempt I skip).2 with
        | .restart skip' => outOf ((st.attempt I skip).1.outs.drop skip')
        | .done _ => []) := by
  obtain ⟨hlog, hout⟩ := attempt_spec I st skip
  have hskip : (st.callOut I skip).1.skip = skip := rfl
  have hsame : ∀ k, outOf ((st.callOut I skip).2.1.drop k) = outOf (st.outs.drop k) := fun k =>
    outOf_stamp _ _ _ k _
  have htrace := hlog.trace
  have htaken := hlog.taken
  have houts := hlog.outs
  simp only at htrace htaken houts
  rw [htrace, htaken, houts, hout]
  generalize (st.callOut I skip).1 = c at hskip
  generalize (st.callOut I skip).2.1 = outs at hsame
  rw [← hskip] at hb
  rw [← hsame] at hb
  have hcalled : Books (st.trace ++ [.called c]) st.taken (outOf (outs.drop c.skip)) :=
    hb.quiet (fun _ => rfl) (by simp)
  have herr := errors outs c hcalled
  rw [← List.take_append_drop c.nSent.toNat (outs.drop c.skip), List.drop_drop, outOf,
    List.flatMap_append] at herr
  have h := rest (sents _ herr)
  simpa [callEvents] using h

theorem sendFrom {ε : Type} (I : EngineIf ε) {fuel skip : Nat} {st : SendState ε}
    (hskip : skip < st.outs.length) (hf : st.outs.length - skip ≤ fuel)
    (hb : Books st.trace st.taken (outOf (st.outs.drop skip))) :
    Books (sendFrom I fuel st skip).1.trace (sendFrom I fuel st skip).1.taken [] := by
  induction fuel generalizing st skip with
  | zero => omega
  | succ fuel ih =>
    rw [SendState.sendFrom]
    have hstep := attempt I st skip hb
    have hlen := attempt_length I st skip
    cases hres : st.attempt I skip with
    | mk st₁ out =>
      rw [hres] at hstep hlen
      cases out with
      | done w => exact hstep
      | restart skip' =>
        obtain ⟨hlt, hlt'⟩ := @attempt_restart _ I st _ _ (by rw [hres])
        have hlen' : st₁.outs.length = st.outs.length := hlen
        exact ih (by omega) (by omega) hstep

theorem sendBatch {ε : Type} (I : EngineIf ε) {st : SendState ε}
    (hne : 0 < st.outs.length) (hb : Books st.trace st.taken (outOf st.outs)) :
    Books (st.sendBatch I).1.trace (st.sendBatch I).1.taken [] :=
  @Books.sendFrom _ I _ _ (st.applyHp I) hne le_rfl hb

end

end Books

namespace SendState

section
variable {ε : Type} {I : EngineIf ε} {st st' : SendState ε} {conn : OutConn}

def Kept (st : SendState ε) : Prop := Books st.trace st.taken (outOf st.outs)

def Placed.Kept (conn : OutConn) : Placed ε → Prop
  | .full st packets => Books st.trace st.taken (outOf (st.outs ++ [⟨conn, packets⟩]))
  | .endFor st => st.Kept
  | .nextConn st => st.Kept

theorem outOf_snoc (ds : List Datagram) (conn : OutConn) (ps : List OutPacket) :
    outOf (ds ++ [⟨conn, ps⟩]) = outOf ds ++ ps.map fun p => (conn, p.ticket) := by
  rw [outOf, List.flatMap_append, List.flatMap_singleton]
  rfl

inductive PlaceStep (I : EngineIf ε) (conn : OutConn) (room : Nat) (before : List OutPacket)
    (p : OutPacket) (st : SendState ε) : Placed ε → Prop
  | nomem :
    PlaceStep I conn room before p st
      (.endFor ({ st with env := (st.prepare I conn p).2 }.failPacket I conn p before.length))
  | badcrypt (h : (st.prepare I conn p).1 = .badcrypt) :
    PlaceStep I conn room before p st
      (.nextConn (({ st with env := (st.prepare I conn p).2 }.failPacket I conn p
        before.length).leaveConn conn))
  | full (p' : OutPacket) (env' : ε) (hp : p'.ticket = p.ticket)
      (he : env' = (st.prepare I conn p).2 ∨
        ∃ coal, env' = (I.nextPacketToSend conn coal (st.prepare I conn p).2).2) :
    PlaceStep I conn room before p st
      (.full { st with env := env', iovs := st.iovs + 1 } (before ++ [p']))
  | more (room' : Nat) (p' next : OutPacket) (coal : Option ToCoal) (env' : ε)
      (hroom : room = room' + 1) (hp : p'.ticket = p.ticket)
      (he : I.nextPacketToSend conn coal (st.prepare I conn p).2 = (some next, env')) :
    PlaceStep I conn room before p st
      (place I conn room' (before ++ [p'])
        (take { st with env := env', iovs := st.iovs + 1 } conn next).2
        (take { st with env := env', iovs := st.iovs + 1 } conn next).1)

theorem place_step (room : Nat) (before : List OutPacket) (p : OutPacket) (st : SendState ε) :
    PlaceStep I conn room before p st (place I conn room before p st) := by
  rw [place.eq_def]
  have hnomem := @PlaceStep.nomem _ I conn room before p st
  have hbad := @PlaceStep.badcrypt _ I conn room before p st
  have hfull := @PlaceStep.full _ I conn room before p st
  have hmore := @PlaceStep.more _ I conn room before p st
  generalize st.prepare I conn p = res at hnomem hbad hfull hmore
  obtain ⟨enc, env⟩ := res
  cases enc with
  | nomem => exact hnomem
  | badcrypt => exact hbad rfl
  | ok sz =>
    simp only at hfull hmore ⊢
    have hp : (if prepares I p then { p with encrypted := true, encDataSz := sz } else p).ticket =
        p.ticket := by
      split <;> rfl
    generalize (if prepares I p then { p with encrypted := true, encDataSz := sz } else p) =
      p' at hp
    cases room with
    | zero => exact hfull p' env hp (.inl rfl)
    | succ room =>
      simp only
      split
      · cases hnext : I.nextPacketToSend conn
            (some ⟨p', ((before ++ [p']).map OutPacket.iovLen).sum⟩) env with
        | mk next? env' =>
          cases next? with
          | none => exact hfull p' env' hp (.inr ⟨_, by rw [hnext]⟩)
          | some next => exact hmore room p' next _ env' rfl hp hnext
      · exact hfull p' env hp (.inl rfl)

theorem fail_kept (env : ε) (before : List OutPacket) (p : OutPacket)
    (hb : Books st.trace st.taken (outOf (st.outs ++ [⟨conn, before ++ [p]⟩]))) :
    ({ st with env }.failPacket I conn p before.length).Kept := by
  rw [outOf_snoc, List.map_append] at hb
  have hfail := @Books.drop _ (.failed conn p.ticket before.length) _ _ _ _ hb (fun _ => rfl)
      (by simp)
  have h := Books.report (x := (conn, p.ticket)) (b := []) (p := p) hfail .notSent rfl fun _ => rfl
  rw [List.append_nil] at h
  exact h

theorem place_kept (room : Nat) (before : List OutPacket) (p : OutPacket) (st : SendState ε)
    (hb : Books st.trace st.taken (outOf (st.outs ++ [⟨conn, before ++ [p]⟩]))) :
    (place I conn room before p st).Kept conn := by
  induction room using Nat.strongRecOn generalizing before p st with
  | ind room ih =>
    have hsame : ∀ p' : OutPacket, p'.ticket = p.ticket →
        Books st.trace st.taken (outOf (st.outs ++ [⟨conn, before ++ [p']⟩])) := by
      intro p' hp
      rw [outOf_snoc] at hb ⊢
      simpa [hp] using hb
    have hstep := @place_step _ I conn room before p st
    generalize place I conn room before p st = res at hstep
    cases hstep with
    | nomem => exact fail_kept _ before p hb
    | badcrypt h =>
      have hk := fail_kept (I := I) (st.prepare I conn p).2 before p hb
      rw [Placed.Kept, leaveConn]
      split
      · exact hk
      · exact hk
    | full p' env' hp he => exact hsame p' hp
    | more room' p' next coal env' hroom hp he =>
      apply ih room' (by omega)
      have h := (hsame p' hp).take conn
      rw [outOf_snoc] at h ⊢
      rw [List.map_append, ← List.append_assoc]
      exact h

theorem checkDeadline_same (I : EngineIf ε) (st : SendState ε) :
    (st.checkDeadline I).2.trace = st.trace ∧ (st.checkDeadline I).2.taken = st.taken ∧
    (st.checkDeadline I).2.outs = st.outs := by
  rw [checkDeadline]
  split
  · generalize I.timeNow st.env = res
    obtain ⟨now, env⟩ := res
    simp only
    split
    · exact ⟨rfl, rfl, rfl⟩
    · exact ⟨rfl, rfl, rfl⟩
  · exact ⟨rfl, rfl, rfl⟩

theorem addDatagram_kept (d : Datagram)
    (hb : Books st.trace st.taken (outOf (st.outs ++ [d]))) : (st.addDatagram I d).2.Kept := by
  rw [addDatagram]
  split
  · have hsent : Books ({ st with outs := st.outs ++ [d] }.sendBatch I).1.trace
        ({ st with outs := st.outs ++ [d] }.sendBatch I).1.taken [] :=
      Books.sendBatch I (by simp) hb
    generalize { st with outs := st.outs ++ [d] }.sendBatch I = res at hsent
    obtain ⟨st₁, w⟩ := res
    simp only at hsent ⊢
    split
    · exact hsent
    · obtain ⟨htr, htk, ho⟩ := checkDeadline_same I st₁.emptyBatch
      generalize st₁.emptyBatch.checkDeadline I = res at htr htk ho
      obtain ⟨past, st₂⟩ := res
      simp only at htr htk ho
      have hk : st₂.Kept := by
        rw [Kept, htr, htk, ho]
        exact hsent
      cases past with
      | true => exact hk
      | false => exact hk
  · exact hb

theorem coiNext_same (I : EngineIf ε) (st : SendState ε) :
    (st.coiNext I).2.trace = st.trace ∧ (st.coiNext I).2.taken = st.taken ∧
    (st.coiNext I).2.outs = st.outs := by
  rw [coiNext]
  split
  · exact ⟨rfl, rfl, rfl⟩
  · generalize (if st.iter.prq then I.prqNextConn st.env else (none, st.env)) = res
    obtain ⟨conn?, env⟩ := res
    cases conn? with
    | some conn => exact ⟨rfl, rfl, rfl⟩
    | none =>
      simp only
      split
      · exact ⟨rfl, rfl, rfl⟩
      · exact ⟨rfl, rfl, rfl⟩

theorem round_kept (hk : st.Kept) : (st.round I).2.Kept := by
  obtain ⟨htr, htk, ho⟩ := coiNext_same I st
  rw [round]
  generalize st.coiNext I = res at htr htk ho
  obtain ⟨conn?, st₁⟩ := res
  simp only at htr htk ho
  have hk₁ : st₁.Kept := by
    rw [Kept, htr, htk, ho]
    exact hk
  cases conn? with
  | none => exact hk₁
  | some conn =>
    simp only
    generalize I.nextPacketToSend conn none st₁.env = res
    obtain ⟨p?, env⟩ := res
    cases p? with
    | none => exact hk₁
    | some p =>
      have htake : Books (st₁.trace ++ [.took conn st₁.taken]) (st₁.taken + 1)
          (outOf (st₁.outs ++ [⟨conn, [] ++ [{ p with ticket := st₁.taken }]⟩])) := by
        rw [outOf_snoc]
        exact Books.take hk₁ conn
      have hplace := place_kept (I := I) (maxOutIovs - st₁.iovs - 1) []
        (take { st₁ with env } conn p).2 (take { st₁ with env } conn p).1 htake
      simp only [take] at hplace ⊢
      split
      next st₂ packets heq =>
        have hfull : (Placed.full st₂ packets).Kept conn := heq ▸ hplace
        exact addDatagram_kept _ hfull
      next st₂ heq =>
        have hend : (Placed.endFor st₂).Kept conn := heq ▸ hplace
        exact hend
      next st₂ heq =>
        have hnext : (Placed.nextConn st₂).Kept conn := heq ▸ hplace
        exact hnext

theorem rounds_kept {fuel : Nat} (hk : st.Kept) (hr : st.rounds I fuel = some st') : st'.Kept := by
  induction fuel generalizing st with
  | zero => cases hr
  | succ fuel ih =>
    have hstep := round_kept (I := I) hk
    rw [rounds] at hr
    generalize st.round I = res at hstep hr
    obtain ⟨more, st₁⟩ := res
    cases more with
    | true => exact ih hstep hr
    | false =>
      cases hr
      exact hstep

theorem sendRest_kept (hk : st.Kept) : Books (st.sendRest I).trace (st.sendRest I).taken [] := by
  rw [sendRest]
  split
  next hne => exact Books.sendBatch I hne hk
  next h0 =>
    have hnil : st.outs = [] := List.eq_nil_of_length_eq_zero (by omega)
    rw [Kept, hnil] at hk
    exact hk

theorem endFor_kept (hk : st.Kept) : Books (st.endFor I).trace (st.endFor I).taken [] := by
  have hsent := sendRest_kept (I := I) hk
  rw [endFor]
  generalize st.sendRest I = st₁ at hsent
  split
  · exact hsent
  · split
    · obtain ⟨htr, htk, -⟩ := checkDeadline_same I st₁
      generalize st₁.checkDeadline I = res at htr htk
      obtain ⟨past, st₂⟩ := res
      simp only at htr htk
      have hb : Books st₂.trace st₂.taken [] := by
        rw [htr, htk]
        exact hsent
      cases past with
      | true => exact hb
      | false => exact hb
    · exact hsent

theorem start_kept (st : SendState ε) : st.start.Kept := Books.empty

end

end SendState

end QuicArt
