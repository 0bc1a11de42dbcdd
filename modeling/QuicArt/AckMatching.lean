import QuicArt.Reach

namespace QuicArt

/-- What the ACK parser promises, for all pairs of ranges: there is one, and they go down. -/
structure AckInfo.Descends (acki : AckInfo) : Prop where
  nonempty : acki.ranges ≠ []
  valid : ∀ r ∈ acki.ranges, r.low ≤ r.high
  descending : acki.ranges.Pairwise fun r r' => r'.high < r.low

section
variable {acki : AckInfo} {n : Int} {rs pre : List PacknoRange}

theorem AckInfo.covers_iff : acki.covers n = true ↔ ∃ r ∈ acki.ranges, r.low ≤ n ∧ n ≤ r.high := by
  simp [covers]

theorem rangesDescend_pairwise {l : List PacknoRange} (h : rangesDescend l = true) :
    (∀ r ∈ l, r.low ≤ r.high) ∧ l.Pairwise fun r r' => r'.high < r.low := by
  induction l with
  | nil => exact ⟨by simp, List.Pairwise.nil⟩
  | cons r l ih =>
    cases l with
    | nil => exact ⟨by simpa [rangesDescend] using h, List.pairwise_singleton _ _⟩
    | cons r' l =>
      simp only [rangesDescend, Bool.and_eq_true, decide_eq_true_eq] at h
      obtain ⟨hv, hp⟩ := ih h.2
      have hv' := hv r' (.head _)
      refine ⟨List.forall_mem_cons.2 ⟨h.1.2, hv⟩, List.pairwise_cons.2 ⟨fun x hx => ?_, hp⟩⟩
      rcases List.mem_cons.1 hx with rfl | hx
      · exact h.1.1
      · have hlt := List.rel_of_pairwise_cons hp hx
        omega

theorem AckInfo.descends (h : acki.wellFormed = true) : acki.Descends := by
  simp only [AckInfo.wellFormed, Bool.and_eq_true, Bool.not_eq_true',
    List.isEmpty_eq_false_iff] at h
  obtain ⟨hv, hp⟩ := rangesDescend_pairwise h.2
  exact ⟨h.1, hv, hp⟩

theorem AckInfo.Descends.highest (hw : acki.Descends) :
    ∃ r ∈ acki.ranges, r.high = acki.largestAcked := by
  obtain ⟨r, l, he⟩ := List.exists_cons_of_ne_nil hw.nonempty
  refine ⟨r, by rw [he]; exact (.head _), ?_⟩
  rw [AckInfo.largestAcked, he]
  rfl

theorem AckInfo.Descends.ascending (hw : acki.Descends) :
    acki.ranges.reverse.Pairwise fun r r' => r.high < r'.low :=
  List.pairwise_reverse.2 hw.descending

theorem AckInfo.Descends.rangeTest (hw : acki.Descends) (hs : pre ++ rs = acki.ranges.reverse)
    (hpre : ∀ r ∈ pre, r.high < n) (hle : n ≤ acki.largestAcked) :
    ∃ r l, rs.dropWhile (fun r => decide (r.high < n)) = r :: l ∧
      (r.low ≤ n ↔ acki.covers n = true) := by
  have hmem : ∀ r ∈ acki.ranges, n ≤ r.high →
      r ∈ rs.dropWhile (fun r => decide (r.high < n)) := by
    intro r hr hn
    have hr : r ∈ pre ++ rs := hs ▸ List.mem_reverse.2 hr
    have hrs : r ∈ rs := (List.mem_append.1 hr).resolve_left fun hp => by
      have hlt := hpre r hp
      omega
    rw [← List.takeWhile_append_dropWhile (p := fun r => decide (r.high < n)) (l := rs)] at hrs
    refine (List.mem_append.1 hrs).resolve_left fun ht => ?_
    have hlt := of_decide_eq_true (List.all_eq_true.1 List.all_takeWhile r ht)
    omega
  obtain ⟨top, htop, hhigh⟩ := hw.highest
  have hne : rs.dropWhile (fun r => decide (r.high < n)) ≠ [] :=
    List.ne_nil_of_mem (hmem top htop (hhigh ▸ hle))
  obtain ⟨r, l, he⟩ := List.exists_cons_of_ne_nil hne
  have hsuf : r :: l <:+ acki.ranges.reverse := by
    rw [← he, ← hs]
    exact (List.dropWhile_suffix _).trans (List.suffix_append _ _)
  have hr : r ∈ acki.ranges := List.mem_reverse.1 (hsuf.subset (.head _))
  have hnr : n ≤ r.high := by
    have hd : decide (r.high < n) = false := by
      have hh := List.head?_dropWhile_not (fun r : PacknoRange => decide (r.high < n)) rs
      rw [he] at hh
      exact hh
    exact Int.not_lt.1 (of_decide_eq_false hd)
  refine ⟨r, l, he, fun hl => AckInfo.covers_iff.2 ⟨r, hr, hl, hnr⟩, fun hc => ?_⟩
  obtain ⟨r', hr', hl', hh'⟩ := AckInfo.covers_iff.1 hc
  rcases List.mem_cons.1 (he ▸ hmem r' hr' hh') with rfl | hl
  · exact hl'
  · have hlt := List.rel_of_pairwise_cons (hw.ascending.sublist hsuf.sublist) hl
    omega

end

def OneChain (c : Core) (p a : PktId) : Prop :=
  ∃ l, Ring (fun x => (c.pkts x).lossChain) p l ∧ a ∈ p :: l

section
variable {c : Core} {p a b : PktId} {l : List PktId}

theorem OneChain.symm (h : OneChain c p a) : OneChain c a p := by
  obtain ⟨l, hr, ha⟩ := h
  rcases List.mem_cons.1 ha with rfl | ha
  · exact ⟨l, hr, .head _⟩
  · obtain ⟨l₁, l₂, he⟩ := List.append_of_mem ha
    subst he
    exact ⟨_, hr.rotate, List.mem_cons_of_mem _ (List.mem_append_right _ (.head _))⟩

theorem OneChain.mem (h : OneChain c p a) (hr : Ring (fun x => (c.pkts x).lossChain) p l) :
    a ∈ p :: l := by
  obtain ⟨l', hr', ha⟩ := h
  rwa [hr.unique hr']

theorem Sound.ring (hS : Sound c [] []) (hp : p ∈ c.queue (.unacked n))
    (hpo : (c.pkts p).poison = false) : ∃ l, Ring (fun x => (c.pkts x).lossChain) p l := by
  cases hr : (c.pkts p).lossRec with
  | false =>
    obtain ⟨l, hC, -⟩ := hS.chains.chain p ⟨⟨hr, hpo⟩, by simp, .inr ⟨_, by simp, hp⟩⟩
    exact ⟨l, hC.ring⟩
  | true =>
    obtain ⟨d, l, -, -, -, hC, hl, -⟩ := hS.chains.owner p hr (by simp) (.inr ⟨n, hp⟩)
    obtain ⟨l₁, l₂, he⟩ := List.append_of_mem hl
    subst he
    exact ⟨_, hC.ring.rotate⟩

end

namespace SendCtl

section
variable {env : Env} {s s₀ : SendCtl} {acki : AckInfo} {p a : PktId} {l : List PktId}

def ackRound (env : Env) (acki : AckInfo) (prev : Int) (st : AckLoop × List (PktId × Bool))
    (p : PktId) : (AckLoop × List (PktId × Bool)) × Option PktId :=
  let packno := (st.1.ctl.pkt p).packno
  let r := ackOne env acki prev st.1 p
  ((r.1, st.2 ++ [(p, (st.1.advance packno).inRange packno)]), r.2)

def ackRounds (env : Env) (s : SendCtl) (acki : AckInfo) : AckLoop × List (PktId × Bool) :=
  scan (fun st p => !st.1.poisoned && decide ((st.1.ctl.pkt p).packno ≤ acki.largestAcked))
    (ackRound env acki s.largestAckedPackno) (s.queue (.unacked acki.pns)).length
    ({ ctl := s, ranges := acki.ranges.reverse }, []) (s.queue (.unacked acki.pns)).head?

theorem ackRounds_loop (env : Env) (s : SendCtl) (acki : AckInfo) :
    (s.ackRounds env acki).1 = s.ackLoop env acki := by
  rw [ackRounds, ackLoop]
  refine scan_map Prod.fst ?_ ?_ _ _ _
  · exact fun _ _ => rfl
  · exact fun _ _ => rfl

/-- The numbers go up on the unacked queue. -/
def Ordered (s : SendCtl) (n : Pns) : Prop :=
  (s.queue (.unacked n)).Pairwise fun a b => (s.pkt a).packno < (s.pkt b).packno

instance (s : SendCtl) (n : Pns) : Decidable (Ordered s n) :=
  inferInstanceAs (Decidable (List.Pairwise _ _))

theorem Ordered.after (h : Ordered s n)
    (ha : a ∈ s.queue (.unacked n)) (hb : b ∈ after a (s.queue (.unacked n))) :
    (s.pkt a).packno < (s.pkt b).packno := by
  obtain ⟨pre, suf, he, hp⟩ := List.eq_append_cons_of_mem ha
  rw [Ordered, he] at h
  rw [he, after_split hp] at hb
  exact List.rel_of_pairwise_cons (List.pairwise_append.1 h).2.1 hb

theorem Ordered.not_overtaken (h : Ordered s n) (p : PktId) :
    overtaken s n p = false := by
  refine List.any_eq_false.2 fun a ha hc => ?_
  simp only [Bool.and_eq_true, decide_eq_true_eq, List.contains_iff_mem] at hc
  have hlt := h.after ha hc.1
  omega

/-- The entries the ACK loop that began in `s₀` has been at, and whether it took them. -/
structure Rounds (env : Env) (s₀ : SendCtl) (acki : AckInfo) (st : AckLoop)
    (rounds : List (PktId × Bool)) (l : List PktId) : Prop where
  looping : AckLooping env (fun _ => True) s₀ acki st l
  clean : st.poisoned = false
  order : (rounds.map Prod.fst ++ l).Sublist (s₀.queue (.unacked acki.pns))
  exact : ∀ x ∈ rounds, x.2 = acki.covers (s₀.pkt x.1).packno
  alone : rounds.Pairwise fun x y => x.2 = true → ¬ OneChain (s₀.core env) x.1 y.1
  dropped : st.skipChecks = false → ∀ pre, pre ++ st.ranges = acki.ranges.reverse →
    ∀ r ∈ pre, ∀ b ∈ l, r.high < (s₀.pkt b).packno
  inside : st.ranges ≠ []

/-- What is missing went with an earlier entry's chain. -/
structure Matching (env : Env) (s₀ : SendCtl) (acki : AckInfo) (st : AckLoop)
    (rounds : List (PktId × Bool)) (l : List PktId) : Prop
    extends Rounds env s₀ acki st rounds l where
  passed : ∀ a ∈ s₀.queue (.unacked acki.pns), a ∈ rounds.map Prod.fst ∨ a ∈ l ∨
    ∃ p, (p, true) ∈ rounds ∧ a ∈ after p (s₀.queue (.unacked acki.pns)) ∧
      OneChain (s₀.core env) p a
  removed : ∀ q, q ≠ .stash → ∀ a, a ∈ st.ctl.queue q ↔
    a ∈ s₀.queue q ∧ ∀ p, (p, true) ∈ rounds → ¬ OneChain (s₀.core env) p a
  links : ∀ a, (a, true) ∉ rounds →
    ((st.ctl.core env).pkts a).lossChain = ((s₀.core env).pkts a).lossChain

section
variable (hI : Matching env s₀ acki st rounds (p :: l)) (hw : acki.Descends)
  (ho : Ordered s₀ acki.pns) (hle : (s₀.pkt p).packno ≤ acki.largestAcked)
include hI hw ho hle

theorem Matching.test :
    (st.advance (s₀.pkt p).packno).inRange (s₀.pkt p).packno =
      acki.covers (s₀.pkt p).packno := by
  rw [Bool.eq_iff_iff]
  constructor
  · intro hin
    rcases hI.looping.taken hle hin with hc | hov
    · exact hc
    · rw [ho.not_overtaken] at hov
      cases hov
  · intro hc
    cases hs : st.skipChecks with
    | true => simp only [AckLoop.inRange, advance_skipChecks, hs, Bool.true_or]
    | false =>
      obtain ⟨pre, hpre⟩ := hI.looping.ranges
      obtain ⟨r, l', hd, hr⟩ := hw.rangeTest hpre
        (fun r hr => hI.dropped hs pre hpre r hr p (.head _)) hle
      simp only [AckLoop.inRange, AckLoop.advance, hs, Bool.false_eq_true, if_false, hd,
        List.head?_cons, Bool.false_or, decide_eq_true_eq]
      exact hr.2 hc

theorem Matching.advance :
    (st.advance (s₀.pkt p).packno).ranges ≠ [] ∧
      (st.skipChecks = false → ∀ pre,
        pre ++ (st.advance (s₀.pkt p).packno).ranges = acki.ranges.reverse →
        ∀ r ∈ pre, ∀ b ∈ l, r.high < (s₀.pkt b).packno) := by
  cases hs : st.skipChecks with
  | true =>
    have he : st.advance (s₀.pkt p).packno = st := by simp only [AckLoop.advance, hs, if_true]
    rw [he]
    exact ⟨hI.inside, fun h => by cases h⟩
  | false =>
    have he : (st.advance (s₀.pkt p).packno).ranges =
        st.ranges.dropWhile fun r => decide (r.high < (s₀.pkt p).packno) := by
      simp only [AckLoop.advance, hs, Bool.false_eq_true, if_false]
    obtain ⟨pre₀, hpre₀⟩ := hI.looping.ranges
    have hold := hI.dropped hs pre₀ hpre₀
    obtain ⟨r₀, l₀, hd, -⟩ := hw.rangeTest hpre₀
      (fun r hr => hold r hr p (.head _)) hle
    rw [he]
    refine ⟨by rw [hd]; simp, fun _ pre hpre r hr b hb => ?_⟩
    have hp : pre = pre₀ ++ st.ranges.takeWhile fun r => decide (r.high < (s₀.pkt p).packno) := by
      refine List.append_cancel_right (hpre.trans ?_)
      rw [List.append_assoc, List.takeWhile_append_dropWhile, hpre₀]
    rw [hp] at hr
    rcases List.mem_append.1 hr with hr | hr
    · exact hold r hr b (.tail _ hb)
    · have hlt := of_decide_eq_true (List.all_eq_true.1 List.all_takeWhile r hr)
      have hpb := List.rel_of_pairwise_cons (ho.sublist hI.looping.looping.sub) hb
      omega

end

theorem Matching.ring (hI : Matching env s₀ acki st rounds l)
    (hp : p ∈ st.ctl.queue (.unacked acki.pns))
    (hr : Ring (fun x => ((s₀.core env).pkts x).lossChain) p lc) :
    Ring (fun x => ((st.ctl.core env).pkts x).lossChain) p lc := by
  refine hr.congr fun a ha => hI.links a fun hm => ?_
  have hq := ((hI.removed _ (by simp) p).1 hp).2 a hm
  exact hq (OneChain.symm ⟨lc, hr, ha⟩)

section
variable (hI : Matching env s₀ acki st rounds (p :: l))
include hI

theorem Matching.apart (b : Bool) :
    (rounds ++ [(p, b)]).Pairwise fun x y => x.2 = true → ¬ OneChain (s₀.core env) x.1 y.1 := by
  have hp : p ∈ st.ctl.queue (.unacked acki.pns) :=
    hI.looping.looping.suffix.subset (.head _)
  refine List.pairwise_append.2 ⟨hI.alone, List.pairwise_singleton _ _, fun x hx y hy ht => ?_⟩
  rw [List.mem_singleton.1 hy]
  apply ((hI.removed _ (by simp) p).1 hp).2 x.1
  rw [← ht]
  exact hx

theorem Matching.round (hS : s₀.Settled env) (hw : acki.Descends) (ho : Ordered s₀ acki.pns)
    (hle : (st.ctl.pkt p).packno ≤ acki.largestAcked)
    (hclean : (ackOne env acki prev st p).1.poisoned = st.poisoned) :
    ∃ l', (ackOne env acki prev st p).2 = l'.head? ∧ l'.Sublist l ∧
      Rounds env s₀ acki (ackOne env acki prev st p).1
        (rounds ++ [(p, (st.advance (st.ctl.pkt p).packno).inRange (st.ctl.pkt p).packno)]) l' := by
  have hR := hI.looping.looping.reached hS
  have hpn : (st.ctl.pkt p).packno = (s₀.pkt p).packno :=
    PacketOut.lasting_packno hR.lasting
  obtain ⟨l', hl', hsub, hL⟩ : ∃ l' : List PktId, (ackOne env acki prev st p).2 = l'.head? ∧ _ :=
    hI.looping.step hS trivial (fun _ _ _ _ _ => .inr trivial) hle
  obtain ⟨hrg, hskip⟩ : (ackOne env acki prev st p).1.ranges = _ ∧ _ :=
    ackOne_ranges acki prev st p
  rw [hpn] at hrg hle
  obtain ⟨hne, hdrop⟩ := hI.advance hw ho hle
  refine ⟨l', hl', hsub, hL, hclean.trans hI.clean, ?_, fun x hx => ?_, hI.apart _,
    fun hs pre hpre r hr b hb => ?_, hrg ▸ hne⟩
  · refine List.Sublist.trans ?_ hI.order
    rw [List.map_append, List.append_assoc]
    exact List.Sublist.append (.refl _) (hsub.cons_cons p)
  · rcases List.mem_append.1 hx with hx | hx
    · exact hI.exact x hx
    · rw [List.mem_singleton.1 hx, hpn]
      exact hI.test hw ho hle
  · rw [hskip, Bool.or_eq_false_iff] at hs
    rw [hrg] at hpre
    exact hdrop hs.1 pre hpre r hr b (hsub.subset hb)

theorem Matching.passes {l' : List PktId} (h : ∀ a ∈ l, a ∈ l' ∨
      ∃ q, (q, true) ∈ rounds ++ [(p, r)] ∧ a ∈ after q (s₀.queue (.unacked acki.pns)) ∧
        OneChain (s₀.core env) q a)
    (ha : a ∈ s₀.queue (.unacked acki.pns)) :
    a ∈ (rounds ++ [(p, r)]).map Prod.fst ∨ a ∈ l' ∨ ∃ q, (q, true) ∈ rounds ++ [(p, r)] ∧
      a ∈ after q (s₀.queue (.unacked acki.pns)) ∧ OneChain (s₀.core env) q a := by
  rw [List.map_append, List.mem_append]
  rcases hI.passed a ha with ha | ha | ⟨q, hq, ha⟩
  · exact .inl (.inl ha)
  · rcases List.mem_cons.1 ha with rfl | ha
    · exact .inl (.inr (.head _))
    · exact .inr (h a ha)
  · exact .inr (.inr ⟨q, List.mem_append_left _ hq, ha⟩)

theorem Matching.pass (hN : Rounds env s₀ acki st' (rounds ++ [(p, false)]) l)
    (hq : st'.ctl = st.ctl) : Matching env s₀ acki st' (rounds ++ [(p, false)]) l := by
  have hmem : ∀ a, (a, true) ∈ rounds ++ [(p, false)] ↔ (a, true) ∈ rounds := by simp
  refine ⟨hN, fun a ha => hI.passes (fun _ h => .inl h) ha, fun q hq' a => ?_, fun a ha => ?_⟩
  · simp only [hq, hmem]
    exact hI.removed q hq' a
  · rw [hq]
    exact hI.links a fun h => ha ((hmem a).2 h)

theorem Matching.take (hS : s₀.Settled env) (hp₀ : (s₀.pkt p).poison = false)
    (hA : EntryAcked env (fun _ => True) st.ctl acki.pns p
      (nextOf p (st.ctl.queue (.unacked acki.pns))) st'.ctl next')
    (hl' : next' = l'.head?) (hN : Rounds env s₀ acki st' (rounds ++ [(p, true)]) l') :
    Matching env s₀ acki st' (rounds ++ [(p, true)]) l' := by
  have hR := hI.looping.looping.reached hS
  have hmem : ∀ a, (a, true) ∈ rounds ++ [(p, true)] ↔ (a, true) ∈ rounds ∨ a = p := by simp
  have hnd : (s₀.queue (.unacked acki.pns)).Nodup := hS.placed.nodup (some (.unacked acki.pns))
  obtain ⟨lc, hring, hrem⟩ := hA.chain
  obtain ⟨lc₀, hring₀⟩ := hS.ring (n := acki.pns) hR.start hp₀
  have hlc : lc = lc₀ := hring.unique (hI.ring hR.mem hring₀)
  subst hlc
  have hone : ∀ a, a ∈ p :: lc ↔ OneChain (s₀.core env) p a := fun a =>
    ⟨fun ha => ⟨lc, hring₀, ha⟩, fun h => h.mem hring₀⟩
  -- what is left of the entries in front
  obtain ⟨hC, -, hpl⟩ := Cursor.next hI.looping.looping.suffix
    (hR.sound.placed.nodup (some (.unacked acki.pns)))
  obtain ⟨rest, hrest, -, hfront⟩ := hA.handled.cursor l hC hpl
  have hnd' : (st'.ctl.queue (.unacked acki.pns)).Nodup :=
    (hN.looping.looping.moves.sound hS).placed.nodup (some (.unacked acki.pns))
  have hrl : rest = l' := hrest.unique ⟨hl', hN.looping.looping.suffix⟩ hnd'
  subst hrl
  refine ⟨hN, fun a ha => hI.passes (fun b hb => ?_) ha, fun q hq a => ?_, fun a ha => ?_⟩
  · by_cases hbq : b ∈ st'.ctl.queue (.unacked acki.pns)
    · exact .inl (hfront b hb hbq)
    · have hbst : b ∈ st.ctl.queue (.unacked acki.pns) :=
        hI.looping.looping.suffix.subset (.tail _ hb)
      have hbl : b ∈ p :: lc := by
        by_contra hbl
        exact hbq ((hrem _ (by simp) b).2 ⟨hbst, hbl⟩)
      exact .inr ⟨p, (hmem p).2 (.inr rfl),
        mem_after_of_sublist hI.looping.looping.sub hnd hb, (hone b).1 hbl⟩
  · rw [hrem q hq, hI.removed q hq, hone, and_assoc]
    refine and_congr_right fun _ => ⟨fun h b hb => ?_, fun h => ⟨fun b hb => ?_, ?_⟩⟩
    · rcases (hmem b).1 hb with hb | rfl
      · exact h.1 b hb
      · exact h.2
    · exact h b ((hmem b).2 (.inl hb))
    · exact h p ((hmem p).2 (.inr rfl))
  · have hap : a ≠ p := fun he => ha ((hmem a).2 (.inr he))
    rw [hA.links a hap]
    exact hI.links a fun h => ha ((hmem a).2 (.inl h))

theorem Matching.step (hS : s₀.Settled env) (hw : acki.Descends) (ho : Ordered s₀ acki.pns)
    (hpo : ∀ a ∈ s₀.queue (.unacked acki.pns), (s₀.pkt a).poison = false)
    (hle : (st.ctl.pkt p).packno ≤ acki.largestAcked) (prev : Int) :
    ∃ l' : List PktId, (ackOne env acki prev st p).2 = l'.head? ∧ l'.length ≤ l.length ∧
      Matching env s₀ acki (ackOne env acki prev st p).1
        (rounds ++ [(p, (st.advance (st.ctl.pkt p).packno).inRange (st.ctl.pkt p).packno)]) l' := by
  have hR := hI.looping.looping.reached hS
  obtain ⟨-, hO⟩ : _ ∧ (if _ then _ else (ackOne env acki prev st p).1 = _) :=
    ackOne_spec (m := fun _ => True) hR.sound hR.mem trivial fun _ _ => .inr trivial
  cases hc : (st.advance (st.ctl.pkt p).packno).inRange (st.ctl.pkt p).packno with
  | true =>
    rw [if_pos hc] at hO
    have hp₀ := hpo p hR.start
    have hpp : (st.ctl.pkt p).poison = (s₀.pkt p).poison :=
      PacketOut.congr_lasting (f := PacketOut.poison) hR.lasting fun _ => rfl
    obtain ⟨hclean, hA⟩ := hO.resolve_left fun hp => absurd (hp.symm.trans (hpp.trans hp₀))
        (by simp)
    obtain ⟨l', hl', hsub, hN⟩ := hI.round hS hw ho hle hclean
    rw [hc] at hN
    exact ⟨l', hl', hsub.length_le, hI.take hS hp₀ hA hl' hN⟩
  | false =>
    rw [if_neg (by rw [hc]; simp)] at hO
    obtain ⟨l', hl', hsub, hN⟩ := hI.round hS hw ho hle (by rw [hO, advance_poisoned])
    rw [hc] at hN
    have hq : (ackOne env acki prev st p).1.ctl = st.ctl := by rw [hO, advance_ctl]
    have hnext : (ackOne env acki prev st p).2 = nextOf p (st.ctl.queue (.unacked acki.pns)) := by
      simp only [ackOne, hc, Bool.false_eq_true, if_false]
    have hnd := hR.sound.placed.nodup (some (.unacked acki.pns))
    obtain ⟨hC, -, -⟩ := Cursor.next hI.looping.looping.suffix hnd
    have hsuf := hN.looping.looping.suffix
    rw [hq] at hsuf
    have he : l' = l := Cursor.unique ⟨hnext.symm.trans hl', hsuf⟩ hC hnd
    subst he
    exact ⟨l', hl', le_rfl, hI.pass hN hq⟩

end

end

/-- The loop acknowledges, in order, exactly the entries that the frame covers and that no earlier
one took away; only these and their chains leave the queues. -/
structure Matched (env : Env) (s : SendCtl) (acki : AckInfo) (st : AckLoop)
    (rounds : List (PktId × Bool)) : Prop where
  order : (rounds.map Prod.fst).Sublist (s.queue (.unacked acki.pns))
  test : ∀ x ∈ rounds, x.2 = acki.covers (s.pkt x.1).packno
  acked : ∀ a ∈ s.queue (.unacked acki.pns), (a, true) ∈ rounds ↔
    acki.covers (s.pkt a).packno = true ∧
      ∀ p, (p, true) ∈ rounds → a ∈ after p (s.queue (.unacked acki.pns)) →
        ¬ OneChain (s.core env) p a
  inside : st.ranges ≠ []
  clean : st.poisoned = false
  removed : ∀ q, q ≠ .stash → ∀ a, a ∈ st.ctl.queue q ↔
    a ∈ s.queue q ∧ ∀ p, (p, true) ∈ rounds → ¬ OneChain (s.core env) p a

section
variable {env : Env} {s : SendCtl} {acki : AckInfo}

theorem Matching.matched (hI : Matching env s acki st rounds l) (ho : Ordered s acki.pns)
    (hw : acki.Descends) (hend : ∀ a ∈ l.head?, acki.largestAcked < (s.pkt a).packno) :
    Matched env s acki st rounds := by
  have hfront : ∀ a ∈ l, acki.covers (s.pkt a).packno = false := by
    intro a ha
    refine eq_false_of_ne_true fun hc => ?_
    obtain ⟨r, hr, -, hhigh⟩ := AckInfo.covers_iff.1 hc
    have hmax : r.high ≤ acki.largestAcked := by
      obtain ⟨top, rest, he⟩ := List.exists_cons_of_ne_nil hw.nonempty
      rw [AckInfo.largestAcked, he, List.headD_cons]
      rw [he] at hr
      rcases List.mem_cons.1 hr with rfl | hr
      · exact Int.le_refl _
      · have hlt := List.rel_of_pairwise_cons (he ▸ hw.descending) hr
        have hv := hw.valid top (by rw [he]; exact (.head _))
        omega
    cases l with
    | nil => cases ha
    | cons b l =>
      have hb := hend b rfl
      rcases List.mem_cons.1 ha with rfl | ha
      · omega
      · have hlt := List.rel_of_pairwise_cons (ho.sublist hI.looping.looping.sub) ha
        omega
  have hsub : (rounds.map Prod.fst).Sublist (s.queue (.unacked acki.pns)) :=
    (List.sublist_append_left _ _).trans hI.order
  refine ⟨hsub, hI.exact, fun a ha => ⟨fun hm => ?_, ?_⟩, hI.inside, hI.clean, hI.removed⟩
  · refine ⟨(hI.exact _ hm).symm, fun p hp hap => ?_⟩
    obtain ⟨l₁, l₂, he⟩ := List.append_of_mem hp
    have hal := hI.alone
    have hord := List.pairwise_map.1 (ho.sublist hsub)
    have hlt : (s.pkt p).packno < (s.pkt a).packno :=
      ho.after (hsub.subset (List.mem_map_of_mem hp)) hap
    rw [he] at hm hal hord
    have h₂ : (a, true) ∈ l₂ := by
      rcases List.mem_append.1 hm with h₁ | h₁
      · have hgt : (s.pkt a).packno < (s.pkt p).packno :=
          (List.pairwise_append.1 hord).2.2 _ h₁ _ (.head _)
        omega
      · rcases List.mem_cons.1 h₁ with h₁ | h₁
        · cases h₁
          omega
        · exact h₁
    exact List.rel_of_pairwise_cons (List.pairwise_append.1 hal).2.1 h₂ rfl
  · rintro ⟨hc, hno⟩
    rcases hI.passed a ha with h | h | ⟨p, hp, hap, hone⟩
    · obtain ⟨x, hx, rfl⟩ := List.mem_map.1 h
      have hx2 : x.2 = true := (hI.exact x hx).trans hc
      rw [← hx2]
      exact hx
    · rw [hfront a h] at hc
      cases hc
    · exact absurd hone (hno p hp hap)

theorem ackRounds_matched (hS : s.Settled env) (ho : Ordered s acki.pns)
    (hpo : ∀ p ∈ s.queue (.unacked acki.pns), (s.pkt p).poison = false) (hw : acki.Descends) :
    Matched env s acki (s.ackRounds env acki).1 (s.ackRounds env acki).2 := by
  have hI : Matching env s acki { ctl := s, ranges := acki.ranges.reverse } []
      (s.queue (.unacked acki.pns)) := by
    refine ⟨⟨⟨.start rfl rfl, List.suffix_refl _, nofun⟩, rfl, by simp, by simp,
      List.Pairwise.nil, fun _ pre hp => ?_, ?_⟩, fun a ha => .inr (.inl ha), by simp,
      fun _ _ => rfl⟩
    · have hpre : pre = [] := List.append_cancel_right (hp.trans (List.nil_append _).symm)
      rw [hpre]
      simp
    · simpa using hw.nonempty
  obtain ⟨l, hI, hend⟩ := scan_rule
    (s := (({ ctl := s, ranges := acki.ranges.reverse } : AckLoop), []))
    (fun (st : AckLoop × List (PktId × Bool)) p =>
      !st.1.poisoned && decide ((st.1.ctl.pkt p).packno ≤ acki.largestAcked))
    (ackRound env acki s.largestAckedPackno)
    (fun st l => Matching env s acki st.1 st.2 l)
    (fun st p l hI hc => by
      rw [Bool.and_eq_true, decide_eq_true_eq] at hc
      exact hI.step hS hw ho hpo hc.2 s.largestAckedPackno)
    hI le_rfl
  refine hI.matched ho hw fun a ha => ?_
  have hstop := hend a ha
  have hal : a ∈ l := List.mem_of_head? ha
  have hpn : _ = (s.pkt a).packno :=
    PacketOut.lasting_packno (hI.looping.looping.lasting a hal)
  rw [hI.clean, hpn] at hstop
  simpa using hstop

def gotAckStart (s : SendCtl) (acki : AckInfo) : SendCtl :=
  ({ s with ackRecv := s.ackRecv.set acki.pns true, wasQuiet := false } : SendCtl).countRoundTrip
    acki.largestAcked

def gotAckRounds (env : Env) (s : SendCtl) (acki : AckInfo) : AckLoop × List (PktId × Bool) :=
  (s.gotAckStart acki).ackRounds env acki

theorem gotAckStart_core (s : SendCtl) (acki : AckInfo) :
    (s.gotAckStart acki).core env = s.core env :=
  (core_countRoundTrip _ _).trans (core_congr rfl)

theorem gotAckStart_frame (s : SendCtl) (acki : AckInfo) :
    (s.gotAckStart acki).pkt = s.pkt ∧ (s.gotAckStart acki).queue = s.queue := by
  obtain ⟨hp, hq⟩ := countRoundTrip_frame
    ({ s with ackRecv := s.ackRecv.set acki.pns true, wasQuiet := false } : SendCtl)
    acki.largestAcked
  constructor
  · funext a
    simp only [pkt, gotAckStart, hp]
  · funext q
    simp only [queue, gotAckStart, hq]

theorem gotAck_after_rounds (hM : Matched env s acki (s.gotAckRounds env acki).1 rounds)
    (hsent : acki.largestAcked ≤ asU64 s.lastSent)
    (hfirst : (s.queue (.unacked acki.pns)).head? = some first)
    (hle : (s.pkt first).packno ≤ acki.largestAcked) (t now : Time) :
    ∃ st : AckLoop, st.ctl.core env = (s.gotAckRounds env acki).1.ctl.core env ∧
      s.gotAck env acki t now =
        ((afterAckLoop env st acki now).finishAck env acki (s.pkt first).packno, true) := by
  have hloop : (s.gotAckRounds env acki).1 = (s.gotAckStart acki).ackLoop env acki :=
    ackRounds_loop env _ acki
  let s' : SendCtl := { s with ackRecv := s.ackRecv.set acki.pns true, wasQuiet := false }
  have hq : (s'.queue (.unacked acki.pns)).head? = some first := hfirst
  refine ⟨s'.processAckLoop env acki t, ?_, ?_⟩
  · rw [processAckLoop_core, hloop]
    rfl
  · have hpo : (s'.processAckLoop env acki t).poisoned = false := by
      rw [processAckLoop_poisoned]
      exact hloop ▸ hM.clean
    have hg : s.gotAck env acki t now = s'.processAck env acki t now :=
      if_neg (Int.not_lt.2 hsent)
    have hnle : ¬ acki.largestAcked < (s'.pkt first).packno := Int.not_lt.2 hle
    rw [hg, processAck, hq]
    simp only [if_neg hnle, hpo, Bool.false_eq_true, if_false]
    rfl

/-- `lsquic_send_ctl_got_ack` acknowledges exactly the entries that the frame covers. -/
theorem gotAck_matches (hS : Sound (s.core env) [] []) (ho : Ordered s acki.pns)
    (hpo : ∀ p ∈ s.queue (.unacked acki.pns), (s.pkt p).poison = false)
    (hw : acki.wellFormed = true) (hsent : acki.largestAcked ≤ asU64 s.lastSent) :
    Matched env s acki (s.gotAckRounds env acki).1 (s.gotAckRounds env acki).2 ∧
      ∀ first, (s.queue (.unacked acki.pns)).head? = some first →
        (s.pkt first).packno ≤ acki.largestAcked → ∀ t now, ∃ st : AckLoop,
          st.ctl.core env = (s.gotAckRounds env acki).1.ctl.core env ∧
          s.gotAck env acki t now =
            ((afterAckLoop env st acki now).finishAck env acki (s.pkt first).packno, true) := by
  obtain ⟨hp, hq⟩ := gotAckStart_frame s acki
  have hc : (s.gotAckStart acki).core env = s.core env := gotAckStart_core s acki
  have hM : Matched env (s.gotAckStart acki) acki (s.gotAckRounds env acki).1
      (s.gotAckRounds env acki).2 := by
    refine ackRounds_matched (Settled.of_core hS hc) ?_ ?_ (AckInfo.descends hw)
    · rw [Ordered, hp, hq]
      exact ho
    · rw [hp, hq]
      exact hpo
  have hM' : Matched env s acki (s.gotAckRounds env acki).1 (s.gotAckRounds env acki).2 := by
    obtain ⟨h₁, h₂, h₃, h₄, h₅, h₆⟩ := hM
    rw [hp] at h₂ h₃
    rw [hq] at h₁ h₃ h₆
    rw [hc] at h₃ h₆
    exact ⟨h₁, h₂, h₃, h₄, h₅, h₆⟩
  exact ⟨hM', fun first hfirst hle t now => gotAck_after_rounds hM' hsent hfirst hle t now⟩

end

def ackOfThree : AckInfo := ⟨.app, [⟨5, 6⟩, ⟨0, 0⟩], 0, none⟩

/-- All numbers of one packet: the loss record is acknowledged, and the others go with it. -/
theorem gotAck_matches_chain : ∃ s : SendCtl, Reachable quietEnv s ∧
    (s.queue (.unacked .app)).length = 3 ∧
    (s.gotAckRounds quietEnv ackOfThree).2 = [(5, true)] ∧
    Matched quietEnv s ackOfThree (s.gotAckRounds quietEnv ackOfThree).1
      (s.gotAckRounds quietEnv ackOfThree).2 := by
  obtain ⟨s, hs, ha, ho, hpo, hsent, hlen, hr⟩ : ∃ s, Reachable quietEnv s ∧ s.aborted = false ∧
      Ordered s .app ∧ (∀ p ∈ s.queue (.unacked .app), (s.pkt p).poison = false) ∧
      ackOfThree.largestAcked ≤ asU64 s.lastSent ∧ (s.queue (.unacked .app)).length = 3 ∧
      (s.gotAckRounds quietEnv ackOfThree).2 = [(5, true)] :=
    exists_run (turnsOfPacket [] 4 ++ resend ++ replicate) (by decide +kernel)
  exact ⟨s, hs, hlen, hr, (gotAck_matches (hs.sound ha) ho hpo (by decide) hsent).1⟩

end SendCtl

end QuicArt
