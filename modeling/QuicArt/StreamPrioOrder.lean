import Mathlib.Data.List.Induction
import QuicArt.StreamPrioIter

namespace QuicArt

namespace StreamPrioIter

variable {it : StreamPrioIter}

def queue (it : StreamPrioIter) (p : Nat) : List PrioStream :=
  if it.inUse p then it.streams p else []

def upFrom (f : Nat → List PrioStream) (k : Nat) : List PrioStream :=
  (List.range' k (256 - k)).flatMap f

def remaining (it : StreamPrioIter) : List PrioStream :=
  it.nextStream ++ upFrom it.queue (it.curPrio + 1)

def Filled (it : StreamPrioIter) : Prop := ∀ p < 256, it.inUse p = true → it.streams p ≠ []

section
variable {f g : Nat → List PrioStream} {k p : Nat}

theorem upFrom_congr (h : ∀ q, k ≤ q → f q = g q) : upFrom f k = upFrom g k := by
  apply List.flatMap_congr
  intro q hq
  exact h q (List.mem_range'_1.1 hq).1

theorem upFrom_eq_nil (h : ∀ q, k ≤ q → q < 256 → f q = []) : upFrom f k = [] := by
  rw [upFrom, List.flatMap_eq_nil_iff]
  intro q hq
  rw [List.mem_range'_1] at hq
  exact h q hq.1 (by omega)

theorem upFrom_first (hk : k ≤ p) (hp : p < 256) (h : ∀ q, k ≤ q → q < p → f q = []) :
    upFrom f k = f p ++ upFrom f (p + 1) := by
  have hr := @List.range'_append_1 k (p - k) (256 - p)
  rw [show p - k + (256 - p) = 256 - k by omega, Nat.add_sub_of_le hk,
    show 256 - p = 256 - (p + 1) + 1 by omega, List.range'_succ] at hr
  rw [upFrom, ← hr, List.flatMap_append, List.flatMap_cons, List.flatMap_eq_nil_iff.2]
  · rfl
  · intro q hq
    rw [List.mem_range'_1] at hq
    exact h q hq.1 (by omega)

end

theorem queue_unused (h : it.inUse p = false) : it.queue p = [] := by
  simp [queue, h]

theorem FirstFrom.upFrom_eq (h : it.FirstFrom k p) :
    upFrom it.queue k = it.streams p ++ upFrom it.queue (p + 1) := by
  rw [upFrom_first h.le h.lt fun q hk hq => queue_unused (h.unused q hk hq), queue, if_pos h.used]

/-- A call returns the first stream of `l` and leaves the others, or `NULL` if there is none. -/
def Returns (r : Option (PrioStream × StreamPrioIter)) (l : List PrioStream) : Prop :=
  (r = none ∧ l = []) ∨
    ∃ s it', r = some (s, it') ∧ it'.Filled ∧ it'.curPrio < 256 ∧ l = s :: it'.remaining

theorem Finds.returns {r : Option StreamPrioIter} (h : it.Finds k r) (hf : it.Filled) :
    Returns (r.bind takeFirst) (upFrom it.queue k) := by
  rcases h with ⟨rfl, hn⟩ | ⟨p, rfl, hp⟩
  · exact .inl ⟨rfl, upFrom_eq_nil fun p hk hp => queue_unused (hn p hk hp)⟩
  · obtain ⟨s, rest, hs⟩ := List.exists_cons_of_ne_nil (hf p hp.lt hp.used)
    refine .inr ⟨s, { it with curPrio := p, nextStream := rest }, ?_, hf, hp.lt, ?_⟩
    · simp only [Option.bind_some, takeFirst, hs]
    · rw [hp.upFrom_eq, hs]
      rfl

theorem returns_first (hf : it.Filled) : Returns it.first (upFrom it.queue 0) := by
  rw [first]
  split
  case isTrue h0 =>
    have hp : it.FirstFrom 0 0 :=
      ⟨le_rfl, by decide, h0, fun j _ hj => absurd hj (Nat.not_lt_zero j)⟩
    have h : it.Finds 0 (some { it with curPrio := 0 }) := .inr ⟨0, rfl, hp⟩
    exact h.returns hf
  case isFalse =>
    have h := finds_scanSets { it with curPrio := 0 } 0
    exact h.returns hf

theorem returns_next (hf : it.Filled) (hc : it.curPrio < 256) : Returns it.next it.remaining := by
  rw [next]
  split
  case h_1 s rest hs =>
    exact .inr ⟨s, { it with nextStream := rest }, rfl, hf, hc, by rw [remaining, hs]; rfl⟩
  case h_2 hs =>
    rw [remaining, hs]
    exact (finds_next hc).returns hf

theorem nexts_eq {n : Nat} (hf : it.Filled) (hc : it.curPrio < 256)
    (hn : it.remaining.length < n) : nexts n it = some it.remaining := by
  induction n generalizing it with
  | zero => omega
  | succ n ih =>
    rw [nexts]
    rcases returns_next hf hc with ⟨hr, hl⟩ | ⟨s, it', hr, hf', hc', hl⟩
    · rw [hr, hl]
    · rw [hr, hl]
      rw [hl, List.length_cons] at hn
      simp only [ih hf' hc' (by omega), Option.map_some]

theorem iterate_eq {n : Nat} (hf : it.Filled) (hn : (upFrom it.queue 0).length < n) :
    iterate n it = some (upFrom it.queue 0) := by
  rw [iterate]
  rcases returns_first hf with ⟨hr, hl⟩ | ⟨s, it', hr, hf', hc', hl⟩
  · rw [hr, hl]
  · rw [hr, hl]
    rw [hl, List.length_cons] at hn
    have hx := nexts_eq hf' hc' (by omega : it'.remaining.length < n)
    simp only [hx, Option.map_some]

theorem getLsbD_update_or {set : Nat → BitVec 64} (q p : Nat) :
    (Function.update set (q / 64) (set (q / 64) ||| (1 : BitVec 64) <<< (q % 64)) (p / 64)).getLsbD
        (p % 64) = ((set (p / 64)).getLsbD (p % 64) || decide (p = q)) := by
  by_cases hw : p / 64 = q / 64
  · rw [hw, Function.update_self, BitVec.getLsbD_or, getLsbD_one_shiftLeft (by omega)]
    congr 2
    rw [eq_iff_iff]
    omega
  · rw [Function.update_of_ne hw, decide_eq_false (by omega), Bool.or_false]

section
variable (it : StreamPrioIter) (s : PrioStream) (p : Nat)

theorem inUse_addStream :
    (it.addStream s).inUse p = (it.inUse p || decide (p = s.priority.val)) := by
  rw [addStream]
  split
  case isTrue h =>
    by_cases hp : p = s.priority.val
    · rw [hp, inUse] at *
      simpa using h
    · simp [inUse, hp]
  case isFalse => exact getLsbD_update_or _ _

theorem streams_addStream :
    (it.addStream s).streams p =
      if p = s.priority.val then it.queue p ++ [s] else it.streams p := by
  rw [addStream]
  by_cases hp : p = s.priority.val
  · subst hp
    rw [queue]
    split <;> simp
  · split <;> simp [hp]

theorem queue_addStream :
    (it.addStream s).queue p = if s.priority.val = p then it.queue p ++ [s] else it.queue p := by
  rw [queue, inUse_addStream, streams_addStream]
  by_cases hp : p = s.priority.val
  · simp [hp]
  · simp [hp, Ne.symm hp, queue]

end

theorem Filled.addStream (hf : it.Filled) (s : PrioStream) : (it.addStream s).Filled := by
  intro p hlt hp
  rw [inUse_addStream] at hp
  rw [streams_addStream]
  split
  case isTrue => simp
  case isFalse hne => exact hf p hlt (by simpa [hne] using hp)

theorem init_spec (filter : PrioStream → Bool) (l : List PrioStream) :
    (init filter l).Filled ∧ (init filter l).nAdded = (l.filter filter).length ∧
      ∀ p, (init filter l).queue p = (l.filter filter).filter fun s => s.priority.val = p := by
  induction l using List.reverseRecOn with
  | nil =>
    have hz : ∀ p, (init filter []).inUse p = false := fun p => BitVec.getLsbD_zero
    refine ⟨fun p _ hp => absurd hp (by simp [hz]), rfl, fun p => ?_⟩
    rw [queue, hz]
    rfl
  | append_singleton l s ih =>
    rw [init, List.foldl_append, List.filter_append]
    change Filled (if filter s then (init filter l).addStream s else init filter l) ∧
      (if filter s then (init filter l).addStream s else init filter l).nAdded = _ ∧
      ∀ p, queue (if filter s then (init filter l).addStream s else init filter l) p = _
    cases hs : filter s with
    | false => simpa [hs] using ih
    | true =>
      obtain ⟨hf, hn, hq⟩ := ih
      refine ⟨hf.addStream s, ?_, fun p => ?_⟩
      · have ha : ((init filter l).addStream s).nAdded = (init filter l).nAdded + 1 := by
          rw [addStream]
          split <;> rfl
        simpa [hs, hn] using ha
      · simp only [if_true, queue_addStream, hq, List.filter_append]
        by_cases hp : s.priority.val = p <;> simp [hs, hp]

theorem countLoop_iff {ws : List (BitVec 64)} {c : Nat} (hc : c ≤ 1) :
    countLoop ws c = true ↔ 1 < c + (ws.map popcount).sum := by
  induction ws generalizing c with
  | nil => simpa [countLoop] using hc
  | cons w ws ih =>
    rw [countLoop, List.map_cons, List.sum_cons]
    split
    case isTrue h =>
      simp only [true_iff]
      omega
    case isFalse h => rw [ih (by omega), Nat.add_assoc]

theorem sum_popcount (it : StreamPrioIter) :
    ([it.set 0, it.set 1, it.set 2, it.set 3].map popcount).sum =
      ((List.range 256).filter it.inUse).length := by
  have hr : List.range 256 = (List.range 4).flatMap fun i => (List.range 64).map (64 * i + ·) := by
    decide +kernel
  have hw : ∀ i, ((List.range 64).map (64 * i + ·)).countP it.inUse = popcount (it.set i) := by
    intro i
    rw [List.countP_map, popcount]
    apply List.countP_congr
    intro j hj
    rw [Function.comp, inUse_word (List.mem_range.1 hj)]
  rw [← List.countP_eq_length_filter, hr, List.countP_flatMap,
    show List.range 4 = [0, 1, 2, 3] from rfl]
  simp only [List.map_cons, List.map_nil, Function.comp_apply, hw]

theorem one_lt_length {l : List α} (hx : x ∈ l) (hy : y ∈ l) (hne : x ≠ y) : 1 < l.length := by
  obtain ⟨i, hi, rfl⟩ := List.mem_iff_getElem.1 hx
  obtain ⟨j, hj, rfl⟩ := List.mem_iff_getElem.1 hy
  have hij : i ≠ j := by
    rintro rfl
    exact hne rfl
  omega

theorem hasMoreThanOneQueue_of_ne (ha : 2 ≤ it.nAdded) (hp : p < 256) (hq : q < 256)
    (hup : it.inUse p = true) (huq : it.inUse q = true) (hne : p ≠ q) :
    it.hasMoreThanOneQueue = true := by
  rw [hasMoreThanOneQueue, if_neg (by omega), countLoop_iff (by omega), sum_popcount, Nat.zero_add]
  apply one_lt_length _ _ hne
  · exact List.mem_filter.2 ⟨List.mem_range.2 hp, hup⟩
  · exact List.mem_filter.2 ⟨List.mem_range.2 hq, huq⟩

section
variable (h : it.FirstFrom 0 m)
include h

theorem FirstFrom.findAndSetLowestPriority_eq (c : Nat) :
    findAndSetLowestPriority { it with curPrio := c } = some { it with curPrio := m } := by
  rcases finds_scanSets { it with curPrio := c } 0 with ⟨-, hn⟩ | ⟨p, hr, hp⟩
  · cases h.used.symm.trans (hn m (by omega) h.lt)
  · have hpm : p = m := by
      rcases Nat.lt_trichotomy p m with hlt | heq | hlt
      · cases hp.used.symm.trans (h.unused p (Nat.zero_le _) hlt)
      · exact heq
      · cases h.used.symm.trans (hp.unused m (by omega) hlt)
    rw [findAndSetLowestPriority, hr, hpm]

theorem FirstFrom.highSet_eq : ∃ new : Nat → BitVec 64,
    it.highSet = ({ it with curPrio := m }, new) ∧
      ∀ p, (new (p / 64)).getLsbD (p % 64) = decide (p = m) := by
  have hnew : ∀ p, (addCurrent { it with curPrio := m } (fun _ => 0) (p / 64)).getLsbD (p % 64) =
      decide (p = m) := by
    intro p
    apply (getLsbD_update_or m p).trans
    simp
  have hlow : it.findAndSetLowestPriority = some { it with curPrio := m } :=
    h.findAndSetLowestPriority_eq it.curPrio
  rw [highSet, hlow]
  simp only [Option.getD_some, h.findAndSetLowestPriority_eq]
  split
  · exact ⟨_, rfl, hnew⟩
  · refine ⟨_, rfl, fun p => (getLsbD_update_or m p).trans ?_⟩
    rw [hnew, Bool.or_self]

theorem FirstFrom.drop_eq (hmore : it.hasMoreThanOneQueue = true) (b : Bool) :
    (it.dropHighOrNonHigh b).streams = it.streams ∧ ∀ p, (it.dropHighOrNonHigh b).inUse p =
      if b then it.inUse p && !decide (p = m) else decide (p = m) := by
  obtain ⟨new, hh, hnew⟩ := h.highSet_eq
  rw [dropHighOrNonHigh, hmore, hh]
  refine ⟨rfl, fun p => ?_⟩
  cases b with
  | false => exact hnew p
  | true =>
    simp only [inUse, Bool.not_true, Bool.false_eq_true, if_false, if_true, BitVec.getLsbD_and,
      BitVec.getLsbD_not, hnew, Nat.mod_lt p (by decide : 64 > 0), decide_true, Bool.true_and]

theorem FirstFrom.dropNonHigh (hf : it.Filled) (hmore : it.hasMoreThanOneQueue = true) :
    it.dropNonHigh.Filled ∧ upFrom it.dropNonHigh.queue 0 = it.streams m := by
  obtain ⟨hs, hu⟩ := h.drop_eq hmore false
  simp only [Bool.false_eq_true, if_false] at hu
  have hm : it.dropNonHigh.FirstFrom 0 m :=
    ⟨h.le, h.lt, (hu m).trans (by simp), fun j _ hj => (hu j).trans (decide_eq_false (by omega))⟩
  constructor
  · intro p _ hup
    have hpm : p = m := by simpa using (hu p).symm.trans hup
    rw [hpm]
    exact hs ▸ hf m h.lt h.used
  · rw [hm.upFrom_eq, upFrom_eq_nil, List.append_nil]
    · exact congrFun hs m
    · intro q hq _
      exact queue_unused ((hu q).trans (decide_eq_false (by omega)))

theorem FirstFrom.dropHigh (hf : it.Filled) (hmore : it.hasMoreThanOneQueue = true) :
    it.dropHigh.Filled ∧ upFrom it.dropHigh.queue 0 = upFrom it.queue (m + 1) := by
  obtain ⟨hs, hu⟩ := h.drop_eq hmore true
  simp only [if_true] at hu
  have hq : ∀ q, it.dropHigh.queue q = if q = m then [] else it.queue q := by
    intro q
    rw [StreamPrioIter.dropHigh, queue, hu, hs, queue]
    by_cases hqm : q = m <;> simp [hqm]
  constructor
  · intro p hp hup
    have hi := (hu p).symm.trans hup
    rw [Bool.and_eq_true] at hi
    exact hs ▸ hf p hp hi.1
  · rw [upFrom_first (Nat.zero_le m) h.lt, hq, if_pos rfl, List.nil_append]
    · exact upFrom_congr fun q hk => by rw [hq, if_neg (by omega)]
    · intro q hk hlt
      rw [hq, if_neg (by omega), queue_unused (h.unused q hk hlt)]

end

/-- Every stream once, in the order of the priorities, and within a priority as added. -/
structure StableOrder (added out : List PrioStream) : Prop where
  once : out.Perm added
  sorted : out.Pairwise fun s t => s.priority ≤ t.priority
  stable : ∀ p, (out.filter fun s => s.priority = p) = added.filter fun s => s.priority = p

/-- Going up the priorities, each of them in order, sorts the streams stably. -/
theorem stableOrder_upFrom {added : List PrioStream} {f : Nat → List PrioStream}
    (hf : ∀ p, f p = added.filter fun s => s.priority.val = p) :
    StableOrder added (upFrom f 0) := by
  have hst : ∀ p : Fin 256, ((upFrom f 0).filter fun s => s.priority = p) =
      added.filter fun s => s.priority = p := by
    intro p
    have hn : ∀ q, (f q).filter (fun s => s.priority = p) = if q = p.val then f q else [] := by
      intro q
      split
      case isTrue hq =>
        rw [List.filter_eq_self]
        intro s hs
        rw [hf, List.mem_filter] at hs
        simpa [Fin.ext_iff, hq] using hs.2
      case isFalse hq =>
        rw [List.filter_eq_nil_iff]
        intro s hs he
        rw [hf, List.mem_filter] at hs
        simp_all
    rw [upFrom, List.filter_flatMap]
    change upFrom (fun q => (f q).filter fun s => s.priority = p) 0 = _
    rw [upFrom_first (Nat.zero_le p.val) p.isLt fun q _ hq => (hn q).trans (if_neg (by omega)),
      upFrom_eq_nil fun q hq _ => (hn q).trans (if_neg (by omega)), List.append_nil, hn, if_pos rfl,
      hf]
    simp [Fin.ext_iff]
  refine ⟨?_, ?_, hst⟩
  · rw [List.perm_iff_count]
    intro s
    have hc := congrArg (List.count s) (hst s.priority)
    rwa [List.count_filter (by simp), List.count_filter (by simp)] at hc
  · rw [upFrom, List.pairwise_flatMap]
    constructor
    · intro p _
      apply List.pairwise_of_forall_mem_list
      intro s hs t ht
      rw [hf, List.mem_filter, decide_eq_true_eq] at hs ht
      exact Nat.le_of_eq (hs.2.trans ht.2.symm)
    · apply List.Pairwise.imp _ (List.pairwise_lt_range' 1 (by decide))
      intro p q hpq s hs t ht
      rw [hf, List.mem_filter, decide_eq_true_eq] at hs ht
      exact Fin.le_def.2 (by omega)

/-- What `drop_non_high` keeps comes before what `drop_high` keeps, and together they are all. -/
structure Split (out kept dropped : List PrioStream) : Prop where
  union : kept ++ dropped = out
  disjoint : ∀ s ∈ kept, ∀ t ∈ dropped, s.priority < t.priority

/-- An iteration, wherever an earlier one is, returns every added stream once and in order; with
more than one priority in use, the two drops split it. -/
theorem iterate_stableOrder (filter : PrioStream → Bool) (l : List PrioStream) (cur : Nat)
    (nextStream : List PrioStream) {n : Nat} (hn : l.length < n) :
    let it := { init filter l with curPrio := cur, nextStream := nextStream }
    ∃ out, iterate n it = some out ∧ StableOrder (l.filter filter) out ∧
      ∀ s ∈ l.filter filter, ∀ t ∈ l.filter filter, s.priority ≠ t.priority →
        ∃ kept dropped, iterate n it.dropNonHigh = some kept ∧
          iterate n it.dropHigh = some dropped ∧ Split out kept dropped := by
  intro it
  obtain ⟨hf, ha, hq⟩ := init_spec filter l
  have hso : StableOrder (l.filter filter) (upFrom it.queue 0) := stableOrder_upFrom hq
  have hlen := hso.once.length_eq
  have hle := List.length_filter_le filter l
  refine ⟨_, iterate_eq hf (by omega), hso, ?_⟩
  intro s hs t ht hne
  have hused : ∀ {s}, s ∈ l.filter filter → it.inUse s.priority.val = true := by
    intro s hs
    by_contra hu
    have hz : [] = (l.filter filter).filter _ :=
      (queue_unused (Bool.eq_false_iff.2 hu)).symm.trans (hq s.priority.val)
    rw [eq_comm, List.filter_eq_nil_iff] at hz
    exact hz s hs (by simp)
  obtain ⟨m, hm⟩ : ∃ m, it.FirstFrom 0 m := by
    rcases finds_scanSets it 0 with ⟨-, h0⟩ | ⟨m, -, hm⟩
    · cases (hused hs).symm.trans (h0 _ (by omega) s.priority.isLt)
    · exact ⟨m, hm⟩
  have hmore : it.hasMoreThanOneQueue = true := by
    apply hasMoreThanOneQueue_of_ne _ s.priority.isLt t.priority.isLt (hused hs) (hused ht)
      fun h => hne (Fin.ext h)
    change 2 ≤ (init filter l).nAdded
    rw [ha]
    exact one_lt_length hs ht fun h => hne (congrArg _ h)
  have hsplit := hm.upFrom_eq
  have hl := congrArg List.length hsplit
  rw [List.length_append] at hl
  obtain ⟨hfn, hun⟩ := hm.dropNonHigh hf hmore
  obtain ⟨hfh, huh⟩ := hm.dropHigh hf hmore
  refine ⟨_, _, iterate_eq hfn (by rw [hun]; omega), iterate_eq hfh (by rw [huh]; omega), ?_, ?_⟩
  · rw [hun, huh, hsplit]
  · intro s hs t ht
    have hsm : s ∈ it.queue m := by
      rw [queue, if_pos hm.used, ← hun]
      exact hs
    rw [huh, upFrom, List.mem_flatMap] at ht
    obtain ⟨q, hmq, htq⟩ := ht
    have hsp := List.of_mem_filter (hq m ▸ hsm)
    have htp := List.of_mem_filter (hq q ▸ htq)
    rw [List.mem_range'_1] at hmq
    rw [decide_eq_true_eq] at hsp htp
    exact Fin.lt_def.2 (by omega)

theorem iterate_stableOrder_three :
    let l : List PrioStream := [⟨4, 70, false⟩, ⟨8, 3, true⟩, ⟨12, 70, false⟩]
    let it := init (fun _ => true) l
    ∃ out, iterate 4 it = some out ∧ StableOrder l out ∧
      ∃ kept dropped, iterate 4 it.dropNonHigh = some kept ∧ iterate 4 it.dropHigh = some dropped ∧
        Split out kept dropped := by
  intro l it
  obtain ⟨out, hout, hso, hdrop⟩ := iterate_stableOrder (fun _ => true) l 0 [] (by decide : 3 < 4)
  exact ⟨out, hout, hso, hdrop ⟨4, 70, false⟩ (by decide) ⟨8, 3, true⟩ (by decide) (by decide)⟩

end StreamPrioIter

end QuicArt
