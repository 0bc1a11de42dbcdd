import Mathlib.Data.Finset.Image
import Mathlib.Data.Finset.Range
import QuicArt.Attq

namespace QuicArt

section
variable {β : Type} {t : Nat → β} {n a b i : Nat}

/-- The first `n` values of an array. -/
def heapElems (n : Nat) (t : Nat → β) : Multiset β := (Multiset.range n).map t

theorem heapElems_swap (ha : a < n) (hb : b < n) :
    heapElems n (t ∘ Equiv.swap a b) = heapElems n t := by
  have hmap : (Finset.range n).map (Equiv.swap a b).toEmbedding = Finset.range n := by
    apply Finset.map_perm
    intro i hi
    rw [Finset.coe_range, Set.mem_Iio]
    by_contra hn
    exact hi (Equiv.swap_apply_of_ne_of_ne (by omega) (by omega))
  rw [heapElems, ← Multiset.map_map]
  exact congrArg (Multiset.map t) (congrArg Finset.val hmap)

theorem heapElems_push (e : β) :
    heapElems (n + 1) (Function.update t n e) = e ::ₘ heapElems n t := by
  rw [heapElems, Multiset.range_succ, Multiset.map_cons, Function.update_self]
  congr 1
  apply Multiset.map_congr rfl
  intro i hi
  exact Function.update_of_ne (Nat.ne_of_lt (Multiset.mem_range.mp hi)) ..

/-- The last value takes the place of the one at `i`. -/
theorem heapElems_fill (hi : i ≤ n) :
    t i ::ₘ heapElems n (Function.update t i (t n)) = heapElems (n + 1) t := by
  rw [← heapElems_swap (Nat.lt_succ_of_le hi) (Nat.lt_succ_self n), heapElems, heapElems,
    Multiset.range_succ, Multiset.map_cons, Function.comp, Equiv.swap_apply_right]
  congr 1
  apply Multiset.map_congr rfl
  intro j hj
  have hj := Nat.ne_of_lt (Multiset.mem_range.mp hj)
  by_cases he : j = i
  · rw [he, Function.update_self, Function.comp, Equiv.swap_apply_left]
  · rw [Function.update_of_ne he, Function.comp, Equiv.swap_apply_of_ne_of_ne he hj]

theorem HeapOrdered.root_le {t : Nat → Nat} (h : HeapOrdered n t) (hi : i < n) : t 0 ≤ t i := by
  obtain ⟨j, -, hl, hle⟩ := h.ancestor hi (Nat.zero_le _)
  have hj : j + 1 < 2 ^ 1 := heapLevel_lt_iff.mp (by omega)
  rwa [show j = 0 by omega] at hle

end

variable {q : Attq}

namespace Attq

def elems (q : Attq) : Multiset AttqElem := heapElems q.nelem q.heap

theorem elems_swap (s : Multiset AttqElem) {q : Attq} {a b : Nat} (h : q.elems = s)
    (ha : a < q.nelem) (hb : b < q.nelem) : (q.swap a b).elems = s :=
  (heapElems_swap ha hb).trans h

theorem elems_append (q : Attq) (conn t : Nat) (up : Nat → Nat → Bool) :
    (rise up q.nelem (q.append conn t) q.nelem).elems = ⟨conn, t⟩ ::ₘ q.elems :=
  rise_keeps (elems_swap _) (heapElems_push _) (Nat.lt_succ_self _)

theorem elems_add (q : Attq) (conn t : Nat) (realloc malo : Bool) :
    (q.add conn t realloc malo).1.elems =
      if (q.add conn t realloc malo).2 then ⟨conn, t⟩ ::ₘ q.elems else q.elems := by
  have hgrow : ∀ q', q.grow realloc = some q' → q'.elems = q.elems := by
    intro q' hg
    unfold grow at hg
    split_ifs at hg <;> cases hg <;> rfl
  unfold add
  split
  · rfl
  next q' hg =>
    split
    · rw [if_pos rfl, elems_append, hgrow q' hg]
    · exact hgrow q' hg

theorem add_succeeds (q : Attq) (conn t : Nat) (realloc malo : Bool) :
    (q.add conn t realloc malo).2 = (malo && (realloc || decide (q.nelem < q.nalloc))) := by
  unfold add grow
  by_cases hn : q.nalloc ≤ q.nelem
  · rw [if_pos hn, decide_eq_false (Nat.not_lt.mpr hn)]
    cases realloc <;> cases malo <;> rfl
  · rw [if_neg hn, decide_eq_true (Nat.lt_of_not_le hn)]
    cases realloc <;> cases malo <;> rfl

theorem elems_fill (conn : Nat) (hi : i < q.nelem) :
    q.heap i ::ₘ (q.fill conn i).elems = q.elems := by
  have hf := heapElems_fill (t := q.heap) (Nat.le_sub_one_of_lt hi)
  rwa [Nat.sub_add_cancel (Nat.zero_lt_of_lt hi)] at hf

theorem elems_remove (h : q.Ok) (hc : q.linked conn = true) :
    q.heap (q.heapIdx conn) ::ₘ (q.remove conn).elems = q.elems := by
  obtain ⟨hi, -⟩ := h.indexed.found conn hc
  rw [← elems_fill conn hi]
  unfold remove
  congr 1
  simp only
  split
  next hup => exact rise_keeps (elems_swap _) rfl (fill_lt h.ordered hi hup)
  · split
    next hdown => exact heapify_keeps (elems_swap _) rfl hdown.2
    · rfl

end Attq

namespace MinHeap

/-- A min heap is an `Attq` of items with values, of which the index is not used. -/
def insert (h : Attq) (item val : Nat) : Attq :=
  Attq.rise (fun p e => decide (e < p)) h.nelem (h.append item val) h.nelem

def pop (h : Attq) : Attq × Option Nat :=
  if h.nelem = 0 then (h, none)
  else
    let h' := h.fill (h.heap 0).conn 0
    (if 0 < h'.nelem then Attq.heapify h'.nelem h' 0 else h', some (h.heap 0).conn)

inductive Reachable : Attq → Prop
  | init (n : Nat) : Reachable { nalloc := n }
  | insert {h : Attq} (item val : Nat) : Reachable h → h.nelem < h.nalloc →
      Reachable (insert h item val)
  | pop {h : Attq} : Reachable h → Reachable (pop h).1

theorem insert_ordered (h : HeapOrdered q.nelem q.time) :
    HeapOrdered (insert q item val).nelem (insert q item val).time :=
  Attq.rise_ordered (fun _ _ he => Nat.le_of_lt (of_decide_eq_true he))
    (fun _ _ he => Nat.le_of_not_lt (of_decide_eq_false he)) (Attq.append_rises h)
    (Nat.lt_succ_self _) (Nat.le_refl _)

theorem pop_ordered (h : HeapOrdered q.nelem q.time) :
    HeapOrdered (pop q).1.nelem (pop q).1.time := by
  unfold pop
  split
  · exact h
  · simp only
    split
    next hn =>
      apply Attq.heapify_ordered _ hn (Nat.le_refl _)
      constructor
      · intro j hj hjn hp
        exact Attq.fill_order h _ hj hjn (Nat.ne_of_gt hj) hp
      · intro hi
        cases hi
    next hn =>
      intro j _ hj
      omega

theorem elems_pop (hn : q.nelem ≠ 0) : q.heap 0 ::ₘ (pop q).1.elems = q.elems := by
  rw [← Attq.elems_fill (q.heap 0).conn (Nat.pos_of_ne_zero hn), pop, if_neg hn]
  congr 1
  simp only
  split
  next hpos => exact Attq.heapify_keeps (Attq.elems_swap _) rfl hpos
  · rfl

theorem Reachable.ordered (h : Reachable q) : HeapOrdered q.nelem q.time := by
  induction h with
  | init n =>
    intro j _ hj
    cases hj
  | insert _ _ _ _ ih => exact insert_ordered ih
  | pop _ ih => exact pop_ordered ih

end MinHeap

/-- An element of minimal time that is due leaves the queue, unless there is none. -/
def PopRight (q : Attq) (due : Nat → Prop) : Attq × Option Nat → Prop
  | (q', none) => q' = q ∧ ∀ e ∈ q.elems, ¬ due e.advTime
  | (q', some conn) => ∃ e, e.conn = conn ∧ due e.advTime ∧
      (∀ e' ∈ q.elems, e.advTime ≤ e'.advTime) ∧ q.elems = e ::ₘ q'.elems

theorem root_minimal (h : HeapOrdered q.nelem q.time) (e : AttqElem) (he : e ∈ q.elems) :
    q.time 0 ≤ e.advTime := by
  rw [Attq.elems, heapElems] at he
  obtain ⟨i, hi, rfl⟩ := Multiset.mem_map.mp he
  exact h.root_le (Multiset.mem_range.mp hi)

theorem attq_pop (h : q.Ok) (cutoff : Nat) : PopRight q (· < cutoff) (q.pop cutoff) := by
  unfold Attq.pop
  split_ifs with hn hc
  · simp [PopRight, Attq.elems, heapElems, hn]
  · exact ⟨rfl, fun e he => Nat.not_lt.mpr (Nat.le_trans hc (root_minimal h.ordered e he))⟩
  · obtain ⟨hi, hl⟩ := h.indexed.idx 0 (Nat.pos_of_ne_zero hn)
    have hr := Attq.elems_remove h hl
    rw [hi] at hr
    exact ⟨q.heap 0, rfl, Nat.lt_of_not_le hc, root_minimal h.ordered, hr.symm⟩

theorem minHeap_pop (h : HeapOrdered q.nelem q.time) :
    PopRight q (fun _ => True) (MinHeap.pop q) := by
  unfold MinHeap.pop
  split_ifs with hn
  · simp [PopRight, Attq.elems, heapElems, hn]
  · have hp := MinHeap.elems_pop hn
    rw [MinHeap.pop, if_neg hn] at hp
    exact ⟨q.heap 0, rfl, trivial, root_minimal h, hp.symm⟩

/-- Both heaps stay ordered, the back-pointers are right, and each operation changes the elements by
what it adds or removes. -/
theorem priority_queues :
    (∀ q, Attq.Reachable q → HeapOrdered q.nelem q.time ∧
      (∀ i < q.nelem, q.heapIdx (q.heap i).conn = i) ∧
      (∀ c, q.linked c = true ↔ ∃ i < q.nelem, (q.heap i).conn = c) ∧
      (∀ c t realloc malo, (q.add c t realloc malo).1.elems =
        if (q.add c t realloc malo).2 then ⟨c, t⟩ ::ₘ q.elems else q.elems) ∧
      (∀ c t realloc malo, (q.add c t realloc malo).2 =
        (malo && (realloc || decide (q.nelem < q.nalloc)))) ∧
      (∀ c, q.linked c = true → ∃ e, e.conn = c ∧ q.elems = e ::ₘ (q.remove c).elems) ∧
      ∀ cutoff, PopRight q (· < cutoff) (q.pop cutoff)) ∧
    ∀ h, MinHeap.Reachable h → HeapOrdered h.nelem h.time ∧
      (∀ item val, (MinHeap.insert h item val).elems = ⟨item, val⟩ ::ₘ h.elems) ∧
      PopRight h (fun _ => True) (MinHeap.pop h) := by
  constructor
  · intro q hq
    have h := hq.ok
    refine ⟨h.ordered, fun i hi => (h.indexed.idx i hi).1, ?_, q.elems_add, q.add_succeeds, ?_,
      attq_pop h⟩
    · intro c
      constructor
      · intro hc
        exact ⟨_, h.indexed.found c hc⟩
      · rintro ⟨i, hi, rfl⟩
        exact (h.indexed.idx i hi).2
    · intro c hc
      exact ⟨_, (h.indexed.found c hc).2, (Attq.elems_remove h hc).symm⟩
  · intro h hr
    exact ⟨hr.ordered, fun item val => h.elems_append item val _, minHeap_pop hr.ordered⟩

theorem priority_queues_three :
    let q := (((({} : Attq).add 1 5 true true).1.add 2 3 false true).1.add 3 9 false true).1.remove 2
    let h := MinHeap.insert (MinHeap.insert { nalloc := 4 } 1 3) 2 1
    (q.pop 6).2 = some 1 ∧ PopRight q (· < 6) (q.pop 6) ∧ (MinHeap.pop h).2 = some 2 ∧
      PopRight h (fun _ => True) (MinHeap.pop h) :=
  ⟨by decide, (priority_queues.1 _ (.remove (.add (.add (.add .create rfl 5 true true)
      (by decide) 3 false true) (by decide) 9 false true) (by decide))).2.2.2.2.2.2 6, by decide,
    (priority_queues.2 _ (.insert 2 1 (.insert 1 3 (.init 4) (by decide)) (by decide))).2.2⟩

end QuicArt
