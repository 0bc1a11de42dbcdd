import Mathlib.Data.Nat.Basic
import Mathlib.Data.List.Basic
import QuicArt.BinaryHeap

namespace QuicArt

structure AttqElem where
  conn : Nat
  advTime : Nat
  deriving DecidableEq, Repr, Inhabited

/-- `struct attq`; `heapIdx` is `ae_heap_idx`, and `linked` whether `cn_attq_elem` is set. -/
structure Attq where
  heap : Nat → AttqElem := fun _ => default
  nelem : Nat := 0
  nalloc : Nat := 0
  heapIdx : Nat → Nat := fun _ => 0
  linked : Nat → Bool := fun _ => false

namespace Attq

def time (q : Attq) (i : Nat) : Nat := (q.heap i).advTime

def swap (q : Attq) (a b : Nat) : Attq :=
  { q with
    heap := q.heap ∘ Equiv.swap a b
    heapIdx := Function.update (Function.update q.heapIdx (q.heap b).conn a) (q.heap a).conn b }

/-- The loops that move an element up, while `up parent elem`. An index halves at every turn. -/
def rise (up : Nat → Nat → Bool) : Nat → Attq → Nat → Attq
  | 0, q, _ => q
  | n + 1, q, i =>
    if 0 < i ∧ up (q.time (heapParent i)) (q.time i) then
      rise up n (q.swap i (heapParent i)) (heapParent i)
    else q

/-- Room for one more element; `none` is the failed `realloc`. -/
def grow (q : Attq) (realloc : Bool) : Option Attq :=
  if q.nalloc ≤ q.nelem then
    if realloc then some { q with nalloc := if 0 < q.nalloc then q.nalloc * 2 else 8 } else none
  else some q

def append (q : Attq) (conn advTime : Nat) : Attq :=
  { q with
    heap := Function.update q.heap q.nelem ⟨conn, advTime⟩
    nelem := q.nelem + 1
    heapIdx := Function.update q.heapIdx conn q.nelem
    linked := Function.update q.linked conn true }

/-- `lsquic_attq_add`: `false` is the -1 of a failed allocation. -/
def add (q : Attq) (conn advTime : Nat) (realloc malo : Bool) : Attq × Bool :=
  match q.grow realloc with
  | none => (q, false)
  | some q =>
    if malo then (rise (fun p e => decide (e ≤ p)) q.nelem (q.append conn advTime) q.nelem, true)
    else (q, false)

def smallest (q : Attq) (i : Nat) : Nat :=
  if 2 * i + 1 < q.nelem then
    let s := if q.time (2 * i + 1) < q.time i then 2 * i + 1 else i
    if 2 * i + 2 < q.nelem ∧ q.time (2 * i + 2) < q.time s then 2 * i + 2 else s
  else i

/-- `attq_heapify`; every call is further down, so the number of elements bounds the depth. -/
def heapify : Nat → Attq → Nat → Attq
  | 0, q, _ => q
  | n + 1, q, i =>
    if q.smallest i ≠ i then heapify n (q.swap (q.smallest i) i) (q.smallest i) else q

/-- The last element takes the place of the one at `idx`. -/
def fill (q : Attq) (conn idx : Nat) : Attq :=
  { q with
    heap := Function.update q.heap idx (q.heap (q.nelem - 1))
    nelem := q.nelem - 1
    heapIdx := Function.update q.heapIdx (q.heap (q.nelem - 1)).conn idx
    linked := Function.update q.linked conn false }

def remove (q : Attq) (conn : Nat) : Attq :=
  let idx := q.heapIdx conn
  let q := q.fill conn idx
  if 0 < idx ∧ q.time idx < q.time (heapParent idx) then
    rise (fun p e => decide (e < p)) idx q idx
  else if 1 < q.nelem ∧ idx < q.nelem then heapify q.nelem q idx
  else q

def pop (q : Attq) (cutoff : Nat) : Attq × Option Nat :=
  if q.nelem = 0 then (q, none)
  else if cutoff ≤ q.time 0 then (q, none)
  else (q.remove (q.heap 0).conn, some (q.heap 0).conn)

def countRange (q : Attq) (cutoff i stop : Nat) : Nat :=
  (List.range' i (stop - i)).countP fun j => q.time j < cutoff

/-- The loop of `lsquic_attq_count_before` over the levels of the heap. -/
def countLevels (q : Attq) (cutoff : Nat) : Nat → Nat → Nat → Nat → Nat
  | 0, _, _, total => total
  | n + 1, level, i, total =>
    let stop := min (i + 2 ^ level) q.nelem
    let levelCount := q.countRange cutoff i stop
    if levelCount < 2 ^ level then total + levelCount
    else countLevels q cutoff n (level + 1) stop (total + levelCount)

/-- `lsquic_attq_count_before`. A level that is counted in full has an element, which bounds the
levels. -/
def countBefore (q : Attq) (cutoff : Nat) : Nat := q.countLevels cutoff (q.nelem + 1) 0 0 0

def numBefore (q : Attq) (cutoff : Nat) : Nat :=
  (List.range q.nelem).countP fun j => q.time j < cutoff

end Attq

/-- A connection is added when it is not on the queue and removed when it is. -/
inductive Attq.Reachable : Attq → Prop
  | create : Reachable {}
  | add (h : Reachable q) (hc : q.linked conn = false) (advTime : Nat) (realloc malo : Bool) :
      Reachable (q.add conn advTime realloc malo).1
  | remove (h : Reachable q) (hc : q.linked conn = true) : Reachable (q.remove conn)
  | pop (h : Reachable q) (cutoff : Nat) : Reachable (q.pop cutoff).1

namespace Attq

structure Indexed (q : Attq) : Prop where
  idx : ∀ i, i < q.nelem → q.heapIdx (q.heap i).conn = i ∧ q.linked (q.heap i).conn = true
  found : ∀ c, q.linked c = true → q.heapIdx c < q.nelem ∧ (q.heap (q.heapIdx c)).conn = c

structure Ok (q : Attq) : Prop where
  ordered : HeapOrdered q.nelem q.time
  indexed : q.Indexed

section
variable {q : Attq} {i a b : Nat}

theorem time_swap (q : Attq) (a b : Nat) : (q.swap a b).time = q.time ∘ Equiv.swap a b := rfl

theorem Indexed.inj (h : q.Indexed) (hi : i < q.nelem) (hj : j < q.nelem)
    (he : (q.heap i).conn = (q.heap j).conn) : i = j := by
  rw [← (h.idx i hi).1, ← (h.idx j hj).1, he]

theorem Indexed.swap (h : q.Indexed) (ha : a < q.nelem) (hb : b < q.nelem) :
    (q.swap a b).Indexed := by
  have hlt : ∀ i, i < q.nelem → Equiv.swap a b i < q.nelem := by
    intro i hi
    rw [Equiv.swap_apply_def]
    split
    · exact hb
    · split
      · exact ha
      · exact hi
  have hidx : ∀ i, i < q.nelem → (q.swap a b).heapIdx (q.heap i).conn = Equiv.swap a b i := by
    intro i hi
    have hne : ∀ j, j < q.nelem → i ≠ j → (q.heap i).conn ≠ (q.heap j).conn :=
      fun j hj hij he => hij (h.inj hi hj he)
    simp only [Attq.swap]
    by_cases hia : i = a
    · subst hia
      rw [Function.update_self, Equiv.swap_apply_left]
    · rw [Function.update_of_ne (hne a ha hia)]
      by_cases hib : i = b
      · subst hib
        rw [Function.update_self, Equiv.swap_apply_right]
      · rw [Function.update_of_ne (hne b hb hib), Equiv.swap_apply_of_ne_of_ne hia hib]
        exact (h.idx i hi).1
  constructor
  · intro i hi
    refine ⟨?_, (h.idx _ (hlt i hi)).2⟩
    have he := hidx _ (hlt i hi)
    rwa [Equiv.swap_apply_self] at he
  · intro c hc
    obtain ⟨hi, hconn⟩ := h.found c hc
    have he := hidx _ hi
    rw [hconn] at he
    rw [he]
    refine ⟨hlt _ hi, ?_⟩
    simp only [Attq.swap, Function.comp, Equiv.swap_apply_self]
    exact hconn

theorem rise_keeps {up : Nat → Nat → Bool} {P : Attq → Prop}
    (hs : ∀ {q a b}, P q → a < q.nelem → b < q.nelem → P (q.swap a b)) (h : P q)
    (hi : i < q.nelem) : P (rise up n q i) := by
  induction n generalizing q i with
  | zero => exact h
  | succ n ih =>
    simp only [rise]
    split
    next hgo =>
      have hp := Nat.lt_trans (heapParent_lt hgo.1) hi
      exact ih (hs h hi hp) hp
    · exact h

theorem rise_ordered {up : Nat → Nat → Bool} (hup : ∀ p e, up p e = true → e ≤ p)
    (hstop : ∀ p e, up p e = false → p ≤ e) (hr : RisesAt q.nelem q.time i)
    (hi : i < q.nelem) (hn : i ≤ n) :
    HeapOrdered (rise up n q i).nelem (rise up n q i).time := by
  induction n generalizing q i with
  | zero =>
    apply hr.done
    intro hpos
    omega
  | succ n ih =>
    simp only [rise]
    split
    next hgo =>
      have hp := heapParent_lt hgo.1
      apply ih
      · rw [time_swap]
        exact hr.swap hgo.1 hi (hup _ _ hgo.2)
      · show heapParent i < q.nelem
        omega
      · omega
    next hend =>
      apply hr.done
      intro hpos
      apply hstop
      simpa [hpos] using hend

theorem smallest_le (q : Attq) (i : Nat) (hj : 0 < j) (hn : j < q.nelem) (hp : heapParent j = i) :
    q.time (q.smallest i) ≤ q.time j := by
  simp only [smallest]
  rcases (heapParent_eq_iff hj).1 hp with rfl | rfl
  · rw [if_pos hn]
    split_ifs <;> omega
  · rw [if_pos (by omega)]
    split_ifs <;> omega

theorem smallest_cases (q : Attq) (i : Nat) (hne : q.smallest i ≠ i) :
    0 < q.smallest i ∧ q.smallest i < q.nelem ∧ heapParent (q.smallest i) = i ∧
      q.time (q.smallest i) ≤ q.time i := by
  revert hne
  unfold smallest heapParent
  simp only
  split_ifs <;> omega

theorem heapify_keeps {P : Attq → Prop}
    (hs : ∀ {q a b}, P q → a < q.nelem → b < q.nelem → P (q.swap a b)) (h : P q)
    (hi : i < q.nelem) : P (heapify n q i) := by
  induction n generalizing q i with
  | zero => exact h
  | succ n ih =>
    simp only [heapify]
    split
    next hne =>
      obtain ⟨-, hlt, -⟩ := q.smallest_cases i hne
      exact ih (hs h hlt hi) hlt
    · exact h

theorem heapify_ordered (hs : SinksAt q.nelem q.time i) (hi : i < q.nelem)
    (hn : q.nelem ≤ n + i) : HeapOrdered (heapify n q i).nelem (heapify n q i).time := by
  induction n generalizing q i with
  | zero => omega
  | succ n ih =>
    simp only [heapify]
    split
    next hne =>
      obtain ⟨hpos, hlt, hp, hle⟩ := q.smallest_cases i hne
      have hgt := heapParent_lt hpos
      apply ih
      · rw [time_swap]
        exact hs.swap hpos hlt hp (fun j hj hjn hpj => q.smallest_le i hj hjn hpj) hle
      · exact hlt
      · show q.nelem ≤ n + q.smallest i
        omega
    next he =>
      rw [ne_eq, not_not] at he
      apply hs.done
      intro j hj hjn hp
      have hle := q.smallest_le i hj hjn hp
      rwa [he] at hle

theorem Indexed.append (h : q.Indexed) (hc : q.linked conn = false) :
    (q.append conn t).Indexed := by
  have hne : ∀ i, i < q.nelem → (q.heap i).conn ≠ conn := by
    intro i hi he
    have hl := (h.idx i hi).2
    rw [he, hc] at hl
    cases hl
  constructor
  · intro i hi
    simp only [Attq.append] at hi ⊢
    by_cases he : i = q.nelem
    · subst he
      simp only [Function.update_self, and_self]
    · have hlt : i < q.nelem := by omega
      rw [Function.update_of_ne he, Function.update_of_ne (hne i hlt),
        Function.update_of_ne (hne i hlt)]
      exact h.idx i hlt
  · intro c hl
    simp only [Attq.append] at hl ⊢
    by_cases he : c = conn
    · subst he
      simp only [Function.update_self, and_true]
      omega
    · rw [Function.update_of_ne he] at hl ⊢
      obtain ⟨hlt, hconn⟩ := h.found c hl
      rw [Function.update_of_ne (by omega)]
      exact ⟨by omega, hconn⟩

theorem Ok.grow (h : q.Ok) (hg : q.grow realloc = some q') : q'.Ok ∧ q'.linked = q.linked := by
  unfold Attq.grow at hg
  split at hg
  · split at hg
    · rw [← Option.some.inj hg]
      exact ⟨⟨h.ordered, h.indexed.idx, h.indexed.found⟩, rfl⟩
    · cases hg
  · rw [← Option.some.inj hg]
    exact ⟨h, rfl⟩

theorem append_rises (h : HeapOrdered q.nelem q.time) :
    RisesAt (q.append conn t).nelem (q.append conn t).time q.nelem := by
  have htime : ∀ j, j < q.nelem → (q.append conn t).time j = q.time j := by
    intro j hj
    simp only [time, Attq.append, Function.update_of_ne (Nat.ne_of_lt hj)]
  constructor
  · intro j hj hlt hne
    have hlt' : j < q.nelem := by
      simp only [Attq.append] at hlt
      omega
    have hp := heapParent_lt hj
    rw [htime j hlt', htime _ (by omega)]
    exact h j hj hlt'
  · intro _ j hj hlt hp
    have hgt := heapParent_lt hj
    simp only [Attq.append] at hlt
    omega

theorem Ok.append (h : q.Ok) (hc : q.linked conn = false) :
    (rise (fun p e => decide (e ≤ p)) q.nelem (q.append conn t) q.nelem).Ok := by
  constructor
  · exact rise_ordered (fun p e he => of_decide_eq_true he)
      (fun p e he => Nat.le_of_lt (Nat.lt_of_not_le (of_decide_eq_false he)))
      (append_rises h.ordered) (Nat.lt_succ_self _) le_rfl
  · exact rise_keeps Indexed.swap (h.indexed.append hc) (Nat.lt_succ_self _)

theorem Ok.add (h : q.Ok) (hc : q.linked conn = false) : (q.add conn t realloc malo).1.Ok := by
  unfold Attq.add
  split
  · exact h
  next q' hg =>
    obtain ⟨hok, hl⟩ := h.grow hg
    split
    · exact hok.append (by rw [hl]; exact hc)
    · exact hok

theorem Indexed.fill (h : q.Indexed) (hc : q.linked conn = true) :
    (q.fill conn (q.heapIdx conn)).Indexed := by
  obtain ⟨hlt, hconn⟩ := h.found conn hc
  have hlast : q.nelem - 1 < q.nelem := by omega
  constructor
  · intro i hi
    simp only [Attq.fill] at hi ⊢
    by_cases he : i = q.heapIdx conn
    · subst he
      rw [Function.update_self, Function.update_self]
      refine ⟨rfl, ?_⟩
      rw [Function.update_of_ne, (h.idx _ hlast).2]
      intro hn
      have := h.inj hlast hlt (hn.trans hconn.symm)
      omega
    · rw [Function.update_of_ne he]
      have hne : (q.heap i).conn ≠ (q.heap (q.nelem - 1)).conn := by
        intro hn
        have := h.inj (by omega) hlast hn
        omega
      have hnc : (q.heap i).conn ≠ conn := by
        intro hn
        exact he (h.inj (by omega) hlt (hn.trans hconn.symm))
      rw [Function.update_of_ne hne, Function.update_of_ne hnc]
      exact h.idx i (by omega)
  · intro c hl
    simp only [Attq.fill] at hl ⊢
    have hcc : c ≠ conn := by
      rintro rfl
      rw [Function.update_self] at hl
      cases hl
    rw [Function.update_of_ne hcc] at hl
    obtain ⟨hci, hcn⟩ := h.found c hl
    by_cases he : c = (q.heap (q.nelem - 1)).conn
    · rw [he, Function.update_self, Function.update_self]
      refine ⟨?_, rfl⟩
      have hne : q.heapIdx conn ≠ q.nelem - 1 := by
        intro hi
        rw [← hi, hconn] at he
        exact hcc he
      omega
    · have hne : q.heapIdx c ≠ q.heapIdx conn := by
        intro hi
        rw [hi, hconn] at hcn
        exact hcc hcn.symm
      have hnl : q.heapIdx c ≠ q.nelem - 1 := by
        intro hi
        rw [hi] at hcn
        exact he hcn.symm
      rw [Function.update_of_ne he, Function.update_of_ne hne]
      exact ⟨by omega, hcn⟩

theorem time_fill (q : Attq) (conn : Nat) (hj : j ≠ i) : (q.fill conn i).time j = q.time j := by
  simp only [time, Attq.fill, Function.update_of_ne hj]

theorem fill_order (h : HeapOrdered q.nelem q.time) (conn : Nat) (hj : 0 < j)
    (hn : j < q.nelem - 1) (hne : j ≠ i) (hp : heapParent j ≠ i) :
    (q.fill conn i).time (heapParent j) ≤ (q.fill conn i).time j := by
  rw [time_fill q conn hne, time_fill q conn hp]
  exact h j hj (by omega)

theorem fill_grand (h : HeapOrdered q.nelem q.time) (conn : Nat) (hi : 0 < i) (hlt : i < q.nelem)
    (hj : 0 < j) (hn : j < q.nelem - 1) (hp : heapParent j = i) :
    (q.fill conn i).time (heapParent i) ≤ (q.fill conn i).time j := by
  have hij := heapParent_lt hj
  have hpi := heapParent_lt hi
  rw [time_fill q conn (by omega), time_fill q conn (by omega)]
  have hup := h i hi hlt
  have hdown := h j hj (by omega)
  rw [hp] at hdown
  exact Nat.le_trans hup hdown

theorem fill_lt (h : HeapOrdered q.nelem q.time) (hlt : i < q.nelem)
    (hup : 0 < i ∧ (q.fill conn i).time i < (q.fill conn i).time (heapParent i)) :
    i < (q.fill conn i).nelem := by
  have hpi := heapParent_lt hup.1
  have hne : i ≠ q.nelem - 1 := by
    rintro rfl
    have hord := h _ hup.1 hlt
    have hself : (q.fill conn (q.nelem - 1)).time (q.nelem - 1) = q.time (q.nelem - 1) := by
      simp only [time, Attq.fill, Function.update_self]
    rw [hself, time_fill q conn (by omega)] at hup
    omega
  exact show i < q.nelem - 1 by omega

theorem Ok.remove (h : q.Ok) (hc : q.linked conn = true) : (q.remove conn).Ok := by
  obtain ⟨hlt, -⟩ := h.indexed.found conn hc
  have hx := h.indexed.fill hc
  simp only [Attq.remove]
  generalize q.heapIdx conn = i at hlt hx
  split
  next hup =>
    -- The last element is smaller than the parent, hence smaller than the children.
    have hlt' := fill_lt h.ordered hlt hup
    refine ⟨?_, rise_keeps Indexed.swap hx hlt'⟩
    apply rise_ordered (fun p e he => Nat.le_of_lt (of_decide_eq_true he))
      (fun p e he => Nat.le_of_not_lt (of_decide_eq_false he)) _ hlt' le_rfl
    constructor
    · intro j hj hjn hji
      have hjn : j < q.nelem - 1 := hjn
      by_cases hp : heapParent j = i
      · have hgrand := fill_grand h.ordered conn hup.1 hlt hj hjn hp
        rw [hp]
        omega
      · exact fill_order h.ordered conn hj hjn hji hp
    · intro _ j hj hjn hp
      exact fill_grand h.ordered conn hup.1 hlt hj hjn hp
  next hno =>
    have hparent : 0 < i → (q.fill conn i).time (heapParent i) ≤ (q.fill conn i).time i := by
      intro hpos
      simp only [hpos, true_and, Nat.not_lt] at hno
      exact hno
    have hsink : SinksAt (q.fill conn i).nelem (q.fill conn i).time i := by
      constructor
      · intro j hj hjn hp
        by_cases hji : j = i
        · subst hji
          exact hparent hj
        · exact fill_order h.ordered conn hj hjn hji hp
      · intro hi j hj hjn hp
        exact fill_grand h.ordered conn hi hlt hj hjn hp
    split
    next hdown =>
      exact ⟨heapify_ordered hsink hdown.2 (Nat.le_add_right _ _),
        heapify_keeps Indexed.swap hx hdown.2⟩
    next hend =>
      refine ⟨hsink.done ?_, hx⟩
      intro j hj hjn hp
      have hij := heapParent_lt hj
      omega

theorem Ok.pop (h : q.Ok) (cutoff : Nat) : (q.pop cutoff).1.Ok := by
  unfold Attq.pop
  split
  · exact h
  next hn =>
    split
    · exact h
    · exact h.remove (h.indexed.idx 0 (Nat.pos_of_ne_zero hn)).2

theorem Reachable.ok (h : Reachable q) : q.Ok := by
  induction h with
  | create =>
    refine ⟨?_, ?_, ?_⟩
    · intro j _ hj
      exact absurd hj (Nat.not_lt_zero j)
    · intro i hi
      exact absurd hi (Nat.not_lt_zero i)
    · intro c hc
      cases hc
  | add _ hc _ _ _ ih => exact ih.add hc
  | remove _ hc ih => exact ih.remove hc
  | pop _ cutoff ih => exact ih.pop cutoff

theorem countRange_add (q : Attq) (cutoff : Nat) (hij : i ≤ j) (hjk : j ≤ k) :
    q.countRange cutoff i k = q.countRange cutoff i j + q.countRange cutoff j k := by
  have hsplit : List.range' i (k - i) = List.range' i (j - i) ++ List.range' j (k - j) := by
    have happ := List.range'_append_1 (s := i) (m := j - i) (n := k - j)
    rw [show i + (j - i) = j by omega, show j - i + (k - j) = k - i by omega] at happ
    exact happ.symm
  rw [countRange, hsplit, List.countP_append, countRange, countRange]

theorem numBefore_eq (q : Attq) (cutoff : Nat) :
    q.numBefore cutoff = q.countRange cutoff 0 q.nelem := by
  rw [numBefore, countRange, List.range_eq_range', Nat.sub_zero]

theorem countRange_eq_zero (q : Attq) (cutoff i j : Nat) :
    q.countRange cutoff i j = 0 ↔ ∀ k, i ≤ k → k < j → cutoff ≤ q.time k := by
  simp only [countRange, List.countP_eq_zero, List.mem_range'_1, decide_eq_true_eq, Nat.not_lt]
  constructor
  · intro h k hi hj
    exact h k ⟨hi, by omega⟩
  · intro h k hk
    exact h k hk.1 (by omega)

theorem countRange_le (q : Attq) (cutoff i j : Nat) : q.countRange cutoff i j ≤ j - i := by
  have hc := List.countP_le_length (p := fun k => decide (q.time k < cutoff))
    (l := List.range' i (j - i))
  rwa [List.length_range'] at hc

theorem countRange_full (q : Attq) (cutoff : Nat) (hij : i ≤ j) :
    j - i ≤ q.countRange cutoff i j ↔ ∀ k, i ≤ k → k < j → q.time k < cutoff := by
  have heq : j - i ≤ q.countRange cutoff i j ↔
      q.countRange cutoff i j = (List.range' i (j - i)).length := by
    rw [List.length_range']
    exact (q.countRange_le cutoff i j).ge_iff_eq
  rw [heq, countRange, List.countP_eq_length]
  simp only [List.mem_range'_1, decide_eq_true_eq]
  constructor
  · intro h k hi hj
    exact h k ⟨hi, by omega⟩
  · intro h k hk
    exact h k hk.1 (by omega)

/-- Above an element that is before the cutoff there is no level with one that is not. -/
def FilledBefore (q : Attq) (cutoff : Nat) : Prop :=
  ∀ j, j < q.nelem → q.time j < cutoff → ∀ k, heapLevel k + 1 = heapLevel j → q.time k < cutoff

theorem countLevels_iff (h : HeapOrdered q.nelem q.time) (hi : i + 1 = 2 ^ l) (hin : i ≤ q.nelem)
    (hb : ∀ k, k < i → q.time k < cutoff) (hf : q.nelem < n + i) :
    q.countLevels cutoff n l i (q.countRange cutoff 0 i) = q.numBefore cutoff ↔
      q.FilledBefore cutoff := by
  induction n generalizing l i with
  | zero => omega
  | succ n ih =>
    simp only [countLevels]
    generalize hstop : min (i + 2 ^ l) q.nelem = stop
    have his : i ≤ stop := by omega
    have hsn : stop ≤ q.nelem := by omega
    have hsum : q.countRange cutoff 0 i + q.countRange cutoff i stop = q.countRange cutoff 0 stop :=
      (q.countRange_add cutoff (Nat.zero_le _) his).symm
    -- An element before `stop` is on level `l` or above, and the levels above `l` are counted.
    have habove : ∀ j, j < stop → ∀ k, heapLevel k + 1 = heapLevel j → q.time k < cutoff := by
      intro j hj k hk
      have hlj : heapLevel j < l + 1 := heapLevel_lt_iff.2 (by omega)
      have hlk := (heapLevel_lt_iff (l := l)).1 (show heapLevel k < l by omega)
      exact hb k (by omega)
    rw [hsum]
    split
    next hlt =>
      rw [numBefore_eq, q.countRange_add cutoff (Nat.zero_le stop) hsn]
      have hzero : q.countRange cutoff 0 stop =
          q.countRange cutoff 0 stop + q.countRange cutoff stop q.nelem ↔
          q.countRange cutoff stop q.nelem = 0 := by omega
      rw [hzero, countRange_eq_zero]
      constructor
      · intro hrest j hj hjb
        apply habove
        by_contra hge
        have := hrest j (by omega) hj
        omega
      · intro hfill j hj hjn
        by_contra hjb
        obtain ⟨a, ha, hla, hle⟩ := h.ancestor hjn
          ((heapLevel_le_iff (l := l + 1)).2 (by omega))
        have hall := (q.countRange_full cutoff his).2 fun k hk hks => by
          apply hfill a (by omega) (by omega) k
          have h₁ := (heapLevel_le_iff (l := l)).2 (show 2 ^ l ≤ k + 1 by omega)
          have h₂ := (heapLevel_lt_iff (l := l + 1)).2 (show k + 1 < 2 ^ (l + 1) by omega)
          omega
        omega
    next hge =>
      have hle := q.countRange_le cutoff i stop
      have hall := (q.countRange_full cutoff his).1 (by omega)
      apply ih (by omega) hsn
      · intro k hk
        by_cases hki : k < i
        · exact hb k hki
        · exact hall k (by omega) hk
      · omega

/-- The elements before the cutoff must fill the levels of the heap from the top. -/
theorem countBefore_eq_iff (h : Reachable q) (cutoff : Nat) :
    q.countBefore cutoff = q.numBefore cutoff ↔ q.FilledBefore cutoff :=
  countLevels_iff h.ok.ordered rfl (Nat.zero_le _) (fun k hk => absurd hk (Nat.not_lt_zero k))
    (Nat.lt_succ_self _)

def ofTimes (ts : List Nat) : Attq :=
  ts.foldl (fun q t => (q.add q.nelem t true true).1) {}

theorem countBefore_of_two : Reachable (ofTimes [1, 7]) ∧
    ((ofTimes [1, 7]).countBefore 5 = (ofTimes [1, 7]).numBefore 5 ↔
      (ofTimes [1, 7]).FilledBefore 5) := by
  have h : Reachable (ofTimes [1, 7]) := .add (.add .create rfl 1 true true) (by decide) 7 true true
  exact ⟨h, countBefore_eq_iff h 5⟩

/-- The right subtree of the root is late, and what is early below the left one is missed. -/
theorem countBefore_misses : Reachable (ofTimes [1, 2, 10, 3]) ∧
    (ofTimes [1, 2, 10, 3]).countBefore 5 = 2 ∧ (ofTimes [1, 2, 10, 3]).numBefore 5 = 3 := by
  refine ⟨?_, by decide, by decide⟩
  have h₂ : Reachable (ofTimes [1, 2]) :=
    .add (.add .create rfl 1 true true) (by decide) 2 true true
  have h₃ : Reachable (ofTimes [1, 2, 10]) := .add h₂ (by decide) 10 true true
  exact .add h₃ (by decide) 3 true true

end

end Attq

end QuicArt
