import QuicArt.BlockSpec

namespace QuicArt

/-- What the stream priority iterator reads of a stream. -/
structure PrioStream where
  id : Nat
  priority : Fin 256
  critical : Bool
  deriving Repr, DecidableEq

/-- `struct stream_prio_iter`.  `nextStream` is the rest of the queue from the stream that
`spi_next_stream` points to, empty when it is `NULL`. -/
structure StreamPrioIter where
  set : Nat → BitVec 64
  nAdded : Nat
  curPrio : Nat
  nextStream : List PrioStream
  streams : Nat → List PrioStream

namespace StreamPrioIter

def inUse (it : StreamPrioIter) (p : Nat) : Bool := (it.set (p / 64)).getLsbD (p % 64)

def addStream (it : StreamPrioIter) (s : PrioStream) : StreamPrioIter :=
  let p := s.priority.val
  let it := if it.inUse p then it else
    { it with
      set := Function.update it.set (p / 64) (it.set (p / 64) ||| (1 : BitVec 64) <<< (p % 64))
      streams := Function.update it.streams p [] }
  { it with
    streams := Function.update it.streams p (it.streams p ++ [s])
    nAdded := it.nAdded + 1 }

/-- `lsquic_spi_init`, of the streams from `first` to `last`. -/
def init (filter : PrioStream → Bool) (l : List PrioStream) : StreamPrioIter :=
  l.foldl (fun it s => if filter s then it.addStream s else it)
    ⟨fun _ => 0, 0, 0, [], fun _ => []⟩

/-- One step of the search for the lowest bit of a mask. -/
def halve (k : Nat) (pm : Nat × BitVec 64) : Nat × BitVec 64 :=
  if pm.2 &&& (((1 : BitVec 64) <<< k) - 1) = 0 then (pm.1 + k, pm.2 >>> k) else pm

def calcPriority (prio : Nat) (mask : BitVec 64) : Nat :=
  (halve 1 (halve 2 (halve 4 (halve 8 (halve 16 (halve 32 (prio, mask))))))).1

/-- The first of the four words from `s` on that is not zero, and its lowest bit. -/
def scanSets (it : StreamPrioIter) (s : Nat) : Option StreamPrioIter :=
  ((List.range' s (4 - s)).find? fun i => it.set i != 0).map fun i =>
    { it with curPrio := calcPriority (64 * i) (it.set i) }

def findAndSetLowestPriority (it : StreamPrioIter) : Option StreamPrioIter := it.scanSets 0

def findAndSetNextPriority (it : StreamPrioIter) : Option StreamPrioIter :=
  let set := it.curPrio / 64
  let bit := it.curPrio % 64
  let mask := it.set set &&& ~~~(((1 : BitVec 64) <<< (bit + 1)) - 1)
  if bit < 63 ∧ mask ≠ 0 then some { it with curPrio := calcPriority (64 * set) mask }
  else it.scanSets (set + 1)

/-- The first stream of the current queue, which is not empty when its bit is on. -/
def takeFirst (it : StreamPrioIter) : Option (PrioStream × StreamPrioIter) :=
  match it.streams it.curPrio with
  | [] => none
  | s :: rest => some (s, { it with nextStream := rest })

def first (it : StreamPrioIter) : Option (PrioStream × StreamPrioIter) :=
  let it := { it with curPrio := 0 }
  if it.inUse 0 then it.takeFirst else it.findAndSetLowestPriority.bind takeFirst

def next (it : StreamPrioIter) : Option (PrioStream × StreamPrioIter) :=
  match it.nextStream with
  | s :: rest => some (s, { it with nextStream := rest })
  | [] => it.findAndSetNextPriority.bind takeFirst

/-- `lsquic_spi_next` until `NULL`, in at most `n` calls. -/
def nexts : Nat → StreamPrioIter → Option (List PrioStream)
  | 0, _ => none
  | n + 1, it =>
    match it.next with
    | none => some []
    | some (s, it) => (nexts n it).map (s :: ·)

/-- `lsquic_spi_first` and then `lsquic_spi_next` until `NULL`. -/
def iterate (n : Nat) (it : StreamPrioIter) : Option (List PrioStream) :=
  match it.first with
  | none => some []
  | some (s, it) => (nexts n it).map (s :: ·)

def popcount (w : BitVec 64) : Nat := (List.range 64).countP w.getLsbD

/-- The loop of `spi_has_more_than_one_queue`. -/
def countLoop : List (BitVec 64) → Nat → Bool
  | [], _ => false
  | w :: ws, count => if 1 < count + popcount w then true else countLoop ws (count + popcount w)

def hasMoreThanOneQueue (it : StreamPrioIter) : Bool :=
  if it.nAdded < 2 then false else countLoop [it.set 0, it.set 1, it.set 2, it.set 3] 0

def haveNonCriticalStreams (it : StreamPrioIter) : Bool :=
  (it.streams it.curPrio).any fun s => !s.critical

def addCurrent (it : StreamPrioIter) (set : Nat → BitVec 64) : Nat → BitVec 64 :=
  Function.update set (it.curPrio / 64)
    (set (it.curPrio / 64) ||| (1 : BitVec 64) <<< (it.curPrio % 64))

/-- The set that `spi_drop_high_or_non_high` builds, with the iterator after the searches. -/
def highSet (it : StreamPrioIter) : StreamPrioIter × (Nat → BitVec 64) :=
  let it := it.findAndSetLowestPriority.getD it
  let newSet := it.addCurrent fun _ => 0
  if it.haveNonCriticalStreams then (it, newSet) else
    let it := { it with curPrio := (it.curPrio + 1) % 256 }
    let it := it.findAndSetLowestPriority.getD it
    (it, it.addCurrent newSet)

def dropHighOrNonHigh (it : StreamPrioIter) (dropHigh : Bool) : StreamPrioIter :=
  if !it.hasMoreThanOneQueue then it else
    let (it, newSet) := it.highSet
    { it with set := fun n => if dropHigh then it.set n &&& ~~~ newSet n else newSet n }

def dropHigh (it : StreamPrioIter) : StreamPrioIter := it.dropHighOrNonHigh true

def dropNonHigh (it : StreamPrioIter) : StreamPrioIter := it.dropHighOrNonHigh false

def Lowest (m : BitVec 64) (t : Nat) : Prop :=
  m.getLsbD t = true ∧ ∀ j < t, m.getLsbD j = false

theorem exists_lowest (h : m ≠ 0) : ∃ t < 64, Lowest m t :=
  ⟨_, (DataBlock.ctz_spec m h).1, (DataBlock.ctz_spec m h).2⟩

theorem Lowest.halve {k : Nat} {pm : Nat × BitVec 64} (h : Lowest pm.2 t) (hk : k < 64)
    (ht : t < 2 * k) :
    ∃ t' < k, Lowest (halve k pm).2 t' ∧ (StreamPrioIter.halve k pm).1 + t' = pm.1 + t := by
  rw [StreamPrioIter.halve]
  split
  case isTrue hz =>
    have hkt : k ≤ t := by
      by_contra hlt
      have hb := congrArg (BitVec.getLsbD · t) hz
      simp only [BitVec.getLsbD_and, getLsbD_lowMask hk, h.1] at hb
      simp [Nat.lt_of_not_le hlt] at hb
    refine ⟨t - k, by omega, ⟨?_, ?_⟩, by dsimp only; omega⟩
    · rw [BitVec.getLsbD_ushiftRight, Nat.add_sub_of_le hkt]
      exact h.1
    · intro j hj
      rw [BitVec.getLsbD_ushiftRight]
      exact h.2 _ (by omega)
  case isFalse hnz =>
    obtain ⟨j, -, hj⟩ := (DataBlock.exists_bit _).1 hnz
    rw [BitVec.getLsbD_and, getLsbD_lowMask hk, Bool.and_eq_true, decide_eq_true_eq] at hj
    refine ⟨t, ?_, h, rfl⟩
    by_contra hle
    have := h.2 j (by omega)
    simp [this] at hj

theorem Lowest.calcPriority (h : Lowest m t) (ht : t < 64) (prio : Nat) :
    calcPriority prio m = prio + t := by
  have l₀ : Lowest (prio, m).2 t := h
  obtain ⟨t₁, h₁, l₁, e₁⟩ := l₀.halve (by decide : 32 < 64) ht
  obtain ⟨t₂, h₂, l₂, e₂⟩ := l₁.halve (by decide : 16 < 64) h₁
  obtain ⟨t₃, h₃, l₃, e₃⟩ := l₂.halve (by decide : 8 < 64) h₂
  obtain ⟨t₄, h₄, l₄, e₄⟩ := l₃.halve (by decide : 4 < 64) h₃
  obtain ⟨t₅, h₅, l₅, e₅⟩ := l₄.halve (by decide : 2 < 64) h₄
  obtain ⟨t₆, h₆, -, e₆⟩ := l₅.halve (by decide : 1 < 64) h₅
  rw [StreamPrioIter.calcPriority]
  omega

/-- `p` is the first priority in use from `k` on. -/
structure FirstFrom (it : StreamPrioIter) (k p : Nat) : Prop where
  le : k ≤ p
  lt : p < 256
  used : it.inUse p = true
  unused : ∀ j, k ≤ j → j < p → it.inUse j = false

/-- A search finds the first priority in use from `k` on, if there is one. -/
def Finds (it : StreamPrioIter) (k : Nat) (r : Option StreamPrioIter) : Prop :=
  (r = none ∧ ∀ p, k ≤ p → p < 256 → it.inUse p = false) ∨
    ∃ p, r = some { it with curPrio := p } ∧ it.FirstFrom k p

variable {it : StreamPrioIter}

theorem Finds.extend {r : Option StreamPrioIter} (h : it.Finds k' r) (hle : k ≤ k')
    (hgap : ∀ j, k ≤ j → j < k' → it.inUse j = false) : it.Finds k r := by
  have hall : ∀ {j}, k ≤ j → (k' ≤ j → it.inUse j = false) → it.inUse j = false := by
    intro j hj hj'
    by_cases hw : j < k'
    · exact hgap j hj hw
    · exact hj' (by omega)
  rcases h with ⟨hr, hn⟩ | ⟨p, hr, hp⟩
  · exact .inl ⟨hr, fun p hk hlt => hall hk fun hk' => hn p hk' hlt⟩
  · exact .inr ⟨p, hr, Nat.le_trans hle hp.le, hp.lt, hp.used,
      fun j hk hlt => hall hk fun hk' => hp.unused j hk' hlt⟩

theorem firstFrom_calcPriority (hm : m ≠ 0) (hi : i < 4) (hle : 64 * i ≤ k)
    (hbit : ∀ j < 64, m.getLsbD j = (it.inUse (64 * i + j) && decide (k ≤ 64 * i + j))) :
    it.FirstFrom k (calcPriority (64 * i) m) := by
  obtain ⟨t, ht, hl⟩ := exists_lowest hm
  have hb := hl.1
  rw [hbit t ht, Bool.and_eq_true, decide_eq_true_eq] at hb
  rw [hl.calcPriority ht]
  refine ⟨hb.2, by omega, hb.1, ?_⟩
  intro j hkj hj
  have hf := hl.2 (j - 64 * i) (by omega)
  rw [hbit _ (by omega), Nat.add_sub_of_le (by omega)] at hf
  simpa [hkj] using hf

theorem inUse_word (hj : j < 64) (i : Nat) : it.inUse (64 * i + j) = (it.set i).getLsbD j := by
  rw [inUse, show (64 * i + j) / 64 = i by omega, show (64 * i + j) % 64 = j by omega]

theorem inUse_zero (h : it.set (p / 64) = 0) : it.inUse p = false := by
  rw [inUse, h]
  exact BitVec.getLsbD_zero

theorem finds_scanSets (it : StreamPrioIter) (s : Nat) : it.Finds (64 * s) (it.scanSets s) := by
  rw [scanSets]
  cases hf : (List.range' s (4 - s)).find? fun i => it.set i != 0 with
  | none =>
    refine .inl ⟨rfl, fun p hp hlt => ?_⟩
    rw [List.find?_eq_none] at hf
    exact inUse_zero (by simpa using hf (p / 64) (by rw [List.mem_range'_1]; omega))
  | some i =>
    rw [List.find?_range'_eq_some] at hf
    obtain ⟨hne, hi, hz⟩ := hf
    rw [List.mem_range'_1] at hi
    have hk : it.FirstFrom (64 * i) (calcPriority (64 * i) (it.set i)) := by
      apply firstFrom_calcPriority (by simpa using hne) (by omega) le_rfl
      intro j hj
      simp [inUse_word hj]
    apply Finds.extend (.inr ⟨_, rfl, hk⟩) (by omega)
    intro j hj hlt
    exact inUse_zero (by simpa using hz (j / 64) (by omega) (by omega))

/-- The bit sets lead to the next priority that has streams. -/
theorem finds_next (hc : it.curPrio < 256) :
    it.Finds (it.curPrio + 1) it.findAndSetNextPriority := by
  -- The bits of the word above the current one.
  have hbit : it.curPrio % 64 < 63 → ∀ j < 64, BitVec.getLsbD
      (it.set (it.curPrio / 64) &&& ~~~(((1 : BitVec 64) <<< (it.curPrio % 64 + 1)) - 1)) j =
        (it.inUse (64 * (it.curPrio / 64) + j) &&
          decide (it.curPrio + 1 ≤ 64 * (it.curPrio / 64) + j)) := by
    intro h63 j hj
    rw [inUse_word hj, BitVec.getLsbD_and, BitVec.getLsbD_not, getLsbD_lowMask (by omega)]
    congr 1
    rw [Bool.eq_iff_iff]
    simp only [Bool.and_eq_true, Bool.not_eq_true', decide_eq_true_eq, decide_eq_false_iff_not]
    omega
  rw [findAndSetNextPriority]
  split
  case isTrue h =>
    exact .inr ⟨_, rfl, firstFrom_calcPriority h.2 (by omega) (by omega) (hbit h.1)⟩
  case isFalse h =>
    apply (finds_scanSets it (it.curPrio / 64 + 1)).extend (by omega)
    intro j hj hlt
    have h63 : it.curPrio % 64 < 63 := by omega
    have hb := hbit h63 (j - 64 * (it.curPrio / 64)) (by omega)
    rw [not_not.1 fun hm => h ⟨h63, hm⟩, Nat.add_sub_of_le (by omega)] at hb
    simpa [hj] using hb.symm

end StreamPrioIter

end QuicArt
