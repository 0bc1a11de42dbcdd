import QuicArt.Buckets
import QuicArt.Tailq

namespace QuicArt

/-- An element with the key and the value it was inserted with. -/
structure LsquicHash.Elem (κ υ : Type) where
  addr : Nat
  key : κ
  value : υ
  deriving DecidableEq

/-- `struct lsquic_hash`: `all` is the list `qh_all`. -/
structure LsquicHash (κ υ : Type) where
  buckets : Buckets (LsquicHash.Elem κ υ)
  all : List (LsquicHash.Elem κ υ)
  iterNext : Option (LsquicHash.Elem κ υ)
  count : Nat

namespace LsquicHash

section
variable {κ υ : Type} [DecidableEq κ] [DecidableEq υ] (hash : κ → Nat)

def create : LsquicHash κ υ := ⟨.empty 2, [], none, 0⟩

/-- The comparison of hash values is left out: equal keys have equal ones. -/
def find (s : LsquicHash κ υ) (k : κ) : Option (Elem κ υ) := s.buckets.find Elem.key hash k

/-- `QHE_HASHED` is set while the element is on the list. The table grows when it is half full,
which fails with the allocation. -/
def insert (s : LsquicHash κ υ) (malloc : Bool) (e : Elem κ υ) : Bool × LsquicHash κ υ :=
  let full := decide (2 ^ s.buckets.nbits / 2 ≤ s.count)
  if e.addr ∈ s.all.map (·.addr) ∨ full ∧ !malloc then (false, s)
  else
    let t := if full then s.buckets.grow Elem.key hash else s.buckets
    (true, ⟨t.insert Elem.key hash e, s.all ++ [e], s.iterNext, s.count + 1⟩)

def erase (s : LsquicHash κ υ) (e : Elem κ υ) : LsquicHash κ υ where
  buckets := s.buckets.remove id (hash ·.key) e
  all := s.all.erase e
  iterNext := if s.iterNext = some e then nextOf e s.all else s.iterNext
  count := s.count - 1

def resetIter (s : LsquicHash κ υ) : LsquicHash κ υ := { s with iterNext := s.all.head? }

def next (s : LsquicHash κ υ) : Option (Elem κ υ) × LsquicHash κ υ :=
  (s.iterNext, { s with iterNext := s.iterNext.bind (nextOf · s.all) })

/-- The runs, with the element last inserted and not erased for each key. -/
inductive Run : LsquicHash κ υ → (κ → Option (Elem κ υ)) → Prop
  | create : Run create fun _ => none
  | insert : Run s m → m e.key = none → Run (s.insert hash malloc e).2
      (if (s.insert hash malloc e).1 then Function.update m e.key (some e) else m)
  | erase : Run s m → e ∈ s.all → Run (s.erase hash e) (Function.update m e.key none)
  | resetIter : Run s m → Run s.resetIter m
  | next : Run s m → Run s.next.2 m

/-- An iteration over `s` in which elements are erased: the table, what was visited and what was
erased before its turn. `lsquic_hash_first` is `resetIter` and then `next`. -/
inductive Iter (s : LsquicHash κ υ) :
    LsquicHash κ υ → List (Elem κ υ) → List (Elem κ υ) → Prop
  | start : Iter s s.resetIter [] []
  | next : Iter s t v k → t.next.1 = some e → Iter s t.next.2 (v ++ [e]) k
  | erase : Iter s t v k → e ∈ t.all → Iter s (t.erase hash e) v (if e ∈ v then k else e :: k)

structure Holds (s : LsquicHash κ υ) (m : κ → Option (Elem κ υ)) : Prop where
  wf : s.buckets.WellFormed Elem.key hash
  find : ∀ k, s.find hash k = m k
  nodup : s.all.Nodup
  mem : ∀ e, e ∈ s.all ↔ m e.key = some e
  count : s.count = s.all.length

variable {hash} {s t : LsquicHash κ υ} {m : κ → Option (Elem κ υ)} {e : Elem κ υ}
  {v k : List (Elem κ υ)}

theorem eraseP_congr {p q : α → Bool} {l : List α} (h : ∀ a ∈ l, p a = q a) :
    l.eraseP p = l.eraseP q := by
  induction l with
  | nil => rfl
  | cons a l ih =>
    rw [List.eraseP_cons, List.eraseP_cons, h a (.head _), ih fun b hb => h b (.tail _ hb)]

theorem Holds.remove (h : s.Holds hash m) (he : e ∈ s.all) :
    s.buckets.remove id (hash ·.key) e = s.buckets.remove Elem.key hash e.key := by
  have hf := List.mem_of_find?_eq_some ((h.find e.key).trans ((h.mem e).mp he))
  have hinj := List.inj_on_of_nodup_map (h.wf.nodup (s.buckets.rowOf hash e.key))
  rw [Buckets.remove, Buckets.remove, List.modify_eq_set, List.modify_eq_set]
  congr 2
  apply eraseP_congr
  intro a ha
  exact decide_eq_decide.mpr ⟨congrArg Elem.key, fun hk => hinj ha hf hk⟩

omit [DecidableEq υ] in
theorem Holds.insert (h : s.Holds hash m) (hm : m e.key = none) (malloc : Bool) :
    (s.insert hash malloc e).2.Holds hash
      (if (s.insert hash malloc e).1 then Function.update m e.key (some e) else m) := by
  have hadd : ∀ t : Buckets (Elem κ υ), t.WellFormed Elem.key hash →
      (∀ k, t.find Elem.key hash k = m k) →
      Holds hash ⟨t.insert Elem.key hash e, s.all ++ [e], s.iterNext, s.count + 1⟩
        (Function.update m e.key (some e)) := by
    intro t hw hf
    have hfree := (hf e.key).trans hm
    refine ⟨Buckets.insert_wellFormed hw hfree, ?_, ?_, ?_, ?_⟩
    · intro k
      rw [LsquicHash.find, Buckets.find_insert hw hfree, Function.update_apply, hf]
    · refine List.nodup_append.mpr ⟨h.nodup, List.nodup_singleton e, ?_⟩
      rintro a ha b hb rfl
      rw [List.mem_singleton.mp hb, h.mem, hm] at ha
      cases ha
    · intro a
      rw [List.mem_append, List.mem_singleton, h.mem, Function.update_apply]
      split
      next hk => simp [hk, hm, eq_comm]
      next hk => simpa using fun ha : a = e => absurd (congrArg Elem.key ha) hk
    · rw [List.length_append, h.count]
      rfl
  simp only [LsquicHash.insert]
  split
  · exact h
  · apply hadd
    · split
      · exact Buckets.grow_wellFormed h.wf
      · exact h.wf
    · intro k
      split
      · exact (Buckets.find_grow h.wf k).trans (h.find k)
      · exact h.find k

theorem Holds.erase (h : s.Holds hash m) (he : e ∈ s.all) :
    (s.erase hash e).Holds hash (Function.update m e.key none) where
  wf := by
    rw [LsquicHash.erase, h.remove he]
    exact Buckets.remove_wellFormed h.wf _
  find k := by
    rw [LsquicHash.find, LsquicHash.erase, h.remove he, Buckets.find_remove h.wf,
      Function.update_apply]
    exact if_congr Iff.rfl rfl (h.find k)
  nodup := h.nodup.erase e
  mem a := by
    rw [LsquicHash.erase, h.nodup.mem_erase_iff, h.mem, Function.update_apply]
    split
    next hk => simp [hk, (h.mem e).mp he, eq_comm]
    next hk => simpa using fun _ ha => absurd (congrArg Elem.key ha) hk
  count := by
    rw [LsquicHash.erase, List.length_erase_of_mem he, h.count]

theorem Run.holds (h : Run hash s m) : s.Holds hash m := by
  induction h with
  | create =>
    exact ⟨Buckets.empty_wellFormed 2, Buckets.find_empty 2, .nil, by simp [LsquicHash.create], rfl⟩
  | insert _ hm ih => exact ih.insert hm _
  | erase _ he ih => exact ih.erase he
  | resetIter _ ih => exact ⟨ih.wf, ih.find, ih.nodup, ih.mem, ih.count⟩
  | next _ ih => exact ⟨ih.wf, ih.find, ih.nodup, ih.mem, ih.count⟩

theorem Iter.cursor (h : Iter hash s t v k) (hn : s.all.Nodup) :
    t.all.Nodup ∧ ∃ rest, v ++ rest = s.all.filter (· ∉ k) ∧ Cursor t.all t.iterNext rest := by
  induction h with
  | start => exact ⟨hn, s.all, by simp, rfl, List.suffix_rfl⟩
  | @next t v k e _ he ih =>
    obtain ⟨ht, rest, hr, hc⟩ := ih
    cases rest with
    | nil => cases he.symm.trans hc.head
    | cons a rest =>
      cases he.symm.trans hc.head
      refine ⟨ht, rest, by rw [← hr, List.append_assoc, List.singleton_append], ?_⟩
      rw [LsquicHash.next, show t.iterNext = some e from he]
      exact (Cursor.next hc.suffix ht).1
  | @erase t v k e _ he ih =>
    obtain ⟨ht, rest, hr, hc⟩ := ih
    refine ⟨ht.erase e, rest.erase e, ?_, hc.erase ht⟩
    have hnd : (v ++ rest).Nodup := hr ▸ hn.filter _
    split
    next hv =>
      rw [List.erase_of_not_mem fun hm => (List.nodup_append.mp hnd).2.2 e hv e hm rfl, hr]
    next hv =>
      rw [← List.erase_append_right _ hv, hnd.erase_eq_filter, hr, List.filter_filter]
      apply List.filter_congr
      intro a _
      by_cases ha : a = e <;> simp [ha]

omit [DecidableEq κ] [DecidableEq υ] in
theorem insert_succeeds (s : LsquicHash κ υ) (malloc : Bool) (e : Elem κ υ) :
    (s.insert hash malloc e).1 = true ↔ e.addr ∉ s.all.map (·.addr) ∧
      (malloc = true ∨ s.count < 2 ^ s.buckets.nbits / 2) := by
  by_cases ha : e.addr ∈ s.all.map (·.addr)
  · simp only [LsquicHash.insert, ha, true_or, if_true]
    simp
  · simp only [LsquicHash.insert, ha, false_or, not_false_eq_true, true_and]
    cases malloc with
    | true => simp
    | false =>
      rw [← Nat.not_le]
      by_cases hf : 2 ^ s.buckets.nbits / 2 ≤ s.count <;> simp [hf]

/-- The table is a map, an insertion fails only for an element that is on the list or without
memory, and an iteration visits what is left of the list in its order. -/
theorem hash_map_iter (h : Run hash s m) :
    (∀ k, s.find hash k = m k) ∧ s.count = s.all.length ∧
      (s.all.Nodup ∧ ∀ e, e ∈ s.all ↔ m e.key = some e) ∧
      (∀ malloc e, (s.insert hash malloc e).1 = true ↔ e.addr ∉ s.all.map (·.addr) ∧
        (malloc = true ∨ s.count < 2 ^ s.buckets.nbits / 2)) ∧
      ∀ t v k, Iter hash s t v k → ∃ rest, v ++ rest = s.all.filter (· ∉ k) ∧
        t.next.1 = rest.head? ∧ rest <:+ t.all := by
  have hs := h.holds
  refine ⟨hs.find, hs.count, ⟨hs.nodup, hs.mem⟩, s.insert_succeeds, fun t v k hi => ?_⟩
  obtain ⟨-, rest, hr, hc⟩ := hi.cursor hs.nodup
  exact ⟨rest, hr, hc.head, hc.suffix⟩

theorem hash_map_iter_two :
    let s := ((((create : LsquicHash Nat Nat).insert id true ⟨1, 5, 7⟩).2.insert id true
      ⟨2, 9, 8⟩).2.insert id true ⟨3, 6, 4⟩).2.erase id ⟨2, 9, 8⟩
    s.find id 9 = none ∧ s.find id 6 = some ⟨3, 6, 4⟩ := by
  intro s
  have h := (hash_map_iter (.erase (.insert (.insert (.insert .create rfl) rfl) rfl) (by decide) :
    Run id s _)).1
  exact ⟨(h 9).trans (by decide), (h 6).trans (by decide)⟩

end

end LsquicHash
end QuicArt
