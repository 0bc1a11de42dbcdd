import Mathlib.Algebra.Order.Ring.Int
import Mathlib.Algebra.Order.Ring.Nat
import Mathlib.Algebra.BigOperators.Group.List.Basic
import Mathlib.Data.List.Basic

namespace QuicArt

/-- A hash table: a power of two of rows, each a list of elements. -/
structure Buckets (α : Type) where
  nbits : Nat
  rows : List (List α)

namespace Buckets

section
variable {α κ : Type} [DecidableEq κ] (key : α → κ) (hash : κ → Nat)

def empty (n : Nat) : Buckets α := ⟨n, List.replicate (2 ^ n) []⟩

def rowOf (t : Buckets α) (k : κ) : Nat := hash k % 2 ^ t.nbits

def row (t : Buckets α) (r : Nat) : List α := t.rows.getD r []

def find (t : Buckets α) (k : κ) : Option α := (t.row (t.rowOf hash k)).find? fun a => key a = k

def insert (t : Buckets α) (a : α) : Buckets α :=
  { t with rows := t.rows.modify (t.rowOf hash (key a)) (· ++ [a]) }

def remove (t : Buckets α) (k : κ) : Buckets α :=
  { t with rows := t.rows.modify (t.rowOf hash k) (·.eraseP fun a => key a = k) }

def update (t : Buckets α) (k : κ) (f : α → α) : Buckets α :=
  { t with rows := t.rows.modify (t.rowOf hash k) (·.map fun a => if key a = k then f a else a) }

/-- The row an element goes to when the number of rows doubles: the same one, or its twin. -/
def upper (t : Buckets α) (a : α) : Bool := decide (hash (key a) / 2 ^ t.nbits % 2 = 1)

def grow (t : Buckets α) : Buckets α where
  nbits := t.nbits + 1
  rows := t.rows.map (·.filter fun a => !t.upper key hash a) ++
    t.rows.map (·.filter (t.upper key hash))

def total (t : Buckets α) : Nat := (t.rows.map List.length).sum

structure WellFormed (t : Buckets α) : Prop where
  length : t.rows.length = 2 ^ t.nbits
  home : ∀ r, ∀ a ∈ t.row r, t.rowOf hash (key a) = r
  nodup : ∀ r, ((t.row r).map key).Nodup

variable {key hash} {t : Buckets α} {k k' : κ} {a : α} {f : α → α}

omit [DecidableEq κ] in
theorem rowOf_lt (h : t.WellFormed key hash) (k : κ) : t.rowOf hash k < t.rows.length := by
  rw [h.length]
  exact Nat.mod_lt _ (Nat.two_pow_pos _)

theorem getD_modify_row (rows : List (List α)) (f : List α → List α) {r : Nat} (r' : Nat)
    (h : r < rows.length) :
    (rows.modify r f).getD r' [] = if r' = r then f (rows.getD r []) else rows.getD r' [] := by
  simp only [List.getD_eq_getElem?_getD, List.getElem?_modify]
  by_cases hr : r' = r
  · subst hr
    simp [List.getElem?_eq_getElem h]
  · have hr' : r ≠ r' := fun h => hr h.symm
    simp [hr, hr']

theorem sum_modify (rows : List (List α)) (f : List α → List α) (r : Nat) (h : r < rows.length) :
    ((rows.modify r f).map List.length).sum + (rows.getD r []).length =
      (rows.map List.length).sum + (f (rows.getD r [])).length := by
  induction rows generalizing r with
  | nil => cases h
  | cons x rows ih =>
    cases r with
    | zero =>
      simp only [List.modify_zero_cons, List.map_cons, List.sum_cons, List.getD_cons_zero]
      omega
    | succ r =>
      have hr := ih r (by simpa using h)
      simp only [List.modify_succ_cons, List.map_cons, List.sum_cons, List.getD_cons_succ]
      omega

theorem row_empty (n r : Nat) : (empty n : Buckets α).row r = [] := by
  rw [row, empty, List.getD_eq_getElem?_getD, List.getElem?_replicate]
  split <;> rfl

omit [DecidableEq κ] in
theorem empty_wellFormed (n : Nat) : (empty n : Buckets α).WellFormed key hash where
  length := List.length_replicate
  home r a ha := by
    rw [row_empty] at ha
    cases ha
  nodup r := by
    rw [row_empty]
    exact List.nodup_nil

@[simp] theorem find_empty (n : Nat) (k : κ) : (empty n : Buckets α).find key hash k = none := by
  rw [find, row_empty, List.find?_nil]

@[simp] theorem total_empty (n : Nat) : (empty n : Buckets α).total = 0 := by
  simp [total, empty]

theorem find_key (h : t.find key hash k = some a) : key a = k := by
  have := List.find?_some h
  simpa using this

theorem not_mem_of_find (h : t.find key hash k = none) (ha : a ∈ t.row (t.rowOf hash k)) :
    key a ≠ k := by
  have := List.find?_eq_none.1 h a ha
  simpa using this

omit [DecidableEq κ] in
theorem row_insert (h : t.WellFormed key hash) (r : Nat) : (t.insert key hash a).row r =
    if r = t.rowOf hash (key a) then t.row r ++ [a] else t.row r := by
  rw [row, insert, getD_modify_row _ _ _ (rowOf_lt h _)]
  split
  next hr => rw [hr, row]
  · rfl

theorem insert_wellFormed (h : t.WellFormed key hash) (ha : t.find key hash (key a) = none) :
    (t.insert key hash a).WellFormed key hash where
  length := by
    rw [insert, List.length_modify, h.length]
  home r b hb := by
    rw [row_insert h] at hb
    split at hb
    next hr =>
      rcases List.mem_append.1 hb with hb | hb
      · exact h.home r b hb
      · rw [List.mem_singleton.1 hb, hr]
        rfl
    · exact h.home r b hb
  nodup r := by
    rw [row_insert h]
    split
    next hr =>
      rw [List.map_append, List.nodup_append]
      refine ⟨h.nodup r, by simp, fun x hx y hy => ?_⟩
      obtain ⟨b, hb, rfl⟩ := List.mem_map.1 hx
      rw [List.mem_singleton.1 hy]
      exact not_mem_of_find ha (hr ▸ hb)
    · exact h.nodup r

theorem find_insert (h : t.WellFormed key hash) (ha : t.find key hash (key a) = none) (k : κ) :
    (t.insert key hash a).find key hash k =
      if k = key a then some a else t.find key hash k := by
  have hrow : (t.insert key hash a).rowOf hash k = t.rowOf hash k := rfl
  rw [find, hrow, row_insert h]
  split
  next hr =>
    rw [List.find?_append]
    by_cases hk : k = key a
    · subst hk
      rw [← find, ha, if_pos rfl, Option.none_or, List.find?_singleton, if_pos (by simp)]
    · have hk' : ¬ key a = k := fun h => hk h.symm
      rw [if_neg hk, List.find?_singleton, if_neg (by simpa using hk'), Option.or_none, find]
  next hr =>
    have hk : ¬ k = key a := fun h => hr (by rw [h])
    rw [if_neg hk, find]

section
variable (h : t.WellFormed key hash)
include h

omit [DecidableEq κ] in
theorem total_insert : (t.insert key hash a).total = t.total + 1 := by
  have hs := sum_modify t.rows (· ++ [a]) _ (rowOf_lt h (key a))
  rw [List.length_append, List.length_singleton] at hs
  simp only [total, insert]
  omega

theorem row_remove (k : κ) (r : Nat) : (t.remove key hash k).row r =
    if r = t.rowOf hash k then (t.row r).eraseP (fun a => key a = k) else t.row r := by
  rw [row, remove, getD_modify_row _ _ _ (rowOf_lt h _)]
  split
  next hr => rw [hr, row]
  · rfl

theorem row_remove_sublist (k : κ) (r : Nat) : ((t.remove key hash k).row r).Sublist (t.row r) := by
  rw [row_remove h]
  split
  · exact List.eraseP_sublist
  · exact List.Sublist.refl _

theorem remove_wellFormed (k : κ) :
    (t.remove key hash k).WellFormed key hash where
  length := by
    rw [remove, List.length_modify, h.length]
  home r b hb := h.home r b ((row_remove_sublist h k r).subset hb)
  nodup r := ((row_remove_sublist h k r).map key).nodup (h.nodup r)

theorem find_remove (k k' : κ) :
    (t.remove key hash k).find key hash k' = if k' = k then none else t.find key hash k' := by
  have hrow : (t.remove key hash k).rowOf hash k' = t.rowOf hash k' := rfl
  rw [find, hrow, row_remove h]
  split
  next hr =>
    by_cases hk : k' = k
    · subst hk
      rw [if_pos rfl, List.find?_eq_none]
      intro a ha
      -- the key is gone with the one element that had it
      have hnd := h.nodup (t.rowOf hash k')
      generalize t.row (t.rowOf hash k') = l at ha hnd
      induction l with
      | nil => cases ha
      | cons b l ih =>
        rw [List.map_cons, List.nodup_cons] at hnd
        by_cases hb : key b = k'
        · rw [List.eraseP_cons_of_pos (by simpa using hb)] at ha
          intro hka
          have hka' : key a = k' := by simpa using hka
          exact hnd.1 (by rw [hb, ← hka']; exact List.mem_map_of_mem ha)
        · rw [List.eraseP_cons_of_neg (by simpa using hb)] at ha
          rcases List.mem_cons.1 ha with rfl | ha
          · simpa using hb
          · exact ih ha hnd.2
    · rw [if_neg hk, find]
      generalize t.row (t.rowOf hash k') = l
      induction l with
      | nil => rfl
      | cons b l ih =>
        by_cases hb : key b = k
        · have hb' : ¬ key b = k' := fun h => hk (h.symm.trans hb)
          rw [List.eraseP_cons_of_pos (by simpa using hb),
            List.find?_cons_of_neg (by simpa using hb')]
        · rw [List.eraseP_cons_of_neg (by simpa using hb), List.find?_cons, List.find?_cons, ih]
  next hr =>
    have hk : ¬ k' = k := fun h => hr (by rw [h])
    rw [if_neg hk, find]

theorem total_remove (ha : t.find key hash k = some a) :
    (t.remove key hash k).total + 1 = t.total := by
  have hs := sum_modify t.rows (·.eraseP fun a => key a = k) _ (rowOf_lt h k)
  have hm := List.mem_of_find?_eq_some ha
  have hk : decide (key a = k) = true := by simpa using find_key ha
  have hl := List.length_eraseP_of_mem (p := fun a => decide (key a = k)) hm hk
  have hpos := List.length_pos_of_mem hm
  rw [row] at hl hpos
  rw [hl] at hs
  simp only [total, remove]
  omega

theorem row_update (k : κ) (r : Nat) : (t.update key hash k f).row r =
    if r = t.rowOf hash k then (t.row r).map (fun a => if key a = k then f a else a)
    else t.row r := by
  rw [row, update, getD_modify_row _ _ _ (rowOf_lt h _)]
  split
  next hr => rw [hr, row]
  · rfl

end

theorem map_key_update (hf : ∀ a, key a = k → key (f a) = key a) (l : List α) :
    (l.map fun a => if key a = k then f a else a).map key = l.map key := by
  rw [List.map_map]
  apply List.map_congr_left
  intro a _
  rw [Function.comp]
  split
  next hk => exact hf a hk
  · rfl

theorem update_wellFormed (h : t.WellFormed key hash) (hf : ∀ a, key a = k → key (f a) = key a) :
    (t.update key hash k f).WellFormed key hash where
  length := by
    rw [update, List.length_modify, h.length]
  home r b hb := by
    rw [row_update h] at hb
    split at hb
    · obtain ⟨a, ha, rfl⟩ := List.mem_map.1 hb
      split
      next hk =>
        rw [hf a hk]
        exact h.home r a ha
      · exact h.home r a ha
    · exact h.home r b hb
  nodup r := by
    rw [row_update h]
    split
    · rw [map_key_update hf]
      exact h.nodup r
    · exact h.nodup r

theorem find_update (h : t.WellFormed key hash) (hf : ∀ a, key a = k → key (f a) = key a)
    (k' : κ) :
    (t.update key hash k f).find key hash k' =
      if k' = k then (t.find key hash k).map f else t.find key hash k' := by
  have hrow : (t.update key hash k f).rowOf hash k' = t.rowOf hash k' := rfl
  have hkey : ∀ a, key (if key a = k then f a else a) = key a := by
    intro a
    split
    next hk => exact hf a hk
    · rfl
  rw [find, hrow, row_update h]
  split
  next hr =>
    rw [List.find?_map]
    have hp : ((fun a => decide (key a = k')) ∘ fun a => if key a = k then f a else a) =
        fun a => decide (key a = k') := by
      funext a
      rw [Function.comp, hkey]
    rw [hp, ← find]
    cases hfd : t.find key hash k' with
    | none =>
      split
      next hk => rw [← hk, hfd]; rfl
      · rfl
    | some a =>
      have hka := find_key hfd
      split
      next hk =>
        rw [← hk, hfd, Option.map_some, Option.map_some, if_pos hka]
      next hk =>
        have hne : ¬ key a = k := fun he => hk (hka.symm.trans he)
        rw [Option.map_some, if_neg hne]
  next hr =>
    have hk : ¬ k' = k := fun h => hr (by rw [h])
    rw [if_neg hk, find]

theorem total_update (k : κ) : (t.update key hash k f).total = t.total := by
  rw [total, total, update]
  generalize t.rowOf hash k = r
  have hmap : (t.rows.modify r (·.map fun a => if key a = k then f a else a)).map List.length =
      t.rows.map List.length := by
    apply List.ext_getElem?
    intro i
    simp only [List.getElem?_map, List.getElem?_modify]
    cases t.rows[i]? with
    | none => rfl
    | some l => by_cases hi : r = i <;> simp [hi]
  rw [hmap]

omit [DecidableEq κ] in
theorem row_grow (h : t.WellFormed key hash) (r : Nat) : (t.grow key hash).row r =
    if r < 2 ^ t.nbits then (t.row r).filter fun a => !t.upper key hash a
    else (t.row (r - 2 ^ t.nbits)).filter (t.upper key hash) := by
  rw [row, grow, List.getD_eq_getElem?_getD, List.getElem?_append, List.length_map, h.length]
  split
  · rw [List.getElem?_map, row, List.getD_eq_getElem?_getD]
    cases t.rows[r]? <;> rfl
  · rw [List.getElem?_map, row, List.getD_eq_getElem?_getD]
    cases t.rows[r - 2 ^ t.nbits]? <;> rfl

omit [DecidableEq κ] in
theorem grow_wellFormed (h : t.WellFormed key hash) : (t.grow key hash).WellFormed key hash where
  length := by
    rw [grow, List.length_append, List.length_map, List.length_map, h.length, Nat.pow_succ]
    omega
  home r a ha := by
    have hmod := @Nat.mod_pow_succ (hash (key a)) 2 t.nbits
    have hgrow : (t.grow key hash).rowOf hash (key a) = hash (key a) % 2 ^ (t.nbits + 1) := rfl
    rw [row_grow h] at ha
    split at ha
    · obtain ⟨ha, hu⟩ := List.mem_filter.1 ha
      have hr : hash (key a) % 2 ^ t.nbits = r := h.home _ a ha
      simp only [upper, Bool.not_eq_true', decide_eq_false_iff_not] at hu
      have hz : hash (key a) / 2 ^ t.nbits % 2 = 0 := by omega
      rw [hz] at hmod
      omega
    · obtain ⟨ha, hu⟩ := List.mem_filter.1 ha
      have hr : hash (key a) % 2 ^ t.nbits = r - 2 ^ t.nbits := h.home _ a ha
      simp only [upper, decide_eq_true_eq] at hu
      rw [hu] at hmod
      omega
  nodup r := by
    rw [row_grow h]
    split
    · exact (List.filter_sublist.map key).nodup (h.nodup _)
    · exact (List.filter_sublist.map key).nodup (h.nodup _)

/-- Growing moves elements to other rows and loses none. -/
theorem find_grow (h : t.WellFormed key hash) (k : κ) :
    (t.grow key hash).find key hash k = t.find key hash k := by
  have hmod := @Nat.mod_pow_succ (hash k) 2 t.nbits
  have hgrow : (t.grow key hash).rowOf hash k = hash k % 2 ^ (t.nbits + 1) := rfl
  rw [find, row_grow h, hgrow]
  split
  next hr =>
    have hz : hash k / 2 ^ t.nbits % 2 = 0 := by
      rcases Nat.mod_two_eq_zero_or_one (hash k / 2 ^ t.nbits) with hz | hz
      · exact hz
      · rw [hz] at hmod
        omega
    rw [hz, Nat.mul_zero, Nat.add_zero] at hmod
    rw [hmod, List.find?_filter, find, rowOf]
    congr 1
    funext a
    by_cases hk : key a = k <;> simp [upper, hk, hz]
  next hr =>
    have hz : hash k / 2 ^ t.nbits % 2 = 1 := by
      rcases Nat.mod_two_eq_zero_or_one (hash k / 2 ^ t.nbits) with hz | hz
      · rw [hz] at hmod
        omega
      · exact hz
    rw [hz, Nat.mul_one] at hmod
    have hsub : hash k % 2 ^ (t.nbits + 1) - 2 ^ t.nbits = hash k % 2 ^ t.nbits := by omega
    rw [hsub, List.find?_filter, find, rowOf]
    congr 1
    funext a
    by_cases hk : key a = k <;> simp [upper, hk, hz]

theorem sum_filter (rows : List (List α)) (p : α → Bool) :
    ((rows.map (·.filter fun a => !p a)).map List.length).sum +
      ((rows.map (·.filter p)).map List.length).sum = (rows.map List.length).sum := by
  induction rows with
  | nil => rfl
  | cons l rows ih =>
    have hl := List.length_eq_length_filter_add (l := l) p
    simp only [List.map_cons, List.sum_cons]
    omega

omit [DecidableEq κ] in
theorem total_grow : (t.grow key hash).total = t.total := by
  rw [total, grow, List.map_append, List.sum_append, sum_filter, total]

theorem find_of_total (h : t.total = 0) (k : κ) : t.find key hash k = none := by
  rw [total, List.sum_eq_zero_iff_forall_eq_nat] at h
  rw [find, List.find?_eq_none]
  intro a ha
  rw [row, List.getD_eq_getElem?_getD] at ha
  cases hr : t.rows[t.rowOf hash k]? with
  | none =>
    rw [hr] at ha
    cases ha
  | some l =>
    rw [hr, Option.getD_some] at ha
    have hl := h l.length (List.mem_map_of_mem (List.mem_of_getElem? hr))
    rw [List.length_eq_zero_iff] at hl
    exact absurd ha (by simp [hl])

end

end Buckets

end QuicArt
