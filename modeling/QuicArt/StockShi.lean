import Mathlib.Data.List.Basic

namespace QuicArt

/-- An element of the hash, on the LRU list too unless its expiry is 0. -/
structure HashElem where
  key : List UInt8
  data : List UInt8
  expiry : Int
deriving DecidableEq

/-- The elements in the order of insertion, which is that of each bucket and of the LRU list. -/
abbrev StockSharedHash := List HashElem

namespace StockSharedHash

def deleteExpiredElements (now : Int) : StockSharedHash → StockSharedHash
  | [] => []
  | he :: hash =>
    if he.expiry = 0 then he :: deleteExpiredElements now hash
    else if he.expiry < now then deleteExpiredElements now hash
    else he :: hash

def lookup (hash : StockSharedHash) (now : Int) (key : List UInt8) : Option (List UInt8) :=
  ((hash.deleteExpiredElements now).find? (·.key = key)).map (·.data)

/-- A call; an insertion may run out of memory. -/
inductive Call where
  | insert (he : HashElem) (allocated : Bool)
  | lookup (key : List UInt8)
  | delete (key : List UInt8)

def call (hash : StockSharedHash) (now : Int) : Call → StockSharedHash
  | .insert he allocated =>
    if allocated then hash.deleteExpiredElements now ++ [he] else hash.deleteExpiredElements now
  | .lookup _ => hash.deleteExpiredElements now
  | .delete key => (hash.deleteExpiredElements now).eraseP (·.key = key)

def live (now : Int) (he : HashElem) : Bool := he.expiry = 0 || now ≤ he.expiry

/-- The items inserted and not deleted, whether expired or not. -/
def kept (items : List HashElem) (now : Int) : Call → List HashElem
  | .insert he allocated => if allocated then items ++ [he] else items
  | .lookup _ => items
  | .delete key => items.eraseP fun he => he.key = key && live now he

/-- A key is inserted again only after it expired or was deleted. -/
def Fresh (items : List HashElem) (now : Int) : Call → Prop
  | .insert he _ => ∀ it ∈ items, it.key = he.key → ¬ live now it
  | _ => True

/-- An insertion does not expire before an element that is on the LRU list. -/
def InOrder (hash : StockSharedHash) : Call → Prop
  | .insert he _ => ∀ it ∈ hash, it.expiry ≠ 0 → he.expiry ≠ 0 → it.expiry ≤ he.expiry
  | _ => True

/-- Calls with a clock that does not go back and that meet `ok`: the table and the items. -/
inductive Run (ok : StockSharedHash → Call → Prop) : Int → StockSharedHash → List HashElem → Prop
  | new (now : Int) : Run ok now [] []
  | call {hash : StockSharedHash} {c : Call} (h : Run ok t hash items) (ht : t ≤ now)
    (hf : Fresh items now c) (hok : ok hash c) : Run ok now (hash.call now c) (kept items now c)

/-- A lookup returns the data of the item of the key that has not expired. -/
def Serves (now : Int) (hash : StockSharedHash) (items : List HashElem) : Prop :=
  ∀ key, hash.lookup now key = ((items.filter (live now)).find? (·.key = key)).map (·.data)

def Sorted (hash : StockSharedHash) : Prop :=
  hash.Pairwise fun a b => a.expiry ≠ 0 → b.expiry ≠ 0 → a.expiry ≤ b.expiry

variable {hash : StockSharedHash}

theorem Sorted.deleteExpiredElements (h : Sorted hash) :
    hash.deleteExpiredElements now = hash.filter (live now) := by
  induction hash with
  | nil => rfl
  | cons he hash ih =>
    obtain ⟨hhe, hh⟩ := List.pairwise_cons.1 h
    rw [StockSharedHash.deleteExpiredElements, ih hh]
    split
    next h0 => rw [List.filter_cons_of_pos (by simp [live, h0])]
    next h0 =>
      split
      next hlt => rw [List.filter_cons_of_neg (by simp [live, h0, hlt])]
      next hle =>
        -- the first one that has not expired: what follows expires later
        refine (List.filter_eq_self.2 fun it hit => ?_).symm
        rcases List.mem_cons.1 hit with rfl | hit
        · simp [live, Int.not_lt.1 hle]
        · have := hhe it hit h0
          simp only [live, Bool.or_eq_true, decide_eq_true_eq]
          omega

theorem filter_live (h : t ≤ now) (l : List HashElem) :
    (l.filter (live t)).filter (live now) = l.filter (live now) := by
  rw [List.filter_filter]
  refine List.filter_congr fun he _ => ?_
  simp only [live, Bool.and_eq_left_iff_imp, Bool.or_eq_true, decide_eq_true_eq]
  omega

theorem Run.tracks (h : Run InOrder t hash items) :
    Sorted hash ∧ ∀ now, t ≤ now → hash.filter (live now) = items.filter (live now) := by
  induction h with
  | new => exact ⟨.nil, fun _ _ => rfl⟩
  | @call t items now hash c h ht hf hok ih =>
    obtain ⟨hs, hl⟩ := ih
    have hd : hash.deleteExpiredElements now = _ := hs.deleteExpiredElements
    have hk : ∀ n, now ≤ n → (hash.filter (live now)).filter (live n) = items.filter (live n) :=
      fun n hn => (filter_live hn hash).trans (hl n (by omega))
    have hs' : Sorted (hash.filter (live now)) := hs.sublist List.filter_sublist
    cases c with
    | insert he allocated =>
      simp only [StockSharedHash.call, kept, hd]
      split
      · refine ⟨List.pairwise_append.2 ⟨hs', by simp, fun a ha b hb => ?_⟩, fun n hn => ?_⟩
        · rw [List.mem_singleton.1 hb]
          exact hok a (List.mem_of_mem_filter ha)
        · rw [List.filter_append, List.filter_append, hk n hn]
      · exact ⟨hs', hk⟩
    | lookup key =>
      simp only [StockSharedHash.call, kept, hd]
      exact ⟨hs', hk⟩
    | delete key =>
      simp only [StockSharedHash.call, kept, hd]
      refine ⟨hs'.sublist List.eraseP_sublist, fun n hn => ?_⟩
      rw [hl now ht, List.eraseP_filter, filter_live hn]

/-- Insertions in the order of expiry: what a lookup returns is never expired, and is there. -/
theorem lookup_serves (h : Run InOrder t hash items) (hn : t ≤ now) : Serves now hash items := by
  intro key
  obtain ⟨hs, hl⟩ := h.tracks
  rw [lookup, hs.deleteExpiredElements, hl now hn]

/-- The first of two items has expired, the second has not. -/
theorem lookup_serves_second :
    Serves 6 [⟨[1], [7], 5⟩, ⟨[2], [8], 9⟩] [⟨[1], [7], 5⟩, ⟨[2], [8], 9⟩] ∧
      lookup [⟨[1], [7], 5⟩, ⟨[2], [8], 9⟩] 6 [1] = none ∧
      lookup [⟨[1], [7], 5⟩, ⟨[2], [8], 9⟩] 6 [2] = some [8] := by
  have h1 : Run InOrder 1 [⟨[1], [7], 5⟩] [⟨[1], [7], 5⟩] :=
    .call (c := .insert ⟨[1], [7], 5⟩ true) (.new 1) (Int.le_refl 1) (by simp [Fresh])
      (by simp [InOrder])
  have h2 := Run.call (c := .insert ⟨[2], [8], 9⟩ true) h1 (show (1 : Int) ≤ 2 by decide)
    (by simp [Fresh]) (by simp [InOrder])
  exact ⟨lookup_serves h2 (by decide), by decide, by decide⟩

/-- The item in front expires later: the one behind it is returned although it expired. -/
theorem lookup_expired : ∃ hash items, Run (fun _ _ => True) 1 hash items ∧
    ¬ Serves 3 hash items := by
  have h1 : Run (fun _ _ => True) 1 [⟨[1], [1], 9⟩] [⟨[1], [1], 9⟩] :=
    .call (c := .insert ⟨[1], [1], 9⟩ true) (.new 1) (Int.le_refl 1) (by simp [Fresh]) trivial
  have h2 := Run.call (c := .insert ⟨[2], [2], 2⟩ true) h1 (Int.le_refl 1) (by simp [Fresh]) trivial
  exact ⟨_, _, h2, fun h => absurd (h [2]) (by decide)⟩

end StockSharedHash
end QuicArt
