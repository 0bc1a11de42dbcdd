import Mathlib.Data.List.Induction
import Mathlib.Data.List.Nodup
import Mathlib.Data.List.TakeDrop

namespace QuicArt

inductive PurgaType
  | connDeleted | connDrain | cidRetired
  deriving DecidableEq, Repr

/-- The arguments of `lsquic_purga_add`. The clock counts microseconds and does not wrap. -/
structure PurgaAdd where
  cid : List UInt8
  peerCtx : Nat
  type : PurgaType
  now : Nat

/-- A page: `mask` is the bits that are set, and an element has the time it was added at, which the
source does not keep. -/
structure PurgaPage where
  id : Nat
  last : Nat := 0
  mask : List Nat := []
  els : List PurgaAdd := []

def elsPerPage : Nat := 273

/-- The six hash functions of the filter: 13 bits each, `set` and `bit` together. -/
def bloomBits (hash : UInt64) : List Nat :=
  (List.range 6).map fun i => hash.toNat >>> (10 * i) % 8192

namespace PurgaPage

def full (page : PurgaPage) : Bool := decide (elsPerPage ≤ page.els.length)

def put (hash : List UInt8 → UInt64) (page : PurgaPage) (a : PurgaAdd) : PurgaPage where
  id := page.id
  last := if elsPerPage ≤ page.els.length + 1 then a.now else page.last
  mask := page.mask ++ bloomBits (hash a.cid)
  els := page.els ++ [a]

def hits (hash : List UInt8 → UInt64) (page : PurgaPage) (cid : List UInt8) : Bool :=
  (bloomBits (hash cid)).all page.mask.contains

end PurgaPage

/-- The pages, and what was reported to `pur_remove_cids`. -/
structure Purga where
  minLife : Nat
  pages : List PurgaPage := []
  nextId : Nat := 0
  removed : List PurgaAdd := []

namespace Purga

def held (p : Purga) : List PurgaAdd := p.pages.flatMap (·.els)

/-- `purga_get_page`: the pages before it, and the page. -/
def getPage (p : Purga) : List PurgaPage × PurgaPage :=
  match p.pages.getLast? with
  | some page => if page.full then (p.pages, { id := p.nextId }) else (p.pages.dropLast, page)
  | none => (p.pages, { id := p.nextId })

/-- How many pages have expired; the last one, which was added to, never has. -/
def nExpired (minLife now : Nat) : List PurgaPage → Nat
  | page :: next :: pages =>
    if page.full ∧ page.last + minLife < now then nExpired minLife now (next :: pages) + 1 else 0
  | _ => 0

def insert (hash : List UInt8 → UInt64) (p : Purga) (a : PurgaAdd) : Purga :=
  { p with
    pages := p.getPage.1 ++ [p.getPage.2.put hash a]
    nextId := p.nextId + 1 }

def expire (p : Purga) (now : Nat) : Purga :=
  let n := nExpired p.minLife now p.pages
  { p with
    pages := p.pages.drop n
    removed := p.removed ++ (p.pages.take n).flatMap (·.els) }

/-- `lsquic_purga_add`, with the page and the index of the new element. -/
def add (hash : List UInt8 → UInt64) (p : Purga) (a : PurgaAdd) : Purga × Nat × Nat :=
  ((p.insert hash a).expire a.now, p.getPage.2.id, p.getPage.2.els.length)

def contains (hash : List UInt8 → UInt64) (p : Purga) (cid : List UInt8) : Option (Nat × Nat) :=
  p.pages.findSome? fun page =>
    if page.hits hash cid then (page.els.findIdx? (·.cid == cid)).map (page.id, ·) else none

def destroy (p : Purga) : Purga := { p with pages := [], removed := p.removed ++ p.held }

def run (hash : List UInt8 → UInt64) (minLife : Nat) (l : List PurgaAdd) : Purga :=
  l.foldl (fun p a => (p.add hash a).1) { minLife }

def Points (p : Purga) (ptr : Nat × Nat) (a : PurgaAdd) : Prop :=
  ∃ page ∈ p.pages, page.id = ptr.1 ∧ page.els[ptr.2]? = some a

structure PageOk (hash : List UInt8 → UInt64) (page : PurgaPage) : Prop where
  filter : ∀ e ∈ page.els, bloomBits (hash e.cid) ⊆ page.mask
  last : page.full = true → ∀ e ∈ page.els, e.now ≤ page.last
  filled : page.full = true → ∃ e ∈ page.els, e.now = page.last

/-- What was added is held or has been reported, and only what is old has been. -/
structure Keeps (hash : List UInt8 → UInt64) (l : List PurgaAdd) (p : Purga) : Prop where
  log : p.removed ++ p.held = l
  nodup : (p.pages.map (·.id)).Nodup
  ids : ∀ page ∈ p.pages, page.id < p.nextId
  ok : ∀ page ∈ p.pages, PageOk hash page
  full : ∀ page ∈ p.pages.dropLast, page.full = true
  old : ∀ e ∈ p.removed, ∃ b ∈ l, e.now + p.minLife < b.now

section
variable {hash : List UInt8 → UInt64} {p : Purga} {page : PurgaPage} {l : List PurgaAdd}
  {a e : PurgaAdd} {cid : List UInt8}

theorem PageOk.put (h : PageOk hash page) (hl : ∀ e ∈ page.els, e.now ≤ a.now) :
    PageOk hash (page.put hash a) := by
  constructor
  · rw [PurgaPage.put, List.forall_mem_append, List.forall_mem_singleton]
    exact ⟨fun e he => List.subset_append_of_subset_left _ (h.filter e he),
      List.subset_append_right ..⟩
  · intro hf
    have hf : elsPerPage ≤ page.els.length + 1 := by simpa [PurgaPage.full, PurgaPage.put] using hf
    rw [PurgaPage.put, if_pos hf, List.forall_mem_append, List.forall_mem_singleton]
    exact ⟨hl, Nat.le_refl _⟩
  · intro hf
    have hf : elsPerPage ≤ page.els.length + 1 := by simpa [PurgaPage.full, PurgaPage.put] using hf
    exact ⟨a, List.mem_append_right _ (.head _), (if_pos hf).symm⟩

theorem getPage_cases (p : Purga) :
    p.pages = p.getPage.1 ++ [p.getPage.2] ∨ p.getPage = (p.pages, { id := p.nextId }) ∧
      ∀ page ∈ p.pages.getLast?, page.full = true := by
  rw [getPage]
  cases hl : p.pages.getLast? with
  | none => exact .inr ⟨rfl, by simp⟩
  | some page =>
    dsimp only
    split
    next hf => exact .inr ⟨rfl, by simpa using hf⟩
    · obtain ⟨pages, hp⟩ := List.getLast?_eq_some_iff.1 hl
      exact .inl (by simp [hp])

theorem Keeps.getPage (hk : Keeps hash l p) :
    Keeps hash l { p with pages := p.getPage.1 ++ [p.getPage.2], nextId := p.nextId + 1 } := by
  have hids : ∀ page ∈ p.pages, page.id < p.nextId + 1 := fun page h =>
    Nat.lt_succ_of_lt (hk.ids page h)
  rcases p.getPage_cases with hp | ⟨hg, hf⟩
  · rw [← hp]
    exact { hk with ids := hids }
  · have hnew : p.nextId ∉ p.pages.map (·.id) := fun h => by
      obtain ⟨page, hp, he⟩ := List.mem_map.1 h
      exact Nat.ne_of_lt (hk.ids page hp) he
    rw [hg]
    constructor
    · simpa [held] using hk.log
    · simpa using hk.nodup.concat hnew
    · rw [List.forall_mem_append, List.forall_mem_singleton]
      exact ⟨hids, Nat.lt_succ_self _⟩
    · rw [List.forall_mem_append, List.forall_mem_singleton]
      exact ⟨hk.ok, by simp, by simp, by simp [PurgaPage.full, elsPerPage]⟩
    · intro page hp
      rw [List.dropLast_concat] at hp
      cases hl : p.pages.getLast? with
      | none => simp [List.getLast?_eq_none_iff.1 hl] at hp
      | some last =>
        rw [← List.dropLast_append_getLast? last hl] at hp
        rcases List.mem_append.1 hp with hp | hp
        · exact hk.full page hp
        · exact List.mem_singleton.1 hp ▸ hf last hl
    · exact hk.old

theorem Keeps.insert (hk : Keeps hash l p) (hl : ∀ b ∈ l, b.now ≤ a.now) :
    Keeps hash (l ++ [a]) (p.insert hash a) := by
  obtain ⟨hlog, hnodup, hids, hok, hfull, hold⟩ := hk.getPage
  rw [Purga.insert]
  generalize p.getPage.1 = pages, p.getPage.2 = page at *
  have hin : ∀ e ∈ page.els, e ∈ l := fun e he => by simp [← hlog, held, he]
  constructor
  · simpa [held, PurgaPage.put] using congrArg (· ++ [a]) hlog
  · simpa [PurgaPage.put] using hnodup
  · rw [List.forall_mem_append, List.forall_mem_singleton] at hids ⊢
    exact hids
  · rw [List.forall_mem_append, List.forall_mem_singleton] at hok ⊢
    exact hok.imp_right fun h => h.put fun e he => hl e (hin e he)
  · rw [List.dropLast_concat] at hfull ⊢
    exact hfull
  · exact fun e he => (hold e he).imp fun b hb => ⟨List.mem_append_left _ hb.1, hb.2⟩

theorem nExpired_old (pages : List PurgaPage) :
    ∀ page ∈ pages.take (nExpired n now pages), page.full = true ∧ page.last + n < now := by
  induction pages with
  | nil => simp
  | cons page pages ih =>
    cases pages with
    | nil => simp [nExpired]
    | cons next pages =>
      rw [nExpired]
      split
      next h =>
        rw [List.take_succ_cons, List.forall_mem_cons]
        exact ⟨h, ih⟩
      · simp

/-- Behind the expired pages comes one that has not expired, or the last one. -/
theorem nExpired_stops {pages : List PurgaPage}
    (h : pages.drop (nExpired n now pages) = page :: rest) (hr : rest ≠ [])
    (hf : page.full = true) : now ≤ page.last + n := by
  induction pages with
  | nil => simp at h
  | cons page' pages ih =>
    cases pages with
    | nil =>
      cases h
      exact absurd rfl hr
    | cons next pages =>
      rw [nExpired] at h
      split at h
      · exact ih h
      next hne =>
        cases h
        exact Nat.le_of_not_lt fun hlt => hne ⟨hf, hlt⟩

theorem Keeps.expire (hk : Keeps hash l p) (ha : a ∈ l) : Keeps hash l (p.expire a.now) := by
  have hdrop : ∀ page ∈ (p.expire a.now).pages, page ∈ p.pages := fun page h =>
    List.mem_of_mem_drop h
  constructor
  · rw [← hk.log, held, held, Purga.expire, List.append_assoc, ← List.flatMap_append,
      List.take_append_drop]
  · exact hk.nodup.sublist ((List.drop_sublist _ _).map _)
  · exact fun page h => hk.ids page (hdrop page h)
  · exact fun page h => hk.ok page (hdrop page h)
  · intro page h
    rw [Purga.expire, List.dropLast_drop_eq_drop_dropLast] at h
    exact hk.full page (List.mem_of_mem_drop h)
  · intro e he
    rcases List.mem_append.1 he with he | he
    · exact hk.old e he
    · obtain ⟨page, hp, he⟩ := List.mem_flatMap.1 he
      obtain ⟨hf, hlt⟩ := nExpired_old p.pages page hp
      have hle := (hk.ok page (List.mem_of_mem_take hp)).last hf e he
      exact ⟨a, ha, by show e.now + p.minLife < a.now; omega⟩

/-- A page that is left and is not the last one has an element that is not old. -/
theorem Keeps.fresh (hk : Keeps hash l p) (hl : l.Pairwise fun a b => a.now ≤ b.now) (ha : a ∈ l)
    (hp : page ∈ (p.expire a.now).pages.dropLast) :
    page.full = true ∧ ∃ e ∈ page.els, a.now ≤ e.now + p.minLife := by
  obtain ⟨hlog, -, -, hok, hfull, -⟩ := hk.expire ha
  have hfilled : ∀ q ∈ (p.expire a.now).pages.dropLast, ∃ e ∈ q.els, e.now = q.last := fun q hq =>
    (hok q (List.dropLast_subset _ hq)).filled (hfull q hq)
  refine ⟨hfull page hp, ?_⟩
  cases hpages : (p.expire a.now).pages with
  | nil => simp [hpages] at hp
  | cons first rest =>
    have hr : rest ≠ [] := by
      rintro rfl
      simp [hpages] at hp
    rw [held, hpages, List.flatMap_cons] at hlog
    rw [hpages, List.dropLast_cons_of_ne_nil hr] at hp hfull hfilled
    obtain ⟨x, hx, hxl⟩ := hfilled first (.head _)
    have hstop : a.now ≤ first.last + p.minLife := nExpired_stops hpages hr (hfull first (.head _))
    rcases List.mem_cons.1 hp with rfl | hp'
    · exact ⟨x, hx, hxl ▸ hstop⟩
    · obtain ⟨e, he, -⟩ := hfilled page hp
      -- What is held stands in the order of its times.
      have hheld := (List.pairwise_append.1 (hlog ▸ hl)).2.1
      have hle := (List.pairwise_append.1 hheld).2.2 x hx e
        (List.mem_flatMap.2 ⟨page, List.dropLast_subset _ hp', he⟩)
      exact ⟨e, he, by omega⟩

theorem Points.insert (h : p.Points ptr e) (hash : List UInt8 → UInt64) (a : PurgaAdd) :
    (p.insert hash a).Points ptr e := by
  obtain ⟨page, hp, hid, he⟩ := h
  rcases p.getPage_cases with hpages | ⟨hg, -⟩
  · rw [hpages] at hp
    rcases List.mem_append.1 hp with hp | hp
    · exact ⟨page, List.mem_append_left _ hp, hid, he⟩
    · obtain rfl := List.mem_singleton.1 hp
      refine ⟨p.getPage.2.put hash a, List.mem_append_right _ (.head _), hid, ?_⟩
      rw [PurgaPage.put, List.getElem?_append_left (List.getElem?_eq_some_iff.1 he).1, he]
  · refine ⟨page, ?_, hid, he⟩
    rw [Purga.insert, hg]
    exact List.mem_append_left _ hp

theorem Points.expire (h : p.Points ptr e) (hk : Keeps hash l p) (ha : a.now ≤ e.now + p.minLife) :
    (p.expire a.now).Points ptr e := by
  obtain ⟨page, hp, hid, he⟩ := h
  rw [← List.take_append_drop (nExpired p.minLife a.now p.pages) p.pages] at hp
  rcases List.mem_append.1 hp with hp | hp
  · obtain ⟨hf, hlt⟩ := nExpired_old p.pages page hp
    have hle := (hk.ok page (List.mem_of_mem_take hp)).last hf e (List.mem_of_getElem? he)
    omega
  · exact ⟨page, hp, hid, he⟩

theorem points_of_contains (h : p.contains hash cid = some ptr) :
    ∃ b ∈ p.held, p.Points ptr b ∧ b.cid = cid := by
  obtain ⟨page, hp, h⟩ := List.exists_of_findSome?_eq_some h
  split at h
  · obtain ⟨i, hi, rfl⟩ := Option.map_eq_some_iff.1 h
    obtain ⟨hlt, heq, -⟩ := List.findIdx?_eq_some_iff_getElem.1 hi
    have hb := List.getElem_mem hlt
    refine ⟨page.els[i], List.mem_flatMap.2 ⟨page, hp, hb⟩, ⟨page, hp, rfl, ?_⟩, by simpa using heq⟩
    exact List.getElem?_eq_getElem hlt
  · exact absurd h (by simp)

theorem Keeps.contains_isSome (hk : Keeps hash l p) (ha : a ∈ p.held) :
    ∃ ptr, p.contains hash a.cid = some ptr := by
  obtain ⟨page, hp, ha⟩ := List.mem_flatMap.1 ha
  rw [← Option.isSome_iff_exists, contains, List.findSome?_isSome_iff]
  refine ⟨page, hp, ?_⟩
  have hhits : page.hits hash a.cid = true :=
    List.all_eq_true.2 fun b hb => List.contains_iff_mem.2 ((hk.ok page hp).filter a ha hb)
  rw [if_pos hhits, Option.isSome_map, List.findIdx?_isSome, List.any_eq_true]
  exact ⟨a, ha, by simp⟩

theorem run_append (l : List PurgaAdd) (a : PurgaAdd) :
    run hash n (l ++ [a]) = ((run hash n l).add hash a).1 := by
  rw [run, List.foldl_append]
  rfl

theorem run_minLife (l : List PurgaAdd) : (run hash n l).minLife = n := by
  induction l using List.reverseRecOn with
  | nil => rfl
  | append_singleton l a ih =>
    rw [run_append]
    exact ih

theorem run_keeps (hl : l.Pairwise fun a b => a.now ≤ b.now) : Keeps hash l (run hash n l) := by
  induction l using List.reverseRecOn with
  | nil => exact ⟨rfl, List.nodup_nil, by simp [run], by simp [run], by simp [run], by simp [run]⟩
  | append_singleton l a ih =>
    obtain ⟨hl, -, hle⟩ := List.pairwise_append.1 hl
    rw [run_append]
    exact ((ih hl).insert fun b hb => hle b hb a (.head _)).expire (by simp)

theorem run_fresh (hl : l.Pairwise fun a b => a.now ≤ b.now)
    (hp : page ∈ (run hash n l).pages.dropLast) :
    page.full = true ∧ ∃ e ∈ page.els, ∀ b ∈ l, b.now ≤ e.now + n := by
  rcases List.eq_nil_or_concat l with rfl | ⟨l', a, rfl⟩
  · simp [run] at hp
  · rw [List.concat_eq_append] at hl hp ⊢
    obtain ⟨hl', -, hle⟩ := List.pairwise_append.1 hl
    have hlast : ∀ b ∈ l', b.now ≤ a.now := fun b hb => hle b hb a (.head _)
    rw [run_append] at hp
    obtain ⟨hf, e, he, hn⟩ := ((run_keeps hl').insert hlast).fresh hl (by simp) hp
    rw [insert, run_minLife] at hn
    refine ⟨hf, e, he, ?_⟩
    rw [List.forall_mem_append, List.forall_mem_singleton]
    exact ⟨fun b hb => Nat.le_trans (hlast b hb) hn, hn⟩

theorem run_append_points (hl : (l ++ [a]).Pairwise fun a b => a.now ≤ b.now)
    (h : ((run hash n l).insert hash a).Points ptr e) (ha : a.now ≤ e.now + n) :
    (run hash n (l ++ [a])).Points ptr e := by
  obtain ⟨hl, -, hle⟩ := List.pairwise_append.1 hl
  rw [run_append]
  exact h.expire ((run_keeps hl).insert fun b hb => hle b hb a (.head _))
    (by rwa [insert, run_minLife])

theorem run_points (hl : (l₁ ++ a :: l₂).Pairwise fun a b => a.now ≤ b.now)
    (hn : ∀ b ∈ l₂, b.now < a.now + n) :
    (run hash n (l₁ ++ a :: l₂)).Points ((run hash n l₁).add hash a).2 a := by
  induction l₂ using List.reverseRecOn with
  | nil =>
    refine run_append_points hl ⟨_, List.mem_append_right _ (.head _), rfl, ?_⟩
      (Nat.le_add_right ..)
    simp [PurgaPage.put, add]
  | append_singleton l₂ b ih =>
    rw [← List.cons_append, ← List.append_assoc] at hl ⊢
    have h := ih (List.pairwise_append.1 hl).1 fun b hb => hn b (List.mem_append_left _ hb)
    exact run_append_points hl (h.insert hash b) (Nat.le_of_lt (hn b (by simp)))

/-- What was added within the lifetime is found where it was put, nothing else is, and each
addition is reported once: with its page, as soon as nothing in a full page is recent. -/
theorem purga_remembers (hash : List UInt8 → UInt64) (n : Nat) (l : List PurgaAdd)
    (hl : l.Pairwise fun a b => a.now ≤ b.now) :
    (∀ a ∈ l, ∀ now, (∀ b ∈ l, b.now ≤ now) → now < a.now + n → ∃ ptr b,
      (run hash n l).contains hash a.cid = some ptr ∧ (run hash n l).Points ptr b ∧ b ∈ l ∧
        b.cid = a.cid) ∧
    (∀ cid ptr, (run hash n l).contains hash cid = some ptr →
      ∃ b ∈ (run hash n l).held, (run hash n l).Points ptr b ∧ b.cid = cid) ∧
    (∀ l₁ a l₂, l = l₁ ++ a :: l₂ → (∀ b ∈ l₂, b.now < a.now + n) →
      (run hash n l).Points ((run hash n l₁).add hash a).2 a) ∧
    ((run hash n l).pages.map (·.id)).Nodup ∧
    (run hash n l).removed ++ (run hash n l).held = l ∧
    (∀ a ∈ (run hash n l).removed, ∃ b ∈ l, a.now + n < b.now) ∧
    (∀ page ∈ (run hash n l).pages.dropLast, page.full = true ∧
      ∃ e ∈ page.els, ∀ b ∈ l, b.now ≤ e.now + n) ∧
    (run hash n l).destroy.removed = l := by
  have hk : Keeps hash l (run hash n l) := run_keeps hl
  have hold : ∀ a ∈ (run hash n l).removed, ∃ b ∈ l, a.now + n < b.now := by
    simpa only [run_minLife] using hk.old
  refine ⟨?_, fun cid ptr => points_of_contains, ?_, hk.nodup, hk.log, hold,
    fun page => run_fresh hl, hk.log⟩
  · intro a ha now hnow hlt
    have hheld : a ∈ (run hash n l).held := by
      rw [← hk.log] at ha
      refine (List.mem_append.1 ha).resolve_left fun hr => ?_
      obtain ⟨b, hb, hlt'⟩ := hold a hr
      have := hnow b hb
      omega
    obtain ⟨ptr, hptr⟩ := hk.contains_isSome hheld
    obtain ⟨b, hb, hp, hcid⟩ := points_of_contains hptr
    refine ⟨ptr, b, hptr, hp, ?_, hcid⟩
    rw [← hk.log]
    exact List.mem_append_right _ hb
  · rintro l₁ a l₂ rfl hn
    exact run_points hl hn

/-- The first page is filled, and reported when a second one is begun a lifetime later. -/
theorem purga_remembers_second_page :
    let l := List.replicate 273 ⟨[1], 0, .connDrain, 5⟩ ++ [⟨[2], 1, .cidRetired, 36⟩]
    (run (fun _ => 0) 30 l).removed.length = 273 ∧
      ∃ ptr b, (run (fun _ => 0) 30 l).contains (fun _ => 0) [2] = some ptr ∧
        (run (fun _ => 0) 30 l).Points ptr b ∧ b ∈ l ∧ b.cid = [2] := by
  intro l
  have hl : l.Pairwise fun a b => a.now ≤ b.now := by decide +kernel
  refine ⟨by decide +kernel, ?_⟩
  exact (purga_remembers (fun _ => 0) 30 l hl).1 ⟨[2], 1, .cidRetired, 36⟩
    (List.mem_append_right _ (.head _)) 36 (by decide +kernel) (by decide)

end

end Purga

end QuicArt
