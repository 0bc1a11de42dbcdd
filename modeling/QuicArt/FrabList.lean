import Mathlib.Data.List.Basic

namespace QuicArt

/-- A buffer: `unread` is the bytes of `frab_buf` from `frab_off` to `frab_size`. -/
structure FrameBuf where
  size : Nat
  unread : List UInt8

/-- `cap` is what a buffer takes: `fl_buf_size` less the header, for which callers leave room. -/
structure FrabList where
  cap : Nat
  cap_pos : 0 < cap
  frabs : List FrameBuf := []
  flSize : UInt64 := 0

namespace FrameBuf

def new (p : List UInt8) : FrameBuf := ⟨p.length, p⟩

def append (f : FrameBuf) (p : List UInt8) : FrameBuf := ⟨f.size + p.length, f.unread ++ p⟩

def content (frabs : List FrameBuf) : List UInt8 := frabs.flatMap unread

/-- `frab_left_to_write` of the last buffer. -/
def room (cap : Nat) (frabs : List FrameBuf) : Nat :=
  (frabs.getLast?.map (cap - ·.size)).getD 0

def appendLast (frabs : List FrameBuf) (p : List UInt8) : List FrameBuf :=
  frabs.dropLast ++ (frabs.getLast?.map (·.append p)).toList

end FrameBuf

namespace FrabList
open FrameBuf

/-- The loop of `lsquic_frab_list_write`; `alloc k` is what the allocation number `k` gives. -/
def writeLoop (cap : Nat) (hc : 0 < cap) (frabs : List FrameBuf) (p : List UInt8)
    (alloc : Nat → Bool) : Bool × List FrameBuf :=
  if p = [] then (true, frabs)
  else if 0 < room cap frabs then
    writeLoop cap hc (appendLast frabs (p.take (room cap frabs))) (p.drop (room cap frabs)) alloc
  else if alloc 0 then
    writeLoop cap hc (frabs ++ [new (p.take cap)]) (p.drop cap) fun k => alloc (k + 1)
  else (false, frabs)
termination_by p.length
decreasing_by
  all_goals
    have := List.length_pos_iff.mpr ‹¬p = []›
    rw [List.length_drop]
    omega

def write (l : FrabList) (p : List UInt8) (alloc : Nat → Bool) : Bool × FrabList :=
  let r := writeLoop l.cap l.cap_pos l.frabs p alloc
  (r.1, { l with frabs := r.2, flSize := if r.1 then l.flSize + .ofNat p.length else l.flSize })

/-- The loop of `lsquic_frab_list_read`: a buffer that is not used up fills the destination. -/
def readLoop : List FrameBuf → Nat → List UInt8 × List FrameBuf
  | [], _ => ([], [])
  | f :: fs, n =>
    if n = 0 then ([], f :: fs)
    else if f.unread.length ≤ n then
      let r := readLoop fs (n - f.unread.length)
      (f.unread ++ r.1, r.2)
    else (f.unread.take n, ⟨f.size, f.unread.drop n⟩ :: fs)

def read (l : FrabList) (n : Nat) : List UInt8 × FrabList :=
  let r := readLoop l.frabs n
  (r.1, { l with frabs := r.2, flSize := l.flSize - .ofNat r.1.length })

def unread (l : FrabList) : List UInt8 := content l.frabs

def Sized (l : FrabList) : Prop := l.flSize = .ofNat l.unread.length

def Granted (cap room : Nat) (p : List UInt8) (alloc : Nat → Bool) : Prop :=
  ∀ k, room + k * cap < p.length → alloc k

/-- An allocation that fails is the first one, with no room in the last buffer. -/
def FailsFirst (l : FrabList) (p : List UInt8) (alloc : Nat → Bool) : Prop :=
  Granted l.cap (room l.cap l.frabs) p alloc ∨ room l.cap l.frabs = 0 ∧ alloc 0 = false

/-- A write is accepted as a whole, or it leaves the bytes and their number alone. -/
def WriteOk (l : FrabList) (p : List UInt8) (r : Bool × FrabList) : Prop :=
  if r.1 then r.2.unread = l.unread ++ p ∧ r.2.Sized
  else r.2.unread = l.unread ∧ r.2.flSize = l.flSize

/-- The runs in which no write fails after it has stored bytes: the list, what was read and the
bytes of the successful writes. -/
inductive Run : FrabList → List UInt8 → List UInt8 → Prop
  | init (cap : Nat) (hc : 0 < cap) : Run { cap := cap, cap_pos := hc } [] []
  | write : Run l r w → l.FailsFirst p alloc →
      Run (l.write p alloc).2 r (w ++ if (l.write p alloc).1 then p else [])
  | read (n : Nat) : Run l r w → Run (l.read n).2 (r ++ (l.read n).1) w

variable {l : FrabList} {cap : Nat} {p : List UInt8} {frabs : List FrameBuf}

theorem appendLast_spec (h : 0 < room cap frabs) (p : List UInt8) :
    content (appendLast frabs p) = content frabs ++ p ∧
      room cap (appendLast frabs p) = room cap frabs - p.length := by
  rcases frabs.eq_nil_or_concat with rfl | ⟨fs, f, rfl⟩
  · cases h
  · simp [appendLast, content, append, room, Nat.sub_add_eq]

theorem new_spec (frabs : List FrameBuf) (p : List UInt8) :
    content (frabs ++ [new p]) = content frabs ++ p ∧
      room cap (frabs ++ [new p]) = cap - p.length := by
  simp [content, new, room]

theorem granted_fill (room : Nat) (p : List UInt8) (alloc : Nat → Bool) :
    Granted cap (room - (p.take room).length) (p.drop room) alloc ↔ Granted cap room p alloc := by
  apply forall_congr'
  intro k
  rw [List.length_take, List.length_drop]
  exact imp_congr_left (by omega)

theorem granted_next (h0 : alloc 0 = true) :
    Granted cap (cap - (p.take cap).length) (p.drop cap) (fun k => alloc (k + 1)) ↔
      Granted cap 0 p alloc := by
  apply Iff.trans _ Nat.and_forall_add_one
  rw [and_iff_right fun _ => h0]
  apply forall_congr'
  intro k
  rw [List.length_take, List.length_drop, Nat.succ_mul]
  exact imp_congr_left (by omega)

theorem writeLoop_spec (hc : 0 < cap) (frabs : List FrameBuf) (p : List UInt8)
    (alloc : Nat → Bool) :
    let r := writeLoop cap hc frabs p alloc
    (r.1 = true ↔ Granted cap (room cap frabs) p alloc) ∧
      ∃ q, content r.2 = content frabs ++ q ∧ (r.1 = true → q = p) ∧
        (r.1 = false → (q = [] ↔ room cap frabs = 0 ∧ alloc 0 = false)) := by
  fun_induction writeLoop cap hc frabs p alloc with
  | case1 frabs alloc => exact ⟨by simp [Granted], [], by simp⟩
  | case2 frabs p alloc hp hr ih =>
    obtain ⟨hg, q, hq, ht, -⟩ := ih
    obtain ⟨ha, hroom⟩ := appendLast_spec hr (p.take (room cap frabs))
    rw [hroom, granted_fill] at hg
    rw [ha, List.append_assoc] at hq
    refine ⟨hg, _, hq, ?_, ?_⟩
    · intro h
      rw [ht h, List.take_append_drop]
    · simp [hp, Nat.ne_of_gt hr]
  | case3 frabs p alloc hp hr h0 ih =>
    obtain ⟨hg, q, hq, ht, -⟩ := ih
    obtain ⟨ha, hroom⟩ := @new_spec cap frabs (p.take cap)
    rw [hroom, granted_next h0, ← Nat.eq_zero_of_not_pos hr] at hg
    rw [ha, List.append_assoc] at hq
    refine ⟨hg, _, hq, ?_, ?_⟩
    · intro h
      rw [ht h, List.take_append_drop]
    · simp [hp, Nat.ne_of_gt hc, h0]
  | case4 frabs p alloc hp hr h0 =>
    have hr := Nat.eq_zero_of_not_pos hr
    refine ⟨iff_of_false nofun fun h => h0 (h 0 ?_), [], by simp [hr, h0]⟩
    simpa [hr] using List.length_pos_iff.mpr hp

theorem readLoop_spec (frabs : List FrameBuf) (n : Nat) :
    (readLoop frabs n).1 = (content frabs).take n ∧
      content (readLoop frabs n).2 = (content frabs).drop n := by
  fun_induction readLoop frabs n with
  | case1 n => simp [content]
  | case2 f fs => simp
  | case3 f fs n hn hle r ih =>
    simp only [content, List.flatMap_cons, List.take_append, List.drop_append,
      List.take_of_length_le hle, List.drop_of_length_le hle, r, List.nil_append] at ih ⊢
    exact ⟨by rw [ih.1], ih.2⟩
  | case4 f fs n hn hlt =>
    have hlt := Nat.le_of_not_ge hlt
    simp [content, List.take_append_of_le_length hlt, List.drop_append_of_le_length hlt]

theorem write_ok_iff (h : l.Sized) (p : List UInt8) (alloc : Nat → Bool) :
    l.WriteOk p (l.write p alloc) ↔ l.FailsFirst p alloc := by
  obtain ⟨hg, q, hq, ht, hf⟩ := writeLoop_spec l.cap_pos l.frabs p alloc
  cases hr : (writeLoop l.cap l.cap_pos l.frabs p alloc).1 with
  | true =>
    refine iff_of_true ?_ (.inl (hg.mp hr))
    simp only [WriteOk, write, hr, if_true, unread, Sized] at h ⊢
    rw [hq, ht hr, List.length_append, UInt64.ofNat_add, ← h]
    exact ⟨rfl, rfl⟩
  | false =>
    rw [hr] at hg
    simp [WriteOk, write, hr, unread, hq, FailsFirst, hf hr, ← hg]

theorem Sized.read (h : l.Sized) (n : Nat) : (l.read n).2.Sized := by
  obtain ⟨h1, h2⟩ := readLoop_spec l.frabs n
  have hlen := congrArg List.length (List.take_append_drop n l.unread)
  rw [List.length_append] at hlen
  simp only [Sized, FrabList.read, unread] at h hlen ⊢
  rw [h1, h2, h, ← hlen, UInt64.ofNat_add, UInt64.add_comm, UInt64.add_sub_cancel]

/-- Over any run the list is a queue of bytes, if a write fails at its first allocation or not at
all. -/
theorem frab_fifo (h : Run l r w) :
    r ++ l.unread = w ∧ l.Sized ∧ (∀ n, (l.read n).1 = l.unread.take n) ∧
      ∀ p alloc, l.WriteOk p (l.write p alloc) ↔ l.FailsFirst p alloc := by
  suffices hs : r ++ l.unread = w ∧ l.Sized from
    ⟨hs.1, hs.2, fun n => (readLoop_spec l.frabs n).1, write_ok_iff hs.2⟩
  induction h with
  | init cap hc => exact ⟨rfl, rfl⟩
  | @write l r w p alloc _ hf ih =>
    obtain ⟨rfl, hs⟩ := ih
    have hw := (write_ok_iff hs p alloc).mpr hf
    unfold WriteOk at hw
    split at hw <;> rename_i hr
    · rw [hw.1, if_pos hr, List.append_assoc]
      exact ⟨rfl, hw.2⟩
    · rw [hw.1, if_neg hr, List.append_nil, Sized, hw.1, hw.2]
      exact ⟨rfl, hs⟩
  | read n _ ih =>
    obtain ⟨rfl, hs⟩ := ih
    refine ⟨?_, hs.read n⟩
    simp [FrabList.read, unread, readLoop_spec]

/-- Three bytes are written into buffers of two, and one of them is read. -/
theorem frab_fifo_three :
    let l := (⟨2, by decide, [], 0⟩ : FrabList).write [7, 8, 9] fun _ => true
    l.1 = true ∧ l.2.frabs.length = 2 ∧
      (l.2.read 1).1 ++ (l.2.read 1).2.unread = [7, 8, 9] ∧ (l.2.read 1).2.Sized := by
  intro l
  have hw : l.1 = true ∧ l.2.frabs.length = 2 := by
    simp [l, write, writeLoop, room, new]
  obtain ⟨hr, hs, -⟩ := frab_fifo (.read 1 (.write (.init 2 (by decide))
    (.inl fun _ _ => rfl : FailsFirst _ [7, 8, 9] fun _ => true)))
  refine ⟨hw.1, hw.2, ?_, hs⟩
  simpa [l, hw.1] using hr

/-- A write of 233 bytes whose second allocation fails leaves the first 232 in the list. -/
theorem write_fails_late :
    let l : FrabList := ⟨232, by decide, [], 0⟩
    ¬ l.WriteOk (.replicate 233 0) (l.write (.replicate 233 0) (· = 0)) := by
  intro l h
  cases (@write_ok_iff l rfl _ _).mp h with
  | inl hg => cases hg 1 (by rw [List.length_replicate]; decide)
  | inr h0 => cases h0.2

end FrabList
end QuicArt
