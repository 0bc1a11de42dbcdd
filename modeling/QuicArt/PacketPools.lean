import Mathlib.Data.List.Basic
import Mathlib.Logic.Function.Basic

namespace QuicArt

/-- The three common MTUs less `GQUIC_MIN_PACKET_OVERHEAD`, and two larger sizes. -/
def packetOutSizes : Nat → Nat
  | 0 => 1280 - 14
  | 1 => 1350 - 14
  | 2 => 1370 - 14
  | 3 => 4096
  | _ => 65535

def packetOutIndex (size : Nat) : Nat := (List.range 4).countP fun i => packetOutSizes i < size

/-- `struct pool_stats`; `objsOut` is to be read modulo `2 ^ 32`. -/
structure PoolStats where
  calls : Nat := 0
  max : Nat := 0
  maxAvg : Nat := 0
  maxVar : Nat := 0
  objsAll : Nat := 0
  objsOut : Int := 0

namespace PoolStats

def out (p : PoolStats) : Nat := (p.objsOut % 4294967296).toNat

def sampleMax (p : PoolStats) : PoolStats :=
  let diff := if p.max < p.maxAvg then p.maxAvg - p.max else p.max - p.maxAvg
  { p with
    maxVar := if p.maxAvg ≠ 0 then p.maxVar - p.maxVar / 4 + diff / 4 else p.max / 2
    maxAvg := if p.maxAvg ≠ 0 then p.maxAvg - p.maxAvg / 8 + p.max / 8 else p.max
    calls := 0
    max := p.out }

def countCall (p : PoolStats) : PoolStats :=
  let p := { p with calls := p.calls + 1 }
  if p.calls % 1024 = 0 then p.sampleMax else p

def allocated (p : PoolStats) (new : Nat) : PoolStats :=
  let p := { p with objsOut := p.objsOut + 1, objsAll := p.objsAll + new }
  countCall { p with max := if p.max < p.out then p.out else p.max }

def freed (p : PoolStats) : PoolStats := countCall { p with objsOut := p.objsOut - 1 }

end PoolStats

/-- A packet with `po_n_alloc`, the size of its buffer and the class the buffer was taken from. -/
structure PooledPacket where
  nAlloc : Nat
  buf : Nat
  taken : Nat
  deriving DecidableEq

/-- The part of `struct lsquic_mm` for outgoing packets: the sizes of the free buffers. -/
structure PacketPools where
  bufs : Nat → List Nat := fun _ => []
  stats : Nat → PoolStats := fun _ => {}

namespace PacketPools

/-- The loop of `maybe_shrink_packet_out_bufs`: the buffers and `ps_objs_all`. -/
def shrinkLoop (nToLeave : Nat) : List Nat → Nat → List Nat × Nat
  | [], all => ([], all)
  | b :: bs, all => if nToLeave < all then shrinkLoop nToLeave bs (all - 1) else (b :: bs, all)

def maybeShrink (m : PacketPools) (idx : Nat) : PacketPools :=
  let p := m.stats idx
  if p.maxAvg * 4 < p.objsAll then
    let r := shrinkLoop (p.objsAll / 2) (m.bufs idx) p.objsAll
    ⟨Function.update m.bufs idx r.1, Function.update m.stats idx { p with objsAll := r.2 }⟩
  else m

/-- New buffers and statistics of a class, and a look at whether it should shrink. -/
def account (m : PacketPools) (idx : Nat) (bufs : List Nat) (p : PoolStats) : PacketPools :=
  let m := ⟨Function.update m.bufs idx bufs, Function.update m.stats idx p⟩
  if p.calls = 0 then m.maybeShrink idx else m

def putPacketOut (m : PacketPools) (pk : PooledPacket) : PacketPools :=
  let idx := packetOutIndex pk.nAlloc
  m.account idx (pk.buf :: m.bufs idx) (m.stats idx).freed

def getPacketOut (m : PacketPools) (size : Nat) (malloc : Bool) :
    Option (PacketPools × PooledPacket) :=
  let idx := packetOutIndex size
  match m.bufs idx with
  | b :: bs => some (m.account idx bs ((m.stats idx).allocated 0), ⟨size, b, idx⟩)
  | [] =>
    if malloc then
      some (m.account idx [] ((m.stats idx).allocated 1), ⟨size, packetOutSizes idx, idx⟩)
    else none

/-- The room that `send_ctl_allocate_packet` takes for a token. -/
def reserve (pk : PooledPacket) (tokenLen : Nat) : PooledPacket :=
  { pk with nAlloc := pk.nAlloc - tokenLen }

/-- Runs with the live packets, in which no token takes a packet to another class. -/
inductive Run : PacketPools → List PooledPacket → Prop
  | init : Run {} []
  | get : Run m l → m.getPacketOut size malloc = some (m', pk) → Run m' (pk :: l)
  | put : Run m l → pk ∈ l → Run (m.putPacketOut pk) (l.erase pk)
  | token : Run m l → pk ∈ l → tokenLen < pk.nAlloc →
      packetOutIndex (reserve pk tokenLen).nAlloc = packetOutIndex pk.nAlloc →
      Run m (reserve pk tokenLen :: l.erase pk)

/-- What the pools promise of their buffers and statistics. -/
structure Right (m : PacketPools) (l : List PooledPacket) : Prop where
  free : ∀ idx, ∀ b ∈ m.bufs idx, packetOutSizes idx ≤ b
  held : ∀ pk ∈ l, packetOutSizes pk.taken ≤ pk.buf
  home : ∀ pk ∈ l, packetOutIndex pk.nAlloc = pk.taken
  out : ∀ idx, (m.stats idx).objsOut = l.countP (·.taken = idx)

section
variable {m m' : PacketPools} {l : List PooledPacket} {pk : PooledPacket} {p : PoolStats}
  {bs : List Nat} {b i idx all nToLeave : Nat}

theorem countCall_objsOut (p : PoolStats) : p.countCall.objsOut = p.objsOut := by
  rw [PoolStats.countCall]
  simp only
  split
  · rfl
  · rfl

theorem shrinkLoop_mem (h : b ∈ (shrinkLoop nToLeave bs all).1) : b ∈ bs := by
  induction bs generalizing all with
  | nil => exact h
  | cons b' bs ih =>
    rw [shrinkLoop] at h
    split at h
    · exact .tail _ (ih h)
    · exact h

theorem maybeShrink_spec (m : PacketPools) (idx i : Nat) :
    ((m.maybeShrink idx).stats i).objsOut = (m.stats i).objsOut ∧
      ∀ b ∈ (m.maybeShrink idx).bufs i, b ∈ m.bufs i := by
  simp only [maybeShrink]
  split
  · by_cases hi : i = idx
    · subst hi
      simp only [Function.update_self, true_and]
      exact fun b => shrinkLoop_mem
    · simp only [Function.update_of_ne hi, imp_self, implies_true, and_self]
  · exact ⟨rfl, fun b hb => hb⟩

theorem account_spec (m : PacketPools) (idx : Nat) (bs : List Nat) (p : PoolStats) (i : Nat) :
    ((m.account idx bs p).stats i).objsOut = (Function.update m.stats idx p i).objsOut ∧
      ∀ b ∈ (m.account idx bs p).bufs i, b ∈ Function.update m.bufs idx bs i := by
  simp only [account]
  split
  · exact maybeShrink_spec _ idx i
  · exact ⟨rfl, fun b hb => hb⟩

theorem Right.account (h : Right m l) (hb : ∀ b ∈ bs, packetOutSizes idx ≤ b)
    (hl : ∀ pk ∈ l', packetOutSizes pk.taken ≤ pk.buf ∧ packetOutIndex pk.nAlloc = pk.taken)
    (ho : ∀ i, (Function.update m.stats idx p i).objsOut = l'.countP (·.taken = i)) :
    Right (m.account idx bs p) l' := by
  refine ⟨fun i b hmem => ?_, fun pk hpk => (hl pk hpk).1, fun pk hpk => (hl pk hpk).2,
    fun i => (account_spec m idx bs p i).1.trans (ho i)⟩
  have hmem := (account_spec m idx bs p i).2 b hmem
  by_cases hi : i = idx
  · subst hi
    rw [Function.update_self] at hmem
    exact hb b hmem
  · rw [Function.update_of_ne hi] at hmem
    exact h.free i b hmem

theorem Right.get (h : Right m l) (hget : m.getPacketOut size malloc = some (m', pk)) :
    Right m' (pk :: l) := by
  have hnew : ∀ b bs new, packetOutSizes (packetOutIndex size) ≤ b →
      (∀ b ∈ bs, packetOutSizes (packetOutIndex size) ≤ b) →
      Right (m.account (packetOutIndex size) bs ((m.stats (packetOutIndex size)).allocated new))
        (⟨size, b, packetOutIndex size⟩ :: l) := by
    intro b bs new hb hbs
    refine h.account hbs ?_ fun i => ?_
    · intro pk hpk
      rcases List.mem_cons.1 hpk with rfl | hpk
      · exact ⟨hb, rfl⟩
      · exact ⟨h.held pk hpk, h.home pk hpk⟩
    · rw [List.countP_cons]
      by_cases hi : i = packetOutIndex size
      · subst hi
        simp [PoolStats.allocated, countCall_objsOut, h.out]
      · simp [Function.update_of_ne hi, Ne.symm hi, h.out]
  simp only [getPacketOut] at hget
  split at hget
  next b bs hb =>
    have hf := h.free (packetOutIndex size)
    rw [hb] at hf
    cases hget
    exact hnew b bs 0 (hf b (.head _)) fun b' hb' => hf b' (.tail _ hb')
  next hb =>
    split at hget
    · cases hget
      exact hnew _ [] 1 (Nat.le_refl _) (by simp)
    · cases hget

theorem Right.put (h : Right m (pk :: l)) : Right (m.putPacketOut pk) l := by
  have hpk := h.home pk (.head _)
  refine h.account ?_ (fun pk' hm => ⟨h.held pk' (.tail _ hm), h.home pk' (.tail _ hm)⟩) fun i => ?_
  · intro b hb
    rcases List.mem_cons.1 hb with rfl | hb
    · rw [hpk]
      exact h.held pk (.head _)
    · exact h.free _ b hb
  · have ho := h.out i
    rw [List.countP_cons] at ho
    by_cases hi : i = packetOutIndex pk.nAlloc
    · subst hi
      simp [hpk] at ho
      simp [PoolStats.freed, countCall_objsOut, ho, hpk]
    · rw [Function.update_of_ne hi, ho]
      simp [← hpk, Ne.symm hi]

theorem Right.perm (h : Right m l) (hp : l.Perm l') : Right m l' :=
  ⟨h.free, fun pk hpk => h.held pk (hp.mem_iff.2 hpk), fun pk hpk => h.home pk (hp.mem_iff.2 hpk),
    fun i => by rw [h.out, hp.countP_eq]⟩

/-- A packet goes back to the class of its size, which a token makes smaller. -/
theorem Right.token_iff (h : Right m (pk :: l)) (tokenLen : Nat) :
    Right m (reserve pk tokenLen :: l) ↔
      packetOutIndex (reserve pk tokenLen).nAlloc = packetOutIndex pk.nAlloc := by
  have hpk := h.home pk (.head _)
  constructor
  · intro h'
    exact (h'.home _ (.head _)).trans hpk.symm
  · intro hidx
    refine ⟨h.free, ?_, ?_, ?_⟩
    · exact List.forall_mem_cons.2 (List.forall_mem_cons.1 h.held)
    · exact List.forall_mem_cons.2 ⟨hidx.trans hpk, fun pk' hm => h.home pk' (.tail _ hm)⟩
    · exact fun i => (h.out i).trans (by rw [List.countP_cons, List.countP_cons]; rfl)

theorem Run.right (h : Run m l) : Right m l := by
  induction h with
  | init => exact ⟨by simp, by simp, by simp, by simp⟩
  | get _ hget ih => exact ih.get hget
  | put _ hpk ih => exact (ih.perm (List.perm_cons_erase hpk)).put
  | token _ hpk _ hidx ih => exact ((ih.perm (List.perm_cons_erase hpk)).token_iff _).2 hidx

/-- The pools count what is out, until a token moves a packet to another size class. -/
theorem pools_right_iff (h : Run m l) : Right m l ∧
    ∀ pk ∈ l, ∀ tokenLen < pk.nAlloc, (Right m (reserve pk tokenLen :: l.erase pk) ↔
      packetOutIndex (reserve pk tokenLen).nAlloc = packetOutIndex pk.nAlloc) :=
  ⟨h.right, fun _ hpk tokenLen _ => (h.right.perm (List.perm_cons_erase hpk)).token_iff tokenLen⟩

theorem pools_right_iff_one :
    let m := ({} : PacketPools).account 2 [] (({} : PoolStats).allocated 1)
    Right m [⟨1350, 1356, 2⟩] ∧ Right m [⟨1340, 1356, 2⟩] := by
  have h := pools_right_iff (@Run.get {} [] 1350 true _ _ .init rfl)
  exact ⟨h.1, (h.2 _ (.head _) 10 (by decide)).2 (by decide)⟩

/-- A packet of 1350 bytes gives 100 of them to a token and goes back to the smallest class. -/
theorem token_changes_class :
    (({} : PacketPools).getPacketOut 1350 true).map (fun (m, pk) =>
      let m := m.putPacketOut (reserve pk 100)
      (pk.taken, (m.stats pk.taken).objsOut, m.bufs 0, (m.stats 0).objsOut)) =
      some (2, 1, [1356], -1) := by
  decide

end

end PacketPools

end QuicArt
