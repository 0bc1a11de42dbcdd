import Mathlib.Data.List.Basic

namespace QuicArt

inductive PacketReqType where
  | verneg
  | pubres
deriving DecidableEq

structure PacketReq where
  type : PacketReqType
  gquic : Bool
  dcid : List UInt8
  rstSz : Nat

/-- A connection that is there for the one packet its request asks for. -/
structure EvanescentConn where
  req : PacketReq
  drop : Bool := false

/-- The packet request queue, and the connections that are in the engine's hands. -/
structure PrQueue where
  reqs : List PacketReq := []
  returned : List EvanescentConn := []
  handed : List EvanescentConn := []
  free : Nat := 0
  nreqs : Nat := 0
  maxReqs : Nat
  nconns : Nat := 0
  maxConns : Nat

namespace PrQueue

def minSrstSize : Nat := 21

def maxSrstSize : Nat := minSrstSize + 40

/-- The size of the packet a request asks for; none when the reset is not scheduled. -/
def reqSize (type : PacketReqType) (gquic : Bool) (dataSz rand : Nat) : Option Nat :=
  if type = .pubres ∧ gquic = false then
    if dataSz ≤ minSrstSize then none
    else
      let max := min maxSrstSize (dataSz - 1)
      some (if minSrstSize < max then minSrstSize + rand % (max - minSrstSize) else minSrstSize)
  else some 0

/-- `allocated`: the pool has a request and the hash takes it. -/
def newReq (q : PrQueue) (type : PacketReqType) (gquic : Bool) (dcid : List UInt8)
    (dataSz rand : Nat) (allocated : Bool) : PrQueue :=
  match reqSize type gquic dataSz rand with
  | none => q
  | some size =>
    if q.nreqs < q.maxReqs ∧ allocated ∧ ¬ q.reqs.any fun r => r.type = type ∧ r.dcid = dcid then
      { q with reqs := q.reqs ++ [⟨type, gquic, dcid, size⟩], nreqs := q.nreqs + 1 }
    else q

def nextConn (q : PrQueue) (allocated : Bool) : Option (EvanescentConn × PrQueue) :=
  match q.returned, q.reqs with
  | conn :: returned, _ => some (conn, { q with returned, handed := conn :: q.handed })
  | [], [] => none
  | [], req :: reqs =>
    if q.maxConns ≤ q.nconns ∨ q.free = 0 ∧ ¬ allocated then none
    else some (⟨req, false⟩, { q with
      reqs, free := q.free - 1, nconns := q.nconns + 1, handed := ⟨req, false⟩ :: q.handed })

def havePending (q : PrQueue) : Bool := 0 < q.reqs.length

def freeConn (q : PrQueue) : PrQueue :=
  { q with free := q.free + 1, nreqs := q.nreqs - 1, nconns := q.nconns - 1 }

inductive Call where
  | newReq (type : PacketReqType) (gquic : Bool) (dcid : List UInt8) (dataSz rand : Nat)
    (allocated : Bool)
  | nextConn (allocated : Bool)
  | drop (i : Nat)
  | packetSent (i : Nat)
  | packetNotSent (i : Nat)

/-- One call; `i` is a connection in the engine's hands. -/
def call (q : PrQueue) : Call → PrQueue
  | .newReq type gquic dcid dataSz rand allocated => q.newReq type gquic dcid dataSz rand allocated
  | .nextConn allocated => ((q.nextConn allocated).map (·.2)).getD q
  | .drop i => { q with handed := q.handed.modify i fun conn => { conn with drop := true } }
  | .packetSent i => if i < q.handed.length then
      { q with handed := q.handed.eraseIdx i }.freeConn else q
  | .packetNotSent i =>
    match q.handed[i]? with
    | none => q
    | some conn =>
      let q := { q with handed := q.handed.eraseIdx i }
      if conn.drop then q.freeConn else { q with returned := conn :: q.returned }

/-- What the next call may hand out is announced. -/
def Announced (q : PrQueue) : Prop := ∀ allocated, (q.nextConn allocated).isSome → q.havePending

def AllAnnounced (q : PrQueue) : List Call → Prop
  | [] => q.Announced
  | c :: calls => q.Announced ∧ (q.call c).AllAnnounced calls

/-- A packet that is handed back unsent, to be sent again, finds a request in the queue. -/
def Accompanied (q : PrQueue) : Call → Prop
  | .packetNotSent i => ∀ conn ∈ q.handed[i]?, conn.drop = false → q.reqs ≠ []
  | _ => True

def AllAccompanied (q : PrQueue) : List Call → Prop
  | [] => True
  | c :: calls => q.Accompanied c ∧ (q.call c).AllAccompanied calls

theorem announced_iff {q : PrQueue} : q.Announced ↔ q.returned = [] ∨ q.reqs ≠ [] := by
  obtain ⟨reqs, returned, _, _, _, _, _, _⟩ := q
  cases returned <;> cases reqs <;> simp [Announced, nextConn, havePending]

theorem newReq_reqs (q : PrQueue) (type gquic dcid dataSz rand allocated) :
    (q.newReq type gquic dcid dataSz rand allocated).returned = q.returned ∧
      (q.reqs ≠ [] → (q.newReq type gquic dcid dataSz rand allocated).reqs ≠ []) := by
  rw [newReq]
  split
  · exact ⟨rfl, id⟩
  · split <;> simp

theorem Announced.nextConn {q : PrQueue} (h : q.Announced) (allocated : Bool) :
    (q.call (.nextConn allocated)).Announced := by
  obtain ⟨reqs, returned, _, _, _, _, _, _⟩ := q
  rw [announced_iff] at h ⊢
  cases returned with
  | cons conn returned => exact .inr (h.resolve_left (by simp))
  | nil =>
    left
    cases reqs with
    | nil => rfl
    | cons req reqs =>
      simp only [call, PrQueue.nextConn]
      split <;> rfl

theorem Announced.call {q : PrQueue} (h : q.Announced) (c : Call) :
    (q.call c).Announced ↔ q.Accompanied c := by
  have hq := announced_iff.1 h
  rw [announced_iff]
  cases c with
  | newReq type gquic dcid dataSz rand allocated =>
    obtain ⟨hr, hn⟩ := newReq_reqs q type gquic dcid dataSz rand allocated
    exact iff_of_true (hq.imp hr.trans hn) trivial
  | nextConn allocated => exact iff_of_true (announced_iff.1 (h.nextConn allocated)) trivial
  | drop i => exact iff_of_true hq trivial
  | packetSent i =>
    refine iff_of_true ?_ trivial
    rw [PrQueue.call]
    split <;> exact hq
  | packetNotSent i =>
    cases hi : q.handed[i]? with
    | none => simpa [PrQueue.call, Accompanied, hi] using hq
    | some conn =>
      cases hd : conn.drop with
      | true => simpa [PrQueue.call, Accompanied, hi, hd, freeConn] using hq
      | false => simp [PrQueue.call, Accompanied, hi, hd]

/-- From a new queue on, what can be sent is announced throughout exactly when no packet is
handed back to a queue without requests. -/
theorem allAnnounced_iff (maxReqs maxConns : Nat) (calls : List Call) :
    AllAnnounced { maxReqs, maxConns } calls ↔ AllAccompanied { maxReqs, maxConns } calls := by
  have h : Announced { maxReqs, maxConns } := announced_iff.2 (.inl rfl)
  generalize ({ maxReqs, maxConns } : PrQueue) = q at h
  induction calls generalizing q with
  | nil => exact iff_of_true h trivial
  | cons c calls ih =>
    simp only [AllAnnounced, AllAccompanied, h, true_and]
    constructor
    · intro ha
      have hc : (q.call c).Announced := by cases calls <;> first | exact ha | exact ha.1
      exact ⟨(h.call c).1 hc, (ih _ hc).1 ha⟩
    · exact fun ⟨hc, ha⟩ => (ih _ ((h.call c).2 hc)).2 ha

/-- The socket blocked and no other request came. -/
theorem packetNotSent_overlooked : ¬ AllAnnounced { maxReqs := 10, maxConns := 10 }
    [.newReq .verneg false [1] 1200 0 true, .nextConn true, .packetNotSent 0] := by
  intro h
  have := (announced_iff.1 h.2.2.2).resolve_left (by decide)
  exact this rfl

/-- The counters are those of the requests and connections there are, and within the limits. -/
structure Accounts (q : PrQueue) : Prop where
  nreqs : q.nreqs = q.reqs.length + (q.handed.length + q.returned.length)
  reqs_le : q.nreqs ≤ q.maxReqs
  nconns : q.nconns = q.handed.length + q.returned.length
  conns_le : q.nconns ≤ q.maxConns
  distinct : q.reqs.Pairwise fun a b => ¬ (a.type = b.type ∧ a.dcid = b.dcid)

section
variable {q : PrQueue}

theorem reqSize_lt (ht : type = .pubres) (hg : gquic = false)
    (h : reqSize type gquic dataSz rand = some size) : size < dataSz := by
  rw [reqSize, if_pos ⟨ht, hg⟩, minSrstSize, maxSrstSize] at h
  split_ifs at h with hd
  cases h
  split
  next hm =>
    have := Nat.mod_lt rand (Nat.sub_pos_of_lt hm)
    omega
  · omega

theorem newReq_smaller (hr : r ∈ (q.newReq type gquic dcid dataSz rand allocated).reqs)
    (ht : r.type = .pubres) (hg : r.gquic = false) : r ∈ q.reqs ∨ r.rstSz < dataSz := by
  rw [newReq] at hr
  split at hr
  · exact .inl hr
  next hsz =>
    split at hr
    · rcases List.mem_append.mp hr with hr | hr
      · exact .inl hr
      · cases List.mem_singleton.mp hr
        exact .inr (reqSize_lt ht hg hsz)
    · exact .inl hr

theorem Accounts.newReq (h : q.Accounts) :
    (q.newReq type gquic dcid dataSz rand allocated).Accounts := by
  rw [PrQueue.newReq]
  split
  · exact h
  · split
    next hn =>
      refine ⟨?_, hn.1, h.nconns, h.conns_le, List.pairwise_append.mpr ⟨h.distinct, by simp, ?_⟩⟩
      · simp only [List.length_append, List.length_singleton, h.nreqs]
        omega
      · intro a ha b hb
        rw [List.mem_singleton.mp hb]
        exact fun he => hn.2.2 (List.any_eq_true.mpr ⟨a, ha, decide_eq_true he⟩)
    · exact h

theorem Accounts.nextConn (h : q.Accounts) (allocated : Bool) :
    (q.call (.nextConn allocated)).Accounts := by
  obtain ⟨hr, hrl, hc, hcl, hd⟩ := id h
  simp only [PrQueue.call, PrQueue.nextConn]
  split
  next hq =>
    simp only [hq, List.length_cons] at hr hc
    exact ⟨by simp; omega, hrl, by simp; omega, hcl, hd⟩
  · exact h
  next hq =>
    rw [hq, List.length_cons] at hr
    split_ifs with hn
    · exact h
    · exact ⟨by simp; omega, hrl, by simp; omega, by simp; omega, (hq ▸ hd).of_cons⟩

theorem Accounts.freeConn (h : q.Accounts) (hi : i < q.handed.length) :
    { q with handed := q.handed.eraseIdx i }.freeConn.Accounts := by
  obtain ⟨hr, hrl, hc, hcl, hd⟩ := h
  have hl := List.length_eraseIdx_of_lt hi
  exact ⟨by simp [PrQueue.freeConn]; omega, by simp [PrQueue.freeConn]; omega,
    by simp [PrQueue.freeConn]; omega, by simp [PrQueue.freeConn]; omega, hd⟩

theorem Accounts.call (h : q.Accounts) (c : Call) : (q.call c).Accounts := by
  cases c with
  | newReq type gquic dcid dataSz rand allocated => exact h.newReq
  | nextConn allocated => exact h.nextConn allocated
  | drop i =>
    have hl : (q.call (.drop i)).handed.length = q.handed.length := by simp [PrQueue.call]
    exact ⟨hl ▸ h.nreqs, h.reqs_le, hl ▸ h.nconns, h.conns_le, h.distinct⟩
  | packetSent i =>
    rw [PrQueue.call]
    split
    next hi => exact h.freeConn hi
    · exact h
  | packetNotSent i =>
    rw [PrQueue.call]
    split
    · exact h
    next conn hi =>
      obtain ⟨hi, -⟩ := List.getElem?_eq_some_iff.mp hi
      split
      · exact h.freeConn hi
      · obtain ⟨hr, hrl, hc, hcl, hd⟩ := h
        have hl := List.length_eraseIdx_of_lt hi
        exact ⟨by simp; omega, hrl, by simp; omega, hcl, hd⟩

end

/-- The accounts are right, and a stateless reset is smaller than the packet that triggers it. -/
theorem prq_accounts (maxReqs maxConns : Nat) (calls : List Call) :
    (calls.foldl call { maxReqs, maxConns }).Accounts ∧
      ∀ q type gquic dcid dataSz rand allocated,
        ∀ r ∈ (newReq q type gquic dcid dataSz rand allocated).reqs,
          r.type = .pubres → r.gquic = false → r ∈ q.reqs ∨ r.rstSz < dataSz := by
  refine ⟨?_, fun _ _ _ _ _ _ _ _ hr ht hg => newReq_smaller hr ht hg⟩
  exact List.foldlRecOn calls call ⟨rfl, Nat.zero_le _, rfl, Nat.zero_le _, .nil⟩
    fun _ h c _ => h.call c

end PrQueue
end QuicArt
