import Mathlib.Data.List.Nodup

namespace QuicArt

inductive AlarmId where
  | handshake | retxInit | retxHsk | retxApp | ping | mtuProbe | idle | ackApp | retCids | cidThrot
  | pathChal0 | pathChal1 | pathChal2 | pathChal3 | sessTicket | blockedKa | packTol | artSche
  | debugStatus
  deriving DecidableEq, Repr

/-- The ids below `MAX_LSQUIC_ALARMS`, in their order. -/
def AlarmId.all : List AlarmId :=
  [.handshake, .retxInit, .retxHsk, .retxApp, .ping, .mtuProbe, .idle, .ackApp, .retCids, .cidThrot,
    .pathChal0, .pathChal1, .pathChal2, .pathChal3, .sessTicket, .blockedKa, .packTol, .artSche,
    .debugStatus]

theorem AlarmId.mem_all (i : AlarmId) : i ∈ all := by cases i <;> decide

theorem AlarmId.all_nodup : all.Nodup := by decide

/-- `struct lsquic_alarmset`: a bit of `as_armed_set` and an `as_expiry` for each id. -/
structure AlarmSet where
  armed : AlarmId → Bool
  expiry : AlarmId → Nat

/-- What a callback does to the set: `lsquic_alarmset_set` and `lsquic_alarmset_unset`. -/
inductive AlarmOp where
  | set (i : AlarmId) (expiry : Nat)
  | unset (i : AlarmId)
  deriving DecidableEq, Repr

/-- What happens to the set during a call: an alarm rings, or its callback does an operation. -/
inductive AlarmEvent where
  | ring (i : AlarmId)
  | op (o : AlarmOp)
  deriving DecidableEq, Repr

namespace AlarmSet

def disarm (s : AlarmSet) (i : AlarmId) : AlarmSet :=
  { s with armed := fun j => j ≠ i && s.armed j }

def event (s : AlarmSet) : AlarmEvent → AlarmSet
  | .ring i => s.disarm i
  | .op (.unset i) => s.disarm i
  | .op (.set i t) =>
    { armed := fun j => j = i || s.armed j, expiry := fun j => if j = i then t else s.expiry j }

section
variable (now : Nat) (callback : AlarmId → AlarmSet → List AlarmOp)

/-- The callback of an alarm runs with the alarm's bit cleared. -/
def ring (s : AlarmSet) (i : AlarmId) : List AlarmEvent :=
  .ring i :: (callback i (s.disarm i)).map .op

/-- The loop of `lsquic_alarmset_ring_expired`; `left` is its copy of the armed bits. -/
def ringLoop : List AlarmId → (AlarmId → Bool) → AlarmSet → List AlarmEvent
  | [], _, _ => []
  | i :: ids, left, s =>
    if AlarmId.all.all fun j => !left j then []
    else
      let done := if left i && decide (s.expiry i < now) then s.ring callback i else []
      done ++ ringLoop ids (fun j => j ≠ i && left j) (done.foldl event s)

/-- `lsquic_alarmset_ring_expired`: what happens to the set, in its order. -/
def ringExpired (s : AlarmSet) : List AlarmEvent := ringLoop now callback AlarmId.all s.armed s

end

def due (s : AlarmSet) (now : Nat) (i : AlarmId) : Prop := s.armed i = true ∧ s.expiry i < now

/-- The alarm is not disarmed with its time past. -/
def Stands (s : AlarmSet) (now : Nat) (i : AlarmId) : Prop := s.expiry i < now → s.armed i = true

/-- Whichever state the callback of `i` finds, the alarm `j` stands after it if it stood before. -/
def Keeps (now : Nat) (callback : AlarmId → AlarmSet → List AlarmOp) (i j : AlarmId) : Prop :=
  ∀ s : AlarmSet, s.due now i → s.Stands now j → ((s.ring callback i).foldl event s).Stands now j

def RingsDue (now : Nat) : AlarmSet → List AlarmEvent → Prop
  | _, [] => True
  | s, e :: l => (∀ i, e = .ring i → s.due now i) ∧ RingsDue now (s.event e) l

section
variable {now : Nat} {callback : AlarmId → AlarmSet → List AlarmOp} {left : AlarmId → Bool}
  {s : AlarmSet} {i j : AlarmId} {ids : List AlarmId} {l : List AlarmEvent}

theorem RingsDue.append {k : List AlarmEvent} :
    RingsDue now s (k ++ l) ↔ RingsDue now s k ∧ RingsDue now (k.foldl event s) l := by
  induction k generalizing s with
  | nil => simp [RingsDue]
  | cons e k ih => simp only [List.cons_append, RingsDue, ih, List.foldl_cons, and_assoc]

end

end AlarmSet

end QuicArt
