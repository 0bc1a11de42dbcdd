import Mathlib.Algebra.Order.Field.Rat
import Mathlib.Data.List.Induction
import Mathlib.Tactic.Ring
import QuicArt.LossChain

namespace QuicArt

/-- What a sample tells: a loss (`send_ctl_record_feedback_loss`) or a delivery
(`lsquic_send_ctl_got_ack`). -/
inductive Feedback
  | loss
  | delivery
  deriving DecidableEq, Repr

def Feedback.value : Feedback → Nat
  | .loss => 1
  | .delivery => 0

/-- `struct lsquic_art_feedback`: the object that the allocator handed out and its value. -/
structure ArtFeedback where
  object : Nat
  value : Nat
  deriving DecidableEq, Repr

/-- `sc_feedback_window` and its size; `freed` are the objects given back with `lsquic_malo_put`, in
order. -/
structure FeedbackWindow where
  list : List ArtFeedback := []
  size : Nat := 0
  taken : Nat := 0
  freed : List Nat := []

namespace FeedbackWindow

/-- The body of both producers: the first sample of a full window is used again. -/
def record (w : FeedbackWindow) (value : Nat) : Option FeedbackWindow :=
  if maxFeedbackWindowSize ≤ w.size then
    match w.list with
    | [] => none
    | f :: rest => some { w with list := rest ++ [{ f with value := value }] }
  else
    some { w with
      list := w.list ++ [⟨w.taken, value⟩]
      size := w.size + 1
      taken := w.taken + 1 }

def step (w : FeedbackWindow) (e : Feedback) : Option FeedbackWindow := w.record e.value

def run (events : List Feedback) : Option FeedbackWindow := events.foldlM step {}

/-- The loop of `lsquic_send_ctl_cleanup` over the window. -/
def cleanup (w : FeedbackWindow) : FeedbackWindow :=
  match w with
  | ⟨[], size, taken, freed⟩ => ⟨[], size, taken, freed⟩
  | ⟨f :: rest, size, taken, freed⟩ => cleanup ⟨rest, size - 1, taken, freed ++ [f.object]⟩
termination_by w.list.length

/-- `art_replica_loss_rate`, in exact arithmetic. -/
def replicaLossRate (w : FeedbackWindow) : ℚ :=
  if w.size = 0 then 0
  else w.list.foldl (fun sum f => if f.value = 1 then sum + 1 else sum) 0 / w.size

def values (w : FeedbackWindow) : List Nat := w.list.map ArtFeedback.value

def objects (w : FeedbackWindow) : List Nat := w.list.map ArtFeedback.object

/-- The newest of the events, as many as the window holds. -/
def newest (events : List Feedback) : List Feedback :=
  events.drop (events.length - maxFeedbackWindowSize)

structure Window (events : List Feedback) (w : FeedbackWindow) : Prop where
  values : w.values = (newest events).map Feedback.value
  size : w.size = w.list.length
  objects : w.objects.Perm (List.range w.taken)
  freed : w.freed = []

section
variable {events : List Feedback} {w w' : FeedbackWindow}

theorem length_newest (events : List Feedback) :
    (newest events).length = min events.length maxFeedbackWindowSize := by
  rw [newest, List.length_drop]
  omega

theorem Window.size_eq (h : Window events w) :
    w.size = min events.length maxFeedbackWindowSize := by
  have hl := congrArg List.length h.values
  rwa [FeedbackWindow.values, List.length_map, List.length_map, length_newest, ← h.size] at hl

theorem newest_room (h : events.length < maxFeedbackWindowSize) (e : Feedback) :
    newest (events ++ [e]) = newest events ++ [e] := by
  have h₁ : events.length + 1 - maxFeedbackWindowSize = 0 := by omega
  have h₂ : events.length - maxFeedbackWindowSize = 0 := by omega
  rw [newest, newest, List.length_append, List.length_singleton, h₁, h₂, List.drop_zero,
    List.drop_zero]

theorem newest_full (h : maxFeedbackWindowSize ≤ events.length) (e : Feedback) :
    newest (events ++ [e]) = (newest events).tail ++ [e] := by
  have h₁ : events.length + 1 - maxFeedbackWindowSize =
      events.length - maxFeedbackWindowSize + 1 := by omega
  have h₂ : events.length - maxFeedbackWindowSize + 1 ≤ events.length := by
    have hpos : 0 < maxFeedbackWindowSize := by decide
    omega
  rw [newest, newest, List.length_append, List.length_singleton, h₁,
    List.drop_append_of_le_length h₂, List.tail_drop]

theorem Window.step (h : Window events w) (e : Feedback) :
    ∃ w', w.step e = some w' ∧ Window (events ++ [e]) w' := by
  have hs := h.size_eq
  rw [FeedbackWindow.step, record]
  split
  next hfull =>
    have hle : maxFeedbackWindowSize ≤ events.length := by omega
    cases hl : w.list with
    | nil =>
      have hz : w.size = 0 := by rw [h.size, hl, List.length_nil]
      rw [hz] at hfull
      cases hfull
    | cons f rest =>
      refine ⟨_, rfl, ?_, ?_, ?_, h.freed⟩
      · have hv := h.values
        rw [FeedbackWindow.values, hl, List.map_cons] at hv
        rw [newest_full hle, List.map_append, List.map_tail, ← hv]
        simp only [FeedbackWindow.values, List.map_append, List.tail_cons, List.map_cons,
          List.map_nil]
      · rw [h.size, hl, List.length_append, List.length_cons, List.length_singleton]
      · have ho := h.objects
        rw [FeedbackWindow.objects, hl, List.map_cons] at ho
        simp only [FeedbackWindow.objects, List.map_append, List.map_cons, List.map_nil]
        exact (List.perm_append_singleton _ _).trans ho
  next hroom =>
    have hlt : events.length < maxFeedbackWindowSize := by omega
    refine ⟨_, rfl, ?_, ?_, ?_, h.freed⟩
    · have hv := h.values
      rw [FeedbackWindow.values] at hv
      rw [newest_room hlt, List.map_append, ← hv]
      simp only [FeedbackWindow.values, List.map_append, List.map_cons, List.map_nil]
    · rw [h.size, List.length_append, List.length_singleton]
    · simp only [FeedbackWindow.objects, List.map_append, List.map_cons, List.map_nil]
      rw [List.range_succ]
      exact h.objects.append_right _

theorem Window.empty : Window [] {} := ⟨rfl, rfl, .refl _, rfl⟩

theorem run_window (events : List Feedback) : ∃ w, run events = some w ∧ Window events w := by
  induction events using List.reverseRecOn with
  | nil => exact ⟨{}, rfl, .empty⟩
  | append_singleton events e ih =>
    obtain ⟨w, hr, hw⟩ := ih
    obtain ⟨w', hs, hw'⟩ := hw.step e
    refine ⟨w', ?_, hw'⟩
    rw [run] at hr
    rw [run, List.foldlM_append, hr]
    simp only [List.foldlM_cons, List.foldlM_nil, Option.bind_eq_bind, Option.bind_some, hs,
      Option.pure_def]

theorem cleanup_eq (w : FeedbackWindow) :
    w.cleanup = ⟨[], w.size - w.list.length, w.taken, w.freed ++ w.objects⟩ := by
  obtain ⟨l, size, taken, freed⟩ := w
  induction l generalizing size freed with
  | nil =>
    rw [cleanup]
    simp only [objects, List.map_nil, List.append_nil, List.length_nil, Nat.sub_zero]
  | cons f rest ih =>
    rw [cleanup, ih]
    simp only [objects, List.map_cons, List.append_assoc, List.singleton_append, List.length_cons]
    congr 1
    omega

theorem foldl_losses (l : List ArtFeedback) (n : ℚ) :
    l.foldl (fun sum f => if f.value = 1 then sum + 1 else sum) n =
      n + (l.map ArtFeedback.value).count 1 := by
  induction l generalizing n with
  | nil => simp
  | cons f l ih =>
    rw [List.foldl_cons, ih, List.map_cons]
    by_cases h : f.value = 1
    · rw [if_pos h, h, List.count_cons_self]
      push_cast
      ring
    · rw [if_neg h, List.count_cons_of_ne (fun he => h he)]

theorem count_values (l : List Feedback) : (l.map Feedback.value).count 1 = l.count .loss := by
  induction l with
  | nil => rfl
  | cons e l ih => cases e <;> simp [Feedback.value, ih]

theorem Window.replicaLossRate (h : Window events w) :
    w.replicaLossRate = ((newest events).count .loss : ℚ) / (newest events).length := by
  have hs : w.size = (newest events).length := by rw [h.size_eq, length_newest]
  have hc := count_values (newest events)
  rw [← h.values, FeedbackWindow.values] at hc
  rw [FeedbackWindow.replicaLossRate, foldl_losses, hc, hs, zero_add]
  split
  next hz => rw [hz, Nat.cast_zero, div_zero]
  · rfl

theorem recordFeedback_window {env : Env} {s : SendCtl} (hm : env.malo s.tick = true)
    (hv : s.feedbackWindow = w.values) (hs : s.feedbackWindowSize = w.size)
    (hw : w.record value = some w') (p : PktId) :
    (s.recordFeedback env p value).feedbackWindow = w'.values ∧
      (s.recordFeedback env p value).feedbackWindowSize = w'.size := by
  simp only [SendCtl.recordFeedback, hs, hm, if_true]
  rw [record] at hw
  split at hw
  next hfull =>
    rw [if_pos hfull]
    cases hl : w.list with
    | nil => simp [hl] at hw
    | cons f rest =>
      simp only [hl, Option.some.injEq] at hw
      subst hw
      simp [SendCtl.emit, hv, hs, FeedbackWindow.values, hl]
  next hroom =>
    rw [if_neg hroom]
    simp only [Option.some.injEq] at hw
    subst hw
    simp [hv, FeedbackWindow.values]

end

end FeedbackWindow

open FeedbackWindow in
/-- The newest events in order, each object on the list once and none freed before the cleanup. -/
theorem feedback_window_newest (events : List Feedback) :
    ∃ w, run events = some w ∧ w.values = (newest events).map Feedback.value ∧
      w.list.length = min events.length maxFeedbackWindowSize ∧ w.size = w.list.length ∧
      w.freed = [] ∧ (∀ object, w.objects.count object = if object < w.taken then 1 else 0) ∧
      w.cleanup.list = [] ∧ w.cleanup.size = 0 ∧
      (∀ object, w.cleanup.freed.count object = if object < w.taken then 1 else 0) ∧
      w.replicaLossRate = ((newest events).count .loss : ℚ) / (newest events).length := by
  obtain ⟨w, hr, hw⟩ := run_window events
  have hcount : ∀ object, w.objects.count object = if object < w.taken then 1 else 0 := by
    intro object
    rw [hw.objects.count_eq, List.count_range]
  refine ⟨w, hr, hw.values, ?_, hw.size, hw.freed, hcount, ?_, ?_, ?_, hw.replicaLossRate⟩
  · rw [← hw.size, hw.size_eq]
  · rw [cleanup_eq]
  · rw [cleanup_eq]
    show w.size - w.list.length = 0
    rw [hw.size, Nat.sub_self]
  · intro object
    rw [cleanup_eq]
    show (w.freed ++ w.objects).count object = _
    rw [hw.freed, List.nil_append, hcount]

open FeedbackWindow in
/-- The eleventh sample takes the object of the first one: eleven samples, ten objects to free. -/
theorem evicted_not_freed : ∃ w, run (.delivery :: List.replicate 10 .loss) = some w ∧
    w.values = List.replicate 10 1 ∧ w.freed = [] ∧ w.cleanup.freed.length = 10 := by
  refine ⟨_, rfl, rfl, rfl, ?_⟩
  rw [cleanup_eq]
  rfl

end QuicArt
