import QuicArt.HqSim

namespace QuicArt

namespace HqFilter

variable {δ : Type}

/-- The input is read as far as the rest, or as far as the byte that is wrong. -/
def Turn.Reads (s : HqStream) (q : Qpack δ) (x : HqPos δ) (input : List UInt8)
    (t : Turn δ) : Prop :=
  if t.filter.error then
    ∃ c rest y, input = c ++ rest ∧ x.feed s q c = (y, t.events) ∧ y.place = .failed
  else
    ∃ c y, input = c ++ t.rest ∧ x.feed s q c = (y, t.events) ∧ t.filter.Sim y ∧
      (t.rest ≠ [] → t.filter.Settled)

section
variable {s : HqStream} {q : Qpack δ} {f : HqFilter δ} {x y : HqPos δ} {input c rest : List UInt8}
  {evs : List (HqEvent δ)}

theorem Turn.Ok.reads {t : Turn δ} (h : t.Ok s q x input) (hstop : t.stop = true) :
    t.Reads s q x input := by
  rw [Turn.Ok] at h
  rw [Turn.Reads]
  split at h
  next herr =>
    rw [if_pos herr]
    exact h.2
  next herr =>
    rw [if_neg herr]
    obtain ⟨c, y, hin, hfeed, hsim, hset⟩ := h
    exact ⟨c, y, hin, hfeed, hsim, fun _ => hset⟩

theorem feed_after (hfeed : x.feed s q c = (y, evs)) (rest : List UInt8) :
    x.feed s q (c ++ rest) = ((y.feed s q rest).1, evs ++ (y.feed s q rest).2) := by
  rw [HqPos.feed_append, hfeed]

theorem readLoop_reads (h : f.Sim x) (hfuel : input.length ≤ fuel)
    (hpush : .abort .frameError ∉ (x.feed s q input).2) :
    (f.readLoop s q fuel input).Reads s q x input := by
  induction fuel generalizing f x input with
  | zero =>
    obtain rfl : input = [] := List.eq_nil_of_length_eq_zero (Nat.le_zero.mp hfuel)
    rw [readLoop, Turn.Reads, if_neg (by simp [h.error])]
    exact ⟨[], x, rfl, rfl, h, fun hc => absurd rfl hc⟩
  | succ fuel ih =>
    rw [readLoop]
    by_cases hne : input = []
    · subst hne
      rw [if_pos rfl, Turn.Reads, if_neg (by simp [h.error])]
      exact ⟨[], x, rfl, rfl, h, fun hc => absurd rfl hc⟩
    rw [if_neg hne]
    have hturn := turn_ok h hne hpush
    generalize f.turn s q input = t at hturn
    by_cases hstop : t.stop = true
    · rw [if_pos hstop]
      exact hturn.reads hstop
    rw [if_neg hstop]
    rw [Turn.Ok] at hturn
    by_cases herr : t.filter.error = true
    · rw [if_pos herr] at hturn
      exact absurd hturn.1 hstop
    rw [if_neg herr] at hturn
    obtain ⟨c, y, rfl, hfeed, hsim, hc⟩ := hturn
    rw [if_neg hstop] at hc
    have hpos : 0 < c.length := List.length_pos_iff.mpr hc
    rw [List.length_append] at hfuel
    rw [feed_after hfeed] at hpush
    have hih := @ih _ _ t.rest hsim (by omega) (fun hm => hpush (List.mem_append_right _ hm))
    generalize readLoop s q fuel t.filter t.rest = t' at hih
    rw [Turn.Reads] at hih ⊢
    by_cases herr' : t'.filter.error = true
    · rw [if_pos herr'] at hih ⊢
      obtain ⟨c', rest, z, hrest, hfeed', hz⟩ := hih
      refine ⟨c ++ c', rest, z, by rw [hrest, List.append_assoc], ?_, hz⟩
      rw [feed_after hfeed, hfeed']
    · rw [if_neg herr'] at hih ⊢
      obtain ⟨c', z, hrest, hfeed', hz⟩ := hih
      refine ⟨c ++ c', z, ?_, ?_, hz⟩
      · rw [hrest, List.append_assoc]
      rw [feed_after hfeed, hfeed']

theorem hqRead_reads (h : f.Sim x) (hpush : .abort .frameError ∉ (x.feed s q input).2) :
    (f.hqRead s q input false).Reads s q x input := by
  rw [hqRead]
  exact readLoop_reads h le_rfl hpush

theorem Sim.left_eq (h : f.Sim x) (hn : x.place.toCome = some n) : f.left = n := by
  have hplace := h.place
  cases hp : x.place with
  | header acc =>
    rw [hp] at hn
    cases hn
  | pushId len acc =>
    rw [hp] at hplace hn
    obtain ⟨-, -, hleft, -⟩ := hplace
    exact hleft.trans (Option.some.inj hn)
  | payload ty len seen dc =>
    rw [hp] at hplace hn
    obtain ⟨-, -, hleft, -⟩ := hplace
    exact hleft.trans (Option.some.inj hn)
  | failed =>
    rw [hp] at hplace
    exact hplace.elim

theorem Sim.inPayload (h : f.Sim x) (hs : f.state = .readingPayload) :
    ∃ ty len seen dc, x.place = .payload ty len seen dc := by
  have hplace := h.place
  cases hp : x.place with
  | header acc =>
    rw [hp] at hplace
    rcases hplace with ⟨hs', -⟩ | ⟨hs', -⟩
    · cases hs.symm.trans hs'
    · cases hs.symm.trans hs'
  | pushId len acc =>
    rw [hp] at hplace
    obtain ⟨-, -, -, -, -, ⟨hs', -⟩ | ⟨hs', -⟩⟩ := hplace
    · cases hs.symm.trans hs'
    · cases hs.symm.trans hs'
  | failed =>
    rw [hp] at hplace
    exact hplace.elim
  | payload ty len seen dc => exact ⟨ty, len, seen, dc, rfl⟩

theorem Sim.inDataPayload (h : f.Sim x) (hin : f.inData = true) :
    ∃ len seen dc, x.place = .payload hqftData len seen dc ∧ seen < len ∧ len < 2 ^ 62 ∧
      f.left = len - seen := by
  rw [inData] at hin
  simp only [Bool.and_eq_true, decide_eq_true_eq] at hin
  obtain ⟨hs, hty⟩ := hin
  have hplace := h.place
  obtain ⟨ty, len, seen, dc, hp⟩ := h.inPayload hs
  rw [hp] at hplace
  obtain ⟨-, rfl, hleft, hlt, hseen, -⟩ := hplace
  rw [hty] at hp hseen
  rcases hseen with hpos | ⟨-, hpush, -⟩
  · exact ⟨len, seen, dc, hp, hpos, hlt, hleft⟩
  · cases hpush

theorem hqDecrLeft_zero (hpos : 0 < f.left) (hlt : f.left < 2 ^ 62) : f.hqDecrLeft 0 = f := by
  have hsame : f.setLeft f.left = f := rfl
  rw [hqDecrLeft, decrLeft_eq (Nat.zero_le _) hlt, Nat.sub_zero, hsame, endPayload,
    if_neg (by omega)]

theorem Sim.deliver (h : f.Sim x) (hin : f.inData = true) (hleft : input.length ≤ f.left) :
    x.feed s q input = ((x.feed s q input).1, input.map .data) ∧
      (f.hqDecrLeft input.length).Sim (x.feed s q input).1 := by
  obtain ⟨len, seen, dc, hp, hpos, hlt, hl⟩ := h.inDataPayload hin
  by_cases hne : input = []
  · subst hne
    refine ⟨rfl, ?_⟩
    rw [List.length_nil, hqDecrLeft_zero (by omega) (by omega)]
    exact h
  · have hfeed := HqPos.feed_data (s := s) (q := q) hp hpos (by omega) hne
    rw [hfeed]
    refine ⟨rfl, ?_⟩
    exact h.payload hp (by omega) f.begin f.blocked f.dec none nofun

end

end HqFilter

/-- The filter, what has arrived, what of that has not been read, and what has happened. -/
structure HqRun (δ : Type) where
  filter : HqFilter δ := {}
  arrived : List UInt8 := []
  pending : List UInt8 := []
  events : List (HqEvent δ) := []

/-- Bytes arrive; `hq_read` gets the next ones; the application reads DATA; or bytes are skipped. -/
inductive HqOp
  | arrive (bs : List UInt8)
  | read (n : Nat)
  | deliver (n : Nat)
  | discard (n : Nat)
  deriving DecidableEq, Repr

def HqOp.isRead : HqOp → Bool
  | .read _ => true
  | _ => false

namespace HqRun

variable {δ : Type}

/-- A step of `read_data_frames` or of `hq_filter_readable`. -/
def step (s : HqStream) (q : Qpack δ) (r : HqRun δ) : HqOp → Option (HqRun δ)
  | .arrive bs => some { r with arrived := r.arrived ++ bs, pending := r.pending ++ bs }
  | .read n =>
    let t := r.filter.hqRead s q (r.pending.take n) false
    some { r with
      filter := t.filter
      pending := t.rest ++ r.pending.drop n
      events := r.events ++ t.events }
  | .deliver n =>
    if r.filter.inData && !r.filter.error && n ≤ min r.filter.left r.pending.length then
      some { r with
        filter := r.filter.hqDecrLeft n
        pending := r.pending.drop n
        events := r.events ++ (r.pending.take n).map .data }
    else none
  | .discard n => if r.filter.error then some { r with pending := r.pending.drop n } else none

def runs (s : HqStream) (q : Qpack δ) : HqRun δ → List HqOp → Option (HqRun δ)
  | r, [] => some r
  | r, op :: ops => (r.step s q op).bind (runs s q · ops)

def noReadAfterError (s : HqStream) (q : Qpack δ) : HqRun δ → List HqOp → Bool
  | _, [] => true
  | r, op :: ops => !(op.isRead && r.filter.error) &&
      match r.step s q op with
      | none => true
      | some r' => noReadAfterError s q r' ops

section
variable {s : HqStream} {q : Qpack δ} {r r' : HqRun δ} {op : HqOp}

/-- All bytes that arrived have the meaning that was found, up to those that are not read yet. -/
def Follows (s : HqStream) (q : Qpack δ) (r : HqRun δ) : Prop :=
  if r.filter.error then
    ∃ y, ({} : HqPos δ).feed s q r.arrived = (y, r.events) ∧ y.place = .failed
  else
    ∃ consumed y, r.arrived = consumed ++ r.pending ∧
      ({} : HqPos δ).feed s q consumed = (y, r.events) ∧ r.filter.Sim y

theorem Follows.init : Follows s q ({} : HqRun δ) := by
  rw [Follows, if_neg (by simp)]
  exact ⟨[], {}, rfl, rfl, .init⟩

theorem step_arrived (h : r.step s q op = some r') :
    r'.arrived = r.arrived ++ match op with
      | .arrive bs => bs
      | _ => [] := by
  cases op with
  | arrive bs =>
    cases h
    rfl
  | read n =>
    cases h
    exact (List.append_nil _).symm
  | deliver n =>
    rw [step] at h
    split at h
    · cases h
      exact (List.append_nil _).symm
    · cases h
  | discard n =>
    rw [step] at h
    split at h
    · cases h
      exact (List.append_nil _).symm
    · cases h

theorem Follows.arrive (h : r.Follows s q) (bs : List UInt8) :
    Follows s q { r with arrived := r.arrived ++ bs, pending := r.pending ++ bs } := by
  rw [Follows] at h ⊢
  split at h
  next herr =>
    obtain ⟨y, hfeed, hy⟩ := h
    rw [if_pos herr]
    refine ⟨y, ?_, hy⟩
    rw [HqFilter.feed_after hfeed, HqPos.feed_failed hy, List.append_nil]
  next herr =>
    obtain ⟨consumed, y, harr, hfeed, hsim⟩ := h
    rw [if_neg herr]
    exact ⟨consumed, y, by rw [harr, List.append_assoc], hfeed, hsim⟩

theorem Follows.read (h : r.Follows s q) (herr : r.filter.error = false)
    (hpush : .abort .frameError ∉ (({} : HqPos δ).feed s q r.arrived).2)
    (h' : r.step s q (.read n) = some r') : r'.Follows s q := by
  rw [Follows, if_neg (by simp [herr])] at h
  obtain ⟨consumed, y, harr, hfeed, hsim⟩ := h
  cases h'
  have hpieces := List.take_append_drop n r.pending
  generalize r.pending.take n = piece at hpieces
  generalize r.pending.drop n = later at hpieces
  rw [← hpieces] at harr
  have hok : .abort .frameError ∉ (y.feed s q piece).2 := by
    rw [harr, HqFilter.feed_after hfeed] at hpush
    intro hm
    apply hpush
    apply List.mem_append_right
    rw [HqPos.feed_append]
    exact List.mem_append_left _ hm
  have hreads := HqFilter.hqRead_reads hsim hok
  generalize r.filter.hqRead s q piece false = t at hreads
  rw [HqFilter.Turn.Reads] at hreads
  rw [Follows]
  split at hreads
  next hbad =>
    obtain ⟨c, rest, z, rfl, hfeed', hz⟩ := hreads
    rw [if_pos hbad]
    refine ⟨z, ?_, hz⟩
    rw [harr, HqFilter.feed_after hfeed, List.append_assoc, HqFilter.feed_after hfeed',
      HqPos.feed_failed hz, List.append_nil]
  next hgood =>
    obtain ⟨c, z, rfl, hfeed', hz, -⟩ := hreads
    rw [if_neg hgood]
    refine ⟨consumed ++ c, z, ?_, ?_, hz⟩
    · rw [harr]
      simp only [List.append_assoc]
    · rw [HqFilter.feed_after hfeed, hfeed']

theorem Follows.deliver (h : r.Follows s q) (h' : r.step s q (.deliver n) = some r') :
    r'.Follows s q := by
  rw [step] at h'
  split at h'
  next hc =>
    simp only [Bool.and_eq_true, Bool.not_eq_true', decide_eq_true_eq] at hc
    obtain ⟨⟨hin, herr⟩, hn⟩ := hc
    cases h'
    rw [Follows, if_neg (by simp [herr])] at h
    obtain ⟨consumed, y, harr, hfeed, hsim⟩ := h
    have hpieces := List.take_append_drop n r.pending
    have hlen : (r.pending.take n).length = n := by
      rw [List.length_take]
      omega
    generalize r.pending.take n = piece at hpieces hlen
    subst hlen
    generalize r.pending.drop piece.length = later at hpieces
    rw [← hpieces] at harr
    have hle : piece.length ≤ r.filter.left := by omega
    obtain ⟨hfeed', hsim'⟩ := hsim.deliver (s := s) (q := q) hin hle
    generalize r.filter.hqDecrLeft piece.length = f' at hsim'
    rw [Follows, if_neg (by simp [hsim'.error])]
    refine ⟨consumed ++ piece, _, ?_, ?_, hsim'⟩
    · rw [harr, List.append_assoc]
    · rw [HqFilter.feed_after hfeed, hfeed']
  · cases h'

theorem Follows.discard (h : r.Follows s q) (h' : r.step s q (.discard n) = some r') :
    r'.Follows s q := by
  rw [step] at h'
  split at h'
  next herr =>
    cases h'
    rw [Follows, if_pos herr] at h ⊢
    exact h
  · cases h'

theorem Follows.step (h : r.Follows s q) (hcalm : op.isRead = true → r.filter.error = false)
    (hpush : .abort .frameError ∉ (({} : HqPos δ).feed s q r.arrived).2)
    (h' : r.step s q op = some r') : r'.Follows s q := by
  cases op with
  | arrive bs =>
    cases h'
    exact h.arrive bs
  | read n => exact h.read (hcalm rfl) hpush h'
  | deliver n => exact h.deliver h'
  | discard n => exact h.discard h'

theorem runs_arrived (h : runs s q r ops = some r') : ∃ more, r'.arrived = r.arrived ++ more := by
  induction ops generalizing r with
  | nil =>
    cases h
    exact ⟨[], (List.append_nil _).symm⟩
  | cons op ops ih =>
    rw [runs] at h
    obtain ⟨r₁, h₁, h⟩ := Option.bind_eq_some_iff.mp h
    obtain ⟨more, hmore⟩ := ih h
    rw [step_arrived h₁, List.append_assoc] at hmore
    exact ⟨_, hmore⟩

theorem Follows.runs (h : r.Follows s q) (hrun : runs s q r ops = some r')
    (hcalm : noReadAfterError s q r ops = true)
    (hpush : .abort .frameError ∉ (({} : HqPos δ).feed s q r'.arrived).2) : r'.Follows s q := by
  induction ops generalizing r with
  | nil =>
    cases hrun
    exact h
  | cons op ops ih =>
    obtain ⟨more, hmore⟩ := runs_arrived hrun
    rw [HqRun.runs] at hrun
    obtain ⟨r₁, h₁, hrun⟩ := Option.bind_eq_some_iff.mp hrun
    rw [noReadAfterError, h₁, Bool.and_eq_true, Bool.not_eq_true', Bool.and_eq_false_iff] at hcalm
    obtain ⟨hread, hlater⟩ := hcalm
    have hread' : op.isRead = true → r.filter.error = false := by
      intro hop
      exact hread.resolve_left (by simp [hop])
    have hok : .abort .frameError ∉ (({} : HqPos δ).feed s q r.arrived).2 := by
      rw [hmore, HqPos.feed_append] at hpush
      exact fun hm => hpush (List.mem_append_left _ hm)
    exact ih (h.step hread' hok h₁) hrun hlater

/-- What was found is what the bytes mean, and `hqfi_left` counts the payload still to come. -/
def Right (s : HqStream) (q : Qpack δ) (r : HqRun δ) : Prop :=
  if r.filter.error then r.events = (({} : HqPos δ).feed s q r.arrived).2
  else
    ∃ consumed, r.arrived = consumed ++ r.pending ∧
      r.events = (({} : HqPos δ).feed s q consumed).2 ∧
      ∀ n, (({} : HqPos δ).feed s q consumed).1.place.toCome = some n → r.filter.left = n

def Done (r : HqRun δ) : Prop := r.filter.error = true ∨ r.pending = []

theorem Follows.right (h : r.Follows s q) : r.Right s q := by
  rw [Follows] at h
  rw [Right]
  split at h
  next herr =>
    obtain ⟨y, hfeed, -⟩ := h
    rw [if_pos herr, hfeed]
  next herr =>
    obtain ⟨consumed, y, harr, hfeed, hsim⟩ := h
    rw [if_neg herr]
    refine ⟨consumed, harr, by rw [hfeed], ?_⟩
    intro n hn
    rw [hfeed] at hn
    exact hsim.left_eq hn

theorem Follows.events (h : r.Follows s q) (hdone : r.Done) :
    r.events = (({} : HqPos δ).feed s q r.arrived).2 := by
  rw [Follows] at h
  split at h
  next herr =>
    obtain ⟨y, hfeed, -⟩ := h
    rw [hfeed]
  next herr =>
    obtain ⟨consumed, y, harr, hfeed, -⟩ := h
    have hnil : r.pending = [] := hdone.resolve_left herr
    rw [harr, hnil, List.append_nil, hfeed]

/-- In whatever pieces, if no PUSH_PROMISE ends within its push ID and `hq_read` is not called after
an error. -/
theorem read_right_in_pieces (ops : List HqOp) (hrun : runs s q {} ops = some r)
    (hcalm : noReadAfterError s q {} ops = true)
    (hpush : .abort .frameError ∉ (({} : HqPos δ).feed s q r.arrived).2) :
    r.Right s q ∧
      ∀ ops' r', runs s q {} ops' = some r' → noReadAfterError s q {} ops' = true →
        r'.arrived = r.arrived → r.Done → r'.Done → r'.events = r.events := by
  have hfollows := Follows.init.runs hrun hcalm hpush
  refine ⟨hfollows.right, ?_⟩
  intro ops' r' hrun' hcalm' harr hdone hdone'
  have hfollows' := Follows.init.runs hrun' hcalm' (by rw [harr]; exact hpush)
  rw [hfollows.events hdone, hfollows'.events hdone', harr]

end

/-- What the QPACK decoder makes of the header block 00 00 d9, which is `:status 200` of the static
table, and of no other. -/
def statusOk : Qpack (List UInt8) where
  start _ := [0, 0, 0xd9]
  byte left b :=
    match left with
    | [] => .error
    | c :: rest => if b ≠ c then .error else if rest = [] then .done [] else .need rest

def response : List HqOp :=
  [.arrive [1, 3, 0], .read 3, .arrive [0, 0xd9, 0, 2, 7], .read 5, .deliver 1, .arrive [8],
    .deliver 1]

theorem read_right_in_pieces_response :
    ∃ r, runs {} statusOk {} response = some r ∧ r.arrived = [1, 3, 0, 0, 0xd9, 0, 2, 7, 8] ∧
      r.events = [.frame 1 3, .headers [], .frame 0 2, .data 7, .data 8] ∧ r.Right {} statusOk := by
  have hread : (runs {} statusOk {} response).map (fun r => (r.arrived, r.events)) =
      some ([1, 3, 0, 0, 0xd9, 0, 2, 7, 8],
        [.frame 1 3, .headers [], .frame 0 2, .data 7, .data 8]) := by
    decide +kernel
  obtain ⟨r, hrun, hr⟩ := Option.map_eq_some_iff.mp hread
  obtain ⟨harr, hevs⟩ := Prod.mk.inj hr
  refine ⟨r, hrun, harr, hevs, ?_⟩
  exact (read_right_in_pieces response hrun (by decide +kernel)
    (by rw [harr]; decide +kernel)).1

/-- A PUSH_PROMISE frame shorter than its push ID makes the counter wrap; and a piece after an error
is read. -/
theorem short_push_and_late_piece :
    ((runs {} statusOk {} [.arrive [5, 1, 64, 5], .read 4]).map fun r =>
      (r.filter.error, r.filter.left, r.events)) = some (false, 2 ^ 64 - 1, [.frame 5 1]) ∧
    (({} : HqPos (List UInt8)).feed {} statusOk [5, 1, 64, 5]).2 =
    [.frame 5 1, .abort .frameError] ∧
    ((runs {} statusOk {} [.arrive [4, 1, 0, 4, 0], .read 2, .read 3]).map (·.events)) =
      some [.frame 4 1, .abort .frameUnexpected, .frame 4 0, .abort .frameUnexpected] ∧
    ((runs {} statusOk {} [.arrive [4, 1, 0, 4, 0], .read 5]).map (·.events)) =
      some [.frame 4 1, .abort .frameUnexpected] := by
  decide +kernel

end HqRun

end QuicArt
