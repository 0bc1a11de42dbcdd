import QuicArt.HqParsing

namespace QuicArt

namespace HqPos

section
variable {δ : Type} {s : HqStream} {q : Qpack δ} {x : HqPos δ} {bs cs : List UInt8}

theorem feed_place_failed (h : (x.feed s q bs).1.place = .failed) :
    (x.feed s q (bs ++ cs)).1.place = .failed := by
  rw [feed_append, feed_failed h]
  exact h

theorem enter_frameError (x : HqPos δ) (ty len : Nat) :
    .abort .frameError ∉ (x.enter s ty len).2 := by
  rw [enter]
  simp only
  split
  · split
    · split
      · simp
      · simp
    · split
      · simp
      · split
        · simp
        · simp
  · simp

theorem headerByte_frameError (x : HqPos δ) (ty len seen : Nat) (dec : Option δ) (b : UInt8) :
    .abort .frameError ∉ (x.headerByte q ty len seen dec b).2 := by
  rw [headerByte]
  split
  · simp
  · simp
  · simp
  · simp

theorem next_frameError (h : .abort .frameError ∈ (x.next s q b).2) :
    (x.next s q b).1.place = .failed := by
  rw [next] at h ⊢
  cases hp : x.place with
  | header acc =>
    simp only [hp] at h
    split at h
    · cases h
    · exact absurd h (enter_frameError _ _ _)
  | pushId len acc =>
    simp only [hp] at h ⊢
    split at h
    · cases h
    · split at h
      · cases h
      next hc => rw [if_neg hc]
  | payload ty len seen dec =>
    simp only [hp] at h
    split at h
    · exact absurd h (by simp)
    · split at h
      · exact absurd h (headerByte_frameError _ _ _ _ _ _)
      · cases h
  | failed =>
    simp only [hp] at h
    cases h

theorem feed_frameError (h : .abort .frameError ∈ (x.feed s q bs).2) :
    (x.feed s q bs).1.place = .failed := by
  induction bs generalizing x with
  | nil => cases h
  | cons b bs ih =>
    rw [feed] at h ⊢
    rcases List.mem_append.mp h with h | h
    · rw [feed_failed (next_frameError h)]
      exact next_frameError h
    · exact ih h

end

end HqPos

namespace HqFilter

section
variable {δ : Type} {s : HqStream} {q : Qpack δ} {f : HqFilter δ} {x : HqPos δ} {input : List UInt8}

theorem Sim.between (h : f.Sim x) (hs : f.state = .frameHeaderBegin) : x.place = .header [] := by
  have hplace := h.place
  cases hp : x.place with
  | header acc =>
    rw [hp] at hplace
    rcases hplace with ⟨-, rfl⟩ | ⟨hs', -⟩
    · rfl
    · cases hs.symm.trans hs'
  | pushId len acc =>
    rw [hp] at hplace
    obtain ⟨-, -, -, -, -, ⟨hs', -⟩ | ⟨hs', -⟩⟩ := hplace
    · cases hs.symm.trans hs'
    · cases hs.symm.trans hs'
  | payload ty len seen dc =>
    rw [hp] at hplace
    cases hs.symm.trans hplace.1
  | failed =>
    rw [hp] at hplace
    exact hplace.elim

theorem hqRead_frame (h : f.Sim x) (hok : (x.feed s q input).1.place ≠ .failed) (fin : Bool) :
    ((f.hqRead s q input fin).filter.error = true ∧
      .abort .frameError ∈ (f.hqRead s q input fin).events ∧ fin = true ∧
      (f.hqRead s q input fin).rest = []) ∨
    ∃ c y, input = c ++ (f.hqRead s q input fin).rest ∧
      x.feed s q c = (y, (f.hqRead s q input fin).events) ∧ (f.hqRead s q input fin).filter.Sim y ∧
      (fin = true → (f.hqRead s q input fin).filter.Settled ∧
        ((f.hqRead s q input fin).rest = [] → y.place = .header [])) := by
  have hreads := readLoop_reads (s := s) (q := q) h (Nat.le_refl input.length)
    (fun hm => hok (HqPos.feed_frameError hm))
  rw [hqRead]
  generalize f.readLoop s q input.length input = t at hreads
  rw [Turn.Reads] at hreads
  split at hreads
  next herr =>
    obtain ⟨c, rest, y, rfl, hfeed, hy⟩ := hreads
    exact absurd (HqPos.feed_place_failed (by rw [hfeed]; exact hy)) hok
  next herr =>
    obtain ⟨c, y, hin, hfeed, hsim, hset⟩ := hreads
    split
    next hcut =>
      simp only [Bool.and_eq_true, decide_eq_true_eq] at hcut
      exact .inl ⟨rfl, by simp, hcut.1.1, hcut.1.2⟩
    next hcut =>
      have hbegin : fin = true → t.rest = [] → t.filter.state = .frameHeaderBegin := by
        intro hfin hrest
        by_contra hs
        exact hcut (by simp [hfin, hrest, hs])
      refine .inr ⟨c, y, hin, hfeed, hsim, ?_⟩
      intro hfin
      refine ⟨?_, fun hrest => hsim.between (hbegin hfin hrest)⟩
      by_cases hrest : t.rest = []
      · exact .inl (hbegin hfin hrest)
      · exact hset hrest

theorem Sim.decrZero (h : f.Sim x) (hset : f.Settled) : (f.hqDecrLeft 0).Sim x := by
  rcases hset with hs | ⟨hs, hpos⟩
  · have hset : ∀ v, (f.setLeft v).endPayload.Sim x := by
      intro v
      rw [endPayload]
      split
      · refine { h with place := ?_ }
        rw [h.between hs]
        exact .inl ⟨rfl, rfl⟩
      · refine { h with place := ?_ }
        rw [h.between hs]
        exact .inl ⟨hs, rfl⟩
    rw [hqDecrLeft, decrLeft]
    exact hset _
  · have hplace := h.place
    obtain ⟨ty, len, seen, dc, hp⟩ := h.inPayload hs
    rw [hp] at hplace
    obtain ⟨-, -, hleft, hlt, -⟩ := hplace
    rw [hqDecrLeft_zero hpos (by omega)]
    exact h

end

end HqFilter

/-- What is left of a data frame, and whether it is the last one. -/
structure HqFrame where
  bytes : List UInt8
  fin : Bool
  deriving DecidableEq, Repr

/-- The data frames as `data_in` will hand them out, all bytes that have arrived, and the payload of
the frame with FIN. -/
structure HqReader (δ : Type) where
  filter : HqFilter δ := {}
  frames : List HqFrame := []
  finReached : Bool := false
  events : List (HqEvent δ) := []
  arrived : List UInt8 := []
  finFrame : Option (List UInt8) := none

/-- A data frame arrives, `data_in` is switched or merges what it holds (the hash has FIN in an
empty frame), `hq_filter_readable` is called, or `read_data_frames` takes a turn. -/
inductive HqReaderOp
  | arrive (bs : List UInt8) (fin : Bool)
  | recut (pieces : List (List UInt8)) (last : List UInt8)
  | readable
  | read (n : Nat)
  deriving DecidableEq, Repr

namespace HqReader

variable {δ : Type}

/-- `read_data_frames` in `hq_filter_readable`: frame after frame, until one is not read to its end.
-/
def parseFrames (s : HqStream) (q : Qpack δ) (r : HqReader δ) : List HqFrame → HqReader δ
  | [] => { r with frames := [] }
  | frame :: frames =>
    let t := r.filter.hqRead s q frame.bytes frame.fin
    let r := { r with filter := t.filter, events := r.events ++ t.events }
    if t.rest = [] then
      if frame.fin then { r with frames, finReached := true } else parseFrames s q r frames
    else { r with frames := { frame with bytes := t.rest } :: frames }

/-- `hq_filter_df`: what it leaves, and how much of that the application may read. -/
def hqFilterDf (s : HqStream) (q : Qpack δ) (r : HqReader δ) (frame : HqFrame) :
    HqReader δ × List UInt8 × Nat :=
  let t := if r.filter.inData then ⟨r.filter, frame.bytes, [], true⟩
    else r.filter.hqRead s q frame.bytes frame.fin
  let r := { r with filter := t.filter, events := r.events ++ t.events }
  if r.filter.error then (r, [], 0)
  else if r.filter.inData then (r, t.rest, min r.filter.left t.rest.length)
  else (r, t.rest, 0)

/-- A turn of the loop of `read_data_frames` with the filter. -/
def readFrame (s : HqStream) (q : Qpack δ) (n : Nat) (r : HqReader δ) (frame : HqFrame)
    (frames : List HqFrame) : HqReader δ :=
  let (r, rest, toread) := r.hqFilterDf s q frame
  let nread := min n toread
  let r := if toread ≠ 0 ∨ frame.fin then { r with filter := r.filter.hqDecrLeft nread } else r
  let r := { r with events := r.events ++ (rest.take nread).map HqEvent.data }
  if rest.drop nread = [] then { r with frames, finReached := r.finReached || frame.fin }
  else { r with frames := { frame with bytes := rest.drop nread } :: frames }

/-- `hq_filter_readable` does not parse within a DATA payload, after an error or after the end. -/
def step (s : HqStream) (q : Qpack δ) (r : HqReader δ) : HqReaderOp → Option (HqReader δ)
  | .arrive bs fin =>
    if r.finFrame.isNone then
      some { r with
        frames := r.frames ++ [⟨bs, fin⟩]
        arrived := r.arrived ++ bs
        finFrame := if fin then some bs else none }
    else none
  | .recut pieces last =>
    if r.filter.error || r.finReached then none
    else if pieces.flatten ++ last = r.frames.flatMap (·.bytes) then
      let fin := r.frames.any (·.fin)
      some { r with
        frames := pieces.map (⟨·, false⟩) ++ [⟨last, fin⟩]
        finFrame := if fin then some last else none }
    else none
  | .readable =>
    if r.filter.inData || r.filter.error || r.finReached then some r
    else some (r.parseFrames s q r.frames)
  | .read n =>
    match r.frames with
    | [] => some r
    | frame :: frames => some (r.readFrame s q n frame frames)

def runs (s : HqStream) (q : Qpack δ) : HqReader δ → List HqReaderOp → Option (HqReader δ)
  | r, [] => some r
  | r, op :: ops => (r.step s q op).bind (runs s q · ops)

section
variable {s : HqStream} {q : Qpack δ} {r r' : HqReader δ} {frame : HqFrame} {frames : List HqFrame}
  {op : HqReaderOp}

/-- Only the last frame has FIN, and it is empty only if it was so from the beginning. -/
def Ends (finFrame : Option (List UInt8)) (frames : List HqFrame) : Prop :=
  ∀ pre frame post, frames = pre ++ frame :: post → frame.fin = true →
    post = [] ∧ finFrame.isSome ∧ (frame.bytes = [] → finFrame = some [])

theorem Ends.tail (h : Ends last (frame :: frames)) : Ends last frames := by
  intro pre fr post hfr hfin
  exact h (frame :: pre) fr post (by rw [hfr, List.cons_append]) hfin

theorem Ends.head (h : Ends last (frame :: frames)) (hfin : frame.fin = true) :
    frames = [] ∧ last.isSome ∧ (frame.bytes = [] → last = some []) :=
  h [] frame frames rfl hfin

theorem Ends.shorten (h : Ends last (frame :: frames)) (hne : frame.fin = true → rest ≠ []) :
    Ends last ({ frame with bytes := rest } :: frames) := by
  intro pre fr post hfr hfin
  cases pre with
  | nil =>
    cases hfr
    obtain ⟨hpost, hsome, -⟩ := h.head hfin
    exact ⟨hpost, hsome, fun hc => absurd hc (hne hfin)⟩
  | cons fr' pre =>
    obtain ⟨-, hfr⟩ := List.cons.inj hfr
    exact h.tail pre fr post hfr hfin

theorem Ends.arrive (h : Ends none frames) (bs : List UInt8) (fin : Bool) :
    Ends (if fin then some bs else none) (frames ++ [⟨bs, fin⟩]) := by
  intro pre fr post hfr hfin
  rcases List.eq_nil_or_concat' post with rfl | ⟨post, fr', rfl⟩
  · obtain ⟨rfl, hlast⟩ := List.append_inj' hfr rfl
    obtain rfl := (List.cons.inj hlast).1
    obtain rfl : fin = true := hfin
    exact ⟨rfl, rfl, fun hc => by rw [if_pos rfl]; exact congrArg some hc⟩
  · have hfr' : frames ++ [⟨bs, fin⟩] = (pre ++ fr :: post) ++ [fr'] := by
      rw [hfr]
      simp
    obtain ⟨hframes, -⟩ := List.append_inj' hfr' rfl
    exact absurd (h pre fr post hframes hfin).2.1 (by simp)

theorem Ends.pieces (pieces : List (List UInt8)) : Ends none (pieces.map (⟨·, false⟩)) := by
  intro pre fr post hfr hfin
  have hmem : fr ∈ pieces.map (HqFrame.mk · false) := by simp [hfr]
  obtain ⟨bs, -, rfl⟩ := List.mem_map.mp hmem
  cases hfin

/-- Everything up to these frames has been read, and means what was found. -/
def Reading (s : HqStream) (q : Qpack δ) (r : HqReader δ) (frames : List HqFrame) : Prop :=
  ∃ consumed y, r.arrived = consumed ++ frames.flatMap (·.bytes) ∧
    ({} : HqPos δ).feed s q consumed = (y, r.events) ∧ r.filter.Sim y

/-- Between two frames, or within a DATA payload behind its first byte or in an empty frame. -/
def Silent (last : Option (List UInt8)) (p : HqPlace δ) : Prop :=
  p = .header [] ∨ ∃ len seen dec, p = .payload hqftData len seen dec ∧
    (0 < seen ∨ last = some [])

structure Inv (s : HqStream) (q : Qpack δ) (r : HqReader δ) : Prop where
  reading : r.filter.error = false → r.Reading s q r.frames
  cut : r.filter.error = true →
    .abort .frameError ∈ r.events ∧ r.frames = [] ∧ r.finFrame.isSome
  ends : Ends r.finFrame r.frames
  last : r.finReached = true → r.frames = [] ∧ r.finFrame.isSome
  ended : r.finReached = true → r.filter.error = false →
    Silent r.finFrame (({} : HqPos δ).feed s q r.arrived).1.place

theorem Ends.nil (last : Option (List UInt8)) : Ends last [] := by
  intro pre fr post hfr
  exact absurd hfr (by simp)

theorem Inv.init : Inv s q ({} : HqReader δ) :=
  ⟨fun _ => ⟨[], {}, rfl, rfl, .init⟩, nofun, .nil _, nofun, nofun⟩

theorem Reading.error (h : r.Reading s q frames) : r.filter.error = false := by
  obtain ⟨_, _, _, _, hsim⟩ := h
  exact hsim.error

theorem Inv.of_reading (hread : r.Reading s q r.frames) (hends : Ends r.finFrame r.frames)
    (hfin : r.finReached = false) : r.Inv s q := by
  refine ⟨fun _ => hread, ?_, hends, ?_, ?_⟩
  · intro hc
    cases hread.error.symm.trans hc
  · intro hc
    cases hfin.symm.trans hc
  · intro hc
    cases hfin.symm.trans hc

theorem Inv.of_cut (herr : r.filter.error = true) (hcut : .abort .frameError ∈ r.events)
    (hnil : r.frames = []) (hsome : r.finFrame.isSome) : r.Inv s q := by
  refine ⟨?_, fun _ => ⟨hcut, hnil, hsome⟩, ?_, fun _ => ⟨hnil, hsome⟩, ?_⟩
  · intro hc
    cases herr.symm.trans hc
  · rw [hnil]
    exact .nil _
  · intro _ hc
    cases herr.symm.trans hc

theorem Inv.of_end (hread : r.Reading s q []) (hnil : r.frames = []) (hsome : r.finFrame.isSome)
    (hend : Silent r.finFrame (({} : HqPos δ).feed s q r.arrived).1.place) : r.Inv s q := by
  refine ⟨?_, ?_, ?_, fun _ => ⟨hnil, hsome⟩, fun _ _ => hend⟩
  · intro _
    rw [hnil]
    exact hread
  · intro hc
    cases hread.error.symm.trans hc
  · rw [hnil]
    exact .nil _

theorem Reading.head (h : r.Reading s q (frame :: frames))
    (hok : (({} : HqPos δ).feed s q r.arrived).1.place ≠ .failed) :
    ∃ consumed y, r.arrived = consumed ++ (frame.bytes ++ frames.flatMap (·.bytes)) ∧
      ({} : HqPos δ).feed s q consumed = (y, r.events) ∧ r.filter.Sim y ∧
      (y.feed s q frame.bytes).1.place ≠ .failed := by
  obtain ⟨consumed, y, harr, hfeed, hsim⟩ := h
  rw [List.flatMap_cons] at harr
  refine ⟨consumed, y, harr, hfeed, hsim, fun hc => hok ?_⟩
  rw [harr, HqFilter.feed_after hfeed]
  exact HqPos.feed_place_failed hc

theorem feed_piece {y z : HqPos δ} (harr : bs = consumed ++ (c ++ rest ++ tail))
    (hfeed : ({} : HqPos δ).feed s q consumed = (y, evs)) (hc : y.feed s q c = (z, evs')) :
    bs = consumed ++ c ++ (rest ++ tail) ∧
      ({} : HqPos δ).feed s q (consumed ++ c) = (z, evs ++ evs') := by
  refine ⟨by simp only [harr, List.append_assoc], ?_⟩
  rw [HqFilter.feed_after hfeed, hc]

theorem Inv.advance {z : HqPos δ} {filter : HqFilter δ} {events : List (HqEvent δ)}
    (harr : r.arrived = consumed ++ (rest ++ frames.flatMap (·.bytes)))
    (hfeed : ({} : HqPos δ).feed s q consumed = (z, events)) (hsim : filter.Sim z)
    (hfin : r.finReached = false) (hends : Ends r.finFrame (frame :: frames))
    (hend : frame.fin = true → rest = [] → Silent r.finFrame z.place) :
    Inv s q (if rest = [] then
        { r with filter, events, frames, finReached := r.finReached || frame.fin }
      else { r with filter, events, frames := { frame with bytes := rest } :: frames }) := by
  by_cases hrest : rest = []
  · rw [if_pos hrest]
    rw [hrest, List.nil_append] at harr
    by_cases hf : frame.fin = true
    · obtain ⟨rfl, hsome, -⟩ := hends.head hf
      refine .of_end ⟨consumed, z, harr, hfeed, hsim⟩ rfl hsome ?_
      rw [List.flatMap_nil, List.append_nil] at harr
      simp only [harr, hfeed]
      exact hend hf hrest
    · refine .of_reading ⟨consumed, z, harr, hfeed, hsim⟩ hends.tail ?_
      simp [hfin, hf]
  · rw [if_neg hrest]
    exact .of_reading ⟨consumed, z, harr, hfeed, hsim⟩ (hends.shorten fun _ => hrest) hfin

theorem parseFrames_inv (hread : r.Reading s q frames) (hends : Ends r.finFrame frames)
    (hfin : r.finReached = false) (hok : (({} : HqPos δ).feed s q r.arrived).1.place ≠ .failed) :
    (r.parseFrames s q frames).Inv s q := by
  induction frames generalizing r with
  | nil => exact .of_reading hread hends hfin
  | cons frame frames ih =>
    obtain ⟨consumed, y, harr, hfeed, hsim, hpiece⟩ := hread.head hok
    have hframe := HqFilter.hqRead_frame (s := s) (q := q) hsim hpiece frame.fin
    rw [parseFrames]
    generalize r.filter.hqRead s q frame.bytes frame.fin = t at hframe
    rcases hframe with ⟨herr, hcut, hf, hrest⟩ | ⟨c, z, hin, hfeed', hsim', hend⟩
    · obtain ⟨hnil, hsome, -⟩ := hends.head hf
      rw [if_pos hrest, if_pos hf]
      exact .of_cut herr (List.mem_append_right _ hcut) hnil hsome
    · rw [hin] at harr
      obtain ⟨harr', hfeed₂⟩ := feed_piece harr hfeed hfeed'
      have hnext := Inv.advance harr' hfeed₂ hsim' hfin hends
        fun hf hrest => .inl ((hend hf).2 hrest)
      by_cases hrest : t.rest = []
      · rw [if_pos hrest] at hnext ⊢
        by_cases hf : frame.fin = true
        · rw [hf, Bool.or_true] at hnext
          rw [if_pos hf]
          exact hnext
        · rw [if_neg hf]
          exact ih (hnext.reading hsim'.error) hends.tail hfin hok
      · rw [if_neg hrest] at hnext ⊢
        exact hnext

theorem Silent.of_data {f : HqFilter δ} (hsim : f.Sim y) (hin : f.inData = true)
    (hle : bs.length ≤ f.left) (hempty : bs = [] → last = some []) :
    Silent last (y.feed s q bs).1.place := by
  obtain ⟨len, seen, dc, hp, hpos, -, hleft⟩ := hsim.inDataPayload hin
  by_cases hnil : bs = []
  · rw [hnil]
    exact .inr ⟨len, seen, dc, hp, .inr (hempty hnil)⟩
  · have hbs : 0 < bs.length := List.length_pos_iff.mpr hnil
    rw [HqPos.feed_data hp hpos (by omega) hnil, HqPos.after]
    simp only
    split
    · exact .inl rfl
    · exact .inr ⟨len, _, none, rfl, .inl (by omega)⟩

theorem readFrame_eq {g : HqFilter δ} (hdf : r.hqFilterDf s q frame = (r', rest, toread))
    (hg : (if toread ≠ 0 ∨ frame.fin = true then r'.filter.hqDecrLeft (min n toread)
      else r'.filter) = g) :
    r.readFrame s q n frame frames =
      if rest.drop (min n toread) = [] then
        { r' with
          filter := g
          events := r'.events ++ (rest.take (min n toread)).map .data
          frames
          finReached := r'.finReached || frame.fin }
      else
        { r' with
          filter := g
          events := r'.events ++ (rest.take (min n toread)).map .data
          frames := { frame with bytes := rest.drop (min n toread) } :: frames } := by
  rw [readFrame, hdf]
  simp only
  split at hg
  next hc =>
    rw [if_pos hc, hg]
  next hc =>
    rw [if_neg hc, hg]

section
variable {n : Nat} (hread : r.Reading s q (frame :: frames))
  (hends : Ends r.finFrame (frame :: frames)) (hfin : r.finReached = false)
include hread hends hfin

theorem readFrame_inData (hin : r.filter.inData = true) :
    (r.readFrame s q n frame frames).Inv s q := by
  have herr := hread.error
  obtain ⟨consumed, y, harr, hfeed, hsim⟩ := hread
  rw [List.flatMap_cons] at harr
  obtain ⟨len, seen, dc, -, hpos, hlt, hleft⟩ := hsim.inDataPayload hin
  have hdf : r.hqFilterDf s q frame =
      (r, frame.bytes, min r.filter.left frame.bytes.length) := by
    rw [hqFilterDf]
    simp only [hin, if_true, herr, List.append_nil]
    rfl
  have hg : (if min r.filter.left frame.bytes.length ≠ 0 ∨ frame.fin = true then
      r.filter.hqDecrLeft (min n (min r.filter.left frame.bytes.length)) else r.filter) =
      r.filter.hqDecrLeft (min n (min r.filter.left frame.bytes.length)) := by
    split
    · rfl
    next hc =>
      have hzero : min n (min r.filter.left frame.bytes.length) = 0 := by omega
      rw [hzero, HqFilter.hqDecrLeft_zero (by omega) (by omega)]
  rw [readFrame_eq hdf hg]
  generalize hk : min n (min r.filter.left frame.bytes.length) = k
  have hlen : (frame.bytes.take k).length = k := by
    rw [List.length_take]
    omega
  have hpieces := List.take_append_drop k frame.bytes
  obtain ⟨hdata, hsim'⟩ := @HqFilter.Sim.deliver _ s q _ _ (frame.bytes.take k) hsim hin (by omega)
  rw [← hpieces] at harr
  obtain ⟨harr', hfeed₂⟩ := feed_piece harr hfeed hdata
  rw [hlen] at hsim'
  refine .advance harr' hfeed₂ hsim' hfin hends fun hf hdrop => ?_
  refine .of_data hsim hin (by omega) fun hnil => (hends.head hf).2.2 ?_
  rw [← hpieces, hnil, hdrop]
  rfl

theorem readFrame_parse (hok : (({} : HqPos δ).feed s q r.arrived).1.place ≠ .failed)
    (hin : r.filter.inData = false) : (r.readFrame s q n frame frames).Inv s q := by
  obtain ⟨consumed, y, harr, hfeed, hsim, hpiece⟩ := hread.head hok
  have hframe := HqFilter.hqRead_frame (s := s) (q := q) hsim hpiece frame.fin
  have hdf : r.hqFilterDf s q frame =
      let t := r.filter.hqRead s q frame.bytes frame.fin
      let r' := { r with filter := t.filter, events := r.events ++ t.events }
      if t.filter.error then (r', [], 0)
      else if t.filter.inData then (r', t.rest, min t.filter.left t.rest.length)
      else (r', t.rest, 0) := by
    rw [hqFilterDf]
    simp only [hin, Bool.false_eq_true, if_false]
  generalize r.filter.hqRead s q frame.bytes frame.fin = t at hframe hdf
  simp only at hdf
  rcases hframe with ⟨herr, hcut, hf, hrest⟩ | ⟨c, z, hbytes, hfeed', hsim', hend⟩
  · obtain ⟨hnil, hsome, -⟩ := hends.head hf
    rw [if_pos herr] at hdf
    rw [readFrame_eq hdf rfl, if_pos List.drop_nil]
    refine .of_cut ?_ ?_ hnil hsome
    · simp only [hf, or_true, if_true]
      rw [HqFilter.hqDecrLeft, HqFilter.endPayload_error, HqFilter.decrLeft_error]
      exact herr
    · exact List.mem_append_left _ (List.mem_append_right _ hcut)
  · rw [hbytes] at harr
    obtain ⟨harr', hfeed₂⟩ := feed_piece harr hfeed hfeed'
    rw [if_neg (by simp [hsim'.error])] at hdf
    by_cases hin' : t.filter.inData = true
    · -- the rest of the turn is one that begins within the DATA payload
      have hne : frame.fin = true → t.rest ≠ [] := by
        intro hf hrest
        obtain ⟨len, seen, dc, hp, -⟩ := hsim'.inDataPayload hin'
        cases hp.symm.trans ((hend hf).2 hrest)
      have hsame : r.readFrame s q n frame frames =
          readFrame s q n { r with filter := t.filter, events := r.events ++ t.events }
            { frame with bytes := t.rest } frames := by
        rw [if_pos hin'] at hdf
        rw [readFrame, readFrame, hdf, hqFilterDf]
        simp only [hin', if_true, hsim'.error, List.append_nil, Bool.false_eq_true, if_false]
      rw [hsame]
      refine readFrame_inData ⟨consumed ++ c, z, ?_, hfeed₂, hsim'⟩ (hends.shorten hne) hfin hin'
      rw [List.flatMap_cons]
      exact harr'
    · rw [if_neg hin'] at hdf
      have hg : HqFilter.Sim (if 0 ≠ 0 ∨ frame.fin = true then t.filter.hqDecrLeft 0
          else t.filter) z := by
        by_cases hf : frame.fin = true
        · rw [if_pos (.inr hf)]
          exact hsim'.decrZero (hend hf).1
        · rw [if_neg (by simp [hf])]
          exact hsim'
      rw [readFrame_eq hdf rfl, Nat.min_zero, List.drop_zero, List.take_zero, List.map_nil,
        List.append_nil]
      exact .advance harr' hfeed₂ hg hfin hends fun hf hrest => .inl ((hend hf).2 hrest)

end

theorem Inv.running (h : r.Inv s q) (hr : r.frames ≠ [] ∨ r.finFrame = none) :
    r.filter.error = false ∧ r.finReached = false := by
  have hno : ¬ (r.frames = [] ∧ r.finFrame.isSome) := by
    rintro ⟨hnil, hsome⟩
    rcases hr with hne | hnone
    · exact hne hnil
    · rw [hnone] at hsome
      cases hsome
  refine ⟨?_, ?_⟩
  · by_contra hc
    exact hno (h.cut (by simpa using hc)).2
  · by_contra hc
    exact hno (h.last (by simpa using hc))

theorem Inv.arrive (h : r.Inv s q) (hnone : r.finFrame = none) (bs : List UInt8) (fin : Bool) :
    Inv s q { r with
      frames := r.frames ++ [⟨bs, fin⟩]
      arrived := r.arrived ++ bs
      finFrame := if fin then some bs else none } := by
  obtain ⟨herr, hfin⟩ := h.running (.inr hnone)
  obtain ⟨consumed, y, harr, hfeed, hsim⟩ := h.reading herr
  have hends := h.ends
  rw [hnone] at hends
  refine .of_reading ⟨consumed, y, ?_, hfeed, hsim⟩ (hends.arrive bs fin) hfin
  simp [harr]

theorem Inv.recut (h : r.Inv s q) (herr : r.filter.error = false) (hfin : r.finReached = false)
    {pieces : List (List UInt8)} {last : List UInt8}
    (hcut : pieces.flatten ++ last = r.frames.flatMap (·.bytes)) (fin : Bool) :
    Inv s q { r with
      frames := pieces.map (⟨·, false⟩) ++ [⟨last, fin⟩]
      finFrame := if fin then some last else none } := by
  obtain ⟨consumed, y, harr, hfeed, hsim⟩ := h.reading herr
  refine .of_reading ⟨consumed, y, ?_, hfeed, hsim⟩ ((Ends.pieces pieces).arrive last fin) hfin
  rw [harr, ← hcut, List.flatMap_append, List.flatMap_map]
  simp [List.flatMap_id']

theorem Inv.step (h : r.Inv s q) (hok : (({} : HqPos δ).feed s q r.arrived).1.place ≠ .failed)
    (h' : r.step s q op = some r') : r'.Inv s q := by
  cases op with
  | arrive bs fin =>
    rw [HqReader.step] at h'
    split at h'
    next hnone =>
      cases h'
      exact h.arrive (Option.isNone_iff_eq_none.mp hnone) bs fin
    · cases h'
  | recut pieces last =>
    rw [HqReader.step] at h'
    split at h'
    · cases h'
    next hc =>
      simp only [Bool.or_eq_true, not_or, Bool.not_eq_true] at hc
      split at h'
      next hcut =>
        cases h'
        exact h.recut hc.1 hc.2 hcut _
      · cases h'
  | readable =>
    rw [HqReader.step] at h'
    split at h'
    · cases h'
      exact h
    next hc =>
      simp only [Bool.or_eq_true, not_or, Bool.not_eq_true] at hc
      obtain ⟨⟨-, herr⟩, hfin⟩ := hc
      cases h'
      exact parseFrames_inv (h.reading herr) h.ends hfin hok
  | read n =>
    rw [HqReader.step] at h'
    split at h'
    · cases h'
      exact h
    next frame frames hframes =>
      cases h'
      obtain ⟨herr, hfin⟩ := h.running (.inl (by simp [hframes]))
      have hread := h.reading herr
      have hends := h.ends
      rw [hframes] at hread hends
      cases hin : r.filter.inData with
      | true => exact readFrame_inData hread hends hfin hin
      | false => exact readFrame_parse hread hends hfin hok hin

theorem parseFrames_arrived (r : HqReader δ) (frames : List HqFrame) :
    (r.parseFrames s q frames).arrived = r.arrived := by
  induction frames generalizing r with
  | nil => rfl
  | cons frame frames ih =>
    rw [parseFrames]
    split
    · split
      · rfl
      · exact ih _
    · rfl

theorem readFrame_arrived (r : HqReader δ) (n : Nat) (frame : HqFrame) (frames : List HqFrame) :
    (r.readFrame s q n frame frames).arrived = r.arrived := by
  have hdf : (r.hqFilterDf s q frame).1.arrived = r.arrived := by
    rw [hqFilterDf]
    generalize (if r.filter.inData = true then
      (⟨r.filter, frame.bytes, [], true⟩ : HqFilter.Turn δ)
      else r.filter.hqRead s q frame.bytes frame.fin) = t
    split
    · rfl
    · split
      · rfl
      · rfl
  generalize hres : r.hqFilterDf s q frame = res at hdf
  obtain ⟨r', rest, toread⟩ := res
  rw [readFrame_eq hres rfl]
  split
  · exact hdf
  · exact hdf

theorem step_arrived (h : r.step s q op = some r') : r.arrived <+: r'.arrived := by
  cases op with
  | arrive bs fin =>
    rw [step] at h
    split at h
    · cases h
      exact List.prefix_append _ bs
    · cases h
  | recut pieces last =>
    rw [step] at h
    split at h
    · cases h
    · split at h
      · cases h
        exact List.prefix_rfl
      · cases h
  | readable =>
    rw [step] at h
    split at h
    · cases h
      exact List.prefix_rfl
    · cases h
      exact (parseFrames_arrived r r.frames).symm ▸ List.prefix_rfl
  | read n =>
    rw [step] at h
    split at h
    · cases h
      exact List.prefix_rfl
    · cases h
      exact (readFrame_arrived r n _ _).symm ▸ List.prefix_rfl

theorem runs_arrived (h : runs s q r ops = some r') : r.arrived <+: r'.arrived := by
  induction ops generalizing r with
  | nil =>
    cases h
    exact List.prefix_rfl
  | cons op ops ih =>
    rw [runs] at h
    obtain ⟨r₁, h₁, h⟩ := Option.bind_eq_some_iff.mp h
    exact (step_arrived h₁).trans (ih h)

theorem Inv.runs (h : r.Inv s q) (hrun : runs s q r ops = some r')
    (hok : (({} : HqPos δ).feed s q r'.arrived).1.place ≠ .failed) : r'.Inv s q := by
  induction ops generalizing r with
  | nil =>
    cases hrun
    exact h
  | cons op ops ih =>
    obtain ⟨more, hmore⟩ := runs_arrived hrun
    rw [HqReader.runs] at hrun
    obtain ⟨r₁, h₁, hrun⟩ := Option.bind_eq_some_iff.mp hrun
    have hok₁ : (({} : HqPos δ).feed s q r.arrived).1.place ≠ .failed := by
      intro hc
      apply hok
      rw [← hmore]
      exact HqPos.feed_place_failed hc
    exact ih (h.step hok₁ h₁) hrun

end

end HqReader

end QuicArt
