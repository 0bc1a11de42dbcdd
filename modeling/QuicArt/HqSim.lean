import QuicArt.HqSpec
import QuicArt.WindowSpec

namespace QuicArt

namespace HqPos

section
variable {δ : Type} {s : HqStream} {q : Qpack δ} {x y : HqPos δ} {b : UInt8} {bs cs : List UInt8}

theorem feed_append (x : HqPos δ) (bs cs : List UInt8) :
    x.feed s q (bs ++ cs) =
      (((x.feed s q bs).1.feed s q cs).1, (x.feed s q bs).2 ++ ((x.feed s q bs).1.feed s q cs).2) := by
  induction bs generalizing x with
  | nil => rfl
  | cons b bs ih =>
    rw [List.cons_append, feed, feed, ih]
    simp [List.append_assoc]

theorem feed_failed (h : x.place = .failed) (bs : List UInt8) : x.feed s q bs = (x, []) := by
  induction bs with
  | nil => rfl
  | cons b bs ih =>
    have hn : x.next s q b = (x, []) := by
      rw [next, h]
    rw [feed, hn, ih]
    rfl

theorem feed_cons_of_next (h : x.next s q b = (y, [])) : x.feed s q (b :: bs) = y.feed s q bs := by
  rw [feed, h]
  rfl

theorem feed_singleton (x : HqPos δ) (b : UInt8) : x.feed s q [b] = x.next s q b := by
  rw [feed]
  simp [feed]

theorem enter_place (x : HqPos δ) (p : HqPlace δ) (type len : Nat) :
    ({ x with place := p } : HqPos δ).enter s type len = x.enter s type len := by
  have hexp : ({ x with place := p } : HqPos δ).expects s type = x.expects s type := rfl
  have hnote : ({ x with place := p } : HqPos δ).note s type len =
      { x.note s type len with place := p } := by
    rw [note, note]
    split
    · split
      · rfl
      · rfl
    · split
      · rfl
      · rfl
  rw [enter, enter, hexp, hnote]

theorem feed_snoc (h : x.feed s q c = (y, [])) (b : UInt8) :
    x.feed s q (c ++ [b]) = y.next s q b := by
  rw [feed_append, h, feed_singleton]
  rfl

theorem decodeTwo_lt (h : VarintRead2State.decodeTwo bs = some (one, two, rest)) :
    two < 2 ^ 62 := by
  rw [VarintRead2State.decodeTwo] at h
  split at h
  · cases h
  · split at h
    · cases h
    next h2 =>
      cases h
      exact VarintReadState.decodeVarint_lt h2

theorem feed_header {st : VarintRead2State} (h : st.After acc) (hp : x.place = .header acc) :
    match feedUntil VarintRead2State.step st bs with
    | (st', rest, false) => rest = [] ∧ st'.After (acc ++ bs) ∧
        x.feed s q bs = ({ x with place := .header (acc ++ bs) }, [])
    | (st', rest, true) => ∃ c, bs = c ++ rest ∧ c ≠ [] ∧ st'.varint.val < 2 ^ 62 ∧
        x.feed s q c = x.enter s st'.one st'.varint.val := by
  have hrule := @feedUntil_rule _ _ VarintRead2State.step st bs
    (fun c st => st.After (acc ++ c) ∧
      x.feed s q c = ({ x with place := .header (acc ++ c) }, []))
    (fun c st => st.varint.val < 2 ^ 62 ∧ x.feed s q c = x.enter s st.one st.varint.val) ?_ ?_
  · rcases hrule with ⟨st', hf, h⟩ | ⟨st', c, rest, hf, h⟩
    · rw [hf]
      exact ⟨rfl, h⟩
    · rw [hf]
      exact ⟨c, h⟩
  · rintro c b rest st - ⟨hafter, hfeed⟩
    have hstep := hafter.step b
    have hnext := feed_snoc hfeed b
    simp only [next] at hnext
    cases hd : VarintRead2State.decodeTwo (acc ++ c ++ [b]) with
    | none =>
      rw [hd] at hstep
      simp only [hd] at hnext
      rw [List.append_assoc] at hstep hnext
      exact .inl ⟨hstep.1, hstep.2, hnext⟩
    | some r =>
      obtain ⟨one, two, left⟩ := r
      rw [hd] at hstep
      obtain ⟨hdone, hone, htwo, -⟩ := hstep
      simp only [hd, enter_place] at hnext
      rw [hone, htwo]
      exact .inr ⟨hdone, decodeTwo_lt hd, hnext⟩
  · rw [List.append_nil, ← hp]
    exact ⟨h, rfl⟩

theorem feed_pushId {st : VarintReadState} (h : st.After acc) (hp : x.place = .pushId len acc)
    (hlen : acc.length < len) (hok : .abort .frameError ∉ (x.feed s q bs).2) :
    match feedUntil VarintReadState.step st bs with
    | (st', rest, false) => rest = [] ∧ st'.After (acc ++ bs) ∧ (acc ++ bs).length < len ∧
        x.feed s q bs = ({ x with place := .pushId len (acc ++ bs) }, [])
    | (_, rest, true) => ∃ c, bs = c ++ rest ∧ c ≠ [] ∧ (acc ++ c).length ≤ len ∧
        x.feed s q c =
          ({ x with place := .payload hqftPushPromise len (acc ++ c).length none }, []) := by
  have hrule := @feedUntil_rule _ _ VarintReadState.step st bs
    (fun c st => st.After (acc ++ c) ∧ (acc ++ c).length < len ∧
      x.feed s q c = ({ x with place := .pushId len (acc ++ c) }, []))
    (fun c _ => (acc ++ c).length ≤ len ∧ x.feed s q c =
      ({ x with place := .payload hqftPushPromise len (acc ++ c).length none }, [])) ?_ ?_
  · rcases hrule with ⟨st', hf, h⟩ | ⟨st', c, rest, hf, h⟩
    · rw [hf]
      exact ⟨rfl, h⟩
    · rw [hf]
      exact ⟨c, h⟩
  · rintro c b rest st hbs ⟨hafter, hlt, hfeed⟩
    have hstep := hafter.step b
    have hnext := feed_snoc hfeed b
    have hsnoc : (acc ++ (c ++ [b])).length = (acc ++ c).length + 1 := by simp [Nat.add_assoc]
    simp only [next] at hnext
    rw [hsnoc]
    cases hd : decodeVarint (acc ++ c ++ [b]) with
    | none =>
      rw [hd, List.append_assoc] at hstep
      simp only [hd] at hnext
      split at hnext
      next hmore =>
        rw [List.append_assoc] at hnext
        exact .inl ⟨hstep.1, hstep.2, hmore, hnext⟩
      · -- the payload ends here, and the push ID does not
        rw [hbs, ← List.singleton_append, ← List.append_assoc, feed_append, hnext] at hok
        exact absurd (List.mem_append_left _ (.head _)) hok
    | some r =>
      rw [hd] at hstep
      simp only [hd] at hnext
      exact .inr ⟨by rw [hstep.1], hlt, hnext⟩
  · rw [List.append_nil, ← hp]
    exact ⟨h, hlen, rfl⟩

def after (type len seen : Nat) (dec : Option δ) : HqPlace δ :=
  if seen = len then .header [] else .payload type len seen dec

theorem feed_payload (type : Nat) (evs : UInt8 → List (HqEvent δ))
    (hnext : ∀ seen, ∀ y : HqPos δ, (∃ dec, y.place = .payload type len seen dec) →
      ∀ b, y.next s q b = ({ y with place := behind type len seen none }, evs b))
    (hp : ∃ dec, x.place = .payload type len seen dec) (hlt : seen < len)
    (hlen : seen + bs.length ≤ len) (hne : bs ≠ []) :
    x.feed s q bs = ({ x with place := after type len (seen + bs.length) none },
      bs.flatMap evs) := by
  induction bs generalizing x seen with
  | nil => exact absurd rfl hne
  | cons b bs ih =>
    rw [feed, hnext seen x hp b, List.flatMap_cons, List.length_cons]
    rw [List.length_cons] at hlen
    cases bs with
    | nil => rfl
    | cons c cs =>
      rw [List.length_cons] at hlen
      have hplace : behind type len seen (none : Option δ) = .payload type len (seen + 1) none := by
        rw [behind, if_neg (by omega)]
      rw [hplace]
      have hih := ih (x := { x with place := .payload type len (seen + 1) none }) ⟨none, rfl⟩
        (by omega) (by rw [List.length_cons]; omega) (by simp)
      rw [hih]
      have hsum : seen + 1 + (c :: cs).length = seen + ((c :: cs).length + 1) := by omega
      rw [hsum]

theorem feed_data (hp : x.place = .payload hqftData len seen dec) (hlt : seen < len)
    (hlen : seen + bs.length ≤ len) (hne : bs ≠ []) :
    x.feed s q bs =
      ({ x with place := after hqftData len (seen + bs.length) none }, bs.map .data) := by
  have h := feed_payload (s := s) (q := q) (x := x) hqftData (fun b => [.data b])
    (fun seen y hy b => by
      obtain ⟨dec, hy⟩ := hy
      rw [next, hy]
      rfl) ⟨dec, hp⟩ hlt hlen hne
  rw [h]
  congr 1
  exact (List.map_eq_flatMap).symm

theorem feed_skip (hp : x.place = .payload type len seen dec) (hd : type ≠ hqftData)
    (hh : ¬ (type = hqftHeaders ∨ type = hqftPushPromise)) (hlt : seen < len)
    (hlen : seen + bs.length ≤ len) (hne : bs ≠ []) :
    x.feed s q bs = ({ x with place := after type len (seen + bs.length) none }, []) := by
  have h := feed_payload (s := s) (q := q) (x := x) type (fun _ => [])
    (fun seen y hy b => by
      obtain ⟨dec, hy⟩ := hy
      rw [next, hy]
      simp only [hd, hh, if_false]) ⟨dec, hp⟩ hlt hlen hne
  rw [h]
  congr 1
  simp

/-- The position after bytes of a header block, up to one at which the decoder stops. -/
def blockRead (x : HqPos δ) (type len seen : Nat) : QpackStep δ → HqPos δ × List (HqEvent δ)
  | .need d | .blocked d => ({ x with place := after type len seen (some d) }, [])
  | .done d => ({ x with place := after type len seen (some d) }, [.headers d])
  | .error => ({ x with place := .failed }, [.abort .abortConnection])

theorem feed_block (hp : x.place = .payload type len seen dec) (hd : type ≠ hqftData)
    (hh : type = hqftHeaders ∨ type = hqftPushPromise) (hdec : decoder q (len - seen) dec = some d)
    (hlen : seen + bs.length ≤ len) (hne : bs ≠ []) :
    ∃ c, bs = c ++ (HqFilter.headerRead q d bs).2 ∧ c ≠ [] ∧
      x.feed s q c = x.blockRead type len (seen + c.length) (HqFilter.headerRead q d bs).1 := by
  induction bs generalizing x seen dec d with
  | nil => exact absurd rfl hne
  | cons b bs ih =>
    have hnext : x.next s q b = x.blockRead type len (seen + 1) (q.byte d b) := by
      rw [next, hp]
      simp only [hd, if_false, hh, if_true]
      rw [headerByte, hdec, Option.map_some]
      cases q.byte d b <;> rfl
    rw [HqFilter.headerRead]
    rw [List.length_cons] at hlen
    cases hb : q.byte d b with
    | need d' =>
      rw [hb, blockRead] at hnext
      cases bs with
      | nil => exact ⟨[b], rfl, by simp, by rw [feed_singleton, hnext]; rfl⟩
      | cons c cs =>
        rw [List.length_cons] at hlen
        rw [after, if_neg (by omega)] at hnext
        obtain ⟨c', hbs, -, hfeed⟩ :=
          ih (x := { x with place := .payload type len (seen + 1) (some d') }) rfl rfl
            (by rw [List.length_cons]; omega) (by simp)
        refine ⟨b :: c', by rw [List.cons_append, ← hbs], by simp, ?_⟩
        rw [feed_cons_of_next hnext, hfeed, List.length_cons, Nat.add_assoc, Nat.add_comm 1]
        cases (HqFilter.headerRead q d' (c :: cs)).1 <;> rfl
    | done d' => exact ⟨[b], rfl, by simp, by rw [feed_singleton, hnext, hb]; rfl⟩
    | blocked d' => exact ⟨[b], rfl, by simp, by rw [feed_singleton, hnext, hb]; rfl⟩
    | error => exact ⟨[b], rfl, by simp, by rw [feed_singleton, hnext, hb]; rfl⟩

end

end HqPos

namespace HqFilter

variable {δ : Type}

def AtPlace (f : HqFilter δ) : HqPlace δ → Prop
  | .header acc => (f.state = .frameHeaderBegin ∧ acc = []) ∨
      (f.state = .frameHeaderContinue ∧ f.vint2.After acc)
  | .pushId len acc => f.type = hqftPushPromise ∧ f.begin = true ∧ f.left = len - acc.length ∧
      acc.length < len ∧ len < 2 ^ 62 ∧
      ((f.state = .pushIdBegin ∧ acc = []) ∨ (f.state = .pushIdContinue ∧ f.vint1.After acc))
  | .payload type len seen dec => f.state = .readingPayload ∧ f.type = type ∧
      f.left = len - seen ∧ len < 2 ^ 62 ∧
      (seen < len ∨ (seen = len ∧ type = hqftPushPromise ∧ dec = none)) ∧
      (type = hqftHeaders ∨ type = hqftPushPromise →
        (dec = none ∧ f.begin = true) ∨ (dec.isSome ∧ f.begin = false ∧ f.dec = dec))
  | .failed => False

structure Sim (f : HqFilter δ) (x : HqPos δ) : Prop where
  error : f.error = false
  header : f.header = x.header
  data : f.data = x.data
  trailer : f.trailer = x.trailer
  dataIn : f.dataIn = x.dataIn
  place : f.AtPlace x.place

theorem Sim.init : Sim ({} : HqFilter δ) {} :=
  ⟨rfl, rfl, rfl, rfl, rfl, .inl ⟨rfl, rfl⟩⟩

section
variable {s : HqStream} {q : Qpack δ} {f g : HqFilter δ} {x : HqPos δ} {input : List UInt8}

/-- Where the loop of `hq_read` may stop before the end of its input. -/
def Settled (f : HqFilter δ) : Prop :=
  f.state = .frameHeaderBegin ∨ (f.state = .readingPayload ∧ 0 < f.left)

/-- A turn that goes well takes bytes of the input, and one that fails does so at a byte of it. -/
def Turn.Ok (s : HqStream) (q : Qpack δ) (x : HqPos δ) (input : List UInt8) (t : Turn δ) : Prop :=
  if t.filter.error then
    t.stop = true ∧ ∃ c rest y, input = c ++ rest ∧ x.feed s q c = (y, t.events) ∧ y.place = .failed
  else
    ∃ c y, input = c ++ t.rest ∧ x.feed s q c = (y, t.events) ∧ t.filter.Sim y ∧
      if t.stop then t.filter.Settled else c ≠ []

theorem Turn.Ok.goes {t : Turn δ} {y : HqPos δ} (hfeed : x.feed s q c = (y, t.events))
    (hin : input = c ++ t.rest) (hsim : t.filter.Sim y)
    (hstop : if t.stop then t.filter.Settled else c ≠ []) : Turn.Ok s q x input t := by
  rw [Turn.Ok, if_neg (by simp [hsim.error])]
  exact ⟨c, y, hin, hfeed, hsim, hstop⟩

theorem note_dataIn (x : HqPos δ) (type len : Nat) : (x.note s type len).dataIn =
    if type = hqftData ∧ 0 < len ∧ s.verifyCl then add64 x.dataIn len else x.dataIn := by
  rw [HqPos.note]
  by_cases h1 : type = hqftHeaders
  · have hno : ¬ (type = hqftData ∧ 0 < len ∧ s.verifyCl = true) := by
      rintro ⟨h, -⟩
      cases h1.symm.trans h
    rw [if_pos h1, if_neg hno]
    split
    · rfl
    · rfl
  · rw [if_neg h1]
    by_cases h2 : type = hqftData
    · simp only [h2, if_true, true_and]
    · rw [if_neg h2, if_neg (fun hc => h2 hc.1)]

/-- The history of frame types lets through what the specification expects. -/
theorem updateTypeHistAndCheck_spec (hh : f.header = x.header) (hd : f.data = x.data)
    (ht : f.trailer = x.trailer) (len : Nat) :
    match f.updateTypeHistAndCheck s with
    | none => x.expects s f.type = false
    | some f' => x.expects s f.type = true ∧
        f' = { f with
          header := (x.note s f.type len).header
          data := (x.note s f.type len).data
          trailer := (x.note s f.type len).trailer } := by
  obtain ⟨⟨type, varint, st⟩, vint1, error, begin, blocked, header, data, trailer, state, dec,
    dataIn⟩ := f
  obtain ⟨place, header', data', trailer', dataIn'⟩ := x
  obtain rfl : header = header' := hh
  obtain rfl : data = data' := hd
  obtain rfl : trailer = trailer' := ht
  simp only [updateTypeHistAndCheck, HqPos.expects, HqPos.note, HqFilter.type]
  by_cases h1 : type = hqftHeaders
  · simp only [h1, if_true]
    cases trailer <;> cases data <;> simp
  simp only [h1, if_false]
  by_cases h2 : type = hqftData
  · simp only [h2, if_true]
    cases trailer <;> cases header <;> simp
  simp only [h2, if_false]
  by_cases h3 : type = hqftPushPromise
  · simp only [h3, if_true]
    cases s.bidiClient <;> cases s.server <;> simp
  simp only [h3, if_false]
  by_cases h4 : type = hqftPriorityUpdateStream ∨ type = hqftPriorityUpdatePush
  · have hother : type ∉ [hqftCancelPush, hqftSettings, hqftGoaway, hqftMaxPushId, 2, 6, 8, 9] := by
      rcases h4 with rfl | rfl
      · decide
      · decide
    simp only [List.mem_cons, List.not_mem_nil, or_false, not_or] at hother
    simp only [hother, h4, or_false, if_false, if_true]
    cases s.httpPrio <;> simp
  · simp only [h4, if_false]
    by_cases h5 : type = hqftCancelPush ∨ type = hqftSettings ∨ type = hqftGoaway ∨
        type = hqftMaxPushId
    · rw [if_pos h5]
      rcases h5 with rfl | rfl | rfl | rfl <;> rfl
    · rw [if_neg h5]
      by_cases h6 : type = 2 ∨ type = 6 ∨ type = 8 ∨ type = 9
      · rw [if_pos h6]
        rcases h6 with rfl | rfl | rfl | rfl <;> rfl
      · rw [if_neg h6]
        refine ⟨?_, rfl⟩
        simp only [List.mem_cons, List.not_mem_nil, or_false]
        simp only [not_or] at h5 h6
        simp [h5, h6]

/-- What the check of the frame's type leaves: the flags are those of the position, and the payload
comes next. -/
structure Checked (f : HqFilter δ) (x : HqPos δ) : Prop where
  error : f.error = false
  header : f.header = x.header
  data : f.data = x.data
  trailer : f.trailer = x.trailer
  state : f.state = .readingPayload
  begin : f.begin = true
  left_lt : f.left < 2 ^ 62

theorem Checked.payload (h : f.Checked x) (hin : f.dataIn = x.dataIn) (hpos : 0 < f.left) :
    f.Sim { x with place := .payload f.type f.left 0 none } :=
  ⟨h.error, h.header, h.data, h.trailer, hin, h.state, rfl, rfl, h.left_lt, .inl hpos,
    fun _ => .inl ⟨rfl, h.begin⟩⟩

/-- The turn ends where the position enters the frame. -/
def Turn.Enters (t : Turn δ) (e : HqPos δ × List (HqEvent δ)) : Prop :=
  t.events = e.2 ∧
    if t.filter.error then t.stop = true ∧ e.1.place = .failed
    else t.filter.Sim e.1 ∧ (t.stop = true → t.filter.Settled)

theorem Turn.Enters.goes {t : Turn δ} {y : HqPos δ} (hsim : t.filter.Sim y)
    (hstop : t.stop = true → t.filter.Settled) : t.Enters (y, t.events) := by
  refine ⟨rfl, ?_⟩
  rw [if_neg (by simp [hsim.error])]
  exact ⟨hsim, hstop⟩

theorem Checked.enters_empty (h : f.Checked x) (hin : f.dataIn = x.dataIn) (evs : List (HqEvent δ))
    (rest : List UInt8) :
    Turn.Enters ⟨{ f with begin := false, state := .frameHeaderBegin }, rest, evs, false⟩
      ({ x with place := .header [] }, evs) :=
  .goes ⟨h.error, h.header, h.data, h.trailer, hin, .inl ⟨rfl, rfl⟩⟩ nofun

theorem Checked.enters_pushId (h : f.Checked x) (hin : f.dataIn = x.dataIn)
    (ht : f.type = hqftPushPromise) (hpos : 0 < f.left) (evs : List (HqEvent δ))
    (rest : List UInt8) :
    Turn.Enters ⟨{ f with state := .pushIdBegin }, rest, evs, false⟩
      ({ x with place := .pushId f.left [] }, evs) :=
  .goes ⟨h.error, h.header, h.data, h.trailer, hin, ht, h.begin, rfl, hpos, h.left_lt,
    .inl ⟨rfl, rfl⟩⟩ nofun

theorem Checked.enters_payload (h : f.Checked x) (hin : f.dataIn = x.dataIn) (hpos : 0 < f.left)
    (evs : List (HqEvent δ)) (rest : List UInt8) (stop : Bool) :
    Turn.Enters ⟨f, rest, evs, stop⟩ ({ x with place := .payload f.type f.left 0 none }, evs) :=
  .goes (h.payload hin hpos) fun _ => .inr ⟨h.state, hpos⟩

theorem enters_of_check
    (hc : ({ f with begin := true, state := .readingPayload } : HqFilter δ).updateTypeHistAndCheck s =
      some g)
    (h : g.Checked (x.note s g.type g.left)) (hexp : x.expects s g.type = true)
    (hin : g.dataIn = x.dataIn) (ht : f.type = g.type) (hl : f.left = g.left) (rest : List UInt8) :
    (f.frameHeader s rest).rest = rest ∧ (f.frameHeader s rest).Enters
    (x.enter s g.type g.left) := by
  have hev : (HqEvent.frame ({ f with begin := true, state := .readingPayload } : HqFilter δ).type
      ({ f with begin := true, state := .readingPayload } : HqFilter δ).left : HqEvent δ) =
      .frame g.type g.left := by
    rw [← ht, ← hl]
    rfl
  have hnote := note_dataIn (s := s) x g.type g.left
  rw [frameHeader, HqPos.enter, hc, if_pos hexp]
  simp only [hev]
  generalize x.note s g.type g.left = y at h hnote
  by_cases h0 : g.left = 0
  · rw [if_neg (by omega), if_pos h0]
    by_cases hn : needsPayload g.type = true
    · rw [if_pos hn, if_pos hn]
      exact ⟨rfl, rfl, rfl, rfl⟩
    · rw [if_neg (fun hc => absurd hc.2.1 (by omega))] at hnote
      rw [if_neg hn, if_neg hn]
      exact ⟨rfl, h.enters_empty (hin.trans hnote.symm) _ rest⟩
  · have hpos : 0 < g.left := by omega
    rw [if_pos hpos, if_neg h0]
    by_cases hD : g.type = hqftData
    · have hnp : ¬ g.type = hqftPushPromise := by rw [hD]; decide
      rw [if_pos hD, if_neg hnp]
      by_cases hv : s.verifyCl = true
      · rw [if_pos ⟨hD, hpos, hv⟩, ← hin] at hnote
        simp only [hv, hD, if_true, true_and, verifyClOnNewDataFrame, ← hnote]
        have hy : Checked { g with dataIn := y.dataIn } y := { h with }
        rw [← hD]
        exact hy.enters_payload rfl hpos _ rest true
      · rw [if_neg (fun hc => hv hc.2.2)] at hnote
        rw [if_neg hv, if_neg (fun hc => hv hc.2.1)]
        exact ⟨rfl, h.enters_payload (hin.trans hnote.symm) hpos _ rest true⟩
    · rw [if_neg (fun hc => hD hc.1)] at hnote
      rw [if_neg hD]
      by_cases hP : g.type = hqftPushPromise
      · have hserver : ¬ s.server = true := by
          rw [HqPos.expects, hP] at hexp
          simp [hqftPushPromise, hqftHeaders, hqftData] at hexp
          simp [hexp.2]
        rw [if_pos hP, if_pos hP, if_neg hserver]
        exact ⟨rfl, h.enters_pushId (hin.trans hnote.symm) hP hpos _ rest⟩
      · rw [if_neg hP, if_neg hP, if_neg (fun hc => hD hc.1)]
        exact ⟨rfl, h.enters_payload (hin.trans hnote.symm) hpos _ rest false⟩

theorem frameHeader_spec (herr : f.error = false) (hh : f.header = x.header) (hd : f.data = x.data)
    (ht : f.trailer = x.trailer) (hin : f.dataIn = x.dataIn) (hlt : f.left < 2 ^ 62)
    (rest : List UInt8) :
    (f.frameHeader s rest).rest = rest ∧
      (f.frameHeader s rest).Enters (x.enter s f.type f.left) := by
  have hcheck := updateTypeHistAndCheck_spec (s := s)
    (f := { f with begin := true, state := .readingPayload }) hh hd ht f.left
  split at hcheck
  next hc =>
    have hexp : ¬ x.expects s f.type = true := Bool.eq_false_iff.1 hcheck
    rw [frameHeader, HqPos.enter, hc, if_neg hexp]
    exact ⟨rfl, rfl, rfl, rfl⟩
  next g hc =>
    obtain ⟨hexp, rfl⟩ := hcheck
    exact enters_of_check hc ⟨herr, rfl, rfl, rfl, rfl, rfl, hlt⟩ hexp hin rfl rfl rest

@[simp] theorem setLeft_left (f : HqFilter δ) (n : Nat) : (f.setLeft n).left = n := rfl

@[simp] theorem setLeft_error (f : HqFilter δ) (n : Nat) : (f.setLeft n).error = f.error := rfl

theorem decrLeft_error (f : HqFilter δ) (n : Nat) : (f.decrLeft n).error = f.error := by
  rw [decrLeft, setLeft_error]

theorem decrLeft_state (f : HqFilter δ) (n : Nat) : (f.decrLeft n).state = f.state := by
  rw [decrLeft, setLeft]

theorem endPayload_settled (h : f.state = .readingPayload) : f.endPayload.Settled := by
  rw [endPayload]
  split
  · exact .inl rfl
  next hk => exact .inr ⟨h, Nat.pos_of_ne_zero hk⟩

theorem endPayload_error (f : HqFilter δ) : f.endPayload.error = f.error := by
  rw [endPayload]
  split
  · rfl
  · rfl

theorem decrLeft_eq (h : n ≤ f.left) (hlt : f.left < 2 ^ 62) :
    f.decrLeft n = f.setLeft (f.left - n) := by
  rw [decrLeft, sub64_eq h (by omega)]

theorem AtPlace.endPayload (hs : f.state = .readingPayload) (ht : f.type = ty)
    (hleft : f.left = len - seen) (hlt : len < 2 ^ 62) (hle : seen ≤ len)
    (hdec : ty = hqftHeaders ∨ ty = hqftPushPromise →
      dc.isSome ∧ f.begin = false ∧ f.dec = dc) :
    f.endPayload.AtPlace (HqPos.after ty len seen dc) := by
  rw [HqFilter.endPayload, HqPos.after]
  by_cases hend : seen = len
  · rw [if_pos (by omega), if_pos hend]
    exact .inl ⟨rfl, rfl⟩
  · rw [if_neg (by omega), if_neg hend]
    exact ⟨hs, ht, hleft, hlt, .inl (by omega), fun hh => .inr (hdec hh)⟩

theorem Sim.payload (h : f.Sim x) (hp : x.place = .payload ty len seen dc)
    (hk : seen + k ≤ len) (beg blk : Bool) (d d' : Option δ)
    (hdec : ty = hqftHeaders ∨ ty = hqftPushPromise → d'.isSome ∧ beg = false ∧ d = d') :
    Sim (({ f with begin := beg, dec := d, blocked := blk }.decrLeft k).endPayload)
      { x with place := HqPos.after ty len (seen + k) d' } := by
  have hplace := h.place
  rw [hp] at hplace
  obtain ⟨hstate, htype, hleft, hlt, -, -⟩ := hplace
  have hgleft : ({ f with begin := beg, dec := d, blocked := blk } : HqFilter δ).left =
      len - seen := hleft
  rw [decrLeft_eq (by rw [hgleft]; omega) (by rw [hgleft]; omega), hgleft]
  have hrest : len - seen - k = len - (seen + k) := by omega
  have hat : ({ f with begin := beg, dec := d, blocked := blk }.setLeft
      (len - seen - k)).endPayload.AtPlace (HqPos.after ty len (seen + k) d') :=
    AtPlace.endPayload hstate htype ((setLeft_left _ _).trans hrest) hlt hk hdec
  rw [HqFilter.endPayload] at hat ⊢
  split
  next h0 =>
    rw [if_pos h0] at hat
    exact { h with place := hat }
  next h0 =>
    rw [if_neg h0] at hat
    exact { h with place := hat }

theorem headerTurn_ok (h : f.Sim x) (hp : x.place = .header acc)
    (hs : f.state = .frameHeaderContinue) (hafter : f.vint2.After acc) (hne : input ≠ []) :
    Turn.Ok s q x input (match f.vint2.readTwo input with
      | (vint2, rest, false) => ⟨{ f with vint2 }, rest, [], false⟩
      | (vint2, rest, true) => frameHeader s { f with vint2 } rest) := by
  have hfeed := @HqPos.feed_header _ s q _ input _ _ hafter hp
  rw [VarintRead2State.readTwo_eq]
  generalize feedUntil VarintRead2State.step f.vint2 input = res at hfeed
  obtain ⟨vint2, rest, done⟩ := res
  cases done with
  | false =>
    obtain ⟨rfl, hafter', hfeed⟩ := hfeed
    exact .goes hfeed (List.append_nil _).symm { h with place := .inr ⟨hs, hafter'⟩ } hne
  | true =>
    obtain ⟨c, hbs, hc, hlt, hfeed⟩ := hfeed
    obtain ⟨hrest, hevs, hok⟩ := frameHeader_spec (s := s) (f := { f with vint2 })
      h.error h.header h.data h.trailer h.dataIn hlt rest
    simp only [Turn.Ok]
    generalize frameHeader s { f with vint2 } rest = t at hrest hevs hok
    have hpair : x.feed s q c = ((x.feed s q c).1, t.events) := by
      rw [hevs, hfeed]
      rfl
    by_cases herr : t.filter.error = true
    · rw [if_pos herr] at hok ⊢
      obtain ⟨hstop, hfailed⟩ := hok
      exact ⟨hstop, c, rest, _, hbs, hpair, by rw [hfeed]; exact hfailed⟩
    · rw [if_neg herr] at hok ⊢
      refine ⟨c, _, by rw [hrest]; exact hbs, hpair, by rw [hfeed]; exact hok.1, ?_⟩
      split
      next hstop => exact hok.2 hstop
      · exact hc

theorem pushIdTurn_ok (h : f.Sim x) (hp : x.place = .pushId len acc) (hafter : f.vint1.After acc)
    (hne : input ≠ []) (hpush : .abort .frameError ∉ (x.feed s q input).2)
    (hs : f.state = .pushIdContinue) :
    Turn.Ok s q x input
      ⟨if (f.vint1.readNb input).2.2 then
          { ({ f with vint1 := (f.vint1.readNb input).1 } : HqFilter δ).decrLeft
              (input.length - (f.vint1.readNb input).2.1.length) with state := .readingPayload }
        else ({ f with vint1 := (f.vint1.readNb input).1 } : HqFilter δ).decrLeft
          (input.length - (f.vint1.readNb input).2.1.length),
        (f.vint1.readNb input).2.1, [], false⟩ := by
  have hplace := h.place
  rw [hp] at hplace
  obtain ⟨htype, hbegin, hleft, hacc, hlen, -⟩ := hplace
  have hfeed := HqPos.feed_pushId hafter hp hacc hpush
  rw [VarintReadState.readNb_eq]
  generalize feedUntil VarintReadState.step f.vint1 input = res at hfeed
  obtain ⟨vint1, rest, done⟩ := res
  have hleft' : ({ f with vint1 := vint1 } : HqFilter δ).left = len - acc.length := hleft
  cases done with
  | false =>
    obtain ⟨rfl, hafter', hroom, hfeed⟩ := hfeed
    rw [List.length_append] at hroom
    have hset := decrLeft_eq (f := { f with vint1 := vint1 }) (n := input.length)
      (by rw [hleft']; omega) (by rw [hleft']; omega)
    simp only [List.length_nil, Nat.sub_zero, hset, Bool.false_eq_true, if_false]
    refine .goes hfeed (List.append_nil _).symm { h with place := ?_ } hne
    refine ⟨htype, hbegin, ?_, ?_, hlen, .inr ⟨hs, hafter'⟩⟩
    · rw [setLeft_left, hleft', List.length_append]
      omega
    · rw [List.length_append]
      exact hroom
  | true =>
    obtain ⟨c, rfl, hc, hroom, hfeed⟩ := hfeed
    rw [List.length_append] at hroom hfeed
    have hset := decrLeft_eq (f := { f with vint1 := vint1 }) (n := c.length)
      (by rw [hleft']; omega) (by rw [hleft']; omega)
    have hn : (c ++ rest).length - rest.length = c.length := by
      rw [List.length_append]
      omega
    simp only [hn, hset, if_true]
    refine .goes hfeed rfl { h with place := ?_ } hc
    refine ⟨rfl, htype, ?_, hlen, ?_, fun _ => .inl ⟨rfl, hbegin⟩⟩
    · show f.left - c.length = len - (acc.length + c.length)
      omega
    · rcases Nat.lt_or_eq_of_le hroom with hlt | heq
      · exact .inl hlt
      · exact .inr ⟨heq, rfl, rfl⟩

theorem endPayload_with (g : HqFilter δ) (k : Nat) (d : Option δ) (b : Bool) :
    ({ g with dec := d, blocked := b }.decrLeft k).endPayload =
      { (g.decrLeft k).endPayload with dec := d, blocked := b } := by
  have hset : ∀ v, ({ g with dec := d, blocked := b }.setLeft v).endPayload =
      { (g.setLeft v).endPayload with dec := d, blocked := b } := by
    intro v
    rw [HqFilter.endPayload, HqFilter.endPayload, setLeft_left, setLeft_left]
    by_cases hv : v = 0
    · rw [if_pos hv, if_pos hv]
      rfl
    · rw [if_neg hv, if_neg hv]
      rfl
  have hleft : ({ g with dec := d, blocked := b } : HqFilter δ).left = g.left := rfl
  rw [decrLeft, decrLeft, hleft, hset]

section
variable {dc : Option δ} (h : f.Sim x) (hp : x.place = .payload ty len seen dc)
include h hp

theorem headerIn_eq (hh : ty = hqftHeaders ∨ ty = hqftPushPromise) (bs : List UInt8) :
    f.headerIn q bs = match HqPos.decoder q (len - seen) dc with
      | none => (.error, bs)
      | some d =>
        match headerRead q d bs with
        | (.error, _) => (.error, bs)
        | res => res := by
  have hplace := h.place
  rw [hp] at hplace
  obtain ⟨-, -, hleft, -, -, hdec⟩ := hplace
  rw [headerIn, hleft]
  rcases hdec hh with ⟨rfl, hbegin⟩ | ⟨hsome, hbegin, hdc⟩
  · rw [hbegin]
    rfl
  · obtain ⟨d, rfl⟩ := Option.isSome_iff_exists.mp hsome
    rw [hbegin, hdc]
    rfl

theorem headerPayload_ok (hh : ty = hqftHeaders ∨ ty = hqftPushPromise) (hne : input ≠ []) :
    Turn.Ok s q x input (f.headerPayload q input) := by
  have hplace := h.place
  rw [hp] at hplace
  obtain ⟨hstate, htype, hleft, hlt, hseen, -⟩ := hplace
  have hnd : ty ≠ hqftData := by
    rcases hh with rfl | rfl
    · decide
    · decide
  have hlen : (input.take (min f.left input.length)).length = min f.left input.length := by
    rw [List.length_take]
    omega
  have hsplit := (List.take_append_drop (min f.left input.length) input).symm
  rw [headerPayload, headerIn_eq h hp hh]
  generalize input.take (min f.left input.length) = bs at hlen hsplit
  generalize input.drop (min f.left input.length) = tl at hsplit
  rw [← hlen]
  have hle : seen + bs.length ≤ len := by
    rw [hlen, hleft]
    omega
  cases hdec : HqPos.decoder q (len - seen) dc with
  | none =>
    obtain ⟨b, input, rfl⟩ := List.exists_cons_of_ne_nil hne
    have hnext : x.next s q b = ({ x with place := .failed }, [.abort .abortConnection]) := by
      rw [HqPos.next, hp]
      simp only [hnd, if_false, hh, if_true, HqPos.headerByte, hdec, Option.map_none]
    rw [Turn.Ok, if_pos rfl]
    exact ⟨rfl, [b], input, _, rfl, by rw [HqPos.feed_singleton, hnext], rfl⟩
  | some d =>
    have hbs : bs ≠ [] := by
      rintro rfl
      have hin : 0 < input.length := List.length_pos_iff.mpr hne
      rw [List.length_nil] at hlen
      have hend : len - seen = 0 := by omega
      rcases hseen with hlt | ⟨-, -, rfl⟩
      · omega
      · rw [hend] at hdec
        cases hdec
    obtain ⟨c, hsub, hc, hfeed⟩ := HqPos.feed_block (s := s) hp hnd hh hdec hle hbs
    simp only
    generalize headerRead q d bs = res at hsub hfeed ⊢
    obtain ⟨rhs, rest⟩ := res
    obtain rfl : bs = c ++ rest := hsub
    rw [List.length_append] at hle
    have hn : (c ++ rest).length - rest.length = c.length := by
      rw [List.length_append]
      omega
    have hin : input = c ++ (rest ++ tl) := by rw [hsplit, List.append_assoc]
    -- what is read of the block, with the decoder in the state it is left in
    have hsim : ∀ (d' : δ) (blk : Bool),
        Sim { (({ f with begin := false } : HqFilter δ).decrLeft c.length).endPayload with
            dec := some d', blocked := blk }
          { x with place := HqPos.after ty len (seen + c.length) (some d') } := by
      intro d' blk
      have hpay := h.payload hp (k := c.length) (by omega) false blk (some d') (some d')
        (fun _ => ⟨rfl, rfl, rfl⟩)
      rw [← endPayload_with]
      exact hpay
    have hsettled : (({ f with begin := false } : HqFilter δ).decrLeft c.length).endPayload.Settled :=
      endPayload_settled ((decrLeft_state _ _).trans hstate)
    obtain ⟨g, hg⟩ : ∃ g,
        (({ f with begin := false } : HqFilter δ).decrLeft c.length).endPayload = g := ⟨_, rfl⟩
    simp only [hg] at hsim hsettled
    cases rhs with
    | need d' =>
      simp only [hn, hg, HqPos.blockRead] at hfeed ⊢
      exact .goes hfeed hin (hsim d' _) hc
    | done d' =>
      simp only [hn, hg, HqPos.blockRead] at hfeed ⊢
      exact .goes hfeed hin (hsim d' _) hc
    | blocked d' =>
      simp only [hn, hg, HqPos.blockRead] at hfeed ⊢
      exact .goes hfeed hin (hsim d' true) hsettled
    | error =>
      rw [Turn.Ok, if_pos rfl]
      exact ⟨rfl, c, _, _, hin, hfeed, rfl⟩

theorem skipTurn_ok (hnd : ty ≠ hqftData)
    (hh : ¬ (ty = hqftHeaders ∨ ty = hqftPushPromise)) (hne : input ≠ []) :
    Turn.Ok s q x input
      ⟨({ f with begin := false }.decrLeft (min f.left input.length)).endPayload,
        input.drop (min f.left input.length), [], false⟩ := by
  have hplace := h.place
  rw [hp] at hplace
  obtain ⟨-, htype, hleft, hlt, hseen, -⟩ := hplace
  have hpos : seen < len := by
    rcases hseen with hlt | ⟨-, hpush, -⟩
    · exact hlt
    · exact absurd (.inr hpush) hh
  have hin : 0 < input.length := List.length_pos_iff.mpr hne
  have hlen : (input.take (min f.left input.length)).length = min f.left input.length := by
    rw [List.length_take]
    omega
  have hsim := h.payload hp (k := min f.left input.length) (by omega) false f.blocked f.dec none
    (fun hc => absurd hc hh)
  have hfeed := @HqPos.feed_skip _ s q _ (input.take (min f.left input.length)) _ _ _ _ hp
    hnd hh hpos (by omega) (List.ne_nil_of_length_pos (by omega))
  rw [hlen] at hfeed
  generalize ({ f with begin := false }.decrLeft (min f.left input.length)).endPayload = g at hsim ⊢
  exact .goes hfeed (List.take_append_drop _ input).symm hsim
    (List.ne_nil_of_length_pos (by omega))

end

/-- A turn of the filter does what the specification does with the bytes it takes. -/
theorem turn_ok (h : f.Sim x) (hne : input ≠ [])
    (hpush : .abort .frameError ∉ (x.feed s q input).2) :
    Turn.Ok s q x input (f.turn s q input) := by
  have hplace := h.place
  rw [turn]
  cases hp : x.place with
  | header acc =>
    rw [hp] at hplace
    rcases hplace with ⟨hs, rfl⟩ | ⟨hs, hafter⟩
    · simp only [hs, if_true]
      have hafter : ({ f.vint2 with state := .oneBegin } : VarintRead2State).After [] := ⟨rfl, rfl⟩
      have hsim : Sim { f with vint2.state := .oneBegin, state := .frameHeaderContinue } x := by
        refine { h with place := ?_ }
        rw [hp]
        exact .inr ⟨rfl, hafter⟩
      exact headerTurn_ok hsim hp rfl hafter hne
    · have hok := headerTurn_ok (s := s) (q := q) h hp hs hafter hne
      simp only [hs, reduceCtorEq, if_false] at hok ⊢
      exact hok
  | pushId len acc =>
    rw [hp] at hplace
    obtain ⟨htype, hbegin, hleft, hacc, hlen, hstate⟩ := hplace
    rcases hstate with ⟨hs, rfl⟩ | ⟨hs, hafter⟩
    · simp only [hs, if_true]
      have hafter : ({ f.vint1 with pos := 0 } : VarintReadState).After [] := rfl
      have hsim : Sim { f with vint1.pos := 0, state := .pushIdContinue } x := by
        refine { h with place := ?_ }
        rw [hp]
        exact ⟨htype, hbegin, hleft, hacc, hlen, .inr ⟨rfl, hafter⟩⟩
      exact pushIdTurn_ok hsim hp hafter hne hpush rfl
    · have hok := pushIdTurn_ok h hp hafter hne hpush hs
      simp only [hs, reduceCtorEq, if_false] at hok ⊢
      exact hok
  | payload ty len seen dc =>
    rw [hp] at hplace
    obtain ⟨hs, htype, hleft, -, hseen, -⟩ := hplace
    simp only [hs]
    by_cases hd : ty = hqftData
    · have hpos : seen < len := by
        rcases hseen with hlt | ⟨-, hpush, -⟩
        · exact hlt
        · cases hd.symm.trans hpush
      have hleft' : 0 < f.left := by omega
      rw [if_pos (htype.trans hd)]
      exact .goes (c := []) rfl rfl h (.inr ⟨hs, hleft'⟩)
    · rw [if_neg (by rw [htype]; exact hd), htype]
      by_cases hh : ty = hqftHeaders ∨ ty = hqftPushPromise
      · rw [if_pos hh]
        exact headerPayload_ok h hp hh hne
      · rw [if_neg hh]
        have hok := skipTurn_ok (s := s) (q := q) h hp hd hh hne
        rw [hs] at hok
        exact hok
  | failed =>
    rw [hp] at hplace
    exact hplace.elim

end

end HqFilter

end QuicArt
