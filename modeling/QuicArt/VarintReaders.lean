import QuicArt.TransportRoundTrip

namespace QuicArt

/-- The state of a reader of chunks, the number of bytes it has taken, and whether it is done. -/
def readChunks (read : σ → List UInt8 → σ × List UInt8 × Bool) :
    σ → List (List UInt8) → σ × Nat × Bool
  | st, [] => (st, 0, false)
  | st, c :: cs =>
    match read st c with
    | (st, rest, true) => (st, c.length - rest.length, true)
    | (st, rest, false) =>
      let (st, n, done) := readChunks read st cs
      (st, c.length - rest.length + n, done)

/-- `lsquic_varint_read`, twice: the values and the number of bytes. -/
def varintReadTwo (bs : List UInt8) : TpRead (Nat × Nat × Nat) := do
  let one ← varintRead bs bs.length
  let two ← varintRead (bs.drop one.2) (bs.length - one.2)
  .ok (one.1, two.1, one.2 + two.2)

/-- They end with the same byte and the same values, or have taken all and want more. -/
structure ReadersAgree (chunks : List (List UInt8)) : Prop where
  one : ∀ st : VarintReadState, st.pos = 0 →
    match varintRead chunks.flatten chunks.flatten.length with
    | .ok (v, n) => ∃ st', readChunks VarintReadState.readNb st chunks = (st', n, true) ∧
      st'.val = v
    | .error e => e = .invalid ∧
      ∃ st', readChunks VarintReadState.readNb st chunks = (st', chunks.flatten.length, false)
  two : ∀ st : VarintRead2State, st.state = .oneBegin →
    match varintReadTwo chunks.flatten with
    | .ok (v, w, n) => ∃ st', readChunks VarintRead2State.readTwo st chunks = (st', n, true)
      ∧ st'.one = v ∧ st'.varint.val = w
    | .error e => e = .invalid ∧
      ∃ st', readChunks VarintRead2State.readTwo st chunks = (st', chunks.flatten.length, false)

/-- What is written for a value is read back by each of the readers. -/
structure WritesRead (v w : Nat) (tail : List UInt8) : Prop where
  direct : varintRead (vintWrite v (vintVal2bits v) ++ tail)
    (vintWrite v (vintVal2bits v) ++ tail).length = .ok (v, 2 ^ vintVal2bits v)
  one : ∀ (chunks : List (List UInt8)) (st : VarintReadState),
    chunks.flatten = vintWrite v (vintVal2bits v) ++ tail → st.pos = 0 →
    ∃ st', readChunks VarintReadState.readNb st chunks = (st', 2 ^ vintVal2bits v, true)
      ∧ st'.val = v
  two : ∀ (chunks : List (List UInt8)) (st : VarintRead2State),
    chunks.flatten = vintWrite v (vintVal2bits v) ++ (vintWrite w (vintVal2bits w) ++ tail) →
    st.state = .oneBegin →
    ∃ st', readChunks VarintRead2State.readTwo st chunks
        = (st', 2 ^ vintVal2bits v + 2 ^ vintVal2bits w, true)
      ∧ st'.one = v ∧ st'.varint.val = w

section
variable {σ : Type} {step : σ → UInt8 → σ × Bool} {st st' : σ} {bs rest : List UInt8}

theorem feedUntil_done (h : feedUntil step st bs = (st', rest, true)) (more : List UInt8) :
    feedUntil step st (bs ++ more) = (st', rest ++ more, true) := by
  induction bs generalizing st with
  | nil => cases h
  | cons b bs ih =>
    rw [feedUntil] at h
    rw [List.cons_append, feedUntil]
    generalize step st b = res at h
    obtain ⟨st₁, done⟩ := res
    cases done with
    | true =>
      cases h
      rfl
    | false => exact ih h

theorem feedUntil_length_le (st : σ) (bs : List UInt8) :
    (feedUntil step st bs).2.1.length ≤ bs.length := by
  induction bs generalizing st with
  | nil => exact le_rfl
  | cons b bs ih =>
    rw [feedUntil, List.length_cons]
    generalize step st b = res
    obtain ⟨st₁, done⟩ := res
    cases done with
    | true => exact Nat.le_succ _
    | false => exact Nat.le_succ_of_le (ih st₁)

theorem readChunks_feedUntil (st : σ) (chunks : List (List UInt8)) :
    readChunks (feedUntil step) st chunks =
      ((feedUntil step st chunks.flatten).1,
        chunks.flatten.length - (feedUntil step st chunks.flatten).2.1.length,
        (feedUntil step st chunks.flatten).2.2) := by
  induction chunks generalizing st with
  | nil => rfl
  | cons c cs ih =>
    rw [readChunks, List.flatten_cons, List.length_append]
    rcases hf : feedUntil step st c with ⟨st₁, rest, done⟩
    cases done with
    | true =>
      rw [feedUntil_done hf]
      simp only [List.length_append]
      rw [Nat.add_sub_add_right]
    | false =>
      obtain rfl := feedUntil_rest hf
      have hle := @feedUntil_length_le _ step st₁ cs.flatten
      rw [feedUntil_append hf]
      simp only [ih st₁, List.length_nil, Nat.sub_zero]
      rw [Nat.add_sub_assoc hle]

end

namespace VarintRead2State

theorem After.incomplete {st : VarintRead2State} (h : st.After acc) : decodeTwo acc = none := by
  rw [After] at h
  rw [decodeTwo]
  cases hd : decodeVarint acc with
  | none => rfl
  | some r =>
    rw [hd] at h
    simp only [h.2.2.incomplete]

theorem decodeTwo_append {xs : List UInt8} (h : decodeTwo xs = some (v, w, rest))
    (ys : List UInt8) : decodeTwo (xs ++ ys) = some (v, w, rest ++ ys) := by
  rw [decodeTwo] at h ⊢
  cases hd : decodeVarint xs with
  | none =>
    rw [hd] at h
    cases h
  | some r =>
    rw [hd] at h
    rw [VarintReadState.decodeVarint_append hd]
    simp only at h ⊢
    cases hd' : decodeVarint r.2 with
    | none =>
      rw [hd'] at h
      cases h
    | some r' =>
      rw [hd'] at h
      cases h
      rw [VarintReadState.decodeVarint_append hd']

theorem After.feed {st : VarintRead2State} (h : st.After []) (bs : List UInt8) :
    match decodeTwo bs with
    | none => ∃ st', feedUntil VarintRead2State.step st bs = (st', [], false)
    | some (one, two, rest) => ∃ st', feedUntil VarintRead2State.step st bs = (st', rest, true)
      ∧ st'.one = one ∧ st'.varint.val = two := by
  have hrule := @feedUntil_rule _ _ VarintRead2State.step st bs (fun c st => st.After c)
    (fun c st => decodeTwo c = some (st.one, st.varint.val, [])) ?_ h
  · rcases hrule with ⟨st', hf, ha⟩ | ⟨st', c, rest, hf, rfl, -, hd⟩
    · rw [ha.incomplete]
      exact ⟨st', hf⟩
    · rw [decodeTwo_append hd rest]
      exact ⟨st', hf, rfl, rfl⟩
  · intro c b rest st _ ha
    have hst := ha.step b
    cases hd : decodeTwo (c ++ [b]) with
    | none =>
      rw [hd] at hst
      exact .inl hst
    | some g =>
      obtain ⟨one, two, left⟩ := g
      rw [hd] at hst
      obtain ⟨hdone, rfl, htwo, rfl⟩ := hst
      rw [htwo]
      exact .inr ⟨hdone, rfl⟩

end VarintRead2State

theorem varintRead_all (bs : List UInt8) :
    varintRead bs bs.length =
      TpRead.ofOption ((decodeVarint bs).map fun r => (r.1, bs.length - r.2.length)) := by
  have h := varintRead_eq (Nat.le_refl bs.length)
  rw [List.take_length] at h
  exact h

theorem varintReadTwo_eq (bs : List UInt8) :
    varintReadTwo bs =
      match VarintRead2State.decodeTwo bs with
      | none => .error .invalid
      | some (one, two, rest) => .ok (one, two, bs.length - rest.length) := by
  rw [varintReadTwo, varintRead_all, VarintRead2State.decodeTwo]
  cases hd : decodeVarint bs with
  | none => rfl
  | some r =>
    obtain ⟨one, rest⟩ := r
    obtain ⟨ys, rfl, -, -⟩ := decodeVarint_split hd
    have hn : (ys ++ rest).length - rest.length = ys.length := by
      rw [List.length_append, Nat.add_sub_cancel]
    have hm : (ys ++ rest).length - ys.length = rest.length := by
      rw [List.length_append, Nat.add_sub_cancel_left]
    rw [Option.map_some, TpRead.ofOption, Except.ok_bind]
    simp only [hn, hm, List.drop_left, varintRead_all]
    cases hd' : decodeVarint rest with
    | none => rfl
    | some r' =>
      obtain ⟨two, rest'⟩ := r'
      obtain ⟨zs, rfl, -, -⟩ := decodeVarint_split hd'
      simp only [Option.map_some, TpRead.ofOption, Except.ok_bind, List.length_append]
      congr 4
      omega

theorem readersAgree (chunks : List (List UInt8)) : ReadersAgree chunks := by
  have hnb : VarintReadState.readNb = feedUntil VarintReadState.step := by
    funext st bs
    exact VarintReadState.readNb_eq st bs
  have htwo : VarintRead2State.readTwo = feedUntil VarintRead2State.step := by
    funext st bs
    exact VarintRead2State.readTwo_eq st bs
  refine ⟨fun st hst => ?_, fun st hst => ?_⟩
  · have hfeed := @VarintReadState.After.feed st hst chunks.flatten
    rw [hnb, readChunks_feedUntil, varintRead_all]
    cases hd : decodeVarint chunks.flatten with
    | none =>
      rw [hd] at hfeed
      obtain ⟨st', hf⟩ := hfeed
      rw [hf]
      exact ⟨rfl, st', rfl⟩
    | some r =>
      rw [hd] at hfeed
      rw [hfeed]
      exact ⟨_, rfl, rfl⟩
  · have hafter : st.After [] := ⟨by simp [VarintRead2State.begin, hst], by
      simp [VarintRead2State.begin, hst, VarintReadState.After]⟩
    have hfeed := hafter.feed chunks.flatten
    rw [htwo, readChunks_feedUntil, varintReadTwo_eq]
    cases hd : VarintRead2State.decodeTwo chunks.flatten with
    | none =>
      rw [hd] at hfeed
      obtain ⟨st', hf⟩ := hfeed
      rw [hf]
      exact ⟨rfl, st', rfl⟩
    | some r =>
      obtain ⟨v, w, rest⟩ := r
      rw [hd] at hfeed
      obtain ⟨st', hf, hone, htwo⟩ := hfeed
      rw [hf]
      exact ⟨st', rfl, hone, htwo⟩

theorem writesRead (hv : v < 2 ^ 62) (hw : w < 2 ^ 62) (tail : List UInt8) :
    WritesRead v w tail := by
  have hdv := TransportParams.decodeVarint_write hv
  have hdw := TransportParams.decodeVarint_write hw
  have hone : varintRead (vintWrite v (vintVal2bits v) ++ tail)
      (vintWrite v (vintVal2bits v) ++ tail).length = .ok (v, 2 ^ vintVal2bits v) := by
    rw [varintRead_append hdv (by simp) le_rfl, vintWrite_length]
  refine ⟨hone, fun chunks st hc hst => ?_, fun chunks st hc hst => ?_⟩
  · have hagree := (readersAgree chunks).one st hst
    rw [hc, hone] at hagree
    exact hagree
  · have hdec := @VarintReadState.decodeVarint_append _ _ _ (vintWrite w (vintVal2bits w) ++ tail) hdv
    have hdec' := @VarintReadState.decodeVarint_append _ _ _ tail hdw
    rw [List.nil_append] at hdec hdec'
    have hagree := (readersAgree chunks).two st hst
    rw [hc, varintReadTwo_eq, VarintRead2State.decodeTwo] at hagree
    simp only [hdec, hdec', List.length_append, vintWrite_length] at hagree
    rw [← Nat.add_assoc, Nat.add_sub_cancel] at hagree
    exact hagree

/-- The readers agree with the decoder on every chunking, and read back what `vint_write` wrote. -/
theorem varint_readers_refine :
    (∀ chunks, ReadersAgree chunks) ∧
      ∀ v w tail, v < 2 ^ 62 → w < 2 ^ 62 → WritesRead v w tail :=
  ⟨readersAgree, fun _ _ tail hv hw => writesRead hv hw tail⟩

end QuicArt
