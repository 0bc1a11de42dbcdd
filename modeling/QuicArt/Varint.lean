import Mathlib.Algebra.Order.Ring.Nat
import Mathlib.Tactic.Ring

namespace QuicArt

theorem Except.bind_eq_ok {ε α β : Type} {x : Except ε α} {f : α → Except ε β} {r : β} :
    (x >>= f) = .ok r ↔ ∃ a, x = .ok a ∧ f a = .ok r := by
  cases x with
  | error e =>
    constructor
    · intro h
      cases h
    · rintro ⟨a, ha, -⟩
      cases ha
  | ok a =>
    constructor
    · intro h
      exact ⟨a, rfl, h⟩
    · rintro ⟨a', ha, h⟩
      cases ha
      exact h

/-- A machine takes elements of a list until it is done, and leaves the rest. -/
def feedUntil (step : σ → α → σ × Bool) : σ → List α → σ × List α × Bool
  | st, [] => (st, [], false)
  | st, b :: bs =>
    match step st b with
    | (st, true) => (st, bs, true)
    | (st, false) => feedUntil step st bs

def bigEndian (bs : List UInt8) : Nat := bs.foldl (fun n b => n * 256 + b.toNat) 0

structure VarintReadState where
  val : Nat := 0
  pos : Nat := 0
  deriving DecidableEq, Repr

namespace VarintReadState

/-- Where the byte at a position of `lsquic_varint_read_nb` goes. -/
def shift : Nat → Nat
  | 1001 => 16
  | 1002 => 8
  | 1004 => 48
  | 1005 => 40
  | 1006 => 32
  | 1007 => 24
  | 1008 => 16
  | 1009 => 8
  | _ => 0

/-- The positions of the last byte of a value of two, four and eight bytes. -/
def isLast (pos : Nat) : Bool := pos = 1000 || pos = 1003 || pos = 1010

/-- The cases 1000 to 1010, which fall through to the next one as long as there is input. -/
def resume : VarintReadState → List UInt8 → VarintReadState × List UInt8 × Bool
  | st, [] => (st, [], false)
  | st, b :: bs =>
    let val := st.val ||| b.toNat <<< shift st.pos
    if isLast st.pos then (⟨val, 0⟩, bs, true) else resume ⟨val, st.pos + 1⟩ bs

/-- `lsquic_varint_read_nb`: the state, the rest of the input, and whether the value is complete.
Here `pos` is 0 then; the source leaves it to the callers, all of which set it before the next
value. -/
def readNb (st : VarintReadState) (input : List UInt8) : VarintReadState × List UInt8 × Bool :=
  if st.pos ≠ 0 then st.resume input
  else
    match input with
    | [] => (st, [], false)
    | b :: bs =>
      if b.toNat >>> 6 = 0 then (⟨b.toNat, 0⟩, bs, true)
      else if b.toNat >>> 6 = 1 then resume ⟨(b.toNat &&& 63) <<< 8, 1000⟩ bs
      else if b.toNat >>> 6 = 2 then
        match bs with
        | b₁ :: b₂ :: b₃ :: bs =>
          (⟨(b.toNat &&& 63) <<< 24 ||| b₁.toNat <<< 16 ||| b₂.toNat <<< 8 ||| b₃.toNat <<< 0, 0⟩,
            bs, true)
        | _ => resume ⟨(b.toNat &&& 63) <<< 24, 1001⟩ bs
      else
        if 7 ≤ bs.length then
          (⟨bigEndian (b :: bs.take 7) &&& 2 ^ 62 - 1, 0⟩, bs.drop 7, true)
        else resume ⟨(b.toNat &&& 63) <<< 56, 1004⟩ bs

end VarintReadState

inductive Read2
  | oneBegin | oneContinue | twoBegin | twoContinue
  deriving DecidableEq, Repr

structure VarintRead2State where
  one : Nat := 0
  varint : VarintReadState := {}
  state : Read2 := .oneBegin
  deriving DecidableEq, Repr

namespace VarintRead2State

/-- The cases of `lsquic_varint_read_two` before the label `cont`. -/
def begin (st : VarintRead2State) : VarintRead2State :=
  match st.state with
  | .oneBegin => { st with varint.pos := 0, state := .oneContinue }
  | .twoBegin => { st with varint.pos := 0, state := .twoContinue }
  | _ => st

/-- `lsquic_varint_read_two`; its loop is entered once for each of the two values. -/
def readTwoLoop : Nat → VarintRead2State → List UInt8 → VarintRead2State × List UInt8 × Bool
  | 0, st, input => (st, input, false)
  | fuel + 1, st, input =>
    if input = [] then (st, [], false)
    else
      let st := st.begin
      match st.varint.readNb input with
      | (varint, rest, false) => ({ st with varint }, rest, false)
      | (varint, rest, true) =>
        if st.state = .twoContinue then ({ st with varint }, rest, true)
        else readTwoLoop fuel { st with varint, one := varint.val, state := .twoBegin } rest

def readTwo (st : VarintRead2State) (input : List UInt8) : VarintRead2State × List UInt8 × Bool :=
  readTwoLoop 2 st input

end VarintRead2State

section
variable {σ α : Type} {step : σ → α → σ × Bool} {st st' : σ} {bs bs' rest : List α}

theorem feedUntil_append (h : feedUntil step st bs = (st', rest, false)) :
    feedUntil step st (bs ++ bs') = feedUntil step st' bs' := by
  induction bs generalizing st with
  | nil =>
    cases h
    rfl
  | cons b bs ih =>
    rw [List.cons_append, feedUntil]
    rw [feedUntil] at h
    generalize step st b = res at h
    obtain ⟨st₁, done⟩ := res
    cases done with
    | true => cases h
    | false => exact ih h

/-- What holds after each element that the machine takes, and what holds where it stops. -/
theorem feedUntil_rule {At Stop : List α → σ → Prop}
    (hstep : ∀ c b rest st, bs = c ++ b :: rest → At c st →
      (step st b).2 = false ∧ At (c ++ [b]) (step st b).1 ∨
      (step st b).2 = true ∧ Stop (c ++ [b]) (step st b).1) (h : At [] st) :
    (∃ st', feedUntil step st bs = (st', [], false) ∧ At bs st') ∨
      ∃ st' c rest, feedUntil step st bs = (st', rest, true) ∧ bs = c ++ rest ∧ c ≠ [] ∧
        Stop c st' := by
  suffices hsplit : ∀ bs' c st, bs = c ++ bs' → At c st →
      (∃ st', feedUntil step st bs' = (st', [], false) ∧ At bs st') ∨
        ∃ st' c rest, feedUntil step st bs' = (st', rest, true) ∧ bs = c ++ rest ∧ c ≠ [] ∧
          Stop c st' from hsplit bs [] st rfl h
  intro bs'
  induction bs' with
  | nil =>
    intro c st hbs hc
    rw [hbs, List.append_nil]
    exact .inl ⟨st, rfl, hc⟩
  | cons b bs' ih =>
    intro c st hbs hc
    have hs := hstep c b bs' st hbs hc
    rw [feedUntil]
    generalize step st b = res at hs
    obtain ⟨st₁, done⟩ := res
    have hbs' : bs = c ++ [b] ++ bs' := by rw [hbs, List.append_assoc, List.singleton_append]
    rcases hs with ⟨rfl, hs⟩ | ⟨rfl, hs⟩
    · exact ih (c ++ [b]) st₁ hbs' hs
    · exact .inr ⟨st₁, c ++ [b], bs', rfl, hbs', by simp, hs⟩

theorem feedUntil_rest (h : feedUntil step st bs = (st', rest, false)) : rest = [] := by
  rcases @feedUntil_rule σ α step st bs (fun _ _ => True) (fun _ _ => True)
    (fun _ b _ st _ _ => by cases (step st b).2 <;> simp) trivial with
    ⟨_, hf, -⟩ | ⟨_, _, _, hf, -⟩
  · cases hf.symm.trans h
    rfl
  · cases hf.symm.trans h

end

namespace VarintReadState

def step (st : VarintReadState) (b : UInt8) : VarintReadState × Bool :=
  if st.pos ≠ 0 then
    let val := st.val ||| b.toNat <<< shift st.pos
    if isLast st.pos then (⟨val, 0⟩, true) else (⟨val, st.pos + 1⟩, false)
  else if b.toNat >>> 6 = 0 then (⟨b.toNat, 0⟩, true)
  else if b.toNat >>> 6 = 1 then (⟨(b.toNat &&& 63) <<< 8, 1000⟩, false)
  else if b.toNat >>> 6 = 2 then (⟨(b.toNat &&& 63) <<< 24, 1001⟩, false)
  else (⟨(b.toNat &&& 63) <<< 56, 1004⟩, false)

section
variable {st : VarintReadState} {b : UInt8} {bs : List UInt8}

theorem resume_eq (hp : st.pos ≠ 0) : st.resume bs = feedUntil step st bs := by
  induction bs generalizing st with
  | nil => rfl
  | cons b bs ih =>
    rw [resume, feedUntil, step, if_pos hp]
    split
    · rfl
    · exact ih (Nat.succ_ne_zero _)

theorem or_shift (n : Nat) (b : UInt8) (k : Nat) :
    n * 2 ^ (k + 8) ||| b.toNat <<< k = (n * 256 + b.toNat) * 2 ^ k := by
  have hlt : b.toNat * 2 ^ k < 2 ^ (k + 8) := by
    have hb := b.toNat_lt
    calc b.toNat * 2 ^ k < 2 ^ 8 * 2 ^ k := Nat.mul_lt_mul_of_pos_right hb (Nat.two_pow_pos k)
      _ = 2 ^ (k + 8) := by rw [← Nat.pow_add, Nat.add_comm]
  have h := Nat.two_pow_add_eq_or_of_lt hlt n
  rw [Nat.shiftLeft_eq, Nat.mul_comm n, ← h, Nat.pow_add]
  ring

end

end VarintReadState

def varintSize (b : UInt8) : Nat := 2 ^ (b.toNat / 64)

/-- The value of the bytes of a variable-length integer: the two high bits are its size. -/
def varintValue : List UInt8 → Nat
  | [] => 0
  | b :: bs => bs.foldl (fun n b => n * 256 + b.toNat) (b.toNat % 64)

/-- A variable-length integer at the start of a list, and what follows it. -/
def decodeVarint : List UInt8 → Option (Nat × List UInt8)
  | [] => none
  | b :: bs =>
    if bs.length + 1 < varintSize b then none
    else some (varintValue (b :: bs.take (varintSize b - 1)), bs.drop (varintSize b - 1))

theorem decodeVarint_eq_some {xs : List UInt8} (h : decodeVarint xs = some (v, rest)) :
    ∃ b bs, xs = b :: bs ∧ varintSize b ≤ bs.length + 1 ∧
      v = varintValue (b :: bs.take (varintSize b - 1)) ∧ rest = bs.drop (varintSize b - 1) := by
  cases xs with
  | nil => cases h
  | cons b bs =>
    rw [decodeVarint] at h
    split at h
    · cases h
    next hle =>
      cases h
      exact ⟨b, bs, rfl, Nat.not_lt.1 hle, rfl, rfl⟩

theorem varintValue_snoc (b : UInt8) (bs : List UInt8) (c : UInt8) :
    varintValue (b :: bs ++ [c]) = varintValue (b :: bs) * 256 + c.toNat := by
  rw [List.cons_append, varintValue, varintValue, List.foldl_append, List.foldl_cons,
    List.foldl_nil]

theorem varintSize_cases (b : UInt8) :
    b.toNat / 64 = 0 ∧ varintSize b = 1 ∨ b.toNat / 64 = 1 ∧ varintSize b = 2 ∨
    b.toNat / 64 = 2 ∧ varintSize b = 4 ∨ b.toNat / 64 = 3 ∧ varintSize b = 8 := by
  have hb := b.toNat_lt
  have hlt : b.toNat / 64 < 4 := by omega
  rw [varintSize]
  generalize b.toNat / 64 = n at hlt
  match n, hlt with
  | 0, _ => exact .inl ⟨rfl, rfl⟩
  | 1, _ => exact .inr (.inl ⟨rfl, rfl⟩)
  | 2, _ => exact .inr (.inr (.inl ⟨rfl, rfl⟩))
  | 3, _ => exact .inr (.inr (.inr ⟨rfl, rfl⟩))

namespace VarintReadState

def posAfter (size k : Nat) : Nat :=
  if size = 8 then 1003 + k else 999 + k + (if size = 4 then 1 else 0)

theorem posAfter_spec {size k : Nat} (hs : size = 2 ∨ size = 4 ∨ size = 8) (h0 : 0 < k)
    (hk : k < size) :
    posAfter size k ≠ 0 ∧ shift (posAfter size k) = 8 * (size - k - 1) ∧
    isLast (posAfter size k) = decide (k + 1 = size) ∧
    posAfter size (k + 1) = posAfter size k + 1 := by
  rcases hs with rfl | rfl | rfl
  · obtain rfl : k = 1 := by omega
    decide
  · have h : ∀ k < 4, 0 < k → posAfter 4 k ≠ 0 ∧ shift (posAfter 4 k) = 8 * (4 - k - 1) ∧
        isLast (posAfter 4 k) = decide (k + 1 = 4) ∧ posAfter 4 (k + 1) = posAfter 4 k + 1 := by
      decide
    exact h k hk h0
  · have h : ∀ k < 8, 0 < k → posAfter 8 k ≠ 0 ∧ shift (posAfter 8 k) = 8 * (8 - k - 1) ∧
        isLast (posAfter 8 k) = decide (k + 1 = 8) ∧ posAfter 8 (k + 1) = posAfter 8 k + 1 := by
      decide
    exact h k hk h0

def After (st : VarintReadState) : List UInt8 → Prop
  | [] => st.pos = 0
  | b :: bs => bs.length + 1 < varintSize b ∧ st.pos = posAfter (varintSize b) (bs.length + 1) ∧
      st.val = varintValue (b :: bs) * 2 ^ (8 * (varintSize b - (bs.length + 1)))

section
variable {st : VarintReadState} {b : UInt8} {bs acc : List UInt8}

theorem After.step (h : st.After acc) (c : UInt8) :
    match decodeVarint (acc ++ [c]) with
    | none => (st.step c).2 = false ∧ (st.step c).1.After (acc ++ [c])
    | some (v, rest) => st.step c = (⟨v, 0⟩, true) ∧ rest = [] := by
  have hand : ∀ n : Nat, n &&& 63 = n % 64 := fun n => Nat.and_two_pow_sub_one_eq_mod n 6
  cases acc with
  | nil =>
    have hp : st.pos = 0 := h
    have hshift : c.toNat >>> 6 = c.toNat / 64 := Nat.shiftRight_eq_div_pow _ 6
    rw [VarintReadState.step, if_neg (by simp [hp]), hshift, hand]
    rcases varintSize_cases c with ⟨hq, hs⟩ | ⟨hq, hs⟩ | ⟨hq, hs⟩ | ⟨hq, hs⟩
    · have hsmall : c.toNat % 64 = c.toNat := by omega
      simp [decodeVarint, hs, hq, varintValue, hsmall]
    · simp [decodeVarint, hs, hq, varintValue, After, posAfter, Nat.shiftLeft_eq]
    · simp [decodeVarint, hs, hq, varintValue, After, posAfter, Nat.shiftLeft_eq]
    · simp [decodeVarint, hs, hq, varintValue, After, posAfter, Nat.shiftLeft_eq]
  | cons b bs =>
    obtain ⟨hlt, hpos, hval⟩ := h
    have hsize : varintSize b = 2 ∨ varintSize b = 4 ∨ varintSize b = 8 := by
      rcases varintSize_cases b with ⟨-, hs⟩ | ⟨-, hs⟩ | ⟨-, hs⟩ | ⟨-, hs⟩
      · omega
      · exact .inl hs
      · exact .inr (.inl hs)
      · exact .inr (.inr hs)
    obtain ⟨hp, hshift, hlast, hnext⟩ := posAfter_spec hsize (Nat.succ_pos _) hlt
    have hk : 8 * (varintSize b - (bs.length + 1)) =
        8 * (varintSize b - (bs.length + 1) - 1) + 8 := by omega
    have hor := or_shift (varintValue (b :: bs)) c (8 * (varintSize b - (bs.length + 1) - 1))
    rw [← hk, ← hval, ← varintValue_snoc] at hor
    rw [VarintReadState.step, hpos, if_pos hp, hshift, hor, hlast]
    rw [List.cons_append, decodeVarint, List.length_append, List.length_singleton]
    by_cases hdone : bs.length + 1 + 1 = varintSize b
    · have htake : varintSize b - 1 = (bs ++ [c]).length := by simp; omega
      rw [if_neg (by omega), htake, List.take_length, List.drop_length]
      have hzero : 8 * (varintSize b - (bs.length + 1) - 1) = 0 := by omega
      simp [hdone, hzero]
    · rw [if_pos (by omega)]
      simp only [hdone, decide_false, Bool.false_eq_true, if_false]
      refine ⟨trivial, ?_, ?_, ?_⟩
      · rw [List.length_append, List.length_singleton]
        omega
      · rw [List.length_append, List.length_singleton, hnext]
      · rw [List.length_append, List.length_singleton, Nat.sub_sub]

theorem decodeVarint_append {xs ys : List UInt8} (h : decodeVarint xs = some (v, rest)) :
    decodeVarint (xs ++ ys) = some (v, rest ++ ys) := by
  obtain ⟨b, bs, rfl, hle, rfl, rfl⟩ := decodeVarint_eq_some h
  have hlen : varintSize b - 1 ≤ bs.length := by omega
  rw [List.cons_append, decodeVarint, if_neg (by rw [List.length_append]; omega),
    List.take_append_of_le_length hlen, List.drop_append_of_le_length hlen]

theorem After.incomplete (h : st.After acc) : decodeVarint acc = none := by
  cases acc with
  | nil => rfl
  | cons b bs =>
    rw [decodeVarint, if_pos h.1]

theorem After.feed (h : st.After []) (bs : List UInt8) :
    match decodeVarint bs with
    | none => ∃ st', feedUntil VarintReadState.step st bs = (st', [], false)
    | some (v, rest) => feedUntil VarintReadState.step st bs = (⟨v, 0⟩, rest, true) := by
  have hrule := @feedUntil_rule _ _ VarintReadState.step st bs (fun c st => st.After c)
    (fun c st => ∃ v, st = ⟨v, 0⟩ ∧ decodeVarint c = some (v, [])) ?_ h
  · rcases hrule with ⟨st', hf, ha⟩ | ⟨_, c, rest, hf, rfl, -, v, rfl, hd⟩
    · rw [ha.incomplete]
      exact ⟨st', hf⟩
    · rw [decodeVarint_append hd]
      exact hf
  · intro c b rest st _ ha
    have hst := ha.step b
    cases hd : decodeVarint (c ++ [b]) with
    | none =>
      rw [hd] at hst
      exact .inl hst
    | some r =>
      rw [hd] at hst
      obtain ⟨hst, hr⟩ := hst
      rw [hst]
      exact .inr ⟨rfl, r.1, rfl, congrArg some (Prod.ext rfl hr)⟩

theorem foldl_bytes (n : Nat) (bs : List UInt8) :
    bs.foldl (fun n b => n * 256 + b.toNat) n = n * 256 ^ bs.length + bigEndian bs ∧
    bigEndian bs < 256 ^ bs.length := by
  induction bs generalizing n with
  | nil => simp [bigEndian]
  | cons b bs ih =>
    have hb := b.toNat_lt
    obtain ⟨hn, hlt⟩ := ih (n * 256 + b.toNat)
    have h0 : bigEndian (b :: bs) = b.toNat * 256 ^ bs.length + bigEndian bs := by
      rw [bigEndian, List.foldl_cons, Nat.zero_mul, Nat.zero_add]
      exact (ih b.toNat).1
    rw [List.foldl_cons, hn, h0, List.length_cons, Nat.pow_succ]
    constructor
    · ring
    · have hmul : b.toNat * 256 ^ bs.length ≤ 255 * 256 ^ bs.length :=
        Nat.mul_le_mul_right _ (by omega)
      omega

theorem decodeVarint_lt {xs : List UInt8} (h : decodeVarint xs = some (v, rest)) : v < 2 ^ 62 := by
  obtain ⟨b, bs, -, -, rfl, -⟩ := decodeVarint_eq_some h
  obtain ⟨hn, hlt⟩ := foldl_bytes (b.toNat % 64) (bs.take (varintSize b - 1))
  rw [varintValue, hn]
  have hlen : (bs.take (varintSize b - 1)).length ≤ 7 := by
    rw [List.length_take]
    rcases varintSize_cases b with ⟨-, hs⟩ | ⟨-, hs⟩ | ⟨-, hs⟩ | ⟨-, hs⟩ <;> omega
  generalize (bs.take (varintSize b - 1)).length = k at hlt hlen
  generalize bigEndian (bs.take (varintSize b - 1)) = x at hlt
  have hpow : 256 ^ k ≤ 256 ^ 7 := Nat.pow_le_pow_right (by decide) hlen
  have hmul : b.toNat % 64 * 256 ^ k ≤ 63 * 256 ^ k :=
    Nat.mul_le_mul_right _ (by omega)
  omega

theorem mask_eight (hq : b.toNat / 64 = 3) (hbs : bs.length = 7) :
    bigEndian (b :: bs) &&& 2 ^ 62 - 1 = varintValue (b :: bs) := by
  obtain ⟨hn, hlt⟩ := foldl_bytes b.toNat bs
  obtain ⟨hm, -⟩ := foldl_bytes (b.toNat % 64) bs
  have hbig : bigEndian (b :: bs) = b.toNat * 256 ^ bs.length + bigEndian bs := by
    rw [bigEndian, List.foldl_cons, Nat.zero_mul, Nat.zero_add]
    exact hn
  have hsplit : b.toNat = 192 + b.toNat % 64 := by omega
  rw [Nat.and_two_pow_sub_one_eq_mod, hbig, varintValue, hm]
  rw [hbs] at hlt ⊢
  generalize bigEndian bs = x at hlt
  generalize b.toNat % 64 = r at hsplit
  rw [hsplit]
  omega

/-- With its shortcuts and resumed reads, it feeds the bytes one after the other. -/
theorem readNb_eq (st : VarintReadState) (input : List UInt8) :
    st.readNb input = feedUntil step st input := by
  rw [readNb.eq_def]
  split
  next hp => exact resume_eq hp
  next hp =>
    have hp' : st.pos = 0 := by simpa using hp
    cases input with
    | nil => rfl
    | cons b bs =>
      have hafter : st.After [] := hp'
      have hfeed := hafter.feed (b :: bs)
      have hslow : ∀ st', st'.pos ≠ 0 → step st b = (st', false) →
          st'.resume bs = feedUntil step st (b :: bs) := by
        intro st' hp' hs
        rw [feedUntil, hs]
        exact resume_eq hp'
      have hstep : step st b = if b.toNat >>> 6 = 0 then (⟨b.toNat, 0⟩, true)
          else if b.toNat >>> 6 = 1 then (⟨(b.toNat &&& 63) <<< 8, 1000⟩, false)
          else if b.toNat >>> 6 = 2 then (⟨(b.toNat &&& 63) <<< 24, 1001⟩, false)
          else (⟨(b.toNat &&& 63) <<< 56, 1004⟩, false) := by
        rw [step, if_neg hp]
      simp only
      split
      next h0 =>
        rw [feedUntil, hstep, if_pos h0]
      next h0 =>
        rw [if_neg h0] at hstep
        split
        next h1 =>
          rw [if_pos h1] at hstep
          exact hslow _ (by simp) hstep
        next h1 =>
          rw [if_neg h1] at hstep
          split
          next h2 =>
            rw [if_pos h2] at hstep
            split
            next b₁ b₂ b₃ bs =>
              rw [feedUntil, hstep]
              simp [feedUntil, step, shift, isLast]
            · exact hslow _ (by simp) hstep
          next h2 =>
            rw [if_neg h2] at hstep
            have hq : b.toNat / 64 = 3 := by
              have hb := b.toNat_lt
              omega
            split
            next hlen =>
              have hsize : varintSize b = 8 := by simp [varintSize, hq]
              rw [decodeVarint, if_neg (by omega), hsize] at hfeed
              rw [hfeed, mask_eight hq (by rw [List.length_take]; omega)]
            · exact hslow _ (by simp) hstep

end

end VarintReadState

namespace VarintRead2State

def step (st : VarintRead2State) (b : UInt8) : VarintRead2State × Bool :=
  let st := st.begin
  match st.varint.step b with
  | (varint, false) => ({ st with varint }, false)
  | (varint, true) =>
    if st.state = .twoContinue then ({ st with varint }, true)
    else ({ st with varint, one := varint.val, state := .twoBegin }, false)

def decodeTwo (bs : List UInt8) : Option (Nat × Nat × List UInt8) :=
  match decodeVarint bs with
  | none => none
  | some (one, bs) =>
    match decodeVarint bs with
    | none => none
    | some (two, bs) => some (one, two, bs)

section
variable {st st' : VarintRead2State} {bs : List UInt8}

theorem begin_continue (st : VarintRead2State) :
    st.begin.state = .oneContinue ∧ (st.state = .oneBegin ∨ st.state = .oneContinue) ∨
    st.begin.state = .twoContinue ∧ (st.state = .twoBegin ∨ st.state = .twoContinue) := by
  obtain ⟨one, varint, state⟩ := st
  cases state with
  | oneBegin => exact .inl ⟨rfl, .inl rfl⟩
  | oneContinue => exact .inl ⟨rfl, .inr rfl⟩
  | twoBegin => exact .inr ⟨rfl, .inl rfl⟩
  | twoContinue => exact .inr ⟨rfl, .inr rfl⟩

theorem begin_of_continue (h : st.state = .oneContinue ∨ st.state = .twoContinue) :
    st.begin = st := by
  obtain ⟨one, varint, state⟩ := st
  rcases h with rfl | rfl
  · rfl
  · rfl

theorem feed_varint (hc : st.state = .oneContinue ∨ st.state = .twoContinue) (bs : List UInt8) :
    match feedUntil VarintReadState.step st.varint bs with
    | (varint, rest, false) => feedUntil step st bs = ({ st with varint }, rest, false)
    | (varint, rest, true) => feedUntil step st bs =
        if st.state = .twoContinue then ({ st with varint }, rest, true)
        else feedUntil step { st with varint, one := varint.val, state := .twoBegin } rest := by
  induction bs generalizing st with
  | nil => rfl
  | cons b bs ih =>
    have hstep : step st b = match st.varint.step b with
        | (varint, false) => ({ st with varint }, false)
        | (varint, true) =>
          if st.state = .twoContinue then ({ st with varint }, true)
          else ({ st with varint, one := varint.val, state := .twoBegin }, false) := by
      rw [step, begin_of_continue hc]
    rw [feedUntil, feedUntil, hstep]
    cases hv : st.varint.step b with
    | mk varint done =>
      cases done with
      | false => exact @ih { st with varint } hc
      | true =>
        simp only
        by_cases h2 : st.state = .twoContinue
        · rw [if_pos h2, if_pos h2]
        · rw [if_neg h2, if_neg h2]

theorem feedUntil_begin (hb : b :: bs = input) :
    feedUntil step st.begin input = feedUntil step st input := by
  subst hb
  have hidem : st.begin.begin = st.begin := by
    apply begin_of_continue
    rcases begin_continue st with ⟨h, -⟩ | ⟨h, -⟩
    · exact .inl h
    · exact .inr h
  rw [feedUntil, feedUntil, step, step, hidem]

theorem readTwoLoop_succ (fuel : Nat) (st : VarintRead2State) (input : List UInt8)
    (hne : input ≠ []) (hsmall : st.begin.state = .twoContinue ∨
      ∀ varint rest, readTwoLoop fuel
        { st.begin with varint, one := varint.val, state := .twoBegin }
        rest = feedUntil step { st.begin with varint, one := varint.val, state := .twoBegin } rest) :
    readTwoLoop (fuel + 1) st input = feedUntil step st input := by
  have hc : st.begin.state = .oneContinue ∨ st.begin.state = .twoContinue := by
    rcases begin_continue st with ⟨h, -⟩ | ⟨h, -⟩
    · exact .inl h
    · exact .inr h
  have hfeed := feed_varint hc input
  obtain ⟨b, bs, hin⟩ := List.exists_cons_of_ne_nil hne
  rw [feedUntil_begin hin.symm] at hfeed
  rw [readTwoLoop, if_neg hne]
  simp only
  rw [VarintReadState.readNb_eq]
  generalize feedUntil VarintReadState.step st.begin.varint input = res at hfeed
  obtain ⟨varint, rest, done⟩ := res
  cases done with
  | false => exact hfeed.symm
  | true =>
    simp only at hfeed ⊢
    rw [hfeed]
    split
    · rfl
    next h2 => exact hsmall.resolve_left h2 varint rest

theorem readTwo_eq (st : VarintRead2State) (input : List UInt8) :
    st.readTwo input = feedUntil step st input := by
  have hnil : ∀ fuel (st : VarintRead2State), readTwoLoop (fuel + 1) st [] =
      feedUntil step st [] := by
    intro fuel st
    rw [readTwoLoop, if_pos rfl]
    rfl
  by_cases hne : input = []
  · rw [hne]
    exact hnil 1 st
  · refine readTwoLoop_succ 1 st input hne (.inr fun varint rest => ?_)
    by_cases hne' : rest = []
    · rw [hne']
      exact hnil 0 _
    · exact readTwoLoop_succ 0 _ rest hne' (.inl rfl)

def After (st : VarintRead2State) (acc : List UInt8) : Prop :=
  match decodeVarint acc with
  | none => st.begin.state = .oneContinue ∧ st.begin.varint.After acc
  | some (one, rest) => st.one = one ∧ st.begin.state = .twoContinue ∧ st.begin.varint.After rest

theorem begin_one (st : VarintRead2State) : st.begin.one = st.one := by
  obtain ⟨one, varint, state⟩ := st
  cases state <;> rfl

theorem After.step (h : st.After acc) (c : UInt8) :
    match decodeTwo (acc ++ [c]) with
    | none => (st.step c).2 = false ∧ (st.step c).1.After (acc ++ [c])
    | some (one, two, rest) => (st.step c).2 = true ∧ (st.step c).1.one = one ∧
        (st.step c).1.varint = ⟨two, 0⟩ ∧ rest = [] := by
  have hbegin : ∀ varint, ({ st.begin with varint } : VarintRead2State).begin =
      { st.begin with varint } := by
    intro varint
    apply begin_of_continue
    rcases begin_continue st with ⟨h, -⟩ | ⟨h, -⟩
    · exact .inl h
    · exact .inr h
  rw [After] at h
  rw [decodeTwo, VarintRead2State.step]
  cases hone : decodeVarint acc with
  | none =>
    rw [hone] at h
    obtain ⟨hstate, hafter⟩ := h
    have hv := hafter.step c
    cases hd : decodeVarint (acc ++ [c]) with
    | none =>
      rw [hd] at hv
      obtain ⟨hmore, hafter'⟩ := hv
      generalize st.begin.varint.step c = res at hmore hafter'
      obtain ⟨varint, done⟩ := res
      obtain rfl : done = false := hmore
      refine ⟨rfl, ?_⟩
      rw [After, hd, hbegin]
      exact ⟨hstate, hafter'⟩
    | some r =>
      obtain ⟨v, rest⟩ := r
      rw [hd] at hv
      obtain ⟨hdone, rfl⟩ := hv
      have hnil : decodeVarint [] = none := rfl
      have hne : ¬ st.begin.state = .twoContinue := by simp [hstate]
      simp only [hdone, hnil, hne, if_false]
      refine ⟨trivial, ?_⟩
      rw [After, hd]
      exact ⟨rfl, rfl, rfl⟩
  | some r =>
    obtain ⟨one, rest⟩ := r
    rw [hone] at h
    obtain ⟨hval, hstate, hafter⟩ := h
    have hv := hafter.step c
    have happ := @VarintReadState.decodeVarint_append _ _ _ [c] hone
    rw [happ]
    simp only
    cases hd : decodeVarint (rest ++ [c]) with
    | none =>
      rw [hd] at hv
      obtain ⟨hmore, hafter'⟩ := hv
      simp only
      generalize st.begin.varint.step c = res at hmore hafter'
      obtain ⟨varint, done⟩ := res
      obtain rfl : done = false := hmore
      refine ⟨rfl, ?_⟩
      rw [After, happ, hbegin]
      exact ⟨(begin_one st).trans hval, hstate, hafter'⟩
    | some r =>
      obtain ⟨v, rest'⟩ := r
      rw [hd] at hv
      obtain ⟨hdone, rfl⟩ := hv
      simp only [hdone, hstate, if_true]
      exact ⟨trivial, (begin_one st).trans hval, trivial, trivial⟩

end

end VarintRead2State

end QuicArt
