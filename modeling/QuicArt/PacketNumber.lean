import QuicArt.PacketOut
import QuicArt.WindowSpec

namespace QuicArt

def toInt64 (v : Nat) : Int := if v < 2 ^ 63 then v else (v : Int) - 2 ^ 64

def packnoDiff (maxPackno c : Nat) : Nat := (toInt64 c - toInt64 maxPackno).natAbs

def decodePackno (maxPackno packno shift : Nat) : Nat :=
  let epochDelta := 2 ^ shift
  let candidate1 := add64 (maxPackno &&& (2 ^ 64 - epochDelta)) packno
  let candidate0 := sub64 candidate1 epochDelta
  let candidate2 := add64 candidate1 epochDelta
  let min := if packnoDiff maxPackno candidate1 < packnoDiff maxPackno candidate0 then candidate1
    else candidate0
  if packnoDiff maxPackno candidate2 < packnoDiff maxPackno min then candidate2 else min

/-- The expansion of RFC 9000, Appendix A.3. -/
def rfcDecode (largest truncated nbits : Nat) : Nat :=
  let expected := largest + 1
  let win := 2 ^ nbits
  let hwin := win / 2
  let candidate := expected / win * win + truncated
  if candidate + hwin ≤ expected ∧ candidate < 2 ^ 62 - win then candidate + win
  else if expected + hwin < candidate ∧ win ≤ candidate then candidate - win
  else candidate

theorem and_epoch (h : m < 2 ^ 64) (hs : s ≤ 64) : m &&& (2 ^ 64 - 2 ^ s) = m / 2 ^ s * 2 ^ s := by
  have hmask : 2 ^ 64 - 2 ^ s = (2 ^ (64 - s) - 1) * 2 ^ s := by
    rw [Nat.sub_mul, Nat.one_mul, ← Nat.pow_add, Nat.sub_add_cancel hs]
  apply Nat.eq_of_testBit_eq
  intro i
  rw [hmask, Nat.testBit_and, Nat.testBit_mul_two_pow, Nat.testBit_mul_two_pow,
    Nat.testBit_two_pow_sub_one, Nat.testBit_div_two_pow]
  by_cases hi : s ≤ i
  · rw [Nat.sub_add_cancel hi]
    by_cases hlt : i < 64
    · have h1 : i - s < 64 - s := by omega
      simp [hi, h1]
    · have hzero : m.testBit i = false :=
        Nat.testBit_lt_two_pow (Nat.lt_of_lt_of_le h (Nat.pow_le_pow_right (by omega) (by omega)))
      simp [hzero]
  · simp [hi]

def IsPacknoShift (shift : Nat) : Prop := shift = 8 ∨ shift = 16 ∨ shift = 24 ∨ shift = 32

theorem IsPacknoShift.window (h : IsPacknoShift s) :
    2 * (2 ^ s / 2) = 2 ^ s ∧ 2 ^ 8 ≤ 2 ^ s ∧ 2 ^ s ≤ 2 ^ 32 ∧ ∃ k, 2 ^ 62 = k * 2 ^ s := by
  rcases h with rfl | rfl | rfl | rfl
  · exact ⟨rfl, by decide, by decide, 2 ^ 54, by decide⟩
  · exact ⟨rfl, by decide, by decide, 2 ^ 46, by decide⟩
  · exact ⟨rfl, by decide, by decide, 2 ^ 38, by decide⟩
  · exact ⟨rfl, by decide, by decide, 2 ^ 30, by decide⟩

theorem toInt64_eq (h : v < 2 ^ 63) : toInt64 v = v := if_pos h

theorem toInt64_sub64 (hc : c < 2 ^ 63) (hw : w ≤ 2 ^ 32) :
    toInt64 (sub64 c w) = (c : Int) - w := by
  rw [sub64, toInt64]
  by_cases h : w ≤ c
  · have hmod : (c + 2 ^ 64 - w) % 2 ^ 64 = c - w := by omega
    rw [hmod, if_pos (by omega)]
    omega
  · have hmod : (c + 2 ^ 64 - w) % 2 ^ 64 = c + 2 ^ 64 - w := by omega
    rw [hmod, if_neg (by omega)]
    omega

/-- The candidate nearest to the largest number is picked, also beyond the number range. -/
theorem decodePackno_eq (hm : m < 2 ^ 62) (hs : IsPacknoShift s) (ht : t < 2 ^ s) :
    decodePackno m t s =
      if m % 2 ^ s + 2 ^ s / 2 ≤ t then sub64 (m / 2 ^ s * 2 ^ s + t) (2 ^ s)
      else if t + 2 ^ s / 2 < m % 2 ^ s then m / 2 ^ s * 2 ^ s + t + 2 ^ s
      else m / 2 ^ s * 2 ^ s + t := by
  obtain ⟨hh, hw1, hw2, -⟩ := hs.window
  have hs64 : s ≤ 64 := by
    rcases hs with rfl | rfl | rfl | rfl <;> omega
  have hdiv := Nat.div_add_mod' m (2 ^ s)
  have hlow := Nat.mod_lt m (Nat.two_pow_pos s)
  rw [decodePackno, and_epoch (by omega) hs64]
  generalize 2 ^ s / 2 = half at hh ⊢
  generalize 2 ^ s = win at *
  generalize m / win * win = base at *
  generalize m % win = low at *
  have h1 : add64 base t = base + t := add64_eq (by omega)
  have h2 : add64 (base + t) win = base + t + win := add64_eq (by omega)
  have hd0 : packnoDiff m (sub64 (base + t) win) = win + low - t := by
    rw [packnoDiff, toInt64_sub64 (by omega) (by omega), toInt64_eq (by omega)]
    omega
  have hd1 : packnoDiff m (base + t) = if t ≤ low then low - t else t - low := by
    rw [packnoDiff, toInt64_eq (by omega), toInt64_eq (by omega)]
    split <;> omega
  have hd2 : packnoDiff m (base + t + win) = t + win - low := by
    rw [packnoDiff, toInt64_eq (by omega), toInt64_eq (by omega)]
    omega
  rw [h1, h2]
  by_cases hup : low + half ≤ t
  · have hfar : ¬ packnoDiff m (base + t) < packnoDiff m (sub64 (base + t) win) := by
      rw [hd0, hd1, if_neg (by omega)]
      omega
    rw [if_pos hup, if_neg hfar, if_neg (by omega)]
  · have hnear : packnoDiff m (base + t) < packnoDiff m (sub64 (base + t) win) := by
      rw [hd0, hd1]
      split <;> omega
    rw [if_neg hup, if_pos hnear, hd2, hd1]
    by_cases hdown : t + half < low
    · have hfar : t + win - low < if t ≤ low then low - t else t - low := by
        rw [if_pos (by omega)]
        omega
      rw [if_pos hdown, if_pos hfar]
    · have hfar : ¬ (t + win - low < if t ≤ low then low - t else t - low) := by
        split <;> omega
      rw [if_neg hdown, if_neg hfar]

/-- The number with these low bits is within half a window of the largest one; the last two places
above count only at the end of the number range. -/
def PacknoNear (largest truncated shift : Nat) : Prop :=
  ∃ n, n < 2 ^ 62 ∧ n % 2 ^ shift = truncated ∧
    ((largest + 2 ≤ n + 2 ^ shift / 2 ∧ n < largest + 2 ^ shift / 2) ∨
      (2 ^ 62 - 2 ^ shift ≤ n ∧ largest + 1 < 2 ^ 62 ∧
        (n + 2 ^ shift / 2 = largest ∨ n + 2 ^ shift / 2 = largest + 1)))

theorem same_low_bits {n m w t : Nat} (hn : n % w = t) (hlow : m < n + w) (hup : n < m + w) :
    n = m / w * w + t ∨ n + w = m / w * w + t ∨ n = m / w * w + t + w := by
  have hw : 0 < w := by omega
  have hdiv := Nat.div_add_mod' n w
  have h1 : n / w ≤ m / w + 1 := by
    rw [← Nat.add_div_right m hw]
    exact Nat.div_le_div_right (by omega)
  have h2 : m / w ≤ n / w + 1 := by
    rw [← Nat.add_div_right n hw]
    exact Nat.div_le_div_right (by omega)
  rcases Nat.lt_trichotomy (n / w) (m / w) with h | h | h
  · have heq : m / w = n / w + 1 := by omega
    rw [heq, Nat.add_mul, Nat.one_mul]
    omega
  · rw [← h]
    omega
  · have heq : n / w = m / w + 1 := by omega
    rw [heq, Nat.add_mul, Nat.one_mul] at hdiv
    omega

theorem succ_div_mul (m w : Nat) (hw : 0 < w) :
    (m + 1) / w * w = if m % w + 1 = w then m / w * w + w else m / w * w := by
  rw [Nat.succ_div]
  by_cases h : w ∣ m + 1
  · have hlow : m % w + 1 = w := by
      have := Nat.mod_lt m hw
      have hmod := Nat.mod_eq_zero_of_dvd h
      rw [Nat.add_mod] at hmod
      by_contra hne
      have h1 : 1 % w = 1 := Nat.mod_eq_of_lt (by omega)
      rw [h1, Nat.mod_eq_of_lt (by omega)] at hmod
      omega
    rw [if_pos h, if_pos hlow, Nat.add_mul, Nat.one_mul]
  · have hlow : ¬ m % w + 1 = w := by
      intro hc
      apply h
      have := Nat.div_add_mod' m w
      exact ⟨m / w + 1, by rw [Nat.mul_add, Nat.mul_one, Nat.mul_comm]; omega⟩
    rw [if_neg h, if_neg hlow, Nat.add_zero]

section
variable (hm : m < 2 ^ 62) (hs : IsPacknoShift s)
include hm hs

theorem decodePackno_near (hlo : m ≤ n + 2 ^ s / 2)
    (hhi : n < m + 2 ^ s / 2) : decodePackno m (n % 2 ^ s) s = n := by
  obtain ⟨hh, hw1, hw2, -⟩ := hs.window
  have hcand := same_low_bits (n := n) (m := m) (w := 2 ^ s) rfl (by omega) (by omega)
  have hdiv := Nat.div_add_mod' m (2 ^ s)
  have hlow := Nat.mod_lt m (Nat.two_pow_pos s)
  have ht := Nat.mod_lt n (Nat.two_pow_pos s)
  rw [decodePackno_eq hm hs ht]
  generalize n % 2 ^ s = t at *
  generalize 2 ^ s / 2 = half at *
  generalize 2 ^ s = win at *
  generalize m / win * win = base at *
  generalize m % win = low at *
  by_cases hup : low + half ≤ t
  · rw [if_pos hup, sub64_eq (by omega) (by omega)]
    omega
  · rw [if_neg hup]
    by_cases hdown : t + half < low
    · rw [if_pos hdown]
      omega
    · rw [if_neg hdown]
      omega

theorem window_end :
    m / 2 ^ s * 2 ^ s + 2 ^ s = 2 ^ 62 ∨ m / 2 ^ s * 2 ^ s + 2 ^ s + 2 ^ s ≤ 2 ^ 62 := by
  obtain ⟨-, -, -, k, hk⟩ := hs.window
  have hq : m / 2 ^ s < k := Nat.div_lt_of_lt_mul (by rw [Nat.mul_comm, ← hk]; exact hm)
  rw [hk]
  rcases Nat.lt_or_eq_of_le (Nat.succ_le_of_lt hq) with h | h
  · have hle : (m / 2 ^ s + 1 + 1) * 2 ^ s ≤ k * 2 ^ s := Nat.mul_le_mul_right _ h
    rw [Nat.add_mul, Nat.add_mul, Nat.one_mul] at hle
    exact .inr hle
  · rw [← h, Nat.succ_mul]
    exact .inl rfl

theorem rfcDecode_near (hlo : m ≤ n + 2 ^ s / 2) (hhi : n < m + 2 ^ s / 2) (hn : n < 2 ^ 62) :
    n = rfcDecode m (n % 2 ^ s) s ↔
      m + 2 ≤ n + 2 ^ s / 2 ∨ (2 ^ 62 - 2 ^ s ≤ n ∧ m + 1 < 2 ^ 62) := by
  obtain ⟨hh, hw1, hw2, -⟩ := hs.window
  have hcand := same_low_bits (n := n) (m := m) (w := 2 ^ s) rfl (by omega) (by omega)
  have hdiv := Nat.div_add_mod' m (2 ^ s)
  have hlow := Nat.mod_lt m (Nat.two_pow_pos s)
  have ht := Nat.mod_lt n (Nat.two_pow_pos s)
  have hlast := window_end hm hs
  rw [rfcDecode]
  simp only [succ_div_mul m (2 ^ s) (Nat.two_pow_pos s)]
  generalize n % 2 ^ s = t at *
  generalize 2 ^ s / 2 = half at *
  generalize 2 ^ s = win at *
  generalize m / win * win = base at *
  generalize m % win = low at *
  by_cases hlw : low + 1 = win
  · simp only [if_pos hlw]
    split
    · omega
    · split
      · omega
      · omega
  · simp only [if_neg hlw]
    split
    · omega
    · split
      · omega
      · omega

theorem decodePackno_cases (ht : t < 2 ^ s) :
    2 ^ 63 ≤ decodePackno m t s ∨
      ∃ n, n % 2 ^ s = t ∧ m ≤ n + 2 ^ s / 2 ∧ n < m + 2 ^ s / 2 := by
  obtain ⟨hh, hw1, hw2, -⟩ := hs.window
  have hdiv := Nat.div_add_mod' m (2 ^ s)
  have hlow := Nat.mod_lt m (Nat.two_pow_pos s)
  have hbits : (m / 2 ^ s * 2 ^ s + t) % 2 ^ s = t := by
    rw [Nat.mul_add_mod_self_right, Nat.mod_eq_of_lt ht]
  by_cases hup : m % 2 ^ s + 2 ^ s / 2 ≤ t
  · by_cases hwrap : m / 2 ^ s * 2 ^ s + t < 2 ^ s
    · left
      rw [decodePackno_eq hm hs ht, if_pos hup, sub64]
      omega
    · right
      refine ⟨m / 2 ^ s * 2 ^ s + t - 2 ^ s, ?_, by omega, by omega⟩
      rw [← Nat.add_mod_right, Nat.sub_add_cancel (by omega), hbits]
  · right
    by_cases hdown : t + 2 ^ s / 2 < m % 2 ^ s
    · refine ⟨m / 2 ^ s * 2 ^ s + t + 2 ^ s, ?_, by omega, by omega⟩
      rw [Nat.add_mod_right, hbits]
    · exact ⟨m / 2 ^ s * 2 ^ s + t, hbits, by omega, by omega⟩

end

/-- The two decoders agree exactly on the numbers near the expected one. -/
theorem decode_packno_eq_rfc_iff (hm : m < 2 ^ 62) (hs : IsPacknoShift s) (ht : t < 2 ^ s) :
    (decodePackno m t s = rfcDecode m t s ∧ decodePackno m t s < 2 ^ 62) ↔ PacknoNear m t s := by
  obtain ⟨hh, hw1, -, -⟩ := hs.window
  constructor
  · rintro ⟨heq, hlt⟩
    rcases decodePackno_cases hm hs ht with hwrap | ⟨n, rfl, hlo, hhi⟩
    · omega
    · rw [decodePackno_near hm hs hlo hhi] at heq hlt
      refine ⟨n, hlt, rfl, ?_⟩
      rcases (rfcDecode_near hm hs hlo hhi hlt).mp heq with hin | ⟨hlast, hm'⟩
      · exact .inl ⟨hin, hhi⟩
      · by_cases hin : m + 2 ≤ n + 2 ^ s / 2
        · exact .inl ⟨hin, hhi⟩
        · exact .inr ⟨hlast, hm', by omega⟩
  · rintro ⟨n, hn, rfl, hnear⟩
    have hlo : m ≤ n + 2 ^ s / 2 := by omega
    have hhi : n < m + 2 ^ s / 2 := by omega
    rw [decodePackno_near hm hs hlo hhi]
    exact ⟨(rfcDecode_near hm hs hlo hhi hn).mpr (by omega), hn⟩

theorem decode_packno_eq_rfc_next :
    decodePackno 1000 233 8 = rfcDecode 1000 233 8 ∧ decodePackno 1000 233 8 < 2 ^ 62 :=
  (decode_packno_eq_rfc_iff (by decide) (.inl rfl) (by decide)).mpr
    ⟨1001, by decide, by decide, .inl (by decide)⟩

/-- A number below zero is preferred to one far away; of two at half a window the lower one is
taken. -/
theorem decode_packno_off_window :
    decodePackno 0 200 8 = 2 ^ 64 - 56 ∧ rfcDecode 0 200 8 = 200 ∧
    decodePackno 1000 104 8 = 872 ∧ rfcDecode 1000 104 8 = 1128 ∧
    decodePackno (2 ^ 62 - 2) 0 8 = 2 ^ 62 ∧ rfcDecode (2 ^ 62 - 2) 0 8 = 2 ^ 62 - 256 := by
  decide +kernel

def calcPacknoBits (packno leastUnacked nInFlight : Nat) : Nat :=
  let delta := max (sub64 packno leastUnacked) nInFlight * 4 % 2 ^ 64
  (decide (2 ^ 8 ≤ delta)).toNat + (decide (2 ^ 16 ≤ delta)).toNat + (decide (2 ^ 24 ≤ delta)).toNat

/-- `write_packno`: the last bytes of the number, the most significant one first. -/
def writePackno (packno bits : Nat) : List UInt8 :=
  match bits with
  | 3 => [.ofNat (packno >>> 24), .ofNat (packno >>> 16), .ofNat (packno >>> 8), .ofNat packno]
  | 2 => [.ofNat (packno >>> 16), .ofNat (packno >>> 8), .ofNat packno]
  | 1 => [.ofNat (packno >>> 8), .ofNat packno]
  | _ => [.ofNat packno]

/-- The bits of the first byte that header protection covers, with or without the loss bits. -/
def hpBits (ql : Bool) (first : UInt8) : UInt8 :=
  if ql then (0x7 : UInt8) ||| ((first >>> 7) <<< 3)
  else (0xF : UInt8) ||| ((if first &&& 0x80 = 0 then (1 : UInt8) else 0) <<< 4)

/-- The bytes of the packet number are masked, the last one first. -/
def xorPackno (mask : Nat → UInt8) (off : Nat) : Nat → (Nat → UInt8) → Nat → UInt8
  | 0, dst => dst
  | k + 1, dst => xorPackno mask off k
    (Function.update dst (off + k) (dst (off + k) ^^^ mask (k + 1)))

def applyHp (ql : Bool) (mask : Nat → UInt8) (packnoOff packnoLen : Nat) (dst : Nat → UInt8) :
    Nat → UInt8 :=
  xorPackno mask packnoOff packnoLen
    (Function.update dst 0 (dst 0 ^^^ (hpBits ql (dst 0) &&& mask 0)))

/-- The packet number is unmasked and read, the last byte first. -/
def stripPackno (mask : Nat → UInt8) (off : Nat) :
    Nat → (Nat → UInt8) → Nat → Nat → (Nat → UInt8) × Nat × Nat
  | 0, dst, packno, shift => (dst, packno, shift)
  | k + 1, dst, packno, shift =>
    let b := dst (off + k) ^^^ mask (k + 1)
    stripPackno mask off k (Function.update dst (off + k) b) (packno ||| b.toNat <<< shift)
      (shift + 8)

/-- `strip_hp`, with the largest packet number received so far in the packet number space. -/
def stripHp (ql : Bool) (mask : Nat → UInt8) (maxPackno : Option Nat) (packnoOff : Nat)
    (dst : Nat → UInt8) : (Nat → UInt8) × Nat × Nat :=
  let dst := Function.update dst 0 (dst 0 ^^^ (hpBits ql (dst 0) &&& mask 0))
  let packnoLen := 1 + (dst 0 &&& 3).toNat
  let (dst, packno, shift) := stripPackno mask packnoOff packnoLen dst 0 0
  match maxPackno with
  | some max => (dst, decodePackno max packno shift, packnoLen)
  | none => (dst, packno, packnoLen)

/-- The sample that the mask of header protection is made of. -/
def hpSample (packnoOff : Nat) (dst : Nat → UInt8) : List UInt8 :=
  (List.range 16).map fun i => dst (packnoOff + 4 + i)

section
variable {ql : Bool} {mask : Nat → UInt8} {off k : Nat} {dst : Nat → UInt8}

theorem xorPackno_apply (mask : Nat → UInt8) (off k : Nat) (dst : Nat → UInt8) (j : Nat) :
    xorPackno mask off k dst j =
      if off ≤ j ∧ j < off + k then dst j ^^^ mask (j - off + 1) else dst j := by
  induction k generalizing dst with
  | zero => rw [xorPackno, if_neg (by omega)]
  | succ k ih =>
    rw [xorPackno, ih]
    by_cases hj : j = off + k
    · subst hj
      rw [Function.update_self, if_neg (by omega), if_pos (by omega), Nat.add_sub_cancel_left]
    · rw [Function.update_of_ne hj]
      by_cases hin : off ≤ j ∧ j < off + k
      · rw [if_pos hin, if_pos (by omega)]
      · rw [if_neg hin, if_neg (by omega)]

def packnoAt (dst : Nat → UInt8) (off : Nat) : Nat → Nat
  | 0 => 0
  | k + 1 => packnoAt dst off k * 256 + (dst (off + k)).toNat

theorem stripPackno_eq (hp : packno < 2 ^ shift) :
    stripPackno mask off k dst packno shift =
      (xorPackno mask off k dst, packno + 2 ^ shift * packnoAt (xorPackno mask off k dst) off k,
        shift + 8 * k) := by
  induction k generalizing dst packno shift with
  | zero => simp [stripPackno, xorPackno, packnoAt]
  | succ k ih =>
    have hb : (dst (off + k) ^^^ mask (k + 1)).toNat < 256 := UInt8.toNat_lt _
    have hor : packno ||| (dst (off + k) ^^^ mask (k + 1)).toNat <<< shift =
        packno + 2 ^ shift * (dst (off + k) ^^^ mask (k + 1)).toNat := by
      rw [Nat.shiftLeft_eq, Nat.mul_comm, Nat.or_comm, ← Nat.two_pow_add_eq_or_of_lt hp,
        Nat.add_comm]
    have hlast : xorPackno mask off k
        (Function.update dst (off + k) (dst (off + k) ^^^ mask (k + 1))) (off + k) =
        dst (off + k) ^^^ mask (k + 1) := by
      rw [xorPackno_apply, if_neg (by omega), Function.update_self]
    have hbound : packno + 2 ^ shift * (dst (off + k) ^^^ mask (k + 1)).toNat <
        2 ^ (shift + 8) := by
      rw [Nat.pow_add]
      calc packno + 2 ^ shift * (dst (off + k) ^^^ mask (k + 1)).toNat
          < 2 ^ shift + 2 ^ shift * 255 :=
            Nat.add_lt_add_of_lt_of_le hp (Nat.mul_le_mul_left _ (by omega))
        _ = 2 ^ shift * 2 ^ 8 := by omega
    rw [stripPackno, hor, ih hbound, xorPackno, packnoAt, hlast, Nat.pow_add]
    refine Prod.ext rfl (Prod.ext ?_ ?_)
    · have hassoc : ∀ n, 2 ^ shift * 2 ^ 8 * n = 2 ^ shift * (n * 256) := by
        intro n
        have h256 : 2 ^ 8 = 256 := rfl
        rw [h256, Nat.mul_assoc, Nat.mul_comm 256]
      simp only
      rw [hassoc, Nat.mul_add]
      omega
    · simp only
      omega

theorem hpBits_eq (ql : Bool) (first : UInt8) :
    hpBits ql first = if 128 ≤ first.toNat then 0xF else if ql then 0x7 else 0x1F := by
  have h : ∀ ql : Bool, ∀ n < 256, hpBits ql (UInt8.ofNat n) =
      if 128 ≤ (UInt8.ofNat n).toNat then 0xF else if ql then 0x7 else 0x1F := by
    decide +kernel
  have hfirst := h ql first.toNat (UInt8.toNat_lt _)
  rw [UInt8.ofNat_toNat] at hfirst
  exact hfirst

theorem xor_low_bits {a b : Nat} (hb : b < 128) : 128 ≤ a ^^^ b ↔ 128 ≤ a := by
  constructor
  · intro h
    by_contra hc
    have hlt : a ^^^ b < 2 ^ 7 := Nat.xor_lt_two_pow (by omega) hb
    omega
  · intro h
    by_contra hc
    have hlt : a ^^^ b ^^^ b < 2 ^ 7 := Nat.xor_lt_two_pow (by omega) hb
    rw [Nat.xor_assoc, Nat.xor_self, Nat.xor_zero] at hlt
    omega

theorem hpBits_protected (ql : Bool) (first m : UInt8) :
    hpBits ql (first ^^^ (hpBits ql first &&& m)) = hpBits ql first := by
  have hbits : (hpBits ql first).toNat < 128 := by
    rw [hpBits_eq]
    split
    · decide
    · split
      · decide
      · decide
  have hcover : (hpBits ql first &&& m).toNat < 128 := by
    rw [UInt8.toNat_and]
    exact Nat.lt_of_le_of_lt Nat.and_le_left hbits
  rw [hpBits_eq ql (first ^^^ _), hpBits_eq ql first, UInt8.toNat_xor]
  rw [hpBits_eq] at hcover
  simp only [xor_low_bits hcover]

theorem first_restored (ql : Bool) (first m : UInt8) :
    first ^^^ (hpBits ql first &&& m) ^^^ (hpBits ql (first ^^^ (hpBits ql first &&& m)) &&& m) =
      first := by
  rw [hpBits_protected, UInt8.xor_assoc, UInt8.xor_self, UInt8.xor_zero]

/-- Removing the protection gives back the header and its packet number. -/
theorem stripHp_applyHp (hoff : 0 < off) (hlen : 1 + (dst 0 &&& 3).toNat = len)
    (max : Option Nat) :
    stripHp ql mask max off (applyHp ql mask off len dst) =
      (dst, match max with
        | some max => decodePackno max (packnoAt dst off len) (8 * len)
        | none => packnoAt dst off len, len) := by
  have hfirst : applyHp ql mask off len dst 0 = dst 0 ^^^ (hpBits ql (dst 0) &&& mask 0) := by
    rw [applyHp, xorPackno_apply, if_neg (by omega), Function.update_self]
  have hbuf : xorPackno mask off len (Function.update (applyHp ql mask off len dst) 0 (dst 0)) =
      dst := by
    funext j
    rw [xorPackno_apply]
    by_cases hj : j = 0
    · subst hj
      rw [if_neg (by omega), Function.update_self]
    · rw [Function.update_of_ne hj, applyHp, xorPackno_apply, Function.update_of_ne hj]
      split
      · rw [UInt8.xor_assoc, UInt8.xor_self, UInt8.xor_zero]
      · rfl
  rw [stripHp]
  simp only [hfirst, first_restored, Function.update_self, hlen]
  rw [stripPackno_eq (by decide), hbuf]
  simp only [Nat.pow_zero, Nat.one_mul, Nat.zero_add]
  cases max with
  | none => rfl
  | some max => rfl

theorem hpSample_applyHp (ql : Bool) (mask : Nat → UInt8) (dst : Nat → UInt8) (off : Nat)
    (hlen : len ≤ 4) : hpSample off (applyHp ql mask off len dst) = hpSample off dst := by
  rw [hpSample, hpSample]
  apply List.map_congr_left
  intro i _
  rw [applyHp, xorPackno_apply, if_neg (by omega), Function.update_of_ne (by omega)]

theorem calcPacknoBits_spec (hn : n < 2 ^ 62) (hle : leastUnacked ≤ n)
    (hd : n - leastUnacked < 2 ^ 30) (hfl : nInFlight < 2 ^ 62) :
    ∃ bits, calcPacknoBits n leastUnacked nInFlight = bits ∧ bits ≤ 3 ∧
      n - leastUnacked + 1 < 2 ^ (8 * packnoBits2len bits) / 2 := by
  have hdelta : max (sub64 n leastUnacked) nInFlight * 4 % 2 ^ 64 =
      max (n - leastUnacked) nInFlight * 4 := by
    rw [sub64_eq hle (by omega), Nat.mod_eq_of_lt (by omega)]
  rw [calcPacknoBits, hdelta]
  have hge : n - leastUnacked ≤ max (n - leastUnacked) nInFlight := Nat.le_max_left _ _
  generalize max (n - leastUnacked) nInFlight = delta at *
  by_cases h8 : 2 ^ 8 ≤ delta * 4
  · by_cases h16 : 2 ^ 16 ≤ delta * 4
    · by_cases h24 : 2 ^ 24 ≤ delta * 4
      · refine ⟨3, ?_, by omega, ?_⟩
        · rw [decide_eq_true h8, decide_eq_true h16, decide_eq_true h24]
          rfl
        · rw [packnoBits2len]
          omega
      · refine ⟨2, ?_, by omega, ?_⟩
        · rw [decide_eq_true h8, decide_eq_true h16, decide_eq_false h24]
          rfl
        · rw [packnoBits2len]
          omega
    · have h24 : ¬ 2 ^ 24 ≤ delta * 4 := by omega
      refine ⟨1, ?_, by omega, ?_⟩
      · rw [decide_eq_true h8, decide_eq_false h16, decide_eq_false h24]
        rfl
      · rw [packnoBits2len]
        omega
  · have h16 : ¬ 2 ^ 16 ≤ delta * 4 := by omega
    have h24 : ¬ 2 ^ 24 ≤ delta * 4 := by omega
    refine ⟨0, ?_, by omega, ?_⟩
    · rw [decide_eq_false h8, decide_eq_false h16, decide_eq_false h24]
      rfl
    · rw [packnoBits2len]
      omega

theorem packnoAt_writePackno (hbits : bits ≤ 3)
    (h : ∀ i < packnoBits2len bits, dst (off + i) = (writePackno n bits).getD i 0) :
    packnoAt dst off (packnoBits2len bits) = n % 2 ^ (8 * packnoBits2len bits) := by
  have hbyte : ∀ k, (UInt8.ofNat (n >>> k)).toNat = n / 2 ^ k % 256 := by
    intro k
    rw [UInt8.toNat_ofNat', Nat.shiftRight_eq_div_pow]
  have hbyte0 : (UInt8.ofNat n).toNat = n % 256 := UInt8.toNat_ofNat'
  rw [packnoBits2len] at h ⊢
  rcases (by omega : bits = 0 ∨ bits = 1 ∨ bits = 2 ∨ bits = 3) with rfl | rfl | rfl | rfl
  · simp only [packnoAt, h 0 (by omega), writePackno, List.getD_cons_zero, hbyte0]
    omega
  · simp only [packnoAt, h 0 (by omega), h 1 (by omega), writePackno, List.getD_cons_zero,
      List.getD_cons_succ, hbyte0, hbyte]
    omega
  · simp only [packnoAt, h 0 (by omega), h 1 (by omega), h 2 (by omega), writePackno,
      List.getD_cons_zero, List.getD_cons_succ, hbyte0, hbyte]
    omega
  · simp only [packnoAt, h 0 (by omega), h 1 (by omega), h 2 (by omega), h 3 (by omega),
      writePackno, List.getD_cons_zero, List.getD_cons_succ, hbyte0, hbyte]
    omega

/-- For every packet and mask, at a receiver that has got a packet from the sender's window. -/
theorem packno_round_trip (hn : n < 2 ^ 62) (hle : leastUnacked ≤ n)
    (hd : n - leastUnacked < 2 ^ 30) (hfl : nInFlight < 2 ^ 62)
    (hbits : calcPacknoBits n leastUnacked nInFlight = bits) (hoff : 0 < off)
    (hfirst : (dst 0 &&& 3).toNat = bits)
    (hpackno : ∀ i < packnoBits2len bits, dst (off + i) = (writePackno n bits).getD i 0)
    (hmax : match largest? with
      | some largest => leastUnacked ≤ largest + 1 ∧ largest < n
      | none => leastUnacked = 0)
    (ql : Bool) (genMask : List UInt8 → Nat → UInt8) :
    ∃ sent, applyHp ql (genMask (hpSample off dst)) off (packnoBits2len bits) dst = sent ∧
      stripHp ql (genMask (hpSample off sent)) largest? off sent =
        (dst, n, packnoBits2len bits) := by
  obtain ⟨bits', rfl, hle3, hroom⟩ := calcPacknoBits_spec hn hle hd hfl
  subst hbits
  generalize calcPacknoBits n leastUnacked nInFlight = bits at *
  have hlen : 1 + (dst 0 &&& 3).toNat = packnoBits2len bits := by
    rw [hfirst, packnoBits2len, Nat.add_comm]
  refine ⟨_, rfl, ?_⟩
  rw [hpSample_applyHp ql _ dst off (by rw [packnoBits2len]; omega), stripHp_applyHp hoff hlen,
    packnoAt_writePackno hle3 hpackno]
  have hshift : IsPacknoShift (8 * packnoBits2len bits) := by
    rw [IsPacknoShift, packnoBits2len]
    omega
  cases largest? with
  | none =>
    obtain rfl : leastUnacked = 0 := hmax
    rw [Nat.mod_eq_of_lt (by omega)]
  | some largest =>
    obtain ⟨hlow, hup⟩ := hmax
    simp only
    rw [decodePackno_near (by omega) hshift (by omega) (by omega)]

end

def shortPacket (i : Nat) : UInt8 := if i = 0 then 0x40 else if i = 9 then 232 else .ofNat i

theorem packno_round_trip_short :
    ∃ sent, applyHp false (fun i => .ofNat (37 * i + 165)) 9 1 shortPacket = sent ∧
      stripHp false (fun i => .ofNat (37 * i + 165)) (some 995) 9 sent = (shortPacket, 1000, 1) :=
  @packno_round_trip 9 shortPacket 1000 990 10 0 (some 995) (by decide) (by decide) (by decide)
    (by decide) (by decide) (by decide) (by decide) (by decide) ⟨by decide, by decide⟩ false
    (fun _ i => .ofNat (37 * i + 165))

end QuicArt
