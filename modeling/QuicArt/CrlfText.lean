import Mathlib.Data.List.Infix

namespace QuicArt

def crlf : List UInt8 := [13, 10]

def HasCrlf (bs : List UInt8) : Prop := crlf <:+: bs

instance (bs : List UInt8) : Decidable (HasCrlf bs) := inferInstanceAs (Decidable (_ <:+: _))

def textOf : List (List UInt8) → List UInt8
  | [] => crlf
  | l :: ls => l ++ crlf ++ textOf ls

theorem textOf_eq (ls : List (List UInt8)) : textOf ls = ls.flatMap (· ++ crlf) ++ crlf := by
  induction ls with
  | nil => rfl
  | cons l ls ih => simp only [textOf, ih, List.flatMap_cons, List.append_assoc]

def pushByte (b : UInt8) : List (List UInt8) → List (List UInt8)
  | [] => [[b]]
  | l :: ls => (b :: l) :: ls

def splitCrlf : List UInt8 → List (List UInt8)
  | [] => [[]]
  | [b] => [[b]]
  | b :: c :: bs => if b = 13 ∧ c = 10 then [] :: splitCrlf bs else pushByte b (splitCrlf (c :: bs))

theorem not_hasCrlf_nil : ¬ HasCrlf [] := by decide

theorem hasCrlf_cons : HasCrlf (b :: bs) ↔ (b = 13 ∧ bs.head? = some 10) ∨ HasCrlf bs := by
  rw [HasCrlf, List.infix_cons_iff, crlf, List.cons_prefix_cons]
  apply or_congr _ Iff.rfl
  cases bs with
  | nil => simp
  | cons c bs => simp [List.cons_prefix_cons, eq_comm]

theorem hasCrlf_append_cons (hr : c ≠ 13) (hn : c ≠ 10) :
    HasCrlf (a ++ c :: b) ↔ HasCrlf a ∨ HasCrlf b := by
  induction a with
  | nil => simp [hasCrlf_cons, hr, not_hasCrlf_nil]
  | cons x a ih =>
    rw [List.cons_append, hasCrlf_cons, hasCrlf_cons, ih, or_assoc]
    apply or_congr _ Iff.rfl
    cases a with
    | nil => simp [hn]
    | cons y a => simp

theorem noBreak_of_all {sep : List UInt8} (h : sep.all (fun c => c != 13 && c != 10) = true) :
    ∀ c ∈ sep, c ≠ 13 ∧ c ≠ 10 := by
  simpa using h

theorem hasCrlf_append_sep (h0 : sep ≠ []) (h : ∀ c ∈ sep, c ≠ 13 ∧ c ≠ 10) :
    HasCrlf (a ++ (sep ++ b)) ↔ HasCrlf a ∨ HasCrlf b := by
  induction sep generalizing a with
  | nil => exact absurd rfl h0
  | cons c sep ih =>
    obtain ⟨⟨hr, hn⟩, hs⟩ := List.forall_mem_cons.mp h
    rw [List.cons_append, hasCrlf_append_cons hr hn]
    apply or_congr Iff.rfl
    cases sep with
    | nil => rfl
    | cons d sep =>
      have hd := @ih [] (by simp) hs
      simpa [not_hasCrlf_nil] using hd

theorem splitCrlf_ne_nil (bs : List UInt8) : splitCrlf bs ≠ [] := by
  fun_induction splitCrlf bs with
  | case1 => simp
  | case2 => simp
  | case3 => simp
  | case4 b c bs h ih =>
    cases hs : splitCrlf (c :: bs) <;> simp [pushByte]

theorem splitCrlf_push (h : ¬ (b = 13 ∧ bs.head? = some 10)) :
    splitCrlf (b :: bs) = pushByte b (splitCrlf bs) := by
  cases bs with
  | nil => rfl
  | cons c bs =>
    rw [splitCrlf, if_neg]
    simpa using h

theorem splitCrlf_line (h : ¬ HasCrlf l) (rest : List UInt8) :
    splitCrlf (l ++ crlf ++ rest) = l :: splitCrlf rest := by
  induction l with
  | nil => rfl
  | cons b l ih =>
    obtain ⟨hb, hl⟩ := not_or.mp (mt hasCrlf_cons.mpr h)
    have hp : ¬ (b = 13 ∧ (l ++ crlf ++ rest).head? = some 10) := by
      cases l with
      | nil => simp [crlf]
      | cons c l => simpa using hb
    rw [List.cons_append, List.cons_append, splitCrlf_push hp, ih hl, pushByte]

theorem splitCrlf_textOf (h : ∀ l ∈ ls, ¬ HasCrlf l) : splitCrlf (textOf ls) = ls ++ [[], []] := by
  induction ls with
  | nil => rfl
  | cons l ls ih =>
    obtain ⟨hl, hls⟩ := List.forall_mem_cons.mp h
    rw [textOf, splitCrlf_line hl, ih hls]
    rfl

theorem splitCrlf_head (h : splitCrlf bs = l :: ls) : l <+: bs := by
  fun_induction splitCrlf bs generalizing l ls with
  | case1 => cases h; exact List.prefix_rfl
  | case2 b => cases h; exact List.prefix_rfl
  | case3 => cases h; exact List.nil_prefix
  | case4 b c bs _ ih =>
    cases hs : splitCrlf (c :: bs) with
    | nil => exact absurd hs (splitCrlf_ne_nil _)
    | cons m ms =>
      rw [hs] at h
      cases h
      exact List.cons_prefix_cons.mpr ⟨rfl, ih hs⟩

theorem splitCrlf_pieces (bs : List UInt8) : ∀ l ∈ splitCrlf bs, ¬ HasCrlf l := by
  fun_induction splitCrlf bs with
  | case1 => simp [not_hasCrlf_nil]
  | case2 b => simp [hasCrlf_cons, not_hasCrlf_nil]
  | case3 b c bs _ ih => exact List.forall_mem_cons.mpr ⟨not_hasCrlf_nil, ih⟩
  | case4 b c bs hbc ih =>
    cases hs : splitCrlf (c :: bs) with
    | nil => exact absurd hs (splitCrlf_ne_nil _)
    | cons m ms =>
      rw [hs] at ih
      obtain ⟨hm, hms⟩ := List.forall_mem_cons.mp ih
      refine List.forall_mem_cons.mpr ⟨fun hc => ?_, hms⟩
      rcases hasCrlf_cons.mp hc with ⟨rfl, h10⟩ | hc
      · -- The byte after the CR would be the LF that the case excludes.
        obtain ⟨m', rfl⟩ : ∃ m', m = 10 :: m' := by
          cases m with
          | nil => cases h10
          | cons d m' => exact ⟨m', by simpa using h10⟩
        exact hbc ⟨rfl, (List.cons_prefix_cons.mp (splitCrlf_head hs)).1.symm⟩
      · exact hm hc

theorem intercalate_splitCrlf (bs : List UInt8) : crlf.intercalate (splitCrlf bs) = bs := by
  fun_induction splitCrlf bs with
  | case1 => rfl
  | case2 b => simp
  | case3 b c bs hbc ih =>
    obtain ⟨rfl, rfl⟩ := hbc
    cases hs : splitCrlf bs with
    | nil => exact absurd hs (splitCrlf_ne_nil _)
    | cons m ms =>
      rw [hs] at ih
      rw [List.intercalate_cons_cons, ih]
      rfl
  | case4 b c bs _ ih =>
    cases hs : splitCrlf (c :: bs) with
    | nil => exact absurd hs (splitCrlf_ne_nil _)
    | cons m ms =>
      rw [hs] at ih
      cases ms with
      | nil => simpa [pushByte] using ih
      | cons n ns =>
        rw [pushByte, List.intercalate_cons_cons, ← ih, List.intercalate_cons_cons]
        rfl

theorem intercalate_textOf (ls : List (List UInt8)) :
    crlf.intercalate (ls ++ [[], []]) = textOf ls := by
  induction ls with
  | nil => rfl
  | cons l ls ih =>
    cases ls with
    | nil => simp [textOf, List.intercalate_cons_cons]
    | cons m ms =>
      rw [List.cons_append, List.cons_append, List.intercalate_cons_cons, ← List.cons_append, ih]
      rfl

theorem splitCrlf_eq_iff :
    splitCrlf bs = ls ++ [[], []] ↔ (∀ l ∈ ls, ¬ HasCrlf l) ∧ bs = textOf ls := by
  constructor
  · intro h
    constructor
    · intro l hl
      exact splitCrlf_pieces bs l (h ▸ List.mem_append_left _ hl)
    · rw [← intercalate_textOf, ← h, intercalate_splitCrlf]
  · rintro ⟨h, rfl⟩
    exact splitCrlf_textOf h

theorem splitCrlf_first (l rest : List UInt8) (h : splitCrlf (l ++ crlf ++ rest) = m :: ms) :
    m <+: l := by
  induction l generalizing m ms with
  | nil => cases h; exact List.nil_prefix
  | cons b l ih =>
    by_cases hb : b = 13 ∧ (l ++ crlf ++ rest).head? = some 10
    · obtain ⟨rfl, h10⟩ := hb
      obtain ⟨x, hx⟩ := List.head?_eq_some_iff.mp h10
      rw [List.cons_append, List.cons_append, hx] at h
      cases h
      exact List.nil_prefix
    · rw [List.cons_append, List.cons_append, splitCrlf_push hb] at h
      cases hs : splitCrlf (l ++ crlf ++ rest) with
      | nil => exact absurd hs (splitCrlf_ne_nil _)
      | cons p ps =>
        rw [hs] at h
        cases h
        exact List.cons_prefix_cons.mpr ⟨rfl, ih hs⟩

theorem textOf_length_le (hl : List.Forall₂ (fun a b => a.length ≤ b.length) ls ms) :
    (textOf ls).length ≤ (textOf ms).length := by
  induction hl with
  | nil => exact le_rfl
  | cons h _ ih =>
    simp only [textOf, List.length_append]
    omega

theorem textOf_inj (hl : List.Forall₂ (fun a b => a.length ≤ b.length) ls ms)
    (h : textOf ls = textOf ms) : ls = ms := by
  induction hl with
  | nil => rfl
  | cons ha hl ih =>
    have hlen := congrArg List.length h
    have hle := textOf_length_le hl
    simp only [textOf, List.length_append] at hlen
    simp only [textOf, List.append_assoc] at h
    obtain ⟨rfl, hrest⟩ := List.append_inj h (by omega)
    rw [ih (List.append_cancel_left hrest)]

end QuicArt
