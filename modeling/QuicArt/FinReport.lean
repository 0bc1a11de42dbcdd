import QuicArt.FinScan

namespace QuicArt

variable {S : List UInt8} {r : Nat} {mem : Memory} {df : DataFrame}

/-- A frame that ends where the stream ends says so. -/
def DataFrame.Ends (S : List UInt8) (df : DataFrame) : Prop :=
  df.endOff = S.length → df.fin = true

namespace HashDataIn

def FinKnown (h : HashDataIn) (S : List UInt8) : Prop :=
  ∀ x, h.byteAt x ≠ none → x + 1 = S.length → h.fin = true

section
variable {h h' : HashDataIn}

theorem FinKnown.insert (hh : h.FinKnown S) (hwf : h.WellFormed) (hd : df.Carries S)
    (he : df.Ends S) (hne : (h.insertDataFrame mem df r).2 ≠ .err) :
    (h.insertDataFrame mem df r).1.FinKnown S := by
  by_cases hr : df.endOff < r
  · rw [insertDataFrame_stale mem h df hr]
    exact hh
  · have hr' : r ≤ df.endOff := by omega
    have hadd := start_add_fresh hr'
    rw [start_eq] at hadd
    have hins := insertDataFrame_spec mem hwf df hr'
    generalize h.insertDataFrame mem df r = res at hins hne
    obtain ⟨h', ins⟩ := res
    cases hins with
    | refused hb => exact absurd rfl hne
    | failed hm hle hs hk => exact absurd rfl hne
    | late hb hfin hda hs hk => exact absurd rfl hne
    | storedFin hb hfin hda hs hk => exact fun _ _ _ => rfl
    | stored hb hfin hs hk =>
      intro x hx hlast
      rw [(fin_of_frame hs.frame).1]
      have hlt : df.endOff ≠ S.length := by
        intro hend
        rw [he hend] at hfin
        cases hfin
      have hle := hd.endOff_le
      rw [hs.byteAt] at hx
      split at hx
      next hin => omega
      · exact hh x hx hlast

theorem FinKnown.feed {fs : List StreamFrame} (hh : h.FinKnown S) (hfo : h.FinOk S)
    (hd : ∀ f ∈ fs, f.df.Carries S) (hfa : ∀ f ∈ fs, f.df.FinAt S) (he : ∀ f ∈ fs, f.df.Ends S)
    (hf : (h.feed mem r fs).1 = some h') : h'.FinKnown S := by
  refine And.left (feed_invariant (P := fun h => h.FinKnown S ∧ h.FinOk S) ⟨hh, hfo⟩ ?_ hf)
  intro f hm h ⟨hh, hfo⟩ hne
  exact ⟨hh.insert hfo.wellFormed (hd f hm) (he f hm) hne, hfo.insert mem (hd f hm) (hfa f hm)⟩

theorem FinKnown.done (hh : h.FinKnown S) (hd : Done h h' pos) : h'.FinKnown S := by
  intro x hx hlast
  rw [hd.fin]
  rcases hd.less x with he | he
  · exact hh x (he ▸ hx) hlast
  · exact absurd he hx

/-- Where the reader gets right what the frame at its offset says of the end. -/
def TellsEnd (h : HashDataIn) (S : List UInt8) (r : Nat) : Prop :=
  ∀ k, h.Available r k → r = 0 ∨
    (r + k ≠ S.length ∧ ¬ (h.fin = true ∧ r % dbDataSize + (r % dbDataSize + k) = S.length))

theorem Available.unique (hk : h.Available r k) (hk' : h.Available r k') : k = k' := by
  rcases Nat.lt_trichotomy k k' with hlt | heq | hlt
  · rcases hk.stop with hs | hs
    · have hin := hk'.inside
      omega
    · exact absurd hs (hk'.there k hlt)
  · exact heq
  · rcases hk'.stop with hs | hs
    · have hin := hk.inside
      omega
    · exact absurd hs (hk.there k' hlt)

theorem mod_eq_keyOf_iff (r : Nat) : r % dbDataSize = keyOf r ↔ r = 0 := by
  constructor
  · intro he
    have hm := keyOf_mod r
    rw [← he, Nat.mod_mod] at hm
    have hr := keyOf_add_mod r
    omega
  · rintro rfl
    rw [keyOf, Nat.zero_mod]

theorem getFrame_fin_iff (hfo : h.FinOk S) (hfk : h.FinKnown S)
    (hg : h.getFrame r = (h', some df)) :
    (df.fin = true ↔ r + (df.size - df.readOff) = S.length) ↔ h.TellsEnd S r := by
  by_cases hb : h.byteAt r = none
  · -- without a byte only the end of the stream is reported
    have htells : h.TellsEnd S r := fun k hk => absurd hb (by simpa using hk.there 0 hk.pos)
    by_cases hfin : h.fin = true ∧ r = h.finOff
    · obtain ⟨k?, df', hget, hf, hsize, -⟩ := getFrame_fin hb hfin.1 hfin.2
      rw [hget] at hg
      obtain rfl : df' = df := Option.some.inj (congrArg Prod.snd hg)
      have hend := hfo.fin hfin.1
      refine iff_of_true (iff_of_true hf ?_) htells
      omega
    · rw [getFrame_none hb hfin] at hg
      cases congrArg Prod.snd hg
  · obtain ⟨k, df', hav, hgv, hget⟩ := getFrame_some hfo.wellFormed hb
    rw [hget] at hg
    obtain rfl : df' = df := Option.some.inj (congrArg Prod.snd hg)
    have hsize : r + (df'.size - df'.readOff) = r + k := by
      rw [hgv.size, hgv.readOff]
      omega
    have htells : h.TellsEnd S r ↔ r = 0 ∨ (r + k ≠ S.length ∧
        ¬ (h.fin = true ∧ r % dbDataSize + (r % dbDataSize + k) = S.length)) :=
      ⟨fun ht => ht k hav, fun ht k' hk' => hav.unique hk' ▸ ht⟩
    have hf : df'.fin = true ↔
        h.fin = true ∧ r % dbDataSize + (r % dbDataSize + k) = S.length := by
      rw [hgv.fin, hgv.size, Bool.and_eq_true, beq_iff_eq]
      apply and_congr_right
      intro hfin
      rw [hfo.fin hfin]
    rw [hsize, htells, hf]
    have hpos := hav.pos
    have hr := keyOf_add_mod r
    have hz := mod_eq_keyOf_iff r
    -- the last byte of the run is the last one of the stream
    have hlast : r + k = S.length → h.fin = true := by
      intro he
      refine hfk (r + (k - 1)) (hav.there _ (by omega)) (by omega)
    by_cases h0 : r = 0
    · subst h0
      rw [Nat.zero_add] at hlast
      simp only [Nat.zero_mod, Nat.zero_add, true_or, iff_true]
      exact ⟨fun hc => hc.2, fun hc => ⟨hlast hc, hc⟩⟩
    · by_cases he : r + k = S.length
      · have hno : ¬ (r % dbDataSize + (r % dbDataSize + k) = S.length) := by
          intro hc
          exact h0 (hz.1 (by omega))
        simp [h0, he, hno]
      · simp [h0, he]

end

end HashDataIn

namespace NocopyDataIn

def FinKnown (n : NocopyDataIn) (S : List UInt8) : Prop := ∀ f ∈ n.frames, f.df.Ends S

section
variable {n : NocopyDataIn} {f : StreamFrame} {C : Nat → Prop}

theorem FinKnown.insert (hn : n.FinKnown S) (ho : n.Ordered r) (hf : f.df.Ends S) :
    (n.insertFrame f r).1.FinKnown S := by
  intro g hg
  rcases (insertFrame_inserted ho f).mem hg with hg | rfl
  · exact hn g hg
  · exact hf

theorem FinKnown.switch {h : HashDataIn} (hn : n.FinKnown S) (hfo : n.FinOk S)
    (hh : n.Holds S C r) (hs : (n.switchToHash mem r).1 = some h) : h.FinKnown S := by
  rw [switchToHash] at hs
  cases hnew : HashDataIn.new mem n.byteage with
  | none =>
    rw [hnew] at hs
    cases hs
  | some h₀ =>
    rw [hnew] at hs
    obtain ⟨hwf, hempty, hnb, hfin⟩ := HashDataIn.new_wellFormed hnew
    have ho : h₀.FinOk S := ⟨hwf, fun hf => absurd hf (by simp [hfin]),
      fun x hx => absurd (hempty x) hx, fun k hk => absurd hk (hnb k)⟩
    have hk : h₀.FinKnown S := fun x hx => absurd (hempty x) hx
    exact hk.feed ho hh.carries hfo.frames hn hs

end

end NocopyDataIn

namespace DataIn

def FinKnown (S : List UInt8) : DataIn → Prop
  | nocopy n => n.FinKnown S
  | hash h => h.FinKnown S
  | error => True

section
variable {auto : Bool} {di : DataIn} {f : StreamFrame} {C : Nat → Prop}

theorem FinKnown.insertOrSwitch (h : di.FinKnown S) (hfo : di.FinOk S) (hk : di.Keeps auto S C r)
    (hr : r ≤ S.length) (hd : f.df.Part S) (he : f.df.Ends S)
    (hne : (di.insertOrSwitch mem f r).2.1 ≠ .err) : (di.insertOrSwitch mem f r).1.FinKnown S := by
  have hI := insertOrSwitch_inserts mem di f r
  generalize (di.insertOrSwitch mem f r).1 = di', (di.insertOrSwitch mem f r).2.1 = ins at hI hne
  cases hI with
  | error => trivial
  | nocopy => exact NocopyDataIn.FinKnown.insert h (NocopyDataIn.Holds.ordered hk) he
  | hash =>
    exact HashDataIn.FinKnown.insert h (HashDataIn.FinOk.wellFormed hfo) hd.toCarries he hne
  | toHash hs =>
    have hh := (NocopyDataIn.switchToHash_spec hfo hk hr mem).1 _ hs
    exact (NocopyDataIn.FinKnown.switch h hfo hk hs).insert hh.wellFormed hd.toCarries he hne
  | noHash => trivial

theorem FinKnown.maybeSwitch (h : di.FinKnown S) (hfo : di.FinOk S) (hk : di.Keeps auto S C r)
    (mem : Memory) : (di.maybeSwitch mem auto r).1.FinKnown S := by
  have hS := maybeSwitch_switches mem auto di r
  generalize (di.maybeSwitch mem auto r).1 = di' at hS
  cases hS with
  | keep => exact h
  | toHash hs => exact NocopyDataIn.FinKnown.switch h hfo hk hs
  | noHash => trivial
  | toNocopy => exact fun f hf => absurd hf (by simp)
  | noNocopy => trivial

theorem FinKnown.read (h : di.FinKnown S) (hfo : di.FinOk S) (hs : di.readFrame r len = some rd) :
    rd.di.FinKnown S := by
  cases di with
  | error => cases hs
  | hash h₁ =>
    obtain ⟨k?, df, pos, h', hdi, hd⟩ :=
      HashDataIn.readFrame_done (HashDataIn.FinOk.wellFormed hfo) hs
    have hnote : ({ h₁ with lastBlock := k?, dataFrame := df } : HashDataIn).FinKnown S := h
    rw [hdi]
    exact hnote.done hd
  | nocopy n =>
    obtain ⟨n', hdi, -, -, hfr⟩ := NocopyDataIn.readFrame_frames hs
    rw [hdi]
    intro g hg
    obtain ⟨f, hf, k, he⟩ := hfr g hg
    rw [he]
    exact h f hf

end

end DataIn

namespace Session

def Takes (mem : Memory) (s : Session) (f : StreamFrame) : Prop :=
  (s.di.insertOrSwitch mem f s.readOffset).2.1 = .ok ∨
  (s.di.insertOrSwitch mem f s.readOffset).2.1 = .dup

section
variable {auto : Bool} {s : Session} {f : StreamFrame} {M : Memory → Prop}

/-- The frames of a stream, every one that ends where the stream ends with FIN. -/
def Delivers (S : List UInt8) (mem : Memory) (s : Session) (f : StreamFrame) : Prop :=
  f.df.Part S ∧ f.df.Ends S ∧ s.Takes mem f

theorem finKnown_insert (h : s.Sound auto S) (hk : s.di.FinKnown S)
    (hf : Delivers S mem s f) : (s.insert auto mem f).di.FinKnown S := by
  obtain ⟨hp, he, ht⟩ := hf
  obtain ⟨hfin, -⟩ := h.fin.insertOrSwitch h.keeps h.le hp mem
  obtain ⟨hkeep, -⟩ := h.keeps.insertOrSwitch h.quiet hp.toSlice mem
  have hne : (s.di.insertOrSwitch mem f s.readOffset).2.1 ≠ .err := by
    rcases ht with ht | ht <;> simp [ht]
  have hkn := hk.insertOrSwitch h.fin h.keeps h.le hp he hne
  rw [Session.insert]
  generalize s.di.insertOrSwitch mem f s.readOffset = res at hfin hkeep hkn
  obtain ⟨di, ins, ev⟩ := res
  cases ins with
  | ok => exact hkn.maybeSwitch hfin hkeep mem
  | dup => exact hkn
  | err => exact hkn
  | overlap => exact hkn

theorem finKnown_read (h : s.Sound auto S) (hk : s.di.FinKnown S) (mem : Memory) (len : Nat) :
    (s.read auto mem len).di.FinKnown S := by
  rw [Session.read]
  cases hs : s.di.readFrame s.readOffset len with
  | none => exact hk
  | some rd =>
    have hkn := hk.read h.fin hs
    obtain ⟨hfin, -⟩ := h.fin.read hs
    obtain ⟨-, hkeep, -⟩ := h.keeps.read h.quiet hs
    simp only
    split
    · exact hkn.maybeSwitch hfin hkeep mem
    · exact hkn

theorem finKnown_of_run (h : SessionRun auto M (Delivers S) s) : s.di.FinKnown S := by
  have hP : ∀ mem s f, Delivers S mem s f → f.df.Part S := fun _ _ _ hd => hd.1
  induction h with
  | nocopy => exact fun f hf => absurd hf (by simp)
  | hash hn =>
    obtain ⟨-, hempty, -⟩ := HashDataIn.new_wellFormed hn
    exact fun x hx => absurd (hempty x) hx
  | insert hs hm hf ih => exact finKnown_insert (Sound.run hs hP) ih hf
  | read hs hm len ih => exact finKnown_read (Sound.run hs hP) ih _ len

/-- The hash gets FIN right at offset 0, and where neither the right end nor that of the offset in
the block is met; the nocopy data-in always does. -/
theorem fin_reported_iff (hr : SessionRun auto M (Delivers S) s) :
    (∀ h h' df, s.di = .hash h → h.getFrame s.readOffset = (h', some df) →
      ((df.fin = true ↔ s.readOffset + (df.size - df.readOff) = S.length) ↔
        h.TellsEnd S s.readOffset)) ∧
    (∀ n df, s.di = .nocopy n → n.getFrame s.readOffset = some df →
      (df.fin = true ↔ s.readOffset + (df.size - df.readOff) = S.length)) := by
  have hs := Sound.run hr fun _ _ _ hd => hd.1
  have hfin := hs.fin
  have hkn := finKnown_of_run hr
  have hkeep := hs.keeps
  refine ⟨fun h h' df hdi hg => ?_, fun n df hdi hg => ?_⟩
  · rw [hdi] at hfin hkn
    exact HashDataIn.getFrame_fin_iff hfin hkn hg
  · rw [hdi] at hfin hkn hkeep
    have hord := NocopyDataIn.Holds.ordered hkeep
    rw [NocopyDataIn.getFrame] at hg
    split at hg
    · cases hg
    next f fs hf =>
      split at hg
      next hat =>
        cases hg
        have hmem : f ∈ n.frames := by
          rw [hf]
          exact .head _
        have hle := hord.readOff_le f hmem
        have hend : s.readOffset + (f.df.size - f.df.readOff) = f.df.endOff := by
          rw [DataFrame.endOff]
          omega
        rw [hend]
        exact ⟨hfin.frames f hmem, hkn f hmem⟩
      · cases hg

def twoBytes : Session :=
  ({ di := .hash emptyHash } : Session).insert true {} (frameOf [1, 2] 0 0 2)

theorem twoBytes_run : SessionRun true (fun mem => mem.Ample) (Delivers [1, 2]) twoBytes := by
  refine .insert (.hash new_emptyHash) ample_default ⟨frameOf_part 0 (by decide)
    (by decide), ?_, ?_⟩
  · exact fun _ => rfl
  · unfold Takes
    decide +kernel

theorem fin_reported_iff_twoBytes : ∃ h h' df, twoBytes.di = .hash h ∧
    h.getFrame 0 = (h', some df) ∧ (df.fin = true ↔ 0 + (df.size - df.readOff) = 2) := by
  obtain ⟨hdi, -⟩ := insert_hash_ok true {} (s := { di := .hash emptyHash }) rfl
    (frameOf [1, 2] 0 0 2) (by decide +kernel) (by decide +kernel)
  refine ⟨_, _, _, hdi, rfl, ?_⟩
  exact ((fin_reported_iff twoBytes_run).1 _ _ _ hdi rfl).2 fun k hk => .inl rfl

def twoOfThree : Session :=
  ((({ di := .hash emptyHash } : Session).insert true {} (frameOf [1, 2, 3] 0 0 2)).insert true {}
    (frameOf [1, 2, 3] 1 3 3)).read true {} 1

theorem twoOfThree_run :
    SessionRun true (fun mem => mem.Ample) (Delivers [1, 2, 3]) twoOfThree := by
  refine .read (.insert (.insert (.hash new_emptyHash) ample_default
    ⟨frameOf_part 0 (by decide) (by decide), ?_, ?_⟩) ample_default
    ⟨frameOf_part 1 (by decide) (by decide), ?_, ?_⟩) ample_default 1
  · exact nofun
  · unfold Takes
    decide +kernel
  · exact fun _ => rfl
  · unfold Takes
    decide +kernel

/-- The reader is told the end of the stream at the second of three bytes. -/
theorem fin_reported_early : ∃ (s : Session) (h h' : HashDataIn) (df : DataFrame),
    SessionRun true (fun mem => mem.Ample) (Delivers [1, 2, 3]) s ∧ s.di = .hash h ∧
    h.getFrame s.readOffset = (h', some df) ∧ df.fin = true ∧
    s.readOffset + (df.size - df.readOff) = 2 :=
  ⟨twoOfThree, _, _, _, twoOfThree_run, rfl, rfl, by decide +kernel, by decide +kernel⟩

end

end Session

end QuicArt
