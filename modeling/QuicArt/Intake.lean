import QuicArt.FinOffset

namespace QuicArt

variable {r B : Nat} {mem : Memory} {df : DataFrame}

namespace HashDataIn

section
variable {h h' : HashDataIn}

def Within (h : HashDataIn) (B : Nat) : Prop := ∀ x, h.byteAt x ≠ none → x < B

theorem exists_content (hh : h.WellFormed) (hw : h.Within B) (r : Nat) :
    ∃ S : List UInt8, S.length = B ∧ h.Holds S (fun _ => False) r := by
  refine ⟨(List.range B).map fun x => (h.byteAt x).getD 0, by simp, hh, fun x c hx => ?_,
    fun x _ hc => hc.elim⟩
  have hlt := hw x (by simp [hx])
  simp [hlt, hx]

theorem Holds.within {S : List UInt8} {C : Nat → Prop} (hh : h.Holds S C r) :
    h.Within S.length := by
  intro x hx
  obtain ⟨c, hc⟩ := Option.ne_none_iff_exists'.1 hx
  exact (List.getElem?_eq_some_iff.1 (hh.agrees x c hc)).1

theorem Within.stored (hw : h.Within B) (hr : r ≤ df.endOff) (hle : m ≤ freshSize df r)
    (hs : Stored h h' df r m) : h'.Within (max B df.endOff) := by
  have hadd := start_add_fresh hr
  rw [start_eq] at hadd
  intro x hx
  rw [hs.byteAt] at hx
  split at hx
  next hin => omega
  · have hlt := hw x hx
    omega

theorem WellFormed.insertDataFrame (mem : Memory) (hh : h.WellFormed) (hw : h.Within B)
    (df : DataFrame) (r : Nat) :
    (h.insertDataFrame mem df r).1.WellFormed ∧
    (h.insertDataFrame mem df r).1.Within (max B df.endOff) ∧
    (h.insertDataFrame mem df r).1.switchImpl = h.switchImpl ∧
    ((h.insertDataFrame mem df r).2 = .dup → (h.insertDataFrame mem df r).1 = h) := by
  have hmax : h.Within (max B df.endOff) := fun x hx => Nat.lt_of_lt_of_le (hw x hx)
    (Nat.le_max_left _ _)
  by_cases hr : df.endOff < r
  · rw [insertDataFrame_stale mem h df hr]
    exact ⟨hh, hmax, rfl, fun _ => rfl⟩
  · have hr' : r ≤ df.endOff := by omega
    have hins := insertDataFrame_spec mem hh df hr'
    generalize h.insertDataFrame mem df r = res at hins
    obtain ⟨h', ins⟩ := res
    cases hins with
    | refused hb => exact ⟨hh, hmax, rfl, fun _ => rfl⟩
    | failed hm hle hs hk =>
      exact ⟨hs.wellFormed, hw.stored hr' hle hs, switchImpl_of_frame hs.frame,
        nofun⟩
    | late hb hfin hda hs hk =>
      exact ⟨hs.wellFormed, hw.stored hr' le_rfl hs, switchImpl_of_frame hs.frame,
        nofun⟩
    | stored hb hfin hs hk =>
      exact ⟨hs.wellFormed, hw.stored hr' le_rfl hs, switchImpl_of_frame hs.frame,
        nofun⟩
    | storedFin hb hfin hda hs hk =>
      have hwf := hs.wellFormed
      have hin := hw.stored hr' le_rfl hs
      have hsw := switchImpl_of_frame hs.frame
      exact ⟨{ hwf with }, hin, hsw, nofun⟩

end

end HashDataIn

namespace NocopyDataIn

def contentAt : List StreamFrame → Nat → UInt8
  | [], _ => 0
  | f :: fs, x => if x < f.df.endOff then f.df.data (x - f.df.offset) else contentAt fs x

section
variable {n : NocopyDataIn} {f : StreamFrame}

theorem contentAt_eq {fs : List StreamFrame} (hs : fs.Pairwise Before) (hf : f ∈ fs)
    (hx : f.df.Has x) : contentAt fs x = f.df.data (x - f.df.offset) := by
  induction fs with
  | nil => cases hf
  | cons g fs ih =>
    rw [List.pairwise_cons] at hs
    rw [contentAt]
    rcases List.mem_cons.1 hf with rfl | hf
    · rw [if_pos hx.2]
    · have hb : g.df.endOff ≤ f.df.offset := hs.1 f hf
      have hle := hx.1
      rw [if_neg (by omega), ih hs.2 hf]

def Within (n : NocopyDataIn) (B : Nat) : Prop := ∀ f ∈ n.frames, f.df.endOff ≤ B

theorem exists_content (hn : n.Ordered r) (hw : n.Within B) :
    ∃ S : List UInt8, S.length = B ∧ n.Holds S (fun _ => False) r := by
  have hlen : ((List.range B).map (contentAt n.frames)).length = B := by simp
  refine ⟨(List.range B).map (contentAt n.frames), hlen, hn, fun f hf => ⟨?_, fun i hi => ?_⟩,
    fun x _ hc => hc.elim⟩
  · rw [hlen]
    exact hw f hf
  · have hle := hw f hf
    rw [DataFrame.endOff] at hle
    have hx : f.df.Has (f.df.offset + i) := by
      constructor
      · omega
      · rw [DataFrame.endOff]
        omega
    have hc := contentAt_eq hn.sorted hf hx
    rw [Nat.add_sub_cancel_left] at hc
    rw [List.getElem?_map, List.getElem?_range (by omega), Option.map_some, hc]

theorem Ordered.insertFrame (hn : n.Ordered r) (hw : n.Within B) (h0 : f.df.readOff = 0) :
    (n.insertFrame f r).1.Ordered r ∧ (n.insertFrame f r).1.Within (max B f.df.endOff) := by
  have hI := insertFrame_inserted hn f
  generalize (n.insertFrame f r).1 = n', (n.insertFrame f r).2 = ins at hI
  refine ⟨?_, fun g hg => ?_⟩
  · cases hI with
    | same he => exact he ▸ hn
    | ok hs hpre hpost hr he => exact hn.place hs hpre hpost hr h0 he
  · rcases hI.mem hg with hg | rfl
    · exact Nat.le_trans (hw g hg) (Nat.le_max_left _ _)
    · exact Nat.le_max_right _ _

end

end NocopyDataIn

namespace DataIn

/-- A data-in that a reader at `r` can go on with, with all bytes before `B`. -/
def Kept (auto : Bool) (B r : Nat) (di : DataIn) : Prop :=
  ∃ S : List UInt8, S.length = B ∧ di.Keeps auto S (fun _ => False) r

section
variable {auto : Bool} {di : DataIn} {f : StreamFrame}

theorem Kept.nocopy {n : NocopyDataIn} (hn : n.Ordered r) (hw : n.Within B) :
    (DataIn.nocopy n).Kept auto B r :=
  NocopyDataIn.exists_content hn hw

theorem Kept.hash {h : HashDataIn} (hh : h.WellFormed) (hw : h.Within B)
    (hq : auto = true → h.switchImpl = true → ∀ k, ¬ h.HasBlock k) :
    (DataIn.hash h).Kept auto B r := by
  obtain ⟨S, hS, hh'⟩ := HashDataIn.exists_content hh hw r
  exact ⟨S, hS, hh', hq⟩

theorem Kept.ordered {n : NocopyDataIn} (h : (DataIn.nocopy n).Kept auto B r) :
    n.Ordered r ∧ n.Within B := by
  obtain ⟨S, rfl, hk⟩ := h
  exact ⟨NocopyDataIn.Holds.ordered hk, fun f hf => (NocopyDataIn.Holds.carries hk f hf).endOff_le⟩

theorem Kept.wellFormed {h : HashDataIn} (hk : (DataIn.hash h).Kept auto B r) :
    h.WellFormed ∧ h.Within B := by
  obtain ⟨S, rfl, hh, -⟩ := hk
  exact ⟨hh.wellFormed, hh.within⟩

theorem Kept.error : DataIn.error.Kept auto B r := ⟨List.replicate B 0, by simp, trivial⟩

theorem Kept.mono (h : di.Kept auto B r) (hle : B ≤ B') : di.Kept auto B' r := by
  cases di with
  | nocopy n =>
    obtain ⟨ho, hw⟩ := h.ordered
    exact Kept.nocopy ho fun f hf => Nat.le_trans (hw f hf) hle
  | hash h₁ =>
    obtain ⟨hh, hw⟩ := h.wellFormed
    obtain ⟨S, -, -, hq⟩ := h
    exact Kept.hash hh (fun x hx => Nat.lt_of_lt_of_le (hw x hx) hle) hq
  | error => exact Kept.error

theorem Kept.insertHash {h : HashDataIn} (hk : (DataIn.hash h).Kept auto B r)
    (hq : auto = true → h.switchImpl = false) (mem : Memory) (f : StreamFrame) :
    (DataIn.hash (h.insertDataFrame mem f.df r).1).Kept auto (max B f.df.endOff) r ∧
    (auto = true → (h.insertDataFrame mem f.df r).1.switchImpl = false) ∧
    ((h.insertDataFrame mem f.df r).2 = .dup →
      (DataIn.hash (h.insertDataFrame mem f.df r).1).Kept auto B r) := by
  obtain ⟨hh, hw⟩ := hk.wellFormed
  obtain ⟨hh', hw', hsw, hdup⟩ := hh.insertDataFrame mem hw f.df r
  have hq' : auto = true → (h.insertDataFrame mem f.df r).1.switchImpl = false := fun ha =>
    hsw.trans (hq ha)
  refine ⟨Kept.hash hh' hw' fun ha ht => absurd ht (by simp [hq' ha]), hq', fun hd => ?_⟩
  rw [hdup hd]
  exact hk

theorem Kept.insertOrSwitch (h : di.Kept auto B r) (hq : auto = true → di.wantsSwitch = false)
    (h0 : f.df.readOff = 0) (mem : Memory) :
    (di.insertOrSwitch mem f r).1.Kept auto (max B f.df.endOff) r ∧
    ((di.insertOrSwitch mem f r).2.1 ≠ .ok → auto = true →
      (di.insertOrSwitch mem f r).1.wantsSwitch = false) ∧
    ((di.insertOrSwitch mem f r).2.1 = .dup → (di.insertOrSwitch mem f r).1.Kept auto B r) := by
  have hI := insertOrSwitch_inserts mem di f r
  generalize (di.insertOrSwitch mem f r).1 = di', (di.insertOrSwitch mem f r).2.1 = ins at hI
  cases hI with
  | error => exact ⟨Kept.error, fun _ _ => rfl, fun _ => Kept.error⟩
  | nocopy =>
    obtain ⟨ho, hw⟩ := h.ordered
    obtain ⟨ho', hw'⟩ := ho.insertFrame hw h0
    refine ⟨Kept.nocopy ho' hw', fun hne ha => ?_, fun hd => ?_⟩
    · rw [NocopyDataIn.insertFrame_same _ f r hne]
      exact hq ha
    · rw [NocopyDataIn.insertFrame_same _ f r (by simp [hd])]
      exact h
  | hash =>
    obtain ⟨hk, hw, hdup⟩ := h.insertHash hq mem f
    exact ⟨hk, fun _ => hw, hdup⟩
  | toHash hs =>
    obtain ⟨S, rfl, hkeep⟩ := h
    obtain ⟨hh, hsw⟩ := NocopyDataIn.Holds.switch hkeep hs
    have hk : (DataIn.hash _).Kept auto S.length r :=
      ⟨S, rfl, hh, fun _ ht => absurd ht (by simp [hsw])⟩
    obtain ⟨hk', hw', hdup⟩ := hk.insertHash (fun _ => hsw) mem f
    exact ⟨hk', fun _ => hw', hdup⟩
  | noHash => exact ⟨Kept.error, fun _ _ => rfl, nofun⟩

theorem Kept.maybeSwitch (h : di.Kept auto B r) (mem : Memory) :
    (di.maybeSwitch mem auto r).1.Kept auto B r ∧
    (auto = true → (di.maybeSwitch mem auto r).1.wantsSwitch = false) := by
  obtain ⟨S, hS, hk⟩ := h
  obtain ⟨hk', hw⟩ := hk.maybeSwitch mem
  exact ⟨⟨S, hS, hk'⟩, hw⟩

theorem Kept.read (h : di.Kept auto B r) (hr : r ≤ B) (hs : di.readFrame r len = some rd) :
    r + rd.bytes.length ≤ B ∧ rd.di.Kept auto B (r + rd.bytes.length) := by
  obtain ⟨S, rfl, hk⟩ := h
  cases di with
  | error => cases hs
  | nocopy n =>
    obtain ⟨n', hby⟩ := NocopyDataIn.Holds.readFrame_some hk len hs
    rw [hby.di]
    exact ⟨(hby.bytes.take hr).2, S, rfl, hby.holds⟩
  | hash h₁ =>
    obtain ⟨h', hby⟩ := HashDataIn.Holds.readFrame_some hk.1 hs
    obtain ⟨k?, df, pos, h'', hdi, hd⟩ := HashDataIn.readFrame_done hk.1.wellFormed hs
    rw [hby.di] at hdi ⊢
    obtain rfl := hash.inj hdi
    refine ⟨(hby.bytes.take hr).2, S, rfl, hby.holds, fun ha hw => ?_⟩
    rcases hby.wants hw with hw' | ⟨-, hno⟩
    · exact fun k hk' => hk.2 ha hw' k (hd.blocks k hk')
    · exact hno

theorem Kept.quiet_read (h : di.Kept auto B r) (hq : auto = true → di.wantsSwitch = false)
    (hs : di.readFrame r len = some rd) :
    rd.done = false → auto = true → rd.di.wantsSwitch = false := by
  obtain ⟨S, -, hk⟩ := h
  exact (hk.read hq hs).2.2

end

end DataIn

end QuicArt
