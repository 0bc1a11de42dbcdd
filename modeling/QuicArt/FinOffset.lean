import QuicArt.Reassembly

namespace QuicArt

variable {S : List UInt8} {r : Nat} {mem : Memory} {df : DataFrame}

/-- Only a frame that ends where the stream ends has FIN. -/
def DataFrame.FinAt (S : List UInt8) (df : DataFrame) : Prop :=
  df.fin = true → df.endOff = S.length

namespace HashDataIn

structure FinOk (h : HashDataIn) (S : List UInt8) : Prop where
  wellFormed : h.WellFormed
  fin : h.fin = true → h.finOff = S.length
  bytes : ∀ x, h.byteAt x ≠ none → x < S.length
  blocks : ∀ k, h.HasBlock k → k ≤ S.length

section
variable {h h' : HashDataIn}

theorem fin_of_frame (hf : h'.frame = h.frame) : h'.fin = h.fin ∧ h'.finOff = h.finOff := by
  simp only [frame, Prod.mk.injEq] at hf
  exact ⟨hf.1, hf.2.1⟩

theorem FinOk.stored (hh : h.FinOk S) (hd : df.Carries S) (hr : r ≤ df.endOff)
    (hle : m ≤ freshSize df r) (hs : Stored h h' df r m)
    (hk : ∀ k, h'.HasBlock k → h.HasBlock k ∨
      Between (keyOf (max df.offset r)) (endBlock df r) k) : h'.FinOk S := by
  obtain ⟨hfin, hoff⟩ := fin_of_frame hs.frame
  have hadd := start_add_fresh hr
  rw [start_eq] at hadd
  have hend := hd.endOff_le
  refine ⟨hs.wellFormed, fun ht => ?_, fun x hx => ?_, fun k hk' => ?_⟩
  · rw [hoff]
    exact hh.fin (hfin ▸ ht)
  · rw [hs.byteAt] at hx
    split at hx
    next hin => omega
    · exact hh.bytes x hx
  · rcases hk k hk' with hk' | ⟨-, -, hle⟩
    · exact hh.blocks k hk'
    · have hb := endBlock_le hr
      omega

theorem FinOk.not_badFin (hh : h.FinOk S) (hd : df.Carries S) (hf : df.FinAt S) :
    h.badFin df = false := by
  have hend := hd.endOff_le
  rw [badFin]
  cases hfin : h.fin with
  | false => rfl
  | true =>
    have hoff := hh.fin hfin
    simp only [Bool.true_and, Bool.or_eq_false_iff, decide_eq_false_iff_not]
    refine ⟨?_, by omega⟩
    cases hdf : df.fin with
    | false => rfl
    | true => simp [hf hdf, hoff]

theorem FinOk.insert (mem : Memory) (hh : h.FinOk S) (hd : df.Carries S) (hf : df.FinAt S) :
    (h.insertDataFrame mem df r).1.FinOk S := by
  by_cases hr : df.endOff < r
  · rw [insertDataFrame_stale mem h df hr]
    exact hh
  · have hr' : r ≤ df.endOff := by omega
    have hins := insertDataFrame_spec mem hh.wellFormed df hr'
    generalize h.insertDataFrame mem df r = res at hins
    obtain ⟨h', ins⟩ := res
    cases hins with
    | refused hb => exact hh
    | failed hm hle hs hk => exact hh.stored hd hr' hle hs hk
    | late hb hfin hda hs hk => exact hh.stored hd hr' le_rfl hs fun k => (hk k).1
    | stored hb hfin hs hk => exact hh.stored hd hr' le_rfl hs fun k => (hk k).1
    | storedFin hb hfin hda hs hk =>
      obtain ⟨⟨ht, hc, hbl, ha⟩, -, hby, hbk⟩ :=
        hh.stored hd hr' le_rfl hs fun k => (hk k).1
      exact ⟨⟨ht, hc, hbl, ha⟩, fun _ => hf hfin, hby, hbk⟩

def Refuses (h : HashDataIn) (S : List UInt8) (df : DataFrame) (r : Nat) : Prop :=
  df.fin = true ∧ max df.offset r < S.length ∧ S.length % dbDataSize = 0 ∧ h.HasBlock S.length

theorem FinOk.seesAfter_iff (hh : h.FinOk S) (hr : r ≤ df.endOff) (he : df.endOff = S.length) :
    h.SeesAfter (endBlock df r) df.endOff ↔
      max df.offset r < S.length ∧ S.length % dbDataSize = 0 ∧ h.HasBlock S.length := by
  have hadd := start_add_fresh hr
  have hstart := start_eq df r
  have hp := dbDataSize_pos
  rw [SeesAfter]
  constructor
  · rintro (⟨x, hx, -, hne⟩ | hk)
    · have hlt := hh.bytes x hne
      omega
    · have hle := hh.blocks _ hk
      have hge := le_endBlock hr
      have hS : endBlock df r + dbDataSize = S.length := by omega
      rw [hS] at hk
      have hm := key_add (lastKey_mod (df.offset + overlap df r) (freshSize df r))
      rw [← endBlock, hS] at hm
      refine ⟨?_, hm, hk⟩
      by_contra hn
      -- nothing is written, so that the last block is the one at the end
      have h0 : freshSize df r = 0 := by omega
      have hkey : endBlock df r = keyOf (df.offset + overlap df r) := by
        rw [endBlock, lastKey, if_pos h0]
      have hlt := lt_keyOf (df.offset + overlap df r)
      omega
  · rintro ⟨hlt, hm, hk⟩
    refine .inr ?_
    have hkey : endBlock df r = keyOf (S.length - 1) := by
      rw [endBlock, lastKey, if_neg (by omega), hadd, he]
    have hS : keyOf (S.length - 1) + dbDataSize = S.length := by
      have hle := keyOf_le (S.length - 1)
      have hlt' := lt_keyOf (S.length - 1)
      have hge := key_lt_key (keyOf_mod (S.length - 1)) hm (by omega)
      omega
    rwa [hkey, hS]

theorem FinOk.insert_err_iff (hh : h.FinOk S) (hd : df.Carries S) (hf : df.FinAt S)
    (hm : mem.Ample) (hr : r ≤ S.length) :
    (h.insertDataFrame mem df r).2 = .err ↔ h.Refuses S df r := by
  by_cases hst : df.endOff < r
  · rw [insertDataFrame_stale mem h df hst, Refuses]
    have hnf : df.fin = false := by
      by_contra hn
      have he := hf (by simpa using hn)
      omega
    simp [hnf]
  · have hr' : r ≤ df.endOff := by omega
    have hins := insertDataFrame_spec mem hh.wellFormed df hr'
    generalize h.insertDataFrame mem df r = res at hins
    obtain ⟨h', ins⟩ := res
    cases hins with
    | refused hb =>
      rw [hh.not_badFin hd hf] at hb
      cases hb
    | failed hm' => exact absurd hm hm'
    | late hb hfin hda hs hk =>
      have hsee := (hh.seesAfter_iff hr' (hf hfin)).1 hda
      exact ⟨fun _ => ⟨hfin, hsee⟩, fun _ => rfl⟩
    | stored hb hfin hs hk => simp [Refuses, hfin]
    | storedFin hb hfin hda hs hk =>
      rw [hh.seesAfter_iff hr' (hf hfin)] at hda
      simp only [reduceCtorEq, false_iff]
      exact fun hc => hda hc.2

theorem wordsAfter_lt (hr : r ≤ df.endOff) {w : Nat}
    (hw : w ∈ DataBlock.wordsAfter (df.endOff - endBlock df r)) : w < nDbSets := by
  have hle := le_endBlock hr
  have hN : nDbSets * 64 = dbDataSize + 32 := rfl
  rw [DataBlock.wordsAfter, List.mem_cons, List.mem_range'_1] at hw
  omega

theorem FinOk.note (hh : h.FinOk S) (k? : Option Nat) (df : DataFrame) :
    ({ h with lastBlock := k?, dataFrame := df } : HashDataIn).FinOk S :=
  ⟨⟨hh.wellFormed.table, hh.wellFormed.count, hh.wellFormed.block, hh.wellFormed.aligned⟩,
    hh.fin, hh.bytes, hh.blocks⟩

theorem FinOk.done (hh : h.FinOk S) (hd : Done h h' pos) : h'.FinOk S := by
  refine ⟨hd.wellFormed, fun hf => ?_, fun x hx => ?_, fun k hk => hh.blocks k (hd.blocks k hk)⟩
  · rw [hd.finOff]
    exact hh.fin (hd.fin ▸ hf)
  · rcases hd.less x with he | he
    · exact hh.bytes x (he ▸ hx)
    · exact absurd he hx

end

end HashDataIn

namespace HashDataIn

variable {h h' : HashDataIn}

theorem feed_invariant {fs : List StreamFrame} {P : HashDataIn → Prop} (hh : P h)
    (hstep : ∀ f ∈ fs, ∀ h, P h → (h.insertDataFrame mem f.df r).2 ≠ .err →
      P (h.insertDataFrame mem f.df r).1) (hf : (h.feed mem r fs).1 = some h') : P h' := by
  induction fs generalizing h with
  | nil =>
    cases hf
    exact hh
  | cons f fs ih =>
    have hh₁ := hstep f (.head _) h hh
    rw [HashDataIn.feed] at hf
    generalize h.insertDataFrame mem f.df r = res at hf hh₁
    obtain ⟨h₁, ins⟩ := res
    have hgo : P h₁ → (h₁.feed mem r fs).1 = some h' → P h' := fun hh =>
      ih hh fun g hg => hstep g (.tail _ hg)
    cases ins with
    | err => cases hf
    | ok => exact hgo (hh₁ (by simp)) hf
    | dup => exact hgo (hh₁ (by simp)) hf
    | overlap => exact hgo (hh₁ (by simp)) hf

theorem FinOk.feed {fs : List StreamFrame} (hh : h.FinOk S) (hd : ∀ f ∈ fs, f.df.Carries S)
    (hf : ∀ f ∈ fs, f.df.FinAt S) (hf' : (h.feed mem r fs).1 = some h') : h'.FinOk S :=
  feed_invariant (P := (·.FinOk S)) hh (fun f hm _ hh _ => hh.insert mem (hd f hm) (hf f hm)) hf'

theorem blocks_of_insert (mem : Memory) (hh : h.WellFormed)
    (hk : (h.insertDataFrame mem df r).1.HasBlock k) : h.HasBlock k ∨ k ≤ df.endOff := by
  by_cases hr : df.endOff < r
  · rw [insertDataFrame_stale mem h df hr] at hk
    exact .inl hk
  · have hr' : r ≤ df.endOff := by omega
    have hb := endBlock_le hr'
    have hins := insertDataFrame_spec mem hh df hr'
    generalize h.insertDataFrame mem df r = res at hins hk
    obtain ⟨h', ins⟩ := res
    have hle : ∀ {P : Prop}, P ∨ Between (keyOf (max df.offset r)) (endBlock df r) k →
        P ∨ k ≤ df.endOff := by
      rintro P (hp | ⟨-, -, hle⟩)
      · exact .inl hp
      · exact .inr (by omega)
    cases hins with
    | refused => exact .inl hk
    | failed hm hle' hs hk' => exact hle (hk' k hk)
    | late hb hfin hda hs hk' => exact hle ((hk' k).1 hk)
    | stored hb hfin hs hk' => exact hle ((hk' k).1 hk)
    | storedFin hb hfin hda hs hk' => exact hle ((hk' k).1 hk)

theorem FinOk.feed_isSome {fs : List StreamFrame} (hh : h.FinOk S) (hm : mem.Ample)
    (hr : r ≤ S.length) (hd : ∀ f ∈ fs, f.df.Carries S) (hf : ∀ f ∈ fs, f.df.FinAt S)
    (hs : fs.Pairwise NocopyDataIn.Before)
    (hk : ∀ k, h.HasBlock k → ∀ f ∈ fs, k ≤ f.df.offset) : (h.feed mem r fs).1.isSome = true := by
  induction fs generalizing h with
  | nil => rfl
  | cons f fs ih =>
    have hd₁ := hd f (.head _)
    have hf₁ := hf f (.head _)
    have hh₁ := hh.insert (r := r) mem hd₁ hf₁
    have hne : (h.insertDataFrame mem f.df r).2 ≠ .err := by
      rw [ne_eq, hh.insert_err_iff hd₁ hf₁ hm hr]
      rintro ⟨-, hlt, -, hb⟩
      have hle := hk _ hb f (.head _)
      omega
    have hk₁ : ∀ k, (h.insertDataFrame mem f.df r).1.HasBlock k → ∀ g ∈ fs, k ≤ g.df.offset := by
      intro k hk' g hg
      rcases blocks_of_insert mem hh.wellFormed hk' with hk' | hle
      · exact hk k hk' g (.tail _ hg)
      · exact Nat.le_trans hle ((List.pairwise_cons.1 hs).1 g hg)
    rw [HashDataIn.feed]
    generalize h.insertDataFrame mem f.df r = res at hh₁ hne hk₁
    obtain ⟨h₁, ins⟩ := res
    have hgo : (h₁.feed mem r fs).1.isSome = true :=
      ih hh₁ (fun g hg => hd g (.tail _ hg)) (fun g hg => hf g (.tail _ hg))
        (List.pairwise_cons.1 hs).2 hk₁
    cases ins with
    | err => exact absurd rfl hne
    | ok => exact hgo
    | dup => exact hgo
    | overlap => exact hgo

end HashDataIn

namespace NocopyDataIn

structure FinOk (n : NocopyDataIn) (S : List UInt8) : Prop where
  frames : ∀ f ∈ n.frames, f.df.FinAt S
  fin : n.finSet = true → n.finOff = S.length

variable {n n' : NocopyDataIn} {f : StreamFrame}

theorem FinOk.insert (hn : n.FinOk S) (ho : n.Ordered r) (hf : f.df.FinAt S) :
    (n.insertFrame f r).1.FinOk S := by
  have hI := insertFrame_inserted ho f
  generalize (n.insertFrame f r).1 = n', (n.insertFrame f r).2 = ins at hI
  refine ⟨fun g hg => ?_, ?_⟩
  · rcases hI.mem hg with hg | rfl
    · exact hn.frames g hg
    · exact hf
  · cases hI with
    | same he => exact he ▸ hn.fin
    | ok hs hpre hpost hr he hfin hoff =>
      intro ht
      rw [hfin] at ht
      rw [hoff]
      split
      next hff => exact hf hff
      next hff => exact hn.fin (by simpa [hff] using ht)

theorem readFrame_frames (hs : (DataIn.nocopy n).readFrame r len = some rd) :
    ∃ n', rd.di = .nocopy n' ∧ n'.finSet = n.finSet ∧ n'.finOff = n.finOff ∧
      ∀ g ∈ n'.frames, ∃ f ∈ n.frames, ∃ k, g.df = { f.df with readOff := k } := by
  rw [DataIn.readFrame, DataIn.getFrame] at hs
  cases hf : n.frames with
  | nil =>
    rw [getFrame, hf] at hs
    cases hs
  | cons f fs =>
    cases hg : n.getFrame r with
    | none =>
      rw [hg] at hs
      cases hs
    | some df =>
      rw [hg] at hs
      simp only [DataIn.setReadOff, DataIn.frameDone, setReadOff, frameDone, hf] at hs
      split at hs
      · cases hs
        exact ⟨_, rfl, rfl, rfl, fun g hg => ⟨g, .tail _ hg, _, rfl⟩⟩
      · cases hs
        refine ⟨_, rfl, rfl, rfl, fun g hg => ?_⟩
        rcases List.mem_cons.1 hg with rfl | hg
        · exact ⟨f, .head _, _, rfl⟩
        · exact ⟨g, .tail _ hg, _, rfl⟩

theorem switchToHash_spec {C : Nat → Prop} (hn : n.FinOk S) (hh : n.Holds S C r)
    (hr : r ≤ S.length) (mem : Memory) :
    (∀ h, (n.switchToHash mem r).1 = some h → h.FinOk S) ∧
    (mem.Ample → (n.switchToHash mem r).1 ≠ none) := by
  rw [switchToHash]
  cases hnew : HashDataIn.new mem n.byteage with
  | none =>
    refine ⟨fun h hs => absurd hs (by simp), fun hm => ?_⟩
    rw [HashDataIn.new, if_pos hm.dataIn] at hnew
    cases hnew
  | some h₀ =>
    obtain ⟨hwf, hempty, hnb, hfin⟩ := HashDataIn.new_wellFormed hnew
    have h0 : h₀.FinOk S := by
      refine ⟨hwf, fun hf => absurd hf (by simp [hfin]), fun x hx => absurd (hempty x) hx,
        fun k hk => absurd hk (hnb k)⟩
    refine ⟨fun h hs => h0.feed hh.carries hn.frames hs, fun hm hs => ?_⟩
    have hsome := h0.feed_isSome (r := r) hm hr hh.carries hn.frames hh.ordered.sorted
      (fun k hk => absurd hk (hnb k))
    rw [hs] at hsome
    cases hsome

end NocopyDataIn

theorem HashDataIn.readFrame_done {h : HashDataIn} (hh : h.WellFormed)
    (hs : (DataIn.hash h).readFrame r len = some rd) :
    ∃ k? df pos h', rd.di = .hash h' ∧
      Done { h with lastBlock := k?, dataFrame := df } h' pos := by
  have hwf : ∀ k? df, ({ h with lastBlock := k?, dataFrame := df } : HashDataIn).WellFormed :=
    fun k? df => { hh with }
  obtain ⟨k?, df, hget, hk⟩ : ∃ k? df,
      h.getFrame r = ({ h with lastBlock := k?, dataFrame := df }, some df) ∧
      ∀ k, k? = some k → h.HasBlock k := by
    by_cases hb : h.byteAt r = none
    · by_cases hfin : h.fin = true ∧ r = h.finOff
      · obtain ⟨k?, df, hget, -, -, hk⟩ := getFrame_fin hb hfin.1 hfin.2
        refine ⟨k?, df, hget, fun k hk' => ?_⟩
        rcases hk with ⟨rfl, -⟩ | ⟨rfl, hblock, -⟩
        · cases hk'
        · cases hk'
          exact hblock
      · rw [DataIn.readFrame, DataIn.getFrame, getFrame_none hb hfin] at hs
        cases hs
    · obtain ⟨n, df, -, -, hget⟩ := getFrame_some hh hb
      refine ⟨_, df, hget, fun k hk => ?_⟩
      cases hk
      exact HasBlock.of_byteAt hb
  rw [DataIn.readFrame, DataIn.getFrame, hget] at hs
  simp only at hs
  split at hs
  · cases hs
    generalize df.readOff + min len (df.size - df.readOff) = o
    cases k? with
    | none => exact ⟨none, { df with readOff := o }, 0, _, rfl, Done.refl (hwf _ _) 0⟩
    | some k =>
      exact ⟨some k, { df with readOff := o }, _, _, rfl, frameDone_spec (hwf _ _) rfl (hk k rfl)⟩
  · cases hs
    exact ⟨k?, _, 0, _, rfl, Done.refl (hwf _ _) 0⟩

namespace DataIn

def FinOk (S : List UInt8) : DataIn → Prop
  | nocopy n => n.FinOk S
  | hash h => h.FinOk S
  | error => True

section
variable {auto : Bool} {di : DataIn} {f : StreamFrame} {C : Nat → Prop}

theorem FinOk.insertOrSwitch (h : di.FinOk S) (hk : di.Keeps auto S C r) (hr : r ≤ S.length)
    (hd : f.df.Part S) (mem : Memory) :
    (di.insertOrSwitch mem f r).1.FinOk S ∧
    (mem.Ample → di ≠ error → (di.insertOrSwitch mem f r).1 ≠ error) := by
  have hI := insertOrSwitch_inserts mem di f r
  generalize (di.insertOrSwitch mem f r).1 = di', (di.insertOrSwitch mem f r).2.1 = ins at hI
  cases hI with
  | error => exact ⟨trivial, fun _ hdi => absurd rfl hdi⟩
  | nocopy =>
    have ho := NocopyDataIn.Holds.ordered hk
    exact ⟨NocopyDataIn.FinOk.insert h ho hd.fin, fun _ _ => by simp⟩
  | hash => exact ⟨HashDataIn.FinOk.insert mem h hd.toCarries hd.fin, fun _ _ => by simp⟩
  | toHash hs =>
    have hh := (NocopyDataIn.switchToHash_spec h hk hr mem).1 _ hs
    exact ⟨hh.insert mem hd.toCarries hd.fin, fun _ _ => by simp⟩
  | noHash hs =>
    exact ⟨trivial, fun hm => absurd hs ((NocopyDataIn.switchToHash_spec h hk hr mem).2 hm)⟩

theorem FinOk.maybeSwitch (h : di.FinOk S) (hk : di.Keeps auto S C r) (hr : r ≤ S.length)
    (mem : Memory) :
    (di.maybeSwitch mem auto r).1.FinOk S ∧
    (mem.Ample → di ≠ error → (di.maybeSwitch mem auto r).1 ≠ error) := by
  have hS := maybeSwitch_switches mem auto di r
  generalize (di.maybeSwitch mem auto r).1 = di' at hS
  cases hS with
  | keep => exact ⟨h, fun _ => id⟩
  | toHash hs =>
    exact ⟨(NocopyDataIn.switchToHash_spec h hk hr mem).1 _ hs, fun _ _ => by simp⟩
  | noHash hs =>
    exact ⟨trivial, fun hm => absurd hs ((NocopyDataIn.switchToHash_spec h hk hr mem).2 hm)⟩
  | toNocopy =>
    exact ⟨⟨fun f hf => absurd hf (by simp), nofun⟩, fun _ _ => by simp⟩
  | noNocopy hm => exact ⟨trivial, fun hm' => absurd hm'.dataIn (by simp [hm])⟩

theorem FinOk.read (h : di.FinOk S) (hs : di.readFrame r len = some rd) :
    rd.di.FinOk S ∧ rd.di ≠ error := by
  cases di with
  | error => cases hs
  | hash h₁ =>
    obtain ⟨k?, df, pos, h', hdi, hd⟩ :=
      HashDataIn.readFrame_done (HashDataIn.FinOk.wellFormed h) hs
    rw [hdi]
    exact ⟨(HashDataIn.FinOk.note h k? df).done hd, by simp⟩
  | nocopy n =>
    obtain ⟨n', hdi, hfin, hoff, hfr⟩ := NocopyDataIn.readFrame_frames hs
    rw [hdi]
    refine ⟨⟨fun g hg => ?_, ?_⟩, by simp⟩
    · obtain ⟨f, hf, k, he⟩ := hfr g hg
      rw [he]
      exact NocopyDataIn.FinOk.frames h f hf
    · rw [hfin, hoff]
      exact NocopyDataIn.FinOk.fin h

end

end DataIn

namespace Session

/-- The bytes are reassembled, and what is known of the end of the stream is right. -/
structure Sound (auto : Bool) (S : List UInt8) (s : Session) : Prop extends
    s.Reassembles auto S where
  fin : s.di.FinOk S

section
variable {auto : Bool} {s : Session} {f : StreamFrame} {M : Memory → Prop}
  {P : Memory → Session → StreamFrame → Prop}

theorem Sound.insert (h : s.Sound auto S) (hf : f.df.Part S) (mem : Memory) :
    (s.insert auto mem f).Sound auto S ∧
    (mem.Ample → s.di ≠ .error → (s.insert auto mem f).di ≠ .error) := by
  have hre := h.toReassembles.insert hf.toSlice mem
  obtain ⟨hfin, hne⟩ := h.fin.insertOrSwitch h.keeps h.le hf mem
  obtain ⟨hk, -⟩ := h.keeps.insertOrSwitch h.quiet hf.toSlice mem
  refine ⟨⟨hre, ?_⟩, ?_⟩
  all_goals
    rw [Session.insert]
    generalize s.di.insertOrSwitch mem f s.readOffset = res at hfin hne hk
    obtain ⟨di, ins, ev⟩ := res
  · cases ins with
    | ok => exact (hfin.maybeSwitch hk h.le mem).1
    | dup => exact hfin
    | err => exact hfin
    | overlap => exact hfin
  · intro hm hdi
    cases ins with
    | ok => exact (hfin.maybeSwitch hk h.le mem).2 hm (hne hm hdi)
    | dup => exact hne hm hdi
    | err => exact hne hm hdi
    | overlap => exact hne hm hdi

theorem Sound.read (h : s.Sound auto S) (mem : Memory) (len : Nat) :
    (s.read auto mem len).Sound auto S ∧
    (mem.Ample → s.di ≠ .error → (s.read auto mem len).di ≠ .error) := by
  have hre := h.toReassembles.read mem len
  rw [Session.read] at hre ⊢
  cases hs : s.di.readFrame s.readOffset len with
  | none => exact ⟨h, fun _ => id⟩
  | some rd =>
    rw [hs] at hre
    obtain ⟨hfin, hne⟩ := h.fin.read hs
    obtain ⟨hb, hk, -⟩ := h.keeps.read h.quiet hs
    obtain ⟨hsw, hsw'⟩ := hfin.maybeSwitch hk (hb.take h.le).2 mem
    refine ⟨⟨hre, ?_⟩, fun hm _ => ?_⟩
    · simp only
      split
      · exact hsw
      · exact hfin
    · simp only
      split
      · exact hsw' hm hne
      · exact hne

theorem Sound.run (h : SessionRun auto M P s) (hP : ∀ mem s f, P mem s f → f.df.Part S) :
    s.Sound auto S := by
  induction h with
  | nocopy =>
    refine ⟨Reassembles.run (M := M) (P := P) .nocopy fun mem s f hp => (hP mem s f hp).toSlice, ?_⟩
    exact ⟨fun f hf => absurd hf (by simp), nofun⟩
  | hash hn =>
    refine ⟨Reassembles.run (M := M) (P := P) (.hash hn)
      fun mem s f hp => (hP mem s f hp).toSlice, ?_⟩
    obtain ⟨hwf, hempty, hnb, hfin⟩ := HashDataIn.new_wellFormed hn
    exact ⟨hwf, fun hf => absurd hf (by simp [hfin]), fun x hx => absurd (hempty x) hx,
      fun k hk => absurd hk (hnb k)⟩
  | insert hs hm hf ih => exact (ih.insert (hP _ _ _ hf) _).1
  | read hs hm len ih => exact (ih.read _ len).1

theorem ne_error_of_run (h : SessionRun auto M P s) (hP : ∀ mem s f, P mem s f → f.df.Part S)
    (hM : ∀ mem, M mem → mem.Ample) : s.di ≠ .error := by
  induction h with
  | nocopy => simp
  | hash hn => simp
  | insert hs hm hf ih => exact ((Sound.run hs hP).insert (hP _ _ _ hf) _).2 (hM _ hm) ih
  | read hs hm len ih => exact ((Sound.run hs hP).read _ len).2 (hM _ hm) ih

theorem Reassembles.readRounds (h : s.Reassembles auto S) (mem : Memory) (len k : Nat) :
    (s.readRounds auto mem len k).Reassembles auto S ∧
    ∀ x, (s.readRounds auto mem len k).Covered x ↔ s.Covered x := by
  induction k generalizing s with
  | zero => exact ⟨h, fun x => Iff.rfl⟩
  | succ k ih =>
    obtain ⟨hre, hc⟩ := ih (h.read mem len)
    exact ⟨hre, fun x => (hc x).trans (covered_read s mem len x)⟩

/-- The reader gets the bytes of the stream in order and, while there is memory, by reading on at
least to the first byte that was not taken in. -/
theorem reassembles (M : Memory → Prop) (h : SessionRun auto M (fun _ _ f => f.df.Part S) s) :
    s.out = S.take s.readOffset ∧ s.out.length = s.readOffset ∧
    ((∀ mem, M mem → mem.Ample) → s.di ≠ .error) ∧
    (s.di ≠ .error → ∀ mem len, 0 < len → ∃ k,
      (∃ x ≤ (s.readRounds auto mem len k).readOffset, ¬ s.Covered x) ∧
      (s.readRounds auto mem len k).out = S.take (s.readRounds auto mem len k).readOffset) := by
  have hP : ∀ (mem : Memory) (s : Session) (f : StreamFrame), f.df.Part S → f.df.Part S :=
    fun _ _ _ hd => hd
  have hs := Sound.run h hP
  refine ⟨hs.out, ?_, ne_error_of_run h hP, fun hdi mem len hlen => ?_⟩
  · rw [hs.out, List.length_take]
    exact Nat.min_eq_left hs.le
  · obtain ⟨k, hk⟩ := hs.drain hdi mem hlen
    obtain ⟨hre, hc⟩ := hs.toReassembles.readRounds mem len k
    rw [hc] at hk
    exact ⟨k, ⟨_, le_rfl, hk⟩, hre.out⟩

def frameOf (S : List UInt8) (id a b : Nat) : StreamFrame :=
  { id, df := { data := fun i => S.getD (a + i) 0, offset := a, size := b - a,
                fin := b == S.length } }

theorem frameOf_part (id : Nat) (hab : a ≤ b) (hb : b ≤ S.length) :
    (frameOf S id a b).df.Part S where
  endOff_le := by
    simp only [frameOf, DataFrame.endOff]
    omega
  data i hi := by
    simp only [frameOf] at hi ⊢
    rw [List.getD_eq_getElem?_getD, List.getElem?_eq_getElem (by omega), Option.getD_some]
  readOff := rfl
  fin hfin := by
    simp only [frameOf, DataFrame.endOff, beq_iff_eq] at hfin ⊢
    omega

def swapped : Session :=
  ((({ di := .nocopy {} } : Session).insert true {} (frameOf [1, 2, 3, 4] 0 2 4)).insert true {}
    (frameOf [1, 2, 3, 4] 1 0 2)).read true {} 1

theorem swapped_run :
    SessionRun true (fun mem => mem.Ample) (fun _ _ f => f.df.Part [1, 2, 3, 4]) swapped := by
  have hm : ({} : Memory).Ample := ⟨fun _ => rfl, fun _ => rfl, rfl⟩
  refine .read (.insert (.insert .nocopy hm ?_) hm ?_) hm 1
  · exact frameOf_part 0 (by decide) (by decide)
  · exact frameOf_part 1 (by decide) (by decide)

theorem reassembles_swapped : swapped.readOffset = 1 ∧ swapped.out = [1] ∧
    swapped.out = [1, 2, 3, 4].take swapped.readOffset ∧ swapped.di ≠ .error ∧
    ∃ k, (∃ x ≤ (swapped.readRounds true {} 1 k).readOffset, ¬ swapped.Covered x) ∧
      (swapped.readRounds true {} 1 k).out =
        [1, 2, 3, 4].take (swapped.readRounds true {} 1 k).readOffset := by
  obtain ⟨hout, -, hdi, hgo⟩ := reassembles _ swapped_run
  have hne := hdi fun mem hm => hm
  exact ⟨rfl, rfl, hout, hne, hgo hne {} 1 (by decide)⟩

end

end Session

end QuicArt
