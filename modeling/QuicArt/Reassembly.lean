import QuicArt.HashSpec
import QuicArt.NocopySpec
import QuicArt.Session

namespace QuicArt

variable {S : List UInt8} {C C' : Nat → Prop} {r : Nat} {mem : Memory} {df : DataFrame}

theorem DataFrame.Carries.byte (h : df.Carries S) (hx : df.Has x) :
    S[x]? = some (df.data (x - df.offset)) := by
  obtain ⟨hle, hlt⟩ := hx
  have hd := h.data (x - df.offset) (by rw [DataFrame.endOff] at hlt; omega)
  have he : df.offset + (x - df.offset) = x := by omega
  rwa [he] at hd

def ReadsFrom (S : List UInt8) (r : Nat) (bytes : List UInt8) : Prop :=
  ∀ i < bytes.length, S[r + i]? = bytes[i]?

theorem ReadsFrom.take (h : ReadsFrom S r bytes) (hr : r ≤ S.length) :
    S.take r ++ bytes = S.take (r + bytes.length) ∧ r + bytes.length ≤ S.length := by
  have hle : r + bytes.length ≤ S.length := by
    by_contra hn
    have hlast := h (bytes.length - 1) (by omega)
    rw [List.getElem?_eq_none (by omega), List.getElem?_eq_getElem (by omega)] at hlast
    cases hlast
  refine ⟨?_, hle⟩
  have hd : bytes = (S.drop r).take bytes.length := by
    apply List.ext_getElem?
    intro i
    rw [List.getElem?_take]
    split
    next hi => rw [List.getElem?_drop, h i hi]
    next hi => exact List.getElem?_eq_none (by omega)
  rw [List.take_add, ← hd]

theorem readsFrom_range (h : ∀ i < n, S[r + i]? = some (g i)) :
    ReadsFrom S r ((List.range n).map g) := by
  intro i hi
  rw [List.length_map, List.length_range] at hi
  rw [h i hi, List.getElem?_map, List.getElem?_range hi, Option.map_some]

namespace HashDataIn

/-- The hash holds bytes of `S`, and from `r` on all those in `C`. -/
structure Holds (h : HashDataIn) (S : List UInt8) (C : Nat → Prop) (r : Nat) : Prop where
  wellFormed : h.WellFormed
  agrees : ∀ x c, h.byteAt x = some c → S[x]? = some c
  covered : ∀ x, r ≤ x → C x → h.byteAt x ≠ none

section
variable {h h' : HashDataIn}

theorem Holds.mono (hh : h.Holds S C r) (hC : ∀ x, r ≤ x → C' x → C x) : h.Holds S C' r :=
  ⟨hh.wellFormed, hh.agrees, fun x hx hc => hh.covered x hx (hC x hx hc)⟩

theorem new_switchImpl (hn : HashDataIn.new mem byteage = some h) : h.switchImpl = false := by
  rw [HashDataIn.new] at hn
  split at hn
  · rw [← Option.some.inj hn]
  · cases hn

theorem switchImpl_of_frame (hf : h'.frame = h.frame) : h'.switchImpl = h.switchImpl := by
  simp only [frame, Prod.mk.injEq] at hf
  exact hf.2.2.2.2

theorem Holds.stored (hh : h.Holds S C r) (hd : df.Carries S) (hr : r ≤ df.endOff)
    (hle : m ≤ freshSize df r) (hs : Stored h h' df r m) : h'.Holds S C r := by
  have hadd := start_add_fresh hr
  rw [start_eq] at hadd
  refine ⟨hs.wellFormed, fun x c hx => ?_, fun x hx hc => ?_⟩
  · rw [hs.byteAt] at hx
    split at hx
    next hin =>
      rw [← hx]
      exact hd.byte ⟨by omega, by omega⟩
    · exact hh.agrees x c hx
  · rw [hs.byteAt]
    split
    · exact Option.some_ne_none _
    · exact hh.covered x hx hc

theorem Holds.storedAll (hh : h.Holds S C r) (hd : df.Carries S) (hr : r ≤ df.endOff)
    (hs : Stored h h' df r (freshSize df r)) : h'.Holds S (fun x => C x ∨ df.Has x) r := by
  have hadd := start_add_fresh hr
  rw [start_eq] at hadd
  obtain ⟨hwf, hag, hcov⟩ := hh.stored hd hr le_rfl hs
  refine ⟨hwf, hag, fun x hx hc => ?_⟩
  rcases hc with hc | ⟨hle, hlt⟩
  · exact hcov x hx hc
  · rw [hs.byteAt, if_pos (by omega)]
    exact Option.some_ne_none _

def Taken (C : Nat → Prop) (df : DataFrame) (ins : InsFrame) (x : Nat) : Prop :=
  C x ∨ (ins = .ok ∨ ins = .dup) ∧ df.Has x

theorem Holds.insert (mem : Memory) (hh : h.Holds S C r) (hd : df.Carries S) :
    (h.insertDataFrame mem df r).1.Holds S (Taken C df (h.insertDataFrame mem df r).2) r ∧
    (h.insertDataFrame mem df r).1.switchImpl = h.switchImpl := by
  by_cases hr : df.endOff < r
  · rw [insertDataFrame_stale mem h df hr]
    refine ⟨hh.mono fun x hx hc => ?_, rfl⟩
    rcases hc with hc | ⟨-, -, hlt⟩
    · exact hc
    · omega
  · have hr' : r ≤ df.endOff := by omega
    have hins := insertDataFrame_spec mem hh.wellFormed df hr'
    generalize h.insertDataFrame mem df r = res at hins
    obtain ⟨h', ins⟩ := res
    have herr : ∀ {h'' : HashDataIn}, h''.Holds S C r → h''.Holds S (Taken C df .err) r := by
      intro h'' hh''
      apply hh''.mono
      rintro x hx (hc | ⟨he | he, -⟩)
      · exact hc
      · cases he
      · cases he
    have hok : ∀ {h'' : HashDataIn}, h''.Holds S (fun x => C x ∨ df.Has x) r →
        h''.Holds S (Taken C df .ok) r := by
      intro h'' hh''
      apply hh''.mono
      rintro x hx (hc | ⟨-, hc⟩)
      · exact .inl hc
      · exact .inr hc
    cases hins with
    | refused hb => exact ⟨herr hh, rfl⟩
    | failed hm hle hs hk =>
      exact ⟨herr (hh.stored hd hr' hle hs), switchImpl_of_frame hs.frame⟩
    | late hb hfin hda hs hk =>
      exact ⟨herr (hh.stored hd hr' le_rfl hs), switchImpl_of_frame hs.frame⟩
    | stored hb hfin hs hk =>
      exact ⟨hok (hh.storedAll hd hr' hs), switchImpl_of_frame hs.frame⟩
    | storedFin hb hfin hda hs hk =>
      obtain ⟨⟨ht, hc, hbl, ha⟩, hag, hcov⟩ := hok (hh.storedAll hd hr' hs)
      have hsw := switchImpl_of_frame hs.frame
      exact ⟨⟨⟨ht, hc, hbl, ha⟩, hag, hcov⟩, hsw⟩

theorem Holds.feed {fs : List StreamFrame} (hh : h.Holds S C r) (hd : ∀ f ∈ fs, f.df.Carries S)
    (hf : (h.feed mem r fs).1 = some h') :
    h'.Holds S (fun x => C x ∨ ∃ f ∈ fs, f.df.Has x) r ∧ h'.switchImpl = h.switchImpl := by
  induction fs generalizing h C with
  | nil =>
    rw [HashDataIn.feed] at hf
    cases hf
    refine ⟨hh.mono fun x hx hc => ?_, rfl⟩
    rcases hc with hc | ⟨f, hf, -⟩
    · exact hc
    · cases hf
  | cons f fs ih =>
    obtain ⟨hh₁, hs₁⟩ := hh.insert mem (hd f (by simp))
    have hno := insertDataFrame_ne_overlap mem h f.df r
    rw [HashDataIn.feed] at hf
    generalize h.insertDataFrame mem f.df r = res at hf hh₁ hs₁ hno
    obtain ⟨h₁, ins⟩ := res
    have hgo : ins = .ok ∨ ins = .dup → (h₁.feed mem r fs).1 = some h' →
        h'.Holds S (fun x => C x ∨ ∃ g ∈ f :: fs, g.df.Has x) r ∧
        h'.switchImpl = h.switchImpl := by
      intro hins hf
      obtain ⟨hh₂, hs₂⟩ := ih hh₁ (fun g hg => hd g (.tail _ hg)) hf
      refine ⟨hh₂.mono fun x hx hc => ?_, hs₂.trans hs₁⟩
      rcases hc with hc | ⟨g, hg, hgx⟩
      · exact .inl (.inl hc)
      · rcases List.mem_cons.1 hg with rfl | hg
        · exact .inl (.inr ⟨hins, hgx⟩)
        · exact .inr ⟨g, hg, hgx⟩
    cases ins with
    | err => cases hf
    | overlap => exact absurd rfl hno
    | ok => exact hgo (.inl rfl) hf
    | dup => exact hgo (.inr rfl) hf

theorem Holds.later (hh : h.Holds S C r) (hle : r ≤ r') : h.Holds S C r' :=
  ⟨hh.wellFormed, hh.agrees, fun x hx hc => hh.covered x (Nat.le_trans hle hx) hc⟩

theorem Holds.done (hh : h.Holds S C r) (hd : Done h h' r) : h'.Holds S C r := by
  refine ⟨hd.wellFormed, fun x c hx => ?_, fun x hx hc => ?_⟩
  · rcases hd.less x with he | he
    · exact hh.agrees x c (he ▸ hx)
    · rw [he] at hx
      cases hx
  · rw [hd.byteAt x hx]
    exact hh.covered x hx hc

theorem Holds.note (hh : h.Holds S C r) (k? : Option Nat) (df : DataFrame) :
    ({ h with lastBlock := k?, dataFrame := df } : HashDataIn).Holds S C r :=
  ⟨⟨hh.wellFormed.table, hh.wellFormed.count, hh.wellFormed.block, hh.wellFormed.aligned⟩,
    hh.agrees, hh.covered⟩

structure ReadBy (S : List UInt8) (C : Nat → Prop) (r : Nat) (h : HashDataIn) (rd : ReadRound)
    (h' : HashDataIn) : Prop where
  di : rd.di = .hash h'
  bytes : ReadsFrom S r rd.bytes
  holds : h'.Holds S C (r + rd.bytes.length)
  wants : h'.switchImpl = true → h.switchImpl = true ∨ rd.done = true ∧ ∀ k, ¬ h'.HasBlock k

theorem Holds.readData (hh : h.Holds S C r) (hb : h.byteAt r ≠ none) (len : Nat) :
    ∃ rd h', (DataIn.hash h).readFrame r len = some rd ∧ ReadBy S C r h rd h' ∧
      (0 < len → rd.bytes ≠ []) := by
  obtain ⟨n, df, hav, hg, hget⟩ := getFrame_some hh.wellFormed hb
  have hr := keyOf_add_mod r
  have htoread : df.size - df.readOff = n := by
    rw [hg.size, hg.readOff]
    omega
  have hbytes : ∀ m ≤ n, ReadsFrom S r ((List.range m).map fun i => df.data (df.readOff + i)) := by
    intro m hm
    apply readsFrom_range
    intro i hi
    rw [hg.readOff]
    exact hh.agrees _ _ (hg.data i (by omega))
  rw [DataIn.readFrame, DataIn.getFrame, hget]
  simp only [htoread]
  have hset : ∀ m, (({ h with lastBlock := some (keyOf r), dataFrame := df } :
      HashDataIn).setReadOff m).Holds S C r := fun m => hh.note _ _
  have hne : 0 < len → ((List.range (min len n)).map fun i => df.data (df.readOff + i)) ≠ [] := by
    intro hlen hnil
    have hl := congrArg List.length hnil
    have hpos := hav.pos
    simp only [List.length_map, List.length_range, List.length_nil] at hl
    omega
  split
  next hdone =>
    have hmin : min len n = n := by
      rw [hg.size, hg.readOff] at hdone
      omega
    rw [hmin] at hne ⊢
    have hd := frameDone_spec (k := keyOf r) (hset (df.readOff + n)).wellFormed rfl
      (HasBlock.of_byteAt hb)
    have hpos : keyOf r + (df.readOff + n) = r + n := by
      rw [hg.readOff]
      omega
    have hlen : ((List.range n).map fun i => df.data (df.readOff + i)).length = n := by simp
    refine ⟨_, _, rfl, ⟨rfl, hbytes n le_rfl, ?_, fun hw => ?_⟩, hne⟩
    · rw [hlen]
      apply ((hset (df.readOff + n)).later (Nat.le_add_right r n)).done
      rw [← hpos]
      exact hd
    · rcases hd.wants hw with hw | hw
      · exact .inl hw
      · exact .inr ⟨rfl, hw.2⟩
  next hdone =>
    refine ⟨_, _, rfl, ⟨rfl, hbytes _ (Nat.min_le_right _ _), ?_, fun hw => .inl hw⟩, hne⟩
    exact (hset _).later (Nat.le_add_right r _)

theorem Holds.readEnd (hh : h.Holds S C r) (hb : h.byteAt r = none) (len : Nat) :
    (DataIn.hash h).readFrame r len = none ∨
    ∃ rd h', (DataIn.hash h).readFrame r len = some rd ∧ ReadBy S C r h rd h' ∧ rd.bytes = [] := by
  by_cases hfin : h.fin = true ∧ r = h.finOff
  · obtain ⟨k?, df, hget, -, hsize, hk⟩ := getFrame_fin hb hfin.1 hfin.2
    have hnote := hh.note k? df
    refine .inr ?_
    rw [DataIn.readFrame, DataIn.getFrame, hget]
    simp only [hsize, Nat.sub_self, Nat.min_zero, List.range_zero, List.map_nil, Nat.add_zero,
      if_true]
    rcases hk with ⟨rfl, -⟩ | ⟨rfl, hblock, hro⟩
    · exact ⟨_, _, rfl, ⟨rfl, fun i hi => absurd hi (by simp), hnote, fun hw => .inl hw⟩, rfl⟩
    · have hd := frameDone_spec (h := { h with lastBlock := some (keyOf r), dataFrame := df })
        (k := keyOf r) hnote.wellFormed rfl hblock
      have hpos : keyOf r + df.readOff = r := by
        rw [hro]
        exact keyOf_add_mod r
      rw [hpos] at hd
      refine ⟨_, _, rfl, ⟨rfl, fun i hi => absurd hi (by simp), hnote.done hd, fun hw => ?_⟩, rfl⟩
      rcases hd.wants hw with hw | hw
      · exact .inl hw
      · exact .inr ⟨rfl, hw.2⟩
  · refine .inl ?_
    rw [DataIn.readFrame, DataIn.getFrame, getFrame_none hb hfin]

theorem Holds.readFrame_some (hh : h.Holds S C r) (hs : (DataIn.hash h).readFrame r len = some rd) :
    ∃ h', ReadBy S C r h rd h' := by
  by_cases hb : h.byteAt r = none
  · rcases hh.readEnd hb len with hn | ⟨rd', h', hrd, hby, -⟩
    · rw [hs] at hn
      cases hn
    · rw [hs] at hrd
      cases hrd
      exact ⟨h', hby⟩
  · obtain ⟨rd', h', hrd, hby, -⟩ := hh.readData hb len
    rw [hs] at hrd
    cases hrd
    exact ⟨h', hby⟩

end

end HashDataIn

namespace NocopyDataIn

/-- The list holds frames with bytes of `S`, and from `r` on all bytes in `C`. -/
structure Holds (n : NocopyDataIn) (S : List UInt8) (C : Nat → Prop) (r : Nat) : Prop where
  ordered : n.Ordered r
  carries : ∀ f ∈ n.frames, f.df.Carries S
  covered : ∀ x, r ≤ x → C x → n.Has x

section
variable {n n' : NocopyDataIn} {f : StreamFrame}

theorem Holds.mono (hn : n.Holds S C r) (hC : ∀ x, r ≤ x → C' x → C x) : n.Holds S C' r :=
  ⟨hn.ordered, hn.carries, fun x hx hc => hn.covered x hx (hC x hx hc)⟩

theorem Holds.insert (hn : n.Holds S C r) (hf : f.df.Slice S) :
    (n.insertFrame f r).1.Holds S (HashDataIn.Taken C f.df (n.insertFrame f r).2) r := by
  have hI := insertFrame_inserted hn.ordered f
  generalize (n.insertFrame f r).1 = n', (n.insertFrame f r).2 = ins at hI
  have hmem : ∀ g ∈ n'.frames, g ∈ n.frames ∨ g = f := fun g => hI.mem
  cases hI with
  | same he hne hd =>
    subst he
    refine ⟨hn.ordered, hn.carries, ?_⟩
    rintro x hx (hc | ⟨hok | hdup, hfx⟩)
    · exact hn.covered x hx hc
    · exact absurd hok hne
    · exact hd hdup x hx hfx
  | ok hs hpre hpost hr he =>
    refine ⟨hn.ordered.place hs hpre hpost hr hf.readOff he, fun g hg => ?_, ?_⟩
    · rcases hmem g hg with hg | rfl
      · exact hn.carries g hg
      · exact hf.toCarries
    · rintro x hx (hc | ⟨-, hfx⟩)
      · obtain ⟨g, hg, hgx⟩ := hn.covered x hx hc
        refine ⟨g, ?_, hgx⟩
        rw [he, List.perm_middle.mem_iff, ← hs]
        exact .tail _ hg
      · exact ⟨f, by simp [he], hfx⟩

theorem Holds.switch {h : HashDataIn} (hn : n.Holds S C r)
    (hs : (n.switchToHash mem r).1 = some h) : h.Holds S C r ∧ h.switchImpl = false := by
  rw [switchToHash] at hs
  cases hnew : HashDataIn.new mem n.byteage with
  | none =>
    rw [hnew] at hs
    cases hs
  | some h₀ =>
    rw [hnew] at hs
    obtain ⟨hwf, hempty, -, -⟩ := HashDataIn.new_wellFormed hnew
    have hsw := HashDataIn.new_switchImpl hnew
    have h0 : h₀.Holds S (fun _ => False) r :=
      ⟨hwf, fun x c hx => by rw [hempty] at hx; exact absurd hx (by simp), fun x _ hc => hc.elim⟩
    obtain ⟨hh, hsw'⟩ := h0.feed hn.carries hs
    refine ⟨hh.mono fun x hx hc => .inr (hn.covered x hx hc), hsw'.trans hsw⟩

structure ReadBy (S : List UInt8) (C : Nat → Prop) (r : Nat) (n : NocopyDataIn) (rd : ReadRound)
    (n' : NocopyDataIn) : Prop where
  di : rd.di = .nocopy n'
  bytes : ReadsFrom S r rd.bytes
  holds : n'.Holds S C (r + rd.bytes.length)
  wants : n'.switchImpl = n.switchImpl
  frames_le : n'.frames.length ≤ n.frames.length

theorem Holds.advance (hn : n.Holds S C r) (hf : n.frames = f :: fs)
    (hr : f.df.offset + f.df.readOff = r) (hk : f.df.readOff + k ≤ f.df.size)
    (hset : n'.frames = { f with df := { f.df with readOff := f.df.readOff + k } } :: fs) :
    n'.Holds S C (r + k) := by
  have hcar := hn.carries f (by rw [hf]; exact .head _)
  refine ⟨hn.ordered.read hf hr hk hset, fun g hg => ?_, fun x hx hc => ?_⟩
  · rw [hset] at hg
    rcases List.mem_cons.1 hg with rfl | hg
    · exact ⟨hcar.endOff_le, hcar.data⟩
    · exact hn.carries g (by rw [hf]; exact .tail _ hg)
  · obtain ⟨g, hg, hgx⟩ := hn.covered x (by omega) hc
    rw [hf] at hg
    rw [Has, hset]
    rcases List.mem_cons.1 hg with rfl | hg
    · exact ⟨_, .head _, hgx⟩
    · exact ⟨g, .tail _ hg, hgx⟩

/-- The bytes from the read offset on are in the other frames. -/
theorem Holds.tail (hn : n.Holds S C r) (hf : n.frames = f :: n'.frames) (he : f.df.endOff ≤ r) :
    n'.Holds S C r := by
  refine ⟨hn.ordered.tail hf, fun g hg => hn.carries g (by rw [hf]; exact .tail _ hg),
    fun x hx hc => ?_⟩
  obtain ⟨g, hg, hgx⟩ := hn.covered x hx hc
  rw [hf] at hg
  rcases List.mem_cons.1 hg with rfl | hg
  · have hlt := hgx.2
    omega
  · exact ⟨g, hg, hgx⟩

theorem Holds.readFirst (hn : n.Holds S C r) (hf : n.frames = f :: fs)
    (hr : f.df.offset + f.df.readOff = r) (len : Nat) :
    ∃ rd n', (DataIn.nocopy n).readFrame r len = some rd ∧ ReadBy S C r n rd n' ∧
      (0 < len → rd.bytes ≠ [] ∨ n'.frames.length < n.frames.length) := by
  have hfm : f ∈ n.frames := by
    rw [hf]
    exact .head _
  have hro := hn.ordered.readOff_le f hfm
  have hcar := hn.carries f hfm
  rw [DataIn.readFrame, DataIn.getFrame, getFrame, hf]
  simp only [if_pos hr]
  have hk : f.df.readOff + min len (f.df.size - f.df.readOff) ≤ f.df.size := by omega
  have hnil : 0 < len → min len (f.df.size - f.df.readOff) ≠ 0 ∨ f.df.readOff = f.df.size := by
    omega
  generalize min len (f.df.size - f.df.readOff) = k at hk hnil
  have hlen : ((List.range k).map fun i => f.df.data (f.df.readOff + i)).length = k := by simp
  have hbytes : ReadsFrom S r ((List.range k).map fun i => f.df.data (f.df.readOff + i)) := by
    apply readsFrom_range
    intro i hi
    have hd := hcar.data (f.df.readOff + i) (by omega)
    have he : f.df.offset + (f.df.readOff + i) = r + i := by omega
    rwa [he] at hd
  have hset : (n.setReadOff (f.df.readOff + k)).frames =
      { f with df := { f.df with readOff := f.df.readOff + k } } :: fs := by
    rw [setReadOff, hf]
  have hswitch : (n.setReadOff (f.df.readOff + k)).switchImpl = n.switchImpl := by
    rw [setReadOff, hf]
  have hread : (n.setReadOff (f.df.readOff + k)).Holds S C (r + k) := hn.advance hf hr hk hset
  split
  next hdone =>
    obtain ⟨n', hn', hfs, hsw⟩ : ∃ n', (n.setReadOff (f.df.readOff + k)).frameDone.1 = n' ∧
        n'.frames = fs ∧ n'.switchImpl = n.switchImpl := by
      refine ⟨_, rfl, ?_, ?_⟩
      · rw [frameDone, hset]
      · rw [frameDone, hset]
        exact hswitch
    rw [← hfs] at hset
    refine ⟨_, n', rfl, ⟨?_, hbytes, ?_, hsw, ?_⟩, fun _ => .inr ?_⟩
    · simp only [DataIn.setReadOff, DataIn.frameDone, hn']
    · rw [hlen]
      exact hread.tail hset (by simp only [DataFrame.endOff]; omega)
    · rw [hfs, hf]
      exact Nat.le_succ _
    · rw [hfs]
      exact Nat.lt_succ_self _
  next hdone =>
    refine ⟨_, _, rfl, ⟨rfl, hbytes, ?_, hswitch, by simp [hset, hf]⟩, fun hpos => ?_⟩
    · rw [hlen]
      exact hread
    · have hk0 : k ≠ 0 := (hnil hpos).resolve_right (by omega)
      refine .inl fun he => hk0 ?_
      rw [← hlen]
      exact congrArg List.length he

theorem Ordered.not_has (hn : n.Ordered r) (hg : n.getFrame r = none) : ¬ n.Has r := by
  rintro ⟨g, hg', hle, hlt⟩
  cases hf : n.frames with
  | nil =>
    rw [hf] at hg'
    cases hg'
  | cons f fs =>
    rw [getFrame, hf] at hg
    simp only [ite_eq_right_iff] at hg
    have hfm : f ∈ n.frames := by
      rw [hf]
      exact .head _
    have hne : f.df.offset + f.df.readOff ≠ r := fun he => absurd (hg he) (by simp)
    have hun := hn.unread f hfm
    have h0 := (hn.reading f hfm).resolve_right hne
    rw [hf] at hg'
    rcases List.mem_cons.1 hg' with rfl | hg'
    · omega
    · have hs := hn.sorted
      rw [hf, List.pairwise_cons] at hs
      have hb : f.df.endOff ≤ g.df.offset := hs.1 g hg'
      have ho := f.df.offset_le
      omega

theorem Holds.readFrame_some (hn : n.Holds S C r) (len : Nat)
    (hs : (DataIn.nocopy n).readFrame r len = some rd) : ∃ n', ReadBy S C r n rd n' := by
  cases hf : n.frames with
  | nil =>
    rw [DataIn.readFrame, DataIn.getFrame, getFrame, hf] at hs
    cases hs
  | cons f fs =>
    by_cases hr : f.df.offset + f.df.readOff = r
    · obtain ⟨rd', n', hrd, hby, -⟩ := hn.readFirst hf hr len
      rw [hs] at hrd
      cases hrd
      exact ⟨n', hby⟩
    · rw [DataIn.readFrame, DataIn.getFrame, getFrame, hf] at hs
      simp only [if_neg hr] at hs
      cases hs

theorem Holds.read_of_has (hn : n.Holds S C r) (hr : n.Has r) (len : Nat) :
    ∃ rd n', (DataIn.nocopy n).readFrame r len = some rd ∧ ReadBy S C r n rd n' ∧
      (0 < len → rd.bytes ≠ [] ∨ n'.frames.length < n.frames.length) := by
  cases hf : n.frames with
  | nil =>
    obtain ⟨g, hg, -⟩ := hr
    rw [hf] at hg
    cases hg
  | cons f fs =>
    have hfr : f.df.offset + f.df.readOff = r := by
      by_contra hne
      refine hn.ordered.not_has ?_ hr
      rw [getFrame, hf]
      simp only [if_neg hne]
    have hread := hn.readFirst hf hfr len
    rwa [hf] at hread

end

end NocopyDataIn

namespace DataIn

def Keeps (auto : Bool) (S : List UInt8) (C : Nat → Prop) (r : Nat) : DataIn → Prop
  | nocopy n => n.Holds S C r
  | hash h => h.Holds S C r ∧ (auto = true → h.switchImpl = true → ∀ k, ¬ h.HasBlock k)
  | error => True

inductive Switches (mem : Memory) (auto : Bool) (r : Nat) : DataIn → DataIn → Prop
  | keep (hq : auto = true → di.wantsSwitch = false) : Switches mem auto r di di
  | toHash (hs : (n.switchToHash mem r).1 = some h) : Switches mem auto r (nocopy n) (hash h)
  | noHash (hs : (n.switchToHash mem r).1 = none) : Switches mem auto r (nocopy n) error
  | toNocopy (ha : auto = true) (hw : h.switchImpl = true) :
      Switches mem auto r (hash h) (nocopy {})
  | noNocopy (hm : mem.dataIn = false) : Switches mem auto r (hash h) error

inductive Inserts (mem : Memory) (f : StreamFrame) (r : Nat) : DataIn → DataIn → InsFrame → Prop
  | error : Inserts mem f r error error .err
  | nocopy : Inserts mem f r (nocopy n) (nocopy (n.insertFrame f r).1) (n.insertFrame f r).2
  | hash : Inserts mem f r (hash h) (hash (h.insertDataFrame mem f.df r).1)
      (h.insertDataFrame mem f.df r).2
  | toHash (hs : (n.switchToHash mem r).1 = some h) : Inserts mem f r (nocopy n)
      (hash (h.insertDataFrame mem f.df r).1) (h.insertDataFrame mem f.df r).2
  | noHash (hs : (n.switchToHash mem r).1 = none) : Inserts mem f r (nocopy n) error .overlap

section
variable {auto : Bool} {di : DataIn} {f : StreamFrame}

theorem Keeps.mono (h : di.Keeps auto S C r) (hC : ∀ x, r ≤ x → C' x → C x) :
    di.Keeps auto S C' r := by
  cases di with
  | nocopy n => exact NocopyDataIn.Holds.mono h hC
  | hash h₁ => exact ⟨h.1.mono hC, h.2⟩
  | error => trivial

theorem keeps_empty (hC : ∀ x, r ≤ x → ¬ C x) : (nocopy {}).Keeps auto S C r :=
  ⟨⟨List.Pairwise.nil, by simp, by simp, by simp⟩, by simp, fun x hx hc => (hC x hx hc).elim⟩

theorem not_covered_of_noBlock {h : HashDataIn} (hh : h.Holds S C r) (hk : ∀ k, ¬ h.HasBlock k)
    (x : Nat) (hx : r ≤ x) : ¬ C x :=
  fun hc => hk _ (HashDataIn.HasBlock.of_byteAt (hh.covered x hx hc))

theorem maybeSwitch_switches (mem : Memory) (auto : Bool) (di : DataIn) (r : Nat) :
    Switches mem auto r di (di.maybeSwitch mem auto r).1 := by
  rw [DataIn.maybeSwitch]
  split
  next hw =>
    rw [Bool.and_eq_true] at hw
    cases di with
    | nocopy n =>
      simp only [switchImpl]
      cases hs : (n.switchToHash mem r).1 with
      | none => exact .noHash hs
      | some h => exact .toHash hs
    | hash h =>
      simp only [switchImpl]
      cases hm : mem.dataIn with
      | false => exact .noNocopy hm
      | true => exact .toNocopy hw.1 hw.2
    | error => cases hw.2
  next hw => exact .keep fun ha => by simpa [ha] using hw

theorem maybeSwitch_quiet (hq : (auto && di.wantsSwitch) = false) (mem : Memory) (r : Nat) :
    (di.maybeSwitch mem auto r).1 = di := by
  rw [DataIn.maybeSwitch, hq]
  rfl

theorem Keeps.maybeSwitch (h : di.Keeps auto S C r) (mem : Memory) :
    (di.maybeSwitch mem auto r).1.Keeps auto S C r ∧
    (auto = true → (di.maybeSwitch mem auto r).1.wantsSwitch = false) := by
  have hS := maybeSwitch_switches mem auto di r
  generalize (di.maybeSwitch mem auto r).1 = di' at hS
  cases hS with
  | keep hq => exact ⟨h, hq⟩
  | toHash hs =>
    obtain ⟨hh, hsw⟩ := NocopyDataIn.Holds.switch h hs
    exact ⟨⟨hh, fun _ ht => absurd ht (by simp [hsw])⟩, fun _ => hsw⟩
  | noHash => exact ⟨trivial, fun _ => rfl⟩
  | toNocopy ha hw => exact ⟨keeps_empty (not_covered_of_noBlock h.1 (h.2 ha hw)), fun _ => rfl⟩
  | noNocopy => exact ⟨trivial, fun _ => rfl⟩

theorem insertFrame_hash (mem : Memory) (h : HashDataIn) (f : StreamFrame) (r : Nat) :
    ((hash h).insertFrame mem f r).1 = hash (h.insertDataFrame mem f.df r).1 ∧
    ((hash h).insertFrame mem f r).2.1 = (h.insertDataFrame mem f.df r).2 := by
  rw [insertFrame, HashDataIn.insertFrame]
  generalize h.insertDataFrame mem f.df r = res
  obtain ⟨h', ins⟩ := res
  cases ins <;> exact ⟨rfl, rfl⟩

theorem insertOrSwitch_inserts (mem : Memory) (di : DataIn) (f : StreamFrame) (r : Nat) :
    Inserts mem f r di (di.insertOrSwitch mem f r).1 (di.insertOrSwitch mem f r).2.1 := by
  rw [DataIn.insertOrSwitch]
  cases di with
  | error => exact .error
  | hash h =>
    obtain ⟨hdi, hins⟩ := insertFrame_hash mem h f r
    have hno := HashDataIn.insertDataFrame_ne_overlap mem h f.df r
    have hI : Inserts mem f r (hash h) _ _ := .hash
    rw [← hdi, ← hins] at hI
    rw [← hins] at hno
    generalize (hash h).insertFrame mem f r = res at hI hno
    obtain ⟨di', ins, ev⟩ := res
    cases ins with
    | overlap => exact absurd rfl hno
    | ok => exact hI
    | err => exact hI
    | dup => exact hI
  | nocopy n =>
    have hsame := NocopyDataIn.insertFrame_same n f r
    have hI : Inserts mem f r (nocopy n) _ _ := .nocopy
    rw [insertFrame]
    generalize n.insertFrame f r = res at hI hsame
    obtain ⟨n', ins⟩ := res
    cases ins with
    | ok => exact hI
    | err => exact hI
    | dup => exact hI
    | overlap =>
      obtain rfl : n' = n := hsame (by simp)
      simp only [switchImpl]
      cases hs : (n'.switchToHash mem r).1 with
      | none => exact .noHash hs
      | some h =>
        obtain ⟨hdi, hins⟩ := insertFrame_hash mem h f r
        simp only [Option.map_some]
        rw [hdi, hins]
        exact .toHash hs

theorem Keeps.insertHash {h : HashDataIn} (hh : h.Holds S C r)
    (hq : auto = true → h.switchImpl = false) (hf : f.df.Slice S) (mem : Memory) :
    (hash (h.insertDataFrame mem f.df r).1).Keeps auto S
      (HashDataIn.Taken C f.df (h.insertDataFrame mem f.df r).2) r ∧
    (auto = true → (h.insertDataFrame mem f.df r).1.switchImpl = false) := by
  obtain ⟨hh', hs⟩ := hh.insert mem hf.toCarries
  have hq' : auto = true → (h.insertDataFrame mem f.df r).1.switchImpl = false := fun ha =>
    hs.trans (hq ha)
  exact ⟨⟨hh', fun ha ht => absurd ht (by simp [hq' ha])⟩, hq'⟩

theorem Keeps.insertOrSwitch (h : di.Keeps auto S C r) (hq : auto = true → di.wantsSwitch = false)
    (hf : f.df.Slice S) (mem : Memory) :
    (di.insertOrSwitch mem f r).1.Keeps auto S
      (HashDataIn.Taken C f.df (di.insertOrSwitch mem f r).2.1) r ∧
    ((di.insertOrSwitch mem f r).2.1 ≠ .ok → auto = true →
      (di.insertOrSwitch mem f r).1.wantsSwitch = false) := by
  have hI := insertOrSwitch_inserts mem di f r
  generalize (di.insertOrSwitch mem f r).1 = di', (di.insertOrSwitch mem f r).2.1 = ins at hI ⊢
  cases hI with
  | error => exact ⟨trivial, fun _ _ => rfl⟩
  | nocopy =>
    refine ⟨NocopyDataIn.Holds.insert h hf, fun hne ha => ?_⟩
    rw [NocopyDataIn.insertFrame_same _ f r hne]
    exact hq ha
  | hash =>
    obtain ⟨hk, hw⟩ := Keeps.insertHash h.1 hq hf mem
    exact ⟨hk, fun _ => hw⟩
  | toHash hs =>
    obtain ⟨hh, hsw⟩ := NocopyDataIn.Holds.switch h hs
    obtain ⟨hk, hw⟩ := Keeps.insertHash hh (fun _ => hsw) hf mem
    exact ⟨hk, fun _ => hw⟩
  | noHash => exact ⟨trivial, fun _ _ => rfl⟩

theorem Keeps.read (h : di.Keeps auto S C r) (hq : auto = true → di.wantsSwitch = false)
    (hs : di.readFrame r len = some rd) :
    ReadsFrom S r rd.bytes ∧ rd.di.Keeps auto S C (r + rd.bytes.length) ∧
    (rd.done = false → auto = true → rd.di.wantsSwitch = false) := by
  cases di with
  | error => cases hs
  | nocopy n =>
    obtain ⟨n', hby⟩ := NocopyDataIn.Holds.readFrame_some h len hs
    rw [hby.di]
    exact ⟨hby.bytes, hby.holds, fun _ ha => hby.wants.trans (hq ha)⟩
  | hash h₁ =>
    obtain ⟨h', hby⟩ := h.1.readFrame_some hs
    rw [hby.di]
    refine ⟨hby.bytes, ⟨hby.holds, fun ha hw => ?_⟩, fun hd ha => ?_⟩
    · rcases hby.wants hw with hw' | ⟨-, hk⟩
      · exact absurd hw' (by simpa [wantsSwitch] using hq ha)
      · exact hk
    · by_contra hw
      have hw' : h'.switchImpl = true := by simpa [wantsSwitch] using hw
      rcases hby.wants hw' with hw'' | ⟨hd', -⟩
      · exact absurd hw'' (by simpa [wantsSwitch] using hq ha)
      · rw [hd] at hd'
        cases hd'

end

end DataIn

namespace Session

/-- The reader has the bytes of `S` up to its offset, and all frames that were taken in are held. -/
structure Reassembles (auto : Bool) (S : List UInt8) (s : Session) : Prop where
  keeps : s.di.Keeps auto S s.Covered s.readOffset
  quiet : auto = true → s.di.wantsSwitch = false
  out : s.out = S.take s.readOffset
  le : s.readOffset ≤ S.length

section
variable {auto : Bool} {s : Session} {f : StreamFrame}

theorem covered_cons {di : DataIn} {df : DataFrame} (x : Nat) :
    Covered { s with di, accepted := df :: s.accepted } x ↔ s.Covered x ∨ df.Has x := by
  simp only [Covered, List.mem_cons, exists_eq_or_imp, DataFrame.Has, or_comm]

theorem Reassembles.insert (h : s.Reassembles auto S) (hf : f.df.Slice S) (mem : Memory) :
    (s.insert auto mem f).Reassembles auto S := by
  obtain ⟨hk, hw⟩ := h.keeps.insertOrSwitch h.quiet hf mem
  rw [Session.insert]
  generalize s.di.insertOrSwitch mem f s.readOffset = res at hk hw
  obtain ⟨di, ins, ev⟩ := res
  have hadd : ins = .ok ∨ ins = .dup → di.Keeps auto S
      (Covered { s with di, accepted := f.df :: s.accepted }) s.readOffset := by
    intro hins
    apply hk.mono
    intro x hx hc
    rcases (covered_cons x).1 hc with hc | hc
    · exact .inl hc
    · exact .inr ⟨hins, hc⟩
  have hsame : di.Keeps auto S s.Covered s.readOffset := hk.mono fun x _ hc => .inl hc
  cases ins with
  | ok =>
    obtain ⟨hk', hq⟩ := (hadd (.inl rfl)).maybeSwitch mem
    exact ⟨hk', hq, h.out, h.le⟩
  | dup => exact ⟨hadd (.inr rfl), hw (by simp), h.out, h.le⟩
  | err => exact ⟨hsame, hw (by simp), h.out, h.le⟩
  | overlap => exact ⟨hsame, hw (by simp), h.out, h.le⟩

theorem Reassembles.read (h : s.Reassembles auto S) (mem : Memory) (len : Nat) :
    (s.read auto mem len).Reassembles auto S := by
  rw [Session.read]
  cases hs : s.di.readFrame s.readOffset len with
  | none => exact h
  | some rd =>
    obtain ⟨hb, hk, hw⟩ := h.keeps.read h.quiet hs
    obtain ⟨hout, hle⟩ := hb.take h.le
    simp only
    refine ⟨?_, ?_, by rw [h.out, hout], hle⟩
    · split
      · exact (hk.maybeSwitch mem).1
      · exact hk
    · split
      · exact (hk.maybeSwitch mem).2
      next hd => exact hw (by simpa using hd)

theorem Reassembles.run (h : SessionRun auto M P s)
    (hP : ∀ mem s f, P mem s f → f.df.Slice S) : s.Reassembles auto S := by
  induction h with
  | nocopy =>
    refine ⟨DataIn.keeps_empty ?_, fun _ => rfl, by simp, Nat.zero_le _⟩
    rintro x - ⟨df, hdf, -⟩
    cases hdf
  | hash hn =>
    rename_i mem h
    obtain ⟨hwf, hempty, hnb, -⟩ := HashDataIn.new_wellFormed hn
    have hsw := HashDataIn.new_switchImpl hn
    refine ⟨⟨⟨hwf, fun x c hx => ?_, ?_⟩, fun _ _ => hnb⟩, fun _ => hsw, by simp, Nat.zero_le _⟩
    · rw [hempty] at hx
      cases hx
    · rintro x - ⟨df, hdf, -⟩
      cases hdf
  | insert hs hm hf ih => exact ih.insert (hP _ _ _ hf) _
  | read hs hm len ih => exact ih.read _ len

def readRounds (auto : Bool) (mem : Memory) (len : Nat) : Nat → Session → Session
  | 0, s => s
  | k + 1, s => readRounds auto mem len k (s.read auto mem len)

theorem covered_read (s : Session) (mem : Memory) (len : Nat) (x : Nat) :
    (s.read auto mem len).Covered x ↔ s.Covered x := by
  rw [Session.read]
  cases s.di.readFrame s.readOffset len <;> exact Iff.rfl

def toDo (S : List UInt8) (s : Session) : Nat :=
  S.length - s.readOffset + match s.di with
    | .nocopy n => n.frames.length
    | _ => 0

/-- While the next byte is there, reading gets on. -/
theorem Reassembles.progress (h : s.Reassembles auto S) (hdi : s.di ≠ .error)
    (hc : s.Covered s.readOffset) (mem : Memory) (hlen : 0 < len) :
    ¬ (s.read auto mem len).Covered (s.read auto mem len).readOffset ∨
    (s.read auto mem len).di ≠ .error ∧
      (s.read auto mem len).toDo S < s.toDo S := by
  have hk := h.keeps
  have hle := (h.read mem len).le
  obtain ⟨di, r, out, acc⟩ := s
  cases di with
  | error => exact absurd rfl hdi
  | nocopy n =>
    obtain ⟨rd, n', hrd, hby, hgo⟩ := NocopyDataIn.Holds.read_of_has hk (hk.covered r le_rfl hc) len
    have hq : (auto && n'.switchImpl) = false := by
      cases ha : auto with
      | false => rfl
      | true => rw [hby.wants, Bool.true_and]; exact h.quiet ha
    have hsw : (if rd.done = true then (rd.di.maybeSwitch mem auto (r + rd.bytes.length)).1
        else rd.di) = .nocopy n' := by
      rw [hby.di]
      split
      · exact DataIn.maybeSwitch_quiet hq mem _
      · rfl
    refine .inr ?_
    simp only [Session.read, hrd] at hle ⊢
    rw [hsw]
    refine ⟨by simp, ?_⟩
    simp only [toDo]
    have hfl := hby.frames_le
    rcases hgo hlen with hb | hlt
    · have hpos := List.length_pos_iff.2 hb
      omega
    · omega
  | hash h₁ =>
    obtain ⟨rd, h', hrd, hby, hgo⟩ := hk.1.readData (hk.1.covered r le_rfl hc) len
    have hpos := List.length_pos_iff.2 (hgo hlen)
    by_cases hw : (rd.done && (auto && h'.switchImpl)) = true
    · -- the hash is empty, so that no byte is left
      refine .inl ?_
      rw [Bool.and_eq_true, Bool.and_eq_true] at hw
      obtain ⟨hd, ha, hw⟩ := hw
      have hnb : ∀ k, ¬ h'.HasBlock k := by
        rcases hby.wants hw with hw' | ⟨-, hnb⟩
        · have hq : h₁.switchImpl = false := h.quiet ha
          rw [hq] at hw'
          cases hw'
        · exact hnb
      rw [covered_read]
      simp only [Session.read, hrd]
      exact DataIn.not_covered_of_noBlock hby.holds hnb _ le_rfl
    · refine .inr ?_
      have hsw : (if rd.done = true then (rd.di.maybeSwitch mem auto (r + rd.bytes.length)).1
          else rd.di) = .hash h' := by
        rw [hby.di]
        split
        next hd => exact DataIn.maybeSwitch_quiet (by simpa [hd, DataIn.wantsSwitch] using hw) mem _
        · rfl
      simp only [Session.read, hrd] at hle ⊢
      rw [hsw]
      refine ⟨by simp, ?_⟩
      simp only [toDo]
      omega

theorem Reassembles.drain (h : s.Reassembles auto S) (hdi : s.di ≠ .error) (mem : Memory)
    (hlen : 0 < len) : ∃ k, ¬ (readRounds auto mem len k s).Covered
      (readRounds auto mem len k s).readOffset := by
  induction hm : s.toDo S using Nat.strongRecOn generalizing s with
  | ind m ih =>
    by_cases hc : s.Covered s.readOffset
    · rcases h.progress hdi hc mem hlen with hn | ⟨hdi', hlt⟩
      · exact ⟨1, hn⟩
      · obtain ⟨k, hk⟩ := ih _ (hm ▸ hlt) (h.read mem len) hdi' rfl
        exact ⟨k + 1, hk⟩
    · exact ⟨0, hc⟩

end

end Session

end QuicArt
