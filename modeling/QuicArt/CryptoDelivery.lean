import QuicArt.MiniCrypto

namespace QuicArt

/-- The frames follow one another from `r` to `r'`. -/
inductive FrameChain : Nat → List DataFrame → Nat → Prop
  | nil : FrameChain r [] r
  | cons {df : DataFrame} (h : df.offset = r) (rest : FrameChain df.endOff fs r') :
      FrameChain r (df :: fs) r'

namespace FrameChain

theorem le (h : FrameChain r fs r') : r ≤ r' := by
  induction h with
  | nil => exact le_rfl
  | cons ho _ ih => exact Nat.le_trans (ho ▸ Nat.le_add_right _ _) ih

theorem mem_le (h : FrameChain r fs r') (hm : df ∈ fs) : r ≤ df.offset ∧ df.endOff ≤ r' := by
  induction h with
  | nil => cases hm
  | cons ho hr ih =>
    rcases List.mem_cons.1 hm with rfl | hm
    · exact ⟨Nat.le_of_eq ho.symm, hr.le⟩
    · obtain ⟨hle, hend⟩ := ih hm
      exact ⟨Nat.le_trans (ho ▸ Nat.le_add_right _ _) hle, hend⟩

theorem covers (h : FrameChain r fs r') (hx : r ≤ x) (hx' : x < r') :
    ∃ df ∈ fs, df.offset ≤ x ∧ x < df.endOff := by
  induction h with
  | nil => exact absurd hx (Nat.not_le.2 hx')
  | @cons r fs r' df ho hr ih =>
    by_cases hend : x < df.endOff
    · exact ⟨df, .head _, ho ▸ hx, hend⟩
    · obtain ⟨g, hg, hgx⟩ := ih (Nat.not_lt.1 hend) hx'
      exact ⟨g, List.mem_cons_of_mem _ hg, hgx⟩

theorem last (h : FrameChain r fs r') : r' = r ∨ ∃ df ∈ fs, df.endOff = r' := by
  induction h with
  | nil => exact .inl rfl
  | @cons r fs r' df ho hr ih =>
    rcases ih with rfl | ⟨g, hg, he⟩
    · exact .inr ⟨df, .head _, rfl⟩
    · exact .inr ⟨g, List.mem_cons_of_mem _ hg, he⟩

end FrameChain

theorem MiniCrypto.length_unread (df : DataFrame) :
    (MiniCrypto.unread df).length = df.size - df.readOff := by
  simp [MiniCrypto.unread]

theorem DataFrame.Slice.unread_eq (h : DataFrame.Slice S df) :
    MiniCrypto.unread df = (S.drop df.offset).take df.size := by
  have hle : df.offset + df.size ≤ S.length := h.endOff_le
  apply List.ext_getElem?
  intro i
  by_cases hi : i < df.size
  · rw [List.getElem?_take_of_lt hi, List.getElem?_drop, h.data i hi, MiniCrypto.unread, h.readOff]
    simp [hi]
  · rw [List.getElem?_eq_none (by rw [MiniCrypto.length_unread]; omega),
      List.getElem?_eq_none (by simp; omega)]

theorem DataFrame.Slice.take_append (h : DataFrame.Slice S df) :
    S.take df.offset ++ MiniCrypto.unread df = S.take df.endOff := by
  rw [h.unread_eq, ← List.take_add]
  rfl

theorem FrameChain.take_append (h : FrameChain r fs r') (hs : ∀ df ∈ fs, df.Slice S) :
    S.take r ++ fs.flatMap MiniCrypto.unread = S.take r' := by
  induction h with
  | nil => simp
  | @cons r fs r' df ho hr ih =>
    rw [List.flatMap_cons, ← List.append_assoc, ← ho, (hs df (.head _)).take_append]
    exact ih fun g hg => hs g (.tail _ hg)

namespace MiniCrypto

structure SameBut (l : EncLevel) (c c' : MiniCrypto) : Prop where
  streams : ∀ i, i ≠ l → c'.streams i = c.streams i
  created : (c'.streams l).created = (c.streams l).created
  wantRead : (c'.streams l).wantRead = (c.streams l).wantRead
  received : c'.received = c.received
  packet : c'.packet = c.packet
  ignoreInit : c'.ignoreInit = c.ignoreInit

theorem SameBut.refl (l : EncLevel) (c : MiniCrypto) : SameBut l c c :=
  ⟨fun _ _ => rfl, rfl, rfl, rfl, rfl, rfl⟩

theorem SameBut.trans (h : SameBut l c c') (h' : SameBut l c' c'') : SameBut l c c'' :=
  ⟨fun i hi => (h'.streams i hi).trans (h.streams i hi), h'.created.trans h.created,
    h'.wantRead.trans h.wantRead, h'.received.trans h.received, h'.packet.trans h.packet,
    h'.ignoreInit.trans h.ignoreInit⟩

structure Took (l : EncLevel) (df : DataFrame) (c c' : MiniCrypto) :
    Prop extends SameBut l c c' where
  readOff : (c'.streams l).readOff = ((c.streams l).readOff + df.size) % 2 ^ 32
  given : (c'.streams l).given = (c.streams l).given ++ unread df

section
variable {c c' : MiniCrypto} {l : EncLevel} {df : DataFrame}

theorem readChloSize_eq (c : MiniCrypto) (n : Nat) (bs : List UInt8) :
    ∃ e k, c.readChloSize n bs = { c with error := e, chLen := k } := by
  fun_induction readChloSize c n bs with
  | case1 => exact ⟨_, _, rfl⟩
  | case2 => exact ⟨_, _, rfl⟩
  | case3 _ _ _ _ ih => exact ih
  | case4 => exact ⟨_, _, rfl⟩
  | case5 _ _ _ _ ih => exact ih
  | case6 _ _ _ ih => exact ih
  | case7 => exact ⟨_, _, rfl⟩

theorem give_took (c : MiniCrypto) (hr : df.readOff = 0) : Took l df c (c.give l (unread df)) where
  streams i hi := if_neg hi
  created := by simp [give, setStream]
  wantRead := by simp [give, setStream]
  received := rfl
  packet := rfl
  ignoreInit := rfl
  readOff := by simp [give, setStream, length_unread, hr]
  given := by simp [give, setStream]

theorem readFound_eq (c : MiniCrypto) (spot : CryptoSpot) (hr : df.readOff = 0) :
    ∃ e k, c.readFound l spot df (unread df)
      = ({ c with error := e, chLen := k }.give l (unread df)).removeFrame spot
          { df with readOff := df.size } := by
  have hlen : df.readOff + (unread df).length = df.size := by
    rw [length_unread, hr]
    omega
  unfold readFound
  rw [hlen, if_pos rfl]
  split
  · obtain ⟨e, k, he⟩ := c.readChloSize_eq (c.streams l).readOff (unread df)
    rw [he]
    exact ⟨e, k, rfl⟩
  · exact ⟨c.error, c.chLen, rfl⟩

theorem readFound_last (c : MiniCrypto) (hr : df.readOff = 0) :
    Took l df c (c.readFound l .last df (unread df)) ∧
      (c.readFound l .last df (unread df)).frames = c.frames ∧
      (c.readFound l .last df (unread df)).lastIn = none := by
  obtain ⟨e, k, he⟩ := c.readFound_eq (l := l) .last hr
  have htook := give_took (l := l) { c with error := e, chLen := k } hr
  rw [he]
  exact ⟨{ htook with received := rfl, packet := rfl, ignoreInit := rfl },
    rfl, rfl⟩

theorem readFound_stashed (c : MiniCrypto) (hr : df.readOff = 0) (hl : c.lastIn = none)
    (hi : c.frames[i]? = some (l, df)) :
    Took l df c (c.readFound l (.stashed i) df (unread df)) ∧
      c.frames.Perm ((l, df) :: (c.readFound l (.stashed i) df (unread df)).frames) ∧
      (c.readFound l (.stashed i) df (unread df)).lastIn = none := by
  obtain ⟨e, k, he⟩ := c.readFound_eq (l := l) (.stashed i) hr
  have htook := give_took (l := l) { c with error := e, chLen := k } hr
  rw [he]
  refine ⟨{ htook with received := rfl, packet := rfl, ignoreInit := rfl }, ?_, hl⟩
  obtain ⟨hlt, hget⟩ := List.getElem?_eq_some_iff.1 hi
  have hperm := List.getElem_cons_eraseIdx_perm hlt
  rw [hget] at hperm
  exact hperm.symm

theorem isAt_iff : isAt l off f = true ↔ f.1 = l ∧ off = f.2.offset + f.2.readOff := by
  simp [isAt]

theorem findStreamFrame_stash (hl : c.lastIn = none) :
    (∃ i df, c.findStreamFrame l off = some (.stashed i, df) ∧ c.frames[i]? = some (l, df) ∧
      off = df.offset + df.readOff) ∨
    (c.findStreamFrame l off = none ∧ ∀ df, (l, df) ∈ c.frames → off ≠ df.offset + df.readOff) := by
  unfold findStreamFrame
  rw [hl]
  cases hf : c.frames.findIdx? (isAt l off) with
  | none =>
    right
    refine ⟨rfl, fun df hdf hoff => ?_⟩
    have hno := List.findIdx?_eq_none_iff.1 hf (l, df) hdf
    have hat : isAt l off (l, df) = true := isAt_iff.2 ⟨rfl, hoff⟩
    rw [hat] at hno
    cases hno
  | some i =>
    left
    obtain ⟨hlt, hat, _⟩ := List.findIdx?_eq_some_iff_getElem.1 hf
    obtain ⟨h1, h2⟩ := isAt_iff.1 hat
    have hget : c.frames[i]? = some (l, c.frames[i].2) := by
      rw [List.getElem?_eq_getElem hlt, ← h1]
    refine ⟨i, c.frames[i].2, ?_, hget, h2⟩
    dsimp only [Option.filter]
    rw [hget]
    rfl

theorem findStreamFrame_last (hl : c.lastIn = some (l, df)) (ho : off = df.offset + df.readOff) :
    c.findStreamFrame l off = some (.last, df) := by
  have hat : isAt l off (l, df) = true := isAt_iff.2 ⟨rfl, ho⟩
  unfold findStreamFrame
  rw [hl, Option.filter_some, if_pos hat]

theorem readLoop_found (htls : ∀ n, tls n = n) (hr : df.readOff = 0)
    (hf : c.findStreamFrame l (c.streams l).readOff = some (spot, df)) :
    readLoop tls (fuel + 1) c l =
      ((readLoop tls fuel (c.readFound l spot df (unread df)) l).1,
        df.size + (readLoop tls fuel (c.readFound l spot df (unread df)) l).2) := by
  have hlen : (unread df).length = df.size := by
    rw [length_unread, hr, Nat.sub_zero]
  rw [readLoop, hf]
  dsimp only
  rw [htls, hr, Nat.sub_zero, List.take_of_length_le (Nat.le_of_eq hlen), hlen,
    if_neg (Nat.lt_irrefl _)]

structure Chased (l : EncLevel) (first read : List DataFrame) (c c' : MiniCrypto) : Prop
    extends SameBut l c c' where
  lastIn : c'.lastIn = none
  frames : c.frames.Perm (read.map (Prod.mk l) ++ c'.frames)
  chain : FrameChain (c.streams l).readOff (first ++ read) (c'.streams l).readOff
  given : (c'.streams l).given = (c.streams l).given ++ (first ++ read).flatMap unread
  stop : ∀ df, (l, df) ∈ c'.frames → (c'.streams l).readOff ≠ df.offset

theorem readLoop_chased (htls : ∀ n, tls n = n) (hl : c.lastIn = none)
    (hfuel : c.frames.length < fuel)
    (hf : ∀ df, (l, df) ∈ c.frames → df.readOff = 0 ∧ df.endOff < 2 ^ 32) :
    ∃ read, Chased l [] read c (readLoop tls fuel c l).1 := by
  induction fuel generalizing c with
  | zero => exact absurd hfuel (Nat.not_lt_zero _)
  | succ fuel ih =>
    rcases @findStreamFrame_stash _ l (c.streams l).readOff hl with
      ⟨i, df, hfind, hget, hoff⟩ | ⟨hfind, hstop⟩
    · have hmem : (l, df) ∈ c.frames := List.mem_of_getElem? hget
      obtain ⟨hr, hend⟩ := hf df hmem
      obtain ⟨htook, hperm, hl'⟩ := c.readFound_stashed hr hl hget
      rw [readLoop_found htls hr hfind]
      generalize c.readFound l (.stashed i) df (unread df) = c₁ at htook hperm hl'
      have hlen := hperm.length_eq
      rw [List.length_cons] at hlen
      obtain ⟨read, hread⟩ := ih hl' (by omega)
        fun g hg => hf g (hperm.mem_iff.2 (.tail _ hg))
      have hpos : (c₁.streams l).readOff = df.endOff := by
        rw [htook.readOff, hoff, hr, Nat.add_zero]
        exact Nat.mod_eq_of_lt hend
      refine ⟨df :: read, htook.toSameBut.trans hread.toSameBut, hread.lastIn, ?_, ?_, ?_,
        hread.stop⟩
      · exact hperm.trans (hread.frames.cons _)
      · refine .cons (by rw [hoff, hr, Nat.add_zero]) ?_
        rw [← hpos]
        exact hread.chain
      · rw [hread.given, htook.given, List.append_assoc, List.nil_append, List.nil_append,
          List.flatMap_cons]
    · rw [readLoop, hfind]
      refine ⟨[], .refl l c, hl, by simp, .nil, by simp, fun df hdf => ?_⟩
      have hne := hstop df hdf
      rwa [(hf df hdf).1, Nat.add_zero] at hne

section
variable {tls : Nat → Nat} (htls : ∀ n, tls n = n) (hl : c.lastIn = some (l, df))
  (hr : df.readOff = 0) (ho : (c.streams l).readOff = df.offset) (hend : df.endOff < 2 ^ 32)
  (hf : ∀ df, (l, df) ∈ c.frames → df.readOff = 0 ∧ df.endOff < 2 ^ 32)
include htls hl hr ho hend hf

theorem streamReadf_chased : ∃ read, Chased l [df] read c (c.streamReadf tls l).1 := by
  have hfind := @findStreamFrame_last _ _ _ (c.streams l).readOff hl
    (by rw [hr, ho, Nat.add_zero])
  obtain ⟨htook, hframes, hl'⟩ := c.readFound_last (l := l) hr
  unfold streamReadf
  rw [readLoop_found htls hr hfind, ← hframes]
  rw [← hframes] at hf
  generalize hc : c.readFound l .last df (unread df) = c₁ at *
  obtain ⟨read, hread⟩ := readLoop_chased htls hl' (Nat.lt_succ_self _) hf
  have hpos : (c₁.streams l).readOff = df.endOff := by
    rw [htook.readOff, ho]
    exact Nat.mod_eq_of_lt hend
  refine ⟨read, htook.toSameBut.trans hread.toSameBut, hread.lastIn, ?_, ?_, ?_, hread.stop⟩
  · rw [← hframes]
    exact hread.frames
  · refine .cons ho.symm ?_
    rw [← hpos]
    exact hread.chain
  · rw [hread.given, htook.given, List.append_assoc]
    rfl

theorem onRead_chased (hw : (c.streams l).wantRead = true) :
    ∃ read, Chased l [df] read c (c.onRead tls l) := by
  obtain ⟨read, h⟩ := streamReadf_chased htls hl hr ho hend hf
  refine ⟨read, ?_⟩
  unfold onRead
  split
  next c' heq =>
    rw [heq] at h
    exact { h with }
  next c' n heq =>
    rw [heq] at h
    have hset : c'.setStream l { c'.streams l with wantRead := true } = c' := by
      have hw' : (c'.streams l).wantRead = true := h.wantRead.trans hw
      have hfun : (fun i => if i = l then { c'.streams l with wantRead := true } else c'.streams i)
          = c'.streams := by
        funext i
        split
        next hi =>
          rw [hi, ← hw']
        · rfl
      unfold setStream
      rw [hfun]
    rw [hset]
    exact h

end

theorem dispatchStreamEvents_eq (h : ∀ i, (c.streams i).readable = decide (i = l))
    (hs : ∀ i, i ≠ l → (c.onRead tls l).streams i = c.streams i) :
    c.dispatchStreamEvents tls = c.onRead tls l := by
  have hafter : ∀ i, i ≠ l → ((c.onRead tls l).streams i).readable = false := by
    intro i hi
    rw [hs i hi, h i]
    exact decide_eq_false hi
  unfold dispatchStreamEvents EncLevel.all
  cases l <;> simp [h, hafter]

structure Level (S : List UInt8) (s : CryptoStream) (received waiting : List DataFrame) : Prop where
  given : s.given = S.take s.readOff
  le : s.readOff ≤ S.length
  slice : ∀ df ∈ waiting, df.Slice S ∧ df.endOff < 2 ^ 32 ∧ df ∈ received
  kept : ∀ df ∈ received, df.endOff ≤ s.readOff ∨ df ∈ waiting
  covered : ∀ x < s.readOff, ∃ df ∈ received, df.offset ≤ x ∧ x < df.endOff
  gap : ¬ ∃ df ∈ received, df.offset ≤ s.readOff ∧ s.readOff < df.endOff

section
variable {S : List UInt8} {s s' : CryptoStream} {received waiting waiting' took : List DataFrame}

section
variable (h : Level S s received waiting)
include h

theorem Level.congr (hr : s'.readOff = s.readOff)
    (hg : s'.given = s.given) (hw : ∀ df, df ∈ waiting' ↔ df ∈ waiting) :
    Level S s' received waiting' := by
  obtain ⟨h1, h2, h3, h4, h5, h6⟩ := h
  rw [← hr] at h1 h2 h4 h5 h6
  refine ⟨hg.trans h1, h2, fun df hdf => h3 df ((hw df).1 hdf), fun df hdf => ?_, h5, h6⟩
  rw [hw]
  exact h4 df hdf

theorem Level.add (ho : df.endOff ≤ s.readOff ∨ s.readOff < df.offset)
    (hsub : ∀ g ∈ waiting, g ∈ waiting')
    (hk : df.endOff ≤ s.readOff ∨ df ∈ waiting')
    (hsl : ∀ g ∈ waiting', g ∈ waiting ∨ g = df ∧ df.Slice S ∧ df.endOff < 2 ^ 32) :
    Level S s (df :: received) waiting' where
  given := h.given
  le := h.le
  slice g hg := by
    rcases hsl g hg with hg | ⟨rfl, hs, hend⟩
    · obtain ⟨h1, h2, h3⟩ := h.slice g hg
      exact ⟨h1, h2, .tail _ h3⟩
    · exact ⟨hs, hend, .head _⟩
  kept g hg := by
    rcases List.mem_cons.1 hg with rfl | hg
    · exact hk
    · exact (h.kept g hg).imp_right (hsub g)
  covered x hx := by
    obtain ⟨g, hg, hgx⟩ := h.covered x hx
    exact ⟨g, .tail _ hg, hgx⟩
  gap := by
    rintro ⟨g, hg, hle, hlt⟩
    rcases List.mem_cons.1 hg with rfl | hg
    · omega
    · exact h.gap ⟨g, hg, hle, hlt⟩

theorem Level.old (hold : df.endOff ≤ s.readOff) : Level S s (df :: received) waiting :=
  h.add (.inl hold) (fun _ => id) (.inl hold) fun _ => .inl

theorem Level.later (hlt : s.readOff < df.offset) (hs : df.Slice S) (hend : df.endOff < 2 ^ 32) :
    Level S s (df :: received) (waiting ++ [df]) := by
  apply h.add (.inr hlt) (fun _ => List.mem_append_left _) (.inr (by simp))
  intro g hg
  rw [List.mem_append, List.mem_singleton] at hg
  exact hg.imp_right fun he => ⟨he, hs, hend⟩

/-- Reading a frame also takes the stashed ones that follow it without a gap. -/
theorem Level.read (hs : df.Slice S)
    (hnew : s.readOff < df.endOff) (ha : Aligned (df :: waiting) s.readOff)
    (hperm : waiting.Perm (took ++ waiting'))
    (hchain : FrameChain s.readOff (df :: took) s'.readOff)
    (hgiven : s'.given = s.given ++ (df :: took).flatMap unread)
    (hstop : ∀ g ∈ waiting', s'.readOff ≠ g.offset) : Level S s' (df :: received) waiting' := by
  have hread : ∀ g ∈ df :: took, g = df ∨ g ∈ waiting := fun g hg =>
    (List.mem_cons.1 hg).imp_right fun hg => hperm.mem_iff.2 (List.mem_append_left _ hg)
  have hslice : ∀ g ∈ df :: took, g.Slice S := by
    intro g hg
    rcases hread g hg with rfl | hg
    · exact hs
    · exact (h.slice g hg).1
  have hend : df.endOff ≤ s'.readOff := (hchain.mem_le (.head _)).2
  have hoff : df.offset = s.readOff := by
    cases hchain with
    | cons ho _ => exact ho
  have hkept : ∀ g ∈ df :: received, g.endOff ≤ s'.readOff ∨ g ∈ waiting' := by
    intro g hg
    rcases List.mem_cons.1 hg with rfl | hg
    · exact .inl hend
    · rcases h.kept g hg with hle | hw
      · exact .inl (Nat.le_trans hle hchain.le)
      · rcases List.mem_append.1 (hperm.mem_iff.1 hw) with hr | hw
        · exact .inl (hchain.mem_le (.tail _ hr)).2
        · exact .inr hw
  -- The chain ends where some frame ends.
  obtain ⟨e, he, heq⟩ : ∃ e ∈ df :: took, e.endOff = s'.readOff := by
    rcases hchain.last with heq | h
    · omega
    · exact h
  refine ⟨?_, ?_, fun g hg => ?_, hkept, fun x hx => ?_, ?_⟩
  · rw [hgiven, h.given]
    exact hchain.take_append hslice
  · rw [← heq]
    exact (hslice e he).endOff_le
  · obtain ⟨h1, h2, h3⟩ := h.slice g (hperm.mem_iff.2 (List.mem_append_right _ hg))
    exact ⟨h1, h2, List.mem_cons_of_mem _ h3⟩
  · by_cases hx' : x < s.readOff
    · obtain ⟨g, hg, hgx⟩ := h.covered x hx'
      exact ⟨g, List.mem_cons_of_mem _ hg, hgx⟩
    · obtain ⟨g, hg, hgx⟩ := hchain.covers (Nat.not_lt.1 hx') hx
      rcases hread g hg with rfl | hg
      · exact ⟨g, .head _, hgx⟩
      · exact ⟨g, List.mem_cons_of_mem _ (h.slice g hg).2.2, hgx⟩
  · rintro ⟨g, hg, hle, hlt⟩
    have hgw : g ∈ waiting' := (hkept g hg).resolve_left (Nat.not_le.2 hlt)
    obtain ⟨k, hk, hko, hks⟩ := ha g
      (.tail _ (hperm.mem_iff.2 (List.mem_append_right _ hgw))) e
      (List.mem_cons.2 (hread e he))
      (by rw [heq]; exact Nat.lt_of_le_of_ne hle (hstop g hgw).symm) (by rwa [heq])
      (by rw [heq]; exact Nat.lt_of_lt_of_le hnew hend)
    rw [heq] at hko
    rcases List.mem_cons.1 hk with rfl | hk
    · omega
    · rcases List.mem_append.1 (hperm.mem_iff.1 hk) with hr | hw
      · have hke := (hchain.mem_le (.tail _ hr)).2
        unfold DataFrame.endOff at hke
        omega
      · exact hstop k hw hko.symm

end

end

theorem mem_stash : df ∈ c.stash l ↔ (l, df) ∈ c.frames := by
  unfold stash
  constructor
  · intro h
    obtain ⟨⟨i, g⟩, hg, rfl⟩ := List.mem_map.1 h
    obtain ⟨hg, hi⟩ := List.mem_filter.1 hg
    rwa [← LawfulBEq.eq_of_beq hi]
  · intro h
    exact List.mem_map.2 ⟨(l, df), List.mem_filter.2 ⟨h, BEq.rfl⟩, rfl⟩

theorem stash_perm {read : List DataFrame} (h : c.frames.Perm (read.map (Prod.mk l) ++ c'.frames)) :
    (c.stash l).Perm (read ++ c'.stash l) := by
  have hperm := (h.filter (·.1 == l)).map (·.2)
  have hread : ((read.map (Prod.mk l)).filter (·.1 == l)).map (·.2) = read := by
    rw [List.filter_eq_self.2 (fun f hf => by obtain ⟨g, _, rfl⟩ := List.mem_map.1 hf; exact BEq.rfl),
      List.map_map]
    exact List.map_id read
  rwa [List.filter_append, List.map_append, hread] at hperm

def Orderly (S : EncLevel → List UInt8) (c : MiniCrypto) : Prop :=
  ∀ l, Level (S l) (c.streams l) (c.received l) (c.stash l)

structure Flags (c : MiniCrypto) : Prop where
  lastIn : c.lastIn = none
  others : ∀ l, l ≠ .clear → l ≠ .init → (c.streams l).created = false
  init : c.ignoreInit = false → (c.streams .init).created = false
  clearWants : c.ignoreInit = false → (c.streams .clear).created = true →
    (c.streams .clear).wantRead = true
  initWants : (c.streams .init).created = true → (c.streams .init).wantRead = true
  packet : ∀ l, c.packet = some l →
    l = .clear ∧ c.ignoreInit = false ∨ l = .init ∧ c.ignoreInit = true

theorem createStream_ne (c : MiniCrypto) (hi : i ≠ l) :
    (c.createStream l).streams i = c.streams i := by
  unfold createStream
  split
  · rfl
  · exact if_neg hi

theorem createStream_self (c : MiniCrypto) :
    (c.createStream l).streams l = if (c.streams l).created then c.streams l
      else { c.streams l with created := true, wantRead := true } := by
  unfold createStream
  split
  · rfl
  · exact if_pos rfl

theorem ready_lower (c : MiniCrypto) (hi : i.ctorIdx < l.ctorIdx) :
    (c.ready l df).streams i = { c.streams i with wantRead := false } := by
  have hne : i ≠ l := fun h => Nat.lt_irrefl _ (h ▸ hi)
  unfold ready quietLower
  dsimp only
  rw [if_pos hi, c.createStream_ne hne]

theorem ready_other (c : MiniCrypto) (hi : ¬ i.ctorIdx < l.ctorIdx) :
    (c.ready l df).streams i = (c.createStream l).streams i := if_neg hi

theorem ready_stream (c : MiniCrypto) (i : EncLevel) :
    ((c.ready l df).streams i).readOff = (c.streams i).readOff ∧
      ((c.ready l df).streams i).given = (c.streams i).given := by
  by_cases hlow : i.ctorIdx < l.ctorIdx
  · rw [c.ready_lower hlow]
    exact ⟨rfl, rfl⟩
  · rw [c.ready_other hlow]
    by_cases hi : i = l
    · subst hi
      rw [createStream_self]
      split <;> exact ⟨rfl, rfl⟩
    · rw [c.createStream_ne hi]
      exact ⟨rfl, rfl⟩

theorem readable_eq_false (s : CryptoStream) (h : s.created = false ∨ s.wantRead = false) :
    s.readable = false := by
  rcases h with h | h <;> simp [CryptoStream.readable, h]

theorem Flags.readable (h : c.Flags) (hp : c.packet = some l) (i : EncLevel) :
    ((c.ready l df).streams i).readable = decide (i = l) := by
  by_cases hi : i = l
  · subst hi
    rw [c.ready_other (Nat.lt_irrefl _), createStream_self, decide_eq_true rfl]
    split
    next hc =>
      have hw : (c.streams i).wantRead = true := by
        rcases h.packet i hp with ⟨rfl, hig⟩ | ⟨rfl, _⟩
        · exact h.clearWants hig hc
        · exact h.initWants hc
      simp [CryptoStream.readable, hc, hw]
    · rfl
  · rw [decide_eq_false hi]
    rcases h.packet l hp with ⟨rfl, hig⟩ | ⟨rfl, _⟩
    · rw [c.ready_other (Nat.not_lt_zero _), c.createStream_ne hi]
      apply readable_eq_false
      left
      by_cases hinit : i = .init
      · rw [hinit]
        exact h.init hig
      · exact h.others i hi hinit
    · by_cases hclear : i = .clear
      · rw [hclear, c.ready_lower (by decide)]
        exact readable_eq_false _ (.inr rfl)
      · apply readable_eq_false
        left
        by_cases hlow : i.ctorIdx < EncLevel.init.ctorIdx
        · rw [c.ready_lower hlow]
          exact h.others i hclear hi
        · rw [c.ready_other hlow, c.createStream_ne hi]
          exact h.others i hclear hi

theorem ready_same (c : MiniCrypto) : (c.ready l df).frames = c.frames ∧
    (c.ready l df).received = c.received ∧ (c.ready l df).packet = c.packet ∧
    (c.ready l df).ignoreInit = c.ignoreInit := by
  unfold ready quietLower createStream
  split <;> exact ⟨rfl, rfl, rfl, rfl⟩

theorem Flags.wants (h : c.Flags) (hp : c.packet = some l) :
    ((c.ready l df).streams l).wantRead = true := by
  have hl := @Flags.readable _ _ df h hp l
  rw [decide_eq_true rfl, CryptoStream.readable, Bool.and_eq_true] at hl
  exact hl.2

theorem deliverFrame_chased (htls : ∀ n, tls n = n) (hflags : c.Flags) (hp : c.packet = some l)
    (hr : df.readOff = 0) (ho : (c.streams l).readOff = df.offset) (hend : df.endOff < 2 ^ 32)
    (hf : ∀ df, (l, df) ∈ c.frames → df.readOff = 0 ∧ df.endOff < 2 ^ 32) :
    ∃ took c', c.deliverFrame tls mem l df = some c' ∧ Chased l [df] took (c.ready l df) c' := by
  obtain ⟨took, hc⟩ := onRead_chased (c := c.ready l df) htls rfl hr
    ((c.ready_stream l).1.trans ho) hend (by rwa [c.ready_same.1]) (hflags.wants hp)
  refine ⟨took, _, ?_, hc⟩
  have hdisp := @dispatchStreamEvents_eq _ _ tls (hflags.readable hp) hc.streams
  unfold deliverFrame
  dsimp only
  rw [hdisp, hc.lastIn]

/-- Every level is in order with the frame at the level `l`, that `c` has not counted yet. -/
def OrderlyWith (S : EncLevel → List UInt8) (c : MiniCrypto) (l : EncLevel) (df : DataFrame)
    (c' : MiniCrypto) : Prop :=
  ∀ i, Level (S i) (c'.streams i) (if i = l then df :: c.received i else c.received i) (c'.stash i)

theorem Orderly.deliver (h : c.Orderly S) (hc : Chased l [df] took (c.ready l df) c')
    (hs : df.Slice (S l)) (hnew : (c.streams l).readOff < df.endOff)
    (ha : Aligned (df :: c.stash l) (c.streams l).readOff) : OrderlyWith S c l df c' := by
  intro i
  obtain ⟨hframes, -, -, -⟩ := @ready_same l df c
  obtain ⟨hro, hgiven⟩ := @ready_stream l df c i
  have hperm := hc.frames
  rw [hframes] at hperm
  split
  next hi =>
    subst hi
    have hchain := hc.chain
    have hg := hc.given
    rw [hro] at hchain
    rw [hgiven] at hg
    exact (h i).read hs hnew ha (stash_perm hperm) hchain hg fun g hg => hc.stop g (mem_stash.1 hg)
  next hi =>
    rw [hc.streams i hi]
    refine (h i).congr hro hgiven fun g => ?_
    rw [mem_stash, mem_stash, hperm.mem_iff, List.mem_append]
    constructor
    · exact .inr
    · rintro (hg | hg)
      · obtain ⟨k, _, hk⟩ := List.mem_map.1 hg
        exact absurd (congrArg Prod.fst hk).symm hi
      · exact hg

theorem Flags.deliver (h : c.Flags) (hp : c.packet = some l)
    (hc : Chased l [df] took (c.ready l df) c') : c'.Flags := by
  obtain ⟨-, -, hpacket, hig⟩ := @ready_same l df c
  have hcreated : ∀ i, i ≠ l → (c'.streams i).created = (c.streams i).created := by
    intro i hi
    rw [hc.streams i hi]
    by_cases hlow : i.ctorIdx < l.ctorIdx
    · rw [c.ready_lower hlow]
    · rw [c.ready_other hlow, c.createStream_ne hi]
  have hig' : c'.ignoreInit = c.ignoreInit := hc.ignoreInit.trans hig
  have hpk : c'.packet = c.packet := hc.packet.trans hpacket
  have hself : (c'.streams l).wantRead = true := hc.wantRead.trans (h.wants hp)
  refine ⟨hc.lastIn, fun i h1 h2 => ?_, fun hi => ?_, fun hi hcr => ?_, fun hcr => ?_, ?_⟩
  · have hne : i ≠ l := by
      rcases h.packet l hp with ⟨rfl, _⟩ | ⟨rfl, _⟩
      · exact h1
      · exact h2
    rw [hcreated i hne]
    exact h.others i h1 h2
  · rw [hig'] at hi
    have hne : EncLevel.init ≠ l := by
      rcases h.packet l hp with ⟨rfl, _⟩ | ⟨_, hi'⟩
      · decide
      · rw [hi] at hi'
        cases hi'
    rw [hcreated _ hne]
    exact h.init hi
  · rw [hig'] at hi
    rcases h.packet l hp with ⟨rfl, _⟩ | ⟨_, hi'⟩
    · exact hself
    · rw [hi] at hi'
      cases hi'
  · by_cases hne : EncLevel.init = l
    · rw [hne]
      exact hself
    · rcases h.packet l hp with ⟨rfl, hi⟩ | ⟨rfl, _⟩
      · rw [hcreated _ hne, h.init hi] at hcr
        cases hcr
      · exact absurd rfl hne
  · rw [hpk, hig']
    exact h.packet

theorem stashStreamFrame_eq (h : c.stashStreamFrame mem l df = some c') :
    ∃ n k, c' = { c with frames := c.frames ++ [(l, df)], nFrames := n, framesSz := k } := by
  unfold stashStreamFrame at h
  split at h
  · cases h
  · split at h
    · cases h
    · split at h
      · cases h
      · exact ⟨_, _, (Option.some.inj h).symm⟩

theorem Orderly.stashed (h : c.Orderly S) (he : c.stashStreamFrame mem l df = some c')
    (hlt : (c.streams l).readOff < df.offset) (hs : df.Slice (S l)) (hend : df.endOff < 2 ^ 32) :
    OrderlyWith S c l df c' := by
  intro i
  obtain ⟨n, k, rfl⟩ := stashStreamFrame_eq he
  have hmem : ∀ g,
      g ∈ stash { c with frames := c.frames ++ [(l, df)], nFrames := n, framesSz := k } i ↔
        g ∈ c.stash i ∨ i = l ∧ g = df := by
    intro g
    rw [mem_stash, mem_stash, List.mem_append, List.mem_singleton, Prod.mk.injEq]
  split
  next hi =>
    subst hi
    refine ((h i).later hlt hs hend).congr rfl rfl fun g => ?_
    rw [hmem, List.mem_append, List.mem_singleton]
    exact or_congr_right (and_iff_right rfl)
  next hi =>
    refine (h i).congr rfl rfl fun g => ?_
    rw [hmem]
    exact or_iff_left fun hg => hi hg.1

theorem processCryptoFrame_spec (htls : ∀ n, tls n = n) (hflags : c.Flags) (ho : c.Orderly S)
    (hp : c.packet = some l) (hs : df.Slice (S l)) (hfit : c.Fits l df)
    (h : c.processCryptoFrame tls mem inits l df = some c') :
    c'.Flags ∧ OrderlyWith S c l df c' := by
  obtain ⟨hend, hfit⟩ := hfit
  have hframes : ∀ g, (l, g) ∈ c.frames → g.readOff = 0 ∧ g.endOff < 2 ^ 32 := by
    intro g hg
    obtain ⟨hgs, hge, _⟩ := (ho l).slice g (mem_stash.2 hg)
    exact ⟨hgs.readOff, hge⟩
  unfold processCryptoFrame at h
  dsimp only at h
  split at h
  next hin =>
    obtain ⟨hge, ha⟩ := hfit.resolve_left (Nat.not_le.2 hin.2)
    have hoff : (c.streams l).readOff = df.offset := Nat.le_antisymm hge hin.1
    have hread : ∀ c₁ : MiniCrypto, c₁.Flags → c₁.Orderly S → c₁.packet = some l →
        c₁.streams = c.streams → c₁.frames = c.frames → c₁.received = c.received →
        c₁.deliverFrame tls mem l df = some c' → c'.Flags ∧ OrderlyWith S c l df c' := by
      intro c₁ hf₁ ho₁ hp₁ hst hfr hrc hd
      obtain ⟨took, c₂, heq, hc⟩ := @deliverFrame_chased _ _ _ _ mem htls hf₁ hp₁ hs.readOff
        (by rw [hst]; exact hoff) hend (by rw [hfr]; exact hframes)
      rw [hd, Option.some.injEq] at heq
      subst heq
      have hstash : c₁.stash l = c.stash l := by rw [stash, stash, hfr]
      refine ⟨hf₁.deliver hp₁ hc, ?_⟩
      rw [OrderlyWith, ← hrc]
      exact ho₁.deliver hc hs (by rw [hst]; exact hin.2) (by rw [hst, hstash]; exact ha)
    by_cases hinit : c.encSessInited = true
    · rw [if_pos hinit] at h
      exact hread c hflags ho hp rfl rfl rfl h
    · rw [if_neg hinit] at h
      split at h
      · refine hread { c with encSessInited := true } ?_ ho hp rfl rfl rfl h
        exact { hflags with }
      · cases h
  next hout =>
    split at h
    next hlt =>
      refine ⟨?_, ho.stashed h hlt hs hend⟩
      obtain ⟨n, k, rfl⟩ := stashStreamFrame_eq h
      exact { hflags with }
    next hle =>
      cases h
      refine ⟨hflags, fun i => ?_⟩
      split
      next hi =>
        subst hi
        apply (ho i).old
        by_contra hnew
        exact hout ⟨Nat.not_lt.1 hle, Nat.not_le.1 hnew⟩
      · exact ho i

theorem Flags.packetIn (h : c.Flags) (l : EncLevel) : (c.packetIn l).Flags := by
  cases l with
  | clear =>
    refine { h with packet := fun l hl => ?_ }
    change (if c.error || c.ignoreInit then none else some EncLevel.clear) = some l at hl
    split at hl
    · cases hl
    next hno =>
      rw [Bool.or_eq_true, not_or, Bool.not_eq_true, Bool.not_eq_true] at hno
      exact .inl ⟨(Option.some.inj hl).symm, hno.2⟩
  | init =>
    rw [MiniCrypto.packetIn]
    split
    · exact { h with packet := fun l hl => by cases hl }
    · refine ⟨h.lastIn, h.others, fun hi => ?_, fun hi => ?_, h.initWants,
        fun l hl => .inr ⟨(Option.some.inj hl).symm, rfl⟩⟩
      · cases hi
      · cases hi
  | early => exact { h with packet := fun l hl => by cases hl }
  | forw => exact { h with packet := fun l hl => by cases hl }

theorem Orderly.packetIn (h : c.Orderly S) (l : EncLevel) : (c.packetIn l).Orderly S := by
  cases l with
  | init =>
    rw [MiniCrypto.packetIn]
    split <;> exact h
  | clear => exact h
  | early => exact h
  | forw => exact h

theorem frameIn_orderly (htls : ∀ n, tls n = n) (hflags : c.Flags) (ho : c.Orderly S)
    (hp : c.SliceFits S (.frame mem inits df)) :
    (c.frameIn tls mem inits df).Flags ∧ (c.frameIn tls mem inits df).Orderly S := by
  unfold frameIn
  split
  · exact ⟨hflags, ho⟩
  next l hl =>
    obtain ⟨hs, hfit⟩ := hp l hl
    split
    next c' heq =>
      obtain ⟨hf', hlev⟩ := processCryptoFrame_spec htls hflags ho hl hs hfit heq
      exact ⟨{ hf' with }, hlev⟩
    · exact ⟨{ hflags with packet := fun l hl => by cases hl }, ho⟩

theorem Level.passed_on (h : Level (S l) (c.streams l) (c.received l) waiting) :
    c.Delivered S l := by
  have hlen : (c.streams l).given.length = (c.streams l).readOff := by
    rw [h.given, List.length_take_of_le h.le]
  unfold Delivered
  dsimp only
  rw [hlen]
  exact ⟨h.given, h.covered, h.gap⟩

end

end MiniCrypto

open MiniCrypto

theorem CryptoRun.orderly (htls : ∀ n, tls n = n) (h : CryptoRun tls (SliceFits S) c) :
    c.Flags ∧ c.Orderly S := by
  induction h with
  | new =>
    refine ⟨⟨rfl, fun _ _ _ => rfl, fun _ => rfl, fun _ h => ?_, fun h => ?_, fun _ h => ?_⟩,
      fun l => ⟨rfl, Nat.zero_le _, ?_, ?_, ?_, ?_⟩⟩
    · cases h
    · cases h
    · cases h
    · intro df hdf
      cases hdf
    · intro df hdf
      cases hdf
    · intro x hx
      cases hx
    · rintro ⟨df, hdf, _⟩
      cases hdf
  | @step c op _ hp ih =>
    cases op with
    | packetIn l => exact ⟨ih.1.packetIn l, ih.2.packetIn l⟩
    | frame mem inits df => exact frameIn_orderly htls ih.1 ih.2 hp

/-- TLS is given the longest part of the stream that was received without a gap, each byte once. -/
theorem CryptoRun.delivered (htls : ∀ n, tls n = n) (h : CryptoRun tls (SliceFits S) c)
    (l : EncLevel) : c.Delivered S l :=
  ((h.orderly htls).2 l).passed_on

def sliceAt (S : List UInt8) (offset size : Nat) : DataFrame :=
  { data := fun i => S.getD (offset + i) 0, offset, size }

theorem sliceAt_slice (h : offset + size ≤ S.length) : (sliceAt S offset size).Slice S := by
  refine ⟨⟨h, fun i hi => ?_⟩, rfl⟩
  have hlt : offset + i < S.length := Nat.lt_of_lt_of_le (Nat.add_lt_add_left hi _) h
  change S[offset + i]? = some (S.getD (offset + i) 0)
  rw [List.getD_eq_getElem?_getD, List.getElem?_eq_getElem hlt]
  rfl

def chlo : EncLevel → List UInt8
  | .clear => [1, 0, 0, 5]
  | _ => []

def MiniCrypto.reordered : MiniCrypto :=
  ((({} : MiniCrypto).step id (.packetIn .clear)).step id
    (.frame true true (sliceAt (chlo .clear) 2 2))).step id
    (.frame true true (sliceAt (chlo .clear) 0 2))

theorem MiniCrypto.reordered_run : CryptoRun id (SliceFits chlo) reordered := by
  refine .step (.step (.step .new trivial) ?_) ?_
  · intro l hl
    obtain rfl : EncLevel.clear = l := Option.some.inj hl
    refine ⟨sliceAt_slice (by decide), by decide, .inr ⟨by decide, ?_⟩⟩
    unfold Aligned
    decide +kernel
  · intro l hl
    obtain rfl : EncLevel.clear = l := Option.some.inj hl
    refine ⟨sliceAt_slice (by decide), by decide, .inr ⟨by decide, ?_⟩⟩
    unfold Aligned
    decide +kernel

theorem CryptoRun.delivered_reordered :
    (MiniCrypto.reordered.streams .clear).given = [1, 0, 0, 5] ∧
      MiniCrypto.reordered.Delivered chlo .clear :=
  ⟨by decide +kernel, CryptoRun.delivered (fun _ => rfl) MiniCrypto.reordered_run .clear⟩

def MiniCrypto.resized : MiniCrypto :=
  ((({} : MiniCrypto).step id (.packetIn .clear)).step id
    (.frame true true (sliceAt (chlo .clear) 0 2))).step id
    (.frame true true (sliceAt (chlo .clear) 0 4))

/-- A frame that repeats bytes and goes on is not read. -/
theorem CryptoRun.overlap_not_delivered :
    CryptoRun id (fun c op => ∀ mem inits df l, op = .frame mem inits df → c.packet = some l →
      df.Slice (chlo l)) MiniCrypto.resized ∧
      (MiniCrypto.resized.streams .clear).given = [1, 0] ∧ MiniCrypto.resized.error = true ∧
      (∀ x < 4, MiniCrypto.resized.Covered .clear x) ∧
      ¬ MiniCrypto.resized.Delivered chlo .clear := by
  have hcov : ∀ x < 4, MiniCrypto.resized.Covered .clear x := by
    intro x hx
    exact ⟨sliceAt (chlo .clear) 0 4, .head _, Nat.zero_le _, hx⟩
  have hgiven : (MiniCrypto.resized.streams .clear).given = [1, 0] := by decide +kernel
  refine ⟨.step (.step (.step .new ?_) ?_) ?_, hgiven, by decide +kernel, hcov, fun h => ?_⟩
  · intro mem inits df l heq
    cases heq
  · intro mem inits df l heq hl
    cases heq
    obtain rfl : EncLevel.clear = l := Option.some.inj hl
    exact sliceAt_slice (by decide)
  · intro mem inits df l heq hl
    cases heq
    obtain rfl : EncLevel.clear = l := Option.some.inj hl
    exact sliceAt_slice (by decide)
  · have hno := h.2.2
    rw [hgiven] at hno
    exact hno (hcov 2 (by decide))

end QuicArt
