import QuicArt.RecvSpec

namespace QuicArt

def FrameEvent.object : FrameEvent → Nat
  | access id => id
  | putPacket id => id
  | putFrame id => id

def about (id : Nat) (log : List FrameEvent) : List FrameEvent := log.filter (·.object == id)

/-- An object is looked at, and then, unless it is still held, released once and not seen again. -/
def Story (id : Nat) (log : List FrameEvent) (held : Prop) : Prop :=
  ∃ k, (held → about id log = List.replicate k (.access id)) ∧
    (¬ held → about id log = List.replicate k (.access id) ++ [.putPacket id, .putFrame id])

/-- The events lead from the objects that are held at first to those that are held at last. -/
structure Settles (held : List Nat) (log : List FrameEvent) (held' : List Nat) : Prop where
  sub : ∀ id ∈ held', id ∈ held
  nodup : held'.Nodup
  story : ∀ id ∈ held, Story id log (id ∈ held')
  silent : ∀ id, id ∉ held → about id log = []

section
variable {id : Nat} {held held' held'' : List Nat} {log log' : List FrameEvent} {f : StreamFrame}

theorem about_append (id : Nat) (log log' : List FrameEvent) :
    about id (log ++ log') = about id log ++ about id log' :=
  List.filter_append ..

theorem Story.append {p q : Prop} (h : Story id log p) (h' : p → Story id log' q)
    (hn : ¬ p → ¬ q ∧ about id log' = []) : Story id (log ++ log') q := by
  obtain ⟨k, hheld, hgone⟩ := h
  by_cases hp : p
  · obtain ⟨k', hheld', hgone'⟩ := h' hp
    refine ⟨k + k', fun hq => ?_, fun hq => ?_⟩
    · rw [about_append, hheld hp, hheld' hq, List.replicate_append_replicate]
    · rw [about_append, hheld hp, hgone' hq, ← List.append_assoc, List.replicate_append_replicate]
  · obtain ⟨hq, hnil⟩ := hn hp
    refine ⟨k, fun hq' => absurd hq' hq, fun _ => ?_⟩
    rw [about_append, hgone hp, hnil, List.append_nil]

theorem Settles.refl (hn : held.Nodup) : Settles held [] held :=
  ⟨fun _ h => h, hn, fun _ h => ⟨0, fun _ => rfl, fun hh => absurd h hh⟩, fun _ _ => rfl⟩

theorem Settles.trans (h : Settles held log held') (h' : Settles held' log' held'') :
    Settles held (log ++ log') held'' := by
  refine ⟨fun id hid => h.sub id (h'.sub id hid), h'.nodup, fun id hid => ?_, fun id hid => ?_⟩
  · refine (h.story id hid).append (fun hid' => h'.story id hid') fun hid' => ?_
    exact ⟨fun hid'' => hid' (h'.sub id hid''), h'.silent id hid'⟩
  · rw [about_append, h.silent id hid, h'.silent id fun hid' => hid (h.sub id hid')]
    rfl

theorem Settles.access (hn : held.Nodup) (hid : id ∈ held) : Settles held [.access id] held := by
  refine ⟨fun _ h => h, hn, fun j hj => ?_, fun j hj => ?_⟩
  · by_cases he : id = j
    · subst he
      exact ⟨1, fun _ => by simp [about, FrameEvent.object], fun hh => absurd hid hh⟩
    · exact ⟨0, fun _ => by simp [about, FrameEvent.object, he], fun hh => absurd hj hh⟩
  · have he : id ≠ j := fun he => hj (he ▸ hid)
    simp [about, FrameEvent.object, he]

theorem about_release (id : Nat) (f : StreamFrame) :
    about id f.release = if f.id = id then f.release else [] := by
  by_cases he : f.id = id <;> simp [about, StreamFrame.release, FrameEvent.object, he]

theorem Settles.release (hn : (f.id :: held).Nodup) : Settles (f.id :: held) f.release held := by
  rw [List.nodup_cons] at hn
  refine ⟨fun id hid => .tail _ hid, hn.2, fun id hid => ?_, fun id hid => ?_⟩
  · rw [Story, about_release]
    by_cases he : f.id = id
    · subst he
      exact ⟨0, fun hh => absurd hh hn.1, fun _ => by rw [if_pos rfl]; rfl⟩
    · have hin : id ∈ held := (List.mem_cons.1 hid).resolve_left (Ne.symm he)
      exact ⟨0, fun _ => if_neg he, fun hh => absurd hin hh⟩
  · rw [about_release, if_neg]
    rintro rfl
    exact hid (.head _)

theorem Settles.releaseAll {fs : List StreamFrame} (hn : (fs.map StreamFrame.id).Nodup) :
    Settles (fs.map StreamFrame.id) (fs.flatMap StreamFrame.release) [] := by
  induction fs with
  | nil => exact Settles.refl hn
  | cons f fs ih =>
    rw [List.flatMap_cons]
    exact (Settles.release hn).trans (ih (List.nodup_cons.1 hn).2)

theorem Settles.congr (h : Settles held log held') (hn : held''.Nodup)
    (he : ∀ id, id ∈ held'' ↔ id ∈ held') : Settles held log held'' := by
  refine ⟨fun id hid => h.sub id ((he id).1 hid), hn, fun id hid => ?_, h.silent⟩
  have hs := h.story id hid
  rwa [← propext (he id)] at hs

end

namespace DataIn

def held : DataIn → List Nat
  | nocopy n => n.frames.map StreamFrame.id
  | hash _ => []
  | error => []

section
variable {di : DataIn} {f : StreamFrame} {r : Nat} {mem : Memory}

theorem feed_events (mem : Memory) (r : Nat) (fs : List StreamFrame) (h : HashDataIn) :
    (h.feed mem r fs).2 = fs.flatMap StreamFrame.release := by
  induction fs generalizing h with
  | nil => rfl
  | cons f fs ih =>
    rw [HashDataIn.feed, List.flatMap_cons]
    generalize h.insertDataFrame mem f.df r = res
    obtain ⟨h', ins⟩ := res
    cases ins with
    | err => rfl
    | ok => exact congrArg (f.release ++ ·) (ih h')
    | dup => exact congrArg (f.release ++ ·) (ih h')
    | overlap => exact congrArg (f.release ++ ·) (ih h')

theorem destroy_settles (hn : di.held.Nodup) : Settles di.held di.destroy [] := by
  cases di with
  | nocopy n => exact Settles.releaseAll hn
  | hash h => exact Settles.refl hn
  | error => exact Settles.refl hn

theorem switchImpl_settles (hn : di.held.Nodup) (mem : Memory) (r : Nat) :
    Settles di.held (di.switchImpl mem r).2 [] ∧
    ∀ di', (di.switchImpl mem r).1 = some di' → di'.held = [] := by
  cases di with
  | nocopy n =>
    have hev : (n.switchToHash mem r).2 = n.frames.flatMap StreamFrame.release := by
      rw [NocopyDataIn.switchToHash]
      split
      · rfl
      · exact feed_events mem r n.frames _
    refine ⟨?_, fun di' hs => ?_⟩
    · simp only [switchImpl, hev]
      exact Settles.releaseAll hn
    · simp only [switchImpl, Option.map_eq_some_iff] at hs
      obtain ⟨h', -, rfl⟩ := hs
      rfl
  | hash h =>
    refine ⟨Settles.refl hn, fun di' hs => ?_⟩
    simp only [switchImpl] at hs
    split at hs
    · cases hs
      rfl
    · cases hs
  | error =>
    refine ⟨Settles.refl hn, fun di' hs => ?_⟩
    obtain rfl : error = di' := Option.some.inj hs
    rfl

theorem maybeSwitch_settles (hn : di.held.Nodup) (mem : Memory) (auto : Bool) (r : Nat) :
    Settles di.held (di.maybeSwitch mem auto r).2.2 (di.maybeSwitch mem auto r).1.held := by
  rw [maybeSwitch]
  split
  · obtain ⟨hset, hnone⟩ := switchImpl_settles hn mem r
    generalize di.switchImpl mem r = res at hset hnone
    obtain ⟨o, ev⟩ := res
    cases o with
    | none => exact hset
    | some di' =>
      rw [hnone di' rfl]
      exact hset
  · exact Settles.refl hn

theorem readFrame_settles (hn : di.held.Nodup) (hr : di.readFrame r len = some rd) :
    Settles di.held (di.given r ++ rd.events) rd.di.held := by
  cases di with
  | error => cases hr
  | hash h =>
    rw [readFrame, getFrame] at hr
    generalize h.getFrame r = res at hr
    obtain ⟨h', df?⟩ := res
    cases df? with
    | none => cases hr
    | some df =>
      simp only at hr
      split at hr
      · cases hr
        exact Settles.refl hn
      · cases hr
        exact Settles.refl hn
  | nocopy n =>
    rw [readFrame, getFrame] at hr
    cases hg : n.getFrame r with
    | none =>
      rw [hg] at hr
      cases hr
    | some df =>
      rw [hg] at hr
      cases hf : n.frames with
      | nil =>
        rw [NocopyDataIn.getFrame, hf] at hg
        cases hg
      | cons f fs =>
        have hheld : (nocopy n).held = f.id :: fs.map StreamFrame.id := by
          rw [held, hf, List.map_cons]
        have hgiven : (nocopy n).given r = [.access f.id] := by
          simp [given, hg, hf]
        rw [hheld] at hn
        rw [hheld, hgiven]
        have hset : ∀ k,
            (n.setReadOff k).frames = { f with df := { f.df with readOff := k } } :: fs :=
          fun k => by rw [NocopyDataIn.setReadOff, hf]
        have hacc := Settles.access hn (.head _)
        simp only at hr
        split at hr
        · cases hr
          apply hacc.trans
          simp only [setReadOff, frameDone, NocopyDataIn.frameDone, hset]
          exact Settles.release (f := { f with df := { f.df with readOff := _ } }) hn
        · cases hr
          rw [List.append_nil]
          simp only [setReadOff, held, hset, List.map_cons]
          exact hacc

end

end DataIn

namespace NocopyDataIn

/-- It begins before the read offset, shares bytes with another frame, or brings FIN to one. -/
def Crosses (n : NocopyDataIn) (f : StreamFrame) (r : Nat) : Prop :=
  r ≤ f.df.endOff ∧ (r = f.df.endOff → f.df.fin = true ∧ n.finSet = false) ∧
  (f.df.offset < r ∨ ∃ g ∈ n.frames,
    if g.df.offset = f.df.offset ∧ g.df.size = f.df.size then g.df.fin = false ∧ f.df.fin = true
    else f.df.Has g.df.offset ∨ g.df.Has f.df.offset)

section
variable {n : NocopyDataIn} {f : StreamFrame} {r : Nat}

theorem seekBack_after (offset : Nat) (before after : List StreamFrame) (count : Nat)
    (ha : ∀ p, after.head? = some p → offset < p.df.offset) :
    ∀ p, (seekBack offset before after count).2.1.head? = some p → offset < p.df.offset := by
  induction before generalizing after count with
  | nil => exact ha
  | cons f before ih =>
    rw [seekBack]
    split
    next hlt =>
      apply ih
      intro p hp
      rw [List.head?_cons, Option.some.injEq] at hp
      subst hp
      exact hlt
    · exact ha

theorem checkOffsets_none (hc : n.checkOffsets f.df r = none) :
    r ≤ f.df.endOff ∧ (r = f.df.endOff → f.df.fin = true ∧ n.finSet = false) := by
  rw [checkOffsets] at hc
  split at hc
  · cases hc
  next hge =>
    refine ⟨Nat.le_of_not_lt hge, fun he => ?_⟩
    split at hc
    · split at hc
      · cases hc
      · split at hc
        · cases hc
        · cases hc
    next hs =>
      split at hc
      · cases hc
      next hf => exact ⟨by simpa [he] using hf, by simpa using hs⟩

theorem checkNext_overlap {new next : DataFrame} (h : checkNext new next r = .overlap) :
    next.offset < new.endOff ∨ new.offset < r := by
  rw [checkNext] at h
  split at h
  next hlt => exact .inl hlt
  · split at h
    next hlt => exact .inr hlt
    · cases h

theorem checkNeighbors_overlap {new : DataFrame} {prev next : Option StreamFrame}
    (h : n.checkNeighbors new r prev next = .overlap)
    (hp : ∀ p, prev = some p → p.df.offset ≤ new.offset)
    (hx : ∀ x, next = some x → new.offset < x.df.offset) :
    new.offset < r ∨ ∃ g, (prev = some g ∨ next = some g) ∧
      if g.df.offset = new.offset ∧ g.df.size = new.size then g.df.fin = false ∧ new.fin = true
      else new.Has g.df.offset ∨ g.df.Has new.offset := by
  have hnext : ∀ x, next = some x → checkNext new x.df r = .overlap →
      new.offset < r ∨ ∃ g, (prev = some g ∨ next = some g) ∧
        if g.df.offset = new.offset ∧ g.df.size = new.size then g.df.fin = false ∧ new.fin = true
        else new.Has g.df.offset ∨ g.df.Has new.offset := by
    intro x hx' hc
    have hlt := hx x hx'
    rcases checkNext_overlap hc with hend | hr
    · refine .inr ⟨x, .inr hx', ?_⟩
      rw [if_neg (by omega)]
      exact .inl ⟨by omega, hend⟩
    · exact .inl hr
  cases prev with
  | none =>
    cases next with
    | some x => exact hnext x rfl h
    | none =>
      simp only [checkNeighbors] at h
      split at h
      next hend =>
        split at h
        next hsize =>
          rw [DataFrame.endOff] at hend
          exact .inl (by omega)
        · split at h <;> cases h
      · split at h
        next hlt => exact .inl hlt
        · cases h
  | some p =>
    simp only [checkNeighbors] at h
    split at h
    next hsame =>
      split at h
      next hfin =>
        refine .inr ⟨p, .inl rfl, ?_⟩
        rw [if_pos hsame]
        simpa using hfin
      · cases h
    next hsame =>
      split at h
      next hlt =>
        refine .inr ⟨p, .inl rfl, ?_⟩
        rw [if_neg hsame]
        exact .inr ⟨hp p rfl, hlt⟩
      · cases next with
        | none => cases h
        | some x => exact hnext x rfl h

theorem tryInsert_ne_overlap (hc : ¬ n.Crosses f r) : (n.tryInsert f r).2.1 ≠ .overlap := by
  intro h
  rw [tryInsert] at h
  cases ho : n.checkOffsets f.df r with
  | some ins =>
    rw [ho] at h
    rw [checkOffsets] at ho
    subst h
    split at ho
    · split at ho <;> cases ho
    · split at ho
      · split at ho
        · cases ho
        · split at ho
          · cases ho
          · split at ho <;> cases ho
      · split at ho <;> cases ho
  | none =>
    rw [ho] at h
    obtain ⟨hle, hend⟩ := checkOffsets_none ho
    obtain ⟨pre, post, hpre, hpost, hsplit, hhead⟩ :=
      seekBack_spec f.df.offset n.frames.reverse [] 0
    have hafter := seekBack_after f.df.offset n.frames.reverse [] 0
      (fun p hp => absurd hp (by simp))
    rw [hpost] at hafter
    generalize seekBack f.df.offset n.frames.reverse [] 0 = res at h hpre hpost
    obtain ⟨before, after, count⟩ := res
    obtain rfl : before = pre := hpre
    obtain rfl : after = post := hpost
    simp only at h
    have hover : n.checkNeighbors f.df r before.head? after.head? = .overlap := by
      generalize n.checkNeighbors f.df r before.head? after.head? = ins at h
      cases ins with
      | ok => cases h
      | err => exact h
      | dup => exact h
      | overlap => rfl
    rw [List.reverse_reverse, List.append_nil] at hsplit
    refine hc ⟨hle, hend, ?_⟩
    rcases checkNeighbors_overlap hover hhead hafter with hlt | ⟨g, hg, hcross⟩
    · exact .inl hlt
    · refine .inr ⟨g, ?_, hcross⟩
      rw [← hsplit, List.mem_append, List.mem_reverse]
      rcases hg with hg | hg
      · exact .inl (List.mem_of_head? hg)
      · exact .inr (List.mem_of_head? hg)

end

end NocopyDataIn

namespace DataIn

/-- A frame that a hash takes in: one that is there already, or one that comes in for it. -/
def HashTakes (f : StreamFrame) (r : Nat) : DataIn → Prop
  | nocopy n => n.Crosses f r
  | hash h => r ≤ f.df.endOff ∧ h.badFin f.df = false ∧
      (f.df.fin = true → ¬ h.SeesAfter (HashDataIn.endBlock f.df r) f.df.endOff)
  | error => False

section
variable {di : DataIn} {f : StreamFrame} {r B : Nat} {mem : Memory} {auto : Bool}

theorem hash_refuses {h : HashDataIn} (hh : h.WellFormed) (ht : ¬ (DataIn.hash h).HashTakes f r)
    (mem : Memory) : (h.insertDataFrame mem f.df r).2 ≠ .ok := by
  by_cases hr : f.df.endOff < r
  · rw [HashDataIn.insertDataFrame_stale mem h f.df hr]
    split <;> simp
  · have hins := HashDataIn.insertDataFrame_spec mem hh f.df (Nat.le_of_not_lt hr)
    generalize h.insertDataFrame mem f.df r = res at hins
    obtain ⟨h', ins⟩ := res
    cases hins with
    | refused hb => simp
    | failed hm hle hs hk => simp
    | late hb hfin hda hs hk => simp
    | stored hb hfin hs hk =>
      exact absurd ⟨Nat.le_of_not_lt hr, hb, fun hf => absurd hf (by simp [hfin])⟩ ht
    | storedFin hb hfin hda hs hk => exact absurd ⟨Nat.le_of_not_lt hr, hb, fun _ => hda⟩ ht

/-- A frame that the hash does not take over is kept, or left to the caller. -/
theorem insertOrSwitch_settles (hk : di.Kept auto B r) (ht : ¬ di.HashTakes f r)
    (hn : (f.id :: di.held).Nodup) (mem : Memory) :
    (di.insertOrSwitch mem f r).2.2 = [] ∧
    ((di.insertOrSwitch mem f r).2.1 = .ok → (di.insertOrSwitch mem f r).1.ownOnOk = true ∧
      Settles (f.id :: di.held) [] (di.insertOrSwitch mem f r).1.held) ∧
    ((di.insertOrSwitch mem f r).2.1 ≠ .ok → (di.insertOrSwitch mem f r).1.held = di.held) := by
  cases di with
  | error => exact ⟨rfl, by simp [insertOrSwitch, insertFrame], fun _ => rfl⟩
  | hash h =>
    have hok := hash_refuses hk.wellFormed.1 ht mem
    have hno := HashDataIn.insertDataFrame_ne_overlap mem h f.df r
    rw [insertOrSwitch, insertFrame, HashDataIn.insertFrame]
    generalize h.insertDataFrame mem f.df r = res at hok hno
    obtain ⟨h', ins⟩ := res
    cases ins with
    | ok => exact absurd rfl hok
    | overlap => exact absurd rfl hno
    | err => exact ⟨rfl, by simp, fun _ => rfl⟩
    | dup => exact ⟨rfl, by simp, fun _ => rfl⟩
  | nocopy n =>
    obtain ⟨ho, -⟩ := hk.ordered
    have hno := NocopyDataIn.tryInsert_ne_overlap ht
    have hI := NocopyDataIn.insertFrame_inserted ho f
    rw [← NocopyDataIn.insertFrame_snd] at hno
    rw [insertOrSwitch, insertFrame]
    generalize n.insertFrame f r = res at hno hI
    obtain ⟨n', ins⟩ := res
    replace hI : n.Inserted f r n' ins := hI
    cases hI with
    | same he hne =>
      subst he
      cases ins with
      | overlap => exact absurd rfl hno
      | ok => exact absurd rfl hne
      | err => exact ⟨rfl, by simp, fun _ => rfl⟩
      | dup => exact ⟨rfl, by simp, fun _ => rfl⟩
    | ok hs hpre hpost hr he =>
      refine ⟨rfl, fun _ => ⟨rfl, ?_⟩, fun h => absurd rfl h⟩
      have hperm : (n'.frames.map StreamFrame.id).Perm (f.id :: n.frames.map StreamFrame.id) := by
        rw [he, hs, ← List.map_cons]
        exact List.perm_middle.map _
      exact (Settles.refl hn).congr (hperm.nodup_iff.2 hn) fun id => hperm.mem_iff

end

end DataIn

namespace RecvStream

/-- The frame gets to a hash that takes it in. -/
def HashTakes (s : RecvStream) (f : StreamFrame) : Prop :=
  (s.useHeaders && s.headInFin) = false ∧
  (f.df.fin && s.finRecvd && s.finOff != f.df.endOff) = false ∧ s.dataIn.HashTakes f s.readOffset

section
variable {s : RecvStream} {cf : Cfcw} {env : FcEnv} {mem : Memory} {f : StreamFrame} {B : Nat}

theorem frameInserted_settles (hown : s.dataIn.ownOnOk = true) (hn : s.dataIn.held.Nodup)
    (hid : f.id ∈ s.dataIn.held) :
    Settles s.dataIn.held (s.frameInserted env mem cf f).events
      (s.frameInserted env mem cf f).stream.dataIn.held := by
  obtain ⟨cf', fc, ok, hup⟩ := updateSfcw_stream s env cf f.df.endOff
  have hacc := Settles.access hn hid
  rw [frameInserted, hup, hown]
  cases ok with
  | false => exact hacc
  | true =>
    have hsw := DataIn.maybeSwitch_settles hn mem s.autoswitch s.readOffset
    simp only
    generalize s.dataIn.maybeSwitch mem s.autoswitch s.readOffset = res at hsw
    obtain ⟨di, ok, ev⟩ := res
    have hall := hacc.trans (hacc.trans hsw)
    cases ok with
    | false => simpa using hall
    | true => simpa using hall

theorem frameIn_settles (hs : s.Within B) (ht : ¬ s.HashTakes f)
    (hn : (f.id :: s.dataIn.held).Nodup) :
    Settles (f.id :: s.dataIn.held) (s.frameIn env mem cf f).events
      (s.frameIn env mem cf f).stream.dataIn.held := by
  have hacc : Settles (f.id :: s.dataIn.held) [.access f.id] (f.id :: s.dataIn.held) :=
    Settles.access hn (.head _)
  have hrel := Settles.release hn
  rw [frameIn]
  split
  · exact hrel
  next hh =>
    split
    · exact hacc.trans hrel
    next hf =>
      have htakes : ¬ s.dataIn.HashTakes f s.readOffset := fun hc =>
        ht ⟨by simpa using hh, by simpa using hf, hc⟩
      obtain ⟨hev, hok, hleft⟩ := DataIn.insertOrSwitch_settles hs.kept htakes hn mem
      generalize s.dataIn.insertOrSwitch mem f s.readOffset = res at hev hok hleft
      obtain ⟨di, ins, ev⟩ := res
      obtain rfl : ev = [] := hev
      have hout : ins ≠ .ok → Settles (f.id :: s.dataIn.held) (.access f.id :: f.release)
          di.held := by
        intro hne
        rw [show di.held = s.dataIn.held from hleft hne]
        exact hacc.trans hrel
      cases ins with
      | ok =>
        obtain ⟨hown, hset⟩ := hok rfl
        have hid : f.id ∈ di.held := by
          by_contra hid
          obtain ⟨k, -, hgone⟩ := hset.story f.id (.head _)
          have hlen := congrArg List.length (hgone hid)
          simp [about] at hlen
        have hins := @frameInserted_settles { s with dataIn := di } cf env mem _ hown hset.nodup hid
        exact hacc.trans (hset.trans hins)
      | dup => exact hout (by simp)
      | err => exact hout (by simp)
      | overlap => exact hout (by simp)

theorem rstIn_settles (hn : s.dataIn.held.Nodup) (offset : Nat) :
    Settles s.dataIn.held (s.rstIn cf offset).events (s.rstIn cf offset).stream.dataIn.held := by
  have hrefl := Settles.refl hn
  rw [rstIn]
  split
  · exact hrefl
  · split
    · exact hrefl
    · simp only
      split
      · exact hrefl
      · generalize s.fc.setMaxRecvOff cf offset = res
        obtain ⟨cf', fc, ok⟩ := res
        cases ok with
        | false => exact hrefl
        | true => exact DataIn.destroy_settles hn

theorem readFrames_settles (mem : Memory) (lens : List Nat) (hn : s.dataIn.held.Nodup) :
    Settles s.dataIn.held (s.readFrames mem lens).2.2.2 (s.readFrames mem lens).1.dataIn.held := by
  induction lens generalizing s with
  | nil => exact Settles.refl hn
  | cons len lens ih =>
    rw [readFrames]
    cases hr : s.dataIn.readFrame s.readOffset len with
    | none => exact Settles.refl hn
    | some rd =>
      have hread := DataIn.readFrame_settles hn hr
      simp only
      split
      · have hsw := DataIn.maybeSwitch_settles hread.nodup mem s.autoswitch
          (s.readOffset + rd.bytes.length)
        generalize rd.di.maybeSwitch mem s.autoswitch (s.readOffset + rd.bytes.length) = res at hsw
        obtain ⟨di, ok, ev⟩ := res
        cases ok with
        | false => exact hread.trans hsw
        | true =>
          simp only
          split
          · exact hread.trans hsw
          · have hrest := ih
              (s := { s with dataIn := di, readOffset := s.readOffset + rd.bytes.length }) hsw.nodup
            exact (hread.trans hsw).trans hrest
      · exact hread

theorem readf_settles (hn : s.dataIn.held.Nodup) (lens : List Nat) :
    Settles s.dataIn.held (s.readf env mem cf lens).events
      (s.readf env mem cf lens).stream.dataIn.held := by
  exact readf_rule (P := fun s' ev => Settles s.dataIn.held ev s'.dataIn.held) (Settles.refl hn)
    (readFrames_settles mem lens hn) fun _ _ _ h => h

theorem discardFrames_settles (n : Nat) (hn : s.dataIn.held.Nodup) :
    Settles s.dataIn.held (s.discardFrames n).2 (s.discardFrames n).1.dataIn.held := by
  induction n generalizing s with
  | zero => exact Settles.refl hn
  | succ n ih =>
    rw [discardFrames]
    split
    · exact Settles.refl hn
    next df hdf =>
      cases hr : s.dataIn.readFrame s.readOffset df.size with
      | none => exact Settles.refl hn
      | some rd =>
        have hread := DataIn.readFrame_settles hn hr
        simp only
        split
        · exact hread
        · have hrest := ih
            (s := { s with dataIn := rd.di, readOffset := s.readOffset + rd.bytes.length })
            hread.nodup
          exact hread.trans hrest

theorem readableDiscard_settles (hn : s.dataIn.held.Nodup) (n : Nat) :
    Settles s.dataIn.held (s.readableDiscard mem cf n).events
      (s.readableDiscard mem cf n).stream.dataIn.held := by
  rw [readableDiscard]
  split
  · have hset := discardFrames_settles n hn
    generalize s.discardFrames n = res at hset
    obtain ⟨s', ev⟩ := res
    exact hset.trans (DataIn.maybeSwitch_settles hset.nodup mem s'.autoswitch s'.readOffset)
  · exact Settles.refl hn

theorem call_settles (hn : s.dataIn.held.Nodup) (hop : ∀ f, op ≠ .frameIn f) :
    Settles s.dataIn.held (s.call env mem cf op).events
      (s.call env mem cf op).stream.dataIn.held := by
  cases op with
  | frameIn f => exact absurd rfl (hop f)
  | rstIn offset => exact rstIn_settles hn offset
  | stopSendingIn =>
    rw [call, stopSendingIn]
    split <;> exact Settles.refl hn
  | readf lens => exact readf_settles hn lens
  | shutdownRead => exact Settles.refl hn
  | readableDiscard n => exact readableDiscard_settles hn n
  | destroy => exact DataIn.destroy_settles hn

end

end RecvStream

namespace RecvConn

def HeldBy (c : RecvConn) (id j : Nat) : Prop :=
  ∃ s, c.streams[j]? = some s ∧ id ∈ s.dataIn.held

def Held (c : RecvConn) (id : Nat) : Prop := ∃ j, c.HeldBy id j

def Known (log : List FrameEvent) (id : Nat) : Prop := ∃ e ∈ log, e.object = id

structure Holding (failed : Bool) (s : RecvStream) : Prop where
  within : failed = false → s.destroyed = false → ∃ B, s.Within B
  nodup : s.dataIn.held.Nodup
  gone : s.destroyed = true → s.dataIn.held = []

/-- Every object has its story, and no two streams hold the same one. -/
structure Ledger (c : RecvConn) : Prop where
  streams : ∀ s ∈ c.streams, Holding c.failed s
  apart : ∀ id i j, c.HeldBy id i → c.HeldBy id j → i = j
  known : ∀ id, c.Held id → Known c.log id
  story : ∀ id, Known c.log id → Story id c.log (c.Held id)

section
variable {c : RecvConn} {s : RecvStream} {r : RecvCall} {i id : Nat} {held : List Nat}
  {log : List FrameEvent}

theorem about_eq_nil : about id log = [] ↔ ¬ Known log id := by
  rw [about, List.filter_eq_nil_iff, Known]
  constructor
  · rintro h ⟨e, he, hid⟩
    exact h e he (by simpa using hid)
  · intro h e he hid
    exact h ⟨e, he, by simpa using hid⟩

theorem known_append {log' : List FrameEvent} :
    Known (log ++ log') id ↔ Known log id ∨ Known log' id := by
  simp only [Known, List.mem_append, or_and_right, exists_or]

theorem heldBy_set {cf' : Cfcw} {failed : Bool} (hs : c.streams[i]? = some s) (j : Nat) :
    HeldBy ⟨cf', c.streams.set i r.stream, failed, log⟩ id j ↔
      j = i ∧ id ∈ r.stream.dataIn.held ∨ j ≠ i ∧ c.HeldBy id j := by
  have hlt : i < c.streams.length := (List.getElem?_eq_some_iff.1 hs).1
  by_cases hj : j = i
  · subst hj
    simp [HeldBy, hlt]
  · simp only [HeldBy, List.getElem?_set_ne (Ne.symm hj)]
    simp [hj]

theorem Ledger.heldBy_of_mem (h : c.Ledger) {cf' : Cfcw} {failed : Bool}
    (hs : c.streams[i]? = some s) (hnew : id ∉ s.dataIn.held → ¬ Known c.log id) (j : Nat) :
    HeldBy ⟨cf', c.streams.set i r.stream, failed, log⟩ id j ↔
      j = i ∧ id ∈ r.stream.dataIn.held := by
  rw [heldBy_set hs]
  refine or_iff_left ?_
  rintro ⟨hji, hj⟩
  by_cases hin : id ∈ s.dataIn.held
  · exact hji (h.apart id j i hj ⟨s, hs, hin⟩)
  · exact hnew hin (h.known id ⟨j, hj⟩)

theorem heldBy_of_not_mem {cf' : Cfcw} {failed : Bool} (hs : c.streams[i]? = some s)
    (hold : id ∉ s.dataIn.held) (hnew : id ∉ r.stream.dataIn.held) (j : Nat) :
    HeldBy ⟨cf', c.streams.set i r.stream, failed, log⟩ id j ↔ c.HeldBy id j := by
  rw [heldBy_set hs, or_iff_right fun hj => hnew hj.2]
  refine and_iff_right_of_imp ?_
  rintro ⟨t, ht, hid⟩ rfl
  rw [hs] at ht
  cases ht
  exact hold hid

theorem Ledger.called (h : c.Ledger) (hs : c.streams[i]? = some s) {failed : Bool}
    (hset : Settles held r.events r.stream.dataIn.held)
    (hsub : ∀ id ∈ s.dataIn.held, id ∈ held)
    (hnew : ∀ id ∈ held, id ∉ s.dataIn.held → ¬ Known c.log id ∧ Known r.events id)
    (hfail : failed = false → c.failed = false) (hr : Holding failed r.stream) :
    Ledger ⟨r.cf, c.streams.set i r.stream, failed, c.log ++ r.events⟩ := by
  have hin : ∀ id ∈ held, ∀ j, HeldBy ⟨r.cf, c.streams.set i r.stream, failed, c.log ++ r.events⟩
      id j ↔ j = i ∧ id ∈ r.stream.dataIn.held := fun id hid =>
    h.heldBy_of_mem hs fun hold => (hnew id hid hold).1
  have hout : ∀ id ∉ held, ∀ j, HeldBy ⟨r.cf, c.streams.set i r.stream, failed, c.log ++ r.events⟩
      id j ↔ c.HeldBy id j := fun id hid =>
    heldBy_of_not_mem hs (fun hold => hid (hsub id hold)) fun hheld => hid (hset.sub id hheld)
  refine ⟨fun t ht => ?_, fun id j k hj hk => ?_, ?_, ?_⟩
  · rcases List.mem_or_eq_of_mem_set ht with ht | rfl
    · have ht := h.streams t ht
      exact { ht with within := fun hf => ht.within (hfail hf) }
    · exact hr
  · by_cases hid : id ∈ held
    · rw [hin id hid] at hj hk
      exact hj.1.trans hk.1.symm
    · rw [hout id hid] at hj hk
      exact h.apart id j k hj hk
  · rintro id ⟨j, hj⟩
    rw [known_append]
    by_cases hid : id ∈ held
    · by_cases hold : id ∈ s.dataIn.held
      · exact .inl (h.known id ⟨i, s, hs, hold⟩)
      · exact .inr (hnew id hid hold).2
    · exact .inl (h.known id ⟨j, (hout id hid j).1 hj⟩)
  · intro id hknown
    by_cases hid : id ∈ held
    · -- nobody else holds the object, so that its story goes on in this call
      have hheld : Held ⟨r.cf, c.streams.set i r.stream, failed, c.log ++ r.events⟩ id ↔
          id ∈ r.stream.dataIn.held := by
        simp only [Held, hin id hid, exists_eq_left]
      rw [propext hheld]
      by_cases hold : id ∈ s.dataIn.held
      · have hown : c.Held id := ⟨i, s, hs, hold⟩
        exact (h.story id (h.known id hown)).append (fun _ => hset.story id hid)
          fun hc => absurd hown hc
      · obtain ⟨k, hk⟩ := hset.story id hid
        rw [Story, about_append, about_eq_nil.2 (hnew id hid hold).1, List.nil_append]
        exact ⟨k, hk⟩
    · have hsil := hset.silent id hid
      have hheld : Held ⟨r.cf, c.streams.set i r.stream, failed, c.log ++ r.events⟩ id ↔
          c.Held id := exists_congr (hout id hid)
      rw [propext hheld, Story, about_append, hsil, List.append_nil]
      exact h.story id ((known_append.1 hknown).resolve_right (about_eq_nil.1 hsil))

/-- A frame comes in as a new object that no hash takes in. -/
def Releasable (c : RecvConn) (op : RecvOp) : Prop :=
  match op with
  | .stream i (.frameIn f) => ∀ s, c.streams[i]? = some s →
      f.df.readOff = 0 ∧ ¬ Known c.log f.id ∧ ¬ s.HashTakes f
  | _ => True

theorem known_frameIn {env : FcEnv} {mem : Memory} {cf' : Cfcw} {f : StreamFrame} :
    Known (s.frameIn env mem cf' f).events f.id := by
  rw [RecvStream.frameIn]
  split
  · exact ⟨.putPacket f.id, .head _, rfl⟩
  · split
    · exact ⟨.access f.id, .head _, rfl⟩
    · generalize s.dataIn.insertOrSwitch mem f s.readOffset = res
      obtain ⟨di, ins, ev⟩ := res
      cases ins <;> exact ⟨.access f.id, .head _, rfl⟩

theorem Ledger.call (h : c.Ledger) (hp : Releasable c (.stream i op))
    (hs : c.streams[i]? = some s) (hlive : s.destroyed = false) (hok : op.allowed c.failed = true)
    (env : FcEnv) (mem : Memory) :
    Ledger ⟨(s.call env mem c.cf op).cf, c.streams.set i (s.call env mem c.cf op).stream,
      c.failed || !(s.call env mem c.cf op).ok, c.log ++ (s.call env mem c.cf op).events⟩ := by
  have hm := List.mem_of_getElem? hs
  have hn := (h.streams s hm).nodup
  by_cases hdes : op = .destroy
  · subst hdes
    refine h.called hs (DataIn.destroy_settles hn) (fun _ => id) (fun id hid hc => absurd hid hc)
      ?_ ⟨?_, List.nodup_nil, fun _ => rfl⟩ <;> simp [RecvStream.call, RecvStream.destroy]
  · have hf := RecvStream.not_failed hok hdes
    obtain ⟨B, hw⟩ := (h.streams s hm).within hf hlive
    have hd := @RecvStream.call_destroyed _ _ c.cf env mem _ hw hdes
    have hholds : (∀ f, op = .frameIn f → f.df.readOff = 0) →
        (s.call env mem c.cf op).stream.dataIn.held.Nodup →
        Holding (c.failed || !(s.call env mem c.cf op).ok) (s.call env mem c.cf op).stream := by
      refine fun h0 hn' => ⟨fun hok' _ => ?_, hn', fun hdes' => ?_⟩
      · exact RecvStream.call_within hw h0 (by simpa [hf] using hok')
      · cases (hd.trans hlive).symm.trans hdes'
    by_cases hop : ∃ f, op = .frameIn f
    · obtain ⟨f, rfl⟩ := hop
      obtain ⟨h0, hfresh, ht⟩ := hp s hs
      have hnew : f.id ∉ s.dataIn.held := fun hid => hfresh (h.known _ ⟨i, s, hs, hid⟩)
      have hset := @RecvStream.frameIn_settles _ c.cf env mem _ _ hw ht
        (List.nodup_cons.2 ⟨hnew, hn⟩)
      refine h.called hs hset (fun id hid => .tail _ hid) (fun id hid hc => ?_) (fun _ => hf)
        (hholds (fun g hg => ?_) hset.nodup)
      · obtain rfl := (List.mem_cons.1 hid).resolve_right hc
        exact ⟨hfresh, known_frameIn⟩
      · cases hg
        exact h0
    · have hop' : ∀ f, op ≠ .frameIn f := fun f he => hop ⟨f, he⟩
      have hset := @RecvStream.call_settles _ c.cf env mem _ hn hop'
      exact h.called hs hset (fun _ => id) (fun id hid hc => absurd hid hc) (fun _ => hf)
        (hholds (fun f he => absurd he (hop' f)) hset.nodup)

theorem Ledger.newStream (h : c.Ledger) (hs : s.dataIn.held = []) (hw : ∃ B, s.Within B) :
    Ledger { c with streams := c.streams ++ [s] } := by
  have hheld : ∀ id j, HeldBy { c with streams := c.streams ++ [s] } id j ↔ c.HeldBy id j := by
    intro id j
    rw [HeldBy, HeldBy]
    rcases Nat.lt_trichotomy j c.streams.length with hlt | heq | hgt
    · simp only [List.getElem?_append_left hlt]
    · subst heq
      simp [hs]
    · have h₁ : (c.streams ++ [s])[j]? = none := List.getElem?_eq_none (by simp; omega)
      have h₂ : c.streams[j]? = none := List.getElem?_eq_none (by omega)
      simp [h₁, h₂]
  have hany : ∀ id, Held { c with streams := c.streams ++ [s] } id ↔ c.Held id := fun id =>
    exists_congr fun j => hheld id j
  refine ⟨fun t ht => ?_, fun id j k hj hk => ?_, fun id hid => ?_, fun id hid => ?_⟩
  · rcases List.mem_append.1 ht with ht | ht
    · exact h.streams t ht
    · obtain rfl := List.mem_singleton.1 ht
      exact ⟨fun _ _ => hw, hs ▸ List.nodup_nil, fun _ => hs⟩
  · exact h.apart id j k ((hheld id j).1 hj) ((hheld id k).1 hk)
  · exact h.known id ((hany id).1 hid)
  · rw [propext (hany id)]
    exact h.story id hid

theorem Ledger.step (h : c.Ledger) (hp : Releasable c op) (env : FcEnv) (mem : Memory) :
    (c.step env mem op).Ledger := by
  cases op with
  | newStream win hash limited useHeaders autoswitch =>
    rw [RecvConn.step]
    split
    · exact h
    next s hn =>
      obtain ⟨di, rfl, hk, hq, hdi⟩ := RecvStream.new_spec hn
      refine h.newStream ?_ ⟨0, hk, fun _ => hq, le_rfl⟩
      rcases hdi with rfl | ⟨h₀, rfl, -⟩ <;> rfl
  | stream i op =>
    rw [RecvConn.step]
    split
    · exact h
    next s hs =>
      split
      · exact h
      next hlive =>
        simp only [Bool.or_eq_true, not_or, Bool.not_eq_true, Bool.not_eq_false'] at hlive
        exact h.call hp hs hlive.1 hlive.2 env mem
  | tick => exact { h with }

theorem Ledger.run (h : RecvRun Releasable c) : c.Ledger := by
  induction h with
  | init env win =>
    have hnone : ∀ id j, ¬ HeldBy { cf := Cfcw.init env win } id j := by
      rintro id j ⟨s, hs, -⟩
      cases hs
    refine ⟨fun s hs => absurd hs (by simp), fun id i j hi => absurd hi (hnone id i), ?_, ?_⟩
    · rintro id ⟨j, hj⟩
      exact absurd hj (hnone id j)
    · rintro id ⟨e, he, -⟩
      cases he
  | step h hp env mem ih => exact ih.step hp env mem

/-- Every frame is still held by one stream or was released once, with nothing after that. -/
theorem released_once (h : RecvRun Releasable c) (hid : Known c.log id) :
    ∃ k, (c.Held id → about id c.log = List.replicate k (.access id)) ∧
      (¬ c.Held id → about id c.log =
        List.replicate k (.access id) ++ [.putPacket id, .putFrame id]) ∧
      (∀ i j, c.HeldBy id i → c.HeldBy id j → i = j) ∧
      ((∀ s ∈ c.streams, s.destroyed = true) → ¬ c.Held id) := by
  have hl := Ledger.run h
  obtain ⟨k, hheld, hgone⟩ := hl.story id hid
  refine ⟨k, hheld, hgone, hl.apart id, fun hd => ?_⟩
  rintro ⟨j, s, hs, hin⟩
  have hm := List.mem_of_getElem? hs
  rw [(hl.streams s hm).gone (hd s hm)] at hin
  cases hin

def oneFrame (hash : Bool) : RecvConn :=
  (({ cf := Cfcw.init {} 1000 } : RecvConn).step {} {} (.newStream 100 hash true false true)).step
    {} {} (.stream 0 (.frameIn { id := 7, df := { size := 2 } }))

theorem oneFrame_run : RecvRun Releasable (oneFrame false) := by
  refine .step (.step (.init _ _) trivial _ _) ?_ _ _
  intro s hs
  cases hs
  refine ⟨rfl, fun hk => ?_, ?_⟩
  · obtain ⟨e, he, -⟩ := hk
    cases he
  · rintro ⟨-, -, -, -, hc⟩
    rcases hc with hc | ⟨g, hg, -⟩
    · cases hc
    · cases hg

def frameRead : RecvConn := (oneFrame false).step {} {} (.stream 0 (.readf [2]))

theorem released_once_frameRead : ∃ k, about 7 frameRead.log =
    List.replicate k (.access 7) ++ [.putPacket 7, .putFrame 7] := by
  have hk : Known frameRead.log 7 := ⟨.access 7, by decide +kernel, rfl⟩
  have hnot : ∀ s ∈ frameRead.streams, 7 ∉ s.dataIn.held := by decide +kernel
  have hrun : RecvRun Releasable frameRead := .step oneFrame_run (by exact trivial) _ _
  obtain ⟨k, -, hgone, -, -⟩ := released_once hrun hk
  exact ⟨k, hgone fun ⟨_, s, hs, hin⟩ => hnot s (List.mem_of_getElem? hs) hin⟩

/-- A hash gives the frame back, the stream looks at it after that, and gives it back again. -/
theorem hash_releases_twice : RecvRun (fun _ _ => True) (oneFrame true) ∧
    about 7 (oneFrame true).log =
      [.access 7, .putPacket 7, .putFrame 7, .access 7, .access 7, .putFrame 7] :=
  ⟨.step (.step (.init _ _) trivial _ _) trivial _ _, by decide +kernel⟩

end

end RecvConn

end QuicArt
