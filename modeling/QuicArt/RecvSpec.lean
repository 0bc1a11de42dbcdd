import QuicArt.Intake
import QuicArt.RecvStream

namespace QuicArt

namespace RecvStream

/-- The reader and all bytes of the data-in are before `B`. -/
structure Within (B : Nat) (s : RecvStream) : Prop where
  kept : s.dataIn.Kept s.autoswitch B s.readOffset
  quiet : s.autoswitch = true → s.dataIn.wantsSwitch = false
  le : s.readOffset ≤ B

section
variable {s : RecvStream} {B : Nat} {cf : Cfcw} {env : FcEnv} {mem : Memory} {f : StreamFrame}

theorem not_failed {op : StreamOp} {failed : Bool} (hok : op.allowed failed = true)
    (hop : op ≠ .destroy) : failed = false := by
  cases op with
  | destroy => exact absurd rfl hop
  | _ => simpa [StreamOp.allowed] using hok

theorem readFrames_within (mem : Memory) (lens : List Nat) (hs : s.Within B) :
    (s.readFrames mem lens).1.Within B ∧ (s.readFrames mem lens).1.fc = s.fc ∧
    (s.readFrames mem lens).1.destroyed = s.destroyed ∧
    s.readOffset ≤ (s.readFrames mem lens).1.readOffset := by
  induction lens generalizing s with
  | nil => exact ⟨hs, rfl, rfl, le_rfl⟩
  | cons len lens ih =>
    rw [readFrames]
    cases hr : s.dataIn.readFrame s.readOffset len with
    | none => exact ⟨hs, rfl, rfl, le_rfl⟩
    | some rd =>
      obtain ⟨hle, hk⟩ := hs.kept.read hs.le hr
      simp only
      split
      next hdone =>
        obtain ⟨hk', hq⟩ := hk.maybeSwitch mem
        generalize rd.di.maybeSwitch mem s.autoswitch (s.readOffset + rd.bytes.length) = res
          at hk' hq
        obtain ⟨di, ok, ev⟩ := res
        cases ok with
        | false => exact ⟨⟨hk', hq, hle⟩, rfl, rfl, Nat.le_add_right _ _⟩
        | true =>
          simp only
          split
          · exact ⟨⟨hk', hq, hle⟩, rfl, rfl, Nat.le_add_right _ _⟩
          · obtain ⟨hs', hfc, hd, hoff⟩ := ih
              (s := { s with dataIn := di, readOffset := s.readOffset + rd.bytes.length })
              ⟨hk', hq, hle⟩
            exact ⟨hs', hfc, hd, Nat.le_trans (Nat.le_add_right _ _) hoff⟩
      next hdone =>
        have hq := hs.kept.quiet_read hs.quiet hr (by simpa using hdone)
        exact ⟨⟨hk, hq, hle⟩, rfl, rfl, Nat.le_add_right _ _⟩

theorem getFrame_of_processed (hp : (s.readFrames mem lens).2.1 = true) :
    (s.dataIn.getFrame s.readOffset).2.isSome = true := by
  cases lens with
  | nil => cases hp
  | cons len lens =>
    rw [readFrames, DataIn.readFrame] at hp
    generalize s.dataIn.getFrame s.readOffset = res at hp
    obtain ⟨di, df?⟩ := res
    cases df? with
    | none => cases hp
    | some df => rfl

theorem discardFrames_kept (n : Nat) (hk : s.dataIn.Kept s.autoswitch B s.readOffset)
    (hle : s.readOffset ≤ B) :
    (s.discardFrames n).1.dataIn.Kept s.autoswitch B (s.discardFrames n).1.readOffset ∧
    (s.discardFrames n).1.readOffset ≤ B ∧
    (s.discardFrames n).1.fc = s.fc ∧ (s.discardFrames n).1.autoswitch = s.autoswitch ∧
    (s.discardFrames n).1.destroyed = s.destroyed := by
  induction n generalizing s with
  | zero => exact ⟨hk, hle, rfl, rfl, rfl⟩
  | succ n ih =>
    rw [discardFrames]
    split
    · exact ⟨hk, hle, rfl, rfl, rfl⟩
    next df hdf =>
      cases hr : s.dataIn.readFrame s.readOffset df.size with
      | none => exact ⟨hk, hle, rfl, rfl, rfl⟩
      | some rd =>
        obtain ⟨hle', hk'⟩ := hk.read hle hr
        simp only
        split
        · exact ⟨hk', hle', rfl, rfl, rfl⟩
        · exact ih (s := { s with dataIn := rd.di, readOffset := s.readOffset + rd.bytes.length })
            hk' hle'

theorem readableDiscard_within (cf : Cfcw) (mem : Memory) (n : Nat) (hs : s.Within B) :
    (s.readableDiscard mem cf n).stream.Within B ∧
    (s.readableDiscard mem cf n).stream.fc = s.fc ∧
    (s.readableDiscard mem cf n).stream.destroyed = s.destroyed := by
  rw [readableDiscard]
  split
  · obtain ⟨hk, hle, hfc, hauto, hd⟩ := discardFrames_kept n hs.kept hs.le
    generalize s.discardFrames n = res at hk hle hfc hauto hd
    obtain ⟨s', ev⟩ := res
    obtain ⟨hk', hq⟩ := hk.maybeSwitch mem
    replace hauto : s'.autoswitch = s.autoswitch := hauto
    rw [← hauto] at hk' hq
    exact ⟨⟨hk', hq, hle⟩, hfc, hd⟩
  · exact ⟨hs, rfl, rfl⟩

theorem updateSfcw_stream (s : RecvStream) (env : FcEnv) (cf : Cfcw) (off : Nat) :
    ∃ cf' fc ok, s.updateSfcw env cf off = (cf', { s with fc }, ok) := by
  rw [updateSfcw]
  split
  split
  · exact ⟨_, _, _, rfl⟩
  · exact ⟨_, _, _, rfl⟩

theorem frameInserted_within (hk : s.dataIn.Kept s.autoswitch B s.readOffset)
    (hle : s.readOffset ≤ B)
    (hok : (s.frameInserted env mem cf f).ok = true) :
    (s.frameInserted env mem cf f).stream.Within B := by
  obtain ⟨cf', fc, ok, hup⟩ := updateSfcw_stream s env cf f.df.endOff
  rw [frameInserted, hup] at hok ⊢
  cases ok with
  | false => cases hok
  | true =>
    obtain ⟨hk', hq⟩ := hk.maybeSwitch mem
    simp only at hok ⊢
    generalize s.dataIn.maybeSwitch mem s.autoswitch s.readOffset = res at hk' hq hok
    obtain ⟨di, ok, ev⟩ := res
    cases ok with
    | false => cases hok
    | true => exact ⟨hk', hq, hle⟩

theorem frameIn_within (hs : s.Within B) (h0 : f.df.readOff = 0)
    (hok : (s.frameIn env mem cf f).ok = true) :
    (s.frameIn env mem cf f).stream.Within (max B f.df.endOff) := by
  obtain ⟨hk, hq, hdup⟩ := hs.kept.insertOrSwitch hs.quiet h0 mem
  have hle : s.readOffset ≤ max B f.df.endOff := Nat.le_trans hs.le (Nat.le_max_left _ _)
  rw [frameIn] at hok ⊢
  split at hok
  · cases hok
  next hh =>
    split at hok
    · cases hok
    next hf =>
      rw [if_neg hh, if_neg hf]
      generalize s.dataIn.insertOrSwitch mem f s.readOffset = res at hk hq hdup hok
      obtain ⟨di, ins, ev⟩ := res
      cases ins with
      | ok =>
        have hw := @frameInserted_within { s with dataIn := di } _ cf env mem f hk hle hok
        exact ⟨hw.kept, hw.quiet, hw.le⟩
      | dup => exact ⟨hk, hq (by simp), hle⟩
      | err => cases hok
      | overlap => cases hok

theorem rstIn_within (hs : s.Within B) (offset : Nat) (hok : (s.rstIn cf offset).ok = true) :
    (s.rstIn cf offset).stream.Within B := by
  rw [rstIn] at hok ⊢
  split at hok
  · cases hok
  next hf =>
    rw [if_neg hf]
    split at hok
    next hr =>
      rw [if_pos hr]
      exact ⟨hs.kept, hs.quiet, hs.le⟩
    next hr =>
      rw [if_neg hr]
      simp only at hok ⊢
      split at hok
      · cases hok
      next hlt =>
        rw [if_neg hlt]
        generalize s.fc.setMaxRecvOff cf offset = res at hok
        obtain ⟨cf', fc, ok⟩ := res
        cases ok with
        | false => cases hok
        | true => exact ⟨DataIn.Kept.error, fun _ => rfl, hs.le⟩

/-- A call of `readf` does nothing, or it reads frames and then perhaps moves the windows. -/
theorem readf_rule {P : RecvStream → List FrameEvent → Prop} {lens : List Nat} (h₀ : P s [])
    (hr : P (s.readFrames mem lens).1 (s.readFrames mem lens).2.2.2)
    (hfc : ∀ s' ev fc, P s' ev → P { s' with fc } ev) :
    P (s.readf env mem cf lens).stream (s.readf env mem cf lens).events := by
  rw [readf]
  split
  · exact h₀
  · generalize s.readFrames mem lens = res at hr
    obtain ⟨s', p, ok, ev⟩ := res
    cases p with
    | false => exact hr
    | true =>
      cases ok with
      | false => exact hr
      | true => exact hfc _ _ _ hr

theorem readf_within (hs : s.Within B) (lens : List Nat) :
    (s.readf env mem cf lens).stream.Within B := by
  apply readf_rule (P := fun s' _ => s'.Within B) hs (readFrames_within mem lens hs).1
  intro s' _ fc h
  exact ⟨h.kept, h.quiet, h.le⟩

theorem call_within (hs : s.Within B) (h0 : ∀ f, op = .frameIn f → f.df.readOff = 0)
    (hok : (s.call env mem cf op).ok = true) : ∃ B', (s.call env mem cf op).stream.Within B' := by
  cases op with
  | frameIn f => exact ⟨_, frameIn_within hs (h0 f rfl) hok⟩
  | rstIn offset => exact ⟨B, rstIn_within hs offset hok⟩
  | stopSendingIn =>
    refine ⟨B, ?_⟩
    rw [call, stopSendingIn]
    split
    · exact hs
    · exact ⟨hs.kept, hs.quiet, hs.le⟩
  | readf lens => exact ⟨B, readf_within hs lens⟩
  | shutdownRead => exact ⟨B, hs.kept, hs.quiet, hs.le⟩
  | readableDiscard n => exact ⟨B, (readableDiscard_within cf mem n hs).1⟩
  | destroy => exact ⟨B, DataIn.Kept.error, fun _ => rfl, hs.le⟩

theorem frameInserted_destroyed :
    (s.frameInserted env mem cf f).stream.destroyed = s.destroyed := by
  obtain ⟨cf', fc, ok, hup⟩ := updateSfcw_stream s env cf f.df.endOff
  rw [frameInserted, hup]
  cases ok with
  | false => rfl
  | true =>
    simp only
    generalize s.dataIn.maybeSwitch mem s.autoswitch s.readOffset = res
    obtain ⟨di, ok, ev⟩ := res
    cases ok <;> rfl

theorem frameIn_destroyed : (s.frameIn env mem cf f).stream.destroyed = s.destroyed := by
  rw [frameIn]
  split
  · rfl
  · split
    · rfl
    · generalize s.dataIn.insertOrSwitch mem f s.readOffset = res
      obtain ⟨di, ins, ev⟩ := res
      cases ins with
      | ok => exact frameInserted_destroyed (s := { s with dataIn := di })
      | dup => rfl
      | err => rfl
      | overlap => rfl

theorem rstIn_destroyed (offset : Nat) : (s.rstIn cf offset).stream.destroyed = s.destroyed := by
  rw [rstIn]
  split
  · rfl
  · split
    · rfl
    · simp only
      split
      · rfl
      · generalize s.fc.setMaxRecvOff cf offset = res
        obtain ⟨cf', fc, ok⟩ := res
        cases ok <;> rfl

theorem readf_destroyed (hs : s.Within B) (lens : List Nat) :
    (s.readf env mem cf lens).stream.destroyed = s.destroyed := by
  obtain ⟨-, -, hd, -⟩ := readFrames_within mem lens hs
  exact readf_rule (P := fun s' _ => s'.destroyed = s.destroyed) rfl hd fun _ _ _ h => h

theorem call_destroyed (hs : s.Within B) (hop : op ≠ .destroy) :
    (s.call env mem cf op).stream.destroyed = s.destroyed := by
  cases op with
  | frameIn f => exact frameIn_destroyed
  | rstIn offset => exact rstIn_destroyed offset
  | stopSendingIn =>
    rw [call, stopSendingIn]
    split <;> rfl
  | readf lens => exact readf_destroyed hs lens
  | shutdownRead => rfl
  | readableDiscard n => exact (readableDiscard_within cf mem n hs).2.2
  | destroy => exact absurd rfl hop

theorem new_spec {win : UInt32} {hash limited useHeaders autoswitch : Bool}
    (hn : RecvStream.new env mem cf win hash limited useHeaders autoswitch = some s) :
    ∃ di : DataIn,
      s = { dataIn := di, fc := Sfcw.init env cf win limited, useHeaders, autoswitch } ∧
      di.Kept autoswitch 0 0 ∧ di.wantsSwitch = false ∧
      (di = .nocopy {} ∨ ∃ h, di = .hash h ∧ HashDataIn.new mem 0 = some h) := by
  rw [RecvStream.new, Option.map_eq_some_iff] at hn
  obtain ⟨di, hdi, rfl⟩ := hn
  refine ⟨di, rfl, ?_⟩
  split at hdi
  · rw [Option.map_eq_some_iff] at hdi
    obtain ⟨h, hnew, rfl⟩ := hdi
    obtain ⟨hwf, hempty, hnb, -⟩ := HashDataIn.new_wellFormed hnew
    exact ⟨DataIn.Kept.hash hwf (fun x hx => absurd (hempty x) hx) fun _ _ => hnb,
      HashDataIn.new_switchImpl hnew, .inr ⟨h, rfl, hnew⟩⟩
  · split at hdi
    · cases hdi
      refine ⟨DataIn.Kept.nocopy ?_ fun f hf => absurd hf (by simp), rfl, .inl rfl⟩
      exact ⟨List.Pairwise.nil, fun f hf => absurd hf (by simp), fun f hf => absurd hf (by simp),
        fun f hf => absurd hf (by simp)⟩
    · cases hdi

end

end RecvStream

end QuicArt
