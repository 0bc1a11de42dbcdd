import QuicArt.FlowControl

namespace QuicArt

theorem add64_eq (h : a + b < 2 ^ 64) : add64 a b = a + b := Nat.mod_eq_of_lt h

theorem sub64_eq (h : b ≤ a) (ha : a < 2 ^ 64) : sub64 a b = a - b := by
  rw [sub64]
  omega

/-- What is read has come in, what has come in was allowed, and at most a window is allowed ahead.
-/
structure RecvWindow.Valid (w : RecvWindow) : Prop where
  readOff_le : w.readOff ≤ w.maxRecvOff
  maxRecvOff_le : w.maxRecvOff ≤ w.recvOff
  recvOff_le : w.recvOff ≤ w.readOff + w.maxRecvWin
  win_lt : w.maxRecvWin < 2 ^ 32

namespace RecvWindow

section
variable {w : RecvWindow}

theorem maybeIncreaseMaxWindow_spec (limit : Nat) (hw : w.maxRecvWin < 2 ^ 32) :
    ∃ win, w.maybeIncreaseMaxWindow limit = { w with maxRecvWin := win } ∧
      w.maxRecvWin ≤ win ∧ win < 2 ^ 32 := by
  simp only [maybeIncreaseMaxWindow]
  split
  next hlt => exact ⟨_, rfl, Nat.le_of_lt hlt, by omega⟩
  · exact ⟨w.maxRecvWin, rfl, le_rfl, hw⟩

theorem noteUpdate_spec (env : FcEnv) (limit : Nat) (hw : w.maxRecvWin < 2 ^ 32) :
    ∃ win, w.noteUpdate env limit = { w with lastUpdated := env.now, maxRecvWin := win } ∧
      w.maxRecvWin ≤ win ∧ win < 2 ^ 32 := by
  simp only [noteUpdate]
  split
  · exact maybeIncreaseMaxWindow_spec (w := { w with lastUpdated := env.now }) limit hw
  · exact ⟨w.maxRecvWin, rfl, le_rfl, hw⟩

theorem Valid.offsetsChanged (hw : w.Valid) (env : FcEnv) (limit : Nat)
    (hb : w.readOff + 2 ^ 32 ≤ 2 ^ 64) :
    (w.offsetsChanged env limit).1.Valid ∧
    (w.offsetsChanged env limit).1.maxRecvOff = w.maxRecvOff ∧
    (w.offsetsChanged env limit).1.readOff = w.readOff ∧
    w.recvOff ≤ (w.offsetsChanged env limit).1.recvOff := by
  obtain ⟨hread, hmax, hrecv, hwin⟩ := hw
  have hsub : sub64 w.recvOff w.readOff = w.recvOff - w.readOff := sub64_eq (by omega) (by omega)
  rw [RecvWindow.offsetsChanged, hsub]
  split
  · exact ⟨⟨hread, hmax, hrecv, hwin⟩, rfl, rfl, le_rfl⟩
  next hlt =>
    obtain ⟨win, hwin', hle, hlt'⟩ := noteUpdate_spec env limit hwin
    have hrecv' : w.recvOff ≤ w.readOff + win := by omega
    have hadd : add64 w.readOff win = w.readOff + win := add64_eq (by omega)
    rw [hwin']
    simp only [hadd]
    exact ⟨⟨hread, Nat.le_trans hmax hrecv', le_rfl, hlt'⟩, trivial, trivial, hrecv'⟩

theorem init_valid (env : FcEnv) (limit : Nat) (win : UInt32) :
    (RecvWindow.offsetsChanged env limit { maxRecvWin := win.toNat }).1.Valid ∧
    (RecvWindow.offsetsChanged env limit { maxRecvWin := win.toNat }).1.maxRecvOff = 0 ∧
    (RecvWindow.offsetsChanged env limit { maxRecvWin := win.toNat }).1.readOff = 0 := by
  have hwin : win.toNat < 2 ^ 32 := win.toNat_lt
  have hv : ({ maxRecvWin := win.toNat } : RecvWindow).Valid :=
    ⟨le_rfl, le_rfl, Nat.zero_le _, hwin⟩
  obtain ⟨hv', hmax, hread, -⟩ := hv.offsetsChanged env limit (by simp)
  exact ⟨hv', hmax, hread⟩

end

end RecvWindow

/-- What a stream has of an amount that the connection counts. -/
def Sfcw.share (fc : Sfcw) (n : Nat) : Nat := if fc.limited then n else 0

/-- What the one window takes up or gives back, so does the other, and no offset goes back. -/
structure Charged (cf : Cfcw) (fc : Sfcw) (cf' : Cfcw) (fc' : Sfcw) : Prop where
  limited : fc'.limited = fc.limited
  max : cf'.maxRecvOff + fc.share fc.maxRecvOff = cf.maxRecvOff + fc.share fc'.maxRecvOff
  read : cf'.readOff + fc.share fc.readOff = cf.readOff + fc.share fc'.readOff
  max_le : fc.maxRecvOff ≤ fc'.maxRecvOff
  read_le : fc.readOff ≤ fc'.readOff
  recv_le : fc.recvOff ≤ fc'.recvOff
  conn_recv : cf'.recvOff = cf.recvOff
  conn_win : cf'.maxRecvWin = cf.maxRecvWin

section
variable {cf cf' cf'' : Cfcw} {fc fc' fc'' : Sfcw}

theorem Charged.refl (cf : Cfcw) (fc : Sfcw) : Charged cf fc cf fc :=
  ⟨rfl, rfl, rfl, le_rfl, le_rfl, le_rfl, rfl, rfl⟩

theorem Charged.share_eq (h : Charged cf fc cf' fc') (n : Nat) : fc'.share n = fc.share n := by
  rw [Sfcw.share, Sfcw.share, h.limited]

theorem Charged.trans (h : Charged cf fc cf' fc') (h' : Charged cf' fc' cf'' fc'') :
    Charged cf fc cf'' fc'' := by
  have hmax := h'.max
  have hread := h'.read
  rw [h.share_eq, h.share_eq] at hmax hread
  have hmax₀ := h.max
  have hread₀ := h.read
  refine ⟨h'.limited.trans h.limited, by omega, by omega, Nat.le_trans h.max_le h'.max_le,
    Nat.le_trans h.read_le h'.read_le, Nat.le_trans h.recv_le h'.recv_le,
    h'.conn_recv.trans h.conn_recv, h'.conn_win.trans h.conn_win⟩

theorem Sfcw.share_mono (fc : Sfcw) (h : a ≤ b) : fc.share a ≤ fc.share b := by
  rw [share, share]
  split
  · exact h
  · exact le_rfl

theorem Sfcw.share_le (fc : Sfcw) (n : Nat) : fc.share n ≤ n := by
  rw [share]
  split <;> omega

theorem Charged.conn_read_le (h : Charged cf fc cf' fc') : cf.readOff ≤ cf'.readOff := by
  have hle := fc.share_mono h.read_le
  have heq := h.read
  omega

/-- What a stream has not read is part of what the connection has not. -/
structure Backed (cf : Cfcw) (fc : Sfcw) : Prop where
  conn : cf.Valid
  stream : fc.Valid
  unread : cf.readOff + fc.share fc.maxRecvOff ≤ cf.maxRecvOff + fc.share fc.readOff

theorem Backed.charged (h : Backed cf fc) (hc : Charged cf fc cf' fc')
    (hcv : cf'.maxRecvOff ≤ cf'.recvOff) (hv : fc'.Valid) : Backed cf' fc' := by
  obtain ⟨⟨hread, hmax, hrecv, hwin⟩, -, hun⟩ := h
  have hm := hc.max
  have hr := hc.read
  have hle := fc.share_mono hv.readOff_le
  have hconn := hc.conn_read_le
  refine ⟨⟨by omega, hcv, ?_, ?_⟩, hv, ?_⟩
  · rw [hc.conn_recv, hc.conn_win]
    omega
  · rw [hc.conn_win]
    exact hwin
  · rw [hc.share_eq, hc.share_eq]
    omega

/-- The connection has room for two more windows before its offsets would wrap. -/
def Roomy (cf : Cfcw) (fc : Sfcw) : Prop :=
  cf.readOff + 2 ^ 33 ≤ 2 ^ 64 ∧ fc.readOff + 2 ^ 33 ≤ 2 ^ 64

end

namespace Sfcw

section
variable {cf : Cfcw} {fc : Sfcw}

theorem setMaxRecvOff_failed (h : (fc.setMaxRecvOff cf off).2.2 = false) :
    fc.setMaxRecvOff cf off = (cf, fc, false) := by
  rw [setMaxRecvOff] at h ⊢
  split at h
  next hle =>
    rw [if_pos hle]
    split at h
    · cases h
    next hl =>
      rw [if_neg hl]
      rw [Cfcw.incrMaxRecvOff] at h ⊢
      split at h
      next ht =>
        split at ht
        · cases h
        · cases congrArg Prod.snd ht
      next ht =>
        split at ht
        · cases congrArg Prod.snd ht
        · obtain rfl := congrArg Prod.fst ht
          rfl
  next hgt => rw [if_neg hgt]

/-- What the offset grows by is charged to the connection once. -/
theorem setMaxRecvOff_spec (h : Backed cf fc) (hb : Roomy cf fc) (hle : fc.maxRecvOff ≤ off) :
    Charged cf fc (fc.setMaxRecvOff cf off).1 (fc.setMaxRecvOff cf off).2.1 ∧
    Backed (fc.setMaxRecvOff cf off).1 (fc.setMaxRecvOff cf off).2.1 ∧
    (fc.setMaxRecvOff cf off).2.1.readOff = fc.readOff ∧
    ((fc.setMaxRecvOff cf off).2.2 = true → (fc.setMaxRecvOff cf off).2.1.maxRecvOff = off) := by
  cases hok : (fc.setMaxRecvOff cf off).2.2 with
  | false =>
    rw [setMaxRecvOff_failed hok]
    exact ⟨Charged.refl cf fc, h, rfl, nofun⟩
  | true =>
    obtain ⟨⟨hcread, hcmax, hcrecv, hcwin⟩, ⟨hread, hmax, hrecv, hwin⟩, hun⟩ := h
    obtain ⟨hb₁, hb₂⟩ := hb
    rw [setMaxRecvOff] at hok ⊢
    split at hok
    next hoff =>
      rw [if_pos hoff]
      have hv : ({ fc with maxRecvOff := off } : Sfcw).Valid :=
        ⟨Nat.le_trans hread hle, hoff, hrecv, hwin⟩
      split at hok
      next hl =>
        rw [if_pos hl]
        have hl' : fc.limited = false := by simpa using hl
        have hc : Charged cf fc cf { fc with maxRecvOff := off } :=
          ⟨rfl, by simp [share, hl'], rfl, hle, le_rfl, le_rfl, rfl, rfl⟩
        exact ⟨hc, Backed.charged ⟨⟨hcread, hcmax, hcrecv, hcwin⟩,
          ⟨hread, hmax, hrecv, hwin⟩, hun⟩ hc
          hcmax hv, rfl, fun _ => rfl⟩
      next hl =>
        rw [if_neg hl]
        have hl' : fc.limited = true := by simpa using hl
        rw [Cfcw.incrMaxRecvOff, sub64_eq hle (by omega), add64_eq (by omega)] at hok ⊢
        by_cases hroom : cf.maxRecvOff + (off - fc.maxRecvOff) ≤ cf.recvOff
        · simp only [if_pos hroom]
          have hc : Charged cf fc { cf with maxRecvOff := cf.maxRecvOff + (off - fc.maxRecvOff) }
              { fc with maxRecvOff := off } := by
            refine ⟨rfl, ?_, rfl, hle, le_rfl, le_rfl, rfl, rfl⟩
            simp only [share, hl', if_true]
            omega
          exact ⟨hc, Backed.charged ⟨⟨hcread, hcmax, hcrecv, hcwin⟩, ⟨hread, hmax, hrecv, hwin⟩,
            hun⟩ hc hroom hv, trivial, fun _ => trivial⟩
        · simp only [if_neg hroom] at hok
          cases hok
    · cases hok

theorem setReadOff_eq (h : fc.Valid) (hb : Roomy cf fc) (hle : fc.readOff ≤ off)
    (hoff : off ≤ fc.maxRecvOff) : fc.setReadOff cf off =
      ({ cf with readOff := cf.readOff + fc.share (off - fc.readOff) },
        { fc with readOff := off }) := by
  obtain ⟨hread, hmax, hrecv, hwin⟩ := h
  obtain ⟨hb₁, hb₂⟩ := hb
  have hsub : sub64 off fc.readOff = off - fc.readOff := sub64_eq hle (by omega)
  have hadd : add64 cf.readOff (off - fc.readOff) = cf.readOff + (off - fc.readOff) :=
    add64_eq (by omega)
  rw [setReadOff, hsub, Cfcw.incrReadOff, hadd, share]
  by_cases hl : fc.limited = true
  · rw [if_pos hl, if_pos hl]
  · rw [if_neg hl, if_neg hl, Nat.add_zero]

theorem setReadOff_spec (h : Backed cf fc) (hb : Roomy cf fc) (hle : fc.readOff ≤ off)
    (hoff : off ≤ fc.maxRecvOff) :
    Charged cf fc (fc.setReadOff cf off).1 (fc.setReadOff cf off).2 ∧
    Backed (fc.setReadOff cf off).1 (fc.setReadOff cf off).2 ∧
    (fc.setReadOff cf off).2.maxRecvOff = fc.maxRecvOff := by
  rw [setReadOff_eq h.stream hb hle hoff]
  have hv : ({ fc with readOff := off } : Sfcw).Valid :=
    ⟨hoff, h.stream.maxRecvOff_le, Nat.le_trans h.stream.recvOff_le (Nat.add_le_add_right hle _),
      h.stream.win_lt⟩
  have hc : Charged cf fc { cf with readOff := cf.readOff + fc.share (off - fc.readOff) }
      { fc with readOff := off } := by
    refine ⟨rfl, rfl, ?_, le_rfl, hle, le_rfl, rfl, rfl⟩
    simp only [share]
    split <;> omega
  exact ⟨hc, h.charged hc h.conn.maxRecvOff_le hv, rfl⟩

theorem consumeRem_spec (h : Backed cf fc) (hb : Roomy cf fc) :
    Charged cf fc (fc.consumeRem cf).1 (fc.consumeRem cf).2 ∧
    Backed (fc.consumeRem cf).1 (fc.consumeRem cf).2 ∧
    (fc.consumeRem cf).2.readOff = fc.maxRecvOff ∧
    (fc.consumeRem cf).2.maxRecvOff = fc.maxRecvOff := by
  obtain ⟨hc, hbk, hmax⟩ := setReadOff_spec h hb h.stream.readOff_le le_rfl
  exact ⟨hc, hbk, rfl, hmax⟩

theorem fcOffsetsChanged_spec (h : Backed cf fc) (env : FcEnv)
    (hb : fc.readOff + 2 ^ 32 ≤ 2 ^ 64) :
    Charged cf fc cf (fc.fcOffsetsChanged env cf).1 ∧ Backed cf (fc.fcOffsetsChanged env cf).1 ∧
    (fc.fcOffsetsChanged env cf).1.maxRecvOff = fc.maxRecvOff ∧
    (fc.fcOffsetsChanged env cf).1.readOff = fc.readOff := by
  obtain ⟨hv, hmax, hread, hrecv⟩ := h.stream.offsetsChanged env
    (if fc.limited then min env.maxSfcw cf.maxRecvWin else env.maxSfcw) hb
  rw [fcOffsetsChanged]
  generalize fc.toRecvWindow.offsetsChanged env
    (if fc.limited then min env.maxSfcw cf.maxRecvWin else env.maxSfcw) = res at hv hmax hread hrecv
  obtain ⟨w, changed⟩ := res
  have hc : Charged cf fc cf { fc with toRecvWindow := w } := by
    refine ⟨rfl, ?_, ?_, Nat.le_of_eq hmax.symm, Nat.le_of_eq hread.symm, hrecv, rfl, rfl⟩
    · rw [show ({ fc with toRecvWindow := w } : Sfcw).maxRecvOff = fc.maxRecvOff from hmax]
    · rw [show ({ fc with toRecvWindow := w } : Sfcw).readOff = fc.readOff from hread]
  exact ⟨hc, h.charged hc h.conn.maxRecvOff_le hv, hmax, hread⟩

end

end Sfcw

end QuicArt
