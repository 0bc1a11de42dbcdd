import QuicArt.EngineSend

namespace QuicArt

namespace SendState

section
variable {ε : Type} {I : EngineIf ε} {st st' : SendState ε} {r : Report} {conn : OutConn}
  {skip : Nat}

def reportEvent (r : Report) (conn : OutConn) (p : OutPacket) : SendEvent :=
  .reported r conn (if r = .sent then { p with encrypted := false } else p)

structure Logs (st st' : SendState ε) (evs : List SendEvent) : Prop where
  trace : st'.trace = st.trace ++ evs
  outs : st'.outs = st.outs
  taken : st'.taken = st.taken
  batchSize : st'.batchSize = st.batchSize

theorem Logs.refl (st : SendState ε) : Logs st st [] := ⟨by simp, rfl, rfl, rfl⟩

theorem Logs.trans (h : Logs st st₁ evs) (h' : Logs st₁ st' evs') : Logs st st' (evs ++ evs') :=
  ⟨by rw [h'.trace, h.trace, List.append_assoc], h'.outs.trans h.outs, h'.taken.trans h.taken,
    h'.batchSize.trans h.batchSize⟩

theorem report_logs (p : OutPacket) : Logs st (st.report I r conn p) [reportEvent r conn p] :=
  ⟨rfl, rfl, rfl, rfl⟩

theorem reports_logs (ps : List OutPacket) :
    Logs st (ps.foldl (report I r conn) st) (ps.map (reportEvent r conn)) := by
  induction ps generalizing st with
  | nil => exact .refl st
  | cons p ps ih => exact (report_logs p).trans ih

theorem closeConnOnSendError_logs :
    Logs st (st.closeConnOnSendError I conn) [.sendError conn] := by
  rw [closeConnOnSendError]
  split
  · exact ⟨rfl, rfl, rfl, rfl⟩
  · exact ⟨rfl, rfl, rfl, rfl⟩

def sentEvents (ds : List Datagram) : List SendEvent :=
  ds.flatMap fun d => d.packets.map (reportEvent .sent d.conn)

def notSentEvents (ds : List Datagram) : List SendEvent :=
  ds.reverse.flatMap fun d => d.packets.reverse.map (reportEvent .notSent d.conn)

theorem reportSent_logs (ds : List Datagram) : Logs st (st.reportSent I ds) (sentEvents ds) := by
  induction ds generalizing st with
  | nil => exact .refl st
  | cons d ds ih => exact (reports_logs d.packets).trans ih

theorem giveBack_logs (d : Datagram) :
    Logs st (st.giveBack I d) (d.packets.reverse.map (reportEvent .notSent d.conn)) := by
  have h := @reports_logs _ I st .notSent d.conn d.packets.reverse
  rw [giveBack]
  split
  · exact h
  · exact { h with }

theorem giveBackFrom_logs (i : Nat) :
    Logs st (st.giveBackFrom I i) (notSentEvents (st.outs.drop i)) := by
  rw [giveBackFrom, notSentEvents]
  induction (st.outs.drop i).reverse generalizing st with
  | nil => exact .refl st
  | cons d ds ih => exact (giveBack_logs d).trans ih

theorem cannotSend_logs (now : Time) (k : Nat) (e : SendErrno) :
    Logs st (st.cannotSend I now k e)
      (if e = .again ∨ e = .wouldblock then []
        else (st.outs[k]?).toList.map fun d => .sendError d.conn) := by
  rw [cannotSend]
  split
  · exact ⟨by simp, rfl, rfl, rfl⟩
  · cases hd : st.outs[k]? with
    | none => exact ⟨by simp, rfl, rfl, rfl⟩
    | some d =>
      have h := @closeConnOnSendError_logs _ I
        { st with canSend := false, resumeSendingAt := now + 1000000 } d.conn
      exact { h with }

def errorEvents (outs : List Datagram) (c : OutCall) : List SendEvent :=
  if c.nSent < (outs.length - c.skip : Nat) ∧ c.errno = .other then
    (outs[c.nSent.toNat]?).toList.map fun d => .sendError d.conn
  else []

def callEvents (outs : List Datagram) (c : OutCall) : List SendEvent :=
  errorEvents outs c ++ sentEvents ((outs.drop c.skip).take c.nSent.toNat)

theorem afterCall_logs (I : EngineIf ε) (st : SendState ε) (c : OutCall) :
    Logs st (st.afterCall I c) (.called c :: callEvents st.outs c) := by
  rw [afterCall]
  have hlog : Logs st (st.log (.called c)) [.called c] := ⟨rfl, rfl, rfl, rfl⟩
  generalize st.log (.called c) = st₁ at hlog
  have herr : Logs st₁ (if c.nSent < (st₁.outs.length - c.skip : Nat) ∧ c.errno ≠ .msgsize then
      st₁.cannotSend I c.now c.nSent.toNat c.errno else st₁) (errorEvents st.outs c) := by
    rw [errorEvents, hlog.outs]
    split
    next h =>
      have hc := @cannotSend_logs _ I st₁ c.now c.nSent.toNat c.errno
      rw [hlog.outs] at hc
      cases he : c.errno with
      | again => simpa [he] using hc
      | wouldblock => simpa [he] using hc
      | msgsize => exact absurd he h.2
      | other => simpa [he, h.1] using hc
    next h =>
      rw [if_neg]
      · exact .refl st₁
      · intro h'
        exact h ⟨h'.1, by simp [h'.2]⟩
  generalize (if c.nSent < (st₁.outs.length - c.skip : Nat) ∧ c.errno ≠ .msgsize then
      st₁.cannotSend I c.now c.nSent.toNat c.errno else st₁) = st₂ at herr
  have hlast : Logs st₂
      (if 0 < c.nSent then { st₂ with lastSent := c.now + c.nSent.toNat } else st₂) [] := by
    split
    · exact ⟨by simp, rfl, rfl, rfl⟩
    · exact .refl st₂
  generalize (if 0 < c.nSent then { st₂ with lastSent := c.now + c.nSent.toNat } else st₂) = st₃
    at hlast
  have hall := (hlog.trans herr).trans hlast
  have hsent := hall.trans
    (@reportSent_logs _ I st₃ ((st₃.outs.drop c.skip).take c.nSent.toNat))
  rw [hall.outs] at hsent
  rw [hall.outs]
  simpa [callEvents] using hsent

def restEvents (outs : List Datagram) (c : OutCall) : List SendEvent :=
  match outs[c.skip + c.nSent.toNat]? with
  | none => []
  | some d =>
    if c.errno = .msgsize then
      match d.packets with
      | [p] =>
        if d.conn.packetTooLarge then [.reported .tooLarge d.conn p]
        else .sendError d.conn :: notSentEvents (outs.drop (c.skip + c.nSent.toNat))
      | _ => .sendError d.conn :: notSentEvents (outs.drop (c.skip + c.nSent.toNat))
    else notSentEvents (outs.drop (c.skip + c.nSent.toNat))

def outcome (outs : List Datagram) (c : OutCall) : Outcome :=
  match outs[c.skip + c.nSent.toNat]? with
  | none => .done (c.skip + c.nSent.toNat)
  | some d =>
    if c.errno = .msgsize ∧ d.packets.length = 1 ∧ d.conn.packetTooLarge then
      if c.skip + c.nSent.toNat + 1 < outs.length then .restart (c.skip + c.nSent.toNat + 1)
      else .done (c.skip + outs.length)
    else .done (c.skip + c.nSent.toNat)

section
variable (I : EngineIf ε) (st : SendState ε) (skip : Nat)

/-- What one call of `packets_out` logs, and how the attempt ends. -/
theorem attempt_spec :
    Logs { st with outs := (st.callOut I skip).2.1 } (st.attempt I skip).1
      (.called (st.callOut I skip).1 ::
        (callEvents (st.callOut I skip).2.1 (st.callOut I skip).1 ++
          restEvents (st.callOut I skip).2.1 (st.callOut I skip).1)) ∧
    (st.attempt I skip).2 = outcome (st.callOut I skip).2.1 (st.callOut I skip).1 := by
  have hskip : (st.callOut I skip).1.skip = skip := rfl
  rw [attempt]
  generalize st.callOut I skip = res at hskip
  obtain ⟨c, outs, env⟩ := res
  obtain rfl : c.skip = skip := hskip
  have hcall := afterCall_logs I { st with env, outs } c
  simp only at hcall ⊢
  generalize { st with env, outs }.afterCall I c = st₁ at hcall
  have hl : Logs { st with outs } st₁ (.called c :: callEvents outs c) :=
    { hcall with }
  have houts : st₁.outs = outs := hcall.outs
  rw [restEvents, outcome, houts]
  have hback : Logs { st with outs } (st₁.giveBackFrom I (c.skip + c.nSent.toNat))
      (.called c :: (callEvents outs c ++ notSentEvents (outs.drop (c.skip + c.nSent.toNat)))) := by
    have h := hl.trans (giveBackFrom_logs (I := I) (c.skip + c.nSent.toNat))
    rw [houts] at h
    exact h
  cases hd : outs[c.skip + c.nSent.toNat]? with
  | none =>
    rw [List.getElem?_eq_none_iff] at hd
    rw [List.drop_eq_nil_of_le hd] at hback
    exact ⟨hback, rfl⟩
  | some d =>
    have hclose : Logs { st with outs }
        ((st₁.closeConnOnSendError I d.conn).giveBackFrom I (c.skip + c.nSent.toNat))
        (.called c :: (callEvents outs c ++
          .sendError d.conn :: notSentEvents (outs.drop (c.skip + c.nSent.toNat)))) := by
      have h₁ := @closeConnOnSendError_logs _ I st₁ d.conn
      have h := (hl.trans h₁).trans (giveBackFrom_logs (I := I) (c.skip + c.nSent.toNat))
      rw [h₁.outs, houts] at h
      simpa using h
    obtain ⟨conn, packets⟩ := d
    simp only at hclose ⊢
    split
    next he =>
      rcases packets with _ | ⟨p, _ | ⟨q, ps⟩⟩
      · exact ⟨hclose, by simp⟩
      · simp only
        split
        next ht => exact ⟨hl.trans (report_logs p), by simp [he, ht]⟩
        next ht => exact ⟨hclose, by simp [ht]⟩
      · exact ⟨hclose, by simp⟩
    next he => exact ⟨hback, by simp [he]⟩

theorem callOut_length : (st.callOut I skip).2.1.length = st.outs.length := by
  rw [callOut, stamp, List.length_mapIdx]

theorem attempt_length : (st.attempt I skip).1.outs.length = st.outs.length := by
  rw [(attempt_spec I st skip).1.outs]
  exact callOut_length I st skip

end

theorem attempt_restart (h : (st.attempt I skip).2 = .restart skip') :
    skip < skip' ∧ skip' < st.outs.length := by
  rw [(attempt_spec I st skip).2, outcome] at h
  have hskip : (st.callOut I skip).1.skip = skip := rfl
  rw [hskip, callOut_length] at h
  split at h
  · cases h
  · split at h
    · split at h
      next hlt =>
        cases h
        exact ⟨by omega, hlt⟩
      · cases h
    · cases h

theorem sendFrom_batchSize (I : EngineIf ε) (fuel : Nat) (st : SendState ε) (skip : Nat) :
    (sendFrom I fuel st skip).1.batchSize = st.batchSize := by
  induction fuel generalizing st skip with
  | zero => rfl
  | succ fuel ih =>
    have hstep : (st.attempt I skip).1.batchSize = st.batchSize :=
      (attempt_spec I st skip).1.batchSize
    rw [sendFrom]
    generalize st.attempt I skip = res at hstep
    obtain ⟨st₁, out⟩ := res
    cases out with
    | done w => exact hstep
    | restart skip' => exact (ih st₁ skip').trans hstep

end

end SendState

end QuicArt
