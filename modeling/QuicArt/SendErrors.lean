import QuicArt.BatchTrace

namespace QuicArt

/-- The connection that is closed owns the first datagram that was not sent, and a packet that was
sent carries the time taken before the call. -/
def SendEvent.RightAfter (conns : List OutConn) (c : OutCall) : SendEvent → Prop
  | .sendError conn => conns[c.skip + c.nSent.toNat]? = some conn
  | .reported .sent _ p => p.sent = c.now
  | _ => True

/-- The events of a trace are as expected, each after the last call before it. -/
def Rightly (conns : List OutConn) : Option OutCall → List SendEvent → Prop
  | _, [] => True
  | _, .called c :: tr => Rightly conns (some c) tr
  | call, e :: tr => (∀ c, call = some c → e.RightAfter conns c) ∧ Rightly conns call tr

namespace SendState

section
variable {ε : Type} {I : EngineIf ε} {st : SendState ε} {skip : Nat} {conns : List OutConn}
  {c : OutCall} {outs : List Datagram}

/-- The states that `restart_batch` is reached in. -/
def attempts (I : EngineIf ε) : Nat → SendState ε → Nat → List (SendState ε × Nat)
  | 0, _, _ => []
  | fuel + 1, st, skip =>
    (st, skip) ::
      match st.attempt I skip with
      | (st, .restart skip) => attempts I fuel st skip
      | (_, .done _) => []

/-- If the call fails, the connection at the number of datagrams sent owns the one where it stopped;
what it sends behind the number of datagrams left has its time already. -/
structure Aligned (I : EngineIf ε) (st : SendState ε) (skip : Nat) : Prop where
  conn : (st.callOut I skip).1.errno = .other →
    (st.callOut I skip).1.nSent < (st.outs.length - skip : Nat) →
    (st.outs[(st.callOut I skip).1.nSent.toNat]?).map Datagram.conn =
      (st.outs[skip + (st.callOut I skip).1.nSent.toNat]?).map Datagram.conn
  time : ∀ i d p, skip ≤ i → st.outs.length - skip ≤ i →
    i < skip + (st.callOut I skip).1.nSent.toNat → st.outs[i]? = some d → p ∈ d.packets →
    p.sent = (st.callOut I skip).1.now

theorem stamp_conn (now : Time) (start stop : Nat) (outs : List Datagram) :
    (stamp now start stop outs).map Datagram.conn = outs.map Datagram.conn := by
  apply List.ext_getElem?
  intro k
  rw [List.getElem?_map, List.getElem?_map, stamp, List.getElem?_mapIdx, Option.map_map]
  congr 1
  funext d
  simp only [Function.comp]
  split <;> rfl

theorem stamp_length (now : Time) (start stop : Nat) (outs : List Datagram) :
    (stamp now start stop outs).length = outs.length := by
  rw [stamp, List.length_mapIdx]

theorem rightly_append {evs tr : List SendEvent} (hno : ∀ c, .called c ∉ evs) :
    Rightly conns (some c) (evs ++ tr) ↔
      (∀ e ∈ evs, e.RightAfter conns c) ∧ Rightly conns (some c) tr := by
  induction evs with
  | nil => simp
  | cons e evs ih =>
    have ih' := ih fun c h => hno c (.tail _ h)
    have hcons : Rightly conns (some c) (e :: (evs ++ tr)) ↔
        e.RightAfter conns c ∧ Rightly conns (some c) (evs ++ tr) := by
      cases e with
      | called c' => exact absurd (.head _) (hno c')
      | took conn t => simp [Rightly]
      | failed conn t b => simp [Rightly]
      | sendError conn => simp [Rightly]
      | reported r conn p => simp [Rightly]
    rw [List.cons_append, hcons, ih', List.forall_mem_cons, and_assoc]

theorem errorEvents_right :
    (∀ e ∈ errorEvents outs c, e.RightAfter (outs.map Datagram.conn) c) ↔
      (c.errno = .other → c.nSent < (outs.length - c.skip : Nat) →
        (outs[c.nSent.toNat]?).map Datagram.conn =
          (outs[c.skip + c.nSent.toNat]?).map Datagram.conn) := by
  rw [errorEvents]
  split
  next h =>
    cases hd : outs[c.nSent.toNat]? with
    | none =>
      -- the connection is looked up behind the batch only if there is no datagram at all
      have hlen := List.getElem?_eq_none_iff.1 hd
      have hd' : outs[c.skip + c.nSent.toNat]? = none :=
        List.getElem?_eq_none (Nat.le_trans hlen (Nat.le_add_left _ _))
      simp [hd']
    | some d => simp [SendEvent.RightAfter, h.1, h.2, eq_comm]
  next h =>
    constructor
    · intro _ he hlt
      exact absurd ⟨hlt, he⟩ h
    · intro _ e he
      cases he

theorem sentEvents_right {ds : List Datagram} :
    (∀ e ∈ sentEvents ds, e.RightAfter conns c) ↔ ∀ d ∈ ds, ∀ p ∈ d.packets, p.sent = c.now := by
  constructor
  · intro h d hd p hp
    exact h (reportEvent .sent d.conn p)
      (List.mem_flatMap.2 ⟨d, hd, List.mem_map.2 ⟨p, hp, rfl⟩⟩)
  · intro h e he
    obtain ⟨d, hd, he⟩ := List.mem_flatMap.1 he
    obtain ⟨p, hp, rfl⟩ := List.mem_map.1 he
    exact h d hd p hp

theorem notSentEvents_right {ds : List Datagram} :
    ∀ e ∈ notSentEvents ds, e.RightAfter conns c := by
  intro e he
  obtain ⟨d, -, he⟩ := List.mem_flatMap.1 he
  obtain ⟨p, -, rfl⟩ := List.mem_map.1 he
  trivial

theorem restEvents_right :
    ∀ e ∈ restEvents outs c, e.RightAfter (outs.map Datagram.conn) c := by
  intro e he
  rw [restEvents] at he
  cases hd : outs[c.skip + c.nSent.toNat]? with
  | none =>
    rw [hd] at he
    cases he
  | some d =>
    have hclose : e ∈ SendEvent.sendError d.conn ::
        notSentEvents (outs.drop (c.skip + c.nSent.toNat)) →
        e.RightAfter (outs.map Datagram.conn) c := by
      intro he
      rcases List.mem_cons.1 he with rfl | he
      · rw [SendEvent.RightAfter, List.getElem?_map, hd]
        rfl
      · exact notSentEvents_right e he
    rw [hd] at he
    simp only at he
    split at he
    · split at he
      next p hp =>
        split at he
        · obtain rfl := List.mem_singleton.1 he
          trivial
        · exact hclose he
      · exact hclose he
    · exact notSentEvents_right e he

theorem stamped_sent (now : Time) (n k : Nat) :
    (∀ d ∈ ((stamp now skip n outs).drop skip).take k, ∀ p ∈ d.packets, p.sent = now) ↔
      ∀ i d p, skip ≤ i → n ≤ i → i < skip + k → outs[i]? = some d → p ∈ d.packets →
        p.sent = now := by
  have hget : ∀ i, (stamp now skip n outs)[i]? = (outs[i]?).map fun d =>
      if skip ≤ i ∧ i < n then { d with packets := d.packets.map fun p => { p with sent := now } }
      else d := by
    intro i
    rw [stamp, List.getElem?_mapIdx]
  constructor
  · intro h i d p hskip hn hk hd hp
    refine h d ?_ p hp
    have hi := hget i
    rw [hd, Option.map_some, if_neg (by omega)] at hi
    rw [List.mem_iff_getElem?]
    refine ⟨i - skip, ?_⟩
    rw [List.getElem?_take_of_lt (by omega), List.getElem?_drop, Nat.add_sub_cancel' hskip]
    exact hi
  · intro h d hd p hp
    obtain ⟨j, hj⟩ := List.mem_iff_getElem?.1 hd
    have hjk : j < k := by
      have hlt := (List.getElem?_eq_some_iff.1 hj).1
      rw [List.length_take] at hlt
      omega
    rw [List.getElem?_take_of_lt hjk, List.getElem?_drop, hget, Option.map_eq_some_iff] at hj
    obtain ⟨d', hd', rfl⟩ := hj
    split at hp
    · obtain ⟨q, -, rfl⟩ := List.mem_map.1 hp
      rfl
    next hn => exact h (skip + j) d' p (by omega) (by omega) (by omega) hd' hp

theorem called_notMem_attempt : ∀ c', .called c' ∉ callEvents outs c ++ restEvents outs c := by
  have hsent : ∀ {ds : List Datagram} {c'}, .called c' ∉ sentEvents ds := by
    intro ds c' h
    obtain ⟨d, -, h⟩ := List.mem_flatMap.1 h
    obtain ⟨p, -, h⟩ := List.mem_map.1 h
    cases h
  have hback : ∀ {ds : List Datagram} {c'}, .called c' ∉ notSentEvents ds := by
    intro ds c' h
    obtain ⟨d, -, h⟩ := List.mem_flatMap.1 h
    obtain ⟨p, -, h⟩ := List.mem_map.1 h
    cases h
  intro c' h
  rw [callEvents, List.mem_append, List.mem_append] at h
  rcases h with (h | h) | h
  · rw [errorEvents] at h
    split at h
    · obtain ⟨d, -, h⟩ := List.mem_map.1 h
      cases h
    · cases h
  · exact hsent h
  · rw [restEvents] at h
    split at h
    · cases h
    · split at h
      · split at h
        · split at h
          · exact absurd h (by simp)
          · exact hback (by simpa using h)
        · exact hback (by simpa using h)
      · exact hback h

theorem attempt_right (I : EngineIf ε) (st : SendState ε) (skip : Nat) :
    (∀ e ∈ callEvents (st.callOut I skip).2.1 (st.callOut I skip).1 ++
        restEvents (st.callOut I skip).2.1 (st.callOut I skip).1,
      e.RightAfter (st.outs.map Datagram.conn) (st.callOut I skip).1) ↔ st.Aligned I skip := by
  have hskip : (st.callOut I skip).1.skip = skip := rfl
  have houts : (st.callOut I skip).2.1 =
      stamp (st.callOut I skip).1.now skip (st.outs.length - skip) st.outs := rfl
  have hconn := stamp_conn (st.callOut I skip).1.now skip (st.outs.length - skip) st.outs
  have hlen := stamp_length (st.callOut I skip).1.now skip (st.outs.length - skip) st.outs
  rw [← houts] at hconn hlen
  have hget : ∀ k : Nat, ((st.callOut I skip).2.1[k]?).map Datagram.conn =
      (st.outs[k]?).map Datagram.conn := by
    intro k
    rw [← List.getElem?_map, hconn, List.getElem?_map]
  have herr := @errorEvents_right (st.callOut I skip).1 (st.callOut I skip).2.1
  have hrest := @restEvents_right (st.callOut I skip).1 (st.callOut I skip).2.1
  have hsent := @stamped_sent skip st.outs (st.callOut I skip).1.now
    (st.outs.length - skip) (st.callOut I skip).1.nSent.toNat
  rw [hconn, hget, hget, hlen, hskip] at herr
  rw [hconn] at hrest
  rw [← houts] at hsent
  rw [List.forall_mem_append, callEvents, List.forall_mem_append, herr, sentEvents_right, hskip,
    hsent]
  constructor
  · intro h
    exact ⟨h.1.1, h.1.2⟩
  · intro h
    exact ⟨⟨h.conn, h.time⟩, hrest⟩

/-- What a batch reports is right if each of its attempts is aligned. -/
theorem sendFrom_rightly (I : EngineIf ε) (fuel : Nat) (st : SendState ε) (skip : Nat) :
    ∃ evs, (sendFrom I fuel st skip).1.trace = st.trace ++ evs ∧
      ∀ call, Rightly (st.outs.map Datagram.conn) call evs ↔
        ∀ a ∈ attempts I fuel st skip, a.1.Aligned I a.2 := by
  induction fuel generalizing st skip with
  | zero => exact ⟨[], by simp [sendFrom], fun call => by simp [Rightly, attempts]⟩
  | succ fuel ih =>
    obtain ⟨hlog, -⟩ := attempt_spec I st skip
    have hright := attempt_right I st skip
    have hno := @called_notMem_attempt (st.callOut I skip).1 (st.callOut I skip).2.1
    have hconn : (st.attempt I skip).1.outs.map Datagram.conn = st.outs.map Datagram.conn := by
      rw [hlog.outs]
      exact stamp_conn _ _ _ _
    generalize callEvents (st.callOut I skip).2.1 (st.callOut I skip).1 ++
      restEvents (st.callOut I skip).2.1 (st.callOut I skip).1 = evs at hlog hright hno
    generalize (st.callOut I skip).1 = c at hlog hright
    have htrace : (st.attempt I skip).1.trace = st.trace ++ .called c :: evs := hlog.trace
    rw [sendFrom, attempts]
    generalize st.attempt I skip = res at hconn htrace
    obtain ⟨st₁, out⟩ := res
    have hone := @rightly_append (st.outs.map Datagram.conn) c _ [] hno
    cases out with
    | done w =>
      refine ⟨.called c :: evs, htrace, fun call => ?_⟩
      rw [List.append_nil] at hone
      rw [Rightly, hone, hright]
      simp [Rightly]
    | restart skip' =>
      obtain ⟨evs', htr, hiff⟩ := ih st₁ skip'
      refine ⟨.called c :: (evs ++ evs'), ?_, fun call => ?_⟩
      · simp only at htrace htr ⊢
        rw [htr, htrace, List.append_assoc, List.cons_append]
      · have hc : st₁.outs.map Datagram.conn = st.outs.map Datagram.conn := hconn
        rw [Rightly, rightly_append hno, hright, ← hc, hiff, List.forall_mem_cons]

/-- Each datagram gets its own result exactly when every attempt of the batch is aligned. -/
theorem send_batch_right_iff (I : EngineIf ε) (st : SendState ε) :
    Rightly (st.outs.map Datagram.conn) none
        ((st.sendBatch I).1.trace.drop st.trace.length) ↔
      ∀ a ∈ attempts I st.outs.length (st.applyHp I) 0, a.1.Aligned I a.2 := by
  obtain ⟨evs, htr, hiff⟩ := sendFrom_rightly I st.outs.length (st.applyHp I) 0
  have htr' : (st.sendBatch I).1.trace = st.trace ++ evs := htr
  rw [htr', List.drop_left]
  exact hiff none

/-- The results of `packets_out` are written down; the clock shows how many are left. -/
def scripted : EngineIf (List (Int × SendErrno)) where
  timeNow env := (env.length, env)
  prqNextConn env := (none, env)
  prqDrop _ env := env
  flushEncryption _ env := env
  nextPacketToSend _ _ env := (none, env)
  encryptPacket _ _ env := (.nomem, env)
  copyPacket _ _ env := (false, env)
  packetsOut _ env := (env.headD (0, .again), env.tail)
  report _ _ _ env := env

def threeConns (script : List (Int × SendErrno)) : SendState (List (Int × SendErrno)) where
  env := script
  outs := [⟨⟨0, true, false, true⟩, [{}]⟩, ⟨⟨1, true, false, true⟩, [{ ticket := 1 }]⟩,
    ⟨⟨2, true, false, true⟩, [{ ticket := 2 }]⟩]

/-- The second call fails at the second datagram and the first connection is closed; or the last
packet has the time of the first call. -/
theorem restart_blames_wrong_connection :
    ((threeConns [(-1, .msgsize), (-1, .other)]).sendBatch scripted).1.trace =
        [.called ⟨2, 0, -1, .msgsize⟩, .reported .tooLarge ⟨0, true, false, true⟩ { sent := 2 },
          .called ⟨1, 1, -1, .other⟩, .sendError ⟨0, true, false, true⟩,
          .reported .notSent ⟨2, true, false, true⟩ { sent := 2, ticket := 2 },
          .reported .notSent ⟨1, true, false, true⟩ { sent := 1, ticket := 1 }] ∧
      ¬ Rightly ((threeConns []).outs.map Datagram.conn) none
        ((threeConns [(-1, .msgsize), (-1, .other)]).sendBatch scripted).1.trace ∧
    ((threeConns [(-1, .msgsize), (2, .again)]).sendBatch scripted).1.trace =
        [.called ⟨2, 0, -1, .msgsize⟩, .reported .tooLarge ⟨0, true, false, true⟩ { sent := 2 },
          .called ⟨1, 1, 2, .again⟩,
          .reported .sent ⟨1, true, false, true⟩ { sent := 1, ticket := 1 },
          .reported .sent ⟨2, true, false, true⟩ { sent := 2, ticket := 2 }] ∧
      ¬ Rightly ((threeConns []).outs.map Datagram.conn) none
        ((threeConns [(-1, .msgsize), (2, .again)]).sendBatch scripted).1.trace := by
  have wrong {t u : List SendEvent} (h : t = u)
      (hu : ¬ Rightly ((threeConns []).outs.map Datagram.conn) none u) :
      t = u ∧ ¬ Rightly ((threeConns []).outs.map Datagram.conn) none t := ⟨h, h ▸ hu⟩
  rw [← and_assoc]
  constructor
  · exact wrong (by decide +kernel) (by simp [Rightly, SendEvent.RightAfter, threeConns])
  · exact wrong (by decide +kernel) (by simp [Rightly, SendEvent.RightAfter])

end

end SendState

end QuicArt
