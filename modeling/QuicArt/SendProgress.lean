import QuicArt.PacketTickets

namespace QuicArt

/-- `μ` bounds the packets: it goes down when one is taken, and up only when one comes back unsent.
A connection of the queue of requests has a packet that is not encrypted. -/
structure Supply (I : EngineIf ε) (μ : ε → Nat) : Prop where
  timeNow : ∀ env, μ (I.timeNow env).2 ≤ μ env
  prqNextConn : ∀ env, μ (I.prqNextConn env).2 ≤ μ env
  prqDrop : ∀ c env, μ (I.prqDrop c env) ≤ μ env
  flushEncryption : ∀ c env, μ (I.flushEncryption c env) ≤ μ env
  none : ∀ c coal env, μ (I.nextPacketToSend c coal env).2 ≤ μ env
  some : ∀ c coal env, (I.nextPacketToSend c coal env).1.isSome = true →
    μ (I.nextPacketToSend c coal env).2 < μ env
  encryptPacket : ∀ c p env, μ (I.encryptPacket c p env).2 ≤ μ env
  copyPacket : ∀ c p env, μ (I.copyPacket c p env).2 ≤ μ env
  packetsOut : ∀ ds env, μ (I.packetsOut ds env).2 ≤ μ env
  report : ∀ r c p env, r ≠ .notSent → μ (I.report r c p env) ≤ μ env
  notSent : ∀ c p env, μ (I.report .notSent c p env) ≤ μ env + 1
  evanescent : ∀ env c, (I.prqNextConn env).1 = Option.some c →
    c.evanescent = true ∧ (I.nextPacketToSend c Option.none (I.prqNextConn env).2).1.isSome = true
  plain : ∀ c p env, c.evanescent = true → (I.encryptPacket c p env).1 ≠ .badcrypt

namespace SendState

section
variable {ε : Type} {I : EngineIf ε} {μ : ε → Nat} {st st' : SendState ε} {conn : OutConn}

structure Calm (μ : ε → Nat) (st st' : SendState ε) : Prop where
  env : μ st'.env ≤ μ st.env
  iter : st'.iter = st.iter
  batchSize : st'.batchSize = st.batchSize
  maxBatchSize : st'.maxBatchSize = st.maxBatchSize

theorem Calm.refl (st : SendState ε) : Calm μ st st := ⟨le_rfl, rfl, rfl, rfl⟩

theorem Calm.trans (h : Calm μ st st₁) (h' : Calm μ st₁ st') : Calm μ st st' :=
  ⟨Nat.le_trans h'.env h.env, h'.iter.trans h.iter, h'.batchSize.trans h.batchSize,
    h'.maxBatchSize.trans h.maxBatchSize⟩

theorem Calm.maybe {b : Prop} [Decidable b] (h : Calm μ st st₁) (h' : Calm μ st₁ st') :
    Calm μ st (if b then st' else st₁) := by
  split
  · exact h.trans h'
  · exact h

section
variable (hs : Supply I μ)
include hs

theorem report_calm {r : Report} (hr : r ≠ .notSent) (p : OutPacket) :
    Calm μ st (st.report I r conn p) := ⟨hs.report r conn _ st.env hr, rfl, rfl, rfl⟩

theorem reportSent_calm (ds : List Datagram) : Calm μ st (st.reportSent I ds) := by
  have hone : ∀ (conn : OutConn) (ps : List OutPacket) (st : SendState ε),
      Calm μ st (ps.foldl (report I .sent conn) st) := by
    intro conn ps
    induction ps with
    | nil => exact Calm.refl
    | cons p ps ih => exact fun st => (report_calm hs (by simp) p).trans (ih _)
  induction ds generalizing st with
  | nil => exact .refl st
  | cons d ds ih => exact (hone d.conn d.packets st).trans ih

theorem closeConnOnSendError_calm : Calm μ st (st.closeConnOnSendError I conn) := by
  rw [closeConnOnSendError]
  split
  · exact ⟨hs.prqDrop conn _, rfl, rfl, rfl⟩
  · exact ⟨le_rfl, rfl, rfl, rfl⟩

theorem cannotSend_calm (now : Time) (k : Nat) (e : SendErrno) :
    Calm μ st (st.cannotSend I now k e) := by
  have hset : Calm μ st { st with canSend := false, resumeSendingAt := now + 1000000 } :=
    ⟨le_rfl, rfl, rfl, rfl⟩
  rw [cannotSend]
  split
  · exact hset
  · split
    · exact hset.trans (closeConnOnSendError_calm hs)
    · exact hset

theorem afterCall_calm (c : OutCall) : Calm μ st (st.afterCall I c) := by
  have hlog : Calm μ st (st.log (.called c)) := ⟨le_rfl, rfl, rfl, rfl⟩
  rw [afterCall]
  apply Calm.trans _ (reportSent_calm hs _)
  exact Calm.maybe (hlog.maybe (cannotSend_calm hs _ _ _)) ⟨le_rfl, rfl, rfl, rfl⟩

theorem callOut_calm (st : SendState ε) (skip : Nat) :
    Calm μ st { st with env := (st.callOut I skip).2.2, outs := (st.callOut I skip).2.1 } :=
  ⟨Nat.le_trans (hs.packetsOut _ _) (hs.timeNow st.env), rfl, rfl, rfl⟩

theorem attempt_calm (st : SendState ε) (skip : Nat)
    (hw : ∀ w, (st.attempt I skip).2 = .done w → st.outs.length ≤ w) :
    Calm μ st (st.attempt I skip).1 := by
  have hcall := callOut_calm hs st skip
  have hlen := callOut_length I st skip
  rw [attempt] at hw ⊢
  generalize st.callOut I skip = res at hcall hlen hw
  obtain ⟨c, outs, env⟩ := res
  simp only at hcall hlen hw ⊢
  have houts : ({ st with env, outs }.afterCall I c).outs = outs :=
    (afterCall_logs I { st with env, outs } c).outs
  have hafter := hcall.trans (@afterCall_calm _ _ _ { st with env, outs } hs c)
  generalize { st with env, outs }.afterCall I c = st₁ at hafter houts hw
  rw [houts] at hw ⊢
  cases hd : outs[skip + c.nSent.toNat]? with
  | none =>
    rw [List.getElem?_eq_none_iff] at hd
    simp only [giveBackFrom, houts, List.drop_eq_nil_of_le hd]
    exact hafter
  | some d =>
    have hlt := (List.getElem?_eq_some_iff.1 hd).1
    rw [hd] at hw
    obtain ⟨conn, packets⟩ := d
    simp only at hw ⊢
    split
    next he =>
      rw [if_pos he] at hw
      rcases packets with _ | ⟨p, _ | ⟨q, ps⟩⟩
      · exact absurd (hw _ rfl) (by omega)
      · simp only at hw ⊢
        split
        · exact hafter.trans (report_calm hs (by simp) p)
        next ht =>
          rw [if_neg ht] at hw
          exact absurd (hw _ rfl) (by omega)
      · exact absurd (hw _ rfl) (by omega)
    next he =>
      rw [if_neg he] at hw
      exact absurd (hw _ rfl) (by omega)

theorem sendFrom_calm {fuel skip : Nat} {st : SendState ε}
    (hskip : skip < st.outs.length) (hw : st.outs.length ≤ (sendFrom I fuel st skip).2) :
    Calm μ st (sendFrom I fuel st skip).1 := by
  induction fuel generalizing st skip with
  | zero => exact .refl st
  | succ fuel ih =>
    have hstep := attempt_calm hs st skip
    have hlen := attempt_length I st skip
    have hrestart : ∀ skip', (st.attempt I skip).2 = .restart skip' → skip' < st.outs.length :=
      fun skip' h => (attempt_restart h).2
    rw [sendFrom] at hw ⊢
    generalize st.attempt I skip = res at hstep hlen hrestart hw
    obtain ⟨st₁, out⟩ := res
    cases out with
    | done w =>
      refine hstep fun w' h => ?_
      cases h
      exact hw
    | restart skip' =>
      have hlt := hrestart skip' rfl
      have hlen' : st₁.outs.length = st.outs.length := hlen
      have hcalm : Calm μ st st₁ := hstep fun w h => absurd h (by simp)
      exact hcalm.trans (ih (by omega) (by rw [hlen']; exact hw))

theorem sendBatch_calm (hne : 0 < st.outs.length)
    (hw : st.outs.length ≤ (st.sendBatch I).2) : Calm μ st (st.sendBatch I).1 := by
  have hhp : Calm μ st (st.applyHp I) := by
    refine ⟨?_, rfl, rfl, rfl⟩
    rw [applyHp]
    generalize st.env = env
    induction st.iter.active ++ st.iter.inactive generalizing env with
    | nil => exact le_rfl
    | cons c cs ih => exact Nat.le_trans (ih _) (hs.flushEncryption c env)
  exact hhp.trans (@sendFrom_calm _ _ _ hs _ _ (st.applyHp I) hne hw)

end

structure Visiting (iter : ConnsOutIter) : Prop where
  nodup : (iter.heap ++ iter.active).Nodup
  regular : ∀ c ∈ iter.heap ++ iter.active, c.evanescent = false
  next : ∀ c, iter.next = some c → c ∈ iter.active

def work (μ : ε → Nat) (st : SendState ε) : Nat :=
  μ st.env + st.iter.heap.length + st.iter.active.length

structure Roomy (st : SendState ε) : Prop where
  outs : st.outs.length < st.batchSize
  max : 0 < st.maxBatchSize

def room (st : SendState ε) : List Datagram × Nat × Nat :=
  (st.outs, st.batchSize, st.maxBatchSize)

theorem Roomy.of_room (h : Roomy st) (he : st'.room = st.room) : Roomy st' := by
  simp only [room, Prod.mk.injEq] at he
  obtain ⟨houts, hsize, hmax⟩ := he
  constructor
  · rw [houts, hsize]
    exact h.outs
  · rw [hmax]
    exact h.max

theorem after_mem {l : List OutConn} {c d : OutConn} (hl : l.Nodup)
    (h : ConnsOutIter.after c l = some d) : d ∈ l ∧ d ≠ c := by
  induction l with
  | nil => exact absurd h (by simp [ConnsOutIter.after])
  | cons x l ih =>
    rw [List.nodup_cons] at hl
    rw [ConnsOutIter.after, List.dropWhile_cons] at h
    split at h
    next hx =>
      obtain ⟨hd, hne⟩ := ih hl.2 h
      exact ⟨.tail _ hd, hne⟩
    next hx =>
      have hxc : x = c := by simpa using hx
      have hd : d ∈ l := List.mem_of_head? h
      refine ⟨.tail _ hd, ?_⟩
      rintro rfl
      exact hl.1 (hxc ▸ hd)

theorem coiNext_spec (hs : Supply I μ) (hv : Visiting st.iter)
    (h : st.coiNext I = (some conn, st')) :
    Visiting st'.iter ∧ work μ st' ≤ work μ st ∧ st'.room = st.room ∧
    (conn ∈ st'.iter.active ∧ st'.iter.next ≠ some conn ∨
      conn.evanescent = true ∧ (I.nextPacketToSend conn none st'.env).1.isSome = true) := by
  rw [coiNext] at h
  split at h
  next c heap hheap =>
    obtain ⟨hc, rfl⟩ := Prod.mk.inj h
    obtain rfl := Option.some.inj hc
    have hnodup := hv.nodup
    have hreg := hv.regular
    rw [hheap] at hnodup hreg
    have hperm : (heap ++ (st.iter.active ++ [c])).Perm (c :: heap ++ st.iter.active) := by
      rw [← List.append_assoc]
      exact List.perm_append_singleton c _
    refine ⟨⟨hperm.nodup_iff.2 hnodup, fun d hd => hreg d (hperm.mem_iff.1 hd), ?_⟩, ?_, rfl,
      .inl ⟨by simp, ?_⟩⟩
    · intro d hd
      exact List.mem_append_left _ (hv.next d hd)
    · simp only [work, hheap, List.length_cons, List.length_append, List.length_nil]
      omega
    · intro hn
      rw [List.cons_append, List.nodup_cons] at hnodup
      exact hnodup.1 (List.mem_append_right _ (hv.next c hn))
  next hheap =>
    obtain ⟨conn?, env, hres, hle, hprq⟩ : ∃ conn? env,
        (if st.iter.prq then I.prqNextConn st.env else (none, st.env)) = (conn?, env) ∧
        μ env ≤ μ st.env ∧ (conn? = some conn →
          conn.evanescent = true ∧ (I.nextPacketToSend conn none env).1.isSome = true) := by
      split
      · exact ⟨_, _, rfl, hs.prqNextConn st.env, hs.evanescent st.env conn⟩
      · exact ⟨_, _, rfl, le_rfl, fun hc => absurd hc (by simp)⟩
    rw [hres] at h
    have hwork : work μ { st with env } ≤ work μ st := by
      simp only [work]
      omega
    cases conn? with
    | some c =>
      obtain ⟨hc, rfl⟩ := Prod.mk.inj h
      exact ⟨hv, hwork, rfl, .inr (hprq hc)⟩
    | none =>
      simp only at h
      split at h
      · exact absurd h (by simp)
      next first rest hactive =>
        obtain ⟨hc, rfl⟩ := Prod.mk.inj h
        cases hc
        have hact : st.iter.active.Nodup := (List.nodup_append.1 hv.nodup).2.1
        refine ⟨⟨hv.nodup, hv.regular, fun d hd => (after_mem hact hd).1⟩, hwork, rfl,
          .inl ⟨?_, fun hn => (after_mem hact hn).2 rfl⟩⟩
        cases hn : st.iter.next with
        | none =>
          simp only [Option.getD_none, hactive]
          exact .head _
        | some d => exact hv.next d hn

theorem deactivate_less (hv : Visiting st.iter) (hc : conn ∈ st.iter.active)
    (hn : st.iter.next ≠ some conn) (hi : st'.iter = st.iter.deactivate conn)
    (hμ : μ st'.env ≤ μ st.env) : Visiting st'.iter ∧ work μ st' < work μ st := by
  have hreg := hv.regular conn (List.mem_append_right _ hc)
  have hsub : (st.iter.heap ++ st.iter.active.erase conn).Sublist
      (st.iter.heap ++ st.iter.active) :=
    List.Sublist.append (List.Sublist.refl _) List.erase_sublist
  rw [work, hi, ConnsOutIter.deactivate, hreg]
  refine ⟨⟨hsub.nodup hv.nodup, fun d hd => hv.regular d (hsub.subset hd), ?_⟩, ?_⟩
  · intro d hd
    have hne : d ≠ conn := by
      rintro rfl
      exact hn hd
    exact (List.mem_erase_of_ne hne).2 (hv.next d hd)
  · have hlen := List.length_erase_of_mem hc
    have hpos := List.length_pos_of_mem hc
    simp only [work, Bool.false_eq_true, if_false]
    omega

theorem prepare_spec (hs : Supply I μ) (st : SendState ε) (p : OutPacket) :
    μ (st.prepare I conn p).2 ≤ μ st.env ∧
    (conn.evanescent = true → (st.prepare I conn p).1 ≠ .badcrypt) := by
  rw [prepare]
  split
  · exact ⟨hs.encryptPacket conn p st.env, hs.plain conn p st.env⟩
  · split
    · refine ⟨hs.copyPacket conn p st.env, fun _ => ?_⟩
      simp only
      split <;> simp
    · exact ⟨le_rfl, fun _ => by simp⟩

/-- A failure that goes on to the next connection gives one packet back and leaves this one out. -/
def Placed.Goes (μ : ε → Nat) (conn : OutConn) (st : SendState ε) : Placed ε → Prop
  | .full st' _ => μ st'.env ≤ μ st.env ∧ st'.iter = st.iter ∧ st'.room = st.room
  | .endFor _ => True
  | .nextConn st' => conn.evanescent = false ∧ μ st'.env ≤ μ st.env + 1 ∧
      st'.iter = st.iter.deactivate conn ∧ st'.room = st.room

theorem place_goes (hs : Supply I μ) (room : Nat) (before : List OutPacket) (p : OutPacket)
    (st : SendState ε) : (place I conn room before p st).Goes μ conn st := by
  induction room using Nat.strongRecOn generalizing before p st with
  | ind room ih =>
    obtain ⟨hle, hplain⟩ := @prepare_spec _ _ _ conn hs st p
    have hstep := @place_step _ I conn room before p st
    generalize place I conn room before p st = res at hstep
    cases hstep with
    | nomem => trivial
    | badcrypt h =>
      have hreg : conn.evanescent = false := by
        cases he : conn.evanescent with
        | false => rfl
        | true => exact absurd h (hplain he)
      have hμ := hs.notSent conn p (st.prepare I conn p).2
      rw [Placed.Goes, leaveConn, hreg]
      exact ⟨rfl, Nat.le_trans hμ (Nat.add_le_add_right hle 1), rfl, rfl⟩
    | full p' env' hp he =>
      have hle' : μ env' ≤ μ st.env := by
        rcases he with rfl | ⟨coal, rfl⟩
        · exact hle
        · exact Nat.le_trans (hs.none conn coal _) hle
      exact ⟨hle', rfl, rfl⟩
    | more room' p' next coal env' hroom hp he =>
      have hle' : μ env' ≤ μ st.env := by
        have h := hs.none conn coal (st.prepare I conn p).2
        rw [he] at h
        exact Nat.le_trans h hle
      have hgoes := ih room' (by omega) (before ++ [p'])
        (take { st with env := env', iovs := st.iovs + 1 } conn next).2
        (take { st with env := env', iovs := st.iovs + 1 } conn next).1
      generalize place I conn room' _ _ _ = res at hgoes
      cases res with
      | full st' packets => exact ⟨Nat.le_trans hgoes.1 hle', hgoes.2⟩
      | endFor st' => trivial
      | nextConn st' =>
        exact ⟨hgoes.1, Nat.le_trans hgoes.2.1 (Nat.add_le_add_right hle' 1), hgoes.2.2⟩

theorem checkDeadline_calm (hs : Supply I μ) (st : SendState ε) :
    Calm μ st (st.checkDeadline I).2 := by
  have htime := hs.timeNow st.env
  rw [checkDeadline]
  split
  · generalize I.timeNow st.env = res at htime
    obtain ⟨now, env⟩ := res
    simp only
    split
    · exact ⟨htime, rfl, rfl, rfl⟩
    · exact ⟨htime, rfl, rfl, rfl⟩
  · exact .refl st

theorem addDatagram_more (hs : Supply I μ) (hr : Roomy st) (d : Datagram)
    (h : st.addDatagram I d = (true, st')) :
    Roomy st' ∧ μ st'.env ≤ μ st.env ∧ st'.iter = st.iter := by
  rw [addDatagram] at h
  split at h
  · have hsent := @sendBatch_calm _ _ _ { st with outs := st.outs ++ [d] } hs (by simp)
    have hsize : ({ st with outs := st.outs ++ [d] }.sendBatch I).1.batchSize = st.batchSize :=
      sendFrom_batchSize I _ _ _
    generalize { st with outs := st.outs ++ [d] }.sendBatch I = res at hsent hsize h
    obtain ⟨st₁, w⟩ := res
    have hlt := hr.outs
    simp only [List.length_append, List.length_singleton] at hsent hsize h
    by_cases hw : w < st₁.emptyBatch.batchSize
    · rw [if_pos hw] at h
      exact absurd h (by simp)
    · have hw' : ¬ w < st₁.batchSize := hw
      have hcalm := hsent (by omega)
      have hdead := checkDeadline_calm hs st₁.emptyBatch
      have hnil : (st₁.emptyBatch.checkDeadline I).2.outs = [] :=
        (checkDeadline_same I st₁.emptyBatch).2.2
      rw [if_neg hw] at h
      generalize st₁.emptyBatch.checkDeadline I = res at h hdead hnil
      obtain ⟨past, st₂⟩ := res
      cases past with
      | true => exact absurd h (by simp)
      | false =>
        cases h
        have hmax : st₂.maxBatchSize = st.maxBatchSize :=
          hdead.maxBatchSize.trans hcalm.maxBatchSize
        have hbs : st₂.batchSize = st.batchSize := hdead.batchSize.trans hcalm.batchSize
        have hpos := hr.max
        simp only at hnil
        refine ⟨⟨?_, ?_⟩, Nat.le_trans hdead.env hcalm.env, hdead.iter.trans hcalm.iter⟩
        · simp only [growBatchSize, hnil, List.length_nil, hmax, hbs]
          omega
        · simp only [growBatchSize, hmax]
          exact hpos
  next hfull =>
    cases h
    refine ⟨⟨?_, hr.max⟩, le_rfl, rfl⟩
    have hlt := hr.outs
    simp only [List.length_append, List.length_singleton, not_or] at hfull ⊢
    omega

/-- A round after which the loop goes on leaves less work. -/
theorem round_more (hs : Supply I μ) (hv : Visiting st.iter) (hr : Roomy st)
    (h : st.round I = (true, st')) : Visiting st'.iter ∧ Roomy st' ∧ work μ st' < work μ st := by
  rw [round] at h
  cases hc : st.coiNext I with
  | mk conn? st₁ =>
    rw [hc] at h
    cases conn? with
    | none => exact absurd h (by simp)
    | some conn =>
      obtain ⟨hv₁, hw₁, hroom, hready⟩ := coiNext_spec hs hv hc
      have hr₁ := hr.of_room hroom
      have hnone := hs.none conn none st₁.env
      have hsome := hs.some conn none st₁.env
      simp only at h
      generalize I.nextPacketToSend conn none st₁.env = res at h hready hnone hsome
      obtain ⟨p?, env⟩ := res
      cases p? with
      | none =>
        cases h
        rcases hready with ⟨hin, hne⟩ | ⟨-, hc⟩
        · obtain ⟨hv', hlt⟩ := @deactivate_less _ μ _
            { st₁ with env, iter := st₁.iter.deactivate conn } _ hv₁ hin hne rfl hnone
          exact ⟨hv', hr₁.of_room rfl, Nat.lt_of_lt_of_le hlt hw₁⟩
        · exact absurd hc (by simp)
      | some p =>
        have hdown : μ env < μ st₁.env := hsome rfl
        have hgoes := @place_goes _ _ _ conn hs
          (maxOutIovs - (take { st₁ with env } conn p).1.iovs - 1) []
          (take { st₁ with env } conn p).2 (take { st₁ with env } conn p).1
        simp only [take] at h hgoes
        split at h
        next st₂ packets heq =>
          rw [heq] at hgoes
          obtain ⟨hμ₂, hiter₂, hroom₂⟩ := hgoes
          obtain ⟨hr', hμ, hiter⟩ := addDatagram_more hs (hr₁.of_room hroom₂) _ h
          have hiter' : st'.iter = st₁.iter := hiter.trans hiter₂
          have hμ' : μ st'.env ≤ μ env := Nat.le_trans hμ hμ₂
          refine ⟨by rw [hiter']; exact hv₁, hr', ?_⟩
          simp only [work] at hw₁ ⊢
          rw [hiter']
          omega
        · exact absurd h (by simp)
        next st₂ heq =>
          rw [heq] at hgoes
          obtain ⟨-, rfl⟩ := Prod.mk.inj h
          obtain ⟨hreg, hμ, hiter, hroom₂⟩ := hgoes
          rcases hready with ⟨hin, hne⟩ | ⟨hev, -⟩
          · obtain ⟨hv', hlt⟩ := deactivate_less hv₁ hin hne hiter (Nat.le_trans hμ hdown)
            exact ⟨hv', hr₁.of_room hroom₂, Nat.lt_of_lt_of_le hlt hw₁⟩
          · exact absurd (hreg.symm.trans hev) (by simp)

theorem rounds_end (hs : Supply I μ) (hv : Visiting st.iter) (hr : Roomy st) {fuel : Nat}
    (hf : work μ st < fuel) : (st.rounds I fuel).isSome = true := by
  induction fuel generalizing st with
  | zero => omega
  | succ fuel ih =>
    rw [rounds]
    cases hres : st.round I with
    | mk more st₁ =>
      cases more with
      | false => rfl
      | true =>
        obtain ⟨hv', hr', hlt⟩ := round_more hs hv hr hres
        exact ih hv' hr' (by omega)

/-- `send_packets_out` returns if there are finitely many packets; what is not sent is given back in
reverse order, and everything once if no packet failed behind another one of its datagram. -/
theorem packets_accounted_iff (I : EngineIf ε) (st : SendState ε) :
    (∀ μ, Supply I μ → st.iter.heap.Nodup → (∀ c ∈ st.iter.heap, c.evanescent = false) →
      0 < st.batchSize → 0 < st.maxBatchSize →
      (st.sendPacketsOut I (μ st.env + st.iter.heap.length + 1)).isSome = true) ∧
    ∀ fuel st', st.sendPacketsOut I fuel = some st' →
      GivenBackInReverse st'.trace ∧
      (Accounted st'.trace ↔ ∀ c t b, .failed c t b ∈ st'.trace → b = 0) := by
  constructor
  · intro μ hs hnodup hreg hsize hmax
    have hv : Visiting st.start.iter := by
      refine ⟨?_, fun c hc => hreg c ?_, fun c hc => absurd hc (by simp [start])⟩
      · rw [start, List.append_nil]
        exact hnodup
      · rw [start, List.append_nil] at hc
        exact hc
    have hr : Roomy st.start := ⟨hsize, hmax⟩
    have hend := rounds_end hs hv hr (Nat.lt_succ_self (work μ st.start))
    rw [sendPacketsOut, Option.isSome_map]
    exact hend
  · intro fuel st' h
    rw [sendPacketsOut, Option.map_eq_some_iff] at h
    obtain ⟨st₁, hrounds, rfl⟩ := h
    have hb := endFor_kept (I := I) (rounds_kept (start_kept st) hrounds)
    exact ⟨hb.reverse, hb.accounted_iff⟩

/-- A connection with a queue of packets, and whether there is memory to encrypt them. -/
structure PacketQueue where
  packets : List OutPacket
  memory : List Bool := []

def queueIf : EngineIf PacketQueue where
  timeNow q := (0, q)
  prqNextConn q := (none, q)
  prqDrop _ q := q
  flushEncryption _ q := q
  nextPacketToSend _ _ q := (q.packets.head?, { q with packets := q.packets.tail })
  encryptPacket _ _ q :=
    (if q.memory.headD true then .ok 0 else .nomem, { q with memory := q.memory.tail })
  copyPacket _ _ q := (false, q)
  packetsOut ds q := ((ds.length, .again), q)
  report r _ p q := if r = .notSent then { q with packets := p :: q.packets } else q

def initialAndHandshake (memory : List Bool) : SendState PacketQueue where
  env := ⟨[{ headerType := .initial }, { headerType := .handshake }], memory⟩
  iter := { heap := [⟨0, true, false, true⟩] }

theorem queueIf_supply : Supply queueIf fun q => q.packets.length where
  timeNow _ := le_rfl
  prqNextConn _ := le_rfl
  prqDrop _ _ := le_rfl
  flushEncryption _ _ := le_rfl
  none _ _ q := by
    obtain ⟨ps, memory⟩ := q
    cases ps with
    | nil => exact le_rfl
    | cons p ps => exact Nat.le_succ _
  some _ _ q h := by
    obtain ⟨ps, memory⟩ := q
    cases ps with
    | nil => exact absurd h (by simp [queueIf])
    | cons p ps => exact Nat.lt_succ_self _
  encryptPacket _ _ _ := le_rfl
  copyPacket _ _ _ := le_rfl
  packetsOut _ _ := le_rfl
  report r c p q hr := by simp [queueIf, hr]
  notSent c p q := by simp [queueIf]
  evanescent q c h := absurd h (by simp [queueIf])
  plain c p q _ := by
    simp only [queueIf]
    split <;> simp

theorem initialAndHandshake_trace :
    ((initialAndHandshake [true, true]).sendPacketsOut queueIf 4).map (·.trace) =
      some [.took ⟨0, true, false, true⟩ 0, .took ⟨0, true, false, true⟩ 1,
        .called ⟨0, 0, 1, .again⟩,
        .reported .sent ⟨0, true, false, true⟩ { headerType := .initial },
        .reported .sent ⟨0, true, false, true⟩ { headerType := .handshake, ticket := 1 }] := by
  decide +kernel

theorem packets_accounted_twoPackets :
    ((initialAndHandshake [true, true]).sendPacketsOut queueIf 4).isSome = true ∧
    ∀ st', (initialAndHandshake [true, true]).sendPacketsOut queueIf 4 = some st' →
      GivenBackInReverse st'.trace ∧ Accounted st'.trace := by
  obtain ⟨hreturns, hbooks⟩ := packets_accounted_iff queueIf (initialAndHandshake [true, true])
  have hsome := hreturns _ queueIf_supply (by decide) (by decide) (by decide) (by decide)
  have hfuel : (initialAndHandshake [true, true]).env.packets.length +
      (initialAndHandshake [true, true]).iter.heap.length + 1 = 4 := by decide
  rw [hfuel] at hsome
  refine ⟨hsome, ?_⟩
  intro st' h
  have htrace := initialAndHandshake_trace
  rw [h, Option.map_some, Option.some.injEq] at htrace
  obtain ⟨hrev, hiff⟩ := hbooks 4 st' h
  refine ⟨hrev, hiff.2 fun c t b hf => ?_⟩
  rw [htrace] at hf
  exact absurd hf (by simp)

/-- There is no memory for the Handshake packet: the Initial packet before it is lost. -/
theorem coalesced_packet_lost :
    ((initialAndHandshake [true, false]).sendPacketsOut queueIf 4).map (·.trace) =
      some [.took ⟨0, true, false, true⟩ 0, .took ⟨0, true, false, true⟩ 1,
        .failed ⟨0, true, false, true⟩ 1 1,
        .reported .notSent ⟨0, true, false, true⟩ { headerType := .handshake, ticket := 1 }] ∧
    ∀ st', (initialAndHandshake [true, false]).sendPacketsOut queueIf 4 = some st' →
      ¬ Accounted st'.trace := by
  refine (and_iff_left_of_imp fun htrace st' h hacc => ?_).2 (by decide +kernel)
  rw [h, Option.map_some, Option.some.injEq] at htrace
  obtain ⟨r, p, hstory⟩ := hacc ⟨0, true, false, true⟩ 0 (by rw [htrace]; exact .head _)
  rw [htrace] at hstory
  exact absurd hstory (by simp [ticketStory, SendEvent.about])

end

end SendState

end QuicArt
