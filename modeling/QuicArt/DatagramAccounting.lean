import QuicArt.DatagramIn

namespace QuicArt

inductive WalkEnd
  | done | garbage | noMem
  deriving DecidableEq, Repr

/-- The packets after the first one, up to one for which a client knows no connection. -/
def InEnv.later (env : InEnv) (cid : List UInt8) : Nat → Nat → List UInt8 →
    List PacketIn × WalkEnd
  | 0, _, _ => ([], .done)
  | fuel + 1, n, mem =>
    if mem.isEmpty then ([], .done)
    else if env.canGet n = false then ([], .noMem)
    else
      match env.parse mem with
      | none => ([], .garbage)
      | some p =>
        if p.sameCid cid = true ∧ env.isServer = false ∧ env.find p = none then ([p], .done)
        else
          let r := env.later cid fuel (n + 1) (mem.drop p.dataSz)
          (p :: r.1, r.2)

/-- The first packet of the datagram, and the kind of the connection for it. -/
def InEnv.first (env : InEnv) (table : InTable) (d : UdpDatagram) : Option (PacketIn × ConnKind) :=
  if env.isServer = false ∧ env.knowsAddr = false ∨ env.canGet 0 = false then none
  else
    (env.parse d.bytes).bind fun p =>
      if p.gquic = true ∧ p.publicFlags &&& 2 ≠ 0 ∧ env.honorPrst = false then none
      else if env.isServer then
        if p.connId = false then none
        else
          match table.hash p.dcid with
          | some c => some (p, (table.conn c).kind)
          | none => (env.takeOn p).map fun ietf => (p, if ietf then .mini else .gquic)
      else (env.find p).map fun c => (p, (table.conn c).kind)

/-- All objects are settled, and a server's connection has counted the datagram, when it counts. -/
def DatagramAccounted (env : InEnv) (table : InTable) (d : UdpDatagram) (st : InState) : Prop :=
  (∀ o ∈ st.objs, o.Settled) ∧
  (env.isServer = true → ∀ c, st.curr = some c → (st.conn c).kind ≠ .gquic →
    (st.conn c).bytesIn = (table.conn c).bytesIn + d.bytes.length)

/-- The later packets have the connection ID of the first; on a server the connection is not a full
one and the pool lasts under a mini one. -/
def WellCarried (env : InEnv) (table : InTable) (d : UdpDatagram) : Prop :=
  ∀ p kind, env.first table d = some (p, kind) →
    let later := env.later p.dcid d.bytes.length 1 (d.bytes.drop p.dataSz)
    (∀ q ∈ later.1, q.sameCid p.dcid = true) ∧
    (env.isServer = true → kind ≠ .full ∧ (kind = .mini → later.2 ≠ .noMem))

section
variable {env : InEnv} {st st' : InState} {p : PacketIn} {mem cid : List UInt8} {c fuel n : Nat}

theorem PacketObj.settled_put (n : Nat) : ((({} : PacketObj).upref.keep n).put).Settled := by
  rw [put]
  split
  · exact .inl rfl
  next h =>
    right
    have hn : (({} : PacketObj).upref.keep n).downref.refcnt = n := by
      rw [downref, keep, upref]
      exact Nat.add_sub_cancel_left 1 n
    have hown : (({} : PacketObj).upref.keep n).downref.owned = n := Nat.zero_add n
    rw [hown]
    omega

theorem PacketObj.settled_mmPut (o : PacketObj) : o.mmPut.Settled := .inl rfl

theorem PacketObj.not_settled : ¬ ({} : PacketObj).Settled := by
  rintro (h | h)
  · exact absurd h Bool.false_ne_true
  · exact absurd h (Nat.lt_irrefl 0)

namespace InState

theorem onLast_objs {o : PacketObj} {os : List PacketObj} {f : PacketObj → PacketObj}
    (h : st.objs = o :: os) : (st.onLast f).objs = f o :: os := by
  rw [onLast, h]
  rfl

theorem garbage_same (st : InState) (size : Nat) :
    (st.maybeCountGarbage size).objs = st.objs ∧ (st.maybeCountGarbage size).curr = st.curr ∧
    (st.maybeCountGarbage size).hash = st.hash := by
  rw [maybeCountGarbage]
  split
  · exact ⟨rfl, rfl, rfl⟩
  · exact ⟨rfl, rfl, rfl⟩

theorem garbage_conn (h : st.curr = some c) (size : Nat) :
    (st.maybeCountGarbage size).conn c = (st.conn c).countGarbage size := by
  rw [maybeCountGarbage, h]
  exact if_pos rfl

theorem setCurr_of_some (h : st.curr = some c) (conn : Option Nat) : st.setCurr conn = st := by
  rw [setCurr, h]
  exact congrArg (fun x => { st with curr := x }) h.symm

theorem deliver_spec (env : InEnv) (p : PacketIn) (c : Nat) {os : List PacketObj}
    (h : st.objs = {} :: os) :
    (∃ o, (st.deliver env p c).objs = o :: os ∧ o.Settled) ∧
    (st.deliver env p c).curr = st.curr ∧ (st.deliver env p c).hash = st.hash ∧
    ∃ accepts, (st.deliver env p c).conn c = (st.conn c).packetIn p.dataSz accepts := by
  refine ⟨⟨_, ?_, PacketObj.settled_put (env.keeps st.objs.length)⟩, rfl, rfl,
    env.accepts st.objs.length, if_pos rfl⟩
  exact @onLast_objs (st.setConn c _) _ _ _ h

theorem process_same (hsame : p.sameCid cid = true)
    (hserver : env.isServer = true → st.curr = some c ∧ st.hash cid = some c) :
    (env.isServer = false ∧ env.find p = none) ∧
      st.processPacketIn env p = (st.onLast .mmPut, false) ∨
    ¬ (env.isServer = false ∧ env.find p = none) ∧ ∃ c', (env.isServer = true → c' = c) ∧
      st.processPacketIn env p = (st.deliver env p c', true) := by
  rw [PacketIn.sameCid, Bool.and_eq_true, Bool.and_eq_true, beq_iff_eq, Bool.not_eq_true'] at hsame
  obtain ⟨⟨hgquic, hconnId⟩, rfl⟩ := hsame
  rw [processPacketIn, if_neg (by simp [hgquic]), connFor]
  cases hs : env.isServer with
  | true =>
    obtain ⟨hcurr, hhash⟩ := hserver hs
    refine .inr ⟨by simp, c, fun _ => rfl, ?_⟩
    rw [if_pos rfl, findOrCreate, if_neg (by simp [hconnId]), hhash]
    simp only [setCurr_of_some hcurr]
  | false =>
    simp only [Bool.false_eq_true, if_false]
    cases hf : env.find p with
    | none => exact .inl ⟨⟨trivial, rfl⟩, rfl⟩
    | some c' => exact .inr ⟨by simp, c', by simp, rfl⟩

end InState

def Adds (conn conn' : InConn) (size : Nat) : Prop :=
  conn'.kind = conn.kind ∧ (conn.kind = .mini → conn'.bytesIn = conn.bytesIn + size) ∧
  (conn.kind = .full → conn'.bytesIn ≤ conn.bytesIn + size)

theorem Adds.garbage (conn : InConn) (size : Nat) : Adds conn (conn.countGarbage size) size := by
  obtain ⟨kind, bytesIn⟩ := conn
  cases kind with
  | mini => exact ⟨rfl, fun _ => rfl, nofun⟩
  | full => exact ⟨rfl, nofun, fun _ => Nat.le_add_left _ _⟩
  | gquic => exact ⟨rfl, nofun, nofun⟩

theorem Adds.packetIn (conn : InConn) (size : Nat) (accepts : Bool) :
    Adds conn (conn.packetIn size accepts) size ∧
    (0 < size → conn.kind = .full →
      (conn.packetIn size accepts).bytesIn < conn.bytesIn + size) := by
  obtain ⟨kind, bytesIn⟩ := conn
  cases kind with
  | mini => exact ⟨⟨rfl, fun _ => rfl, nofun⟩, nofun⟩
  | full =>
    have hle : (InConn.packetIn ⟨.full, bytesIn⟩ size accepts).bytesIn
        ≤ bytesIn + (size - iquicTagLen) := by
      cases accepts with
      | true => exact le_rfl
      | false => exact Nat.le_add_right _ _
    have hkind : (InConn.packetIn ⟨.full, bytesIn⟩ size accepts).kind = .full := by
      cases accepts <;> rfl
    rw [iquicTagLen] at hle
    refine ⟨⟨hkind, nofun, fun _ => ?_⟩, fun hpos _ => ?_⟩
    · simp only
      omega
    · simp only
      omega
  | gquic =>
    exact ⟨⟨rfl, nofun, nofun⟩,
      nofun⟩

def Credit (conn conn' : InConn) (size : Nat) (e : WalkEnd) : Prop :=
  conn'.kind = conn.kind ∧
  (conn.kind = .mini → (e = .noMem → conn'.bytesIn < conn.bytesIn + size) ∧
    (e ≠ .noMem → conn'.bytesIn = conn.bytesIn + size)) ∧
  (conn.kind = .full → conn'.bytesIn ≤ conn.bytesIn + size)

theorem Adds.credit {conn conn' : InConn} (h : Adds conn conn' n) (he : e ≠ .noMem) :
    Credit conn conn' n e :=
  ⟨h.1, fun hk => ⟨fun he' => absurd he' he, fun _ => h.2.1 hk⟩, h.2.2⟩

theorem Credit.noMem (conn : InConn) (h : 0 < n) : Credit conn conn n .noMem :=
  ⟨rfl, fun _ => ⟨fun _ => by omega, fun h => absurd rfl h⟩, fun _ => Nat.le_add_right _ _⟩

theorem Credit.nil (conn : InConn) : Credit conn conn 0 .done :=
  ⟨rfl, fun _ => ⟨by simp, fun _ => rfl⟩, fun _ => le_rfl⟩

theorem Credit.after {conn conn₁ conn' : InConn} (h : Credit conn₁ conn' m e)
    (hadd : Adds conn conn₁ n) : Credit conn conn' (n + m) e := by
  obtain ⟨hkind, hmini, hfull⟩ := hadd
  obtain ⟨hkind', hmini', hfull'⟩ := h
  rw [hkind] at hkind' hmini' hfull'
  refine ⟨hkind', fun hk => ⟨fun he => ?_, fun he => ?_⟩, fun hk => ?_⟩
  · have hlt := (hmini' hk).1 he
    rw [hmini hk] at hlt
    omega
  · rw [(hmini' hk).2 he, hmini hk, Nat.add_assoc]
  · have hle := hfull hk
    have hle' := hfull' hk
    omega

theorem InEnv.parse_size (hlen : mem.length < 2 ^ 16) (h : env.parse mem = some p) :
    0 < p.dataSz ∧ p.dataSz ≤ mem.length ∧ (p.gquic = true → p.dataSz = mem.length) :=
  PacketParser.run_size hlen _ p h

theorem settled_cons {o : PacketObj} {os : List PacketObj} (h : o.Settled) :
    (∀ o' ∈ o :: os, o'.Settled) ↔ (∀ o' ∈ os, o'.Settled) := by
  rw [List.forall_mem_cons]
  exact and_iff_right h

theorem InEnv.later_nil (env : InEnv) (cid : List UInt8) (fuel n : Nat) :
    env.later cid fuel n [] = ([], .done) := by
  cases fuel <;> rfl

def Handled (env : InEnv) (cid : List UInt8) (c : Nat) (st : InState) (size : Nat)
    (walk : List PacketIn × WalkEnd) (res : Option (InState × Int)) : Prop :=
  ∃ st' r, res = some (st', r) ∧
    ((∀ o ∈ st'.objs, o.Settled) ↔
      (∀ o ∈ st.objs, o.Settled) ∧ ∀ q ∈ walk.1, q.sameCid cid = true) ∧
    (env.isServer = true → st'.curr = some c ∧ Credit (st.conn c) (st'.conn c) size walk.2)

theorem Handled.stop {st₁ : InState}
    (hobjs : (∀ o ∈ st₁.objs, o.Settled) ↔ ∀ o ∈ st.objs, o.Settled)
    (hserver : env.isServer = true → st₁.curr = some c ∧ Credit (st.conn c) (st₁.conn c) n e)
    (r : Int) : Handled env cid c st n ([], e) (some (st₁, r)) := by
  refine ⟨st₁, r, rfl, ?_, hserver⟩
  rw [hobjs]
  simp

theorem Handled.last {st₁ : InState} {o : PacketObj} (hobjs : st₁.objs = o :: st.objs)
    (ho : o.Settled ↔ p.sameCid cid = true)
    (hserver : env.isServer = true → st₁.curr = some c ∧ Adds (st.conn c) (st₁.conn c) n)
    (r : Int) : Handled env cid c st n ([p], .done) (some (st₁, r)) := by
  refine ⟨st₁, r, rfl, ?_, fun hs => ⟨(hserver hs).1, (hserver hs).2.credit (by simp)⟩⟩
  rw [hobjs, List.forall_mem_cons, List.forall_mem_singleton, ho, and_comm]

/-- A packet behind the first one is dealt with in `st₁`: its object is lost exactly if it is for
another connection ID. -/
structure Dealt (env : InEnv) (cid : List UInt8) (c : Nat) (p : PacketIn) (st st₁ : InState) :
    Prop where
  object : ∃ o, st₁.objs = o :: st.objs ∧ (o.Settled ↔ p.sameCid cid = true)
  server : env.isServer = true → (st₁.curr = some c ∧ st₁.hash cid = some c) ∧
    Adds (st.conn c) (st₁.conn c) p.dataSz

theorem Dealt.garbage (hsame : p.sameCid cid = false)
    (hserver : env.isServer = true → st.curr = some c ∧ st.hash cid = some c) :
    Dealt env cid c p st (st.get.maybeCountGarbage p.dataSz) := by
  obtain ⟨hobjs, hcurr, hhash⟩ := st.get.garbage_same p.dataSz
  refine ⟨⟨{}, hobjs, ?_⟩, fun hs => ?_⟩
  · rw [hsame]
    exact iff_of_false PacketObj.not_settled Bool.false_ne_true
  · refine ⟨⟨hcurr.trans (hserver hs).1, (congrFun hhash cid).trans (hserver hs).2⟩, ?_⟩
    rw [@InState.garbage_conn st.get _ (hserver hs).1]
    exact Adds.garbage _ _

theorem Dealt.deliver {c' : Nat} (hsame : p.sameCid cid = true)
    (hserver : env.isServer = true → st.curr = some c ∧ st.hash cid = some c)
    (hc : env.isServer = true → c' = c) : Dealt env cid c p st (st.get.deliver env p c') := by
  obtain ⟨⟨o, hobjs, ho⟩, hcurr, hhash, accepts, hconn⟩ :=
    @InState.deliver_spec st.get env p c' st.objs rfl
  refine ⟨⟨o, hobjs, iff_of_true ho hsame⟩, fun hs => ?_⟩
  obtain rfl := hc hs
  refine ⟨⟨hcurr.trans (hserver hs).1, (congrFun hhash cid).trans (hserver hs).2⟩, ?_⟩
  rw [hconn]
  exact (Adds.packetIn _ _ _).1

/-- The loop goes on if something is left. -/
theorem Dealt.goes {st₁ : InState} {fuel' : Nat} (h : Dealt env cid c p st st₁)
    (hle : p.dataSz ≤ mem.length)
    (hnext : mem.drop p.dataSz ≠ [] → Handled env cid c st₁ (mem.drop p.dataSz).length
      (env.later cid fuel' st₁.objs.length (mem.drop p.dataSz)) res) :
    Handled env cid c st mem.length
      (p :: (env.later cid fuel' (st.objs.length + 1) (mem.drop p.dataSz)).1,
        (env.later cid fuel' (st.objs.length + 1) (mem.drop p.dataSz)).2)
      (if (mem.drop p.dataSz).isEmpty then some (st₁, st₁.result 0) else res) := by
  obtain ⟨o, hobjs, ho⟩ := h.object
  have hrest : p.dataSz + (mem.drop p.dataSz).length = mem.length := by
    rw [List.length_drop]
    omega
  by_cases hdone : (mem.drop p.dataSz).isEmpty = true
  · rw [if_pos hdone]
    rw [List.isEmpty_iff] at hdone
    rw [hdone, List.length_nil, Nat.add_zero] at hrest
    rw [hdone, InEnv.later_nil, ← hrest]
    exact .last hobjs ho (fun hs => ⟨(h.server hs).1.1, (h.server hs).2⟩) _
  · rw [if_neg hdone, ← hrest]
    rw [List.isEmpty_iff] at hdone
    obtain ⟨st', r, hres, hsettled, hcredit⟩ := hnext hdone
    rw [hobjs, List.length_cons] at hsettled hcredit
    refine ⟨st', r, hres, ?_, fun hs => ⟨(hcredit hs).1, (hcredit hs).2.after (h.server hs).2⟩⟩
    rw [hsettled, List.forall_mem_cons, List.forall_mem_cons, ho]
    tauto

theorem Handled.unparsed
    (hserver : env.isServer = true → st.curr = some c ∧ st.hash cid = some c) (n : Nat) (r : Int) :
    Handled env cid c st n ([], .garbage)
      (some ((st.get.maybeCountGarbage n).onLast .mmPut, r)) := by
  obtain ⟨hobjs, hcurr, -⟩ := st.get.garbage_same n
  apply Handled.stop
  · rw [InState.onLast_objs hobjs, settled_cons (PacketObj.settled_mmPut _)]
  · intro hs
    have hconn := @InState.garbage_conn st.get _ (hserver hs).1 n
    have hadd : Adds (st.conn c) _ _ := hconn ▸ Adds.garbage (st.conn c) n
    exact ⟨hcurr.trans (hserver hs).1, hadd.credit (by simp)⟩

/-- The packets behind the first one go to the connection of its CID. -/
theorem packetInLoop_rest {fuel' : Nat} (hfuel : mem.length < fuel) (hfuel' : mem.length ≤ fuel')
    (hlen : mem.length < 2 ^ 16) (hne : mem ≠ [])
    (hserver : env.isServer = true → st.curr = some c ∧ st.hash cid = some c) :
    Handled env cid c st mem.length (env.later cid fuel' st.objs.length mem)
      (packetInLoop env fuel mem false true cid st) := by
  induction fuel generalizing mem st fuel' with
  | zero => exact absurd hfuel (Nat.not_lt_zero _)
  | succ fuel ih =>
    have hpos : 0 < mem.length := List.length_pos_iff.mpr hne
    obtain ⟨fuel', rfl⟩ : ∃ k, fuel' = k + 1 := ⟨fuel' - 1, by omega⟩
    rw [packetInLoop, InEnv.later, if_neg (by simpa using hne)]
    by_cases hget : env.canGet st.objs.length = false
    · rw [if_pos hget, if_pos hget]
      exact .stop Iff.rfl (fun hs => ⟨(hserver hs).1, Credit.noMem _ hpos⟩) _
    rw [if_neg hget, if_neg hget]
    cases hparse : env.parse mem with
    | none => exact .unparsed hserver _ _
    | some p =>
      obtain ⟨hsize, hle, -⟩ := InEnv.parse_size hlen hparse
      have hrest : p.dataSz + (mem.drop p.dataSz).length = mem.length := by
        rw [List.length_drop]
        omega
      have hnext {st₁ : InState} (h : Dealt env cid c p st st₁) (hdone : mem.drop p.dataSz ≠ []) :=
        @ih st₁ (mem.drop p.dataSz) fuel' (by omega) (by omega) (by omega) hdone
          fun hs => (h.server hs).1
      cases hsame : p.sameCid cid with
      | false =>
        have h := Dealt.garbage (c := c) hsame hserver
        simp only [hsame, and_self, if_true, Bool.false_eq_true, false_and, if_false]
        exact h.goes hle (hnext h)
      | true =>
        have hproc := @InState.process_same _ st.get _ _ _ hsame hserver
        have hcid : p.dcid = cid ∧ p.gquic = false := by
          rw [PacketIn.sameCid, Bool.and_eq_true, Bool.and_eq_true, beq_iff_eq,
            Bool.not_eq_true'] at hsame
          exact ⟨hsame.2, hsame.1.1⟩
        simp only [hsame, hcid, ite_self, Bool.not_false, Bool.true_eq_false, and_false, if_false,
          true_and]
        rcases hproc with ⟨hnone, hp⟩ | ⟨hgoes, c', hc', hp⟩
        · rw [if_pos hnone, hp]
          refine .last (@InState.onLast_objs st.get _ _ _ rfl)
            (iff_of_true (PacketObj.settled_mmPut _) hsame) (fun hs => ?_) _
          exact absurd (hnone.1.symm.trans hs) Bool.false_ne_true
        · have h := Dealt.deliver hsame hserver hc'
          rw [if_neg hgoes, hp]
          exact h.goes hle (hnext h)

variable {table : InTable} {d : UdpDatagram} {kind : ConnKind}

structure Found (env : InEnv) (table : InTable) (p : PacketIn) (kind : ConnKind) (c : Nat)
    (st : InState) : Prop where
  objs : st.objs = [{}]
  server : env.isServer = true → st.curr = some c ∧ st.hash p.dcid = some c ∧
    (st.conn c).kind = kind ∧ (st.conn c).bytesIn = (table.conn c).bytesIn

theorem process_first (hknows : ¬ (env.isServer = false ∧ env.knowsAddr = false ∨
    env.canGet 0 = false)) (hparse : env.parse d.bytes = some p) :
    (env.first table d = none ∧ ∃ st : InState,
      table.start.get.processPacketIn env p = (st.onLast .mmPut, false) ∧ st.objs = [{}] ∧
        st.curr = none) ∨
    ∃ kind c st, env.first table d = some (p, kind) ∧
      table.start.get.processPacketIn env p = (st.deliver env p c, true) ∧
      Found env table p kind c st := by
  rw [InEnv.first, if_neg hknows, hparse, Option.bind_some, InState.processPacketIn]
  split
  · exact .inl ⟨rfl, _, rfl, rfl, rfl⟩
  · rw [InState.connFor]
    cases hs : env.isServer with
    | false =>
      cases hf : env.find p with
      | none => exact .inl ⟨rfl, _, rfl, rfl, rfl⟩
      | some c =>
        refine .inr ⟨_, c, _, rfl, rfl, rfl, fun hs' => ?_⟩
        exact absurd (hs.symm.trans hs') Bool.false_ne_true
    | true =>
      rw [if_pos rfl, if_pos rfl, InState.findOrCreate]
      cases hconn : p.connId with
      | false => exact .inl ⟨rfl, _, rfl, rfl, rfl⟩
      | true =>
        have hhash : table.start.get.hash p.dcid = table.hash p.dcid := rfl
        simp only [Bool.true_eq_false, if_false, hhash]
        cases htable : table.hash p.dcid with
        | some c => exact .inr ⟨_, c, _, rfl, rfl, rfl, fun _ => ⟨rfl, htable, rfl, rfl⟩⟩
        | none =>
          cases hadmit : env.takeOn p with
          | none => exact .inl ⟨rfl, _, rfl, rfl, rfl⟩
          | some ietf =>
            refine .inr ⟨_, table.next, _, rfl, rfl, rfl, fun _ => ⟨rfl, if_pos rfl, ?_, ?_⟩⟩
            · exact congrArg InConn.kind (if_pos rfl)
            · rw [table.unused _ le_rfl]
              exact congrArg InConn.bytesIn (if_pos rfl)

theorem accounted_of_none (hfirst : env.first table d = none)
    (hobjs : ∀ o ∈ st.objs, o.Settled) (hcurr : env.isServer = true → st.curr = none) :
    DatagramAccounted env table d st ↔ WellCarried env table d := by
  constructor
  · intro _ p kind h
    cases hfirst.symm.trans h
  · intro _
    refine ⟨hobjs, fun hs c hc => ?_⟩
    cases (hcurr hs).symm.trans hc

theorem accounted_of_handled {walk : List PacketIn × WalkEnd} {res : Option (InState × Int)}
    (hfirst : env.first table d = some (p, kind)) (hfound : Found env table p kind c st)
    (hsize : 0 < p.dataSz) (hle : p.dataSz ≤ d.bytes.length)
    (hwalk : env.later p.dcid d.bytes.length 1 (d.bytes.drop p.dataSz) = walk)
    (h : Handled env p.dcid c (st.deliver env p c) (d.bytes.drop p.dataSz).length walk res) :
    ∃ st' r, res = some (st', r) ∧
      (DatagramAccounted env table d st' ↔ WellCarried env table d) := by
  obtain ⟨st', r, hres, hsettled, hcredit⟩ := h
  obtain ⟨⟨o, hobjs, ho⟩, -, -, accepts, hconn⟩ := InState.deliver_spec env p c hfound.objs
  have hset : (∀ o ∈ st'.objs, o.Settled) ↔ ∀ q ∈ walk.1, q.sameCid p.dcid = true := by
    rw [hsettled, hobjs, List.forall_mem_singleton]
    exact and_iff_right ho
  have hcarried : WellCarried env table d ↔ (∀ q ∈ walk.1, q.sameCid p.dcid = true) ∧
      (env.isServer = true → kind ≠ .full ∧ (kind = .mini → walk.2 ≠ .noMem)) := by
    rw [WellCarried, hfirst, ← hwalk]
    constructor
    · intro h
      exact h p kind rfl
    · rintro h p' kind' heq
      cases heq
      exact h
  refine ⟨st', r, hres, ?_⟩
  rw [hcarried, DatagramAccounted, hset]
  refine and_congr_right fun _ => imp_congr_right fun hs => ?_
  obtain ⟨-, -, hkind, hbytes⟩ := hfound.server hs
  obtain ⟨hcurr, hkind', hmini, hfull⟩ := hcredit hs
  obtain ⟨⟨hkind₁, hmini₁, -⟩, hless⟩ := Adds.packetIn (st.conn c) p.dataSz accepts
  rw [hconn, hkind₁, hkind] at hkind' hmini hfull
  rw [hkind] at hmini₁ hless
  rw [List.length_drop] at hmini hfull
  rw [hcurr]
  have hall : (∀ c', some c = some c' → (st'.conn c').kind ≠ .gquic →
      (st'.conn c').bytesIn = (table.conn c').bytesIn + d.bytes.length) ↔
      (kind ≠ .gquic → (st'.conn c).bytesIn = (st.conn c).bytesIn + d.bytes.length) := by
    rw [hbytes, ← hkind']
    exact ⟨fun h => h c rfl, fun h c' heq => Option.some.inj heq ▸ h⟩
  rw [hall]
  cases kind with
  | mini =>
    have hm := hmini rfl
    rw [hmini₁ rfl] at hm
    constructor
    · intro h
      refine ⟨by simp, fun _ he => ?_⟩
      have hlt := hm.1 he
      have heq := h (by simp)
      omega
    · rintro ⟨-, h⟩ _
      have heq := hm.2 (h rfl)
      omega
  | full =>
    have hl := hless hsize rfl
    have hf := hfull rfl
    constructor
    · intro h
      have heq := h (by simp)
      omega
    · rintro ⟨h, -⟩
      exact absurd rfl h
  | gquic => simp

/-- The call returns, and accounts for the datagram exactly if it is well carried. -/
theorem enginePacketIn_accounted_iff (env : InEnv) (table : InTable) (d : UdpDatagram) :
    ∃ st r, enginePacketIn env table d = some (st, r) ∧
      (DatagramAccounted env table d st ↔ WellCarried env table d) := by
  rw [enginePacketIn]
  by_cases hknows : env.isServer = false ∧ env.knowsAddr = false
  · refine ⟨table.start, -1, if_pos hknows, accounted_of_none ?_ ?_ fun _ => rfl⟩
    · rw [InEnv.first, if_pos (.inl hknows)]
    · simp [InTable.start]
  rw [if_neg hknows, packetInLoop]
  by_cases hget : env.canGet 0 = false
  · refine ⟨table.start, -1, if_pos hget, accounted_of_none ?_ ?_ fun _ => rfl⟩
    · rw [InEnv.first, if_pos (.inr hget)]
    · simp [InTable.start]
  have hgo : ¬ (env.isServer = false ∧ env.knowsAddr = false ∨ env.canGet 0 = false) :=
    not_or.mpr ⟨hknows, hget⟩
  have hget' : ¬ env.canGet table.start.objs.length = false := hget
  rw [if_neg hget']
  cases hparse : env.parse d.bytes with
  | none =>
    refine ⟨_, _, rfl, accounted_of_none ?_ ?_ fun _ => rfl⟩
    · rw [InEnv.first, if_neg hgo, hparse, Option.bind_none]
    · exact List.forall_mem_singleton.mpr (PacketObj.settled_mmPut _)
  | some p =>
    obtain ⟨hsize, hle, hwhole⟩ := InEnv.parse_size d.size_lt hparse
    simp only [Bool.false_eq_true, false_and, if_false]
    rcases @process_first env p table d hgo hparse with
      ⟨hfirst, st, hp, hobjs, hcurr⟩ | ⟨kind, c, st, hfirst, hp, hfound⟩
    · rw [hp]
      refine ⟨st.onLast .mmPut, _, rfl, accounted_of_none hfirst ?_ fun _ => hcurr⟩
      rw [InState.onLast_objs hobjs]
      exact List.forall_mem_singleton.mpr (PacketObj.settled_mmPut _)
    · rw [hp]
      obtain ⟨⟨o, hobjs, -⟩, hcurr, hhash, -⟩ := InState.deliver_spec env p c hfound.objs
      simp only [if_true]
      by_cases hdone : (d.bytes.drop p.dataSz).isEmpty = true
      · have hnil := List.isEmpty_iff.mp hdone
        rw [if_pos hdone]
        apply accounted_of_handled hfirst hfound hsize hle rfl
        rw [hnil, InEnv.later_nil]
        exact .stop Iff.rfl (fun hs => ⟨hcurr.trans (hfound.server hs).1, .nil _⟩) _
      · have hgquic : p.gquic = false := by
          by_contra hg
          have heq := hwhole (Bool.eq_true_of_not_eq_false hg)
          rw [heq, List.drop_length] at hdone
          exact hdone rfl
        have hrest : (d.bytes.drop p.dataSz).length < d.bytes.length := by
          rw [List.length_drop]
          omega
        rw [if_neg hdone, hgquic]
        apply accounted_of_handled hfirst hfound hsize hle rfl
        have hstart : (st.deliver env p c).objs.length = 1 := by rw [hobjs]; rfl
        have hlt := d.size_lt
        have hcid : (if (!false && !(d.bytes.drop p.dataSz).isEmpty) = true then p.dcid else [])
            = p.dcid := if_pos (by simpa using hdone)
        rw [← hstart, hcid]
        refine packetInLoop_rest hrest (Nat.le_of_lt hrest) (by omega) ?_ fun hs => ?_
        · rw [List.isEmpty_iff] at hdone
          exact hdone
        · obtain ⟨hcurr', hhash', -⟩ := hfound.server hs
          exact ⟨hcurr.trans hcurr', (congrFun hhash p.dcid).trans hhash'⟩

end

def oneConn (kind : ConnKind) (bytesIn : Nat) : InTable where
  hash cid := if cid = [0xAA] then some 0 else none
  conn c := if c = 0 then ⟨kind, bytesIn⟩ else ⟨.mini, 0⟩
  next := 1
  unused c hc := by rw [if_neg (by omega)]

def serverEnv : InEnv where
  isServer := true
  knowsAddr := true
  parser := .server
  cidLen := 1
  honorPrst := false
  canGet _ := true
  takeOn _ := none
  find _ := none
  keeps _ := 0
  accepts _ := true

def handshakeBytes (cid : UInt8) : List UInt8 := [0xE0, 0, 0, 0, 1, 1, cid, 0, 4, 1, 2, 3, 4]

/-- The object of a packet with another connection ID is lost, and a byte that cannot be parsed
makes a full connection forget what it had counted. -/
theorem enginePacketIn_loses :
    (enginePacketIn serverEnv (oneConn .mini 1200)
        ⟨handshakeBytes 0xAA ++ handshakeBytes 0xBB, by decide⟩).map (fun r => r.1.objs)
      = some [{}, { inPool := true }] ∧
    ¬ ({} : PacketObj).Settled ∧
    (enginePacketIn serverEnv (oneConn .full 1200)
        ⟨handshakeBytes 0xAA ++ [0], by decide⟩).map (fun r => (r.1.curr, r.1.conn 0))
      = some (some 0, ⟨.full, 1⟩) := by
  refine ⟨?_, PacketObj.not_settled, ?_⟩
  · decide
  · decide

end QuicArt
