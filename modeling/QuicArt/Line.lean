import QuicArt.WellFormed

namespace QuicArt

structure Place where
  id : PktId
  packno : Int
  marked : Bool

def Place.mark (e : Place) : Place := { e with marked := true }

def markRun (l : List Place) : List Place :=
  (l.takeWhile fun e => !e.marked).map Place.mark ++ l.dropWhile fun e => !e.marked

def Event.number : Event → Option Int
  | .sent _ packno => some packno
  | _ => none

def sentNumbers (log : List Event) : List Int := log.filterMap Event.number

namespace Core

def place (c : Core) (p : PktId) : Place := ⟨p, (c.pkts p).packno, (c.pkts p).repackno⟩

def line (c : Core) : List Place := (c.queue .scheduled).map c.place

def counters (c : Core) : Int × Int × List Int := (c.curPackno, c.lastSent, sentNumbers c.log)

end Core

inductive LineStep (m : Kind → Prop) (c c' : Core) : Prop
  | idle (hl : c'.line = c.line) (hc : c'.counters = c.counters) (hg : c'.gap = c.gap)
  | setGap (hl : c'.line = c.line) (hc : c'.counters = c.counters) (hg : c.curPackno < c'.gap)
  | leave (he : c.line = pre ++ e :: suf) (hl : c'.line = pre ++ suf)
      (hc : c'.counters = c.counters) (hg : c'.gap = c.gap)
  | enter (hm : m .append) (ht : (∀ e ∈ c.line, e.marked = false) ∨ m .tangle)
      (hk : c.curPackno < k) (hn : k ≠ c.gap) (hl : c'.line = c.line ++ [⟨p, k, false⟩])
      (hc : c'.counters = (k, c.lastSent, sentNumbers c.log)) (hg : c'.gap = c.gap)
  | renumber (hm : m .send) (he : c.line = ⟨p, k, true⟩ :: suf) (hk : c.curPackno < k')
      (hn : k' ≠ c.gap) (hl : c'.line = ⟨p, k', false⟩ :: suf)
      (hc : c'.counters = (k', c.lastSent, sentNumbers c.log)) (hg : c'.gap = c.gap)
  | send (hm : m .send) (he : c.line = ⟨p, k, false⟩ :: suf) (hl : c'.line = suf)
      (hc : c'.counters = (c.curPackno, max c.lastSent k, k :: sentNumbers c.log))
      (hg : c'.gap = c.gap)
  | cut (hm : m .mark) (he : c.line = pre ++ ⟨p, k, false⟩ :: suf)
      (hl : c'.line = pre ++ markRun suf)
      (hc : c'.counters = (k - 1, c.lastSent, sentNumbers c.log)) (hg : c'.gap = c.gap)
  | reset (hm : m .mark) (hl : c'.line = c.line.map Place.mark)
      (hc : c'.counters = (c.lastSent, c.lastSent, sentNumbers c.log)) (hg : c'.gap = c.gap)
  | rebuild (hm : m .resize)

section
variable {c c' : Core} {m : Kind → Prop} {h : List PktId} {p : PktId} {q : Queue} {ack : Bool}

theorem line_congr (hq : c'.queue .scheduled = c.queue .scheduled)
    (hp : ∀ a ∈ c.queue .scheduled, (c'.pkts a).packno = (c.pkts a).packno ∧
      (c'.pkts a).repackno = (c.pkts a).repackno) : c'.line = c.line := by
  rw [Core.line, hq, Core.line]
  apply List.map_congr_left
  intro a ha
  rw [Core.place, (hp a ha).1, (hp a ha).2, Core.place]

theorem line_upd {f : Pkt → Pkt} (hf : p ∈ c.queue .scheduled →
    (f (c.pkts p)).packno = (c.pkts p).packno ∧ (f (c.pkts p)).repackno = (c.pkts p).repackno) :
    (c.upd p f).line = c.line := by
  refine line_congr rfl fun a ha => ?_
  rw [upd_pkts]
  split
  next he =>
    subst he
    exact hf ha
  · exact ⟨rfl, rfl⟩

theorem line_setQueue (hq : q ≠ .scheduled) {l : List PktId} : (c.setQueue q l).line = c.line :=
  line_congr (Function.update_of_ne hq.symm ..) fun _ _ => ⟨rfl, rfl⟩

theorem line_alloc (hP : Placed c h) {pk : Pkt} : (c.alloc pk).line = c.line :=
  line_congr rfl fun _ ha => by
    rw [alloc_pkts_of_lt c pk (hP.on ha)]
    exact ⟨rfl, rfl⟩

theorem line_move (hq : q ≠ .scheduled) {l : List PktId} {f : Pkt → Pkt}
    (hf : ∀ pk, (f pk).packno = pk.packno ∧ (f pk).repackno = pk.repackno) :
    ((c.setQueue q l).upd p f).line = c.line :=
  (line_upd fun _ => hf _).trans (line_setQueue hq)

theorem nextPackno_eq (c : Core) :
    ∃ k, c.nextPackno = { c with curPackno := k } ∧ c.curPackno < k ∧ k ≠ c.gap := by
  unfold Core.nextPackno
  split
  next hg => exact ⟨_, rfl, by omega, by omega⟩
  next hg => exact ⟨_, rfl, by omega, hg⟩

theorem line_append (c : Core) (p : PktId) : (c.append .scheduled p).line =
    c.line ++ [c.place p] := by
  have hQ : (c.append .scheduled p).queue .scheduled = c.queue .scheduled ++ [p] := by
    simp only [Core.append, Core.setQueue, Function.update_self]
  rw [Core.line, hQ, List.map_append]
  rfl

theorem line_split (hp : p ∈ c.queue .scheduled) : ∃ pre suf, p ∉ pre ∧
    c.queue .scheduled = pre ++ p :: suf ∧
    c.line = pre.map c.place ++
      c.place p ::
      suf.map c.place := by
  obtain ⟨pre, suf, he, hn⟩ := List.eq_append_cons_of_mem hp
  exact ⟨pre, suf, hn, he, by simp only [Core.line, he, List.map_append, List.map_cons]⟩

theorem line_schedRemove (hq : c.queue .scheduled = pre ++ p :: suf) (hp : p ∉ pre) :
    (c.schedRemove p).line =
      pre.map c.place ++
      suf.map c.place := by
  have hR : (c.schedRemove p).line = (c.remove .scheduled p).line := by
    apply line_upd
    exact fun _ => ⟨rfl, rfl⟩
  have hQ : (c.remove .scheduled p).queue .scheduled = pre ++ suf := by
    simp only [Core.remove, Core.setQueue, Function.update_self, hq, erase_split hp]
  rw [hR, Core.line, hQ, List.map_append]
  rfl

theorem LineStep.schedRemove (hp : p ∈ c.queue .scheduled) : LineStep m c (c.schedRemove p) := by
  obtain ⟨pre, suf, hn, hq, he⟩ := line_split hp
  exact .leave he (line_schedRemove hq hn) rfl rfl

theorem LineStep.enqueue (hm : m .append) (ht : NoMarks c ∨ m .tangle) (hP : Placed c (p :: h))
    (hr : (c.pkts p).repackno = false) (body : Body) (mtu : Bool) :
    LineStep m c (c.enqueue p body mtu) := by
  obtain ⟨k, hk, hlt, hne⟩ := nextPackno_eq c
  have hoff : p ∉ c.queue .scheduled := fun hq => hP.off_unhand (some .scheduled) hq
  have hU : ({ c with curPackno := k }.upd p
      ({ · with packno := k, body := body, mtuProbe := mtu })).line = c.line :=
    line_upd (c := { c with curPackno := k }) fun hq => absurd hq hoff
  have hA := line_append ({ c with curPackno := k }.upd p
    ({ · with packno := k, body := body, mtuProbe := mtu })) p
  rw [hU, Core.place, upd_self] at hA
  have hS := line_upd (p := p) (f := ({ · with sched := true }))
    (c := ({ c with curPackno := k }.upd p
    ({ · with packno := k, body := body, mtuProbe := mtu })).append .scheduled p) fun _ =>
      ⟨rfl, rfl⟩
  refine .enter (k := k) (p := p) hm (ht.imp_left fun ht e he => ?_) hlt hne ?_ ?_ ?_
  · obtain ⟨a, ha, rfl⟩ := List.mem_map.1 he
    exact ht a ha
  · simp only [Core.enqueue, hk]
    apply (hS.trans hA).trans
    rw [show ({ c with curPackno := k } : Core).pkts = c.pkts from rfl, hr]
  · simp only [Core.enqueue, hk]
    rfl
  · simp only [Core.enqueue, hk]
    rfl

theorem LineStep.renumberHead (hm : m .send) (hP : Placed c h) (hp : c.queue .scheduled = p :: l)
    (hr : (c.pkts p).repackno = true) (body : Body) : LineStep m c (c.renumberHead p body) := by
  obtain ⟨k, hk, hlt, hne⟩ := nextPackno_eq c
  have hnd : (p :: l).Nodup := hp ▸ hP.nodup (some .scheduled)
  have hpl := (List.nodup_cons.1 hnd).1
  have hl : c.line = ⟨p, (c.pkts p).packno, true⟩ ::
      l.map c.place := by
    simp only [Core.line, hp, List.map_cons, Core.place, hr]
  refine .renumber hm hl hlt hne ?_ ?_ ?_
  · simp only [Core.renumberHead, hk]
    have hQ : ({ c with curPackno := k }.upd p
        ({ · with packno := k, body := body, repackno := false })).queue .scheduled = p :: l := hp
    rw [Core.line, hQ, List.map_cons, Core.place, upd_self]
    congr 1
    apply List.map_congr_left
    intro a ha
    have hne : a ≠ p := fun he => hpl (he ▸ ha)
    rw [Core.place, upd_pkts, if_neg hne, Core.place]
  · simp only [Core.renumberHead, hk]
    rfl
  · simp only [Core.renumberHead, hk]
    rfl

theorem line_markAll {l : List PktId} : (c.markAll l).line = (c.queue .scheduled).map fun p =>
    ⟨p, (c.pkts p).packno, if p ∈ l then true else (c.pkts p).repackno⟩ := by
  simp only [Core.line, Core.markAll]
  apply List.map_congr_left
  intro a _
  by_cases ha : a ∈ l
  · simp only [Core.place, if_pos ha]
  · simp only [Core.place, if_neg ha]

theorem LineStep.resetPacknos (hm : m .mark) (c : Core) : LineStep m c c.resetPacknos := by
  refine .reset hm ?_ rfl rfl
  rw [Core.resetPacknos, line_markAll, Core.line, List.map_map]
  apply List.map_congr_left
  intro a ha
  simp only [Function.comp, Place.mark, Core.place]
  rw [if_pos ha]

theorem markRun_map (suf : List PktId) : markRun (suf.map c.place) =
    (suf.takeWhile fun a => !(c.pkts a).repackno).map (fun a => ⟨a, (c.pkts a).packno, true⟩) ++
      (suf.dropWhile fun a => !(c.pkts a).repackno).map c.place := by
  simp only [markRun, List.takeWhile_map, List.dropWhile_map, List.map_map]
  rfl

theorem line_renumberToRight (hP : Placed c h) (hq : c.queue .scheduled = pre ++ p :: suf)
    (hp : p ∉ pre) (hr : (c.pkts p).repackno = false) : (c.renumberToRight p).line =
      pre.map c.place ++
      ⟨p, (c.pkts p).packno, false⟩ ::
      markRun (suf.map c.place) := by
  have hnd : (pre ++ p :: suf).Nodup := hq ▸ hP.nodup (some .scheduled)
  obtain ⟨-, hsuf, hdis⟩ := List.nodup_append.1 hnd
  obtain ⟨hps, hsuf⟩ := List.nodup_cons.1 hsuf
  rw [Core.renumberToRight, hr, if_neg (by simp), line_markAll, markRun_map]
  have hQ : ({ c with curPackno := (c.pkts p).packno - 1 } : Core).queue .scheduled =
      pre ++ p :: suf := hq
  rw [hQ, after_split hp]
  generalize hT : (suf.takeWhile fun a => !(c.pkts a).repackno) = T
  generalize hD : (suf.dropWhile fun a => !(c.pkts a).repackno) = D
  have hTD : suf = T ++ D := by rw [← hT, ← hD, List.takeWhile_append_dropWhile]
  have hTs : ∀ a ∈ T, a ∈ suf := fun a ha => hTD ▸ List.mem_append_left _ ha
  rw [List.map_append, List.map_cons, hTD, List.map_append]
  rw [hTD] at hsuf
  have hd := (List.nodup_append.1 hsuf).2.2
  congr 1
  · apply List.map_congr_left
    intro a ha
    rw [if_neg fun hm => hdis a ha a (.tail _ (hTs a hm)) rfl, Core.place]
  · rw [if_neg fun hm => hps (hTs p hm), hr]
    congr 2
    · apply List.map_congr_left
      intro a ha
      rw [if_pos ha]
    · apply List.map_congr_left
      intro a ha
      rw [if_neg fun hm => hd a hm a ha rfl, Core.place]

theorem LineStep.killSched (hm : m .mark) (hP : Placed c h) (hp : p ∈ c.queue .scheduled) :
    LineStep m c ((c.renumberToRight p).schedRemove p) := by
  cases hr : (c.pkts p).repackno with
  | true =>
    have hc : c.renumberToRight p = c := if_pos hr
    rw [hc]
    exact .schedRemove hp
  | false =>
    obtain ⟨pre, suf, hn, hq, he⟩ := line_split hp
    have hR := line_renumberToRight hP hq hn hr
    have hq' : (c.renumberToRight p).queue .scheduled = pre ++ p :: suf :=
      (congrFun (renumberToRight_queue c p) _).trans hq
    have hS := line_schedRemove hq' hn
    rw [Core.line, hq', List.map_append, List.map_cons] at hR
    obtain ⟨h₁, h₂⟩ := List.append_inj hR (by simp only [List.length_map])
    rw [List.cons.injEq] at h₂
    rw [h₁, h₂.2] at hS
    rw [Core.place, hr] at he
    refine .cut hm he hS ?_ ?_
    · simp only [Core.renumberToRight, hr, Bool.false_eq_true, ↓reduceIte]
      rfl
    · simp only [Core.renumberToRight, hr, Bool.false_eq_true, ↓reduceIte]
      rfl

theorem line_takeHead (hp : c.queue .scheduled = p :: l) (body : Body) :
    (c.takeHead p body).line = l.map c.place := by
  have hU : (c.takeHead p body).line = (c.schedRemove p).line :=
    line_upd (c := c.schedRemove p) (f := ({ · with body := body })) fun _ => ⟨rfl, rfl⟩
  rw [hU]
  have hp' : c.queue .scheduled = [] ++ p :: l := hp
  exact line_schedRemove hp' List.not_mem_nil

theorem line_senhistAdd (c : Core) (packno : Int) : (c.senhistAdd packno).line = c.line ∧
    (c.senhistAdd packno).curPackno = c.curPackno ∧ (c.senhistAdd packno).gap = c.gap ∧
    (c.senhistAdd packno).lastSent = max c.lastSent packno := by
  unfold Core.senhistAdd
  split
  next hlt => exact ⟨rfl, rfl, rfl, (Int.max_eq_right (Int.le_of_lt hlt)).symm⟩
  next hge => exact ⟨rfl, rfl, rfl, (Int.max_eq_left (Int.not_lt.1 hge)).symm⟩

theorem line_addPoison (hP : Placed c h) (sz : Nat) : (c.addPoison sz).line = c.line :=
  (line_setQueue (c := c.alloc _) (by simp)).trans (line_alloc hP)

theorem line_unackedAppend (c : Core) (p : PktId) : (c.unackedAppend p).line = c.line :=
  line_move (c := c) (p := p) (q := .unacked (c.pkts p).pns) (f := ({ · with unacked := true }))
    (by simp) fun _ => ⟨rfl, rfl⟩

theorem line_unackedRemove (c : Core) (p : PktId) : (c.unackedRemove p).line = c.line :=
  line_move (c := c) (p := p) (q := .unacked (c.pkts p).pns) (f := ({ · with unacked := false }))
    (by simp) fun _ => ⟨rfl, rfl⟩

theorem line_launch (hp : p ∉ c.queue .scheduled) (packno : Int) :
    (c.launch p packno).line = c.line ∧
    (c.launch p packno).curPackno = c.curPackno ∧ (c.launch p packno).gap = c.gap ∧
    (c.launch p packno).lastSent = max c.lastSent packno := by
  obtain ⟨hl, hc, hg, hs⟩ := line_senhistAdd c packno
  have hq : p ∉ (c.senhistAdd packno).queue .scheduled := by
    rw [senhistAdd_queue]
    exact hp
  simp only [Core.launch]
  generalize c.senhistAdd packno = c₁ at hl hc hg hs hq
  have hU : (c₁.upd p ({ · with tx := c₁.nTotalSent })).line = c₁.line :=
    line_upd fun h => absurd h hq
  exact ⟨((line_unackedAppend _ p).trans hU).trans hl, hc, hg, hs⟩

theorem LineStep.sendHead (hm : m .send) (hP : Placed c h) (hp : c.queue .scheduled = p :: l)
    (hr : (c.pkts p).repackno = false) (body : Body) (sz : Nat) :
    LineStep m c (c.sendHead p body sz) := by
  have hmem : p ∈ c.queue .scheduled := hp ▸ List.mem_cons_self
  have hT := hP.takeHead hmem body
  have hl := line_takeHead hp body
  have hs := sendHead_log c p body sz
  have he : c.line = ⟨p, (c.pkts p).packno, false⟩ ::
      l.map c.place := by
    simp only [Core.line, hp, List.map_cons, Core.place, hr]
  have hoff : ∀ {c : Core} {h : List PktId}, Placed c (p :: h) → p ∉ c.queue .scheduled :=
    fun hP hq => hP.off_unhand (some .scheduled) hq
  have hW : ((c.takeHead p body).withPoison (c.pkts p).packno sz).line = (c.takeHead p body).line ∧
      ((c.takeHead p body).withPoison (c.pkts p).packno sz).curPackno = c.curPackno ∧
      ((c.takeHead p body).withPoison (c.pkts p).packno sz).gap = c.gap ∧
      max ((c.takeHead p body).withPoison (c.pkts p).packno sz).lastSent (c.pkts p).packno =
        max c.lastSent (c.pkts p).packno := by
    simp only [Core.withPoison]
    split
    next hg =>
      obtain ⟨hl₀, hc₀, hg₀, hs₀⟩ := line_senhistAdd (c.takeHead p body) (c.takeHead p body).gap
      have hA := line_addPoison (hT.senhistAdd (c.takeHead p body).gap) sz
      refine ⟨hA.trans hl₀, hc₀, hg₀, ?_⟩
      have hs₀ : (((c.takeHead p body).senhistAdd (c.takeHead p body).gap).addPoison sz).lastSent =
          max c.lastSent (c.takeHead p body).gap := hs₀
      rw [hs₀]
      omega
    · exact ⟨rfl, rfl, rfl, rfl⟩
  obtain ⟨hl₁, hc₁, hg₁, hs₁⟩ := hW
  obtain ⟨hl₂, hc₂, hg₂, hs₂⟩ := line_launch (hoff (hT.withPoison (c.pkts p).packno sz))
    (c.pkts p).packno
  refine .send hm he (hl₂.trans (hl₁.trans hl)) ?_ (hg₂.trans hg₁)
  simp only [Core.counters, Prod.mk.injEq]
  refine ⟨hc₂.trans hc₁, hs₂.trans hs₁, ?_⟩
  rw [hs]
  rfl

theorem LineStep.ackIf (hL : LineStep m c c') : LineStep m c (c'.ackIf p ack) := by
  cases ack with
  | true =>
    cases hL with
    | idle hl hc hg => exact .idle hl hc hg
    | setGap hl hc hg => exact .setGap hl hc hg
    | leave he hl hc hg => exact .leave he hl hc hg
    | enter hm ht hk hn hl hc hg => exact .enter hm ht hk hn hl hc hg
    | renumber hm he hk hn hl hc hg => exact .renumber hm he hk hn hl hc hg
    | send hm he hl hc hg => exact .send hm he hl hc hg
    | cut hm he hl hc hg => exact .cut hm he hl hc hg
    | reset hm hl hc hg => exact .reset hm hl hc hg
    | rebuild hm => exact .rebuild hm
  | false => exact hL

theorem LineStep.shelve (l : List PktId) (k : Int) :
    LineStep m c ((c.setQueue (.buffered b) l).addBpq b k) := by
  have hQ : (c.setQueue (.buffered b) l).line = c.line := line_setQueue (by simp)
  exact .idle hQ rfl rfl

theorem LineStep.lose (hlt : p < c.nextId) (hP : Placed c h) :
    LineStep m c ((c.recordLoss p).unackedRemove p) := by
  have hR : (c.recordLoss p).line = c.line := by
    refine line_congr ?_ fun a ha => ?_
    · rw [recordLoss_queue, if_neg (by simp)]
    · rw [recordLoss_pkts c hlt]
      split
      next he =>
        rw [he]
        exact ⟨rfl, rfl⟩
      · rw [if_neg (Nat.ne_of_lt (hP.on ha))]
        exact ⟨rfl, rfl⟩
  have hc : (c.recordLoss p).counters = c.counters ∧ (c.recordLoss p).gap = c.gap := by
    simp only [Core.recordLoss]
    split <;> exact ⟨rfl, rfl⟩
  exact .idle ((line_unackedRemove _ p).trans hR) hc.1 hc.2

theorem line_recRemove (c : Core) (n : Pns) (p : PktId) : (c.recRemove n p).line = c.line ∧
    (c.recRemove n p).counters = c.counters ∧ (c.recRemove n p).gap = c.gap := by
  have hQ : ∀ c : Core, (c.remove (.unacked n) p).line = c.line := fun c => line_setQueue (by simp)
  unfold Core.recRemove
  split
  · exact ⟨hQ _, rfl, rfl⟩
  · exact ⟨hQ _, rfl, rfl⟩

section
variable (c : Core) (p : PktId)

theorem line_replicaFeedback (ok : Bool) :
    (c.replicaFeedback p ok).line = c.line ∧ (c.replicaFeedback p ok).counters = c.counters ∧
      (c.replicaFeedback p ok).gap = c.gap := by
  unfold Core.replicaFeedback
  split
  · cases ok with
    | true => exact ⟨rfl, rfl, rfl⟩
    | false => exact ⟨rfl, rfl, rfl⟩
  · exact ⟨rfl, rfl, rfl⟩

theorem line_lostAppend : (c.lostAppend p).line = c.line :=
  line_move (c := c) (p := p) (q := .lost) (f := ({ · with lost := true })) (by simp)
    fun _ => ⟨rfl, rfl⟩

theorem LineStep.newTurn (need : Nat) (rounds : List Nat) :
    LineStep m c ((c.lostAppend p).newTurn p need rounds) := by
  have hU := line_upd (c := c.lostAppend p) (p := p) (f := ({ · with
    retransTimes := u16add ((c.lostAppend p).pkts p).retransTimes 1
    needRetransNumber := need
    fakeLossRec := 1 })) fun _ => ⟨rfl, rfl⟩
  exact .idle (hU.trans (line_lostAppend c p)) rfl rfl

theorem LineStep.duplicate : LineStep m c ((c.lostAppend p).duplicate p) := by
  have hU := line_upd (c := c.lostAppend p) (p := p) (f := ({ · with
    retransPacketNumber := u16add ((c.lostAppend p).pkts p).retransPacketNumber 1 }))
    fun _ => ⟨rfl, rfl⟩
  exact .idle (hU.trans (line_lostAppend c p)) rfl rfl

theorem LineStep.reportLoss (ok : Bool) :
    LineStep m c ((c.recordFeedback p 1 ok).upd p ({ · with feedbackRecorded := 1 })) := by
  have hU := line_upd (c := c.recordFeedback p 1 ok) (p := p)
    (f := ({ · with feedbackRecorded := 1 })) fun _ => ⟨rfl, rfl⟩
  cases ok with
  | true => exact .idle hU rfl rfl
  | false => exact .idle hU rfl rfl

end

/-- What a move can do to the line of scheduled packets. -/
theorem Move.line_of {h' x x' : List PktId} (hm : Move m ⟨c, h, x⟩ ⟨c', h', x'⟩)
    (hP : Placed c h) : LineStep m c c' := by
  cases hm with
  | resize => exact .idle (line_upd fun _ => ⟨rfl, rfl⟩) rfl rfl
  | congest => exact .idle rfl rfl rfl
  | declare => exact .idle rfl rfl rfl
  | setGap hg => exact .setGap rfl rfl hg
  | scrub => exact .idle (line_upd fun _ => ⟨rfl, rfl⟩) rfl rfl
  | shuffle => exact .idle rfl rfl rfl
  | fresh => exact .idle (line_alloc hP) rfl rfl
  | takeSched hp => exact .schedRemove hp
  | takeLost => exact .idle (line_move (by simp) fun _ => ⟨rfl, rfl⟩) rfl rfl
  | takeBuffered => exact .shelve _ _
  | splitBuffered => exact .shelve _ _
  | takeUnacked => exact .idle (line_unackedRemove _ _) rfl rfl
  | lose _ hp => exact .lose (hP.on hp) hP
  | ackData =>
    obtain ⟨hl, hc, hg⟩ := line_replicaFeedback c _ _
    exact .idle ((line_unackedRemove _ _).trans hl) hc hg
  | ackRecord =>
    obtain ⟨hl, hc, hg⟩ := line_replicaFeedback c _ _
    obtain ⟨hl', hc', hg'⟩ := line_recRemove (c.replicaFeedback _ _) _ _
    exact .idle (hl'.trans hl) (hc'.trans hc) (hg'.trans hg)
  | reportLoss => exact .reportLoss _ _ _
  | toLost => exact .idle (line_move (by simp) fun _ => ⟨rfl, rfl⟩) rfl rfl
  | newTurn => exact .newTurn _ _ _ _
  | duplicate => exact .duplicate _ _
  | toStash => exact .idle (line_setQueue (by simp)) rfl rfl
  | toBuffered => exact .shelve _ _
  | enqueue hm ht _ hr => exact .enqueue hm ht hP hr _ _
  | renumberHead hm hp hr => exact .renumberHead hm hP hp hr _
  | sendHead hm hp hr => exact .sendHead hm hP hp hr _ _
  | dropPoison => exact .idle (line_setQueue (by simp)) rfl rfl
  | elideTwice => exact .idle rfl rfl rfl
  | rewind hm => exact .rebuild hm
  | requeue hm => exact .rebuild hm
  | doom => exact .idle rfl rfl rfl
  | undoom => exact .idle rfl rfl rfl
  | release => exact LineStep.ackIf (.idle rfl rfl rfl)
  | killRecord =>
    obtain ⟨hl, hc, hg⟩ := line_recRemove c _ _
    exact .idle hl hc hg
  | killUnacked => exact .idle (line_unackedRemove _ _) rfl rfl
  | killLost => exact LineStep.ackIf (.idle (line_setQueue (by simp)) rfl rfl)
  | killStashed => exact .idle rfl rfl rfl
  | purgeRecord => exact .idle (line_setQueue (by simp)) rfl rfl
  | purgeBuffered => exact .idle (line_setQueue (by simp)) rfl rfl
  | killSched hm hp => exact LineStep.ackIf (.killSched hm hP hp)
  | reset hm => exact .resetPacknos hm _

theorem noMarks_iff : NoMarks c ↔ ∀ e ∈ c.line, e.marked = false := by
  rw [Core.line, List.forall_mem_map]
  rfl

theorem LineStep.noMarks (hL : LineStep m c c') (hk : ¬ m .mark ∧ ¬ m .resize) (h : NoMarks c) :
    NoMarks c' := by
  rw [noMarks_iff] at h ⊢
  cases hL with
  | idle hl => exact hl ▸ h
  | setGap hl => exact hl ▸ h
  | leave he hl =>
    rw [he] at h
    rw [hl]
    intro e hm
    rcases List.mem_append.1 hm with hm | hm
    · exact h e (List.mem_append_left _ hm)
    · exact h e (List.mem_append_right _ (.tail _ hm))
  | enter _ _ _ _ hl =>
    rw [hl]
    intro e hm
    rcases List.mem_append.1 hm with hm | hm
    · exact h e hm
    · rw [List.mem_singleton.1 hm]
  | renumber _ he => cases h _ (he ▸ List.mem_cons_self)
  | send _ he hl =>
    rw [he] at h
    exact hl ▸ fun e hm => h e (.tail _ hm)
  | cut hm => exact absurd hm hk.1
  | reset hm => exact absurd hm hk.1
  | rebuild hm => exact absurd hm hk.2

end

/-- Packets may be appended: no packet has lost its number, or that is permitted. -/
def Tidy (m : Kind → Prop) (c : Core) : Prop := NoMarks c ∨ m .tangle

theorem Moves.tidy (hM : Moves m g g') (hk : ¬ m .mark ∧ ¬ m .resize)
    (hP : Placed g.core g.hand) (h : Tidy m g.core) : Tidy m g'.core := by
  have hI : Placed g'.core g'.hand ∧ Tidy m g'.core :=
    hM.invariant (I := fun g => Placed g.core g.hand ∧ Tidy m g.core)
      (fun _ _ hm hI => ⟨hm.placed hI.1, hI.2.imp_left ((hm.line_of hI.1).noMarks hk)⟩) ⟨hP, h⟩
  exact hI.2

end QuicArt
