import QuicArt.WellFormed

namespace QuicArt

def Pkt.links (pk : Pkt) : PktId × Bool × Bool × Pns :=
  (pk.lossChain, pk.lossRec, pk.poison, pk.pns)

def Live (c : Core) (h : List PktId) (p : PktId) : Prop := ∃ L, p ∈ c.locs h L

structure Rooted (c : Core) (h x : List PktId) (p : PktId) : Prop where
  data : (c.pkts p).data
  kept : p ∉ x
  here : p ∈ h ∨ ∃ q, q ≠ .stash ∧ p ∈ c.queue q

def Bare (c : Core) (p : PktId) : Prop :=
  (c.pkts p).mtuProbe = true ∨ ∃ b, p ∈ c.queue (.buffered b)

def RecHere (c : Core) (h : List PktId) (r : PktId) : Prop := r ∈ h ∨ ∃ n, r ∈ c.queue (.unacked n)

structure Chains (c : Core) (h x : List PktId) : Prop where
  chain : ∀ p, Rooted c h x p →
    ∃ l, ChainAt c h p l ∧ (∀ r ∈ l, r ∉ x) ∧ (Bare c p → l = [])
  owner : ∀ r, (c.pkts r).lossRec = true → r ∉ x → RecHere c h r →
    ∃ d l, (c.pkts d).data ∧ d ∉ x ∧ Live c h d ∧ ChainAt c h d l ∧ r ∈ l ∧ ∀ r ∈ l, r ∉ x

section
variable {c c' : Core} {h h' x : List PktId} {p d : PktId} {q : Queue} {l pre suf : List PktId}
  {f : Pkt → Pkt}

theorem Rooted.live (hR : Rooted c h x p) : Live c h p := by
  rcases hR.here with hp | ⟨q, -, hp⟩
  · exact ⟨none, hp⟩
  · exact ⟨some q, hp⟩

theorem RecHere.live (hr : RecHere c h r) : Live c h r := by
  rcases hr with hr | ⟨n, hr⟩
  · exact ⟨none, hr⟩
  · exact ⟨some (.unacked n), hr⟩

theorem ChainAt.live (hC : ChainAt c h d l) (hr : r ∈ l) : Live c h r := by
  rcases hC.here r hr with hq | hh
  · exact ⟨some _, hq⟩
  · exact ⟨none, hh⟩

theorem ChainAt.single (hc : (c.pkts p).lossChain = p) : ChainAt c h p [] :=
  ⟨.single hc, by simp, by simp, by simp⟩

theorem ChainAt.unique (hC : ChainAt c h d l) (hC' : ChainAt c h d l') : l = l' :=
  hC.ring.unique hC'.ring

theorem ChainAt.frame (hC : ChainAt c h d l)
    (hl : ∀ p ∈ d :: l, (c'.pkts p).links = (c.pkts p).links)
    (hr : ∀ r ∈ l, r ∈ c.queue (.unacked (c.pkts d).pns) ∨ r ∈ h →
      r ∈ c'.queue (.unacked (c.pkts d).pns) ∨ r ∈ h') : ChainAt c' h' d l := by
  simp only [Pkt.links, Prod.mk.injEq] at hl
  refine ⟨hC.ring.congr fun p hp => (hl p hp).1, fun r hrl => ?_, fun r hrl => ?_,
    fun r hrl => ?_⟩
  · rw [(hl r (.tail _ hrl)).2.1]
    exact hC.recs r hrl
  · rw [(hl r (.tail _ hrl)).2.2.2, (hl d (.head _)).2.2.2]
    exact hC.space r hrl
  · rw [(hl d (.head _)).2.2.2]
    exact hr r hrl (hC.here r hrl)

/-- The step keeps links and records, and makes no new roots but packets alone on their chains. -/
structure Carries (c : Core) (h : List PktId) (c' : Core) (h' x : List PktId) : Prop where
  links : ∀ p, Live c h p → (c'.pkts p).links = (c.pkts p).links
  recs : ∀ r n, (c.pkts r).lossRec = true → r ∉ x → r ∈ c.queue (.unacked n) ∨ r ∈ h →
    r ∈ c'.queue (.unacked n) ∨ r ∈ h'
  back : ∀ r, (c'.pkts r).lossRec = true → r ∉ x → RecHere c' h' r → RecHere c h r
  roots : ∀ p, Rooted c' h' x p →
    (c'.pkts p).lossChain = p ∨ (Rooted c h x p ∧ (Bare c' p → Bare c p))
  owners : ∀ d, (c.pkts d).data → d ∉ x → Live c h d → Live c' h' d

theorem Carries.chainAt (hK : Carries c h c' h' x) (hd : Live c h d) (hC : ChainAt c h d l)
    (hx : ∀ r ∈ l, r ∉ x) : ChainAt c' h' d l := by
  refine hC.frame ?_ fun r hr => hK.recs r _ (hC.recs r hr) (hx r hr)
  intro p hp
  rcases List.mem_cons.1 hp with rfl | hp
  · exact hK.links p hd
  · exact hK.links p (hC.live hp)

section
variable (hC : Chains c h x)
include hC

theorem Chains.transfer (hK : Carries c h c' h' x) : Chains c' h' x := by
  refine ⟨fun p hp => ?_, fun r hr hx hm => ?_⟩
  · rcases hK.roots p hp with hs | ⟨hR, hB⟩
    · exact ⟨[], .single hs, by simp, fun _ => rfl⟩
    · obtain ⟨l, hl, hx, hb⟩ := hC.chain p hR
      exact ⟨l, hK.chainAt hR.live hl hx, hx, fun hB' => hb (hB hB')⟩
  · have hm' := hK.back r hr hx hm
    have hlinks := hK.links r hm'.live
    simp only [Pkt.links, Prod.mk.injEq] at hlinks
    obtain ⟨d, l, hd, hdx, hdl, hl, hrl, hlx⟩ := hC.owner r (hlinks.2.1 ▸ hr) hx hm'
    have hdlinks := hK.links d hdl
    simp only [Pkt.links, Prod.mk.injEq] at hdlinks
    refine ⟨d, l, ?_, hdx, hK.owners d hd hdx hdl, hK.chainAt hdl hl hlx, hrl, hlx⟩
    simp only [Pkt.data, hdlinks.2.1, hdlinks.2.2.1]
    exact hd

theorem Chains.repkt (hq : c'.queue = c.queue)
    (hl : ∀ p, Live c h p → (c'.pkts p).links = (c.pkts p).links)
    (hm : ∀ p, Live c h p → (c'.pkts p).mtuProbe = true →
      (c.pkts p).mtuProbe = true ∨ (c.pkts p).lossChain = p) : Chains c' h x := by
  apply hC.transfer
  refine ⟨hl, fun r n _ _ hr => hq ▸ hr, fun r _ _ hr => ?_, fun p hR => ?_,
    fun d _ _ hd => ?_⟩
  · simpa only [RecHere, hq] using hr
  · have hlive : Live c h p := by
      obtain ⟨L, hL⟩ := hR.live
      exact ⟨L, locs_congr hq L ▸ hL⟩
    have hp := hl p hlive
    simp only [Pkt.links, Prod.mk.injEq] at hp
    have hR' : Rooted c h x p := by
      refine ⟨?_, hR.kept, hq ▸ hR.here⟩
      have hd := hR.data
      simp only [Pkt.data, hp.2.1, hp.2.2.1] at hd
      exact hd
    by_cases hs : (c.pkts p).lossChain = p
    · exact .inl (hp.1.trans hs)
    · refine .inr ⟨hR', fun hB => ?_⟩
      rcases hB with hB | hB
      · exact .inl ((hm p hlive hB).resolve_right hs)
      · exact .inr (hq ▸ hB)
  · obtain ⟨L, hL⟩ := hd
    exact ⟨L, (locs_congr hq L).symm ▸ hL⟩

theorem Chains.congr (hp : c'.pkts = c.pkts) (hq : c'.queue = c.queue) : Chains c' h x :=
  hC.repkt hq (fun p _ => by rw [hp]) fun p _ hm => .inl (by rwa [hp] at hm)

theorem Chains.update (hl : (f (c.pkts p)).links = (c.pkts p).links)
    (hm : (f (c.pkts p)).mtuProbe = true →
      (c.pkts p).mtuProbe = true ∨ (c.pkts p).lossChain = p) : Chains (c.upd p f) h x := by
  refine hC.repkt rfl (fun p' _ => ?_) fun p' _ => ?_
  · rw [upd_pkts]
    split
    next he => exact he ▸ hl
    · rfl
  · rw [upd_pkts]
    split
    next he => exact he ▸ hm
    · exact .inl

theorem Chains.scrub (hq : ∀ q, p ∉ c.queue q) (hh : p ∉ h) :
    Chains (c.upd p ({ · with lossChain := a })) h x := by
  have hne : ∀ p', Live c h p' → p' ≠ p := by
    rintro p' ⟨L, hL⟩ rfl
    cases L with
    | none => exact hh hL
    | some q => exact hq q hL
  refine hC.repkt rfl (fun p' hp' => ?_) fun p' hp' hm => ?_
  · rw [upd_pkts, if_neg (hne p' hp')]
  · rw [upd_pkts, if_neg (hne p' hp')] at hm
    exact .inl hm

theorem Chains.alloc (hP : Placed c h) (pk : Pkt) : Chains (c.alloc pk) h x := by
  have hlt : ∀ p', Live c h p' → p' < c.nextId := fun p' ⟨L, hL⟩ => hP.lt p' L hL
  refine hC.repkt rfl (fun p' hp' => ?_) fun p' hp' hm => ?_
  · rw [alloc_pkts_of_lt c pk (hlt p' hp')]
  · rw [alloc_pkts_of_lt c pk (hlt p' hp')] at hm
    exact .inl hm

theorem Chains.markAll (l : List PktId) : Chains (c.markAll l) h x := by
  refine hC.repkt rfl (fun p' _ => ?_) fun p' _ => ?_
  · simp only [Core.markAll]
    split <;> rfl
  · simp only [Core.markAll]
    split <;> exact .inl

end

theorem mem_queue_remove (hP : Placed c h) {p' : PktId} {q' : Queue} :
    p' ∈ (c.remove q p).queue q' ↔ p' ∈ c.queue q' ∧ ¬ (q' = q ∧ p' = p) := by
  have hm : p' ∈ (c.remove q p).locs h (some q') ↔
      p' ∈ c.locs h (some q') ∧ ¬ (some q' = some q ∧ p' = p) := mem_locs_remove hP
  simp only [Option.some.injEq] at hm
  exact hm

theorem mem_queue_insert (he : c.queue q = pre ++ suf) {p' : PktId} {q' : Queue} :
    p' ∈ (c.setQueue q (pre ++ p :: suf)).queue q' ↔ p' ∈ c.queue q' ∨ (q' = q ∧ p' = p) := by
  simp only [Core.setQueue, Function.update_apply]
  split
  next hq =>
    subst hq
    simp only [he, List.mem_append, List.mem_cons, true_and]
    exact ⟨fun hm => by tauto, fun hm => by tauto⟩
  next hq => simp only [hq, false_and, or_false]

theorem Placed.record_on (hP : Placed c h) (hp : p ∈ c.queue q)
    (hr : (c.pkts p).lossRec = true) : ∃ n, p ∈ c.queue (.unacked n) := by
  have hf := (hP.fits p (some q) hp).1
  cases q with
  | unacked n => exact ⟨n, hp⟩
  | scheduled => cases hf.2.1.symm.trans hr
  | lost => cases hf.2.1.1.symm.trans hr
  | stash => cases hf.2.1.1.symm.trans hr
  | buffered b => cases hf.2.1.1.symm.trans hr

/-- Records and packets stay where they are, or are picked up. -/
theorem Chains.narrow (hC : Chains c h x) (hpk : c'.pkts = c.pkts)
    (hq : ∀ p q, p ∉ x → (c.pkts p).lossRec = true ∨ (c.pkts p).data → p ∈ c.queue q →
      p ∈ c'.queue q ∨ p ∈ h')
    (hh : ∀ p, p ∉ x → p ∈ h → p ∈ h')
    (hq' : ∀ p q, (c.pkts p).lossRec = true ∨ (c.pkts p).data → p ∈ c'.queue q → p ∈ c.queue q)
    (hh' : ∀ p ∈ h', p ∈ h ∨ (∃ q, q ≠ .stash ∧ p ∈ c.queue q) ∧
      ((c.pkts p).lossRec = true → ∃ n, p ∈ c.queue (.unacked n))) : Chains c' h' x := by
  apply hC.transfer
  refine ⟨fun p _ => by rw [hpk], fun r n hr hrx hm => ?_, fun r hr _ hm => ?_, fun p hR => ?_,
    fun d hd hdx hdl => ?_⟩
  · rcases hm with hm | hm
    · exact hq r _ hrx (.inl hr) hm
    · exact .inr (hh r hrx hm)
  · rw [hpk] at hr
    rcases hm with hm | ⟨n, hm⟩
    · exact (hh' r hm).imp_right fun hm => hm.2 hr
    · exact .inr ⟨n, hq' r _ (.inl hr) hm⟩
  · have hd : (c.pkts p).data := hpk ▸ hR.data
    refine .inr ⟨⟨hd, hR.kept, ?_⟩, ?_⟩
    · rcases hR.here with hm | ⟨q, hs, hm⟩
      · exact (hh' p hm).imp_right And.left
      · exact .inr ⟨q, hs, hq' p q (.inr hd) hm⟩
    · rintro (hB | ⟨b, hB⟩)
      · exact .inl (hpk ▸ hB)
      · exact .inr ⟨b, hq' p _ (.inr hd) hB⟩
  · obtain ⟨L, hL⟩ := hdl
    cases L with
    | none => exact ⟨none, hh d hdx hL⟩
    | some q =>
      rcases hq d q hdx (.inr hd) hL with hm | hm
      · exact ⟨some q, hm⟩
      · exact ⟨none, hm⟩

theorem Chains.take (hC : Chains c h x) (hP : Placed c h) (hp : p ∈ c.queue q)
    (hq : q ≠ .stash) : Chains (c.remove q p) (p :: h) x := by
  refine hC.narrow rfl (fun p' q' _ _ hm => ?_) (fun _ _ => List.mem_cons_of_mem _)
    (fun p' q' _ hm => ((mem_queue_remove hP).1 hm).1) fun p' hm => ?_
  · by_cases he : p' = p
    · exact .inr (he ▸ List.mem_cons_self)
    · exact .inl ((mem_queue_remove hP).2 ⟨hm, fun hn => he hn.2⟩)
  · rcases List.mem_cons.1 hm with rfl | hm
    · exact .inr ⟨⟨q, hq, hp⟩, hP.record_on hp⟩
    · exact .inl hm

theorem Chains.put (hC : Chains c (p :: h) x) (hd : (c.pkts p).data) (he : c.queue q = pre ++ suf)
    (hb : ∀ b, q = .buffered b → (c.pkts p).lossChain = p) :
    Chains (c.setQueue q (pre ++ p :: suf)) h x := by
  apply hC.transfer
  have hne : ∀ r, (c.pkts r).lossRec = true → r ≠ p := by
    rintro r hr rfl
    cases hd.1.symm.trans hr
  refine ⟨fun _ _ => rfl, fun r n hrec _ hr => ?_, fun r hrec _ hr => ?_, fun p' hR => ?_,
    fun d _ _ hd => ?_⟩
  · rw [mem_queue_insert he]
    rcases hr with hr | hr
    · exact .inl (.inl hr)
    · exact .inr ((List.mem_cons.1 hr).resolve_left (hne r hrec))
  · rcases hr with hr | ⟨n, hr⟩
    · exact .inl (.tail _ hr)
    · rcases (mem_queue_insert he).1 hr with hr | ⟨-, hr⟩
      · exact .inr ⟨n, hr⟩
      · exact absurd hr (hne r hrec)
  · by_cases hs : (c.pkts p').lossChain = p'
    · exact .inl hs
    · refine .inr ⟨⟨hR.data, hR.kept, ?_⟩, ?_⟩
      · rcases hR.here with hh | ⟨q', hq', hm⟩
        · exact .inl (.tail _ hh)
        · rcases (mem_queue_insert he).1 hm with hm | ⟨-, rfl⟩
          · exact .inr ⟨q', hq', hm⟩
          · exact .inl (.head _)
      · rintro (hB | ⟨b, hB⟩)
        · exact .inl hB
        · rcases (mem_queue_insert he).1 hB with hB | ⟨hq, rfl⟩
          · exact .inr ⟨b, hB⟩
          · exact absurd (hb b hq.symm) hs
  · obtain ⟨L, hL⟩ := hd
    cases L with
    | none =>
      rcases List.mem_cons.1 hL with rfl | hL
      · exact ⟨some q, (mem_queue_insert he).2 (.inr ⟨rfl, rfl⟩)⟩
      · exact ⟨none, hL⟩
    | some q' => exact ⟨some q', (mem_queue_insert he).2 (.inl hL)⟩

theorem Chains.hold (hC : Chains c h x) (hd : (c.pkts p).data) (hs : (c.pkts p).lossChain = p) :
    Chains c (p :: h) x := by
  apply hC.transfer
  refine ⟨fun _ _ => rfl, fun r n _ _ hr => hr.imp_right (List.mem_cons_of_mem _),
    fun r hrec _ hr => ?_, fun p' hR => ?_, fun d _ _ hd => ?_⟩
  · rcases hr with hr | hr
    · rcases List.mem_cons.1 hr with rfl | hr
      · cases hd.1.symm.trans hrec
      · exact .inl hr
    · exact .inr hr
  · by_cases he : p' = p
    · exact .inl (he ▸ hs)
    · exact .inr ⟨⟨hR.data, hR.kept,
        hR.here.imp_left fun hm => (List.mem_cons.1 hm).resolve_left he⟩, id⟩
  · obtain ⟨L, hL⟩ := hd
    cases L with
    | none => exact ⟨none, List.mem_cons_of_mem _ hL⟩
    | some q => exact ⟨some q, hL⟩

theorem Chains.discard (hC : Chains c h x) (hP : Placed c h)
    (hx : p ∈ x ∨ (c.pkts p).poison = true) : Chains (c.remove q p) h x := by
  refine hC.narrow rfl (fun p' q' hx' hk hm => .inl ((mem_queue_remove hP).2 ⟨hm, ?_⟩))
    (fun _ _ => id) (fun p' q' _ hm => ((mem_queue_remove hP).1 hm).1) fun _ => .inl
  rintro ⟨-, rfl⟩
  have hpo := hx.resolve_left hx'
  rcases hk with hr | hd
  · have hs := (hP.fits p' (some q') hm).2
    cases (hs.record hr).2.1.symm.trans hpo
  · cases hd.2.symm.trans hpo

theorem Chains.release (hC : Chains c (p :: h) x) (hx : p ∈ x) : Chains c h x := by
  refine hC.narrow rfl (fun _ _ _ _ => .inl)
    (fun p' hx' hm => (List.mem_cons.1 hm).resolve_left ?_) (fun _ _ _ => id)
    fun p' hm => .inl (.tail _ hm)
  rintro rfl
  exact hx' hx

theorem Chains.enterPoison (hC : Chains c h x) (hpo : (c.pkts p).poison = true)
    (hr : (c.pkts p).lossRec = false) : Chains (c.append q p) h x := by
  have hins : ∀ {p' q'}, p' ∈ (c.append q p).queue q' ↔ p' ∈ c.queue q' ∨ (q' = q ∧ p' = p) :=
    mem_queue_insert (List.append_nil _).symm
  refine hC.narrow rfl (fun p' q' _ _ hm => .inl (hins.2 (.inl hm))) (fun _ _ => id)
    (fun p' q' hk hm => (hins.1 hm).resolve_right ?_) fun _ => .inl
  rintro ⟨-, rfl⟩
  rcases hk with hk | hk
  · cases hr.symm.trans hk
  · cases hk.2.symm.trans hpo

theorem Placed.lt_of_live (hP : Placed c h) (hp : Live c h p) : p < c.nextId := by
  obtain ⟨L, hL⟩ := hp
  exact hP.lt p L hL

section
variable (hP : Placed c h) (hp : p ∈ c.queue (.unacked n)) (hd : (c.pkts p).data)
include hP hp hd

theorem Placed.mem_recordLoss_iff :
    p' ∈ (c.recordLoss p).queue q ↔ p' ∈ c.queue q ∨ (q = .unacked n ∧ p' = c.nextId) := by
  have hn := (hP.unacked hp).2.1 hd.2
  rw [recordLoss_queue, hn]
  split
  next he =>
    subst he
    simp only [mem_insertBefore hp, true_and]
    exact or_comm
  next he => simp only [he, false_and, or_false]

theorem Placed.chainAt_recordLoss (hC : ChainAt c h p l) :
    ChainAt (c.recordLoss p) h p (c.nextId :: l) := by
  have hn := (hP.unacked hp).2.1 hd.2
  have hlt : p < c.nextId := hP.on hp
  have hlts : ∀ r ∈ p :: l, r < c.nextId := by
    intro r hr
    rcases List.mem_cons.1 hr with rfl | hr
    · exact hlt
    · exact hP.lt_of_live (hC.live hr)
  have hnew : c.nextId ∉ p :: l := fun hm => Nat.lt_irrefl _ (hlts _ hm)
  have hne : ∀ r ∈ l, r ≠ p := by
    rintro r hr rfl
    exact (List.nodup_cons.1 hC.ring.nodup).1 hr
  refine ⟨(hC.ring.insert hnew).congr fun y hy => ?_, fun r hr => ?_, fun r hr => ?_,
    fun r hr => ?_⟩
  · rw [recordLoss_pkts c hlt]
    simp only [Function.update_apply]
    split
    · rfl
    · split <;> rfl
  · rw [recordLoss_pkts c hlt]
    rcases List.mem_cons.1 hr with rfl | hr
    · rw [if_neg (Nat.ne_of_gt hlt), if_pos rfl]
      rfl
    · rw [if_neg (hne r hr), if_neg (Nat.ne_of_lt (hlts r (.tail _ hr)))]
      exact hC.recs r hr
  · rw [recordLoss_self c hlt, recordLoss_pkts c hlt]
    rcases List.mem_cons.1 hr with rfl | hr
    · rw [if_neg (Nat.ne_of_gt hlt), if_pos rfl]
      rfl
    · rw [if_neg (hne r hr), if_neg (Nat.ne_of_lt (hlts r (.tail _ hr)))]
      exact hC.space r hr
  · rw [recordLoss_self c hlt, hP.mem_recordLoss_iff hp hd]
    rcases List.mem_cons.1 hr with rfl | hr
    · exact .inl (.inr ⟨congrArg _ hn, rfl⟩)
    · exact (hC.here r hr).imp_left .inl

theorem Placed.chainAt_recordLoss_of_ne (hne : d ≠ p) (hdl : Live c h d) (hC : ChainAt c h d l) :
    ChainAt (c.recordLoss p) h d l := by
  have hlt : p < c.nextId := hP.on hp
  refine hC.frame (fun r hr => ?_) fun r hr => ?_
  · have hrp : r ≠ p ∧ r < c.nextId := by
      rcases List.mem_cons.1 hr with rfl | hr
      · exact ⟨hne, hP.lt_of_live hdl⟩
      · refine ⟨?_, hP.lt_of_live (hC.live hr)⟩
        rintro rfl
        cases hd.1.symm.trans (hC.recs _ hr)
    rw [recordLoss_pkts c hlt, if_neg hrp.1, if_neg (Nat.ne_of_lt hrp.2)]
  · rw [hP.mem_recordLoss_iff hp hd]
    exact Or.imp_left .inl

end

theorem Chains.recordLoss (hC : Chains c h []) (hP : Placed c h) (hp : p ∈ c.queue (.unacked n))
    (hd : (c.pkts p).data) (hm : (c.pkts p).mtuProbe = false) : Chains (c.recordLoss p) h [] := by
  have hlt : p < c.nextId := hP.on hp
  have hRp : Rooted c h [] p := ⟨hd, by simp, .inr ⟨.unacked n, by simp, hp⟩⟩
  have hpkt : ∀ p', p' ≠ p → p' ≠ c.nextId → (c.recordLoss p).pkts p' = c.pkts p' := by
    intro p' h₁ h₂
    rw [recordLoss_pkts c hlt, if_neg h₁, if_neg h₂]
  have hnew : ((c.recordLoss p).pkts c.nextId).lossRec = true := by
    rw [recordLoss_pkts c hlt, if_neg (Nat.ne_of_gt hlt), if_pos rfl]
    rfl
  have hq : ∀ {p' q}, p' ≠ c.nextId → p' ∈ (c.recordLoss p).queue q → p' ∈ c.queue q :=
    fun hne hm => ((hP.mem_recordLoss_iff hp hd).1 hm).resolve_right fun he => hne he.2
  refine ⟨fun p' hR => ?_, fun r hr _ hm => ?_⟩
  · have hne : p' ≠ c.nextId := by
      rintro rfl
      cases hR.data.1.symm.trans hnew
    by_cases he : p' = p
    · subst he
      obtain ⟨l, hl, -, -⟩ := hC.chain p' hRp
      refine ⟨_, hP.chainAt_recordLoss hp hd hl, by simp, ?_⟩
      rintro (hB | ⟨b, hB⟩)
      · rw [recordLoss_self c hlt] at hB
        cases hm.symm.trans hB
      · have hL := hP.uniq p' (some (.unacked n)) (some (.buffered b)) hp (hq hne hB)
        cases hL
    · have hR' : Rooted c h [] p' := by
        refine ⟨?_, hR.kept, hR.here.imp_right fun ⟨q, hs, hm⟩ => ⟨q, hs, hq hne hm⟩⟩
        rw [← hpkt p' he hne]
        exact hR.data
      obtain ⟨l, hl, -, hb⟩ := hC.chain p' hR'
      refine ⟨l, hP.chainAt_recordLoss_of_ne hp hd he hR'.live hl, by simp, fun hB => hb ?_⟩
      rw [Bare, hpkt p' he hne] at hB
      exact hB.imp_right fun ⟨b, hB⟩ => ⟨b, hq hne hB⟩
  · have hdata : ∀ d, (c.pkts d).data → Live c h d → ((c.recordLoss p).pkts d).data := by
      intro d hdd hdl
      by_cases he : d = p
      · rw [he, recordLoss_self c hlt]
        exact hd
      · rw [hpkt d he (Nat.ne_of_lt (hP.lt_of_live hdl))]
        exact hdd
    have hlive : ∀ d, Live c h d → Live (c.recordLoss p) h d := by
      rintro d ⟨L, hL⟩
      cases L with
      | none => exact ⟨none, hL⟩
      | some q => exact ⟨some q, (hP.mem_recordLoss_iff hp hd).2 (.inl hL)⟩
    by_cases he : r = c.nextId
    · obtain ⟨l, hl, -, -⟩ := hC.chain p hRp
      exact ⟨p, _, hdata p hd hRp.live, by simp, hlive p hRp.live,
        hP.chainAt_recordLoss hp hd hl, he ▸ List.mem_cons_self, by simp⟩
    · have hrp : r ≠ p := by
        rintro rfl
        rw [recordLoss_self c hlt] at hr
        cases hd.1.symm.trans hr
      obtain ⟨d, l, hdd, -, hdl, hl, hrl, -⟩ := hC.owner r (hpkt r hrp he ▸ hr) (by simp)
        (hm.imp_right fun ⟨n, hm⟩ => ⟨n, hq he hm⟩)
      by_cases hdp : d = p
      · subst hdp
        exact ⟨d, _, hdata d hdd hdl, by simp, hlive d hdl, hP.chainAt_recordLoss hp hd hl,
          List.mem_cons_of_mem _ hrl, by simp⟩
      · exact ⟨d, l, hdata d hdd hdl, by simp, hlive d hdl,
          hP.chainAt_recordLoss_of_ne hp hd hdp hdl hl, hrl, by simp⟩

theorem Chains.perm (hC : Chains c h x) (hh : h.Perm h') : Chains c h' x :=
  hC.narrow rfl (fun _ _ _ _ => .inl) (fun _ _ hm => hh.subset hm) (fun _ _ _ => id)
    fun _ hm => .inl (hh.symm.subset hm)

theorem Chains.doom (hC : Chains c h []) (hx : ClosedUnderChains c h x) : Chains c h x := by
  refine ⟨fun p hR => ?_, fun r hr hrx hm => ?_⟩
  · obtain ⟨l, hl, -, hb⟩ := hC.chain p ⟨hR.data, by simp, hR.here⟩
    rcases hx p l hR.data hl with ⟨hpx, -⟩ | ⟨-, hlx⟩
    · exact absurd hpx hR.kept
    · exact ⟨l, hl, hlx, hb⟩
  · obtain ⟨d, l, hd, -, hdl, hl, hrl, -⟩ := hC.owner r hr (by simp) hm
    rcases hx d l hd hl with ⟨-, hlx⟩ | ⟨hdx, hlx⟩
    · exact absurd (hlx r hrl) hrx
    · exact ⟨d, l, hd, hdx, hdl, hl, hrl, hlx⟩

theorem Chains.undoom (hC : Chains c h x) (hh : ∀ p ∈ x, p ∉ h)
    (hq : ∀ p ∈ x, ∀ q, q ≠ .stash → p ∉ c.queue q) : Chains c h [] := by
  refine ⟨fun p hR => ?_, fun r hr _ hm => ?_⟩
  · have hpx : p ∉ x := fun hpx => by
      rcases hR.here with hm | ⟨q, hs, hm⟩
      · exact hh p hpx hm
      · exact hq p hpx q hs hm
    obtain ⟨l, hl, -, hb⟩ := hC.chain p ⟨hR.data, hpx, hR.here⟩
    exact ⟨l, hl, by simp, hb⟩
  · have hrx : r ∉ x := fun hrx => by
      rcases hm with hm | ⟨n, hm⟩
      · exact hh r hrx hm
      · exact hq r hrx (.unacked n) (by simp) hm
    obtain ⟨d, l, hd, -, hdl, hl, hrl, -⟩ := hC.owner r hr hrx hm
    exact ⟨d, l, hd, by simp, hdl, hl, hrl, by simp⟩

theorem Chains.schedRemove (hC : Chains c h x) (hP : Placed c h) (hp : p ∈ c.queue .scheduled) :
    Chains (c.schedRemove p) (p :: h) x :=
  (hC.take hP hp (by simp)).update rfl .inl

theorem Chains.unackedRemove (hC : Chains c h x) (hP : Placed c h)
    (hp : p ∈ c.queue (.unacked n)) (hd : (c.pkts p).data) :
    Chains (c.unackedRemove p) (p :: h) x := by
  have hn := (hP.unacked hp).2.1 hd.2
  have hU : Chains ((c.remove (.unacked (c.pkts p).pns) p).upd p ({ · with unacked := false }))
      (p :: h) x :=
    (hC.take hP (hn.symm ▸ hp) (by simp)).update rfl .inl
  exact hU.congr rfl rfl

section
variable (hC : Chains c (p :: h) x) (hd : (c.pkts p).data)
include hC hd

theorem Chains.append (hl : (f (c.pkts p)).links = (c.pkts p).links)
    (hm : (f (c.pkts p)).mtuProbe = (c.pkts p).mtuProbe) (hb : ∀ b, q ≠ .buffered b) :
    Chains ((c.append q p).upd p f) h x := by
  have hA : Chains (c.append q p) h x :=
    hC.put hd (List.append_nil _).symm fun b he => absurd he (hb b)
  exact hA.update hl fun he => .inl (hm.symm.trans he)

theorem Chains.unackedAppend : Chains (c.unackedAppend p) h x := by
  have hA : Chains ((c.append (.unacked (c.pkts p).pns) p).upd p ({ · with unacked := true }))
      h x :=
    hC.append hd rfl rfl (by simp)
  exact hA.congr rfl rfl

theorem Chains.schedAppend : Chains (c.schedAppend p) h x :=
  hC.append hd rfl rfl (by simp)

end

section
variable (hC : Chains c h x)
include hC

theorem Chains.recRemove (hP : Placed c h) (hp : p ∈ c.queue (.unacked n)) :
    Chains (c.recRemove n p) (p :: h) x :=
  (hC.take hP hp (by simp)).congr (recRemove_pkts c n p) (recRemove_queue c n p)

theorem Chains.recKill (hP : Placed c h) (hx : p ∈ x) : Chains (c.recRemove n p) h x :=
  (hC.discard hP (.inl hx)).congr (recRemove_pkts c n p) (recRemove_queue c n p)

theorem Chains.ackIf (ack : Bool) : Chains (c.ackIf p ack) h x := by
  unfold Core.ackIf
  split
  · exact hC.congr rfl rfl
  · exact hC

theorem Chains.replicaFeedback (ok : Bool) : Chains (c.replicaFeedback p ok) h x :=
  hC.congr (replicaFeedback_pkts c p ok) (replicaFeedback_queue c p ok)

theorem Chains.senhistAdd (n : Int) : Chains (c.senhistAdd n) h x :=
  hC.congr (senhistAdd_pkts c n) (senhistAdd_queue c n)

theorem Chains.nextPackno : Chains c.nextPackno h x :=
  hC.congr (nextPackno_pkts c) (nextPackno_queue c)

end

theorem Chains.enqueue (hC : Chains c (p :: h) x) (hd : (c.pkts p).data)
    (hm : mtu = (c.pkts p).mtuProbe ∨ ((c.pkts p).lossChain = p ∧ (c.pkts p).fakeLossRec = 0)) :
    Chains (c.enqueue p body mtu) h x := by
  have hU : Chains (c.nextPackno.upd p
      ({ · with packno := c.nextPackno.curPackno, body := body, mtuProbe := mtu })) (p :: h) x := by
    refine hC.nextPackno.update rfl fun he => ?_
    rw [nextPackno_pkts]
    rcases hm with hm | hm
    · exact .inl (hm.symm.trans he)
    · exact .inr hm.1
  apply Chains.schedAppend (hU.congr rfl rfl)
  simp only [upd_self, nextPackno_pkts]
  exact hd

theorem Chains.takeHead (hC : Chains c h x) (hP : Placed c h) (hp : p ∈ c.queue .scheduled)
    (body : Body) : Chains (c.takeHead p body) (p :: h) x := by
  have hU : Chains ((c.schedRemove p).upd p ({ · with body := body })) (p :: h) x :=
    (hC.schedRemove hP hp).update rfl .inl
  exact hU.congr rfl rfl

theorem Chains.withPoison (hC : Chains c h x) (hP : Placed c h) (packno : Int) (sz : Nat) :
    Chains (c.withPoison packno sz) h x := by
  unfold Core.withPoison
  split
  · refine ((hC.senhistAdd _).alloc (hP.senhistAdd _) _).enterPoison ?_ ?_
    · rw [alloc_pkts_next]
    · rw [alloc_pkts_next]
  · exact hC

theorem Chains.sendHead (hC : Chains c h x) (hP : Placed c h) (hp : p ∈ c.queue .scheduled)
    (body : Body) (poisonSz : Nat) : Chains (c.sendHead p body poisonSz) h x := by
  have hT := hP.takeHead hp body
  have hlt := hT.lt p none (.head _)
  have hW := (hC.takeHead hP hp body).withPoison hT (c.pkts p).packno poisonSz
  have hU := (hW.senhistAdd (c.pkts p).packno).update (p := p)
    (f := ({ · with tx := (((c.takeHead p body).withPoison (c.pkts p).packno poisonSz).senhistAdd
      (c.pkts p).packno).nTotalSent })) rfl .inl
  refine (hU.unackedAppend ?_).congr rfl rfl
  rw [upd_self, senhistAdd_pkts, withPoison_pkts_of_lt _ _ _ hlt, takeHead_self]
  exact (hP.sched hp).2.1

theorem Chains.resized (hC : Chains c h x) (body : Body) :
    Chains (c.upd p ({ · with body := body })) h x :=
  hC.update rfl .inl

theorem Chains.lostRemove (hC : Chains c h x) (hP : Placed c h) (hp : p ∈ c.queue .lost) :
    Chains (c.lostRemove p) (p :: h) x :=
  (hC.take hP hp (by simp)).update rfl .inl

theorem Chains.toLost (hC : Chains c (p :: h) x) (hd : (c.pkts p).data)
    (he : c.queue .lost = pre ++ suf) :
    Chains ((c.setQueue .lost (pre ++ p :: suf)).upd p ({ · with lost := true })) h x :=
  (hC.put hd he (by simp)).update rfl .inl

section
variable (hC : Chains c h x)
include hC

theorem Chains.renumberHead (body : Body) : Chains (c.renumberHead p body) h x := by
  unfold Core.renumberHead
  exact hC.nextPackno.update rfl .inl

theorem Chains.newTurn (need : Nat) (rounds : List Nat) : Chains (c.newTurn p need rounds) h x := by
  have hU : Chains (c.upd p ({ · with
      retransTimes := u16add (c.pkts p).retransTimes 1, needRetransNumber := need,
      fakeLossRec := 1 })) h x := hC.update rfl .inl
  exact hU.congr rfl rfl

theorem Chains.duplicate : Chains (c.duplicate p) h x := by
  have hU : Chains (c.upd p
      ({ · with retransPacketNumber := u16add (c.pkts p).retransPacketNumber 1 })) h x :=
    hC.update rfl .inl
  exact hU.congr rfl rfl

theorem Chains.reportLoss (value : Nat) (ok : Bool) :
    Chains ((c.recordFeedback p value ok).upd p ({ · with feedbackRecorded := 1 })) h x := by
  have hE : Chains (c.recordFeedback p value ok) h x := hC.congr rfl rfl
  exact hE.update rfl .inl

theorem Chains.renumberToRight : Chains (c.renumberToRight p) h x := by
  unfold Core.renumberToRight
  split
  · exact hC
  · have hS : Chains { c with curPackno := (c.pkts p).packno - 1 } h x := hC.congr rfl rfl
    exact hS.markAll _

theorem Chains.resetPacknos : Chains c.resetPacknos h x := by
  have hS : Chains { c with curPackno := c.lastSent } h x := hC.congr rfl rfl
  exact hS.markAll _

end

end

/-- Every move keeps the rings whole. -/
theorem Move.chains (hm : Move m g g') (hP : Placed g.core g.hand)
    (hC : Chains g.core g.hand g.doomed) : Chains g'.core g'.hand g'.doomed := by
  cases hm with
  | resize => exact hC.resized _
  | congest => exact hC.congr rfl rfl
  | declare => exact hC.congr rfl rfl
  | setGap => exact hC.congr rfl rfl
  | scrub hq hh => exact Chains.scrub hC hq hh
  | shuffle hh => exact hC.perm hh
  | fresh _ hpk =>
    refine (hC.alloc hP _).hold ?_ ?_
    · rw [alloc_pkts_next]
      exact hpk.data
    · rw [alloc_pkts_next]
      exact hpk.chain
  | takeSched hp => exact hC.schedRemove hP hp
  | takeLost _ hp => exact hC.lostRemove hP hp
  | takeBuffered hp => exact (hC.take hP hp (by simp)).congr rfl rfl
  | splitBuffered _ hp => exact (hC.take hP hp (by simp)).congr rfl rfl
  | takeUnacked hp hd => exact hC.unackedRemove hP hp hd
  | lose _ hp hd hm =>
    refine (hC.recordLoss hP hp hd hm).unackedRemove (hP.recordLoss hp hd)
      (hP.mem_recordLoss hp hd) ?_
    rw [recordLoss_self _ (hP.on hp)]
    exact hd
  | ackData hp hd =>
    refine (hC.replicaFeedback _).unackedRemove (hP.replicaFeedback _)
      (replicaFeedback_queue _ _ _ ▸ hp) ?_
    rw [replicaFeedback_pkts]
    exact hd
  | ackRecord hp hr =>
    apply (hC.replicaFeedback _).recRemove (hP.replicaFeedback _)
    rw [replicaFeedback_queue]
    exact hp
  | reportLoss => exact hC.reportLoss 1 _
  | toLost hd hr he => exact hC.toLost hd he
  | toStash _ hd hr => exact hC.put hd (List.append_nil _).symm (by simp)
  | toBuffered hd hr hc he => exact (hC.put hd he fun _ _ => hc).congr rfl rfl
  | newTurn _ hd => exact (hC.toLost hd (List.append_nil _).symm).newTurn _ _
  | duplicate _ hd => exact (hC.toLost hd (List.append_nil _).symm).duplicate
  | enqueue _ _ hd hr hm => exact hC.enqueue hd hm
  | renumberHead => exact hC.renumberHead _
  | sendHead _ hp hr => exact hC.sendHead hP (hp ▸ List.mem_cons_self) _ _
  | dropPoison hp hd => exact hC.discard hP (.inr hd)
  | elideTwice => exact hC.congr rfl rfl
  | rewind => exact hC.congr rfl rfl
  | requeue _ hd =>
    apply (hC.nextPackno.update rfl .inl).schedAppend
    rw [upd_self, nextPackno_pkts]
    exact hd
  | doom hx => exact hC.doom hx
  | undoom hh hq => exact hC.undoom hh hq
  | release hx => exact (hC.release hx).ackIf _
  | killRecord hp hr hx => exact hC.recKill hP hx
  | killUnacked hp hd hx => exact ((hC.unackedRemove hP hp hd).release hx).congr rfl rfl
  | killLost hp hx => exact (hC.discard hP (.inl hx)).ackIf _
  | killStashed => exact hC.congr rfl rfl
  | purgeRecord hp hr hx => exact hC.discard hP (.inl hx)
  | purgeBuffered _ hp hx => exact hC.discard hP (.inl hx)
  | killSched _ hp hx =>
    refine ((hC.renumberToRight.schedRemove hP.renumberToRight ?_).release hx).ackIf _
    rw [renumberToRight_queue]
    exact hp
  | reset => exact hC.resetPacknos

end QuicArt
