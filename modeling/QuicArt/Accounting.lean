import Mathlib.Algebra.Order.BigOperators.Group.List
import QuicArt.RecvSpec
import QuicArt.WindowSpec

namespace QuicArt

abbrev RecvStream.Fit (s : RecvStream) : Prop := s.Within s.fc.maxRecvOff

structure Billed (cf : Cfcw) (s : RecvStream) (r : RecvCall) : Prop where
  charged : Charged cf s.fc r.cf r.stream.fc
  backed : Backed r.cf r.stream.fc
  destroyed : r.stream.destroyed = s.destroyed
  fit : r.ok = true → r.stream.Fit

namespace RecvStream

section
variable {s s' : RecvStream} {cf : Cfcw} {env : FcEnv} {mem : Memory} {f : StreamFrame}

theorem updateSfcw_spec (h : Backed cf s.fc) (hb : Roomy cf s.fc) (env : FcEnv) (maxOff : Nat) :
    ∃ cf' fc' ok, s.updateSfcw env cf maxOff = (cf', { s with fc := fc' }, ok) ∧
      Charged cf s.fc cf' fc' ∧ Backed cf' fc' ∧
      (ok = true → fc'.maxRecvOff = max s.fc.maxRecvOff maxOff) := by
  have hopen : ∀ {cf' fc'}, Charged cf s.fc cf' fc' → Backed cf' fc' →
      fc'.readOff = s.fc.readOff → fc'.maxRecvOff = max s.fc.maxRecvOff maxOff →
      Charged cf s.fc cf' (fc'.fcOffsetsChanged env cf').1 ∧
      Backed cf' (fc'.fcOffsetsChanged env cf').1 ∧
      (fc'.fcOffsetsChanged env cf').1.maxRecvOff = max s.fc.maxRecvOff maxOff := by
    intro cf' fc' hc hbk hread hmax
    have hroom := hb.2
    obtain ⟨hc', hbk', hmax', -⟩ := Sfcw.fcOffsetsChanged_spec hbk env (by omega)
    exact ⟨hc.trans hc', hbk', hmax'.trans hmax⟩
  rw [updateSfcw]
  by_cases hlt : s.fc.maxRecvOff < maxOff
  · obtain ⟨hc, hbk, hread, hmax⟩ := Sfcw.setMaxRecvOff_spec h hb (Nat.le_of_lt hlt)
    simp only [if_pos hlt]
    generalize s.fc.setMaxRecvOff cf maxOff = res at hc hbk hread hmax
    obtain ⟨cf', fc', ok⟩ := res
    cases ok with
    | false => exact ⟨_, _, _, rfl, hc, hbk, by simp⟩
    | true =>
      have hmax' : fc'.maxRecvOff = max s.fc.maxRecvOff maxOff := by
        have heq : fc'.maxRecvOff = maxOff := hmax rfl
        omega
      obtain ⟨hc', hbk', hmax''⟩ := hopen hc hbk hread hmax'
      exact ⟨_, _, _, rfl, hc', hbk', fun _ => hmax''⟩
  · simp only [if_neg hlt]
    obtain ⟨hc', hbk', hmax'⟩ := hopen (Charged.refl cf s.fc) h rfl (by omega)
    exact ⟨_, _, _, rfl, hc', hbk', fun _ => hmax'⟩

theorem frameInserted_billed (h : Backed cf s.fc) (hb : Roomy cf s.fc)
    (hk : s.dataIn.Kept s.autoswitch (max s.fc.maxRecvOff f.df.endOff) s.readOffset)
    (hle : s.readOffset ≤ s.fc.maxRecvOff) : Billed cf s (s.frameInserted env mem cf f) := by
  obtain ⟨cf', fc', ok, hup, hc, hbk, hmax⟩ := updateSfcw_spec h hb env f.df.endOff
  rw [frameInserted, hup]
  cases ok with
  | false => exact ⟨hc, hbk, rfl, by simp⟩
  | true =>
    obtain ⟨hk', hq⟩ := hk.maybeSwitch mem
    have hmax' := hmax rfl
    rw [← hmax'] at hk'
    have hle' : s.readOffset ≤ fc'.maxRecvOff := by omega
    simp only
    generalize s.dataIn.maybeSwitch mem s.autoswitch s.readOffset = res at hk' hq
    obtain ⟨di, ok, ev⟩ := res
    cases ok with
    | false => exact ⟨hc, hbk, rfl, by simp⟩
    | true => exact ⟨hc, hbk, rfl, fun _ => ⟨hk', hq, hle'⟩⟩

section
variable (hs : s.Fit) (h : Backed cf s.fc) (hb : Roomy cf s.fc)
include hs h hb

theorem frameIn_billed (h0 : f.df.readOff = 0) : Billed cf s (s.frameIn env mem cf f) := by
  obtain ⟨hk, hq, hdup⟩ := hs.kept.insertOrSwitch hs.quiet h0 mem
  rw [frameIn]
  split
  · exact ⟨Charged.refl cf s.fc, h, rfl, by simp⟩
  · split
    · exact ⟨Charged.refl cf s.fc, h, rfl, by simp⟩
    · generalize s.dataIn.insertOrSwitch mem f s.readOffset = res at hk hq hdup
      obtain ⟨di, ins, ev⟩ := res
      cases ins with
      | ok =>
        have hbill := @frameInserted_billed { s with dataIn := di } cf env mem f h hb hk hs.le
        exact { hbill with }
      | dup => exact ⟨Charged.refl cf s.fc, h, rfl, fun _ => ⟨hdup rfl, hq (by simp), hs.le⟩⟩
      | err => exact ⟨Charged.refl cf s.fc, h, rfl, by simp⟩
      | overlap => exact ⟨Charged.refl cf s.fc, h, rfl, by simp⟩

theorem rstIn_billed (offset : Nat) : Billed cf s (s.rstIn cf offset) := by
  rw [rstIn]
  split
  · exact ⟨Charged.refl cf s.fc, h, rfl, by simp⟩
  · split
    · exact ⟨Charged.refl cf s.fc, h, rfl, fun _ => ⟨hs.kept, hs.quiet, hs.le⟩⟩
    · simp only
      split
      · exact ⟨Charged.refl cf s.fc, h, rfl, by simp⟩
      next hge =>
        have hle : s.fc.maxRecvOff ≤ offset := Nat.le_of_not_lt hge
        obtain ⟨hc, hbk, hread, hmax⟩ := Sfcw.setMaxRecvOff_spec h hb hle
        have hroom : Roomy (s.fc.setMaxRecvOff cf offset).1 (s.fc.setMaxRecvOff cf offset).2.1 := by
          have hcr := hc.read
          rw [hread] at hcr
          refine ⟨?_, hread ▸ hb.2⟩
          have hb₁ := hb.1
          omega
        generalize s.fc.setMaxRecvOff cf offset = res at hc hbk hmax hroom
        obtain ⟨cf', fc', ok⟩ := res
        cases ok with
        | false => exact ⟨hc, hbk, rfl, by simp⟩
        | true =>
          obtain ⟨hc', hbk', -, hmax'⟩ := Sfcw.consumeRem_spec hbk hroom
          refine ⟨hc.trans hc', hbk', rfl, fun _ => ⟨DataIn.Kept.error, fun _ => rfl, ?_⟩⟩
          have hle' := (hc.trans hc').max_le
          exact Nat.le_trans hs.le hle'

theorem consumeRem_billed :
    Charged cf s.fc (s.consumeRem cf).1 (s.consumeRem cf).2.fc ∧
    Backed (s.consumeRem cf).1 (s.consumeRem cf).2.fc ∧ (s.consumeRem cf).2.Fit := by
  obtain ⟨hc, hbk, -, hmax⟩ := Sfcw.consumeRem_spec h hb
  refine ⟨hc, hbk, ?_, hs.quiet, ?_⟩
  · rw [consumeRem, show (s.fc.consumeRem cf).2.maxRecvOff = s.fc.maxRecvOff from hmax]
    exact hs.kept
  · rw [consumeRem, show (s.fc.consumeRem cf).2.maxRecvOff = s.fc.maxRecvOff from hmax]
    exact hs.le

theorem stopSendingIn_billed : Billed cf s (s.stopSendingIn cf) := by
  rw [stopSendingIn]
  split
  · exact ⟨Charged.refl cf s.fc, h, rfl, fun _ => hs⟩
  · obtain ⟨hc, hbk, hfit⟩ := consumeRem_billed (s := { s with ssRecvd := true })
      ⟨hs.kept, hs.quiet, hs.le⟩ h hb
    exact ⟨hc, hbk, rfl, fun _ => hfit⟩

theorem consumedBytes_billed (hle : s.fc.readOff ≤ s.readOffset) :
    Charged cf s.fc (s.consumedBytes env cf).1 (s.consumedBytes env cf).2.fc ∧
    Backed (s.consumedBytes env cf).1 (s.consumedBytes env cf).2.fc ∧
    (s.consumedBytes env cf).2.Fit := by
  obtain ⟨hc, hbk, hmax⟩ := Sfcw.setReadOff_spec h hb hle hs.le
  have hroom : (s.fc.setReadOff cf s.readOffset).2.readOff + 2 ^ 32 ≤ 2 ^ 64 := by
    have hoff : (s.fc.setReadOff cf s.readOffset).2.readOff = s.readOffset := rfl
    obtain ⟨-, hb₂⟩ := hb
    obtain ⟨-, hm, hrecv, hwin⟩ := h.stream
    have hle' := hs.le
    omega
  obtain ⟨hc', hbk', hmax', -⟩ := Sfcw.fcOffsetsChanged_spec hbk env hroom
  have hmax'' := hmax'.trans hmax
  refine ⟨hc.trans hc', hbk', ?_, hs.quiet, ?_⟩
  · simp only [consumedBytes, hmax'']
    exact hs.kept
  · simp only [consumedBytes, hmax'']
    exact hs.le

theorem readf_billed (lens : List Nat)
    (hread : s.rstRecvd = false → s.readDone = false → s.finReached = false →
      (s.dataIn.getFrame s.readOffset).2.isSome = true → s.fc.readOff ≤ s.readOffset) :
    Billed cf s (s.readf env mem cf lens) := by
  rw [readf]
  split
  · exact ⟨Charged.refl cf s.fc, h, rfl, fun _ => hs⟩
  next hopen =>
    simp only [Bool.or_eq_true, not_or, Bool.not_eq_true] at hopen
    obtain ⟨hfit, hfc, hd, hoff⟩ := readFrames_within mem lens hs
    have hproc : (s.readFrames mem lens).2.1 = true → s.fc.readOff ≤ s.readOffset := fun hp =>
      hread hopen.1.1 hopen.1.2 hopen.2 (getFrame_of_processed hp)
    generalize s.readFrames mem lens = res at hfit hfc hd hoff hproc
    obtain ⟨s', p, ok, ev⟩ := res
    replace hfit : s'.Fit := by
      rw [RecvStream.Fit, show s'.fc = s.fc from hfc]
      exact hfit
    have hsame : Billed cf s ⟨cf, s', true, ev⟩ := by
      refine ⟨?_, ?_, hd, fun _ => hfit⟩
      · rw [show s'.fc = s.fc from hfc]
        exact Charged.refl cf s.fc
      · rw [show s'.fc = s.fc from hfc]
        exact h
    cases p with
    | false => exact hsame
    | true =>
      cases ok with
      | false => exact hsame
      | true =>
        obtain ⟨hc, hbk, hfit'⟩ := @consumedBytes_billed _ cf env hfit
          (by rw [show s'.fc = s.fc from hfc]; exact h)
          (by rw [show s'.fc = s.fc from hfc]; exact hb)
          (by rw [show s'.fc = s.fc from hfc]; exact Nat.le_trans (hproc rfl) hoff)
        rw [show s'.fc = s.fc from hfc] at hc
        exact ⟨hc, hbk, hd, fun _ => hfit'⟩

end

theorem readableDiscard_billed (hs : s.Fit) (h : Backed cf s.fc) (n : Nat) :
    Billed cf s (s.readableDiscard mem cf n) := by
  obtain ⟨hfit, hfc, hd⟩ := readableDiscard_within cf mem n hs
  rw [← hfc] at hfit
  have hcf : (s.readableDiscard mem cf n).cf = cf := by
    rw [readableDiscard]
    split <;> rfl
  refine ⟨?_, ?_, hd, fun _ => hfit⟩
  · rw [hfc, hcf]
    exact Charged.refl cf s.fc
  · rw [hfc, hcf]
    exact h

theorem destroy_billed (h : Backed cf s.fc) (hb : Roomy cf s.fc) :
    Charged cf s.fc (s.destroy cf).cf (s.destroy cf).stream.fc ∧
    Backed (s.destroy cf).cf (s.destroy cf).stream.fc ∧
    (s.destroy cf).stream.fc.readOff = (s.destroy cf).stream.fc.maxRecvOff := by
  obtain ⟨hc, hbk, hread, hmax⟩ := Sfcw.consumeRem_spec h hb
  exact ⟨hc, hbk, hread.trans hmax.symm⟩

end

end RecvStream

section
variable {α : Type} {l : List α} {x : α} {i : Nat}

theorem sum_map_eraseIdx (h : l[i]? = some x) (g : α → Nat) :
    (l.map g).sum = ((l.eraseIdx i).map g).sum + g x := by
  induction l generalizing i with
  | nil => cases h
  | cons a l ih =>
    cases i with
    | zero =>
      obtain rfl : a = x := by simpa using h
      simp only [List.eraseIdx_cons_zero, List.map_cons, List.sum_cons]
      omega
    | succ i =>
      have hi := ih (i := i) (by simpa using h)
      simp only [List.eraseIdx_cons_succ, List.map_cons, List.sum_cons]
      omega

theorem sum_map_set (h : l[i]? = some x) (g : α → Nat) (y : α) :
    ((l.set i y).map g).sum + g x = (l.map g).sum + g y := by
  have hlt : i < l.length := (List.getElem?_eq_some_iff.1 h).1
  have hy : (l.set i y)[i]? = some y := by simp [hlt]
  rw [sum_map_eraseIdx hy g, sum_map_eraseIdx h g, List.eraseIdx_set_eq]
  omega

theorem sum_map_le {g k : α → Nat} (h : l[i]? = some x) (hle : ∀ a ∈ l, g a ≤ k a) :
    (l.map g).sum + k x ≤ (l.map k).sum + g x := by
  have hsum : ((l.eraseIdx i).map g).sum ≤ ((l.eraseIdx i).map k).sum :=
    List.sum_le_sum fun a ha => hle a (List.mem_of_mem_eraseIdx ha)
  rw [sum_map_eraseIdx h g, sum_map_eraseIdx h k]
  omega

end

namespace RecvConn

def received (c : RecvConn) : Nat := (c.streams.map fun s => s.fc.share s.fc.maxRecvOff).sum

def consumed (c : RecvConn) : Nat := (c.streams.map fun s => s.fc.share s.fc.readOff).sum

structure Balanced (c : RecvConn) : Prop where
  conn : c.cf.Valid
  stream : ∀ s ∈ c.streams, s.fc.Valid
  fit : c.failed = false → ∀ s ∈ c.streams, s.destroyed = false → s.Fit
  max : c.cf.maxRecvOff = c.received
  read : c.cf.readOff = c.consumed
  gone : ∀ s ∈ c.streams, s.destroyed = true → s.fc.readOff = s.fc.maxRecvOff

/-- No read offset and no offset that is advertised goes back. -/
structure Grows (c c' : RecvConn) : Prop where
  read : c.cf.readOff ≤ c'.cf.readOff
  recv : c.cf.recvOff ≤ c'.cf.recvOff
  stream : ∀ (i : Nat) (s : RecvStream), c.streams[i]? = some s → ∃ s', c'.streams[i]? = some s' ∧
    s.fc.readOff ≤ s'.fc.readOff ∧ s.fc.recvOff ≤ s'.fc.recvOff

section
variable {c : RecvConn} {s : RecvStream} {r : RecvCall} {i : Nat}

theorem Grows.refl (c : RecvConn) : Grows c c :=
  ⟨le_rfl, le_rfl, fun _ s hs => ⟨s, hs, le_rfl, le_rfl⟩⟩

theorem Balanced.backed (h : c.Balanced) (hs : c.streams[i]? = some s) : Backed c.cf s.fc := by
  have hm := List.mem_of_getElem? hs
  refine ⟨h.conn, h.stream s hm, ?_⟩
  rw [h.max, h.read]
  exact sum_map_le hs fun t ht => t.fc.share_mono (h.stream t ht).readOff_le

theorem Balanced.call (h : c.Balanced) (hs : c.streams[i]? = some s)
    (hc : Charged c.cf s.fc r.cf r.stream.fc) (hb : Backed r.cf r.stream.fc) {failed : Bool}
    (hfit : failed = false → r.stream.destroyed = false → r.stream.Fit)
    (hfail : failed = false → c.failed = false)
    (hgone : r.stream.destroyed = true → r.stream.fc.readOff = r.stream.fc.maxRecvOff)
    (log : List FrameEvent) :
    Balanced ⟨r.cf, c.streams.set i r.stream, failed, log⟩ ∧
    Grows c ⟨r.cf, c.streams.set i r.stream, failed, log⟩ := by
  have hmem : ∀ t ∈ c.streams.set i r.stream, t = r.stream ∨ t ∈ c.streams := fun t ht =>
    (List.mem_or_eq_of_mem_set ht).symm
  have hlt : i < c.streams.length := (List.getElem?_eq_some_iff.1 hs).1
  refine ⟨⟨hb.conn, fun t ht => ?_, fun hf t ht hd => ?_, ?_, ?_, fun t ht hd => ?_⟩, ?_⟩
  · rcases hmem t ht with rfl | ht
    · exact hb.stream
    · exact h.stream t ht
  · rcases hmem t ht with rfl | ht
    · exact hfit hf hd
    · exact h.fit (hfail hf) t ht hd
  · have hsum := sum_map_set hs (fun t => t.fc.share t.fc.maxRecvOff) r.stream
    have heq := hc.max
    have hmax := h.max
    rw [received] at hmax ⊢
    simp only [hc.share_eq] at hsum
    simp only
    omega
  · have hsum := sum_map_set hs (fun t => t.fc.share t.fc.readOff) r.stream
    have heq := hc.read
    have hread := h.read
    rw [consumed] at hread ⊢
    simp only [hc.share_eq] at hsum
    simp only
    omega
  · rcases hmem t ht with rfl | ht
    · exact hgone hd
    · exact h.gone t ht hd
  · refine ⟨hc.conn_read_le, Nat.le_of_eq hc.conn_recv.symm, fun j t ht => ?_⟩
    by_cases hj : i = j
    · subst hj
      rw [hs] at ht
      cases ht
      exact ⟨r.stream, by simp [hlt], hc.read_le, hc.recv_le⟩
    · refine ⟨t, ?_, le_rfl, le_rfl⟩
      rw [List.getElem?_set_ne hj]
      exact ht

/-- Data is read only from a stream that is not credited with more than was read; frames come in
unread; all credit is two windows away from 64 bits. -/
def Credited (c : RecvConn) (op : RecvOp) : Prop :=
  c.cf.readOff + 2 ^ 33 ≤ 2 ^ 64 ∧ (∀ s ∈ c.streams, s.fc.readOff + 2 ^ 33 ≤ 2 ^ 64) ∧
  match op with
  | .stream i (.frameIn f) => c.streams[i]?.isSome = true → f.df.readOff = 0
  | .stream i (.readf _) => ∀ s, c.streams[i]? = some s → s.rstRecvd = false →
      s.readDone = false → s.finReached = false →
      (s.dataIn.getFrame s.readOffset).2.isSome = true → s.fc.readOff ≤ s.readOffset
  | _ => True

theorem Credited.roomy (h : Credited c op) (hs : c.streams[i]? = some s) : Roomy c.cf s.fc :=
  ⟨h.1, h.2.1 s (List.mem_of_getElem? hs)⟩

theorem Balanced.destroy (h : c.Balanced) (hs : c.streams[i]? = some s) (hb : Roomy c.cf s.fc)
    (log : List FrameEvent) :
    Balanced ⟨(s.destroy c.cf).cf, c.streams.set i (s.destroy c.cf).stream, c.failed, log⟩ ∧
    Grows c ⟨(s.destroy c.cf).cf, c.streams.set i (s.destroy c.cf).stream, c.failed, log⟩ := by
  obtain ⟨hc, hbk, hgone⟩ := RecvStream.destroy_billed (h.backed hs) hb
  exact h.call hs hc hbk (fun _ hd => absurd hd (by simp [RecvStream.destroy])) id
    (fun _ => hgone) log

theorem Balanced.billed (h : c.Balanced) (hs : c.streams[i]? = some s) (hlive : s.destroyed = false)
    (hf : c.failed = false) (hbill : Billed c.cf s r) (log : List FrameEvent) :
    Balanced ⟨r.cf, c.streams.set i r.stream, c.failed || !r.ok, log⟩ ∧
    Grows c ⟨r.cf, c.streams.set i r.stream, c.failed || !r.ok, log⟩ := by
  refine h.call hs hbill.charged hbill.backed (fun hok _ => hbill.fit ?_) (fun _ => hf) ?_ log
  · simpa [hf] using hok
  · rw [hbill.destroyed, hlive]
    exact nofun

theorem new_fit (env : FcEnv) (mem : Memory) (cf : Cfcw) (win : UInt32)
    (hash limited useHeaders autoswitch : Bool)
    (hn : RecvStream.new env mem cf win hash limited useHeaders autoswitch = some s) :
    s.fc.Valid ∧ s.fc.maxRecvOff = 0 ∧ s.fc.readOff = 0 ∧ s.Fit ∧ s.destroyed = false := by
  obtain ⟨di, rfl, hk, hq, -⟩ := RecvStream.new_spec hn
  obtain ⟨hv, hmax, hread⟩ := RecvWindow.init_valid env
    (if limited then min env.maxSfcw cf.maxRecvWin else env.maxSfcw) win
  exact ⟨hv, hmax, hread, ⟨hk.mono (Nat.zero_le _), fun _ => hq, Nat.zero_le _⟩, rfl⟩

theorem Balanced.newStream (h : c.Balanced) (hv : s.fc.Valid) (hmax : s.fc.maxRecvOff = 0)
    (hread : s.fc.readOff = 0) (hfit : s.Fit) (hd : s.destroyed = false) :
    Balanced { c with streams := c.streams ++ [s] } ∧
    Grows c { c with streams := c.streams ++ [s] } := by
  have hmem : ∀ t ∈ c.streams ++ [s], t ∈ c.streams ∨ t = s := fun t ht => by
    simpa using List.mem_append.1 ht
  have hshare : ∀ n, n = 0 → s.fc.share n = 0 := fun n hn => by
    have hle := s.fc.share_le n
    omega
  refine ⟨⟨h.conn, fun t ht => ?_, fun hf t ht hd' => ?_, ?_, ?_, fun t ht hd' => ?_⟩, ?_⟩
  · rcases hmem t ht with ht | rfl
    · exact h.stream t ht
    · exact hv
  · rcases hmem t ht with ht | rfl
    · exact h.fit hf t ht hd'
    · exact hfit
  · have hm := h.max
    simp only [received, List.map_append, List.map_cons, List.map_nil, List.sum_append,
      List.sum_singleton, hshare _ hmax, Nat.add_zero] at hm ⊢
    exact hm
  · have hr := h.read
    simp only [consumed, List.map_append, List.map_cons, List.map_nil, List.sum_append,
      List.sum_singleton, hshare _ hread, Nat.add_zero] at hr ⊢
    exact hr
  · rcases hmem t ht with ht | rfl
    · exact h.gone t ht hd'
    · exact absurd hd' (by simp [hd])
  · refine ⟨le_rfl, le_rfl, fun i t ht => ⟨t, ?_, le_rfl, le_rfl⟩⟩
    have hlt : i < c.streams.length := (List.getElem?_eq_some_iff.1 ht).1
    rw [List.getElem?_append_left hlt]
    exact ht

theorem Balanced.callStream (h : c.Balanced) (hp : Credited c (.stream i op))
    (hs : c.streams[i]? = some s) (hlive : s.destroyed = false) (hok : op.allowed c.failed = true)
    (env : FcEnv) (mem : Memory) (log : List FrameEvent) :
    Balanced ⟨(s.call env mem c.cf op).cf, c.streams.set i (s.call env mem c.cf op).stream,
      c.failed || !(s.call env mem c.cf op).ok, log⟩ ∧
    Grows c ⟨(s.call env mem c.cf op).cf, c.streams.set i (s.call env mem c.cf op).stream,
      c.failed || !(s.call env mem c.cf op).ok, log⟩ := by
  have hb := hp.roomy hs
  have hbk := h.backed hs
  by_cases hop : op = .destroy
  · subst hop
    have hdes := h.destroy hs hb log
    rwa [← Bool.or_false c.failed] at hdes
  · have hf := RecvStream.not_failed hok hop
    have hfit := h.fit hf s (List.mem_of_getElem? hs) hlive
    apply h.billed hs hlive hf _ log
    cases op with
    | frameIn f => exact RecvStream.frameIn_billed hfit hbk hb (hp.2.2 (by rw [hs]; rfl))
    | rstIn offset => exact RecvStream.rstIn_billed hfit hbk hb offset
    | stopSendingIn => exact RecvStream.stopSendingIn_billed hfit hbk hb
    | readf lens => exact RecvStream.readf_billed hfit hbk hb lens (hp.2.2 s hs)
    | shutdownRead =>
      obtain ⟨hk, hq, hle⟩ := hfit
      exact ⟨Charged.refl _ _, hbk, rfl, fun _ => ⟨hk, hq, hle⟩⟩
    | readableDiscard n => exact RecvStream.readableDiscard_billed hfit hbk n
    | destroy => exact absurd rfl hop

/-- Every operation keeps the balance, and no offset goes back. -/
theorem Balanced.step (h : c.Balanced) (hp : Credited c op) (env : FcEnv) (mem : Memory) :
    (c.step env mem op).Balanced ∧ Grows c (c.step env mem op) := by
  cases op with
  | newStream win hash limited useHeaders autoswitch =>
    rw [RecvConn.step]
    split
    · exact ⟨h, Grows.refl c⟩
    next s hn =>
      obtain ⟨hv, hmax, hread, hfit, hd⟩ :=
        new_fit env mem c.cf win hash limited useHeaders autoswitch hn
      exact h.newStream hv hmax hread hfit hd
  | stream i op =>
    rw [RecvConn.step]
    split
    · exact ⟨h, Grows.refl c⟩
    next s hs =>
      split
      · exact ⟨h, Grows.refl c⟩
      next hlive =>
        simp only [Bool.or_eq_true, not_or, Bool.not_eq_true, Bool.not_eq_false'] at hlive
        exact h.callStream hp hs hlive.1 hlive.2 env mem _
  | tick =>
    have hroom := hp.1
    obtain ⟨hv, hmax, hread, hrecv⟩ := h.conn.offsetsChanged env env.maxCfcw (by omega)
    rw [RecvConn.step]
    refine ⟨⟨hv, h.stream, h.fit, hmax.trans h.max, hread.trans h.read, h.gone⟩, ?_⟩
    exact ⟨Nat.le_of_eq hread.symm, hrecv,
      fun _ s hs => ⟨s, hs, le_rfl, le_rfl⟩⟩

theorem Balanced.run (h : RecvRun Credited c) : c.Balanced := by
  induction h with
  | init env win =>
    obtain ⟨hv, hmax, hread⟩ := RecvWindow.init_valid env env.maxCfcw win
    exact ⟨hv, fun s hs => absurd hs (by simp), fun _ s hs => absurd hs (by simp), hmax, hread,
      fun s hs => absurd hs (by simp)⟩
  | step h hp env mem ih => exact (ih.step hp env mem).1

/-- The connection's window is the sum of those of the streams; no offset goes back. -/
theorem accounting (h : RecvRun Credited c) :
    c.cf.maxRecvOff = (c.streams.map fun s => s.fc.share s.fc.maxRecvOff).sum ∧
    c.cf.readOff = (c.streams.map fun s => s.fc.share s.fc.readOff).sum ∧
    (∀ s ∈ c.streams, s.destroyed = true → s.fc.readOff = s.fc.maxRecvOff) ∧
    (∀ env mem op, Credited c op → Grows c (c.step env mem op)) ∧
    (∀ cf fc off, (Sfcw.setMaxRecvOff cf fc off).2.2 = false →
      Sfcw.setMaxRecvOff cf fc off = (cf, fc, false)) := by
  have hbal := Balanced.run h
  exact ⟨hbal.max, hbal.read, hbal.gone, fun env mem op hp => (hbal.step hp env mem).2,
    fun cf fc off hf => Sfcw.setMaxRecvOff_failed hf⟩

def tenBytes : RecvConn :=
  (({ cf := Cfcw.init {} 1000 } : RecvConn).step {} {} (.newStream 100 false true false true)).step
    {} {} (.stream 0 (.frameIn { id := 0, df := { size := 10 } }))

theorem tenBytes_run : RecvRun Credited tenBytes := by
  refine .step (.step (.init _ _) ?_ _ _) ?_ _ _
  · exact ⟨by decide, by decide, trivial⟩
  · exact ⟨by decide, by decide, fun _ => rfl⟩

theorem accounting_tenBytes : tenBytes.cf.maxRecvOff = 10 ∧
    tenBytes.cf.maxRecvOff = (tenBytes.streams.map fun s => s.fc.share s.fc.maxRecvOff).sum ∧
    Grows tenBytes (tenBytes.step {} {} (.stream 0 (.readf [4]))) := by
  obtain ⟨hmax, -, -, hgrows, -⟩ := accounting tenBytes_run
  refine ⟨by decide, hmax, hgrows {} {} _ ⟨by decide, by decide, ?_⟩⟩
  intro s hs _ _ _ _
  have hz : s.fc.readOff = 0 := by
    have hall : ∀ t ∈ tenBytes.streams, t.fc.readOff = 0 := by decide
    exact hall s (List.mem_of_getElem? hs)
  omega

/-- STOP_SENDING credits ten bytes before they are read; a read of one byte then takes nine back. -/
theorem read_takes_credit_back : ∃ (c : RecvConn) (op : RecvOp),
    RecvRun Credited c ∧ c.cf.readOff = 10 ∧ (c.step {} {} op).cf.readOff = 1 ∧
    c.streams.map (·.fc.readOff) = [10] ∧ (c.step {} {} op).streams.map (·.fc.readOff) = [1] :=
  ⟨tenBytes.step {} {} (.stream 0 .stopSendingIn), .stream 0 (.readf [1]),
    .step tenBytes_run ⟨by decide, by decide, trivial⟩ _ _, by decide, by decide, by decide,
    by decide⟩

end

end RecvConn

end QuicArt
