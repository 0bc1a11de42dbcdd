import QuicArt.FinOffset

namespace QuicArt

namespace Session

section
variable {S : List UInt8} {auto : Bool} {s : Session} {M : Memory → Prop} {h : HashDataIn}
  {mem : Memory} {df : DataFrame}

/-- All frames but those with FIN and data that end with a block while the next block is there. -/
theorem hash_accepts_iff (hr : SessionRun auto M (fun _ _ f => f.df.Part S) s)
    (hdi : s.di = .hash h)
    (hd : df.Part S) (hm : mem.Ample) :
    (((h.insertDataFrame mem df s.readOffset).2 = .ok ∨
        (h.insertDataFrame mem df s.readOffset).2 = .dup) ↔
      ¬ (df.fin = true ∧ max df.offset s.readOffset < S.length ∧ S.length % dbDataSize = 0 ∧
        (h.find S.length).isSome = true)) ∧
    (s.readOffset ≤ df.endOff → ∀ h' last, h.writeFrame mem df s.readOffset = (h', some last) →
      ∀ w ∈ DataBlock.wordsAfter (df.endOff - last), w < nDbSets) := by
  have hs := Sound.run hr fun _ _ _ hp => hp
  have hfin := hs.fin
  rw [hdi] at hfin
  have herr := HashDataIn.FinOk.insert_err_iff hfin hd.toCarries hd.fin hm hs.le
  have hno := HashDataIn.insertDataFrame_ne_overlap mem h df s.readOffset
  refine ⟨?_, fun hle h' last hw w hw' => ?_⟩
  · rw [HashDataIn.Refuses, HashDataIn.HasBlock] at herr
    rw [← herr]
    generalize (h.insertDataFrame mem df s.readOffset).2 = ins at hno
    cases ins with
    | ok => simp
    | dup => simp
    | err => simp
    | overlap => exact absurd rfl hno
  · rw [HashDataIn.writeFrame_last hfin.wellFormed hw] at hw'
    exact HashDataIn.wordsAfter_lt hle hw'

def emptyHash : HashDataIn := { buckets := Buckets.empty 3 }

theorem new_emptyHash : HashDataIn.new {} 0 = some emptyHash := rfl

theorem ample_default : ({} : Memory).Ample := ⟨fun _ => rfl, fun _ => rfl, rfl⟩

theorem hash_accepts_iff_first :
    ((emptyHash.insertDataFrame {} (frameOf [1, 2] 0 0 2).df 0).2 = .ok ∨
      (emptyHash.insertDataFrame {} (frameOf [1, 2] 0 0 2).df 0).2 = .dup) ∧
    ∀ h' last, emptyHash.writeFrame {} (frameOf [1, 2] 0 0 2).df 0 = (h', some last) →
      ∀ w ∈ DataBlock.wordsAfter (2 - last), w < nDbSets := by
  have hr : SessionRun true (fun mem => mem.Ample) (fun _ _ f => f.df.Part [1, 2])
      { di := .hash emptyHash } := .hash new_emptyHash
  obtain ⟨hiff, hscan⟩ := hash_accepts_iff hr rfl
    (frameOf_part (S := [1, 2]) 0 (by decide : 0 ≤ 2) (by decide)) ample_default
  refine ⟨hiff.2 ?_, hscan (by decide)⟩
  decide

theorem insert_hash_ok (auto : Bool) (mem : Memory) (hdi : s.di = .hash h) (f : StreamFrame)
    (hok : (h.insertDataFrame mem f.df s.readOffset).2 = .ok)
    (hw : (h.insertDataFrame mem f.df s.readOffset).1.switchImpl = false) :
    (s.insert auto mem f).di = .hash (h.insertDataFrame mem f.df s.readOffset).1 ∧
    (s.insert auto mem f).readOffset = s.readOffset := by
  rw [Session.insert, DataIn.insertOrSwitch, hdi, DataIn.insertFrame, HashDataIn.insertFrame]
  generalize h.insertDataFrame mem f.df s.readOffset = res at hok hw
  obtain ⟨h', ins⟩ := res
  obtain rfl : ins = .ok := hok
  refine ⟨?_, rfl⟩
  have hq : ¬ (auto && (DataIn.hash h').wantsSwitch) = true := by
    simpa [DataIn.wantsSwitch] using fun _ => hw
  simp only [DataIn.maybeSwitch, if_neg hq]

def fullBlock : List UInt8 := List.replicate dbDataSize 0

def finFirst : StreamFrame := frameOf fullBlock 0 dbDataSize dbDataSize

/-- After FIN alone, the same FIN with the data of the block is refused. -/
theorem fin_with_full_block_refused : ∃ (s : Session) (h : HashDataIn) (df : DataFrame),
    SessionRun true (fun mem => mem.Ample) (fun _ _ f => f.df.Part fullBlock) s ∧
    s.di = .hash h ∧ df.Part fullBlock ∧
    (h.insertDataFrame {} df s.readOffset).2 = .err := by
  have hlen : fullBlock.length = dbDataSize := List.length_replicate
  have hp : ∀ a, a ≤ dbDataSize → (frameOf fullBlock 0 a dbDataSize).df.Part fullBlock :=
    fun a ha => frameOf_part 0 ha (Nat.le_of_eq hlen.symm)
  have hr₀ : SessionRun true (fun mem => mem.Ample) (fun _ _ f => f.df.Part fullBlock)
      { di := .hash emptyHash } := .hash new_emptyHash
  have hr := SessionRun.insert (f := finFirst) hr₀ ample_default (hp _ le_rfl)
  obtain ⟨hdi, hoff⟩ := insert_hash_ok true {} (s := { di := .hash emptyHash }) rfl finFirst
      (by decide +kernel) (by decide +kernel)
  refine ⟨_, _, (frameOf fullBlock 1 0 dbDataSize).df, hr, hdi, hp 0 (Nat.zero_le _), ?_⟩
  rw [hoff]
  decide +kernel

end

end Session

end QuicArt
