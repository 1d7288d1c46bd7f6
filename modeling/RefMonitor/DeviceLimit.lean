import RefMonitor.SingleFs

/-!
# The size limit and the device

`make create` builds a device of `MAX_FILE_SIZE / 4096` blocks, and `onefilefs_write` lets
the file grow while `pos + len < max_file_size`. Two blocks of the device are the super
block and the inode, so the file itself has two blocks fewer than the limit promises: a
write near the limit passes the check and asks for a block the device does not have.

The write loop is run here with a record of the positions at which it asks for a block.

Results:
1. `tracedLoop_fst`: the record changes nothing of what the loop does.
2. `tracedLoop_between`, `tracedLoop_reaches`: which positions the loop asks for.
3. `onDevice_iff`: a write that passes the check stays on the device exactly when it ends
   before the last two blocks that the limit counts.
-/

namespace RefMonitor

/-! ## The limit and the device -/

/-- `singlefilefs_init`, with what `register_filesystem` returns. -/
def singlefilefsInit (maxFileSize : Nat) (registered : Int) : Int :=
  if maxFileSize ≤ 0 then fail .einval else registered

/-- `BLOCK_COUNT` of the `Makefile`: how many blocks `make create` gives the device. -/
def blockCount (maxFileSize : Nat) : Nat := maxFileSize / blockSize

/-- The module is loaded with the limit and the device was created for it. -/
structure CreatedFor (maxFileSize : Nat) (fs : LogFs) : Prop where
  loads : singlefilefsInit maxFileSize 0 = 0
  device : fs.nblocks = blockCount maxFileSize

/-! ## The blocks a write asks for -/

/-- The write loop, with the positions at which it asks for a block. -/
def tracedLoop (io : WriteIo) :
    Nat → LogFs → Nat → Nat → List UInt8 → (LogFs × Except Errno Nat) × List Nat
  | 0, fs, pos, _, _ => ((fs, .ok pos), [])
  | rounds + 1, fs, pos, k, rest =>
    if rest = [] then ((fs, .ok pos), [])
    else
      match writeBlock fs io pos k rest with
      | (fs, .error e) => ((fs, .error e), [pos])
      | (fs, .ok n) =>
        let r := tracedLoop io rounds fs (pos + n) (k + 1) (rest.drop n)
        (r.1, pos :: r.2)

/-- The positions at which a call of `onefilefs_write` asks for a block. -/
def askedPositions (maxFileSize : Nat) (fs : LogFs) (call : WriteCall) : List Nat :=
  if exceedsMax maxFileSize fs.iSize call.buf.length then []
  else (tracedLoop call.io call.buf.length fs fs.iSize 0 call.buf).2

/-- Whatever the kernel services do during the call, it asks for data blocks of the device
only, and the number of a block fits in an `int`. -/
def OnDevice (maxFileSize : Nat) (fs : LogFs) (buf : List UInt8) : Prop :=
  ∀ call : WriteCall, call.buf = buf → ∀ p ∈ askedPositions maxFileSize fs call,
    2 ≤ blockNumber p ∧ blockNumber p < fs.nblocks ∧ p / blockSize + 2 < 2 ^ 31

/-- The bytes of the file that the device has room for, under numbers that fit in an `int`. -/
def dataBytes (maxFileSize : Nat) : Nat := (min (blockCount maxFileSize) (2 ^ 31) - 2) * blockSize

/-! ## The positions of the loop -/

theorem tracedLoop_fst (io : WriteIo) {rounds : Nat} :
    ∀ {fs : LogFs} {pos k : Nat} {rest : List UInt8},
      (tracedLoop io rounds fs pos k rest).1 = writeLoop io rounds fs pos k rest := by
  induction rounds with
  | zero => intro fs pos k rest; rfl
  | succ rounds ih =>
    intro fs pos k rest
    rw [tracedLoop, writeLoop]
    split
    · rfl
    · rcases writeBlock fs io pos k rest with ⟨fs', e | n⟩
      · rfl
      · exact ih

/-- A round that succeeds takes what fits in the block. -/
theorem writeBlock_ok {fs fs' : LogFs} {io : WriteIo} {pos k n : Nat} {rest : List UInt8}
    (h : writeBlock fs io pos k rest = (fs', .ok n)) :
    n = min rest.length (blockSize - pos % blockSize) ∧ fs'.nblocks = fs.nblocks := by
  unfold writeBlock at h
  dsimp only at h
  split at h
  · cases h
  · split at h
    · cases h
    · cases h
      exact ⟨rfl, rfl⟩

/-- The loop asks for positions of the piece that is still to be written only. -/
theorem tracedLoop_between (io : WriteIo) {rounds : Nat} :
    ∀ {fs : LogFs} {pos k p : Nat} {rest : List UInt8},
      p ∈ (tracedLoop io rounds fs pos k rest).2 → p < pos + rest.length := by
  induction rounds with
  | zero =>
    intro fs pos k p rest hp
    exact absurd hp List.not_mem_nil
  | succ rounds ih =>
    intro fs pos k p rest hp
    rw [tracedLoop] at hp
    split at hp
    · exact absurd hp List.not_mem_nil
    · next hne =>
      have hpos : pos < pos + rest.length :=
        Nat.lt_add_of_pos_right (List.length_pos_of_ne_nil hne)
      rcases hw : writeBlock fs io pos k rest with ⟨fs', e | n⟩
      · rw [hw] at hp
        rw [List.mem_singleton.mp hp]
        exact hpos
      · rw [hw] at hp
        rcases List.mem_cons.mp hp with rfl | hp
        · exact hpos
        · have hlt := ih hp
          have hn := (writeBlock_ok hw).1
          rw [List.length_drop] at hlt
          omega

/-- With services that work, the loop goes on until the piece is written or a block is asked
for that it should not have: one with `bound` or a larger number. -/
theorem tracedLoop_reaches {io : WriteIo} (hio : io.Works) {bound : Nat}
    (hint : bound ≤ 2 ^ 31) {rounds : Nat} :
    ∀ {fs : LogFs} {pos k : Nat} {rest : List UInt8}, bound ≤ fs.nblocks →
      rest.length ≤ rounds → rest ≠ [] → (bound - 2) * blockSize < pos + rest.length →
      ∃ p ∈ (tracedLoop io rounds fs pos k rest).2, bound ≤ p / blockSize + 2 := by
  induction rounds with
  | zero =>
    intro fs pos k rest _ hlen hne _
    exact absurd (List.length_eq_zero_iff.mp (Nat.le_zero.mp hlen)) hne
  | succ rounds ih =>
    intro fs pos k rest hdev hlen hne hlong
    rw [tracedLoop, if_neg hne]
    rcases Nat.lt_or_ge (pos / blockSize + 2) bound with hin | hout
    · -- the block exists, so the round succeeds and leaves a rest
      have hnum : blockNumber pos = 2 + pos / blockSize := blockNumber_of_lt (by omega)
      have hblock : blockNumber pos < fs.nblocks := by omega
      obtain ⟨fs', n, hw⟩ : ∃ fs' n, writeBlock fs io pos k rest = (fs', .ok n) := by
        unfold writeBlock
        dsimp only
        rw [hio.bread, hio.copied, decide_eq_true hblock, Nat.zero_min]
        exact ⟨_, _, rfl⟩
      obtain ⟨hn, hsame⟩ := writeBlock_ok hw
      have hpage : (pos / blockSize + 1) * blockSize ≤ (bound - 2) * blockSize :=
        Nat.mul_le_mul_right _ (by omega)
      have hdiv := Nat.div_add_mod pos blockSize
      rw [Nat.add_mul, Nat.one_mul, Nat.mul_comm] at hpage
      have hmod : pos % blockSize < blockSize := Nat.mod_lt _ (by decide)
      have hrest : 0 < (rest.drop n).length := by
        rw [List.length_drop]
        omega
      rw [hw]
      have hsmall : (rest.drop n).length ≤ rounds := by
        have hpos := List.length_pos_of_ne_nil hne
        rw [List.length_drop]
        omega
      obtain ⟨p, hp, hbound⟩ := @ih fs' (pos + n) (k + 1) (rest.drop n)
        (hsame ▸ hdev) hsmall (List.ne_nil_of_length_pos hrest)
        (by rw [List.length_drop]; omega)
      exact ⟨p, List.mem_cons_of_mem _ hp, hbound⟩
    · refine ⟨pos, ?_, hout⟩
      rcases writeBlock fs io pos k rest with ⟨fs', e | n⟩
      · exact List.mem_singleton_self pos
      · exact List.mem_cons_self ..

/-! ## A write that passes the check -/

/-- A write during which nothing fails. -/
def servedWrite (buf : List UInt8) (h : buf.length ≤ maxRwCount) : WriteCall where
  buf := buf
  buf_le := h
  off := 0
  io := { bread := fun _ => true, notCopied := fun _ => 0 }

theorem servedWrite_works (buf : List UInt8) (h : buf.length ≤ maxRwCount) :
    (servedWrite buf h).io.Works :=
  ⟨fun _ => rfl, fun _ => rfl⟩

theorem askedPositions_passed {maxFileSize : Nat} {fs : LogFs} {call : WriteCall}
    (hpass : exceedsMax maxFileSize fs.iSize call.buf.length = false) :
    askedPositions maxFileSize fs call =
      (tracedLoop call.io call.buf.length fs fs.iSize 0 call.buf).2 := by
  unfold askedPositions
  rw [if_neg (by rw [hpass]; decide)]

/-- On a device created for the limit, a write that passes the check asks only for data
blocks of the device, under numbers that fit, exactly when it writes nothing or ends inside
the data blocks. -/
theorem onDevice_iff (maxFileSize : Nat) (fs : LogFs) (hcreated : CreatedFor maxFileSize fs)
    (buf : List UInt8) (hbuf : buf.length ≤ maxRwCount)
    (hpass : exceedsMax maxFileSize fs.iSize buf.length = false) :
    OnDevice maxFileSize fs buf ↔ buf = [] ∨ fs.iSize + buf.length ≤ dataBytes maxFileSize := by
  have hdev := hcreated.device
  constructor
  · intro h
    by_contra hcond
    rw [not_or, Nat.not_le] at hcond
    have hbound : min (blockCount maxFileSize) (2 ^ 31) ≤ fs.nblocks := by
      rw [hdev]
      exact Nat.min_le_left _ _
    obtain ⟨p, hp, hout⟩ := tracedLoop_reaches (servedWrite_works buf hbuf)
      (Nat.min_le_right _ _) (k := 0) hbound (le_refl _) hcond.1 hcond.2
    have hasked : p ∈ askedPositions maxFileSize fs (servedWrite buf hbuf) := by
      rw [askedPositions_passed hpass]
      exact hp
    obtain ⟨-, hlt, hint⟩ := h (servedWrite buf hbuf) rfl p hasked
    rw [blockNumber_of_lt (by omega), hdev] at hlt
    omega
  · rintro hcond call rfl p hp
    rw [askedPositions_passed hpass] at hp
    rcases hcond with hnil | hle
    · rw [hnil] at hp
      exact absurd hp List.not_mem_nil
    · have hlt : p < dataBytes maxFileSize :=
        Nat.lt_of_lt_of_le (tracedLoop_between call.io hp) hle
      have hdiv : p / blockSize < min (blockCount maxFileSize) (2 ^ 31) - 2 :=
        Nat.div_lt_of_lt_mul (by rw [Nat.mul_comm]; exact hlt)
      obtain ⟨hcount, hint⟩ := Nat.lt_min.mp (Nat.add_lt_of_lt_sub hdiv)
      rw [blockNumber_of_lt (Nat.lt_sub_of_add_lt hint), hdev]
      exact ⟨Nat.le_add_right _ _, by rw [Nat.add_comm]; exact hcount, hint⟩

/-- The device that `make create MAX_FILE_SIZE=262144` builds, with a log of the given size. -/
def smallDevice (iSize : Nat) : LogFs where
  nblocks := 64
  nblocks_le := by decide
  blocks := fun _ _ => 0
  iSize := iSize

theorem smallDevice_createdFor (iSize : Nat) : CreatedFor 262144 (smallDevice iSize) := by
  refine ⟨?_, ?_⟩
  · decide
  · show 64 = blockCount 262144
    decide

theorem onDevice_iff_small : OnDevice 262144 (smallDevice 30) [120] :=
  (onDevice_iff 262144 (smallDevice 30) (smallDevice_createdFor 30) [120] (by decide)
    (by decide)).mpr (.inr (by decide))

/-- With 62 blocks of data the device is full, and the limit is two blocks away: one more
byte passes the check and is to be written into block 64 of the blocks 0 to 63. -/
theorem limit_past_device :
    CreatedFor 262144 (smallDevice (62 * 4096)) ∧
    exceedsMax 262144 (62 * 4096) [120].length = false ∧
    blockNumber (62 * 4096) = 64 ∧ ¬ OnDevice 262144 (smallDevice (62 * 4096)) [120] := by
  refine ⟨smallDevice_createdFor _, by decide, by decide, ?_⟩
  intro h
  have hasked := h (servedWrite [120] (by decide)) rfl (62 * 4096) (by decide)
  exact absurd hasked.2.1 (by decide)

end RefMonitor
