import RefMonitor.Kernel
import RefMonitor.Lib.PagedStore

/-!
# `singlefile-FS/file.c`: the log file

The log is the one file of a small file system on a block device: block 0 is the super
block, block 1 the inode, and the bytes of the file stand in blocks 2, 3, … of 4096 bytes.
`onefilefs_write` ignores the offset it is given and appends: it writes block after block
behind `i_size` and moves `i_size` only when all of the buffer has been written.

A block number is an `int` that `sb_bread` takes as an unsigned 64-bit sector, so a number
past `2^31` names no block of the device.

Results:
1. `writeBlock_spec`: what one round of the write loop does.
2. `writeLoop_spec`: what the loop does, wherever it stops.
3. `onefilefsWrite_spec`: a write appends the whole buffer, or fails and shows nothing.
4. `onefilefsWrite_works`: it appends when the file has room and the device works.
-/

namespace RefMonitor
open PagedStore

/-! ## The source's functions -/

def blockSize : Nat := 4096

/-- The most bytes the VFS passes to one write: `INT_MAX & PAGE_MASK`. -/
def maxRwCount : Nat := 2 ^ 31 - 4096

/-- The mounted file system: the blocks of the device as the buffer cache has them, and the
size in the inode of the file. No device has more than `2^63` bytes. -/
structure LogFs where
  nblocks : Nat
  nblocks_le : nblocks ≤ 2 ^ 51
  blocks : Nat → Nat → UInt8
  iSize : Nat

/-- The bytes `0 .. i_size - 1` of the file. -/
def LogFs.visible (fs : LogFs) : List UInt8 := content blockSize 2 fs.blocks fs.iSize

/-- The outcome of the kernel services one call uses, block after block. -/
structure WriteIo where
  /-- Whether `sb_bread` can read the `k`-th block. -/
  bread : Nat → Bool
  /-- How many bytes of the `k`-th piece `copy_from_user` cannot copy. -/
  notCopied : Nat → Nat

/-- A call of `onefilefs_write`, with a buffer of a length the VFS passes on. -/
structure WriteCall where
  buf : List UInt8
  buf_le : buf.length ≤ maxRwCount
  off : Nat
  io : WriteIo

/-- `block_number = pos / DEFAULT_BLOCK_SIZE + 2` as an `int`, widened to a sector number. -/
def blockNumber (pos : Nat) : Nat :=
  ((BitVec.ofNat 32 (pos / blockSize + 2)).signExtend 64).toNat

/-- The body of the loop: read the block, copy a piece of the buffer into it. What
`copy_from_user` cannot copy it replaces by zeros. The block is changed in the cache even
when the copy fails. -/
def writeBlock (fs : LogFs) (io : WriteIo) (pos k : Nat) (rest : List UInt8) :
    LogFs × Except Errno Nat :=
  let offset := pos % blockSize
  if !(io.bread k && decide (blockNumber pos < fs.nblocks)) then (fs, .error .eio)
  else
    let writeLen := min rest.length (blockSize - offset)
    let ret := min (io.notCopied k) writeLen
    let bytes := rest.take (writeLen - ret) ++ List.replicate ret 0
    let fs := { fs with blocks := writePage fs.blocks (blockNumber pos) offset bytes }
    if ret ≠ 0 then (fs, .error .efault) else (fs, .ok writeLen)

/-- `while (to_write > 0)`, with the rest of the buffer in place of `to_write` and `written`.
Every round takes a byte or more, so as many rounds as there are bytes are enough. -/
def writeLoop (io : WriteIo) : Nat → LogFs → Nat → Nat → List UInt8 → LogFs × Except Errno Nat
  | 0, fs, pos, _, _ => (fs, .ok pos)
  | rounds + 1, fs, pos, k, rest =>
    if rest = [] then (fs, .ok pos)
    else
      match writeBlock fs io pos k rest with
      | (fs, .error e) => (fs, .error e)
      | (fs, .ok n) => writeLoop io rounds fs (pos + n) (k + 1) (rest.drop n)

/-- What a call leaves behind: its return value, the file offset and the file system. -/
structure WriteResult where
  res : Int
  off : Nat
  fs : LogFs

/-- `i_size_write(inode, max(pos, i_size_read(inode)))`. -/
def LogFs.growTo (fs : LogFs) (pos : Nat) : LogFs := { fs with iSize := max pos fs.iSize }

/-- The end of the call, once the loop has stopped. -/
def closeWrite (call : WriteCall) : LogFs × Except Errno Nat → WriteResult
  | (fs, .error e) => { res := fail e, off := call.off, fs := fs }
  | (fs, .ok pos) => { res := call.buf.length, off := pos, fs := fs.growTo pos }

/-- `pos + len >= max_file_size` in unsigned 64-bit arithmetic. -/
def exceedsMax (maxFileSize pos len : Nat) : Bool := decide (maxFileSize ≤ (pos + len) % 2 ^ 64)

def onefilefsWrite (maxFileSize : Nat) (fs : LogFs) (call : WriteCall) : WriteResult :=
  if exceedsMax maxFileSize fs.iSize call.buf.length then
    { res := fail .efbig, off := call.off, fs := fs }
  else closeWrite call (writeLoop call.io call.buf.length fs fs.iSize 0 call.buf)

/-! ## Block numbers -/

/-- The first position whose block number does not fit in an `int`. -/
def lastPos : Nat := (2 ^ 31 - 2) * blockSize

/-- Before it, the sector number is the block of the position. -/
theorem blockNumber_of_lt {pos : Nat} (h : pos / blockSize < 2 ^ 31 - 2) :
    blockNumber pos = 2 + pos / blockSize := by
  have hb : (BitVec.ofNat 32 (pos / blockSize + 2)).toNat = pos / blockSize + 2 := by
    rw [BitVec.toNat_ofNat]
    exact Nat.mod_eq_of_lt (by omega)
  rw [blockNumber, BitVec.toNat_signExtend, BitVec.toNat_setWidth, BitVec.msb_eq_decide, hb,
    decide_eq_false (by omega), if_neg (by decide)]
  omega

/-- Up to there, a block that can be read is the block of the position. -/
theorem blockNumber_eq {pos n : Nat} (hpos : pos ≤ lastPos) (hn : n ≤ 2 ^ 51)
    (h : blockNumber pos < n) : blockNumber pos = 2 + pos / blockSize ∧
      (pos / blockSize + 1) * blockSize ≤ lastPos := by
  rcases Nat.lt_or_ge (pos / blockSize) (2 ^ 31 - 2) with hlt | hge
  · refine ⟨blockNumber_of_lt hlt, ?_⟩
    rw [lastPos]
    exact Nat.mul_le_mul_right _ hlt
  · -- the number of the last position is negative as an `int`: no device has that sector
    have hdiv : pos / blockSize = 2 ^ 31 - 2 := by
      refine Nat.le_antisymm ?_ hge
      have := Nat.div_le_div_right (c := blockSize) hpos
      rwa [lastPos, Nat.mul_div_cancel _ (by decide)] at this
    have hbig : 2 ^ 51 < blockNumber pos := by
      rw [blockNumber, hdiv]
      decide
    omega

/-! ## The write loop -/

/-- The two file systems have the same device, size, visible content and reserved blocks. -/
structure SameLog (fs₀ fs : LogFs) : Prop where
  nblocks : fs.nblocks = fs₀.nblocks
  iSize : fs.iSize = fs₀.iSize
  visible : fs.visible = fs₀.visible
  block0 : fs.blocks 0 = fs₀.blocks 0
  block1 : fs.blocks 1 = fs₀.blocks 1

theorem SameLog.refl (fs : LogFs) : SameLog fs fs := ⟨rfl, rfl, rfl, rfl, rfl⟩

/-- A write in progress: `rest` is still to be written at `pos`, what comes before it in the
buffer stands behind the visible content, and nothing that shows has changed. -/
structure Writing (fs₀ : LogFs) (buf : List UInt8) (fs : LogFs) (pos : Nat) (rest : List UInt8) :
    Prop where
  same : SameLog fs₀ fs
  position : pos ≤ lastPos
  written : ∃ done, buf = done ++ rest ∧ pos = fs₀.iSize + done.length ∧
    segment blockSize 2 fs.blocks fs₀.iSize done.length = done

theorem Writing.start {fs : LogFs} (h : fs.iSize ≤ lastPos) (buf : List UInt8) :
    Writing fs buf fs fs.iSize buf :=
  ⟨.refl fs, h, [], rfl, rfl, rfl⟩

/-- Writing a piece behind the visible content leaves everything that shows. -/
theorem SameLog.writePage {fs₀ fs : LogFs} (h : SameLog fs₀ fs) {pos : Nat} {bytes : List UInt8}
    (hle : fs₀.iSize ≤ pos) (hfit : pos % blockSize + bytes.length ≤ blockSize) :
    SameLog fs₀ { fs with
      blocks := PagedStore.writePage fs.blocks (2 + pos / blockSize) (pos % blockSize) bytes } := by
  refine ⟨h.nblocks, h.iSize, ?_, ?_, ?_⟩
  · have hle' : fs.iSize ≤ pos := by rw [h.iSize]; exact hle
    rw [← h.visible]
    exact content_writePage_of_le (by decide) hfit hle'
  · have hne : 0 ≠ 2 + pos / blockSize := Nat.ne_of_lt (Nat.lt_add_right _ (by decide))
    rw [← h.block0]
    exact writePage_other hne
  · have hne : 1 ≠ 2 + pos / blockSize := Nat.ne_of_lt (Nat.lt_add_right _ (by decide))
    rw [← h.block1]
    exact writePage_other hne

/-- One round: an error leaves what shows as it was, a success writes a piece that is not
empty. -/
theorem writeBlock_spec {fs₀ fs : LogFs} {buf rest : List UInt8} {pos : Nat}
    (h : Writing fs₀ buf fs pos rest) (hne : rest ≠ []) (io : WriteIo) (k : Nat) :
    (∃ fs' e, writeBlock fs io pos k rest = (fs', .error e) ∧ (e = .eio ∨ e = .efault) ∧
      SameLog fs₀ fs') ∨
    (∃ fs' n, writeBlock fs io pos k rest = (fs', .ok n) ∧ 0 < n ∧
      Writing fs₀ buf fs' (pos + n) (rest.drop n)) := by
  obtain ⟨hsame, hpos, done, hbuf, hat, hseg⟩ := h
  unfold writeBlock
  dsimp only
  split
  · exact .inl ⟨fs, .eio, rfl, .inl rfl, hsame⟩
  · next hread =>
    simp only [Bool.not_eq_true, Bool.not_eq_false', Bool.and_eq_true,
      decide_eq_true_eq] at hread
    obtain ⟨hblock, hnext⟩ := blockNumber_eq hpos fs.nblocks_le hread.2
    have hoff : pos % blockSize < blockSize := Nat.mod_lt _ (by decide)
    have hlen : 0 < rest.length := List.length_pos_of_ne_nil hne
    set writeLen := min rest.length (blockSize - pos % blockSize) with hwl
    set ret := min (io.notCopied k) writeLen with hret
    set bytes := rest.take (writeLen - ret) ++ List.replicate ret 0 with hbytes
    have hbl : bytes.length = writeLen := by
      rw [hbytes, List.length_append, List.length_take, List.length_replicate]
      omega
    have hfit : pos % blockSize + bytes.length ≤ blockSize := by omega
    have hle : fs₀.iSize ≤ pos := by omega
    have hsame' := hsame.writePage hle hfit
    rw [hblock]
    split
    · exact .inl ⟨_, .efault, rfl, .inr rfl, hsame'⟩
    · next hz =>
      have hzero : ret = 0 := not_not.mp hz
      have hpiece : bytes = rest.take writeLen := by
        rw [hbytes, hzero, Nat.sub_zero, List.replicate_zero, List.append_nil]
      refine .inr ⟨_, writeLen, rfl, by omega, hsame', ?_, done ++ bytes, ?_, ?_, ?_⟩
      · have hdiv := Nat.div_add_mod pos blockSize
        rw [Nat.add_mul, Nat.one_mul, Nat.mul_comm] at hnext
        omega
      · rw [hpiece, List.append_assoc, List.take_append_drop]
        exact hbuf
      · rw [List.length_append, hbl]
        omega
      · rw [List.length_append]
        exact (segment_writePage (by decide) hfit hat).trans (by rw [hseg])

theorem writeLoop_nil (io : WriteIo) (rounds : Nat) (fs : LogFs) (pos k : Nat) :
    writeLoop io rounds fs pos k [] = (fs, .ok pos) := by
  cases rounds with
  | zero => rfl
  | succ rounds => rw [writeLoop, if_pos rfl]

/-- The loop writes all of the rest, or stops with an error and nothing shows. -/
theorem writeLoop_spec {fs₀ : LogFs} {buf : List UInt8} (io : WriteIo) :
    ∀ {rounds : Nat} {fs : LogFs} {pos k : Nat} {rest : List UInt8},
      Writing fs₀ buf fs pos rest → rest.length ≤ rounds →
      (∃ fs' e, writeLoop io rounds fs pos k rest = (fs', .error e) ∧ (e = .eio ∨ e = .efault) ∧
        SameLog fs₀ fs') ∨
      (∃ fs', writeLoop io rounds fs pos k rest = (fs', .ok (fs₀.iSize + buf.length)) ∧
        Writing fs₀ buf fs' (fs₀.iSize + buf.length) []) := by
  have hend : ∀ {fs : LogFs} {pos : Nat}, Writing fs₀ buf fs pos [] →
      pos = fs₀.iSize + buf.length := by
    intro fs pos h
    obtain ⟨done, hbuf, hpos, _⟩ := h.written
    rw [hbuf, List.append_nil, hpos]
  intro rounds
  induction rounds with
  | zero =>
    intro fs pos k rest h hr
    obtain rfl := List.length_eq_zero_iff.mp (Nat.le_zero.mp hr)
    exact .inr ⟨fs, by rw [writeLoop_nil, hend h], hend h ▸ h⟩
  | succ rounds ih =>
    intro fs pos k rest h hr
    cases rest with
    | nil => exact .inr ⟨fs, by rw [writeLoop_nil, hend h], hend h ▸ h⟩
    | cons b rest =>
      rw [writeLoop, if_neg (List.cons_ne_nil b rest)]
      rcases writeBlock_spec h (List.cons_ne_nil b rest) io k with
        ⟨fs', e, hw, he, hs⟩ | ⟨fs', n, hw, hn, h'⟩
      · exact .inl ⟨fs', e, by rw [hw], he, hs⟩
      · rw [hw]
        refine ih h' ?_
        rw [List.length_drop]
        omega

/-- Rounds beyond the bytes that are left are never made. -/
theorem writeLoop_rounds {fs₀ : LogFs} {buf : List UInt8} {io : WriteIo} :
    ∀ {rounds rounds' : Nat} {fs : LogFs} {pos k : Nat} {rest : List UInt8},
      Writing fs₀ buf fs pos rest → rest.length ≤ rounds → rest.length ≤ rounds' →
      writeLoop io rounds fs pos k rest = writeLoop io rounds' fs pos k rest := by
  intro rounds
  induction rounds with
  | zero =>
    intro rounds' fs pos k rest _ hr _
    obtain rfl := List.length_eq_zero_iff.mp (Nat.le_zero.mp hr)
    rw [writeLoop_nil, writeLoop_nil]
  | succ rounds ih =>
    intro rounds' fs pos k rest h hr hr'
    cases rest with
    | nil => rw [writeLoop_nil, writeLoop_nil]
    | cons b rest =>
      cases rounds' with
      | zero => exact absurd hr' (by simp)
      | succ rounds' =>
        rw [writeLoop, writeLoop, if_neg (List.cons_ne_nil b rest),
          if_neg (List.cons_ne_nil b rest)]
        rcases writeBlock_spec h (List.cons_ne_nil b rest) io k with
          ⟨fs', e, hw, _, _⟩ | ⟨fs', n, hw, hn, h'⟩
        · rw [hw]
        · rw [hw]
          have hlen : ((b :: rest).drop n).length ≤ rest.length := by
            rw [List.length_drop, List.length_cons]
            omega
          rw [List.length_cons] at hr hr'
          exact ih h' (by omega) (by omega)

/-! ## One write -/

/-- Once all of the buffer is written, moving `i_size` shows it. -/
theorem Writing.grow {fs₀ fs : LogFs} {buf : List UInt8}
    (h : Writing fs₀ buf fs (fs₀.iSize + buf.length) []) :
    (fs.growTo (fs₀.iSize + buf.length)).visible = fs₀.visible ++ buf ∧
      (fs.growTo (fs₀.iSize + buf.length)).iSize = fs₀.iSize + buf.length := by
  have hsize : (fs.growTo (fs₀.iSize + buf.length)).iSize = fs₀.iSize + buf.length := by
    simp only [LogFs.growTo, h.same.iSize]
    omega
  obtain ⟨done, hbuf, _, hseg⟩ := h.written
  rw [List.append_nil] at hbuf
  subst hbuf
  refine ⟨?_, hsize⟩
  have hold := h.same.visible
  unfold LogFs.visible at hold ⊢
  rw [h.same.iSize] at hold
  rw [hsize, content_add, ← hold, LogFs.growTo, hseg]

/-- The two outcomes of a write. -/
inductive Wrote (maxFileSize : Nat) (fs : LogFs) (call : WriteCall) (r : WriteResult) : Prop
  | appended : r.res = call.buf.length → r.fs.visible = fs.visible ++ call.buf →
      r.fs.iSize = fs.iSize + call.buf.length → r.fs.blocks 0 = fs.blocks 0 →
      r.fs.blocks 1 = fs.blocks 1 → (fs.iSize + call.buf.length) % 2 ^ 64 < maxFileSize →
      r.fs.iSize ≤ lastPos → r.off = fs.iSize + call.buf.length → Wrote maxFileSize fs call r
  | failed : (r.res = fail .efbig ∨ r.res = fail .eio ∨ r.res = fail .efault) →
      SameLog fs r.fs → r.off = call.off → Wrote maxFileSize fs call r

/-- What the end of a call makes of a loop that wrote everything. -/
theorem closeWrite_wrote {maxFileSize : Nat} {fs₀ fs : LogFs} {call : WriteCall} {pos k : Nat}
    {rest : List UInt8} (hmax : exceedsMax maxFileSize fs₀.iSize call.buf.length = false)
    (h : Writing fs₀ call.buf fs pos rest) :
    Wrote maxFileSize fs₀ call (closeWrite call (writeLoop call.io rest.length fs pos k rest)) := by
  rcases writeLoop_spec call.io (k := k) h (le_refl _) with ⟨fs', e, hw, he, hs⟩ | ⟨fs', hw, h'⟩
  · rw [hw]
    refine .failed ?_ hs rfl
    rcases he with rfl | rfl
    · exact .inr (.inl rfl)
    · exact .inr (.inr rfl)
  · rw [hw]
    obtain ⟨hvis, hsize⟩ := h'.grow
    refine .appended rfl hvis hsize h'.same.block0 h'.same.block1 ?_ ?_ rfl
    · exact Nat.lt_of_not_le (of_decide_eq_false hmax)
    · show (fs'.growTo _).iSize ≤ lastPos
      rw [hsize]
      exact h'.position

/-- A write appends the whole buffer and returns its length, or fails and shows nothing. -/
theorem onefilefsWrite_spec {maxFileSize : Nat} {fs : LogFs} (hpos : fs.iSize ≤ lastPos)
    (call : WriteCall) : Wrote maxFileSize fs call (onefilefsWrite maxFileSize fs call) := by
  unfold onefilefsWrite
  split
  · exact .failed (.inl rfl) (.refl fs) rfl
  · next h => exact closeWrite_wrote (by simpa using h) (.start hpos call.buf)

/-- A result that is an error is not the length of a buffer. -/
theorem fail_ne_length (e : Errno) (buf : List UInt8) : fail e ≠ (buf.length : Int) := by
  have := fail_neg e
  omega

/-! ## A write with room -/

/-- The file may grow by `len` bytes: the limit is not reached and the blocks exist. -/
structure LogFs.Room (maxFileSize : Nat) (fs : LogFs) (len : Nat) : Prop where
  size : fs.iSize + len < maxFileSize
  blocks : 2 + (fs.iSize + len) / blockSize < fs.nblocks
  sector : (fs.iSize + len) / blockSize < 2 ^ 31 - 2

/-- Every block can be read and every piece copied. -/
structure WriteIo.Works (io : WriteIo) : Prop where
  bread : ∀ k, io.bread k = true
  copied : ∀ k, io.notCopied k = 0

theorem writeBlock_works {maxFileSize : Nat} {fs₀ fs : LogFs} {buf rest : List UInt8} {pos : Nat}
    {io : WriteIo} (h : Writing fs₀ buf fs pos rest) (hroom : fs₀.Room maxFileSize buf.length)
    (hio : io.Works) (k : Nat) : ∃ fs' n, writeBlock fs io pos k rest = (fs', .ok n) := by
  obtain ⟨done, hbuf, hpos, _⟩ := h.written
  have hdiv : pos / blockSize ≤ (fs₀.iSize + buf.length) / blockSize := by
    refine Nat.div_le_div_right ?_
    rw [hpos, hbuf, List.length_append]
    omega
  have hblock : blockNumber pos < fs.nblocks := by
    rw [blockNumber_of_lt (Nat.lt_of_le_of_lt hdiv hroom.sector), h.same.nblocks]
    exact Nat.lt_of_le_of_lt (Nat.add_le_add_left hdiv 2) hroom.blocks
  unfold writeBlock
  dsimp only
  rw [hio.bread, hio.copied, decide_eq_true hblock, Nat.zero_min]
  exact ⟨_, _, rfl⟩

theorem writeLoop_works {maxFileSize : Nat} {fs₀ : LogFs} {buf : List UInt8} {io : WriteIo}
    (hroom : fs₀.Room maxFileSize buf.length) (hio : io.Works) :
    ∀ {rounds : Nat} {fs : LogFs} {pos k : Nat} {rest : List UInt8},
      Writing fs₀ buf fs pos rest →
      ∃ fs' pos', writeLoop io rounds fs pos k rest = (fs', .ok pos') := by
  intro rounds
  induction rounds with
  | zero => exact fun _ => ⟨_, _, rfl⟩
  | succ rounds ih =>
    intro fs pos k rest h
    rw [writeLoop]
    split
    · exact ⟨_, _, rfl⟩
    · next hne =>
      obtain ⟨fs₁, n₁, hok⟩ := writeBlock_works h hroom hio k
      rcases writeBlock_spec h hne io k with ⟨_, _, hw, _⟩ | ⟨fs', n, hw, _, h'⟩
      · exact absurd (congrArg Prod.snd (hok.symm.trans hw)) (by simp)
      · rw [hw]
        exact ih h'

/-- With room in the file and a working device the write appends the whole buffer. -/
theorem onefilefsWrite_works {maxFileSize : Nat} {fs : LogFs} {call : WriteCall}
    (hpos : fs.iSize ≤ lastPos) (hroom : fs.Room maxFileSize call.buf.length)
    (hio : call.io.Works) :
    (onefilefsWrite maxFileSize fs call).fs.visible = fs.visible ++ call.buf ∧
      (onefilefsWrite maxFileSize fs call).fs.iSize ≤ lastPos := by
  have hmax : exceedsMax maxFileSize fs.iSize call.buf.length = false := by
    refine decide_eq_false (Nat.not_le.mpr ?_)
    exact Nat.lt_of_le_of_lt (Nat.mod_le ..) hroom.size
  obtain ⟨fs', pos', hloop⟩ := @writeLoop_works maxFileSize fs call.buf call.io hroom hio
    call.buf.length fs fs.iSize 0 call.buf (.start hpos call.buf)
  have hres : (onefilefsWrite maxFileSize fs call).res = call.buf.length := by
    rw [onefilefsWrite, if_neg (by rw [hmax]; decide), hloop]
    rfl
  have hspec : Wrote maxFileSize fs call (onefilefsWrite maxFileSize fs call) :=
    onefilefsWrite_spec hpos call
  cases hspec with
  | appended _ hvis _ _ _ _ hle _ => exact ⟨hvis, hle⟩
  | failed hfail _ _ =>
    rcases hfail with h | h | h <;> exact absurd (h.symm.trans hres) (fail_ne_length _ _)

theorem Wrote.lastPos {maxFileSize : Nat} {fs : LogFs} {call : WriteCall} {r : WriteResult}
    (hpos : fs.iSize ≤ lastPos) (h : Wrote maxFileSize fs call r) : r.fs.iSize ≤ lastPos := by
  cases h with
  | appended _ _ _ _ _ _ hle _ => exact hle
  | failed _ hs _ => rw [hs.iSize]; exact hpos

end RefMonitor
