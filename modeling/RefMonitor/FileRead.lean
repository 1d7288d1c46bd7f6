import RefMonitor.SingleFs
import RefMonitor.Lib.Reader

/-!
# `singlefile-FS/file.c`: reading the log back

`onefilefs_read` delivers bytes of one block at most: it clips the request at the end of the
file, then at the end of the block, and moves the offset only when all of it was copied. The
number of the block is computed into an `int`, as in `onefilefs_write`, so a file that goes
past block `2^31 - 1` cannot be read to its end, although the device has the blocks.

Results:
1. `onefilefsRead_piece`: what a call before the end delivers.
2. `fileSession_pages`: successive calls page through the visible content.
3. `readsBack_iff`: reading is exact precisely for files whose block numbers fit.
-/

namespace RefMonitor
open PagedStore Reader

/-! ## The source's function -/

/-- The outcome of the kernel services that one call uses. -/
structure ReadIo where
  /-- Whether `sb_bread` can read the block, if the device has it. -/
  bread : Bool
  /-- How many bytes `copy_to_user` cannot copy. -/
  notCopied : Nat

structure ReadIo.Works (io : ReadIo) : Prop where
  bread : io.bread = true
  copied : io.notCopied = 0

/-- A call of `onefilefs_read`, with a length the VFS passes on. -/
structure FileReadCall where
  len : Nat
  len_le : len ≤ maxRwCount
  io : ReadIo

/-- The return value, `*off` afterwards and what was copied into the user's buffer. -/
structure FileReadResult where
  res : Int
  off : Nat
  bytes : List UInt8

/-- `len` after the request was clipped at the end of the file (in unsigned 64-bit
arithmetic) and at the end of the block. -/
def clippedLen (fileSize off len : Nat) : Nat :=
  let len := if fileSize < (off + len) % 2 ^ 64 then fileSize - off else len
  let offset := off % blockSize
  if blockSize < offset + len then blockSize - offset else len

/-- The bytes `bh->b_data + offset .. + len` of the block with number `block`. -/
def blockBytes (fs : LogFs) (block offset len : Nat) : List UInt8 :=
  (List.range len).map fun j => fs.blocks block (offset + j)

def onefilefsRead (fs : LogFs) (off : Nat) (call : FileReadCall) : FileReadResult :=
  if fs.iSize = 0 then { res := 0, off := off, bytes := [] }
  else if fs.iSize ≤ off then { res := 0, off := off, bytes := [] }
  else
    let len := clippedLen fs.iSize off call.len
    if !(call.io.bread && decide (blockNumber off < fs.nblocks)) then
      { res := fail .eio, off := off, bytes := [] }
    else
      let ret := min call.io.notCopied len
      let bytes := (blockBytes fs (blockNumber off) (off % blockSize) len).take (len - ret)
      if ret ≠ 0 then { res := fail .efault, off := off, bytes := bytes }
      else { res := len, off := off + len, bytes := bytes }

/-! ## What reading back means -/

/-- Every byte of the file has its block on the device. -/
def LogFs.HoldsFile (fs : LogFs) : Prop := ∀ pos < fs.iSize, 2 + pos / blockSize < fs.nblocks

/-- Successive calls on one open file, each from the offset the last one left. -/
def fileSession (fs : LogFs) (calls : Nat → FileReadCall) : Session UInt8 where
  piece n pos := (onefilefsRead fs pos (calls n)).bytes
  next n pos := (onefilefsRead fs pos (calls n)).off

/-- The call delivers at least one byte and no more than it was asked for, all of them bytes
of the file in the block of the offset, and moves the offset by what it returned. -/
structure DeliversPiece (fs : LogFs) (off : Nat) (call : FileReadCall) (r : FileReadResult) : Prop where
  some : 0 < r.res
  asked : r.res ≤ call.len
  moved : (r.off : Int) = off + r.res
  inFile : off + r.res.toNat ≤ fs.iSize
  inside : off % blockSize + r.res.toNat ≤ blockSize
  bytes : r.bytes = blockBytes fs (2 + off / blockSize) (off % blockSize) r.res.toNat

/-- Reading from offset 0 returns the file, whatever lengths are asked for. -/
structure ReadsBack (fs : LogFs) : Prop where
  whole : ∀ calls : Nat → FileReadCall, (∀ n, 0 < (calls n).len ∧ (calls n).io.Works) →
    ∃ n, (onefilefsRead fs ((fileSession fs calls).position n) (calls n)).res = 0 ∧
      (∀ k < n, 0 < (onefilefsRead fs ((fileSession fs calls).position k) (calls k)).res) ∧
      (fileSession fs calls).gathered n = fs.visible
  piece : ∀ (off : Nat) (call : FileReadCall), off < fs.iSize → 0 < call.len → call.io.Works →
    DeliversPiece fs off call (onefilefsRead fs off call)
  failing : ∀ (off : Nat) (call : FileReadCall), (onefilefsRead fs off call).res < 0 →
    (onefilefsRead fs off call).off = off

/-! ## One call -/

/-- A request that was clipped is not empty and ends inside the file and the block. -/
theorem clippedLen_spec {fileSize off len : Nat} (hoff : off < fileSize) (hlen : 0 < len)
    (hfit : off + len < 2 ^ 64) :
    0 < clippedLen fileSize off len ∧ clippedLen fileSize off len ≤ len ∧
      off + clippedLen fileSize off len ≤ fileSize ∧
      off % blockSize + clippedLen fileSize off len ≤ blockSize := by
  have hmod : off % blockSize < blockSize := Nat.mod_lt _ (by decide)
  unfold clippedLen
  rw [Nat.mod_eq_of_lt hfit]
  dsimp only
  split
  · split <;> omega
  · split <;> omega

theorem onefilefsRead_end {fs : LogFs} {off : Nat} (h : fs.iSize ≤ off) (call : FileReadCall) :
    onefilefsRead fs off call = { res := 0, off := off, bytes := [] } := by
  unfold onefilefsRead
  rw [if_pos h]
  split <;> rfl

theorem length_blockBytes (fs : LogFs) (block offset len : Nat) :
    (blockBytes fs block offset len).length = len := by
  rw [blockBytes, List.length_map, List.length_range]

/-- A call before the end of the file whose block was found returns the clipped request. -/
theorem onefilefsRead_works {fs : LogFs} {off : Nat} {call : FileReadCall} (hoff : off < fs.iSize)
    (hio : call.io.Works) (hblock : blockNumber off < fs.nblocks) :
    onefilefsRead fs off call =
      { res := clippedLen fs.iSize off call.len, off := off + clippedLen fs.iSize off call.len,
        bytes := blockBytes fs (blockNumber off) (off % blockSize)
          (clippedLen fs.iSize off call.len) } := by
  unfold onefilefsRead
  dsimp only
  rw [if_neg (by omega), if_neg (by omega), hio.bread, hio.copied, decide_eq_true hblock,
    if_neg (by decide), Nat.zero_min, if_neg (by decide), Nat.sub_zero,
    List.take_of_length_le (by rw [length_blockBytes])]

/-- A call whose block is not on the device fails. -/
theorem onefilefsRead_eio {fs : LogFs} {off : Nat} (hoff : off < fs.iSize) (call : FileReadCall)
    (hblock : ¬ blockNumber off < fs.nblocks) : (onefilefsRead fs off call).res = fail .eio := by
  unfold onefilefsRead
  dsimp only
  rw [if_neg (by omega), if_neg (by omega), decide_eq_false hblock, Bool.and_false,
    if_pos (by decide)]

theorem onefilefsRead_failing (fs : LogFs) (off : Nat) (call : FileReadCall)
    (h : (onefilefsRead fs off call).res < 0) : (onefilefsRead fs off call).off = off := by
  unfold onefilefsRead at h ⊢
  dsimp only at h ⊢
  split
  · rfl
  · split
    · rfl
    · split
      · rfl
      · split
        · rfl
        · next h0 hend hbread hret =>
          rw [if_neg h0, if_neg hend, if_neg hbread, if_neg hret] at h
          exact absurd h (by simp)

theorem onefilefsRead_piece {fs : LogFs} {off : Nat} {call : FileReadCall} (hdev : fs.HoldsFile)
    (hsize : fs.iSize ≤ lastPos) (hoff : off < fs.iSize) (hlen : 0 < call.len)
    (hio : call.io.Works) : DeliversPiece fs off call (onefilefsRead fs off call) := by
  have hlt : off / blockSize < 2 ^ 31 - 2 :=
    Nat.div_lt_of_lt_mul (by rw [Nat.mul_comm]; exact Nat.lt_of_lt_of_le hoff hsize)
  have hnum : blockNumber off = 2 + off / blockSize := blockNumber_of_lt hlt
  have hfit : off + call.len < 2 ^ 64 := by
    have hmax := call.len_le
    unfold lastPos blockSize at hsize
    unfold maxRwCount at hmax
    omega
  obtain ⟨hpos, hasked, hend, hinside⟩ := clippedLen_spec hoff hlen hfit
  rw [onefilefsRead_works hoff hio (by rw [hnum]; exact hdev off hoff), hnum]
  exact ⟨by simpa using hpos, by simpa using hasked, by simp, hend, hinside, rfl⟩

/-! ## Successive calls -/

/-- The bytes of a block, from the offset of a position on, are the bytes of the file there. -/
theorem blockBytes_eq_segment {fs : LogFs} {off len : Nat}
    (h : off % blockSize + len ≤ blockSize) :
    blockBytes fs (2 + off / blockSize) (off % blockSize) len =
      segment blockSize 2 fs.blocks off len := by
  refine List.map_congr_left ?_
  intro j hj
  have hj' : off % blockSize + j < blockSize :=
    Nat.lt_of_lt_of_le (Nat.add_lt_add_left (List.mem_range.mp hj) _) h
  have hsplit : off + j = off % blockSize + j + blockSize * (off / blockSize) := by
    have := Nat.div_add_mod off blockSize
    omega
  rw [cell, hsplit, Nat.add_mul_div_left _ _ (by decide), Nat.add_mul_mod_self_left,
    Nat.div_eq_of_lt hj', Nat.mod_eq_of_lt hj', Nat.zero_add]

/-- What stands in the file from a position on starts with every segment there. -/
theorem segment_isPrefix {fs : LogFs} {off len : Nat} (h : off + len ≤ fs.iSize) :
    segment blockSize 2 fs.blocks off len <+: fs.visible.drop off := by
  obtain ⟨rest, hrest⟩ : ∃ rest, fs.iSize = off + (len + rest) := ⟨fs.iSize - off - len, by omega⟩
  rw [LogFs.visible, hrest, content_add, segment_add,
    List.drop_left' (length_content off)]
  exact List.prefix_append _ _

theorem length_visible (fs : LogFs) : fs.visible.length = fs.iSize := length_content _

theorem fileSession_pages {fs : LogFs} {calls : Nat → FileReadCall} (hdev : fs.HoldsFile)
    (hsize : fs.iSize ≤ lastPos) (hcalls : ∀ n, 0 < (calls n).len ∧ (calls n).io.Works) :
    Pages (fileSession fs calls) fs.visible := by
  have hpiece : ∀ n pos, pos < fs.visible.length →
      DeliversPiece fs pos (calls n) (onefilefsRead fs pos (calls n)) := by
    intro n pos hpos
    rw [length_visible] at hpos
    exact onefilefsRead_piece hdev hsize hpos (hcalls n).1 (hcalls n).2
  have hbytes : ∀ n pos, pos < fs.visible.length →
      ((fileSession fs calls).piece n pos).length =
        (onefilefsRead fs pos (calls n)).res.toNat := by
    intro n pos hpos
    show (onefilefsRead fs pos (calls n)).bytes.length = _
    rw [(hpiece n pos hpos).bytes, length_blockBytes]
  refine ⟨?_, ?_, ?_, ?_⟩
  · -- a call stays inside one block, whose bytes are a piece of the file
    intro n pos hpos
    have h := hpiece n pos hpos
    show (onefilefsRead fs pos (calls n)).bytes <+: _
    rw [h.bytes, blockBytes_eq_segment h.inside]
    exact segment_isPrefix h.inFile
  · intro n pos hpos hnil
    have hlen := hbytes n pos hpos
    rw [hnil] at hlen
    have hsome := (hpiece n pos hpos).some
    rw [List.length_nil] at hlen
    omega
  · intro n pos hpos
    have h := hpiece n pos hpos
    have hmoved := h.moved
    have hsome := h.some
    rw [hbytes n pos hpos]
    show (onefilefsRead fs pos (calls n)).off = _
    omega
  · intro n
    have hread := @onefilefsRead_end fs _ (le_of_eq (length_visible fs).symm) (calls n)
    show (onefilefsRead fs fs.visible.length (calls n)).bytes = [] ∧
      (onefilefsRead fs fs.visible.length (calls n)).off = fs.visible.length
    rw [hread]
    exact ⟨rfl, rfl⟩

theorem not_blockNumber_lastPos (fs : LogFs) : ¬ blockNumber lastPos < fs.nblocks := by
  intro h
  obtain ⟨-, hnext⟩ := blockNumber_eq (le_refl _) fs.nblocks_le h
  exact absurd hnext (by decide)

/-- A request for one byte that the kernel services serve. -/
def oneByte : FileReadCall where
  len := 1
  len_le := by decide
  io := { bread := true, notCopied := 0 }

theorem oneByte_works : oneByte.io.Works := ⟨rfl, rfl⟩

/-- Where the block numbers end, a request for one byte fails. -/
theorem ReadsBack.size_le {fs : LogFs} (h : ReadsBack fs) : fs.iSize ≤ lastPos := by
  by_contra hlong
  have hoff : lastPos < fs.iSize := Nat.lt_of_not_le hlong
  have hsome := (h.piece lastPos oneByte hoff (by decide) oneByte_works).some
  rw [onefilefsRead_eio hoff oneByte (not_blockNumber_lastPos fs)] at hsome
  exact absurd hsome (by decide)

/-- On a device that holds the file, successive reads return exactly the file, and every
call behaves as it should, precisely when all block numbers of the file fit in an `int`. -/
theorem readsBack_iff (fs : LogFs) (hdev : fs.HoldsFile) : ReadsBack fs ↔ fs.iSize ≤ lastPos := by
  constructor
  · exact fun h => h.size_le
  · intro hsize
    refine ⟨?_, fun off call hoff hlen hio => onefilefsRead_piece hdev hsize hoff hlen hio,
      onefilefsRead_failing fs⟩
    intro calls hcalls
    obtain ⟨n, hend, hbefore, hall⟩ := (fileSession_pages hdev hsize hcalls).reads_whole
    rw [length_visible] at hend hbefore
    refine ⟨n, ?_, ?_, hall⟩
    · rw [hend, onefilefsRead_end (le_refl _)]
    · intro k hk
      exact (onefilefsRead_piece hdev hsize (hbefore k hk) (hcalls k).1 (hcalls k).2).some

theorem shortFile_blocks_le : 4 ≤ 2 ^ 51 := by decide

/-- A log of 5000 bytes, on a device of four blocks. -/
def shortFile : LogFs where
  nblocks := 4
  nblocks_le := shortFile_blocks_le
  blocks := fun block offset => UInt8.ofNat (block + offset)
  iSize := 5000

theorem shortFile_holdsFile : shortFile.HoldsFile := by
  intro pos hpos
  have hdiv : pos / blockSize < 2 :=
    Nat.div_lt_of_lt_mul (Nat.lt_trans hpos (by decide))
  show 2 + pos / blockSize < 4
  omega

theorem readsBack_iff_shortFile : ReadsBack shortFile :=
  (readsBack_iff shortFile shortFile_holdsFile).mpr (by decide)

/-- One byte more than the block numbers reach, on a device that has the block of it. -/
def longFile : LogFs where
  nblocks := 2 ^ 31 + 1
  nblocks_le := by decide
  blocks := fun _ _ => 0
  iSize := lastPos + 1

theorem longFile_holdsFile : longFile.HoldsFile := by
  intro pos hpos
  have hdiv : pos / blockSize ≤ 2 ^ 31 - 2 :=
    Nat.div_le_of_le_mul (by rw [Nat.mul_comm]; exact Nat.le_of_lt_succ hpos)
  show 2 + pos / blockSize < 2 ^ 31 + 1
  omega

/-- The last byte of that file cannot be read. -/
theorem longFile_notRead : longFile.HoldsFile ∧ ¬ ReadsBack longFile ∧
    ∀ call : FileReadCall, (onefilefsRead longFile lastPos call).res = fail .eio := by
  refine ⟨longFile_holdsFile, ?_, ?_⟩
  · intro h
    exact absurd h.size_le (Nat.not_le.mpr (Nat.lt_succ_self _))
  · intro call
    exact onefilefsRead_eio (Nat.lt_succ_self _) call (not_blockNumber_lastPos longFile)

end RefMonitor
