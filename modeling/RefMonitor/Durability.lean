import RefMonitor.LogWriters

/-!
# The log across mounts

`singlefilemakefs.c` writes the image: a super block, the inode of the file with its size,
and the header line. Mounting checks the magic number (`singlefilefs_fill_super`), and the
first lookup of the file loads its size from block 1 (`onefilefs_lookup`). `onefilefs_write`
moves `i_size` in memory and marks the inode dirty, but the super operations are empty:
nothing ever writes the size to block 1. Unmounting drops the inode and keeps the blocks.

Results:
1. `mount_mkfs`, `fromMkfs_mkfs`: a fresh image mounts and shows the header line.
2. `remount_visible`: whatever has been appended, a mount shows the header line.
3. `durable_iff`: the log survives the mounts of a run exactly when every mount happens
   before the first byte has been appended.
-/

namespace RefMonitor
open CString PagedStore

/-! ## The image and the mount -/

def magic : Nat := 0x42424242

/-- `file_body`, the default content of the file. -/
def fileBody : List UInt8 := ascii "TGID,PID,UID,EUID,PATH,HASH" ++ [10]

/-- Store an integer field of `width` bytes at an offset of a structure. -/
def putField (page : Nat → UInt8) (offset width n : Nat) : Nat → UInt8 :=
  fun o => if offset ≤ o ∧ o < offset + width then UInt8.ofNat (n / 256 ^ (o - offset)) else page o

/-- Read a `uint64_t` field. -/
def getU64 (page : Nat → UInt8) (offset : Nat) : Nat :=
  ((List.range 8).map fun k => (page (offset + k)).toNat * 256 ^ k).sum

/-- `struct onefilefs_sb_info sb` on the stack, after the three assignments. -/
def packSuper (stack : Nat → UInt8) : Nat → UInt8 :=
  putField (putField (putField stack 0 8 1) 8 8 magic) 16 8 blockSize

/-- `struct onefilefs_inode file_inode` on the stack, after the three assignments. -/
def packInode (stack : Nat → UInt8) : Nat → UInt8 :=
  putField (putField (putField stack 0 4 0o100000) 8 8 1) 24 8 fileBody.length

/-- What `mkfs` writes over the blocks of a device: the super block, the inode padded with
zeros, and the header line at the start of block 2. -/
def mkfs (superStack inodeStack : Nat → UInt8) (device : Nat → Nat → UInt8) : Nat → Nat → UInt8
  | 0, o => packSuper superStack o
  | 1, o => if o < 32 then packInode inodeStack o else 0
  | 2, o => if o < fileBody.length then fileBody.getD o 0 else device 2 o
  | b + 3, o => device (b + 3) o

/-- Mount a device and look the file up. Both blocks must be readable. -/
def mountLog (nblocks : Nat) (hn : nblocks ≤ 2 ^ 51) (blocks : Nat → Nat → UInt8) :
    Except Errno LogFs :=
  if nblocks ≤ 0 then .error .eio
  else if getU64 (blocks 0) 8 ≠ magic then .error .ebadf
  else if nblocks ≤ 1 then .error .eio
  else .ok { nblocks := nblocks, nblocks_le := hn, blocks := blocks, iSize := getU64 (blocks 1) 24 }

/-- Unmount, which drops the inode and keeps the blocks, and mount again. -/
def LogFs.remount (fs : LogFs) : Except Errno LogFs := mountLog fs.nblocks fs.nblocks_le fs.blocks

/-! ## Runs -/

inductive LogEvent
  | write (call : WriteCall)
  | remount

/-- Every write of the run returns its length. -/
def AllSucceed (maxFileSize : Nat) : LogFs → List LogEvent → Prop
  | _, [] => True
  | fs, .write call :: events =>
    (onefilefsWrite maxFileSize fs call).res = call.buf.length ∧
      AllSucceed maxFileSize (onefilefsWrite maxFileSize fs call).fs events
  | fs, .remount :: events => ∀ fs', fs.remount = .ok fs' → AllSucceed maxFileSize fs' events

/-- Every mount of the run shows the header line and all bytes appended so far. -/
def Durable (maxFileSize : Nat) : LogFs → List UInt8 → List LogEvent → Prop
  | _, _, [] => True
  | fs, log, .write call :: events =>
    Durable maxFileSize (onefilefsWrite maxFileSize fs call).fs (log ++ call.buf) events
  | fs, log, .remount :: events =>
    ∃ fs', fs.remount = .ok fs' ∧ fs'.visible = fileBody ++ log ∧
      Durable maxFileSize fs' log events

/-- No byte is appended before the last mount of the run. -/
def QuietBeforeMounts : List UInt8 → List LogEvent → Prop
  | _, [] => True
  | log, .write call :: events => QuietBeforeMounts (log ++ call.buf) events
  | log, .remount :: events => log = [] ∧ QuietBeforeMounts log events

/-! ## Fields of a structure on disk -/

theorem getU64_congr {page page' : Nat → UInt8} {offset : Nat}
    (h : ∀ o, offset ≤ o → o < offset + 8 → page o = page' o) :
    getU64 page offset = getU64 page' offset := by
  unfold getU64
  congr 1
  refine List.map_congr_left fun k hk => ?_
  rw [h (offset + k) (Nat.le_add_right _ _) (Nat.add_lt_add_left (List.mem_range.mp hk) _)]

/-- The digits of a number in base 256 add up to it. -/
theorem sum_digits (n m : Nat) :
    ((List.range m).map fun k => n / 256 ^ k % 256 * 256 ^ k).sum = n % 256 ^ m := by
  induction m with
  | zero => simp [Nat.mod_one]
  | succ m ih =>
    rw [List.range_succ, List.map_append, List.sum_append, ih, Nat.mod_pow_succ]
    simp [Nat.mul_comm]

theorem getU64_putField {page : Nat → UInt8} {offset n : Nat} (hn : n < 2 ^ 64) :
    getU64 (putField page offset 8 n) offset = n := by
  have hbyte : ∀ k ∈ List.range 8, (putField page offset 8 n (offset + k)).toNat * 256 ^ k =
      n / 256 ^ k % 256 * 256 ^ k := by
    intro k hk
    have hk := List.mem_range.mp hk
    rw [putField, if_pos ⟨Nat.le_add_right _ _, by omega⟩, Nat.add_sub_cancel_left]
    rfl
  rw [getU64, List.map_congr_left hbyte, sum_digits]
  exact Nat.mod_eq_of_lt hn

/-! ## What a mount shows -/

/-- The file system is one `mkfs` made, with whatever appended: the super block and the inode
block are as they were written, and the content starts with the header line. -/
structure FromMkfs (fs : LogFs) : Prop where
  nblocks : 2 ≤ fs.nblocks
  super : getU64 (fs.blocks 0) 8 = magic
  inode : getU64 (fs.blocks 1) 24 = fileBody.length
  header : fileBody <+: fs.visible
  position : fs.iSize ≤ lastPos

theorem FromMkfs.length_le {fs : LogFs} (h : FromMkfs fs) : fileBody.length ≤ fs.iSize := by
  have := h.header.length_le
  rwa [LogFs.visible, length_content] at this

theorem content_take {size base : Nat} {pages : Nat → Nat → UInt8} {n m : Nat} (h : n ≤ m) :
    (content size base pages m).take n = content size base pages n := by
  obtain ⟨k, rfl⟩ := Nat.exists_eq_add_of_le h
  rw [content_add, List.take_left' (length_content n)]

/-- A mount shows the header line and nothing else, whatever has been appended. -/
theorem remount_visible {fs : LogFs} (h : FromMkfs fs) :
    ∃ fs', fs.remount = .ok fs' ∧ fs'.visible = fileBody ∧ FromMkfs fs' := by
  have hn := h.nblocks
  refine ⟨{ fs with iSize := fileBody.length }, ?_, ?_, ?_⟩
  · rw [LogFs.remount, mountLog, if_neg (by omega), if_neg (fun hne => hne h.super),
      if_neg (by omega), h.inode]
  · show content blockSize 2 fs.blocks fileBody.length = fileBody
    rw [← content_take h.length_le]
    exact (List.prefix_iff_eq_take.mp h.header).symm
  · refine ⟨hn, h.super, h.inode, ?_, Nat.le_trans h.length_le h.position⟩
    show fileBody <+: content blockSize 2 fs.blocks fileBody.length
    rw [← content_take h.length_le]
    exact List.prefix_take_iff.mpr ⟨h.header, le_refl _⟩

theorem onefilefsWrite_nblocks {maxFileSize : Nat} {fs : LogFs} (hpos : fs.iSize ≤ lastPos)
    (call : WriteCall) : (onefilefsWrite maxFileSize fs call).fs.nblocks = fs.nblocks := by
  unfold onefilefsWrite
  split
  · rfl
  · rcases writeLoop_spec call.io (k := 0) (Writing.start hpos call.buf) (le_refl _) with
      ⟨fs', e, hw, _, hs⟩ | ⟨fs', hw, h'⟩
    · rw [hw]
      exact hs.nblocks
    · rw [hw]
      exact h'.same.nblocks

theorem FromMkfs.write {maxFileSize : Nat} {fs : LogFs} (h : FromMkfs fs) (call : WriteCall) :
    FromMkfs (onefilefsWrite maxFileSize fs call).fs := by
  have hspec := @onefilefsWrite_spec maxFileSize fs h.position call
  have hlast := hspec.lastPos h.position
  have hn := @onefilefsWrite_nblocks maxFileSize fs h.position call
  cases hspec with
  | appended _ hvis _ h0 h1 _ _ _ =>
    exact ⟨hn ▸ h.nblocks, h0 ▸ h.super, h1 ▸ h.inode,
      hvis ▸ h.header.trans (List.prefix_append _ _), hlast⟩
  | failed _ hs _ =>
    exact ⟨hn ▸ h.nblocks, hs.block0 ▸ h.super, hs.block1 ▸ h.inode, hs.visible ▸ h.header, hlast⟩

theorem getU64_mkfs_super (superStack inodeStack : Nat → UInt8) (device : Nat → Nat → UInt8) :
    getU64 (mkfs superStack inodeStack device 0) 8 = magic := by
  have hsame : getU64 (mkfs superStack inodeStack device 0) 8 =
      getU64 (putField (putField superStack 0 8 1) 8 8 magic) 8 := by
    refine getU64_congr fun o _ ho => ?_
    show packSuper superStack o = _
    rw [packSuper, putField, if_neg (by omega)]
  rw [hsame]
  exact getU64_putField (by decide)

theorem getU64_mkfs_inode (superStack inodeStack : Nat → UInt8) (device : Nat → Nat → UInt8) :
    getU64 (mkfs superStack inodeStack device 1) 24 = fileBody.length := by
  have hsame : getU64 (mkfs superStack inodeStack device 1) 24 =
      getU64 (packInode inodeStack) 24 := by
    refine getU64_congr fun o _ ho => ?_
    show (if o < 32 then packInode inodeStack o else 0) = _
    rw [if_pos (by omega)]
  rw [hsame]
  exact getU64_putField (by decide)

/-- A fresh image mounts with the size of the header line. -/
theorem mount_mkfs {nblocks : Nat} (h3 : 3 ≤ nblocks) (hn : nblocks ≤ 2 ^ 51)
    (superStack inodeStack : Nat → UInt8) (device : Nat → Nat → UInt8) :
    mountLog nblocks hn (mkfs superStack inodeStack device) =
      .ok { nblocks := nblocks, nblocks_le := hn, blocks := mkfs superStack inodeStack device,
            iSize := fileBody.length } := by
  rw [mountLog, if_neg (by omega), if_neg (fun hne => hne (getU64_mkfs_super _ _ _)),
    if_neg (by omega), getU64_mkfs_inode]

/-- It shows the header line. -/
theorem fromMkfs_mkfs {nblocks : Nat} (h3 : 3 ≤ nblocks) (hn : nblocks ≤ 2 ^ 51)
    (superStack inodeStack : Nat → UInt8) (device : Nat → Nat → UInt8) {fs : LogFs}
    (hmount : mountLog nblocks hn (mkfs superStack inodeStack device) = .ok fs) :
    fs.visible = fileBody ∧ FromMkfs fs := by
  obtain rfl := Except.ok.inj ((mount_mkfs h3 hn superStack inodeStack device).symm.trans hmount)
  have hbody : content blockSize 2 (mkfs superStack inodeStack device) fileBody.length =
      fileBody := rfl
  have hlast : fileBody.length ≤ lastPos := by decide
  exact ⟨hbody, Nat.le_of_succ_le h3, getU64_mkfs_super superStack inodeStack device,
    getU64_mkfs_inode superStack inodeStack device, by rw [LogFs.visible, hbody], hlast⟩

/-! ## Durability -/

theorem durable_iff_of_fromMkfs {maxFileSize : Nat} {events : List LogEvent} :
    ∀ {fs : LogFs} {log : List UInt8}, FromMkfs fs → AllSucceed maxFileSize fs events →
      (Durable maxFileSize fs log events ↔ QuietBeforeMounts log events) := by
  induction events with
  | nil => exact fun _ _ => Iff.rfl
  | cons e events ih =>
    intro fs log h hok
    cases e with
    | write call => exact ih (h.write call) hok.2
    | remount =>
      obtain ⟨fs', hmount, hvis, h'⟩ := remount_visible h
      have hrest : Durable maxFileSize fs' log events ↔ QuietBeforeMounts log events :=
        ih h' (hok fs' hmount)
      constructor
      · rintro ⟨fs'', hmount', hvis', hdur⟩
        obtain rfl := Except.ok.inj (hmount.symm.trans hmount')
        refine ⟨?_, hrest.mp hdur⟩
        exact List.self_eq_append_right.mp (hvis.symm.trans hvis')
      · rintro ⟨rfl, hquiet⟩
        exact ⟨fs', hmount, by rw [hvis, List.append_nil], hrest.mpr hquiet⟩

/-- From every image `mkfs` writes, and for every run of successful writes and remounts, the
mounts show the header line and everything appended exactly when nothing has been appended
before them. -/
theorem durable_iff {maxFileSize nblocks : Nat} (h3 : 3 ≤ nblocks) (hn : nblocks ≤ 2 ^ 51)
    {superStack inodeStack : Nat → UInt8} {device : Nat → Nat → UInt8} {fs : LogFs}
    (hmount : mountLog nblocks hn (mkfs superStack inodeStack device) = .ok fs)
    {events : List LogEvent} (hok : AllSucceed maxFileSize fs events) :
    Durable maxFileSize fs [] events ↔ QuietBeforeMounts [] events :=
  durable_iff_of_fromMkfs (fromMkfs_mkfs h3 hn _ _ _ hmount).2 hok

/-- A device of zeros with eight blocks, after `mkfs`. -/
def sampleLog : LogFs where
  nblocks := 8
  nblocks_le := by decide
  blocks := mkfs (fun _ => 0) (fun _ => 0) (fun _ _ => 0)
  iSize := fileBody.length

/-- A write of the given bytes during which nothing fails. -/
def sampleWrite (buf : List UInt8) (h : buf.length ≤ maxRwCount) : WriteCall :=
  { buf := buf, buf_le := h, off := 0, io := { bread := fun _ => true, notCopied := fun _ => 0 } }

theorem sampleLog_mount :
    mountLog 8 (by decide) (mkfs (fun _ => 0) (fun _ => 0) (fun _ _ => 0)) = .ok sampleLog :=
  mount_mkfs (by decide) (by decide) _ _ _

/-- One byte is appended, the device is mounted again, and the byte is gone. -/
theorem append_lost_by_remount :
    mountLog 8 (by decide) (mkfs (fun _ => 0) (fun _ => 0) (fun _ _ => 0)) = .ok sampleLog ∧
    AllSucceed 8192 sampleLog [.write (sampleWrite [120] (by decide)), .remount] ∧
    ¬ Durable 8192 sampleLog [] [.write (sampleWrite [120] (by decide)), .remount] := by
  refine ⟨sampleLog_mount, ⟨rfl, fun _ _ => trivial⟩, ?_⟩
  rintro ⟨fs', hmount, hvis, _⟩
  have h := (fromMkfs_mkfs (by decide) _ _ _ _ sampleLog_mount).2
  obtain ⟨fs'', hmount', hvis', _⟩ := remount_visible (h.write _)
  obtain rfl := Except.ok.inj (hmount.symm.trans hmount')
  exact absurd (List.self_eq_append_right.mp (hvis'.symm.trans hvis)) (by decide)

/-- The two directions on that run: something has been appended before the mount. -/
theorem durable_iff_sample :
    Durable 8192 sampleLog [] [.write (sampleWrite [120] (by decide)), .remount] ↔
      QuietBeforeMounts [] [.write (sampleWrite [120] (by decide)), .remount] :=
  durable_iff (by decide) (by decide) sampleLog_mount ⟨rfl, fun _ _ => trivial⟩

end RefMonitor
