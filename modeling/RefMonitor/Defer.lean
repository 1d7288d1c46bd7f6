import RefMonitor.Hooks
import RefMonitor.SingleFs

/-!
# `reference_defer.c`: the record of a denied attempt

The entry handler of a denied attempt calls `defer_top_half` in the offender's context: it
notes who the offender is and the text of its program, and queues the work. The worker
thread runs `defer_bottom_half` later: it opens the program by that text, reads and hashes
it, prints one line and appends it to the log.

`defer_bottom_half` is cut where other threads can get between its parts: the program is
opened, then read and hashed, then the log is opened and written. Each early exit of the
source gives the work up without a line.

Results:
1. `deferTopHalf_queues`: a program text of less than `MAX_FILE_NAME` bytes is queued.
2. `deferBottomHalf_advance`: what each part of `defer_bottom_half` does when the program is
   still there and nothing fails.
-/

namespace RefMonitor
open CString

variable {δ : Type}

/-! ## The top half -/

/-- `current`, with what `defer_top_half` reads of it. -/
structure Thread (δ : Type) extends Task δ where
  tgid : UInt32
  pid : UInt32
  uid : UInt32
  /-- `get_task_mm(current)` and the `exe_file` in it. -/
  mm : Option (Option δ)
  /-- The local `dir`, not initialised. -/
  dir : List UInt8
  dir_length : dir.length = maxFileName

/-- `struct work_data`. -/
structure WorkData where
  tgid : UInt32
  tid : UInt32
  uid : UInt32
  euid : UInt32
  /-- A buffer of its own, for at most `MAX_FILE_NAME` bytes and a NUL. -/
  pathName : List UInt8
  pathName_le : pathName.length ≤ maxFileName + 1

/-- The buffer `kzalloc(path_len + 1)` with the text copied into it. -/
def copyPathName (pathName : List UInt8) : List UInt8 :=
  let pathLen := strnlen pathName maxFileName
  strncpy (List.replicate (pathLen + 1) 0) pathName pathLen

theorem length_copyPathName (pathName : List UInt8) :
    (copyPathName pathName).length ≤ maxFileName + 1 := by
  rw [copyPathName, length_strncpy (by simp), List.length_replicate]
  exact Nat.add_le_add_right (Nat.min_le_right ..) 1

/-- The work that is queued, if any. `dentry_path_raw` reports a text that does not fit by an
error pointer; the source compares it with `NULL` and reads it. The allocations are those
after the entry handler's. -/
def deferTopHalf (v : Vfs δ) (current : Thread δ) : Except Fault (Option WorkData) :=
  if !current.alloc 5 then .ok none
  else
    match current.mm with
    | none => .ok none
    | some none => .ok none
    | some (some exe) =>
      match v.dentryPathRaw exe current.dir with
      | none => .error .errPtr
      | some (dir, at_) =>
        if !current.alloc 6 then .ok none
        else .ok (some
          { tgid := current.tgid, tid := current.pid, uid := current.uid, euid := current.euid
            pathName := copyPathName (dir.drop at_)
            pathName_le := length_copyPathName _ })

theorem cstr_copyPathName {pathName : List UInt8} (h : strlen pathName ≤ maxFileName) :
    cstr (copyPathName pathName) = cstr pathName := by
  have hlen : strnlen pathName maxFileName = strlen pathName := Nat.min_eq_left h
  rw [copyPathName, hlen, ← padded_nil, strncpy_padded_nil (Nat.le_succ _)]
  exact cstr_padded (zero_notMem_cstr _) _

/-- What is known of a denied attempt: who made it, and the text of the program. -/
structure Denial where
  tgid : UInt32
  tid : UInt32
  uid : UInt32
  euid : UInt32
  program : List UInt8

/-- The thread and its program at this moment. -/
def Thread.denial (v : Vfs δ) (current : Thread δ) : Denial where
  tgid := current.tgid
  tid := current.pid
  uid := current.uid
  euid := current.euid
  program :=
    match current.mm with
    | some (some exe) => v.dPath exe
    | _ => []

def WorkData.denial (data : WorkData) : Denial where
  tgid := data.tgid
  tid := data.tid
  uid := data.uid
  euid := data.euid
  program := cstr data.pathName

theorem deferTopHalf_queues {v : Vfs δ} {current : Thread δ} {exe : δ}
    (halloc : ∀ k, current.alloc k = true) (hexe : current.mm = some (some exe))
    (hnul : (0 : UInt8) ∉ v.dPath exe) (hlt : (v.dPath exe).length < maxFileName) :
    ∃ data, deferTopHalf v current = .ok (some data) ∧ data.denial = current.denial v := by
  have hraw := dentryPathRaw_eq v exe current.dir (by rw [current.dir_length]; exact hlt)
  have htext := cstr_dentryPathRaw hnul hraw
  unfold deferTopHalf
  rw [halloc 5, hexe]
  dsimp only
  rw [hraw, halloc 6]
  refine ⟨_, rfl, ?_⟩
  simp only [WorkData.denial, Thread.denial, hexe]
  rw [cstr_copyPathName (by rw [strlen, htext]; exact Nat.le_of_lt hlt), htext]

/-! ## The line of a record -/

def comma : UInt8 := 44

/-- `%d` of a 32-bit integer. -/
def printD (n : UInt32) : List UInt8 :=
  let i := n.toBitVec.toInt
  let digits := (Nat.toDigits 10 i.natAbs).map fun c => UInt8.ofNat c.toNat
  if i < 0 then 45 :: digits else digits

/-- `"%d,%d,%d,%d,%s,%s\n"`. -/
def Denial.line (d : Denial) (hash : List UInt8) : List UInt8 :=
  printD d.tgid ++ comma :: printD d.tid ++ comma :: printD d.uid ++ comma :: printD d.euid ++
    comma :: d.program ++ comma :: hash ++ ascii "\n"

/-- What `sprintf` leaves in the buffer. -/
def sprintfRecord (data : WorkData) (ciphertext : List UInt8) : List UInt8 :=
  data.denial.line (cstr ciphertext) ++ [0]

theorem length_printD (n : UInt32) : (printD n).length ≤ 11 := by
  have habs : n.toBitVec.toInt.natAbs < 10 ^ 10 := by
    have hlo := BitVec.le_toInt n.toBitVec
    have hhi : n.toBitVec.toInt < 2 ^ (32 - 1) := BitVec.toInt_lt
    omega
  have hdigits : (Nat.toDigits 10 n.toBitVec.toInt.natAbs).length ≤ 10 :=
    (Nat.length_toDigits_le_iff (by decide) (by decide)).mpr habs
  unfold printD
  dsimp only
  split
  · rw [List.length_cons, List.length_map]
    omega
  · rw [List.length_map]
    omega

theorem digit_ne_zero {c : Char} (h : c.isDigit = true) : UInt8.ofNat c.toNat ≠ 0 := by
  simp only [Char.isDigit, Bool.and_eq_true, decide_eq_true_eq] at h
  have hlo : 48 ≤ c.toNat := h.1
  have hhi : c.toNat ≤ 57 := h.2
  intro h0
  have hmod : c.toNat % 2 ^ 8 = 0 := by
    rw [← UInt8.toNat_ofNat', h0]
    rfl
  omega

theorem zero_notMem_printD (n : UInt32) : (0 : UInt8) ∉ printD n := by
  have hdigits : (0 : UInt8) ∉
      (Nat.toDigits 10 n.toBitVec.toInt.natAbs).map fun c => UInt8.ofNat c.toNat := by
    intro h
    obtain ⟨c, hc, h0⟩ := List.mem_map.mp h
    exact digit_ne_zero (Nat.isDigit_of_mem_toDigits (by decide) (by decide) hc) h0
  unfold printD
  dsimp only
  split
  · intro h
    rcases List.mem_cons.mp h with h | h
    · exact absurd h (by decide)
    · exact hdigits h
  · exact hdigits

/-- The line ends where the buffer's string does: no field holds a NUL. -/
theorem cstr_sprintfRecord (data : WorkData) (ciphertext : List UInt8) :
    cstr (sprintfRecord data ciphertext) = data.denial.line (cstr ciphertext) := by
  have hcomma : (0 : UInt8) ≠ comma := by decide
  have hend : (0 : UInt8) ∉ ascii "\n" := by decide
  refine cstr_append_zero ?_ []
  simp only [Denial.line, WorkData.denial, List.mem_append, List.mem_cons, not_or]
  exact ⟨⟨⟨⟨⟨⟨zero_notMem_printD _, hcomma, zero_notMem_printD _⟩, hcomma,
    zero_notMem_printD _⟩, hcomma, zero_notMem_printD _⟩, hcomma, zero_notMem_cstr _⟩, hcomma,
    zero_notMem_cstr _⟩, hend⟩

/-- A record as `kernel_write` gets it. -/
structure Line where
  text : List UInt8
  text_le : text.length ≤ maxRwCount

theorem length_sprintfRecord {data : WorkData} {ciphertext : List UInt8}
    (h : strlen ciphertext = 128) : strlen (sprintfRecord data ciphertext) ≤ maxRwCount := by
  have hd := length_printD
  have h1 := hd data.tgid
  have h2 := hd data.tid
  have h3 := hd data.uid
  have h4 := hd data.euid
  have hpath : (cstr data.pathName).length ≤ maxFileName + 1 :=
    Nat.le_trans (strlen_le_length _) data.pathName_le
  rw [strlen] at h
  rw [strlen, cstr_sprintfRecord]
  simp only [Denial.line, WorkData.denial, List.length_append, List.length_cons, h, maxRwCount,
    maxFileName, show (ascii "\n").length = 1 from rfl] at hpath ⊢
  omega

/-! ## The bottom half -/

/-- The data of a regular file: its size, and what `kernel_read` of that many bytes gives. -/
structure FileData where
  iSize : Nat
  read : Except Errno (List UInt8)
  read_le : ∀ bytes, read = .ok bytes → bytes.length ≤ iSize

/-- The files at one moment: the namespace, the worker's root directory, the outcome of
opening an inode for reading and of opening `single_file_name` for writing, and the data. -/
structure Files (δ : Type) where
  vfs : Vfs δ
  text_nul : ∀ d, (0 : UInt8) ∉ vfs.dPath d
  root : δ
  mayOpen : Inode → Except Errno Unit
  openLog : Except Errno Unit
  data : Inode → FileData

/-- `filp_open(path_name, O_RDONLY, 0)` by the worker. -/
def Files.filpOpen (files : Files δ) (pathName : List UInt8) : Except Errno Inode :=
  match files.vfs.kernPath files.root (cstr pathName) with
  | .error e => .error e
  | .ok d =>
    match files.vfs.dInode d with
    | none => .error .enoent
    | some i => (files.mayOpen i).map fun _ => i

/-- Where the worker thread stands. -/
inductive Worker
  | idle
  | started (data : WorkData)
  | opened (data : WorkData) (file : Inode)
  | printed (line : Line) (pos : Nat)

/-- The outcome of the allocations of one run of `defer_bottom_half` and of the device. -/
structure WorkIo where
  alloc : Nat → Bool
  write : WriteIo

/-- `file_contents`: a fresh buffer with the bytes read and a NUL behind `i_size`. -/
def fileContents (env : Env) (iSize : Nat) (bytes : List UInt8) : List UInt8 :=
  writeAt (writeAt (env.kmalloc (iSize + 1)) 0 bytes) iSize [0]

/-- The line `sprintf` leaves in the buffer, up to its NUL. -/
def printRecord {env : Env} {contents ciphertext : List UInt8} (data : WorkData)
    (h : hashPlaintext env contents = some ciphertext) : Line where
  text := cstr (sprintfRecord data ciphertext)
  text_le := length_sprintfRecord (strlen_hashPlaintext h)

/-- The next part of `defer_bottom_half`. -/
def deferBottomHalf (env : Env) (maxFileSize : Nat) (files : Files δ) (io : WorkIo) (log : LogFs) :
    Worker → Worker × LogFs
  | .idle => (.idle, log)
  | .started data =>
    if !io.alloc 0 then (.idle, log)
    else
      match files.filpOpen data.pathName with
      | .error _ => (.idle, log)
      | .ok file => (.opened data file, log)
  | .opened data file =>
    if !io.alloc 1 then (.idle, log)
    else
      match (files.data file).read with
      | .error _ => (.idle, log)
      | .ok bytes =>
        match h : hashPlaintext env (fileContents env (files.data file).iSize bytes) with
        | none => (.idle, log)
        | some _ =>
          if !io.alloc 2 then (.idle, log)
          else (.printed (printRecord data h) bytes.length, log)
  | .printed line pos =>
    match files.openLog with
    | .error _ => (.idle, log)
    | .ok _ =>
      let call := { buf := line.text, buf_le := line.text_le, off := pos, io := io.write }
      (.idle, (onefilefsWrite maxFileSize log call).fs)

/-- The crypto API computes a digest of every text. -/
def Env.Hashes (env : Env) : Prop := ∀ text, env.sha512 text ≠ none

theorem Env.Hashes.hashPlaintext {env : Env} (h : env.Hashes) (text : List UInt8) :
    ∃ ciphertext, RefMonitor.hashPlaintext env text = some ciphertext := by
  unfold RefMonitor.hashPlaintext
  cases hs : env.sha512 (cstr (saltText env text)) with
  | none => exact absurd hs (h _)
  | some hash => exact ⟨_, rfl⟩

/-- No allocation fails, and the log can be opened, has room and its device works. -/
structure WorkIo.Works (io : WorkIo) (maxFileSize : Nat) (files : Files δ) (log : LogFs)
    (worker : Worker) : Prop where
  alloc : ∀ k, io.alloc k = true
  openLog : files.openLog = .ok ()
  room : ∀ line pos, worker = .printed line pos → log.Room maxFileSize line.text.length
  device : io.write.Works

/-- The program is there: the text the top half took opens a file, and that file can be read. -/
def Worker.ProgramKept (files : Files δ) : Worker → Prop
  | .started data => ∃ file, files.filpOpen data.pathName = .ok file
  | .opened _ file => ∃ bytes, (files.data file).read = .ok bytes
  | _ => True

/-- What one part of `defer_bottom_half` does when nothing fails. -/
inductive Worker.Advance (log : LogFs) : Worker → Worker × LogFs → Prop
  | idle : Advance log .idle (.idle, log)
  | opened {data : WorkData} (file : Inode) : Advance log (.started data) (.opened data file, log)
  | printed {data : WorkData} {file : Inode} (line : Line) (pos : Nat) (hash : List UInt8) :
      hash.length = 128 → line.text = data.denial.line hash →
      Advance log (.opened data file) (.printed line pos, log)
  | appended {line : Line} {pos : Nat} (log' : LogFs) : log'.visible = log.visible ++ line.text →
      log'.iSize ≤ lastPos → Advance log (.printed line pos) (.idle, log')

theorem deferBottomHalf_advance {env : Env} {maxFileSize : Nat} {files : Files δ} {io : WorkIo}
    {log : LogFs} {worker : Worker} (hcrypto : env.Hashes) (hpos : log.iSize ≤ lastPos)
    (hio : io.Works maxFileSize files log worker) (hkept : worker.ProgramKept files) :
    worker.Advance log (deferBottomHalf env maxFileSize files io log worker) := by
  cases worker with
  | idle => exact .idle
  | started data =>
    obtain ⟨file, hopen⟩ := hkept
    simp only [deferBottomHalf, hio.alloc, hopen, Bool.not_true, Bool.false_eq_true, if_false]
    exact .opened file
  | opened data file =>
    obtain ⟨bytes, hread⟩ := hkept
    simp only [deferBottomHalf, hio.alloc, hread, Bool.not_true, Bool.false_eq_true, if_false]
    obtain ⟨ciphertext, hhash⟩ := hcrypto.hashPlaintext
      (fileContents env (files.data file).iSize bytes)
    split
    · next hnone => exact absurd (hnone.symm.trans hhash) (by simp)
    · next digest hsome =>
      exact .printed _ _ (cstr digest) (strlen_hashPlaintext hsome) (cstr_sprintfRecord ..)
  | printed line pos =>
    simp only [deferBottomHalf, hio.openLog]
    obtain ⟨hvis, hle⟩ := @onefilefsWrite_works maxFileSize log
      { buf := line.text, buf_le := line.text_le, off := pos, io := io.write }
      hpos (hio.room line pos rfl) hio.device
    exact .appended _ hvis hle

end RefMonitor
