import RefMonitor.Durability
import RefMonitor.DeviceLimit
import RefMonitor.FileRead

/-!
# Reading the log while it is written

Processes open the log and read it, as `cat` and `tail -f` do, while writers append to it. A read
is `read(2)`, at `f_pos`; it runs under `lock_log` from its first line to its last, so it is one
step, and waits while a writer is inside. The steps of the writers are those of `LogWriters`, one
block at a time. A call may be made through a file that is also read: then its end sets `f_pos` to
the end of what it wrote. The other file operations of the log are here too: `onefilefs_open`
refuses `O_TRUNC`, and `onefilefs_llseek` answers the position and moves nothing. So the position
of an open file is what the reads through it have made of it since it was opened or last written
through.

Results:
1. `onefilefsRead_reads`: what one read delivers, at any position in the file.
2. `FollowInv.step`: the position and the transcript of every open file are kept in step with the
   log by every step of every thread.
3. `transcript_isPrefix`: at every moment, what a process has read is a piece of the log, from the
   beginning or from the end of a write.
4. `followed_whole`: a read that returns 0 says that the process has read the log from there to
   its end.
-/

namespace RefMonitor
open PagedStore Reader

/-! ## The file operations -/

def oTrunc : Nat := 0o1000

/-- `onefilefs_open`. -/
def onefilefsOpen (fFlags : Nat) : Int := if fFlags &&& oTrunc ≠ 0 then fail .einval else 0

/-- An open file: `f_pos`, and what the reads through it have returned since it was opened or last
written through, when `f_pos` was `start`. -/
structure LogFile where
  start : Nat
  fPos : Nat
  got : List UInt8

def LogFile.opened : LogFile := { start := 0, fPos := 0, got := [] }

/-- `onefilefs_llseek` returns the position, whatever is asked for. -/
def onefilefsLlseek (file : LogFile) (_offset : Int) (_whence : Nat) : Int := file.fPos

/-- A `read` through an open file. A call that fails returns no bytes. -/
def LogFile.read (fs : LogFs) (file : LogFile) (call : FileReadCall) : LogFile :=
  let r := onefilefsRead fs file.fPos call
  { file with fPos := r.off, got := if r.res < 0 then file.got else file.got ++ r.bytes }

/-- A `write` through an open file has its result. A call that fails leaves `f_pos`. -/
def LogFile.written (file : LogFile) (r : WriteResult) : LogFile :=
  if r.res < 0 then file else { start := r.off, fPos := r.off, got := [] }

/-! ## The system -/

structure Followed (τ ρ : Type) where
  writers : Writers τ
  /-- The open files. -/
  files : ρ → Option LogFile

/-- A thread writes through one of the open files, or through a file that nobody reads. -/
inductive FollowEvent (τ ρ : Type)
  | write (thread : τ) (file : Option ρ)
  | openFile (file : ρ) (fFlags : Nat)
  | read (file : ρ) (call : FileReadCall)
  | llseek (file : ρ) (offset : Int) (whence : Nat)
  | release (file : ρ)

variable {τ ρ : Type} [DecidableEq τ] [DecidableEq ρ]

def Followed.setFile (p : Followed τ ρ) (f : ρ) (file : Option LogFile) : Followed τ ρ :=
  { p with files := Function.update p.files f file }

/-- The result of the call that thread `t` is in, when the next step of `t` decides it. -/
def Writers.decides (maxFileSize : Nat) (w : Writers τ) (t : τ) : Option WriteResult :=
  match w.phase t with
  | .entered call =>
    if exceedsMax maxFileSize w.fs.iSize call.buf.length then
      some { res := fail .efbig, off := call.off, fs := w.fs }
    else none
  | .looping call pos k rest =>
    if rest = [] then some (closeWrite call (w.fs, .ok pos))
    else
      match writeBlock w.fs call.io pos k rest with
      | (fs, .error e) => some (closeWrite call (fs, .error e))
      | (_, .ok _) => none
  | _ => none

/-- A read waits while `lock_log` is held. The kernel keeps other calls through a file out while
one is made through it, so the position is set with the result. -/
def Followed.step (maxFileSize : Nat) (p : Followed τ ρ) : FollowEvent τ ρ → Followed τ ρ
  | .write t through =>
    let p' : Followed τ ρ := { p with writers := p.writers.step maxFileSize t }
    match p.writers.decides maxFileSize t, through with
    | some r, some f => p'.setFile f ((p.files f).map fun file => file.written r)
    | _, _ => p'
  | .openFile f fFlags =>
    if onefilefsOpen fFlags = 0 then p.setFile f (some .opened) else p
  | .read f call =>
    match p.files f with
    | some file =>
      if p.writers.lockLog = none then p.setFile f (some (file.read p.writers.fs call)) else p
    | none => p
  | .llseek .. => p
  | .release f => p.setFile f none

def Followed.run (maxFileSize : Nat) (p : Followed τ ρ) (events : List (FollowEvent τ ρ)) :
    Followed τ ρ :=
  events.foldl (Followed.step maxFileSize) p

/-! ## One read -/

/-- A request is clipped at the end of the file and of the block, also when it asks for nothing. -/
theorem clippedLen_inside {fileSize off len : Nat} (hoff : off < fileSize)
    (hfit : off + len < 2 ^ 64) :
    off + clippedLen fileSize off len ≤ fileSize ∧
      off % blockSize + clippedLen fileSize off len ≤ blockSize := by
  cases len with
  | zero =>
    have hmod : off % blockSize < blockSize := Nat.mod_lt _ (by decide)
    have hzero : clippedLen fileSize off 0 = 0 := by
      unfold clippedLen
      rw [Nat.mod_eq_of_lt hfit]
      dsimp only
      have hend : ¬ fileSize < off + 0 := Nat.not_lt.mpr (Nat.le_of_lt hoff)
      rw [if_neg hend, Nat.add_zero, if_neg (Nat.not_lt.mpr (Nat.le_of_lt hmod))]
    rw [hzero]
    exact ⟨Nat.le_of_lt hoff, Nat.le_of_lt hmod⟩
  | succ len => exact (clippedLen_spec hoff (Nat.succ_pos len) hfit).2.2

/-- A read that does not fail has found its block and copied all of its piece. -/
theorem onefilefsRead_success {fs : LogFs} {off : Nat} (hoff : off < fs.iSize) (call : FileReadCall)
    (hres : 0 ≤ (onefilefsRead fs off call).res) :
    blockNumber off < fs.nblocks ∧ onefilefsRead fs off call =
      { res := clippedLen fs.iSize off call.len, off := off + clippedLen fs.iSize off call.len,
        bytes := blockBytes fs (blockNumber off) (off % blockSize)
          (clippedLen fs.iSize off call.len) } := by
  unfold onefilefsRead at hres ⊢
  dsimp only at hres ⊢
  rw [if_neg (by omega), if_neg (by omega)] at hres ⊢
  split at hres
  · exact absurd hres (Int.not_le.mpr (fail_neg _))
  · next hread =>
    rw [if_neg hread]
    simp only [Bool.not_eq_true, Bool.not_eq_false', Bool.and_eq_true, decide_eq_true_eq] at hread
    refine ⟨hread.2, ?_⟩
    split at hres
    · exact absurd hres (Int.not_le.mpr (fail_neg _))
    · next hret =>
      rw [if_neg hret, not_not.mp hret, Nat.sub_zero,
        List.take_of_length_le (by rw [length_blockBytes])]

/-- What a read at a position in the file returns is a piece of the file there, and the position
moves behind it; a read that fails moves nothing. -/
theorem onefilefsRead_reads {fs : LogFs} {off : Nat} (hsize : fs.iSize ≤ lastPos)
    (hoff : off ≤ fs.iSize) (call : FileReadCall) (hres : 0 ≤ (onefilefsRead fs off call).res) :
    (onefilefsRead fs off call).bytes <+: fs.visible.drop off ∧
      (onefilefsRead fs off call).off = off + (onefilefsRead fs off call).bytes.length := by
  rcases Nat.eq_or_lt_of_le hoff with rfl | hlt
  · rw [onefilefsRead_end (le_refl _)]
    exact ⟨List.nil_prefix, rfl⟩
  · have hnum : blockNumber off = 2 + off / blockSize := by
      refine blockNumber_of_lt (Nat.div_lt_of_lt_mul ?_)
      rw [Nat.mul_comm]
      exact Nat.lt_of_lt_of_le hlt hsize
    have hfit : off + call.len < 2 ^ 64 := by
      have hmax := call.len_le
      have hlast : lastPos < 2 ^ 44 := by decide
      have hrw : maxRwCount < 2 ^ 31 := by decide
      omega
    obtain ⟨hend, hinside⟩ := clippedLen_inside hlt hfit
    obtain ⟨_, hread⟩ := onefilefsRead_success hlt call hres
    rw [hread, hnum]
    dsimp only
    rw [length_blockBytes, blockBytes_eq_segment hinside]
    exact ⟨segment_isPrefix hend, rfl⟩

/-! ## The file stays on the device -/

theorem holdsFile_iff (fs : LogFs) :
    fs.HoldsFile ↔ fs.iSize ≤ (fs.nblocks - 2) * blockSize := by
  constructor
  · intro h
    cases hsize : fs.iSize with
    | zero => exact Nat.zero_le _
    | succ n =>
      have hlast := h n (by rw [hsize]; exact Nat.lt_succ_self n)
      have hdiv : n / blockSize < fs.nblocks - 2 := by omega
      exact (Nat.div_lt_iff_lt_mul (by decide)).mp hdiv
  · intro h pos hpos
    have hdiv : pos / blockSize < fs.nblocks - 2 :=
      (Nat.div_lt_iff_lt_mul (by decide)).mpr (Nat.lt_of_lt_of_le hpos h)
    exact Nat.add_lt_of_lt_sub' hdiv

/-- A block that was written ends on the device. -/
theorem writeBlock_room {fs fs' : LogFs} {io : WriteIo} {pos k n : Nat} {rest : List UInt8}
    (hpos : pos ≤ lastPos) (h : writeBlock fs io pos k rest = (fs', .ok n)) :
    fs'.nblocks = fs.nblocks ∧ pos + n ≤ (fs.nblocks - 2) * blockSize := by
  obtain ⟨hn, hsame⟩ := writeBlock_ok h
  refine ⟨hsame, ?_⟩
  unfold writeBlock at h
  dsimp only at h
  split at h
  · cases h
  · next hread =>
    simp only [Bool.not_eq_true, Bool.not_eq_false', Bool.and_eq_true, decide_eq_true_eq] at hread
    obtain ⟨hblock, _⟩ := blockNumber_eq hpos fs.nblocks_le hread.2
    rw [hblock] at hread
    have hend : pos + n ≤ (pos / blockSize + 1) * blockSize := by
      have hdiv := Nat.div_add_mod pos blockSize
      have hmod : pos % blockSize < blockSize := Nat.mod_lt _ (by decide)
      rw [Nat.add_mul, Nat.one_mul, Nat.mul_comm, hn]
      omega
    exact Nat.le_trans hend (Nat.mul_le_mul_right _ (by omega))

/-- So does everything the loop writes. -/
theorem writeLoop_room {fs₀ : LogFs} {buf : List UInt8} (io : WriteIo) {rounds : Nat} :
    ∀ {fs fs' : LogFs} {pos pos' k : Nat} {rest : List UInt8}, Writing fs₀ buf fs pos rest →
      pos ≤ (fs.nblocks - 2) * blockSize →
      writeLoop io rounds fs pos k rest = (fs', .ok pos') →
      pos' ≤ (fs.nblocks - 2) * blockSize := by
  induction rounds with
  | zero =>
    intro fs fs' pos pos' k rest _ hroom hloop
    cases hloop
    exact hroom
  | succ rounds ih =>
    intro fs fs' pos pos' k rest h hroom hloop
    rw [writeLoop] at hloop
    split at hloop
    · cases hloop
      exact hroom
    · next hne =>
      rcases writeBlock_spec h hne io k with ⟨_, _, hw, _, _⟩ | ⟨fs₁, n, hw, _, h'⟩
      · rw [hw] at hloop
        cases hloop
      · rw [hw] at hloop
        obtain ⟨hsame, hroom'⟩ := writeBlock_room h.position hw
        have hlater := ih h' (by rw [hsame]; exact hroom') hloop
        rwa [hsame] at hlater

/-- No write makes the file longer than the device. -/
theorem onefilefsWrite_holdsFile {maxFileSize : Nat} {fs : LogFs} (hpos : fs.iSize ≤ lastPos)
    (hdev : fs.HoldsFile) (call : WriteCall) : (onefilefsWrite maxFileSize fs call).fs.HoldsFile := by
  rw [holdsFile_iff, onefilefsWrite_nblocks hpos call]
  rw [holdsFile_iff] at hdev
  unfold onefilefsWrite
  split
  · exact hdev
  · cases hloop : writeLoop call.io call.buf.length fs fs.iSize 0 call.buf with
    | mk fs' out =>
      have hspec := writeLoop_spec call.io (k := 0) (Writing.start hpos call.buf) (le_refl _)
      rw [hloop] at hspec
      rcases hspec with ⟨_, e, heq, _, hs⟩ | ⟨_, heq, h'⟩
      · cases heq
        show fs'.iSize ≤ _
        rw [hs.iSize]
        exact hdev
      · cases heq
        have hroom := writeLoop_room call.io (Writing.start hpos call.buf) hdev hloop
        show max _ fs'.iSize ≤ _
        rw [h'.same.iSize]
        exact Nat.max_le.mpr ⟨hroom, hdev⟩

theorem writeAll_holdsFile {maxFileSize : Nat} (calls : List WriteCall) :
    ∀ {fs : LogFs}, fs.iSize ≤ lastPos → fs.HoldsFile →
      (writeAll maxFileSize fs calls).1.HoldsFile := by
  induction calls with
  | nil => exact fun _ hdev => hdev
  | cons call calls ih =>
    intro fs hpos hdev
    have hspec := @onefilefsWrite_spec maxFileSize fs hpos call
    exact ih (hspec.lastPos hpos) (onefilefsWrite_holdsFile hpos hdev call)

/-! ## The end of a write -/

/-- The step that decides a result finishes the call, and every other step finishes none. -/
theorem step_decides (maxFileSize : Nat) (w : Writers τ) (t : τ) :
    (∃ call r, w.decides maxFileSize t = some r ∧ w.step maxFileSize t = w.finish t call r) ∨
      (w.decides maxFileSize t = none ∧ (w.step maxFileSize t).finished = w.finished) := by
  unfold Writers.decides Writers.step
  cases w.phase t with
  | outside =>
    right
    refine ⟨rfl, ?_⟩
    dsimp only
    split
    · rfl
    · split <;> rfl
  | waiting call =>
    right
    refine ⟨rfl, ?_⟩
    dsimp only
    split <;> rfl
  | entered call =>
    dsimp only
    split
    · exact .inl ⟨call, _, rfl, rfl⟩
    · exact .inr ⟨rfl, rfl⟩
  | looping call pos k rest =>
    dsimp only
    split
    · exact .inl ⟨call, _, rfl, rfl⟩
    · cases writeBlock w.fs call.io pos k rest with
      | mk fs out =>
        cases out with
        | error e => exact .inl ⟨call, _, rfl, rfl⟩
        | ok n => exact .inr ⟨rfl, rfl⟩
  | unlockInode => exact .inr ⟨rfl, rfl⟩
  | unlockLog => exact .inr ⟨rfl, rfl⟩

/-- A step finishes at most one call, after those that have finished. -/
theorem step_finished (maxFileSize : Nat) (w : Writers τ) (t : τ) :
    w.finished <+: (w.step maxFileSize t).finished := by
  rcases step_decides maxFileSize w t with ⟨call, r, -, hstep⟩ | ⟨-, hsame⟩
  · rw [hstep]
    exact List.prefix_append ..
  · rw [hsame]

omit [DecidableEq τ] in
/-- A write that succeeds leaves the position at the end of the file. -/
theorem Consistent.decides_off {maxFileSize : Nat} {init base : LogFs} {w : Writers τ} {t : τ}
    {r : WriteResult} (h : Consistent maxFileSize init base w)
    (hr : w.decides maxFileSize t = some r) (hres : 0 ≤ r.res) : r.off = r.fs.iSize := by
  unfold Writers.decides at hr
  cases hp : w.phase t with
  | entered call =>
    rw [hp] at hr
    dsimp only at hr
    split at hr
    · cases hr
      exact absurd hres (Int.not_le.mpr (fail_neg _))
    · cases hr
  | looping call pos k rest =>
    have hprog := (h.holder t (by rw [hp]; simp)).2
    rw [hp] at hprog hr
    obtain ⟨-, hwriting, -⟩ := hprog
    dsimp only at hr
    split at hr
    · cases hr
      obtain ⟨done, -, hpos, -⟩ := hwriting.written
      show pos = max pos w.fs.iSize
      rw [hwriting.same.iSize, hpos]
      exact (Nat.max_eq_left (Nat.le_add_right _ _)).symm
    · split at hr
      · cases hr
        exact absurd hres (Int.not_le.mpr (fail_neg _))
      · cases hr
  | _ =>
    rw [hp] at hr
    cases hr

/-! ## The invariant -/

/-- The transcript of an open file is the log from `start` up to the position. -/
structure LogFile.InStep (fs : LogFs) (file : LogFile) : Prop where
  behind : file.start ≤ file.fPos
  inside : file.fPos ≤ fs.iSize
  piece : file.got = (fs.visible.take file.fPos).drop file.start

theorem LogFile.inStep_opened (fs : LogFs) : LogFile.opened.InStep fs :=
  ⟨le_refl _, Nat.zero_le _, rfl⟩

theorem LogFile.InStep.read {fs : LogFs} {file : LogFile} (h : file.InStep fs)
    (hsize : fs.iSize ≤ lastPos) (call : FileReadCall) : (file.read fs call).InStep fs := by
  rcases Int.lt_or_le (onefilefsRead fs file.fPos call).res 0 with hneg | hres
  · have hstay : file.read fs call = file := by
      show LogFile.mk file.start (onefilefsRead fs file.fPos call).off _ = file
      rw [onefilefsRead_failing fs file.fPos call hneg, if_pos hneg]
    rw [hstay]
    exact h
  · obtain ⟨hpiece, hmoved⟩ := onefilefsRead_reads hsize h.inside call hres
    have hread : file.read fs call =
        { file with
          fPos := file.fPos + (onefilefsRead fs file.fPos call).bytes.length
          got := file.got ++ (onefilefsRead fs file.fPos call).bytes } := by
      show LogFile.mk file.start (onefilefsRead fs file.fPos call).off _ = _
      rw [hmoved, if_neg (Int.not_lt.mpr hres)]
    have hlen := hpiece.length_le
    rw [List.length_drop, length_visible] at hlen
    rw [hread]
    refine ⟨Nat.le_add_right_of_le h.behind, ?_, ?_⟩
    · have hinside := h.inside
      show file.fPos + _ ≤ fs.iSize
      omega
    · have hstart : file.start ≤ (fs.visible.take file.fPos).length := by
        rw [List.length_take, length_visible]
        exact le_min h.behind (Nat.le_trans h.behind h.inside)
      show file.got ++ _ = (fs.visible.take _).drop file.start
      rw [h.piece, ← List.drop_append_of_le_length hstart, take_append_piece hpiece]

/-- A longer log has the same beginning. -/
theorem LogFile.InStep.grow {fs fs' : LogFs} {file : LogFile} (h : file.InStep fs)
    (hgrow : fs.visible <+: fs'.visible) : file.InStep fs' := by
  obtain ⟨more, hmore⟩ := hgrow
  have hlen := congrArg List.length hmore
  rw [List.length_append, length_visible, length_visible] at hlen
  refine ⟨h.behind, Nat.le_trans h.inside (by omega), ?_⟩
  rw [h.piece, ← hmore, List.take_append_of_le_length (by rw [length_visible]; exact h.inside)]

/-- After a write, the file stands at the end of the log and nothing is read yet. -/
theorem LogFile.InStep.written {fs : LogFs} {file : LogFile} (h : file.InStep fs)
    {r : WriteResult} (hoff : 0 ≤ r.res → r.off = fs.iSize) : (file.written r).InStep fs := by
  unfold LogFile.written
  split
  · exact h
  · next hres =>
    rw [hoff (Int.not_lt.mp hres)]
    refine ⟨le_refl _, le_refl _, ?_⟩
    exact (List.drop_eq_nil_of_le (List.length_take_le ..)).symm

/-- What is read from a start: what has been read of it ends at the position. -/
theorem LogFile.InStep.length {fs : LogFs} {file : LogFile} (h : file.InStep fs) :
    file.fPos = file.start + file.got.length := by
  rw [h.piece, List.length_drop, List.length_take, length_visible, Nat.min_eq_left h.inside,
    Nat.add_sub_cancel' h.behind]

/-- An open file after one place of the table has changed is the new one or an old one. -/
theorem update_eq_some {files : ρ → Option LogFile} {f f' : ρ} {new : Option LogFile}
    {file : LogFile} (h : Function.update files f new f' = some file) :
    (f' = f ∧ new = some file) ∨ files f' = some file := by
  rcases eq_or_ne f' f with rfl | hne
  · rw [Function.update_self] at h
    exact .inl ⟨rfl, h⟩
  · rw [Function.update_of_ne hne] at h
    exact .inr h

/-- A transcript starts at the beginning of the log, or where it ended after some of the writes. -/
def Begins (init : LogFs) (finished : List (WriteCall × Int)) (start : Nat) : Prop :=
  start = 0 ∨ ∃ before, before <+: finished ∧
    start = (init.visible ++ appended before).length

theorem Begins.grow {init : LogFs} {finished finished' : List (WriteCall × Int)} {start : Nat}
    (h : Begins init finished start) (hgrow : finished <+: finished') :
    Begins init finished' start := by
  rcases h with hzero | ⟨before, hbefore, hstart⟩
  · exact .inl hzero
  · exact .inr ⟨before, hbefore.trans hgrow, hstart⟩

/-- The writers are somewhere in a run from `init`, and all open files are in step with the log. -/
structure FollowInv (maxFileSize : Nat) (init : LogFs) (p : Followed τ ρ) : Prop where
  writers : ∃ base, Consistent maxFileSize init base p.writers
  files : ∀ f file, p.files f = some file →
    Begins init p.writers.finished file.start ∧ file.InStep p.writers.fs

section

variable {maxFileSize : Nat} {init : LogFs} {p : Followed τ ρ}

omit [DecidableEq τ] in
theorem Consistent.log {w : Writers τ} {base : LogFs} (hinit : init.iSize ≤ lastPos)
    (h : Consistent maxFileSize init base w) :
    w.fs.visible = init.visible ++ appended w.finished ∧ w.fs.iSize ≤ lastPos := by
  have happ := writeAll_appended hinit h.sequential
  refine ⟨h.sameLog.visible.trans happ.visible, ?_⟩
  rw [h.sameLog.iSize]
  exact h.position

omit [DecidableEq τ] in
theorem FollowInv.setFile (h : FollowInv maxFileSize init p) {f : ρ} {file : Option LogFile}
    (hfile : ∀ x, file = some x →
      Begins init p.writers.finished x.start ∧ x.InStep p.writers.fs) :
    FollowInv maxFileSize init (p.setFile f file) := by
  refine ⟨h.writers, ?_⟩
  intro f' file' hf'
  rcases update_eq_some hf' with ⟨-, hnew⟩ | hold
  · exact hfile file' hnew
  · exact h.files f' file' hold

omit [DecidableEq ρ] in
/-- The log that a writer's step leaves starts with the log before it. -/
theorem FollowInv.writerStep (hinit : init.iSize ≤ lastPos) (h : FollowInv maxFileSize init p)
    (t : τ) : FollowInv maxFileSize init { p with writers := p.writers.step maxFileSize t } := by
  obtain ⟨base, hbase⟩ := h.writers
  obtain ⟨base', hbase'⟩ := hbase.step t
  have hmore := step_finished maxFileSize p.writers t
  refine ⟨⟨base', hbase'⟩, fun f file hf => ⟨(h.files f file hf).1.grow hmore,
    (h.files f file hf).2.grow ?_⟩⟩
  show p.writers.fs.visible <+: (p.writers.step maxFileSize t).fs.visible
  obtain ⟨more, hmore⟩ := hmore
  rw [(hbase.log hinit).1, (hbase'.log hinit).1, ← hmore]
  refine ⟨appended more, ?_⟩
  rw [List.append_assoc, appended, appended, appended, List.flatMap_append]

omit [DecidableEq ρ] in
/-- The call made through an open file has its result: the file is at the end of the log. -/
theorem FollowInv.writeThrough (hinit : init.iSize ≤ lastPos) (h : FollowInv maxFileSize init p)
    {t : τ} {r : WriteResult} (hr : p.writers.decides maxFileSize t = some r) {file : LogFile}
    (hfile : Begins init (p.writers.step maxFileSize t).finished file.start ∧
      file.InStep (p.writers.step maxFileSize t).fs) :
    Begins init (p.writers.step maxFileSize t).finished (file.written r).start ∧
      (file.written r).InStep (p.writers.step maxFileSize t).fs := by
  obtain ⟨base, hbase⟩ := h.writers
  obtain ⟨base', hbase'⟩ := hbase.step t
  have hoff : 0 ≤ r.res → r.off = (p.writers.step maxFileSize t).fs.iSize := by
    intro hres
    rcases step_decides maxFileSize p.writers t with ⟨call, r', hr', hstep⟩ | ⟨hnone, -⟩
    · cases hr.symm.trans hr'
      rw [hstep]
      exact hbase.decides_off hr hres
    · rw [hnone] at hr
      cases hr
  refine ⟨?_, hfile.2.written hoff⟩
  unfold LogFile.written
  split
  · exact hfile.1
  · next hres =>
    refine .inr ⟨_, List.prefix_rfl, ?_⟩
    rw [← (hbase'.log hinit).1, length_visible]
    exact hoff (Int.not_lt.mp hres)

/-- Every step of every thread keeps the open files in step with the log. -/
theorem FollowInv.step (hinit : init.iSize ≤ lastPos) (h : FollowInv maxFileSize init p)
    (e : FollowEvent τ ρ) : FollowInv maxFileSize init (p.step maxFileSize e) := by
  cases e with
  | write t through =>
    have hnext := h.writerStep hinit t
    unfold Followed.step
    dsimp only
    split
    · next r f hr =>
      refine hnext.setFile fun x hx => ?_
      obtain ⟨file, hf, rfl⟩ := Option.map_eq_some_iff.mp hx
      exact h.writeThrough hinit hr (hnext.files f file hf)
    · exact hnext
  | openFile f fFlags =>
    rw [Followed.step]
    split
    · refine h.setFile fun x hx => ?_
      cases hx
      exact ⟨.inl rfl, LogFile.inStep_opened _⟩
    · exact h
  | read f call =>
    obtain ⟨base, hbase⟩ := h.writers
    rw [Followed.step]
    split
    · next file hf =>
      split
      · refine h.setFile fun x hx => ?_
        cases hx
        exact ⟨(h.files f file hf).1, (h.files f file hf).2.read (hbase.log hinit).2 call⟩
      · exact h
    · exact h
  | llseek f offset whence => exact h
  | release f =>
    refine h.setFile fun x hx => ?_
    cases hx

theorem FollowInv.run (hinit : init.iSize ≤ lastPos) (events : List (FollowEvent τ ρ)) :
    ∀ {p : Followed τ ρ}, FollowInv maxFileSize init p →
      FollowInv maxFileSize init (p.run maxFileSize events) := by
  induction events with
  | nil => exact fun h => h
  | cons e events ih => exact fun h => ih (h.step hinit e)

end

/-- Nobody is inside the file system and no file is open. -/
structure Followed.Idle (p : Followed τ ρ) : Prop where
  writers : p.writers.Idle
  files : ∀ f, p.files f = none

omit [DecidableEq τ] [DecidableEq ρ] in
theorem Followed.Idle.inv {maxFileSize : Nat} {p : Followed τ ρ} (h : p.Idle)
    (hsize : p.writers.fs.iSize ≤ lastPos) : FollowInv maxFileSize p.writers.fs p := by
  have hidle := h.writers
  refine ⟨⟨p.writers.fs, hsize, by rw [hidle.finished]; rfl, fun _ => rfl, ?_, ?_, ?_⟩, ?_⟩
  · exact fun t ht => absurd (hidle.phase t) ht
  · exact fun t ht => absurd (hidle.lockLog.symm.trans ht) (by simp)
  · intro t
    rw [hidle.inodeLock, hidle.phase t]
    exact ⟨fun hs => absurd hs (by simp), fun hf => hf.elim⟩
  · intro f file hf
    rw [h.files f] at hf
    cases hf

/-! ## Files that are only read -/

/-- The transcript of an open file starts at the beginning of the log. -/
def Followed.FromStart (p : Followed τ ρ) (f : ρ) : Prop :=
  ∀ file, p.files f = some file → file.start = 0

section

variable {maxFileSize : Nat} {p : Followed τ ρ} {f : ρ}

omit [DecidableEq τ] in
theorem Followed.FromStart.setFile (h : p.FromStart f) {f' : ρ} {file : Option LogFile}
    (hfile : f' = f → ∀ x, file = some x → x.start = 0) : (p.setFile f' file).FromStart f := by
  intro x hx
  rcases update_eq_some hx with ⟨rfl, hnew⟩ | hold
  · exact hfile rfl x hnew
  · exact h x hold

/-- Only a write through the file moves the start. -/
theorem Followed.FromStart.step (h : p.FromStart f) {e : FollowEvent τ ρ}
    (he : ∀ t, e ≠ .write t (some f)) : (p.step maxFileSize e).FromStart f := by
  cases e with
  | write t through =>
    have hnext : Followed.FromStart { p with writers := p.writers.step maxFileSize t } f := h
    unfold Followed.step
    dsimp only
    split
    · exact hnext.setFile fun heq => absurd (by rw [heq]) (he t)
    · exact hnext
  | openFile f' fFlags =>
    rw [Followed.step]
    split
    · refine h.setFile fun _ x hx => ?_
      cases hx
      rfl
    · exact h
  | read f' call =>
    rw [Followed.step]
    split
    · next file hf =>
      split
      · refine h.setFile fun heq x hx => ?_
        cases hx
        exact h file (heq ▸ hf)
      · exact h
    · exact h
  | llseek f' offset whence => exact h
  | release f' =>
    refine h.setFile fun _ x hx => ?_
    cases hx

theorem Followed.FromStart.run (events : List (FollowEvent τ ρ))
    (hevents : ∀ t, .write t (some f) ∉ events) :
    ∀ {p : Followed τ ρ}, p.FromStart f → (p.run maxFileSize events).FromStart f := by
  induction events with
  | nil => exact fun h => h
  | cons e events ih =>
    intro p h
    refine ih (fun t ht => hevents t (List.mem_cons_of_mem _ ht)) (h.step fun t heq => ?_)
    exact hevents t (heq ▸ List.mem_cons_self)

end

/-! ## What a process reads -/

section

variable {maxFileSize : Nat} {p : Followed τ ρ} {f : ρ} {file : LogFile}

/-- At every moment of every run of writers and readers, what a process has read through an open
file is a piece of what the log was at first and the writes that have finished since, and
`onefilefs_llseek` answers where it ends. It starts at the beginning of the log, when nobody writes
through the file, or where the log ended after one of the writes. -/
theorem transcript_isPrefix (hidle : p.Idle) (hsize : p.writers.fs.iSize ≤ lastPos)
    (events : List (FollowEvent τ ρ)) (hf : (p.run maxFileSize events).files f = some file) :
    file.got <+: (p.writers.fs.visible ++
        appended (p.run maxFileSize events).writers.finished).drop file.start ∧
      (∀ offset whence, onefilefsLlseek file offset whence =
        ((file.start + file.got.length : Nat) : Int)) ∧
      Begins p.writers.fs (p.run maxFileSize events).writers.finished file.start ∧
      ((∀ t, .write t (some f) ∉ events) → file.start = 0) := by
  have hinv : FollowInv maxFileSize p.writers.fs (p.run maxFileSize events) :=
    FollowInv.run hsize events (hidle.inv hsize)
  obtain ⟨base, hbase⟩ := hinv.writers
  obtain ⟨hbegins, hin⟩ := hinv.files f file hf
  refine ⟨?_, fun offset whence => congrArg Int.ofNat hin.length, hbegins, fun hevents => ?_⟩
  · rw [← (hbase.log hsize).1, hin.piece]
    exact (List.take_prefix _ _).drop _
  · refine Followed.FromStart.run events hevents (p := p) (fun x hx => ?_) file hf
    rw [hidle.files f] at hx
    cases hx

/-- A read that the kernel services serve returns 0 exactly when the process has read all that
has been written, from where it started. -/
theorem followed_whole (hidle : p.Idle) (hsize : p.writers.fs.iSize ≤ lastPos)
    (hdev : p.writers.fs.HoldsFile) (events : List (FollowEvent τ ρ))
    (hf : (p.run maxFileSize events).files f = some file) {call : FileReadCall} (hlen : 0 < call.len)
    (hio : call.io.Works) :
    (onefilefsRead (p.run maxFileSize events).writers.fs file.fPos call).res = 0 ↔
      file.got = (p.writers.fs.visible ++
        appended (p.run maxFileSize events).writers.finished).drop file.start := by
  have hinv : FollowInv maxFileSize p.writers.fs (p.run maxFileSize events) :=
    FollowInv.run hsize events (hidle.inv hsize)
  obtain ⟨base, hbase⟩ := hinv.writers
  obtain ⟨hlog, hlast⟩ := hbase.log hsize
  obtain ⟨-, hin⟩ := hinv.files f file hf
  have hholds : (p.run maxFileSize events).writers.fs.HoldsFile := by
    have hb : base.HoldsFile := by
      have h := @writeAll_holdsFile maxFileSize
        ((p.run maxFileSize events).writers.finished.map Prod.fst) p.writers.fs hsize hdev
      rwa [hbase.sequential] at h
    rw [holdsFile_iff] at hb ⊢
    rw [hbase.sameLog.iSize, hbase.sameLog.nblocks]
    exact hb
  rw [← hlog]
  constructor
  · intro hres
    rcases Nat.eq_or_lt_of_le hin.inside with heq | hlt
    · rw [hin.piece, heq, ← length_visible, List.take_length]
    · have hsome := (onefilefsRead_piece hholds hlast hlt hlen hio).some
      rw [hres] at hsome
      exact absurd hsome (by decide)
  · intro hall
    have hend := hin.length
    rw [hall, List.length_drop, length_visible] at hend
    have hstart := Nat.le_trans hin.behind hin.inside
    rw [onefilefsRead_end (by omega)]

end

/-! A process reads the log through one file, and reads and writes it through another. -/

def sampleFollowed : Followed Bool Bool := { writers := sampleWriters, files := fun _ => none }

theorem sampleFollowed_idle : sampleFollowed.Idle := ⟨⟨rfl, rfl, fun _ => rfl, rfl⟩, fun _ => rfl⟩

/-- Both files are read before the first write, the first one behind it, in the middle of the
second write, and again. -/
def sampleFollowing : List (FollowEvent Bool Bool) :=
  [.openFile false 0, .openFile true 2, .read false oneByte, .read true oneByte] ++
    List.replicate 8 (.write true (some true)) ++
    [.read false oneByte, .write false none, .read false oneByte, .llseek true 0 0,
      .read true oneByte]

theorem sampleFollowing_files :
    (sampleFollowed.run 8192 sampleFollowing).files =
      Function.update (Function.update (fun _ => none) false
        (some { start := 0, fPos := 1, got := [97] })) true
        (some { start := 3, fPos := 3, got := [] }) := by
  funext f
  cases f <;> rfl

theorem transcript_isPrefix_sample :
    ([97] : List UInt8) <+: sampleFollowed.writers.fs.visible ++
      appended (sampleFollowed.run 8192 sampleFollowing).writers.finished ∧
    onefilefsLlseek { start := 3, fPos := 3, got := [] } 0 0 = 3 := by
  have hread : (sampleFollowed.run 8192 sampleFollowing).files false =
      some { start := 0, fPos := 1, got := [97] } := by
    rw [sampleFollowing_files]
    rfl
  have hwritten : (sampleFollowed.run 8192 sampleFollowing).files true =
      some { start := 3, fPos := 3, got := [] } := by
    rw [sampleFollowing_files]
    rfl
  exact ⟨(transcript_isPrefix sampleFollowed_idle (by decide) sampleFollowing hread).1,
    (transcript_isPrefix sampleFollowed_idle (by decide) sampleFollowing hwritten).2.1 0 0⟩

/-- The file that was written through is at the end of the log, and nothing was read through it. -/
theorem followed_whole_sample :
    (onefilefsRead (sampleFollowed.run 8192 sampleFollowing).writers.fs 3 oneByte).res = 0 ↔
      ([] : List UInt8) = (sampleFollowed.writers.fs.visible ++
        appended (sampleFollowed.run 8192 sampleFollowing).writers.finished).drop 3 := by
  have hwritten : (sampleFollowed.run 8192 sampleFollowing).files true =
      some { start := 3, fPos := 3, got := [] } := by
    rw [sampleFollowing_files]
    rfl
  have hdev : sampleFollowed.writers.fs.HoldsFile := fun pos hpos => absurd hpos (Nat.not_lt_zero pos)
  exact followed_whole sampleFollowed_idle (by decide) hdev sampleFollowing hwritten (by decide)
    oneByte_works

end RefMonitor
