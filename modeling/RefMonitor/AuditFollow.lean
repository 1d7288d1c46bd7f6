import RefMonitor.Audit
import RefMonitor.LogFollow

/-!
# Following the audit trail

An administrator reads the log, as `tail -f` does, while attempts are denied and the worker writes
their records. Here anything may fail at any time: allocations, the device, the limit of the file,
the opening of the log, and the program may be gone when the worker looks for it. Then a record is
lost. But no record is made up, written twice, torn or out of order, and what is read is what has
been written.

A read and a write of the log both run under `lock_log`, so each is one step; `LogFollow` has the
writers block by block. A read is `read(2)`, at `f_pos`, and only the worker writes. A run ends
when the text of an offender's program fills the buffer that the top half takes it in.

Results:
1. `deferBottomHalf_outcome`: what each part of `defer_bottom_half` does, whatever fails.
2. `follower_reads_records`: at every moment of every run, what has been read is the old log and
   records of denials, each at most once and in their order, up to the position of the file.
3. `follower_reads_all`: a read that returns 0 when the queue is drained says that there was a
   record for every denial, in the runs in which the trail is complete.
-/

namespace RefMonitor
open CString Run

variable {δ ρ : Type}

/-! ## The system -/

/-- The audit trail, and the open files of the log. -/
structure Tailed (δ ρ : Type) where
  audit : AuditState δ
  files : ρ → Option LogFile

inductive TailEvent (δ ρ : Type)
  | audit (event : AuditEvent δ)
  | openFile (file : ρ) (fFlags : Nat)
  | read (file : ρ) (call : FileReadCall)
  | llseek (file : ρ) (offset : Int) (whence : Nat)
  | release (file : ρ)

def Tailed.setFile [DecidableEq ρ] (p : Tailed δ ρ) (f : ρ) (file : Option LogFile) :
    Tailed δ ρ :=
  { p with files := Function.update p.files f file }

def TailEvent.step [DecidableEq ρ] (env : Env) (maxFileSize : Nat) (p : Tailed δ ρ) :
    TailEvent δ ρ → Except Fault (Tailed δ ρ)
  | .audit event => (event.step env maxFileSize p.audit).map fun s => { p with audit := s }
  | .openFile f fFlags =>
    .ok (if onefilefsOpen fFlags = 0 then p.setFile f (some .opened) else p)
  | .read f call =>
    .ok (match p.files f with
      | some file => p.setFile f (some (file.read p.audit.log call))
      | none => p)
  | .llseek .. => .ok p
  | .release f => .ok (p.setFile f none)

/-! ## The worker when something fails -/

/-- A part of `defer_bottom_half` does its work, or gives the work up and shows nothing. -/
inductive Worker.Outcome (log : LogFs) (worker : Worker) : Worker × LogFs → Prop
  | advances {out : Worker × LogFs} : worker.Advance log out → Outcome log worker out
  | givesUp (log' : LogFs) : log'.visible = log.visible → log'.iSize ≤ lastPos →
      Outcome log worker (.idle, log')

theorem deferBottomHalf_outcome {env : Env} {maxFileSize : Nat} {files : Files δ} {io : WorkIo}
    {log : LogFs} (hpos : log.iSize ≤ lastPos) (worker : Worker) :
    worker.Outcome log (deferBottomHalf env maxFileSize files io log worker) := by
  cases worker with
  | idle => exact .advances .idle
  | started data =>
    rw [deferBottomHalf]
    split
    · exact .givesUp log rfl hpos
    · split
      · exact .givesUp log rfl hpos
      · next file hopen => exact .advances (.opened file)
  | opened data file =>
    rw [deferBottomHalf]
    split
    · exact .givesUp log rfl hpos
    · split
      · exact .givesUp log rfl hpos
      · split
        · exact .givesUp log rfl hpos
        · next ciphertext hhash =>
          split
          · exact .givesUp log rfl hpos
          · exact .advances (.printed _ _ (cstr ciphertext) (strlen_hashPlaintext hhash)
              (cstr_sprintfRecord ..))
  | printed line pos =>
    rw [deferBottomHalf]
    split
    · exact .givesUp log rfl hpos
    · dsimp only
      have hspec : Wrote maxFileSize log _ (onefilefsWrite maxFileSize log
        { buf := line.text, buf_le := line.text_le, off := pos, io := io.write }) :=
          onefilefsWrite_spec hpos _
      cases hspec with
      | appended _ hvis _ _ _ _ hle _ => exact .advances (.appended _ hvis hle)
      | failed _ hsame _ => exact .givesUp _ hsame.visible (by rw [hsame.iSize]; exact hpos)

/-- The log only grows. -/
theorem Worker.Outcome.grows {log : LogFs} {worker : Worker} {out : Worker × LogFs}
    (h : worker.Outcome log out) : log.visible <+: out.2.visible := by
  cases h with
  | advances h =>
    cases h with
    | appended log' hvis hle => exact ⟨_, hvis.symm⟩
    | _ => exact List.prefix_rfl
  | givesUp log' hvis hle => rw [hvis]

/-- It never outgrows its device. -/
theorem deferBottomHalf_holdsFile {env : Env} {maxFileSize : Nat} {files : Files δ} {io : WorkIo}
    {log : LogFs} (hpos : log.iSize ≤ lastPos) (hdev : log.HoldsFile) (worker : Worker) :
    (deferBottomHalf env maxFileSize files io log worker).2.HoldsFile := by
  cases worker with
  | idle => exact hdev
  | started data =>
    rw [deferBottomHalf]
    split
    · exact hdev
    · split <;> exact hdev
  | opened data file =>
    rw [deferBottomHalf]
    split
    · exact hdev
    · split
      · exact hdev
      · split
        · exact hdev
        · split <;> exact hdev
  | printed line pos =>
    rw [deferBottomHalf]
    split
    · exact hdev
    · exact onefilefsWrite_holdsFile hpos hdev _

/-! ## The top half -/

/-- Work that is queued tells who was denied, whatever else has failed. -/
theorem deferTopHalf_denial {v : Vfs δ} {current : Thread δ} {data : WorkData}
    (hnul : ∀ d, (0 : UInt8) ∉ v.dPath d) (h : deferTopHalf v current = .ok (some data)) :
    data.denial = current.denial v := by
  unfold deferTopHalf at h
  split at h
  · cases h
  · split at h
    · cases h
    · cases h
    · next exe hexe =>
      split at h
      · cases h
      · next dir at_ hraw =>
        split at h
        · cases h
        · cases h
          have htext := cstr_dentryPathRaw (hnul exe) hraw
          have hlt : (v.dPath exe).length < maxFileName := by
            rcases Nat.lt_or_ge (v.dPath exe).length maxFileName with hlt | hge
            · exact hlt
            · rw [dentryPathRaw_long (by rw [current.dir_length]; exact Nat.not_lt.mpr hge)] at hraw
              cases hraw
          simp only [WorkData.denial, Thread.denial, hexe]
          rw [cstr_copyPathName (by rw [strlen, htext]; exact Nat.le_of_lt hlt), htext]

/-- A call adds at most one denial, and at most the work for it. -/
theorem stepCall_adds {env : Env} {s s' : AuditState δ} {current : Thread δ} {call : HookCall δ}
    (h : stepCall env s current call = .ok s') :
    s'.log = s.log ∧ s'.worker = s.worker ∧ ∃ work denied,
      (work.map WorkData.denial).Sublist denied ∧ s'.queue = s.queue ++ work ∧
        s'.denials = s.denials ++ denied := by
  unfold stepCall at h
  split at h
  · split at h
    · cases h
    · next r hentry =>
      have hdeferred := entryHandler_deferred hentry
      dsimp only at h
      split at h
      · next hdefer =>
        rw [if_pos (hdeferred.mp hdefer)] at h
        split at h
        · cases h
        · next work htop =>
          cases h
          refine ⟨rfl, rfl, work.toList, [current.denial s.files.vfs], ?_, rfl, rfl⟩
          cases work with
          | none => exact List.nil_sublist _
          | some data =>
            rw [Option.toList_some, List.map_singleton,
              deferTopHalf_denial (v := s.files.vfs) s.files.text_nul htop]
      · next hdefer =>
        rw [if_neg fun herr => hdefer (hdeferred.mpr herr)] at h
        cases h
        exact ⟨rfl, rfl, [], [], List.Sublist.refl _, (List.append_nil _).symm,
          (List.append_nil _).symm⟩
  · cases h
    exact ⟨rfl, rfl, [], [], List.Sublist.refl _, (List.append_nil _).symm,
      (List.append_nil _).symm⟩

/-! ## The trail -/

/-- What has been recorded, the denial the worker has and those in the queue are denials, in their
order; others have been given up. -/
structure Honest (init : List UInt8) (s : AuditState δ) : Prop where
  position : s.log.iSize ≤ lastPos
  split : ∃ recorded current lines,
    (recorded ++ current ++ s.queue.map (·.denial)).Sublist s.denials ∧
    s.worker.Handles current ∧ List.Forall₂ Recorded recorded lines ∧
    s.log.visible = init ++ lines.flatten

section Trail

variable {env : Env} {maxFileSize : Nat} {init : List UInt8} {s s' : AuditState δ}

theorem Honest.call {current : Thread δ} {call : HookCall δ} (h : Honest init s)
    (hstep : stepCall env s current call = .ok s') : Honest init s' := by
  obtain ⟨hlog, hworker, work, denied, hwork, hqueue, hdenials⟩ := stepCall_adds hstep
  obtain ⟨recorded, busy, lines, hden, hcur, hlines, hvis⟩ := h.split
  refine ⟨by rw [hlog]; exact h.position, recorded, busy, lines, ?_, by rw [hworker]; exact hcur,
    hlines, by rw [hlog]; exact hvis⟩
  rw [hqueue, hdenials, List.map_append, ← List.append_assoc]
  exact hden.append hwork

/-- A part of `defer_bottom_half` keeps the denial, records it or drops it. -/
theorem Honest.outcome {out : Worker × LogFs} (h : Honest init s)
    (hout : s.worker.Outcome s.log out) : Honest init { s with worker := out.1, log := out.2 } := by
  obtain ⟨recorded, current, lines, hden, hcur, hlines, hlog⟩ := h.split
  cases hout with
  | advances hadvance =>
    generalize s.worker = worker at hadvance hcur
    cases hadvance with
    | idle => exact ⟨h.position, recorded, current, lines, hden, hcur, hlines, hlog⟩
    | @opened data file =>
      cases hcur
      exact ⟨h.position, recorded, [data.denial], lines, hden, .opened data file, hlines, hlog⟩
    | @printed data file line pos hash hlen htext =>
      cases hcur
      exact ⟨h.position, recorded, [data.denial], lines, hden, .printed pos ⟨hash, hlen, htext⟩,
        hlines, hlog⟩
    | @appended line pos log' hvis hle =>
      cases hcur with
      | @printed d _ _ hrec =>
        refine ⟨hle, recorded ++ [d], [], lines ++ [line.text], ?_, .idle,
          List.rel_append hlines (.cons hrec .nil), ?_⟩
        · rw [List.append_nil]
          exact hden
        · rw [hvis, hlog, List.flatten_append, List.append_assoc, List.flatten_singleton]
  | givesUp log' hvis hle =>
    refine ⟨hle, recorded, [], lines, ?_, .idle, hlines, by rw [hvis]; exact hlog⟩
    have hdrop : (recorded ++ []).Sublist (recorded ++ current) :=
      (List.Sublist.refl recorded).append (List.nil_sublist current)
    exact (hdrop.append (List.Sublist.refl _)).trans hden

theorem Honest.work (h : Honest init s) (io : WorkIo) :
    Honest init (stepWork env maxFileSize s io) := by
  unfold stepWork
  split
  · exact h
  · next data queue hworker hqueue =>
    obtain ⟨recorded, current, lines, hden, hcur, hlines, hlog⟩ := h.split
    rw [hworker] at hcur
    cases hcur
    refine ⟨h.position, recorded, [data.denial], lines, ?_, .started data, hlines, hlog⟩
    rw [hqueue, List.append_nil, List.map_cons] at hden
    rw [List.append_assoc]
    exact hden
  · exact h.outcome (deferBottomHalf_outcome h.position s.worker)

/-- Every step keeps the records honest. -/
theorem Honest.step {event : AuditEvent δ} (h : Honest init s)
    (hstep : event.step env maxFileSize s = .ok s') : Honest init s' := by
  cases event with
  | call current request => exact h.call hstep
  | files now =>
    cases hstep
    exact ⟨h.position, h.split⟩
  | reconfigure monitor =>
    cases hstep
    exact ⟨h.position, h.split⟩
  | work io =>
    cases hstep
    exact h.work io

/-- What a step does to the log. -/
theorem AuditEvent.step_log {event : AuditEvent δ} (hpos : s.log.iSize ≤ lastPos)
    (hstep : event.step env maxFileSize s = .ok s') :
    s.log.visible <+: s'.log.visible ∧ (s.log.HoldsFile → s'.log.HoldsFile) := by
  cases event with
  | call current request =>
    rw [(stepCall_adds hstep).1]
    exact ⟨List.prefix_rfl, fun hdev => hdev⟩
  | files now =>
    cases hstep
    exact ⟨List.prefix_rfl, fun hdev => hdev⟩
  | reconfigure monitor =>
    cases hstep
    exact ⟨List.prefix_rfl, fun hdev => hdev⟩
  | work io =>
    cases hstep
    show s.log.visible <+: (stepWork env maxFileSize s io).log.visible ∧ _
    unfold stepWork
    split
    · exact ⟨List.prefix_rfl, fun hdev => hdev⟩
    · exact ⟨List.prefix_rfl, fun hdev => hdev⟩
    · exact ⟨(deferBottomHalf_outcome hpos s.worker).grows,
        fun hdev => deferBottomHalf_holdsFile hpos hdev s.worker⟩

theorem AuditState.Fresh.trail (h : s.Fresh) : Trail s.log.visible s := by
  refine ⟨h.position, [], [], [], ?_, ?_, .nil, ?_⟩
  · rw [h.denials, h.queue]
    rfl
  · rw [h.worker]
    exact .idle
  · rw [List.flatten_nil, List.append_nil]

/-- A complete trail is honest. -/
theorem Trail.honest (h : Trail init s) : Honest init s := by
  obtain ⟨recorded, current, lines, hden, hcur, hlines, hlog⟩ := h.split
  refine ⟨h.position, recorded, current, lines, ?_, hcur, hlines, hlog⟩
  rw [hden]

end Trail

/-! ## The open files -/

/-- The transcript of every open file is the log up to its position. -/
def Tailed.InStep (p : Tailed δ ρ) : Prop :=
  ∀ f file, p.files f = some file → file.start = 0 ∧ file.InStep p.audit.log

theorem Tailed.inStep_of_closed {p : Tailed δ ρ} (h : ∀ f, p.files f = none) : p.InStep := by
  intro f file hf
  rw [h f] at hf
  cases hf

/-- Both sides of what the administrator reads. -/
structure Seen (init : List UInt8) (p : Tailed δ ρ) : Prop where
  honest : Honest init p.audit
  inStep : p.InStep

theorem Seen.records {init : List UInt8} {p : Tailed δ ρ} (h : Seen init p) {f : ρ}
    {file : LogFile} (hf : p.files f = some file) : ∃ recorded lines,
    recorded.Sublist p.audit.denials ∧ List.Forall₂ Recorded recorded lines ∧
      file.got <+: init ++ lines.flatten := by
  obtain ⟨recorded, current, lines, hden, -, hlines, hlog⟩ := h.honest.split
  refine ⟨recorded, lines, ?_, hlines, ?_⟩
  · rw [List.append_assoc] at hden
    exact (List.sublist_append_left recorded _).trans hden
  · obtain ⟨hstart, hin⟩ := h.inStep f file hf
    rw [← hlog, hin.piece, hstart]
    exact List.take_prefix _ _

/-- The same, with a complete trail on a device that holds the log. -/
structure SeenAll (init : List UInt8) (p : Tailed δ ρ) : Prop where
  trail : Trail init p.audit
  device : p.audit.log.HoldsFile
  inStep : p.InStep

/-- A read that returns 0 has nothing left to read. -/
theorem SeenAll.read_end {init : List UInt8} {p : Tailed δ ρ} (h : SeenAll init p) {f : ρ}
    {file : LogFile} (hf : p.files f = some file) {call : FileReadCall} (hlen : 0 < call.len)
    (hio : call.io.Works)
    (hres : (onefilefsRead p.audit.log file.fPos call).res = 0) :
    file.got = p.audit.log.visible := by
  obtain ⟨hstart, hin⟩ := h.inStep f file hf
  rcases Nat.eq_or_lt_of_le hin.inside with heq | hlt
  · rw [hin.piece, hstart, heq, ← length_visible, List.take_length]
    rfl
  · have hsome := (onefilefsRead_piece h.device h.trail.position hlt hlen hio).some
    rw [hres] at hsome
    exact absurd hsome (by decide)

variable [DecidableEq ρ]

section Files

variable {env : Env} {maxFileSize : Nat} {p p' : Tailed δ ρ}

theorem Tailed.InStep.setFile (h : p.InStep) {f : ρ} {file : Option LogFile}
    (hfile : ∀ x, file = some x → x.start = 0 ∧ x.InStep p.audit.log) :
    (p.setFile f file).InStep := by
  intro f' file' hf'
  rcases update_eq_some hf' with ⟨-, hnew⟩ | hold
  · exact hfile file' hnew
  · exact h f' file' hold

theorem TailEvent.step_ok {event : AuditEvent δ} {s s' : AuditState δ} (p : Tailed δ ρ)
    (h : event.step env maxFileSize s = .ok s') :
    (TailEvent.audit event).step env maxFileSize { p with audit := s } =
      .ok { p with audit := s' } := by
  rw [TailEvent.step, h]
  rfl

/-- The steps of the readers do not touch the trail. -/
theorem TailEvent.step_audit {e : TailEvent δ ρ} (hstep : e.step env maxFileSize p = .ok p') :
    (∃ event, e = .audit event ∧ event.step env maxFileSize p.audit = .ok p'.audit) ∨
      p'.audit = p.audit := by
  cases e with
  | audit event =>
    obtain ⟨s, hs, rfl⟩ := returned_of_map hstep
    exact .inl ⟨event, rfl, hs⟩
  | openFile f fFlags =>
    cases hstep
    right
    split <;> rfl
  | read f call =>
    cases hstep
    right
    split <;> rfl
  | llseek f offset whence =>
    cases hstep
    exact .inr rfl
  | release f =>
    cases hstep
    exact .inr rfl

/-- Every step keeps the open files in step with the log. -/
theorem Tailed.InStep.step (h : p.InStep) (hpos : p.audit.log.iSize ≤ lastPos)
    {e : TailEvent δ ρ} (hstep : e.step env maxFileSize p = .ok p') : p'.InStep := by
  cases e with
  | audit event =>
    obtain ⟨s, hs, rfl⟩ := returned_of_map hstep
    exact fun f file hf =>
      ⟨(h f file hf).1, (h f file hf).2.grow (AuditEvent.step_log hpos hs).1⟩
  | openFile f fFlags =>
    cases hstep
    split
    · refine h.setFile fun x hx => ?_
      cases hx
      exact ⟨rfl, LogFile.inStep_opened _⟩
    · exact h
  | read f call =>
    cases hstep
    split
    · next file hf =>
      refine h.setFile fun x hx => ?_
      cases hx
      exact ⟨(h f file hf).1, (h f file hf).2.read hpos call⟩
    · exact h
  | llseek f offset whence =>
    cases hstep
    exact h
  | release f =>
    cases hstep
    refine h.setFile fun x hx => ?_
    cases hx

theorem Seen.step {init : List UInt8} {e : TailEvent δ ρ} (h : Seen init p)
    (hstep : e.step env maxFileSize p = .ok p') : Seen init p' := by
  refine ⟨?_, h.inStep.step h.honest.position hstep⟩
  rcases e.step_audit hstep with ⟨event, rfl, haudit⟩ | hsame
  · exact h.honest.step haudit
  · rw [hsame]
    exact h.honest

/-- The condition of a complete trail. -/
def TailEvent.Recordable (env : Env) (maxFileSize : Nat) (p : Tailed δ ρ) :
    TailEvent δ ρ → Prop
  | .audit event => event.Assumed env maxFileSize p.audit ∧ event.ProgramStays env p.audit
  | _ => True

theorem SeenAll.step {init : List UInt8} {e : TailEvent δ ρ} (hcrypto : env.Hashes)
    (h : SeenAll init p) (hrecordable : e.Recordable env maxFileSize p)
    (hstep : e.step env maxFileSize p = .ok p') : SeenAll init p' := by
  have hin := h.inStep.step h.trail.position hstep
  rcases e.step_audit hstep with ⟨event, rfl, haudit⟩ | hsame
  · exact ⟨h.trail.step hcrypto hrecordable.1 hrecordable.2 haudit,
      (AuditEvent.step_log h.trail.position haudit).2 h.device, hin⟩
  · exact ⟨by rw [hsame]; exact h.trail, by rw [hsame]; exact h.device, hin⟩

end Files

/-! ## What the administrator reads -/

/-- In every run, whatever fails in it, and at every moment: what has been read through an open
file is the beginning of the old log followed by records of denials, each denial at most once and
in the order in which they were made. -/
theorem follower_reads_records (env : Env) (maxFileSize : Nat) (p : Tailed δ ρ)
    (hfresh : p.audit.Fresh) (hclosed : ∀ f, p.files f = none) (events : List (TailEvent δ ρ)) :
    EveryState (fun p e => e.step env maxFileSize p)
      (fun q => ∀ f file, q.files f = some file → ∃ recorded lines,
        recorded.Sublist q.audit.denials ∧ List.Forall₂ Recorded recorded lines ∧
          file.got <+: p.audit.log.visible ++ lines.flatten) p events := by
  have hinit : Seen p.audit.log.visible p := ⟨hfresh.trail.honest, Tailed.inStep_of_closed hclosed⟩
  refine EveryState.of_inv (fun h f file hf => ?_) (fun h _ hstep => h.step hstep) hinit
    (EveryStep.of_forall (fun _ _ => trivial) events p)
  exact h.records hf

def sampleTailed : Tailed Nat Unit := { audit := sampleAudit, files := fun _ => none }

/-- The program is unlinked before its record is made. -/
theorem follower_reads_records_sample :
    EveryState (fun p (e : TailEvent Nat Unit) => e.step sampleEnv (2 ^ 32) p)
      (fun q => ∀ f file, q.files f = some file → ∃ recorded lines,
        recorded.Sublist q.audit.denials ∧ List.Forall₂ Recorded recorded lines ∧
          file.got <+: sampleAudit.log.visible ++ lines.flatten)
      sampleTailed (.openFile () 0 :: unlinkRun.map .audit ++ [.read () oneByte]) :=
  follower_reads_records sampleEnv (2 ^ 32) sampleTailed ⟨rfl, rfl, rfl, Nat.zero_le _⟩
    (fun _ => rfl) _

/-- In every run in which the offenders' programs stay and nothing fails: when the queue is drained
and a read returns 0, the reader has got the old log and a record of every denial, in order. -/
theorem follower_reads_all (env : Env) (hcrypto : env.Hashes) (maxFileSize : Nat)
    (p : Tailed δ ρ) (hfresh : p.audit.Fresh) (hdev : p.audit.log.HoldsFile)
    (hclosed : ∀ f, p.files f = none) (events : List (TailEvent δ ρ))
    (hsteps : EveryStep (fun p e => e.step env maxFileSize p)
      (fun p e => e.Recordable env maxFileSize p) p events) :
    EveryState (fun p e => e.step env maxFileSize p)
      (fun q => q.audit.queue = [] → q.audit.worker = .idle → ∀ f file, q.files f = some file →
        ∀ call : FileReadCall, 0 < call.len → call.io.Works →
          (onefilefsRead q.audit.log file.fPos call).res = 0 →
            ∃ lines, List.Forall₂ Recorded q.audit.denials lines ∧
              file.got = p.audit.log.visible ++ lines.flatten) p events := by
  have hinit : SeenAll p.audit.log.visible p :=
    ⟨hfresh.trail, hdev, Tailed.inStep_of_closed hclosed⟩
  refine EveryState.of_inv (fun h hqueue hidle f file hf call hlen hio hres => ?_)
    (fun h hc hstep => h.step hcrypto hc hstep) hinit hsteps
  obtain ⟨lines, hlines, hlog⟩ := h.trail.complete hqueue hidle
  exact ⟨lines, hlines, (h.read_end hf hlen hio hres).trans hlog⟩

/-! A thread is denied, its record is made, and the log is read to its end. -/

/-- A request for a whole block that the kernel services serve. -/
def wholeBlock : FileReadCall where
  len := blockSize
  len_le := by decide
  io := { bread := true, notCopied := 0 }

/-- It gets all of a file that is no longer than that. -/
theorem read_wholeBlock {fs : LogFs} (hsize : fs.iSize ≤ blockSize) (hdev : fs.HoldsFile) :
    (LogFile.opened.read fs wholeBlock).fPos = fs.iSize := by
  have hclip : 0 < fs.iSize → clippedLen fs.iSize 0 blockSize = fs.iSize := by
    intro hpos
    have hmod : (0 + blockSize) % 2 ^ 64 = blockSize := by decide
    unfold clippedLen
    rw [hmod]
    dsimp only
    have hlen : (if fs.iSize < blockSize then fs.iSize - 0 else blockSize) = fs.iSize := by
      split <;> omega
    rw [hlen, Nat.zero_mod, Nat.zero_add, if_neg (Nat.not_lt.mpr hsize)]
  rcases Nat.eq_zero_or_pos fs.iSize with hzero | hpos
  · show (onefilefsRead fs 0 wholeBlock).off = fs.iSize
    rw [onefilefsRead_end (by omega), hzero]
  · have hnum : blockNumber 0 = 2 := by decide
    have hblock : 2 < fs.nblocks := hdev 0 hpos
    show (onefilefsRead fs 0 wholeBlock).off = fs.iSize
    unfold onefilefsRead
    rw [if_neg (by omega), if_neg (by omega)]
    simp [wholeBlock, hnum, hblock, hclip hpos]

theorem length_line (d : Denial) (hash : List UInt8) :
    (d.line hash).length ≤ d.program.length + hash.length + 51 := by
  have h1 := length_printD d.tgid
  have h2 := length_printD d.tid
  have h3 := length_printD d.uid
  have h4 := length_printD d.euid
  simp only [Denial.line, List.length_append, List.length_cons,
    show (ascii "\n").length = 1 from rfl]
  omega

def sampleTailing : List (TailEvent Nat Unit) :=
  .audit sampleAttempt ::
    (List.replicate 4 (.audit (.work sampleIo)) ++ [.openFile () 0, .read () wholeBlock])

theorem sampleTailing_recordable :
    EveryStep (fun p (e : TailEvent Nat Unit) => e.step sampleEnv (2 ^ 32) p)
      (fun p e => e.Recordable sampleEnv (2 ^ 32) p) sampleTailed sampleTailing := by
  obtain ⟨data, monitor, line, pos, -, hopen, hcall, hstarted, hopened, hprinted⟩ :=
    sampleAttempt_stages
  have hprogram : sampleAttempt.ProgramStays sampleEnv sampleAudit := fun _ => by decide
  refine ⟨⟨fun _ => ⟨fun _ => rfl, 6, rfl⟩, hprogram⟩, fun s₁ h₁ => ?_⟩
  obtain rfl := Except.ok.inj ((TailEvent.step_ok sampleTailed hcall).symm.trans h₁)
  refine ⟨⟨sampleIo_works rfl _, trivial⟩, fun s₂ h₂ => ?_⟩
  obtain rfl := Except.ok.inj ((TailEvent.step_ok sampleTailed hstarted).symm.trans h₂)
  refine ⟨⟨sampleIo_works rfl _, hopen⟩, fun s₃ h₃ => ?_⟩
  obtain rfl := Except.ok.inj ((TailEvent.step_ok sampleTailed hopened).symm.trans h₃)
  refine ⟨⟨sampleIo_works rfl _, [], rfl⟩, fun s₄ h₄ => ?_⟩
  obtain rfl := Except.ok.inj ((TailEvent.step_ok sampleTailed hprinted).symm.trans h₄)
  exact ⟨⟨sampleIo_works rfl _, trivial⟩, fun _ _ =>
    ⟨trivial, fun _ _ => ⟨trivial, fun _ _ => trivial⟩⟩⟩

/-- At the end of the run the queue is drained, and a further request gets nothing. -/
theorem sampleTailing_ends : ∃ q file,
    sampleTailing.foldlM (fun p e => e.step sampleEnv (2 ^ 32) p) sampleTailed = .ok q ∧
      q.audit.queue = [] ∧ q.audit.worker = .idle ∧ q.files () = some file ∧
      (onefilefsRead q.audit.log file.fPos oneByte).res = 0 := by
  obtain ⟨data, monitor, line, pos, hpath, -, hcall, hstarted, hopened, hprinted⟩ :=
    sampleAttempt_stages
  let s : AuditState Nat :=
    stepWork sampleEnv (2 ^ 32) (sampleStage data monitor [] (.printed line pos)) sampleIo
  let file : LogFile := LogFile.opened.read s.log wholeBlock
  let q : Tailed Nat Unit := { audit := s, files := fun _ => some file }
  have hrun : sampleTailing.foldlM (fun p e => e.step sampleEnv (2 ^ 32) p) sampleTailed =
      .ok q := by
    refine foldlM_step (TailEvent.step_ok sampleTailed hcall) ?_
    refine foldlM_step (TailEvent.step_ok sampleTailed hstarted) ?_
    refine foldlM_step (TailEvent.step_ok sampleTailed hopened) ?_
    exact foldlM_step (TailEvent.step_ok sampleTailed hprinted) rfl
  have hfresh : sampleAudit.Fresh := ⟨rfl, rfl, rfl, Nat.zero_le _⟩
  have hinit : SeenAll [] sampleTailed :=
    ⟨hfresh.trail, fun pos hpos => absurd hpos (Nat.not_lt_zero pos),
      Tailed.inStep_of_closed fun _ => rfl⟩
  have hend : SeenAll [] q := EveryState.last (EveryState.of_inv (fun h => h)
    (fun h hc hstep => h.step (fun _ => by simp [sampleEnv]) hc hstep) hinit
    sampleTailing_recordable) hrun
  obtain ⟨lines, hlines, hlog⟩ := hend.trail.complete rfl rfl
  -- the record is short, so one request has got all of it
  have hsize : s.log.iSize ≤ blockSize := by
    cases hlines with
    | cons hrec hnil =>
      cases hnil
      obtain ⟨hash, hhash, rfl⟩ := hrec
      have hlen := congrArg List.length hlog
      have hline := length_line data.denial hash
      rw [hpath, hhash, show (ascii "/home/tool").length = 10 from rfl] at hline
      rw [length_visible, List.flatten_singleton, List.nil_append] at hlen
      show s.log.iSize ≤ 4096
      change s.log.iSize = _ at hlen
      omega
  have hfile : file.fPos = s.log.iSize := read_wholeBlock hsize hend.device
  refine ⟨q, file, hrun, rfl, rfl, rfl, ?_⟩
  show (onefilefsRead s.log file.fPos oneByte).res = 0
  rw [hfile, onefilefsRead_end (le_refl _)]

/-- The record has been read, and the last state of the run is one that the result speaks of. -/
theorem follower_reads_all_sample :
    EveryState (fun p (e : TailEvent Nat Unit) => e.step sampleEnv (2 ^ 32) p)
      (fun q => q.audit.queue = [] → q.audit.worker = .idle → ∀ f file, q.files f = some file →
        ∀ call : FileReadCall, 0 < call.len → call.io.Works →
          (onefilefsRead q.audit.log file.fPos call).res = 0 →
            ∃ lines, List.Forall₂ Recorded q.audit.denials lines ∧
              file.got = sampleAudit.log.visible ++ lines.flatten) sampleTailed sampleTailing ∧
    ∃ q file,
      sampleTailing.foldlM (fun p e => e.step sampleEnv (2 ^ 32) p) sampleTailed = .ok q ∧
        q.audit.queue = [] ∧ q.audit.worker = .idle ∧ q.files () = some file ∧
        (onefilefsRead q.audit.log file.fPos oneByte).res = 0 :=
  ⟨follower_reads_all sampleEnv (fun _ => by simp [sampleEnv]) (2 ^ 32) sampleTailed
    ⟨rfl, rfl, rfl, Nat.zero_le _⟩ (fun pos hpos => absurd hpos (Nat.not_lt_zero pos))
    (fun _ => rfl) sampleTailing sampleTailing_recordable, sampleTailing_ends⟩

end RefMonitor
