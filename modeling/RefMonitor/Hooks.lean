import RefMonitor.RestrictList
import RefMonitor.NameTable

/-!
# `reference_hooks.c`: the kretprobe handlers

Four kernel functions are probed. An entry handler runs before the function with the
thread's registers, decides from the restrict list and leaves its verdict in
`hook_error`; the return handler runs after the function and may replace the value in the
return register. A non-zero result of the entry handler tells the kernel not to run the
return handler for this call.

A denied attempt marks the inode read-only and immutable, so that the probed function
fails by itself, and calls `defer_top_half` once (`HookResult.deferred`).

The registers are those of x86_64.

Results:
1. `entryHandler_deferred`: the work queue is given an offender exactly when the verdict is
   `-EACCES`.
2. `permitted_value_iff`: on a permitted call the return handlers deliver the probed
   function's own value for `do_filp_open`, and for the directory functions only when that
   value is zero or the return handler does not run.
-/

namespace RefMonitor
open CString

variable {δ : Type}

/-! ## Entry handlers -/

/-- What an entry handler leaves behind. -/
structure HookResult where
  /-- The handler's own return value. -/
  ret : Int
  hookError : Int
  /-- `defer_top_half` was called. -/
  deferred : Bool
  state : State

/-- The handler lets the call through. -/
def HookResult.pass (s : State) : HookResult :=
  { ret := 0, hookError := 0, deferred := false, state := s }

/-- The handler denies the call and hands the offender to the deferred work. -/
def HookResult.deny (s : State) : HookResult :=
  { ret := 0, hookError := fail .eacces, deferred := true, state := s }

/-- The handler ran out of memory. -/
def HookResult.nomem (s : State) : HookResult :=
  { ret := 0, hookError := fail .enomem, deferred := false, state := s }

def oWRONLY : UInt32 := 0o1
def oRDWR : UInt32 := 0o2
def oCREAT : UInt32 := 0o100
def oTRUNC : UInt32 := 0o1000
def oAPPEND : UInt32 := 0o2000

/-- `flags & (O_RDWR | O_WRONLY | O_TRUNC | O_APPEND)`. -/
def opensForWriting (flags : UInt32) : Bool :=
  flags &&& (oRDWR ||| oWRONLY ||| oTRUNC ||| oAPPEND) != 0

/-- `flags & O_CREAT`. -/
def opensToCreate (flags : UInt32) : Bool := flags &&& oCREAT != 0

/-- The arguments of `do_filp_open` the handler reads: the name the kernel copied, the user
memory it was copied from (`none` when the name comes from the kernel) and the flags.
`getname` refuses a name that does not fit in `PATH_MAX` bytes. -/
structure OpenRequest where
  name : List UInt8
  name_nul : (0 : UInt8) ∉ name
  name_lt : name.length < pathMax
  uptr : Option (List UInt8)
  flags : UInt32

/-- `mark_inode_read_only_by_pathname` followed by the denial, or no denial when the name
has no inode. -/
def markAndDeny (v : Vfs δ) (task : Task δ) (buffer : List UInt8) (s : State) : HookResult :=
  let marked := markInodeReadOnlyByPathname v task buffer s
  if marked.1 ≠ 0 then .pass s else .deny marked.2

/-- The second half of `pre_do_filp_open_handler`, once the buffer holds the path. -/
def checkOpen (v : Vfs δ) (task : Task δ) (flags : UInt32) (buffer : List UInt8)
    (isDir isSwap : Bool) (s : State) : HookResult :=
  if checkBlackList v task s buffer true ≠ 0 then .pass s
  else if isDir && opensToCreate flags then markAndDeny v task buffer s
  else if isSwap then .deny s
  else if opensForWriting flags then markAndDeny v task buffer s
  else .pass s

/-- `pre_do_filp_open_handler` from the filled buffer on: the name is made absolute or, when
it does not exist, its directory is. -/
def decideOpen (env : Env) (v : Vfs δ) (task : Task δ) (flags : UInt32) (buffer : List UInt8)
    (s : State) : Except Fault HookResult :=
  match fillWithSwapFilter env v task (fun k => task.alloc (k + 1)) buffer with
  | .error f => .error f
  | .ok (ret, buffer) =>
    if ret = fail .enomem then .ok (.nomem s)
    else if ret = fail .enoent then
      match fillAbsolutePath env v task (fun k => task.alloc (k + 3)) (getParentPath buffer) with
      | .error f => .error f
      | .ok (ret, buffer) =>
        if ret = fail .enomem then .ok (.nomem s)
        else if ret ≠ 0 then .ok (.pass s)
        else .ok (checkOpen v task flags buffer true false s)
    else .ok (checkOpen v task flags buffer false (ret == 1) s)

/-- The allocations are `task.alloc 0` (the buffer), `1` and `2` (the path), `3` and `4`
(the parent directory). -/
def preDoFilpOpenHandler (env : Env) (v : Vfs δ) (task : Task δ) (req : OpenRequest) (s : State) :
    Except Fault HookResult :=
  if forbittenPath env req.name then .ok (.pass s)
  else
    match req.uptr with
    | none => .ok (.pass s)
    | some user =>
      if !task.alloc 0 then .ok (.nomem s)
      else decideOpen env v task req.flags (copyFromUser pathMax pathMax user) s

/-- `mark_inode_read_only(dentry->d_inode)` and the denial. -/
def denyDentry (v : Vfs δ) (dentry : δ) (s : State) : Except Fault HookResult :=
  match v.dInode dentry with
  | none => .error .nullPtr
  | some i => .ok (.deny (s.setAttr i (markInodeReadOnly (s.inodes i))))

/-- Whether the path of a dentry is listed; a path that cannot be printed leaves the buffer
empty. -/
def dentryListed (v : Vfs δ) (task : Task δ) (allocated : Bool) (dentry : δ) (s : State) : Bool :=
  checkBlackList v task s (fillPathByDentry v allocated dentry (List.replicate pathMax 0)).2 false == 0

/-- The entry handler of `vfs_mkdir` and `vfs_rmdir`: only the parent directory is looked at. -/
def preVfsMkRmdirHandler (v : Vfs δ) (task : Task δ) (dentry : δ) (s : State) :
    Except Fault HookResult :=
  if !task.alloc 0 then .ok { HookResult.pass s with ret := fail .enomem }
  else
    match v.dParent dentry with
    | none => .ok (.pass s)
    | some parent =>
      if dentryListed v task (task.alloc 1) parent s then denyDentry v parent s
      else .ok (.pass s)

/-- The entry handler of `vfs_unlink`: the victim, then its parent directory. -/
def preVfsUnlinkHandler (v : Vfs δ) (task : Task δ) (dentry : δ) (s : State) :
    Except Fault HookResult :=
  if !task.alloc 0 then .ok { HookResult.pass s with ret := fail .enomem }
  else if dentryListed v task (task.alloc 1) dentry s then denyDentry v dentry s
  else
    match v.dParent dentry with
    | none => .ok (.pass s)
    | some parent =>
      if dentryListed v task (task.alloc 2) parent s then denyDentry v parent s
      else .ok (.pass s)

/-! ## Return handlers and the probes -/

/-- The probed functions, in the order of `target_functions`. -/
inductive Hook
  | doFilpOpen | vfsMkdir | vfsRmdir | vfsUnlink
deriving DecidableEq, Repr

def Hook.index : Hook → Fin hooksSize
  | .doFilpOpen => ⟨0, by decide⟩
  | .vfsMkdir => ⟨1, by decide⟩
  | .vfsRmdir => ⟨2, by decide⟩
  | .vfsUnlink => ⟨3, by decide⟩

/-- A call of a probed function, with the arguments its entry handler reads. -/
inductive HookCall (δ : Type)
  | open_ (req : OpenRequest)
  | mkdir (dentry : δ)
  | rmdir (dentry : δ)
  | unlink (dentry : δ)

def HookCall.hook : HookCall δ → Hook
  | .open_ _ => .doFilpOpen
  | .mkdir _ => .vfsMkdir
  | .rmdir _ => .vfsRmdir
  | .unlink _ => .vfsUnlink

/-- The table `entry_handlers`. -/
def entryHandler (env : Env) (v : Vfs δ) (task : Task δ) (s : State) :
    HookCall δ → Except Fault HookResult
  | .open_ req => preDoFilpOpenHandler env v task req s
  | .mkdir dentry => preVfsMkRmdirHandler v task dentry s
  | .rmdir dentry => preVfsMkRmdirHandler v task dentry s
  | .unlink dentry => preVfsUnlinkHandler v task dentry s

/-- An `int` stored in the 64-bit return register. -/
def toRegister (n : Int) : UInt64 := UInt64.ofInt n

def referenceKretHandler (hookError : Int) (ax : UInt64) : UInt64 :=
  if hookError ≠ 0 then toRegister hookError else ax

def postDirHandler (hookError : Int) (_ax : UInt64) : UInt64 := toRegister hookError

/-- The table `post_handlers`. -/
def postHandler : Hook → Int → UInt64 → UInt64
  | .doFilpOpen => referenceKretHandler
  | .vfsMkdir => postDirHandler
  | .vfsRmdir => postDirHandler
  | .vfsUnlink => postDirHandler

/-- The return register after the call, when the probed function itself left `ax` there. -/
def returnRegister (hook : Hook) (r : HookResult) (ax : UInt64) : UInt64 :=
  if r.ret ≠ 0 then ax else postHandler hook r.hookError ax

/-- What the caller reads from the return register: a pointer, or an `int` in its low half. -/
def Hook.value : Hook → UInt64 → UInt64
  | .doFilpOpen, ax => ax
  | _, ax => ax.toUInt32.toUInt64

/-- A call of a probed function that would itself leave `ax` in the return register. With
the probe disabled neither handler runs. -/
def probedCall (env : Env) (v : Vfs δ) (task : Task δ) (s : State) (call : HookCall δ)
    (ax : UInt64) : Except Fault (UInt64 × State) :=
  if s.probes call.hook.index then
    match entryHandler env v task s call with
    | .error f => .error f
    | .ok r => .ok (returnRegister call.hook r ax, r.state)
  else .ok (ax, s)

/-! ## The verdicts -/

/-- What the verdict of a handler can look like. -/
inductive Verdict (r : HookResult) : Prop
  | passed : r.ret = 0 → r.hookError = 0 → r.deferred = false → Verdict r
  | denied : r.ret = 0 → r.hookError = fail .eacces → r.deferred = true → Verdict r
  | nomem : r.ret = 0 → r.hookError = fail .enomem → r.deferred = false → Verdict r
  | skipped : r.ret ≠ 0 → r.hookError = 0 → r.deferred = false → Verdict r

theorem Verdict.pass (s : State) : Verdict (.pass s) := .passed rfl rfl rfl
theorem Verdict.deny (s : State) : Verdict (.deny s) := .denied rfl rfl rfl

/-- What the entry handler of `do_filp_open` can do: run out of memory, let the call through,
deny a swap file, or deny the call and mark the inode a listed text resolves to. -/
inductive OpenVerdict (v : Vfs δ) (task : Task δ) (s : State) (r : HookResult) : Prop
  | nomem : r = .nomem s → OpenVerdict v task s r
  | passed : r = .pass s → OpenVerdict v task s r
  | swap : r = .deny s → OpenVerdict v task s r
  | denied {buffer : List UInt8} {d : δ} {i : Inode} : checkBlackList v task s buffer true = 0 →
      v.kernPath task.cwd (cstr buffer) = .ok d → v.dInode d = some i →
      r = .deny (s.setAttr i (markInodeReadOnly (s.inodes i))) → OpenVerdict v task s r

/-- A text is judged on what it leads to: marked and denied, or let through. -/
theorem markAndDeny_cases (v : Vfs δ) (task : Task δ) (buffer : List UInt8) (s : State) :
    (∃ i, targetInode v task buffer = some i ∧
      markAndDeny v task buffer s = .deny (s.setAttr i (markInodeReadOnly (s.inodes i)))) ∨
    ((¬ ∃ i, targetInode v task buffer = some i) ∧ markAndDeny v task buffer s = .pass s) := by
  unfold markAndDeny markInodeReadOnlyByPathname targetInode
  cases v.kernPath task.cwd (cstr buffer) with
  | error e =>
    dsimp only
    rw [if_pos (fail_ne_zero e)]
    exact .inr ⟨fun ⟨_, h⟩ => (by cases h), rfl⟩
  | ok d =>
    dsimp only
    cases v.dInode d with
    | none =>
      dsimp only
      rw [if_pos (fail_ne_zero _)]
      exact .inr ⟨fun ⟨_, h⟩ => (by cases h), rfl⟩
    | some i =>
      dsimp only
      rw [if_neg (by decide)]
      exact .inl ⟨i, rfl, rfl⟩

theorem markAndDeny_found {v : Vfs δ} {task : Task δ} {buffer : List UInt8} {s : State} {i : Inode}
    (h : targetInode v task buffer = some i) :
    markAndDeny v task buffer s = .deny (s.setAttr i (markInodeReadOnly (s.inodes i))) := by
  rcases markAndDeny_cases v task buffer s with ⟨j, hj, hr⟩ | ⟨hnone, _⟩
  · obtain rfl := Option.some.inj (hj.symm.trans h)
    exact hr
  · exact absurd ⟨i, h⟩ hnone

theorem markAndDeny_verdict {v : Vfs δ} {task : Task δ} {buffer : List UInt8} {s : State}
    (hlisted : checkBlackList v task s buffer true = 0) :
    OpenVerdict v task s (markAndDeny v task buffer s) := by
  rcases markAndDeny_cases v task buffer s with ⟨i, htarget, hr⟩ | ⟨_, hr⟩
  · obtain ⟨d, hk, hi⟩ := targetInode_eq_some.mp htarget
    exact .denied hlisted hk hi hr
  · exact .passed hr

theorem checkOpen_verdict (v : Vfs δ) (task : Task δ) (flags : UInt32) (buffer : List UInt8)
    (isDir isSwap : Bool) (s : State) :
    OpenVerdict v task s (checkOpen v task flags buffer isDir isSwap s) := by
  unfold checkOpen
  split
  · exact .passed rfl
  · next hlisted =>
    have hlisted := not_not.mp hlisted
    split
    · exact markAndDeny_verdict hlisted
    · split
      · exact .swap rfl
      · split
        · exact markAndDeny_verdict hlisted
        · exact .passed rfl

theorem decideOpen_verdict {env : Env} {v : Vfs δ} {task : Task δ} {flags : UInt32}
    {buffer : List UInt8} {s : State} {r : HookResult}
    (h : decideOpen env v task flags buffer s = .ok r) : OpenVerdict v task s r := by
  unfold decideOpen at h
  split at h
  · exact absurd h (by simp)
  · split at h
    · exact .nomem (Except.ok.inj h).symm
    · split at h
      · split at h
        · exact absurd h (by simp)
        · split at h
          · exact .nomem (Except.ok.inj h).symm
          · split at h
            · exact .passed (Except.ok.inj h).symm
            · obtain rfl := Except.ok.inj h
              exact checkOpen_verdict ..
      · obtain rfl := Except.ok.inj h
        exact checkOpen_verdict ..

theorem preDoFilpOpenHandler_verdict {env : Env} {v : Vfs δ} {task : Task δ} {req : OpenRequest}
    {s : State} {r : HookResult} (h : preDoFilpOpenHandler env v task req s = .ok r) :
    OpenVerdict v task s r := by
  unfold preDoFilpOpenHandler at h
  split at h
  · exact .passed (Except.ok.inj h).symm
  · split at h
    · exact .passed (Except.ok.inj h).symm
    · split at h
      · exact .nomem (Except.ok.inj h).symm
      · exact decideOpen_verdict h

theorem OpenVerdict.verdict {v : Vfs δ} {task : Task δ} {s : State} {r : HookResult}
    (h : OpenVerdict v task s r) : Verdict r := by
  cases h with
  | nomem hr => subst hr; exact .nomem rfl rfl rfl
  | passed hr => subst hr; exact .pass s
  | swap hr => subst hr; exact .deny s
  | denied _ _ _ hr => subst hr; exact .deny _

theorem denyDentry_ok {v : Vfs δ} {dentry : δ} {s : State} {r : HookResult}
    (h : denyDentry v dentry s = .ok r) :
    ∃ i, v.dInode dentry = some i ∧ r = .deny (s.setAttr i (markInodeReadOnly (s.inodes i))) := by
  unfold denyDentry at h
  split at h
  · exact absurd h (by simp)
  · next i hi => exact ⟨i, hi, (Except.ok.inj h).symm⟩

/-- What the entry handler of a directory function can do: give up without memory, let the
call through, or deny it and mark the dentry that is listed. -/
inductive DirVerdict (v : Vfs δ) (task : Task δ) (s : State) (r : HookResult) : Prop
  | skipped : task.alloc 0 = false → r = { HookResult.pass s with ret := fail .enomem } →
      DirVerdict v task s r
  | passed : task.alloc 0 = true → r = .pass s → DirVerdict v task s r
  | denied {k : Nat} {d : δ} {i : Inode} : task.alloc 0 = true →
      dentryListed v task (task.alloc k) d s = true → v.dInode d = some i →
      r = .deny (s.setAttr i (markInodeReadOnly (s.inodes i))) → DirVerdict v task s r

theorem preVfsMkRmdirHandler_verdict {v : Vfs δ} {task : Task δ} {dentry : δ} {s : State}
    {r : HookResult} (h : preVfsMkRmdirHandler v task dentry s = .ok r) :
    DirVerdict v task s r := by
  unfold preVfsMkRmdirHandler at h
  split at h
  · next halloc => exact .skipped (by simpa using halloc) (Except.ok.inj h).symm
  · next halloc =>
    have halloc : task.alloc 0 = true := by simpa using halloc
    split at h
    · exact .passed halloc (Except.ok.inj h).symm
    · split at h
      · next hl =>
        obtain ⟨i, hi, hr⟩ := denyDentry_ok h
        exact .denied halloc hl hi hr
      · exact .passed halloc (Except.ok.inj h).symm

theorem preVfsUnlinkHandler_verdict {v : Vfs δ} {task : Task δ} {dentry : δ} {s : State}
    {r : HookResult} (h : preVfsUnlinkHandler v task dentry s = .ok r) :
    DirVerdict v task s r := by
  unfold preVfsUnlinkHandler at h
  split at h
  · next halloc => exact .skipped (by simpa using halloc) (Except.ok.inj h).symm
  · next halloc =>
    have halloc : task.alloc 0 = true := by simpa using halloc
    split at h
    · next hl =>
      obtain ⟨i, hi, hr⟩ := denyDentry_ok h
      exact .denied halloc hl hi hr
    · split at h
      · exact .passed halloc (Except.ok.inj h).symm
      · split at h
        · next hl =>
          obtain ⟨i, hi, hr⟩ := denyDentry_ok h
          exact .denied halloc hl hi hr
        · exact .passed halloc (Except.ok.inj h).symm

theorem DirVerdict.verdict {v : Vfs δ} {task : Task δ} {s : State} {r : HookResult}
    (h : DirVerdict v task s r) : Verdict r := by
  cases h with
  | skipped _ hr => subst hr; exact .skipped (fail_ne_zero _) rfl rfl
  | passed _ hr => subst hr; exact .pass s
  | denied _ _ _ hr => subst hr; exact .deny _

/-- A call of a directory function has the verdict of one of the two handlers. -/
theorem entryHandler_dirVerdict {env : Env} {v : Vfs δ} {task : Task δ} {s : State}
    {call : HookCall δ} {r : HookResult} (hdir : call.hook ≠ .doFilpOpen)
    (h : entryHandler env v task s call = .ok r) : DirVerdict v task s r := by
  cases call with
  | open_ req => exact absurd rfl hdir
  | mkdir d => exact preVfsMkRmdirHandler_verdict h
  | rmdir d => exact preVfsMkRmdirHandler_verdict h
  | unlink d => exact preVfsUnlinkHandler_verdict h

theorem entryHandler_verdict {env : Env} {v : Vfs δ} {task : Task δ} {s : State}
    {call : HookCall δ} {r : HookResult} (h : entryHandler env v task s call = .ok r) :
    Verdict r := by
  cases call with
  | open_ req => exact (preDoFilpOpenHandler_verdict h).verdict
  | mkdir d => exact (preVfsMkRmdirHandler_verdict h).verdict
  | rmdir d => exact (preVfsMkRmdirHandler_verdict h).verdict
  | unlink d => exact (preVfsUnlinkHandler_verdict h).verdict

/-- The work queue is given the offender of a denied attempt and of no other. -/
theorem entryHandler_deferred {env : Env} {v : Vfs δ} {task : Task δ} {s : State}
    {call : HookCall δ} {r : HookResult} (h : entryHandler env v task s call = .ok r) :
    r.deferred = true ↔ r.hookError = fail .eacces := by
  cases entryHandler_verdict h with
  | passed _ he hd => rw [he, hd]; decide
  | denied _ he hd => rw [he, hd]; decide
  | nomem _ he hd => rw [he, hd]; decide
  | skipped _ he hd => rw [he, hd]; decide

/-! ## The value the caller gets -/

/-- The return handlers of a permitted call: that of `do_filp_open` leaves the register
alone, the other one stores the zero of `hook_error` over whatever the function returned. -/
theorem returnRegister_permitted {hook : Hook} {r : HookResult} (hr : r.hookError = 0)
    (ax : UInt64) :
    returnRegister hook r ax = if hook = .doFilpOpen ∨ r.ret ≠ 0 then ax else 0 := by
  unfold returnRegister
  rw [hr]
  split
  · next h => rw [if_pos (Or.inr h)]
  · next h =>
    cases hook with
    | doFilpOpen => rw [if_pos (Or.inl rfl)]; rfl
    | vfsMkdir => rw [if_neg (by simpa using h)]; rfl
    | vfsRmdir => rw [if_neg (by simpa using h)]; rfl
    | vfsUnlink => rw [if_neg (by simpa using h)]; rfl

/-- On a permitted call the caller gets the probed function's own value exactly when the
function is `do_filp_open`, or the handler had no memory for its buffer (the return handler
then does not run), or that value is zero. -/
theorem permitted_value_iff {env : Env} {v : Vfs δ} {task : Task δ} {s : State}
    {call : HookCall δ} {r : HookResult} {ax out : UInt64} {s' : State}
    (hprobe : s.probes call.hook.index = true)
    (hentry : entryHandler env v task s call = .ok r) (hpermitted : r.hookError = 0)
    (hcall : probedCall env v task s call ax = .ok (out, s')) :
    call.hook.value out = call.hook.value ax ↔
      call.hook = .doFilpOpen ∨ task.alloc 0 = false ∨ call.hook.value ax = 0 := by
  have hout : out = returnRegister call.hook r ax := by
    simp only [probedCall, hprobe, if_true, hentry] at hcall
    exact (Prod.mk.inj (Except.ok.inj hcall)).1.symm
  rw [hout, returnRegister_permitted hpermitted]
  by_cases hopen : call.hook = .doFilpOpen
  · simp [hopen]
  · have hzero : call.hook.value 0 = 0 := by
      cases call.hook <;> rfl
    cases entryHandler_dirVerdict hopen hentry with
    | skipped halloc hr =>
      have hret : r.ret ≠ 0 := by rw [hr]; exact fail_ne_zero _
      simp [hret, halloc]
    | passed halloc hr =>
      have hret : r.ret = 0 := by rw [hr]; rfl
      simp only [hopen, hret, halloc, ne_eq, not_true_eq_false, or_self, if_false, hzero,
        Bool.true_eq_false, false_or]
      exact eq_comm
    | denied _ _ _ hr =>
      rw [hr] at hpermitted
      exact absurd hpermitted (fail_ne_zero _)

/-- `rmdir` of a directory that is not empty: the kernel's `-ENOTEMPTY` reaches the caller
as success. -/
theorem rmdir_error_lost :
    (sampleState stateOn true []).probes (HookCall.rmdir 1).hook.index = true ∧
    (entryHandler sampleEnv sampleTree.vfs (sampleTask 1000 0) (sampleState stateOn true [])
      (.rmdir 1)).map (·.hookError) = .ok 0 ∧
    (probedCall sampleEnv sampleTree.vfs (sampleTask 1000 0) (sampleState stateOn true [])
      (.rmdir 1) (toRegister (-39))).map (fun p => Hook.vfsRmdir.value p.1) = .ok 0 ∧
    Hook.vfsRmdir.value (toRegister (-39)) ≠ 0 :=
  ⟨rfl, rfl, rfl, by decide⟩

/-- The two directions on that call: the value is zero because the handler ran. -/
theorem permitted_value_iff_rmdir :
    Hook.vfsRmdir.value 0 = Hook.vfsRmdir.value (toRegister (-39)) ↔
      Hook.vfsRmdir = .doFilpOpen ∨ (sampleTask 1000 0).alloc 0 = false ∨
        Hook.vfsRmdir.value (toRegister (-39)) = 0 :=
  @permitted_value_iff Nat sampleEnv sampleTree.vfs (sampleTask 1000 0) (sampleState stateOn true [])
    (.rmdir 1) (.pass (sampleState stateOn true [])) (toRegister (-39)) 0
    (sampleState stateOn true []) rfl rfl rfl rfl

end RefMonitor
