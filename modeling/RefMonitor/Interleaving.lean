import RefMonitor.Atomicity

/-!
# Concurrent calls

Several threads are inside `do_change_state`, `do_change_path`, `do_change_password`, `add_path`
or `del_path` at the same time. A section under `state_lock`, `password_lock` or
`restrict_path_lock` is one step, and so are the scan of `is_path_in`, the resolution of a path
and the reading of an inode's attributes. The steps of different calls interleave in any order,
and each is taken in a namespace of its own, since users rename and delete files meanwhile.

A call is an index of any type, so there can be any number of them; a call that faults stops
where it is and the others go on.

Results:
1. `Caller.alone`: the steps of one call, taken without interruption, are the whole call of the
   sequential model.
2. `advance_leads`: where a step leads.
3. `advance_currentState`, `advance_list`, `advance_pwd`: which step changes which global.
-/

namespace RefMonitor
open CString Run

variable {δ ι : Type}

/-! ## Steps of one call -/

inductive Call (δ : Type)
  | changeState (thePwd : List UInt8) (theState : Int)
  | changePath (thePwd thePath : List UInt8) (op : Int)
  | changePassword (oldPassword newPassword : List UInt8)
  | addPath (thePath : List UInt8) (dentry : δ)
  | delPath (thePath : List UInt8)

structure Caller (δ : Type) where
  call : Call δ
  task : Task δ

/-- Where a call stands: what it does in its next step. -/
inductive CallPhase (δ : Type)
  | start
  /-- The password was accepted; next is the section under `state_lock`. -/
  | writeState (theState : Int)
  | readState (thePath : List UInt8) (op : Int)
  /-- The state was found to be `REC_ON` or `REC_OFF`. -/
  | resolve (thePath : List UInt8) (op : Int)
  | scan (thePath : List UInt8) (dentry : δ)
  /-- The path was not found in the list. -/
  | record (thePath : List UInt8) (i : Inode)
  | insert (entry : RcuRestrict)
  | delete (thePath : List UInt8)
  /-- The old password was accepted; the new digest is ready. -/
  | install (tmp : List UInt8)
  | returned (ret : Int)
  | died (fault : Fault)

/-- `del_path` up to its section. -/
def enterDelPath (task : Task δ) (thePath : List UInt8) : CallPhase δ :=
  if task.err ≠ 0 then .returned (fail .enoent) else .delete thePath

/-- The checks of each call up to and with the comparison under `password_lock`. -/
def beginCall (env : Env) (c : Caller δ) (s : State) : CallPhase δ :=
  match c.call with
  | .changeState thePwd theState =>
    if c.task.euid ≠ env.admin then .returned (fail .eperm)
    else if !isState theState then .returned (fail .einval)
    else if checkPwd env s thePwd ≠ 0 then .returned (fail .eacces)
    else .writeState theState
  | .changePath thePwd thePath op =>
    if c.task.euid ≠ env.admin then .returned (fail .eperm)
    else if op ≠ addPathOp ∧ op ≠ removePathOp then .returned (fail .einval)
    else if checkPwd env s thePwd ≠ 0 then .returned (fail .eacces)
    else .readState thePath op
  | .changePassword oldPassword newPassword =>
    if c.task.euid ≠ env.admin then .returned (fail .eperm)
    else if strlen newPassword ≤ 8 then .returned (fail .einval)
    else if strcmp oldPassword newPassword = 0 then .returned (fail .einval)
    else if checkPwd env s oldPassword ≠ 0 then .returned (fail .einval)
    else
      match hashPlaintext env newPassword with
      | none => .returned (-1)
      | some tmp => .install tmp
  | .addPath thePath dentry => .scan thePath dentry
  | .delPath thePath => enterDelPath c.task thePath

/-- From the path as it was given to the start of `add_path` or `del_path`. -/
def resolvePath (env : Env) (v : Vfs δ) (task : Task δ) (thePath : List UInt8) (op : Int) :
    CallPhase δ :=
  match fillAbsolutePath env v task task.alloc thePath with
  | .error f => .died f
  | .ok (ret, thePath) =>
    if ret ≠ 0 then .returned ret
    else if forbittenPath env thePath then .returned (fail .einval)
    else
      match v.kernPath task.cwd (cstr thePath) with
      | .error e => .returned (fail e)
      | .ok dentry => if op = addPathOp then .scan thePath dentry else enterDelPath task thePath

/-- `add_path` from its scan to the reading of the inode. -/
def scanList (v : Vfs δ) (task : Task δ) (thePath : List UInt8) (dentry : δ) (s : State) :
    CallPhase δ :=
  if isPathIn s thePath = 0 then .returned (fail .eexist)
  else if task.err ≠ 0 then .returned task.err
  else if !task.alloc 2 then .returned (fail .enomem)
  else if !task.alloc 3 then .returned (fail .enomem)
  else
    match v.dInode dentry with
    | none => .returned (fail .enoent)
    | some i => .record thePath i

/-- One step of a call, in the namespace of that moment. -/
def advance (env : Env) (c : Caller δ) (v : Vfs δ) (s : State) : CallPhase δ → CallPhase δ × State
  | .start => (beginCall env c s, s)
  | .writeState theState =>
    if (s.currentState : Int) = theState then (.returned (fail .ecanceled), s)
    else (.returned 0, enterState v c.task theState s)
  | .readState thePath op =>
    if ¬ (s.currentState = stateRecOff ∨ s.currentState = stateRecOn) then
      (.returned (fail .ecanceled), s)
    else (.resolve thePath op, s)
  | .resolve thePath op => (resolvePath env v c.task thePath op, s)
  | .scan thePath dentry => (scanList v c.task thePath dentry s, s)
  | .record thePath i => (.insert (newEntry s thePath i), s)
  | .insert entry => (.returned 0, { s with restrictPathList := entry :: s.restrictPathList })
  | .delete thePath => (.returned (delPath v c.task thePath s).1, (delPath v c.task thePath s).2)
  | .install tmp =>
    (.returned 0, { s with pwd := strncpy (memsetZero s.pwd 0 digestSize) tmp digestSize })
  | .returned ret => (.returned ret, s)
  | .died fault => (.died fault, s)

/-! ## All calls -/

/-- The shared state and where each call stands. -/
structure Calls (δ ι : Type) where
  state : State
  phase : ι → CallPhase δ

/-- The call that takes the next step, and the namespace at that moment. -/
structure Move (δ ι : Type) where
  who : ι
  vfs : Vfs δ

/-- Nobody has started yet. -/
def Calls.idle (s : State) : Calls δ ι := { state := s, phase := fun _ => .start }

def Calls.step [DecidableEq ι] (env : Env) (callers : ι → Caller δ) (p : Calls δ ι)
    (mv : Move δ ι) : Except Fault (Calls δ ι) :=
  .ok
    { state := (advance env (callers mv.who) mv.vfs p.state (p.phase mv.who)).2
      phase := Function.update p.phase mv.who
        (advance env (callers mv.who) mv.vfs p.state (p.phase mv.who)).1 }

/-! ## A call on its own -/

/-- The call as the sequential model has it. -/
def Caller.run (env : Env) (c : Caller δ) (v : Vfs δ) (s : State) : Except Fault (Int × State) :=
  match c.call with
  | .changeState thePwd theState => .ok (doChangeState env v c.task thePwd theState s)
  | .changePath thePwd thePath op => doChangePath env v c.task thePwd thePath op s
  | .changePassword oldPassword newPassword =>
    .ok (doChangePassword env c.task oldPassword newPassword s)
  | .addPath thePath dentry =>
    .ok (RefMonitor.addPath v c.task (fun k => c.task.alloc (k + 2)) thePath dentry s)
  | .delPath thePath => .ok (RefMonitor.delPath v c.task thePath s)

/-- Some steps of one call in an unchanging namespace, with nobody else moving. -/
def Alone (env : Env) (c : Caller δ) (v : Vfs δ) :
    CallPhase δ × State → CallPhase δ × State → Prop :=
  Relation.ReflTransGen fun x y => advance env c v x.2 x.1 = y

/-- The end of a call with the given result. -/
def callEnd (s : State) : Except Fault (Int × State) → CallPhase δ × State
  | .error f => (.died f, s)
  | .ok (ret, s') => (.returned ret, s')

theorem Alone.step {env : Env} {c : Caller δ} {v : Vfs δ} {x y z : CallPhase δ × State}
    (h : advance env c v x.2 x.1 = y) (hrest : Alone env c v y z) : Alone env c v x z :=
  Relation.ReflTransGen.head h hrest

theorem Alone.now {env : Env} {c : Caller δ} {v : Vfs δ} {x : CallPhase δ × State} :
    Alone env c v x x := Relation.ReflTransGen.refl

section Alone
variable {env : Env} {c : Caller δ} {v : Vfs δ} {s : State}

theorem Alone.scan (thePath : List UInt8) (dentry : δ) :
    Alone env c v (.scan thePath dentry, s)
      (callEnd s (.ok (addPath v c.task (fun k => c.task.alloc (k + 2)) thePath dentry s))) := by
  refine Alone.step rfl ?_
  dsimp only [advance]
  rw [scanList, addPath]
  by_cases hin : isPathIn s thePath = 0
  · rw [if_pos hin, if_pos hin]
    exact .now
  · rw [if_neg hin, if_neg hin]
    by_cases herr : c.task.err ≠ 0
    · rw [if_pos herr, if_pos herr]
      exact .now
    · rw [if_neg herr, if_neg herr]
      cases halloc : c.task.alloc 2 with
      | false => exact .now
      | true =>
        cases halloc' : c.task.alloc 3 with
        | false => exact .now
        | true =>
          cases hi : v.dInode dentry with
          | none => exact .now
          | some i => exact Alone.step rfl (Alone.step rfl .now)

theorem Alone.enterDelPath (thePath : List UInt8) :
    Alone env c v (enterDelPath c.task thePath, s) (callEnd s (.ok (delPath v c.task thePath s))) := by
  unfold RefMonitor.enterDelPath
  by_cases herr : c.task.err ≠ 0
  · rw [if_pos herr, delPath, if_pos herr]
    exact .now
  · rw [if_neg herr]
    exact Alone.step rfl .now

/-- `do_change_path` once the state has been read. -/
theorem Alone.resolve {thePath : List UInt8} {op : Int} {out : Except Fault (Int × State)}
    (h : (match fillAbsolutePath env v c.task c.task.alloc thePath with
      | .error f => .error f
      | .ok (ret, thePath) =>
        if ret ≠ 0 then .ok (ret, s)
        else if forbittenPath env thePath then .ok (fail .einval, s)
        else
          match v.kernPath c.task.cwd (cstr thePath) with
          | .error e => .ok (fail e, s)
          | .ok dentry =>
            if op = addPathOp then
              .ok (addPath v c.task (fun k => c.task.alloc (k + 2)) thePath dentry s)
            else .ok (delPath v c.task thePath s)) = out) :
    Alone env c v (.resolve thePath op, s) (callEnd s out) := by
  refine Alone.step rfl ?_
  subst h
  dsimp only [advance]
  rw [resolvePath]
  cases hfill : fillAbsolutePath env v c.task c.task.alloc thePath with
  | error f => exact .now
  | ok res =>
    obtain ⟨ret, full⟩ := res
    dsimp only
    by_cases hret : ret ≠ 0
    · rw [if_pos hret, if_pos hret]
      exact .now
    · rw [if_neg hret, if_neg hret]
      by_cases hforb : forbittenPath env full = true
      · rw [if_pos hforb, if_pos hforb]
        exact .now
      · rw [if_neg hforb, if_neg hforb]
        cases hk : v.kernPath c.task.cwd (cstr full) with
        | error e => exact .now
        | ok dentry =>
          dsimp only
          by_cases hop : op = addPathOp
          · rw [if_pos hop, if_pos hop]
            exact Alone.scan full dentry
          · rw [if_neg hop, if_neg hop]
            exact Alone.enterDelPath full

theorem Alone.changeState {thePwd : List UInt8} {theState : Int}
    (hcall : c.call = .changeState thePwd theState) :
    Alone env c v (.start, s) (callEnd s (.ok (doChangeState env v c.task thePwd theState s))) := by
  refine Alone.step rfl ?_
  dsimp only [advance]
  rw [beginCall, hcall]
  dsimp only
  rw [doChangeState]
  by_cases hadmin : c.task.euid ≠ env.admin
  · rw [if_pos hadmin, if_pos hadmin]
    exact .now
  · rw [if_neg hadmin, if_neg hadmin]
    by_cases hstate : (!isState theState) = true
    · rw [if_pos hstate, if_pos hstate]
      exact .now
    · rw [if_neg hstate, if_neg hstate]
      by_cases hpwd : checkPwd env s thePwd ≠ 0
      · rw [if_pos hpwd, if_pos hpwd]
        exact .now
      · rw [if_neg hpwd, if_neg hpwd]
        by_cases hsame : (s.currentState : Int) = theState
        · rw [if_pos hsame]
          exact Alone.step (if_pos hsame) .now
        · rw [if_neg hsame]
          refine Alone.step (if_neg hsame) ?_
          rw [enterState]
          dsimp only
          split
          · exact .now
          · exact .now

theorem Alone.changePath {thePwd thePath : List UInt8} {op : Int}
    (hcall : c.call = .changePath thePwd thePath op) :
    Alone env c v (.start, s) (callEnd s (doChangePath env v c.task thePwd thePath op s)) := by
  refine Alone.step rfl ?_
  dsimp only [advance]
  rw [beginCall, hcall]
  dsimp only
  rw [doChangePath]
  by_cases hadmin : c.task.euid ≠ env.admin
  · rw [if_pos hadmin, if_pos hadmin]
    exact .now
  · rw [if_neg hadmin, if_neg hadmin]
    by_cases hop : op ≠ addPathOp ∧ op ≠ removePathOp
    · rw [if_pos hop, if_pos hop]
      exact .now
    · rw [if_neg hop, if_neg hop]
      by_cases hpwd : checkPwd env s thePwd ≠ 0
      · rw [if_pos hpwd, if_pos hpwd]
        exact .now
      · rw [if_neg hpwd, if_neg hpwd]
        by_cases hrec : ¬ (s.currentState = stateRecOff ∨ s.currentState = stateRecOn)
        · rw [if_pos hrec]
          exact Alone.step (if_pos hrec) .now
        · rw [if_neg hrec]
          exact Alone.step (if_neg hrec) (Alone.resolve rfl)

theorem Alone.changePassword {oldPassword newPassword : List UInt8}
    (hcall : c.call = .changePassword oldPassword newPassword) :
    Alone env c v (.start, s)
      (callEnd s (.ok (doChangePassword env c.task oldPassword newPassword s))) := by
  refine Alone.step rfl ?_
  dsimp only [advance]
  rw [beginCall, hcall]
  dsimp only
  rw [doChangePassword]
  by_cases hadmin : c.task.euid ≠ env.admin
  · rw [if_pos hadmin, if_pos hadmin]
    exact .now
  · rw [if_neg hadmin, if_neg hadmin]
    by_cases hlen : strlen newPassword ≤ 8
    · rw [if_pos hlen, if_pos hlen]
      exact .now
    · rw [if_neg hlen, if_neg hlen]
      by_cases hsame : strcmp oldPassword newPassword = 0
      · rw [if_pos hsame, if_pos hsame]
        exact .now
      · rw [if_neg hsame, if_neg hsame]
        by_cases hpwd : checkPwd env s oldPassword ≠ 0
        · rw [if_pos hpwd, if_pos hpwd]
          exact .now
        · rw [if_neg hpwd, if_neg hpwd]
          cases hashPlaintext env newPassword with
          | none => exact .now
          | some tmp => exact Alone.step rfl .now

end Alone

/-- The steps of a call that nobody interrupts are the call of the sequential model. -/
theorem Caller.alone (env : Env) (c : Caller δ) (v : Vfs δ) (s : State) :
    Alone env c v (.start, s) (callEnd s (c.run env v s)) := by
  unfold Caller.run
  cases hcall : c.call with
  | changeState thePwd theState => exact Alone.changeState hcall
  | changePath thePwd thePath op => exact Alone.changePath hcall
  | changePassword oldPassword newPassword => exact Alone.changePassword hcall
  | addPath thePath dentry =>
    refine Alone.step ?_ (Alone.scan thePath dentry)
    dsimp only [advance]
    rw [beginCall, hcall]
  | delPath thePath =>
    refine Alone.step ?_ (Alone.enterDelPath thePath)
    dsimp only [advance]
    rw [beginCall, hcall]

/-! ## Where a step leads -/

/-- From one phase of a call to the next, with what was found on the way. -/
inductive Leads (env : Env) (c : Caller δ) (s : State) : CallPhase δ → CallPhase δ → Prop
  | failed {phase : CallPhase δ} {ret : Int} (hret : ret ≠ 0) : Leads env c s phase (.returned ret)
  | toState {thePwd : List UInt8} {theState : Int} (hcall : c.call = .changeState thePwd theState) :
      Leads env c s .start (.writeState theState)
  | toPath {thePwd thePath : List UInt8} {op : Int}
      (hcall : c.call = .changePath thePwd thePath op) :
      Leads env c s .start (.readState thePath op)
  | compared {oldPassword newPassword tmp : List UInt8}
      (hcall : c.call = .changePassword oldPassword newPassword)
      (hold : HashMatches env s oldPassword) (hnew : hashPlaintext env newPassword = some tmp) :
      Leads env c s .start (.install tmp)
  | toAdd {thePath : List UInt8} {dentry : δ} (hcall : c.call = .addPath thePath dentry) :
      Leads env c s .start (.scan thePath dentry)
  | toDelete {thePath : List UInt8} (hcall : c.call = .delPath thePath) :
      Leads env c s .start (.delete thePath)
  | wrote {theState : Int} : Leads env c s (.writeState theState) (.returned 0)
  | checked {thePath : List UInt8} {op : Int}
      (hrec : s.currentState = stateRecOff ∨ s.currentState = stateRecOn) :
      Leads env c s (.readState thePath op) (.resolve thePath op)
  | faulted {thePath : List UInt8} {op : Int} {fault : Fault} :
      Leads env c s (.resolve thePath op) (.died fault)
  | resolvedToAdd {thePath full : List UInt8} {op : Int} {dentry : δ} :
      Leads env c s (.resolve thePath op) (.scan full dentry)
  | resolvedToDelete {thePath full : List UInt8} {op : Int} :
      Leads env c s (.resolve thePath op) (.delete full)
  | notFound {thePath : List UInt8} {dentry : δ} {i : Inode} (hin : isPathIn s thePath ≠ 0) :
      Leads env c s (.scan thePath dentry) (.record thePath i)
  | recorded {thePath : List UInt8} {i : Inode} :
      Leads env c s (.record thePath i) (.insert (newEntry s thePath i))
  | inserted {entry : RcuRestrict} : Leads env c s (.insert entry) (.returned 0)
  | deleted {thePath : List UInt8} {ret : Int} : Leads env c s (.delete thePath) (.returned ret)
  | installed {tmp : List UInt8} : Leads env c s (.install tmp) (.returned 0)
  | done {ret : Int} : Leads env c s (.returned ret) (.returned ret)
  | dead {fault : Fault} : Leads env c s (.died fault) (.died fault)

section Leads
variable {env : Env} {c : Caller δ} {s : State}

theorem beginCall_leads : Leads env c s .start (beginCall env c s) := by
  unfold beginCall
  cases hcall : c.call with
  | changeState thePwd theState =>
    dsimp only
    split
    · exact .failed (fail_ne_zero _)
    · split
      · exact .failed (fail_ne_zero _)
      · split
        · exact .failed (fail_ne_zero _)
        · exact .toState hcall
  | changePath thePwd thePath op =>
    dsimp only
    split
    · exact .failed (fail_ne_zero _)
    · split
      · exact .failed (fail_ne_zero _)
      · split
        · exact .failed (fail_ne_zero _)
        · exact .toPath hcall
  | changePassword oldPassword newPassword =>
    dsimp only
    split
    · exact .failed (fail_ne_zero _)
    · split
      · exact .failed (fail_ne_zero _)
      · split
        · exact .failed (fail_ne_zero _)
        · split
          · exact .failed (fail_ne_zero _)
          · next hpwd =>
            have hold := checkPwd_eq_zero.mp (not_not.mp hpwd)
            cases hnew : hashPlaintext env newPassword with
            | none => exact .failed (by decide)
            | some tmp => exact .compared hcall hold hnew
  | addPath thePath dentry => exact .toAdd hcall
  | delPath thePath =>
    dsimp only [enterDelPath]
    split
    · exact .failed (fail_ne_zero _)
    · exact .toDelete hcall

theorem resolvePath_leads (v : Vfs δ) (thePath : List UInt8) (op : Int) :
    Leads env c s (.resolve thePath op) (resolvePath env v c.task thePath op) := by
  unfold resolvePath
  split
  · exact .faulted
  · split
    · next hret => exact .failed hret
    · split
      · exact .failed (fail_ne_zero _)
      · split
        · exact .failed (fail_ne_zero _)
        · split
          · exact .resolvedToAdd
          · rw [enterDelPath]
            split
            · exact .failed (fail_ne_zero _)
            · exact .resolvedToDelete

theorem scanList_leads (v : Vfs δ) (thePath : List UInt8) (dentry : δ) :
    Leads env c s (.scan thePath dentry) (scanList v c.task thePath dentry s) := by
  unfold scanList
  split
  · exact .failed (fail_ne_zero _)
  · next hin =>
    split
    · next herr => exact .failed herr
    · split
      · exact .failed (fail_ne_zero _)
      · split
        · exact .failed (fail_ne_zero _)
        · split
          · exact .failed (fail_ne_zero _)
          · exact .notFound hin

/-- Every step is one of these. -/
theorem advance_leads (v : Vfs δ) (phase : CallPhase δ) :
    Leads env c s phase (advance env c v s phase).1 := by
  cases phase with
  | start => exact beginCall_leads
  | writeState theState =>
    rw [advance]
    split
    · exact .failed (fail_ne_zero _)
    · exact .wrote
  | readState thePath op =>
    rw [advance]
    split
    · exact .failed (fail_ne_zero _)
    · next hrec => exact .checked (not_not.mp hrec)
  | resolve thePath op => exact resolvePath_leads v thePath op
  | scan thePath dentry => exact scanList_leads v thePath dentry
  | record thePath i => exact .recorded
  | insert entry => exact .inserted
  | delete thePath => exact .deleted
  | install tmp => exact .installed
  | returned ret => exact .done
  | died fault => exact .dead

end Leads

/-! ## What a step changes -/

section Frame
variable {env : Env} {c : Caller δ} {v : Vfs δ} {s : State} {phase : CallPhase δ}

/-- `del_path` changes the list and attributes of inodes, nothing else. -/
theorem delPath_frame (v : Vfs δ) (task : Task δ) (thePath : List UInt8) (s : State) :
    (delPath v task thePath s).2.currentState = s.currentState ∧
      (delPath v task thePath s).2.pwd = s.pwd := by
  rcases delPath_cases (Prod.eta (delPath v task thePath s)).symm with
    h | ⟨e, _, ⟨h, _⟩ | ⟨_, d, i, _, _, h⟩⟩
  · rw [h]
    exact ⟨rfl, rfl⟩
  · rw [h]
    exact ⟨rfl, rfl⟩
  · rw [h]
    exact ⟨rfl, rfl⟩

/-- The state is written under `state_lock` only. -/
theorem advance_currentState :
    (advance env c v s phase).2.currentState = s.currentState ∨
      ∃ theState, phase = .writeState theState ∧ (s.currentState : Int) ≠ theState ∧
        (advance env c v s phase).2.currentState = theState.toNat := by
  cases phase with
  | writeState theState =>
    rw [advance]
    split
    · exact .inl rfl
    · next hne => exact .inr ⟨theState, rfl, hne, enterState_currentState v c.task theState s⟩
  | readState thePath op =>
    rw [advance]
    split
    · exact .inl rfl
    · exact .inl rfl
  | delete thePath => exact .inl (delPath_frame v c.task thePath s).1
  | _ => exact .inl rfl

/-- The list is written in the sections of `add_path` and `del_path` only. -/
theorem advance_list :
    (advance env c v s phase).2.restrictPathList = s.restrictPathList ∨
      (∃ entry, phase = .insert entry ∧
        (advance env c v s phase).2.restrictPathList = entry :: s.restrictPathList) ∨
      ∃ thePath, phase = .delete thePath ∧
        (advance env c v s phase).2 = (delPath v c.task thePath s).2 := by
  cases phase with
  | writeState theState =>
    rw [advance]
    split
    · exact .inl rfl
    · exact .inl (enterState_list v c.task theState s)
  | readState thePath op =>
    rw [advance]
    split
    · exact .inl rfl
    · exact .inl rfl
  | insert entry => exact .inr (.inl ⟨entry, rfl, rfl⟩)
  | delete thePath => exact .inr (.inr ⟨thePath, rfl, rfl⟩)
  | _ => exact .inl rfl

/-- The digest is written under `password_lock` only. -/
theorem advance_pwd :
    (advance env c v s phase).2.pwd = s.pwd ∨
      ∃ tmp, phase = .install tmp ∧ (advance env c v s phase).2.pwd =
        strncpy (memsetZero s.pwd 0 digestSize) tmp digestSize := by
  cases phase with
  | writeState theState =>
    rw [advance]
    split
    · exact .inl rfl
    · exact .inl (enterState_pwd v c.task theState s)
  | readState thePath op =>
    rw [advance]
    split
    · exact .inl rfl
    · exact .inl rfl
  | delete thePath => exact .inl (delPath_frame v c.task thePath s).2
  | install tmp => exact .inr ⟨tmp, rfl, rfl⟩
  | _ => exact .inl rfl

end Frame

end RefMonitor
