import RefMonitor.Atomicity
import RefMonitor.Lib.RefCount

/-!
# The functions that take references

`kern_path` and `get_fs_pwd` take a reference to the path they return and `path_put` gives it
back. The functions that call them are given here once more, with the counters. A `struct path`
passed by value shares the reference of its caller.

Results: without the counters each of them is the function of the other modules
(`fillAbsolutePath_erase` to `doChangePath_erase`).
-/

namespace RefMonitor
open CString RefCount

variable {δ : Type} [DecidableEq δ]

namespace Counted

/-! ## The source's functions, with the counters -/

/-- When the buffer cannot be had, the reference to the cwd is kept. -/
def resolveRelativePath (env : Env) (v : Vfs δ) (task : Task δ) (allocated : Bool)
    (pathStr : List UInt8) (refs : Refs δ) : Except Fault ((Int × List UInt8) × Refs δ) :=
  let refs := refs.get task.cwd
  if !allocated then .ok ((fail .enomem, pathStr), refs)
  else
    match v.dentryPathRaw task.cwd (env.kmalloc pathMax) with
    | none => .error .errPtr
    | some (buf, cwd) =>
      let resolvedPath := joinInPlace buf cwd pathStr
      .ok ((0, strncpy (memsetZero pathStr 0 pathMax) resolvedPath (strlen resolvedPath)),
        refs.put task.cwd)

def fillAbsolutePath (env : Env) (v : Vfs δ) (task : Task δ) (alloc : Nat → Bool)
    (pathname : List UInt8) (refs : Refs δ) : Except Fault ((Int × List UInt8) × Refs δ) :=
  let resolved : Except Fault ((Int × List UInt8) × Refs δ) :=
    if pathname.headD 0 ≠ slash then resolveRelativePath env v task (alloc 0) pathname refs
    else .ok ((0, pathname), refs)
  match resolved with
  | .error f => .error f
  | .ok ((err, pathname), refs) =>
    if err ≠ 0 then .ok ((err, pathname), refs)
    else
      match v.kernPath task.cwd (cstr pathname) with
      | .error _ => .ok ((fail .enoent, pathname), refs)
      | .ok dentry =>
        let refs := refs.get dentry
        if !alloc 1 then .ok ((fail .enomem, pathname), refs)
        else
          match v.dentryPathRaw dentry (List.replicate pathMax 0) with
          | none => .error .errPtr
          | some (buffer, at_) =>
            let fullPath := buffer.drop at_
            let cleared := memsetZero pathname 0 (strlen pathname)
            .ok ((0, strncpy cleared fullPath (strlen fullPath)), refs.put dentry)

def markInodeReadOnlyByPathname (v : Vfs δ) (task : Task δ) (pathname : List UInt8)
    (w : State × Refs δ) : Int × State × Refs δ :=
  match v.kernPath task.cwd (cstr pathname) with
  | .error e => (fail e, w)
  | .ok dentry =>
    match v.dInode dentry with
    -- `if (!path.dentry) return -ENOENT`, which never happens and would keep the reference
    | none => (fail .enoent, w.1, w.2.get dentry)
    | some i =>
      (0, w.1.setAttr i (markInodeReadOnly (w.1.inodes i)), (w.2.get dentry).put dentry)

/-- The loop body takes a reference and gives none back. -/
def restoreEntry (v : Vfs δ) (task : Task δ) (w : State × Refs δ) (entry : RcuRestrict) :
    State × Refs δ :=
  match v.kernPath task.cwd entry.path with
  | .error _ => w
  | .ok dentry =>
    match v.dInode dentry with
    | none => (w.1, w.2.get dentry)
    | some i => (w.1.setAttr i entry.recorded, w.2.get dentry)

def restoreBlackListEntries (v : Vfs δ) (task : Task δ) (w : State × Refs δ) : State × Refs δ :=
  w.1.restrictPathList.foldl (restoreEntry v task) w

/-- `path_put(&path)` at the end of the successful return only. -/
def addPath (v : Vfs δ) (task : Task δ) (alloc : Nat → Bool) (thePath : List UInt8) (dentry : δ)
    (w : State × Refs δ) : Int × State × Refs δ :=
  if isPathIn w.1 thePath = 0 then (fail .eexist, w)
  else if task.err ≠ 0 then (task.err, w)
  else if !alloc 0 then (fail .enomem, w)
  else if !alloc 1 then (fail .enomem, w)
  else
    match v.dInode dentry with
    | none => (fail .enoent, w)
    | some i =>
      (0, { w.1 with restrictPathList := newEntry w.1 thePath i :: w.1.restrictPathList },
        w.2.put dentry)

def delPath (v : Vfs δ) (task : Task δ) (thePath : List UInt8) (w : State × Refs δ) :
    Int × State × Refs δ :=
  if task.err ≠ 0 then (fail .enoent, w)
  else
    match w.1.restrictPathList.find? (delMatches thePath) with
    | none => (fail .enoent, w)
    | some entry =>
      let removed := removeMatch thePath w.1
      match v.kernPath task.cwd entry.path with
      | .error e => (fail e, removed, w.2)
      | .ok dentry =>
        let refs := w.2.get dentry
        match v.dInode dentry with
        | none => (fail .enoent, removed, refs.put dentry)
        | some i => (0, removed.setAttr i entry.recorded, refs.put dentry)

/-- The loop of `check_black_list`, with the path the target was resolved to. -/
def checkEntries (v : Vfs δ) (path : List UInt8) (isOpen : Bool) (target : Except Errno δ)
    (refs : Refs δ) : List RcuRestrict → Int × Refs δ
  | [] => (fail .eexist, refs)
  | entry :: rest =>
    if strcmp path entry.path = 0 then
      match target with
      | .error _ => (0, refs)
      | .ok dentry => (0, refs.put dentry)
    else
      match target with
      | .error _ => checkEntries v path isOpen target refs rest
      | .ok dentry =>
        if isOpen && (v.dInode dentry).any (fun i => entry.iIno == i.iIno) then
          (0, refs.put dentry)
        else checkEntries v path isOpen target refs rest

def checkBlackList (v : Vfs δ) (task : Task δ) (path : List UInt8) (isOpen : Bool)
    (w : State × Refs δ) : Int × Refs δ :=
  match v.kernPath task.cwd (cstr path) with
  | .error e => checkEntries v path isOpen (.error e) w.2 w.1.restrictPathList
  | .ok dentry => checkEntries v path isOpen (.ok dentry) (w.2.get dentry) w.1.restrictPathList

def doChangeState (env : Env) (v : Vfs δ) (task : Task δ) (thePwd : List UInt8) (theState : Int)
    (w : State × Refs δ) : Int × State × Refs δ :=
  if task.euid ≠ env.admin then (fail .eperm, w)
  else if !isState theState then (fail .einval, w)
  else if checkPwd env w.1 thePwd ≠ 0 then (fail .eacces, w)
  else if (w.1.currentState : Int) = theState then (fail .ecanceled, w)
  else
    let s := { w.1 with currentState := theState.toNat }
    if isOn s.currentState then (0, { s with probes := fun _ => true }, w.2)
    else (0, restoreBlackListEntries v task ({ s with probes := fun _ => false }, w.2))

/-- The reference that `kern_path` took is given back after `add_path` or `del_path`. -/
def doChangePath (env : Env) (v : Vfs δ) (task : Task δ) (thePwd thePath : List UInt8) (op : Int)
    (w : State × Refs δ) : Except Fault (Int × State × Refs δ) :=
  if task.euid ≠ env.admin then .ok (fail .eperm, w)
  else if op ≠ addPathOp ∧ op ≠ removePathOp then .ok (fail .einval, w)
  else if checkPwd env w.1 thePwd ≠ 0 then .ok (fail .eacces, w)
  else if ¬ (w.1.currentState = stateRecOff ∨ w.1.currentState = stateRecOn) then
    .ok (fail .ecanceled, w)
  else
    match fillAbsolutePath env v task task.alloc thePath w.2 with
    | .error f => .error f
    | .ok ((ret, thePath), refs) =>
      if ret ≠ 0 then .ok (ret, w.1, refs)
      else if forbittenPath env thePath then .ok (fail .einval, w.1, refs)
      else
        match v.kernPath task.cwd (cstr thePath) with
        | .error e => .ok (fail e, w.1, refs)
        | .ok dentry =>
          let out :=
            if op = addPathOp then
              addPath v task (fun k => task.alloc (k + 2)) thePath dentry (w.1, refs.get dentry)
            else delPath v task thePath (w.1, refs.get dentry)
          .ok (out.1, out.2.1, out.2.2.put dentry)

/-! ## Without the counters -/

section Erase
variable {env : Env} {v : Vfs δ} {task : Task δ}

theorem resolveRelativePath_erase (allocated : Bool) (pathStr : List UInt8) (refs : Refs δ) :
    (resolveRelativePath env v task allocated pathStr refs).map Prod.fst =
      RefMonitor.resolveRelativePath env v task allocated pathStr := by
  unfold resolveRelativePath RefMonitor.resolveRelativePath
  cases allocated with
  | false => rfl
  | true =>
    cases v.dentryPathRaw task.cwd (env.kmalloc pathMax) with
    | none => rfl
    | some found => rfl

theorem fillAbsolutePath_erase (alloc : Nat → Bool) (pathname : List UInt8) (refs : Refs δ) :
    (fillAbsolutePath env v task alloc pathname refs).map Prod.fst =
      RefMonitor.fillAbsolutePath env v task alloc pathname := by
  -- what is resolved first is the same text
  have hresolved : (if pathname.headD 0 ≠ slash then
        resolveRelativePath env v task (alloc 0) pathname refs
      else .ok ((0, pathname), refs)).map Prod.fst =
      if pathname.headD 0 ≠ slash then
        RefMonitor.resolveRelativePath env v task (alloc 0) pathname
      else .ok (0, pathname) := by
    by_cases hrel : pathname.headD 0 ≠ slash
    · rw [if_pos hrel, if_pos hrel]
      exact resolveRelativePath_erase ..
    · rw [if_neg hrel, if_neg hrel]
      rfl
  unfold fillAbsolutePath RefMonitor.fillAbsolutePath
  dsimp only
  rw [← hresolved]
  cases (if pathname.headD 0 ≠ slash then
      resolveRelativePath env v task (alloc 0) pathname refs
    else .ok ((0, pathname), refs)) with
  | error f => rfl
  | ok out =>
    obtain ⟨⟨err, name⟩, refs⟩ := out
    dsimp only [Except.map]
    by_cases herr : err ≠ 0
    · rw [if_pos herr, if_pos herr]
    · rw [if_neg herr, if_neg herr]
      cases v.kernPath task.cwd (cstr name) with
      | error e => rfl
      | ok d =>
        dsimp only
        cases alloc 1 with
        | false => rfl
        | true =>
          cases v.dentryPathRaw d (List.replicate pathMax 0) with
          | none => rfl
          | some found => rfl

theorem fillAbsolutePath_ok {alloc : Nat → Bool} {pathname : List UInt8} {refs refs' : Refs δ}
    {out : Int × List UInt8}
    (h : fillAbsolutePath env v task alloc pathname refs = .ok (out, refs')) :
    RefMonitor.fillAbsolutePath env v task alloc pathname = .ok out := by
  rw [← fillAbsolutePath_erase alloc pathname refs, h]
  rfl

theorem markInodeReadOnlyByPathname_erase (pathname : List UInt8) (w : State × Refs δ) :
    ((markInodeReadOnlyByPathname v task pathname w).1,
        (markInodeReadOnlyByPathname v task pathname w).2.1) =
      RefMonitor.markInodeReadOnlyByPathname v task pathname w.1 := by
  unfold markInodeReadOnlyByPathname RefMonitor.markInodeReadOnlyByPathname
  cases v.kernPath task.cwd (cstr pathname) with
  | error e => rfl
  | ok d =>
    dsimp only
    cases v.dInode d with
    | none => rfl
    | some i => rfl

theorem restoreEntry_erase (w : State × Refs δ) (entry : RcuRestrict) :
    (restoreEntry v task w entry).1 = RefMonitor.restoreEntry v task w.1 entry := by
  unfold restoreEntry RefMonitor.restoreEntry
  cases v.kernPath task.cwd entry.path with
  | error e => rfl
  | ok d =>
    dsimp only
    cases v.dInode d with
    | none => rfl
    | some i => rfl

theorem restoreBlackListEntries_erase (w : State × Refs δ) :
    (restoreBlackListEntries v task w).1 = RefMonitor.restoreBlackListEntries v task w.1 :=
  (List.foldl_hom Prod.fst fun w entry => (restoreEntry_erase w entry).symm).symm

theorem addPath_erase (alloc : Nat → Bool) (thePath : List UInt8) (dentry : δ)
    (w : State × Refs δ) :
    ((addPath v task alloc thePath dentry w).1, (addPath v task alloc thePath dentry w).2.1) =
      RefMonitor.addPath v task alloc thePath dentry w.1 := by
  unfold addPath RefMonitor.addPath
  by_cases hin : isPathIn w.1 thePath = 0
  · rw [if_pos hin, if_pos hin]
  · rw [if_neg hin, if_neg hin]
    by_cases herr : task.err ≠ 0
    · rw [if_pos herr, if_pos herr]
    · rw [if_neg herr, if_neg herr]
      cases alloc 0 with
      | false => rfl
      | true =>
        cases alloc 1 with
        | false => rfl
        | true =>
          cases v.dInode dentry with
          | none => rfl
          | some i => rfl

theorem delPath_erase (thePath : List UInt8) (w : State × Refs δ) :
    ((delPath v task thePath w).1, (delPath v task thePath w).2.1) =
      RefMonitor.delPath v task thePath w.1 := by
  unfold delPath RefMonitor.delPath
  by_cases herr : task.err ≠ 0
  · rw [if_pos herr, if_pos herr]
  · rw [if_neg herr, if_neg herr]
    cases w.1.restrictPathList.find? (delMatches thePath) with
    | none => rfl
    | some entry =>
      dsimp only
      cases v.kernPath task.cwd entry.path with
      | error e => rfl
      | ok d =>
        dsimp only
        cases v.dInode d with
        | none => rfl
        | some i => rfl

/-- An entry is matched by its path, or on `open` by the inode number of the target. -/
def matchesEntry (v : Vfs δ) (path : List UInt8) (isOpen : Bool) (target : Except Errno δ)
    (entry : RcuRestrict) : Bool :=
  strcmp path entry.path == 0 ||
    (isOpen && (target.toOption.bind v.dInode).any (fun i => entry.iIno == i.iIno))

/-- The loop gives the reference back at the first match, and keeps it at the end. -/
theorem checkEntries_eq (path : List UInt8) (isOpen : Bool) (target : Except Errno δ)
    (refs : Refs δ) (list : List RcuRestrict) :
    checkEntries v path isOpen target refs list =
      if list.any (matchesEntry v path isOpen target) then
        (0, match target with
          | .error _ => refs
          | .ok dentry => refs.put dentry)
      else (fail .eexist, refs) := by
  induction list with
  | nil => rfl
  | cons entry rest ih =>
    rw [List.any_cons, matchesEntry]
    unfold checkEntries
    by_cases hpath : strcmp path entry.path = 0
    · rw [if_pos hpath, hpath]
      cases target with
      | error e => rfl
      | ok d => rfl
    · rw [if_neg hpath, beq_false_of_ne hpath, Bool.false_or]
      cases target with
      | error e =>
        cases isOpen with
        | false => exact ih
        | true => exact ih
      | ok d =>
        have hinode : (Except.ok d : Except Errno δ).toOption.bind v.dInode = v.dInode d := rfl
        rw [hinode]
        dsimp only at ih ⊢
        rw [ih]
        cases (isOpen && (v.dInode d).any fun i => entry.iIno == i.iIno) with
        | true => rfl
        | false => rfl

theorem checkBlackList_erase (path : List UInt8) (isOpen : Bool) (w : State × Refs δ) :
    (checkBlackList v task path isOpen w).1 =
      RefMonitor.checkBlackList v task w.1 path isOpen := by
  unfold checkBlackList RefMonitor.checkBlackList targetInode
  cases v.kernPath task.cwd (cstr path) with
  | error e =>
    dsimp only
    rw [checkEntries_eq]
    split
    · next h => exact (if_pos h).symm
    · next h => exact (if_neg h).symm
  | ok d =>
    dsimp only
    rw [checkEntries_eq]
    split
    · next h => exact (if_pos h).symm
    · next h => exact (if_neg h).symm

theorem doChangeState_erase (thePwd : List UInt8) (theState : Int) (w : State × Refs δ) :
    ((doChangeState env v task thePwd theState w).1,
        (doChangeState env v task thePwd theState w).2.1) =
      RefMonitor.doChangeState env v task thePwd theState w.1 := by
  unfold doChangeState RefMonitor.doChangeState
  split
  · rfl
  · split
    · rfl
    · split
      · rfl
      · split
        · rfl
        · dsimp only
          split
          · rfl
          · rw [restoreBlackListEntries_erase]

theorem doChangePath_erase (thePwd thePath : List UInt8) (op : Int) (w : State × Refs δ) :
    (doChangePath env v task thePwd thePath op w).map (fun out => (out.1, out.2.1)) =
      RefMonitor.doChangePath env v task thePwd thePath op w.1 := by
  unfold doChangePath RefMonitor.doChangePath
  split
  · rfl
  · split
    · rfl
    · split
      · rfl
      · split
        · rfl
        · rw [← fillAbsolutePath_erase task.alloc thePath w.2]
          cases fillAbsolutePath env v task task.alloc thePath w.2 with
          | error f => rfl
          | ok out =>
            obtain ⟨⟨ret, full⟩, refs⟩ := out
            dsimp only [Except.map]
            by_cases hret : ret ≠ 0
            · rw [if_pos hret, if_pos hret]
            · rw [if_neg hret, if_neg hret]
              by_cases hforb : forbittenPath env full = true
              · rw [if_pos hforb, if_pos hforb]
              · rw [if_neg hforb, if_neg hforb]
                cases v.kernPath task.cwd (cstr full) with
                | error e => rfl
                | ok d =>
                  dsimp only
                  by_cases hop : op = addPathOp
                  · rw [if_pos hop, if_pos hop]
                    exact congrArg Except.ok (addPath_erase _ full d (w.1, refs.get d))
                  · rw [if_neg hop, if_neg hop]
                    exact congrArg Except.ok (delPath_erase full (w.1, refs.get d))

end Erase

end Counted

end RefMonitor
