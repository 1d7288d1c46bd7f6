import RefMonitor.PathSolver

/-!
# `reference_rcu_restrict_list.c`: the list of protected paths

The list is searched by three functions with three comparisons: `is_path_in` compares
whole strings, `check_black_list` compares whole strings and, for `open`, inode numbers,
and `del_path` compares over the length of the path it is given, so it takes the first
entry that *starts with* that path.

An entry keeps the mode and the flags the inode had when the path was added; removing the
entry, or switching the monitor off, writes them back.

Results: `isPathIn_eq_zero`, `checkBlackList_eq_zero` and `delMatches_iff` give the three
notions of a match; `addPath_cases` and `delPath_cases` say everything the two updates can
do, and the later modules use these and do not unfold the functions.
-/

namespace RefMonitor
open CString

variable {δ : Type}

/-! ## The source's functions -/

/-- `0` when the path is listed, `1` when it is not. -/
def isPathIn (s : State) (thePath : List UInt8) : Int :=
  if s.restrictPathList.any (fun p => strcmp thePath p.path == 0) then 0 else 1

/-- The attributes an entry recorded. -/
def RcuRestrict.recorded (entry : RcuRestrict) : Attr :=
  { iMode := entry.oMode.toUInt16, iFlags := entry.oFlags }

/-- The body of the loop of `restore_black_list_entries`; an entry whose path is gone is
skipped. -/
def restoreEntry (v : Vfs δ) (task : Task δ) (s : State) (entry : RcuRestrict) : State :=
  match v.kernPath task.cwd entry.path with
  | .error _ => s
  | .ok dentry =>
    match v.dInode dentry with
    | none => s
    | some i => s.setAttr i entry.recorded

def restoreBlackListEntries (v : Vfs δ) (task : Task δ) (s : State) : State :=
  s.restrictPathList.foldl (restoreEntry v task) s

/-- `add_path(the_path, path)`. `list_add_rcu` puts the new entry at the head. -/
def addPath (v : Vfs δ) (task : Task δ) (alloc : Nat → Bool) (thePath : List UInt8) (dentry : δ)
    (s : State) : Int × State :=
  if isPathIn s thePath = 0 then (fail .eexist, s)
  else if task.err ≠ 0 then (task.err, s)
  else if !alloc 0 then (fail .enomem, s)
  else if !alloc 1 then (fail .enomem, s)
  else
    match v.dInode dentry with
    | none => (fail .enoent, s)
    | some i =>
      let entry : RcuRestrict :=
        { path := cstr thePath
          path_nul := zero_notMem_cstr thePath
          iIno := i.iIno
          oMode := (s.inodes i).iMode.toUInt32
          oFlags := (s.inodes i).iFlags }
      (0, { s with restrictPathList := entry :: s.restrictPathList })

/-- The comparison of `del_path`: over the length of the given path. -/
def delMatches (thePath : List UInt8) (entry : RcuRestrict) : Bool :=
  strncmp (strlen thePath) thePath entry.path == 0

/-- `del_path(the_path)`. The first entry that matches is taken off the list, whatever
its own path resolves to by now. -/
def delPath (v : Vfs δ) (task : Task δ) (thePath : List UInt8) (s : State) : Int × State :=
  if task.err ≠ 0 then (fail .enoent, s)
  else
    match s.restrictPathList.find? (delMatches thePath) with
    | none => (fail .enoent, s)
    | some entry =>
      let removed := { s with restrictPathList := s.restrictPathList.eraseP (delMatches thePath) }
      match v.kernPath task.cwd entry.path with
      | .error e => (fail e, removed)
      | .ok dentry =>
        match v.dInode dentry with
        | none => (fail .enoent, removed)
        | some i => (0, removed.setAttr i entry.recorded)

/-- The directories no path of which can be listed, with the length each is compared over. -/
def forbittenDirs : List (List UInt8 × Nat) :=
  [(ascii "/proc", 5), (ascii "/sys", 4), (ascii "/run", 4), (ascii "/var", 4), (ascii "/tmp", 4),
   (ascii "/bin", 4), (ascii "/etc", 4), (ascii "/lib", 4)]

def forbittenPath (env : Env) (thePath : List UInt8) : Bool :=
  (strlen thePath == 1 && thePath.headD 0 == slash) ||
  forbittenDirs.any (fun d => strncmp d.2 thePath d.1 == 0) ||
  strcmp env.singleFileName thePath == 0

/-- The inode a path resolves to, `target_path.dentry->d_inode` of `check_black_list`. -/
def targetInode (v : Vfs δ) (task : Task δ) (path : List UInt8) : Option Inode :=
  match v.kernPath task.cwd (cstr path) with
  | .error _ => none
  | .ok dentry => v.dInode dentry

/-- `check_black_list(path, is_open)`: `0` when the path is listed. With `is_open` an entry
also matches by the inode number of what the path resolves to. -/
def checkBlackList (v : Vfs δ) (task : Task δ) (s : State) (path : List UInt8) (isOpen : Bool) :
    Int :=
  if s.restrictPathList.any (fun entry => strcmp path entry.path == 0 ||
      (isOpen && (targetInode v task path).any (fun i => entry.iIno == i.iIno)))
  then 0 else fail .eexist

/-! ## What a search finds -/

theorem RcuRestrict.cstr_path (e : RcuRestrict) : cstr e.path = e.path := cstr_eq_self e.path_nul

theorem isPathIn_eq_zero {s : State} {thePath : List UInt8} :
    isPathIn s thePath = 0 ↔ ∃ e ∈ s.restrictPathList, e.path = cstr thePath := by
  unfold isPathIn
  split
  · next h =>
    obtain ⟨e, he, hc⟩ := List.any_eq_true.mp h
    rw [beq_iff_eq, strcmp_eq_zero, e.cstr_path] at hc
    exact ⟨fun _ => ⟨e, he, hc.symm⟩, fun _ => rfl⟩
  · next h =>
    refine ⟨fun h1 => absurd h1 (by decide), ?_⟩
    rintro ⟨e, he, hp⟩
    refine absurd (List.any_eq_true.mpr ⟨e, he, ?_⟩) h
    rw [beq_iff_eq, strcmp_eq_zero, e.cstr_path, hp]

/-- `del_path` takes an entry whose path starts with the given one. -/
theorem delMatches_iff {thePath : List UInt8} {e : RcuRestrict} :
    delMatches thePath e = true ↔ cstr thePath <+: e.path := by
  rw [delMatches, beq_iff_eq, strncmp_strlen_eq_zero, e.cstr_path]

theorem targetInode_eq_some {v : Vfs δ} {task : Task δ} {path : List UInt8} {i : Inode} :
    targetInode v task path = some i ↔
      ∃ d, v.kernPath task.cwd (cstr path) = .ok d ∧ v.dInode d = some i := by
  unfold targetInode
  cases hk : v.kernPath task.cwd (cstr path) with
  | error e => simp
  | ok d => simp

/-- A path is on the black list when an entry has it as its path or, for `open`, has the
number of the inode it resolves to. -/
theorem checkBlackList_eq_zero {v : Vfs δ} {task : Task δ} {s : State} {path : List UInt8}
    {isOpen : Bool} :
    checkBlackList v task s path isOpen = 0 ↔
      ∃ e ∈ s.restrictPathList, e.path = cstr path ∨
        (isOpen = true ∧ ∃ i, targetInode v task path = some i ∧ e.iIno = i.iIno) := by
  have hentry : ∀ e : RcuRestrict,
      ((strcmp path e.path == 0 ||
        (isOpen && (targetInode v task path).any (fun i => e.iIno == i.iIno))) = true) ↔
      (e.path = cstr path ∨ (isOpen = true ∧ ∃ i, targetInode v task path = some i ∧
        e.iIno = i.iIno)) := by
    intro e
    rw [Bool.or_eq_true, Bool.and_eq_true, beq_iff_eq, strcmp_eq_zero, e.cstr_path,
      Option.any_eq_true]
    refine or_congr eq_comm (and_congr Iff.rfl ?_)
    simp
  unfold checkBlackList
  split
  · next h =>
    obtain ⟨e, he, hc⟩ := List.any_eq_true.mp h
    exact ⟨fun _ => ⟨e, he, (hentry e).mp hc⟩, fun _ => rfl⟩
  · next h =>
    refine ⟨fun h1 => absurd h1 (fail_ne_zero _), ?_⟩
    rintro ⟨e, he, hp⟩
    exact absurd (List.any_eq_true.mpr ⟨e, he, (hentry e).mpr hp⟩) h

/-! ## What an update does -/

/-- Restoring the attributes changes nothing but attributes. -/
theorem restoreBlackListEntries_eq (v : Vfs δ) (task : Task δ) (s : State) :
    ∃ inodes, restoreBlackListEntries v task s = { s with inodes := inodes } := by
  have hfold : ∀ (l : List RcuRestrict) (s : State),
      ∃ inodes, l.foldl (restoreEntry v task) s = { s with inodes := inodes } := by
    intro l
    induction l with
    | nil => exact fun s => ⟨s.inodes, rfl⟩
    | cons e l ih =>
      intro s
      have hstep : ∃ inodes, restoreEntry v task s e = { s with inodes := inodes } := by
        unfold restoreEntry
        cases v.kernPath task.cwd e.path with
        | error e => exact ⟨s.inodes, rfl⟩
        | ok d =>
          dsimp only
          cases v.dInode d with
          | none => exact ⟨s.inodes, rfl⟩
          | some i => exact ⟨_, rfl⟩
      obtain ⟨inodes, hs⟩ := hstep
      obtain ⟨inodes', hr⟩ := ih (restoreEntry v task s e)
      exact ⟨inodes', by rw [List.foldl_cons, hr, hs]⟩
  exact hfold s.restrictPathList s

/-- The entry `add_path` makes for a path and an inode. -/
def newEntry (s : State) (thePath : List UInt8) (i : Inode) : RcuRestrict :=
  { path := cstr thePath
    path_nul := zero_notMem_cstr thePath
    iIno := i.iIno
    oMode := (s.inodes i).iMode.toUInt32
    oFlags := (s.inodes i).iFlags }

/-- What is recorded is what the inode has at that moment. -/
@[simp] theorem newEntry_recorded (s : State) (thePath : List UInt8) (i : Inode) :
    (newEntry s thePath i).recorded = s.inodes i := by
  simp [newEntry, RcuRestrict.recorded]

/-- `add_path` either fails and changes nothing, or puts one entry at the head of the list. -/
theorem addPath_outcome {v : Vfs δ} {task : Task δ} {alloc : Nat → Bool} {thePath : List UInt8}
    {dentry : δ} {s s' : State} {r : Int} (h : addPath v task alloc thePath dentry s = (r, s')) :
    (r ≠ 0 ∧ s' = s) ∨ (r = 0 ∧ isPathIn s thePath ≠ 0 ∧ ∃ i, v.dInode dentry = some i ∧
      s' = { s with restrictPathList := newEntry s thePath i :: s.restrictPathList }) := by
  have hfail : ∀ {r₀ : Int} {s₀ : State}, r₀ ≠ 0 → (r₀, s₀) = (r, s') → r ≠ 0 ∧ s' = s₀ := by
    intro r₀ s₀ hne heq
    obtain ⟨rfl, rfl⟩ := Prod.mk.inj heq
    exact ⟨hne, rfl⟩
  unfold addPath at h
  split at h
  · exact .inl (hfail (fail_ne_zero _) h)
  · next hin =>
    split at h
    · next herr => exact .inl (hfail herr h)
    · split at h
      · exact .inl (hfail (fail_ne_zero _) h)
      · split at h
        · exact .inl (hfail (fail_ne_zero _) h)
        · split at h
          · exact .inl (hfail (fail_ne_zero _) h)
          · next i hi =>
            obtain ⟨hr, hs⟩ := Prod.mk.inj h
            exact .inr ⟨hr.symm, hin, i, hi, hs.symm⟩

theorem addPath_cases {v : Vfs δ} {task : Task δ} {alloc : Nat → Bool} {thePath : List UInt8}
    {dentry : δ} {s s' : State} {r : Int} (h : addPath v task alloc thePath dentry s = (r, s')) :
    s' = s ∨ (r = 0 ∧ isPathIn s thePath ≠ 0 ∧ ∃ i, v.dInode dentry = some i ∧
      s' = { s with restrictPathList := newEntry s thePath i :: s.restrictPathList }) :=
  (addPath_outcome h).imp_left And.right

/-- With `err` reading as zero and memory to spare, `add_path` of a new path succeeds. -/
theorem addPath_new {v : Vfs δ} {task : Task δ} {alloc : Nat → Bool} {thePath : List UInt8}
    {dentry : δ} {s : State} {i : Inode} (herr : task.err = 0) (halloc : ∀ k, alloc k = true)
    (hi : v.dInode dentry = some i) (hin : isPathIn s thePath ≠ 0) :
    addPath v task alloc thePath dentry s =
      (0, { s with restrictPathList := newEntry s thePath i :: s.restrictPathList }) := by
  simp [addPath, hin, herr, halloc, hi, newEntry]

/-- The list around the first entry `del_path` matches. -/
theorem eraseP_delMatches {s : State} {thePath : List UInt8} {e : RcuRestrict}
    (he : s.restrictPathList.find? (delMatches thePath) = some e) :
    ∃ before after, s.restrictPathList = before ++ e :: after ∧
      s.restrictPathList.eraseP (delMatches thePath) = before ++ after := by
  obtain ⟨hm, before, after, hlist, hno⟩ := List.find?_eq_some_iff_append.mp he
  refine ⟨before, after, hlist, ?_⟩
  rw [hlist, List.eraseP_append_right _ (fun x hx => by simpa using hno x hx),
    List.eraseP_cons_of_pos hm]

/-- The state after `del_path` has taken the first match off the list. -/
def removeMatch (thePath : List UInt8) (s : State) : State :=
  { s with restrictPathList := s.restrictPathList.eraseP (delMatches thePath) }

/-- With `err` reading as zero, `del_path` of a listed path that still resolves succeeds. -/
theorem delPath_found {v : Vfs δ} {task : Task δ} {thePath : List UInt8} {s : State}
    {e : RcuRestrict} {d : δ} {i : Inode} (herr : task.err = 0)
    (he : s.restrictPathList.find? (delMatches thePath) = some e)
    (hk : v.kernPath task.cwd e.path = .ok d) (hi : v.dInode d = some i) :
    delPath v task thePath s = (0, (removeMatch thePath s).setAttr i e.recorded) := by
  simp only [delPath, herr, ne_eq, not_true_eq_false, if_false, he, hk, hi, removeMatch]

/-- `del_path` either changes nothing, or takes the first match off the list and, when its
path resolves, writes the recorded attributes back to that inode. -/
theorem delPath_cases {v : Vfs δ} {task : Task δ} {thePath : List UInt8} {s s' : State} {r : Int}
    (h : delPath v task thePath s = (r, s')) :
    s' = s ∨ ∃ e, s.restrictPathList.find? (delMatches thePath) = some e ∧
      ((s' = removeMatch thePath s ∧ ∀ d i, v.kernPath task.cwd e.path = .ok d →
          v.dInode d = some i → False) ∨
       (r = 0 ∧ ∃ d i, v.kernPath task.cwd e.path = .ok d ∧ v.dInode d = some i ∧
          s' = (removeMatch thePath s).setAttr i e.recorded)) := by
  unfold delPath at h
  split at h
  · exact .inl (Prod.mk.inj h).2.symm
  · split at h
    · exact .inl (Prod.mk.inj h).2.symm
    · next e he =>
      refine .inr ⟨e, he, ?_⟩
      dsimp only at h
      split at h
      · next err hk =>
        refine .inl ⟨(Prod.mk.inj h).2.symm, fun d i hd _ => ?_⟩
        rw [hk] at hd
        exact absurd hd (by simp)
      · next d hk =>
        split at h
        · next hi =>
          refine .inl ⟨(Prod.mk.inj h).2.symm, fun d' i hd hi' => ?_⟩
          rw [hk] at hd
          obtain rfl := Except.ok.inj hd
          rw [hi] at hi'
          exact absurd hi' (by simp)
        · next i hi =>
          obtain ⟨hr, hs⟩ := Prod.mk.inj h
          exact .inr ⟨hr.symm, d, i, hk, hi, hs.symm⟩

end RefMonitor
