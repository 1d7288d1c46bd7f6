import RefMonitor.JudgedText

/-!
# Files that are not on the list

`check_black_list` knows a file by the inode number an entry recorded. A number identifies a file
only together with its file system, which no entry records. With more than one file system mounted
a file that nobody listed can have a number that is recorded, and it is then denied and marked like
a listed one.

The `open` handler errs in a second way. It judges a file by its path inside its own file system,
so that with a file system on `/mnt` the name `/mnt/a` is judged as `/a`, and a relative name below
`/mnt` as one below the root.

Which file an entry was made for is kept here beside the list (`ListedFiles`); no code reads it.

Results:
1. `checkBlackList_collateral_iff`: one path.
2. `preDoFilpOpenHandler_marks`, `preDoFilpOpenHandler_denies`: one request.
3. `no_collateral_iff`: the lists and mounts on which nothing else is denied.
4. `photo_marked`: a file on another file system that shares a number; `mounted_name_covered`:
   one that is taken for the listed `/a`.
-/

namespace RefMonitor
open CString

variable {δ : Type}

/-- The file each entry of the list was made for: `add_path` records its number. -/
structure ListedFiles (s : State) where
  file : RcuRestrict → Inode
  recorded : ∀ e ∈ s.restrictPathList, (file e).iIno = e.iIno

/-- The file is one that is listed: the same file system and the same number. -/
def ListedFiles.Has {s : State} (listed : ListedFiles s) (i : Inode) : Prop :=
  ∃ e ∈ s.restrictPathList, listed.file e = i

variable {v : Vfs δ} {task : Task δ} {s : State}

/-- A path is covered only as a listed path or as a name of a listed file. -/
def CoversOnlyListed (v : Vfs δ) (task : Task δ) (listed : ListedFiles s) (path : List UInt8) :
    Prop :=
  ListCovers v task s path →
    PathListed s path ∨ ∃ i, targetInode v task path = some i ∧ listed.Has i

/-- One path: that holds exactly when the path is listed, or leads to no file with a recorded
number, or leads to a listed file. -/
theorem checkBlackList_collateral_iff {listed : ListedFiles s} {path : List UInt8} :
    CoversOnlyListed v task listed path ↔
      PathListed s path ∨
        ∀ i, targetInode v task path = some i → NumberRecorded s i → listed.Has i := by
  rw [CoversOnlyListed, listCovers_iff, Covered]
  constructor
  · intro h
    rcases Classical.em (PathListed s path) with hpath | hpath
    · exact .inl hpath
    · refine .inr fun i hi hnumber => ?_
      obtain ⟨i', hi', hhas⟩ := (h (.inr ⟨i, hi, hnumber⟩)).resolve_left hpath
      rw [hi] at hi'
      exact Option.some.inj hi' ▸ hhas
  · rintro (hpath | hall)
    · exact fun _ => .inl hpath
    · rintro (hpath | ⟨i, hi, hnumber⟩)
      · exact .inl hpath
      · exact .inr ⟨i, hi, hall i hi hnumber⟩

/-! ## The handler -/

/-- The file lies on another file system than every listed one, and no listed path leads to it. -/
structure Foreign (v : Vfs δ) (task : Task δ) (listed : ListedFiles s) (i : Inode) : Prop where
  elsewhere : ∀ e ∈ s.restrictPathList, (listed.file e).iSb ≠ i.iSb
  unlisted : ∀ e ∈ s.restrictPathList, targetInode v task e.path ≠ some i

/-- The user memory still holds the name the kernel has copied, whatever stands behind it. -/
def OpenRequest.HoldsName (req : OpenRequest) : Prop :=
  ∀ memory, req.uptr = some memory → cstr (copyFromUser pathMax pathMax memory) = req.name

/-- Nothing but what is listed is denied, to threads with this cwd. -/
structure NoCollateral (env : Env) (v : Vfs δ) (task : Task δ) (s : State) (listed : ListedFiles s) :
    Prop where
  /-- `check_black_list(path, 1)` answers zero only for listed paths and names of listed files. -/
  check : ∀ path, CoversOnlyListed v task listed path
  /-- No request marks a file on another file system than every listed one, unless a path of the
  file is itself listed. -/
  marks : ∀ {alloc : Nat → Bool} {req : OpenRequest} {r : HookResult} {i : Inode},
    preDoFilpOpenHandler env v { task with alloc := alloc } req s = .ok r → Foreign v task listed i →
    r.state.inodes i = s.inodes i
  /-- No request to open such a file is denied. -/
  denies : ∀ {alloc : Nat → Bool} {req : OpenRequest} {r : HookResult} {i : Inode},
    preDoFilpOpenHandler env v { task with alloc := alloc } req s = .ok r → req.HoldsName →
    targetInode v task req.name = some i → Foreign v task listed i → r.hookError ≠ fail .eacces

/-- Among the files that have a name, a number that is recorded belongs to a listed file, unless
the name is a listed path. -/
def NumbersIdentify (v : Vfs δ) (task : Task δ) (s : State) (listed : ListedFiles s) : Prop :=
  ∀ path i, targetInode v task path = some i → NumberRecorded s i →
    PathListed s path ∨ listed.Has i

/-- No name of such a file, with any bytes behind it, is judged by a text that is covered: a name
in an exempt directory aside, a covered text neither belongs to a swap name nor leads to a file. -/
def TextsIdentify (env : Env) (v : Vfs δ) (task : Task δ) (s : State) (listed : ListedFiles s) :
    Prop :=
  ∀ {buf text : List UInt8} {kind : TextKind} {i : Inode}, buf.length = pathMax →
    forbittenPath env (cstr buf) = false → targetInode v task buf = some i →
    Foreign v task listed i → JudgedAs v task.cwd buf kind text → Covered v task s text →
    kind ≠ .swap ∧ ∀ j, targetInode v task text ≠ some j

section
variable {env : Env} {listed : ListedFiles s} {alloc : Nat → Bool} {req : OpenRequest}
  {r : HookResult} {i : Inode}

/-- Where the numbers identify files, the name of a foreign file is not covered. -/
theorem Foreign.not_covered {path : List UInt8} (h : Foreign v task listed i)
    (hnumbers : NumbersIdentify v task s listed) (hi : targetInode v task path = some i) :
    ¬ Covered v task s path := by
  have hpath : ¬ PathListed s path := by
    rintro ⟨e, he, heq⟩
    refine h.unlisted e he ?_
    rw [heq, targetInode_cstr]
    exact hi
  rintro (hlisted | ⟨j, hj, hnumber⟩)
  · exact hpath hlisted
  · obtain rfl := Option.some.inj (hi.symm.trans hj)
    obtain ⟨e, he, hfile⟩ := (hnumbers path i hi hnumber).resolve_left hpath
    exact h.elsewhere e he (by rw [hfile])

theorem preDoFilpOpenHandler_marks (hnumbers : NumbersIdentify v task s listed)
    (h : preDoFilpOpenHandler env v { task with alloc := alloc } req s = .ok r)
    (hforeign : Foreign v task listed i) : r.state.inodes i = s.inodes i := by
  cases preDoFilpOpenHandler_verdict h with
  | nomem hr => rw [hr]; rfl
  | passed hr => rw [hr]; rfl
  | swap hr => rw [hr]; rfl
  | @denied buffer d j hcovers hk hj hr =>
    have htarget : targetInode v task buffer = some j := targetInode_eq_some.mpr ⟨d, hk, hj⟩
    have hne : i ≠ j := by
      rintro rfl
      exact hforeign.not_covered hnumbers htarget (listCovers_iff.mp hcovers)
    rw [hr]
    exact if_neg hne

/-- A handler that gets as far as the text: it has found a text of the name, found nothing to
judge, or run out of memory. -/
theorem preDoFilpOpenHandler_judged (hv : WellNamed v) (hcwd : v.Resolves task.cwd)
    (h : preDoFilpOpenHandler env v { task with alloc := alloc } req s = .ok r)
    (hdenied : r.hookError = fail .eacces) :
    ∃ memory kind text, req.uptr = some memory ∧ forbittenPath env req.name = false ∧
      JudgedAs v task.cwd (copyFromUser pathMax pathMax memory) kind text ∧ Covered v task s text ∧
      kind.Acts v task req.flags text := by
  have hpass : r ≠ .pass s := by
    rintro rfl
    exact absurd hdenied (by show (0 : Int) ≠ fail .eacces; decide)
  have hnomem : r ≠ .nomem s := by
    rintro rfl
    exact absurd hdenied (by show fail .enomem ≠ fail .eacces; decide)
  unfold preDoFilpOpenHandler at h
  split at h
  · exact absurd (Except.ok.inj h).symm hpass
  · next hexempt =>
    cases hmemory : req.uptr with
    | none =>
      rw [hmemory] at h
      exact absurd (Except.ok.inj h).symm hpass
    | some memory =>
      rw [hmemory] at h
      dsimp only at h
      split at h
      · exact absurd (Except.ok.inj h).symm hnomem
      · rw [decideOpen_eq] at h
        have hfetches := @fetchOpen_fetches δ v { task with alloc := alloc }
          (copyFromUser pathMax pathMax memory) env hv hcwd (length_copyFromUser memory)
        generalize fetchOpen env v { task with alloc := alloc } _ = fetched at h hfetches
        cases hfetches with
        | @judged kind out hjudged =>
          have hr : (kind.fetched out).verdict v { task with alloc := alloc } req.flags s = r :=
            Except.ok.inj h
          cases verdict_judged v { task with alloc := alloc } req.flags s (kind.fetched out) with
          | objected hobjected _ =>
            obtain ⟨hcovered, hacts⟩ := (objected_iff kind out).mp hobjected
            refine ⟨memory, kind, cstr out, rfl, Bool.eq_false_iff.mpr hexempt, hjudged, hcovered, ?_⟩
            cases kind with
            | file => exact hacts
            | dir => exact hacts
            | swap => exact hacts
          | passed _ hno => exact absurd (hr.symm.trans hno) hpass
        | nothing => exact absurd (Except.ok.inj h).symm hpass
        | nomem _ => exact absurd (Except.ok.inj h).symm hnomem
        | longCwd _ => cases h
        | longText _ _ _ _ => cases h

theorem preDoFilpOpenHandler_denies (hv : WellNamed v) (hcwd : v.Resolves task.cwd)
    (htexts : TextsIdentify env v task s listed)
    (h : preDoFilpOpenHandler env v { task with alloc := alloc } req s = .ok r)
    (hholds : req.HoldsName) (hi : targetInode v task req.name = some i)
    (hforeign : Foreign v task listed i) : r.hookError ≠ fail .eacces := by
  intro hdenied
  obtain ⟨memory, kind, text, hmemory, hexempt, hjudged, hcovered, hacts⟩ :=
    preDoFilpOpenHandler_judged hv hcwd h hdenied
  rw [← hholds memory hmemory] at hexempt hi
  rw [targetInode_cstr] at hi
  obtain ⟨hswap, hnone⟩ :=
    htexts (length_copyFromUser memory) hexempt hi hforeign hjudged hcovered
  cases kind with
  | file =>
    obtain ⟨-, j, hj⟩ := hacts
    exact hnone j hj
  | dir =>
    obtain ⟨-, j, hj⟩ := hacts
    exact hnone j hj
  | swap => exact hswap rfl

/-- An open for writing that may create the file is denied for every covered text, unless that
leads nowhere and is not that of a swap name. -/
theorem JudgedAs.denied {buf text : List UInt8} {kind : TextKind} (hv : WellNamed v)
    (hcwd : v.Resolves task.cwd) (hlen : buf.length = pathMax) (hlt : strlen buf < pathMax)
    (hexempt : forbittenPath env (cstr buf) = false)
    (hjudged : JudgedAs v task.cwd buf kind text) (hcovered : Covered v task s text)
    (hacts : kind = .swap ∨ ∃ j, targetInode v task text = some j) :
    ∃ r, preDoFilpOpenHandler env v { task with alloc := fun _ => true }
        (memoryRequest (cstr buf) (zero_notMem_cstr buf) hlt (oRDWR ||| oCREAT) buf) s = .ok r ∧
      r.hookError = fail .eacces := by
  obtain ⟨out, hfetch, rfl⟩ := @JudgedAs.fetched δ v { task with alloc := fun _ => true } buf kind
    text hjudged env hv hcwd hlen rfl rfl rfl
  have hobjected : (kind.fetched out).Objected v { task with alloc := fun _ => true }
      (oRDWR ||| oCREAT) s := by
    refine (objected_iff kind out).mpr ⟨hcovered, ?_⟩
    cases kind with
    | file => exact ⟨by decide, hacts.resolve_left (by decide)⟩
    | dir => exact ⟨.inl (by decide), hacts.resolve_left (by decide)⟩
    | swap => trivial
  refine ⟨_, ?_, verdict_denied hobjected⟩
  show (if forbittenPath env (cstr buf) then _ else decideOpen env v _ _ _ s) = _
  rw [if_neg (Bool.eq_false_iff.mp hexempt), copyFromUser_full hlen, decideOpen_eq, hfetch]
  rfl

end

/-- For every list and all mounts: nothing but what is listed is denied exactly when the recorded
numbers and the judged texts identify files. -/
theorem no_collateral_iff (env : Env) (v : Vfs δ) (task : Task δ) (s : State)
    (listed : ListedFiles s) (hv : WellNamed v) (hcwd : v.Resolves task.cwd) :
    NoCollateral env v task s listed ↔
      NumbersIdentify v task s listed ∧ TextsIdentify env v task s listed := by
  constructor
  · intro h
    refine ⟨fun path i hi hnumber => ?_, ?_⟩
    · rcases checkBlackList_collateral_iff.mp (h.check path) with hpath | hall
      · exact .inl hpath
      · exact .inr (hall i hi hnumber)
    · intro buf text kind i hlen hexempt hi hforeign hjudged hcovered
      by_contra hno
      have hacts : kind = .swap ∨ ∃ j, targetInode v task text = some j := by
        rcases Decidable.em (kind = .swap) with hswap | hswap
        · exact .inl hswap
        · exact .inr (not_forall_not.mp fun hnone => hno ⟨hswap, hnone⟩)
      obtain ⟨d, hk, -⟩ := targetInode_eq_some.mp hi
      obtain ⟨r, hr, hdenied⟩ := hjudged.denied hv hcwd hlen (hv.name_lt hk) hexempt hcovered hacts
      have hholds : OpenRequest.HoldsName (memoryRequest (cstr buf) (zero_notMem_cstr buf)
          (hv.name_lt hk) (oRDWR ||| oCREAT) buf) := by
        intro memory hmemory
        cases hmemory
        rw [copyFromUser_full hlen]
        rfl
      exact h.denies hr hholds ((targetInode_cstr buf).trans hi) hforeign hdenied
  · rintro ⟨hnumbers, htexts⟩
    refine ⟨fun path => ?_, preDoFilpOpenHandler_marks hnumbers,
      preDoFilpOpenHandler_denies hv hcwd htexts⟩
    rcases Classical.em (PathListed s path) with hpath | hpath
    · exact checkBlackList_collateral_iff.mpr (.inl hpath)
    · exact checkBlackList_collateral_iff.mpr
        (.inr fun i hi hnumber => (hnumbers path i hi hnumber).resolve_left hpath)

/-! ## A second file system -/

/-- The sample tree with a second file system mounted on `/u` that holds one file, with its name,
its text there and its number. -/
def mountedVfs (name text : List UInt8) (ino : Nat) : Vfs Nat :=
  { sampleTree.vfs with
    kernPath := fun cwd x => if x = name then .ok 7 else sampleTree.vfs.kernPath cwd x
    dPath := fun d => if d = 7 then text else sampleTree.vfs.dPath d
    dInode := fun d => if d = 7 then some ⟨1, ino⟩ else sampleTree.vfs.dInode d }

/-- A name leads to the file on the second file system, or into the sample tree. -/
theorem mountedVfs_kernPath {name text x : List UInt8} {ino cwd d : Nat}
    (hk : (mountedVfs name text ino).kernPath cwd x = .ok d) :
    (x = name ∧ d = 7) ∨ (d < 7 ∧ sampleTree.vfs.kernPath cwd x = .ok d) := by
  change (if x = name then Except.ok 7 else sampleTree.vfs.kernPath cwd x) = .ok d at hk
  split at hk
  · next hx => exact .inl ⟨hx, (Except.ok.inj hk).symm⟩
  · exact .inr ⟨(sampleTree_ok.target ⟨_, _, hk⟩).1, hk⟩

theorem mountedVfs_wellNamed {name text : List UInt8} {ino : Nat} (hlt : name.length < pathMax)
    (hslash : text.head? = some slash) (hnul : (0 : UInt8) ∉ text) :
    WellNamed (mountedVfs name text ino) where
  name_lt hk := by
    rcases mountedVfs_kernPath hk with ⟨rfl, -⟩ | ⟨-, hk⟩
    · exact hlt
    · exact sampleTree_wellNamed.name_lt hk
  text_slash {d} hd := by
    obtain ⟨cwd, x, hk⟩ := hd
    show (if d = 7 then text else sampleTree.vfs.dPath d).head? = some slash
    rcases mountedVfs_kernPath hk with ⟨-, rfl⟩ | ⟨hd, hk⟩
    · exact hslash
    · rw [if_neg (Nat.ne_of_lt hd)]
      exact sampleTree_wellNamed.text_slash ⟨_, _, hk⟩
  text_nul {d} hd := by
    obtain ⟨cwd, x, hk⟩ := hd
    show (0 : UInt8) ∉ if d = 7 then text else sampleTree.vfs.dPath d
    rcases mountedVfs_kernPath hk with ⟨-, rfl⟩ | ⟨hd, hk⟩
    · exact hnul
    · rw [if_neg (Nat.ne_of_lt hd)]
      exact sampleTree_wellNamed.text_nul ⟨_, _, hk⟩

/-- What a path leads to: the file on the second file system, or one on the first. -/
theorem mountedVfs_target {name text path : List UInt8} {ino : Nat} {task : Task Nat} {i : Inode}
    (hi : targetInode (mountedVfs name text ino) task path = some i) :
    (cstr path = name ∧ i = ⟨1, ino⟩) ∨ i.iSb = 0 := by
  obtain ⟨d, hk, hd⟩ := targetInode_eq_some.mp hi
  change (if d = 7 then some ⟨1, ino⟩ else sampleTree.vfs.dInode d) = some i at hd
  rcases mountedVfs_kernPath hk with ⟨hx, rfl⟩ | ⟨hlt, -⟩
  · exact .inl ⟨hx, (Option.some.inj hd).symm⟩
  · rw [if_neg (Nat.ne_of_lt hlt)] at hd
    obtain ⟨e, -, rfl⟩ := Option.map_eq_some_iff.mp hd
    exact .inr rfl

theorem secret_recorded : ∀ e ∈ (sampleState stateRecOn true [secretEntry]).restrictPathList,
    (⟨0, e.iIno⟩ : Inode).iIno = e.iIno := fun _ _ => rfl

/-- All entries are of the first file system. -/
def firstMount : ListedFiles (sampleState stateRecOn true [secretEntry]) where
  file e := ⟨0, e.iIno⟩
  recorded := secret_recorded

theorem film_identified : NumbersIdentify (mountedVfs (ascii "/u/film") (ascii "/film") 9)
    (sampleTask 1000 0) (sampleState stateRecOn true [secretEntry]) firstMount := by
  rintro path i hi ⟨e, he, hino⟩
  cases List.mem_singleton.mp he
  rcases mountedVfs_target hi with ⟨-, rfl⟩ | hfirst
  · exact absurd hino (by decide)
  · refine .inr ⟨secretEntry, he, ?_⟩
    show (⟨0, secretEntry.iIno⟩ : Inode) = i
    rw [hino, ← hfirst]

theorem film_texts : TextsIdentify sampleEnv (mountedVfs (ascii "/u/film") (ascii "/film") 9)
    (sampleTask 1000 0) (sampleState stateRecOn true [secretEntry]) firstMount := by
  intro buf text kind i hlen _ hi hforeign hjudged hcovered
  have helsewhere : (0 : Nat) ≠ i.iSb := hforeign.elsewhere secretEntry (List.mem_singleton.mpr rfl)
  obtain ⟨hname, -⟩ := (mountedVfs_target hi).resolve_right helsewhere.symm
  have hnoSwap : ¬ SwapNamed (cstr buf) := by
    rw [hname]
    decide
  have habs : absText (mountedVfs (ascii "/u/film") (ascii "/film") 9) (sampleTask 1000 0).cwd
      (cstr buf) = ascii "/u/film" := by
    rw [hname]
    rfl
  cases hjudged with
  | short hshort =>
    rw [strlen, hname] at hshort
    exact absurd hshort (by decide)
  | @file d _ _ hleads =>
    have hfound := hleads.found
    rw [habs] at hfound
    obtain rfl : 7 = d := Except.ok.inj hfound
    have htext : printedText (mountedVfs (ascii "/u/film") (ascii "/film") 9) buf 7 =
        ascii "/film" := by
      have hlong : ¬ strlen buf < (ascii "/film").length := by
        rw [strlen, hname]
        decide
      exact (congrArg (ascii "/film" ++ ·) (if_neg fun h => hlong h.2)).trans (List.append_nil _)
    rw [htext] at hcovered
    rcases hcovered with ⟨e, he, hpath⟩ | ⟨j, hj, -⟩
    · cases List.mem_singleton.mp he
      exact absurd hpath (by decide)
    · cases hj
  | swap _ hswap _ => exact absurd hswap hnoSwap
  | dir _ hmissing _ =>
    obtain ⟨e, he⟩ := hmissing.missing
    rw [bareBuffer, if_neg hnoSwap, habs] at he
    cases he

/-- The file `/u/film` on the second file system shares neither number nor text with a listed file:
it is left alone. -/
theorem no_collateral_iff_film :
    NoCollateral sampleEnv (mountedVfs (ascii "/u/film") (ascii "/film") 9) (sampleTask 1000 0)
        (sampleState stateRecOn true [secretEntry]) firstMount ∧
      targetInode (mountedVfs (ascii "/u/film") (ascii "/film") 9) (sampleTask 1000 0)
        (ascii "/u/film") = some ⟨1, 9⟩ :=
  ⟨(no_collateral_iff _ _ _ _ _ (mountedVfs_wellNamed (by decide) rfl (by decide))
    ⟨0, ascii "/", rfl⟩).mpr ⟨film_identified, film_texts⟩, rfl⟩

theorem photo_nul : (0 : UInt8) ∉ ascii "/u/p" := by decide
theorem photo_lt : (ascii "/u/p").length < pathMax := by decide

/-- Only `/home/secret` is listed. The file `/u/p` of the other file system has its number and is
taken for it: its open for writing is denied, and the file is marked immutable. -/
theorem photo_marked :
    ¬ NoCollateral sampleEnv (mountedVfs (ascii "/u/p") (ascii "/p") 4) (sampleTask 1000 0)
        (sampleState stateRecOn true [secretEntry]) firstMount ∧
    (preDoFilpOpenHandler sampleEnv (mountedVfs (ascii "/u/p") (ascii "/p") 4) (sampleTask 1000 0)
        (sampleOpen (ascii "/u/p") photo_nul photo_lt oWRONLY)
        (sampleState stateRecOn true [secretEntry])).map
      (fun r => (r.hookError, r.state.inodes ⟨1, 4⟩)) =
      .ok (fail .eacces, markInodeReadOnly { iMode := 0o644, iFlags := 0 }) := by
  constructor
  · intro h
    have htarget : targetInode (mountedVfs (ascii "/u/p") (ascii "/p") 4) (sampleTask 1000 0)
        (ascii "/u/p") = some ⟨1, 4⟩ := rfl
    rcases checkBlackList_collateral_iff.mp (h.check (ascii "/u/p")) with ⟨e, he, hpath⟩ | hall
    · cases List.mem_singleton.mp he
      exact absurd hpath (by decide)
    · obtain ⟨e, he, hfile⟩ := hall _ htarget ⟨secretEntry, List.mem_singleton.mpr rfl, rfl⟩
      exact absurd (congrArg Inode.iSb hfile) (by show (0 : Nat) ≠ 1; decide)
  · rfl

/-! ## A name that is judged as another -/

theorem a_nul : (0 : UInt8) ∉ ascii "/a" := by decide

def aEntry : RcuRestrict where
  path := ascii "/a"
  path_nul := a_nul
  iIno := 3
  oMode := 0o644
  oFlags := 0

theorem a_recorded : ∀ e ∈ (sampleState stateRecOn true [aEntry]).restrictPathList,
    (⟨0, e.iIno⟩ : Inode).iIno = e.iIno := fun _ _ => rfl

def aListed : ListedFiles (sampleState stateRecOn true [aEntry]) where
  file e := ⟨0, e.iIno⟩
  recorded := a_recorded

/-- Only `/a` is listed, and no other file has its number. The file `a` of the file system on `/mnt`
has the same path there, and `/mnt/a` is judged as `/a`. -/
theorem mounted_name_covered :
    NumbersIdentify crossVfs (sampleTask 1000 0) (sampleState stateRecOn true [aEntry]) aListed ∧
    ¬ TextsIdentify sampleEnv crossVfs (sampleTask 1000 0) (sampleState stateRecOn true [aEntry])
        aListed := by
  have hmem : aEntry ∈ (sampleState stateRecOn true [aEntry]).restrictPathList :=
    List.mem_singleton.mpr rfl
  constructor
  · rintro path i hi ⟨e, he, hino⟩
    cases List.mem_singleton.mp he
    obtain ⟨d, hk, hd⟩ := targetInode_eq_some.mp hi
    obtain ⟨n, hn, -, rfl⟩ := NameTable.find_mem hk
    -- of the four names of the tree only `/a` leads to a file with the number 3
    have hnumbers : ∀ n ∈ mountTree.names,
        (crossVfs.dInode n.2).all fun i => i.iIno = 3 → i = ⟨0, 3⟩ := by decide +kernel
    have hfirst := hnumbers n hn
    rw [hd, Option.all_some, decide_eq_true_iff] at hfirst
    exact .inr ⟨aEntry, he, (hfirst hino.symm).symm⟩
  · intro h
    have hname : cstr (padded pathMax (ascii "/mnt/a")) = ascii "/mnt/a" := cstr_padded (by decide) _
    have hlong : strlen (padded pathMax (ascii "/mnt/a")) = 6 := congrArg List.length hname
    have hi : targetInode crossVfs (sampleTask 1000 0) (padded pathMax (ascii "/mnt/a")) =
        some ⟨1, 7⟩ := by
      rw [← targetInode_cstr, hname]
      rfl
    have hforeign : Foreign crossVfs (sampleTask 1000 0) aListed ⟨1, 7⟩ := by
      refine ⟨fun e he => ?_, fun e he => ?_⟩
      · show (0 : Nat) ≠ 1
        decide
      · cases List.mem_singleton.mp he
        decide
    have hleads : LeadsTo crossVfs 0 (padded pathMax (ascii "/mnt/a")) 3 := by
      refine ⟨.inl (by rw [hname]; rfl), ?_, by decide⟩
      rw [hname]
      rfl
    have hprinted : printedText crossVfs (padded pathMax (ascii "/mnt/a")) 3 = ascii "/a" :=
      printedText_padded (by decide) 3
    have hjudged := @JudgedAs.file Nat crossVfs 0 _ 3 (Nat.le_of_eq hlong.symm)
      (by rw [hname]; decide) hleads
    rw [hprinted] at hjudged
    have hfree := h (length_padded (by decide)) (by rw [hname]; rfl) hi hforeign hjudged
      (.inl ⟨aEntry, hmem, rfl⟩)
    exact hfree.2 ⟨0, 3⟩ rfl

end RefMonitor
