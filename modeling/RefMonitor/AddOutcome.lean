import RefMonitor.Histories

/-!
# The outcome of adding a path

What `do_change_path(pw, s, ADD_PATH)` returns is fixed by checks in four functions: the caller, the
password and the state, whether the name resolves, whether its canonical path is one that cannot
be listed, and whether it is listed already. The last three are stated over an arbitrary lookup and
an arbitrary set of refused paths (`LookupOutcome`). The outcome asked for looks the name itself up
and refuses the paths that lie below a reserved directory; the code looks up the text it has joined
from the cwd and the name, and refuses every path whose text starts like a reserved directory.

Results:
1. `forbittenPath_iff`: the paths `forbitten_path` refuses.
2. `doChangePath_lookup`: the outcome of the code.
3. `addsAsSpecified_iff`: the requests with the outcome asked for.
-/

namespace RefMonitor
open CString

variable {δ : Type}

/-! ## Refused paths -/

/-- The directories below which nothing is listed. -/
def reservedDirs : List (List UInt8) :=
  [ascii "/proc", ascii "/sys", ascii "/run", ascii "/var", ascii "/tmp", ascii "/bin",
   ascii "/etc", ascii "/lib"]

/-- The root, the file of the log, or a path that is a reserved directory or lies below one. -/
def Reserved (env : Env) (path : List UInt8) : Prop :=
  path = [slash] ∨ path = cstr env.singleFileName ∨
    ∃ dir ∈ reservedDirs, path = dir ∨ dir ++ [slash] <+: path

/-- The same with the text of a reserved directory at the start of the path, as the code has it. -/
def StartsReserved (env : Env) (path : List UInt8) : Prop :=
  path = [slash] ∨ path = cstr env.singleFileName ∨ ∃ dir ∈ reservedDirs, dir <+: path

instance (env : Env) (path : List UInt8) : Decidable (Reserved env path) :=
  inferInstanceAs (Decidable (_ ∨ _ ∨ ∃ dir ∈ reservedDirs, path = dir ∨ dir ++ [slash] <+: path))

instance (env : Env) (path : List UInt8) : Decidable (StartsReserved env path) :=
  inferInstanceAs (Decidable (_ ∨ _ ∨ ∃ dir ∈ reservedDirs, dir <+: path))

theorem Reserved.starts {env : Env} {path : List UInt8} (h : Reserved env path) :
    StartsReserved env path := by
  rcases h with h | h | ⟨dir, hdir, rfl | hbelow⟩
  · exact .inl h
  · exact .inr (.inl h)
  · exact .inr (.inr ⟨path, hdir, List.prefix_refl _⟩)
  · exact .inr (.inr ⟨dir, hdir, (List.prefix_append dir [slash]).trans hbelow⟩)

theorem cstr_eq_root_iff {buf : List UInt8} :
    strlen buf = 1 ∧ buf.headD 0 = slash ↔ cstr buf = [slash] := by
  cases buf with
  | nil => exact iff_of_false (fun h => absurd h.1 (by decide)) (List.cons_ne_nil _ _).symm
  | cons b buf =>
    by_cases hb : b = 0
    · rw [hb, strlen, cstr_cons_zero]
      exact iff_of_false (fun h => absurd h.1 (by decide)) (List.cons_ne_nil _ _).symm
    · rw [strlen, cstr_cons hb, List.length_cons, List.cons.injEq, List.headD_cons,
        Nat.add_eq_right, List.length_eq_zero_iff]
      exact and_comm

theorem strncmp_dir_iff {dir buf : List UInt8} (hnul : (0 : UInt8) ∉ dir) :
    strncmp dir.length buf dir = 0 ↔ dir <+: cstr buf := by
  rw [strncmp_eq_zero, cstr_eq_self hnul, List.take_length, List.prefix_iff_eq_take]
  exact eq_comm

/-- The lengths `forbitten_path` compares over are those of the directories. -/
theorem forbittenDirs_eq : forbittenDirs = reservedDirs.map fun dir => (dir, dir.length) := rfl

theorem forbittenPath_iff {env : Env} {buf : List UInt8} :
    forbittenPath env buf = true ↔ StartsReserved env (cstr buf) := by
  have hnul : ∀ dir ∈ reservedDirs, (0 : UInt8) ∉ dir := by decide
  have hdirs : (forbittenDirs.any fun d => strncmp d.2 buf d.1 == 0) = true ↔
      ∃ dir ∈ reservedDirs, dir <+: cstr buf := by
    rw [forbittenDirs_eq, List.any_map, List.any_eq_true]
    refine exists_congr fun dir => and_congr_right fun hdir => ?_
    rw [Function.comp_apply, beq_iff_eq, strncmp_dir_iff (hnul dir hdir)]
  unfold forbittenPath StartsReserved
  rw [Bool.or_eq_true, Bool.or_eq_true, Bool.and_eq_true, beq_iff_eq, beq_iff_eq, beq_iff_eq,
    cstr_eq_root_iff, hdirs, strcmp_eq_zero, or_assoc, eq_comm (a := cstr env.singleFileName)]
  exact or_congr_right or_comm

/-! ## Outcomes -/

/-- The entry has the path and what the inode carries in the state. -/
structure EntryFor (s : State) (e : RcuRestrict) (path : List UInt8) (i : Inode) : Prop where
  path : e.path = path
  ino : e.iIno = i.iIno
  mode : e.oMode = (s.inodes i).iMode.toUInt32
  flags : e.oFlags = (s.inodes i).iFlags

/-- One entry is added, for the file of the dentry and under its canonical path. -/
def Adds (v : Vfs δ) (s : State) (d : δ) (s' : State) : Prop :=
  ∃ e i, v.dInode d = some i ∧ EntryFor s e (v.dPath d) i ∧
    s' = { s with restrictPathList := e :: s.restrictPathList }

/-- The outcome of a lookup, with the given paths refused. -/
def LookupOutcome (v : Vfs δ) (Refused : List UInt8 → Prop) (s : State) (lookup : Except Errno δ)
    (r : Int) (s' : State) : Prop :=
  match lookup with
  | .error _ => r = fail .enoent ∧ s' = s
  | .ok d =>
    (Refused (v.dPath d) ∧ r = fail .einval ∧ s' = s) ∨
    (¬ Refused (v.dPath d) ∧ v.dPath d ∈ s.paths ∧ r = fail .eexist ∧ s' = s) ∨
    (¬ Refused (v.dPath d) ∧ v.dPath d ∉ s.paths ∧ r = 0 ∧ Adds v s d s')

/-- The outcome asked for: the caller, the password and the state are checked first, then the name
is looked up. -/
def AddOutcome (env : Env) (v : Vfs δ) (task : Task δ) (thePwd name : List UInt8) (s : State)
    (r : Int) (s' : State) : Prop :=
  (task.euid ≠ env.admin ∧ r = fail .eperm ∧ s' = s) ∨
  (task.euid = env.admin ∧ ¬ HashMatches env s thePwd ∧ r = fail .eacces ∧ s' = s) ∨
  (Authorised env task thePwd s ∧ ¬ Reconfigurable s ∧ r = fail .ecanceled ∧ s' = s) ∨
  (Authorised env task thePwd s ∧ Reconfigurable s ∧
    LookupOutcome v (Reserved env) s (v.kernPath task.cwd name) r s')

/-- `do_change_path(pw, name, ADD_PATH)` has the outcome asked for. -/
def AddsAsSpecified (env : Env) (v : Vfs δ) (task : Task δ) (thePwd name : List UInt8) (s : State) :
    Prop :=
  ∃ r s', doChangePath env v task thePwd (padded pathMax name) addPathOp s = .ok (r, s') ∧
    AddOutcome env v task thePwd name s r s'

/-- The name and the text the code looks up for it are treated alike: neither resolves, or both
lead to one dentry whose path is not refused merely for its first letters, or the two dentries are
both refused or both listed. -/
def SeenAlike (env : Env) (v : Vfs δ) (cwd : δ) (s : State) (name : List UInt8) : Prop :=
  match v.kernPath cwd name, v.kernPath cwd (absText v cwd name) with
  | .error _, .error _ => True
  | .ok d, .ok d' =>
    (d = d' ∧ (StartsReserved env (v.dPath d) → Reserved env (v.dPath d))) ∨
    (Reserved env (v.dPath d) ∧ StartsReserved env (v.dPath d')) ∨
    (¬ Reserved env (v.dPath d) ∧ v.dPath d ∈ s.paths ∧
      ¬ StartsReserved env (v.dPath d') ∧ v.dPath d' ∈ s.paths)
  | _, _ => False

section
variable {env : Env} {v : Vfs δ} {task : Task δ} {thePwd name : List UInt8} {s s' : State} {r : Int}

/-- The checks before the lookup. -/
theorem doChangePath_early (h : ¬ (Authorised env task thePwd s ∧ Reconfigurable s)) :
    AddsAsSpecified env v task thePwd name s := by
  unfold AddsAsSpecified doChangePath
  by_cases hadmin : task.euid = env.admin
  · rw [if_neg (not_not.mpr hadmin), if_neg (fun hop => hop.1 rfl)]
    by_cases hmatch : HashMatches env s thePwd
    · have hstate : ¬ (s.currentState = stateRecOff ∨ s.currentState = stateRecOn) :=
        fun hrec => h ⟨⟨hadmin, hmatch⟩, hrec⟩
      rw [if_neg (not_not.mpr (checkPwd_eq_zero.mpr hmatch)), if_pos hstate]
      exact ⟨_, _, rfl, .inr (.inr (.inl ⟨⟨hadmin, hmatch⟩, hstate, rfl, rfl⟩))⟩
    · rw [if_pos (fun hpwd => hmatch (checkPwd_eq_zero.mp hpwd))]
      exact ⟨_, _, rfl, .inr (.inl ⟨hadmin, hmatch, rfl, rfl⟩)⟩
  · rw [if_pos hadmin]
    exact ⟨_, _, rfl, .inl ⟨hadmin, rfl, rfl⟩⟩

/-- Behind those checks. -/
theorem doChangePath_checked {buf : List UInt8} (hauth : Authorised env task thePwd s)
    (hrec : Reconfigurable s) :
    doChangePath env v task thePwd buf addPathOp s =
      match fillAbsolutePath env v task task.alloc buf with
      | .error f => .error f
      | .ok (ret, thePath) =>
        if ret ≠ 0 then .ok (ret, s)
        else if forbittenPath env thePath then .ok (fail .einval, s)
        else
          match v.kernPath task.cwd (cstr thePath) with
          | .error e => .ok (fail e, s)
          | .ok dentry => .ok (addPath v task (fun k => task.alloc (k + 2)) thePath dentry s) := by
  have hstate : s.currentState = stateRecOff ∨ s.currentState = stateRecOn := hrec
  unfold doChangePath
  rw [if_neg (not_not.mpr hauth.1), if_neg (fun hop => hop.1 rfl),
    if_neg (not_not.mpr (checkPwd_eq_zero.mpr hauth.2)), if_neg (not_not.mpr hstate)]
  rfl

theorem entryFor_newEntry {path : List UInt8} (hnul : (0 : UInt8) ∉ path) (i : Inode) :
    EntryFor s (newEntry s (padded pathMax path) i) path i where
  path := cstr_padded hnul pathMax
  ino := rfl
  mode := rfl
  flags := rfl

/-- What the code does for an authorised caller: it looks up the joined text and refuses what starts
like a reserved directory. -/
theorem doChangePath_lookup (hm : SingleMount v) (hcwd : v.Resolves task.cwd)
    (hn : (0 : UInt8) ∉ name) (hlen : name.length < pathMax) (halloc : ∀ k, task.alloc k = true)
    (herr : task.err = 0) (hauth : Authorised env task thePwd s) (hrec : Reconfigurable s) :
    ∃ r s', doChangePath env v task thePwd (padded pathMax name) addPathOp s = .ok (r, s') ∧
      LookupOutcome v (StartsReserved env) s (v.kernPath task.cwd (absText v task.cwd name)) r s' := by
  have hfill := @fillAbsolutePath_padded δ env v task task.alloc name hm hcwd halloc hn
    (Nat.le_of_lt hlen)
  cases hk : v.kernPath task.cwd (absText v task.cwd name) with
  | error e =>
    rw [hk] at hfill
    refine ⟨fail .enoent, s, ?_, rfl, rfl⟩
    rw [doChangePath_checked hauth hrec, hfill]
    exact if_pos (fail_ne_zero _)
  | ok d =>
    rw [hk] at hfill
    have hd : v.Resolves d := ⟨_, _, hk⟩
    have hnul := hm.path_nul hd
    have htext : cstr (padded pathMax (v.dPath d)) = v.dPath d := cstr_padded hnul pathMax
    cases hforb : forbittenPath env (padded pathMax (v.dPath d)) with
    | true =>
      have hrefused := forbittenPath_iff.mp hforb
      rw [htext] at hrefused
      refine ⟨fail .einval, s, ?_, .inl ⟨hrefused, rfl, rfl⟩⟩
      rw [doChangePath_checked hauth hrec, hfill]
      dsimp only
      rw [if_neg (not_not.mpr rfl), if_pos hforb]
    | false =>
      have hopen : ¬ StartsReserved env (v.dPath d) := by
        intro hrefused
        rw [← htext, ← forbittenPath_iff, hforb] at hrefused
        cases hrefused
      -- on a single file system the printed text leads back to `d`, so the second lookup succeeds
      have hacc : PathAccepted env v task thePwd (padded pathMax name) s
          (padded pathMax (v.dPath d)) d :=
        ⟨hauth, hrec, hfill, hforb, by rw [htext]; exact hm.roundTrip hd⟩
      obtain ⟨i, hi⟩ := hm.positive hd
      by_cases hin : isPathIn s (padded pathMax (v.dPath d)) = 0
      · have hlisted := isPathIn_eq_zero.mp hin
        rw [htext, ← mem_paths] at hlisted
        refine ⟨fail .eexist, s, ?_, .inr (.inl ⟨hopen, hlisted, rfl, rfl⟩)⟩
        rw [hacc.doChangePath (.inl rfl), if_pos rfl, addPath, if_pos hin]
      · have hfresh : v.dPath d ∉ s.paths := by
          rw [isPathIn_eq_zero, htext, ← mem_paths] at hin
          exact hin
        exact ⟨0, _, hacc.adds herr halloc hi hin,
          .inr (.inr ⟨hopen, hfresh, rfl, _, i, hi, entryFor_newEntry hnul i, rfl⟩)⟩

/-! ## Where the two outcomes meet -/

/-- The two lookups lead to two dentries with one outcome. -/
theorem outcomes_meet_iff (hm : SingleMount v) {d d' : δ} (hd : v.Resolves d)
    {Refused Refused' : List UInt8 → Prop} (hsub : ∀ {path}, Refused path → Refused' path) :
    (∃ r s', LookupOutcome v Refused s (.ok d) r s' ∧ LookupOutcome v Refused' s (.ok d') r s') ↔
      (d = d' ∧ (Refused' (v.dPath d) → Refused (v.dPath d))) ∨
      (Refused (v.dPath d) ∧ Refused' (v.dPath d')) ∨
      (¬ Refused (v.dPath d) ∧ v.dPath d ∈ s.paths ∧ ¬ Refused' (v.dPath d') ∧
        v.dPath d' ∈ s.paths) := by
  constructor
  · rintro ⟨r, s', ⟨href, hr, -⟩ | ⟨hfree, hin, hr, -⟩ | ⟨hfree, hnew, hr, hadds⟩,
      ⟨href', hr', -⟩ | ⟨hfree', hin', hr', -⟩ | ⟨hfree', hnew', hr', hadds'⟩⟩
    · exact .inr (.inl ⟨href, href'⟩)
    · exact absurd (hr.symm.trans hr') (by decide)
    · exact absurd (hr.symm.trans hr') (by decide)
    · exact absurd (hr.symm.trans hr') (by decide)
    · exact .inr (.inr ⟨hfree, hin, hfree', hin'⟩)
    · exact absurd (hr.symm.trans hr') (by decide)
    · exact absurd (hr.symm.trans hr') (by decide)
    · exact absurd (hr.symm.trans hr') (by decide)
    · -- one entry for both: its path is the text of both dentries
      obtain ⟨e, i, hi, hrec, rfl⟩ := hadds
      obtain ⟨e', i', hi', hrec', hlist⟩ := hadds'
      have hentry : e = e' := (List.cons.inj (congrArg State.restrictPathList hlist)).1
      have hpath : v.dPath d = v.dPath d' := by
        rw [← hrec.path, ← hrec'.path, hentry]
      obtain rfl := hm.path_inj hi hi' hpath
      exact .inl ⟨rfl, fun href => absurd href hfree'⟩
  · rintro (⟨rfl, hback⟩ | ⟨href, href'⟩ | ⟨hfree, hin, hfree', hin'⟩)
    · by_cases href : Refused (v.dPath d)
      · exact ⟨_, s, .inl ⟨href, rfl, rfl⟩, .inl ⟨hsub href, rfl, rfl⟩⟩
      · have href' : ¬ Refused' (v.dPath d) := fun h => href (hback h)
        by_cases hin : v.dPath d ∈ s.paths
        · exact ⟨_, s, .inr (.inl ⟨href, hin, rfl, rfl⟩), .inr (.inl ⟨href', hin, rfl, rfl⟩)⟩
        · obtain ⟨i, hi⟩ := hm.positive hd
          have hadds : Adds v s d _ := ⟨_, i, hi, entryFor_newEntry (hm.path_nul hd) i, rfl⟩
          exact ⟨0, _, .inr (.inr ⟨href, hin, rfl, hadds⟩), .inr (.inr ⟨href', hin, rfl, hadds⟩)⟩
    · exact ⟨_, s, .inl ⟨href, rfl, rfl⟩, .inl ⟨href', rfl, rfl⟩⟩
    · exact ⟨_, s, .inr (.inl ⟨hfree, hin, rfl, rfl⟩), .inr (.inl ⟨hfree', hin', rfl, rfl⟩)⟩

theorem EntryFor.unique {e e' : RcuRestrict} {path : List UInt8} {i : Inode}
    (h : EntryFor s e path i) (h' : EntryFor s e' path i) : e = e' := by
  obtain ⟨hpath, hino, hmode, hflags⟩ := h
  obtain ⟨hpath', hino', hmode', hflags'⟩ := h'
  cases e
  cases e'
  simp only [RcuRestrict.mk.injEq]
  exact ⟨hpath.trans hpath'.symm, hino.trans hino'.symm, hmode.trans hmode'.symm,
    hflags.trans hflags'.symm⟩

/-- A lookup has one outcome. -/
theorem LookupOutcome.unique {Refused : List UInt8 → Prop} {lookup : Except Errno δ} {r' : Int}
    {s'' : State} (h : LookupOutcome v Refused s lookup r s')
    (h' : LookupOutcome v Refused s lookup r' s'') : r = r' ∧ s' = s'' := by
  cases lookup with
  | error e => exact ⟨h.1.trans h'.1.symm, h.2.trans h'.2.symm⟩
  | ok d =>
    -- the three outcomes exclude each other; the new entry is determined by the dentry
    rcases h with ⟨href, hr, hs⟩ | ⟨hfree, hin, hr, hs⟩ | ⟨hfree, hnew, hr, hadds⟩
    · rcases h' with ⟨_, hr', hs'⟩ | ⟨hfree', _⟩ | ⟨hfree', _⟩
      · exact ⟨hr.trans hr'.symm, hs.trans hs'.symm⟩
      · exact absurd href hfree'
      · exact absurd href hfree'
    · rcases h' with ⟨href', _⟩ | ⟨_, _, hr', hs'⟩ | ⟨_, hnew', _⟩
      · exact absurd href' hfree
      · exact ⟨hr.trans hr'.symm, hs.trans hs'.symm⟩
      · exact absurd hin hnew'
    · rcases h' with ⟨href', _⟩ | ⟨_, hin', _⟩ | ⟨_, _, hr', hadds'⟩
      · exact absurd href' hfree
      · exact absurd hin' hnew
      · obtain ⟨e, i, hi, hrec, rfl⟩ := hadds
        obtain ⟨e', i', hi', hrec', rfl⟩ := hadds'
        obtain rfl := Option.some.inj (hi.symm.trans hi')
        rw [hrec.unique hrec']
        exact ⟨hr.trans hr'.symm, rfl⟩

/-- A name that resolves never has the outcome of one that does not. -/
theorem outcome_resolved {Refused : List UInt8 → Prop} {d : δ}
    (h : LookupOutcome v Refused s (.ok d) r s') : r ≠ fail .enoent := by
  rcases h with ⟨_, rfl, _⟩ | ⟨_, _, rfl, _⟩ | ⟨_, _, rfl, _⟩ <;> decide

theorem lookups_agree_iff (hm : SingleMount v) {cwd : δ} :
    (∃ r s', LookupOutcome v (Reserved env) s (v.kernPath cwd name) r s' ∧
      LookupOutcome v (StartsReserved env) s (v.kernPath cwd (absText v cwd name)) r s') ↔
      SeenAlike env v cwd s name := by
  unfold SeenAlike
  cases hk : v.kernPath cwd name with
  | error e =>
    cases hk' : v.kernPath cwd (absText v cwd name) with
    | error e' => exact ⟨fun _ => trivial, fun _ => ⟨_, s, ⟨rfl, rfl⟩, ⟨rfl, rfl⟩⟩⟩
    | ok d' =>
      refine ⟨?_, False.elim⟩
      rintro ⟨r, s', ⟨hr, -⟩, h'⟩
      exact outcome_resolved h' hr
  | ok d =>
    cases hk' : v.kernPath cwd (absText v cwd name) with
    | error e' =>
      refine ⟨?_, False.elim⟩
      rintro ⟨r, s', h, ⟨hr, -⟩⟩
      exact outcome_resolved h hr
    | ok d' => exact outcomes_meet_iff hm ⟨cwd, name, hk⟩ Reserved.starts

theorem addOutcome_authorised (hauth : Authorised env task thePwd s) (hrec : Reconfigurable s) :
    AddOutcome env v task thePwd name s r s' ↔
      LookupOutcome v (Reserved env) s (v.kernPath task.cwd name) r s' := by
  constructor
  · rintro (⟨hno, -⟩ | ⟨-, hno, -⟩ | ⟨-, hno, -⟩ | ⟨-, -, h⟩)
    · exact absurd hauth.1 hno
    · exact absurd hauth.2 hno
    · exact absurd hrec hno
    · exact h
  · exact fun h => .inr (.inr (.inr ⟨hauth, hrec, h⟩))

/-- For an authorised caller, in a state that can be reconfigured. -/
theorem adds_iff_seenAlike (hm : SingleMount v) (hcwd : v.Resolves task.cwd)
    (hn : (0 : UInt8) ∉ name) (hlen : name.length < pathMax) (halloc : ∀ k, task.alloc k = true)
    (herr : task.err = 0) (hauth : Authorised env task thePwd s) (hrec : Reconfigurable s) :
    AddsAsSpecified env v task thePwd name s ↔ SeenAlike env v task.cwd s name := by
  obtain ⟨r, s', hcall, hcode⟩ :=
    @doChangePath_lookup δ env v task thePwd name s hm hcwd hn hlen halloc herr hauth hrec
  rw [← lookups_agree_iff hm]
  constructor
  · rintro ⟨r', s'', hcall', hspec⟩
    rw [hcall] at hcall'
    cases hcall'
    exact ⟨r, s', (addOutcome_authorised hauth hrec).mp hspec, hcode⟩
  · rintro ⟨r', s'', hspec, hcode'⟩
    obtain ⟨rfl, rfl⟩ := hcode.unique hcode'
    exact ⟨r, s', hcall, (addOutcome_authorised hauth hrec).mpr hspec⟩

/-- A name that is absolute, or whose joined text fits in the buffer, is seen alike exactly when its
path is not refused merely for its first letters. -/
theorem seenAlike_fits_iff (hm : SingleMount v) {cwd : δ} (hcwd : v.Resolves cwd)
    (hne : name ≠ [])
    (hfit : name.head? = some slash ∨ (v.dPath cwd).length + 1 + name.length < pathMax) :
    SeenAlike env v cwd s name ↔ ∀ d, v.kernPath cwd name = .ok d →
      StartsReserved env (v.dPath d) → Reserved env (v.dPath d) := by
  unfold SeenAlike
  rw [kernPath_absText hm hcwd hne hfit]
  cases v.kernPath cwd name with
  | error e => exact ⟨fun _ _ h => (nomatch h), fun _ => trivial⟩
  | ok d =>
    constructor
    · rintro (⟨-, hback⟩ | ⟨href, -⟩ | ⟨-, -, hfree, -⟩) d' hd' hstarts
      · cases hd'
        exact hback hstarts
      · cases hd'
        exact href
      · cases hd'
        exact absurd hstarts hfree
    · exact fun h => .inl ⟨rfl, h d rfl⟩

/-- On a single mounted file system, for every state, caller, password and name, the request has the
outcome asked for exactly when it fails before the name is looked up, or the name is seen alike. -/
theorem addsAsSpecified_iff (hm : SingleMount v) (hcwd : v.Resolves task.cwd)
    (hn : (0 : UInt8) ∉ name) (hlen : name.length < pathMax) (halloc : ∀ k, task.alloc k = true)
    (herr : task.err = 0) :
    AddsAsSpecified env v task thePwd name s ↔
      (Authorised env task thePwd s ∧ Reconfigurable s → SeenAlike env v task.cwd s name) := by
  by_cases hgo : Authorised env task thePwd s ∧ Reconfigurable s
  · rw [adds_iff_seenAlike hm hcwd hn hlen halloc herr hgo.1 hgo.2]
    exact ⟨fun h _ => h, fun h => h hgo⟩
  · exact ⟨fun _ hgo' => absurd hgo' hgo, fun _ => doChangePath_early hgo⟩

end

theorem addsAsSpecified_iff_secret :
    AddsAsSpecified sampleEnv sampleTree.vfs (sampleTask 0 0) samplePassword (ascii "/home/secret")
      (sampleState stateRecOn true []) := by
  refine (addsAsSpecified_iff sampleTree_singleMount sampleTree_root (by decide) (by decide)
    (fun _ => rfl) rfl).mpr fun _ => ?_
  refine (seenAlike_fits_iff sampleTree_singleMount sampleTree_root (by decide) (.inl rfl)).mpr ?_
  intro d hd hstarts
  cases hd
  exact absurd hstarts (by decide +kernel)

/-- A directory beside `/tmp`, whose name starts with that of `/tmp`. -/
def besideTree : NameTable where
  dentries := [⟨ascii "/", 2, 0⟩, ⟨ascii "/tmpfiles", 3, 0⟩]
  names := [(ascii "/", 0), (ascii "/tmpfiles", 1)]

theorem besideTree_singleMount : SingleMount besideTree.vfs :=
  NameTable.singleMount (by decide +kernel)

/-- `/tmpfiles` is refused for its first letters. -/
theorem beside_refused : History Nat sampleEnv (sampleState stateRecOn true []) ∧
    ¬ AddsAsSpecified sampleEnv besideTree.vfs (sampleTask 0 0) samplePassword (ascii "/tmpfiles")
      (sampleState stateRecOn true []) := by
  have hroot : besideTree.vfs.Resolves 0 := ⟨0, ascii "/", rfl⟩
  refine ⟨sampleHistory_recOn, fun h => ?_⟩
  have hseen := (adds_iff_seenAlike besideTree_singleMount hroot (by decide) (by decide)
    (fun _ => rfl) rfl (sampleRoot_authorised stateRecOn true []) (.inr rfl)).mp h
  have hback := (seenAlike_fits_iff besideTree_singleMount hroot (by decide) (.inl rfl)).mp hseen
  have hstarts : StartsReserved sampleEnv (ascii "/tmpfiles") := by decide
  have hnot : ¬ Reserved sampleEnv (ascii "/tmpfiles") := by decide
  exact hnot (hback 1 rfl hstarts)

end RefMonitor
