import RefMonitor.Lib.Run
import RefMonitor.OptionValues
import RefMonitor.NameTable

/-!
# Requests that leave their arrays

A written line is scanned before anybody asks who wrote it. The scan can leave three arrays: the
two of tokens and, with `cngpth`, the heap buffer of `PATH_MAX` bytes for the path, into which
`strncpy` writes as many bytes as the value behind `-pth` has. What lies behind a buffer of that
size may be the path of a list entry, so after such a write nothing is known of the module's
globals (`Issued.Leaves`).

Results:
1. `loopState_overruns_iff`, `loopPath_overruns_iff`: the two scans, from any token on.
2. `Issued.overruns_iff`: the requests that leave an array, read off the line.
3. `every_change_authorised`: the authorisation gate over whole runs.
-/

namespace RefMonitor
open CString Run

variable {δ : Type}

/-! ## The paths of a line -/

/-- The values behind the options `-pth`, from left to right, up to one that is not given. The
value of an `-opt` is not taken for an option itself. -/
def pathValues : List (List UInt8) → List (List UInt8)
  | [] => []
  | [_] => []
  | key :: value :: rest =>
    if refused key value then []
    else if isOpt key then pathValues rest
    else if isPth key then value :: pathValues (value :: rest)
    else pathValues (value :: rest)

/-- The paths of a line that has the number of tokens `cngpth` asks for. -/
def linePaths (line : List UInt8) : List (List UInt8) :=
  match checkAvilableSysList (cstr ((lineTokens line).headD [])) with
  | some 1 => if line.count space = 6 then pathValues (lineTokens line).tail else []
  | _ => []

/-- No path is longer than its buffer. -/
def AllShort (paths : List (List UInt8)) : Prop := ∀ path ∈ paths, strlen path ≤ pathMax

theorem allShort_nil : AllShort [] := fun _ h => absurd h List.not_mem_nil

theorem pathValues_skip {key : List UInt8} (rest : List (List UInt8)) (hopt : isOpt key = false)
    (hpth : isPth key = false) : pathValues (key :: rest) = pathValues rest := by
  have hkeep : ∀ value, refused key value = false := by
    intro value
    rw [refused, show (strncmp 4 key pthKey == 0) = false from hpth, Bool.false_and]
  cases rest with
  | nil => rfl
  | cons value rest =>
    rw [pathValues, hkeep, hopt, hpth]
    rfl

theorem pathValues_parsed (token : List UInt8) (rest : List (List UInt8)) :
    pathValues (parsedToken token :: rest) = pathValues rest := by
  have hkey : ∀ {key}, IsOption key → (strncmp 4 (parsedToken token) key == 0) = false :=
    fun hk => beq_eq_false_iff_ne.mpr
      (not_isKey_parsedToken (cstr_eq_self hk.nul) hk.length hk.lower)
  exact pathValues_skip rest (hkey optKey_isOption) (hkey pthKey_isOption)

/-! ## One option -/

theorem parseOpt_misfit {token : List UInt8} (hfit : ¬ Fits token) :
    parseOpt token = .error .arrayBound := by
  cases hparse : parseOpt token with
  | ok op => exact absurd (parseOpt_ok_iff.mp ⟨op, hparse⟩) hfit
  | error f =>
    unfold parseOpt at hparse
    dsimp only at hparse
    split at hparse
    · cases hparse
      rfl
    · cases hparse

/-- An option hands over the `NULL` at the end of the line, a value that does not fit, or one that
does and is parsed in place. -/
theorem scanOpt_cases (st : Scan) (i : Nat) :
    (¬ i + 1 < st.argv.length ∧ scanOpt st i = .error .nullPtr) ∨
    (i + 1 < st.argv.length ∧ ¬ Fits (st.argv.getD (i + 1) []) ∧
      scanOpt st i = .error .arrayBound) ∨
    (i + 1 < st.argv.length ∧ Fits (st.argv.getD (i + 1) []) ∧
      ∃ st', scanOpt st i = .ok st' ∧
        st'.argv = st.argv.set (i + 1) (parsedToken (st.argv.getD (i + 1) []))) := by
  by_cases hnext : i + 1 < st.argv.length
  · by_cases hfit : Fits (st.argv.getD (i + 1) [])
    · exact .inr (.inr ⟨hnext, hfit, scanOpt_fits hnext hfit⟩)
    · refine .inr (.inl ⟨hnext, hfit, ?_⟩)
      rw [scanOpt, nextArg, if_pos hnext]
      dsimp only
      rw [parseOpt_misfit hfit]
  · refine .inl ⟨hnext, ?_⟩
    rw [scanOpt, nextArg, if_neg hnext]

theorem isPth_opt {key : List UInt8} (hopt : isOpt key = true) : isPth key = false :=
  @isKey_unique [key] 0 _ _ rfl rfl rfl rfl (by decide) hopt

theorem optValues_opt {paths : Bool} {key value : List UInt8} (rest : List (List UInt8))
    (hopt : isOpt key = true) :
    optValues paths (key :: value :: rest) = value :: optValues paths rest := by
  have hpth : (strncmp 4 key pthKey == 0) = false := isPth_opt hopt
  rw [optValues, refused, hpth, Bool.false_and, Bool.and_false, hopt]
  rfl

theorem pathValues_opt {key value : List UInt8} (rest : List (List UInt8))
    (hopt : isOpt key = true) : pathValues (key :: value :: rest) = pathValues rest := by
  have hpth : (strncmp 4 key pthKey == 0) = false := isPth_opt hopt
  rw [pathValues, refused, hpth, Bool.false_and, hopt]
  rfl

/-- A path option that does not return: the value behind it is looked at as a token too. -/
theorem optValues_pth {key value : List UInt8} (rest : List (List UInt8)) (hpth : isPth key = true)
    (hkeep : refused key value = false) :
    optValues true (key :: value :: rest) = optValues true (value :: rest) := by
  have hopt : isOpt key = false := @isKey_unique [key] 0 _ _ rfl rfl rfl rfl (by decide) hpth
  rw [optValues, hkeep, hopt]
  rfl

theorem pathValues_pth {key value : List UInt8} (rest : List (List UInt8)) (hpth : isPth key = true)
    (hkeep : refused key value = false) :
    pathValues (key :: value :: rest) = value :: pathValues (value :: rest) := by
  have hopt : isOpt key = false := @isKey_unique [key] 0 _ _ rfl rfl rfl rfl (by decide) hpth
  rw [pathValues, hkeep, hopt, hpth]
  rfl

theorem allShort_cons {path : List UInt8} {paths : List (List UInt8)} :
    AllShort (path :: paths) ↔ strlen path ≤ pathMax ∧ AllShort paths := List.forall_mem_cons

/-! ## The two loops -/

/-- A fault is passed on whatever the call was to return. -/
theorem error_overruns_iff {α β : Type} {f : Fault} :
    (.error f : Except Fault α) = .error .arrayBound ↔
      (.error f : Except Fault β) = .error .arrayBound := by
  rw [Except.error.injEq, Except.error.injEq]

/-- A call that returns has left no array. -/
theorem ok_ne_overrun {α : Type} (a : α) : (.ok a : Except Fault α) ≠ .error .arrayBound := by
  intro h
  cases h

theorem loopState_overruns_iff {n : Nat} : ∀ {i : Nat} {st : Scan}, i + n = st.argv.length →
    (loopState n i st = .error .arrayBound ↔ ¬ AllFit (optValues false (st.argv.drop i))) := by
  induction n with
  | zero =>
    intro i st hlen
    rw [Nat.add_zero] at hlen
    rw [List.drop_eq_nil_of_le (Nat.le_of_eq hlen.symm)]
    exact iff_of_false (ok_ne_overrun _) fun h => h allFit_nil
  | succ n ih =>
    intro i st hlen
    have hi : i < st.argv.length := by omega
    rw [loopState_succ, drop_eq_cons hi]
    cases hopt : isKey st.argv i optKey with
    | false =>
      obtain ⟨st', hscan, hargv⟩ := scanState_other hopt
      rw [hscan, optValues_skip _ hopt fun _ _ => rfl, ← hargv]
      exact ih (by rw [hargv]; omega)
    | true =>
      rw [scanState_opt_eq hopt]
      rcases scanOpt_cases st i with ⟨hlast, hscan⟩ | ⟨hnext, hfit, hscan⟩ |
        ⟨hnext, hfit, st', hscan, hargv⟩
      · rw [hscan, List.drop_eq_nil_of_le (Nat.le_of_not_lt hlast)]
        exact iff_of_false (by simp) fun h => h allFit_nil
      · rw [hscan, drop_eq_cons hnext, optValues_opt _ hopt, allFit_cons]
        exact ⟨fun _ h => hfit h.1, fun _ => rfl⟩
      · rw [hscan, drop_eq_cons hnext, optValues_opt _ hopt, allFit_cons, and_iff_right hfit,
          ← drop_parsed hnext hargv]
        exact ih (by rw [hargv, List.length_set]; omega)

/-- A path option returns, leaves the path buffer or copies the path. -/
theorem scanPth_cases {st : Scan} {i : Nat} (hpth : isKey st.argv i pthKey = true)
    (hnext : i + 1 < st.argv.length) :
    (refused (st.argv.getD i []) (st.argv.getD (i + 1) []) = true ∧
      scanPath i st = .ok (.error .einval)) ∨
    (refused (st.argv.getD i []) (st.argv.getD (i + 1) []) = false ∧
      ¬ strlen (st.argv.getD (i + 1) []) ≤ pathMax ∧ scanPath i st = .error .arrayBound) ∨
    (refused (st.argv.getD i []) (st.argv.getD (i + 1) []) = false ∧
      strlen (st.argv.getD (i + 1) []) ≤ pathMax ∧ scanPath i st = .ok (.ok (copyPath st i))) := by
  have hpwd : isKey st.argv i pwdKey = false := isKey_unique rfl rfl rfl rfl (by decide) hpth
  have hkey : (strncmp 4 (st.argv.getD i []) pthKey == 0) = true := hpth
  have hnextArg : nextArg st.argv i = some (i + 1) := if_pos hnext
  rw [refused, hkey, Bool.true_and]
  by_cases hnull : strcmp (st.argv.getD (i + 1) []) nullText = 0
  · refine .inl ⟨beq_iff_eq.mpr hnull, ?_⟩
    simp only [scanPath, hpwd, hpth, scanPth, hnextArg, hnull, Bool.false_eq_true, if_false, if_true]
  · rw [beq_eq_false_iff_ne.mpr hnull]
    by_cases hlong : strlen (st.argv.getD (i + 1) []) ≤ pathMax
    · refine .inr (.inr ⟨rfl, hlong, scanPath_pth_eq hpth ?_⟩)
      simp only [scanPth, hnextArg, if_neg hnull, if_neg (Nat.not_lt.mpr hlong), copyPath]
    · refine .inr (.inl ⟨rfl, hlong, ?_⟩)
      simp only [scanPath, hpwd, hpth, scanPth, hnextArg, if_neg hnull,
        if_pos (Nat.lt_of_not_le hlong), Bool.false_eq_true, if_false, if_true]

theorem loopPath_overruns_iff {n : Nat} : ∀ {i : Nat} {st : Scan}, i + n = st.argv.length →
    (loopPath n i st = .error .arrayBound ↔
      ¬ (AllFit (optValues true (st.argv.drop i)) ∧ AllShort (pathValues (st.argv.drop i)))) := by
  induction n with
  | zero =>
    intro i st hlen
    rw [Nat.add_zero] at hlen
    rw [List.drop_eq_nil_of_le (Nat.le_of_eq hlen.symm)]
    exact iff_of_false (ok_ne_overrun _) fun h => h ⟨allFit_nil, allShort_nil⟩
  | succ n ih =>
    intro i st hlen
    have hi : i < st.argv.length := by omega
    rw [loopPath_succ, drop_eq_cons hi]
    cases hpth : isKey st.argv i pthKey with
    | true =>
      by_cases hnext : i + 1 < st.argv.length
      · have hdrop := drop_eq_cons hnext
        rcases scanPth_cases hpth hnext with ⟨href, hscan⟩ | ⟨href, hlong, hscan⟩ |
          ⟨href, hshort, hscan⟩
        · rw [hscan, hdrop, optValues, pathValues, href]
          exact iff_of_false (ok_ne_overrun _) fun h => h ⟨allFit_nil, allShort_nil⟩
        · rw [hscan, hdrop, pathValues_pth _ hpth href, allShort_cons]
          exact ⟨fun _ h => hlong h.2.1, fun _ => rfl⟩
        · rw [hscan, hdrop, pathValues_pth _ hpth href, allShort_cons, and_iff_right hshort,
            optValues_pth _ hpth href, ← hdrop]
          exact @ih (i + 1) (copyPath st i) (by rw [Nat.add_assoc, Nat.add_comm 1 n]; exact hlen)
      · -- `-pth` at the end: the wrapper returns before it copies anything
        have hnone : nextArg st.argv i = none := if_neg hnext
        have hpwd : isKey st.argv i pwdKey = false := isKey_unique rfl rfl rfl rfl (by decide) hpth
        have hscan : scanPath i st = .ok (.error .einval) := by
          simp only [scanPath, hpwd, hpth, scanPth, hnone, Bool.false_eq_true, if_false, if_true]
        rw [hscan, List.drop_eq_nil_of_le (Nat.le_of_not_lt hnext)]
        exact iff_of_false (ok_ne_overrun _) fun h => h ⟨allFit_nil, allShort_nil⟩
    | false =>
      cases hopt : isKey st.argv i optKey with
      | false =>
        obtain ⟨st', hscan, hargv⟩ := scanPath_other hopt hpth
        have hkeep : ∀ value, (true && refused (st.argv.getD i []) value) = false := by
          intro value
          rw [refused, show (strncmp 4 (st.argv.getD i []) pthKey == 0) = false from hpth,
            Bool.false_and, Bool.and_false]
        rw [hscan, optValues_skip _ hopt fun value _ => hkeep value, pathValues_skip _ hopt hpth,
          ← hargv]
        exact ih (by rw [hargv]; omega)
      | true =>
        rw [scanPath_opt_eq hopt]
        rcases scanOpt_cases st i with ⟨hlast, hscan⟩ | ⟨hnext, hfit, hscan⟩ |
          ⟨hnext, hfit, st', hscan, hargv⟩
        · rw [hscan, List.drop_eq_nil_of_le (Nat.le_of_not_lt hlast)]
          exact iff_of_false (by simp) fun h => h ⟨allFit_nil, allShort_nil⟩
        · rw [hscan, drop_eq_cons hnext, optValues_opt _ hopt, allFit_cons]
          exact ⟨fun _ h => hfit h.1.1, fun _ => rfl⟩
        · have hpaths : pathValues (st'.argv.drop (i + 1)) = pathValues (st.argv.drop (i + 2)) := by
            rw [hargv, drop_set_succ hnext, pathValues_parsed]
          rw [hscan, drop_eq_cons hnext, optValues_opt _ hopt, allFit_cons, and_iff_right hfit,
            pathValues_opt _ hopt, ← drop_parsed hnext hargv, ← hpaths]
          exact ih (by rw [hargv, List.length_set]; omega)

/-! ## The three calls and their wrappers -/

theorem resolveRelativePath_fault {v : Vfs δ} {env : Env} {task : Task δ} {allocated : Bool}
    {pathStr : List UInt8} {f : Fault}
    (h : resolveRelativePath env v task allocated pathStr = .error f) : f = .errPtr := by
  unfold resolveRelativePath at h
  split at h
  · cases h
  · split at h
    · cases h
      rfl
    · cases h

/-- `fill_absolute_path` stays in its buffers. -/
theorem fillAbsolutePath_fault {env : Env} {v : Vfs δ} {task : Task δ} {alloc : Nat → Bool}
    {pathname : List UInt8} {f : Fault}
    (h : fillAbsolutePath env v task alloc pathname = .error f) : f = .errPtr := by
  unfold fillAbsolutePath at h
  dsimp only at h
  split at h
  · next f' hresolved =>
    cases h
    split at hresolved
    · exact resolveRelativePath_fault hresolved
    · cases hresolved
  · split at h
    · cases h
    · split at h
      · cases h
      · split at h
        · cases h
        · split at h
          · cases h
            rfl
          · cases h

theorem doChangePath_fault {env : Env} {v : Vfs δ} {task : Task δ} {thePwd thePath : List UInt8}
    {op : Int} {s : State} {f : Fault}
    (h : doChangePath env v task thePwd thePath op s = .error f) : f = .errPtr := by
  unfold doChangePath at h
  iterate 4 (split at h; · cases h)
  split at h
  · next f' hfill =>
    cases h
    exact fillAbsolutePath_fault hfill
  · split at h
    · cases h
    · split at h
      · cases h
      · split at h
        · cases h
        · split at h
          · cases h
          · cases h

section
variable {env : Env} {v : Vfs δ} {task : Task δ} {argv : List (List UInt8)} {format : Nat}
  {s : State}

theorem changeStateVfsSysWrapper_overruns_iff :
    changeStateVfsSysWrapper env v task argv format s = .error .arrayBound ↔
      format = 4 ∧ ¬ AllFit (optValues false argv) := by
  have hloop : loopState argv.length 0 (scanInit argv) = .error .arrayBound ↔
      ¬ AllFit (optValues false argv) := loopState_overruns_iff (Nat.zero_add _)
  rw [changeStateVfsSysWrapper, ← hloop]
  by_cases hformat : format = 4
  · rw [if_neg (not_not.mpr hformat), and_iff_right hformat]
    cases loopState argv.length 0 (scanInit argv) with
    | error f => exact error_overruns_iff
    | ok st =>
      refine ⟨fun h => ?_, fun h => absurd h (ok_ne_overrun _)⟩
      dsimp only at h
      split at h
      · cases h
      · cases h
  · rw [if_pos hformat]
    exact iff_of_false (ok_ne_overrun _) fun h => hformat h.1

theorem changePathVfsSysWrapper_overruns_iff :
    changePathVfsSysWrapper env v task argv format s = .error .arrayBound ↔
      format = 6 ∧ task.alloc 4 = true ∧
        ¬ (AllFit (optValues true argv) ∧ AllShort (pathValues argv)) := by
  have hloop : loopPath argv.length 0 (scanInit argv) = .error .arrayBound ↔
      ¬ (AllFit (optValues true argv) ∧ AllShort (pathValues argv)) :=
    loopPath_overruns_iff (Nat.zero_add _)
  rw [changePathVfsSysWrapper, ← hloop]
  by_cases hformat : format = 6
  · rw [if_neg (not_not.mpr hformat), and_iff_right hformat]
    cases halloc : task.alloc 4 with
    | false => exact iff_of_false (ok_ne_overrun _) fun h => absurd h.1 (by decide)
    | true =>
      rw [if_neg (by decide), and_iff_right rfl]
      cases loopPath argv.length 0 (scanInit argv) with
      | error f => exact error_overruns_iff
      | ok out =>
        cases out with
        | error e => exact iff_of_false (ok_ne_overrun _) (ok_ne_overrun _)
        | ok st =>
          refine ⟨fun h => ?_, fun h => absurd h (ok_ne_overrun _)⟩
          dsimp only at h
          split at h
          · cases h
          · exact absurd (doChangePath_fault h) (by decide)
  · rw [if_pos hformat]
    exact iff_of_false (ok_ne_overrun _) fun h => hformat h.1

theorem changePasswordVfsSysWrapper_returns :
    ∃ out, changePasswordVfsSysWrapper env task argv format s = .ok out := by
  unfold changePasswordVfsSysWrapper
  dsimp only
  split
  · exact ⟨_, rfl⟩
  · split
    · exact ⟨_, rfl⟩
    · split
      · exact ⟨_, rfl⟩
      · exact ⟨_, rfl⟩

end

/-! ## A written line -/

/-- The path buffer is kept to. -/
def PathsFit (alloc : Nat → Bool) (line : List UInt8) : Prop :=
  Scanned alloc line → ∀ path ∈ linePaths line, strlen path ≤ pathMax

/-- All three arrays are kept to. -/
structure LineInBounds (alloc : Nat → Bool) (line : List UInt8) : Prop where
  spaces : Copied alloc line → line.count space ≤ 14
  bars : Scanned alloc line → ∀ value ∈ lineOptions line, (cstr value).count bar ≤ 7
  paths : PathsFit alloc line

theorem LineInBounds.of_not_copied {alloc : Nat → Bool} {line : List UInt8}
    (h : ¬ Copied alloc line) : LineInBounds alloc line :=
  ⟨fun hc => absurd hc h, fun hs => absurd hs.1 h, fun hs => absurd hs.1 h⟩

section
variable {alloc : Nat → Bool} {line : List UInt8}

theorem lineInBounds_cngst_iff (hcopied : Copied alloc line) (hspaces : line.count space ≤ 14)
    (hcmd : checkAvilableSysList (cstr ((lineTokens line).headD [])) = some 0) :
    LineInBounds alloc line ↔
      (line.count space = 4 → AllFit (optValues false (lineTokens line).tail)) := by
  have hscanned : Scanned alloc line := ⟨hcopied, fun h => by rw [hcmd] at h; cases h⟩
  have hpaths : linePaths line = [] := by rw [linePaths, hcmd]; rfl
  have hoptions : lineOptions line =
      if line.count space = 4 then optValues false (lineTokens line).tail else [] := by
    rw [lineOptions, hcmd]
    rfl
  constructor
  · intro h hcount
    have hbars := allFit_iff.mpr (h.bars hscanned)
    rwa [hoptions, if_pos hcount] at hbars
  · intro h
    refine ⟨fun _ => hspaces, fun _ => ?_, fun _ p hp => ?_⟩
    · rw [← allFit_iff, hoptions]
      split
      · next hcount => exact h hcount
      · exact allFit_nil
    · rw [hpaths] at hp
      exact absurd hp List.not_mem_nil

theorem lineInBounds_cngpth_iff (hcopied : Copied alloc line) (hspaces : line.count space ≤ 14)
    (hcmd : checkAvilableSysList (cstr ((lineTokens line).headD [])) = some 1) :
    LineInBounds alloc line ↔
      (line.count space = 6 → alloc 4 = true →
        AllFit (optValues true (lineTokens line).tail) ∧
          AllShort (pathValues (lineTokens line).tail)) := by
  have hpaths : linePaths line =
      if line.count space = 6 then pathValues (lineTokens line).tail else [] := by
    rw [linePaths, hcmd]
    rfl
  have hoptions : lineOptions line =
      if line.count space = 6 then optValues true (lineTokens line).tail else [] := by
    rw [lineOptions, hcmd]
    rfl
  constructor
  · intro h hcount halloc
    have hscanned : Scanned alloc line := ⟨hcopied, fun _ => halloc⟩
    have hbars := allFit_iff.mpr (h.bars hscanned)
    have hshort : AllShort (linePaths line) := h.paths hscanned
    rw [hoptions, if_pos hcount] at hbars
    rw [hpaths, if_pos hcount] at hshort
    exact ⟨hbars, hshort⟩
  · intro h
    refine ⟨fun _ => hspaces, fun hscanned => ?_, fun hscanned => ?_⟩
    · rw [← allFit_iff, hoptions]
      split
      · next hcount => exact (h hcount (hscanned.2 hcmd)).1
      · exact allFit_nil
    · rw [hpaths]
      split
      · next hcount => exact (h hcount (hscanned.2 hcmd)).2
      · exact allShort_nil

/-- Behind any other first word nothing is scanned. -/
theorem LineInBounds.of_other (hspaces : line.count space ≤ 14)
    (h0 : checkAvilableSysList (cstr ((lineTokens line).headD [])) ≠ some 0)
    (h1 : checkAvilableSysList (cstr ((lineTokens line).headD [])) ≠ some 1) :
    LineInBounds alloc line := by
  refine ⟨fun _ => hspaces, fun _ => ?_, fun _ => ?_⟩
  · unfold lineOptions
    split
    · next hcmd => exact absurd hcmd h0
    · next hcmd => exact absurd hcmd h1
    · exact fun _ hvalue => absurd hvalue List.not_mem_nil
  · unfold linePaths
    split
    · next hcmd => exact absurd hcmd h1
    · exact fun _ hvalue => absurd hvalue List.not_mem_nil

end

/-- The length or the error of a call that returned is no fault. -/
theorem called_overruns_iff {called : Except Fault (Int × State)} {len : Int} :
    ((match called with
      | .error f => .error f
      | .ok (ret, s) => if ret < 0 then .ok (ret, s) else .ok (len, s)) :
        Except Fault (Int × State)) = .error .arrayBound ↔ called = .error .arrayBound := by
  cases called with
  | error f => exact error_overruns_iff
  | ok out =>
    refine ⟨fun h => ?_, fun h => absurd h (ok_ne_overrun _)⟩
    dsimp only at h
    split at h
    · cases h
    · cases h

/-- `syscall_proc_write` leaves an array exactly on the lines that are out of bounds. -/
theorem syscallProcWrite_overruns_iff {env : Env} {v : Vfs δ} {task : Task δ} {line : List UInt8}
    {s : State} : syscallProcWrite env v task line s = .error .arrayBound ↔
      ¬ LineInBounds task.alloc line := by
  unfold syscallProcWrite
  by_cases hlen : pathMax + nameMax + 1 ≤ line.length
  · rw [if_pos hlen]
    exact iff_of_false (ok_ne_overrun _) fun h =>
      h (.of_not_copied fun hc => Nat.not_lt.mpr hlen hc.1)
  rw [if_neg hlen]
  cases halloc : task.alloc 5 with
  | false =>
    rw [if_pos (by decide)]
    have hnot : ¬ Copied task.alloc line := by
      intro hc
      rw [Copied, halloc] at hc
      exact absurd hc.2 (by decide)
    exact iff_of_false (ok_ne_overrun _) fun h => h (.of_not_copied hnot)
  | true =>
    have hcopied : Copied task.alloc line := ⟨Nat.not_le.mp hlen, halloc⟩
    rw [if_neg (by decide)]
    dsimp only
    by_cases hspaces : line.count space ≤ 14
    · rw [if_neg (by rw [length_lineTokens]; omega)]
      refine called_overruns_iff.trans ?_
      split
      · next hcmd =>
        rw [changeStateVfsSysWrapper_overruns_iff, count_eq_of_tokens,
          lineInBounds_cngst_iff hcopied hspaces hcmd, Classical.not_imp]
      · next hcmd =>
        rw [changePathVfsSysWrapper_overruns_iff, count_eq_of_tokens,
          lineInBounds_cngpth_iff hcopied hspaces hcmd, Classical.not_imp, Classical.not_imp]
      · next hcmd =>
        have hin : LineInBounds task.alloc line :=
          .of_other hspaces (by rw [hcmd]; decide) (by rw [hcmd]; decide)
        obtain ⟨out, hout⟩ := @changePasswordVfsSysWrapper_returns δ env task
          (lineTokens line).tail ((lineTokens line).length - 1) s
        rw [hout]
        exact iff_of_false (ok_ne_overrun _) fun h => h hin
      · next h0 h1 _ => exact iff_of_false (ok_ne_overrun _) fun h => h (.of_other hspaces h0 h1)
    · rw [if_pos (by rw [length_lineTokens]; omega)]
      exact ⟨fun _ h => hspaces (h.spaces hcopied), fun _ => rfl⟩

/-! ## Requests -/

/-- The request stays in its arrays: only a written line has any. -/
def Issued.InBounds (q : Issued δ) : Prop :=
  match q.request with
  | .procWrite line => LineInBounds q.task.alloc line
  | _ => True

theorem Issued.overruns_iff {env : Env} {q : Issued δ} {s : State} :
    q.step env s = .error .arrayBound ↔ ¬ q.InBounds := by
  have hmap : ∀ out : Except Fault (Int × State),
      out.map Prod.snd = .error .arrayBound ↔ out = .error .arrayBound := by
    intro out
    cases out with
    | error f => exact error_overruns_iff
    | ok out => exact iff_of_false (ok_ne_overrun _) (ok_ne_overrun _)
  rw [Issued.step, hmap, Issued.run, Issued.InBounds]
  cases q.request with
  | changeState pwd state => exact iff_of_false (ok_ne_overrun _) fun h => h trivial
  | changePaths pwd path op =>
    refine ⟨fun h => ?_, fun h => absurd trivial h⟩
    dsimp only [sysChangePaths] at h
    split at h
    · split at h
      · cases h
      · exact absurd (doChangePath_fault h) (by decide)
    · cases h
  | changePassword oldPassword newPassword =>
    exact iff_of_false (ok_ne_overrun _) fun h => h trivial
  | procWrite line => exact syscallProcWrite_overruns_iff

/-- What a request can leave behind. -/
inductive Issued.Leaves (env : Env) (s : State) (q : Issued δ) : State → Prop
  /-- A call that returns leaves its state. -/
  | returned {s' : State} (h : q.step env s = .ok s') : Issued.Leaves env s q s'
  /-- A thread that dies on a bad pointer has changed nothing before. -/
  | died {f : Fault} (h : q.step env s = .error f) (hf : f ≠ .arrayBound) :
      Issued.Leaves env s q s
  /-- Where an array has been left, anything may have been overwritten. -/
  | overrun (h : q.step env s = .error .arrayBound) (s' : State) : Issued.Leaves env s q s'

/-- In bounds, a request leaves the state its call returns, or changes nothing. -/
theorem Issued.Leaves.in_bounds {env : Env} {q : Issued δ} {s s' : State}
    (h : q.Leaves env s s') (hin : q.InBounds) : q.step env s = .ok s' ∨ s' = s := by
  cases h with
  | returned hstep => exact .inl hstep
  | died _ _ => exact .inr rfl
  | overrun hstep => exact absurd hin (Issued.overruns_iff.mp hstep)

/-! ## The authorisation gate -/

/-- If the request changes anything, its caller is the administrator and it carries a
password whose salted hash is the stored digest. -/
def Issued.ChangesAuthorised (env : Env) (s : State) (q : Issued δ) : Prop :=
  ∀ s', q.Leaves env s s' → s' ≠ s → q.task.euid = env.admin ∧
    ∃ password, q.request.Carries password ∧ HashMatches env s password

/-- A written line stays within the two token arrays. -/
def Issued.StoresFit (q : Issued δ) : Prop :=
  match q.request with
  | .procWrite line => RefMonitor.StoresFit q.task.alloc line
  | _ => True

/-- It has no path that is longer than the path buffer. -/
def Issued.PathsFit (q : Issued δ) : Prop :=
  match q.request with
  | .procWrite line => RefMonitor.PathsFit q.task.alloc line
  | _ => True

theorem Issued.inBounds_of_fit (q : Issued δ) (htokens : q.StoresFit) (hpaths : q.PathsFit) :
    q.InBounds := by
  unfold Issued.StoresFit at htokens
  unfold Issued.PathsFit at hpaths
  unfold Issued.InBounds
  split
  · next line hq =>
    rw [hq] at htokens hpaths
    obtain ⟨hspaces, hbars⟩ := storesFit_iff.mp htokens
    exact ⟨hspaces, hbars, hpaths⟩
  · trivial

theorem Issued.changesAuthorised {env : Env} (q : Issued δ) (hin : q.InBounds) (s : State) :
    q.ChangesAuthorised env s := by
  intro s' hleaves hne
  rcases hleaves.in_bounds hin with hstep | rfl
  · obtain ⟨⟨r, s₁⟩, hrun, rfl⟩ := returned_of_map hstep
    exact q.authorised hrun hne
  · exact absurd rfl hne

/-- The authorisation gate: in every run of requests over both interfaces, by any callers and
from any state, whose lines stay within the token arrays and hold no path longer than `PATH_MAX`,
every request that changes `current_state`, the probes, the restrict list, the stored digest or
the attributes of an inode is made by the administrator and carries a password whose salted hash
is the digest stored at that moment. -/
theorem every_change_authorised (env : Env) (requests : List (Issued δ))
    (htokens : ∀ q ∈ requests, q.StoresFit) (hpaths : ∀ q ∈ requests, q.PathsFit) (s : State) :
    AllSteps (fun s q s' => q.Leaves env s s') (fun s q => q.ChangesAuthorised env s) s requests :=
  AllSteps.of_mem
    (fun q hq s => q.changesAuthorised (q.inBounds_of_fit (htokens q hq) (hpaths q hq)) s) s

/-- A path one byte longer than its buffer. -/
def longPathLine : List UInt8 :=
  ascii "cngpth -pwd p -opt adpth -pth " ++ List.replicate (pathMax + 1) 97

theorem longPathLine_overruns : ¬ LineInBounds (fun _ => true) longPathLine := by
  intro h
  have hscanned : Scanned (fun _ => true) longPathLine := ⟨⟨by decide +kernel, rfl⟩, fun _ => rfl⟩
  have hmem : List.replicate (pathMax + 1) 97 ∈ linePaths longPathLine := by decide +kernel
  exact absurd (h.paths hscanned _ hmem) (by decide +kernel)

/-- Anybody can write it. -/
def longPathRequest : Issued Nat := ⟨.procWrite longPathLine, sampleTask 1000 0, sampleTree.vfs⟩

/-- It stays in the token arrays, and its last byte is written behind the path buffer before
anything has been checked. -/
theorem long_path_unauthorised :
    longPathRequest.StoresFit ∧
      ¬ AllSteps (fun s q s' => q.Leaves sampleEnv s s')
        (fun s q => q.ChangesAuthorised sampleEnv s) (sampleState stateOn true [])
        [longPathRequest] := by
  refine ⟨storesFit_iff.mpr ⟨fun _ => by decide +kernel, fun _ => by decide +kernel⟩, fun h => ?_⟩
  have hout : ¬ longPathRequest.InBounds := longPathLine_overruns
  have hleaves : longPathRequest.Leaves sampleEnv (sampleState stateOn true [])
      (sampleState stateOff false []) := .overrun (Issued.overruns_iff.mpr hout) _
  have hstate : sampleState stateOff false [] ≠ sampleState stateOn true [] := by
    intro heq
    exact absurd (congrArg State.currentState heq) (by decide)
  have hgate : longPathRequest.ChangesAuthorised sampleEnv (sampleState stateOn true []) := h.1
  exact absurd (hgate _ hleaves hstate).1 (by decide)

/-- Requests over both interfaces that stay in bounds. -/
def boundedRequests : List (Issued Nat) :=
  [⟨.procWrite (ascii "cngpth -pwd p -opt adpth -pth /home/secret"), sampleTask 1000 0,
      sampleTree.vfs⟩,
   ⟨.changeState (some samplePassword) stateOff, sampleTask 0 0, sampleTree.vfs⟩]

theorem boundedRequests_fit : ∀ q ∈ boundedRequests, q.StoresFit ∧ q.PathsFit := by
  intro q hq
  rcases List.mem_cons.mp hq with rfl | hq
  · exact ⟨storesFit_iff.mpr ⟨fun _ => by decide, fun _ => by decide +kernel⟩,
      fun _ => by decide +kernel⟩
  · rw [List.mem_singleton.mp hq]
    exact ⟨trivial, trivial⟩

theorem every_change_authorised_bounded :
    AllSteps (fun s q s' => q.Leaves sampleEnv s s') (fun s q => q.ChangesAuthorised sampleEnv s)
      (sampleState stateOn true []) boundedRequests :=
  every_change_authorised sampleEnv boundedRequests (fun q hq => (boundedRequests_fit q hq).1)
    (fun q hq => (boundedRequests_fit q hq).2) _

end RefMonitor
