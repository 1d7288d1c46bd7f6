import RefMonitor.TokenBounds

/-!
# The values behind the options

The scans of `change_state_vfs_sys_wrapper` and `change_path_vfs_sys_wrapper` look at every token
and take the one behind an option as its value. `-pth` tests that there is a value before it copies
it, with the length of the value as the bound; `-opt` hands `argv[i + 1]` to `parse_opt` untested,
and behind the last token that is `NULL`. A line may be longer than the path buffer.

What the scans do with the values is listed here as the loops run (`usesState`, `usesPath`), and
compared with what can be read off the line (`valuesGiven`).

Results:
1. `usesState_safe_iff`, `usesPath_safe_iff`: the loops, from any token on.
2. `options_safe_iff`: the lines on which `parse_opt` gets a token and the path its terminator.
3. `options_unsafe`: an option at the end of the line, and a path as long as its buffer.
-/

namespace RefMonitor
open CString

/-! ## Uses of a value -/

/-- What a scan does with the token behind an option. -/
inductive ValueUse
  /-- `parse_opt(token)`, where the token may be `NULL`. -/
  | parsed (token : Option (List UInt8))
  /-- `strncpy(pathname, path, strlen(path))`. -/
  | copied (path : List UInt8)
deriving DecidableEq, Repr

/-- `parse_opt` gets a token; the path and its terminator fit the `PATH_MAX` bytes. -/
def ValueUse.Safe : ValueUse → Prop
  | .parsed token => token ≠ none
  | .copied path => strlen path < pathMax

/-- `argv[i + 1]`. -/
def nextToken (st : Scan) (i : Nat) : Option (List UInt8) :=
  (nextArg st.argv i).map fun j => st.argv.getD j []

def optUses (st : Scan) (i : Nat) : List ValueUse :=
  if isKey st.argv i optKey then [.parsed (nextToken st i)] else []

/-- The copy is made unless the wrapper returns: there is no value, or it is `(null)`. -/
def pthUses (st : Scan) (i : Nat) : List ValueUse :=
  if isKey st.argv i pthKey then
    match nextToken st i with
    | none => []
    | some value => if strcmp value nullText = 0 then [] else [.copied value]
  else []

/-- The uses of the loop of `change_state_vfs_sys_wrapper`; it ends at a fault. -/
def usesState : Nat → Nat → Scan → List ValueUse
  | 0, _, _ => []
  | n + 1, i, st =>
    optUses st i ++
    match scanState i st with
    | .error _ => []
    | .ok st => usesState n (i + 1) st

/-- Those of the loop of `change_path_vfs_sys_wrapper`: `-pth` comes before `-opt`. -/
def usesPath : Nat → Nat → Scan → List ValueUse
  | 0, _, _ => []
  | n + 1, i, st =>
    pthUses st i ++
    match (if isKey st.argv i pthKey then scanPth st i else .ok (.ok st)) with
    | .ok (.ok _) =>
      optUses st i ++
      match scanPath i st with
      | .ok (.ok st) => usesPath n (i + 1) st
      | _ => []
    | _ => []

theorem usesState_succ (n i : Nat) (st : Scan) :
    usesState (n + 1) i st = optUses st i ++
      match scanState i st with
      | .error _ => []
      | .ok st => usesState n (i + 1) st := by
  rfl

theorem usesPath_succ (n i : Nat) (st : Scan) :
    usesPath (n + 1) i st = pthUses st i ++
      match (if isKey st.argv i pthKey then scanPth st i else .ok (.ok st)) with
      | .ok (.ok _) =>
        optUses st i ++
        match scanPath i st with
        | .ok (.ok st) => usesPath n (i + 1) st
        | _ => []
      | _ => [] := by
  rfl

/-- The uses when the line is written. -/
def lineUses (alloc : Nat → Bool) (line : List UInt8) : List ValueUse :=
  if pathMax + nameMax + 1 ≤ line.length then []
  else if !alloc 5 then []
  else
    let argv := lineTokens line
    if 15 < argv.length then []
    else
      match checkAvilableSysList (cstr (argv.headD [])) with
      | some 0 =>
        if argv.length - 1 ≠ 4 then [] else usesState argv.tail.length 0 (scanInit argv.tail)
      | some 1 =>
        if argv.length - 1 ≠ 6 then []
        else if !alloc 4 then []
        else usesPath argv.tail.length 0 (scanInit argv.tail)
      | _ => []

/-- Whatever allocations succeed, every value is used safely. -/
def OptionsSafe (line : List UInt8) : Prop :=
  ∀ alloc, ∀ use ∈ lineUses alloc line, use.Safe

/-! ## Reading the line -/

def isPth (token : List UInt8) : Bool := strncmp 4 token pthKey == 0

/-- From left to right, every `-opt` has a token behind it and every path is shorter than its
buffer. The value of an `-opt` is not taken for an option itself. The reading ends at a value with
more than seven bars, which `parse_opt` has no room for, and with `cngpth` at a path `(null)`. -/
def valuesGiven (paths : Bool) : List (List UInt8) → Bool
  | [] => true
  | [key] => !isOpt key
  | key :: value :: rest =>
    if isOpt key then decide (7 < (cstr value).count bar) || valuesGiven paths rest
    else if paths && isPth key then
      strcmp value nullText == 0 || (decide (strlen value < pathMax) && valuesGiven paths (value :: rest))
    else valuesGiven paths (value :: rest)

/-- The options of a line that has the number of tokens its command asks for. -/
def lineValuesGiven (line : List UInt8) : Bool :=
  match checkAvilableSysList (cstr ((lineTokens line).headD [])) with
  | some 0 => line.count space != 4 || valuesGiven false (lineTokens line).tail
  | some 1 => line.count space != 6 || valuesGiven true (lineTokens line).tail
  | _ => true

theorem valuesGiven_skip {paths : Bool} {key : List UInt8} (rest : List (List UInt8))
    (hopt : isOpt key = false) (hpth : paths = true → isPth key = false) :
    valuesGiven paths (key :: rest) = valuesGiven paths rest := by
  have hcond : (paths && isPth key) = false := by
    cases paths with
    | false => rfl
    | true => exact hpth rfl
  cases rest with
  | nil =>
    show (!isOpt key) = true
    rw [hopt]
    rfl
  | cons value rest =>
    rw [valuesGiven, hopt, hcond]
    rfl

theorem valuesGiven_parsed (paths : Bool) (token : List UInt8) (rest : List (List UInt8)) :
    valuesGiven paths (parsedToken token :: rest) = valuesGiven paths rest := by
  have hkey : ∀ {key}, IsOption key → (strncmp 4 (parsedToken token) key == 0) = false :=
    fun hk => beq_eq_false_iff_ne.mpr
      (not_isKey_parsedToken (cstr_eq_self hk.nul) hk.length hk.lower)
  exact valuesGiven_skip rest (hkey optKey_isOption) fun _ => hkey pthKey_isOption

theorem valuesGiven_opt {paths : Bool} {key value : List UInt8} (rest : List (List UInt8))
    (hopt : isOpt key = true) :
    valuesGiven paths (key :: value :: rest) = true ↔
      7 < (cstr value).count bar ∨ valuesGiven paths rest = true := by
  rw [valuesGiven, if_pos hopt, Bool.or_eq_true, decide_eq_true_iff]

theorem valuesGiven_pth {key value : List UInt8} (rest : List (List UInt8))
    (hopt : isOpt key = false) (hpth : isPth key = true) :
    valuesGiven true (key :: value :: rest) = true ↔
      strcmp value nullText = 0 ∨
        (strlen value < pathMax ∧ valuesGiven true (value :: rest) = true) := by
  rw [valuesGiven, if_neg (Bool.eq_false_iff.mp hopt), Bool.true_and, if_pos hpth, Bool.or_eq_true,
    beq_iff_eq, Bool.and_eq_true, decide_eq_true_iff]

/-! ## The scan of `cngpth` -/

theorem scanPath_opt_eq {st : Scan} {i : Nat} (h : isKey st.argv i optKey = true) :
    scanPath i st =
      match scanOpt st i with
      | .error f => .error f
      | .ok st => .ok (.ok st) := by
  obtain ⟨hpwd, hpth⟩ := isKey_opt h
  unfold scanPath
  cases hscan : scanOpt st i with
  | error f => simp only [hpwd, hpth, h, Bool.false_eq_true, if_false, if_true, hscan]
  | ok st' => simp only [hpwd, hpth, h, Bool.false_eq_true, if_false, if_true, hscan]

theorem scanPath_other {st : Scan} {i : Nat} (hopt : isKey st.argv i optKey = false)
    (hpth : isKey st.argv i pthKey = false) :
    ∃ st', scanPath i st = .ok (.ok st') ∧ st'.argv = st.argv := by
  cases hpwd : isKey st.argv i pwdKey with
  | false =>
    refine ⟨st, ?_, rfl⟩
    unfold scanPath
    simp only [hpwd, hpth, hopt, Bool.false_eq_true, if_false]
  | true =>
    refine ⟨{ st with first := nextArg st.argv i }, ?_, rfl⟩
    unfold scanPath
    simp only [hpwd, hpth, hopt, Bool.false_eq_true, if_false, if_true]

/-- The locals after the value behind position `i` has been copied. -/
def copyPath (st : Scan) (i : Nat) : Scan :=
  { st with pathname :=
      strncpy st.pathname (st.argv.getD (i + 1) []) (strlen (st.argv.getD (i + 1) [])) }

/-- A path option leaves the tokens and both pointers alone. -/
theorem scanPth_ok {st st' : Scan} {i : Nat} (h : scanPth st i = .ok (.ok st')) :
    i + 1 < st.argv.length ∧ st' = copyPath st i := by
  unfold scanPth nextArg at h
  split at h
  · cases h
  · next j hj =>
    split at hj
    · next hlt =>
      cases hj
      dsimp only at h
      split at h
      · cases h
      · split at h
        · cases h
        · cases h
          exact ⟨hlt, rfl⟩
    · cases hj

theorem scanPath_pth_eq {st st' : Scan} {i : Nat} (hpth : isKey st.argv i pthKey = true)
    (hscan : scanPth st i = .ok (.ok st')) : scanPath i st = .ok (.ok st') := by
  have hpwd : isKey st.argv i pwdKey = false := isKey_unique rfl rfl rfl rfl (by decide) hpth
  have hopt : isKey st'.argv i optKey = false := by
    rw [(scanPth_ok hscan).2]
    exact isKey_unique rfl rfl rfl rfl (by decide) hpth
  unfold scanPath
  simp only [hpwd, hpth, hscan, hopt, Bool.false_eq_true, if_false, if_true]

/-! ## The two loops -/

/-- All uses of the list are safe. -/
def AllSafe (uses : List ValueUse) : Prop := ∀ use ∈ uses, use.Safe

theorem allSafe_nil : AllSafe [] := fun _ h => absurd h List.not_mem_nil

theorem allSafe_cons {use : ValueUse} {uses : List ValueUse} :
    AllSafe (use :: uses) ↔ use.Safe ∧ AllSafe uses := List.forall_mem_cons

theorem nextToken_eq {st : Scan} {i : Nat} (h : i + 1 < st.argv.length) :
    nextToken st i = some (st.argv.getD (i + 1) []) := by
  rw [nextToken, nextArg, if_pos h, Option.map_some]

theorem nextToken_last {st : Scan} {i : Nat} (h : ¬ i + 1 < st.argv.length) :
    nextToken st i = none := by
  rw [nextToken, nextArg, if_neg h, Option.map_none]

/-- At an option at the end, the scan hands `NULL` over. -/
theorem optUses_last {st : Scan} {i : Nat} (hopt : isKey st.argv i optKey = true)
    (h : ¬ i + 1 < st.argv.length) : ¬ AllSafe (optUses st i) := by
  rw [optUses, if_pos hopt, nextToken_last h, allSafe_cons]
  exact fun hsafe => hsafe.1 rfl

theorem optUses_next {st : Scan} {i : Nat} (h : i + 1 < st.argv.length) :
    AllSafe (optUses st i) := by
  unfold optUses
  split
  · rw [nextToken_eq h, allSafe_cons]
    exact ⟨nofun, allSafe_nil⟩
  · exact allSafe_nil

theorem optUses_other {st : Scan} {i : Nat} (h : isKey st.argv i optKey = false) :
    optUses st i = [] := if_neg (Bool.eq_false_iff.mp h)

theorem allSafe_append {uses uses' : List ValueUse} :
    AllSafe (uses ++ uses') ↔ AllSafe uses ∧ AllSafe uses' := List.forall_mem_append

/-- `parse_opt` runs out of slots at the eighth bar. -/
theorem scanOpt_overflow {st : Scan} {i : Nat} (hlt : i + 1 < st.argv.length)
    (hbars : 7 < (cstr (st.argv.getD (i + 1) [])).count bar) : ∃ f, scanOpt st i = .error f := by
  have hnext : nextArg st.argv i = some (i + 1) := if_pos hlt
  rw [scanOpt, hnext]
  dsimp only
  cases hparse : parseOpt (st.argv.getD (i + 1) []) with
  | error f => exact ⟨f, rfl⟩
  | ok op =>
    have hfit := fits_iff.mp (parseOpt_ok_iff.mp ⟨op, hparse⟩)
    exact absurd hfit (Nat.not_le.mpr hbars)

theorem valuesGiven_after {st st' : Scan} {i : Nat} (hlt : i + 1 < st.argv.length)
    (h : st'.argv = st.argv.set (i + 1) (parsedToken (st.argv.getD (i + 1) []))) (paths : Bool) :
    valuesGiven paths (st'.argv.drop (i + 1)) = valuesGiven paths (st.argv.drop (i + 2)) := by
  rw [h, drop_set_succ hlt, valuesGiven_parsed]

/-- At an option with a value, the loop goes on behind the value, unless `parse_opt` has no room
for its words. `after` is what the loop does with the locals `parse_opt` leaves. -/
theorem opt_step_safe_iff {paths : Bool} {st : Scan} {i : Nat} {after : Scan → List ValueUse}
    (hopt : isKey st.argv i optKey = true) (hnext : i + 1 < st.argv.length)
    (ih : ∀ st', st'.argv = st.argv.set (i + 1) (parsedToken (st.argv.getD (i + 1) [])) →
      (AllSafe (after st') ↔ valuesGiven paths (st'.argv.drop (i + 1)) = true)) :
    (∀ st', scanOpt st i = .ok st' → AllSafe (after st')) ↔
      valuesGiven paths (st.argv.getD i [] :: st.argv.drop (i + 1)) = true := by
  rw [drop_eq_cons hnext, valuesGiven_opt _ hopt]
  constructor
  · intro hall
    by_cases hbars : 7 < (cstr (st.argv.getD (i + 1) [])).count bar
    · exact .inl hbars
    · obtain ⟨st', hscan, hargv⟩ := scanOpt_fits hnext (fits_iff.mpr (Nat.not_lt.mp hbars))
      have hgiven := (ih st' hargv).mp (hall st' hscan)
      rw [valuesGiven_after hnext hargv] at hgiven
      exact .inr hgiven
  · intro hgiven st' hscan
    rcases hgiven with hbars | hgiven
    · obtain ⟨f, hf⟩ := scanOpt_overflow hnext hbars
      rw [hf] at hscan
      cases hscan
    · have hfit : Fits (st.argv.getD (i + 1) []) := by
        refine fits_iff.mpr (Nat.not_lt.mp fun hbars => ?_)
        obtain ⟨f, hf⟩ := scanOpt_overflow hnext hbars
        rw [hf] at hscan
        cases hscan
      obtain ⟨st'', hscan', hargv⟩ := scanOpt_fits hnext hfit
      rw [hscan'] at hscan
      cases hscan
      rw [← valuesGiven_after hnext hargv] at hgiven
      exact (ih _ hargv).mpr hgiven

theorem valuesGiven_last_opt {paths : Bool} {st : Scan} {i : Nat}
    (hopt : isKey st.argv i optKey = true) (h : ¬ i + 1 < st.argv.length) :
    valuesGiven paths (st.argv.getD i [] :: st.argv.drop (i + 1)) = false := by
  rw [List.drop_eq_nil_of_le (Nat.le_of_not_lt h), valuesGiven, show isOpt _ = true from hopt]
  rfl

theorem usesState_safe_iff {n : Nat} : ∀ {i : Nat} {st : Scan}, i + n = st.argv.length →
    (AllSafe (usesState n i st) ↔ valuesGiven false (st.argv.drop i) = true) := by
  induction n with
  | zero =>
    intro i st hlen
    rw [Nat.add_zero] at hlen
    rw [List.drop_eq_nil_of_le (Nat.le_of_eq hlen.symm)]
    exact ⟨fun _ => rfl, fun _ => allSafe_nil⟩
  | succ n ih =>
    intro i st hlen
    have hi : i < st.argv.length := by omega
    rw [drop_eq_cons hi, usesState_succ, allSafe_append]
    cases hopt : isKey st.argv i optKey with
    | false =>
      obtain ⟨st', hscan, hargv⟩ := scanState_other hopt
      rw [hscan, optUses_other hopt, valuesGiven_skip _ hopt (fun h => absurd h (by decide)), ← hargv]
      exact (and_iff_right allSafe_nil).trans (ih (by rw [hargv]; omega))
    | true =>
      rw [scanState_opt_eq hopt]
      by_cases hnext : i + 1 < st.argv.length
      · rw [and_iff_right (optUses_next hnext), ← @opt_step_safe_iff false st i (usesState n (i + 1))
          hopt hnext fun st' hargv => ih (by rw [hargv, List.length_set]; omega)]
        cases hscan : scanOpt st i with
        | error f => exact ⟨fun _ _ h => (by cases h), fun _ => allSafe_nil⟩
        | ok st' => exact ⟨fun h _ heq => (by cases heq; exact h), fun h => h st' rfl⟩
      · rw [valuesGiven_last_opt hopt hnext]
        exact ⟨fun h => absurd h.1 (optUses_last hopt hnext), fun h => absurd h (by decide)⟩

/-- At a path option with a value, the loop goes on at the value, unless that is `(null)`. -/
theorem pth_step_safe_iff {st : Scan} {i : Nat} {after : Scan → List ValueUse}
    (hpth : isKey st.argv i pthKey = true) (hnext : i + 1 < st.argv.length)
    (ih : ∀ st', st'.argv = st.argv →
      (AllSafe (after st') ↔ valuesGiven true (st.argv.drop (i + 1)) = true)) :
    (AllSafe (pthUses st i) ∧ ∀ st', scanPth st i = .ok (.ok st') → AllSafe (after st')) ↔
      valuesGiven true (st.argv.getD i [] :: st.argv.drop (i + 1)) = true := by
  have hopt : isOpt (st.argv.getD i []) = false := isKey_unique rfl rfl rfl rfl (by decide) hpth
  have hnextArg : nextArg st.argv i = some (i + 1) := if_pos hnext
  have hdrop := drop_eq_cons hnext
  rw [hdrop, valuesGiven_pth _ hopt hpth, ← hdrop, pthUses, if_pos hpth, nextToken_eq hnext]
  dsimp only
  rw [scanPth, hnextArg]
  dsimp only
  by_cases hnull : strcmp (st.argv.getD (i + 1) []) nullText = 0
  · rw [if_pos hnull, if_pos hnull]
    exact ⟨fun _ => .inl hnull, fun _ => ⟨allSafe_nil, fun _ h => (by cases h)⟩⟩
  · rw [if_neg hnull, if_neg hnull, allSafe_cons, or_iff_right hnull]
    constructor
    · rintro ⟨⟨hlt, _⟩, hall⟩
      have hshort : strlen (st.argv.getD (i + 1) []) < pathMax := hlt
      rw [if_neg (Nat.not_lt.mpr (Nat.le_of_lt hshort))] at hall
      exact ⟨hshort, (ih (copyPath st i) rfl).mp (hall _ rfl)⟩
    · rintro ⟨hlt, hgiven⟩
      refine ⟨⟨hlt, allSafe_nil⟩, fun st' hscan => ?_⟩
      rw [if_neg (Nat.not_lt.mpr (Nat.le_of_lt hlt))] at hscan
      cases hscan
      exact (ih (copyPath st i) rfl).mpr hgiven

theorem usesPath_safe_iff {n : Nat} : ∀ {i : Nat} {st : Scan}, i + n = st.argv.length →
    (AllSafe (usesPath n i st) ↔ valuesGiven true (st.argv.drop i) = true) := by
  induction n with
  | zero =>
    intro i st hlen
    rw [Nat.add_zero] at hlen
    rw [List.drop_eq_nil_of_le (Nat.le_of_eq hlen.symm)]
    exact ⟨fun _ => rfl, fun _ => allSafe_nil⟩
  | succ n ih =>
    intro i st hlen
    have hi : i < st.argv.length := by omega
    rw [drop_eq_cons hi, usesPath_succ, allSafe_append]
    cases hpth : isKey st.argv i pthKey with
    | true =>
      have hopt : isKey st.argv i optKey = false := isKey_unique rfl rfl rfl rfl (by decide) hpth
      rw [if_pos rfl, optUses_other hopt, List.nil_append]
      by_cases hnext : i + 1 < st.argv.length
      · have hstep := @pth_step_safe_iff st i (usesPath n (i + 1)) hpth hnext fun st' hargv => by
          rw [← hargv]
          exact ih (by rw [hargv]; omega)
        rw [← hstep]
        refine and_congr_right fun _ => ?_
        cases hscan : scanPth st i with
        | error f => exact ⟨fun _ _ h => (by cases h), fun _ => allSafe_nil⟩
        | ok res =>
          cases res with
          | error e => exact ⟨fun _ _ h => (by cases h), fun _ => allSafe_nil⟩
          | ok st' =>
            rw [scanPath_pth_eq hpth hscan]
            exact ⟨fun h _ heq => (by cases heq; exact h), fun h => h st' rfl⟩
      · -- `-pth` at the end: the wrapper returns before it copies anything
        have hnone : nextArg st.argv i = none := if_neg hnext
        have hlast : isOpt (st.argv.getD i []) = false := hopt
        rw [List.drop_eq_nil_of_le (Nat.le_of_not_lt hnext), pthUses, if_pos hpth,
          nextToken_last hnext, scanPth, hnone, valuesGiven, hlast]
        exact ⟨fun _ => rfl, fun _ => ⟨allSafe_nil, allSafe_nil⟩⟩
    | false =>
      have hcopy : pthUses st i = [] := if_neg (Bool.eq_false_iff.mp hpth)
      rw [if_neg (by decide), hcopy, and_iff_right allSafe_nil]
      dsimp only
      rw [allSafe_append]
      cases hopt : isKey st.argv i optKey with
      | false =>
        obtain ⟨st', hscan, hargv⟩ := scanPath_other hopt hpth
        rw [hscan, optUses_other hopt, valuesGiven_skip _ hopt (fun _ => hpth), ← hargv]
        exact (and_iff_right allSafe_nil).trans (ih (by rw [hargv]; omega))
      | true =>
        rw [scanPath_opt_eq hopt]
        by_cases hnext : i + 1 < st.argv.length
        · rw [and_iff_right (optUses_next hnext), ← @opt_step_safe_iff true st i (usesPath n (i + 1))
            hopt hnext fun st' hargv => ih (by rw [hargv, List.length_set]; omega)]
          cases hscan : scanOpt st i with
          | error f => exact ⟨fun _ _ h => (by cases h), fun _ => allSafe_nil⟩
          | ok st' => exact ⟨fun h _ heq => (by cases heq; exact h), fun h => h st' rfl⟩
        · rw [valuesGiven_last_opt hopt hnext]
          exact ⟨fun h => absurd h.1 (optUses_last hopt hnext), fun h => absurd h (by decide)⟩

/-! ## A written line -/

/-- Only the buffer for the line and, with `cngpth`, the one for the path must have been
allocated. -/
theorem lineUses_safe_iff {line : List UInt8} (hlen : line.length < pathMax + nameMax + 1)
    (hspaces : line.count space ≤ 14) :
    (∀ alloc, AllSafe (lineUses alloc line)) ↔ lineValuesGiven line = true := by
  have hshort : ¬ 15 < (lineTokens line).length := by
    rw [length_lineTokens]
    omega
  have hstate : _ ↔ valuesGiven false (lineTokens line).tail = true :=
    @usesState_safe_iff (lineTokens line).tail.length 0 (scanInit (lineTokens line).tail)
      (Nat.zero_add _)
  have hpath : _ ↔ valuesGiven true (lineTokens line).tail = true :=
    @usesPath_safe_iff (lineTokens line).tail.length 0 (scanInit (lineTokens line).tail)
      (Nat.zero_add _)
  unfold lineUses lineValuesGiven
  simp only [if_neg (Nat.not_le.mpr hlen), if_neg hshort]
  split
  · next hcmd =>
    rw [Bool.or_eq_true, bne_iff_ne, ← hstate]
    by_cases hformat : line.count space = 4
    · have hcount := count_eq_of_tokens.mpr hformat
      simp only [hcount, ne_eq, not_true_eq_false, if_false, hformat, false_or]
      refine ⟨fun h => by simpa using h fun _ => true, fun h alloc => ?_⟩
      split
      · exact allSafe_nil
      · exact h
    · have hcount : (lineTokens line).length - 1 ≠ 4 := fun h => hformat (count_eq_of_tokens.mp h)
      refine ⟨fun _ => .inl hformat, fun _ alloc => ?_⟩
      rw [if_pos hcount, ite_self]
      exact allSafe_nil
  · next hcmd =>
    rw [Bool.or_eq_true, bne_iff_ne, ← hpath]
    by_cases hformat : line.count space = 6
    · have hcount := count_eq_of_tokens.mpr hformat
      simp only [hcount, ne_eq, not_true_eq_false, if_false, hformat, false_or]
      refine ⟨fun h => by simpa using h fun _ => true, fun h alloc => ?_⟩
      split
      · exact allSafe_nil
      · split
        · exact allSafe_nil
        · exact h
    · have hcount : (lineTokens line).length - 1 ≠ 6 := fun h => hformat (count_eq_of_tokens.mp h)
      refine ⟨fun _ => .inl hformat, fun _ alloc => ?_⟩
      rw [if_pos hcount, ite_self]
      exact allSafe_nil
  · refine ⟨fun _ => rfl, fun _ alloc => ?_⟩
    rw [ite_self]
    exact allSafe_nil

/-- On a line of any legal length with at most fourteen spaces, `parse_opt` is never handed `NULL`
and every path fits its buffer with a terminator exactly when the values are given on the line. -/
theorem options_safe_iff (line : List UInt8) (hlen : line.length < pathMax + nameMax + 1)
    (hspaces : line.count space ≤ 14) : OptionsSafe line ↔ lineValuesGiven line = true :=
  lineUses_safe_iff hlen hspaces

/-- An option at the end of the line hands `NULL` over, and a path of `PATH_MAX` bytes leaves no
room for its terminator. -/
theorem options_unsafe :
    ¬ OptionsSafe (ascii "cngst -pwd p x -opt") ∧
      ¬ OptionsSafe (ascii "cngpth -pwd p -opt adpth -pth " ++ List.replicate pathMax slash) := by
  constructor
  · intro h
    exact absurd ((lineUses_safe_iff (by decide) (by decide)).mp h) (by decide +kernel)
  · intro h
    exact absurd ((lineUses_safe_iff (by decide +kernel) (by decide +kernel)).mp h) (by decide +kernel)

theorem options_safe_iff_cngpth : OptionsSafe (ascii "cngpth -pwd p -opt adpth -pth /secret") :=
  (options_safe_iff (ascii "cngpth -pwd p -opt adpth -pth /secret") (by decide) (by decide)).mpr
    (by decide +kernel)

end RefMonitor
