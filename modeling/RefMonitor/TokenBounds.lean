import RefMonitor.UserLib

/-!
# The token arrays

`syscall_proc_write` stores a pointer behind every space of the written line into `argv[16]`, and
`parse_opt` one behind every bar of the token it is handed into `argv[9]`; each array also gets
its first token and a final `NULL`. Nothing bounds the number of separators but the length of the
line.

The indices stored at are listed here as the loops go over the bytes. Which tokens of a line are
handed to `parse_opt` is decided by the scans of the wrappers, which rewrite tokens while they
run: a value that has been parsed is no option any more.

Results:
1. `argvStores_lt_iff`: the loops stay in an array exactly when the separators are few enough.
2. `parseOpt_ok_iff`: the faults of the wrappers are the stores out of bounds.
3. `handedState_fit_iff`, `handedPath_fit_iff`: the tokens handed over, read off the line.
4. `tokens_fit_iff`: the lines on which both functions stay in their arrays.
-/

namespace RefMonitor
open CString

/-! ## Stores -/

/-- The loop `if (c == sep) argv[j++] = …` over the bytes: the indices stored at, and `j` at its
end. -/
def separatorStores (sep : UInt8) : List UInt8 → Nat → List Nat × Nat
  | [], j => ([], j)
  | c :: bytes, j =>
    if c = sep then (j :: (separatorStores sep bytes (j + 1)).1, (separatorStores sep bytes (j + 1)).2)
    else separatorStores sep bytes j

/-- All stores into `argv`: those of the loop, `argv[j] = NULL` and `argv[0]`. -/
def argvStores (sep : UInt8) (bytes : List UInt8) : List Nat :=
  (separatorStores sep bytes 1).1 ++ [(separatorStores sep bytes 1).2, 0]

/-- The stores of `parse_opt(op_str)` into its `argv[9]`. -/
def parseOptStores (opStr : List UInt8) : List Nat := argvStores bar ((cstr opStr).map toUpper)

/-- The stores of `syscall_proc_write` into its `argv[16]`. -/
def procWriteStores (alloc : Nat → Bool) (line : List UInt8) : List Nat :=
  if pathMax + nameMax + 1 ≤ line.length then []
  else if !alloc 5 then []
  else argvStores space (line.map fun c => if c = newline then 0 else c)

theorem separatorStores_snd (sep : UInt8) (bytes : List UInt8) :
    ∀ j, (separatorStores sep bytes j).2 = j + bytes.count sep := by
  induction bytes with
  | nil => exact fun j => rfl
  | cons c bytes ih =>
    intro j
    rw [separatorStores]
    split
    · next h =>
      rw [h, List.count_cons_self]
      exact (ih (j + 1)).trans (by omega)
    · next h => rw [ih, List.count_cons_of_ne h]

theorem separatorStores_le {sep : UInt8} {bytes : List UInt8} {i : Nat} :
    ∀ {j}, i ∈ (separatorStores sep bytes j).1 → i < (separatorStores sep bytes j).2 := by
  induction bytes with
  | nil => exact fun h => absurd h List.not_mem_nil
  | cons c bytes ih =>
    intro j h
    rw [separatorStores] at h ⊢
    split at h
    · next hc =>
      rw [if_pos hc]
      rcases List.mem_cons.mp h with rfl | h
      · dsimp only
        rw [separatorStores_snd]
        omega
      · exact ih h
    · next hc =>
      rw [if_neg hc]
      exact ih h

/-- The last store is the `NULL` behind the tokens. -/
theorem argvStores_lt_iff (sep : UInt8) (bytes : List UInt8) (bound : Nat) :
    (∀ i ∈ argvStores sep bytes, i < bound) ↔ bytes.count sep + 1 < bound := by
  have hlast := separatorStores_snd sep bytes 1
  constructor
  · intro h
    have hnull := h _ (List.mem_append_right _ (List.mem_cons_self ..))
    rw [hlast] at hnull
    omega
  · intro h i hi
    rcases List.mem_append.mp hi with hi | hi
    · have hlt := separatorStores_le hi
      rw [hlast] at hlt
      omega
    · rcases List.mem_cons.mp hi with rfl | hi
      · rw [hlast]
        omega
      · rw [List.mem_singleton.mp hi]
        omega

theorem length_splitOn (sep : UInt8) (bytes : List UInt8) :
    (bytes.splitOn sep).length = bytes.count sep + 1 := by
  induction bytes with
  | nil => rfl
  | cons c bytes ih =>
    rw [List.splitOn_eq_splitOnP] at ih ⊢
    rw [List.splitOnP_cons_eq_if_modifyHead]
    by_cases hc : c = sep
    · rw [if_pos (by simpa using hc), List.length_cons, ih, hc, List.count_cons_self]
    · rw [if_neg (by simpa using hc), List.length_modifyHead, ih, List.count_cons_of_ne hc]

theorem toUpper_eq_bar {c : UInt8} : toUpper c = bar ↔ c = bar := by
  constructor
  · intro h
    unfold toUpper at h
    split at h
    · next hc =>
      exfalso
      obtain ⟨hlow, hhigh⟩ := hc
      have hsum : c = bar + 32 := by rw [← h]; simp
      rw [hsum] at hhigh
      exact absurd hhigh (by decide)
    · exact h
  · rintro rfl
    decide

theorem count_toUpper (bytes : List UInt8) : (bytes.map toUpper).count bar = bytes.count bar := by
  induction bytes with
  | nil => rfl
  | cons c bytes ih =>
    by_cases hc : c = bar
    · rw [hc, List.map_cons, toUpper_eq_bar.mpr rfl, List.count_cons_self, List.count_cons_self, ih]
    · rw [List.map_cons, List.count_cons_of_ne (fun h => hc (toUpper_eq_bar.mp h)),
        List.count_cons_of_ne hc, ih]

theorem count_newlines (line : List UInt8) :
    (line.map fun c => if c = newline then 0 else c).count space = line.count space := by
  induction line with
  | nil => rfl
  | cons c line ih =>
    rw [List.map_cons]
    by_cases hc : c = space
    · rw [hc, if_neg (by decide), List.count_cons_self, List.count_cons_self, ih]
    · rw [List.count_cons_of_ne (by split; decide; exact hc), List.count_cons_of_ne hc, ih]

/-! ## Tokens that fit -/

/-- `parse_opt` stays in its array on the token. -/
def Fits (token : List UInt8) : Prop := ∀ i ∈ parseOptStores token, i < 9

theorem fits_iff {token : List UInt8} : Fits token ↔ (cstr token).count bar ≤ 7 := by
  rw [Fits, parseOptStores, argvStores_lt_iff, count_toUpper]
  omega

/-- A fault of `parse_opt` is a store out of bounds. -/
theorem parseOpt_ok_iff {token : List UInt8} : (∃ op, parseOpt token = .ok op) ↔ Fits token := by
  rw [fits_iff]
  unfold parseOpt
  dsimp only
  rw [length_splitOn, count_toUpper]
  split
  · next h =>
    refine ⟨?_, fun hcount => absurd hcount (by omega)⟩
    rintro ⟨op, hop⟩
    cases hop
  · next h => exact ⟨fun _ => by omega, fun _ => ⟨_, rfl⟩⟩

theorem length_lineTokens (line : List UInt8) :
    (lineTokens line).length = line.count space + 1 := by
  rw [lineTokens, length_splitOn, count_newlines]

/-! ## The tokens handed to `parse_opt` -/

/-- The token behind position `i`, if there is one. -/
def handedAt (st : Scan) (i : Nat) : List (List UInt8) :=
  match nextArg st.argv i with
  | none => []
  | some j => [st.argv.getD j []]

/-- The tokens the loop of `change_state_vfs_sys_wrapper` hands to `parse_opt`; the loop ends at
a fault. -/
def handedState : Nat → Nat → Scan → List (List UInt8)
  | 0, _, _ => []
  | n + 1, i, st =>
    (if isKey st.argv i optKey then handedAt st i else []) ++
    match scanState i st with
    | .error _ => []
    | .ok st => handedState n (i + 1) st

/-- `return -EINVAL` at a path option: there is nothing behind it, or `(null)`. -/
def pthReturns (st : Scan) (i : Nat) : Bool :=
  isKey st.argv i pthKey &&
    match nextArg st.argv i with
    | none => true
    | some j => strcmp (st.argv.getD j []) nullText == 0

/-- Those of the loop of `change_path_vfs_sys_wrapper`, which can also return early. The copy of a
path changes no token, and nothing stops the loop behind one that is longer than its buffer; so the
tokens go on as in the other loop. -/
def handedPath : Nat → Nat → Scan → List (List UInt8)
  | 0, _, _ => []
  | n + 1, i, st =>
    if pthReturns st i then []
    else
      (if isKey st.argv i optKey then handedAt st i else []) ++
      match scanState i st with
      | .error _ => []
      | .ok st => handedPath n (i + 1) st

theorem handedState_succ (n i : Nat) (st : Scan) :
    handedState (n + 1) i st = (if isKey st.argv i optKey then handedAt st i else []) ++
      match scanState i st with
      | .error _ => []
      | .ok st => handedState n (i + 1) st := by
  rfl

theorem handedPath_succ (n i : Nat) (st : Scan) :
    handedPath (n + 1) i st =
      if pthReturns st i then []
      else
        (if isKey st.argv i optKey then handedAt st i else []) ++
        match scanState i st with
        | .error _ => []
        | .ok st => handedPath n (i + 1) st := by
  rfl

/-- The tokens `parse_opt` is handed when the line is written. -/
def handedTokens (alloc : Nat → Bool) (line : List UInt8) : List (List UInt8) :=
  if pathMax + nameMax + 1 ≤ line.length then []
  else if !alloc 5 then []
  else
    let argv := lineTokens line
    if 15 < argv.length then []
    else
      match checkAvilableSysList (cstr (argv.headD [])) with
      | some 0 =>
        if argv.length - 1 ≠ 4 then []
        else handedState argv.tail.length 0 (scanInit argv.tail)
      | some 1 =>
        if argv.length - 1 ≠ 6 then []
        else if !alloc 4 then []
        else handedPath argv.tail.length 0 (scanInit argv.tail)
      | _ => []

/-! ## The values behind the options of a line -/

def isOpt (token : List UInt8) : Bool := strncmp 4 token optKey == 0

/-- A path option with the value `(null)` ends the scan of `cngpth`. -/
def refused (key value : List UInt8) : Bool :=
  strncmp 4 key pthKey == 0 && strcmp value nullText == 0

/-- The values behind the options `-opt`, from left to right; a value is not taken for an option
itself. -/
def optValues (paths : Bool) : List (List UInt8) → List (List UInt8)
  | [] => []
  | [_] => []
  | key :: value :: rest =>
    if paths && refused key value then []
    else if isOpt key then value :: optValues paths rest
    else optValues paths (value :: rest)

/-- The option values of a line that is long enough for its command. -/
def lineOptions (line : List UInt8) : List (List UInt8) :=
  match checkAvilableSysList (cstr ((lineTokens line).headD [])) with
  | some 0 => if line.count space = 4 then optValues false (lineTokens line).tail else []
  | some 1 => if line.count space = 6 then optValues true (lineTokens line).tail else []
  | _ => []

theorem optValues_skip {paths : Bool} {key : List UInt8} (rest : List (List UInt8))
    (hopt : isOpt key = false)
    (hkeep : ∀ value ∈ rest.head?, (paths && refused key value) = false) :
    optValues paths (key :: rest) = optValues paths rest := by
  cases rest with
  | nil => rfl
  | cons value rest =>
    rw [optValues, hkeep value rfl, hopt]
    rfl

/-- A parsed value stands in the way of nothing. -/
theorem optValues_parsed (paths : Bool) (token : List UInt8) (rest : List (List UInt8)) :
    optValues paths (parsedToken token :: rest) = optValues paths rest := by
  have hkey : ∀ {key}, IsOption key → (strncmp 4 (parsedToken token) key == 0) = false :=
    fun hk => beq_eq_false_iff_ne.mpr
      (not_isKey_parsedToken (cstr_eq_self hk.nul) hk.length hk.lower)
  refine optValues_skip rest (hkey optKey_isOption) fun value _ => ?_
  rw [refused, hkey pthKey_isOption, Bool.false_and, Bool.and_false]

/-- The tokens from position `i` on. -/
theorem drop_eq_cons {argv : List (List UInt8)} {i : Nat} (h : i < argv.length) :
    argv.drop i = argv.getD i [] :: argv.drop (i + 1) := by
  rw [List.drop_eq_getElem_cons h, List.getD_eq_getElem _ _ h]

theorem drop_set_succ {argv : List (List UInt8)} {i : Nat} {token : List UInt8}
    (h : i + 1 < argv.length) :
    (argv.set (i + 1) token).drop (i + 1) = token :: argv.drop (i + 2) := by
  rw [List.drop_set, if_neg (Nat.lt_irrefl _), Nat.sub_self, List.drop_eq_getElem_cons h]
  rfl

/-! ## The two loops -/

/-- All tokens of the list fit. -/
def AllFit (tokens : List (List UInt8)) : Prop := ∀ token ∈ tokens, Fits token

theorem allFit_nil : AllFit [] := fun _ h => absurd h List.not_mem_nil

theorem allFit_cons {token : List UInt8} {tokens : List (List UInt8)} :
    AllFit (token :: tokens) ↔ Fits token ∧ AllFit tokens := List.forall_mem_cons

theorem allFit_iff {tokens : List (List UInt8)} :
    AllFit tokens ↔ ∀ value ∈ tokens, (cstr value).count bar ≤ 7 :=
  forall₂_congr fun _ _ => fits_iff

theorem handedAt_eq {st : Scan} {i : Nat} (h : i + 1 < st.argv.length) :
    handedAt st i = [st.argv.getD (i + 1) []] := by
  rw [handedAt, nextArg, if_pos h]

theorem scanOpt_fits {st : Scan} {i : Nat} (hlt : i + 1 < st.argv.length)
    (hfit : Fits (st.argv.getD (i + 1) [])) : ∃ st', scanOpt st i = .ok st' ∧
      st'.argv = st.argv.set (i + 1) (parsedToken (st.argv.getD (i + 1) [])) := by
  obtain ⟨op, hop⟩ := parseOpt_ok_iff.mpr hfit
  exact ⟨_, scanOpt_eq hlt rfl hop, rfl⟩

/-- At an option, the scan of either loop parses the value behind it. -/
theorem isKey_opt {argv : List (List UInt8)} {i : Nat} (h : isKey argv i optKey = true) :
    isKey argv i pwdKey = false ∧ isKey argv i pthKey = false :=
  ⟨isKey_unique rfl rfl rfl rfl (by decide) h, isKey_unique rfl rfl rfl rfl (by decide) h⟩

theorem scanState_opt_eq {st : Scan} {i : Nat} (h : isKey st.argv i optKey = true) :
    scanState i st = scanOpt st i := by
  rw [scanState, (isKey_opt h).1]
  exact if_pos h

theorem scanState_other {st : Scan} {i : Nat} (h : isKey st.argv i optKey = false) :
    ∃ st', scanState i st = .ok st' ∧ st'.argv = st.argv := by
  unfold scanState
  cases hpwd : isKey st.argv i pwdKey with
  | false => exact ⟨st, if_neg (Bool.eq_false_iff.mp h), rfl⟩
  | true => exact ⟨_, if_neg (Bool.eq_false_iff.mp h), rfl⟩

/-- After a fitting value, the loop stands on the parsed token. -/
theorem drop_parsed {st st' : Scan} {i : Nat} (hlt : i + 1 < st.argv.length)
    (h : st'.argv = st.argv.set (i + 1) (parsedToken (st.argv.getD (i + 1) []))) (paths : Bool) :
    optValues paths (st'.argv.drop (i + 1)) = optValues paths (st.argv.drop (i + 2)) := by
  rw [h, drop_set_succ hlt, optValues_parsed]

/-- One turn of either loop, where it does not return: the token behind an option is handed over,
and the loop goes on behind it. `after` is what the later turns hand over. -/
theorem handed_step_fit_iff {paths : Bool} {st : Scan} {i : Nat} {after : Scan → List (List UInt8)}
    (hi : i < st.argv.length)
    (hkeep : ∀ value ∈ (st.argv.drop (i + 1)).head?,
      (paths && refused (st.argv.getD i []) value) = false)
    (ih : ∀ st', st'.argv.length = st.argv.length →
      (AllFit (after st') ↔ AllFit (optValues paths (st'.argv.drop (i + 1))))) :
    AllFit ((if isKey st.argv i optKey then handedAt st i else []) ++
      match scanState i st with
      | .error _ => []
      | .ok st => after st) ↔ AllFit (optValues paths (st.argv.drop i)) := by
  rw [drop_eq_cons hi]
  cases hopt : isKey st.argv i optKey with
  | false =>
    obtain ⟨st', hscan, hargv⟩ := scanState_other hopt
    rw [hscan, optValues_skip _ hopt hkeep, ← hargv]
    exact ih st' (by rw [hargv])
  | true =>
    rw [scanState_opt_eq hopt]
    by_cases hnext : i + 1 < st.argv.length
    · have hdrop := drop_eq_cons hnext
      have hvalues : optValues paths (st.argv.getD i [] :: st.argv.drop (i + 1)) =
          st.argv.getD (i + 1) [] :: optValues paths (st.argv.drop (i + 2)) := by
        rw [hdrop, optValues, hkeep _ (by rw [hdrop]; rfl), show isOpt _ = true from hopt]
        rfl
      rw [if_pos rfl, handedAt_eq hnext, hvalues, List.singleton_append, allFit_cons, allFit_cons]
      -- what is handed over behind a token counts only when the token fits
      refine and_congr_right fun hfit => ?_
      obtain ⟨st', hscan, hargv⟩ := scanOpt_fits hnext hfit
      rw [hscan, ← drop_parsed hnext hargv]
      exact ih st' (by rw [hargv, List.length_set])
    · -- `parse_opt(NULL)`: no token is handed over
      have hnone : nextArg st.argv i = none := if_neg hnext
      rw [List.drop_eq_nil_of_le (Nat.le_of_not_lt hnext), handedAt, scanOpt, hnone]
      exact Iff.rfl

theorem handedState_fit_iff {n : Nat} : ∀ {i : Nat} {st : Scan}, i + n = st.argv.length →
    (AllFit (handedState n i st) ↔ AllFit (optValues false (st.argv.drop i))) := by
  induction n with
  | zero =>
    intro i st hlen
    rw [Nat.add_zero] at hlen
    rw [List.drop_eq_nil_of_le (Nat.le_of_eq hlen.symm)]
    exact Iff.rfl
  | succ n ih =>
    intro i st hlen
    rw [handedState_succ]
    exact handed_step_fit_iff (by omega) (fun _ _ => rfl) fun st' hargv => ih (by omega)

/-- With a token behind it, a path option returns exactly at `(null)`. -/
theorem pthReturns_eq {st : Scan} {i : Nat} (hnext : i + 1 < st.argv.length) :
    pthReturns st i = refused (st.argv.getD i []) (st.argv.getD (i + 1) []) := by
  rw [pthReturns, nextArg, if_pos hnext]
  rfl

theorem handedPath_fit_iff {n : Nat} : ∀ {i : Nat} {st : Scan}, i + n = st.argv.length →
    (AllFit (handedPath n i st) ↔ AllFit (optValues true (st.argv.drop i))) := by
  induction n with
  | zero =>
    intro i st hlen
    rw [Nat.add_zero] at hlen
    rw [List.drop_eq_nil_of_le (Nat.le_of_eq hlen.symm)]
    exact Iff.rfl
  | succ n ih =>
    intro i st hlen
    have hi : i < st.argv.length := by omega
    rw [handedPath_succ]
    by_cases hnext : i + 1 < st.argv.length
    · have hdrop := drop_eq_cons hnext
      rw [pthReturns_eq hnext]
      cases href : refused (st.argv.getD i []) (st.argv.getD (i + 1) []) with
      | true =>
        rw [drop_eq_cons hi, hdrop, optValues, href]
        exact Iff.rfl
      | false =>
        rw [if_neg (by decide)]
        refine handed_step_fit_iff hi (fun value hvalue => ?_) fun st' hargv => ih (by omega)
        rw [hdrop] at hvalue
        cases hvalue
        exact href
    · -- the last token: nothing is handed over, whatever it is
      have hdrop : st.argv.drop (i + 1) = [] := List.drop_eq_nil_of_le (Nat.le_of_not_lt hnext)
      split
      · rw [drop_eq_cons hi, hdrop]
        exact Iff.rfl
      · exact handed_step_fit_iff hi (fun value hvalue => by rw [hdrop] at hvalue; cases hvalue)
          fun st' hargv => ih (by omega)

/-! ## A written line -/

/-- The line is short enough and its copy has been allocated. -/
def Copied (alloc : Nat → Bool) (line : List UInt8) : Prop :=
  line.length < pathMax + nameMax + 1 ∧ alloc 5 = true

/-- The tokens are scanned: with `cngpth` the path buffer has been allocated as well. -/
def Scanned (alloc : Nat → Bool) (line : List UInt8) : Prop :=
  Copied alloc line ∧
    (checkAvilableSysList (cstr ((lineTokens line).headD [])) = some 1 → alloc 4 = true)

/-- Every store of `syscall_proc_write` and of `parse_opt` on the tokens it is handed is in
bounds. -/
def StoresFit (alloc : Nat → Bool) (line : List UInt8) : Prop :=
  (∀ i ∈ procWriteStores alloc line, i < 16) ∧
    ∀ token ∈ handedTokens alloc line, ∀ i ∈ parseOptStores token, i < 9

/-- So it is whatever allocations succeed. -/
def TokensFit (line : List UInt8) : Prop := ∀ alloc, StoresFit alloc line

theorem procWriteStores_copied_iff {alloc : Nat → Bool} {line : List UInt8}
    (h : Copied alloc line) : (∀ i ∈ procWriteStores alloc line, i < 16) ↔ line.count space ≤ 14 := by
  rw [procWriteStores, if_neg (Nat.not_le.mpr h.1), h.2, if_neg (by decide), argvStores_lt_iff,
    count_newlines]
  omega

theorem procWriteStores_not_copied {alloc : Nat → Bool} {line : List UInt8}
    (h : ¬ Copied alloc line) : procWriteStores alloc line = [] := by
  unfold procWriteStores
  split
  · rfl
  · next hlen =>
    split
    · rfl
    · next halloc => exact absurd ⟨Nat.not_le.mp hlen, by simpa using halloc⟩ h

theorem count_eq_of_tokens {line : List UInt8} {k : Nat} :
    (lineTokens line).length - 1 = k ↔ line.count space = k := by
  rw [length_lineTokens, Nat.add_sub_cancel]

/-- The tokens of a scanned line that fits `argv` fit `parse_opt` exactly when its option values
do. -/
theorem handedTokens_scanned_iff {alloc : Nat → Bool} {line : List UInt8} (h : Scanned alloc line)
    (hspaces : line.count space ≤ 14) :
    AllFit (handedTokens alloc line) ↔ AllFit (lineOptions line) := by
  have hshort : ¬ 15 < (lineTokens line).length := by
    rw [length_lineTokens]
    omega
  have hstate := @handedState_fit_iff (lineTokens line).tail.length 0
    (scanInit (lineTokens line).tail) (Nat.zero_add _)
  have hpath := @handedPath_fit_iff (lineTokens line).tail.length 0
    (scanInit (lineTokens line).tail) (Nat.zero_add _)
  rw [List.drop_zero] at hstate hpath
  rw [handedTokens, if_neg (Nat.not_le.mpr h.1.1), h.1.2, if_neg (by decide)]
  dsimp only
  rw [if_neg hshort, lineOptions]
  split
  · next hcmd =>
    by_cases hcount : line.count space = 4
    · rw [if_neg (not_not.mpr (count_eq_of_tokens.mpr hcount)), if_pos hcount]
      exact hstate
    · rw [if_pos fun hformat => hcount (count_eq_of_tokens.mp hformat), if_neg hcount]
  · next hcmd =>
    rw [h.2 hcmd]
    by_cases hcount : line.count space = 6
    · rw [if_neg (not_not.mpr (count_eq_of_tokens.mpr hcount)), if_neg (by decide), if_pos hcount]
      exact hpath
    · rw [if_pos fun hformat => hcount (count_eq_of_tokens.mp hformat), if_neg hcount]
  · exact Iff.rfl

theorem handedTokens_not_scanned {alloc : Nat → Bool} {line : List UInt8}
    (h : ¬ Scanned alloc line) : handedTokens alloc line = [] := by
  unfold handedTokens
  split
  · rfl
  · next hlen =>
    split
    · rfl
    · next halloc =>
      have hcopied : Copied alloc line := ⟨Nat.not_le.mp hlen, by simpa using halloc⟩
      dsimp only
      split
      · rfl
      · split
        · next hcmd => exact absurd ⟨hcopied, fun h1 => by rw [hcmd] at h1; cases h1⟩ h
        · next hcmd =>
          split
          · rfl
          · split
            · rfl
            · next halloc4 => exact absurd ⟨hcopied, fun _ => by simpa using halloc4⟩ h
        · rfl

/-- The two arrays are kept to exactly when a copied line has at most fourteen spaces and every
option value of a scanned one at most seven bars. -/
theorem storesFit_iff {alloc : Nat → Bool} {line : List UInt8} :
    StoresFit alloc line ↔ (Copied alloc line → line.count space ≤ 14) ∧
      (Scanned alloc line → ∀ value ∈ lineOptions line, (cstr value).count bar ≤ 7) := by
  by_cases hcopied : Copied alloc line
  · rw [StoresFit, procWriteStores_copied_iff hcopied, forall_prop_of_true hcopied]
    refine and_congr_right fun hspaces => ?_
    by_cases hscanned : Scanned alloc line
    · rw [forall_prop_of_true hscanned, ← allFit_iff]
      exact handedTokens_scanned_iff hscanned hspaces
    · rw [handedTokens_not_scanned hscanned]
      exact ⟨fun _ h => absurd h hscanned, fun _ => nofun⟩
  · have hscanned : ¬ Scanned alloc line := fun h => hcopied h.1
    rw [StoresFit, procWriteStores_not_copied hcopied, handedTokens_not_scanned hscanned]
    exact ⟨fun _ => ⟨fun h => absurd h hcopied, fun h => absurd h hscanned⟩, fun _ => ⟨nofun, nofun⟩⟩

/-- On a line of any legal length the two arrays are kept to exactly when the line has at most
fourteen spaces and every option value of it at most seven bars. -/
theorem tokens_fit_iff (line : List UInt8) (hlen : line.length < pathMax + nameMax + 1) :
    TokensFit line ↔ line.count space ≤ 14 ∧
      ∀ value ∈ lineOptions line, (cstr value).count bar ≤ 7 := by
  constructor
  · intro h
    -- with memory to spare the line is scanned
    have hcopied : Copied (fun _ => true) line := ⟨hlen, rfl⟩
    obtain ⟨hspaces, hbars⟩ := storesFit_iff.mp (h fun _ => true)
    exact ⟨hspaces hcopied, hbars ⟨hcopied, fun _ => rfl⟩⟩
  · rintro ⟨hspaces, hbars⟩ alloc
    exact storesFit_iff.mpr ⟨fun _ => hspaces, fun _ => hbars⟩

/-- Fifteen spaces store behind `argv[16]`, and eight bars behind `argv[9]`, also behind a path
that is longer than its buffer. -/
theorem separators_overflow :
    ¬ TokensFit (List.replicate 15 space) ∧
      ¬ TokensFit (ascii "cngst -pwd p -opt ||||||||") ∧
      ¬ TokensFit (ascii "cngpth -pth " ++ List.replicate (pathMax + 1) 97 ++
        ascii " -opt |||||||| -pwd p") := by
  refine ⟨fun h => ?_, fun h => ?_, fun h => ?_⟩
  · have hspaces := (storesFit_iff.mp (h fun _ => true)).1 ⟨by decide, rfl⟩
    exact absurd hspaces (by decide)
  · have hbars := (storesFit_iff.mp (h fun _ => true)).2 ⟨⟨by decide, rfl⟩, fun _ => rfl⟩
    exact absurd (hbars (ascii "||||||||") (by decide +kernel)) (by decide)
  · have hbars := (storesFit_iff.mp (h fun _ => true)).2 ⟨⟨by decide +kernel, rfl⟩, fun _ => rfl⟩
    exact absurd (hbars (ascii "||||||||") (by decide +kernel)) (by decide)

theorem tokens_fit_iff_cngst : TokensFit (ascii "cngst -pwd p -opt on|off") :=
  (tokens_fit_iff (ascii "cngst -pwd p -opt on|off") (by decide)).mpr
    ⟨by decide, by decide +kernel⟩

end RefMonitor
