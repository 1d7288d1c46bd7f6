import RefMonitor.CommandCalls

/-!
# What a wrapper gathers

The loop of a wrapper keeps pointers into tokens that it rewrites as it goes: `parse_opt` turns the
value of an `-opt` into upper case and its bars into NULs. What the loop gathers can still be read
off the strings of the line: no token is rewritten once a pointer to it is kept, and a rewritten
token is no keyword.

Results:
1. `loop_gathered`: what a loop gathers, read off the strings of the tokens.
2. `procCall_eq`, `procCall_refused`: the call of every line.
-/

namespace RefMonitor
open CString

/-! ## What a loop gathers -/

/-- The locals of a wrapper, with the strings behind its pointers. -/
structure Gathered where
  first : Option (List UInt8)
  second : Option (List UInt8)
  op : Int
  pathname : List UInt8

def Scan.gathered (st : Scan) : Gathered where
  first := st.first.map (argString st.argv)
  second := st.second.map (argString st.argv)
  op := st.op
  pathname := st.pathname

/-- What a loop does at a token: the keyword the token is taken for, and the string behind it. -/
def act (value : Option (List UInt8)) (g : Gathered) :
    Option Keyword → Except Fault (Except Errno Gathered)
  | none => .ok (.ok g)
  | some .pwd | some .old => .ok (.ok { g with first := value })
  | some .new => .ok (.ok { g with second := value })
  | some .pth =>
    match value with
    | none => .ok (.error .einval)
    | some path =>
      if path = nullText then .ok (.error .einval)
      else if pathMax < path.length then .error .arrayBound
      else .ok (.ok { g with pathname := copyOver g.pathname path })
  | some .opt =>
    match value with
    | none => .error .nullPtr
    | some word =>
      match parseOpt word with
      | .error f => .error f
      | .ok op => .ok (.ok { g with op := op })

/-- The strings a loop looks at, each with the one behind it. It does not look at the value of an
`-opt`, which is in upper case by then. -/
def CommandName.lookedAt (c : CommandName) :
    List (List UInt8) → List (List UInt8 × Option (List UInt8))
  | [] => []
  | [token] => [(token, none)]
  | token :: value :: rest =>
    (token, some value) ::
      if c.keywordOf token = some .opt then c.lookedAt rest else c.lookedAt (value :: rest)

def CommandName.gather (c : CommandName) : List (List UInt8 × Option (List UInt8)) → Gathered →
    Except Fault (Except Errno Gathered)
  | [], g => .ok (.ok g)
  | (token, value) :: rest, g =>
    match act value g (c.keywordOf token) with
    | .error f => .error f
    | .ok (.error e) => .ok (.error e)
    | .ok (.ok g) => c.gather rest g

/-- The pointers a loop keeps are to tokens it does not write to any more. -/
structure Scan.PointsBefore (st : Scan) (i : Nat) : Prop where
  first : ∀ j, st.first = some j → j ≤ i
  second : ∀ j, st.second = some j → j ≤ i

theorem nextArg_le {argv : List (List UInt8)} {i j : Nat} (h : nextArg argv i = some j) :
    j ≤ i + 1 := by
  unfold nextArg at h
  split at h
  · cases h
    exact Nat.le_refl _
  · cases h

theorem argString_set {argv : List (List UInt8)} {i j : Nat} (h : j ≤ i) (token : List UInt8) :
    argString (argv.set (i + 1) token) j = argString argv j := by
  have hne : i + 1 ≠ j := Nat.ne_of_gt (Nat.lt_succ_of_le h)
  rw [argString, argString, List.getD_eq_getElem?_getD, List.getD_eq_getElem?_getD,
    List.getElem?_set_ne hne]

theorem parseOpt_cstr (token : List UInt8) : parseOpt (cstr token) = parseOpt token := by
  rw [parseOpt, parseOpt, cstr_cstr]

theorem copyOver_cstr (pathname token : List UInt8) :
    copyOver pathname (cstr token) = copyOver pathname token := by
  rw [copyOver, copyOver, strncpy_strlen, strncpy_strlen, cstr_cstr]

theorem strcmp_nullText_iff {token : List UInt8} :
    strcmp token nullText = 0 ↔ cstr token = nullText := strcmp_eq_zero

theorem scanPth_gathered (i : Nat) (st : Scan) :
    (scanPth st i).map (Except.map Scan.gathered) =
      act ((nextArg st.argv i).map (argString st.argv)) st.gathered (some .pth) := by
  unfold scanPth
  cases nextArg st.argv i with
  | none => rfl
  | some j =>
    dsimp only [act, Option.map_some, argString]
    by_cases hnull : cstr (st.argv.getD j []) = nullText
    · rw [if_pos hnull, if_pos (strcmp_nullText_iff.mpr hnull)]
      rfl
    · rw [if_neg hnull, if_neg (fun h => hnull (strcmp_nullText_iff.mp h))]
      by_cases hlong : pathMax < strlen (st.argv.getD j [])
      · rw [if_pos hlong, if_pos (by exact hlong)]
        rfl
      · rw [if_neg hlong, if_neg (by exact hlong), copyOver_cstr]
        rfl

/-- Parsing a token rewrites one that no kept pointer leads to. -/
theorem scanOpt_gathered {i : Nat} {st : Scan} (hbefore : st.PointsBefore i) :
    (scanOpt st i).map (fun st' => Except.ok st'.gathered) =
      act ((nextArg st.argv i).map (argString st.argv)) st.gathered (some .opt) := by
  unfold scanOpt
  cases hnext : nextArg st.argv i with
  | none => rfl
  | some j =>
    have hj : j = i + 1 := by
      unfold nextArg at hnext
      split at hnext
      · exact (Option.some.inj hnext).symm
      · cases hnext
    subst hj
    dsimp only [act, Option.map_some, argString]
    rw [parseOpt_cstr]
    cases parseOpt (st.argv.getD (i + 1) []) with
    | error f => rfl
    | ok op =>
      have hkept : ∀ {p : Option Nat}, (∀ j, p = some j → j ≤ i) →
          p.map (argString (st.argv.set (i + 1) (parsedToken (st.argv.getD (i + 1) [])))) =
            p.map (argString st.argv) := by
        intro p hp
        cases p with
        | none => rfl
        | some j => exact congrArg some (argString_set (hp j rfl) _)
      simp only [Except.map, Scan.gathered, hkept hbefore.first, hkept hbefore.second]

theorem scan_gathered {c : CommandName} {i : Nat} {st : Scan} (hbefore : st.PointsBefore i) :
    (scan c i st).map (Except.map Scan.gathered) =
      act ((nextArg st.argv i).map (argString st.argv)) st.gathered
        (c.keywordOf (argString st.argv i)) := by
  unfold scan
  cases c.keywordOf (argString st.argv i) with
  | none => rfl
  | some k =>
    cases k with
    | pwd => rfl
    | old => rfl
    | new => rfl
    | pth => exact scanPth_gathered i st
    | opt =>
      rw [← scanOpt_gathered hbefore]
      cases scanOpt st i with
      | error f => rfl
      | ok st' => rfl

theorem scanOpt_ok {i : Nat} {st st' : Scan} (h : scanOpt st i = .ok st') :
    i + 1 < st.argv.length ∧ st'.first = st.first ∧ st'.second = st.second ∧
      st'.argv = st.argv.set (i + 1) (parsedToken (st.argv.getD (i + 1) [])) := by
  unfold scanOpt nextArg at h
  split at h
  · cases h
  · next j hj =>
    split at hj
    · next hlt =>
      cases hj
      split at h
      · cases h
      · cases h
        exact ⟨hlt, rfl, rfl, rfl⟩
    · cases hj

/-- What a step of the loop leaves for the next one. -/
theorem scan_ok {c : CommandName} {i : Nat} {st st' : Scan} (hbefore : st.PointsBefore i)
    (h : scan c i st = .ok (.ok st')) :
    st'.PointsBefore (i + 1) ∧
      ((c.keywordOf (argString st.argv i) ≠ some .opt ∧ st'.argv = st.argv) ∨
        (c.keywordOf (argString st.argv i) = some .opt ∧ i + 1 < st.argv.length ∧
          st'.argv = st.argv.set (i + 1) (parsedToken (st.argv.getD (i + 1) [])))) := by
  have hfirst : ∀ j, st.first = some j → j ≤ i + 1 := fun j hj => Nat.le_succ_of_le (hbefore.first j hj)
  have hsecond : ∀ j, st.second = some j → j ≤ i + 1 :=
    fun j hj => Nat.le_succ_of_le (hbefore.second j hj)
  unfold scan at h
  cases hk : c.keywordOf (argString st.argv i) with
  | none =>
    rw [hk] at h
    cases h
    exact ⟨⟨hfirst, hsecond⟩, .inl ⟨nofun, rfl⟩⟩
  | some k =>
    rw [hk] at h
    cases k with
    | pwd =>
      cases h
      exact ⟨⟨fun _ => nextArg_le, hsecond⟩, .inl ⟨nofun, rfl⟩⟩
    | old =>
      cases h
      exact ⟨⟨fun _ => nextArg_le, hsecond⟩, .inl ⟨nofun, rfl⟩⟩
    | new =>
      cases h
      exact ⟨⟨hfirst, fun _ => nextArg_le⟩, .inl ⟨nofun, rfl⟩⟩
    | pth =>
      obtain ⟨_, rfl⟩ := scanPth_ok h
      exact ⟨⟨hfirst, hsecond⟩, .inl ⟨nofun, rfl⟩⟩
    | opt =>
      -- only `parse_opt` writes into the line, and all pointers lead before the token it parses
      dsimp only at h
      cases hscan : scanOpt st i with
      | error f =>
        rw [hscan] at h
        cases h
      | ok st'' =>
        rw [hscan] at h
        cases h
        obtain ⟨hlt, hf, hs, hargv⟩ := scanOpt_ok hscan
        refine ⟨⟨?_, ?_⟩, .inr ⟨rfl, hlt, hargv⟩⟩
        · rw [hf]
          exact hfirst
        · rw [hs]
          exact hsecond

theorem lookedAt_cons (c : CommandName) (token : List UInt8) (rest : List (List UInt8)) :
    c.lookedAt (token :: rest) = (token, rest.head?) ::
      if c.keywordOf token = some .opt then c.lookedAt rest.tail else c.lookedAt rest := by
  cases rest with
  | nil =>
    rw [List.tail_nil, ite_self]
    rfl
  | cons value rest => rfl

theorem gather_skip {c : CommandName} {token : List UInt8} (h : c.keywordOf token = none)
    (rest : List (List UInt8)) (g : Gathered) :
    c.gather (c.lookedAt (token :: rest)) g = c.gather (c.lookedAt rest) g := by
  rw [lookedAt_cons, CommandName.gather, h, if_neg nofun]
  rfl

/-- `argv[i + 1]` is the string at the head of those behind token `i`. -/
theorem nextArg_string (argv : List (List UInt8)) (i : Nat) :
    (nextArg argv i).map (argString argv) = ((argv.drop (i + 1)).map cstr).head? := by
  unfold nextArg
  split
  · next h =>
    rw [drop_eq_cons h]
    rfl
  · next h =>
    rw [List.drop_eq_nil_of_le (Nat.le_of_not_lt h)]
    rfl

/-- The invariant of the loop is that it writes only behind the pointers it keeps; the induction is
on the tokens that remain. -/
theorem loop_gathered {c : CommandName} {n : Nat} : ∀ {i : Nat} {st : Scan},
    i + n = st.argv.length → st.PointsBefore i →
      (loop c n i st).map (Except.map Scan.gathered) =
        c.gather (c.lookedAt ((st.argv.drop i).map cstr)) st.gathered := by
  induction n with
  | zero =>
    intro i st hlen hbefore
    rw [Nat.add_zero] at hlen
    rw [List.drop_eq_nil_of_le (Nat.le_of_eq hlen.symm)]
    rfl
  | succ n ih =>
    intro i st hlen hbefore
    have hi : i < st.argv.length := by omega
    have hstep : _ = act _ _ (c.keywordOf (cstr (st.argv.getD i []))) := @scan_gathered c i st hbefore
    rw [nextArg_string] at hstep
    rw [drop_eq_cons hi, List.map_cons, lookedAt_cons, CommandName.gather, loop, ← hstep]
    cases hscan : scan c i st with
    | error f => rfl
    | ok out =>
      cases out with
      | error e => rfl
      | ok st' =>
        obtain ⟨hbefore', hargv⟩ := scan_ok hbefore hscan
        have hrest : c.gather (c.lookedAt ((st'.argv.drop (i + 1)).map cstr)) st'.gathered =
            c.gather (if c.keywordOf (argString st.argv i) = some .opt then
              c.lookedAt ((st.argv.drop (i + 1)).map cstr).tail
              else c.lookedAt ((st.argv.drop (i + 1)).map cstr)) st'.gathered := by
          rcases hargv with ⟨hk, hargv⟩ | ⟨hk, hlt, hargv⟩
          · rw [if_neg hk, hargv]
          · -- the loop stands on the parsed value, which it takes for nothing
            rw [if_pos hk, hargv, drop_set_succ hlt, List.map_cons,
              gather_skip (keywordOf_parsed c _), drop_eq_cons hlt]
            rfl
        have hlen' : i + 1 + n = st'.argv.length := by
          rcases hargv with ⟨_, hargv⟩ | ⟨_, _, hargv⟩
          · rw [hargv]
            omega
          · rw [hargv, List.length_set]
            omega
        exact (ih hlen' hbefore').trans hrest

/-! ## The call of a line -/

/-- The strings of the tokens of a line. -/
def lineStrings (line : List UInt8) : List (List UInt8) := (lineTokens line).map cstr

/-- The locals before the loop. -/
def Gathered.none : Gathered where
  first := Option.none
  second := Option.none
  op := -1
  pathname := List.replicate pathMax 0

/-- An argument a wrapper accepts. -/
def given (value : Option (List UInt8)) : Option (List UInt8) :=
  value.filter fun string => decide (string ≠ nullText)

/-- The call a wrapper makes with what it has gathered. -/
def CommandName.call (c : CommandName) (g : Gathered) : Option DoChange :=
  match c with
  | .cngst => (given g.first).map fun pwd => .state pwd g.op
  | .cngpth => (given g.first).map fun pwd => .path pwd g.pathname g.op
  | .cngpwd => (given g.first).bind fun oldPwd => (given g.second).map (.password oldPwd)

/-- What a wrapper makes of what it has gathered. -/
def CommandName.finish (c : CommandName) :
    Except Fault (Except Errno Gathered) → Except Fault (Except Int DoChange)
  | .error f => .error f
  | .ok (.error e) => .ok (.error (fail e))
  | .ok (.ok g) =>
    match c.call g with
    | none => .ok (.error (fail .einval))
    | some call => .ok (.ok call)

theorem givenArg_given (argv : List (List UInt8)) (p : Option Nat) :
    givenArg argv p = given (p.map (argString argv)) := by
  cases p with
  | none => rfl
  | some j =>
    rw [givenArg, Option.map_some, given, Option.filter_some]
    by_cases hnull : argString argv j = nullText
    · rw [if_pos (strcmp_nullText_iff.mpr hnull), if_neg (by simpa using hnull)]
    · rw [if_neg (fun h => hnull (strcmp_nullText_iff.mp h)), if_pos (by simpa using hnull)]

theorem scanInit_before (argv : List (List UInt8)) : (scanInit argv).PointsBefore 0 :=
  ⟨nofun, nofun⟩

/-- A loop over all tokens. -/
theorem loop_strings (c : CommandName) (argv : List (List UInt8)) :
    (loop c argv.length 0 (scanInit argv)).map (Except.map Scan.gathered) =
      c.gather (c.lookedAt (argv.map cstr)) .none :=
  loop_gathered (Nat.zero_add _) (scanInit_before argv)

theorem stateCall_strings (argv : List (List UInt8)) :
    stateCall argv 4 =
      CommandName.cngst.finish (CommandName.cngst.gather (CommandName.cngst.lookedAt (argv.map cstr)) .none) := by
  rw [stateCall, if_neg (not_not.mpr rfl), ← loop_strings, ← loopState_loop]
  cases loopState argv.length 0 (scanInit argv) with
  | error f => rfl
  | ok st =>
    dsimp only [Except.map, CommandName.finish, CommandName.call, Scan.gathered]
    rw [givenArg_given]
    cases given (st.first.map (argString st.argv)) with
    | none => rfl
    | some pwd => rfl

theorem pathCall_strings {alloc : Nat → Bool} (halloc : alloc 4 = true) (argv : List (List UInt8)) :
    pathCall alloc argv 6 =
      CommandName.cngpth.finish
        (CommandName.cngpth.gather (CommandName.cngpth.lookedAt (argv.map cstr)) .none) := by
  rw [pathCall, if_neg (not_not.mpr rfl), halloc, if_neg (by decide), ← loop_strings, loopPath_loop]
  cases loop .cngpth argv.length 0 (scanInit argv) with
  | error f => rfl
  | ok out =>
    cases out with
    | error e => rfl
    | ok st =>
      dsimp only [Except.map, CommandName.finish, CommandName.call, Scan.gathered]
      rw [givenArg_given]
      cases given (st.first.map (argString st.argv)) with
      | none => rfl
      | some pwd => rfl

theorem passwordCall_strings (argv : List (List UInt8)) :
    passwordCall argv 4 =
      CommandName.cngpwd.finish
        (CommandName.cngpwd.gather (CommandName.cngpwd.lookedAt (argv.map cstr)) .none) := by
  rw [passwordCall, if_neg (not_not.mpr rfl), ← loop_strings, ← loopPassword_loop]
  generalize loopPassword argv.length 0 (scanInit argv) = st
  dsimp only [Except.map, CommandName.finish, CommandName.call, Scan.gathered]
  rw [givenArg_given, givenArg_given]
  cases given (st.first.map (argString st.argv)) with
  | none => rfl
  | some oldPwd =>
    cases given (st.second.map (argString st.argv)) with
    | none => rfl
    | some newPwd => rfl

theorem strncmp_command {word : List UInt8} (hnul : (0 : UInt8) ∉ word) (c : CommandName) :
    (strncmp (strlen word) c.text word == 0) = decide (word <+: c.text) := by
  have hname : cstr c.text = c.text := by
    cases c with
    | cngst => rfl
    | cngpth => rfl
    | cngpwd => rfl
  have hiff : strncmp (strlen word) c.text word = 0 ↔ word <+: c.text := by
    rw [strncmp_eq_zero, hname, strlen, cstr_eq_self hnul, List.take_length,
      List.prefix_iff_eq_take]
    exact eq_comm
  rw [Bool.eq_iff_iff, beq_iff_eq, decide_eq_true_iff, hiff]

theorem checkAvilableSysList_command {word : List UInt8} (hnul : (0 : UInt8) ∉ word) :
    checkAvilableSysList word =
      match commandOf word with
      | some .cngst => some 0
      | some .cngpth => some 1
      | some .cngpwd => some 2
      | none => none := by
  have hstate : (strncmp (strlen word) changeStateCmd word == 0) = _ := strncmp_command hnul .cngst
  have hpath : (strncmp (strlen word) changePathCmd word == 0) = _ := strncmp_command hnul .cngpth
  have hpassword : (strncmp (strlen word) changePasswordCmd word == 0) = _ :=
    strncmp_command hnul .cngpwd
  simp only [checkAvilableSysList, listSysCall, commandOf, List.findIdx?_cons, List.find?_cons,
    hstate, hpath, hpassword]
  cases decide (word <+: CommandName.cngst.text) with
  | true => rfl
  | false =>
    cases decide (word <+: CommandName.cngpth.text) with
    | true => rfl
    | false =>
      cases decide (word <+: CommandName.cngpwd.text) with
      | true => rfl
      | false => rfl

/-- The line is handed to the wrapper of the command, with the number of tokens it asks for and the
memory it needs. -/
structure Addressed (alloc : Nat → Bool) (c : CommandName) (line : List UInt8) : Prop where
  short : line.length < pathMax + nameMax + 1
  buffer : alloc 5 = true
  name : commandOf ((lineStrings line).headD []) = some c
  format : line.count space = c.format
  pathname : c = .cngpth → alloc 4 = true

theorem lineStrings_headD (line : List UInt8) :
    (lineStrings line).headD [] = cstr ((lineTokens line).headD []) := by
  unfold lineStrings
  cases lineTokens line with
  | nil => rfl
  | cons token tokens => rfl

/-- The wrapper of a line that is short enough. -/
theorem procCall_wrapper {alloc : Nat → Bool} {line : List UInt8}
    (hshort : line.length < pathMax + nameMax + 1) (hbuffer : alloc 5 = true)
    (hspaces : line.count space ≤ 14) :
    procCall alloc line =
      match commandOf ((lineStrings line).headD []) with
      | some .cngst => stateCall (lineTokens line).tail (line.count space)
      | some .cngpth => pathCall alloc (lineTokens line).tail (line.count space)
      | some .cngpwd => passwordCall (lineTokens line).tail (line.count space)
      | none => .ok (.error (fail .ebadmsg)) := by
  have htokens : ¬ 15 < line.count space + 1 := by omega
  rw [procCall, if_neg (Nat.not_le.mpr hshort), hbuffer, if_neg (by decide), lineStrings_headD]
  dsimp only
  rw [length_lineTokens, if_neg htokens, Nat.add_sub_cancel,
    checkAvilableSysList_command (zero_notMem_cstr _)]
  cases commandOf (cstr ((lineTokens line).headD [])) with
  | none => rfl
  | some c =>
    cases c with
    | cngst => rfl
    | cngpth => rfl
    | cngpwd => rfl

theorem procCall_eq {alloc : Nat → Bool} {c : CommandName} {line : List UInt8}
    (h : Addressed alloc c line) :
    procCall alloc line = c.finish (c.gather (c.lookedAt (lineStrings line).tail) .none) := by
  obtain ⟨hshort, hbuffer, hname, hformat, hpathname⟩ := h
  have hspaces : line.count space ≤ 14 := by
    rw [hformat]
    cases c <;> decide
  rw [procCall_wrapper hshort hbuffer hspaces, hname, hformat, lineStrings, ← List.map_tail]
  cases c with
  | cngst => exact stateCall_strings _
  | cngpth => exact pathCall_strings (hpathname rfl) _
  | cngpwd => exact passwordCall_strings _

/-- Any other line is refused before its tokens are looked at. -/
theorem procCall_refused {alloc : Nat → Bool} {line : List UInt8} (hspaces : line.count space ≤ 14)
    (h : ∀ c, ¬ Addressed alloc c line) : ∃ ret < 0, procCall alloc line = .ok (.error ret) := by
  rcases Nat.lt_or_ge line.length (pathMax + nameMax + 1) with hshort | hlong
  · cases hbuffer : alloc 5 with
    | false =>
      refine ⟨_, fail_neg .enomem, ?_⟩
      rw [procCall, if_neg (Nat.not_le.mpr hshort), hbuffer]
      rfl
    | true =>
      rw [procCall_wrapper hshort hbuffer hspaces]
      cases hname : commandOf ((lineStrings line).headD []) with
      | none => exact ⟨_, fail_neg .ebadmsg, rfl⟩
      | some c =>
        have hformat : c.format = line.count space → c = .cngpth ∧ alloc 4 = false := by
          intro hformat
          by_contra hno
          refine h c ⟨hshort, hbuffer, hname, hformat.symm, fun hc => ?_⟩
          exact Bool.eq_true_of_not_eq_false fun hpathname => hno ⟨hc, hpathname⟩
        cases c with
        | cngst =>
          have hne : line.count space ≠ 4 := fun heq => nomatch (hformat heq.symm).1
          exact ⟨_, fail_neg .einval, if_pos hne⟩
        | cngpwd =>
          have hne : line.count space ≠ 4 := fun heq => nomatch (hformat heq.symm).1
          exact ⟨_, fail_neg .einval, if_pos hne⟩
        | cngpth =>
          by_cases heq : line.count space = 6
          · refine ⟨_, fail_neg .enomem, ?_⟩
            dsimp only
            rw [pathCall, if_neg (not_not.mpr heq), (hformat heq.symm).2]
            rfl
          · exact ⟨_, fail_neg .einval, if_pos heq⟩
  · exact ⟨-1, by decide, if_pos hlong⟩

end RefMonitor
