import RefMonitor.Interfaces
import RefMonitor.OptionValues

/-!
# The call a written line leads to

Each wrapper of `reference_path_based_syscall.c` ends in one call of `do_change_state`,
`do_change_path` or `do_change_password`, or returns an error before it. Here that call is taken
out of the wrappers, so that one can ask of a line which function it calls and with what. The three
loops are one loop over the keywords of a command.

Results:
1. `syscallProcWrite_call`: the write is the call, with the length returned for its success.
2. `loopState_loop`, `loopPath_loop`, `loopPassword_loop`: the loops of the wrappers as one.
-/

namespace RefMonitor
open CString

variable {δ : Type}

/-! ## Commands and keywords -/

inductive Keyword
  | pwd
  | opt
  | pth
  | old
  | new
deriving DecidableEq, Repr

def Keyword.text : Keyword → List UInt8
  | .pwd => pwdKey
  | .opt => optKey
  | .pth => pthKey
  | .old => oldPwdKey
  | .new => newPwdKey

inductive CommandName
  | cngst
  | cngpth
  | cngpwd
deriving DecidableEq, Repr

def CommandName.text : CommandName → List UInt8
  | .cngst => changeStateCmd
  | .cngpth => changePathCmd
  | .cngpwd => changePasswordCmd

/-- The keywords the wrapper of a command compares the tokens with. -/
def CommandName.keywords : CommandName → List Keyword
  | .cngst => [.pwd, .opt]
  | .cngpth => [.pwd, .pth, .opt]
  | .cngpwd => [.old, .new]

/-- The number of separators the wrapper asks for. -/
def CommandName.format : CommandName → Nat
  | .cngst => 4
  | .cngpth => 6
  | .cngpwd => 4

theorem Keyword.isOption (k : Keyword) : IsOption k.text := by
  cases k with
  | pwd => exact pwdKey_isOption
  | opt => exact optKey_isOption
  | pth => exact pthKey_isOption
  | old => exact oldPwdKey_isOption
  | new => exact newPwdKey_isOption

theorem Keyword.text_inj {k k' : Keyword} (h : k.text = k'.text) : k = k' := by
  cases k <;> cases k' <;> first | rfl | exact absurd h (by decide)

/-- The keyword of the command a string is taken for. -/
def CommandName.keywordOf (c : CommandName) (token : List UInt8) : Option Keyword :=
  c.keywords.find? fun k => decide (k.text <+: token)

/-- The command a first word is taken for: it need only start the name. -/
def commandOf (word : List UInt8) : Option CommandName :=
  [CommandName.cngst, .cngpth, .cngpwd].find? fun c => decide (word <+: c.text)

/-! ## Calls -/

/-- The call at the end of a wrapper. -/
inductive DoChange
  | state (pwd : List UInt8) (op : Int)
  | path (pwd pathname : List UInt8) (op : Int)
  | password (oldPwd newPwd : List UInt8)
deriving DecidableEq, Repr

def DoChange.run (env : Env) (v : Vfs δ) (task : Task δ) (s : State) :
    DoChange → Except Fault (Int × State)
  | .state pwd op => .ok (doChangeState env v task pwd op s)
  | .path pwd pathname op => doChangePath env v task pwd pathname op s
  | .password oldPwd newPwd => .ok (doChangePassword env task oldPwd newPwd s)

/-- The command a function belongs to. -/
def DoChange.command : DoChange → CommandName
  | .state _ _ => .cngst
  | .path _ _ _ => .cngpth
  | .password _ _ => .cngpwd

/-- `change_state_vfs_sys_wrapper` up to its call; the inner error is a value returned without
one. -/
def stateCall (argv : List (List UInt8)) (format : Nat) : Except Fault (Except Int DoChange) :=
  if format ≠ 4 then .ok (.error (fail .einval))
  else
    match loopState argv.length 0 (scanInit argv) with
    | .error f => .error f
    | .ok st =>
      match givenArg st.argv st.first with
      | none => .ok (.error (fail .einval))
      | some pwd => .ok (.ok (.state pwd st.op))

def pathCall (alloc : Nat → Bool) (argv : List (List UInt8)) (format : Nat) :
    Except Fault (Except Int DoChange) :=
  if format ≠ 6 then .ok (.error (fail .einval))
  else if !alloc 4 then .ok (.error (fail .enomem))
  else
    match loopPath argv.length 0 (scanInit argv) with
    | .error f => .error f
    | .ok (.error e) => .ok (.error (fail e))
    | .ok (.ok st) =>
      match givenArg st.argv st.first with
      | none => .ok (.error (fail .einval))
      | some pwd => .ok (.ok (.path pwd st.pathname st.op))

def passwordCall (argv : List (List UInt8)) (format : Nat) : Except Fault (Except Int DoChange) :=
  if format ≠ 4 then .ok (.error (fail .einval))
  else
    let st := loopPassword argv.length 0 (scanInit argv)
    match givenArg st.argv st.first with
    | none => .ok (.error (fail .einval))
    | some oldPwd =>
      match givenArg st.argv st.second with
      | none => .ok (.error (fail .einval))
      | some newPwd => .ok (.ok (.password oldPwd newPwd))

/-- `syscall_proc_write` up to the call of its wrapper. -/
def procCall (alloc : Nat → Bool) (line : List UInt8) : Except Fault (Except Int DoChange) :=
  if pathMax + nameMax + 1 ≤ line.length then .ok (.error (-1))
  else if !alloc 5 then .ok (.error (fail .enomem))
  else
    let argv := lineTokens line
    if 15 < argv.length then .error .arrayBound
    else
      let format := argv.length - 1
      match checkAvilableSysList (cstr (argv.headD [])) with
      | some 0 => stateCall argv.tail format
      | some 1 => pathCall alloc argv.tail format
      | some 2 => passwordCall argv.tail format
      | _ => .ok (.error (fail .ebadmsg))

/-- What the write makes of the call it leads to. -/
def procResult (env : Env) (v : Vfs δ) (task : Task δ) (len : Nat) (s : State) :
    Except Fault (Except Int DoChange) → Except Fault (Int × State)
  | .error f => .error f
  | .ok (.error ret) => .ok (ret, s)
  | .ok (.ok call) => returned len (call.run env v task s)

theorem returned_fail (e : Errno) (len : Nat) (s : State) :
    returned len (.ok (fail e, s)) = .ok (fail e, s) := if_pos (fail_neg e)

section
variable (env : Env) (v : Vfs δ) (task : Task δ) (argv : List (List UInt8)) (format len : Nat)
  (s : State)

theorem stateCall_result :
    returned len (changeStateVfsSysWrapper env v task argv format s) =
      procResult env v task len s (stateCall argv format) := by
  unfold changeStateVfsSysWrapper stateCall
  split
  · exact returned_fail ..
  · cases loopState argv.length 0 (scanInit argv) with
    | error f => rfl
    | ok st =>
      dsimp only
      cases givenArg st.argv st.first with
      | none => exact returned_fail ..
      | some pwd => rfl

theorem pathCall_result :
    returned len (changePathVfsSysWrapper env v task argv format s) =
      procResult env v task len s (pathCall task.alloc argv format) := by
  unfold changePathVfsSysWrapper pathCall
  split
  · exact returned_fail ..
  · split
    · exact returned_fail ..
    · cases loopPath argv.length 0 (scanInit argv) with
      | error f => rfl
      | ok out =>
        cases out with
        | error e => exact returned_fail ..
        | ok st =>
          dsimp only
          cases givenArg st.argv st.first with
          | none => exact returned_fail ..
          | some pwd => rfl

theorem passwordCall_result :
    returned len (changePasswordVfsSysWrapper env task argv format s) =
      procResult env v task len s (passwordCall argv format) := by
  unfold changePasswordVfsSysWrapper passwordCall
  split
  · exact returned_fail ..
  · dsimp only
    generalize loopPassword argv.length 0 (scanInit argv) = st
    cases givenArg st.argv st.first with
    | none => exact returned_fail ..
    | some oldPwd =>
      dsimp only
      cases givenArg st.argv st.second with
      | none => exact returned_fail ..
      | some newPwd => rfl

end

/-- The write makes at most one call, the one of `procCall`, and returns its failure or the length
of the line. -/
theorem syscallProcWrite_call (env : Env) (v : Vfs δ) (task : Task δ) (line : List UInt8)
    (s : State) : syscallProcWrite env v task line s =
      procResult env v task line.length s (procCall task.alloc line) := by
  unfold syscallProcWrite procCall
  split
  · rfl
  · split
    · rfl
    · dsimp only
      split
      · rfl
      · show returned line.length _ = _
        rcases checkAvilableSysList (cstr ((lineTokens line).headD [])) with _ | _ | _ | _ | n
        · exact returned_fail ..
        · exact stateCall_result ..
        · exact pathCall_result ..
        · exact passwordCall_result ..
        · exact returned_fail ..

/-! ## The strings of the tokens -/

theorem isKey_string {argv : List (List UInt8)} {i : Nat} (k : Keyword) :
    isKey argv i k.text = decide (k.text <+: argString argv i) := by
  have hk := k.isOption
  have hiff : strncmp 4 (argv.getD i []) k.text = 0 ↔ k.text <+: argString argv i := by
    rw [strncmp_eq_zero, cstr_eq_self hk.nul, List.take_of_length_le (Nat.le_of_eq hk.length),
      List.prefix_iff_eq_take, hk.length]
    exact eq_comm
  rw [isKey, Bool.eq_iff_iff, beq_iff_eq, decide_eq_true_eq, hiff]

theorem prefix_of_keywordOf {c : CommandName} {token : List UInt8} {k : Keyword}
    (h : c.keywordOf token = some k) : k ∈ c.keywords ∧ k.text <+: token := by
  unfold CommandName.keywordOf at h
  have hfound := List.find?_some h
  exact ⟨List.mem_of_find?_eq_some h, of_decide_eq_true hfound⟩

theorem keywordOf_eq_some {c : CommandName} {token : List UInt8} {k : Keyword}
    (hk : k ∈ c.keywords) (h : k.text <+: token) : c.keywordOf token = some k := by
  cases hfind : c.keywordOf token with
  | none =>
    have hno := List.find?_eq_none.mp hfind k hk
    exact absurd (decide_eq_true h) hno
  | some k' =>
    have hk' := (prefix_of_keywordOf hfind).2
    by_cases heq : k = k'
    · rw [heq]
    · exact absurd hk' (k.isOption.unique k'.isOption (fun ht => heq (Keyword.text_inj ht)) h)

theorem keywordOf_eq_some_iff {c : CommandName} {token : List UInt8} {k : Keyword} :
    c.keywordOf token = some k ↔ k ∈ c.keywords ∧ k.text <+: token :=
  ⟨prefix_of_keywordOf, fun h => keywordOf_eq_some h.1 h.2⟩

theorem keywordOf_eq_none_iff {c : CommandName} {token : List UInt8} :
    c.keywordOf token = none ↔ ∀ k ∈ c.keywords, ¬ k.text <+: token := by
  unfold CommandName.keywordOf
  rw [List.find?_eq_none]
  exact forall₂_congr fun k _ => not_congr decide_eq_true_iff

/-- The comparisons of a wrapper, in terms of the keyword of the token. -/
theorem isKey_keyword {c : CommandName} {argv : List (List UInt8)} {i : Nat} {k : Keyword}
    (hk : k ∈ c.keywords) :
    isKey argv i k.text = decide (c.keywordOf (argString argv i) = some k) := by
  rw [isKey_string, decide_eq_decide, keywordOf_eq_some_iff]
  exact (and_iff_right hk).symm

theorem keywordOf_parsed (c : CommandName) (token : List UInt8) :
    c.keywordOf (cstr (parsedToken token)) = none := by
  rw [keywordOf_eq_none_iff]
  intro k hk hprefix
  have hkey : isKey [parsedToken token] 0 k.text = false := isKey_parsed rfl k.isOption
  rw [isKey_string, decide_eq_false_iff_not] at hkey
  exact hkey hprefix

/-! ## One loop for the three wrappers -/

def scan (c : CommandName) (i : Nat) (st : Scan) : Except Fault (Except Errno Scan) :=
  match c.keywordOf (argString st.argv i) with
  | none => .ok (.ok st)
  | some .pwd | some .old => .ok (.ok { st with first := nextArg st.argv i })
  | some .new => .ok (.ok { st with second := nextArg st.argv i })
  | some .pth => scanPth st i
  | some .opt => (scanOpt st i).map .ok

def loop (c : CommandName) : Nat → Nat → Scan → Except Fault (Except Errno Scan)
  | 0, _, st => .ok (.ok st)
  | n + 1, i, st =>
    match scan c i st with
    | .error f => .error f
    | .ok (.error e) => .ok (.error e)
    | .ok (.ok st) => loop c n (i + 1) st

/-- The keyword of a token decides all comparisons with it. -/
theorem isKey_of_keywordOf {c : CommandName} {argv : List (List UInt8)} {i : Nat}
    {found : Option Keyword} (h : c.keywordOf (argString argv i) = found) {k : Keyword}
    (hk : k ∈ c.keywords) : isKey argv i k.text = decide (found = some k) := by
  rw [isKey_keyword hk, h]

theorem scanState_scan (i : Nat) (st : Scan) : (scanState i st).map .ok = scan .cngst i st := by
  unfold scan
  cases hk : CommandName.cngst.keywordOf (argString st.argv i) with
  | none =>
    have hpwd := @isKey_of_keywordOf _ _ _ _ hk .pwd (by decide)
    have hopt := @isKey_of_keywordOf _ _ _ _ hk .opt (by decide)
    rw [scanState_value hpwd hopt]
    rfl
  | some k =>
    have hpwd := @isKey_of_keywordOf _ _ _ _ hk .pwd (by decide)
    have hopt := @isKey_of_keywordOf _ _ _ _ hk .opt (by decide)
    have hmem := (keywordOf_eq_some_iff.mp hk).1
    cases k with
    | pwd =>
      rw [scanState_pwd hpwd hopt]
      rfl
    | opt => rw [scanState_opt_eq hopt]
    | pth => exact absurd hmem (by decide)
    | old => exact absurd hmem (by decide)
    | new => exact absurd hmem (by decide)

theorem scanPath_scan (i : Nat) (st : Scan) : scanPath i st = scan .cngpth i st := by
  unfold scan
  cases hk : CommandName.cngpth.keywordOf (argString st.argv i) with
  | none =>
    have hpwd := @isKey_of_keywordOf _ _ _ _ hk .pwd (by decide)
    have hpth := @isKey_of_keywordOf _ _ _ _ hk .pth (by decide)
    have hopt := @isKey_of_keywordOf _ _ _ _ hk .opt (by decide)
    rw [scanPath_value hpwd hpth hopt]
  | some k =>
    have hpwd := @isKey_of_keywordOf _ _ _ _ hk .pwd (by decide)
    have hpth := @isKey_of_keywordOf _ _ _ _ hk .pth (by decide)
    have hopt := @isKey_of_keywordOf _ _ _ _ hk .opt (by decide)
    have hmem := (keywordOf_eq_some_iff.mp hk).1
    cases k with
    | pwd => rw [scanPath_pwd hpwd hpth hopt]
    | pth =>
      have hpwd' : isKey st.argv i pwdKey = false := hpwd
      have hpth' : isKey st.argv i pthKey = true := hpth
      cases hscan : scanPth st i with
      | error f =>
        unfold scanPath
        simp only [hpwd', hpth', hscan, Bool.false_eq_true, if_false, if_true]
      | ok out =>
        cases out with
        | error e =>
          unfold scanPath
          simp only [hpwd', hpth', hscan, Bool.false_eq_true, if_false, if_true]
        | ok st' => exact scanPath_pth_eq hpth hscan
    | opt =>
      rw [scanPath_opt_eq hopt]
      cases scanOpt st i with
      | error f => rfl
      | ok st' => rfl
    | old => exact absurd hmem (by decide)
    | new => exact absurd hmem (by decide)

theorem scanPassword_scan (i : Nat) (st : Scan) :
    .ok (.ok (scanPassword i st)) = scan .cngpwd i st := by
  rw [scanPassword_eq]
  unfold scan
  cases hk : CommandName.cngpwd.keywordOf (argString st.argv i) with
  | none =>
    have hold : isKey st.argv i oldPwdKey = _ := @isKey_of_keywordOf _ _ _ _ hk .old (by decide)
    have hnew : isKey st.argv i newPwdKey = _ := @isKey_of_keywordOf _ _ _ _ hk .new (by decide)
    rw [hold, hnew]
    rfl
  | some k =>
    have hold : isKey st.argv i oldPwdKey = _ := @isKey_of_keywordOf _ _ _ _ hk .old (by decide)
    have hnew : isKey st.argv i newPwdKey = _ := @isKey_of_keywordOf _ _ _ _ hk .new (by decide)
    have hmem := (keywordOf_eq_some_iff.mp hk).1
    rw [hold, hnew]
    cases k with
    | old => rfl
    | new => rfl
    | pwd => exact absurd hmem (by decide)
    | opt => exact absurd hmem (by decide)
    | pth => exact absurd hmem (by decide)

theorem loopState_loop {n : Nat} : ∀ {i : Nat} {st : Scan},
    (loopState n i st).map .ok = loop .cngst n i st := by
  induction n with
  | zero => exact fun {_ _} => rfl
  | succ n ih =>
    intro i st
    rw [loopState_succ, loop, ← scanState_scan]
    cases scanState i st with
    | error f => rfl
    | ok st' => exact ih

theorem loopPath_loop {n : Nat} : ∀ {i : Nat} {st : Scan}, loopPath n i st = loop .cngpth n i st := by
  induction n with
  | zero => exact fun {_ _} => rfl
  | succ n ih =>
    intro i st
    rw [loopPath_succ, loop, ← scanPath_scan]
    cases scanPath i st with
    | error f => rfl
    | ok out =>
      cases out with
      | error e => rfl
      | ok st' => exact ih

theorem loopPassword_loop {n : Nat} : ∀ {i : Nat} {st : Scan},
    .ok (.ok (loopPassword n i st)) = loop .cngpwd n i st := by
  induction n with
  | zero => exact fun {_ _} => rfl
  | succ n ih =>
    intro i st
    rw [loopPassword, loop, ← scanPassword_scan]
    exact ih

end RefMonitor
