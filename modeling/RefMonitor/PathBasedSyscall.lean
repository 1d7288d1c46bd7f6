import RefMonitor.Syscalls

/-!
# `reference_path_based_syscall.c`: commands written to the access point

`syscall_proc_write` turns newlines and spaces of the written line into NULs and collects
a pointer behind every space. Each pointer is a C string of its own: a token ends where
the next one starts, or at an earlier NUL. The model keeps `argv` as the list of these
token buffers, so that writing into one token in place (`parse_opt` does) is an update of
that list, and a pointer that a wrapper keeps is an index.

`argv` has 16 slots and `parse_opt` has 9; one more separator than fits is a `Fault`, and
so is `parse_opt` on the `NULL` behind the last token.
-/

namespace RefMonitor
open CString

variable {δ : Type}

def changeStateCmd : List UInt8 := ascii "cngst"
def changePathCmd : List UInt8 := ascii "cngpth"
def changePasswordCmd : List UInt8 := ascii "cngpwd"
def pwdKey : List UInt8 := ascii "-pwd"
def optKey : List UInt8 := ascii "-opt"
def pthKey : List UInt8 := ascii "-pth"
def oldPwdKey : List UInt8 := ascii "-old"
def newPwdKey : List UInt8 := ascii "-new"
def nullText : List UInt8 := ascii "(null)"

def space : UInt8 := 32
def newline : UInt8 := 10
def bar : UInt8 := 124

/-! ## Options -/

/-- The words of an option and their bits, in the order they are tried. -/
def optWords : List (List UInt8 × Nat) :=
  [(ascii "ON", stateOn), (ascii "OFF", stateOff), (ascii "RON", stateRecOn),
   (ascii "ROF", stateRecOff), (ascii "ADPTH", addPathOp), (ascii "RMPTH", removePathOp)]

/-- The bit of one word: the first name the word is a start of, or none. -/
def wordBit (word : List UInt8) : Nat :=
  match optWords.find? (fun w => strncmp (strlen word) word w.1 == 0) with
  | some w => w.2
  | none => 0

/-- `if (c >= 'a' && c <= 'z') c -= 32`. -/
def toUpper (c : UInt8) : UInt8 := if 97 ≤ c ∧ c ≤ 122 then c - 32 else c

/-- The token after `parse_opt` has run over it: upper case, bars turned into NULs. -/
def parsedToken (opStr : List UInt8) : List UInt8 :=
  (cstr opStr).map (fun c => if toUpper c = bar then 0 else toUpper c)

/-- `parse_opt`: the bits of the words between the bars. There are 9 slots for pointers,
one of which holds the final `NULL`. -/
def parseOpt (opStr : List UInt8) : Except Fault Nat :=
  let words := ((cstr opStr).map toUpper).splitOn bar
  if 8 < words.length then .error .arrayBound
  else .ok (words.foldl (fun ret word => ret ||| wordBit word) 0)

/-! ## The wrappers -/

/-- The locals of a wrapper while it scans `argv`. -/
structure Scan where
  argv : List (List UInt8)
  /-- `pwd`, or `old_pwd`, as an index into `argv`. -/
  first : Option Nat
  /-- `new_pwd`. -/
  second : Option Nat
  op : Int
  pathname : List UInt8

/-- `argv[i + 1]` as a pointer: `NULL` behind the last token. -/
def nextArg (argv : List (List UInt8)) (i : Nat) : Option Nat :=
  if i + 1 < argv.length then some (i + 1) else none

/-- `!strncmp(argv[i], KEY, 4)`. -/
def isKey (argv : List (List UInt8)) (i : Nat) (key : List UInt8) : Bool :=
  strncmp 4 (argv.getD i []) key == 0

/-- `op = parse_opt(argv[i + 1])`, which also rewrites that token. -/
def scanOpt (st : Scan) (i : Nat) : Except Fault Scan :=
  match nextArg st.argv i with
  | none => .error .nullPtr
  | some j =>
    match parseOpt (st.argv.getD j []) with
    | .error f => .error f
    | .ok op => .ok { st with op := op, argv := st.argv.set j (parsedToken (st.argv.getD j [])) }

/-- The string behind a pointer into `argv`. -/
def argString (argv : List (List UInt8)) (i : Nat) : List UInt8 := cstr (argv.getD i [])

def scanState (i : Nat) (st : Scan) : Except Fault Scan :=
  let st := if isKey st.argv i pwdKey then { st with first := nextArg st.argv i } else st
  if isKey st.argv i optKey then scanOpt st i else .ok st

/-- `strncpy(pathname, argv[i + 1], strlen(argv[i + 1]))`: the bound is the length of the
source, so a token longer than the buffer is written past its end. The inner error is the
early `return -EINVAL`. -/
def scanPth (st : Scan) (i : Nat) : Except Fault (Except Errno Scan) :=
  match nextArg st.argv i with
  | none => .ok (.error .einval)
  | some j =>
    let arg := st.argv.getD j []
    if strcmp arg nullText = 0 then .ok (.error .einval)
    else if pathMax < strlen arg then .error .arrayBound
    else .ok (.ok { st with pathname := strncpy st.pathname arg (strlen arg) })

def scanPath (i : Nat) (st : Scan) : Except Fault (Except Errno Scan) :=
  let st := if isKey st.argv i pwdKey then { st with first := nextArg st.argv i } else st
  match (if isKey st.argv i pthKey then scanPth st i else .ok (.ok st)) with
  | .error f => .error f
  | .ok (.error e) => .ok (.error e)
  | .ok (.ok st) =>
    if isKey st.argv i optKey then
      match scanOpt st i with
      | .error f => .error f
      | .ok st => .ok (.ok st)
    else .ok (.ok st)

def scanPassword (i : Nat) (st : Scan) : Scan :=
  let st := if isKey st.argv i oldPwdKey then { st with first := nextArg st.argv i } else st
  if isKey st.argv i newPwdKey then { st with second := nextArg st.argv i } else st

/-- The loops `while (argv[i] != NULL)`, from index `i` over the remaining `n` tokens. -/
def loopState : Nat → Nat → Scan → Except Fault Scan
  | 0, _, st => .ok st
  | n + 1, i, st =>
    match scanState i st with
    | .error f => .error f
    | .ok st => loopState n (i + 1) st

def loopPath : Nat → Nat → Scan → Except Fault (Except Errno Scan)
  | 0, _, st => .ok (.ok st)
  | n + 1, i, st =>
    match scanPath i st with
    | .error f => .error f
    | .ok (.error e) => .ok (.error e)
    | .ok (.ok st) => loopPath n (i + 1) st

theorem loopState_succ (n i : Nat) (st : Scan) :
    loopState (n + 1) i st =
      match scanState i st with
      | .error f => .error f
      | .ok st => loopState n (i + 1) st := by
  rfl

theorem loopPath_succ (n i : Nat) (st : Scan) :
    loopPath (n + 1) i st =
      match scanPath i st with
      | .error f => .error f
      | .ok (.error e) => .ok (.error e)
      | .ok (.ok st) => loopPath n (i + 1) st := by
  rfl

def loopPassword : Nat → Nat → Scan → Scan
  | 0, _, st => st
  | n + 1, i, st => loopPassword n (i + 1) (scanPassword i st)

/-- The locals of a wrapper before its loop. -/
def scanInit (argv : List (List UInt8)) : Scan :=
  { argv := argv, first := none, second := none, op := -1, pathname := List.replicate pathMax 0 }

/-- A pointer argument a wrapper accepts: not `NULL` and not the text `(null)`. -/
def givenArg (argv : List (List UInt8)) (p : Option Nat) : Option (List UInt8) :=
  match p with
  | none => none
  | some j => if strcmp (argv.getD j []) nullText = 0 then none else some (argString argv j)

def changeStateVfsSysWrapper (env : Env) (v : Vfs δ) (task : Task δ) (argv : List (List UInt8))
    (format : Nat) (s : State) : Except Fault (Int × State) :=
  if format ≠ 4 then .ok (fail .einval, s)
  else
    match loopState argv.length 0 (scanInit argv) with
    | .error f => .error f
    | .ok st =>
      match givenArg st.argv st.first with
      | none => .ok (fail .einval, s)
      | some pwd => .ok (doChangeState env v task pwd st.op s)

def changePathVfsSysWrapper (env : Env) (v : Vfs δ) (task : Task δ) (argv : List (List UInt8))
    (format : Nat) (s : State) : Except Fault (Int × State) :=
  if format ≠ 6 then .ok (fail .einval, s)
  else if !task.alloc 4 then .ok (fail .enomem, s)
  else
    match loopPath argv.length 0 (scanInit argv) with
    | .error f => .error f
    | .ok (.error e) => .ok (fail e, s)
    | .ok (.ok st) =>
      match givenArg st.argv st.first with
      | none => .ok (fail .einval, s)
      | some pwd => doChangePath env v task pwd st.pathname st.op s

def changePasswordVfsSysWrapper (env : Env) (task : Task δ) (argv : List (List UInt8))
    (format : Nat) (s : State) : Except Fault (Int × State) :=
  if format ≠ 4 then .ok (fail .einval, s)
  else
    let st := loopPassword argv.length 0 (scanInit argv)
    match givenArg st.argv st.first with
    | none => .ok (fail .einval, s)
    | some oldPwd =>
      match givenArg st.argv st.second with
      | none => .ok (fail .einval, s)
      | some newPwd => .ok (doChangePassword env task oldPwd newPwd s)

/-! ## The write -/

def listSysCall : List (List UInt8) := [changeStateCmd, changePathCmd, changePasswordCmd]

/-- The index of the first command the name is a start of. -/
def checkAvilableSysList (sysName : List UInt8) : Option Nat :=
  listSysCall.findIdx? (fun cmd => strncmp (strlen sysName) cmd sysName == 0)

/-- The tokens of a line: newlines end a token early, spaces separate tokens. -/
def lineTokens (line : List UInt8) : List (List UInt8) :=
  (line.map (fun c => if c = newline then 0 else c)).splitOn space

/-- `syscall_proc_write` of a line that can be read from user memory. `task.alloc 5` is the
buffer for the line. -/
def syscallProcWrite (env : Env) (v : Vfs δ) (task : Task δ) (line : List UInt8) (s : State) :
    Except Fault (Int × State) :=
  if pathMax + nameMax + 1 ≤ line.length then .ok (-1, s)
  else if !task.alloc 5 then .ok (fail .enomem, s)
  else
    let argv := lineTokens line
    -- argv[16] also holds the final NULL
    if 15 < argv.length then .error .arrayBound
    else
      let format := argv.length - 1
      let called : Except Fault (Int × State) :=
        match checkAvilableSysList (cstr (argv.headD [])) with
        | some 0 => changeStateVfsSysWrapper env v task argv.tail format s
        | some 1 => changePathVfsSysWrapper env v task argv.tail format s
        | some 2 => changePasswordVfsSysWrapper env task argv.tail format s
        | _ => .ok (fail .ebadmsg, s)
      match called with
      | .error f => .error f
      | .ok (ret, s) => if ret < 0 then .ok (ret, s) else .ok (line.length, s)

end RefMonitor
