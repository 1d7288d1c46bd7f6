import RefMonitor.Lib.Lines
import RefMonitor.Discover
import RefMonitor.PagedRead
import RefMonitor.UserLib

/-!
# `user/admin.c`: the console

The administrator's program reads commands from its standard input and makes the system calls. It
takes every line with `fgets` into an array of its own: 32 bytes for a command or an option, 64
for a password, 4096 for a path. A line that does not fit is continued by the next read, whatever
that one asks for. At the end of the input `read_line` leaves the array as it is: that of `main`
holds the last command, those of the handlers what was on the stack.

What the program does outside of its own memory is `Outside`. With `monitorOutside` the calls are
those of the monitor, the file of the state is what the kernel prints of the parameter
`current_state`, and the access point is what `syscall_proc_read` delivers to the reads of `stdio`.

Results:
1. `readLine_line`: what a line that fits leaves in the array.
2. `readLine_cstr`: what is read is the beginning of the input, and the rest is left.
-/

namespace RefMonitor
open CString Lines Reader

variable {σ δ : Type}

/-! ## The source's functions -/

def maxPassword : Nat := 64
def maxCommand : Nat := 32

/-- `tolower` of the C locale. -/
def toLower (c : UInt8) : UInt8 := if 65 ≤ c ∧ c ≤ 90 then c + 32 else c

/-- `to_lowercase`; it goes on to the first NUL. -/
def toLowercase (str : List UInt8) : Except Fault (List UInt8) :=
  if 0 ∈ str then .ok ((cstr str).map toLower ++ str.drop (strlen str)) else .error .arrayBound

/-- `fgets(buffer, size, stream)`: the rest of the stream, and the buffer. -/
def fgets (size : Nat) (stream buffer : List UInt8) : Option (List UInt8 × List UInt8) :=
  if stream = [] then none
  else
    let got := piece newline (size - 1) stream
    some (stream.drop got.length, writeAt buffer 0 (got ++ [0]))

/-- `read_line`. -/
def readLine (size : Nat) (stdin buffer : List UInt8) : List UInt8 × List UInt8 :=
  match fgets size stdin buffer with
  | none => (stdin, buffer)
  | some (rest, buffer) =>
    if 0 < strlen buffer ∧ buffer.getD (strlen buffer - 1) 0 = newline then
      (rest, buffer.set (strlen buffer - 1) 0)
    else (rest, buffer)

/-- The arrays of the functions: what array number `a` of call number `f` holds before it is
written, and the bytes that stand behind it. -/
structure Stack where
  byte : Nat → Nat → Nat → UInt8
  behind : Nat → Nat → List UInt8

def Stack.array (st : Stack) (f a size : Nat) : List UInt8 := (List.range size).map (st.byte f a)

/-- The system calls and the files of the rest of the system. -/
structure Outside (σ : Type) where
  call : Request → σ → Except Fault (Int × σ)
  currentState : σ → Option (List UInt8)
  accessPoint : σ → Option (List UInt8)

/-- What the program has done outside, with the answers, and how many handlers it has called. -/
structure Dialogue (σ : Type) where
  world : σ
  calls : List (Request × Int)
  frames : Nat

/-- `input` is the array of `main`; `perrors` are the texts given to `perror`. -/
structure Console (σ : Type) where
  stdin : List UInt8
  input : List UInt8
  stdout : List UInt8
  perrors : List (List UInt8)
  dialogue : Dialogue σ

def Console.printf (c : Console σ) (text : List UInt8) : Console σ :=
  { c with stdout := c.stdout ++ text }

def Console.perror (c : Console σ) (text : List UInt8) : Console σ :=
  { c with perrors := c.perrors ++ [text] }

def Console.frame (c : Console σ) : Console σ :=
  { c with dialogue := { c.dialogue with frames := c.dialogue.frames + 1 } }

/-- `read_line(buffer, size)`. -/
def Console.readLine (c : Console σ) (size : Nat) (buffer : List UInt8) :
    List UInt8 × Console σ :=
  let (rest, buffer) := RefMonitor.readLine size c.stdin buffer
  (buffer, { c with stdin := rest })

/-- `%s`. -/
def formatS (buffer : List UInt8) : Except Fault (List UInt8) :=
  if 0 ∈ buffer then .ok (cstr buffer) else .error .arrayBound

/-- `%d`. -/
def formatD (n : Int) : List UInt8 := printD (UInt32.ofBitVec (BitVec.ofInt 32 n))

/-- A system call, and what is printed of its failure or success. -/
def Console.call (w : Outside σ) (c : Console σ) (request : Request)
    (failed : Console σ → Except Fault (Console σ)) (done : Except Fault (List UInt8)) :
    Except Fault (Console σ) :=
  match w.call request c.dialogue.world with
  | .error f => .error f
  | .ok (ret, world) =>
    let c := { c with dialogue :=
      { c.dialogue with world := world, calls := c.dialogue.calls ++ [(request, ret)] } }
    if ret < 0 then failed c else done.map c.printf

def isOne (input : List UInt8) (words : List (List UInt8)) : Bool :=
  words.any fun word => strcmp input word == 0

/-- The option of `change_state`. -/
def stateOf (input : List UInt8) : Option Nat :=
  if isOne input [ascii "0", ascii "on"] then some stateOn
  else if isOne input [ascii "1", ascii "off"] then some stateOff
  else if isOne input [ascii "2", ascii "rec_on"] then some stateRecOn
  else if isOne input [ascii "3", ascii "rec_off"] then some stateRecOff
  else none

/-- The option of `change_path`. -/
def pathOpOf (input : List UInt8) : Option Nat :=
  if isOne input [ascii "0", ascii "addpath"] then some addPathOp
  else if isOne input [ascii "1", ascii "rmpath"] then some removePathOp
  else none

def stateName (state : Nat) : List UInt8 :=
  if state = stateOn then ascii "on"
  else if state = stateOff then ascii "off"
  else if state = stateRecOn then ascii "rec_on"
  else ascii "rec_off"

def handleChangeState (w : Outside σ) (st : Stack) (c : Console σ) : Except Fault (Console σ) := do
  let c := c.frame
  let f := c.dialogue.frames
  let c := c.printf (ascii "Enter the password: ")
  let (password, c) := c.readLine maxPassword (st.array f 0 maxPassword)
  let c := c.printf (ascii "Select the state:\n[0]: ON\n[1]: OFF\n[2]: REC_ON\n[3]: REC_OFF\n")
  let (input, c) := c.readLine maxCommand (st.array f 1 maxCommand)
  let input ← toLowercase input
  match stateOf input with
  | none => .ok (c.printf (ascii "Invalid input for change_state.\n"))
  | some state =>
    c.call w (.changeState (some (password ++ st.behind f 0)) state)
      (fun c => do
        let text ← formatS password
        .ok ((c.printf (ascii "change_state(" ++ text ++ ascii ", " ++ formatD state ++
          ascii "): ")).perror (ascii "failed")))
      (.ok (ascii "state=" ++ stateName state ++ ascii " changed successfully\n"))

def handleChangePath (w : Outside σ) (st : Stack) (c : Console σ) : Except Fault (Console σ) := do
  let c := c.frame
  let f := c.dialogue.frames
  let c := c.printf (ascii "Enter the password: ")
  let (password, c) := c.readLine maxPassword (st.array f 0 maxPassword)
  let c := c.printf (ascii "Select operation:\n[0]: addpath\n[1]: rmpath\n")
  let (input, c) := c.readLine maxCommand (st.array f 2 maxCommand)
  let input ← toLowercase input
  match pathOpOf input with
  | none => .ok (c.printf (ascii "Invalid input for change_path.\n"))
  | some op =>
    let c := c.printf (ascii "Enter the path: ")
    let (path, c) := c.readLine pathMax (st.array f 1 pathMax)
    c.call w (.changePaths (some (password ++ st.behind f 0)) (some (path ++ st.behind f 1)) op)
      (fun c => do
        let text ← formatS password
        let pathText ← formatS path
        .ok ((c.printf (ascii "change_path(" ++ text ++ ascii ", " ++ pathText ++ ascii ", " ++
          formatD op ++ ascii "): ")).perror (ascii "failed")))
      ((formatS path).map fun text => ascii "path=" ++ text ++ ascii " added successfully\n")

def handleChangePassword (w : Outside σ) (st : Stack) (c : Console σ) :
    Except Fault (Console σ) :=
  let c := c.frame
  let f := c.dialogue.frames
  let c := c.printf (ascii "Enter the old password: ")
  let (oldPassword, c) := c.readLine maxPassword (st.array f 0 maxPassword)
  let c := c.printf (ascii "Enter the new password: ")
  let (newPassword, c) := c.readLine maxPassword (st.array f 1 maxPassword)
  let c := c.printf (ascii "Confirm password change (y/n): ")
  let (input, c) := c.readLine maxCommand (st.array f 2 maxCommand)
  if toLower (input.getD 0 0) = 121 then
    c.call w (.changePassword (some (oldPassword ++ st.behind f 0))
        (some (newPassword ++ st.behind f 1)))
      (fun c => .ok ((c.printf (ascii "change_password failed\n")).perror (ascii "error")))
      (.ok (ascii "password changed correctly\n"))
  else .ok (c.printf (ascii "Password change canceled.\n"))

/-- `(int)strtol(text, NULL, 10)`. -/
def atoiInt (text : List UInt8) : Int := Int.bmod (atoi text) (2 ^ 32)

/-- `print_actual_state`; the last byte that was read is overwritten, also when there is none. -/
def printActualState (w : Outside σ) (c : Console σ) : Except Fault (Console σ) :=
  match w.currentState c.dialogue.world with
  | none => .ok (c.perror (ascii "cannot ope sys"))
  | some content =>
    let buff := content.take 16
    if buff = [] then .error .arrayBound
    else
      let theState := atoiInt (cstr (buff.set (buff.length - 1) 0))
      .ok (c.printf (ascii "actual state=" ++ formatD theState ++ ascii ":" ++
        getStrState theState ++ ascii "\n"))

/-- The loop of `print_black_list`: what it prints. -/
def printLines : Nat → List UInt8 → List UInt8 → List UInt8
  | 0, _, _ => []
  | n + 1, stream, buffer =>
    match fgets pathMax stream buffer with
    | none => []
    | some (rest, buffer) => cstr buffer ++ printLines n rest (memsetZero buffer 0 pathMax)

/-- `print_black_list`; every turn of the loop takes a byte or more. -/
def printBlackList (w : Outside σ) (st : Stack) (c : Console σ) : Console σ :=
  match w.accessPoint c.dialogue.world with
  | none => c.perror (ascii "reference_monitor not loaded")
  | some content =>
    (c.printf (ascii "actual black list\n")).printf
      (printLines (content.length + 1) content (st.array c.dialogue.frames 0 pathMax))

def helpText : List UInt8 :=
  ascii ("Available commands:\n[0]: change_state\n[1]: change_path\n[2]: change_password\n" ++
    "[3]: get_state\n[4]: blacklist\n[5]: help (to show this message)\n" ++
    "Type 'quit' to exit the program.\n")

/-- The branches of `main`. -/
inductive Action
  | quit
  | changeState
  | changePath
  | changePassword
  | getState
  | blacklist
  | help
  | invalid
deriving DecidableEq, Repr

def actionOf (input : List UInt8) : Action :=
  if isOne input [ascii "quit"] then .quit
  else if isOne input [ascii "0", ascii "change_state"] then .changeState
  else if isOne input [ascii "1", ascii "change_path"] then .changePath
  else if isOne input [ascii "2", ascii "change_password"] then .changePassword
  else if isOne input [ascii "3", ascii "get_state"] then .getState
  else if isOne input [ascii "4", ascii "blacklist"] then .blacklist
  else if isOne input [ascii "5", ascii "help"] then .help
  else .invalid

/-- The program while it runs and after its end. -/
inductive Outcome (σ : Type)
  | running (c : Console σ)
  | exited (c : Console σ)

def runAction (w : Outside σ) (st : Stack) (c : Console σ) : Action → Except Fault (Outcome σ)
  | .quit => .ok (.exited (c.printf (ascii "Exiting the program.\n")))
  | .changeState => (handleChangeState w st c).map .running
  | .changePath => (handleChangePath w st c).map .running
  | .changePassword => (handleChangePassword w st c).map .running
  | .getState => (printActualState w c).map .running
  | .blacklist => .ok (.running (printBlackList w st c))
  | .help => .ok (.running (c.printf helpText))
  | .invalid => .ok (.running ((c.printf (ascii "Invalid command. Showing help:\n")).printf helpText))

def prompt : List UInt8 := ascii "\nEnter a command >> "

/-- One turn of the loop of `main`. -/
def mainTurn (w : Outside σ) (st : Stack) (c : Console σ) : Except Fault (Outcome σ) := do
  let c := c.printf prompt
  let (input, c) := c.readLine maxCommand c.input
  let input ← toLowercase input
  runAction w st { c with input := input } (actionOf input)

/-- The loop of `main`, for at most so many turns. -/
def mainLoop (w : Outside σ) (st : Stack) : Nat → Console σ → Except Fault (Outcome σ)
  | 0, c => .ok (.running c)
  | n + 1, c => do
    match ← mainTurn w st c with
    | .running c => mainLoop w st n c
    | .exited c => .ok (.exited c)

/-- The program before its first turn. -/
def startConsole (st : Stack) (world : σ) (stdin : List UInt8) : Console σ where
  stdin := stdin
  input := st.array 0 0 maxCommand
  stdout := []
  perrors := []
  dialogue := { world := world, calls := [], frames := 0 }

/-- `main`. -/
def adminMain (w : Outside σ) (st : Stack) (euid : UInt32) (world : σ) (stdin : List UInt8)
    (n : Nat) : Except Fault (Outcome σ) :=
  let c := startConsole st world stdin
  if euid ≠ 0 then
    .ok (.exited (c.printf (ascii "to run this application you need root priviledge\n")))
  else mainLoop w st n (c.printf helpText)

/-! ## The monitor outside of the console -/

/-- The buffer of a stream. -/
structure StdioBuffer where
  size : Nat
  size_pos : 0 < size
  size_le : size ≤ maxRwCount

/-- The read of a stream that fills its buffer. -/
def fillRead (env : Env) (task : Task δ) (buf : StdioBuffer) (s : State) : ListingCall δ where
  env := env
  task := task
  s := s
  len := buf.size
  len_le := buf.size_le
  room := buf.size

/-- The administrator's process, its system calls and its files. -/
def monitorOutside (env : Env) (v : Vfs δ) (task : Task δ) (buf : StdioBuffer) : Outside State where
  call request s := Issued.run env { request := request, task := task, vfs := v } s
  currentState s := some (formatD s.currentState ++ [newline])
  accessPoint s := some ((listingSession fun _ => fillRead env task buf s).readFrom pathMax 0 0)

def sampleBuffer : StdioBuffer := { size := 1024, size_pos := by decide, size_le := by decide }

def sampleStack : Stack := { byte := fun _ _ _ => 0, behind := fun _ _ => [] }

/-! ## Lines and arrays -/

/-- The text in lower case. -/
def lower (text : List UInt8) : List UInt8 := text.map toLower

/-- A line one types: it fits in an array of this size together with its newline and a NUL. -/
structure TypedLine (size : Nat) (line : List UInt8) : Prop where
  newline : newline ∉ line
  nul : (0 : UInt8) ∉ line
  fits : line.length + 2 ≤ size

/-- What a typed line leaves in an array: a NUL in the place of the newline, and the one behind
it. -/
def typedInto (buffer line : List UInt8) : List UInt8 :=
  line ++ 0 :: 0 :: buffer.drop (line.length + 2)

section Lines

variable {size : Nat} {line rest stdin buffer : List UInt8}

theorem fgets_line (h : TypedLine size line) :
    fgets size (line ++ newline :: rest) buffer =
      some (rest, (line ++ [newline]) ++ 0 :: buffer.drop (line.length + 2)) := by
  have hfits : line.length < size - 1 := by
    have hle := h.fits
    omega
  have hne : line ++ newline :: rest ≠ [] := by simp
  have hdrop : (line ++ newline :: rest).drop (line ++ [newline]).length = rest := by
    rw [List.append_cons line newline rest, List.drop_left]
  rw [fgets, if_neg hne, piece_line h.newline hfits]
  dsimp only
  rw [hdrop]
  simp [writeAt]

theorem readLine_line (h : TypedLine size line) :
    readLine size (line ++ newline :: rest) buffer = (rest, typedInto buffer line) := by
  have hnul : (0 : UInt8) ∉ line ++ [newline] := by
    rw [List.mem_append, not_or]
    exact ⟨h.nul, by decide⟩
  have hlen : strlen ((line ++ [newline]) ++ 0 :: buffer.drop (line.length + 2)) =
      line.length + 1 := by
    rw [strlen, cstr_append_zero hnul, List.length_append, List.length_singleton]
  rw [readLine, fgets_line h]
  dsimp only
  rw [hlen, if_pos ⟨Nat.succ_pos _, by simp⟩, typedInto]
  simp

theorem cstr_typedInto (hnul : (0 : UInt8) ∉ line) (buffer : List UInt8) :
    cstr (typedInto buffer line) = line := cstr_append_zero hnul _

theorem zero_mem_typedInto (buffer line : List UInt8) : (0 : UInt8) ∈ typedInto buffer line :=
  List.mem_append_right _ (List.mem_cons_self ..)

theorem cstr_set_zero : ∀ {buffer : List UInt8} {i : Nat}, i < strlen buffer →
    cstr (buffer.set i 0) = (cstr buffer).take i := by
  intro buffer
  induction buffer with
  | nil => exact fun h => absurd h (Nat.not_lt_zero _)
  | cons b buffer ih =>
    intro i h
    by_cases hb : b = 0
    · subst hb
      rw [strlen, cstr_cons_zero] at h
      exact absurd h (Nat.not_lt_zero _)
    · rw [strlen, cstr_cons hb, List.length_cons] at h
      cases i with
      | zero => rw [List.set_cons_zero, cstr_cons_zero, List.take_zero]
      | succ i =>
        rw [List.set_cons_succ, cstr_cons hb, cstr_cons hb, List.take_succ_cons,
          ih (Nat.lt_of_succ_lt_succ h)]

theorem cstr_append_zero_isPrefix (got tail : List UInt8) : cstr (got ++ 0 :: tail) <+: got := by
  induction got with
  | nil => rw [List.nil_append, cstr_cons_zero]
  | cons b got ih =>
    by_cases hb : b = 0
    · rw [hb, List.cons_append, cstr_cons_zero]
      exact List.nil_prefix
    · rw [List.cons_append, cstr_cons hb]
      exact List.prefix_cons_inj b |>.mpr ih

theorem fgets_some (hne : stdin ≠ []) : ∃ tail, fgets size stdin buffer =
    some (stdin.drop (piece newline (size - 1) stdin).length,
      piece newline (size - 1) stdin ++ 0 :: tail) := by
  refine ⟨buffer.drop ((piece newline (size - 1) stdin).length + 1), ?_⟩
  rw [fgets, if_neg hne]
  simp [writeAt]

/-- Whatever is read, the array then holds the beginning of it, and the rest is left. -/
theorem readLine_cstr (hne : stdin ≠ []) :
    (0 : UInt8) ∈ (readLine size stdin buffer).2 ∧
      cstr (readLine size stdin buffer).2 <+: stdin ∧
      (readLine size stdin buffer).1 <:+ stdin := by
  obtain ⟨tail, htail⟩ := @fgets_some size stdin buffer hne
  have hpre : cstr (piece newline (size - 1) stdin ++ 0 :: tail) <+: stdin :=
    (cstr_append_zero_isPrefix _ _).trans piece_isPrefix
  have hmem : (0 : UInt8) ∈ piece newline (size - 1) stdin ++ 0 :: tail := by simp
  rw [readLine, htail]
  dsimp only
  split
  · next hnewline =>
    have hlt := Nat.sub_lt hnewline.1 Nat.one_pos
    refine ⟨?_, ?_, List.drop_suffix _ _⟩
    · exact List.mem_set (Nat.lt_of_lt_of_le hlt (strlen_le_length _)) 0
    · dsimp only
      rw [cstr_set_zero hlt]
      exact (List.take_prefix _ _).trans hpre
  · exact ⟨hmem, hpre, List.drop_suffix _ _⟩

theorem readLine_nil : readLine size [] buffer = ([], buffer) := rfl

theorem readLine_suffix : (readLine size stdin buffer).1 <:+ stdin := by
  rcases eq_or_ne stdin [] with rfl | hne
  · exact List.suffix_rfl
  · exact (readLine_cstr hne).2.2

end Lines

/-! ## Lower case -/

theorem toLower_ne_zero {c : UInt8} (h : c ≠ 0) : toLower c ≠ 0 := by
  unfold toLower
  split
  · next hc =>
    intro h0
    obtain ⟨h1, h2⟩ := hc
    rw [UInt8.le_iff_toNat_le] at h1 h2
    have hsum := congrArg UInt8.toNat h0
    rw [UInt8.toNat_add] at hsum
    have e65 : (65 : UInt8).toNat = 65 := rfl
    have e90 : (90 : UInt8).toNat = 90 := rfl
    have e32 : (32 : UInt8).toNat = 32 := rfl
    have e0 : (0 : UInt8).toNat = 0 := rfl
    omega
  · exact h

theorem zero_notMem_lower {text : List UInt8} (h : (0 : UInt8) ∉ text) : (0 : UInt8) ∉ lower text := by
  intro hm
  obtain ⟨c, hc, hzero⟩ := List.mem_map.mp hm
  refine toLower_ne_zero ?_ hzero
  rintro rfl
  exact h hc

theorem drop_strlen {str : List UInt8} (h : (0 : UInt8) ∈ str) :
    ∃ tail, str.drop (strlen str) = 0 :: tail := by
  induction str with
  | nil => exact absurd h List.not_mem_nil
  | cons c str ih =>
    by_cases hc : c = 0
    · rw [hc, strlen, cstr_cons_zero]
      exact ⟨str, rfl⟩
    · rw [strlen, cstr_cons hc]
      exact ih (List.mem_of_ne_of_mem (Ne.symm hc) h)

/-- In an array with a NUL the string is put into lower case. -/
theorem toLowercase_ok {str : List UInt8} (h : (0 : UInt8) ∈ str) :
    ∃ str', toLowercase str = .ok str' ∧ (0 : UInt8) ∈ str' ∧ cstr str' = lower (cstr str) := by
  obtain ⟨tail, htail⟩ := drop_strlen h
  refine ⟨lower (cstr str) ++ 0 :: tail, ?_, ?_, ?_⟩
  · rw [toLowercase, if_pos h, htail]
    rfl
  · exact List.mem_append_right _ (List.mem_cons_self ..)
  · exact cstr_append_zero (zero_notMem_lower (zero_notMem_cstr str)) _

/-- The words are compared as strings. -/
theorem isOne_congr {a b : List UInt8} (h : cstr a = cstr b) (words : List (List UInt8)) :
    isOne a words = isOne b words := by
  have hone : ∀ word, (strcmp a word == 0) = (strcmp b word == 0) := by
    intro word
    rw [Bool.eq_iff_iff, beq_iff_eq, beq_iff_eq, strcmp_eq_zero, strcmp_eq_zero, h]
  simp only [isOne, hone]

theorem actionOf_congr {a b : List UInt8} (h : cstr a = cstr b) : actionOf a = actionOf b := by
  simp only [actionOf, isOne_congr h]

theorem stateOf_congr {a b : List UInt8} (h : cstr a = cstr b) : stateOf a = stateOf b := by
  simp only [stateOf, isOne_congr h]

theorem pathOpOf_congr {a b : List UInt8} (h : cstr a = cstr b) : pathOpOf a = pathOpOf b := by
  simp only [pathOpOf, isOne_congr h]

end RefMonitor
