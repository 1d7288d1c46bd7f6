import RefMonitor.Console

/-!
# Typing a script

What one types at the console is an `Entry` after the other: a command and the lines it asks for.
What an entry is meant to do is `Entry.carryOut`, without arrays, prompts or newlines. The program
does it when every line fits in its array. At the end of the input it gives the last command again.

Results:
1. `mainTurn_entry`: one entry.
2. `script_carried_out`: a script with a `quit` behind it.
3. `end_of_input_repeats`: a script without `quit`.
-/

namespace RefMonitor
open CString Lines

variable {σ : Type}

/-! ## Scripts -/

/-- What is typed for one command. -/
inductive Entry
  | changeState (word password option : List UInt8)
  | changePath (word password option path : List UInt8)
  | changePassword (word oldPassword newPassword answer : List UInt8)
  | other (word : List UInt8)

/-- The lines; an option that is none is not followed by a path. -/
def Entry.lines : Entry → List (List UInt8)
  | .changeState word password option => [word, password, option]
  | .changePath word password option path =>
    if (pathOpOf (lower option)).isSome then [word, password, option, path]
    else [word, password, option]
  | .changePassword word oldPassword newPassword answer => [word, oldPassword, newPassword, answer]
  | .other word => [word]

def typedText (lines : List (List UInt8)) : List UInt8 := lines.flatMap fun line => line ++ [newline]

def scriptText (script : List Entry) : List UInt8 := script.flatMap fun e => typedText e.lines

/-- The command is spelt in one of its ways, and the lines fit in their arrays. -/
def Entry.Fits : Entry → Prop
  | .changeState word password option =>
    actionOf (lower word) = .changeState ∧ TypedLine maxCommand word ∧
      TypedLine maxPassword password ∧ TypedLine maxCommand option
  | .changePath word password option path =>
    actionOf (lower word) = .changePath ∧ TypedLine maxCommand word ∧
      TypedLine maxPassword password ∧ TypedLine maxCommand option ∧ TypedLine pathMax path
  | .changePassword word oldPassword newPassword answer =>
    actionOf (lower word) = .changePassword ∧ TypedLine maxCommand word ∧
      TypedLine maxPassword oldPassword ∧ TypedLine maxPassword newPassword ∧
      TypedLine maxCommand answer
  | .other word =>
    actionOf (lower word) ∉ [.quit, .changeState, .changePath, .changePassword] ∧
      TypedLine maxCommand word

/-- A system call as it is logged. -/
def Dialogue.call (w : Outside σ) (d : Dialogue σ) (request : Request) :
    Except Fault (Dialogue σ) :=
  (w.call request d.world).map fun r =>
    { d with world := r.2, calls := d.calls ++ [(request, r.1)] }

/-- The bytes a handler's array number `a` points to when the line was typed. -/
def Dialogue.argument (st : Stack) (d : Dialogue σ) (a size : Nat) (line : List UInt8) :
    List UInt8 :=
  typedInto (st.array d.frames a size) line ++ st.behind d.frames a

/-- What an entry is meant to do. The file of the state is never empty. -/
def Entry.carryOut (w : Outside σ) (st : Stack) (d : Dialogue σ) : Entry → Except Fault (Dialogue σ)
  | .changeState _ password option =>
    let d := { d with frames := d.frames + 1 }
    match stateOf (lower option) with
    | none => .ok d
    | some state => d.call w (.changeState (some (d.argument st 0 maxPassword password)) state)
  | .changePath _ password option path =>
    let d := { d with frames := d.frames + 1 }
    match pathOpOf (lower option) with
    | none => .ok d
    | some op =>
      d.call w (.changePaths (some (d.argument st 0 maxPassword password))
        (some (d.argument st 1 pathMax path)) op)
  | .changePassword _ oldPassword newPassword answer =>
    let d := { d with frames := d.frames + 1 }
    if (lower answer).head? = some 121 then
      d.call w (.changePassword (some (d.argument st 0 maxPassword oldPassword))
        (some (d.argument st 1 maxPassword newPassword)))
    else .ok d
  | .other word =>
    if actionOf (lower word) = .getState ∧ w.currentState d.world = some [] then .error .arrayBound
    else .ok d

def carryOut (w : Outside σ) (st : Stack) : List Entry → Dialogue σ → Except Fault (Dialogue σ)
  | [], d => .ok d
  | e :: script, d => (e.carryOut w st d).bind (carryOut w st script)

/-! ## One entry -/

/-- A handler ends with this rest of the input and this dialogue, or with the fault. -/
def Follows (out : Except Fault (Console σ)) (rest input : List UInt8) :
    Except Fault (Dialogue σ) → Prop
  | .error f => out = .error f
  | .ok d => ∃ c', out = .ok c' ∧ c'.stdin = rest ∧ c'.input = input ∧ c'.dialogue = d

section Turn

variable {w : Outside σ} {st : Stack} {c : Console σ} {rest : List UInt8}

theorem Console.readLine_line {size : Nat} {line r buffer : List UInt8} (h : TypedLine size line)
    (hstdin : c.stdin = line ++ newline :: r) :
    c.readLine size buffer = (typedInto buffer line, { c with stdin := r }) := by
  rw [Console.readLine, hstdin, RefMonitor.readLine_line h]

theorem formatS_typedInto (buffer line : List UInt8) :
    formatS (typedInto buffer line) = .ok (cstr (typedInto buffer line)) :=
  if_pos (zero_mem_typedInto buffer line)

/-- What is printed of a call changes nothing else. -/
theorem Console.call_follows {request : Request}
    {failed : Console σ → Except Fault (Console σ)} {done : Except Fault (List UInt8)}
    (hfailed : ∀ c, ∃ c', failed c = .ok c' ∧ c'.stdin = c.stdin ∧ c'.input = c.input ∧
      c'.dialogue = c.dialogue) (hdone : ∃ text, done = .ok text) :
    Follows (c.call w request failed done) c.stdin c.input (c.dialogue.call w request) := by
  rw [Console.call, Dialogue.call]
  cases w.call request c.dialogue.world with
  | error f => exact rfl
  | ok r =>
    obtain ⟨ret, world⟩ := r
    dsimp only
    split
    · obtain ⟨c', hc', hrest⟩ := hfailed { c with dialogue :=
        { c.dialogue with world := world, calls := c.dialogue.calls ++ [(request, ret)] } }
      exact ⟨c', hc', hrest⟩
    · obtain ⟨text, rfl⟩ := hdone
      exact ⟨_, rfl, rfl, rfl, rfl⟩

/-- An option as the handlers read it. -/
theorem toLowercase_typedInto {line : List UInt8} (hnul : (0 : UInt8) ∉ line)
    (buffer : List UInt8) : ∃ input, toLowercase (typedInto buffer line) = .ok input ∧
      (0 : UInt8) ∈ input ∧ cstr input = cstr (lower line) := by
  obtain ⟨input, hok, hmem, hcstr⟩ := toLowercase_ok (zero_mem_typedInto buffer line)
  refine ⟨input, hok, hmem, ?_⟩
  rw [hcstr, cstr_typedInto hnul, cstr_eq_self (zero_notMem_lower hnul)]

theorem handleChangeState_follows {password option : List UInt8} (word : List UInt8)
    (hp : TypedLine maxPassword password) (ho : TypedLine maxCommand option)
    (hstdin : c.stdin = password ++ newline :: (option ++ newline :: rest)) :
    Follows (handleChangeState w st c) rest c.input
      ((Entry.changeState word password option).carryOut w st c.dialogue) := by
  obtain ⟨input, hlower, -, hcstr⟩ :=
    toLowercase_typedInto ho.nul (st.array c.frame.dialogue.frames 1 maxCommand)
  unfold handleChangeState Entry.carryOut
  dsimp only
  rw [Console.readLine_line (c := c.frame.printf _) hp hstdin]
  dsimp only
  rw [Console.readLine_line (r := rest) ho rfl, hlower]
  show Follows (match stateOf input with | none => _ | some state => _) _ _ _
  rw [stateOf_congr hcstr]
  cases stateOf (lower option) with
  | none => exact ⟨_, rfl, rfl, rfl, rfl⟩
  | some state =>
    refine Console.call_follows (fun c' => ?_) ⟨_, rfl⟩
    rw [formatS_typedInto]
    exact ⟨_, rfl, rfl, rfl, rfl⟩

theorem handleChangePath_follows {password option path : List UInt8} (word : List UInt8)
    (hp : TypedLine maxPassword password) (ho : TypedLine maxCommand option)
    (hpath : TypedLine pathMax path)
    (hstdin : c.stdin = password ++ newline :: (option ++ newline ::
      (if (pathOpOf (lower option)).isSome then path ++ newline :: rest else rest))) :
    Follows (handleChangePath w st c) rest c.input
      ((Entry.changePath word password option path).carryOut w st c.dialogue) := by
  obtain ⟨input, hlower, -, hcstr⟩ :=
    toLowercase_typedInto ho.nul (st.array c.frame.dialogue.frames 2 maxCommand)
  unfold handleChangePath Entry.carryOut
  dsimp only
  rw [Console.readLine_line (c := c.frame.printf _) hp hstdin]
  dsimp only
  rw [Console.readLine_line ho rfl, hlower]
  show Follows (match pathOpOf input with | none => _ | some op => _) _ _ _
  rw [pathOpOf_congr hcstr]
  cases hop : pathOpOf (lower option) with
  | none => exact ⟨_, rfl, rfl, rfl, rfl⟩
  | some op =>
    dsimp only
    rw [Console.readLine_line (r := rest) hpath rfl, formatS_typedInto, formatS_typedInto]
    exact Console.call_follows (fun c' => ⟨_, rfl, rfl, rfl, rfl⟩) ⟨_, rfl⟩

/-- The first byte of an answer is read even when the line is empty. -/
theorem getD_typedInto_zero (buffer : List UInt8) {line : List UInt8} :
    toLower ((typedInto buffer line).getD 0 0) = 121 ↔ (lower line).head? = some 121 := by
  cases line with
  | nil => exact ⟨fun h => absurd (show toLower 0 = 121 from h) (by decide), fun h => by cases h⟩
  | cons b line => exact ⟨congrArg some, Option.some.inj⟩

theorem handleChangePassword_follows {oldPassword newPassword answer : List UInt8}
    (word : List UInt8) (hold : TypedLine maxPassword oldPassword)
    (hnew : TypedLine maxPassword newPassword) (hanswer : TypedLine maxCommand answer)
    (hstdin : c.stdin = oldPassword ++ newline :: (newPassword ++ newline ::
      (answer ++ newline :: rest))) :
    Follows (handleChangePassword w st c) rest c.input
      ((Entry.changePassword word oldPassword newPassword answer).carryOut w st c.dialogue) := by
  unfold handleChangePassword Entry.carryOut
  dsimp only
  rw [Console.readLine_line (c := c.frame.printf _) hold hstdin]
  dsimp only
  rw [Console.readLine_line hnew rfl]
  dsimp only
  rw [Console.readLine_line (r := rest) hanswer rfl]
  dsimp only
  rw [if_congr (getD_typedInto_zero _) rfl rfl]
  split
  · exact Console.call_follows (fun c' => ⟨_, rfl, rfl, rfl, rfl⟩) ⟨_, rfl⟩
  · exact ⟨_, rfl, rfl, rfl, rfl⟩

/-! ## The loop -/

/-- A turn after its read. -/
theorem mainTurn_read {buffer input : List UInt8}
    (hread : readLine maxCommand c.stdin c.input = (rest, buffer))
    (hlower : toLowercase buffer = .ok input) :
    mainTurn w st c = runAction w st
      { c.printf prompt with stdin := rest, input := input }
      (actionOf input) := by
  have hc : (c.printf prompt).readLine maxCommand c.input =
      (buffer, { c.printf prompt with stdin := rest }) := by
    rw [Console.readLine, show (c.printf _).stdin = c.stdin from rfl, hread]
  unfold mainTurn
  dsimp only
  rw [show (c.printf prompt).input = c.input from rfl, hc]
  dsimp only
  rw [hlower]
  rfl

/-- How a turn starts when a command was typed. -/
theorem mainTurn_typed {word : List UInt8} (h : TypedLine maxCommand word)
    (hstdin : c.stdin = word ++ newline :: rest) :
    ∃ c', mainTurn w st c = runAction w st c' (actionOf (lower word)) ∧ c'.stdin = rest ∧
      c'.dialogue = c.dialogue ∧ (0 : UInt8) ∈ c'.input ∧ cstr c'.input = lower word ∧
      c'.stdout = c.stdout ++ prompt := by
  obtain ⟨input, hlower, hmem, hcstr⟩ := toLowercase_typedInto h.nul c.input
  refine ⟨{ c.printf prompt with stdin := rest, input := input }, ?_, rfl,
    rfl, hmem, hcstr.trans (cstr_eq_self (zero_notMem_lower h.nul)), rfl⟩
  have hread : readLine maxCommand c.stdin c.input = (rest, typedInto c.input word) := by
    rw [hstdin, readLine_line h]
  rw [mainTurn_read hread hlower, actionOf_congr hcstr]

theorem lower_lower (text : List UInt8) : lower (lower text) = lower text := by
  have hidem : ∀ c : UInt8, toLower (toLower c) = toLower c := by decide +kernel
  rw [lower, lower, List.map_map]
  exact List.map_congr_left fun c _ => hidem c

/-- How a turn starts at the end of the input. -/
theorem mainTurn_end (hmem : (0 : UInt8) ∈ c.input) (hstdin : c.stdin = []) :
    ∃ c', mainTurn w st c = runAction w st c' (actionOf (lower (cstr c.input))) ∧ c'.stdin = [] ∧
      c'.dialogue = c.dialogue ∧ (0 : UInt8) ∈ c'.input ∧ cstr c'.input = lower (cstr c.input) := by
  obtain ⟨input, hlower, hmem', hcstr⟩ := toLowercase_ok hmem
  have hread : readLine maxCommand c.stdin c.input = ([], c.input) := by rw [hstdin, readLine_nil]
  have haction : actionOf input = actionOf (lower (cstr c.input)) := by
    refine actionOf_congr ?_
    rw [hcstr, cstr_eq_self (zero_notMem_lower (zero_notMem_cstr c.input))]
  refine ⟨{ c.printf prompt with stdin := [], input := input }, ?_, rfl,
    rfl, hmem', hcstr⟩
  rw [mainTurn_read hread hlower, haction]

/-- The turn goes on with this rest, this last command and this dialogue. -/
def GoesOn (out : Except Fault (Outcome σ)) (rest word : List UInt8) :
    Except Fault (Dialogue σ) → Prop
  | .error f => out = .error f
  | .ok d => ∃ c', out = .ok (.running c') ∧ c'.stdin = rest ∧ (0 : UInt8) ∈ c'.input ∧
    cstr c'.input = word ∧ c'.dialogue = d

theorem Follows.goesOn {out : Except Fault (Console σ)} {res : Except Fault (Dialogue σ)}
    {input word : List UInt8} (h : Follows out rest input res) (hmem : (0 : UInt8) ∈ input)
    (hword : cstr input = word) : GoesOn (out.map .running) rest word res := by
  cases res with
  | error f =>
    have hout : out = .error f := h
    rw [hout]
    rfl
  | ok d =>
    obtain ⟨c', hout, hrest, hinput, hd⟩ := h
    rw [hout]
    exact ⟨c', rfl, hrest, hinput ▸ hmem, hinput ▸ hword, hd⟩

/-- Commands that ask for nothing. -/
theorem runAction_other {word input : List UInt8} (hmem : (0 : UInt8) ∈ c.input)
    (hinput : cstr c.input = input)
    (hother : actionOf (lower word) ∉ [.quit, .changeState, .changePath, .changePassword]) :
    GoesOn (runAction w st c (actionOf (lower word))) c.stdin input
      ((Entry.other word).carryOut w st c.dialogue) := by
  have hok : ¬ (actionOf (lower word) = .getState ∧ w.currentState c.dialogue.world = some []) →
      (Entry.other word).carryOut w st c.dialogue = .ok c.dialogue := fun h => if_neg h
  cases haction : actionOf (lower word) with
  | quit => simp [haction] at hother
  | changeState => simp [haction] at hother
  | changePath => simp [haction] at hother
  | changePassword => simp [haction] at hother
  | getState =>
    unfold runAction printActualState
    cases hfile : w.currentState c.dialogue.world with
    | none =>
      rw [hok (by simp [hfile])]
      exact ⟨_, rfl, rfl, hmem, hinput, rfl⟩
    | some content =>
      cases content with
      | nil =>
        have herror : (Entry.other word).carryOut w st c.dialogue = .error .arrayBound :=
          if_pos ⟨haction, hfile⟩
        rw [herror]
        exact rfl
      | cons b content =>
        rw [hok (by simp [hfile])]
        exact ⟨_, rfl, rfl, hmem, hinput, rfl⟩
  | blacklist =>
    rw [hok (by simp [haction])]
    unfold runAction printBlackList
    cases w.accessPoint c.dialogue.world with
    | none => exact ⟨_, rfl, rfl, hmem, hinput, rfl⟩
    | some content => exact ⟨_, rfl, rfl, hmem, hinput, rfl⟩
  | help =>
    rw [hok (by simp [haction])]
    exact ⟨_, rfl, rfl, hmem, hinput, rfl⟩
  | invalid =>
    rw [hok (by simp [haction])]
    exact ⟨_, rfl, rfl, hmem, hinput, rfl⟩

/-- The first line of an entry. -/
def Entry.word : Entry → List UInt8
  | .changeState word _ _ => word
  | .changePath word _ _ _ => word
  | .changePassword word _ _ _ => word
  | .other word => word

/-- One entry that is typed. -/
theorem mainTurn_entry {e : Entry} (he : e.Fits) (hstdin : c.stdin = typedText e.lines ++ rest) :
    GoesOn (mainTurn w st c) rest (lower e.word) (e.carryOut w st c.dialogue) := by
  cases e with
  | changeState word password option =>
    obtain ⟨haction, hword, hp, ho⟩ := he
    have hlines : c.stdin = word ++ newline :: (password ++ newline :: (option ++ newline :: rest)) := by
      simpa [typedText, Entry.lines] using hstdin
    obtain ⟨c', hturn, hrest, hd, hmem, hinput, -⟩ := @mainTurn_typed _ w st c _ _ hword hlines
    rw [hturn, haction, ← hd]
    exact (handleChangeState_follows word hp ho hrest).goesOn hmem hinput
  | changePath word password option path =>
    obtain ⟨haction, hword, hp, ho, hpath⟩ := he
    have hlines : c.stdin = word ++ newline :: (password ++ newline :: (option ++ newline ::
        (if (pathOpOf (lower option)).isSome then path ++ newline :: rest else rest))) := by
      rw [hstdin, Entry.lines]
      split
      · simp [typedText]
      · simp [typedText]
    obtain ⟨c', hturn, hrest, hd, hmem, hinput, -⟩ := @mainTurn_typed _ w st c _ _ hword hlines
    rw [hturn, haction, ← hd]
    exact (handleChangePath_follows word hp ho hpath hrest).goesOn hmem hinput
  | changePassword word oldPassword newPassword answer =>
    obtain ⟨haction, hword, hold, hnew, hanswer⟩ := he
    have hlines : c.stdin = word ++ newline :: (oldPassword ++ newline :: (newPassword ++
        newline :: (answer ++ newline :: rest))) := by
      simpa [typedText, Entry.lines] using hstdin
    obtain ⟨c', hturn, hrest, hd, hmem, hinput, -⟩ := @mainTurn_typed _ w st c _ _ hword hlines
    rw [hturn, haction, ← hd]
    exact (handleChangePassword_follows word hold hnew hanswer hrest).goesOn hmem hinput
  | other word =>
    obtain ⟨hother, hword⟩ := he
    have hlines : c.stdin = word ++ newline :: rest := by
      simpa [typedText, Entry.lines] using hstdin
    obtain ⟨c', hturn, hrest, hd, hmem, hinput, -⟩ := @mainTurn_typed _ w st c _ _ hword hlines
    rw [hturn, ← hd, ← hrest]
    exact runAction_other hmem hinput hother

/-- The entries of a script, one after the other. -/
theorem mainLoop_script {n : Nat} {script : List Entry} :
    ∀ {c : Console σ}, (∀ e ∈ script, e.Fits) → c.stdin = scriptText script ++ rest →
      (∀ f, carryOut w st script c.dialogue = .error f →
        mainLoop w st (script.length + n) c = .error f) ∧
      ∀ d, carryOut w st script c.dialogue = .ok d → ∃ c',
        mainLoop w st (script.length + n) c = mainLoop w st n c' ∧ c'.stdin = rest ∧
          c'.dialogue = d ∧ (script = [] → c' = c) ∧
          ∀ e, script.getLast? = some e → (0 : UInt8) ∈ c'.input ∧ cstr c'.input = lower e.word := by
  induction script with
  | nil =>
    intro c _ hstdin
    refine ⟨fun f hf => (by cases hf), fun d hd => ?_⟩
    cases hd
    rw [List.length_nil, Nat.zero_add]
    exact ⟨c, rfl, hstdin, rfl, fun _ => rfl, fun e he => by cases he⟩
  | cons e script ih =>
    intro c hfits hstdin
    obtain ⟨he, hrest⟩ := List.forall_mem_cons.mp hfits
    have hturn := @mainTurn_entry _ w st c (scriptText script ++ rest) e he (by
      rw [hstdin, scriptText, List.flatMap_cons, List.append_assoc]
      rfl)
    have hsucc : (e :: script).length + n = script.length + n + 1 := by
      rw [List.length_cons]
      omega
    rw [hsucc, mainLoop, carryOut]
    cases hd : e.carryOut w st c.dialogue with
    | error f =>
      rw [hd] at hturn
      have hout : mainTurn w st c = .error f := hturn
      rw [hout]
      exact ⟨fun f' hf' => (by cases hf'; rfl), fun d hd => by cases hd⟩
    | ok d =>
      rw [hd] at hturn
      obtain ⟨c', hout, hstdin', hmem, hword, rfl⟩ := hturn
      obtain ⟨herror, hok⟩ := ih hrest hstdin'
      rw [hout]
      refine ⟨fun f hf => herror f hf, fun d' hd' => ?_⟩
      obtain ⟨c'', hloop, hstdin'', hd'', hempty, hlast⟩ := hok d' hd'
      refine ⟨c'', hloop, hstdin'', hd'', fun h => (by cases h), fun e' he' => ?_⟩
      cases script with
      | nil =>
        cases he'
        rw [hempty rfl]
        exact ⟨hmem, hword⟩
      | cons e₂ script => exact hlast e' (by simpa using he')

end Turn

/-! ## The program -/

section Program

variable (w : Outside σ) (st : Stack) (world : σ)

/-- Whether the program has ended, what it has not read, and its dialogue. -/
def Outcome.view : Outcome σ → Bool × List UInt8 × Dialogue σ
  | .running c => (false, c.stdin, c.dialogue)
  | .exited c => (true, c.stdin, c.dialogue)

def Dialogue.start : Dialogue σ := { world := world, calls := [], frames := 0 }

/-- A command that is typed in one of its spellings. -/
structure Spelt (action : Action) (word : List UInt8) : Prop where
  action : actionOf (lower word) = action
  typed : TypedLine maxCommand word

theorem mainTurn_quit {c : Console σ} {quit rest : List UInt8} (hquit : Spelt .quit quit)
    (hstdin : c.stdin = quit ++ newline :: rest) :
    ∃ c', mainTurn w st c = .ok (.exited c') ∧ c'.stdin = rest ∧ c'.dialogue = c.dialogue := by
  obtain ⟨c', hturn, hrest, hd, -⟩ := @mainTurn_typed _ w st c _ _ hquit.typed hstdin
  rw [hturn, hquit.action]
  exact ⟨_, rfl, hrest, hd⟩

/-- The program does what a script says, entry after entry, ends at the `quit` behind it, and
leaves what is behind that unread. -/
theorem script_carried_out (script : List Entry) (hfits : ∀ e ∈ script, e.Fits)
    (quit : List UInt8) (hquit : Spelt .quit quit) (rest : List UInt8) (more : Nat) :
    (adminMain w st 0 world (scriptText script ++ (quit ++ newline :: rest))
      (script.length + (1 + more))).map Outcome.view =
    (carryOut w st script (.start world)).map fun d => (true, rest, d) := by
  obtain ⟨herror, hok⟩ := @mainLoop_script _ w st (quit ++ newline :: rest) (1 + more) script
    ((startConsole st world (scriptText script ++ (quit ++ newline :: rest))).printf helpText)
    hfits rfl
  rw [adminMain, if_neg (by decide)]
  cases hd : carryOut w st script (.start world) with
  | error f =>
    rw [herror f hd]
    rfl
  | ok d =>
    obtain ⟨c', hloop, hstdin, rfl, -⟩ := hok d hd
    obtain ⟨c'', hturn, hrest, hsame⟩ := mainTurn_quit w st hquit hstdin
    rw [hloop, Nat.add_comm 1 more, mainLoop, hturn]
    show Except.ok (true, c''.stdin, c''.dialogue) = _
    rw [hrest, hsame]
    rfl

/-- One change of the state, typed in capitals where the program does not care. -/
def sampleScript : List Entry :=
  [.changeState (ascii "CHANGE_STATE") samplePassword (ascii "Rec_Off")]

theorem sampleScript_fits : ∀ e ∈ sampleScript, e.Fits := by
  intro e he
  rw [List.mem_singleton.mp he]
  exact ⟨by decide +kernel, ⟨by decide, by decide, by decide⟩, ⟨by decide, by decide, by decide⟩,
    ⟨by decide, by decide, by decide⟩⟩

def sampleOutside : Outside State :=
  monitorOutside sampleEnv sampleTree.vfs (sampleTask 0 0) sampleBuffer

theorem script_carried_out_sample :
    (adminMain sampleOutside sampleStack 0 (sampleState stateOff false listedSecret)
      (scriptText sampleScript ++ (ascii "Quit" ++ newline :: ascii "ls\n")) (1 + (1 + 3))).map
        Outcome.view =
    (carryOut sampleOutside sampleStack sampleScript
      (.start (sampleState stateOff false listedSecret))).map fun d => (true, ascii "ls\n", d) :=
  script_carried_out _ _ _ sampleScript sampleScript_fits (ascii "Quit")
    ⟨by decide +kernel, ⟨by decide, by decide, by decide⟩⟩ (ascii "ls\n") 3

theorem carryOut_append (a b : List Entry) (d : Dialogue σ) :
    carryOut w st (a ++ b) d = (carryOut w st a d).bind (carryOut w st b) := by
  induction a generalizing d with
  | nil => rfl
  | cons e a ih =>
    rw [List.cons_append, carryOut, carryOut]
    cases e.carryOut w st d with
    | error f => rfl
    | ok d' => exact ih d'

/-- Turns at the end of the input. -/
theorem mainLoop_end {word : List UInt8}
    (hother : actionOf (lower word) ∉ [.quit, .changeState, .changePath, .changePassword])
    {n : Nat} : ∀ {c : Console σ}, c.stdin = [] → (0 : UInt8) ∈ c.input →
      cstr c.input = lower word →
      (mainLoop w st n c).map Outcome.view =
        (carryOut w st (List.replicate n (.other word)) c.dialogue).map fun d => (false, [], d) := by
  induction n with
  | zero =>
    intro c hstdin _ _
    show Except.ok (false, c.stdin, c.dialogue) = _
    rw [hstdin]
    rfl
  | succ n ih =>
    intro c hstdin hmem hword
    obtain ⟨c', hturn, hstdin', hd, hmem', hword'⟩ := @mainTurn_end _ w st c hmem hstdin
    rw [hword, lower_lower] at hturn hword'
    have hgo := @runAction_other _ w st c' _ _ hmem' hword' hother
    rw [List.replicate_succ, mainLoop, carryOut, hturn, ← hd]
    cases hres : (Entry.other word).carryOut w st c'.dialogue with
    | error f =>
      rw [hres] at hgo
      have hout : runAction w st c' (actionOf (lower word)) = .error f := hgo
      rw [hout]
      rfl
    | ok d =>
      rw [hres] at hgo
      obtain ⟨c'', hout, hstdin'', hmem'', hword'', rfl⟩ := hgo
      rw [hout]
      exact ih (hstdin''.trans hstdin') hmem'' hword''

/-- When the input ends without `quit` the program goes on for ever, and gives the last command
again in every turn. -/
theorem end_of_input_repeats (script : List Entry) (hfits : ∀ e ∈ script, e.Fits)
    (word : List UInt8) (hword : (Entry.other word).Fits) (n : Nat) :
    (adminMain w st 0 world (scriptText (script ++ [.other word])) (script.length + 1 + n)).map
      Outcome.view =
    (carryOut w st (script ++ List.replicate (n + 1) (.other word)) (.start world)).map
      fun d => (false, [], d) := by
  have hall : ∀ e ∈ script ++ [.other word], e.Fits := by
    intro e he
    rcases List.mem_append.mp he with he | he
    · exact hfits e he
    · rw [List.mem_singleton.mp he]
      exact hword
  obtain ⟨herror, hok⟩ := @mainLoop_script _ w st [] n (script ++ [.other word])
    ((startConsole st world (scriptText (script ++ [.other word]))).printf helpText) hall
    (List.append_nil _).symm
  rw [List.length_append] at herror hok
  have hsplit : script ++ List.replicate (n + 1) (Entry.other word) =
      (script ++ [.other word]) ++ List.replicate n (.other word) := by
    rw [List.replicate_succ, List.append_assoc]
    rfl
  rw [adminMain, if_neg (by decide), hsplit, carryOut_append]
  cases hd : carryOut w st (script ++ [.other word]) (.start world) with
  | error f =>
    exact congrArg (Except.map Outcome.view) (herror f hd)
  | ok d =>
    obtain ⟨c', hloop, hstdin, rfl, -, hlast⟩ := hok d hd
    obtain ⟨hmem, hinput⟩ := hlast (.other word) (by simp)
    refine (congrArg (Except.map Outcome.view) hloop).trans ?_
    exact mainLoop_end w st hword.1 hstdin hmem hinput

/-- Five turns more than there are commands. -/
theorem end_of_input_repeats_sample :
    (adminMain sampleOutside sampleStack 0 (sampleState stateOff false listedSecret)
      (scriptText (sampleScript ++ [.other (ascii "blacklist")])) (1 + 1 + 5)).map Outcome.view =
    (carryOut sampleOutside sampleStack
      (sampleScript ++ List.replicate (5 + 1) (.other (ascii "blacklist")))
      (.start (sampleState stateOff false listedSecret))).map fun d => (false, [], d) :=
  end_of_input_repeats _ _ _ sampleScript sampleScript_fits (ascii "blacklist")
    ⟨by decide +kernel, ⟨by decide, by decide, by decide⟩⟩ 5

end Program

end RefMonitor
