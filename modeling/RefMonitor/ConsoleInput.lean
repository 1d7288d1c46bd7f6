import RefMonitor.ConsoleScript

/-!
# The console on any input

The input of the console need not be typed with care: lines may be longer than their arrays, hold
NUL bytes, or end in the middle of a dialogue. Then a handler may read the rest of an earlier line,
or use an array it has not written. Two things hold all the same.

Results:
1. `runAction_onward`: what a branch of `main` does to the program.
2. `exits_by_quit`: the program has read a `quit` when it ends.
3. `calls_sensible`: no system call is made with an unknown code.
-/

namespace RefMonitor
open CString Lines

variable {σ : Type}

/-! ## One branch -/

variable {w : Outside σ} {st : Stack} {c c' : Console σ}

/-- A call with one of the four states, one of the two operations, and no null pointer. -/
def Sensible : Request → Prop
  | .changeState (some _) state => isState state = true
  | .changePaths (some _) (some _) op => op = addPathOp ∨ op = removePathOp
  | .changePassword (some _) (some _) => True
  | _ => False

/-- The program goes on: it may have read, and made calls that are sensible. -/
structure Onward (c c' : Console σ) : Prop where
  stdin : c'.stdin <:+ c.stdin
  input : c'.input = c.input
  calls : ∀ q ∈ c'.dialogue.calls, q ∈ c.dialogue.calls ∨ Sensible q.1

theorem Onward.refl (c : Console σ) : Onward c c := ⟨List.suffix_rfl, rfl, fun _ h => .inl h⟩

theorem Onward.trans {c'' : Console σ} (h : Onward c c') (h' : Onward c' c'') : Onward c c'' := by
  refine ⟨h'.stdin.trans h.stdin, h'.input.trans h.input, fun q hq => ?_⟩
  rcases h'.calls q hq with hq | hq
  · exact h.calls q hq
  · exact .inr hq

theorem Onward.printf (c : Console σ) (text : List UInt8) : Onward c (c.printf text) :=
  ⟨List.suffix_rfl, rfl, fun _ h => .inl h⟩

theorem Onward.perror (c : Console σ) (text : List UInt8) : Onward c (c.perror text) :=
  ⟨List.suffix_rfl, rfl, fun _ h => .inl h⟩

theorem Onward.frame (c : Console σ) : Onward c c.frame :=
  ⟨List.suffix_rfl, rfl, fun _ h => .inl h⟩

/-- A prompt and the read behind it. -/
theorem Onward.asked {size : Nat} {text buffer : List UInt8} (h : Onward c c') :
    Onward c ((c'.printf text).readLine size buffer).2 :=
  h.trans ⟨readLine_suffix, rfl, fun _ hq => .inl hq⟩

theorem Onward.call {request : Request} {failed : Console σ → Except Fault (Console σ)}
    {done : Except Fault (List UInt8)} (h : c.call w request failed done = .ok c')
    (hrequest : Sensible request) (hfailed : ∀ {c c'}, failed c = .ok c' → Onward c c') :
    Onward c c' := by
  have hlogged : ∀ r : Int × σ, Onward c { c with dialogue :=
      { c.dialogue with world := r.2, calls := c.dialogue.calls ++ [(request, r.1)] } } := by
    refine fun r => ⟨List.suffix_rfl, rfl, fun q hq => ?_⟩
    rcases List.mem_append.mp hq with hq | hq
    · exact .inl hq
    · rw [List.mem_singleton.mp hq]
      exact .inr hrequest
  rw [Console.call] at h
  split at h
  · cases h
  · next ret world _ =>
    dsimp only at h
    split at h
    · exact (hlogged (ret, world)).trans (hfailed h)
    · cases done with
      | error f => cases h
      | ok text =>
        cases h
        exact (hlogged (ret, world)).trans (.printf _ _)

theorem bind_ok {α β : Type} {x : Except Fault α} {f : α → Except Fault β} {b : β}
    (h : (x >>= f) = .ok b) : ∃ a, x = .ok a ∧ f a = .ok b := by
  cases x with
  | error e => cases h
  | ok a => exact ⟨a, rfl, h⟩

theorem stateOf_isState {input : List UInt8} {state : Nat} (h : stateOf input = some state) :
    isState state = true := by
  unfold stateOf at h
  split at h
  · cases h; rfl
  · split at h
    · cases h; rfl
    · split at h
      · cases h; rfl
      · split at h
        · cases h; rfl
        · cases h

theorem pathOpOf_isOp {input : List UInt8} {op : Nat} (h : pathOpOf input = some op) :
    (op : Int) = addPathOp ∨ (op : Int) = removePathOp := by
  unfold pathOpOf at h
  split at h
  · cases h
    exact .inl rfl
  · split at h
    · cases h
      exact .inr rfl
    · cases h

theorem handleChangeState_onward (h : handleChangeState w st c = .ok c') : Onward c c' := by
  unfold handleChangeState at h
  dsimp only at h
  obtain ⟨input, -, h⟩ := bind_ok h
  have hframe := Onward.frame c
  split at h
  · cases h
    exact hframe.asked.asked.trans (.printf _ _)
  · next state hstate =>
    refine hframe.asked.asked.trans (Onward.call h (stateOf_isState hstate) fun hf => ?_)
    obtain ⟨text, -, hf⟩ := bind_ok hf
    cases hf
    exact (Onward.printf _ _).trans (.perror _ _)

theorem handleChangePath_onward (h : handleChangePath w st c = .ok c') : Onward c c' := by
  unfold handleChangePath at h
  dsimp only at h
  obtain ⟨input, -, h⟩ := bind_ok h
  have hframe := Onward.frame c
  split at h
  · cases h
    exact hframe.asked.asked.trans (.printf _ _)
  · next op hop =>
    refine hframe.asked.asked.asked.trans (Onward.call h (pathOpOf_isOp hop) fun hf => ?_)
    obtain ⟨text, -, hf⟩ := bind_ok hf
    obtain ⟨pathText, -, hf⟩ := bind_ok hf
    cases hf
    exact (Onward.printf _ _).trans (.perror _ _)

theorem handleChangePassword_onward (h : handleChangePassword w st c = .ok c') : Onward c c' := by
  unfold handleChangePassword at h
  dsimp only at h
  have hframe := Onward.frame c
  split at h
  · refine hframe.asked.asked.asked.trans (Onward.call h trivial fun hf => ?_)
    cases hf
    exact (Onward.printf _ _).trans (.perror _ _)
  · cases h
    exact hframe.asked.asked.asked.trans (.printf _ _)

theorem printActualState_onward (h : printActualState w c = .ok c') : Onward c c' := by
  unfold printActualState at h
  split at h
  · cases h
    exact .perror _ _
  · dsimp only at h
    split at h
    · cases h
    · cases h
      exact .printf _ _

theorem printBlackList_onward : Onward c (printBlackList w st c) := by
  unfold printBlackList
  split
  · exact .perror _ _
  · exact (Onward.printf _ _).trans (.printf _ _)

/-- The console of an outcome. -/
def Outcome.console : Outcome σ → Console σ
  | .running c => c
  | .exited c => c

theorem map_running {x : Except Fault (Console σ)} {out : Outcome σ}
    (h : x.map Outcome.running = .ok out) : ∃ c', x = .ok c' ∧ out = .running c' := by
  obtain ⟨c', hx, hout⟩ := Run.returned_of_map h
  exact ⟨c', hx, hout.symm⟩

/-- Every branch of `main` goes on, and only the one for `quit` ends the program. -/
theorem runAction_onward {action : Action} {out : Outcome σ}
    (h : runAction w st c action = .ok out) :
    Onward c out.console ∧ ∀ c', out = .exited c' → action = .quit := by
  cases action with
  | quit =>
    cases h
    exact ⟨.printf _ _, fun _ _ => rfl⟩
  | changeState =>
    obtain ⟨c', hc', rfl⟩ := map_running h
    exact ⟨handleChangeState_onward hc', fun _ he => by cases he⟩
  | changePath =>
    obtain ⟨c', hc', rfl⟩ := map_running h
    exact ⟨handleChangePath_onward hc', fun _ he => by cases he⟩
  | changePassword =>
    obtain ⟨c', hc', rfl⟩ := map_running h
    exact ⟨handleChangePassword_onward hc', fun _ he => by cases he⟩
  | getState =>
    obtain ⟨c', hc', rfl⟩ := map_running h
    exact ⟨printActualState_onward hc', fun _ he => by cases he⟩
  | blacklist =>
    cases h
    exact ⟨printBlackList_onward, fun _ he => by cases he⟩
  | help =>
    cases h
    exact ⟨.printf _ _, fun _ he => by cases he⟩
  | invalid =>
    cases h
    exact ⟨(Onward.printf _ _).trans (.printf _ _), fun _ he => by cases he⟩

/-! ## The loop -/

/-- The array of `main` holds, in lower case, a piece of the input; or nothing was read. -/
def FromInput (stdin : List UInt8) (c₀ c : Console σ) : Prop :=
  (∃ before word after, stdin = before ++ word ++ after ∧ lower word = lower (cstr c.input)) ∨
    (stdin = [] ∧ lower (cstr c.input) = lower (cstr c₀.input))

theorem toLowercase_inv {str str' : List UInt8} (h : toLowercase str = .ok str') :
    cstr str' = lower (cstr str) := by
  by_cases hmem : (0 : UInt8) ∈ str
  · obtain ⟨str'', hok, -, hcstr⟩ := toLowercase_ok hmem
    rw [hok] at h
    cases h
    exact hcstr
  · rw [toLowercase, if_neg hmem] at h
    cases h

theorem actionOf_quit {input : List UInt8} (h : actionOf input = .quit) : cstr input = ascii "quit" := by
  have hone : isOne input [ascii "quit"] = true := by
    by_contra hne
    rw [actionOf, if_neg hne] at h
    (repeat' split at h) <;> cases h
  simp only [isOne, List.any_cons, List.any_nil, Bool.or_false, beq_iff_eq] at hone
  exact (strcmp_eq_zero.mp hone).trans (cstr_eq_self (by decide))

/-- What is in the array after the read of a turn. -/
theorem fromInput_read {stdin buffer : List UInt8} {c₀ : Console σ} (hsuffix : c.stdin <:+ stdin)
    (hfrom : (c.input = c₀.input ∧ c.stdin = stdin) ∨ FromInput stdin c₀ c)
    (hbuffer : cstr buffer = lower (cstr (readLine maxCommand c.stdin c.input).2))
    (hinput : c'.input = buffer) : FromInput stdin c₀ c' := by
  have hlower : lower (cstr c'.input) = lower (cstr (readLine maxCommand c.stdin c.input).2) := by
    rw [hinput, hbuffer, lower_lower]
  rcases eq_or_ne c.stdin [] with hnil | hne
  · rw [hnil, readLine_nil] at hlower
    rcases hfrom with ⟨hfirst, hstdin⟩ | ⟨before, word, after, hsplit, hword⟩ | ⟨hstdin, hold⟩
    · exact .inr ⟨hstdin ▸ hnil, by rw [hlower, hfirst]⟩
    · exact .inl ⟨before, word, after, hsplit, hword.trans hlower.symm⟩
    · exact .inr ⟨hstdin, hlower.trans hold⟩
  · obtain ⟨-, ⟨after, hafter⟩, -⟩ := @readLine_cstr maxCommand c.stdin c.input hne
    obtain ⟨before, hbefore⟩ := hsuffix
    exact .inl ⟨before, _, after, by rw [← hbefore, List.append_assoc, hafter], hlower.symm⟩

theorem mainTurn_onward {stdin : List UInt8} {c₀ : Console σ} {out : Outcome σ}
    (h : mainTurn w st c = .ok out) (hsuffix : c.stdin <:+ stdin)
    (hfrom : (c.input = c₀.input ∧ c.stdin = stdin) ∨ FromInput stdin c₀ c) :
    out.console.stdin <:+ stdin ∧ FromInput stdin c₀ out.console ∧
      (∀ q ∈ out.console.dialogue.calls, q ∈ c.dialogue.calls ∨ Sensible q.1) ∧
      ∀ c', out = .exited c' → lower (cstr c'.input) = ascii "quit" := by
  unfold mainTurn at h
  dsimp only at h
  obtain ⟨input, hread, h⟩ := bind_ok h
  have hlower : cstr input = lower (cstr (readLine maxCommand c.stdin c.input).2) :=
    toLowercase_inv hread
  obtain ⟨honward, hquit⟩ := runAction_onward h
  refine ⟨honward.stdin.trans (readLine_suffix.trans hsuffix),
    fromInput_read hsuffix hfrom hlower honward.input, honward.calls, fun c' hc' => ?_⟩
  subst hc'
  rw [show c'.input = input from honward.input, actionOf_quit (hquit c' rfl)]
  rfl

theorem mainLoop_onward {stdin : List UInt8} {c₀ : Console σ} {out : Outcome σ} {n : Nat} :
    ∀ {c : Console σ}, mainLoop w st n c = .ok out → c.stdin <:+ stdin →
      (c.input = c₀.input ∧ c.stdin = stdin) ∨ FromInput stdin c₀ c →
      (∀ q ∈ out.console.dialogue.calls, q ∈ c.dialogue.calls ∨ Sensible q.1) ∧
        ∀ c', out = .exited c' →
          FromInput stdin c₀ c' ∧ lower (cstr c'.input) = ascii "quit" := by
  induction n with
  | zero =>
    intro c h _ _
    cases h
    exact ⟨fun _ hq => .inl hq, fun _ he => by cases he⟩
  | succ n ih =>
    intro c h hsuffix hfrom
    rw [mainLoop] at h
    obtain ⟨next, hturn, h⟩ := bind_ok h
    obtain ⟨hsuffix', hfrom', hcalls, hquit⟩ := mainTurn_onward hturn hsuffix hfrom
    cases next with
    | running c' =>
      obtain ⟨hlater, hexit⟩ := ih h hsuffix' (.inr hfrom')
      refine ⟨fun q hq => ?_, hexit⟩
      rcases hlater q hq with hq | hq
      · exact hcalls q hq
      · exact .inr hq
    | exited c' =>
      cases h
      refine ⟨hcalls, fun c'' he => ?_⟩
      cases he
      exact ⟨hfrom', hquit c' rfl⟩

/-- Whatever the input is: the program ends only when it has read `quit`, in any mixture of cases,
or when there is no input at all and `quit` stood on the stack. -/
theorem exits_by_quit (w : Outside σ) (st : Stack) (world : σ) (stdin : List UInt8) (n : Nat)
    (c' : Console σ) (h : adminMain w st 0 world stdin n = .ok (.exited c')) :
    (∃ before word after, stdin = before ++ word ++ after ∧ lower word = ascii "quit") ∨
      (stdin = [] ∧ lower (cstr (st.array 0 0 maxCommand)) = ascii "quit") := by
  rw [adminMain, if_neg (by decide)] at h
  obtain ⟨hfrom, hquit⟩ := (@mainLoop_onward σ w st stdin (startConsole st world stdin) _ n _ h
    List.suffix_rfl (.inl ⟨rfl, rfl⟩)).2 c' rfl
  rcases hfrom with ⟨before, word, after, hsplit, hword⟩ | ⟨hnone, hfirst⟩
  · exact .inl ⟨before, word, after, hsplit, hword.trans hquit⟩
  · exact .inr ⟨hnone, hfirst.symm.trans hquit⟩

theorem exits_by_quit_sample :
    (∃ before word after, ascii "help\nQuit\n" = before ++ word ++ after ∧
      lower word = ascii "quit") ∨ (ascii "help\nQuit\n" = [] ∧
        lower (cstr (sampleStack.array 0 0 maxCommand)) = ascii "quit") := by
  have hview : (adminMain sampleOutside sampleStack 0 (sampleState stateOff false [])
      (ascii "help\nQuit\n") 2).map (fun out => out.view.1) = .ok true := by decide +kernel
  obtain ⟨out, hout, hended⟩ := Run.returned_of_map hview
  cases out with
  | running c => cases hended
  | exited c =>
    exact exits_by_quit sampleOutside sampleStack (sampleState stateOff false [])
      (ascii "help\nQuit\n") 2 c hout

/-- Whatever the input is: every system call asks for one of the four states or one of the two
operations, and passes no null pointer. -/
theorem calls_sensible (w : Outside σ) (st : Stack) (euid : UInt32) (world : σ)
    (stdin : List UInt8) (n : Nat) (out : Outcome σ)
    (h : adminMain w st euid world stdin n = .ok out) :
    ∀ q ∈ out.console.dialogue.calls, Sensible q.1 := by
  intro q hq
  rw [adminMain] at h
  split at h
  · cases h
    cases hq
  · obtain ⟨hcalls, -⟩ := @mainLoop_onward σ w st stdin (startConsole st world stdin) _ n _ h
      List.suffix_rfl (.inl ⟨rfl, rfl⟩)
    rcases hcalls q hq with hq | hq
    · cases hq
    · exact hq

theorem calls_sensible_sample :
    ∃ out, adminMain sampleOutside sampleStack 0 (sampleState stateOff false [])
        (scriptText sampleScript) 1 = .ok out ∧ out.console.dialogue.calls.length = 1 ∧
      ∀ q ∈ out.console.dialogue.calls, Sensible q.1 := by
  have hcalls : (adminMain sampleOutside sampleStack 0 (sampleState stateOff false [])
      (scriptText sampleScript) 1).map (fun out => out.console.dialogue.calls.length) = .ok 1 := by
    decide +kernel
  obtain ⟨out, hout, hlength⟩ := Run.returned_of_map hcalls
  exact ⟨out, hout, hlength, calls_sensible sampleOutside sampleStack 0
    (sampleState stateOff false []) (scriptText sampleScript) 1 out hout⟩

end RefMonitor
