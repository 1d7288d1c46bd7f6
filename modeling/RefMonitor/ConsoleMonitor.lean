import RefMonitor.ConsoleScript

/-!
# The console and the monitor

What the console shows of the monitor went through five places: the module's list, the buffer of
`syscall_proc_read`, the buffer of `stdio`, the array of `print_black_list` and the output.

Results:
1. `printLines_eq`: the loop of `print_black_list` prints the file, however its lines are cut.
2. `atoi_decimal`: `print_actual_state` reads back what the kernel has printed.
3. `session_shows`: what is shown at the end of a session.
-/

namespace RefMonitor
open CString Lines Reader Fields

variable {δ : Type}

/-! ## The list -/

/-- The loop prints the pieces it reads. -/
theorem printLines_eq {n : Nat} : ∀ {stream buffer : List UInt8}, (0 : UInt8) ∉ stream →
    printLines n stream buffer = (pieces newline (pathMax - 1) n stream).flatten := by
  induction n with
  | zero => exact fun _ => rfl
  | succ n ih =>
    intro stream buffer hnul
    cases stream with
    | nil => rfl
    | cons b stream =>
      obtain ⟨tail, htail⟩ := @fgets_some pathMax (b :: stream) buffer (List.cons_ne_nil b stream)
      have hpiece : (0 : UInt8) ∉ piece newline (pathMax - 1) (b :: stream) :=
        fun h => hnul (piece_isPrefix.subset h)
      have hrest : (0 : UInt8) ∉
          (b :: stream).drop (piece newline (pathMax - 1) (b :: stream)).length :=
        fun h => hnul (List.mem_of_mem_drop h)
      rw [printLines, htail, pieces, List.flatten_cons]
      dsimp only
      rw [cstr_append_zero hpiece, ih hrest]

theorem zero_notMem_decimal (n : Nat) : (0 : UInt8) ∉ decimal n := by
  intro h
  have hdigit := (decimal_digit h).1
  exact absurd hdigit (by decide)

theorem zero_notMem_listingLine (k : Nat) (entry : RcuRestrict) :
    (0 : UInt8) ∉ listingLine k entry := by
  simp only [listingLine, List.mem_append, not_or]
  exact ⟨⟨⟨⟨by decide, zero_notMem_decimal k⟩, by decide⟩, entry.path_nul⟩, by decide⟩

theorem zero_notMem_listing (entries : List RcuRestrict) : (0 : UInt8) ∉ listing entries := by
  intro h
  obtain ⟨e, -, he⟩ := List.mem_flatMap.mp h
  exact zero_notMem_listingLine e.2 e.1 he

/-- The access point is the listing, as far as it fits in the buffer of `syscall_proc_read`. -/
theorem accessPoint_eq (env : Env) (v : Vfs δ) {task : Task δ} (halloc : task.alloc 6 = true)
    (buf : StdioBuffer) (s : State) :
    (monitorOutside env v task buf).accessPoint s =
      some ((listing s.restrictPathList).take (pathMax - 1)) := by
  have hserved : ∀ _ : Nat, (fillRead env task buf s).Served s.restrictPathList :=
    fun _ => ⟨rfl, buf.size_pos, halloc, Nat.le_refl _⟩
  have hpages := listingSession_pages hserved
  have hlen : ((listing s.restrictPathList).take 4095).length < 0 + pathMax :=
    Nat.lt_of_le_of_lt (List.length_take_le _ _) (by decide)
  refine congrArg some ?_
  exact (hpages.readFrom_eq (Nat.zero_le _) hlen).trans List.drop_zero

theorem printBlackList_shows (env : Env) (v : Vfs δ) {task : Task δ}
    (halloc : task.alloc 6 = true) (buf : StdioBuffer) (st : Stack) (c : Console State) :
    printBlackList (monitorOutside env v task buf) st c =
      (c.printf (ascii "actual black list\n")).printf
        ((listing c.dialogue.world.restrictPathList).take (pathMax - 1)) := by
  have hnul : (0 : UInt8) ∉ (listing c.dialogue.world.restrictPathList).take (pathMax - 1) :=
    fun h => zero_notMem_listing _ (List.mem_of_mem_take h)
  rw [printBlackList, accessPoint_eq env v halloc]
  dsimp only
  rw [printLines_eq hnul, pieces_flatten (by decide) (Nat.le_succ _)]

/-! ## The state -/

theorem takeWhile_decimal (n : Nat) : (decimal n).takeWhile isDigit = decimal n := by
  rw [List.takeWhile_eq_self_iff]
  intro b hb
  obtain ⟨hlo, hhi⟩ := decimal_digit hb
  rw [isDigit, decide_eq_true_eq, UInt8.le_iff_toNat_le, UInt8.le_iff_toNat_le]
  exact ⟨hlo, hhi⟩

theorem foldl_digits (digits : List UInt8) (init : Nat) :
    digits.foldl (fun (n : Int) c => n * 10 + (c.toNat - 48 : Nat)) init =
      (digits.foldl (fun n b => 10 * n + (b.toNat - 48)) init : Nat) := by
  induction digits generalizing init with
  | nil => rfl
  | cons b digits ih =>
    rw [List.foldl_cons, List.foldl_cons, ← ih]
    congr 1
    push_cast
    ring

/-- `atoi` reads back a printed number. -/
theorem atoi_decimal (n : Nat) : atoi (decimal n) = n := by
  have hvalue := decimalValue_decimal n
  have hwhile := takeWhile_decimal n
  cases hdigits : decimal n with
  | nil => exact absurd hdigits (by simp [decimal, Nat.toDigits_ne_nil])
  | cons b digits =>
    obtain ⟨hlo, hhi⟩ := @decimal_digit n b (by rw [hdigits]; exact List.mem_cons_self ..)
    have hspace : isSpace b = false := by
      rw [isSpace, Bool.or_eq_false_iff, beq_eq_false_iff_ne, decide_eq_false_iff_not,
        UInt8.le_iff_toNat_le, UInt8.le_iff_toNat_le]
      refine ⟨?_, fun h => ?_⟩
      · rintro rfl
        exact absurd hlo (by decide)
      · exact absurd (Nat.le_trans hlo h.2) (by decide)
    have hsign : b ≠ 45 ∧ b ≠ 43 := by
      refine ⟨?_, ?_⟩
      · rintro rfl
        exact absurd hlo (by decide)
      · rintro rfl
        exact absurd hlo (by decide)
    rw [hdigits] at hwhile hvalue
    rw [atoi, List.dropWhile_cons_of_neg (by simp [hspace])]
    dsimp only
    rw [if_neg hsign.1, if_neg hsign.2, hwhile]
    exact (foldl_digits (b :: digits) 0).trans (congrArg Nat.cast hvalue)

theorem formatD_ofNat {n : Nat} (h : n < 2 ^ 31) : formatD n = decimal n := by
  have hof : UInt32.ofBitVec (BitVec.ofInt 32 (n : Int)) = UInt32.ofNat n := by
    refine UInt32.eq_of_toBitVec_eq ?_
    show BitVec.ofInt 32 (n : Int) = BitVec.ofNat 32 n
    rw [BitVec.ofInt_natCast]
  rw [formatD, hof, printD_ofNat h]

theorem length_decimal_le {n : Nat} (h : n < 2 ^ 31) : (decimal n).length ≤ 10 := by
  rw [decimal, List.length_map, Nat.length_toDigits_le_iff (by decide) (by decide)]
  exact Nat.lt_trans h (by decide)

theorem atoiInt_decimal {n : Nat} (h : n < 2 ^ 31) : atoiInt (decimal n) = n := by
  rw [atoiInt, atoi_decimal]
  exact Int.bmod_eq_of_le (by omega) (by omega)

/-- The line `print_actual_state` prints. -/
def stateLine (n : Nat) : List UInt8 :=
  ascii "actual state=" ++ decimal n ++ ascii ":" ++ getStrState n ++ ascii "\n"

theorem printActualState_shows (env : Env) (v : Vfs δ) (task : Task δ) (buf : StdioBuffer)
    (c : Console State) (h : c.dialogue.world.currentState < 2 ^ 31) :
    printActualState (monitorOutside env v task buf) c =
      .ok (c.printf (stateLine c.dialogue.world.currentState)) := by
  generalize hn : c.dialogue.world.currentState = n at h
  have hfile : (monitorOutside env v task buf).currentState c.dialogue.world =
      some (decimal n ++ [newline]) := by
    rw [← formatD_ofNat h, ← hn]
    rfl
  have htake : (decimal n ++ [newline]).take 16 = decimal n ++ [newline] := by
    refine List.take_of_length_le ?_
    rw [List.length_append]
    exact Nat.le_trans (Nat.add_le_add_right (length_decimal_le h) 1) (by decide)
  -- the newline is the byte that is overwritten
  have hset : (decimal n ++ [newline]).set ((decimal n ++ [newline]).length - 1) 0 =
      decimal n ++ [0] := by
    simp
  rw [printActualState, hfile]
  dsimp only
  rw [htake, if_neg (by simp), hset, cstr_append_zero (zero_notMem_decimal n), atoiInt_decimal h,
    formatD_ofNat h]
  rfl

/-! ## A session -/

/-- One more turn of a loop that goes on. -/
theorem mainLoop_running {σ : Type} {w : Outside σ} {st : Stack} {c c' : Console σ} {n : Nat}
    (h : mainTurn w st c = .ok (.running c')) : mainLoop w st (n + 1) c = mainLoop w st n c' := by
  rw [mainLoop, h]
  rfl

/-- What is shown by `get_state`, `blacklist` and `quit`. -/
def farewell (s : State) : List UInt8 :=
  prompt ++ stateLine s.currentState ++ prompt ++ ascii "actual black list\n" ++
    (listing s.restrictPathList).take (pathMax - 1) ++ prompt ++ ascii "Exiting the program.\n"

section Session

variable (env : Env) (v : Vfs δ) (task : Task δ) (buf : StdioBuffer) (st : Stack)

/-- The three commands one after the other. -/
theorem mainLoop_farewell (halloc : task.alloc 6 = true) {c : Console State}
    {getWord listWord quitWord rest : List UInt8} (hget : Spelt .getState getWord)
    (hlist : Spelt .blacklist listWord) (hquit : Spelt .quit quitWord)
    (hstate : c.dialogue.world.currentState < 2 ^ 31)
    (hstdin : c.stdin = getWord ++ newline :: (listWord ++ newline :: (quitWord ++ newline :: rest))) :
    ∃ c', mainLoop (monitorOutside env v task buf) st 3 c = .ok (.exited c') ∧
      c'.stdin = rest ∧ c'.dialogue = c.dialogue ∧
      c'.stdout = c.stdout ++ farewell c.dialogue.world := by
  obtain ⟨c₁, hturn₁, hrest₁, hd₁, -, -, hout₁⟩ :=
    @mainTurn_typed _ (monitorOutside env v task buf) st c _ _ hget.typed hstdin
  rw [hget.action] at hturn₁
  have hshow : runAction (monitorOutside env v task buf) st c₁ .getState =
      .ok (.running (c₁.printf (stateLine c₁.dialogue.world.currentState))) := by
    rw [runAction, printActualState_shows env v task buf c₁ (by rw [hd₁]; exact hstate)]
    rfl
  obtain ⟨c₂, hturn₂, hrest₂, hd₂, -, -, hout₂⟩ :=
    @mainTurn_typed _ (monitorOutside env v task buf) st
      (c₁.printf (stateLine c₁.dialogue.world.currentState)) _ _ hlist.typed hrest₁
  rw [hlist.action, runAction, printBlackList_shows env v halloc] at hturn₂
  obtain ⟨c₃, hturn₃, hrest₃, hd₃, -, -, hout₃⟩ :=
    @mainTurn_typed _ (monitorOutside env v task buf) st
      ((c₂.printf (ascii "actual black list\n")).printf
        ((listing c₂.dialogue.world.restrictPathList).take (pathMax - 1))) _ _ hquit.typed hrest₂
  rw [hquit.action] at hturn₃
  have hsame : c₁.dialogue = c.dialogue ∧ c₂.dialogue = c.dialogue ∧ c₃.dialogue = c.dialogue :=
    ⟨hd₁, hd₂.trans hd₁, hd₃.trans (hd₂.trans hd₁)⟩
  refine ⟨c₃.printf (ascii "Exiting the program.\n"), ?_, hrest₃, hsame.2.2, ?_⟩
  · rw [mainLoop_running (hturn₁.trans hshow), mainLoop_running hturn₂, mainLoop, hturn₃]
    rfl
  · show c₃.stdout ++ ascii "Exiting the program.\n" = _
    simp only [Console.printf, hsame] at hout₁ hout₂ hout₃
    rw [hout₃, hout₂, hout₁, farewell]
    simp only [List.append_assoc]

/-- A session of changes that ends with `get_state`, `blacklist` and `quit` shows the state and the
list that the typed requests lead to. -/
theorem session_shows (halloc : task.alloc 6 = true) (s : State) (script : List Entry)
    (hfits : ∀ e ∈ script, e.Fits) (getWord listWord quitWord rest : List UInt8)
    (hget : Spelt .getState getWord) (hlist : Spelt .blacklist listWord)
    (hquit : Spelt .quit quitWord) (d : Dialogue State)
    (hd : carryOut (monitorOutside env v task buf) st script (.start s) = .ok d)
    (hstate : d.world.currentState < 2 ^ 31) :
    ∃ c', adminMain (monitorOutside env v task buf) st 0 s
        (scriptText script ++ (getWord ++ newline :: (listWord ++ newline ::
          (quitWord ++ newline :: rest)))) (script.length + 3) = .ok (.exited c') ∧
      c'.stdin = rest ∧ c'.dialogue = d ∧ farewell d.world <:+ c'.stdout := by
  obtain ⟨-, hok⟩ := @mainLoop_script _ (monitorOutside env v task buf) st
    (getWord ++ newline :: (listWord ++ newline :: (quitWord ++ newline :: rest))) 3 script
    ((startConsole st s (scriptText script ++ (getWord ++ newline :: (listWord ++ newline ::
      (quitWord ++ newline :: rest))))).printf helpText) hfits rfl
  obtain ⟨c₀, hloop, hstdin, rfl, -⟩ := hok d hd
  obtain ⟨c', hend, hrest, hsame, hout⟩ :=
    mainLoop_farewell env v task buf st halloc hget hlist hquit hstate hstdin
  refine ⟨c', ?_, hrest, hsame, ?_⟩
  · rw [adminMain, if_neg (by decide)]
    exact hloop.trans hend
  · rw [hout]
    exact List.suffix_append _ _

end Session

theorem session_shows_sample :
    ∃ d c', carryOut sampleOutside sampleStack sampleScript
        (.start (sampleState stateOff false listedSecret)) = .ok d ∧
      d.world.currentState = stateRecOff ∧
      adminMain sampleOutside sampleStack 0 (sampleState stateOff false listedSecret)
        (scriptText sampleScript ++ (ascii "3" ++ newline :: (ascii "BlackList" ++ newline ::
          (ascii "quit" ++ newline :: ascii "ls\n")))) 4 = .ok (.exited c') ∧
      c'.stdin = ascii "ls\n" ∧ farewell d.world <:+ c'.stdout := by
  have hstate : (carryOut sampleOutside sampleStack sampleScript
      (.start (sampleState stateOff false listedSecret))).map (fun d => d.world.currentState) =
      .ok stateRecOff := by decide +kernel
  obtain ⟨d, hd, hcurrent⟩ := Run.returned_of_map hstate
  obtain ⟨c', hmain, hrest, -, hshown⟩ := session_shows sampleEnv sampleTree.vfs (sampleTask 0 0)
    sampleBuffer sampleStack rfl (sampleState stateOff false listedSecret) sampleScript
    sampleScript_fits (ascii "3") (ascii "BlackList") (ascii "quit") (ascii "ls\n")
    ⟨by decide +kernel, ⟨by decide, by decide, by decide⟩⟩
    ⟨by decide +kernel, ⟨by decide, by decide, by decide⟩⟩
    ⟨by decide +kernel, ⟨by decide, by decide, by decide⟩⟩ d hd (by rw [hcurrent]; decide)
  exact ⟨d, c', hd, hcurrent, hmain, hrest, hshown⟩

end RefMonitor
