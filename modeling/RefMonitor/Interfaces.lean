import RefMonitor.UserLib

/-!
# The two interfaces

A command can be given by a system call or by a line written to the access point. The two
are meant to do the same. A command with its arguments, and the bytes that stand in user
memory behind the strings of the system call, is `Command`; the two interfaces agree on it
when they do the same in every state of the monitor, for every caller and every namespace.

They agree exactly on the commands whose values are read as they are (`Command.Plain`). A
command that `do_change_*` refuses whatever the state is among them: both ways fail.

Results:
1. `changeState_viaProc`, `changePath_viaProc`, `changePassword_viaProc`, and the same for
   `viaSyscall`: what each interface hands to `do_change_*`.
2. `Command.Plain.sameOutcome`: the two ways do the same with a plain command.
-/

namespace RefMonitor
open CString

variable {δ : Type}

/-! ## Commands -/

inductive Command
  | changeState (password : List UInt8) (state : Int)
  | changePath (password thePath : List UInt8) (op : Int)
  | changePassword (oldPassword newPassword : List UInt8)

/-- The line the library writes. -/
def Command.text : Command → List UInt8
  | .changeState password state => pathChangeState password state
  | .changePath password thePath op => pathChangePath password thePath op
  | .changePassword oldPassword newPassword => pathChangePassword oldPassword newPassword

/-- The values hold no space, newline or NUL, and the line fits in the library's buffer. -/
structure Command.Legal (c : Command) : Prop where
  words : match c with
    | .changeState password _ => OneWord password
    | .changePath password thePath _ => OneWord password ∧ OneWord thePath
    | .changePassword oldPassword newPassword => OneWord oldPassword ∧ OneWord newPassword
  fits : c.text.length < pathBuffer

/-- The system call, with `behind₁` and `behind₂` in user memory behind the two strings. -/
def Command.viaSyscall (env : Env) (v : Vfs δ) (task : Task δ) (behind₁ behind₂ : List UInt8)
    (s : State) : Command → Except Fault (Int × State)
  | .changeState password state =>
    .ok (sysChangeState env v task (some (password ++ 0 :: behind₁)) state s)
  | .changePath password thePath op =>
    sysChangePaths env v task (some (password ++ 0 :: behind₁)) (some (thePath ++ 0 :: behind₂)) op s
  | .changePassword oldPassword newPassword =>
    .ok (sysChangePassword env task (some (oldPassword ++ 0 :: behind₁))
      (some (newPassword ++ 0 :: behind₂)) s)

/-- The write to the access point. -/
def Command.viaProc (env : Env) (v : Vfs δ) (task : Task δ) (s : State) (c : Command) :
    Except Fault (Int × State) :=
  syscallProcWrite env v task c.text s

/-- The same success or failure and the same monitor afterwards. -/
def SameOutcome : Except Fault (Int × State) → Except Fault (Int × State) → Prop
  | .ok (r, s), .ok (r', s') => (r < 0 ↔ r' < 0) ∧ s.currentState = s'.currentState ∧
    s.probes = s'.probes ∧ s.restrictPathList = s'.restrictPathList ∧ s.pwd = s'.pwd
  | .error f, .error f' => f = f'
  | _, _ => False

/-- The two interfaces do the same, whatever the monitor, the caller and the namespace. The
line needs a buffer of its own, `alloc 5`. -/
def Command.Agrees (c : Command) (behind₁ behind₂ : List UInt8) : Prop :=
  ∀ (δ : Type) (env : Env) (v : Vfs δ) (task : Task δ) (s : State), task.alloc 5 = true →
    SameOutcome (c.viaSyscall env v task behind₁ behind₂ s) (c.viaProc env v task s)

/-- The values of the command are read as they are over both interfaces, or the command is
one that fails in every state. `behind₂` is what stands behind the path. -/
def Command.Plain (behind₂ : List UInt8) : Command → Prop
  | .changeState password state => isState state = true →
    password ≠ nullText ∧ ¬ pwdKey <+: password ∧ ¬ optKey <+: password
  | .changePath password thePath op => isPathOp op →
    (password ≠ nullText ∧ thePath ≠ nullText) ∧
    (¬ pwdKey <+: password ∧ (optKey <+: password → thePath = []) ∧
      (pthKey <+: password → 4 ≤ thePath.length)) ∧
    (¬ pwdKey <+: thePath ∧ ¬ pthKey <+: thePath ∧ ¬ optKey <+: thePath) ∧
    (thePath.head? = some slash →
      ∀ b ∈ behind₂.take (maxFromUser - (thePath.length + 1)), b = 0)
  | .changePassword oldPassword newPassword =>
    8 < newPassword.length → oldPassword ≠ newPassword →
    oldPassword ≠ nullText ∧ ¬ oldPwdKey <+: oldPassword ∧ ¬ oldPwdKey <+: newPassword ∧
      ¬ newPwdKey <+: newPassword

/-! ## Outcomes -/

theorem SameOutcome.refl (out : Except Fault (Int × State)) : SameOutcome out out := by
  cases out with
  | error f => rfl
  | ok p => exact ⟨Iff.rfl, rfl, rfl, rfl, rfl⟩

/-- What `syscall_proc_write` makes of the result of a wrapper. -/
def returned (len : Nat) : Except Fault (Int × State) → Except Fault (Int × State)
  | .error f => .error f
  | .ok (ret, s) => if ret < 0 then .ok (ret, s) else .ok ((len : Int), s)

theorem sameOutcome_returned {a b : Except Fault (Int × State)} {len : Nat} :
    SameOutcome a (returned len b) ↔ SameOutcome a b := by
  cases b with
  | error f => exact Iff.rfl
  | ok p =>
    obtain ⟨r, s⟩ := p
    unfold returned
    dsimp only
    split
    · exact Iff.rfl
    · next hr =>
      cases a with
      | error f => exact Iff.rfl
      | ok q =>
        have hlen : ¬ (len : Int) < 0 := Int.not_lt.mpr (Int.natCast_nonneg len)
        simp only [SameOutcome, hr, hlen]

/-- Two outcomes that are the same succeed together. -/
theorem SameOutcome.succeeds {r : Int} {s : State} {out : Except Fault (Int × State)}
    (h : SameOutcome (.ok (r, s)) out) (hr : 0 ≤ r) : ∃ r' s', out = .ok (r', s') ∧ 0 ≤ r' := by
  cases out with
  | error f => exact h.elim
  | ok p =>
    obtain ⟨r', s'⟩ := p
    exact ⟨r', s', rfl, Int.not_lt.mp fun h' => absurd (h.1.mpr h') (Int.not_lt.mpr hr)⟩

/-! ## The line -/

/-- The password of a command, the old one of two. -/
def Command.password : Command → List UInt8
  | .changeState password _ => password
  | .changePath password _ _ => password
  | .changePassword oldPassword _ => oldPassword

theorem Command.Legal.password_lt {c : Command} (h : c.Legal) :
    c.password.length < maxFromUser := by
  refine Nat.lt_of_le_of_lt ?_ h.fits
  cases c with
  | changeState p state =>
    simp only [Command.password, Command.text, pathChangeState, List.length_append]
    omega
  | changePath p t op =>
    simp only [Command.password, Command.text, pathChangePath, List.length_append]
    omega
  | changePassword o n =>
    simp only [Command.password, Command.text, pathChangePassword, List.length_append]
    omega

theorem Command.Legal.newPassword_lt {o n : List UInt8} (h : (Command.changePassword o n).Legal) :
    n.length < maxFromUser := by
  refine Nat.lt_of_le_of_lt ?_ h.fits
  simp only [Command.text, pathChangePassword, List.length_append]
  omega

theorem Command.Legal.path_lt {p t : List UInt8} {op : Int}
    (h : (Command.changePath p t op).Legal) : t.length < maxFromUser := by
  refine Nat.lt_of_le_of_lt ?_ h.fits
  simp only [Command.text, pathChangePath, List.length_append]
  omega

theorem oneWord_changeStateCmd : OneWord changeStateCmd := by decide
theorem oneWord_changePathCmd : OneWord changePathCmd := by decide
theorem oneWord_changePasswordCmd : OneWord changePasswordCmd := by decide

/-- A line of words that fits is handed to the wrapper of its command. -/
theorem syscallProcWrite_words {env : Env} {v : Vfs δ} {task : Task δ} {s : State}
    {words : List (List UInt8)} (halloc : task.alloc 5 = true)
    (hfit : ([space].intercalate words).length < pathBuffer) (hwords : ∀ w ∈ words, OneWord w)
    (hne : words ≠ []) (hcount : words.length ≤ 15) :
    syscallProcWrite env v task ([space].intercalate words) s =
      returned ([space].intercalate words).length
        (match checkAvilableSysList (cstr (words.headD [])) with
        | some 0 => changeStateVfsSysWrapper env v task words.tail (words.length - 1) s
        | some 1 => changePathVfsSysWrapper env v task words.tail (words.length - 1) s
        | some 2 => changePasswordVfsSysWrapper env task words.tail (words.length - 1) s
        | _ => .ok (fail .ebadmsg, s)) := by
  have hlen : ¬ pathMax + nameMax + 1 ≤ ([space].intercalate words).length :=
    Nat.not_le.mpr (Nat.lt_trans hfit (by decide))
  rw [syscallProcWrite, if_neg hlen, halloc, if_neg (by decide), lineTokens_intercalate hwords hne]
  dsimp only
  rw [if_neg (Nat.not_lt.mpr hcount)]
  rfl

theorem changeState_viaProc {env : Env} {v : Vfs δ} {task : Task δ} {s : State} {p : List UInt8}
    {state : Int} {a : Except Fault (Int × State)} (hlegal : (Command.changeState p state).Legal)
    (halloc : task.alloc 5 = true) :
    SameOutcome a ((Command.changeState p state).viaProc env v task s) ↔
      SameOutcome a (if (readState p state).1 = nullText then .ok (fail .einval, s)
        else .ok (doChangeState env v task (readState p state).1 (readState p state).2 s)) := by
  have hp : OneWord p := hlegal.words
  have hfit := hlegal.fits
  have hwords : ∀ w ∈ stateWords p state, OneWord w := by
    simp only [stateWords, List.forall_mem_cons]
    exact ⟨oneWord_changeStateCmd, by decide, hp, by decide, getStrState_oneWord state,
      fun _ h => absurd h List.not_mem_nil⟩
  unfold Command.viaProc
  rw [Command.text, pathChangeState_eq] at hfit ⊢
  rw [syscallProcWrite_words halloc hfit hwords (List.cons_ne_nil _ _) (by simp [stateWords]),
    sameOutcome_returned, ← readState_spec hp state]
  exact Iff.rfl

theorem changePath_viaProc {env : Env} {v : Vfs δ} {task : Task δ} {s : State} {p t : List UInt8}
    {op : Int} {a : Except Fault (Int × State)} (hlegal : (Command.changePath p t op).Legal)
    (halloc : task.alloc 5 = true) :
    SameOutcome a ((Command.changePath p t op).viaProc env v task s) ↔
      SameOutcome a (if !task.alloc 4 then .ok (fail .enomem, s)
        else if PathRefused p t then .ok (fail .einval, s)
        else doChangePath env v task (readPwd p t) (readPathname p t) (readOp t op) s) := by
  obtain ⟨hp, ht⟩ : OneWord p ∧ OneWord t := hlegal.words
  have hfit := hlegal.fits
  have hlen : t.length ≤ pathMax := Nat.le_trans (Nat.le_of_lt hlegal.path_lt) (by decide)
  have hwords : ∀ w ∈ pathWords p t op, OneWord w := by
    simp only [pathWords, List.forall_mem_cons]
    exact ⟨oneWord_changePathCmd, by decide, hp, by decide, ht, by decide, getStrPath_oneWord op,
      fun _ h => absurd h List.not_mem_nil⟩
  unfold Command.viaProc
  rw [Command.text, pathChangePath_eq] at hfit ⊢
  rw [syscallProcWrite_words halloc hfit hwords (List.cons_ne_nil _ _) (by simp [pathWords]),
    sameOutcome_returned]
  show SameOutcome a (changePathVfsSysWrapper env v task (pathWords p t op).tail 6 s) ↔ _
  cases halloc' : task.alloc 4 with
  | true =>
    rw [readPath_spec hp ht hlen op halloc']
    exact Iff.rfl
  | false =>
    rw [changePathVfsSysWrapper, if_neg (by decide), halloc', if_pos (by decide)]
    exact Iff.rfl

theorem changePassword_viaProc {env : Env} {v : Vfs δ} {task : Task δ} {s : State}
    {o n : List UInt8} {a : Except Fault (Int × State)}
    (hlegal : (Command.changePassword o n).Legal) (halloc : task.alloc 5 = true) :
    SameOutcome a ((Command.changePassword o n).viaProc env v task s) ↔
      SameOutcome a (match readOld o n, readNew n with
        | some old, some new => .ok (doChangePassword env task old new s)
        | _, _ => .ok (fail .einval, s)) := by
  obtain ⟨ho, hn⟩ : OneWord o ∧ OneWord n := hlegal.words
  have hfit := hlegal.fits
  have hwords : ∀ w ∈ passwordWords o n, OneWord w := by
    simp only [passwordWords, List.forall_mem_cons]
    exact ⟨oneWord_changePasswordCmd, by decide, ho, by decide, hn,
      fun _ h => absurd h List.not_mem_nil⟩
  unfold Command.viaProc
  rw [Command.text, pathChangePassword_eq] at hfit ⊢
  rw [syscallProcWrite_words halloc hfit hwords (List.cons_ne_nil _ _) (by simp [passwordWords]),
    sameOutcome_returned]
  refine Iff.of_eq (congrArg (SameOutcome a) ((readPassword_spec ho hn).trans ?_))
  cases readOld o n with
  | none => rfl
  | some old =>
    cases readNew n with
    | none => rfl
    | some new => rfl

/-! ## The strings of the system call -/

theorem take_behind {t behind : List UInt8} {n : Nat} (hlt : t.length < n) :
    (t ++ 0 :: behind).take n = t ++ 0 :: behind.take (n - (t.length + 1)) := by
  obtain ⟨k, rfl⟩ : ∃ k, n = t.length + (k + 1) := ⟨n - (t.length + 1), by omega⟩
  rw [List.take_length_add_append, List.take_succ_cons]
  congr 3
  omega

/-- A string of fewer than `MAX_FROM_USER` bytes is imported whole, with what stands behind
it. -/
theorem copyFromUser_behind {t : List UInt8} (hlt : t.length < maxFromUser) (size : Nat)
    (behind : List UInt8) :
    ∃ rest, copyFromUser size maxFromUser (t ++ 0 :: behind) =
      t ++ 0 :: (behind.take (maxFromUser - (t.length + 1)) ++ rest) ∧ ∀ b ∈ rest, b = 0 := by
  unfold copyFromUser
  rw [take_behind hlt]
  refine ⟨_, by rw [List.append_assoc, List.cons_append], fun b hb => List.eq_of_mem_replicate hb⟩

theorem cstr_copyFromUser {t : List UInt8} (hnul : (0 : UInt8) ∉ t) (hlt : t.length < maxFromUser)
    (size : Nat) (behind : List UInt8) :
    cstr (copyFromUser size maxFromUser (t ++ 0 :: behind)) = t := by
  obtain ⟨rest, heq, _⟩ := copyFromUser_behind hlt size behind
  rw [heq, cstr_append_zero hnul]

/-- With zero bytes behind it the path comes in as the token of a line does. -/
theorem fromUserPath_zeros {t behind : List UInt8} (hlt : t.length < maxFromUser)
    (hzero : ∀ b ∈ behind.take (maxFromUser - (t.length + 1)), b = 0) :
    fromUserPath (t ++ 0 :: behind) = padded pathMax t := by
  have htake : behind.take (maxFromUser - (t.length + 1)) =
      List.replicate (behind.take (maxFromUser - (t.length + 1))).length 0 :=
    List.eq_replicate_of_mem hzero
  have hle : (behind.take (maxFromUser - (t.length + 1))).length ≤ maxFromUser - (t.length + 1) :=
    List.length_take_le ..
  generalize hm : (behind.take (maxFromUser - (t.length + 1))).length = m at htake hle
  have hpath : maxFromUser ≤ pathMax := by decide
  rw [fromUserPath, copyFromUser, take_behind hlt, htake, ← List.replicate_succ, padded,
    List.append_assoc, List.replicate_append_replicate]
  congr 2
  rw [List.length_append, List.length_replicate]
  omega

theorem checkPwd_cstr (env : Env) (s : State) (password : List UInt8) :
    checkPwd env s (cstr password) = checkPwd env s password := by
  rw [checkPwd, checkPwd, hashPlaintext_cstr]

theorem doChangeState_cstr (env : Env) (v : Vfs δ) (task : Task δ) (thePwd : List UInt8)
    (theState : Int) (s : State) :
    doChangeState env v task (cstr thePwd) theState s = doChangeState env v task thePwd theState s := by
  rw [doChangeState, doChangeState, checkPwd_cstr]

theorem doChangePath_cstr (env : Env) (v : Vfs δ) (task : Task δ) (thePwd thePath : List UInt8)
    (op : Int) (s : State) :
    doChangePath env v task (cstr thePwd) thePath op s =
      doChangePath env v task thePwd thePath op s := by
  rw [doChangePath, doChangePath, checkPwd_cstr]

theorem doChangePassword_cstr (env : Env) (task : Task δ) (oldPassword newPassword : List UInt8)
    (s : State) :
    doChangePassword env task (cstr oldPassword) (cstr newPassword) s =
      doChangePassword env task oldPassword newPassword s := by
  rw [doChangePassword, doChangePassword, checkPwd_cstr, hashPlaintext_cstr, strlen, cstr_cstr, strlen]
  have hcmp : strcmp (cstr oldPassword) (cstr newPassword) = 0 ↔
      strcmp oldPassword newPassword = 0 := by
    rw [strcmp_eq_zero, strcmp_eq_zero, cstr_cstr, cstr_cstr]
  rcases Classical.em (strcmp oldPassword newPassword = 0) with h | h
  · rw [if_pos h, if_pos (hcmp.mpr h)]
  · rw [if_neg h, if_neg (fun h' => h (hcmp.mp h'))]

/-- Two path buffers that hold the same relative name. -/
structure SameName (b b' : List UInt8) : Prop where
  name : cstr b = cstr b'
  size : b.length = pathMax
  size' : b'.length = pathMax
  relative : b.headD 0 ≠ slash
  relative' : b'.headD 0 ≠ slash

/-- A name that does not start with a slash is read as a string: the rest of the buffer is
cleared before it is used again. -/
theorem SameName.fillAbsolutePath {env : Env} {v : Vfs δ} {task : Task δ} {alloc : Nat → Bool}
    {b b' : List UInt8} (h : SameName b b') (halloc : alloc 0 = true) :
    fillAbsolutePath env v task alloc b = fillAbsolutePath env v task alloc b' := by
  have hclear : ∀ {c : List UInt8}, c.length = pathMax →
      memsetZero c 0 pathMax = List.replicate pathMax 0 := by
    intro c hc
    rw [memsetZero, writeAt, List.take_zero, List.nil_append, List.length_replicate, Nat.zero_add,
      List.drop_eq_nil_of_le (Nat.le_of_eq hc), List.append_nil]
  have hjoin : ∀ buf at_, joinInPlace buf at_ b = joinInPlace buf at_ b' := by
    intro buf at_
    simp only [joinInPlace, h.name]
  have hres : resolveRelativePath env v task true b = resolveRelativePath env v task true b' := by
    simp only [resolveRelativePath, hclear h.size, hclear h.size', hjoin, Bool.not_true,
      Bool.false_eq_true, if_false]
  rw [RefMonitor.fillAbsolutePath, RefMonitor.fillAbsolutePath, if_pos h.relative,
    if_pos h.relative', halloc, hres]

theorem SameName.doChangePath {env : Env} {v : Vfs δ} {task : Task δ} {thePwd b b' : List UInt8}
    {op : Int} {s : State} (h : SameName b b') :
    doChangePath env v task thePwd b op s = doChangePath env v task thePwd b' op s := by
  cases halloc : task.alloc 0 with
  | false =>
    -- the buffers differ, but nothing is done with them
    simp only [RefMonitor.doChangePath, RefMonitor.fillAbsolutePath, resolveRelativePath,
      if_pos h.relative, if_pos h.relative', halloc, Bool.not_false, if_true, fail_ne_zero, ne_eq,
      not_false_eq_true]
  | true => rw [RefMonitor.doChangePath, RefMonitor.doChangePath, h.fillAbsolutePath halloc]

/-! ## What is handed over

Over both interfaces a command ends in the same function. The system call hands it the values
of the command; what stands behind a password is not read. -/

theorem changeState_viaSyscall {env : Env} {v : Vfs δ} {task : Task δ} {s : State}
    {p behind₁ behind₂ : List UInt8} {state : Int} (hlegal : (Command.changeState p state).Legal) :
    (Command.changeState p state).viaSyscall env v task behind₁ behind₂ s =
      .ok (doChangeState env v task p state s) := by
  have hp : OneWord p := hlegal.words
  rw [Command.viaSyscall, sysChangeState, ← doChangeState_cstr, fromUserPassword, cstr_copyFromUser hp.nul hlegal.password_lt]

theorem changePath_viaSyscall {env : Env} {v : Vfs δ} {task : Task δ} {s : State}
    {p t behind₁ behind₂ : List UInt8} {op : Int} (hlegal : (Command.changePath p t op).Legal) :
    (Command.changePath p t op).viaSyscall env v task behind₁ behind₂ s =
      if !task.alloc 4 then .ok (fail .enomem, s)
      else doChangePath env v task p (fromUserPath (t ++ 0 :: behind₂)) op s := by
  obtain ⟨hp, ht⟩ : OneWord p ∧ OneWord t := hlegal.words
  rw [Command.viaSyscall, sysChangePaths, ← doChangePath_cstr, fromUserPassword,
    cstr_copyFromUser hp.nul hlegal.password_lt]

theorem changePassword_viaSyscall {env : Env} {v : Vfs δ} {task : Task δ} {s : State}
    {o n behind₁ behind₂ : List UInt8} (hlegal : (Command.changePassword o n).Legal) :
    (Command.changePassword o n).viaSyscall env v task behind₁ behind₂ s =
      .ok (doChangePassword env task o n s) := by
  obtain ⟨ho, hn⟩ : OneWord o ∧ OneWord n := hlegal.words
  rw [Command.viaSyscall, sysChangePassword, Option.getD_some, Option.getD_some,
    ← doChangePassword_cstr, fromUserPassword, fromUserPassword,
    cstr_copyFromUser ho.nul hlegal.password_lt, cstr_copyFromUser hn.nul hlegal.newPassword_lt]

/-! ## The name a line carries -/

theorem copyOver_padded {size : Nat} {old value : List UInt8} (hnul : (0 : UInt8) ∉ value) :
    copyOver (padded size old) value = padded size (value ++ old.drop value.length) := by
  rw [copyOver, strncpy_strlen, cstr_eq_self hnul, writeAt, List.take_zero, List.nil_append,
    Nat.zero_add, padded, padded, List.drop_append, List.drop_replicate, List.append_assoc]
  congr 3
  rw [List.length_append, List.length_drop]
  omega

/-- The name in the path buffer when the tokens are scanned: the values copied there, one over
the other and none with its terminator. -/
def pathText (p t : List UInt8) : List UInt8 :=
  let first := if pthKey <+: p then pthKey else []
  let second := if optKey <+: p then first else t ++ first.drop t.length
  if pthKey <+: t then optKey ++ second.drop 4 else second

theorem readPathname_eq {p t : List UInt8} (ht : OneWord t) :
    readPathname p t = padded pathMax (pathText p t) := by
  have hfirst : (if pthKey <+: p then copyOver (List.replicate pathMax 0) pthKey
      else List.replicate pathMax 0) = padded pathMax (if pthKey <+: p then pthKey else []) := by
    rw [← padded_nil]
    split
    · exact copyOver_padded pthKey_isOption.nul
    · rfl
  unfold readPathname pathText
  dsimp only
  rw [hfirst]
  generalize (if pthKey <+: p then pthKey else []) = first
  have hsecond : (if optKey <+: p then padded pathMax first else copyOver (padded pathMax first) t) =
      padded pathMax (if optKey <+: p then first else t ++ first.drop t.length) := by
    split
    · rfl
    · exact copyOver_padded ht.nul
  rw [hsecond]
  split
  · exact copyOver_padded optKey_isOption.nul
  · rfl

theorem mem_pathText {p t : List UInt8} {b : UInt8} (h : b ∈ pathText p t) :
    b ∈ t ∨ b ∈ pthKey ∨ b ∈ optKey := by
  have hfirst : ∀ {k}, b ∈ (if pthKey <+: p then pthKey else []).drop k → b ∈ pthKey := by
    intro k hb
    have hb' := List.mem_of_mem_drop hb
    split at hb'
    · exact hb'
    · exact absurd hb' List.not_mem_nil
  have hsecond : ∀ {k}, b ∈ (if optKey <+: p then (if pthKey <+: p then pthKey else [])
      else t ++ (if pthKey <+: p then pthKey else []).drop t.length).drop k →
      b ∈ t ∨ b ∈ pthKey := by
    intro k hb
    have hb' := List.mem_of_mem_drop hb
    split at hb'
    · exact .inr (@hfirst 0 hb')
    · exact (List.mem_append.mp hb').imp_right hfirst
  unfold pathText at h
  dsimp only at h
  split at h
  · rcases List.mem_append.mp h with hb | hb
    · exact .inr (.inr hb)
    · exact (hsecond hb).imp_right .inl
  · exact (@hsecond 0 h).imp_right .inl

theorem length_pathText_le (p t : List UInt8) : (pathText p t).length ≤ t.length + 8 := by
  have h4 : pthKey.length = 4 := by decide
  have h4' : optKey.length = 4 := by decide
  unfold pathText
  dsimp only
  split_ifs <;> simp only [List.length_append, List.length_drop, List.length_nil, h4, h4'] <;> omega

/-- An absolute name in the buffer is there only when the path is absolute. -/
theorem head_pathText {p t : List UInt8} (h : (pathText p t).head? = some slash) :
    t.head? = some slash := by
  have hfirst : (if pthKey <+: p then pthKey else []).head? ≠ some slash := by
    split
    · decide
    · decide
  unfold pathText at h
  dsimp only at h
  split at h
  · rw [List.head?_append] at h
    exact absurd h (by simp [optKey, ascii]; decide)
  · split at h
    · exact absurd h hfirst
    · cases t with
      | nil => exact absurd h hfirst
      | cons x t => exact h

theorem pathText_nul {p t : List UInt8} (ht : OneWord t) : (0 : UInt8) ∉ pathText p t := by
  intro h
  rcases mem_pathText h with h | h | h
  · exact ht.nul h
  · exact pthKey_isOption.nul h
  · exact optKey_isOption.nul h

/-- The name is the path of the command unless a value is taken for an option. -/
theorem pathText_eq_iff {p t : List UInt8} :
    pathText p t = t ↔ (optKey <+: p → t = []) ∧ (pthKey <+: p → 4 ≤ t.length) ∧
      ¬ pthKey <+: t := by
  unfold pathText
  dsimp only
  rcases Classical.em (pthKey <+: t) with hpth | hpth
  · rw [if_pos hpth]
    refine ⟨fun h => ?_, fun h => absurd hpth h.2.2⟩
    have hopt : optKey <+: t := by
      rw [← h]
      exact List.prefix_append ..
    exact absurd hopt (pthKey_isOption.unique optKey_isOption (by decide) hpth)
  · rw [if_neg hpth]
    rcases Classical.em (optKey <+: p) with hopt | hopt
    · have hno : ¬ pthKey <+: p := optKey_isOption.unique pthKey_isOption (by decide) hopt
      rw [if_pos hopt, if_neg hno]
      exact ⟨fun h => ⟨fun _ => h.symm, fun hp => absurd hp hno, hpth⟩, fun h => (h.1 hopt).symm⟩
    · rw [if_neg hopt, List.append_right_eq_self, List.drop_eq_nil_iff]
      rcases Classical.em (pthKey <+: p) with hp | hp
      · rw [if_pos hp]
        exact ⟨fun h => ⟨fun ho => absurd ho hopt, fun _ => h, hpth⟩, fun h => h.2.1 hp⟩
      · rw [if_neg hp]
        exact ⟨fun _ => ⟨fun ho => absurd ho hopt, fun h => absurd h hp, hpth⟩,
          fun _ => Nat.zero_le _⟩

/-! ## Plain commands -/

theorem sameOutcome_failed (e e' : Errno) (s : State) :
    SameOutcome (.ok (fail e, s)) (.ok (fail e', s)) :=
  ⟨⟨fun _ => fail_neg e', fun _ => fail_neg e⟩, rfl, rfl, rfl, rfl⟩

theorem doChangeState_noState (env : Env) (v : Vfs δ) (task : Task δ) (thePwd : List UInt8)
    (s : State) {state : Int} (h : isState state = false) :
    ∃ e, doChangeState env v task thePwd state s = (fail e, s) := by
  unfold doChangeState
  split
  · exact ⟨_, rfl⟩
  · rw [h, if_pos (by decide)]
    exact ⟨_, rfl⟩

theorem doChangePath_noOp (env : Env) (v : Vfs δ) (task : Task δ) (thePwd thePath : List UInt8)
    (s : State) {op : Int} (h : ¬ isPathOp op) :
    ∃ e, doChangePath env v task thePwd thePath op s = .ok (fail e, s) := by
  unfold doChangePath
  split
  · exact ⟨_, rfl⟩
  · rw [if_pos (not_or.mp h)]
    exact ⟨_, rfl⟩

theorem doChangePassword_refused (env : Env) (task : Task δ) (s : State) {o n : List UInt8}
    (h : strlen n ≤ 8 ∨ o = n) : ∃ e, doChangePassword env task o n s = (fail e, s) := by
  unfold doChangePassword
  split
  · exact ⟨_, rfl⟩
  · split
    · exact ⟨_, rfl⟩
    · next hlen =>
      have heq : strcmp o n = 0 := by rw [strcmp_eq_zero, h.resolve_left hlen]
      rw [if_pos heq]
      exact ⟨_, rfl⟩

theorem changeState_sameOutcome {env : Env} {v : Vfs δ} {task : Task δ} {s : State}
    {p behind₁ behind₂ : List UInt8} {state : Int} (hlegal : (Command.changeState p state).Legal)
    (hplain : (Command.changeState p state).Plain behind₂) (halloc : task.alloc 5 = true) :
    SameOutcome ((Command.changeState p state).viaSyscall env v task behind₁ behind₂ s)
      ((Command.changeState p state).viaProc env v task s) := by
  rw [changeState_viaProc hlegal halloc, changeState_viaSyscall hlegal, readState]
  cases hstate : isState state with
  | true =>
    obtain ⟨hnull, hpwd, hopt⟩ := hplain hstate
    simp only [if_neg hpwd, if_neg hopt, if_neg hnull, if_true]
    exact SameOutcome.refl _
  | false =>
    obtain ⟨e, he⟩ := doChangeState_noState env v task p s hstate
    simp only [he, Bool.false_eq_true, if_false, ite_self]
    generalize (if pwdKey <+: p then optKey else p) = pwd
    obtain ⟨e', he'⟩ := doChangeState_noState env v task pwd s (rfl : isState 0 = false)
    rw [he']
    split
    · exact sameOutcome_failed ..
    · exact sameOutcome_failed ..

theorem changePassword_sameOutcome {env : Env} {v : Vfs δ} {task : Task δ} {s : State}
    {o n behind₁ behind₂ : List UInt8} (hlegal : (Command.changePassword o n).Legal)
    (hplain : (Command.changePassword o n).Plain behind₂) (halloc : task.alloc 5 = true) :
    SameOutcome ((Command.changePassword o n).viaSyscall env v task behind₁ behind₂ s)
      ((Command.changePassword o n).viaProc env v task s) := by
  obtain ⟨ho, hn⟩ : OneWord o ∧ OneWord n := hlegal.words
  have hlen : strlen n = n.length := by rw [strlen, cstr_eq_self hn.nul]
  rw [changePassword_viaProc hlegal halloc, changePassword_viaSyscall hlegal]
  rcases Classical.em (8 < n.length ∧ o ≠ n) with hok | hbad
  · obtain ⟨hnull, hold, hold', hnew⟩ := hplain hok.1 hok.2
    have hnull' : n ≠ nullText := by
      rintro rfl
      exact absurd hok.1 (by decide)
    rw [readOld, readNew, if_neg hold', if_neg hold, if_neg hnull, if_neg hnew, if_neg hnull']
    exact SameOutcome.refl _
  · have hrefused : strlen n ≤ 8 ∨ o = n := by
      rw [hlen]
      rwa [not_and_or, Nat.not_lt, not_not] at hbad
    obtain ⟨e, he⟩ := doChangePassword_refused env task s hrefused
    rw [he]
    cases hold : readOld o n with
    | none => exact sameOutcome_failed ..
    | some old =>
      cases hnew : readNew n with
      | none => exact sameOutcome_failed ..
      | some new =>
        have hagain : strlen new ≤ 8 ∨ old = new := by
          obtain ⟨-, rfl⟩ := readNew_some hnew
          refine hrefused.imp_right fun h => ?_
          -- two equal passwords: the old one is no option, or the new one is it as well
          rw [h] at hold
          obtain ⟨hno, ⟨hyes, -⟩ | ⟨-, -, heq⟩⟩ := readOld_some hold
          · exact absurd hyes hno
          · exact heq
        obtain ⟨e', he'⟩ := doChangePassword_refused env task s hagain
        dsimp only
        rw [he']
        exact sameOutcome_failed ..

theorem length_fromUserPath (pointer : List UInt8) : (fromUserPath pointer).length = pathMax := by
  have hle : (pointer.take maxFromUser).length ≤ maxFromUser := List.length_take_le ..
  have hpath : maxFromUser ≤ pathMax := by decide
  rw [fromUserPath, copyFromUser, List.length_append, List.length_replicate]
  omega

theorem headD_fromUserPath {t : List UInt8} (hlt : t.length < maxFromUser) (behind : List UInt8) :
    (fromUserPath (t ++ 0 :: behind)).headD 0 = slash ↔ t.head? = some slash := by
  obtain ⟨rest, heq, _⟩ := copyFromUser_behind hlt pathMax behind
  rw [fromUserPath, heq]
  cases t with
  | nil =>
    refine ⟨fun h => ?_, fun h => absurd h (by simp)⟩
    have h0 : (0 : UInt8) = slash := h
    exact absurd h0 (by decide)
  | cons x t => simp

theorem sameName_fromUserPath {t : List UInt8} (ht : (0 : UInt8) ∉ t)
    (hlt : t.length < maxFromUser) (hs : t.head? ≠ some slash) (behind : List UInt8) :
    SameName (fromUserPath (t ++ 0 :: behind)) (padded pathMax t) where
  name := by rw [fromUserPath, cstr_copyFromUser ht hlt, cstr_padded ht]
  size := length_fromUserPath _
  size' := length_padded (Nat.le_trans (Nat.le_of_lt hlt) (by decide))
  relative h := hs ((headD_fromUserPath hlt behind).mp h)
  relative' h := hs ((headD_padded t).mp h)

/-- A path that stands alone in user memory, or is made absolute first, is imported as a token
is. -/
theorem doChangePath_fromUserPath {env : Env} {v : Vfs δ} {task : Task δ} {s : State}
    {p t behind : List UInt8} {op : Int} (ht : (0 : UInt8) ∉ t) (hlt : t.length < maxFromUser)
    (hzero : t.head? = some slash →
      ∀ b ∈ behind.take (maxFromUser - (t.length + 1)), b = 0) :
    doChangePath env v task p (fromUserPath (t ++ 0 :: behind)) op s =
      doChangePath env v task p (padded pathMax t) op s := by
  rcases Classical.em (t.head? = some slash) with hs | hs
  · rw [fromUserPath_zeros hlt (hzero hs)]
  · exact (sameName_fromUserPath ht hlt hs behind).doChangePath

theorem changePath_sameOutcome {env : Env} {v : Vfs δ} {task : Task δ} {s : State}
    {p t behind₁ behind₂ : List UInt8} {op : Int} (hlegal : (Command.changePath p t op).Legal)
    (hplain : (Command.changePath p t op).Plain behind₂) (halloc : task.alloc 5 = true) :
    SameOutcome ((Command.changePath p t op).viaSyscall env v task behind₁ behind₂ s)
      ((Command.changePath p t op).viaProc env v task s) := by
  obtain ⟨hp, ht⟩ : OneWord p ∧ OneWord t := hlegal.words
  rw [changePath_viaProc hlegal halloc, changePath_viaSyscall hlegal]
  cases task.alloc 4 with
  | false => exact sameOutcome_failed ..
  | true =>
    rw [if_neg (by decide), if_neg (by decide)]
    rcases Classical.em (isPathOp op) with hop | hop
    · obtain ⟨⟨hnull, hnull'⟩, ⟨hpwd, hopt, hpth⟩, ⟨hpwd', hpth', hopt'⟩, hzero⟩ := hplain hop
      have hread : readPwd p t = p := by rw [readPwd, if_neg hpwd', if_neg hpwd]
      have hseen : ¬ PathRefused p t := by
        rintro (h | h)
        · exact hnull' h.2
        · exact hnull (hread.symm.trans h)
      rw [if_neg hseen, hread, readPathname_eq ht, pathText_eq_iff.mpr ⟨hopt, hpth, hpth'⟩, readOp,
        if_neg hopt', if_pos hop, doChangePath_fromUserPath ht.nul hlegal.path_lt hzero]
      exact SameOutcome.refl _
    · obtain ⟨e, he⟩ := doChangePath_noOp env v task p (fromUserPath (t ++ 0 :: behind₂)) s hop
      have hzero : readOp t op = 0 := by rw [readOp, if_neg hop, ite_self]
      rw [he, hzero]
      split
      · exact sameOutcome_failed ..
      · obtain ⟨e', he'⟩ := doChangePath_noOp env v task (readPwd p t) (readPathname p t) s
          (by decide : ¬ isPathOp 0)
        rw [he']
        exact sameOutcome_failed ..

/-- The two ways do the same with a plain command, in every state, for every caller and in
every namespace. -/
theorem Command.Plain.sameOutcome {c : Command} {behind₁ behind₂ : List UInt8} {env : Env}
    {v : Vfs δ} {task : Task δ} {s : State} (hplain : c.Plain behind₂) (hlegal : c.Legal)
    (halloc : task.alloc 5 = true) :
    SameOutcome (c.viaSyscall env v task behind₁ behind₂ s) (c.viaProc env v task s) := by
  cases c with
  | changeState p state => exact changeState_sameOutcome hlegal hplain halloc
  | changePath p t op => exact changePath_sameOutcome hlegal hplain halloc
  | changePassword o n => exact changePassword_sameOutcome hlegal hplain halloc

end RefMonitor
