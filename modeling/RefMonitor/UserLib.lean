import RefMonitor.Authorisation

/-!
# `user/lib/ref_syscall.c`: the commands of the library, and how they are read

`path_change_state`, `path_change_path` and `path_change_password` print a command line and
write it to the access point. The wrappers on the other side go over the tokens and look at
every one of them, values included, for the options: a value that starts like an option is
taken for one. This module computes, for every line the library can write, what the wrapper
hands to `do_change_state`, `do_change_path` or `do_change_password`.

Results:
1. `lineTokens_intercalate`: the tokens of a command line are the words it was printed from.
2. `readState_spec`, `readPath_spec`, `readPassword_spec`: what the wrappers read.
-/

namespace RefMonitor
open CString

variable {δ : Type}

/-! ## The library -/

def getStrState (state : Int) : List UInt8 :=
  if state = stateOn then ascii "ON"
  else if state = stateOff then ascii "OFF"
  else if state = stateRecOn then ascii "RON"
  else if state = stateRecOff then ascii "ROF"
  else ascii "-1"

def getStrPath (addOrRemove : Int) : List UInt8 :=
  if addOrRemove = addPathOp then ascii "ADPTH"
  else if addOrRemove = removePathOp then ascii "RMPTH"
  else ascii "-1"

/-- The lines the three functions write. -/
def pathChangeState (password : List UInt8) (state : Int) : List UInt8 :=
  ascii "cngst -pwd " ++ password ++ ascii " -opt " ++ getStrState state

def pathChangePath (password thePath : List UInt8) (addOrRemove : Int) : List UInt8 :=
  ascii "cngpth -pwd " ++ password ++ ascii " -pth " ++ thePath ++ ascii " -opt " ++
    getStrPath addOrRemove

def pathChangePassword (oldPassword newPassword : List UInt8) : List UInt8 :=
  ascii "cngpwd -old " ++ oldPassword ++ ascii " -new " ++ newPassword

/-- `PATH_BUFFER`, the size of the buffer a line is printed into. -/
def pathBuffer : Nat := 256

/-- A value without space, newline and NUL. -/
def OneWord (value : List UInt8) : Prop := ∀ b ∈ value, b ≠ 0 ∧ b ≠ space ∧ b ≠ newline

instance (value : List UInt8) : Decidable (OneWord value) :=
  List.decidableBAll (fun b => b ≠ 0 ∧ b ≠ space ∧ b ≠ newline) value

theorem OneWord.nul {value : List UInt8} (h : OneWord value) : (0 : UInt8) ∉ value :=
  fun h0 => (h 0 h0).1 rfl

theorem getStrState_oneWord (state : Int) : OneWord (getStrState state) := by
  unfold getStrState
  split
  · decide
  · split
    · decide
    · split
      · decide
      · split <;> decide

theorem getStrPath_oneWord (op : Int) : OneWord (getStrPath op) := by
  unfold getStrPath
  split
  · decide
  · split <;> decide

/-! ## Tokens -/

theorem newline_notMem_intercalate {words : List (List UInt8)} (h : ∀ w ∈ words, OneWord w) :
    newline ∉ [space].intercalate words := by
  induction words with
  | nil => exact List.not_mem_nil
  | cons w words ih =>
    have hw : newline ∉ w := fun hm => (h w (List.mem_cons_self ..) _ hm).2.2 rfl
    cases words with
    | nil => rwa [List.intercalate_singleton]
    | cons w' words =>
      rw [List.intercalate_cons_cons, List.mem_append, List.mem_append]
      rintro ((hm | hm) | hm)
      · exact hw hm
      · exact absurd hm (by decide)
      · exact ih (fun x hx => h x (List.mem_cons_of_mem w hx)) hm

/-- The words of a line that was printed with single spaces between them. -/
theorem lineTokens_intercalate {words : List (List UInt8)} (h : ∀ w ∈ words, OneWord w)
    (hne : words ≠ []) : lineTokens ([space].intercalate words) = words := by
  have hmap : ([space].intercalate words).map (fun c => if c = newline then 0 else c) =
      [space].intercalate words := by
    have hid : ∀ c ∈ [space].intercalate words, (if c = newline then 0 else c) = id c := by
      intro c hc
      refine if_neg ?_
      rintro rfl
      exact newline_notMem_intercalate h hc
    rw [List.map_congr_left hid, List.map_id]
  rw [lineTokens, hmap]
  exact List.splitOn_intercalate space (fun w hw hm => (h w hw _ hm).2.1 rfl) hne

def stateWords (password : List UInt8) (state : Int) : List (List UInt8) :=
  [changeStateCmd, pwdKey, password, optKey, getStrState state]

def pathWords (password thePath : List UInt8) (op : Int) : List (List UInt8) :=
  [changePathCmd, pwdKey, password, pthKey, thePath, optKey, getStrPath op]

def passwordWords (oldPassword newPassword : List UInt8) : List (List UInt8) :=
  [changePasswordCmd, oldPwdKey, oldPassword, newPwdKey, newPassword]

theorem pathChangeState_eq (password : List UInt8) (state : Int) :
    pathChangeState password state = [space].intercalate (stateWords password state) := by
  simp [pathChangeState, stateWords, List.intercalate_cons_cons, List.intercalate_singleton]
  rfl

theorem pathChangePath_eq (password thePath : List UInt8) (op : Int) :
    pathChangePath password thePath op = [space].intercalate (pathWords password thePath op) := by
  simp [pathChangePath, pathWords, List.intercalate_cons_cons, List.intercalate_singleton]
  rfl

theorem pathChangePassword_eq (oldPassword newPassword : List UInt8) :
    pathChangePassword oldPassword newPassword =
      [space].intercalate (passwordWords oldPassword newPassword) := by
  simp [pathChangePassword, passwordWords, List.intercalate_cons_cons, List.intercalate_singleton]
  rfl

/-! ## Options among the tokens -/

/-- An option, as it is compared: four bytes, none of them NUL. -/
structure IsOption (key : List UInt8) : Prop where
  nul : (0 : UInt8) ∉ key
  length : key.length = 4
  lower : ∃ b ∈ key, 97 ≤ b ∧ b ≤ 122

theorem pwdKey_isOption : IsOption pwdKey := ⟨by decide, by decide, by decide⟩
theorem optKey_isOption : IsOption optKey := ⟨by decide, by decide, by decide⟩
theorem pthKey_isOption : IsOption pthKey := ⟨by decide, by decide, by decide⟩
theorem oldPwdKey_isOption : IsOption oldPwdKey := ⟨by decide, by decide, by decide⟩
theorem newPwdKey_isOption : IsOption newPwdKey := ⟨by decide, by decide, by decide⟩

/-- A token is taken for an option when it starts with it. -/
theorem isKey_eq {argv : List (List UInt8)} {i : Nat} {token key : List UInt8}
    (hget : argv.getD i [] = token) (ht : (0 : UInt8) ∉ token) (hk : IsOption key) :
    isKey argv i key = decide (key <+: token) := by
  have hiff : strncmp 4 token key = 0 ↔ key <+: token := by
    rw [strncmp_eq_zero, cstr_eq_self ht, cstr_eq_self hk.nul,
      List.take_of_length_le (Nat.le_of_eq hk.length), List.prefix_iff_eq_take, hk.length]
    exact eq_comm
  rw [isKey, hget, Bool.eq_iff_iff, beq_iff_eq, decide_eq_true_eq, hiff]

theorem isKey_parsed {argv : List (List UInt8)} {i : Nat} {token key : List UInt8}
    (hget : argv.getD i [] = parsedToken token) (hk : IsOption key) :
    isKey argv i key = false := by
  have hne : strncmp 4 (parsedToken token) key ≠ 0 :=
    not_isKey_parsedToken (cstr_eq_self hk.nul) hk.length hk.lower
  rw [isKey, hget]
  exact beq_eq_false_iff_ne.mpr hne

/-- No token starts with two options. -/
theorem IsOption.unique {key key' token : List UInt8} (hk : IsOption key) (hk' : IsOption key')
    (hne : key ≠ key') (h : key <+: token) : ¬ key' <+: token := by
  intro h'
  rw [List.prefix_iff_eq_take, hk.length] at h
  rw [List.prefix_iff_eq_take, hk'.length] at h'
  exact hne (h.trans h'.symm)

/-! ## One token -/

section
variable {i : Nat} {argv : List (List UInt8)} {first second : Option Nat} {op : Int}
  {pathname : List UInt8}

theorem scanOpt_eq {token : List UInt8} {o : Nat} (hlt : i + 1 < argv.length)
    (hget : argv.getD (i + 1) [] = token) (hparse : parseOpt token = .ok o) :
    scanOpt ⟨argv, first, second, op, pathname⟩ i =
      .ok ⟨argv.set (i + 1) (parsedToken token), first, second, o, pathname⟩ := by
  simp only [scanOpt, nextArg, if_pos hlt, hget, hparse]

theorem scanState_value (h : isKey argv i pwdKey = false) (h' : isKey argv i optKey = false) :
    scanState i ⟨argv, first, second, op, pathname⟩ = .ok ⟨argv, first, second, op, pathname⟩ := by
  simp only [scanState, h, h', Bool.false_eq_true, if_false]

theorem scanState_pwd (h : isKey argv i pwdKey = true) (h' : isKey argv i optKey = false) :
    scanState i ⟨argv, first, second, op, pathname⟩ =
      .ok ⟨argv, nextArg argv i, second, op, pathname⟩ := by
  simp only [scanState, h, h', Bool.false_eq_true, if_true, if_false]

theorem scanState_opt {token : List UInt8} {o : Nat} (h : isKey argv i pwdKey = false)
    (h' : isKey argv i optKey = true) (hlt : i + 1 < argv.length)
    (hget : argv.getD (i + 1) [] = token) (hparse : parseOpt token = .ok o) :
    scanState i ⟨argv, first, second, op, pathname⟩ =
      .ok ⟨argv.set (i + 1) (parsedToken token), first, second, o, pathname⟩ := by
  simp only [scanState, h, h', Bool.false_eq_true, if_true, if_false]
  exact scanOpt_eq hlt hget hparse

end

theorem loopState_next {n i : Nat} {st st' : Scan} (h : scanState i st = .ok st') :
    loopState (n + 1) i st = loopState n (i + 1) st' := by
  rw [loopState_succ, h]

theorem strcmp_nullText {token : List UInt8} (ht : (0 : UInt8) ∉ token) :
    strcmp token nullText = 0 ↔ token = nullText := by
  rw [strcmp_eq_zero, cstr_eq_self ht]
  rfl

theorem givenArg_token {argv : List (List UInt8)} {j : Nat} {token : List UInt8}
    (hget : argv.getD j [] = token) (ht : (0 : UInt8) ∉ token) :
    givenArg argv (some j) = if token = nullText then none else some token := by
  simp only [givenArg, argString, hget, strcmp_nullText ht, cstr_eq_self ht]

/-! ## `cngst` -/

/-- The word of a state is parsed to the state, that of anything else to zero. -/
theorem parseOpt_getStrState (state : Int) :
    ∃ o : Nat, parseOpt (getStrState state) = .ok o ∧ (o : Int) = if isState state then state else 0 := by
  unfold getStrState isState
  split
  · next h => subst h; exact ⟨stateOn, rfl, rfl⟩
  · split
    · next h => subst h; exact ⟨stateOff, rfl, rfl⟩
    · split
      · next h => subst h; exact ⟨stateRecOn, rfl, rfl⟩
      · split
        · next h => subst h; exact ⟨stateRecOff, rfl, rfl⟩
        · next h1 h2 h3 h4 =>
          rw [if_neg (by simp [h1, h2, h3, h4])]
          exact ⟨0, rfl, rfl⟩

theorem getStrState_value (state : Int) :
    ¬ pwdKey <+: getStrState state ∧ ¬ optKey <+: getStrState state := by
  unfold getStrState
  split
  · decide
  · split
    · decide
    · split
      · decide
      · split <;> decide

/-- What the wrapper of `cngst` takes for the password and the state. -/
def readState (password : List UInt8) (state : Int) : List UInt8 × Int :=
  (if pwdKey <+: password then optKey else password,
   if optKey <+: password then 0 else if isState state then state else 0)

theorem readState_nul {password : List UInt8} (hp : OneWord password) (state : Int) :
    (0 : UInt8) ∉ (readState password state).1 := by
  unfold readState
  dsimp only
  split
  · decide
  · exact hp.nul

/-- The scan of `cngst` from its `-opt` on. -/
theorem loopState_opt (p : List UInt8) (state : Int) (first : Option Nat) (op : Int)
    (buf : List UInt8) :
    loopState 2 2 ⟨[pwdKey, p, optKey, getStrState state], first, none, op, buf⟩ =
      .ok ⟨[pwdKey, p, optKey, parsedToken (getStrState state)], first, none,
        if isState state then state else 0, buf⟩ := by
  obtain ⟨o, hparse, hop⟩ := parseOpt_getStrState state
  rw [← hop]
  calc loopState 2 2 ⟨[pwdKey, p, optKey, getStrState state], first, none, op, buf⟩
    _ = loopState 1 3 ⟨[pwdKey, p, optKey, parsedToken (getStrState state)], first, none, o, buf⟩ :=
      loopState_next (scanState_opt rfl rfl (Nat.lt_succ_self 3) rfl hparse)
    _ = .ok ⟨[pwdKey, p, optKey, parsedToken (getStrState state)], first, none, o, buf⟩ :=
      loopState_next (scanState_value (isKey_parsed rfl pwdKey_isOption)
        (isKey_parsed rfl optKey_isOption))

/-- The scan of the tokens of `cngst`. -/
theorem loopState_words {p : List UInt8} (hp : OneWord p) (state : Int) (buf : List UInt8) :
    ∃ argv first, loopState 4 0 ⟨[pwdKey, p, optKey, getStrState state], none, none, -1, buf⟩ =
        .ok ⟨argv, some first, none, (readState p state).2, buf⟩ ∧
      argv.getD first [] = (readState p state).1 := by
  set w := getStrState state with hw
  have hkey : ∀ {key}, IsOption key → isKey [pwdKey, p, optKey, w] 1 key = decide (key <+: p) :=
    fun hk => isKey_eq rfl hp.nul hk
  have h0 : loopState 4 0 ⟨[pwdKey, p, optKey, w], none, none, -1, buf⟩ =
      loopState 3 1 ⟨[pwdKey, p, optKey, w], some 1, none, -1, buf⟩ :=
    loopState_next (scanState_pwd rfl rfl)
  unfold readState
  rw [h0]
  rcases Classical.em (pwdKey <+: p) with hpwd | hpwd
  · -- the password is taken for the option, and `-opt` for the password
    have hopt : ¬ optKey <+: p := pwdKey_isOption.unique optKey_isOption (by decide) hpwd
    rw [if_pos hpwd, if_neg hopt]
    refine ⟨[pwdKey, p, optKey, parsedToken w], 2, ?_, rfl⟩
    calc loopState 3 1 ⟨[pwdKey, p, optKey, w], some 1, none, -1, buf⟩
      _ = loopState 2 2 ⟨[pwdKey, p, optKey, w], some 2, none, -1, buf⟩ :=
        loopState_next (scanState_pwd ((hkey pwdKey_isOption).trans (decide_eq_true hpwd))
          ((hkey optKey_isOption).trans (decide_eq_false hopt)))
      _ = _ := loopState_opt ..
  · rw [if_neg hpwd]
    rcases Classical.em (optKey <+: p) with hopt | hopt
    · -- `-opt` is parsed as a state and is no option any more
      obtain ⟨hw1, hw2⟩ := getStrState_value state
      have hkeyw : ∀ {key}, IsOption key → isKey [pwdKey, p, parsedToken optKey, w] 3 key =
          decide (key <+: w) := fun hk => isKey_eq rfl (getStrState_oneWord state).nul hk
      rw [if_pos hopt]
      refine ⟨[pwdKey, p, parsedToken optKey, w], 1, ?_, rfl⟩
      calc loopState 3 1 ⟨[pwdKey, p, optKey, w], some 1, none, -1, buf⟩
        _ = loopState 2 2 ⟨[pwdKey, p, parsedToken optKey, w], some 1, none, 0, buf⟩ :=
          loopState_next (scanState_opt ((hkey pwdKey_isOption).trans (decide_eq_false hpwd))
            ((hkey optKey_isOption).trans (decide_eq_true hopt)) (by simp) rfl rfl)
        _ = loopState 1 3 ⟨[pwdKey, p, parsedToken optKey, w], some 1, none, 0, buf⟩ :=
          loopState_next (scanState_value (isKey_parsed rfl pwdKey_isOption)
            (isKey_parsed rfl optKey_isOption))
        _ = .ok ⟨[pwdKey, p, parsedToken optKey, w], some 1, none, 0, buf⟩ :=
          loopState_next (scanState_value ((hkeyw pwdKey_isOption).trans (decide_eq_false hw1))
            ((hkeyw optKey_isOption).trans (decide_eq_false hw2)))
    · rw [if_neg hopt]
      refine ⟨[pwdKey, p, optKey, parsedToken w], 1, ?_, rfl⟩
      calc loopState 3 1 ⟨[pwdKey, p, optKey, w], some 1, none, -1, buf⟩
        _ = loopState 2 2 ⟨[pwdKey, p, optKey, w], some 1, none, -1, buf⟩ :=
          loopState_next (scanState_value ((hkey pwdKey_isOption).trans (decide_eq_false hpwd))
            ((hkey optKey_isOption).trans (decide_eq_false hopt)))
        _ = _ := loopState_opt ..

/-- What the wrapper of `cngst` does with a line of the library. -/
theorem readState_spec {env : Env} {v : Vfs δ} {task : Task δ} {s : State}
    {password : List UInt8} (hp : OneWord password) (state : Int) :
    changeStateVfsSysWrapper env v task (stateWords password state).tail 4 s =
      if (readState password state).1 = nullText then .ok (fail .einval, s)
      else .ok (doChangeState env v task (readState password state).1
        (readState password state).2 s) := by
  obtain ⟨argv, first, hloop, hget⟩ := loopState_words hp state (List.replicate pathMax 0)
  have hgiven := givenArg_token hget (readState_nul hp state)
  have hscan : loopState (stateWords password state).tail.length 0
      (scanInit (stateWords password state).tail) = .ok _ := hloop
  rw [changeStateVfsSysWrapper, if_neg (by decide), hscan]
  dsimp only
  rw [hgiven]
  rcases Classical.em ((readState password state).1 = nullText) with hnull | hnull
  · rw [if_pos hnull, if_pos hnull]
  · rw [if_neg hnull, if_neg hnull]

/-! ## `cngpwd` -/

/-- What the wrapper of `cngpwd` takes for the old password, or that it refuses. -/
def readOld (oldPassword newPassword : List UInt8) : Option (List UInt8) :=
  if oldPwdKey <+: newPassword then none
  else if oldPwdKey <+: oldPassword then some newPwdKey
  else if oldPassword = nullText then none
  else some oldPassword

def readNew (newPassword : List UInt8) : Option (List UInt8) :=
  if newPwdKey <+: newPassword then none
  else if newPassword = nullText then none
  else some newPassword

theorem readOld_some {o n old : List UInt8} (h : readOld o n = some old) :
    ¬ oldPwdKey <+: n ∧ ((oldPwdKey <+: o ∧ old = newPwdKey) ∨
      (¬ oldPwdKey <+: o ∧ o ≠ nullText ∧ old = o)) := by
  unfold readOld at h
  split at h
  · exact absurd h (by simp)
  · next hn =>
    refine ⟨hn, ?_⟩
    split at h
    · next ho => exact .inl ⟨ho, (Option.some.inj h).symm⟩
    · next ho =>
      split at h
      · exact absurd h (by simp)
      · next hnull => exact .inr ⟨ho, hnull, (Option.some.inj h).symm⟩

theorem readNew_some {n new : List UInt8} (h : readNew n = some new) :
    ¬ newPwdKey <+: n ∧ new = n := by
  unfold readNew at h
  split at h
  · exact absurd h (by simp)
  · next hn =>
    split at h
    · exact absurd h (by simp)
    · exact ⟨hn, (Option.some.inj h).symm⟩

theorem scanPassword_eq (i : Nat) (argv : List (List UInt8)) (first second : Option Nat) (op : Int)
    (buf : List UInt8) :
    scanPassword i ⟨argv, first, second, op, buf⟩ =
      ⟨argv, if isKey argv i oldPwdKey then nextArg argv i else first,
        if isKey argv i newPwdKey then nextArg argv i else second, op, buf⟩ := by
  unfold scanPassword
  cases hold : isKey argv i oldPwdKey with
  | true =>
    cases hnew : isKey argv i newPwdKey with
    | true => simp only [hnew, if_true]
    | false => simp only [hnew, if_true, Bool.false_eq_true, if_false]
  | false =>
    cases hnew : isKey argv i newPwdKey with
    | true => simp only [hnew, if_true, Bool.false_eq_true, if_false]
    | false => simp only [hnew, Bool.false_eq_true, if_false]

/-- The scan of the tokens of `cngpwd`: a value that is taken for an option moves a pointer,
and the last value moves it to the `NULL` behind the tokens. -/
theorem loopPassword_words {o n : List UInt8} (ho : OneWord o) (hn : OneWord n) (buf : List UInt8) :
    loopPassword 4 0 ⟨[oldPwdKey, o, newPwdKey, n], none, none, -1, buf⟩ =
      ⟨[oldPwdKey, o, newPwdKey, n],
        if oldPwdKey <+: n then none else if oldPwdKey <+: o then some 2 else some 1,
        if newPwdKey <+: n then none else some 3, -1, buf⟩ := by
  have hkeyo : isKey [oldPwdKey, o, newPwdKey, n] 1 oldPwdKey = decide (oldPwdKey <+: o) :=
    isKey_eq rfl ho.nul oldPwdKey_isOption
  have hkeyn : ∀ {key}, IsOption key → isKey [oldPwdKey, o, newPwdKey, n] 3 key =
      decide (key <+: n) := fun hk => isKey_eq rfl hn.nul hk
  have h0 : isKey [oldPwdKey, o, newPwdKey, n] 0 oldPwdKey = true := rfl
  have h2 : isKey [oldPwdKey, o, newPwdKey, n] 2 oldPwdKey = false := rfl
  have h2' : isKey [oldPwdKey, o, newPwdKey, n] 2 newPwdKey = true := rfl
  simp only [loopPassword, scanPassword_eq, Nat.zero_add, Nat.reduceAdd, h0, h2, h2', hkeyo,
    hkeyn oldPwdKey_isOption, hkeyn newPwdKey_isOption, decide_eq_true_eq, if_true,
    Bool.false_eq_true, if_false]
  rfl

theorem givenArg_old {o n : List UInt8} (ho : OneWord o) :
    givenArg [oldPwdKey, o, newPwdKey, n]
      (if oldPwdKey <+: n then none else if oldPwdKey <+: o then some 2 else some 1) =
      readOld o n := by
  unfold readOld
  split
  · rfl
  · split
    · have hgiven : givenArg [oldPwdKey, o, newPwdKey, n] (some 2) =
          if newPwdKey = nullText then none else some newPwdKey :=
        givenArg_token rfl newPwdKey_isOption.nul
      exact hgiven.trans (if_neg (by decide))
    · exact givenArg_token rfl ho.nul

theorem givenArg_new {o n : List UInt8} (hn : OneWord n) :
    givenArg [oldPwdKey, o, newPwdKey, n] (if newPwdKey <+: n then none else some 3) =
      readNew n := by
  unfold readNew
  split
  · rfl
  · exact givenArg_token rfl hn.nul

/-- What the wrapper of `cngpwd` does with a line of the library. -/
theorem readPassword_spec {env : Env} {task : Task δ} {s : State} {o n : List UInt8}
    (ho : OneWord o) (hn : OneWord n) :
    changePasswordVfsSysWrapper env task (passwordWords o n).tail 4 s =
      match readOld o n, readNew n with
      | some old, some new => .ok (doChangePassword env task old new s)
      | _, _ => .ok (fail .einval, s) := by
  have hscan : loopPassword (passwordWords o n).tail.length 0
      (scanInit (passwordWords o n).tail) = _ := loopPassword_words ho hn (List.replicate pathMax 0)
  rw [changePasswordVfsSysWrapper, if_neg (by decide), hscan]
  dsimp only
  rw [givenArg_old ho, givenArg_new hn]
  cases readOld o n with
  | none => rfl
  | some old =>
    cases readNew n with
    | none => rfl
    | some new => rfl

/-! ## `cngpth` -/

section
variable {i : Nat} {argv : List (List UInt8)} {first second : Option Nat} {op : Int}
  {pathname : List UInt8}

/-- `strncpy(pathname, value, strlen(value))`. -/
def copyOver (pathname value : List UInt8) : List UInt8 := strncpy pathname value (strlen value)

theorem scanPath_value (h : isKey argv i pwdKey = false) (h' : isKey argv i pthKey = false)
    (h'' : isKey argv i optKey = false) :
    scanPath i ⟨argv, first, second, op, pathname⟩ =
      .ok (.ok ⟨argv, first, second, op, pathname⟩) := by
  unfold scanPath
  simp only [h, h', h'', Bool.false_eq_true, if_false]

theorem scanPath_pwd (h : isKey argv i pwdKey = true) (h' : isKey argv i pthKey = false)
    (h'' : isKey argv i optKey = false) :
    scanPath i ⟨argv, first, second, op, pathname⟩ =
      .ok (.ok ⟨argv, nextArg argv i, second, op, pathname⟩) := by
  unfold scanPath
  simp only [h, h', h'', Bool.false_eq_true, if_true, if_false]

theorem scanPath_opt {token : List UInt8} {o : Nat} (h : isKey argv i pwdKey = false)
    (h' : isKey argv i pthKey = false) (h'' : isKey argv i optKey = true)
    (hlt : i + 1 < argv.length) (hget : argv.getD (i + 1) [] = token)
    (hparse : parseOpt token = .ok o) :
    scanPath i ⟨argv, first, second, op, pathname⟩ =
      .ok (.ok ⟨argv.set (i + 1) (parsedToken token), first, second, o, pathname⟩) := by
  unfold scanPath
  simp only [h, h', h'', Bool.false_eq_true, if_true, if_false, scanOpt_eq hlt hget hparse]

theorem scanPath_null (h : isKey argv i pwdKey = false) (h' : isKey argv i pthKey = true)
    (hlt : i + 1 < argv.length) (hget : argv.getD (i + 1) [] = nullText) :
    scanPath i ⟨argv, first, second, op, pathname⟩ = .ok (.error .einval) := by
  have hnull : strcmp nullText nullText = 0 := rfl
  unfold scanPath
  simp only [h, h', Bool.false_eq_true, if_true, if_false, scanPth, nextArg, if_pos hlt,
    hget, hnull]

theorem scanPath_pth {token : List UInt8} (h : isKey argv i pwdKey = false)
    (h' : isKey argv i pthKey = true) (h'' : isKey argv i optKey = false)
    (hlt : i + 1 < argv.length) (hget : argv.getD (i + 1) [] = token) (ht : (0 : UInt8) ∉ token)
    (hnull : token ≠ nullText) (hlen : token.length ≤ pathMax) :
    scanPath i ⟨argv, first, second, op, pathname⟩ =
      .ok (.ok ⟨argv, first, second, op, copyOver pathname token⟩) := by
  have hcmp : ¬ strcmp token nullText = 0 := fun h0 => hnull ((strcmp_nullText ht).mp h0)
  have hfit : ¬ pathMax < strlen token := by
    rw [strlen, cstr_eq_self ht]
    exact Nat.not_lt_of_le hlen
  unfold scanPath
  simp only [h, h', h'', Bool.false_eq_true, if_true, if_false, scanPth, nextArg,
    if_pos hlt, hget, if_neg hcmp, if_neg hfit, copyOver]

end

theorem loopPath_next {n i : Nat} {st st' : Scan} (h : scanPath i st = .ok (.ok st')) :
    loopPath (n + 1) i st = loopPath n (i + 1) st' := by
  rw [loopPath_succ, h]

theorem loopPath_stop {n i : Nat} {st : Scan} {e : Errno} (h : scanPath i st = .ok (.error e)) :
    loopPath (n + 1) i st = .ok (.error e) := by
  rw [loopPath_succ, h]

/-- The operations `do_change_path` knows. -/
def isPathOp (op : Int) : Prop := op = addPathOp ∨ op = removePathOp

instance (op : Int) : Decidable (isPathOp op) := inferInstanceAs (Decidable (_ ∨ _))

theorem parseOpt_getStrPath (op : Int) :
    ∃ o : Nat, parseOpt (getStrPath op) = .ok o ∧ (o : Int) = if isPathOp op then op else 0 := by
  unfold getStrPath
  split
  · next h => subst h; exact ⟨addPathOp, rfl, rfl⟩
  · split
    · next h => subst h; exact ⟨removePathOp, rfl, rfl⟩
    · next h1 h2 =>
      have hno : ¬ isPathOp op := not_or.mpr ⟨h1, h2⟩
      rw [if_neg hno]
      exact ⟨0, rfl, rfl⟩

theorem getStrPath_value (op : Int) : ¬ pwdKey <+: getStrPath op ∧ ¬ pthKey <+: getStrPath op ∧
    ¬ optKey <+: getStrPath op := by
  unfold getStrPath
  split
  · decide
  · split <;> decide

/-- What the wrapper of `cngpth` takes for the password, the operation and the path buffer. -/
def readPwd (password thePath : List UInt8) : List UInt8 :=
  if pwdKey <+: thePath then optKey else if pwdKey <+: password then pthKey else password

def readOp (thePath : List UInt8) (op : Int) : Int :=
  if optKey <+: thePath then 0 else if isPathOp op then op else 0

def readPathname (password thePath : List UInt8) : List UInt8 :=
  let zeros := List.replicate pathMax 0
  let first := if pthKey <+: password then copyOver zeros pthKey else zeros
  let second := if optKey <+: password then first else copyOver first thePath
  if pthKey <+: thePath then copyOver second optKey else second

/-- The scan of `cngpth` from its `-opt` on. -/
theorem loopPath_opt (a b c t : List UInt8) (op : Int) (first : Option Nat) (o : Int)
    (buf : List UInt8) :
    loopPath 2 4 ⟨[a, b, c, t, optKey, getStrPath op], first, none, o, buf⟩ =
      .ok (.ok ⟨[a, b, c, t, optKey, parsedToken (getStrPath op)], first, none,
        if isPathOp op then op else 0, buf⟩) := by
  obtain ⟨o', hparse, hop⟩ := parseOpt_getStrPath op
  rw [← hop]
  calc loopPath 2 4 ⟨[a, b, c, t, optKey, getStrPath op], first, none, o, buf⟩
    _ = loopPath 1 5 ⟨[a, b, c, t, optKey, parsedToken (getStrPath op)], first, none, o', buf⟩ :=
      loopPath_next (scanPath_opt rfl rfl rfl (Nat.lt_succ_self 5) rfl hparse)
    _ = .ok (.ok ⟨[a, b, c, t, optKey, parsedToken (getStrPath op)], first, none, o', buf⟩) :=
      loopPath_next (scanPath_value (isKey_parsed rfl pwdKey_isOption)
        (isKey_parsed rfl pthKey_isOption) (isKey_parsed rfl optKey_isOption))

/-- The scan of `cngpth` from its path on: `first` and `buf` are what the scan has so far. -/
theorem loopPath_path {t : List UInt8} (ht : OneWord t) (a b c : List UInt8) (op : Int)
    (first : Nat) (o : Int) (buf : List UInt8) :
    ∃ e w, loopPath 3 3 ⟨[a, b, c, t, optKey, getStrPath op], some first, none, o, buf⟩ =
        .ok (.ok ⟨[a, b, c, t, e, w], some (if pwdKey <+: t then 4 else first), none, readOp t op,
          if pthKey <+: t then copyOver buf optKey else buf⟩) ∧
      (pwdKey <+: t → e = optKey) := by
  set w := getStrPath op with hw
  have hkey : ∀ {key}, IsOption key → isKey [a, b, c, t, optKey, w] 3 key = decide (key <+: t) :=
    fun hk => isKey_eq rfl ht.nul hk
  unfold readOp
  rcases Classical.em (pwdKey <+: t) with hpwd | hpwd
  · have hpth := pwdKey_isOption.unique pthKey_isOption (by decide) hpwd
    have hopt := pwdKey_isOption.unique optKey_isOption (by decide) hpwd
    refine ⟨optKey, parsedToken w, ?_, fun _ => rfl⟩
    rw [if_pos hpwd, if_neg hpth, if_neg hopt]
    calc loopPath 3 3 ⟨[a, b, c, t, optKey, w], some first, none, o, buf⟩
      _ = loopPath 2 4 ⟨[a, b, c, t, optKey, w], some 4, none, o, buf⟩ :=
        loopPath_next (scanPath_pwd ((hkey pwdKey_isOption).trans (decide_eq_true hpwd))
          ((hkey pthKey_isOption).trans (decide_eq_false hpth))
          ((hkey optKey_isOption).trans (decide_eq_false hopt)))
      _ = _ := loopPath_opt ..
  · rw [if_neg hpwd]
    rcases Classical.em (pthKey <+: t) with hpth | hpth
    · have hopt := pthKey_isOption.unique optKey_isOption (by decide) hpth
      refine ⟨optKey, parsedToken w, ?_, fun _ => rfl⟩
      rw [if_pos hpth, if_neg hopt]
      calc loopPath 3 3 ⟨[a, b, c, t, optKey, w], some first, none, o, buf⟩
        _ = loopPath 2 4 ⟨[a, b, c, t, optKey, w], some first, none, o, copyOver buf optKey⟩ :=
          loopPath_next (scanPath_pth ((hkey pwdKey_isOption).trans (decide_eq_false hpwd))
            ((hkey pthKey_isOption).trans (decide_eq_true hpth))
            ((hkey optKey_isOption).trans (decide_eq_false hopt)) (by simp) rfl
            optKey_isOption.nul (by decide) (by decide))
        _ = _ := loopPath_opt ..
    · rw [if_neg hpth]
      rcases Classical.em (optKey <+: t) with hopt | hopt
      · -- `-opt` is parsed as an operation and is no option any more
        obtain ⟨hw1, hw2, hw3⟩ := getStrPath_value op
        have hkeyw : ∀ {key}, IsOption key → isKey [a, b, c, t, parsedToken optKey, w] 5 key =
            decide (key <+: w) := fun hk => isKey_eq rfl (getStrPath_oneWord op).nul hk
        refine ⟨parsedToken optKey, w, ?_, fun h => absurd h hpwd⟩
        rw [if_pos hopt]
        calc loopPath 3 3 ⟨[a, b, c, t, optKey, w], some first, none, o, buf⟩
          _ = loopPath 2 4 ⟨[a, b, c, t, parsedToken optKey, w], some first, none, 0, buf⟩ :=
            loopPath_next (scanPath_opt ((hkey pwdKey_isOption).trans (decide_eq_false hpwd))
              ((hkey pthKey_isOption).trans (decide_eq_false hpth))
              ((hkey optKey_isOption).trans (decide_eq_true hopt)) (by simp) rfl rfl)
          _ = loopPath 1 5 ⟨[a, b, c, t, parsedToken optKey, w], some first, none, 0, buf⟩ :=
            loopPath_next (scanPath_value (isKey_parsed rfl pwdKey_isOption)
              (isKey_parsed rfl pthKey_isOption) (isKey_parsed rfl optKey_isOption))
          _ = .ok (.ok ⟨[a, b, c, t, parsedToken optKey, w], some first, none, 0, buf⟩) :=
            loopPath_next (scanPath_value ((hkeyw pwdKey_isOption).trans (decide_eq_false hw1))
              ((hkeyw pthKey_isOption).trans (decide_eq_false hw2))
              ((hkeyw optKey_isOption).trans (decide_eq_false hw3)))
      · refine ⟨optKey, parsedToken w, ?_, fun _ => rfl⟩
        rw [if_neg hopt]
        calc loopPath 3 3 ⟨[a, b, c, t, optKey, w], some first, none, o, buf⟩
          _ = loopPath 2 4 ⟨[a, b, c, t, optKey, w], some first, none, o, buf⟩ :=
            loopPath_next (scanPath_value ((hkey pwdKey_isOption).trans (decide_eq_false hpwd))
              ((hkey pthKey_isOption).trans (decide_eq_false hpth))
              ((hkey optKey_isOption).trans (decide_eq_false hopt)))
          _ = _ := loopPath_opt ..

/-- The scan of `cngpth` up to its `-pth`, when the password does not hide that option. -/
theorem loopPath_first {p t : List UInt8} (hp : OneWord p) (op : Int) (buf : List UInt8)
    (hopt : ¬ optKey <+: p) :
    loopPath 6 0 ⟨[pwdKey, p, pthKey, t, optKey, getStrPath op], none, none, -1, buf⟩ =
      loopPath 4 2 ⟨[pwdKey, p, pthKey, t, optKey, getStrPath op],
        some (if pwdKey <+: p then 2 else 1), none, -1,
        if pthKey <+: p then copyOver buf pthKey else buf⟩ := by
  set w := getStrPath op
  have hkey : ∀ {key}, IsOption key → isKey [pwdKey, p, pthKey, t, optKey, w] 1 key =
      decide (key <+: p) := fun hk => isKey_eq rfl hp.nul hk
  have h0 : loopPath 6 0 ⟨[pwdKey, p, pthKey, t, optKey, w], none, none, -1, buf⟩ =
      loopPath 5 1 ⟨[pwdKey, p, pthKey, t, optKey, w], some 1, none, -1, buf⟩ :=
    loopPath_next (scanPath_pwd rfl rfl rfl)
  rw [h0]
  rcases Classical.em (pwdKey <+: p) with hpwd | hpwd
  · have hpth := pwdKey_isOption.unique pthKey_isOption (by decide) hpwd
    rw [if_pos hpwd, if_neg hpth]
    exact loopPath_next (scanPath_pwd ((hkey pwdKey_isOption).trans (decide_eq_true hpwd))
      ((hkey pthKey_isOption).trans (decide_eq_false hpth))
      ((hkey optKey_isOption).trans (decide_eq_false hopt)))
  · rw [if_neg hpwd]
    rcases Classical.em (pthKey <+: p) with hpth | hpth
    · rw [if_pos hpth]
      exact loopPath_next (scanPath_pth ((hkey pwdKey_isOption).trans (decide_eq_false hpwd))
        ((hkey pthKey_isOption).trans (decide_eq_true hpth))
        ((hkey optKey_isOption).trans (decide_eq_false hopt)) (by simp) rfl
        pthKey_isOption.nul (by decide) (by decide))
    · rw [if_neg hpth]
      exact loopPath_next (scanPath_value ((hkey pwdKey_isOption).trans (decide_eq_false hpwd))
        ((hkey pthKey_isOption).trans (decide_eq_false hpth))
        ((hkey optKey_isOption).trans (decide_eq_false hopt)))

/-- A password that starts like `-opt` has the token `-pth` parsed as an operation; the path
is then never copied. -/
theorem loopPath_hidden {p t : List UInt8} (hp : OneWord p) (op : Int) (buf : List UInt8)
    (hopt : optKey <+: p) :
    loopPath 6 0 ⟨[pwdKey, p, pthKey, t, optKey, getStrPath op], none, none, -1, buf⟩ =
      loopPath 3 3 ⟨[pwdKey, p, parsedToken pthKey, t, optKey, getStrPath op], some 1, none, 0,
        buf⟩ := by
  set w := getStrPath op
  have hpwd := optKey_isOption.unique pwdKey_isOption (by decide) hopt
  have hpth := optKey_isOption.unique pthKey_isOption (by decide) hopt
  have hkey : ∀ {key}, IsOption key → isKey [pwdKey, p, pthKey, t, optKey, w] 1 key =
      decide (key <+: p) := fun hk => isKey_eq rfl hp.nul hk
  calc loopPath 6 0 ⟨[pwdKey, p, pthKey, t, optKey, w], none, none, -1, buf⟩
    _ = loopPath 5 1 ⟨[pwdKey, p, pthKey, t, optKey, w], some 1, none, -1, buf⟩ :=
      loopPath_next (scanPath_pwd rfl rfl rfl)
    _ = loopPath 4 2 ⟨[pwdKey, p, parsedToken pthKey, t, optKey, w], some 1, none, 0, buf⟩ :=
      loopPath_next (scanPath_opt ((hkey pwdKey_isOption).trans (decide_eq_false hpwd))
        ((hkey pthKey_isOption).trans (decide_eq_false hpth))
        ((hkey optKey_isOption).trans (decide_eq_true hopt)) (by simp) rfl rfl)
    _ = loopPath 3 3 ⟨[pwdKey, p, parsedToken pthKey, t, optKey, w], some 1, none, 0, buf⟩ :=
      loopPath_next (scanPath_value (isKey_parsed rfl pwdKey_isOption)
        (isKey_parsed rfl pthKey_isOption) (isKey_parsed rfl optKey_isOption))

/-- The scan of the tokens of `cngpth`: the text `(null)` of a path that is seen ends it. -/
theorem loopPath_refused {p : List UInt8} (hp : OneWord p) (op : Int) (hopt : ¬ optKey <+: p) :
    loopPath 6 0 (scanInit (pathWords p nullText op).tail) = .ok (.error .einval) :=
  (loopPath_first hp op _ hopt).trans (loopPath_stop (scanPath_null rfl rfl (by simp) rfl))

theorem loopPath_words {p t : List UInt8} (hp : OneWord p) (ht : OneWord t)
    (hlen : t.length ≤ pathMax) (op : Int) (hseen : optKey <+: p ∨ t ≠ nullText) :
    ∃ argv first, loopPath 6 0 (scanInit (pathWords p t op).tail) =
        .ok (.ok ⟨argv, some first, none, readOp t op, readPathname p t⟩) ∧
      argv.getD first [] = readPwd p t := by
  unfold readPathname readPwd
  dsimp only
  rcases Classical.em (optKey <+: p) with hopt | hopt
  · have hpwd := optKey_isOption.unique pwdKey_isOption (by decide) hopt
    have hpth := optKey_isOption.unique pthKey_isOption (by decide) hopt
    obtain ⟨e, w, hrest, he⟩ := loopPath_path ht pwdKey p (parsedToken pthKey) op 1 0
      (List.replicate pathMax 0)
    rw [if_neg hpth, if_pos hopt, if_neg hpwd]
    refine ⟨_, _, (loopPath_hidden hp op _ hopt).trans hrest, ?_⟩
    split
    · next h => exact he h
    · rfl
  · have hnull : t ≠ nullText := hseen.resolve_left hopt
    rw [if_neg hopt]
    set buf := if pthKey <+: p then copyOver (List.replicate pathMax 0) pthKey
      else List.replicate pathMax 0
    obtain ⟨e, w, hrest, he⟩ := loopPath_path ht pwdKey p pthKey op (if pwdKey <+: p then 2 else 1)
      (-1) (copyOver buf t)
    have hcopy : loopPath 4 2 ⟨[pwdKey, p, pthKey, t, optKey, getStrPath op],
        some (if pwdKey <+: p then 2 else 1), none, -1, buf⟩ = loopPath 3 3
        ⟨[pwdKey, p, pthKey, t, optKey, getStrPath op], some (if pwdKey <+: p then 2 else 1), none,
          -1, copyOver buf t⟩ :=
      loopPath_next (scanPath_pth rfl rfl rfl (by simp) rfl ht.nul hnull hlen)
    refine ⟨_, _, (loopPath_first hp op _ hopt).trans (hcopy.trans hrest), ?_⟩
    split
    · next h => exact he h
    · split <;> rfl

theorem readPwd_nul {p : List UInt8} (hp : OneWord p) (t : List UInt8) :
    (0 : UInt8) ∉ readPwd p t := by
  unfold readPwd
  split
  · decide
  · split
    · decide
    · exact hp.nul

/-- The wrapper of `cngpth` refuses the line: it has seen the text `(null)`. -/
def PathRefused (password thePath : List UInt8) : Prop :=
  (¬ optKey <+: password ∧ thePath = nullText) ∨ readPwd password thePath = nullText

instance (p t : List UInt8) : Decidable (PathRefused p t) := inferInstanceAs (Decidable (_ ∨ _))

/-- What the wrapper of `cngpth` does with a line of the library. -/
theorem readPath_spec {env : Env} {v : Vfs δ} {task : Task δ} {s : State} {p t : List UInt8}
    (hp : OneWord p) (ht : OneWord t) (hlen : t.length ≤ pathMax) (op : Int)
    (halloc : task.alloc 4 = true) :
    changePathVfsSysWrapper env v task (pathWords p t op).tail 6 s =
      if PathRefused p t then .ok (fail .einval, s)
      else doChangePath env v task (readPwd p t) (readPathname p t) (readOp t op) s := by
  have hlength : (pathWords p t op).tail.length = 6 := rfl
  rw [changePathVfsSysWrapper, if_neg (by decide), halloc, if_neg (by decide), hlength]
  rcases Classical.em (¬ optKey <+: p ∧ t = nullText) with hnull | hnull
  · have hrefused : PathRefused p t := .inl hnull
    obtain ⟨hopt, rfl⟩ := hnull
    rw [if_pos hrefused, loopPath_refused hp op hopt]
  · have hseen : optKey <+: p ∨ t ≠ nullText := by
      rw [not_and_or, not_not] at hnull
      exact hnull
    obtain ⟨argv, first, hloop, hget⟩ := loopPath_words hp ht hlen op hseen
    rw [hloop]
    dsimp only
    rw [givenArg_token hget (readPwd_nul hp t)]
    rcases Classical.em (readPwd p t = nullText) with hpwd | hpwd
    · have hrefused : PathRefused p t := .inr hpwd
      rw [if_pos hpwd, if_pos hrefused]
    · have hrefused : ¬ PathRefused p t := fun h => h.elim hnull hpwd
      rw [if_neg hpwd, if_neg hrefused]

end RefMonitor
