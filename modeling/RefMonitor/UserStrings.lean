import RefMonitor.Agreement

/-!
# The strings a system call imports

`sys_change_state`, `sys_change_paths` and `sys_change_password` copy `MAX_FROM_USER` bytes
from each pointer and go on whatever `copy_from_user` says: its result is never negative, so
the checks `ret < 0` never fire. A string with a byte that cannot be read comes in cut off
there, and a string of `MAX_FROM_USER` bytes or more (a path may have up to `PATH_MAX - 1`)
comes in cut off at that length.

A pointer is the list of bytes that can be read from it; the list ends at the first byte that
cannot be read.

Results:
1. `terminated_stringAt`: a string whose NUL is among the bytes copied is imported as it is.
2. `UserRequest.succeeds`: whatever was imported, the call works in some state.
3. `importedExactly_iff`: the requests whose strings are imported exactly, or not at all.
-/

namespace RefMonitor
open CString

/-! ## Requests -/

/-- A system call with pointers that are not `NULL`. -/
inductive UserRequest
  | changeState (pwd : List UInt8) (state : Int)
  | changePaths (pwd path : List UInt8) (op : Int)
  | changePassword (oldPassword newPassword : List UInt8)

section
variable {δ : Type} (env : Env) (v : Vfs δ) (task : Task δ) (s : State)

def UserRequest.run : UserRequest → Except Fault (Int × State)
  | .changeState pwd state => .ok (sysChangeState env v task (some pwd) state s)
  | .changePaths pwd path op => sysChangePaths env v task (some pwd) (some path) op s
  | .changePassword oldPassword newPassword =>
    .ok (sysChangePassword env task (some oldPassword) (some newPassword) s)

/-- The NUL-terminated string `t` stands at the pointer, and all of it can be read. -/
def StringAt (pointer t : List UInt8) : Prop := (0 : UInt8) ∉ t ∧ ∃ rest, pointer = t ++ 0 :: rest

/-- `do_change_*` is called with exactly the strings at the pointers. A path is handed over in
a buffer of `PATH_MAX` bytes. -/
def UserRequest.CallsExactly : UserRequest → Except Fault (Int × State) → Prop
  | .changeState pwd state, out =>
    ∃ p, StringAt pwd p ∧ out = .ok (doChangeState env v task p state s)
  | .changePaths pwd path op, out =>
    ∃ p t buf, StringAt pwd p ∧ StringAt path t ∧ t.length < pathMax ∧ buf.length = pathMax ∧
      cstr buf = t ∧ out = doChangePath env v task p buf op s
  | .changePassword oldPassword newPassword, out =>
    ∃ o n, StringAt oldPassword o ∧ StringAt newPassword n ∧
      out = .ok (doChangePassword env task o n s)

end

/-- A negative error, and nothing has changed. -/
def FailsUnchanged (s : State) (out : Except Fault (Int × State)) : Prop :=
  ∃ r, out = .ok (r, s) ∧ r < 0

def UserRequest.pointers : UserRequest → List (List UInt8)
  | .changeState pwd _ => [pwd]
  | .changePaths pwd path _ => [pwd, path]
  | .changePassword oldPassword newPassword => [oldPassword, newPassword]

/-- There is a NUL among the bytes that are copied, and all bytes up to it can be read. -/
def Terminated (pointer : List UInt8) : Prop := (0 : UInt8) ∈ pointer.take maxFromUser

/-- In every state, for every caller: the strings are imported exactly or the call fails; and
it fails when a string cannot be read up to its NUL or the NUL is not among the bytes copied. -/
def UserRequest.ImportedExactly (req : UserRequest) : Prop :=
  ∀ (δ : Type) (env : Env) (v : Vfs δ) (task : Task δ) (s : State),
    (req.CallsExactly env v task s (req.run env v task s) ∨
      FailsUnchanged s (req.run env v task s)) ∧
    ((∃ pointer ∈ req.pointers, ¬ Terminated pointer) → FailsUnchanged s (req.run env v task s))

/-- What is imported from a pointer: the bytes copied, up to the first NUL. -/
def imported (pointer : List UInt8) : List UInt8 := cstr (pointer.take maxFromUser)

/-- The request is refused in every state: the state or operation does not exist, or the new
password, as it is imported, is too short or the old one. -/
def UserRequest.Refused : UserRequest → Prop
  | .changeState _ state => isState state = false
  | .changePaths _ _ op => ¬ isPathOp op
  | .changePassword oldPassword newPassword =>
    (imported newPassword).length ≤ 8 ∨ imported oldPassword = imported newPassword

/-! ## Imported strings -/

theorem cstr_copyFromUser_eq (size : Nat) (pointer : List UInt8) :
    cstr (copyFromUser size maxFromUser pointer) = imported pointer :=
  cstr_append_zeros _ _

theorem zero_notMem_imported (pointer : List UInt8) : (0 : UInt8) ∉ imported pointer :=
  zero_notMem_cstr _

theorem length_imported_le (pointer : List UInt8) : (imported pointer).length ≤ maxFromUser :=
  Nat.le_trans (strlen_le_length _) (List.length_take_le ..)

/-- A terminated string is imported as it is. -/
theorem terminated_stringAt {pointer : List UInt8} (h : Terminated pointer) :
    StringAt pointer (imported pointer) ∧ (imported pointer).length < maxFromUser := by
  obtain ⟨t, rest, htake, ht⟩ := List.eq_append_cons_of_mem h
  have himported : imported pointer = t := by rw [imported, htake, cstr_append_zero ht]
  have hlen : (t ++ 0 :: rest).length ≤ maxFromUser := htake ▸ List.length_take_le ..
  rw [himported]
  refine ⟨⟨ht, rest ++ pointer.drop maxFromUser, ?_⟩, ?_⟩
  · rw [← List.cons_append, ← List.append_assoc, ← htake, List.take_append_drop]
  · rw [List.length_append, List.length_cons] at hlen
    omega

/-- Without a NUL among the bytes copied, the path buffer holds them and zeros. -/
theorem fromUserPath_unterminated {pointer : List UInt8} (h : ¬ Terminated pointer) :
    fromUserPath pointer = padded pathMax (imported pointer) := by
  rw [imported, cstr_eq_self h]
  rfl

/-! ## What is handed over -/

section
variable (env : Env) {δ : Type} (v : Vfs δ) (task : Task δ) (s : State)

theorem run_changeState (pwd : List UInt8) (state : Int) :
    (UserRequest.changeState pwd state).run env v task s =
      .ok (doChangeState env v task (imported pwd) state s) := by
  rw [UserRequest.run, sysChangeState, ← doChangeState_cstr, fromUserPassword, cstr_copyFromUser_eq]

theorem run_changePaths (pwd path : List UInt8) (op : Int) :
    (UserRequest.changePaths pwd path op).run env v task s =
      if !task.alloc 4 then .ok (fail .enomem, s)
      else doChangePath env v task (imported pwd) (fromUserPath path) op s := by
  rw [UserRequest.run, sysChangePaths, ← doChangePath_cstr, fromUserPassword, cstr_copyFromUser_eq]

theorem run_changePassword (oldPassword newPassword : List UInt8) :
    (UserRequest.changePassword oldPassword newPassword).run env v task s =
      .ok (doChangePassword env task (imported oldPassword) (imported newPassword) s) := by
  rw [UserRequest.run, sysChangePassword, Option.getD_some, Option.getD_some,
    ← doChangePassword_cstr, fromUserPassword, fromUserPassword, cstr_copyFromUser_eq,
    cstr_copyFromUser_eq]

end

/-! ## A state in which the call works -/

theorem pointA : PointText (ascii "/a") [] := ⟨by decide, by decide, by decide, by decide⟩

/-- Where every name resolves, the imported path becomes the text of the dentry, perhaps with
bytes of user memory behind it. -/
theorem fillAbsolutePath_imported (env : Env) (path : List UInt8) :
    ∃ out, fillAbsolutePath env (pointVfs (ascii "/a") []) pointTask pointTask.alloc
      (fromUserPath path) = .ok (0, out) ∧ ascii "/a" <+: cstr out := by
  have hlen := length_imported_le path
  have hfit : (ascii "/a").length + 1 + (imported path).length < pathMax := by
    have h2 : (ascii "/a").length = 2 := by decide
    simp only [maxFromUser, pathMax] at hlen ⊢
    omega
  have hname : pointName (ascii "/a") (imported path) ≠ [] := by
    intro h0
    have hhead := head_pointName pointA.head (imported path)
    rw [h0] at hhead
    cases hhead
  rcases Classical.em (Terminated path) with hterm | hterm
  · obtain ⟨⟨hnul, rest, hpath⟩, hlt⟩ := terminated_stringAt hterm
    rw [hpath]
    exact fillAbsolutePath_point_user pointA hnul hlt hfit hname rest
  · refine ⟨padded pathMax (ascii "/a"), ?_, ?_⟩
    · rw [fromUserPath_unterminated hterm,
        fillAbsolutePath_point pointA (zero_notMem_imported path) hfit, if_neg hname]
    · rw [cstr_padded pointA.nul]

/-- A request that is not refused for its arguments works in some state, whatever its strings
are. -/
theorem UserRequest.succeeds {req : UserRequest} (h : ¬ req.Refused) :
    ∃ (env : Env) (v : Vfs Unit) (task : Task Unit) (s s' : State),
      req.run env v task s = .ok (0, s') := by
  cases req with
  | changeState pwd state =>
    have hnul := zero_notMem_imported pwd
    have hstate : isState state = true := Bool.not_eq_false _ ▸ h
    have hauth : Authorised (pointEnv (imported pwd)) pointTask (imported pwd)
        (pointState (imported pwd) (otherState state) []) :=
      (authorised_point hnul hnul).mpr rfl
    obtain ⟨s', hs'⟩ := @doChangeState_succeeds _ _ (pointVfs (ascii "/a") []) _ _ _ _ hauth hstate
      (otherState_ne state)
    refine ⟨pointEnv (imported pwd), pointVfs (ascii "/a") [], pointTask,
      pointState (imported pwd) (otherState state) [], s', ?_⟩
    rw [run_changeState, hs']
  | changePaths pwd path op =>
    have hnul := zero_notMem_imported pwd
    have hop : isPathOp op := not_not.mp h
    -- every name leads to `/a`; `out` is what is compared with the list, so a removal needs it there
    obtain ⟨out, hfill, hstart⟩ := fillAbsolutePath_imported (pointEnv (imported pwd)) path
    have hopen : OpenText (cstr out) := OpenText.extend ⟨97, [], by decide, .inl rfl⟩ hstart
    have hne : cstr out ≠ [] := by
      intro h0
      rw [h0] at hstart
      exact absurd (List.prefix_nil.mp hstart) (by decide)
    obtain ⟨s', hs'⟩ := doChangePath_point hnul hop hfill hopen hne
    refine ⟨pointEnv (imported pwd), pointVfs (ascii "/a") [], pointTask,
      pointState (imported pwd) stateRecOn (pointList op out), s', ?_⟩
    rw [run_changePaths]
    exact hs'
  | changePassword oldPassword newPassword =>
    have ho := zero_notMem_imported oldPassword
    have hn := zero_notMem_imported newPassword
    obtain ⟨hlong, hne⟩ := not_or.mp h
    have hauth : Authorised (pointEnv (imported oldPassword)) pointTask (imported oldPassword)
        (pointState (imported oldPassword) stateOn []) :=
      (authorised_point ho ho).mpr rfl
    obtain ⟨s', hs'⟩ := doChangePassword_succeeds hauth ho hn (Nat.lt_of_not_le hlong) hne
      ⟨_, hashPlaintext_point hn⟩
    refine ⟨pointEnv (imported oldPassword), pointVfs (ascii "/a") [], pointTask,
      pointState (imported oldPassword) stateOn [], s', ?_⟩
    rw [run_changePassword, hs']

/-! ## Exact import -/

section
variable {δ : Type} {env : Env} {v : Vfs δ} {task : Task δ} {s : State}

/-- A request refused for its arguments fails everywhere. -/
theorem UserRequest.Refused.fails {req : UserRequest} (h : req.Refused) :
    FailsUnchanged s (req.run env v task s) := by
  cases req with
  | changeState pwd state =>
    obtain ⟨e, he⟩ := doChangeState_noState env v task (imported pwd) s h
    exact ⟨fail e, by rw [run_changeState, he], fail_neg e⟩
  | changePaths pwd path op =>
    rw [run_changePaths]
    cases task.alloc 4 with
    | false => exact ⟨_, rfl, fail_neg _⟩
    | true =>
      obtain ⟨e, he⟩ := doChangePath_noOp env v task (imported pwd) (fromUserPath path) s h
      exact ⟨fail e, he, fail_neg e⟩
  | changePassword oldPassword newPassword =>
    have hrefused : strlen (imported newPassword) ≤ 8 ∨
        imported oldPassword = imported newPassword := by
      rw [strlen, cstr_eq_self (zero_notMem_imported _)]
      exact h
    obtain ⟨e, he⟩ := doChangePassword_refused env task s hrefused
    exact ⟨fail e, by rw [run_changePassword, he], fail_neg e⟩

/-- Strings that are terminated are handed over exactly, unless memory is short. -/
theorem UserRequest.exact_of_terminated {req : UserRequest}
    (h : ∀ pointer ∈ req.pointers, Terminated pointer) :
    req.CallsExactly env v task s (req.run env v task s) ∨
      FailsUnchanged s (req.run env v task s) := by
  cases req with
  | changeState pwd state =>
    obtain ⟨hpwd, -⟩ := terminated_stringAt (h pwd (List.mem_cons_self ..))
    exact .inl ⟨imported pwd, hpwd, run_changeState env v task s pwd state⟩
  | changePaths pwd path op =>
    obtain ⟨hpwd, -⟩ := terminated_stringAt (h pwd (List.mem_cons_self ..))
    obtain ⟨hpath, hlt⟩ :=
      terminated_stringAt (h path (List.mem_cons_of_mem _ (List.mem_cons_self ..)))
    rw [run_changePaths]
    cases task.alloc 4 with
    | false => exact .inr ⟨_, rfl, fail_neg _⟩
    | true =>
      exact .inl ⟨imported pwd, imported path, fromUserPath path, hpwd, hpath,
        Nat.lt_trans hlt (by decide), length_fromUserPath path, cstr_copyFromUser_eq pathMax path,
        rfl⟩
  | changePassword oldPassword newPassword =>
    obtain ⟨hold, -⟩ := terminated_stringAt (h oldPassword (List.mem_cons_self ..))
    obtain ⟨hnew, -⟩ :=
      terminated_stringAt (h newPassword (List.mem_cons_of_mem _ (List.mem_cons_self ..)))
    exact .inl ⟨imported oldPassword, imported newPassword, hold, hnew,
      run_changePassword env v task s oldPassword newPassword⟩

end

/-- A system call imports its strings exactly or fails, in every state, exactly when its
arguments are refused everywhere or each of its strings has its NUL among the readable ones of
the first `MAX_FROM_USER` bytes. -/
theorem importedExactly_iff (req : UserRequest) :
    req.ImportedExactly ↔ req.Refused ∨ ∀ pointer ∈ req.pointers, Terminated pointer := by
  constructor
  · intro h
    by_contra hcond
    obtain ⟨hrefused, hterm⟩ := not_or.mp hcond
    -- nothing in the arguments stops the call, so some state lets it through
    obtain ⟨env, v, task, s, s', hrun⟩ := UserRequest.succeeds hrefused
    have hpointer : ∃ pointer ∈ req.pointers, ¬ Terminated pointer := by
      by_contra hnone
      exact hterm fun pointer hp => not_not.mp fun hn => hnone ⟨pointer, hp, hn⟩
    obtain ⟨r, hfail, hneg⟩ := (h Unit env v task s).2 hpointer
    rw [hrun] at hfail
    obtain ⟨rfl, -⟩ := Prod.mk.inj (Except.ok.inj hfail)
    exact absurd hneg (lt_irrefl 0)
  · rintro (hrefused | hterm) δ env v task s
    · exact ⟨.inr hrefused.fails, fun _ => hrefused.fails⟩
    · refine ⟨UserRequest.exact_of_terminated hterm, ?_⟩
      rintro ⟨pointer, hp, hn⟩
      exact absurd (hterm pointer hp) hn

/-- The password stands at the end of the readable memory, without a NUL behind it. -/
def unreadableEnd : UserRequest := .changeState samplePassword stateOff

/-- The call goes on with the bytes it could read, and switches the monitor off. -/
theorem unterminated_password_accepted :
    (∀ t, ¬ StringAt samplePassword t) ∧ ¬ unreadableEnd.ImportedExactly ∧
    (unreadableEnd.run sampleEnv sampleTree.vfs (sampleTask 0 0)
      (sampleState stateOn true [])).map Prod.fst = .ok 0 := by
  have hnul : (0 : UInt8) ∉ samplePassword := by decide
  have hrun : (unreadableEnd.run sampleEnv sampleTree.vfs (sampleTask 0 0)
      (sampleState stateOn true [])).map Prod.fst = .ok 0 := by decide +kernel
  refine ⟨?_, ?_, hrun⟩
  · rintro t ⟨-, rest, heq⟩
    exact hnul (heq ▸ List.mem_append_right t (List.mem_cons_self ..))
  · intro h
    obtain ⟨r, hfail, hneg⟩ := (h Nat sampleEnv sampleTree.vfs (sampleTask 0 0)
      (sampleState stateOn true [])).2
      ⟨samplePassword, List.mem_cons_self .., fun hterm => hnul (List.mem_of_mem_take hterm)⟩
    rw [hfail] at hrun
    cases hrun
    exact absurd hneg (lt_irrefl 0)

end RefMonitor
