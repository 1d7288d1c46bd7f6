import RefMonitor.RestrictList
import RefMonitor.Hash

/-!
# `reference_syscalls.c` and the system calls of `reference_monitor.c`

`do_change_state`, `do_change_path` and `do_change_password` are what both interfaces end
in. Each makes its own checks, in its own order, before it changes anything. The system
calls `sys_change_*` copy a fixed number of bytes from user memory and call them.

A pointer argument of a system call is the list of bytes that can be read from it, or
`none` for `NULL`. `copy_from_user` returns the number of bytes it could not copy, which
is never negative, so the `ret < 0` checks of the source never fire.

Results: `doChangeState_cases`, `doChangePath_cases`, `doChangePassword_cases` say
everything a call can do; the later modules use these and do not unfold the functions.
-/

namespace RefMonitor
open CString

variable {δ : Type}

/-! ## The source's functions -/

/-- `(current_state & REC_ON) || (current_state & ON)`: the monitor protects. -/
def isOn (state : Nat) : Bool :=
  state &&& stateRecOn != 0 || state &&& stateOn != 0

/-- The four states a request may ask for. -/
def isState (theState : Int) : Bool :=
  theState == stateOn || theState == stateOff || theState == stateRecOn || theState == stateRecOff

def doChangeState (env : Env) (v : Vfs δ) (task : Task δ) (thePwd : List UInt8) (theState : Int)
    (s : State) : Int × State :=
  if task.euid ≠ env.admin then (fail .eperm, s)
  else if !isState theState then (fail .einval, s)
  else if checkPwd env s thePwd ≠ 0 then (fail .eacces, s)
  else if (s.currentState : Int) = theState then (fail .ecanceled, s)
  else
    let s := { s with currentState := theState.toNat }
    if isOn s.currentState then (0, { s with probes := fun _ => true })
    else (0, restoreBlackListEntries v task { s with probes := fun _ => false })

/-- The allocations are `task.alloc 0` and `1` (making the path absolute), `2` and `3` (the
new entry); the callers' path buffer is `4`. -/
def doChangePath (env : Env) (v : Vfs δ) (task : Task δ) (thePwd thePath : List UInt8) (op : Int)
    (s : State) : Except Fault (Int × State) :=
  if task.euid ≠ env.admin then .ok (fail .eperm, s)
  else if op ≠ addPathOp ∧ op ≠ removePathOp then .ok (fail .einval, s)
  else if checkPwd env s thePwd ≠ 0 then .ok (fail .eacces, s)
  else if ¬ (s.currentState = stateRecOff ∨ s.currentState = stateRecOn) then
    .ok (fail .ecanceled, s)
  else
    match fillAbsolutePath env v task task.alloc thePath with
    | .error f => .error f
    | .ok (ret, thePath) =>
      if ret ≠ 0 then .ok (ret, s)
      else if forbittenPath env thePath then .ok (fail .einval, s)
      else
        match v.kernPath task.cwd (cstr thePath) with
        | .error e => .ok (fail e, s)
        | .ok dentry =>
          if op = addPathOp then .ok (addPath v task (fun k => task.alloc (k + 2)) thePath dentry s)
          else .ok (delPath v task thePath s)

def doChangePassword (env : Env) (task : Task δ) (oldPassword newPassword : List UInt8)
    (s : State) : Int × State :=
  if task.euid ≠ env.admin then (fail .eperm, s)
  else if strlen newPassword ≤ 8 then (fail .einval, s)
  else if strcmp oldPassword newPassword = 0 then (fail .einval, s)
  else if checkPwd env s oldPassword ≠ 0 then (fail .einval, s)
  else
    match hashPlaintext env newPassword with
    | none => (-1, s)
    | some tmp => (0, { s with pwd := strncpy (memsetZero s.pwd 0 digestSize) tmp digestSize })

/-- The bytes of a `char[MAX_FROM_USER]` after `copy_from_user(…, MAX_FROM_USER)`. -/
def fromUserPassword (pointer : List UInt8) : List UInt8 :=
  copyFromUser maxFromUser maxFromUser pointer

/-- The path buffer has `PATH_MAX` bytes, but only `MAX_FROM_USER` are copied. -/
def fromUserPath (pointer : List UInt8) : List UInt8 :=
  copyFromUser pathMax maxFromUser pointer

def sysChangeState (env : Env) (v : Vfs δ) (task : Task δ) (pwd : Option (List UInt8))
    (state : Int) (s : State) : Int × State :=
  match pwd with
  | none => (fail .einval, s)
  | some pwd => doChangeState env v task (fromUserPassword pwd) state s

def sysChangePaths (env : Env) (v : Vfs δ) (task : Task δ) (pwd path : Option (List UInt8))
    (op : Int) (s : State) : Except Fault (Int × State) :=
  match pwd, path with
  | some pwd, some path =>
    if !task.alloc 4 then .ok (fail .enomem, s)
    else doChangePath env v task (fromUserPassword pwd) (fromUserPath path) op s
  | _, _ => .ok (fail .einval, s)

/-- No null check: nothing can be read from `NULL`, so the buffer stays zero. -/
def sysChangePassword (env : Env) (task : Task δ) (oldPassword newPassword : Option (List UInt8))
    (s : State) : Int × State :=
  doChangePassword env task (fromUserPassword (oldPassword.getD []))
    (fromUserPassword (newPassword.getD [])) s

/-! ## What a call can do -/

/-- The caller is the administrator and gave the password whose digest is stored. -/
def Authorised (env : Env) (task : Task δ) (password : List UInt8) (s : State) : Prop :=
  task.euid = env.admin ∧ HashMatches env s password

/-- The states in which the list may be changed. -/
def Reconfigurable (s : State) : Prop :=
  s.currentState = stateRecOff ∨ s.currentState = stateRecOn

/-- The state after a transition to `theState`. -/
def enterState (v : Vfs δ) (task : Task δ) (theState : Int) (s : State) : State :=
  if isOn theState.toNat then
    { s with currentState := theState.toNat, probes := fun _ => true }
  else
    restoreBlackListEntries v task
      { s with currentState := theState.toNat, probes := fun _ => false }

/-- `do_change_state` either fails and changes nothing, or makes the transition for an
authorised caller. -/
theorem doChangeState_cases {env : Env} {v : Vfs δ} {task : Task δ} {thePwd : List UInt8}
    {theState r : Int} {s s' : State} (h : doChangeState env v task thePwd theState s = (r, s')) :
    (r < 0 ∧ s' = s) ∨
    (r = 0 ∧ Authorised env task thePwd s ∧ isState theState = true ∧
      (s.currentState : Int) ≠ theState ∧ s' = enterState v task theState s) := by
  unfold doChangeState at h
  split at h
  · obtain ⟨rfl, rfl⟩ := Prod.mk.inj h
    exact .inl ⟨fail_neg _, rfl⟩
  · next hadmin =>
    split at h
    · obtain ⟨rfl, rfl⟩ := Prod.mk.inj h
      exact .inl ⟨fail_neg _, rfl⟩
    · next hstate =>
      split at h
      · obtain ⟨rfl, rfl⟩ := Prod.mk.inj h
        exact .inl ⟨fail_neg _, rfl⟩
      · next hpwd =>
        split at h
        · obtain ⟨rfl, rfl⟩ := Prod.mk.inj h
          exact .inl ⟨fail_neg _, rfl⟩
        · next hsame =>
          refine .inr ?_
          have hauth : Authorised env task thePwd s :=
            ⟨not_not.mp hadmin, checkPwd_eq_zero.mp (not_not.mp hpwd)⟩
          have hvalid : isState theState = true := by simpa using hstate
          dsimp only at h
          unfold enterState
          split at h
          · next hon =>
            obtain ⟨rfl, rfl⟩ := Prod.mk.inj h
            exact ⟨rfl, hauth, hvalid, hsame, by rw [if_pos hon]⟩
          · next hoff =>
            obtain ⟨rfl, rfl⟩ := Prod.mk.inj h
            exact ⟨rfl, hauth, hvalid, hsame, by rw [if_neg hoff]⟩

/-- A request for another state by an authorised caller is carried out. -/
theorem doChangeState_succeeds {env : Env} {v : Vfs δ} {task : Task δ}
    {password : List UInt8} {state : Int} {s : State} (hauth : Authorised env task password s)
    (hstate : isState state = true) (hne : (s.currentState : Int) ≠ state) :
    ∃ s', doChangeState env v task password state s = (0, s') := by
  obtain ⟨hadmin, hmatch⟩ := hauth
  rw [doChangeState, if_neg (not_not.mpr hadmin), hstate, if_neg (by decide),
    if_neg (not_not.mpr (checkPwd_eq_zero.mpr hmatch)), if_neg hne]
  dsimp only
  split
  · exact ⟨_, rfl⟩
  · exact ⟨_, rfl⟩

/-- The request has passed every check of `do_change_path`: the text to work with and the
dentry it resolves to. -/
structure PathAccepted (env : Env) (v : Vfs δ) (task : Task δ) (thePwd thePath : List UInt8)
    (s : State) (full : List UInt8) (dentry : δ) : Prop where
  authorised : Authorised env task thePwd s
  reconfigurable : s.currentState = stateRecOff ∨ s.currentState = stateRecOn
  absolute : fillAbsolutePath env v task task.alloc thePath = .ok (0, full)
  permitted : forbittenPath env full = false
  resolves : v.kernPath task.cwd (cstr full) = .ok dentry

/-- An accepted path goes to `add_path` or `del_path`. -/
theorem PathAccepted.doChangePath {env : Env} {v : Vfs δ} {task : Task δ}
    {thePwd thePath full : List UInt8} {dentry : δ} {s : State}
    (h : PathAccepted env v task thePwd thePath s full dentry) {op : Int}
    (hop : op = addPathOp ∨ op = removePathOp) :
    doChangePath env v task thePwd thePath op s =
      if op = addPathOp then .ok (addPath v task (fun k => task.alloc (k + 2)) full dentry s)
      else .ok (delPath v task full s) := by
  obtain ⟨⟨hadmin, hpwd⟩, hrec, hfill, hforb, hk⟩ := h
  unfold RefMonitor.doChangePath
  rw [if_neg (not_not.mpr hadmin), if_neg (by rw [not_and_or, not_not, not_not]; exact hop),
    if_neg (not_not.mpr (checkPwd_eq_zero.mpr hpwd)), if_neg (not_not.mpr hrec), hfill]
  dsimp only
  rw [if_neg (not_not.mpr rfl), if_neg (by rw [hforb]; decide), hk]

/-- `do_change_path` either fails and changes nothing, or hands an accepted path to `add_path` or
`del_path`. -/
theorem doChangePath_outcome {env : Env} {v : Vfs δ} {task : Task δ} {thePwd thePath : List UInt8}
    {op r : Int} {s s' : State} (h : doChangePath env v task thePwd thePath op s = .ok (r, s')) :
    (r ≠ 0 ∧ s' = s) ∨ ∃ full dentry, PathAccepted env v task thePwd thePath s full dentry ∧
      ((op = addPathOp ∧
          addPath v task (fun k => task.alloc (k + 2)) full dentry s = (r, s')) ∨
       (op = removePathOp ∧ delPath v task full s = (r, s'))) := by
  have hfail : ∀ {r₀ : Int} {s₀ : State}, r₀ ≠ 0 → Except.ok (r₀, s₀) =
      (Except.ok (r, s') : Except Fault (Int × State)) → r ≠ 0 ∧ s' = s₀ := by
    intro r₀ s₀ hne heq
    obtain ⟨rfl, rfl⟩ := Prod.mk.inj (Except.ok.inj heq)
    exact ⟨hne, rfl⟩
  unfold doChangePath at h
  split at h
  · exact .inl (hfail (fail_ne_zero _) h)
  · next hadmin =>
    split at h
    · exact .inl (hfail (fail_ne_zero _) h)
    · next hop =>
      split at h
      · exact .inl (hfail (fail_ne_zero _) h)
      · next hpwd =>
        split at h
        · exact .inl (hfail (fail_ne_zero _) h)
        · next hrec =>
          split at h
          · exact absurd h (by simp)
          · next ret full hfill =>
            split at h
            · next hret => exact .inl (hfail hret h)
            · next hret =>
              split at h
              · exact .inl (hfail (fail_ne_zero _) h)
              · next hforb =>
                split at h
                · exact .inl (hfail (fail_ne_zero _) h)
                · next dentry hk =>
                  have hret0 : ret = 0 := not_not.mp hret
                  subst hret0
                  refine .inr ⟨full, dentry, ⟨⟨not_not.mp hadmin,
                    checkPwd_eq_zero.mp (not_not.mp hpwd)⟩, not_not.mp hrec, hfill,
                    by simpa using hforb, hk⟩, ?_⟩
                  split at h
                  · next hadd => exact .inl ⟨hadd, Except.ok.inj h⟩
                  · next hadd =>
                    refine .inr ⟨?_, Except.ok.inj h⟩
                    rw [not_and_or, not_not, not_not] at hop
                    rcases hop with hop | hop
                    · exact absurd hop hadd
                    · exact hop

/-- Whatever it returns, the list is changed only by `add_path` and `del_path`. -/
theorem doChangePath_cases {env : Env} {v : Vfs δ} {task : Task δ} {thePwd thePath : List UInt8}
    {op r : Int} {s s' : State} (h : doChangePath env v task thePwd thePath op s = .ok (r, s')) :
    s' = s ∨ ∃ full dentry, PathAccepted env v task thePwd thePath s full dentry ∧
      ((op = addPathOp ∧
          addPath v task (fun k => task.alloc (k + 2)) full dentry s = (r, s')) ∨
       (op = removePathOp ∧ delPath v task full s = (r, s'))) :=
  (doChangePath_outcome h).imp_left And.right

/-- `do_change_password` either fails and changes nothing, or stores the new digest for an
authorised caller. -/
theorem doChangePassword_cases {env : Env} {task : Task δ} {oldPassword newPassword : List UInt8}
    {r : Int} {s s' : State}
    (h : doChangePassword env task oldPassword newPassword s = (r, s')) :
    (r < 0 ∧ s' = s) ∨
    (r = 0 ∧ Authorised env task oldPassword s ∧ ∃ tmp, hashPlaintext env newPassword = some tmp ∧
      s' = { s with pwd := strncpy (memsetZero s.pwd 0 digestSize) tmp digestSize }) := by
  unfold doChangePassword at h
  split at h
  · obtain ⟨rfl, rfl⟩ := Prod.mk.inj h
    exact .inl ⟨fail_neg _, rfl⟩
  · next hadmin =>
    split at h
    · obtain ⟨rfl, rfl⟩ := Prod.mk.inj h
      exact .inl ⟨fail_neg _, rfl⟩
    · split at h
      · obtain ⟨rfl, rfl⟩ := Prod.mk.inj h
        exact .inl ⟨fail_neg _, rfl⟩
      · split at h
        · obtain ⟨rfl, rfl⟩ := Prod.mk.inj h
          exact .inl ⟨fail_neg _, rfl⟩
        · next hpwd =>
          split at h
          · obtain ⟨rfl, rfl⟩ := Prod.mk.inj h
            exact .inl ⟨by decide, rfl⟩
          · next tmp htmp =>
            obtain ⟨rfl, rfl⟩ := Prod.mk.inj h
            exact .inr ⟨rfl, ⟨not_not.mp hadmin, checkPwd_eq_zero.mp (not_not.mp hpwd)⟩,
              tmp, htmp, rfl⟩

end RefMonitor
