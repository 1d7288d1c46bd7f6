import RefMonitor.Lifecycle
import RefMonitor.Defer

/-!
# The password

Init hashes the password parameter into the buffer that holds it, and `do_change_password`
replaces the stored digest. SHA-512 is a parameter; it is taken to answer always, and the texts
hashed for storing are taken to have no second preimage, which is all that is used of
injectivity. Fresh memory is zero, so that `strncpy` and `strncat` build the plaintext followed
by the salt up to its first NUL.

Results:
1. `cstr_saltText`: the text that is hashed.
2. `Accepting.checkPwd_iff`: one string is accepted.
3. `Accepting.returns_iff`, `Accepting.step`: one call.
4. `password_contract`: every run.
-/

namespace RefMonitor
open CString Run

variable {δ : Type}

/-! ## The salted text -/

/-- The plaintext followed by the salt, which a NUL among its bytes cuts short. -/
def salted (env : Env) (plaintext : List UInt8) : List UInt8 :=
  cstr plaintext ++ (cstr env.salt).take saltLength

theorem salted_inj {env : Env} {x y : List UInt8} (h : salted env x = salted env y) :
    cstr x = cstr y := List.append_cancel_right h

/-- `kmalloc` returns zeroed memory. -/
def Env.Zeroed (env : Env) : Prop := ∀ n, env.kmalloc n = List.replicate n 0

theorem cstr_saltText {env : Env} (hzero : env.Zeroed) (plaintext : List UInt8) :
    cstr (saltText env plaintext) = salted env plaintext := by
  have hfresh : cstr ((env.kmalloc (strlen plaintext + saltLength + 1)).drop (strlen plaintext)) =
      [] := by
    rw [hzero, List.drop_replicate]
    exact cstr_append_zeros [] _
  rw [cstr_saltText_eq, hfresh, List.append_nil]
  rfl

/-! ## The string that is accepted -/

/-- No other text has the digest of the salted password. -/
def Env.CollisionFree (env : Env) (password : List UInt8) : Prop :=
  ∀ text, env.sha512 text = env.sha512 (salted env password) → text = salted env password

theorem hashPlaintext_inj {env : Env} (hzero : env.Zeroed) {x password digest digest' : List UInt8}
    (hfree : env.CollisionFree password) (hx : hashPlaintext env x = some digest)
    (hp : hashPlaintext env password = some digest') (h : cstr digest = cstr digest') :
    cstr x = cstr password := by
  unfold hashPlaintext at hx hp
  rw [cstr_saltText hzero] at hx hp
  cases hsx : env.sha512 (salted env x) with
  | none => rw [hsx] at hx; cases hx
  | some hash =>
    cases hsp : env.sha512 (salted env password) with
    | none => rw [hsp] at hp; cases hp
    | some hash' =>
      rw [hsx] at hx
      rw [hsp] at hp
      cases hx
      cases hp
      rw [cstr_hash, cstr_hash] at h
      have hhash : hash = hash' := Vector.toList_inj.mp (flatMap_hexByte_inj h)
      exact salted_inj (hfree _ (by rw [hsx, hsp, hhash]))

/-- The globals, with the password they were set to last. -/
structure Watched where
  state : State
  password : List UInt8

/-- The stored digest is that of the password, and no other text has it. -/
structure Accepting (env : Env) (w : Watched) : Prop where
  stored : HashMatches env w.state w.password
  free : env.CollisionFree w.password

/-- A string is accepted exactly when it is the password. -/
def AcceptsOnly (env : Env) (w : Watched) : Prop :=
  ∀ x, checkPwd env w.state x = 0 ↔ cstr x = cstr w.password

theorem Accepting.checkPwd_iff {env : Env} (hzero : env.Zeroed) {w : Watched}
    (h : Accepting env w) : AcceptsOnly env w := by
  obtain ⟨digest, hdigest, hstored⟩ := h.stored
  intro x
  rw [checkPwd_eq_zero]
  constructor
  · rintro ⟨digest', hx, hsame⟩
    exact hashPlaintext_inj hzero h.free hx hdigest (hsame.trans hstored.symm)
  · intro hx
    refine ⟨digest, ?_, hstored⟩
    rw [← hashPlaintext_cstr, hx, hashPlaintext_cstr, hdigest]

/-! ## One call -/

structure PasswordCall (δ : Type) where
  task : Task δ
  oldPassword : List UInt8
  newPassword : List UInt8

def PasswordCall.run (env : Env) (c : PasswordCall δ) (s : State) : Int × State :=
  doChangePassword env c.task c.oldPassword c.newPassword s

/-- The call, with the new password as the current one when it returns zero. -/
def PasswordCall.step (env : Env) (w : Watched) (c : PasswordCall δ) : Except Fault Watched :=
  .ok
    { state := (c.run env w.state).2
      password := if (c.run env w.state).1 = 0 then c.newPassword else w.password }

/-- A call succeeds exactly for the administrator who gives the current password and another one
of more than eight characters; any other call leaves the digest as it was. -/
structure PasswordCall.Contract (env : Env) (w : Watched) (c : PasswordCall δ) : Prop where
  returns : (c.run env w.state).1 = 0 ↔ c.task.euid = env.admin ∧ 8 < strlen c.newPassword ∧
    cstr c.oldPassword ≠ cstr c.newPassword ∧ cstr c.oldPassword = cstr w.password
  unchanged : (c.run env w.state).1 ≠ 0 → (c.run env w.state).2.pwd = w.state.pwd

theorem Accepting.returns_iff {env : Env} (hzero : env.Zeroed) (hhash : env.Hashes) {w : Watched}
    (h : Accepting env w) (c : PasswordCall δ) :
    (c.run env w.state).1 = 0 ↔ c.task.euid = env.admin ∧ 8 < strlen c.newPassword ∧
      cstr c.oldPassword ≠ cstr c.newPassword ∧ cstr c.oldPassword = cstr w.password := by
  have hcheck := h.checkPwd_iff hzero c.oldPassword
  obtain ⟨tmp, htmp⟩ := hhash.hashPlaintext c.newPassword
  unfold PasswordCall.run doChangePassword
  split
  · next hadmin => exact ⟨fun h0 => absurd h0 (fail_ne_zero _), fun hc => absurd hc.1 hadmin⟩
  · next hadmin =>
    split
    · next hlen =>
      exact ⟨fun h0 => absurd h0 (fail_ne_zero _), fun hc => absurd hc.2.1 (Nat.not_lt.mpr hlen)⟩
    · next hlen =>
      split
      · next hsame =>
        exact ⟨fun h0 => absurd h0 (fail_ne_zero _),
          fun hc => absurd (strcmp_eq_zero.mp hsame) hc.2.2.1⟩
      · next hsame =>
        split
        · next hpwd =>
          exact ⟨fun h0 => absurd h0 (fail_ne_zero _),
            fun hc => absurd (hcheck.mpr hc.2.2.2) hpwd⟩
        · next hpwd =>
          rw [htmp]
          exact ⟨fun _ => ⟨not_not.mp hadmin, Nat.lt_of_not_le hlen,
            fun h => hsame (strcmp_eq_zero.mpr h), hcheck.mp (not_not.mp hpwd)⟩, fun _ => rfl⟩

/-- The buffer a digest is copied to holds that digest. -/
theorem cstr_stored {tmp : List UInt8} (h : strlen tmp = 128) (buf : List UInt8) :
    cstr (strncpy buf tmp digestSize) = cstr tmp := by
  have hlen : (cstr tmp).length = 128 := h
  have htake : (cstr tmp).take digestSize = cstr tmp :=
    List.take_of_length_le (by rw [hlen]; decide)
  rw [strncpy, writeAt, htake, h, List.take_zero, List.nil_append, List.append_assoc]
  exact cstr_append_zero (zero_notMem_cstr tmp) _

theorem Accepting.step {env : Env} {w w' : Watched} {c : PasswordCall δ} (h : Accepting env w)
    (hfree : env.CollisionFree c.newPassword) (hstep : c.step env w = .ok w') :
    Accepting env w' := by
  cases hstep
  cases hrun : c.run env w.state with
  | mk r s' =>
    rcases doChangePassword_cases hrun with ⟨hneg, rfl⟩ | ⟨rfl, -, tmp, htmp, rfl⟩
    · dsimp only
      rw [if_neg (Int.ne_of_lt hneg)]
      exact ⟨h.stored, h.free⟩
    · dsimp only
      rw [if_pos rfl]
      exact ⟨⟨tmp, htmp, (cstr_stored (strlen_hashPlaintext htmp) _).symm⟩, hfree⟩

theorem Accepting.contract {env : Env} (hzero : env.Zeroed) (hhash : env.Hashes) {w : Watched}
    (h : Accepting env w) (c : PasswordCall δ) : c.Contract env w := by
  refine ⟨h.returns_iff hzero hhash c, fun hr => ?_⟩
  rcases doChangePassword_cases (Prod.eta (c.run env w.state)).symm with ⟨-, hs⟩ | ⟨h0, -⟩
  · rw [hs]
  · exact absurd h0 hr

/-! ## Every run -/

/-- After a successful init, exactly one string is accepted at each moment of every run of
password changes: the parameter at first, then the new password of the last call that returned
zero. Each call meets its contract. The salt is whatever the kernel's random bytes were. -/
theorem password_contract (p : Params) (a : Answers) (table : SyscallTable)
    (inodes : Inode → Attr) (hzero : (a.env p).Zeroed) (hhash : (a.env p).Hashes) (m : Module)
    (sys : System) (hinit : referenceMonitorInit p a (insmod p table inodes) = .ok (m, sys))
    (calls : List (PasswordCall δ))
    (hfree : ∀ password ∈ p.pwd :: calls.map PasswordCall.newPassword,
      (a.env p).CollisionFree password) :
    EveryState (PasswordCall.step m.env) (AcceptsOnly m.env) ⟨sys.state, p.pwd⟩ calls ∧
    EveryStep (PasswordCall.step m.env) (fun w c => c.Contract m.env w) ⟨sys.state, p.pwd⟩
      calls := by
  obtain ⟨digest, hloads, rfl⟩ := referenceMonitorInit_ok.mp hinit
  rw [hloads.env]
  obtain ⟨hfirst, hcalls⟩ := List.forall_mem_cons.mp hfree
  -- init hashed the parameter in place
  have hstart : Accepting (a.env p)
      ⟨(loadedSystem p a table inodes m digest).state, p.pwd⟩ :=
    ⟨⟨digest, hloads.hashed, rfl⟩, hfirst⟩
  have hsteps : EveryStep (PasswordCall.step (a.env p))
      (fun _ c => (a.env p).CollisionFree c.newPassword)
      ⟨(loadedSystem p a table inodes m digest).state, p.pwd⟩ calls :=
    EveryStep.of_mem (fun c hc _ => hcalls _ (List.mem_map_of_mem hc)) _
  exact ⟨EveryState.of_inv (fun h => h.checkPwd_iff hzero) (fun h hc hs => h.step hc hs) hstart
      hsteps,
    EveryStep.of_inv (fun {w c} h _ => h.contract hzero hhash c) (fun h hc hs => h.step hc hs)
      hstart hsteps⟩

/-- A hash with two digests of their own, for two salted passwords. -/
def pickyHash (first second text : List UInt8) : Vector UInt8 64 :=
  if text = first then Vector.replicate 64 1
  else if text = second then Vector.replicate 64 2
  else Vector.replicate 64 0

def sampleNewPassword : List UInt8 := ascii "battery staple"

def sampleSalt : List UInt8 := (List.range saltLength).map fun i => UInt8.ofNat (i + 1)

def pickyAnswers : Answers :=
  { sampleAnswers with
    sha512 := fun text =>
      some (pickyHash (samplePassword ++ sampleSalt) (sampleNewPassword ++ sampleSalt) text) }

def pickyEnv : Env := pickyAnswers.env sampleParams

theorem picky_salted : salted pickyEnv sampleParams.pwd = samplePassword ++ sampleSalt ∧
    salted pickyEnv sampleNewPassword = sampleNewPassword ++ sampleSalt := by
  decide +kernel

theorem picky_collisionFree {password : List UInt8}
    (h : password = sampleParams.pwd ∨ password = sampleNewPassword) :
    pickyEnv.CollisionFree password := by
  obtain ⟨hfirst, hsecond⟩ := picky_salted
  have hne : sampleNewPassword ++ sampleSalt ≠ samplePassword ++ sampleSalt := by decide +kernel
  intro text htext
  have hhash := Option.some.inj htext
  rcases h with rfl | rfl
  · rw [hfirst] at hhash ⊢
    by_contra hother
    rw [pickyHash, if_neg hother, pickyHash, if_pos rfl] at hhash
    split at hhash
    · exact absurd hhash (by decide)
    · exact absurd hhash (by decide)
  · rw [hsecond] at hhash ⊢
    by_contra hother
    rw [pickyHash, if_neg hother, pickyHash, if_neg hne, if_pos rfl] at hhash
    split at hhash
    · exact absurd hhash (by decide)
    · exact absurd hhash (by decide)

def pickyModule : Module := { sampleModule with env := pickyEnv }

theorem picky_hashes : pickyEnv.Hashes := fun _ => Option.some_ne_none _

theorem picky_loads : ∃ digest, Loads sampleParams pickyAnswers sampleTable pickyModule digest := by
  obtain ⟨digest, hdigest⟩ := picky_hashes.hashPlaintext sampleParams.pwd
  exact ⟨digest, sample_loads.fileName, sample_loads.address, sample_loads.password, hdigest, rfl,
    sampleTable_entries, fun _ => rfl, rfl, rfl, rfl⟩

/-- `root` changes the password; before and after, one string is accepted. -/
theorem password_contract_sample : ∃ s : State,
    EveryState (PasswordCall.step pickyEnv) (AcceptsOnly pickyEnv) ⟨s, sampleParams.pwd⟩
      [⟨sampleTask 0 0, samplePassword, sampleNewPassword⟩] := by
  obtain ⟨digest, hloads⟩ := picky_loads
  have hinit := (@referenceMonitorInit_ok sampleParams pickyAnswers sampleTable
    (fun _ => ⟨0o644, 0⟩) pickyModule _).mpr ⟨digest, hloads, rfl⟩
  refine ⟨_, (password_contract sampleParams pickyAnswers sampleTable (fun _ => ⟨0o644, 0⟩)
    (fun _ => rfl) picky_hashes pickyModule _ hinit
    [⟨sampleTask 0 0, samplePassword, sampleNewPassword⟩] fun password hp => ?_).1⟩
  rcases List.mem_cons.mp hp with rfl | hp
  · exact picky_collisionFree (.inl rfl)
  · exact picky_collisionFree (.inr (List.mem_singleton.mp hp))

end RefMonitor
