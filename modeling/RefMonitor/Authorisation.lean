import RefMonitor.PathBasedSyscall

/-!
# The authorisation gate

Requests come in over two interfaces: the three system calls, and lines written to the
access point. Whatever a request is, it may change the module's globals or the attributes of
an inode only when its caller is the administrator and it carries a password whose salted
hash is the digest stored at that moment.

For a system call the password is the string it imports. For a written line it is the token
behind an option `-pwd` or `-old`; the scan of the tokens rewrites option values in place
while it runs, so the invariant of the scan (`ScanInv`) says that the token a wrapper keeps
as the password is still the one of the line.

A request that leaves the arrays of the parser is a `Fault` and has no result here; what becomes
of it is said in `Overruns`.

Results:
1. `ScanInv.scanState`, `ScanInv.scanPath`, `ScanInv.scanPassword`: a step of each scan.
2. `Issued.authorised`: one request that returns.
-/

namespace RefMonitor
open CString

variable {δ : Type}

/-! ## Requests -/

inductive Request
  | changeState (pwd : Option (List UInt8)) (state : Int)
  | changePaths (pwd path : Option (List UInt8)) (op : Int)
  | changePassword (oldPassword newPassword : Option (List UInt8))
  | procWrite (line : List UInt8)

/-- A request with the thread that makes it and the namespace at that moment. -/
structure Issued (δ : Type) where
  request : Request
  task : Task δ
  vfs : Vfs δ

def Issued.run (env : Env) (q : Issued δ) (s : State) : Except Fault (Int × State) :=
  match q.request with
  | .changeState pwd state => .ok (sysChangeState env q.vfs q.task pwd state s)
  | .changePaths pwd path op => sysChangePaths env q.vfs q.task pwd path op s
  | .changePassword oldPassword newPassword =>
    .ok (sysChangePassword env q.task oldPassword newPassword s)
  | .procWrite line => syscallProcWrite env q.vfs q.task line s

/-- The tokens hold a value behind the option `key`. -/
def GivenWith (argv : List (List UInt8)) (key value : List UInt8) : Prop :=
  ∃ i, i + 1 < argv.length ∧ isKey argv i key = true ∧ value = argString argv (i + 1)

/-- The password a request carries. -/
def Request.Carries : Request → List UInt8 → Prop
  | .changeState pwd _, password => ∃ p, pwd = some p ∧ password = cstr (fromUserPassword p)
  | .changePaths pwd _ _, password => ∃ p, pwd = some p ∧ password = cstr (fromUserPassword p)
  | .changePassword oldPassword _, password =>
    password = cstr (fromUserPassword (oldPassword.getD []))
  | .procWrite line, password =>
    GivenWith (lineTokens line).tail pwdKey password ∨
    GivenWith (lineTokens line).tail oldPwdKey password

/-- The state a request leaves behind. -/
def Issued.step (env : Env) (s : State) (q : Issued δ) : Except Fault State :=
  (q.run env s).map Prod.snd

/-! ## The scan of the tokens -/

/-- An option value that has been parsed holds no lower-case letter. -/
theorem parsedToken_not_lower {token : List UInt8} {b : UInt8} (h : b ∈ parsedToken token) :
    ¬ (97 ≤ b ∧ b ≤ 122) := by
  obtain ⟨c, _, rfl⟩ := List.mem_map.mp h
  have hupper : ∀ c : UInt8, ¬ (97 ≤ toUpper c ∧ toUpper c ≤ 122) := by
    intro c
    unfold toUpper
    split
    · next hc =>
      obtain ⟨h1, h2⟩ := hc
      rw [UInt8.le_iff_toNat_le] at h1 h2 ⊢
      rw [UInt8.toNat_sub_of_le _ _ (by rw [UInt8.le_iff_toNat_le]; exact Nat.le_trans (by decide) h1)]
      have e97 : (97 : UInt8).toNat = 97 := rfl
      have e122 : (122 : UInt8).toNat = 122 := rfl
      have e32 : (32 : UInt8).toNat = 32 := rfl
      omega
    · next hc => exact hc
  split
  · decide
  · exact hupper c

/-- It cannot be taken for an option: the options are spelt in lower case. -/
theorem not_isKey_parsedToken {token key : List UInt8} (hkey : cstr key = key)
    (hlen : key.length = 4) (hlow : ∃ b ∈ key, 97 ≤ b ∧ b ≤ 122) :
    strncmp 4 (parsedToken token) key ≠ 0 := by
  intro h
  rw [strncmp_eq_zero, hkey, List.take_of_length_le (Nat.le_of_eq hlen)] at h
  obtain ⟨b, hb, hrange⟩ := hlow
  rw [← h] at hb
  exact parsedToken_not_lower ((cstr_isPrefix _).subset (List.mem_of_mem_take hb)) hrange

/-- The scan stands before token `i`: the tokens behind it are as in the line, token `i` is
as in the line or a parsed option value, and the pointer it keeps is to a token of the line,
behind an option `key`. -/
structure ScanInv (argv : List (List UInt8)) (key : List UInt8) (i : Nat) (st : Scan) : Prop where
  length : st.argv.length = argv.length
  behind : ∀ j, i < j → st.argv.getD j [] = argv.getD j []
  current : st.argv.getD i [] = argv.getD i [] ∨ ∃ token, st.argv.getD i [] = parsedToken token
  kept : ∀ p, st.first = some p → p ≤ i ∧ st.argv.getD p [] = argv.getD p [] ∧
    ∃ q, p = q + 1 ∧ p < argv.length ∧ isKey argv q key = true

theorem ScanInv.init (argv : List (List UInt8)) (key : List UInt8) :
    ScanInv argv key 0 (scanInit argv) :=
  ⟨rfl, fun _ _ => rfl, .inl rfl, fun p hp => absurd hp (by simp [scanInit])⟩

/-- Nothing is written and the pointer is left: only the position moves. -/
theorem ScanInv.skip {argv : List (List UInt8)} {key : List UInt8} {i : Nat} {st st' : Scan}
    (h : ScanInv argv key i st) (hargv : st'.argv = st.argv) (hfirst : st'.first = st.first) :
    ScanInv argv key (i + 1) st' := by
  refine ⟨by rw [hargv]; exact h.length, fun j hj => ?_, .inl ?_, fun p hp => ?_⟩
  · rw [hargv]
    exact h.behind j (Nat.lt_of_succ_lt hj)
  · rw [hargv]
    exact h.behind (i + 1) (Nat.lt_succ_self i)
  · rw [hfirst] at hp
    obtain ⟨hle, htok, hq⟩ := h.kept p hp
    rw [hargv]
    exact ⟨Nat.le_succ_of_le hle, htok, hq⟩

/-- The pointer is set to the token behind the option. -/
theorem ScanInv.keep {argv : List (List UInt8)} {key : List UInt8} {i : Nat} {st st' : Scan}
    (h : ScanInv argv key i st) (hkey : cstr key = key) (hlen : key.length = 4)
    (hlow : ∃ b ∈ key, 97 ≤ b ∧ b ≤ 122) (hopt : isKey st.argv i key = true)
    (hargv : st'.argv = st.argv) (hfirst : st'.first = nextArg st.argv i) :
    ScanInv argv key (i + 1) st' := by
  have horig : st.argv.getD i [] = argv.getD i [] := by
    rcases h.current with heq | ⟨token, heq⟩
    · exact heq
    · rw [isKey, beq_iff_eq, heq] at hopt
      exact absurd hopt (not_isKey_parsedToken hkey hlen hlow)
  refine ⟨by rw [hargv]; exact h.length, fun j hj => ?_, .inl ?_, fun p hp => ?_⟩
  · rw [hargv]
    exact h.behind j (Nat.lt_of_succ_lt hj)
  · rw [hargv]
    exact h.behind (i + 1) (Nat.lt_succ_self i)
  · rw [hfirst, nextArg, h.length] at hp
    split at hp
    · next hlt =>
      obtain rfl := Option.some.inj hp
      refine ⟨le_refl _, ?_, i, rfl, hlt, ?_⟩
      · rw [hargv]
        exact h.behind (i + 1) (Nat.lt_succ_self i)
      · rwa [isKey, horig] at hopt
    · exact absurd hp (by simp)

/-- The value of the option at `i` is parsed in place. -/
theorem ScanInv.parse {argv : List (List UInt8)} {key : List UInt8} {i : Nat} {st st' : Scan}
    (h : ScanInv argv key i st) (hstep : scanOpt st i = .ok st') :
    ScanInv argv key (i + 1) st' := by
  unfold scanOpt nextArg at hstep
  split at hstep
  · exact absurd hstep (by simp)
  · next j hj =>
    split at hj
    · next hlt =>
      obtain rfl := Option.some.inj hj
      split at hstep
      · exact absurd hstep (by simp)
      · next op hop =>
        obtain rfl := Except.ok.inj hstep
        have hother : ∀ k, k ≠ i + 1 → (st.argv.set (i + 1)
            (parsedToken (st.argv.getD (i + 1) []))).getD k [] = st.argv.getD k [] := by
          intro k hk
          simp [List.getD_eq_getElem?_getD, List.getElem?_set_ne (Ne.symm hk)]
        refine ⟨by simpa using h.length, fun k hk => ?_, .inr ⟨st.argv.getD (i + 1) [], ?_⟩,
          fun p hp => ?_⟩
        · exact (hother k (Nat.ne_of_gt hk)).trans (h.behind k (Nat.lt_of_succ_lt hk))
        · simp [List.getD_eq_getElem?_getD, List.getElem?_set_self hlt]
        · obtain ⟨hle, htok, hq⟩ := h.kept p hp
          exact ⟨Nat.le_succ_of_le hle,
            (hother p (Nat.ne_of_lt (Nat.lt_succ_of_le hle))).trans htok, hq⟩
    · exact absurd hj (by simp)

/-- No token starts with two different options. -/
theorem isKey_unique {argv : List (List UInt8)} {i : Nat} {key key' : List UInt8}
    (hkey : cstr key = key) (hkey' : cstr key' = key') (hlen : key.length = 4)
    (hlen' : key'.length = 4) (hne : key ≠ key') (h : isKey argv i key = true) :
    isKey argv i key' = false := by
  rw [← Bool.not_eq_true]
  intro h'
  rw [isKey, beq_iff_eq, strncmp_eq_zero, hkey, List.take_of_length_le (Nat.le_of_eq hlen)] at h
  rw [isKey, beq_iff_eq, strncmp_eq_zero, hkey', List.take_of_length_le (Nat.le_of_eq hlen')] at h'
  exact hne (h.symm.trans h')

theorem ScanInv.scanState {argv : List (List UInt8)} {i : Nat} {st st' : Scan}
    (h : ScanInv argv pwdKey i st) (hstep : RefMonitor.scanState i st = .ok st') :
    ScanInv argv pwdKey (i + 1) st' := by
  unfold RefMonitor.scanState at hstep
  cases hpwd : isKey st.argv i pwdKey with
  | true =>
    have hopt := @isKey_unique _ _ _ optKey (by decide) (by decide) rfl rfl (by decide) hpwd
    simp only [hpwd, hopt, if_true, Bool.false_eq_true, if_false] at hstep
    obtain rfl := Except.ok.inj hstep
    exact h.keep (by decide) rfl (by decide) hpwd rfl rfl
  | false =>
    simp only [hpwd, Bool.false_eq_true, if_false] at hstep
    split at hstep
    · exact h.parse hstep
    · obtain rfl := Except.ok.inj hstep
      exact h.skip rfl rfl

theorem ScanInv.scanPath {argv : List (List UInt8)} {i : Nat} {st st' : Scan}
    (h : ScanInv argv pwdKey i st) (hstep : RefMonitor.scanPath i st = .ok (.ok st')) :
    ScanInv argv pwdKey (i + 1) st' := by
  unfold RefMonitor.scanPath at hstep
  cases hpwd : isKey st.argv i pwdKey with
  | true =>
    have hpth := @isKey_unique _ _ _ pthKey (by decide) (by decide) rfl rfl (by decide) hpwd
    have hopt := @isKey_unique _ _ _ optKey (by decide) (by decide) rfl rfl (by decide) hpwd
    simp only [hpwd, hpth, hopt, if_true, Bool.false_eq_true, if_false] at hstep
    obtain rfl := Except.ok.inj (Except.ok.inj hstep)
    exact h.keep (by decide) rfl (by decide) hpwd rfl rfl
  | false =>
    simp only [hpwd, Bool.false_eq_true, if_false] at hstep
    cases hpth : isKey st.argv i pthKey with
    | true =>
      have hopt := @isKey_unique _ _ _ optKey (by decide) (by decide) rfl rfl (by decide) hpth
      simp only [hpth, if_true, scanPth] at hstep
      cases hnext : nextArg st.argv i with
      | none => simp [hnext] at hstep
      | some j =>
        simp only [hnext] at hstep
        split at hstep
        · exact absurd hstep (by simp)
        · exact absurd hstep (by simp)
        · next st'' hst =>
          split at hst
          · exact absurd hst (by simp)
          · split at hst
            · exact absurd hst (by simp)
            · obtain rfl := Except.ok.inj (Except.ok.inj hst)
              simp only [hopt, Bool.false_eq_true, if_false] at hstep
              obtain rfl := Except.ok.inj (Except.ok.inj hstep)
              exact h.skip rfl rfl
    | false =>
      simp only [hpth, Bool.false_eq_true, if_false] at hstep
      split at hstep
      · split at hstep
        · exact absurd hstep (by simp)
        · next st'' hst =>
          obtain rfl := Except.ok.inj (Except.ok.inj hstep)
          exact h.parse hst
      · obtain rfl := Except.ok.inj (Except.ok.inj hstep)
        exact h.skip rfl rfl

theorem ScanInv.scanPassword {argv : List (List UInt8)} {i : Nat} {st : Scan}
    (h : ScanInv argv oldPwdKey i st) :
    ScanInv argv oldPwdKey (i + 1) (RefMonitor.scanPassword i st) := by
  unfold RefMonitor.scanPassword
  cases hold : isKey st.argv i oldPwdKey with
  | true =>
    have hnew := @isKey_unique _ _ _ newPwdKey (by decide) (by decide) rfl rfl (by decide) hold
    simp only [hnew, if_true, Bool.false_eq_true, if_false]
    exact h.keep (by decide) rfl (by decide) hold rfl rfl
  | false =>
    simp only [Bool.false_eq_true, if_false]
    split
    · exact h.skip rfl rfl
    · exact h.skip rfl rfl

theorem ScanInv.loopState {argv : List (List UInt8)} :
    ∀ {n i : Nat} {st st' : Scan}, ScanInv argv pwdKey i st →
      RefMonitor.loopState n i st = .ok st' → ScanInv argv pwdKey (i + n) st' := by
  intro n
  induction n with
  | zero =>
    intro i st st' h hloop
    obtain rfl := Except.ok.inj hloop
    exact h
  | succ n ih =>
    intro i st st' h hloop
    rw [loopState_succ] at hloop
    split at hloop
    · exact absurd hloop (by simp)
    · next st₁ hst =>
      rw [Nat.add_comm n 1, ← Nat.add_assoc]
      exact ih (h.scanState hst) hloop

theorem ScanInv.loopPath {argv : List (List UInt8)} :
    ∀ {n i : Nat} {st st' : Scan}, ScanInv argv pwdKey i st →
      RefMonitor.loopPath n i st = .ok (.ok st') → ScanInv argv pwdKey (i + n) st' := by
  intro n
  induction n with
  | zero =>
    intro i st st' h hloop
    obtain rfl := Except.ok.inj (Except.ok.inj hloop)
    exact h
  | succ n ih =>
    intro i st st' h hloop
    rw [loopPath_succ] at hloop
    cases hst : RefMonitor.scanPath i st with
    | error f => rw [hst] at hloop; exact absurd hloop (by simp)
    | ok out =>
      rw [hst] at hloop
      cases out with
      | error e => exact absurd hloop (by simp)
      | ok st₁ =>
        rw [Nat.add_comm n 1, ← Nat.add_assoc]
        exact ih (h.scanPath hst) hloop

theorem ScanInv.loopPassword {argv : List (List UInt8)} :
    ∀ {n i : Nat} {st : Scan}, ScanInv argv oldPwdKey i st →
      ScanInv argv oldPwdKey (i + n) (RefMonitor.loopPassword n i st) := by
  intro n
  induction n with
  | zero => exact fun h => h
  | succ n ih =>
    intro i st h
    show ScanInv argv oldPwdKey _ (RefMonitor.loopPassword n (i + 1) (RefMonitor.scanPassword i st))
    rw [Nat.add_comm n 1, ← Nat.add_assoc]
    exact ih h.scanPassword

/-- The argument a wrapper passes on is a token of the line behind the option. -/
theorem ScanInv.givenArg {argv : List (List UInt8)} {key : List UInt8} {i : Nat} {st : Scan}
    {value : List UInt8} (h : ScanInv argv key i st)
    (hgiven : RefMonitor.givenArg st.argv st.first = some value) : GivenWith argv key value := by
  unfold RefMonitor.givenArg at hgiven
  split at hgiven
  · exact absurd hgiven (by simp)
  · next p hp =>
    split at hgiven
    · exact absurd hgiven (by simp)
    · obtain rfl := Option.some.inj hgiven
      obtain ⟨_, htok, q, rfl, hlt, hkey⟩ := h.kept p hp
      exact ⟨q, hlt, hkey, by rw [argString, argString, htok]⟩

/-! ## One request -/

theorem cstr_cstr (buf : List UInt8) : cstr (cstr buf) = cstr buf :=
  cstr_eq_self (zero_notMem_cstr buf)

/-- The digest depends on the string only, not on the bytes behind it. -/
theorem hashPlaintext_cstr (env : Env) (text : List UInt8) :
    hashPlaintext env (cstr text) = hashPlaintext env text := by
  simp only [hashPlaintext, saltText, strncpy, strlen, cstr_cstr]

theorem HashMatches.cstr {env : Env} {s : State} {text : List UInt8}
    (h : HashMatches env s text) : HashMatches env s (cstr text) := by
  obtain ⟨digest, hd, hp⟩ := h
  exact ⟨digest, (hashPlaintext_cstr env text).trans hd, hp⟩

/-- A change by `do_change_path` is authorised by the password it was given. -/
theorem doChangePath_authorised {env : Env} {v : Vfs δ} {task : Task δ}
    {thePwd thePath : List UInt8} {op r : Int} {s s' : State}
    (h : doChangePath env v task thePwd thePath op s = .ok (r, s')) (hne : s' ≠ s) :
    Authorised env task thePwd s := by
  rcases doChangePath_cases h with rfl | ⟨full, d, hacc, _⟩
  · exact absurd rfl hne
  · exact hacc.authorised

theorem doChangeState_authorised {env : Env} {v : Vfs δ} {task : Task δ} {thePwd : List UInt8}
    {theState : Int} {s : State} (hne : (doChangeState env v task thePwd theState s).2 ≠ s) :
    Authorised env task thePwd s := by
  rcases doChangeState_cases (Prod.mk.eta (p := doChangeState env v task thePwd theState s)).symm
    with ⟨_, heq⟩ | ⟨_, hauth, _⟩
  · exact absurd heq hne
  · exact hauth

theorem doChangePassword_authorised {env : Env} {task : Task δ}
    {oldPassword newPassword : List UInt8} {s : State}
    (hne : (doChangePassword env task oldPassword newPassword s).2 ≠ s) :
    Authorised env task oldPassword s := by
  rcases doChangePassword_cases
    (Prod.mk.eta (p := doChangePassword env task oldPassword newPassword s)).symm
    with ⟨_, heq⟩ | ⟨_, hauth, _⟩
  · exact absurd heq hne
  · exact hauth

/-- What a wrapper can do: reject the tokens, or pass a password of the line on to a call
that changes nothing without it. -/
def WrapperAuthorised (env : Env) (task : Task δ) (argv : List (List UInt8)) (s : State)
    (out : Except Fault (Int × State)) : Prop :=
  ∀ r s', out = .ok (r, s') → s' ≠ s → ∃ password,
    (GivenWith argv pwdKey password ∨ GivenWith argv oldPwdKey password) ∧
    Authorised env task password s

section
variable {env : Env} {task : Task δ} {argv : List (List UInt8)} {s : State}

/-- A wrapper that returns early leaves the state as it was. -/
theorem WrapperAuthorised.unchanged (r : Int) : WrapperAuthorised env task argv s (.ok (r, s)) := by
  intro r' s' h hne
  exact absurd (Prod.mk.inj (Except.ok.inj h)).2.symm hne

theorem WrapperAuthorised.fault (f : Fault) : WrapperAuthorised env task argv s (.error f) := by
  intro r s' h
  cases h

end

theorem changeStateVfsSysWrapper_authorised (env : Env) (v : Vfs δ) (task : Task δ)
    (argv : List (List UInt8)) (format : Nat) (s : State) :
    WrapperAuthorised env task argv s (changeStateVfsSysWrapper env v task argv format s) := by
  unfold changeStateVfsSysWrapper
  split
  · exact .unchanged _
  · split
    · exact .fault _
    · next st hloop =>
      split
      · exact .unchanged _
      · next pwd hgiven =>
        intro r s' h hne
        refine ⟨pwd, .inl (((ScanInv.init argv pwdKey).loopState hloop).givenArg hgiven), ?_⟩
        have heq := Except.ok.inj h
        exact doChangeState_authorised (by rw [heq]; exact hne)

theorem changePathVfsSysWrapper_authorised (env : Env) (v : Vfs δ) (task : Task δ)
    (argv : List (List UInt8)) (format : Nat) (s : State) :
    WrapperAuthorised env task argv s (changePathVfsSysWrapper env v task argv format s) := by
  unfold changePathVfsSysWrapper
  split
  · exact .unchanged _
  · split
    · exact .unchanged _
    · split
      · exact .fault _
      · exact .unchanged _
      · next st hloop =>
        split
        · exact .unchanged _
        · next pwd hgiven =>
          intro r s' h hne
          exact ⟨pwd, .inl (((ScanInv.init argv pwdKey).loopPath hloop).givenArg hgiven),
            doChangePath_authorised h hne⟩

theorem changePasswordVfsSysWrapper_authorised (env : Env) (task : Task δ)
    (argv : List (List UInt8)) (format : Nat) (s : State) :
    WrapperAuthorised env task argv s (changePasswordVfsSysWrapper env task argv format s) := by
  unfold changePasswordVfsSysWrapper
  split
  · exact .unchanged _
  · dsimp only
    split
    · exact .unchanged _
    · next oldPwd hgiven =>
      split
      · exact .unchanged _
      · intro r s' h hne
        refine ⟨oldPwd, .inr (((ScanInv.init argv oldPwdKey).loopPassword).givenArg hgiven), ?_⟩
        have heq := Except.ok.inj h
        exact doChangePassword_authorised (by rw [heq]; exact hne)

theorem syscallProcWrite_authorised (env : Env) (v : Vfs δ) (task : Task δ) (line : List UInt8)
    (s : State) :
    WrapperAuthorised env task (lineTokens line).tail s (syscallProcWrite env v task line s) := by
  unfold syscallProcWrite
  split
  · exact .unchanged _
  · split
    · exact .unchanged _
    · dsimp only
      split
      · exact .fault _
      · split
        · exact .fault _
        · next r₁ s₁ hcall =>
          intro r s' h hne
          have hs : s₁ = s' := by
            split at h
            · exact (Prod.mk.inj (Except.ok.inj h)).2
            · exact (Prod.mk.inj (Except.ok.inj h)).2
          subst hs
          split at hcall
          · exact changeStateVfsSysWrapper_authorised _ _ _ _ _ _ _ _ hcall hne
          · exact changePathVfsSysWrapper_authorised _ _ _ _ _ _ _ _ hcall hne
          · exact changePasswordVfsSysWrapper_authorised _ _ _ _ _ _ _ hcall hne
          · exact absurd (Prod.mk.inj (Except.ok.inj hcall)).2.symm hne

/-- A request that changes anything is authorised. -/
theorem Issued.authorised {env : Env} {q : Issued δ} {r : Int} {s s' : State}
    (h : q.run env s = .ok (r, s')) (hne : s' ≠ s) :
    q.task.euid = env.admin ∧ ∃ password, q.request.Carries password ∧
      HashMatches env s password := by
  unfold Issued.run at h
  cases hq : q.request with
  | changeState pwd state =>
    rw [hq] at h
    cases pwd with
    | none => exact absurd (Prod.mk.inj (Except.ok.inj h)).2.symm hne
    | some p =>
      have heq := Except.ok.inj h
      obtain ⟨hadmin, hmatch⟩ := @doChangeState_authorised δ env q.vfs q.task (fromUserPassword p)
        state s (fun h0 => hne ((Prod.mk.inj (Prod.mk.eta.trans heq)).2.symm.trans h0))
      exact ⟨hadmin, _, ⟨p, rfl, rfl⟩, hmatch.cstr⟩
  | changePaths pwd path op =>
    rw [hq] at h
    dsimp only [sysChangePaths] at h
    split at h
    · split at h
      · exact absurd (Prod.mk.inj (Except.ok.inj h)).2.symm hne
      · next p path' _ =>
        obtain ⟨hadmin, hmatch⟩ := doChangePath_authorised h hne
        exact ⟨hadmin, _, ⟨p, rfl, rfl⟩, hmatch.cstr⟩
    · exact absurd (Prod.mk.inj (Except.ok.inj h)).2.symm hne
  | changePassword oldPassword newPassword =>
    rw [hq] at h
    have heq := Except.ok.inj h
    obtain ⟨hadmin, hmatch⟩ := @doChangePassword_authorised δ env q.task
      (fromUserPassword (oldPassword.getD [])) (fromUserPassword (newPassword.getD [])) s
      (fun h0 => hne ((Prod.mk.inj (Prod.mk.eta.trans heq)).2.symm.trans h0))
    exact ⟨hadmin, _, rfl, hmatch.cstr⟩
  | procWrite line =>
    rw [hq] at h
    obtain ⟨password, hgiven, hadmin, hmatch⟩ :=
      syscallProcWrite_authorised env q.vfs q.task line s r s' h hne
    exact ⟨hadmin, password, hgiven, hmatch⟩

end RefMonitor
