import RefMonitor.Interfaces
import RefMonitor.NameTable

/-!
# Where the two interfaces agree

A command that is not plain is told apart in a world with one dentry: every name resolves to
it, but for one chosen name. The text of the dentry and the chosen name are picked so that the
system call and the line ask for different names, one of which resolves. The administrator's
password is the one of the command, and the digest function tells it from every other.

Results:
1. `pointVfs_singleMount`: these worlds obey the laws of a single mounted file system.
2. `plain_of_agreesAtPoints`: if the interfaces agree in them, the command is plain.
3. `agrees_iff`: the interfaces agree exactly on the plain commands.
-/

namespace RefMonitor
open CString

/-! ## A world with one dentry -/

/-- The absolute name `kern_path` looks up. -/
def pointName (text name : List UInt8) : List UInt8 :=
  if name.head? = some slash then name else text ++ slash :: name

/-- Every name but `gone` resolves to the one dentry, which is printed as `text`. -/
def pointVfs (text gone : List UInt8) : Vfs Unit where
  kernPath _ name := if pointName text name = gone then .error .enoent else .ok ()
  parentDir _ _ := .error .enoent
  dPath _ := text
  dInode _ := some ⟨0, 2⟩
  dParent _ := none

/-- The digest of the password and that of anything else. -/
def pointEnv (password : List UInt8) : Env where
  admin := 0
  salt := []
  singleFileName := []
  sha512 text := some (Vector.replicate 64 (if text = password then 1 else 0))
  kmalloc n := List.replicate n 0
  kmalloc_length := length_zeros

def pointTask : Task Unit where
  euid := 0
  cwd := ()
  alloc _ := true
  err := 0

/-- The password is set; nothing is marked. -/
def pointState (password : List UInt8) (state : Nat) (list : List RcuRestrict) : State where
  currentState := state
  probes _ := true
  restrictPathList := list
  pwd := (hashPlaintext (pointEnv password) password).getD []
  inodes _ := { iMode := 0o644, iFlags := 0 }

/-- The text of the dentry is a legal absolute name and resolves. -/
structure PointText (text gone : List UInt8) : Prop where
  head : text.head? = some slash
  nul : (0 : UInt8) ∉ text
  short : text.length < pathMax
  resolves : text ≠ gone

theorem pointName_absolute {text name : List UInt8} (h : name.head? = some slash) :
    pointName text name = name := if_pos h

theorem head_pointName {text : List UInt8} (h : text.head? = some slash) (name : List UInt8) :
    (pointName text name).head? = some slash := by
  unfold pointName
  split
  · next hs => exact hs
  · rw [List.head?_append, h]
    rfl

theorem pointVfs_kernPath {text gone name : List UInt8} (h : pointName text name ≠ gone) :
    (pointVfs text gone).kernPath () name = .ok () := if_neg h

theorem pointVfs_kernPath_gone {text gone name : List UInt8} (h : pointName text name = gone) :
    (pointVfs text gone).kernPath () name = .error .enoent := if_pos h

theorem PointText.kernPath {text gone : List UInt8} (h : PointText text gone) :
    (pointVfs text gone).kernPath () text = .ok () := by
  refine pointVfs_kernPath ?_
  rw [pointName_absolute h.head]
  exact h.resolves

theorem pointVfs_singleMount {text gone : List UInt8} (h : PointText text gone) :
    SingleMount (pointVfs text gone) where
  positive _ := ⟨_, rfl⟩
  absolute _ := rfl
  relative {_ name} _ _ hs _ := by
    have hjoin : pointName text name = pointName text (text ++ slash :: name) := by
      have hhead := head_pointName h.head name
      rw [pointName, if_neg hs] at hhead ⊢
      rw [pointName_absolute hhead]
    show (if _ then _ else _) = (if _ then _ else _)
    rw [hjoin]
    rfl
  roundTrip _ := h.kernPath
  path_slash _ := h.head
  text_nul _ := h.nul
  path_lt _ := h.short
  path_inj _ _ _ := rfl
  ino_inj hi hi' _ := Option.some.inj (hi.symm.trans hi')
  parent_slash _ _ _ hp := absurd hp (by simp [pointVfs])
  parent_plain _ _ hp := absurd hp (by simp [pointVfs])

theorem pointVfs_resolves {text gone : List UInt8} (h : PointText text gone) :
    (pointVfs text gone).Resolves () :=
  ⟨(), text, h.kernPath⟩

/-! ## The password -/

/-- Without salt the text that is hashed is the password. -/
theorem cstr_saltText_point {password text : List UInt8} (hnul : (0 : UInt8) ∉ text) :
    cstr (saltText (pointEnv password) text) = text := by
  have hstr : strlen text = text.length := by rw [strlen, cstr_eq_self hnul]
  have hcopy : strncpy (List.replicate (text.length + saltLength + 1) 0) text text.length =
      text ++ 0 :: List.replicate saltLength 0 := by
    rw [← hstr, strncpy_strlen, cstr_eq_self hnul, writeAt, List.take_zero, List.nil_append,
      Nat.zero_add, List.drop_replicate, hstr, ← List.replicate_succ]
    congr 2
    omega
  have hsalt : saltText (pointEnv password) text =
      strncat (strncpy (List.replicate (text.length + saltLength + 1) 0) text text.length) []
        saltLength := by
    rw [saltText, hstr]
    rfl
  rw [hsalt, hcopy, strncat, strlen, cstr_append_zero hnul, writeAt, List.take_left' rfl]
  rw [cstr_nil, List.take_nil, List.nil_append, List.append_assoc, List.singleton_append]
  exact cstr_append_zero hnul _

theorem hashPlaintext_point {password text : List UInt8} (hnul : (0 : UInt8) ∉ text) :
    hashPlaintext (pointEnv password) text =
      some ((Vector.replicate 64 (if text = password then (1 : UInt8) else 0)).toList.flatMap hexByte
        ++ [0]) := by
  rw [hashPlaintext, cstr_saltText_point hnul]
  rfl

/-- No other text has the digest of the password. -/
theorem hashMatches_point {password text : List UInt8} {state : Nat} {list : List RcuRestrict}
    (hp : (0 : UInt8) ∉ password) (ht : (0 : UInt8) ∉ text) :
    HashMatches (pointEnv password) (pointState password state list) text ↔ text = password := by
  have hstored : cstr (pointState password state list).pwd =
      (Vector.replicate 64 (1 : UInt8)).toList.flatMap hexByte := by
    rw [pointState, hashPlaintext_point hp, if_pos rfl]
    exact cstr_hash
  unfold HashMatches
  rw [hashPlaintext_point ht, hstored]
  simp only [Option.some.injEq, exists_eq_left', cstr_hash]
  split
  · next h => exact ⟨fun _ => h, fun _ => rfl⟩
  · next h => exact ⟨fun hd => absurd hd (by decide), fun hd => absurd hd h⟩

theorem authorised_point {password text : List UInt8} {state : Nat} {list : List RcuRestrict}
    (hp : (0 : UInt8) ∉ password) (ht : (0 : UInt8) ∉ text) :
    Authorised (pointEnv password) pointTask text (pointState password state list) ↔
      text = password :=
  ⟨fun h => (hashMatches_point hp ht).mp h.2, fun h => ⟨rfl, (hashMatches_point hp ht).mpr h⟩⟩

/-! ## Commands for the state and the password -/

/-- The interfaces agree on the command in every world with one dentry. -/
def Command.AgreesAtPoints (c : Command) (behind₁ behind₂ : List UInt8) : Prop :=
  ∀ {text gone : List UInt8}, PointText text gone → ∀ (password : List UInt8) (state : Nat)
    (list : List RcuRestrict),
    SameOutcome
      (c.viaSyscall (pointEnv password) (pointVfs text gone) pointTask behind₁ behind₂
        (pointState password state list))
      (c.viaProc (pointEnv password) (pointVfs text gone) pointTask
        (pointState password state list))

/-- A state other than the given one. -/
def otherState (state : Int) : Nat := if state = stateOn then stateOff else stateOn

theorem otherState_ne (state : Int) : (otherState state : Int) ≠ state := by
  unfold otherState
  split
  · next h =>
    rw [h]
    decide
  · next h => exact fun h' => h h'.symm

theorem changeState_plain {p behind₁ behind₂ : List UInt8} {state : Int}
    (hlegal : (Command.changeState p state).Legal)
    (h : (Command.changeState p state).AgreesAtPoints behind₁ behind₂) :
    (Command.changeState p state).Plain behind₂ := by
  intro hstate
  have hp : OneWord p := hlegal.words
  have htext : PointText (ascii "/a") [] := ⟨by decide, by decide, by decide, by decide⟩
  have hsame := h htext p (otherState state) []
  rw [changeState_viaProc hlegal rfl, changeState_viaSyscall hlegal] at hsame
  have hauth : Authorised (pointEnv p) pointTask p (pointState p (otherState state) []) :=
    (authorised_point hp.nul hp.nul).mpr rfl
  have hne : ((pointState p (otherState state) []).currentState : Int) ≠ state := otherState_ne state
  obtain ⟨s', hs'⟩ := @doChangeState_succeeds _ _ (pointVfs (ascii "/a") []) _ _ _ _ hauth hstate hne
  rw [hs'] at hsame
  obtain ⟨r, s'', hout, hr⟩ := hsame.succeeds (le_refl 0)
  split at hout
  · obtain ⟨rfl, -⟩ := Prod.mk.inj (Except.ok.inj hout)
    exact absurd hr (Int.not_le.mpr (fail_neg _))
  · next hnull =>
    rcases doChangeState_cases (Except.ok.inj hout) with ⟨hneg, -⟩ | ⟨-, hread, hvalid, -⟩
    · exact absurd hr (Int.not_le.mpr hneg)
    · have heq : (readState p state).1 = p :=
        (authorised_point hp.nul (readState_nul hp state)).mp hread
      refine ⟨fun h0 => hnull (heq.trans h0), fun hpwd => ?_, fun hopt => ?_⟩
      · rw [readState, if_pos hpwd] at heq
        have hopt : optKey <+: p := heq ▸ List.prefix_refl optKey
        exact pwdKey_isOption.unique optKey_isOption (by decide) hpwd hopt
      · rw [readState, if_pos hopt] at hvalid
        have hzero : isState 0 = true := hvalid
        exact absurd hzero (by decide)

theorem doChangePassword_succeeds {δ : Type} {env : Env} {task : Task δ} {o n : List UInt8}
    {s : State} (hauth : Authorised env task o s) (ho : (0 : UInt8) ∉ o) (hn : (0 : UInt8) ∉ n)
    (hlen : 8 < n.length) (hne : o ≠ n) (hhash : ∃ tmp, hashPlaintext env n = some tmp) :
    ∃ s', doChangePassword env task o n s = (0, s') := by
  obtain ⟨hadmin, hmatch⟩ := hauth
  obtain ⟨tmp, htmp⟩ := hhash
  have hlong : ¬ strlen n ≤ 8 := by
    rw [strlen, cstr_eq_self hn]
    exact Nat.not_le.mpr hlen
  have hcmp : ¬ strcmp o n = 0 := by
    rw [strcmp_eq_zero, cstr_eq_self ho, cstr_eq_self hn]
    exact hne
  rw [doChangePassword, if_neg (not_not.mpr hadmin), if_neg hlong, if_neg hcmp,
    if_neg (not_not.mpr (checkPwd_eq_zero.mpr hmatch)), htmp]
  exact ⟨_, rfl⟩

theorem changePassword_plain {o n behind₁ behind₂ : List UInt8}
    (hlegal : (Command.changePassword o n).Legal)
    (h : (Command.changePassword o n).AgreesAtPoints behind₁ behind₂) :
    (Command.changePassword o n).Plain behind₂ := by
  intro hlen hne
  obtain ⟨ho, hn⟩ : OneWord o ∧ OneWord n := hlegal.words
  have htext : PointText (ascii "/a") [] := ⟨by decide, by decide, by decide, by decide⟩
  have hsame := h htext o stateOn []
  rw [changePassword_viaProc hlegal rfl, changePassword_viaSyscall hlegal] at hsame
  have hauth : Authorised (pointEnv o) pointTask o (pointState o stateOn []) :=
    (authorised_point ho.nul ho.nul).mpr rfl
  obtain ⟨s', hs'⟩ := doChangePassword_succeeds hauth ho.nul hn.nul hlen hne
    ⟨_, hashPlaintext_point hn.nul⟩
  rw [hs'] at hsame
  obtain ⟨r, s'', hout, hr⟩ := hsame.succeeds (le_refl 0)
  cases hold : readOld o n with
  | none =>
    rw [hold] at hout
    obtain ⟨rfl, -⟩ := Prod.mk.inj (Except.ok.inj hout)
    exact absurd hr (by decide)
  | some old =>
    cases hnew : readNew n with
    | none =>
      rw [hold, hnew] at hout
      obtain ⟨rfl, -⟩ := Prod.mk.inj (Except.ok.inj hout)
      exact absurd hr (by decide)
    | some new =>
      rw [hold, hnew] at hout
      rcases doChangePassword_cases (Except.ok.inj hout) with ⟨hneg, -⟩ | ⟨-, hread, -⟩
      · exact absurd hr (Int.not_le.mpr hneg)
      · have hnul : (0 : UInt8) ∉ old := by
          obtain ⟨-, ⟨-, rfl⟩ | ⟨-, -, rfl⟩⟩ := readOld_some hold
          · exact newPwdKey_isOption.nul
          · exact ho.nul
        have heq : old = o := (authorised_point ho.nul hnul).mp hread
        obtain ⟨hnold, hkind⟩ := readOld_some hold
        rcases hkind with ⟨hoold, hnewKey⟩ | ⟨hoold, hnull, -⟩
        · -- the old password is one option and starts with another
          have hstart : newPwdKey <+: o := by
            rw [← heq, hnewKey]
          exact absurd hstart (oldPwdKey_isOption.unique newPwdKey_isOption (by decide) hoold)
        · exact ⟨hnull, hoold, hnold, (readNew_some hnew).1⟩

/-! ## Paths in a world with one dentry -/

/-- A text that `forbitten_path` lets through. -/
def OpenText (text : List UInt8) : Prop := ∃ c rest, text = slash :: c :: rest ∧ (c = 97 ∨ c = 99)

theorem OpenText.extend {text longer : List UInt8} (h : OpenText text) (hle : text <+: longer) :
    OpenText longer := by
  obtain ⟨c, rest, rfl, hc⟩ := h
  obtain ⟨more, rfl⟩ := hle
  exact ⟨c, rest ++ more, rfl, hc⟩

theorem forbittenPath_point {password buf : List UInt8} (h : OpenText (cstr buf)) :
    forbittenPath (pointEnv password) buf = false := by
  obtain ⟨c, rest, htext, hc⟩ := h
  have hlen : strlen buf ≠ 1 := by
    rw [strlen, htext]
    simp
  have hdirs : ∀ d ∈ forbittenDirs, strncmp d.2 buf d.1 ≠ 0 := by
    intro d hd
    rw [Ne, strncmp_eq_zero, htext]
    simp only [forbittenDirs, List.mem_cons, List.not_mem_nil, or_false] at hd
    rcases hc with rfl | rfl
    · rcases hd with rfl | rfl | rfl | rfl | rfl | rfl | rfl | rfl <;>
        exact fun h => absurd (congrArg (·.take 2) h) (by simp; decide)
    · rcases hd with rfl | rfl | rfl | rfl | rfl | rfl | rfl | rfl <;>
        exact fun h => absurd (congrArg (·.take 2) h) (by simp; decide)
  have hfile : strcmp (pointEnv password).singleFileName buf ≠ 0 := by
    rw [Ne, strcmp_eq_zero, htext]
    exact fun h => absurd h (by simp [pointEnv, cstr_nil])
  have hany : forbittenDirs.any (fun d => strncmp d.2 buf d.1 == 0) = false :=
    List.any_eq_false.mpr fun d hd => by simpa using hdirs d hd
  rw [forbittenPath, hany, beq_eq_false_iff_ne.mpr hlen, beq_eq_false_iff_ne.mpr hfile]
  rfl

theorem absText_point {text gone name : List UInt8}
    (hfit : text.length + 1 + name.length < pathMax) :
    absText (pointVfs text gone) () name = pointName text name := by
  unfold absText pointName
  split
  · rfl
  · refine List.take_of_length_le ?_
    rw [List.length_append, List.length_cons]
    show text.length + (name.length + 1) ≤ pathMax - 1
    omega

/-- The name in a padded buffer is replaced by the text of the dentry, or does not resolve. -/
theorem fillAbsolutePath_point {env : Env} {text gone name : List UInt8}
    (htext : PointText text gone) (hnul : (0 : UInt8) ∉ name)
    (hfit : text.length + 1 + name.length < pathMax) :
    fillAbsolutePath env (pointVfs text gone) pointTask pointTask.alloc (padded pathMax name) =
      if pointName text name = gone then .ok (fail .enoent, padded pathMax (pointName text name))
      else .ok (0, padded pathMax text) := by
  have hlen : name.length ≤ pathMax := by omega
  have hmount := pointVfs_singleMount htext
  have halloc : ∀ k, pointTask.alloc k = true := fun _ => rfl
  have hagain : pointName text (pointName text name) = pointName text name :=
    pointName_absolute (head_pointName htext.head name)
  have habs : absText (pointVfs text gone) pointTask.cwd name = pointName text name :=
    absText_point hfit
  rw [fillAbsolutePath_padded hmount (pointVfs_resolves htext) halloc hnul hlen, habs]
  rcases Classical.em (pointName text name = gone) with hgone | hgone
  · have hk : (pointVfs text gone).kernPath pointTask.cwd (pointName text name) = .error .enoent :=
      pointVfs_kernPath_gone (hagain.trans hgone)
    rw [if_pos hgone, hk]
  · have hk : (pointVfs text gone).kernPath pointTask.cwd (pointName text name) = .ok () :=
      pointVfs_kernPath (fun h => hgone (hagain.symm.trans h))
    rw [if_neg hgone, hk]
    rfl

/-- The name the system call hands over: it is replaced by the text of the dentry, perhaps with
bytes of user memory behind it. -/
theorem fillAbsolutePath_point_user {env : Env} {text gone t : List UInt8}
    (htext : PointText text gone) (hnul : (0 : UInt8) ∉ t) (hlt : t.length < maxFromUser)
    (hfit : text.length + 1 + t.length < pathMax) (hgone : pointName text t ≠ gone)
    (behind : List UInt8) :
    ∃ out, fillAbsolutePath env (pointVfs text gone) pointTask pointTask.alloc
      (fromUserPath (t ++ 0 :: behind)) = .ok (0, out) ∧ text <+: cstr out := by
  rcases Classical.em (t.head? = some slash) with hs | hs
  · obtain ⟨rest, heq, -⟩ := copyFromUser_behind hlt pathMax behind
    have hk : (pointVfs text gone).kernPath pointTask.cwd t = .ok () := pointVfs_kernPath hgone
    refine ⟨_, by
      rw [fromUserPath, heq]
      exact fillAbsolutePath_behind (pointVfs_singleMount htext) rfl hnul hs hk, ?_⟩
    have hcstr : ∀ r, cstr (text ++ r) = text ++ cstr r := cstr_append_of_notMem htext.nul
    exact (hcstr _).symm ▸ List.prefix_append ..
  · refine ⟨padded pathMax text, ?_, ?_⟩
    · rw [(sameName_fromUserPath hnul hlt hs behind).fillAbsolutePath rfl,
        fillAbsolutePath_point htext hnul hfit, if_neg hgone]
    · rw [cstr_padded htext.nul]

theorem fillAbsolutePath_point_user_gone {env : Env} {text t : List UInt8}
    (htext : PointText text (pointName text t)) (hnul : (0 : UInt8) ∉ t)
    (hlt : t.length < maxFromUser) (hfit : text.length + 1 + t.length < pathMax)
    (behind : List UInt8) :
    ∃ out, fillAbsolutePath env (pointVfs text (pointName text t)) pointTask pointTask.alloc
      (fromUserPath (t ++ 0 :: behind)) = .ok (fail .enoent, out) := by
  rcases Classical.em (t.head? = some slash) with hs | hs
  · have hk : (pointVfs text (pointName text t)).kernPath pointTask.cwd
        (cstr (fromUserPath (t ++ 0 :: behind))) = .error .enoent := by
      rw [fromUserPath, cstr_copyFromUser hnul hlt]
      exact pointVfs_kernPath_gone rfl
    have hhead := (headD_fromUserPath hlt behind).mpr hs
    refine ⟨fromUserPath (t ++ 0 :: behind), ?_⟩
    unfold fillAbsolutePath
    rw [if_neg (not_not.mpr hhead)]
    dsimp only
    rw [if_neg (not_not.mpr rfl), hk]
  · refine ⟨padded pathMax (pointName text t), ?_⟩
    rw [(sameName_fromUserPath hnul hlt hs behind).fillAbsolutePath rfl,
      fillAbsolutePath_point htext hnul hfit, if_pos rfl]

/-- The list with which an accepted request succeeds. -/
def pointList (op : Int) (path : List UInt8) : List RcuRestrict :=
  if op = addPathOp then [] else [⟨cstr path, zero_notMem_cstr path, 2, 0o644, 0⟩]

theorem doChangePath_point {text gone p buf out : List UInt8} {op : Int} (hp : (0 : UInt8) ∉ p)
    (hop : isPathOp op)
    (hfill : fillAbsolutePath (pointEnv p) (pointVfs text gone) pointTask pointTask.alloc buf =
      .ok (0, out))
    (hopen : OpenText (cstr out)) (hgone : cstr out ≠ gone) :
    ∃ s', doChangePath (pointEnv p) (pointVfs text gone) pointTask p buf op
      (pointState p stateRecOn (pointList op out)) = .ok (0, s') := by
  have hhead : (cstr out).head? = some slash := by
    obtain ⟨c, rest, heq, -⟩ := hopen
    rw [heq]
    rfl
  have hk : (pointVfs text gone).kernPath pointTask.cwd (cstr out) = .ok () :=
    pointVfs_kernPath (by rwa [pointName_absolute hhead])
  have haccepted : PathAccepted (pointEnv p) (pointVfs text gone) pointTask p buf
      (pointState p stateRecOn (pointList op out)) out () :=
    ⟨(authorised_point hp hp).mpr rfl, .inr rfl, hfill, forbittenPath_point hopen, hk⟩
  rw [haccepted.doChangePath hop]
  rcases hop with hadd | hremove
  · have hin : isPathIn (pointState p stateRecOn (pointList op out)) out ≠ 0 := by
      rw [pointList, if_pos hadd]
      exact fun h => absurd h (by simp [isPathIn, pointState])
    have halloc : ∀ k, (fun k => pointTask.alloc (k + 2)) k = true := fun _ => rfl
    have hi : (pointVfs text gone).dInode () = some ⟨0, 2⟩ := rfl
    rw [if_pos hadd, addPath_new rfl halloc hi hin]
    exact ⟨_, rfl⟩
  · have hadd : op ≠ addPathOp := by
      rw [hremove]
      decide
    have hfind : (pointState p stateRecOn (pointList op out)).restrictPathList.find?
        (delMatches out) = some ⟨cstr out, zero_notMem_cstr out, 2, 0o644, 0⟩ := by
      rw [pointState, pointList, if_neg hadd]
      exact List.find?_cons_of_pos (delMatches_iff.mpr (List.prefix_refl _))
    rw [if_neg hadd, delPath_found rfl hfind hk rfl]
    exact ⟨_, rfl⟩

/-- A name that does not resolve, before or after it is made absolute, makes the call fail. -/
theorem doChangePath_unresolved {δ : Type} {env : Env} {v : Vfs δ} {task : Task δ}
    {password buf out : List UInt8} {op ret : Int} {s : State}
    (hfill : fillAbsolutePath env v task task.alloc buf = .ok (ret, out))
    (hbad : ret < 0 ∨ (ret = 0 ∧ ∃ e, v.kernPath task.cwd (cstr out) = .error e)) :
    ∃ r, doChangePath env v task password buf op s = .ok (r, s) ∧ r < 0 := by
  unfold doChangePath
  rw [hfill]
  dsimp only
  split
  · exact ⟨_, rfl, fail_neg _⟩
  · split
    · exact ⟨_, rfl, fail_neg _⟩
    · split
      · exact ⟨_, rfl, fail_neg _⟩
      · split
        · exact ⟨_, rfl, fail_neg _⟩
        · rcases hbad with hret | ⟨hret, e, hk⟩
          · rw [if_pos (Int.ne_of_lt hret)]
            exact ⟨_, rfl, hret⟩
          · rw [if_neg (not_not.mpr hret), hk]
            split
            · exact ⟨_, rfl, fail_neg _⟩
            · exact ⟨_, rfl, fail_neg _⟩

/-- A call that does not fail had the password and a known operation. -/
theorem doChangePath_accepted {δ : Type} {env : Env} {v : Vfs δ} {task : Task δ}
    {password buf : List UInt8} {op r : Int} {s s' : State}
    (h : doChangePath env v task password buf op s = .ok (r, s')) (hr : 0 ≤ r) :
    Authorised env task password s ∧ isPathOp op := by
  have hfails : ∀ {e : Errno}, (Except.ok (fail e, s) : Except Fault (Int × State)) ≠ .ok (r, s') := by
    intro e he
    obtain ⟨rfl, -⟩ := Prod.mk.inj (Except.ok.inj he)
    exact absurd hr (Int.not_le.mpr (fail_neg e))
  unfold doChangePath at h
  split at h
  · exact absurd h hfails
  · next hadmin =>
    split at h
    · exact absurd h hfails
    · next hop =>
      split at h
      · exact absurd h hfails
      · next hpwd =>
        refine ⟨⟨not_not.mp hadmin, checkPwd_eq_zero.mp (not_not.mp hpwd)⟩, ?_⟩
        rwa [not_and_or, not_not, not_not] at hop

/-! ## Commands for a path -/

section
variable {p t behind₁ behind₂ : List UInt8} {op : Int}

/-- What the two interfaces hand over in a world with one dentry. -/
theorem changePath_points (hlegal : (Command.changePath p t op).Legal)
    (h : (Command.changePath p t op).AgreesAtPoints behind₁ behind₂) {text gone : List UInt8}
    (htext : PointText text gone) (list : List RcuRestrict) :
    SameOutcome
      (doChangePath (pointEnv p) (pointVfs text gone) pointTask p
        (fromUserPath (t ++ 0 :: behind₂)) op (pointState p stateRecOn list))
      (if PathRefused p t then .ok (fail .einval, pointState p stateRecOn list)
        else doChangePath (pointEnv p) (pointVfs text gone) pointTask (readPwd p t)
          (readPathname p t) (readOp t op) (pointState p stateRecOn list)) := by
  have hsame := h htext p stateRecOn list
  rw [changePath_viaProc hlegal rfl, changePath_viaSyscall hlegal] at hsame
  exact hsame

/-- The world in which every name resolves: the line must be understood. -/
theorem changePath_understood (hlegal : (Command.changePath p t op).Legal)
    (h : (Command.changePath p t op).AgreesAtPoints behind₁ behind₂) (hop : isPathOp op) :
    ¬ PathRefused p t ∧ readPwd p t = p ∧ isPathOp (readOp t op) := by
  obtain ⟨hp, ht⟩ : OneWord p ∧ OneWord t := hlegal.words
  have htext : PointText (ascii "/a") [] := ⟨by decide, by decide, by decide, by decide⟩
  have hopen : OpenText (ascii "/a") := ⟨97, [], by decide, .inl rfl⟩
  have hlt := hlegal.path_lt
  have hfit : (ascii "/a").length + 1 + t.length < pathMax := by
    have h2 : (ascii "/a").length = 2 := by decide
    simp only [maxFromUser, pathMax] at hlt ⊢
    omega
  have hname : pointName (ascii "/a") t ≠ [] := by
    intro h0
    have hhead := head_pointName htext.head t
    rw [h0] at hhead
    exact absurd hhead (by simp)
  obtain ⟨out, hfill, hstart⟩ := @fillAbsolutePath_point_user (pointEnv p) _ _ _ htext ht.nul hlt
    hfit hname behind₂
  have hopen' : OpenText (cstr out) := hopen.extend hstart
  have hne : cstr out ≠ [] := by
    obtain ⟨c, rest, heq, -⟩ := hopen'
    rw [heq]
    exact List.cons_ne_nil _ _
  obtain ⟨s', hs'⟩ := doChangePath_point hp.nul hop hfill hopen' hne
  have hsame := changePath_points hlegal h htext (pointList op out)
  rw [hs'] at hsame
  obtain ⟨r, s'', hout, hr⟩ := hsame.succeeds (le_refl 0)
  split at hout
  · obtain ⟨rfl, -⟩ := Prod.mk.inj (Except.ok.inj hout)
    exact absurd hr (by decide)
  · next hseen =>
    obtain ⟨hauth, hop'⟩ := doChangePath_accepted hout hr
    exact ⟨hseen, (authorised_point hp.nul (readPwd_nul hp t)).mp hauth, hop'⟩

/-- If the line is understood and succeeds where the system call fails, they do not agree. -/
theorem changePath_apart (hlegal : (Command.changePath p t op).Legal)
    (h : (Command.changePath p t op).AgreesAtPoints behind₁ behind₂) (hop : isPathOp op)
    {text gone : List UInt8} (htext : PointText text gone) (hopen : OpenText text)
    (hfit : text.length + 1 + (pathText p t).length < pathMax)
    (hline : pointName text (pathText p t) ≠ gone)
    (hcall : ∃ ret out, fillAbsolutePath (pointEnv p) (pointVfs text gone) pointTask
      pointTask.alloc (fromUserPath (t ++ 0 :: behind₂)) = .ok (ret, out) ∧
      (ret < 0 ∨ (ret = 0 ∧ ∃ e, (pointVfs text gone).kernPath () (cstr out) = .error e))) :
    False := by
  obtain ⟨hp, ht⟩ : OneWord p ∧ OneWord t := hlegal.words
  obtain ⟨hseen, hread, hop'⟩ := changePath_understood hlegal h hop
  obtain ⟨ret, out, hfill, hbad⟩ := hcall
  have hcstr : cstr (padded pathMax text) = text := cstr_padded htext.nul pathMax
  have hline' := @fillAbsolutePath_point (pointEnv p) _ _ _ htext (pathText_nul ht) hfit
  rw [if_neg hline, ← readPathname_eq ht] at hline'
  have hsame := changePath_points hlegal h htext (pointList (readOp t op) (padded pathMax text))
  rw [if_neg hseen, hread] at hsame
  obtain ⟨s', hs'⟩ := doChangePath_point hp.nul hop' hline' (hcstr.symm ▸ hopen)
    (hcstr.symm ▸ htext.resolves)
  obtain ⟨r, hr, hneg⟩ := @doChangePath_unresolved _ _ _ _ p _ _ op _
    (pointState p stateRecOn (pointList (readOp t op) (padded pathMax text))) hfill hbad
  rw [hr, hs'] at hsame
  exact absurd (hsame.1.mp hneg) (lt_irrefl 0)

/-- A text that does not start the given one. -/
theorem exists_openText (t : List UInt8) :
    ∃ text, OpenText text ∧ text.length = 2 ∧ (0 : UInt8) ∉ text ∧ ¬ text <+: t := by
  rcases Classical.em (ascii "/a" <+: t) with ha | ha
  · refine ⟨ascii "/c", ⟨99, [], by decide, .inr rfl⟩, by decide, by decide, fun hc => ?_⟩
    exact absurd (List.prefix_of_prefix_length_le ha hc (by decide)) (by decide)
  · exact ⟨ascii "/a", ⟨97, [], by decide, .inl rfl⟩, by decide, by decide, ha⟩

theorem OpenText.head {text : List UInt8} (h : OpenText text) : text.head? = some slash := by
  obtain ⟨c, rest, rfl, -⟩ := h
  rfl

/-- The names two texts stand for are told apart, when the dentry's text does not start the
second and the first is absolute only if the second is. -/
theorem pointName_ne {text u t : List UInt8} (hne : u ≠ t) (hstart : ¬ text <+: t)
    (hhead : u.head? = some slash → t.head? = some slash) : pointName text u ≠ pointName text t := by
  intro h
  rcases Classical.em (u.head? = some slash) with hu | hu
  · rw [pointName_absolute hu, pointName_absolute (hhead hu)] at h
    exact hne h
  · rw [pointName, if_neg hu] at h
    rcases Classical.em (t.head? = some slash) with ht | ht
    · rw [pointName_absolute ht] at h
      exact hstart ⟨slash :: u, h⟩
    · rw [pointName, if_neg ht] at h
      exact hne (List.cons.inj (List.append_cancel_left h)).2

/-- The world in which the path itself does not resolve: the line must carry the same name. -/
theorem changePath_name (hlegal : (Command.changePath p t op).Legal)
    (h : (Command.changePath p t op).AgreesAtPoints behind₁ behind₂) (hop : isPathOp op) :
    pathText p t = t := by
  obtain ⟨hp, ht⟩ : OneWord p ∧ OneWord t := hlegal.words
  by_contra hne
  obtain ⟨text, hopen, htwo, hnul, hstart⟩ := exists_openText t
  have hlt := hlegal.path_lt
  have hle := length_pathText_le p t
  have hself : text ≠ pointName text t := by
    unfold pointName
    split
    · exact fun heq => hstart (heq ▸ List.prefix_refl text)
    · intro heq
      have hlen := congrArg List.length heq
      rw [List.length_append, List.length_cons] at hlen
      omega
  have htext : PointText text (pointName text t) := ⟨hopen.head, hnul, by rw [htwo]; decide, hself⟩
  have hbound : text.length + 1 + t.length < pathMax ∧
      text.length + 1 + (pathText p t).length < pathMax := by
    simp only [maxFromUser, pathMax] at hlt ⊢
    omega
  obtain ⟨out, hout⟩ := @fillAbsolutePath_point_user_gone (pointEnv p) _ _ htext ht.nul hlt
    hbound.1 behind₂
  exact changePath_apart hlegal h hop htext hopen hbound.2 (pointName_ne hne hstart head_pathText)
    ⟨_, out, hout, .inl (fail_neg _)⟩

theorem exists_openText_length {n : Nat} (h : 2 ≤ n) :
    ∃ text, OpenText text ∧ text.length = n ∧ (0 : UInt8) ∉ text := by
  obtain ⟨k, rfl⟩ : ∃ k, n = k + 2 := ⟨n - 2, by omega⟩
  refine ⟨slash :: 97 :: List.replicate k 97, ⟨97, _, rfl, .inl rfl⟩, by simp, ?_⟩
  rw [List.mem_cons, List.mem_cons, List.mem_replicate]
  rintro (h0 | h0 | ⟨-, h0⟩)
  · exact absurd h0 (by decide)
  · exact absurd h0 (by decide)
  · exact absurd h0 (by decide)

theorem drop_behind (t before tail : List UInt8) :
    (List.replicate t.length (0 : UInt8) ++ 0 :: (before ++ tail)).drop
      (t.length + 1 + before.length) = tail := by
  have hassoc : List.replicate t.length (0 : UInt8) ++ 0 :: (before ++ tail) =
      (List.replicate t.length 0 ++ 0 :: before) ++ tail := by simp
  rw [hassoc, List.drop_left']
  rw [List.length_append, List.length_replicate, List.length_cons]
  omega

/-- The world in which the dentry's text ends where a byte stands behind the path: there must be
none. -/
theorem changePath_behind (hlegal : (Command.changePath p t op).Legal)
    (h : (Command.changePath p t op).AgreesAtPoints behind₁ behind₂) (hop : isPathOp op)
    (hs : t.head? = some slash) :
    ∀ b ∈ behind₂.take (maxFromUser - (t.length + 1)), b = 0 := by
  obtain ⟨hp, ht⟩ : OneWord p ∧ OneWord t := hlegal.words
  have hname := changePath_name hlegal h hop
  have hlt := hlegal.path_lt
  intro b hb
  by_contra hne
  obtain ⟨rest, heq, -⟩ := copyFromUser_behind hlt pathMax behind₂
  obtain ⟨before, after, hsplit⟩ := List.append_of_mem hb
  have hshort : t.length + 1 + before.length < maxFromUser := by
    have hle := List.length_take_le (maxFromUser - (t.length + 1)) behind₂
    rw [hsplit, List.length_append, List.length_cons] at hle
    omega
  have htpos : 0 < t.length := by
    cases t with
    | nil => exact absurd hs (by simp)
    | cons x t => exact Nat.succ_pos _
  -- the text ends where `b` stands, and is followed by it after the copy
  obtain ⟨text, hopen, hlen, hnul⟩ := @exists_openText_length (t.length + 1 + before.length)
    (by omega)
  set gone := text ++ b :: cstr (after ++ rest) with hgone
  have hlonger : text.length < gone.length := by
    rw [hgone, List.length_append, List.length_cons]
    omega
  have htext : PointText text gone := by
    refine ⟨hopen.head, hnul, ?_, fun h0 => ?_⟩
    · rw [hlen]
      exact Nat.lt_trans hshort (by decide)
    · rw [← h0] at hlonger
      exact lt_irrefl _ hlonger
  have htne : t ≠ gone := by
    rintro rfl
    omega
  have hk : (pointVfs text gone).kernPath pointTask.cwd t = .ok () :=
    pointVfs_kernPath (by rwa [pointName_absolute hs])
  have hfill : fillAbsolutePath (pointEnv p) (pointVfs text gone) pointTask pointTask.alloc
      (fromUserPath (t ++ 0 :: behind₂)) = .ok (0, text ++ b :: (after ++ rest)) := by
    have hraw := @fillAbsolutePath_behind _ (pointEnv p) _ _ pointTask.alloc t
      (before ++ (b :: (after ++ rest))) _ (pointVfs_singleMount htext) rfl ht.nul hs hk
    have hdPath : (pointVfs text gone).dPath () = text := rfl
    rw [hdPath, hlen, drop_behind] at hraw
    rw [fromUserPath, heq, hsplit, List.append_assoc, List.cons_append]
    exact hraw
  have hlast : (pointVfs text gone).kernPath () (cstr (text ++ b :: (after ++ rest))) =
      .error .enoent := by
    have hcstr : cstr (text ++ b :: (after ++ rest)) = gone := by
      rw [cstr_append_of_notMem hnul, cstr_cons hne]
    rw [hcstr]
    refine pointVfs_kernPath_gone (pointName_absolute ?_)
    exact (hopen.extend (List.prefix_append ..)).head
  have hfit : text.length + 1 + (pathText p t).length < pathMax := by
    rw [hname, hlen]
    simp only [maxFromUser, pathMax] at hshort ⊢
    omega
  have hline : pointName text (pathText p t) ≠ gone := by
    rw [hname, pointName_absolute hs]
    exact htne
  exact changePath_apart hlegal h hop htext hopen hfit hline ⟨0, _, hfill, .inr ⟨rfl, _, hlast⟩⟩

theorem changePath_plain (hlegal : (Command.changePath p t op).Legal)
    (h : (Command.changePath p t op).AgreesAtPoints behind₁ behind₂) :
    (Command.changePath p t op).Plain behind₂ := by
  intro hop
  obtain ⟨hseen, hread, hop'⟩ := changePath_understood hlegal h hop
  obtain ⟨hopt, hpth, hpth'⟩ := pathText_eq_iff.mp (changePath_name hlegal h hop)
  have hpwd' : ¬ pwdKey <+: t := by
    -- the password would be the option `-opt`, which hides the path
    intro hpwd
    rw [readPwd, if_pos hpwd] at hread
    rw [hopt (hread ▸ List.prefix_refl optKey)] at hpwd
    exact absurd hpwd (by decide)
  have hpwd : ¬ pwdKey <+: p := by
    intro hpwd
    rw [readPwd, if_neg hpwd', if_pos hpwd] at hread
    exact pwdKey_isOption.unique pthKey_isOption (by decide) hpwd (hread ▸ List.prefix_refl pthKey)
  have hopt' : ¬ optKey <+: t := by
    intro hopt
    rw [readOp, if_pos hopt] at hop'
    exact absurd hop' (by decide)
  have hnull : p ≠ nullText := fun h0 => hseen (.inr (hread.trans h0))
  have hnull' : t ≠ nullText := by
    intro h0
    refine hseen (.inl ⟨fun ho => ?_, h0⟩)
    rw [hopt ho] at h0
    exact absurd h0 (by decide)
  exact ⟨⟨hnull, hnull'⟩, ⟨hpwd, hopt, hpth⟩, ⟨hpwd', hpth', hopt'⟩, changePath_behind hlegal h hop⟩

end

/-! ## The exact condition -/

theorem Command.Agrees.atPoints {c : Command} {behind₁ behind₂ : List UInt8}
    (h : c.Agrees behind₁ behind₂) : c.AgreesAtPoints behind₁ behind₂ :=
  fun _ password state list => h Unit (pointEnv password) _ pointTask
    (pointState password state list) rfl

/-- In the worlds with one dentry agreement is enough for a command to be plain. -/
theorem plain_of_agreesAtPoints {c : Command} {behind₁ behind₂ : List UInt8} (hlegal : c.Legal)
    (h : c.AgreesAtPoints behind₁ behind₂) : c.Plain behind₂ := by
  cases c with
  | changeState p state => exact changeState_plain hlegal h
  | changePath p t op => exact changePath_plain hlegal h
  | changePassword o n => exact changePassword_plain hlegal h

/-- The interfaces agree on a command exactly when its values are read as they are. -/
theorem agrees_iff {c : Command} (hlegal : c.Legal) (behind₁ behind₂ : List UInt8) :
    c.Agrees behind₁ behind₂ ↔ c.Plain behind₂ := by
  constructor
  · intro h
    exact plain_of_agreesAtPoints hlegal h.atPoints
  · intro hplain δ env v task s halloc
    exact hplain.sameOutcome hlegal halloc

/-- A path that stands alone in user memory and looks like no option: the interfaces agree. -/
theorem agrees_iff_alias :
    (Command.changePath (ascii "topsecret") (ascii "/tmp/alias") addPathOp).Legal ∧
    (Command.changePath (ascii "topsecret") (ascii "/tmp/alias") addPathOp).Agrees [7] [0, 0] := by
  have hlegal : (Command.changePath (ascii "topsecret") (ascii "/tmp/alias") addPathOp).Legal :=
    ⟨⟨by decide, by decide⟩, by decide⟩
  refine ⟨hlegal, (agrees_iff hlegal [7] [0, 0]).mpr fun _ => ?_⟩
  exact ⟨⟨by decide, by decide⟩, ⟨by decide, by decide, by decide⟩,
    ⟨by decide, by decide, by decide⟩, fun _ b hb => by simpa using List.mem_of_mem_take hb⟩

/-! ## Two commands that are told apart -/

def failed : Except Fault (Int × State) → Bool
  | .ok (r, _) => decide (r < 0)
  | .error _ => true

theorem not_sameOutcome {a b : Except Fault (Int × State)} (h : failed a ≠ failed b) :
    ¬ SameOutcome a b := by
  intro hsame
  refine h ?_
  cases a with
  | error f =>
    cases b with
    | error f' => rfl
    | ok q => exact hsame.elim
  | ok p =>
    cases b with
    | error f' => exact hsame.elim
    | ok q => exact decide_eq_decide.mpr hsame.1

/-- The sample monitor in `REC_ON`, with an empty list and the given password. -/
def readyState (password : List UInt8) : State :=
  { sampleState stateRecOn true [] with pwd := (hashPlaintext sampleEnv password).getD [] }

/-- The link `/tmp/alias` is two bytes shorter than its target, and a byte that stands two places
behind it in user memory ends up behind the target: the system call asks for `/home/secretx` and
fails, the line adds `/home/secret`. The password `-pwdsecret` is the administrator's, but the
line is read with the password `-opt`. -/
theorem interfaces_told_apart :
    ((Command.changePath (ascii "topsecret") (ascii "/tmp/alias") addPathOp).Legal ∧
      ¬ SameOutcome
        ((Command.changePath (ascii "topsecret") (ascii "/tmp/alias") addPathOp).viaSyscall sampleEnv
          sampleTree.vfs (sampleTask 0 0) [] (ascii "zx") (readyState (ascii "topsecret")))
        ((Command.changePath (ascii "topsecret") (ascii "/tmp/alias") addPathOp).viaProc sampleEnv
          sampleTree.vfs (sampleTask 0 0) (readyState (ascii "topsecret")))) ∧
    ((Command.changeState (ascii "-pwdsecret") stateOff).Legal ∧
      ¬ SameOutcome
        ((Command.changeState (ascii "-pwdsecret") stateOff).viaSyscall sampleEnv sampleTree.vfs
          (sampleTask 0 0) [] [] (readyState (ascii "-pwdsecret")))
        ((Command.changeState (ascii "-pwdsecret") stateOff).viaProc sampleEnv sampleTree.vfs
          (sampleTask 0 0) (readyState (ascii "-pwdsecret")))) := by
  refine ⟨⟨⟨⟨by decide, by decide⟩, by decide⟩, ?_⟩, ⟨⟨by decide, by decide⟩, ?_⟩⟩
  · exact not_sameOutcome (by decide +kernel)
  · exact not_sameOutcome (by decide +kernel)

end RefMonitor
