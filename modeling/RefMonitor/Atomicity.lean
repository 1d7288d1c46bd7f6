import RefMonitor.Lifecycle

/-!
# Failed calls

A call of `do_change_state`, `do_change_path` or `do_change_password` that returns an error
should have changed nothing. `del_path` takes the entry it has found off the list also when the
path of that entry no longer resolves, and then returns the error of the resolution. The entry is
the first one that starts with the given path, so it can be another one than the path that was
asked for and has just been resolved.

Results:
1. `delPath_stale`: what `del_path` does with such an entry.
2. `Made.failsClean_iff`: a failed call changes nothing exactly when there is no such entry.
3. `failures_clean_iff`: every call of every run.
-/

namespace RefMonitor
open CString Run

variable {δ : Type}

/-! ## Calls -/

/-- The calls both interfaces end in. -/
inductive DoCall
  | changeState (thePwd : List UInt8) (theState : Int)
  | changePath (thePwd thePath : List UInt8) (op : Int)
  | changePassword (oldPassword newPassword : List UInt8)

/-- A call with the thread that makes it and the namespace at that moment. -/
structure Made (δ : Type) where
  call : DoCall
  task : Task δ
  vfs : Vfs δ

def Made.run (env : Env) (c : Made δ) (s : State) : Except Fault (Int × State) :=
  match c.call with
  | .changeState thePwd theState => .ok (doChangeState env c.vfs c.task thePwd theState s)
  | .changePath thePwd thePath op => doChangePath env c.vfs c.task thePwd thePath op s
  | .changePassword oldPassword newPassword =>
    .ok (doChangePassword env c.task oldPassword newPassword s)

def Made.step (env : Env) (s : State) (c : Made δ) : Except Fault State :=
  (c.run env s).map Prod.snd

/-- If the call returns an error, the globals and the attributes of all inodes are as before. -/
def Made.FailsClean (env : Env) (s : State) (c : Made δ) : Prop :=
  ∀ r s', c.run env s = .ok (r, s') → r ≠ 0 → s' = s

/-- An accepted request to remove a path, where the first entry that starts with the path has
lost its own file. -/
def Made.StaleMatch (env : Env) (s : State) (c : Made δ) : Prop :=
  ∃ thePwd thePath full dentry entry, c.call = .changePath thePwd thePath removePathOp ∧
    PathAccepted env c.vfs c.task thePwd thePath s full dentry ∧ c.task.err = 0 ∧
    s.restrictPathList.find? (delMatches full) = some entry ∧
    targetInode c.vfs c.task entry.path = none

/-! ## The two updates of the list -/

theorem targetInode_entry {v : Vfs δ} {task : Task δ} {entry : RcuRestrict} :
    targetInode v task entry.path =
      match v.kernPath task.cwd entry.path with
      | .error _ => none
      | .ok dentry => v.dInode dentry := by
  cases hk : v.kernPath task.cwd entry.path with
  | error e => rw [targetInode, entry.cstr_path, hk]
  | ok d => rw [targetInode, entry.cstr_path, hk]

/-- `add_path` changes the list only when it returns zero. -/
theorem addPath_failed {v : Vfs δ} {task : Task δ} {alloc : Nat → Bool} {thePath : List UInt8}
    {dentry : δ} {s s' : State} {r : Int} (h : addPath v task alloc thePath dentry s = (r, s'))
    (hr : r ≠ 0) : s' = s := by
  rcases addPath_cases h with rfl | ⟨h0, _⟩
  · rfl
  · exact absurd h0 hr

/-- An entry whose path is gone is taken off the list all the same. -/
theorem delPath_stale {v : Vfs δ} {task : Task δ} {thePath : List UInt8} {s : State}
    {entry : RcuRestrict} (herr : task.err = 0)
    (hfind : s.restrictPathList.find? (delMatches thePath) = some entry)
    (hgone : targetInode v task entry.path = none) :
    ∃ e, delPath v task thePath s = (fail e, removeMatch thePath s) := by
  rw [targetInode_entry] at hgone
  rw [delPath, if_neg (not_not.mpr herr), hfind]
  dsimp only
  cases hk : v.kernPath task.cwd entry.path with
  | error e => exact ⟨e, rfl⟩
  | ok d =>
    rw [hk] at hgone
    dsimp only at hgone ⊢
    rw [hgone]
    exact ⟨.enoent, rfl⟩

theorem removeMatch_ne {thePath : List UInt8} {s : State} {entry : RcuRestrict}
    (hfind : s.restrictPathList.find? (delMatches thePath) = some entry) :
    removeMatch thePath s ≠ s := by
  intro h
  obtain ⟨before, after, hlist, herase⟩ := eraseP_delMatches hfind
  have hsame := congrArg State.restrictPathList h
  rw [removeMatch] at hsame
  dsimp only at hsame
  rw [herase, hlist] at hsame
  have hlen := congrArg List.length hsame
  rw [List.length_append, List.length_append, List.length_cons] at hlen
  omega

/-- `del_path` that fails and changes something has found an entry whose path is gone. -/
theorem delPath_failed {v : Vfs δ} {task : Task δ} {thePath : List UInt8} {s s' : State} {r : Int}
    (h : delPath v task thePath s = (r, s')) (hr : r ≠ 0) (hne : s' ≠ s) :
    task.err = 0 ∧ ∃ entry, s.restrictPathList.find? (delMatches thePath) = some entry ∧
      targetInode v task entry.path = none := by
  have herr : task.err = 0 := by
    by_contra hne'
    rw [delPath, if_pos hne'] at h
    exact hne (Prod.mk.inj h).2.symm
  refine ⟨herr, ?_⟩
  rcases delPath_cases h with rfl | ⟨entry, hfind, ⟨_, hgone⟩ | ⟨h0, _⟩⟩
  · exact absurd rfl hne
  · refine ⟨entry, hfind, ?_⟩
    cases ht : targetInode v task entry.path with
    | none => rfl
    | some i =>
      obtain ⟨d, hd, hi⟩ := targetInode_eq_some.mp ht
      rw [entry.cstr_path] at hd
      exact (hgone d i hd hi).elim
  · exact absurd h0 hr

/-! ## One call -/

/-- A failed call changes something only on a stale match. -/
theorem Made.failsClean {env : Env} {s : State} {c : Made δ} (h : ¬ c.StaleMatch env s) :
    c.FailsClean env s := by
  intro r s' hrun hr
  unfold Made.run at hrun
  split at hrun
  · rcases doChangeState_cases (Except.ok.inj hrun) with ⟨_, rfl⟩ | ⟨h0, _⟩
    · rfl
    · exact absurd h0 hr
  · next thePwd thePath op hcall =>
    rcases doChangePath_cases hrun with rfl | ⟨full, d, hacc, ⟨_, hadd⟩ | ⟨hop, hdel⟩⟩
    · rfl
    · exact addPath_failed hadd hr
    · by_contra hne
      obtain ⟨herr, entry, hfind, hgone⟩ := delPath_failed hdel hr hne
      rw [hop] at hcall
      exact h ⟨thePwd, thePath, full, d, entry, hcall, hacc, herr, hfind, hgone⟩
  · rcases doChangePassword_cases (Except.ok.inj hrun) with ⟨_, rfl⟩ | ⟨h0, _⟩
    · rfl
    · exact absurd h0 hr

theorem Made.failsClean_iff (env : Env) (s : State) (c : Made δ) :
    c.FailsClean env s ↔ ¬ c.StaleMatch env s := by
  refine ⟨fun hclean => ?_, Made.failsClean⟩
  rintro ⟨thePwd, thePath, full, d, entry, hcall, hacc, herr, hfind, hgone⟩
  obtain ⟨e, hdel⟩ := delPath_stale herr hfind hgone
  have hrun : c.run env s = .ok (fail e, removeMatch full s) := by
    rw [Made.run, hcall]
    dsimp only
    rw [hacc.doChangePath (.inr rfl), if_neg (by decide), hdel]
  exact removeMatch_ne hfind (hclean _ _ hrun (fail_ne_zero e))

/-- In every run of the three calls, from any state and with the namespace changing between the
calls in any way, each call that fails leaves everything as it was exactly when it is not a
removal whose first match has lost its file. -/
theorem failures_clean_iff (env : Env) (calls : List (Made δ)) (s : State) :
    EveryStep (fun s c => c.step env s)
      (fun s c => c.FailsClean env s ↔ ¬ c.StaleMatch env s) s calls :=
  EveryStep.of_forall (fun s c => c.failsClean_iff env s) calls s

/-! ## A removal that fails and takes an entry off the list

`root` adds `/home/secret` and `/home/secrets`, a user deletes `/home/secrets`, and `root`
removes `/home/secret`. -/

/-- The sample tree without the name `/home/secrets`. -/
def thinnedTree : NameTable :=
  { sampleTree with names := sampleTree.names.filter fun e => e.1 ≠ ascii "/home/secrets" }

theorem thinnedTree_ok : thinnedTree.Ok := by decide +kernel

def sampleMade (tree : NameTable) (call : DoCall) : Made Nat :=
  { call := call, task := sampleTask 0 0, vfs := tree.vfs }

def sampleCalls : List (Made Nat) :=
  [sampleMade sampleTree (.changeState samplePassword stateRecOff),
   sampleMade sampleTree (.changePath samplePassword (padded pathMax (ascii "/home/secret"))
     addPathOp),
   sampleMade sampleTree (.changePath samplePassword (padded pathMax (ascii "/home/secrets"))
     addPathOp),
   sampleMade thinnedTree (.changePath samplePassword (padded pathMax (ascii "/home/secret"))
     removePathOp)]

theorem sample_password_matches {s : State} (h : s.pwd = sampleDigest) :
    HashMatches sampleModule.env s samplePassword := ⟨sampleDigest, rfl, by rw [h]⟩

/-- A call that returns a result makes a step. -/
theorem Made.step_of_run {env : Env} {s s' : State} {c : Made δ} {r : Int}
    (h : c.run env s = .ok (r, s')) : c.step env s = .ok s' := by
  rw [Made.step, h]
  rfl

theorem sample_recOff {s : State} (hpwd : s.pwd = sampleDigest)
    (hoff : s.currentState = stateOff) (hlist : s.restrictPathList = []) :
    (sampleMade sampleTree (.changeState samplePassword stateRecOff)).step sampleModule.env s =
      .ok { s with currentState := stateRecOff, probes := fun _ => false } := by
  have hadmin : (sampleTask 0 0).euid = sampleModule.env.admin := rfl
  have hcheck := checkPwd_eq_zero.mpr (sample_password_matches hpwd)
  have hrun : doChangeState sampleModule.env sampleTree.vfs (sampleTask 0 0) samplePassword
      stateRecOff s = (0, { s with currentState := stateRecOff, probes := fun _ => false }) := by
    rw [doChangeState, if_neg (not_not.mpr hadmin), if_neg (by decide),
      if_neg (not_not.mpr hcheck), hoff, if_neg (by decide)]
    dsimp only
    rw [if_neg (by decide), restoreBlackListEntries]
    dsimp only
    rw [hlist]
    rfl
  exact Made.step_of_run (congrArg Except.ok hrun)

/-- `root` adds a file of the sample tree by its canonical name. -/
theorem sample_adds {s : State} {d : Nat} {i : Inode} (hpwd : s.pwd = sampleDigest)
    (hrec : s.currentState = stateRecOff) (hk : sampleTree.kernPath 0 (sampleTree.text d) = .ok d)
    (hi : sampleTree.vfs.dInode d = some i)
    (hforb : forbittenPath sampleModule.env (padded pathMax (sampleTree.text d)) = false)
    (hnew : ∀ e ∈ s.restrictPathList, e.path ≠ sampleTree.text d) :
    ∃ e, e.path = sampleTree.text d ∧
      (sampleMade sampleTree (.changePath samplePassword (padded pathMax (sampleTree.text d))
        addPathOp)).step sampleModule.env s =
        .ok { s with restrictPathList := e :: s.restrictPathList } := by
  have hm := sampleTree_singleMount
  have hd : sampleTree.vfs.Resolves d := ⟨0, _, hk⟩
  have hnul : (0 : UInt8) ∉ sampleTree.text d := hm.path_nul hd
  have hin : isPathIn s (padded pathMax (sampleTree.text d)) ≠ 0 := by
    intro h0
    obtain ⟨e, he, hpath⟩ := isPathIn_eq_zero.mp h0
    rw [cstr_padded hnul] at hpath
    exact hnew e he hpath
  have hacc := sample_accepted sampleTree_ok sampleTree_root rfl (sample_password_matches hpwd)
    (.inl hrec) hnul (Nat.le_of_lt (hm.path_lt hd)) (hm.path_slash hd) hk hforb
  exact ⟨newEntry s (padded pathMax (sampleTree.text d)) i, cstr_padded hnul pathMax,
    Made.step_of_run (hacc.adds rfl (fun _ => rfl) hi hin)⟩

/-- The removal of `/home/secret` takes the entry of `/home/secrets` and fails. -/
theorem sample_staleMatch {s : State} {e e' : RcuRestrict} (hpwd : s.pwd = sampleDigest)
    (hrec : s.currentState = stateRecOff) (hlist : s.restrictPathList = [e', e])
    (hpath : e'.path = sampleTree.text 3) :
    (sampleMade thinnedTree (.changePath samplePassword (padded pathMax (sampleTree.text 2))
      removePathOp)).StaleMatch sampleModule.env s := by
  have hacc := @sample_accepted sampleModule.env thinnedTree samplePassword (sampleTree.text 2) 2 s
    thinnedTree_ok ⟨0, ascii "/", rfl⟩ rfl (sample_password_matches hpwd) (.inl hrec) secret_nul
    (Nat.le_of_lt secret_lt) rfl rfl (by decide +kernel)
  have hstart : delMatches (padded pathMax (sampleTree.text 2)) e' = true := by
    have htext : cstr (padded pathMax (sampleTree.text 2)) = sampleTree.text 2 :=
      cstr_padded secret_nul pathMax
    rw [delMatches_iff, hpath, htext]
    decide
  refine ⟨samplePassword, _, _, 2, e', rfl, hacc, rfl, ?_, ?_⟩
  · rw [hlist]
    exact List.find?_cons_of_pos hstart
  · rw [targetInode, e'.cstr_path, hpath]
    rfl

/-- The loaded module in `REC_OFF`. -/
def sampleRecOff (list : List RcuRestrict) : State :=
  { (sampleLoaded fun _ => ⟨0o644, 0⟩).state with
    currentState := stateRecOff
    probes := fun _ => false
    restrictPathList := list }

/-- The failed removal changes the list. -/
theorem removal_fails_and_removes :
    ∃ m sys, referenceMonitorInit sampleParams sampleAnswers
        (insmod sampleParams sampleTable fun _ => ⟨0o644, 0⟩) = .ok (m, sys) ∧
      ¬ EveryStep (fun s c => c.step m.env s) (fun s c => c.FailsClean m.env s) sys.state
        sampleCalls := by
  refine ⟨sampleModule, _, sample_init _, fun h => ?_⟩
  have h1 := h.2 _ (sample_recOff rfl rfl rfl)
  obtain ⟨e, hpath, hadd⟩ := @sample_adds (sampleRecOff []) 2 ⟨0, 4⟩ rfl rfl rfl rfl
    (by decide +kernel) (fun _ hx => absurd hx List.not_mem_nil)
  have h2 := h1.2 _ hadd
  obtain ⟨e', hpath', hadd'⟩ := @sample_adds (sampleRecOff [e]) 3 ⟨0, 5⟩ rfl rfl rfl rfl
    (by decide +kernel) (fun x hx => by
      rw [List.mem_singleton.mp hx, hpath]
      decide)
  have h3 := h2.2 _ hadd'
  exact (Made.failsClean_iff _ _ _).mp h3.1 (sample_staleMatch rfl rfl rfl hpath')

end RefMonitor
