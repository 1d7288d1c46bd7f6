import RefMonitor.Mediation
import RefMonitor.RestrictSet

/-!
# Histories

The namespace does not belong to the monitor: between two of its calls users rename, delete
and replace files, mount over them and change their attributes. A state is reached by a
history in which every call meets a namespace of its own, of which only what the kernel
promises about any namespace is known (`WellNamed`), and in which attributes may have any
values after any call; the latter includes what the entry handlers do, which write
attributes and nothing else.

Results:
1. `History.probes_eq`: the probes are enabled exactly in the states that protect.
2. `History.entries`: the path of every entry is a legal absolute name.
3. `History.nodup`: no path is listed twice.
-/

namespace RefMonitor
open CString

variable {δ : Type}

/-! ## Namespaces -/

/-- What holds of names and texts in every namespace: a name of `PATH_MAX` bytes or more is
refused, and the text of a dentry is an absolute C string. -/
structure WellNamed (v : Vfs δ) : Prop where
  name_lt : ∀ {cwd d : δ} {name : List UInt8}, v.kernPath cwd name = .ok d → name.length < pathMax
  text_slash : ∀ {d : δ}, v.Resolves d → (v.dPath d).head? = some slash
  text_nul : ∀ {d : δ}, v.Resolves d → (0 : UInt8) ∉ v.dPath d

/-- A table of names that are all short enough. -/
theorem NameTable.wellNamed {t : NameTable} (hok : t.Ok)
    (hnames : ∀ e ∈ t.names, e.1.length < pathMax) : WellNamed t.vfs where
  name_lt {cwd d name} hk := by
    obtain ⟨e, he, heq, _⟩ := NameTable.find_mem hk
    have hlt := hnames e he
    rw [heq] at hlt
    split at hlt
    · exact hlt
    · rw [List.length_append, List.length_cons] at hlt
      omega
  text_slash hd := (hok.target hd).2.2.1
  text_nul hd := (NameTable.singleMount hok).path_nul hd

theorem sampleTree_wellNamed : WellNamed sampleTree.vfs :=
  NameTable.wellNamed sampleTree_ok (by decide +kernel)

/-! ## Histories -/

/-- The states the monitor's calls lead to, each in a namespace of its own. -/
inductive History (δ : Type) (env : Env) : State → Prop
  | loaded {s : State} : s.currentState = stateOff → (∀ k, s.probes k = false) →
      s.restrictPathList = [] → History δ env s
  | changeState {v : Vfs δ} {task : Task δ} {thePwd : List UInt8} {theState r : Int}
      {s s' : State} : History δ env s → WellNamed v →
      doChangeState env v task thePwd theState s = (r, s') → History δ env s'
  | changePath {v : Vfs δ} {task : Task δ} {thePwd thePath : List UInt8} {op r : Int}
      {s s' : State} : History δ env s → WellNamed v →
      doChangePath env v task thePwd thePath op s = .ok (r, s') → History δ env s'
  | changePassword {task : Task δ} {oldPassword newPassword : List UInt8} {r : Int}
      {s s' : State} : History δ env s →
      doChangePassword env task oldPassword newPassword s = (r, s') → History δ env s'
  | attributes {s : State} (inodes : Inode → Attr) : History δ env s →
      History δ env { s with inodes := inodes }

/-- An entry's path is a legal absolute name. -/
structure RcuRestrict.Legal (e : RcuRestrict) : Prop where
  slash_first : e.path.head? = some slash
  path_lt : e.path.length < pathMax

theorem RcuRestrict.Legal.ne_nil {e : RcuRestrict} (h : e.Legal) : e.path ≠ [] := by
  intro h0
  have hs := h.slash_first
  rw [h0] at hs
  exact absurd hs (by simp)

/-- A result of zero: the buffer with the absolute name, and the dentry that name resolves to. -/
theorem fillAbsolutePath_steps {env : Env} {v : Vfs δ} {task : Task δ} {alloc : Nat → Bool}
    {buf out : List UInt8} (hnul : ∀ d, v.Resolves d → (0 : UInt8) ∉ v.dPath d)
    (h : fillAbsolutePath env v task alloc buf = .ok (0, out)) :
    ∃ pathname d, (if buf.headD 0 ≠ slash then resolveRelativePath env v task (alloc 0) buf
        else .ok (0, buf)) = .ok (0, pathname) ∧
      v.kernPath task.cwd (cstr pathname) = .ok d ∧ cstr out = v.dPath d ++
        cstr ((memsetZero pathname 0 (strlen pathname)).drop (v.dPath d).length) := by
  unfold fillAbsolutePath at h
  dsimp only at h
  split at h
  · cases h
  · next err pathname hres =>
    split at h
    · next herr => exact absurd (Prod.mk.inj (Except.ok.inj h)).1 herr
    · next herr =>
      rw [not_not.mp herr] at hres
      split at h
      · exact absurd (Prod.mk.inj (Except.ok.inj h)).1 (fail_ne_zero _)
      · next d hk =>
        split at h
        · exact absurd (Prod.mk.inj (Except.ok.inj h)).1 (fail_ne_zero _)
        · split at h
          · cases h
          · next buffer at_ hraw =>
            have htext := cstr_dentryPathRaw (hnul d ⟨_, _, hk⟩) hraw
            obtain ⟨-, rfl⟩ := Prod.mk.inj (Except.ok.inj h)
            refine ⟨pathname, d, hres, hk, ?_⟩
            rw [cstr_strncpy_strlen, strlen, htext]

/-- `fill_absolute_path` leaves a text that starts like that of a dentry. -/
theorem fillAbsolutePath_text {env : Env} {v : Vfs δ} {task : Task δ} {alloc : Nat → Bool}
    {buf out : List UInt8} (hv : WellNamed v)
    (h : fillAbsolutePath env v task alloc buf = .ok (0, out)) :
    ∃ d, v.Resolves d ∧ v.dPath d <+: cstr out := by
  obtain ⟨pathname, d, -, hk, htext⟩ := fillAbsolutePath_steps (fun _ => hv.text_nul) h
  rw [htext]
  exact ⟨d, ⟨_, _, hk⟩, List.prefix_append _ _⟩

/-- What `add_path` is given is a legal absolute name. -/
theorem PathAccepted.legal {env : Env} {v : Vfs δ} {task : Task δ}
    {thePwd thePath full : List UInt8} {dentry : δ} {s : State} (hv : WellNamed v)
    (h : PathAccepted env v task thePwd thePath s full dentry) (i : Inode) :
    (newEntry s full i).Legal := by
  refine ⟨?_, hv.name_lt h.resolves⟩
  obtain ⟨d, hd, rest, htext⟩ := fillAbsolutePath_text hv h.absolute
  show (cstr full).head? = some slash
  rw [← htext, List.head?_append, hv.text_slash hd]
  rfl

/-! ## What every history keeps -/

/-- The list after a call of `do_change_path`: as it was, with a legal path that was not listed
at its head, or without the first match of an accepted path. -/
inductive ListChange (s s' : State) : Prop
  | same : s'.restrictPathList = s.restrictPathList → ListChange s s'
  | added {e : RcuRestrict} : e.Legal → e.path ∉ s.paths →
      s'.restrictPathList = e :: s.restrictPathList → ListChange s s'
  | removed {full : List UInt8} : s'.restrictPathList =
      s.restrictPathList.eraseP (delMatches full) → ListChange s s'

theorem doChangePath_listChange {env : Env} {v : Vfs δ} {task : Task δ}
    {thePwd thePath : List UInt8} {op r : Int} {s s' : State} (hv : WellNamed v)
    (h : doChangePath env v task thePwd thePath op s = .ok (r, s')) : ListChange s s' := by
  rcases doChangePath_cases h with rfl | ⟨full, d, hacc, ⟨_, hadd⟩ | ⟨_, hdel⟩⟩
  · exact .same rfl
  · rcases addPath_cases hadd with rfl | ⟨_, hnew, i, _, rfl⟩
    · exact .same rfl
    · refine .added (hacc.legal hv i) ?_ rfl
      rw [mem_paths]
      exact fun hin => hnew (isPathIn_eq_zero.mpr hin)
  · rcases delPath_cases hdel with rfl | ⟨e, _, ⟨rfl, _⟩ | ⟨_, d, i, _, _, rfl⟩⟩
    · exact .same rfl
    · exact .removed rfl
    · exact .removed rfl

/-- The list of a state that a history leads to changes only as `do_change_path` changes it. -/
theorem History.list_induction {env : Env} {P : List RcuRestrict → Prop} (hnil : P [])
    (hcons : ∀ {e l}, e.Legal → e.path ∉ l.map (·.path) → P l → P (e :: l))
    (herase : ∀ {l} (full : List UInt8), P l → P (l.eraseP (delMatches full))) {s : State}
    (h : History δ env s) : P s.restrictPathList := by
  induction h with
  | loaded _ _ hlist => rw [hlist]; exact hnil
  | changeState _ _ hstep ih =>
    rcases doChangeState_cases hstep with ⟨_, rfl⟩ | ⟨_, _, _, _, rfl⟩
    · exact ih
    · rw [enterState_list]
      exact ih
  | changePath _ hv hstep ih =>
    cases doChangePath_listChange hv hstep with
    | same hlist => rw [hlist]; exact ih
    | added hlegal hnew hlist => rw [hlist]; exact hcons hlegal hnew ih
    | removed hlist => rw [hlist]; exact herase _ ih
  | changePassword _ hstep ih =>
    rcases doChangePassword_cases hstep with ⟨_, rfl⟩ | ⟨_, _, _, _, rfl⟩
    · exact ih
    · exact ih
  | attributes inodes _ ih => exact ih

/-- The path of every entry is a legal absolute name. -/
theorem History.entries {env : Env} {s : State} (h : History δ env s) :
    ∀ e ∈ s.restrictPathList, e.Legal := by
  refine @History.list_induction δ env (fun l => ∀ e ∈ l, e.Legal) (List.forall_mem_nil _) ?_ ?_ s h
  · intro e l hlegal _ ih e' he'
    rcases List.mem_cons.mp he' with rfl | he'
    · exact hlegal
    · exact ih e' he'
  · exact fun full ih e he => ih e (List.mem_of_mem_eraseP he)

/-- No path is listed twice. -/
theorem History.nodup {env : Env} {s : State} (h : History δ env s) : s.paths.Nodup := by
  refine @History.list_induction δ env (fun l => (l.map (·.path)).Nodup) List.nodup_nil ?_ ?_ s h
  · exact fun _ hnew ih => List.nodup_cons.mpr ⟨hnew, ih⟩
  · exact fun full ih => ih.sublist ((List.eraseP_sublist).map _)

theorem History.probes_eq {env : Env} {s : State} (h : History δ env s) : ProbesFollow s := by
  induction h with
  | loaded hstate hprobes _ => intro k; rw [hprobes k, hstate]; rfl
  | changeState _ _ hstep ih => exact ih.changeState hstep
  | changePath _ _ hstep ih => exact ih.changePath hstep
  | changePassword _ hstep ih =>
    rcases doChangePassword_cases hstep with ⟨_, rfl⟩ | ⟨_, _, _, _, rfl⟩
    · exact ih
    · exact ih
  | attributes inodes _ ih => exact ih

/-! ## Samples -/

theorem sampleRoot_authorised (state : Nat) (protects : Bool) (list : List RcuRestrict) :
    Authorised sampleEnv (sampleTask 0 0) samplePassword (sampleState state protects list) := by
  have hsample : HashMatches sampleEnv (sampleState stateOff false []) samplePassword :=
    checkPwd_eq_zero.mp (by decide +kernel)
  exact ⟨rfl, hsample⟩

theorem sampleHistory_recOn : History Nat sampleEnv (sampleState stateRecOn true []) := by
  have h : doChangeState sampleEnv sampleTree.vfs (sampleTask 0 0) samplePassword stateRecOn
      (sampleState stateOff false []) = (0, sampleState stateRecOn true []) := rfl
  exact .changeState (.loaded rfl (fun _ => rfl) rfl) sampleTree_wellNamed h

theorem sampleHistory_secret :
    History Nat sampleEnv (sampleState stateRecOn true [secretEntry]) := by
  have h := @sample_doChangePath (ascii "/home/secret") 2 addPathOp (sampleState stateRecOn true [])
    rfl rfl (by decide) (by decide) rfl rfl rfl (.inl rfl)
  exact .changePath sampleHistory_recOn sampleTree_wellNamed h

theorem sampleHistory_home : History Nat sampleEnv (sampleState stateRecOn true [homeEntry]) := by
  have h := @sample_doChangePath (ascii "/home") 1 addPathOp (sampleState stateRecOn true [])
    rfl rfl (by decide) (by decide) rfl rfl rfl (.inl rfl)
  exact .changePath sampleHistory_recOn sampleTree_wellNamed h

/-- `root` adds `/home/secret` while the monitor is off. -/
theorem sampleRecOff_add :
    doChangePath sampleEnv sampleTree.vfs (sampleTask 0 0) samplePassword
      (padded pathMax (ascii "/home/secret")) addPathOp (sampleState stateRecOff false []) =
      .ok (0, sampleState stateRecOff false [secretEntry]) := by
  have hacc := @sample_accepted sampleEnv sampleTree samplePassword (ascii "/home/secret") 2
    (sampleState stateRecOff false []) sampleTree_ok sampleTree_root rfl
    (sampleRoot_authorised stateRecOff false []).2 (.inl rfl) (by decide) (by decide) rfl rfl rfl
  exact hacc.doChangePath (.inl rfl)

theorem sampleHistory_recOff :
    History Nat sampleEnv (sampleState stateRecOff false [secretEntry]) := by
  have h : doChangeState sampleEnv sampleTree.vfs (sampleTask 0 0) samplePassword stateRecOff
      (sampleState stateOff false []) = (0, sampleState stateRecOff false []) := rfl
  exact .changePath (.changeState (.loaded rfl (fun _ => rfl) rfl) sampleTree_wellNamed h)
    sampleTree_wellNamed sampleRecOff_add

end RefMonitor
