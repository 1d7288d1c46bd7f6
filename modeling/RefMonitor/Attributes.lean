import RefMonitor.Lib.Run
import RefMonitor.NamedFile

/-!
# The attributes of protected inodes

A denied attempt marks an inode read-only and immutable, `add_path` records the attributes
an inode has at that moment, and removing the entry or switching the monitor off writes the
record back. What the records are for is that protection leaves no trace: an inode that is
not protected any more has the attributes it had before.

The invariant (`Snapshots`) is that every entry records the original attributes of the inode
its path names, and that an inode whose attributes are not the original ones is named by an
entry. Only `add_path` can break it: it records whatever the inode has, which is the mark
when a hard link of the file is listed and an attempt on it has been denied, and it keeps a
text that names another inode when bytes are left behind the name in the caller's buffer.

The run is sequential, on one namespace, and nobody else changes modes or flags.

Results:
1. `Snapshots.restore`, `Snapshots.mark`, `Snapshots.add`, `Snapshots.remove`: one event.
2. `attributes_restored`: the attributes come back in every run whose additions are careful.
-/

namespace RefMonitor
open CString Run

variable {δ : Type}

/-! ## Events -/

/-- A call of `do_change_state` or `do_change_path`, or a call of a probed function. -/
inductive AttrEvent (δ : Type)
  | changeState (task : Task δ) (thePwd : List UInt8) (theState : Int)
  | changePath (task : Task δ) (thePwd thePath : List UInt8) (op : Int)
  | attempt (task : Task δ) (call : HookCall δ)

def AttrEvent.task : AttrEvent δ → Task δ
  | .changeState task _ _ => task
  | .changePath task _ _ _ => task
  | .attempt task _ => task

def AttrEvent.step (env : Env) (v : Vfs δ) (s : State) : AttrEvent δ → Except Fault State
  | .changeState task thePwd theState => .ok (doChangeState env v task thePwd theState s).2
  | .changePath task thePwd thePath op => (doChangePath env v task thePwd thePath op s).map Prod.snd
  | .attempt task call => (probedCall env v task s call 0).map Prod.snd

/-- The entry's path leads to the inode. -/
def Denotes (v : Vfs δ) (e : RcuRestrict) (i : Inode) : Prop :=
  ∃ cwd d, v.kernPath cwd e.path = .ok d ∧ v.dInode d = some i

/-- The attributes are back: all of them while the monitor is off, and those of every inode
no entry denotes. -/
structure Restored (v : Vfs δ) (orig : Inode → Attr) (s : State) : Prop where
  off : s.currentState = stateOff ∨ s.currentState = stateRecOff → ∀ i, s.inodes i = orig i
  unlisted : ∀ i, (∀ e ∈ s.restrictPathList, ¬ Denotes v e i) → s.inodes i = orig i

/-- An addition that goes through is careful when the inode it records carries its original
attributes at that moment, and no byte behind the name comes to stand behind its path. -/
def AttrEvent.Careful (env : Env) (v : Vfs δ) (orig : Inode → Attr) (s : State) :
    AttrEvent δ → Prop
  | .changePath task thePwd thePath op => op = addPathOp → thePath.length = pathMax ∧
    ∀ full dentry i, PathAccepted env v task thePwd thePath s full dentry →
      isPathIn s full ≠ 0 → v.dInode dentry = some i →
        s.inodes i = orig i ∧ ClearBehind v task thePath
  | _ => True

/-! ## What an entry names -/

/-- The entry was made for the inode: its path is the canonical text of a dentry of it. -/
def EntryOf (v : Vfs δ) (e : RcuRestrict) (i : Inode) : Prop :=
  ∃ d, v.Resolves d ∧ e.path = v.dPath d ∧ v.dInode d = some i ∧ e.iIno = i.iIno

theorem EntryOf.resolves {v : Vfs δ} {e : RcuRestrict} {i : Inode} (hm : SingleMount v)
    (h : EntryOf v e i) (cwd : δ) : ∃ d, v.kernPath cwd e.path = .ok d ∧ v.dInode d = some i := by
  obtain ⟨d, hd, hpath, hi, _⟩ := h
  exact ⟨d, by rw [hpath]; exact hm.roundTrip hd, hi⟩

theorem EntryOf.denotes {v : Vfs δ} {e : RcuRestrict} {i : Inode} (hm : SingleMount v)
    (h : EntryOf v e i) : Denotes v e i := by
  obtain ⟨_, ⟨cwd, _⟩, _⟩ := id h
  obtain ⟨d, hk, hi⟩ := h.resolves hm cwd
  exact ⟨cwd, d, hk, hi⟩

theorem EntryOf.unique {v : Vfs δ} {e : RcuRestrict} {i j : Inode} (hm : SingleMount v)
    (hi : EntryOf v e i) (hj : EntryOf v e j) : i = j := by
  obtain ⟨_, _, _, hdi, hnoi⟩ := hi
  obtain ⟨_, _, _, hdj, hnoj⟩ := hj
  exact hm.ino_inj hdi hdj (hnoi.symm.trans hnoj)

theorem EntryOf.eq_of_resolves {v : Vfs δ} {e : RcuRestrict} {i j : Inode} {cwd d : δ}
    (hm : SingleMount v) (h : EntryOf v e i) (hk : v.kernPath cwd e.path = .ok d)
    (hj : v.dInode d = some j) : i = j := by
  obtain ⟨d', hk', hi⟩ := h.resolves hm cwd
  obtain rfl := Except.ok.inj (hk'.symm.trans hk)
  exact Option.some.inj (hi.symm.trans hj)

theorem EntryOf.path_ne_nil {v : Vfs δ} {e : RcuRestrict} {i : Inode} (hm : SingleMount v)
    (h : EntryOf v e i) : e.path ≠ [] := by
  obtain ⟨d, hd, hpath, _⟩ := h
  intro h0
  have hs := hm.path_slash hd
  rw [← hpath, h0] at hs
  exact absurd hs (by simp)

/-- `check_black_list(buffer, 1)` found an entry of the inode the buffer leads to. -/
theorem EntryOf.of_checkBlackList {v : Vfs δ} {task : Task δ} {s : State} {buffer : List UInt8}
    {d : δ} {i : Inode} (hm : SingleMount v)
    (hentries : ∀ e ∈ s.restrictPathList, ∃ j, EntryOf v e j)
    (hlisted : checkBlackList v task s buffer true = 0)
    (hk : v.kernPath task.cwd (cstr buffer) = .ok d) (hi : v.dInode d = some i) :
    ∃ e ∈ s.restrictPathList, EntryOf v e i := by
  obtain ⟨e, he, hmatch⟩ := checkBlackList_eq_zero.mp hlisted
  obtain ⟨j, hj⟩ := hentries e he
  refine ⟨e, he, ?_⟩
  rcases hmatch with hpath | ⟨_, i', htarget, hino⟩
  · rw [← hpath] at hk
    obtain rfl := hj.eq_of_resolves hm hk hi
    exact hj
  · obtain ⟨d', hk', hi'⟩ := targetInode_eq_some.mp htarget
    obtain rfl := Except.ok.inj (hk'.symm.trans hk)
    obtain rfl := Option.some.inj (hi'.symm.trans hi)
    obtain ⟨_, _, _, hdj, hnoj⟩ := id hj
    obtain rfl := hm.ino_inj hdj hi (hnoj.symm.trans hino)
    exact hj

/-- The hooks of the directory functions found an entry of the dentry's own inode. -/
theorem EntryOf.of_dentryListed {v : Vfs δ} {task : Task δ} {s : State} {d : δ} {i : Inode}
    {allocated : Bool} (hm : SingleMount v)
    (hentries : ∀ e ∈ s.restrictPathList, ∃ j, EntryOf v e j)
    (hlisted : dentryListed v task allocated d s = true) (hi : v.dInode d = some i) :
    ∃ e ∈ s.restrictPathList, EntryOf v e i := by
  rw [dentryListed, beq_iff_eq, checkBlackList_eq_zero] at hlisted
  obtain ⟨e, he, hpath | ⟨hfalse, _⟩⟩ := hlisted
  · obtain ⟨j, hj⟩ := hentries e he
    refine ⟨e, he, ?_⟩
    rcases cstr_fillPathByDentry hm hi allocated with htext | htext
    · obtain ⟨d', hd', hpath', hi', hino⟩ := id hj
      obtain rfl := hm.path_inj hi' hi (hpath'.symm.trans (hpath.trans htext))
      obtain rfl := Option.some.inj (hi'.symm.trans hi)
      exact hj
    · exact absurd (hpath.trans htext) (hj.path_ne_nil hm)
  · exact absurd hfalse (by decide)

/-! ## The invariant -/

/-- Every entry records the original attributes of the inode it names, and an inode with
other attributes is named by an entry and seen only while the monitor protects. -/
structure Snapshots (v : Vfs δ) (orig : Inode → Attr) (s : State) : Prop where
  recorded : ∀ e ∈ s.restrictPathList, ∃ i, EntryOf v e i ∧ e.recorded = orig i
  listed : ∀ i, s.inodes i ≠ orig i → ∃ e ∈ s.restrictPathList, EntryOf v e i
  probes : ∀ k, s.probes k = isOn s.currentState
  off : isOn s.currentState = false → ∀ i, s.inodes i = orig i

theorem Snapshots.entries {v : Vfs δ} {orig : Inode → Attr} {s : State} (h : Snapshots v orig s) :
    ∀ e ∈ s.restrictPathList, ∃ i, EntryOf v e i := by
  intro e he
  obtain ⟨i, hi, _⟩ := h.recorded e he
  exact ⟨i, hi⟩

theorem Snapshots.restored {v : Vfs δ} {orig : Inode → Attr} {s : State} (hm : SingleMount v)
    (h : Snapshots v orig s) : Restored v orig s := by
  refine ⟨fun hs => h.off ?_, fun i hno => ?_⟩
  · rcases hs with hs | hs <;> rw [hs] <;> rfl
  · by_contra hne
    obtain ⟨e, he, hi⟩ := h.listed i hne
    exact hno e he (hi.denotes hm)

/-- Denying an attempt marks an inode that an entry names. -/
theorem Snapshots.mark {v : Vfs δ} {orig : Inode → Attr} {s : State} {i : Inode} {a : Attr}
    (h : Snapshots v orig s) (hon : isOn s.currentState = true)
    (hi : ∃ e ∈ s.restrictPathList, EntryOf v e i) : Snapshots v orig (s.setAttr i a) := by
  refine ⟨h.recorded, fun j hj => ?_, h.probes,
    fun hoff => absurd (hon.symm.trans hoff) (by simp)⟩
  rcases eq_or_ne j i with rfl | hne
  · exact hi
  · rw [State.setAttr_inodes, if_neg hne] at hj
    exact h.listed j hj

/-- Writing the records of some entries back: each inode is original or has no entry among
them and is as before. -/
theorem foldl_restoreEntry {v : Vfs δ} {task : Task δ} {orig : Inode → Attr} (hm : SingleMount v)
    {l : List RcuRestrict} :
    ∀ {s : State}, (∀ e ∈ l, ∃ i, EntryOf v e i ∧ e.recorded = orig i) → ∀ i,
      (l.foldl (restoreEntry v task) s).inodes i = orig i ∨
      ((∀ e ∈ l, ¬ EntryOf v e i) ∧
        (l.foldl (restoreEntry v task) s).inodes i = s.inodes i) := by
  induction l with
  | nil => exact fun _ i => .inr ⟨fun e he => absurd he (by simp), rfl⟩
  | cons e l ih =>
    intro s hrec i
    obtain ⟨j, hj, hrecj⟩ := hrec e (List.mem_cons_self ..)
    obtain ⟨d, hk, hd⟩ := hj.resolves hm task.cwd
    have hstep : restoreEntry v task s e = s.setAttr j (orig j) := by
      simp only [restoreEntry, hk, hd, hrecj]
    rcases @ih (restoreEntry v task s e) (fun e he => hrec e (List.mem_cons_of_mem _ he)) i with
      hi | ⟨hno, hi⟩
    · exact .inl hi
    · rw [hstep, State.setAttr_inodes] at hi
      rcases eq_or_ne i j with rfl | hne
      · rw [if_pos rfl] at hi
        exact .inl (by rw [List.foldl_cons, hstep]; exact hi)
      · rw [if_neg hne] at hi
        refine .inr ⟨?_, by rw [List.foldl_cons, hstep]; exact hi⟩
        intro e' he'
        rcases List.mem_cons.mp he' with rfl | he'
        · exact fun hij => hne (hij.unique hm hj)
        · exact hno e' he'

/-- Restoring all entries brings every inode back. -/
theorem Snapshots.restore {v : Vfs δ} {orig : Inode → Attr} {s s' : State} (hm : SingleMount v)
    (h : Snapshots v orig s) (hlist : s'.restrictPathList = s.restrictPathList)
    (hinodes : s'.inodes = s.inodes) (task : Task δ) (i : Inode) :
    (restoreBlackListEntries v task s').inodes i = orig i := by
  have hrec : ∀ e ∈ s'.restrictPathList, ∃ i, EntryOf v e i ∧ e.recorded = orig i := by
    rw [hlist]
    exact h.recorded
  unfold restoreBlackListEntries
  rcases @foldl_restoreEntry δ v task orig hm s'.restrictPathList s' hrec i with hi | ⟨hno, hi⟩
  · exact hi
  · rw [hi, hinodes]
    by_contra hne
    obtain ⟨e, he, hei⟩ := h.listed i hne
    rw [hlist] at hno
    exact hno e he hei

theorem Snapshots.enterState {v : Vfs δ} {orig : Inode → Attr} {s : State} (hm : SingleMount v)
    (h : Snapshots v orig s) (task : Task δ) (theState : Int) :
    Snapshots v orig (RefMonitor.enterState v task theState s) := by
  have hprobes : ∀ k, (RefMonitor.enterState v task theState s).probes k =
      isOn (RefMonitor.enterState v task theState s).currentState := by
    intro k
    rw [enterState_probes, enterState_currentState]
  have hstate := enterState_currentState v task theState s
  cases hon : isOn theState.toNat with
  | true =>
    rw [RefMonitor.enterState, if_pos hon] at hprobes hstate ⊢
    exact ⟨h.recorded, h.listed, hprobes, fun hoff => absurd (hon.symm.trans hoff) (by simp)⟩
  | false =>
    have hback := @Snapshots.restore δ v orig s { s with
      currentState := theState.toNat, probes := fun _ => false } hm h rfl rfl task
    have hlist := enterState_list v task theState s
    rw [RefMonitor.enterState, if_neg (by rw [hon]; decide)] at hprobes hstate hlist ⊢
    refine ⟨?_, fun i hi => absurd (hback i) hi, hprobes, fun _ => hback⟩
    rw [hlist]
    exact h.recorded

/-- A new entry records the original attributes. -/
theorem Snapshots.add {v : Vfs δ} {orig : Inode → Attr} {s : State} {thePath : List UInt8}
    {i : Inode} (h : Snapshots v orig s) (hentry : EntryOf v (newEntry s thePath i) i)
    (horig : s.inodes i = orig i) :
    Snapshots v orig
      { s with restrictPathList := newEntry s thePath i :: s.restrictPathList } := by
  refine ⟨fun e he => ?_, fun j hj => ?_, h.probes, h.off⟩
  · rcases List.mem_cons.mp he with rfl | he
    · exact ⟨i, hentry, by rw [newEntry_recorded, horig]⟩
    · exact h.recorded e he
  · obtain ⟨e, he, hej⟩ := h.listed j hj
    exact ⟨e, List.mem_cons_of_mem _ he, hej⟩

/-- Taking an entry off writes the original attributes back, so its inode needs no entry. -/
theorem Snapshots.remove {v : Vfs δ} {task : Task δ} {orig : Inode → Attr} {s s' : State}
    {thePath : List UInt8} {r : Int} (hm : SingleMount v) (h : Snapshots v orig s)
    (hdel : delPath v task thePath s = (r, s')) : Snapshots v orig s' := by
  rcases delPath_cases hdel with rfl | ⟨e, hfind, hout⟩
  · exact h
  · obtain ⟨i, hi, hrec⟩ := h.recorded e (List.mem_of_find?_eq_some hfind)
    obtain ⟨before, after, hlist, herase⟩ := eraseP_delMatches hfind
    rcases hout with ⟨_, hnot⟩ | ⟨_, d, j, hk, hj, rfl⟩
    · obtain ⟨d, hk, hd⟩ := hi.resolves hm task.cwd
      exact (hnot d i hk hd).elim
    · obtain rfl := hi.eq_of_resolves hm hk hj
      have hinodes : ∀ k, ((removeMatch thePath s).setAttr i e.recorded).inodes k ≠ orig k →
          k ≠ i ∧ s.inodes k ≠ orig k := by
        intro k hne
        rw [State.setAttr_inodes] at hne
        split at hne
        · next heq => exact absurd (heq ▸ hrec) hne
        · next hki => exact ⟨hki, hne⟩
      have hmem : ∀ x, x ∈ (removeMatch thePath s).restrictPathList ↔ x ∈ before ++ after := by
        intro x
        rw [removeMatch, herase]
      refine ⟨fun x hx => ?_, fun k hne => ?_, h.probes, fun hoff k => ?_⟩
      · refine h.recorded x ?_
        rw [hlist]
        rcases List.mem_append.mp ((hmem x).mp hx) with hb | ha
        · exact List.mem_append_left _ hb
        · exact List.mem_append_right _ (List.mem_cons_of_mem _ ha)
      · obtain ⟨hki, hne'⟩ := hinodes k hne
        obtain ⟨x, hx, hxk⟩ := h.listed k hne'
        refine ⟨x, (hmem x).mpr ?_, hxk⟩
        rw [hlist] at hx
        rcases List.mem_append.mp hx with hb | hx
        · exact List.mem_append_left _ hb
        · rcases List.mem_cons.mp hx with rfl | ha
          · exact absurd (hxk.unique hm hi) hki
          · exact List.mem_append_right _ ha
      · by_contra hne
        exact (hinodes k hne).2 (h.off hoff k)

/-! ## Every event keeps the invariant -/

theorem Snapshots.changePath {env : Env} {v : Vfs δ} {task : Task δ} {orig : Inode → Attr}
    {s s' : State} {thePwd thePath : List UInt8} {op r : Int} (hm : SingleMount v)
    (hcwd : v.Resolves task.cwd) (h : Snapshots v orig s)
    (hcareful : (AttrEvent.changePath task thePwd thePath op).Careful env v orig s)
    (hcall : doChangePath env v task thePwd thePath op s = .ok (r, s')) : Snapshots v orig s' := by
  rcases doChangePath_cases hcall with rfl | ⟨full, dentry, hacc, ⟨hop, hadd⟩ | ⟨_, hdel⟩⟩
  · exact h
  · rcases addPath_cases hadd with rfl | ⟨_, hnew, i, hi, rfl⟩
    · exact h
    · obtain ⟨hlen, hwhen⟩ := hcareful hop
      obtain ⟨horig, hclear⟩ := hwhen full dentry i hacc hnew hi
      obtain ⟨d, hk, hprinted⟩ :=
        fillAbsolutePath_printed (fun _ => hm.path_nul) hcwd hlen hacc.absolute
      have hd : v.Resolves d := ⟨_, _, hk⟩
      have htext : cstr full = v.dPath d := by
        refine hprinted.trans ((printedText_eq_iff v thePath d).mpr fun hslash => ?_)
        rw [absText, if_pos hslash] at hk
        exact hclear d hslash hk
      have hdentry : d = dentry := by
        have hres := hacc.resolves
        rw [htext] at hres
        exact Except.ok.inj ((hm.roundTrip hd).symm.trans hres)
      subst hdentry
      exact h.add ⟨d, hd, htext, hi, rfl⟩ horig
  · exact h.remove hm hdel

theorem Snapshots.attempt {env : Env} {v : Vfs δ} {task : Task δ} {orig : Inode → Attr}
    {s s' : State} {call : HookCall δ} {ax out : UInt64} (hm : SingleMount v)
    (h : Snapshots v orig s) (hcall : probedCall env v task s call ax = .ok (out, s')) :
    Snapshots v orig s' := by
  unfold probedCall at hcall
  split at hcall
  · next hprobe =>
    have hon : isOn s.currentState = true := by rw [← h.probes call.hook.index]; exact hprobe
    split at hcall
    · exact absurd hcall (by simp)
    · next r hentry =>
      obtain ⟨_, rfl⟩ := Prod.mk.inj (Except.ok.inj hcall)
      rcases Classical.em (call.hook = .doFilpOpen) with hopen | hdir
      · cases call with
        | open_ req =>
          cases preDoFilpOpenHandler_verdict hentry with
          | nomem hr => subst hr; exact h
          | passed hr => subst hr; exact h
          | swap hr => subst hr; exact h
          | denied hlisted hk hi hr =>
            subst hr
            exact h.mark hon (EntryOf.of_checkBlackList hm h.entries hlisted hk hi)
        | mkdir d => exact absurd hopen (by simp [HookCall.hook])
        | rmdir d => exact absurd hopen (by simp [HookCall.hook])
        | unlink d => exact absurd hopen (by simp [HookCall.hook])
      · cases entryHandler_dirVerdict hdir hentry with
        | skipped _ hr => subst hr; exact h
        | passed _ hr => subst hr; exact h
        | denied _ hlisted hi hr =>
          subst hr
          exact h.mark hon (EntryOf.of_dentryListed hm h.entries hlisted hi)
  · obtain ⟨_, rfl⟩ := Prod.mk.inj (Except.ok.inj hcall)
    exact h

theorem Snapshots.step {env : Env} {v : Vfs δ} {orig : Inode → Attr} {s s' : State}
    {event : AttrEvent δ} (hm : SingleMount v) (h : Snapshots v orig s)
    (hcareful : v.Resolves event.task.cwd ∧ event.Careful env v orig s)
    (hstep : event.step env v s = .ok s') : Snapshots v orig s' := by
  obtain ⟨hcwd, hcareful⟩ := hcareful
  cases event with
  | changeState task thePwd theState =>
    obtain rfl := Except.ok.inj hstep
    rcases doChangeState_cases
      (Prod.mk.eta (p := doChangeState env v task thePwd theState s)).symm with
      ⟨_, heq⟩ | ⟨_, _, _, _, heq⟩
    · rw [heq]
      exact h
    · rw [heq]
      exact h.enterState hm task theState
  | changePath task thePwd thePath op =>
    simp only [AttrEvent.step] at hstep
    obtain ⟨⟨r, s₁⟩, hcall, rfl⟩ := returned_of_map hstep
    exact h.changePath hm hcwd hcareful hcall
  | attempt task call =>
    simp only [AttrEvent.step] at hstep
    obtain ⟨⟨ax, s₁⟩, hcall, rfl⟩ := returned_of_map hstep
    exact h.attempt hm hcall

/-! ## Whole runs -/

/-- The attributes come back: from an empty list, in every run whose additions are careful,
every inode has its original attributes in every state in which the monitor is off, and
every inode that no entry denotes has them in every state. -/
theorem attributes_restored {env : Env} {v : Vfs δ} {s : State} {events : List (AttrEvent δ)}
    (hm : SingleMount v) (hempty : s.restrictPathList = [])
    (hprobes : ∀ k, s.probes k = isOn s.currentState)
    (hcareful : EveryStep (fun s e => e.step env v s)
      (fun t e => v.Resolves e.task.cwd ∧ e.Careful env v s.inodes t) s events) :
    EveryState (fun s e => e.step env v s) (Restored v s.inodes) s events := by
  have hinit : Snapshots v s.inodes s := by
    refine ⟨fun e he => ?_, fun i hi => absurd rfl hi, hprobes, fun _ _ => rfl⟩
    rw [hempty] at he
    exact absurd he (by simp)
  exact EveryState.of_inv (fun h => h.restored hm)
    (fun h hc hs => h.step hm hc hs) hinit hcareful

/-! ## Runs on the sample tree -/

/-- `root` adds or removes a path of the sample tree. -/
def sampleChange (path : List UInt8) (op : Int) : AttrEvent Nat :=
  .changePath (sampleTask 0 0) samplePassword (padded pathMax path) op

theorem sampleChange_step {name : List UInt8} {d : Nat} {op : Int} {s s' : State}
    (hstate : s.currentState = stateRecOn) (hpwd : s.pwd = (sampleState stateOff false []).pwd)
    (hn : (0 : UInt8) ∉ name) (hlen : name.length ≤ pathMax) (hs : name.head? = some slash)
    (hk : sampleTree.kernPath 0 name = .ok d)
    (hforb : forbittenPath sampleEnv (padded pathMax (sampleTree.text d)) = false)
    (hop : op = addPathOp ∨ op = removePathOp)
    (hout : (if op = addPathOp then
        addPath sampleTree.vfs (sampleTask 0 0) (fun _ => true)
          (padded pathMax (sampleTree.text d)) d s
      else delPath sampleTree.vfs (sampleTask 0 0) (padded pathMax (sampleTree.text d)) s).2 = s') :
    (sampleChange name op).step sampleEnv sampleTree.vfs s = .ok s' := by
  rw [sampleChange, AttrEvent.step, sample_doChangePath hstate hpwd hn hlen hs hk hforb hop, ← hout]
  split <;> rfl

/-- `/home/secret` is added, an attempt to write it is denied, and it is removed: the run is
careful, so the attributes come back. -/
theorem attributes_restored_secret :
    EveryState (fun s e => e.step sampleEnv sampleTree.vfs s)
      (Restored sampleTree.vfs (sampleState stateRecOn true []).inodes)
      (sampleState stateRecOn true [])
      [sampleChange (ascii "/home/secret") addPathOp,
       .attempt (sampleTask 1000 0)
         (.open_ (sampleOpen (ascii "/home/secret") secret_nul secret_lt oWRONLY)),
       sampleChange (ascii "/home/secret") removePathOp] := by
  have hroot : sampleTree.vfs.Resolves 0 := ⟨0, ascii "/", rfl⟩
  refine attributes_restored sampleTree_singleMount rfl (fun _ => rfl)
    ⟨⟨hroot, fun _ => ?_⟩, fun _ _ => ⟨⟨hroot, trivial⟩, fun _ _ => ⟨⟨hroot, ?_⟩,
      fun _ _ => trivial⟩⟩⟩
  · refine ⟨length_padded (by decide), fun _ _ _ _ _ _ => ⟨rfl, fun d hslash _ => ?_⟩⟩
    exact (printedText_eq_iff sampleTree.vfs _ d).mp (printedText_padded (by decide) d) hslash
  · exact fun hop => absurd hop (by decide)

/-- `/home/secret` is added, an attempt to write it is denied, its hard link `/home/link` is
added, and both are removed in the order they were added. -/
def linkRun : List (AttrEvent Nat) :=
  [sampleChange (ascii "/home/secret") addPathOp,
   .attempt (sampleTask 1000 0)
     (.open_ (sampleOpen (ascii "/home/secret") secret_nul secret_lt oWRONLY)),
   sampleChange (ascii "/home/link") addPathOp,
   sampleChange (ascii "/home/secret") removePathOp,
   sampleChange (ascii "/home/link") removePathOp]

def secretInode : Inode := ⟨0, 4⟩
def plainAttr : Attr := { iMode := 0o644, iFlags := 0 }
def linkEntry : RcuRestrict :=
  { path := ascii "/home/link", path_nul := by decide, iIno := 4
    oMode := (markInodeReadOnly plainAttr).iMode.toUInt32
    oFlags := (markInodeReadOnly plainAttr).iFlags }

/-- The states of the run, from the denial on. -/
def afterDenial (list : List RcuRestrict) (a : Attr) : State :=
  (sampleState stateRecOn true list).setAttr secretInode a

theorem afterDenial_setAttr (list : List RcuRestrict) (a b : Attr) :
    (afterDenial list a).setAttr secretInode b = afterDenial list b := by
  have hinodes : ((afterDenial list a).setAttr secretInode b).inodes =
      (afterDenial list b).inodes := by
    funext j
    rw [State.setAttr_inodes, afterDenial, afterDenial, State.setAttr_inodes, State.setAttr_inodes]
    split <;> rfl
  exact congrArg (fun inodes => { sampleState stateRecOn true list with inodes := inodes }) hinodes

theorem sampleAttempt_step :
    (AttrEvent.attempt (sampleTask 1000 0)
      (.open_ (sampleOpen (ascii "/home/secret") secret_nul secret_lt oWRONLY))).step sampleEnv
      sampleTree.vfs (sampleState stateRecOn true [secretEntry]) =
      .ok (afterDenial [secretEntry] (markInodeReadOnly plainAttr)) := by
  have hdeny := @preDoFilpOpenHandler_denies_write Nat sampleEnv sampleTree.vfs (sampleTask 1000 0)
    (sampleState stateRecOn true [secretEntry])
    (sampleOpen (ascii "/home/secret") secret_nul secret_lt oWRONLY) 2 secretInode secretEntry
    sampleTree_singleMount ⟨0, ascii "/", rfl⟩ (fun _ => rfl) ⟨1, rfl⟩ (by decide) rfl rfl
    (List.mem_singleton.mpr rfl) rfl ⟨rfl, .inr ⟨by decide, .inl rfl⟩⟩
  obtain ⟨s', h, hcall⟩ := denied_of_handler (s := sampleState stateRecOn true [secretEntry]) rfl hdeny
  obtain rfl : _ = s' := congrArg HookResult.state (Except.ok.inj (hdeny.symm.trans h))
  rw [AttrEvent.step, hcall]
  rfl

/-- At the end no path is listed and the file keeps the mark. -/
theorem mark_kept_by_hard_link :
    SingleMount sampleTree.vfs ∧ (sampleState stateRecOn true []).restrictPathList = [] ∧
    (∀ k, (sampleState stateRecOn true []).probes k =
      isOn (sampleState stateRecOn true []).currentState) ∧
    (∀ e ∈ linkRun, sampleTree.vfs.Resolves e.task.cwd) ∧
    ¬ EveryState (fun s e => e.step sampleEnv sampleTree.vfs s)
      (Restored sampleTree.vfs (sampleState stateRecOn true []).inodes)
      (sampleState stateRecOn true []) linkRun := by
  refine ⟨sampleTree_singleMount, rfl, fun _ => rfl, ?_, ?_⟩
  · intro e he
    have hcwd : e.task.cwd = 0 := by
      simp only [linkRun, List.mem_cons, List.not_mem_nil, or_false] at he
      rcases he with rfl | rfl | rfl | rfl | rfl <;> rfl
    rw [hcwd]
    exact ⟨0, ascii "/", rfl⟩
  · intro h
    have h1 := h.2 (sampleState stateRecOn true [secretEntry])
      (sampleChange_step (d := 2) rfl rfl (by decide) (by decide) rfl rfl rfl (.inl rfl) rfl)
    have h2 := h1.2 _ sampleAttempt_step
    have h3 := h2.2 (afterDenial [linkEntry, secretEntry] (markInodeReadOnly plainAttr))
      (sampleChange_step (d := 4) rfl rfl (by decide) (by decide) rfl rfl rfl (.inl rfl) rfl)
    have h4 := h3.2 (afterDenial [linkEntry] plainAttr)
      (sampleChange_step (d := 2) rfl rfl (by decide) (by decide) rfl rfl rfl (.inr rfl)
        (afterDenial_setAttr [linkEntry] (markInodeReadOnly plainAttr) plainAttr))
    have h5 := h4.2 (afterDenial [] (markInodeReadOnly plainAttr))
      (sampleChange_step (d := 4) rfl rfl (by decide) (by decide) rfl rfl rfl (.inr rfl)
        (afterDenial_setAttr [] plainAttr (markInodeReadOnly plainAttr)))
    have hback := h5.unlisted secretInode (fun e he => absurd he (by simp [afterDenial, sampleState]))
    exact absurd hback (by decide)

end RefMonitor
