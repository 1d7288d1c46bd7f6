import RefMonitor.Lib.Run
import RefMonitor.Histories
import RefMonitor.OpenText

/-!
# What a write-back touches

Switching the monitor off and removing an entry write the recorded attributes back. They are
there to undo the marks of denied attempts, so nothing else is to change: only the inode an
entry recorded, and only when the monitor has marked it since. But the code resolves the
entry's path when it writes and compares neither the inode number nor the attributes, so it
overwrites whatever users have done to the file in the meantime, and whatever file has the
name by then.

A run is watched: next to the state stands, for each path, which inodes have been marked since
the path was last added (`Watch`). No code reads this. Every event has a namespace of its own,
and users change attributes between the calls.

Results:
1. `probedCall_marked`: what a probed call changes, it has marked.
2. `foldl_restoreEntry_inodes`: the attributes inside the loop of the restore.
3. `write_back_frame_iff`: the runs in which write-backs undo marks and nothing else.
-/

namespace RefMonitor
open CString Run

variable {δ : Type}

/-! ## Marks -/

/-- The module's globals, with inodes that can all be written. -/
def State.writable (s : State) : State :=
  { s with inodes := fun _ => { iMode := 0o666, iFlags := 0 } }

/-- The entry handler of the call marks the inode. The handlers do not read attributes, so the
mark is seen on inodes that can all be written. -/
def MarkedBy (env : Env) (v : Vfs δ) (task : Task δ) (s : State) (call : HookCall δ) (i : Inode) :
    Prop :=
  ∃ r, entryHandler env v task s.writable call = .ok r ∧
    r.state.inodes i ≠ s.writable.inodes i

/-- One verdict in two states: the handler leaves both alone, or marks one inode in both. -/
inductive SameMark (s t : State) (r r' : HookResult) : Prop
  | none : r.state = s → r'.state = t → SameMark s t r r'
  | mark (i : Inode) : r.state = s.setAttr i (markInodeReadOnly (s.inodes i)) →
      r'.state = t.setAttr i (markInodeReadOnly (t.inodes i)) → SameMark s t r r'

section

variable {v : Vfs δ} {task : Task δ} {s t : State} (hlist : t.restrictPathList = s.restrictPathList)
include hlist

theorem checkBlackList_list (path : List UInt8) (isOpen : Bool) :
    checkBlackList v task t path isOpen = checkBlackList v task s path isOpen := by
  rw [checkBlackList, checkBlackList, hlist]

theorem dentryListed_list (allocated : Bool) (d : δ) :
    dentryListed v task allocated d t = dentryListed v task allocated d s := by
  rw [dentryListed, dentryListed, checkBlackList_list hlist]

omit hlist in
theorem markAndDeny_sameMark (buffer : List UInt8) :
    SameMark s t (markAndDeny v task buffer s) (markAndDeny v task buffer t) := by
  rcases markAndDeny_cases v task buffer s with ⟨i, hi, hs⟩ | ⟨hi, hs⟩
  · rcases markAndDeny_cases v task buffer t with ⟨j, hj, ht⟩ | ⟨hj, _⟩
    · obtain rfl := Option.some.inj (hi.symm.trans hj)
      exact .mark i (by rw [hs]; rfl) (by rw [ht]; rfl)
    · exact absurd ⟨i, hi⟩ hj
  · rcases markAndDeny_cases v task buffer t with ⟨j, hj, _⟩ | ⟨_, ht⟩
    · exact absurd ⟨j, hj⟩ hi
    · exact .none (by rw [hs]; rfl) (by rw [ht]; rfl)

theorem checkOpen_sameMark (flags : UInt32) (buffer : List UInt8) (isDir isSwap : Bool) :
    SameMark s t (checkOpen v task flags buffer isDir isSwap s)
      (checkOpen v task flags buffer isDir isSwap t) := by
  unfold checkOpen
  rw [checkBlackList_list hlist]
  split
  · exact .none rfl rfl
  · split
    · exact markAndDeny_sameMark buffer
    · split
      · exact .none rfl rfl
      · split
        · exact markAndDeny_sameMark buffer
        · exact .none rfl rfl

theorem verdict_sameMark (flags : UInt32) (text : FetchedText) :
    SameMark s t (text.verdict v task flags s) (text.verdict v task flags t) := by
  cases text with
  | nomem => exact .none rfl rfl
  | nothing => exact .none rfl rfl
  | file buffer => exact checkOpen_sameMark hlist ..
  | dir buffer => exact checkOpen_sameMark hlist ..
  | swap buffer => exact checkOpen_sameMark hlist ..

omit hlist in
theorem denyDentry_sameMark {d : δ} {r : HookResult} (h : denyDentry v d s = .ok r) :
    ∃ r', denyDentry v d t = .ok r' ∧ SameMark s t r r' := by
  obtain ⟨i, hi, rfl⟩ := denyDentry_ok h
  refine ⟨.deny (t.setAttr i (markInodeReadOnly (t.inodes i))), ?_, .mark i rfl rfl⟩
  rw [denyDentry, hi]

theorem preDoFilpOpenHandler_sameMark {env : Env} {req : OpenRequest} {r : HookResult}
    (h : preDoFilpOpenHandler env v task req s = .ok r) :
    ∃ r', preDoFilpOpenHandler env v task req t = .ok r' ∧ SameMark s t r r' := by
  unfold preDoFilpOpenHandler at h ⊢
  split at h
  · next hexempt =>
    obtain rfl := Except.ok.inj h
    exact ⟨.pass t, by rw [if_pos hexempt], .none rfl rfl⟩
  · next hexempt =>
    rw [if_neg hexempt]
    cases hu : req.uptr with
    | none =>
      rw [hu] at h
      obtain rfl := Except.ok.inj h
      exact ⟨.pass t, rfl, .none rfl rfl⟩
    | some user =>
      rw [hu] at h
      dsimp only at h ⊢
      split at h
      · next halloc =>
        obtain rfl := Except.ok.inj h
        exact ⟨.nomem t, by rw [if_pos halloc], .none rfl rfl⟩
      · next halloc =>
        rw [decideOpen_eq] at h
        obtain ⟨text, htext, rfl⟩ := returned_of_map h
        rw [if_neg halloc, decideOpen_eq, htext]
        exact ⟨_, rfl, verdict_sameMark hlist req.flags text⟩

theorem preVfsMkRmdirHandler_sameMark {d : δ} {r : HookResult}
    (h : preVfsMkRmdirHandler v task d s = .ok r) :
    ∃ r', preVfsMkRmdirHandler v task d t = .ok r' ∧ SameMark s t r r' := by
  unfold preVfsMkRmdirHandler at h ⊢
  simp only [dentryListed_list hlist]
  split at h
  · next halloc =>
    obtain rfl := Except.ok.inj h
    exact ⟨_, by rw [if_pos halloc], .none rfl rfl⟩
  · next halloc =>
    rw [if_neg halloc]
    split at h
    · obtain rfl := Except.ok.inj h
      exact ⟨.pass t, rfl, .none rfl rfl⟩
    · split at h
      · next hl =>
        rw [if_pos hl]
        exact denyDentry_sameMark h
      · next hl =>
        obtain rfl := Except.ok.inj h
        exact ⟨.pass t, by rw [if_neg hl], .none rfl rfl⟩

theorem preVfsUnlinkHandler_sameMark {d : δ} {r : HookResult}
    (h : preVfsUnlinkHandler v task d s = .ok r) :
    ∃ r', preVfsUnlinkHandler v task d t = .ok r' ∧ SameMark s t r r' := by
  unfold preVfsUnlinkHandler at h ⊢
  simp only [dentryListed_list hlist]
  split at h
  · next halloc =>
    obtain rfl := Except.ok.inj h
    exact ⟨_, by rw [if_pos halloc], .none rfl rfl⟩
  · next halloc =>
    rw [if_neg halloc]
    split at h
    · next hl =>
      rw [if_pos hl]
      exact denyDentry_sameMark h
    · next hl =>
      rw [if_neg hl]
      split at h
      · obtain rfl := Except.ok.inj h
        exact ⟨.pass t, rfl, .none rfl rfl⟩
      · split at h
        · next hl =>
          rw [if_pos hl]
          exact denyDentry_sameMark h
        · next hl =>
          obtain rfl := Except.ok.inj h
          exact ⟨.pass t, by rw [if_neg hl], .none rfl rfl⟩

theorem entryHandler_sameMark {env : Env} {call : HookCall δ} {r : HookResult}
    (h : entryHandler env v task s call = .ok r) :
    ∃ r', entryHandler env v task t call = .ok r' ∧ SameMark s t r r' := by
  cases call with
  | open_ req => exact preDoFilpOpenHandler_sameMark hlist h
  | mkdir d => exact preVfsMkRmdirHandler_sameMark hlist h
  | rmdir d => exact preVfsMkRmdirHandler_sameMark hlist h
  | unlink d => exact preVfsUnlinkHandler_sameMark hlist h

end

/-- Every inode a probed call changes is one its entry handler marks. -/
theorem probedCall_marked {env : Env} {v : Vfs δ} {task : Task δ} {s s' : State}
    {call : HookCall δ} {ax out : UInt64} {i : Inode}
    (h : probedCall env v task s call ax = .ok (out, s')) (hi : s'.inodes i ≠ s.inodes i) :
    s.probes call.hook.index = true ∧ MarkedBy env v task s call i := by
  unfold probedCall at h
  split at h
  · next hprobe =>
    split at h
    · exact absurd h (by simp)
    · next r hr =>
      obtain ⟨_, rfl⟩ := Prod.mk.inj (Except.ok.inj h)
      obtain ⟨r', hr', hsame⟩ := @entryHandler_sameMark δ v task s s.writable rfl env call r hr
      refine ⟨hprobe, r', hr', ?_⟩
      cases hsame with
      | none hs _ => exact absurd (congrFun (congrArg State.inodes hs) i) hi
      | mark j hs ht =>
        rw [hs, State.setAttr_inodes] at hi
        rw [ht, State.setAttr_inodes]
        split at hi
        · next hij =>
          rw [if_pos hij]
          show markInodeReadOnly { iMode := 0o666, iFlags := 0 } ≠ { iMode := 0o666, iFlags := 0 }
          decide
        · exact absurd rfl hi
  · obtain ⟨_, rfl⟩ := Prod.mk.inj (Except.ok.inj h)
    exact absurd rfl hi

/-! ## Watched runs -/

/-- The state, and the inodes that have been marked since a path was last added. -/
structure Watch where
  state : State
  since : List UInt8 → Inode → Prop

/-- A call of `do_change_state` or `do_change_path`, a call of a probed function, or users
giving inodes other attributes. -/
inductive WatchEvent (δ : Type)
  | changeState (v : Vfs δ) (task : Task δ) (thePwd : List UInt8) (theState : Int)
  | changePath (v : Vfs δ) (task : Task δ) (thePwd thePath : List UInt8) (op : Int)
  | attempt (v : Vfs δ) (task : Task δ) (call : HookCall δ)
  | users (inodes : Inode → Attr)

/-- A path that was not listed before a call of `do_change_path` has no marks after it: when
the call adds the path, its attributes are recorded now. -/
def WatchEvent.step (env : Env) (w : Watch) : WatchEvent δ → Except Fault Watch
  | .changeState v task thePwd theState =>
    .ok { w with state := (doChangeState env v task thePwd theState w.state).2 }
  | .changePath v task thePwd thePath op =>
    (doChangePath env v task thePwd thePath op w.state).map fun p =>
      { state := p.2, since := fun path i => path ∈ w.state.paths ∧ w.since path i }
  | .attempt v task call =>
    (probedCall env v task w.state call 0).map fun p =>
      { state := p.2
        since := fun path i => w.since path i ∨
          (w.state.probes call.hook.index = true ∧ MarkedBy env v task w.state call i) }
  | .users inodes => .ok { w with state := { w.state with inodes := inodes } }

/-- Writing an entry back changes only the inode it recorded, once that has been marked. -/
def UndoesMark (since : List UInt8 → Inode → Prop) (e : RcuRestrict) (s s' : State) : Prop :=
  ∀ i, s'.inodes i ≠ s.inodes i → e.iIno = i.iIno ∧ since e.path i

/-- That holds of every turn of the loop of `restore_black_list_entries`. -/
def RestoreUndoes (v : Vfs δ) (task : Task δ) (since : List UInt8 → Inode → Prop) (s : State) :
    Prop :=
  ∀ before e after, s.restrictPathList = before ++ e :: after →
    UndoesMark since e (before.foldl (restoreEntry v task) s)
      (restoreEntry v task (before.foldl (restoreEntry v task) s) e)

/-- The state in which `do_change_state` calls `restore_black_list_entries`. -/
def offState (theState : Int) (s : State) : State :=
  { s with currentState := theState.toNat, probes := fun _ => false }

/-- The frame of the write-backs: every entry that a switch of the state or a removal writes
back undoes a mark, and an inode that no such entry recorded, or that has not been marked,
has its attributes after the call. -/
def WatchEvent.FrameKept (env : Env) (w : Watch) : WatchEvent δ → Prop
  | .changeState v task thePwd theState =>
    ∀ s', doChangeState env v task thePwd theState w.state = (0, s') →
      (isOn theState.toNat = false → RestoreUndoes v task w.since (offState theState w.state)) ∧
      ∀ i, s'.inodes i ≠ w.state.inodes i →
        ∃ e ∈ w.state.restrictPathList, e.iIno = i.iIno ∧ w.since e.path i
  | .changePath v task thePwd thePath op =>
    ∀ r s', doChangePath env v task thePwd thePath op w.state = .ok (r, s') →
      ∀ i, s'.inodes i ≠ w.state.inodes i →
        ∃ e, w.state.restrictPathList.Perm (e :: s'.restrictPathList) ∧
          e.iIno = i.iIno ∧ w.since e.path i
  | .attempt _ _ _ => True
  | .users _ => True

/-! ## The condition -/

/-- The attributes of an inode once the entries before have been written back: the record of
the last of them that leads to it, or what it has. -/
def attrBefore (v : Vfs δ) (task : Task δ) (before : List RcuRestrict) (s : State) (i : Inode) :
    Attr :=
  match before.reverse.find? (fun e => targetInode v task e.path == some i) with
  | some e => e.recorded
  | none => s.inodes i

/-- Writing the entry back over the attributes is harmless: it leads to the inode it recorded
and that has been marked, or nothing changes. -/
def Harmless (v : Vfs δ) (task : Task δ) (since : List UInt8 → Inode → Prop) (e : RcuRestrict)
    (attrs : Inode → Attr) : Prop :=
  ∀ i, targetInode v task e.path = some i →
    (e.iIno = i.iIno ∧ since e.path i) ∨ attrs i = e.recorded

/-- Every write-back of the event is harmless: that of each entry when the monitor is switched
off, that of the first match when a removal is accepted. -/
def WatchEvent.Harmless (env : Env) (w : Watch) : WatchEvent δ → Prop
  | .changeState v task thePwd theState =>
    Authorised env task thePwd w.state → isState theState = true →
      (w.state.currentState : Int) ≠ theState → isOn theState.toNat = false →
      ∀ before e after, w.state.restrictPathList = before ++ e :: after →
        RefMonitor.Harmless v task w.since e (attrBefore v task before w.state)
  | .changePath v task thePwd thePath op =>
    op = removePathOp → task.err = 0 → ∀ full dentry e,
      PathAccepted env v task thePwd thePath w.state full dentry →
      w.state.restrictPathList.find? (delMatches full) = some e →
      RefMonitor.Harmless v task w.since e w.state.inodes
  | .attempt _ _ _ => True
  | .users _ => True

/-! ## One write-back -/

section

variable {v : Vfs δ} {task : Task δ} {since : List UInt8 → Inode → Prop}

theorem restoreEntry_gone {s : State} {e : RcuRestrict} (h : targetInode v task e.path = none) :
    restoreEntry v task s e = s := by
  unfold targetInode at h
  unfold restoreEntry
  rw [e.cstr_path] at h
  cases hk : v.kernPath task.cwd e.path with
  | error err => rfl
  | ok d =>
    rw [hk] at h
    have hd : v.dInode d = none := h
    simp only [hd]

theorem restoreEntry_found {s : State} {e : RcuRestrict} {i : Inode}
    (h : targetInode v task e.path = some i) : restoreEntry v task s e = s.setAttr i e.recorded := by
  obtain ⟨d, hk, hi⟩ := targetInode_eq_some.mp h
  rw [e.cstr_path] at hk
  simp only [restoreEntry, hk, hi]

theorem restoreEntry_inodes (s : State) (e : RcuRestrict) (i : Inode) :
    (restoreEntry v task s e).inodes i =
      if targetInode v task e.path = some i then e.recorded else s.inodes i := by
  cases htarget : targetInode v task e.path with
  | none => rw [restoreEntry_gone htarget, if_neg (by simp)]
  | some j =>
    rw [restoreEntry_found htarget, State.setAttr_inodes]
    rcases eq_or_ne i j with rfl | hne
    · rw [if_pos rfl, if_pos rfl]
    · rw [if_neg hne, if_neg (fun h => hne (Option.some.inj h).symm)]

/-- The attributes at each turn of the loop of `restore_black_list_entries`. -/
theorem foldl_restoreEntry_inodes (l : List RcuRestrict) (s : State) (i : Inode) :
    (l.foldl (restoreEntry v task) s).inodes i = attrBefore v task l s i := by
  induction l using List.reverseRecOn with
  | nil => rfl
  | append_singleton l e ih =>
    rw [List.foldl_append, List.foldl_cons, List.foldl_nil, restoreEntry_inodes, attrBefore,
      List.reverse_append, List.reverse_singleton, List.singleton_append, List.find?_cons]
    cases htarget : targetInode v task e.path == some i with
    | true => rw [if_pos (eq_of_beq htarget)]
    | false =>
      rw [if_neg (by simpa using htarget), ih, attrBefore]

theorem undoesMark_iff {s : State} {e : RcuRestrict} :
    UndoesMark since e s (restoreEntry v task s e) ↔ Harmless v task since e s.inodes := by
  constructor
  · intro hundoes i htarget
    rcases eq_or_ne (s.inodes i) e.recorded with heq | hne
    · exact .inr heq
    · refine .inl (hundoes i ?_)
      rw [restoreEntry_inodes, if_pos htarget]
      exact hne.symm
  · intro hharmless i hne
    rw [restoreEntry_inodes] at hne
    split at hne
    · next htarget => exact (hharmless i htarget).resolve_right (fun heq => hne heq.symm)
    · exact absurd rfl hne

/-- The loop that a switch of the monitor runs. -/
theorem restoreUndoes_iff {s : State} {theState : Int} :
    RestoreUndoes v task since (offState theState s) ↔
      ∀ before e after, s.restrictPathList = before ++ e :: after →
        Harmless v task since e (attrBefore v task before s) := by
  have hattrs : ∀ before, (before.foldl (restoreEntry v task) (offState theState s)).inodes =
      attrBefore v task before s :=
    fun before => funext (foldl_restoreEntry_inodes before (offState theState s))
  constructor
  · intro h before e after hlist
    rw [← hattrs before]
    exact undoesMark_iff.mp (h before e after hlist)
  · intro h before e after hlist
    have hharmless := h before e after hlist
    rw [← hattrs before] at hharmless
    exact undoesMark_iff.mpr hharmless

/-- When every turn of the loop undoes a mark, the loop changes nothing else. -/
theorem foldl_restoreEntry_kept {l : List RcuRestrict} :
    ∀ {s : State}, (∀ before e after, l = before ++ e :: after →
        UndoesMark since e (before.foldl (restoreEntry v task) s)
          (restoreEntry v task (before.foldl (restoreEntry v task) s) e)) →
      ∀ i, (l.foldl (restoreEntry v task) s).inodes i ≠ s.inodes i →
        ∃ e ∈ l, e.iIno = i.iIno ∧ since e.path i := by
  induction l with
  | nil => exact fun _ i hne => absurd rfl hne
  | cons e l ih =>
    intro s hundoes i hne
    rcases eq_or_ne ((l.foldl (restoreEntry v task) (restoreEntry v task s e)).inodes i)
      ((restoreEntry v task s e).inodes i) with hsame | hlater
    · refine ⟨e, List.mem_cons_self .., hundoes [] e l rfl i ?_⟩
      rw [List.foldl_cons, hsame] at hne
      exact hne
    · obtain ⟨e', he', hmark⟩ := ih (fun before e' after hl =>
        hundoes (e :: before) e' after (by rw [hl, List.cons_append])) i hlater
      exact ⟨e', List.mem_cons_of_mem e he', hmark⟩

end

/-! ## One event -/

section

variable {env : Env} {v : Vfs δ} {task : Task δ} {w : Watch}

theorem changeState_frame_iff {thePwd : List UInt8} {theState : Int} :
    (WatchEvent.changeState v task thePwd theState).FrameKept env w ↔
      (WatchEvent.changeState v task thePwd theState).Harmless env w := by
  constructor
  · intro hframe hauth hstate hne hoff
    obtain ⟨s', hcall⟩ := @doChangeState_succeeds δ env v task thePwd theState w.state hauth hstate hne
    exact restoreUndoes_iff.mp ((hframe s' hcall).1 hoff)
  · intro hharmless s' hcall
    rcases doChangeState_cases hcall with ⟨hneg, _⟩ | ⟨_, hauth, hstate, hne, rfl⟩
    · exact absurd hneg (by decide)
    · cases hon : isOn theState.toNat with
      | true =>
        refine ⟨fun h => absurd h (by simp), fun i hi => absurd ?_ hi⟩
        rw [enterState, if_pos hon]
      | false =>
        have hundoes : RestoreUndoes v task w.since (offState theState w.state) :=
          restoreUndoes_iff.mpr (hharmless hauth hstate hne hon)
        refine ⟨fun _ => hundoes, fun i hi => ?_⟩
        rw [enterState, if_neg (by rw [hon]; decide)] at hi
        exact foldl_restoreEntry_kept hundoes i hi

/-- The entry `del_path` took off, told from the list before and after. -/
theorem eq_of_perm_cons {l l' : List RcuRestrict} {e e' : RcuRestrict} (h : l.Perm (e :: l'))
    (h' : l.Perm (e' :: l')) : e = e' := by
  by_contra hne
  have hcount := (h.symm.trans h').count_eq e
  rw [List.count_cons_self, List.count_cons_of_ne (fun h => hne h.symm)] at hcount
  exact absurd hcount (Nat.succ_ne_self _)

theorem perm_removeMatch {s : State} {full : List UInt8} {e : RcuRestrict}
    (hfind : s.restrictPathList.find? (delMatches full) = some e) :
    s.restrictPathList.Perm (e :: (removeMatch full s).restrictPathList) := by
  obtain ⟨before, after, hlist, herased⟩ := eraseP_delMatches hfind
  show s.restrictPathList.Perm (e :: s.restrictPathList.eraseP (delMatches full))
  rw [herased, hlist]
  exact List.perm_middle

theorem changePath_frame_iff {thePwd thePath : List UInt8} {op : Int} :
    (WatchEvent.changePath v task thePwd thePath op).FrameKept env w ↔
      (WatchEvent.changePath v task thePwd thePath op).Harmless env w := by
  constructor
  · rintro hframe rfl herr full dentry e hacc hfind i htarget
    obtain ⟨d, hk, hi⟩ := targetInode_eq_some.mp htarget
    rw [e.cstr_path] at hk
    have hcall := hacc.doChangePath (.inr rfl)
    rw [if_neg (by decide), delPath_found herr hfind hk hi] at hcall
    rcases eq_or_ne (w.state.inodes i) e.recorded with heq | hne
    · exact .inr heq
    · obtain ⟨e', hperm, hmark⟩ := hframe _ _ hcall i (by
        rw [State.setAttr_inodes, if_pos rfl]
        exact hne.symm)
      obtain rfl := eq_of_perm_cons (perm_removeMatch hfind) hperm
      exact .inl hmark
  · intro hharmless r s' hcall i hi
    rcases doChangePath_cases hcall with rfl | ⟨full, dentry, hacc, ⟨_, hadd⟩ | ⟨hop, hdel⟩⟩
    · exact absurd rfl hi
    · rcases addPath_cases hadd with rfl | ⟨_, _, _, _, rfl⟩
      · exact absurd rfl hi
      · exact absurd rfl hi
    · rcases ne_or_eq task.err 0 with herr | herr
      · rw [delPath, if_pos herr] at hdel
        obtain ⟨_, rfl⟩ := Prod.mk.inj hdel
        exact absurd rfl hi
      · rcases delPath_cases hdel with rfl | ⟨e, hfind, ⟨rfl, _⟩ | ⟨_, d, j, hk, hj, rfl⟩⟩
        · exact absurd rfl hi
        · exact absurd rfl hi
        · refine ⟨e, perm_removeMatch hfind, ?_⟩
          rw [State.setAttr_inodes] at hi
          split at hi
          · next hij =>
            have htarget : targetInode v task e.path = some i :=
              targetInode_eq_some.mpr ⟨d, by rw [e.cstr_path]; exact hk, by rw [hij]; exact hj⟩
            exact (hharmless hop herr full dentry e hacc hfind i htarget).resolve_right
              (fun heq => hi heq.symm)
          · exact absurd rfl hi

theorem frameKept_iff (event : WatchEvent δ) : event.FrameKept env w ↔ event.Harmless env w := by
  cases event with
  | changeState v task thePwd theState => exact changeState_frame_iff
  | changePath v task thePwd thePath op => exact changePath_frame_iff
  | attempt v task call => exact Iff.rfl
  | users inodes => exact Iff.rfl

end

/-! ## Whole runs -/

/-- Write-backs touch only what the monitor changed in exactly those runs in which every
write-back is harmless in the state it is made in. -/
theorem write_back_frame_iff (env : Env) (w : Watch) (events : List (WatchEvent δ)) :
    EveryStep (fun w e => WatchEvent.step env w e) (fun w e => WatchEvent.FrameKept env w e) w
        events ↔
      EveryStep (fun w e => WatchEvent.step env w e) (fun w e => WatchEvent.Harmless env w e) w
        events :=
  ⟨EveryStep.imp (fun h => (frameKept_iff _).mp h), EveryStep.imp (fun h => (frameKept_iff _).mpr h)⟩

/-- `/home/secret` is added while the monitor is off, its owner takes the read permission of
others away, and `root` goes from `REC_OFF` to `OFF`. -/
def chmodRun : List (WatchEvent Nat) :=
  [.changeState sampleTree.vfs (sampleTask 0 0) samplePassword stateRecOff,
   .changePath sampleTree.vfs (sampleTask 0 0) samplePassword
     (padded pathMax (ascii "/home/secret")) addPathOp,
   .users fun i => if i = ⟨0, 4⟩ then { iMode := 0o600, iFlags := 0 }
     else { iMode := 0o644, iFlags := 0 },
   .changeState sampleTree.vfs (sampleTask 0 0) samplePassword stateOff]

/-- The monitor has marked nothing, and the file gets its old mode back. -/
theorem chmod_overwritten :
    (sampleState stateOff false []).currentState = stateOff ∧
    (∀ k, (sampleState stateOff false []).probes k = false) ∧
    (sampleState stateOff false []).restrictPathList = [] ∧
    ¬ EveryStep (fun w e => WatchEvent.step sampleEnv w e)
      (fun w e => WatchEvent.FrameKept sampleEnv w e)
      { state := sampleState stateOff false [], since := fun _ _ => False } chmodRun := by
  refine ⟨rfl, fun _ => rfl, rfl, fun h => ?_⟩
  have h1 := h.2 { state := sampleState stateRecOff false [], since := fun _ _ => False } rfl
  have hadd : WatchEvent.step sampleEnv
      { state := sampleState stateRecOff false [], since := fun _ _ => False }
      (.changePath sampleTree.vfs (sampleTask 0 0) samplePassword
        (padded pathMax (ascii "/home/secret")) addPathOp) =
      .ok { state := sampleState stateRecOff false [secretEntry]
            since := fun path _ => path ∈ (sampleState stateRecOff false []).paths ∧ False } := by
    simp only [WatchEvent.step, sampleRecOff_add]
    rfl
  have h3 := (h1.2 _ hadd).2 _ rfl
  -- the last switch restores the mode the file had when it was added
  obtain ⟨_, _, _, hmark⟩ := (h3.1 _ rfl).2 ⟨0, 4⟩ (by decide)
  exact hmark.2

end RefMonitor
