import RefMonitor.RestrictList
import RefMonitor.NameTable

/-!
# The restrict list as a set of paths

What the list is for is a set: `add_path` inserts a path, `del_path` erases it,
`check_black_list` asks for membership. The abstract model is a `Finset` of path names; a
list refines it when its paths are that set and no path occurs twice.

`add_path` and `check_black_list` keep to this model from every list. `del_path` takes the
first entry that *starts with* the given path, so it keeps to the model exactly when the
first such entry is the path's own.

Results:
1. `conforms_add`: adding is inserting.
2. `conforms_del_iff`: removing is erasing exactly when the call meets its own entry first.
3. `runConforms_iff`: a run of calls implements the set exactly when every removal in it does.
-/

namespace RefMonitor
open CString

variable {δ : Type}

/-! ## Calls and the abstract set -/

inductive ListOp
  | add | del
deriving DecidableEq, Repr

/-- One call of `add_path` or `del_path`, with the namespace and the thread at that moment
and, for `add_path`, the dentry the caller found. -/
structure ListCall (δ : Type) where
  op : ListOp
  path : List UInt8
  dentry : δ
  vfs : Vfs δ
  task : Task δ

/-- The path name in the call's buffer. -/
def ListCall.name (c : ListCall δ) : List UInt8 := cstr c.path

def ListCall.run (c : ListCall δ) (s : State) : Int × State :=
  match c.op with
  | .add => addPath c.vfs c.task c.task.alloc c.path c.dentry s
  | .del => delPath c.vfs c.task c.path s

/-- The local `err` reads as zero, allocations succeed and the path exists. -/
structure ListCall.Ready (c : ListCall δ) : Prop where
  err : c.task.err = 0
  alloc : ∀ k, c.task.alloc k = true
  resolves : c.vfs.kernPath c.task.cwd c.name = .ok c.dentry
  inode : ∃ i, c.vfs.dInode c.dentry = some i

/-- What the call does to the abstract set. -/
def ListCall.onSet (c : ListCall δ) (paths : Finset (List UInt8)) : Finset (List UInt8) :=
  match c.op with
  | .add => insert c.name paths
  | .del => paths.erase c.name

def State.paths (s : State) : List (List UInt8) := s.restrictPathList.map (·.path)

/-- The list holds the set, each path once. -/
structure Refines (s : State) (paths : Finset (List UInt8)) : Prop where
  nodup : s.paths.Nodup
  mem : ∀ p, p ∈ s.paths ↔ p ∈ paths

/-- One call implements its abstract counterpart: the return value tells whether the path
was in the set, a removal takes off the path's own entry only, the list after the call
refines the set after the call, and `check_black_list` decides membership in it. -/
structure Conforms (c : ListCall δ) (s : State) (paths : Finset (List UInt8)) : Prop where
  eexist : c.op = .add → ((c.run s).1 = fail .eexist ↔ c.name ∈ paths)
  enoent : c.op = .del → ((c.run s).1 = fail .enoent ↔ c.name ∉ paths)
  own : c.op = .del → c.name ∈ paths → (c.run s).2.restrictPathList =
    s.restrictPathList.filter (fun e => e.path != c.name)
  refines : Refines (c.run s).2 (c.onSet paths)
  member : ∀ (v : Vfs δ) (task : Task δ) (q : List UInt8),
    checkBlackList v task (c.run s).2 q false = 0 ↔ cstr q ∈ c.onSet paths

/-- Every call of the run implements its abstract counterpart. -/
def RunConforms : List (ListCall δ) → State → Finset (List UInt8) → Prop
  | [], _, _ => True
  | c :: cs, s, paths => Conforms c s paths ∧ RunConforms cs (c.run s).2 (c.onSet paths)

/-- The first listed path that starts with the call's path, if there is one, is that path. -/
def ListCall.Exact (c : ListCall δ) (s : State) : Prop :=
  ∀ p, s.paths.find? (fun p => decide (c.name <+: p)) = some p → p = c.name

/-- Every removal of the run meets its own entry before any longer path. -/
def RunExact : List (ListCall δ) → State → Prop
  | [], _ => True
  | c :: cs, s => (c.op = .del → c.Exact s) ∧ RunExact cs (c.run s).2

/-! ## One call -/

theorem mem_paths {s : State} {p : List UInt8} :
    p ∈ s.paths ↔ ∃ e ∈ s.restrictPathList, e.path = p := List.mem_map

/-- On a list that refines a set, `check_black_list(q, 0)` asks for membership. -/
theorem Refines.member {s : State} {paths : Finset (List UInt8)} (h : Refines s paths)
    (v : Vfs δ) (task : Task δ) (q : List UInt8) :
    checkBlackList v task s q false = 0 ↔ cstr q ∈ paths := by
  rw [checkBlackList_eq_zero, ← h.mem, mem_paths]
  simp

theorem Refines.isPathIn {s : State} {paths : Finset (List UInt8)} (h : Refines s paths)
    (p : List UInt8) : isPathIn s p = 0 ↔ cstr p ∈ paths := by
  rw [isPathIn_eq_zero, ← h.mem, mem_paths]

theorem conforms_add {c : ListCall δ} {s : State} {paths : Finset (List UInt8)}
    (hop : c.op = .add) (hready : c.Ready) (h : Refines s paths) : Conforms c s paths := by
  have hset : c.onSet paths = insert c.name paths := by rw [ListCall.onSet, hop]
  have hnot : c.op ≠ .del := by rw [hop]; decide
  have hcall : c.run s = addPath c.vfs c.task c.task.alloc c.path c.dentry s := by
    rw [ListCall.run, hop]
  have hret : (c.run s).1 = fail .eexist ↔ c.name ∈ paths := by
    rw [hcall]
    constructor
    · intro hr
      by_contra hmem
      obtain ⟨i, hi⟩ := hready.inode
      rw [addPath_new hready.err hready.alloc hi (mt (h.isPathIn c.path).mp hmem)] at hr
      exact fail_ne_zero _ hr.symm
    · intro hmem
      rw [addPath, if_pos ((h.isPathIn c.path).mpr hmem)]
  have hrefines : Refines (c.run s).2 (c.onSet paths) := by
    rw [hcall, hset]
    rcases Classical.em (c.name ∈ paths) with hmem | hmem
    · rw [addPath, if_pos ((h.isPathIn c.path).mpr hmem), Finset.insert_eq_of_mem hmem]
      exact h
    · obtain ⟨i, hi⟩ := hready.inode
      rw [addPath_new hready.err hready.alloc hi (mt (h.isPathIn c.path).mp hmem)]
      refine ⟨?_, fun p => ?_⟩
      · exact List.nodup_cons.mpr ⟨mt (h.mem c.name).mp hmem, h.nodup⟩
      · rw [Finset.mem_insert, ← h.mem]
        exact List.mem_cons
  exact ⟨fun _ => hret, fun hd => absurd hd hnot, fun hd => absurd hd hnot, hrefines,
    hrefines.member⟩

/-- The search of `del_path` is the search of `Exact` over the entries. -/
theorem find_paths (c : ListCall δ) (s : State) :
    s.paths.find? (fun p => decide (c.name <+: p)) =
      (s.restrictPathList.find? (delMatches c.path)).map (·.path) := by
  have hpred : (fun p => decide (c.name <+: p)) ∘ RcuRestrict.path = delMatches c.path := by
    funext e
    rw [Function.comp_apply, Bool.eq_iff_iff, decide_eq_true_iff, delMatches_iff, ListCall.name]
  rw [State.paths, List.find?_map, hpred]

/-- The list after a removal that took `e`, in either outcome of the attribute restore. -/
theorem delPath_list {c : ListCall δ} {s : State} {e : RcuRestrict} (hop : c.op = .del)
    (herr : c.task.err = 0) (he : s.restrictPathList.find? (delMatches c.path) = some e) :
    (c.run s).2.restrictPathList = s.restrictPathList.eraseP (delMatches c.path) := by
  simp only [ListCall.run, hop, delPath, herr, ne_eq, not_true_eq_false, if_false, he]
  cases c.vfs.kernPath c.task.cwd e.path with
  | error e => rfl
  | ok d =>
    dsimp only
    cases c.vfs.dInode d with
    | none => rfl
    | some i => rfl

/-- No other entry has the path of the match, so erasing the match is filtering that path out. -/
theorem Refines.erase_eq_filter {s : State} {paths : Finset (List UInt8)} (h : Refines s paths)
    {path : List UInt8} {e : RcuRestrict}
    (hfind : s.restrictPathList.find? (delMatches path) = some e) :
    s.restrictPathList.eraseP (delMatches path) =
      s.restrictPathList.filter (fun x => x.path != e.path) := by
  obtain ⟨before, after, hlist, herase⟩ := eraseP_delMatches hfind
  have hnodup := h.nodup
  rw [State.paths, hlist, List.map_append, List.map_cons, List.nodup_middle, List.nodup_cons,
    ← List.map_append] at hnodup
  have hother : ∀ x ∈ before ++ after, (x.path != e.path) = true := by
    intro x hx
    rw [bne_iff_ne]
    exact fun heq => hnodup.1 (List.mem_map.mpr ⟨x, hx, heq⟩)
  rw [herase, hlist, List.filter_append, List.filter_cons_of_neg (by simp), ← List.filter_append,
    List.filter_eq_self.mpr hother]

theorem conforms_del {c : ListCall δ} {s : State} {paths : Finset (List UInt8)}
    (hop : c.op = .del) (hready : c.Ready) (h : Refines s paths) (hexact : c.Exact s) :
    Conforms c s paths := by
  have hset : c.onSet paths = paths.erase c.name := by rw [ListCall.onSet, hop]
  have hnot : c.op ≠ .add := by rw [hop]; decide
  have hsearch := find_paths c s
  cases hfind : s.restrictPathList.find? (delMatches c.path) with
  | none =>
    have hmem : c.name ∉ paths := by
      intro hin
      obtain ⟨e, he, hp⟩ := mem_paths.mp ((h.mem _).mpr hin)
      have hno := List.find?_eq_none.mp hfind e he
      exact hno (delMatches_iff.mpr (by rw [hp]; exact List.prefix_refl _))
    have hcall : c.run s = (fail .enoent, s) := by
      simp [ListCall.run, hop, delPath, hready.err, hfind]
    have hrefines : Refines (c.run s).2 (c.onSet paths) := by
      rw [hcall, hset, Finset.erase_eq_of_notMem hmem]
      exact h
    refine ⟨fun ha => absurd ha hnot, fun _ => ?_, fun _ hin => absurd hin hmem, hrefines,
      hrefines.member⟩
    rw [hcall]
    exact ⟨fun _ => hmem, fun _ => rfl⟩
  | some e =>
    have hpath : e.path = c.name := hexact e.path (by rw [hsearch, hfind]; rfl)
    have hmem : c.name ∈ paths :=
      (h.mem _).mp (mem_paths.mpr ⟨e, List.mem_of_find?_eq_some hfind, hpath⟩)
    have hown : (c.run s).2.restrictPathList =
        s.restrictPathList.filter (fun e => e.path != c.name) := by
      rw [delPath_list hop hready.err hfind, h.erase_eq_filter hfind, hpath]
    have hrefines : Refines (c.run s).2 (c.onSet paths) := by
      refine ⟨?_, fun p => ?_⟩
      · rw [State.paths, hown]
        exact h.nodup.sublist (List.filter_sublist.map _)
      · rw [mem_paths, hown, hset, Finset.mem_erase, ← h.mem, mem_paths]
        constructor
        · rintro ⟨x, hx, rfl⟩
          obtain ⟨hx, hne⟩ := List.mem_filter.mp hx
          exact ⟨by simpa using hne, x, hx, rfl⟩
        · rintro ⟨hne, x, hx, rfl⟩
          exact ⟨x, List.mem_filter.mpr ⟨hx, by simpa using hne⟩, rfl⟩
    have hret : (c.run s).1 = 0 := by
      obtain ⟨i, hi⟩ := hready.inode
      simp [ListCall.run, hop, delPath, hready.err, hfind, hpath, hready.resolves, hi]
    refine ⟨fun ha => absurd ha hnot, fun _ => ?_, fun _ _ => hown, hrefines, hrefines.member⟩
    rw [hret]
    exact ⟨fun hr => absurd hr.symm (fail_ne_zero _), fun hn => absurd hmem hn⟩

/-- A removal that conforms meets its own entry first: taking off a longer path loses a
member of the set. -/
theorem exact_of_conforms {c : ListCall δ} {s : State} {paths : Finset (List UInt8)}
    (hop : c.op = .del) (hready : c.Ready) (h : Refines s paths) (hc : Conforms c s paths) :
    c.Exact s := by
  intro p hp
  rw [find_paths] at hp
  obtain ⟨e, hfind, rfl⟩ := Option.map_eq_some_iff.mp hp
  by_contra hne
  obtain ⟨before, after, hlist, herase⟩ := eraseP_delMatches hfind
  have hnodup := h.nodup
  rw [State.paths, hlist, List.map_append, List.map_cons, List.nodup_middle, List.nodup_cons,
    ← List.map_append] at hnodup
  have hin : e.path ∈ c.onSet paths := by
    rw [ListCall.onSet, hop, Finset.mem_erase, ← h.mem]
    exact ⟨hne, mem_paths.mpr ⟨e, List.mem_of_find?_eq_some hfind, rfl⟩⟩
  rw [← hc.refines.mem, State.paths, delPath_list hop hready.err hfind, herase] at hin
  exact hnodup.1 hin

theorem conforms_del_iff {c : ListCall δ} {s : State} {paths : Finset (List UInt8)}
    (hop : c.op = .del) (hready : c.Ready) (h : Refines s paths) :
    Conforms c s paths ↔ c.Exact s :=
  ⟨exact_of_conforms hop hready h, conforms_del hop hready h⟩

theorem conforms_iff {c : ListCall δ} {s : State} {paths : Finset (List UInt8)}
    (hready : c.Ready) (h : Refines s paths) :
    Conforms c s paths ↔ (c.op = .del → c.Exact s) := by
  cases hop : c.op with
  | add => exact ⟨fun _ hd => absurd hd (by decide), fun _ => conforms_add hop hready h⟩
  | del => exact (conforms_del_iff hop hready h).trans ⟨fun he _ => he, fun he => he rfl⟩

/-! ## Whole runs -/

theorem runConforms_iff_of_refines {calls : List (ListCall δ)} :
    ∀ {s : State} {paths : Finset (List UInt8)}, (∀ c ∈ calls, c.Ready) → Refines s paths →
      (RunConforms calls s paths ↔ RunExact calls s) := by
  induction calls with
  | nil => exact fun _ _ => Iff.rfl
  | cons c cs ih =>
    intro s paths hready h
    have hc := conforms_iff (hready c (List.mem_cons_self ..)) h
    have hrest := fun x hx => hready x (List.mem_cons_of_mem c hx)
    constructor
    · rintro ⟨hstep, hrun⟩
      exact ⟨hc.mp hstep, (ih hrest hstep.refines).mp hrun⟩
    · rintro ⟨hstep, hrun⟩
      have hstep := hc.mpr hstep
      exact ⟨hstep, (ih hrest hstep.refines).mpr hrun⟩

/-- From the empty list, a run of `add_path` and `del_path` calls implements the set of
paths exactly when every removal meets its own path before any longer one. -/
theorem runConforms_iff {calls : List (ListCall δ)} {s : State}
    (hempty : s.restrictPathList = []) (hready : ∀ c ∈ calls, c.Ready) :
    RunConforms calls s ∅ ↔ RunExact calls s := by
  refine runConforms_iff_of_refines hready ⟨?_, fun p => ?_⟩
  · rw [State.paths, hempty]
    exact List.nodup_nil
  · rw [State.paths, hempty]
    simp

/-- A call on the sample tree by `root`. -/
def sampleCall (op : ListOp) (path : List UInt8) (dentry : Nat) : ListCall Nat :=
  { op := op, path := path, dentry := dentry, vfs := sampleTree.vfs, task := sampleTask 0 0 }

theorem sampleCall_ready {op : ListOp} {path : List UInt8} {dentry : Nat}
    (hk : sampleTree.kernPath 0 (cstr path) = .ok dentry)
    (hi : (sampleTree.vfs.dInode dentry).isSome = true) : (sampleCall op path dentry).Ready :=
  ⟨rfl, fun _ => rfl, hk, Option.isSome_iff_exists.mp hi⟩

/-- `/home/secrets` is added and `/home/secret`, which is not in the list, is removed. -/
def longerPathRun : List (ListCall Nat) :=
  [sampleCall .add (ascii "/home/secrets") 3, sampleCall .del (ascii "/home/secret") 2]

/-- The removal reports success and the protection of `/home/secrets` is gone. -/
theorem del_path_takes_longer_path :
    (∀ c ∈ longerPathRun, c.Ready) ∧
    ¬ RunConforms longerPathRun (sampleState stateRecOn true []) ∅ := by
  refine ⟨?_, ?_⟩
  · intro c hc
    simp only [longerPathRun, List.mem_cons, List.not_mem_nil, or_false] at hc
    rcases hc with rfl | rfl
    · exact sampleCall_ready rfl rfl
    · exact sampleCall_ready rfl rfl
  · rintro ⟨_, hdel, _⟩
    have hret : ((sampleCall .del (ascii "/home/secret") 2).run
        ((sampleCall .add (ascii "/home/secrets") 3).run (sampleState stateRecOn true [])).2).1 = 0 :=
      rfl
    have hout := (hdel.enoent rfl).mpr (by decide)
    rw [hret] at hout
    exact absurd hout (by decide)

/-- Adding and removing one path is a run the equivalence speaks about. -/
theorem runConforms_iff_secret :
    RunConforms [sampleCall .add (ascii "/home/secret") 2, sampleCall .del (ascii "/home/secret") 2]
      (sampleState stateRecOn true []) ∅ ↔
    RunExact [sampleCall .add (ascii "/home/secret") 2, sampleCall .del (ascii "/home/secret") 2]
      (sampleState stateRecOn true []) := by
  refine runConforms_iff rfl ?_
  intro c hc
  simp only [List.mem_cons, List.not_mem_nil, or_false] at hc
  rcases hc with rfl | rfl
  · exact sampleCall_ready rfl rfl
  · exact sampleCall_ready rfl rfl

end RefMonitor
