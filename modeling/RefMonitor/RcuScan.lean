import RefMonitor.RestrictList
import RefMonitor.NameTable
import RefMonitor.Lib.RcuList

/-!
# The restrict list in memory

The list of protected paths is a linked list that is read under RCU. `is_path_in` and
`check_black_list` follow its pointers inside `rcu_read_lock`, with no other lock;
`add_path` links a new entry at the head, `del_path` searches, unlinks, waits with
`synchronize_rcu` and frees, and `restore_black_list_entries` walks, all three under
`restrict_path_lock`. Here the calls take one pointer at a time and interleave freely, an entry is
a node of the memory, and freed memory is handed out again by later calls.

In the other modules a call meets the list as a value that nobody changes meanwhile
(`State.restrictPathList`). The results say in which sense it is one.

Results:
1. `entries_never_faults`: no call follows a pointer to a freed entry.
2. `entries_updated`: the list in memory is what the updates of the calls that have taken the
   lock, one after the other, make of the empty list.
3. `verdict_under_updates`: what `check_black_list` answers while the list changes under it.
-/

namespace RefMonitor
open CString Run RcuList

variable {δ ν ρ : Type}

/-! ## The source's functions, pointer by pointer -/

/-- The comparison of `is_path_in`. -/
def pathTest (thePath : List UInt8) (entry : RcuRestrict) : Bool := strcmp thePath entry.path == 0

/-- The comparison of `check_black_list`, once `kern_path` has been called. -/
def blackListTest (v : Vfs δ) (task : Task δ) (path : List UInt8) (isOpen : Bool)
    (entry : RcuRestrict) : Bool :=
  strcmp path entry.path == 0 ||
    (isOpen && (targetInode v task path).any (fun i => entry.iIno == i.iIno))

/-- What the threads do to the list. -/
inductive ListEvent (δ ν ρ : Type)
  /-- `is_path_in` and `check_black_list` up to `rcu_read_lock`. -/
  | isPathIn (thread : ρ) (thePath : List UInt8)
  | checkBlackList (thread : ρ) (v : Vfs δ) (task : Task δ) (path : List UInt8) (isOpen : Bool)
  /-- One turn of a reader's loop, with `rcu_read_unlock` if it is the last. -/
  | readNext (thread : ρ)
  /-- The section of `add_path`, with the memory `kzalloc` returned. -/
  | addPath (node : ν) (entry : RcuRestrict)
  /-- `spin_lock` in `del_path` and `restore_black_list_entries`. -/
  | delPath (thePath : List UInt8)
  | restore
  /-- One turn of the loop of the thread that has the lock, with `list_del_rcu` if it is the entry
  `del_path` looks for. -/
  | lockedNext
  /-- `synchronize_rcu` begins. -/
  | synchronize
  /-- It ends, and `kfree` follows. -/
  | kfree

def ListEvent.toEvent : ListEvent δ ν ρ → Event ν RcuRestrict ρ
  | .isPathIn thread thePath => .enter thread (pathTest thePath)
  | .checkBlackList thread v task path isOpen => .enter thread (blackListTest v task path isOpen)
  | .readNext thread => .visit thread
  | .addPath node entry => .add node entry
  | .delPath thePath => .search (delMatches thePath)
  | .restore => .search fun _ => false
  | .lockedNext => .look
  | .synchronize => .sync
  | .kfree => .free

/-- The memory of the list, with the threads that are at work on it. -/
abbrev ListMemory (ν ρ : Type) := Memory ν RcuRestrict ρ

section

variable [DecidableEq ν] [DecidableEq ρ] [Fintype ρ]

def listStep (m : ListMemory ν ρ) (e : ListEvent δ ν ρ) : Except (UseAfterFree ν) (ListMemory ν ρ) :=
  RcuList.step m e.toEvent

def listRun (m : ListMemory ν ρ) (events : List (ListEvent δ ν ρ)) :
    Except (UseAfterFree ν) (ListMemory ν ρ) :=
  events.foldlM listStep m

end

/-- The return value of `check_black_list` once its loop has ended. -/
def verdict (found : Bool) : Int := if found then 0 else fail .eexist

/-- The memory holds the list: its pointers lead through these entries. -/
def Holds (m : ListMemory ν ρ) (list : List RcuRestrict) : Prop :=
  ∃ nodes, Chain m.cells m.head nodes ∧ list = nodes.map Prod.snd

/-- On a list that nobody changes, the loop is the comparison of the sequential model. -/
theorem checkBlackList_eq_verdict (v : Vfs δ) (task : Task δ) (s : State) (path : List UInt8)
    (isOpen : Bool) : checkBlackList v task s path isOpen =
      verdict (s.restrictPathList.any (blackListTest v task path isOpen)) := rfl

theorem verdict_eq_zero {found : Bool} : verdict found = 0 ↔ found = true := by
  cases found with
  | false => exact ⟨fun h => absurd h (by decide), fun h => absurd h (by decide)⟩
  | true => exact ⟨fun _ => rfl, fun _ => rfl⟩

theorem Holds.unique {m : ListMemory ν ρ} {list list' : List RcuRestrict} (h : Holds m list)
    (h' : Holds m list') : list = list' := by
  obtain ⟨nodes, hnodes, rfl⟩ := h
  obtain ⟨nodes', hnodes', rfl⟩ := h'
  rw [hnodes.unique hnodes']

/-- The thread begins a search. -/
def ListEvent.begins [DecidableEq ρ] (thread : ρ) : ListEvent δ ν ρ → Bool
  | .isPathIn t _ => t == thread
  | .checkBlackList t .. => t == thread
  | _ => false

theorem begins_of_enter [DecidableEq ρ] {thread : ρ} {e : ListEvent δ ν ρ} {query : RcuRestrict → Bool}
    (h : e.toEvent = .enter thread query) : e.begins thread = true := by
  cases e with
  | isPathIn t thePath =>
    cases h
    exact beq_self_eq_true thread
  | checkBlackList t v task path isOpen =>
    cases h
    exact beq_self_eq_true thread
  | _ => cases h

/-! ## No use after free -/

section

variable [DecidableEq ν] [DecidableEq ρ] [Fintype ρ]

theorem listRun_eq (events : List (ListEvent δ ν ρ)) :
    ∀ m : ListMemory ν ρ, listRun m events = (events.map ListEvent.toEvent).foldlM RcuList.step m := by
  induction events with
  | nil => exact fun _ => rfl
  | cons e events ih =>
    intro m
    rw [listRun, List.foldlM_cons, List.map_cons, List.foldlM_cons]
    show (listStep m e >>= fun m' => listRun m' events) = _
    simp only [ih]
    rfl

/-- Every run from the empty list goes through, whatever the order of the steps: no pointer that
is followed leads to a freed entry. -/
theorem entries_never_faults (events : List (ListEvent δ ν ρ)) :
    ∃ (m : ListMemory ν ρ) (list : List RcuRestrict),
      listRun Memory.empty events = .ok m ∧ Holds m list := by
  obtain ⟨m, nodes, hrun, hinv⟩ := never_faults (events.map ListEvent.toEvent) Inv.empty
  refine ⟨m, nodes.map Prod.snd, ?_, nodes, hinv.chain, rfl⟩
  rw [listRun_eq]
  exact hrun

/-- The memory every run leads to is a list with all pointers valid. -/
theorem listRun_inv {events : List (ListEvent δ ν ρ)} {m : ListMemory ν ρ}
    (h : listRun Memory.empty events = .ok m) : ∃ nodes, Inv m nodes := by
  obtain ⟨m', nodes, hrun, hinv⟩ := never_faults (events.map ListEvent.toEvent)
    (Inv.empty : Inv (Memory.empty : ListMemory ν ρ) [])
  rw [listRun_eq, hrun] at h
  cases h
  exact ⟨nodes, hinv⟩

end

/-! ## Updates -/

section

variable [DecidableEq ν] [DecidableEq ρ] [Fintype ρ]

/-- The updates of the calls that take `restrict_path_lock`, in the order in which they do:
`add_path` inserts its entry, `del_path` removes the first match, and `restore_black_list_entries`
looks for nothing. A call that finds the lock held takes it with a later event. -/
def updatesGranted (m : ListMemory ν ρ) (events : List (ListEvent δ ν ρ)) : List (Update RcuRestrict) :=
  granted m (events.map ListEvent.toEvent)

/-- The list in memory after any run, with any number of calls at work in any order, is what the
updates of all calls that have taken the lock make of the empty list, one after the other: each
insertion at the head, each removal of the first match. Only the removal of a thread that is still
searching with the lock held is yet to come. -/
theorem entries_updated (events : List (ListEvent δ ν ρ)) :
    ∃ (m : ListMemory ν ρ) (updates : List (Update RcuRestrict)),
      listRun Memory.empty events = .ok m ∧
      updatesGranted Memory.empty events = updates ++ m.writer.pending ∧
      Holds m (updates.foldl Update.apply []) := by
  obtain ⟨m, nodes, updates, hrun, hinv, hgranted, hlist⟩ :=
    updates_run (events.map ListEvent.toEvent) (Inv.empty : Inv (Memory.empty : ListMemory ν ρ) [])
  refine ⟨m, updates, ?_, hgranted, nodes, hinv.chain, hlist.symm⟩
  rw [listRun_eq]
  exact hrun

end

/-! ## The verdict -/

section

variable [DecidableEq ν] [DecidableEq ρ] [Fintype ρ]

theorem everyState_toEvent {P : ListMemory ν ρ → Prop} {events : List (ListEvent δ ν ρ)} :
    ∀ {m : ListMemory ν ρ}, EveryState listStep P m events →
      EveryState RcuList.step P m (events.map ListEvent.toEvent) := by
  induction events with
  | nil => exact fun h => h
  | cons e events ih => exact fun h => ⟨h.1, fun m' hm' => ih (h.2 m' hm')⟩

/-- `check_black_list` while other calls change the list: when it answers that the path is listed,
the list as it was at the beginning of the search says so, and it does answer this when some
entry that matches stays listed until the search is over. -/
theorem verdict_under_updates {before events : List (ListEvent δ ν ρ)} {m m' : ListMemory ν ρ}
    {thread : ρ} {v : Vfs δ} {task : Task δ} {path : List UInt8} {isOpen found : Bool} {s : State}
    (hbefore : listRun Memory.empty before = .ok m) (hs : Holds m s.restrictPathList)
    (hout : (m.readers thread).isInside = false)
    (honce : ∀ e ∈ events, e.begins thread = false)
    (hrun : listRun m (.checkBlackList thread v task path isOpen :: events) = .ok m')
    (hret : m'.readers thread = .returned found) :
    (verdict found = 0 → checkBlackList v task s path isOpen = 0) ∧
    (∀ x : ν × RcuRestrict, blackListTest v task path isOpen x.2 = true →
      EveryState listStep (Listed x) m (.checkBlackList thread v task path isOpen :: events) →
      verdict found = 0) := by
  obtain ⟨nodes, hinv⟩ := listRun_inv hbefore
  have henter : ∀ query, Event.enter thread query ∉ events.map ListEvent.toEvent := by
    intro query hmem
    obtain ⟨e, he, heq⟩ := List.mem_map.mp hmem
    exact absurd (begins_of_enter heq) (by rw [honce e he]; exact Bool.false_ne_true)
  rw [listRun_eq, List.map_cons] at hrun
  obtain ⟨hsound, hcomplete⟩ := search_spec hinv hout henter hrun hret
  constructor
  · intro hzero
    obtain ⟨x, hx, hquery⟩ := hsound (verdict_eq_zero.mp hzero)
    obtain ⟨nodes', hnodes', hlist⟩ := hs
    rw [checkBlackList_eq_verdict, verdict_eq_zero, hlist]
    refine List.any_eq_true.mpr ⟨x.2, List.mem_map_of_mem ?_, hquery⟩
    exact hinv.chain.unique hnodes' ▸ hinv.listed_iff.mp hx
  · intro x hquery hlisted
    exact verdict_eq_zero.mpr (hcomplete x hquery (everyState_toEvent hlisted))

end

/-! A search for `/home/secret` while another call adds and removes `/home/tool`. -/

def secretNode : RcuRestrict where
  path := ascii "/home/secret"
  path_nul := by decide
  iIno := 4
  oMode := 0o100644
  oFlags := 0

def toolNode : RcuRestrict where
  path := ascii "/home/tool"
  path_nul := by decide
  iIno := 7
  oMode := 0o100755
  oFlags := 0

/-- The calls that are made once the search has begun. -/
def toolUpdates : List (ListEvent Nat Nat Bool) :=
  [.addPath 1 toolNode, .delPath (ascii "/home/tool"), .lockedNext, .synchronize, .kfree,
   .readNext true]

/-- The list with the entry of `/home/secret` alone. -/
def secretMemory : ListMemory Nat Bool :=
  { head := some 0, cells := Function.update (fun _ => none) 0 (some ⟨secretNode, none⟩)
    readers := fun _ => .outside, writer := .unlocked }

theorem secretMemory_listed : EveryState listStep (Listed (0, secretNode)) secretMemory
    (.checkBlackList true sampleTree.vfs (sampleTask 0 0) (ascii "/home/secret") true ::
      toolUpdates) := by
  have halone : ∀ {m : ListMemory Nat Bool}, m.head = some 0 → m.cells 0 = some ⟨secretNode, none⟩ →
      Listed (0, secretNode) m := fun hhead hcell =>
    ⟨[(0, secretNode)], ⟨hhead, none, hcell, rfl⟩, List.mem_singleton.mpr rfl⟩
  have hbehind : ∀ {m : ListMemory Nat Bool}, m.head = some 1 → m.cells 1 = some ⟨toolNode, some 0⟩ →
      m.cells 0 = some ⟨secretNode, none⟩ → Listed (0, secretNode) m := fun hhead htool hcell =>
    ⟨[(1, toolNode), (0, secretNode)], ⟨hhead, some 0, htool, rfl, none, hcell, rfl⟩,
      List.mem_cons_of_mem _ (List.mem_singleton.mpr rfl)⟩
  refine ⟨halone rfl rfl, fun m₁ h₁ => ?_⟩
  obtain rfl := Except.ok.inj h₁
  refine ⟨halone rfl rfl, fun m₂ h₂ => ?_⟩
  obtain rfl := Except.ok.inj h₂
  refine ⟨hbehind rfl rfl rfl, fun m₃ h₃ => ?_⟩
  obtain rfl := Except.ok.inj h₃
  refine ⟨hbehind rfl rfl rfl, fun m₄ h₄ => ?_⟩
  obtain rfl := Except.ok.inj h₄
  refine ⟨halone rfl rfl, fun m₅ h₅ => ?_⟩
  obtain rfl := Except.ok.inj h₅
  refine ⟨halone rfl rfl, fun m₆ h₆ => ?_⟩
  obtain rfl := Except.ok.inj h₆
  refine ⟨halone rfl rfl, fun m₇ h₇ => ?_⟩
  obtain rfl := Except.ok.inj h₇
  exact halone rfl rfl

/-- The search answers that `/home/secret` is listed. The list as it was says so, and the entry
stays listed all the while. -/
theorem verdict_under_tool_updates :
    ∃ m' : ListMemory Nat Bool,
      listRun secretMemory (.checkBlackList true sampleTree.vfs (sampleTask 0 0)
        (ascii "/home/secret") true :: toolUpdates) = .ok m' ∧ m'.readers true = .returned true ∧
      checkBlackList sampleTree.vfs (sampleTask 0 0) (sampleState stateOn true [secretNode])
        (ascii "/home/secret") true = 0 ∧ verdict true = 0 := by
  have honce : ∀ e ∈ toolUpdates, e.begins true = false := by
    simp [toolUpdates, ListEvent.begins]
  obtain ⟨hsound, hcomplete⟩ := @verdict_under_updates Nat Nat Bool _ _ _ [.addPath 0 secretNode]
    toolUpdates secretMemory _ true sampleTree.vfs (sampleTask 0 0) (ascii "/home/secret") true true
    (sampleState stateOn true [secretNode]) rfl ⟨[(0, secretNode)], ⟨rfl, none, rfl, rfl⟩, rfl⟩ rfl
    honce rfl rfl
  exact ⟨_, rfl, rfl, hsound rfl, hcomplete (0, secretNode) rfl secretMemory_listed⟩

end RefMonitor
