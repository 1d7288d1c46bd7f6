import RefMonitor.Interleaving

/-!
# Races between calls

Two contracts that hold for calls made one after the other, for calls whose steps interleave.
Each is a check in one section and an update in a later one, and each breaks when another call's
update falls between the two; what is proved is that it holds in every run in which this does not
happen, and a run in which it does.

Results:
1. `list_changed_in_reconfiguration`: the state is checked, the list is changed later.
2. `no_duplicate_entries`: the list is scanned, the entry is inserted later.
-/

namespace RefMonitor
open CString Run

variable {δ ι : Type} [DecidableEq ι]

/-- A step changes the phase of the call that moves. -/
theorem phase_step {env : Env} {callers : ι → Caller δ} {p p' : Calls δ ι} {mv : Move δ ι}
    (h : p.step env callers mv = .ok p') :
    p'.state = (advance env (callers mv.who) mv.vfs p.state (p.phase mv.who)).2 ∧
    p'.phase mv.who = (advance env (callers mv.who) mv.vfs p.state (p.phase mv.who)).1 ∧
    ∀ j, j ≠ mv.who → p'.phase j = p.phase j := by
  cases h
  exact ⟨rfl, Function.update_self .., fun j hj => Function.update_of_ne hj ..⟩

/-- The phase of any call after a step. -/
theorem phase_cases {env : Env} {callers : ι → Caller δ} {p p' : Calls δ ι} {mv : Move δ ι}
    (h : p.step env callers mv = .ok p') (j : ι) :
    (j = mv.who ∧ p'.phase j = (advance env (callers j) mv.vfs p.state (p.phase j)).1) ∨
      (j ≠ mv.who ∧ p'.phase j = p.phase j) := by
  obtain ⟨-, hwho, hothers⟩ := phase_step h
  cases decEq j mv.who with
  | isTrue hj =>
    subst hj
    exact .inl ⟨rfl, hwho⟩
  | isFalse hj => exact .inr ⟨hj, hothers j hj⟩

/-! ## Two calls

The runs below are of two calls of `root`, number `false` and number `true`, on the sample
tree. -/

def sampleCallers (a b : Call Nat) (i : Bool) : Caller Nat :=
  { call := cond i b a, task := sampleTask 0 0 }

def sampleMoves (order : List Bool) : List (Move Nat Bool) :=
  order.map fun i => { who := i, vfs := sampleTree.vfs }

/-- The two calls stand in these phases. -/
def twoCalls (s : State) (a b : CallPhase Nat) : Calls Nat Bool :=
  { state := s, phase := fun i => cond i b a }

theorem idle_two (s : State) : Calls.idle s = twoCalls s .start .start := by
  unfold Calls.idle twoCalls
  congr
  funext i
  cases i with
  | false => rfl
  | true => rfl

section Two
variable {env : Env} {callers : Bool → Caller Nat} {s s' : State} {a b a' b' : CallPhase Nat}

theorem step_first (h : advance env (callers false) sampleTree.vfs s a = (a', s')) :
    (twoCalls s a b).step env callers ⟨false, sampleTree.vfs⟩ = .ok (twoCalls s' a' b) := by
  unfold Calls.step twoCalls
  dsimp only [cond_false]
  rw [h]
  congr
  funext i
  cases i with
  | false => rfl
  | true => rfl

theorem step_second (h : advance env (callers true) sampleTree.vfs s b = (b', s')) :
    (twoCalls s a b).step env callers ⟨true, sampleTree.vfs⟩ = .ok (twoCalls s' a b') := by
  unfold Calls.step twoCalls
  dsimp only [cond_true]
  rw [h]
  congr
  funext i
  cases i with
  | false => rfl
  | true => rfl

end Two

theorem sample_admin : (sampleTask 0 0).euid = sampleModule.env.admin := rfl

/-- The buffer with `/home/secret`. -/
def secretPath : List UInt8 := padded pathMax (sampleTree.text 2)

/-- A new path gets through the scan. -/
theorem sample_scan {c : Caller Nat} {env : Env} {s : State} (hc : c.task = sampleTask 0 0)
    (hlist : s.restrictPathList = []) :
    advance env c sampleTree.vfs s (.scan secretPath 2) = (.record secretPath ⟨0, 4⟩, s) := by
  have hin : isPathIn s secretPath ≠ 0 := by
    rw [isPathIn, hlist]
    decide
  rw [advance, scanList, if_neg hin, hc]
  rfl

/-! ## The state and the list -/

/-- The call has found the state to be one of these and may still change the list. -/
def CallPhase.PastCheck : CallPhase δ → Prop
  | .resolve .. | .scan .. | .record .. | .insert .. | .delete .. => True
  | _ => False

/-- The call is one of the three that requests end in, not a bare `add_path` or `del_path`. -/
def Call.IsRequest : Call δ → Prop
  | .addPath .. | .delPath .. => False
  | _ => True

/-- The step changes the list only in a reconfiguration state. -/
def ChangesInReconfiguration (env : Env) (callers : ι → Caller δ) (p : Calls δ ι)
    (mv : Move δ ι) : Prop :=
  ∀ p', p.step env callers mv = .ok p' →
    p'.state.restrictPathList ≠ p.state.restrictPathList → Reconfigurable p.state

/-- A section that enters `ON` or `OFF` is taken while no call is past its check of the state. -/
def LeavesAlone (p : Calls δ ι) (mv : Move δ ι) : Prop :=
  ∀ theState : Int, p.phase mv.who = .writeState theState → (p.state.currentState : Int) ≠ theState →
    theState ≠ stateRecOff → theState ≠ stateRecOn → ∀ j, ¬ (p.phase j).PastCheck

/-- A call gets past the check of the state only in a reconfiguration state. -/
theorem Leads.pastCheck {env : Env} {c : Caller δ} {s : State} {phase next : CallPhase δ}
    (h : Leads env c s phase next) (hc : c.call.IsRequest) (hnext : next.PastCheck) :
    phase.PastCheck ∨ Reconfigurable s := by
  cases h with
  | toAdd hcall =>
    rw [hcall] at hc
    exact hc.elim
  | toDelete hcall =>
    rw [hcall] at hc
    exact hc.elim
  | checked hrec => exact .inr hrec
  | resolvedToAdd => exact .inl trivial
  | resolvedToDelete => exact .inl trivial
  | notFound _ => exact .inl trivial
  | recorded => exact .inl trivial
  | _ => exact hnext.elim

/-- Calls past the check stand in a reconfiguration state. -/
def CheckedCurrent (p : Calls δ ι) : Prop := ∀ j, (p.phase j).PastCheck → Reconfigurable p.state

theorem CheckedCurrent.step {env : Env} {callers : ι → Caller δ} {p p' : Calls δ ι}
    {mv : Move δ ι} (hreq : ∀ j, (callers j).call.IsRequest) (h : CheckedCurrent p)
    (hleave : LeavesAlone p mv) (hstep : p.step env callers mv = .ok p') : CheckedCurrent p' := by
  obtain ⟨hstate, -, -⟩ := phase_step hstep
  intro j hj
  rw [hstate]
  rcases @advance_currentState δ env (callers mv.who) mv.vfs p.state (p.phase mv.who) with
    hsame | ⟨theState, hphase, hne, hentered⟩
  · have hrec : Reconfigurable p.state := by
      rcases phase_cases hstep j with ⟨rfl, hnext⟩ | ⟨-, hsame⟩
      · rw [hnext] at hj
        rcases (advance_leads mv.vfs _).pastCheck (hreq mv.who) hj with hpast | hrec
        · exact h mv.who hpast
        · exact hrec
      · rw [hsame] at hj
        exact h j hj
    rw [Reconfigurable, hsame]
    exact hrec
  · by_cases hoff : theState = stateRecOff
    · exact .inl (by rw [hentered, hoff]; rfl)
    · by_cases hon : theState = stateRecOn
      · exact .inr (by rw [hentered, hon]; rfl)
      · -- the state leaves reconfiguration: nobody was past the check, nobody is
        have hnone := hleave theState hphase hne hoff hon
        rcases phase_cases hstep j with ⟨rfl, hnext⟩ | ⟨-, hsame⟩
        · rw [hnext, hphase, advance, if_neg hne] at hj
          exact hj.elim
        · rw [hsame] at hj
          exact absurd hj (hnone j)

/-- A step that changes the list is that of a call past the check. -/
theorem CheckedCurrent.changes {env : Env} {callers : ι → Caller δ} {p : Calls δ ι}
    {mv : Move δ ι} (h : CheckedCurrent p) : ChangesInReconfiguration env callers p mv := by
  intro p' hstep hne
  obtain ⟨hstate, -, -⟩ := phase_step hstep
  rw [hstate] at hne
  rcases @advance_list δ env (callers mv.who) mv.vfs p.state (p.phase mv.who) with
    hsame | ⟨entry, hphase, -⟩ | ⟨thePath, hphase, -⟩
  · exact absurd hsame hne
  · exact h mv.who (by rw [hphase]; trivial)
  · exact h mv.who (by rw [hphase]; trivial)

/-- Calls of `do_change_state`, `do_change_path` and `do_change_password`, any number of them and
in any order of their steps: as long as no transition to `ON` or `OFF` is made while a call is
past its check of the state, the list is changed in `REC_ON` and `REC_OFF` only. -/
theorem list_changed_in_reconfiguration (env : Env) (callers : ι → Caller δ)
    (hreq : ∀ j, (callers j).call.IsRequest) (s : State) (moves : List (Move δ ι))
    (hmoves : EveryStep (Calls.step env callers) LeavesAlone (Calls.idle s) moves) :
    EveryStep (Calls.step env callers) (ChangesInReconfiguration env callers) (Calls.idle s)
      moves := by
  have hstart : CheckedCurrent (Calls.idle s : Calls δ ι) := fun j hj => hj.elim
  exact EveryStep.of_inv (fun h _ => h.changes) (fun h hc hs => h.step hreq hc hs) hstart hmoves

/-! A call adds `/home/secret` while another one enters `ON`. -/

/-- The loaded module in `REC_ON`, with nothing listed. -/
def sampleRecOn : State := (sampleLoaded fun _ => ⟨0o644, 0⟩).inRecOn.state

def pathAndState : Bool → Caller Nat :=
  sampleCallers (.changePath samplePassword secretPath addPathOp)
    (.changeState samplePassword stateOn)

section PathAndState
variable {s : State} (hpwd : s.pwd = sampleDigest)
include hpwd

theorem pathAndState_path :
    advance sampleModule.env (pathAndState false) sampleTree.vfs s .start =
      (.readState secretPath addPathOp, s) := by
  have hcheck := checkPwd_eq_zero.mpr (sample_password_matches hpwd)
  dsimp only [advance, beginCall, pathAndState, sampleCallers, cond_false]
  rw [if_neg (not_not.mpr sample_admin), if_neg (by decide), if_neg (not_not.mpr hcheck)]

theorem pathAndState_state :
    advance sampleModule.env (pathAndState true) sampleTree.vfs s .start =
      (.writeState stateOn, s) := by
  have hcheck := checkPwd_eq_zero.mpr (sample_password_matches hpwd)
  dsimp only [advance, beginCall, pathAndState, sampleCallers, cond_true]
  rw [if_neg (not_not.mpr sample_admin), if_neg (by decide), if_neg (not_not.mpr hcheck)]

end PathAndState

theorem pathAndState_read {s : State} (h : s.currentState = stateRecOn) :
    advance sampleModule.env (pathAndState false) sampleTree.vfs s
      (.readState secretPath addPathOp) = (.resolve secretPath addPathOp, s) := by
  rw [advance, if_neg (not_not.mpr (.inr h))]

theorem pathAndState_write {s : State} (h : s.currentState = stateRecOn) :
    advance sampleModule.env (pathAndState true) sampleTree.vfs s (.writeState stateOn) =
      (.returned 0, enterState sampleTree.vfs (sampleTask 0 0) stateOn s) := by
  rw [advance, if_neg (by rw [h]; decide)]
  rfl

theorem pathAndState_resolve (s : State) :
    advance sampleModule.env (pathAndState false) sampleTree.vfs s
      (.resolve secretPath addPathOp) = (.scan secretPath 2, s) := by
  have hacc := @sample_accepted sampleModule.env sampleTree samplePassword (sampleTree.text 2) 2
    sampleRecOn sampleTree_ok sampleTree_root rfl (sample_password_matches rfl) (.inr rfl)
    secret_nul (Nat.le_of_lt secret_lt) rfl rfl (by decide +kernel)
  have hfill : fillAbsolutePath sampleModule.env sampleTree.vfs (sampleTask 0 0)
    (sampleTask 0 0).alloc secretPath = .ok (0, secretPath) := hacc.absolute
  have hforb : forbittenPath sampleModule.env secretPath = false := hacc.permitted
  have hk : sampleTree.vfs.kernPath (sampleTask 0 0).cwd (cstr secretPath) = .ok 2 := hacc.resolves
  dsimp only [advance, resolvePath, pathAndState, sampleCallers]
  rw [hfill]
  dsimp only
  rw [if_neg (not_not.mpr rfl), hforb, hk]
  rfl

/-- The list is changed in `ON`: the transition falls between the check of the state and the
insertion. -/
theorem list_changed_in_on :
    ¬ EveryStep (Calls.step sampleModule.env pathAndState)
      (ChangesInReconfiguration sampleModule.env pathAndState) (Calls.idle sampleRecOn)
      (sampleMoves [false, false, true, true, false, false, false, false]) := by
  intro h
  rw [idle_two] at h
  have hlist : (enterState sampleTree.vfs (sampleTask 0 0) stateOn
    sampleRecOn).restrictPathList = [] := enterState_list _ _ _ _
  have h1 := h.2 _ (step_first (pathAndState_path rfl))
  have h2 := h1.2 _ (step_first (pathAndState_read rfl))
  have h3 := h2.2 _ (step_second (pathAndState_state rfl))
  have h4 := h3.2 _ (step_second (pathAndState_write rfl))
  have h5 := h4.2 _ (step_first (pathAndState_resolve _))
  have h6 := h5.2 _ (step_first (sample_scan rfl hlist))
  have h7 := h6.2 _ (step_first rfl)
  rcases h7.1 _ (step_first rfl) (List.cons_ne_self _ _) with hoff | hon
  · rw [twoCalls, enterState_currentState] at hoff
    exact absurd hoff (by decide)
  · rw [twoCalls, enterState_currentState] at hon
    exact absurd hon (by decide)

/-- The path is added first and the state changed afterwards. -/
theorem list_changed_in_reconfiguration_sample :
    EveryStep (Calls.step sampleModule.env pathAndState)
      (ChangesInReconfiguration sampleModule.env pathAndState) (Calls.idle sampleRecOn)
      (sampleMoves [false, false, false, false, false, false, true, true]) := by
  refine list_changed_in_reconfiguration _ _ (fun i => ?_) _ _ ?_
  · cases i with
    | false => trivial
    | true => trivial
  · rw [idle_two]
    refine .cons (fun _ h => by cases h) (step_first (pathAndState_path rfl)) ?_
    refine .cons (fun _ h => by cases h) (step_first (pathAndState_read rfl)) ?_
    refine .cons (fun _ h => by cases h) (step_first (pathAndState_resolve _)) ?_
    refine .cons (fun _ h => by cases h) (step_first (sample_scan rfl rfl)) ?_
    refine .cons (fun _ h => by cases h) (step_first rfl) ?_
    refine .cons (fun _ h => by cases h) (step_first rfl) ?_
    refine .cons (fun _ h => by cases h) (step_second (pathAndState_state rfl)) ?_
    refine .cons (fun _ _ _ _ _ i => ?_) (step_second (pathAndState_write rfl)) trivial
    cases i with
    | false => exact fun hpast => hpast
    | true => exact fun hpast => hpast

/-! ## The scan and the insertion -/

/-- Some entry has the path. -/
def Listed (s : State) (path : List UInt8) : Prop := ∃ e ∈ s.restrictPathList, e.path = path

/-- The call has not found the path in the list and is about to insert it. -/
def CallPhase.Adding (path : List UInt8) : CallPhase δ → Prop
  | .record thePath _ => cstr thePath = path
  | .insert entry => entry.path = path
  | _ => False

/-- `add_path` scans the list for a path while no other call is about to insert that path. -/
def ScansApart (p : Calls δ ι) (mv : Move δ ι) : Prop :=
  ∀ thePath dentry, p.phase mv.who = .scan thePath dentry →
    ∀ j, j ≠ mv.who → ¬ (p.phase j).Adding (cstr thePath)

/-- `del_path` of a listed path takes the entry of that path: no longer path that starts with it
stands before it. -/
def DeletesItself (p : Calls δ ι) (mv : Move δ ι) : Prop :=
  ∀ thePath e, p.phase mv.who = .delete thePath → Listed p.state (cstr thePath) →
    p.state.restrictPathList.find? (delMatches thePath) = some e → e.path = cstr thePath

/-- The step inserts an entry of the path. -/
def Inserts (p : Calls δ ι) (mv : Move δ ι) (path : List UInt8) : Prop :=
  ∃ entry, p.phase mv.who = .insert entry ∧ entry.path = path

/-- No two entries have one path. -/
def DistinctPaths (s : State) : Prop := (s.restrictPathList.map RcuRestrict.path).Nodup

/-- When `del_path` returns zero, its path is not listed any more, whatever steps follow, until
one of them inserts it. -/
def RemovalLasts (env : Env) (callers : ι → Caller δ) (p : Calls δ ι) (mv : Move δ ι) : Prop :=
  ∀ thePath p', p.phase mv.who = .delete thePath → p.step env callers mv = .ok p' →
    p'.phase mv.who = .returned 0 → ∀ later,
    EveryStep (Calls.step env callers) (fun p mv => ¬ Inserts p mv (cstr thePath)) p' later →
    EveryState (Calls.step env callers) (fun p => ¬ Listed p.state (cstr thePath)) p' later

theorem delPath_sublist (v : Vfs δ) (task : Task δ) (thePath : List UInt8) (s : State) :
    (delPath v task thePath s).2.restrictPathList.Sublist s.restrictPathList := by
  rcases delPath_cases (Prod.eta (delPath v task thePath s)).symm with
    h | ⟨e, _, ⟨h, _⟩ | ⟨_, d, i, _, _, h⟩⟩
  · rw [h]
  · rw [h]
    exact List.eraseP_sublist
  · rw [h]
    exact List.eraseP_sublist

/-- A call gets ready to insert a path when its scan has not found it. -/
theorem Leads.adding {env : Env} {c : Caller δ} {s : State} {phase next : CallPhase δ}
    {path : List UInt8} (h : Leads env c s phase next) (hnext : next.Adding path) :
    (phase.Adding path ∧ ∃ thePath i, phase = .record thePath i) ∨
      ∃ thePath dentry, phase = .scan thePath dentry ∧ cstr thePath = path ∧ ¬ Listed s path := by
  cases h with
  | recorded => exact .inl ⟨hnext, _, _, rfl⟩
  | @notFound thePath dentry i hin =>
    have hpath : cstr thePath = path := hnext
    refine .inr ⟨thePath, dentry, rfl, hpath, fun hlisted => hin ?_⟩
    rw [← hpath] at hlisted
    exact isPathIn_eq_zero.mpr hlisted
  | _ => exact hnext.elim

/-- No entry is doubled, and every path that is about to be inserted is new and is inserted by one
call only. -/
structure AddsApart (p : Calls δ ι) : Prop where
  distinct : DistinctPaths p.state
  fresh : ∀ {j path}, (p.phase j).Adding path → ¬ Listed p.state path
  apart : ∀ {i j path}, (p.phase i).Adding path → (p.phase j).Adding path → i = j

/-- What a step does to the list. -/
theorem listed_step {env : Env} {callers : ι → Caller δ} {p p' : Calls δ ι} {mv : Move δ ι}
    (hstep : p.step env callers mv = .ok p') {path : List UInt8} (h : Listed p'.state path) :
    Listed p.state path ∨ Inserts p mv path := by
  obtain ⟨e, he, hpath⟩ := h
  obtain ⟨hstate, -, -⟩ := phase_step hstep
  rw [hstate] at he
  rcases @advance_list δ env (callers mv.who) mv.vfs p.state (p.phase mv.who) with
    hsame | ⟨entry, hphase, hlist⟩ | ⟨thePath, hphase, hdel⟩
  · rw [hsame] at he
    exact .inl ⟨e, he, hpath⟩
  · rw [hlist] at he
    rcases List.mem_cons.mp he with rfl | he
    · exact .inr ⟨e, hphase, hpath⟩
    · exact .inl ⟨e, he, hpath⟩
  · rw [hdel] at he
    exact .inl ⟨e, (delPath_sublist _ _ _ _).subset he, hpath⟩

theorem AddsApart.distinct_step {env : Env} {callers : ι → Caller δ} {p p' : Calls δ ι}
    {mv : Move δ ι} (h : AddsApart p) (hstep : p.step env callers mv = .ok p') :
    DistinctPaths p'.state := by
  obtain ⟨hstate, -, -⟩ := phase_step hstep
  rw [DistinctPaths, hstate]
  rcases @advance_list δ env (callers mv.who) mv.vfs p.state (p.phase mv.who) with
    hsame | ⟨entry, hphase, hlist⟩ | ⟨thePath, hphase, hdel⟩
  · rw [hsame]
    exact h.distinct
  · rw [hlist, List.map_cons, List.nodup_cons]
    refine ⟨fun hmem => ?_, h.distinct⟩
    obtain ⟨e, he, hpath⟩ := List.mem_map.mp hmem
    have hadding : (p.phase mv.who).Adding entry.path := by
      rw [hphase]
      rfl
    exact h.fresh hadding ⟨e, he, hpath⟩
  · rw [hdel]
    exact h.distinct.sublist ((delPath_sublist _ _ _ _).map _)

theorem AddsApart.step {env : Env} {callers : ι → Caller δ} {p p' : Calls δ ι} {mv : Move δ ι}
    (h : AddsApart p) (hscan : ScansApart p mv) (hstep : p.step env callers mv = .ok p') :
    AddsApart p' := by
  -- where the path of a call about to insert comes from
  have horigin : ∀ {j path}, (p'.phase j).Adding path →
      ((p.phase j).Adding path ∧ (j = mv.who → ∃ thePath i, p.phase j = .record thePath i)) ∨
      (j = mv.who ∧ ¬ Listed p.state path ∧ ∀ k, k ≠ mv.who → ¬ (p.phase k).Adding path) := by
    intro j path hj
    rcases phase_cases hstep j with ⟨rfl, hnext⟩ | ⟨hother, hsame⟩
    · rw [hnext] at hj
      rcases (advance_leads mv.vfs _).adding hj with
        ⟨hold, hrecord⟩ | ⟨thePath, dentry, hphase, rfl, hnew⟩
      · exact .inl ⟨hold, fun _ => hrecord⟩
      · exact .inr ⟨rfl, hnew, hscan thePath dentry hphase⟩
    · rw [hsame] at hj
      exact .inl ⟨hj, fun h0 => absurd h0 hother⟩
  refine ⟨h.distinct_step hstep, fun {j path} hj hlisted => ?_, fun {i j path} hi hj => ?_⟩
  · have hbefore : ¬ Listed p.state path := by
      rcases horigin hj with ⟨hold, -⟩ | ⟨-, hnew, -⟩
      · exact h.fresh hold
      · exact hnew
    rcases listed_step hstep hlisted with hlisted | ⟨entry, hphase, hpath⟩
    · exact hbefore hlisted
    · -- the call that inserts the path is another one
      have hinserting : (p.phase mv.who).Adding path := by
        rw [hphase]
        exact hpath
      rcases horigin hj with ⟨hold, hrecord⟩ | ⟨hji, -, -⟩
      · have hji := h.apart hold hinserting
        obtain ⟨thePath, i, hrec⟩ := hrecord hji
        rw [hji, hphase] at hrec
        cases hrec
      · rw [hji, (phase_step hstep).2.1, hphase] at hj
        exact hj
  · rcases horigin hi with ⟨hiold, -⟩ | ⟨hiwho, -, hialone⟩
    · rcases horigin hj with ⟨hjold, -⟩ | ⟨hjwho, -, hjalone⟩
      · exact h.apart hiold hjold
      · by_contra hne
        exact hjalone i (fun h0 => hne (h0.trans hjwho.symm)) hiold
    · rcases horigin hj with ⟨hjold, -⟩ | ⟨hjwho, -, -⟩
      · by_contra hne
        exact hialone j (fun h0 => hne (hiwho.trans h0.symm)) hjold
      · exact hiwho.trans hjwho.symm

/-- `del_path` that returns zero has taken the first match off the list. -/
theorem delPath_returned {v : Vfs δ} {task : Task δ} {thePath : List UInt8} {s : State}
    (h : (delPath v task thePath s).1 = 0) :
    ∃ e, s.restrictPathList.find? (delMatches thePath) = some e ∧
      (delPath v task thePath s).2.restrictPathList =
        s.restrictPathList.eraseP (delMatches thePath) := by
  unfold delPath at h ⊢
  split at h
  · exact absurd h (fail_ne_zero .enoent)
  · next herr =>
    rw [if_neg herr]
    split at h
    · exact absurd h (fail_ne_zero .enoent)
    · next e hfind =>
      refine ⟨e, hfind, ?_⟩
      dsimp only at h
      split at h
      · next err hk => exact absurd h (fail_ne_zero err)
      · next d hk =>
        split at h
        · exact absurd h (fail_ne_zero .enoent)
        · rfl

/-- With no path doubled, taking the entry of a path off the list leaves none of that path. -/
theorem delPath_unlists {v : Vfs δ} {task : Task δ} {thePath : List UInt8} {s : State}
    (hdistinct : DistinctPaths s) (hret : (delPath v task thePath s).1 = 0)
    (hself : Listed s (cstr thePath) → ∀ e,
      s.restrictPathList.find? (delMatches thePath) = some e → e.path = cstr thePath) :
    ¬ Listed (delPath v task thePath s).2 (cstr thePath) := by
  obtain ⟨e, hfind, hlist⟩ := delPath_returned hret
  obtain ⟨before, after, hsplit, herase⟩ := eraseP_delMatches hfind
  rintro ⟨e', he', hpath⟩
  rw [hlist, herase] at he'
  have hmem : e' ∈ s.restrictPathList := by
    rw [hsplit]
    exact List.mem_append.mpr ((List.mem_append.mp he').imp_right (List.mem_cons_of_mem e))
  have hsame : e.path = e'.path := (hself ⟨e', hmem, hpath⟩ e hfind).trans hpath.symm
  rw [DistinctPaths, hsplit, List.map_append, List.map_cons, List.nodup_middle,
    List.nodup_cons, ← List.map_append] at hdistinct
  exact hdistinct.1 (hsame ▸ List.mem_map_of_mem he')

/-- A path that is not listed stays so until it is inserted. -/
theorem unlisted_until_inserted {env : Env} {callers : ι → Caller δ} {p : Calls δ ι}
    {path : List UInt8} {moves : List (Move δ ι)} (h : ¬ Listed p.state path)
    (hmoves : EveryStep (Calls.step env callers) (fun p mv => ¬ Inserts p mv path) p moves) :
    EveryState (Calls.step env callers) (fun p => ¬ Listed p.state path) p moves :=
  EveryState.of_inv (fun h => h)
    (fun h hins hstep hlisted => (listed_step hstep hlisted).elim h hins) h hmoves

theorem AddsApart.removalLasts {env : Env} {callers : ι → Caller δ} {p : Calls δ ι}
    {mv : Move δ ι} (h : AddsApart p) (hself : DeletesItself p mv) :
    RemovalLasts env callers p mv := by
  intro thePath p' hphase hstep hret later hlater
  obtain ⟨hstate, hwho, -⟩ := phase_step hstep
  rw [hphase, advance] at hstate hwho
  have hzero : (delPath mv.vfs (callers mv.who).task thePath p.state).1 = 0 := by
    rw [hwho] at hret
    exact CallPhase.returned.inj hret
  refine unlisted_until_inserted ?_ hlater
  rw [hstate]
  exact delPath_unlists h.distinct hzero fun hlisted e => hself thePath e hphase hlisted

/-- Calls of any kind and any number of them, in any order of their steps, on a list without
doubled paths: as long as `add_path` scans for a path while no other call is about to insert it,
no path is ever doubled, and as long as `del_path` takes the entry of the path it is given, a path
removed with result zero is not listed until it is inserted again. -/
theorem no_duplicate_entries (env : Env) (callers : ι → Caller δ) (s : State)
    (hdistinct : DistinctPaths s) (moves : List (Move δ ι))
    (hmoves : EveryStep (Calls.step env callers) (fun p mv => ScansApart p mv ∧ DeletesItself p mv)
      (Calls.idle s) moves) :
    EveryState (Calls.step env callers) (fun p => DistinctPaths p.state) (Calls.idle s) moves ∧
    EveryStep (Calls.step env callers) (RemovalLasts env callers) (Calls.idle s) moves := by
  have hstart : AddsApart (Calls.idle s : Calls δ ι) :=
    ⟨hdistinct, fun hj => hj.elim, fun hi _ => hi.elim⟩
  exact ⟨EveryState.of_inv (fun h => h.distinct) (fun h hc hs => h.step hc.1 hs) hstart hmoves,
    EveryStep.of_inv (fun h hc => h.removalLasts hc.2) (fun h hc hs => h.step hc.1 hs) hstart
      hmoves⟩

/-! Two calls add `/home/secret`. -/

def twoAdds : Bool → Caller Nat := sampleCallers (.addPath secretPath 2) (.addPath secretPath 2)

/-- Both calls have scanned the list before either has inserted its entry. -/
theorem concurrent_adds_double :
    ¬ EveryState (Calls.step sampleModule.env twoAdds) (fun p => DistinctPaths p.state)
      (Calls.idle sampleRecOn)
      (sampleMoves [false, true, false, true, false, true, false, true]) := by
  intro h
  rw [idle_two] at h
  have h1 := h.2 _ (step_first rfl)
  have h2 := h1.2 _ (step_second rfl)
  have h3 := h2.2 _ (step_first (sample_scan rfl rfl))
  have h4 := h3.2 _ (step_second (sample_scan rfl rfl))
  have h5 := h4.2 _ (step_first rfl)
  have h6 := h5.2 _ (step_second rfl)
  have h7 := h6.2 _ (step_first rfl)
  have h8 := h7.2 _ (step_second rfl)
  exact (List.nodup_cons.mp h8).1 (List.mem_cons_self ..)

def addAndDelete : Bool → Caller Nat := sampleCallers (.addPath secretPath 2) (.delPath secretPath)

/-- The path is added and then removed. -/
theorem no_duplicate_entries_sample :
    EveryState (Calls.step sampleModule.env addAndDelete) (fun p => DistinctPaths p.state)
      (Calls.idle sampleRecOn) (sampleMoves [false, false, false, false, true, true]) ∧
    EveryStep (Calls.step sampleModule.env addAndDelete)
      (RemovalLasts sampleModule.env addAndDelete) (Calls.idle sampleRecOn)
      (sampleMoves [false, false, false, false, true, true]) := by
  refine no_duplicate_entries sampleModule.env addAndDelete sampleRecOn List.nodup_nil _ ?_
  rw [idle_two]
  refine .cons ⟨fun _ _ h => (by cases h), fun _ _ h => (by cases h)⟩ (step_first rfl) ?_
  refine .cons ⟨fun _ _ _ i hi => ?_, fun _ _ h => (by cases h)⟩
    (step_first (sample_scan rfl rfl)) ?_
  · cases i with
    | false => exact absurd rfl hi
    | true => exact fun hadding => hadding
  refine .cons ⟨fun _ _ h => (by cases h), fun _ _ h => (by cases h)⟩ (step_first rfl) ?_
  refine .cons ⟨fun _ _ h => (by cases h), fun _ _ h => (by cases h)⟩ (step_first rfl) ?_
  refine .cons ⟨fun _ _ h => (by cases h), fun _ _ h => (by cases h)⟩ (step_second rfl) ?_
  refine ⟨⟨fun _ _ h => (by cases h), fun thePath e h _ hfind => ?_⟩, fun _ _ => trivial⟩
  -- the list has one entry
  have hthe : thePath = secretPath := (CallPhase.delete.inj h).symm
  rw [List.mem_singleton.mp (List.mem_of_find?_eq_some hfind), hthe]
  rfl

end RefMonitor
