import RefMonitor.Interleaving
import RefMonitor.Lib.Linear

/-!
# Calls that interleave and calls in sequence

What do requests that overlap in time mean? The steps of `do_change_state`, `do_change_path` and
`do_change_password` interleave, each under its lock; the sequential model makes a call at one
stroke. A run of overlapping calls is the same as making the calls one after the other, in the
order of their last steps, when no step changes what another call has already relied on: the
digest it has compared with, the state it has read, the list it has scanned, the attributes it
has recorded (`Undisturbed`), and when the names of a `do_change_path` stay what they are while
it runs. The last step of a call is the last one that meets shared data; what it does behind that
until it returns is its own.

Calls of `do_change_state` alone never disturb each other.

Results:
1. `tracked_keeps`: where a call stands does not depend on what it has not relied on.
2. `calls_linear`: undisturbed calls are linear.
3. `state_changes_linear`: so are all calls of `do_change_state`, in every interleaving.
-/

namespace RefMonitor
open CString Run

variable {δ ι : Type}

/-! ## Calls as a machine -/

def CallPhase.finished : CallPhase δ → Bool
  | .returned _ => true
  | .died _ => true
  | _ => false

/-- The calls of the interfaces; `add_path` and `del_path` are made by them only. -/
def Call.isRequest : Call δ → Bool
  | .addPath .. => false
  | .delPath .. => false
  | _ => true

def Call.isChangePath : Call δ → Bool
  | .changePath .. => true
  | _ => false

/-- The calls, step by step and at one stroke. -/
def callMachine (env : Env) (callers : ι → Caller δ) :
    Linear.Machine State ι (CallPhase δ) (Vfs δ) where
  step i v s phase := advance env (callers i) v s phase
  whole i v s := callEnd s ((callers i).run env v s)
  finished := CallPhase.finished

/-- A step of the machine is a step of the calls. -/
theorem callMachine_next [DecidableEq ι] (env : Env) (callers : ι → Caller δ) (p : Calls δ ι)
    (mv : Move δ ι) :
    Calls.step env callers p mv = .ok
      { state := ((callMachine env callers).next ⟨p.state, p.phase⟩ (mv.who, mv.vfs)).shared
        phase := ((callMachine env callers).next ⟨p.state, p.phase⟩ (mv.who, mv.vfs)).phase } := rfl

/-! ## What a call relies on -/

/-- The password has been compared with the digest. -/
def CallPhase.reliesOnPwd : CallPhase δ → Bool
  | .start | .returned _ | .died _ => false
  | _ => true

/-- The state has been found to be `REC_ON` or `REC_OFF`. -/
def CallPhase.reliesOnState : CallPhase δ → Bool
  | .resolve .. | .scan .. | .record .. | .insert _ | .delete _ => true
  | _ => false

/-- The list has been scanned. -/
def CallPhase.reliesOnList : CallPhase δ → Bool
  | .record .. | .insert _ => true
  | _ => false

/-- The attributes have been recorded. -/
def CallPhase.reliesOnInodes : CallPhase δ → Bool
  | .insert _ => true
  | _ => false

/-- From one state to another everything the call relies on is the same. -/
structure KeepsFor (phase : CallPhase δ) (s s' : State) : Prop where
  pwd : phase.reliesOnPwd = true → s'.pwd = s.pwd
  state : phase.reliesOnState = true → s'.currentState = s.currentState
  list : phase.reliesOnList = true → s'.restrictPathList = s.restrictPathList
  inodes : phase.reliesOnInodes = true → s'.inodes = s.inodes

/-- A move disturbs no other call, and meets the names its call met before. -/
structure Undisturbed [DecidableEq ι] (env : Env) (callers : ι → Caller δ) (names : ι → Vfs δ)
    (p : Linear.Config State ι (CallPhase δ)) (mv : ι × Vfs δ) : Prop where
  others : ∀ i, i ≠ mv.1 → KeepsFor (p.phase i) p.shared ((callMachine env callers).next p mv).shared
  names : (callers mv.1).call.isChangePath = true → mv.2 = names mv.1

/-! ## Where a call stands -/

/-- A call made whole in this state would come through this phase, in every namespace it may
meet. -/
structure Tracked (env : Env) (c : Caller δ) (names : Vfs δ) (s : State) (phase : CallPhase δ) :
    Prop where
  belongs : phase.reliesOnState = true ∨ (∃ thePath op, phase = .readState thePath op) →
    c.call.isChangePath = true
  alone : ∀ v, (c.call.isChangePath = true → v = names) → Alone env c v (.start, s) (phase, s)

section Steps

variable {env : Env} {c : Caller δ} {v : Vfs δ} {s s' : State} {phase phase' : CallPhase δ}

theorem advance_finished (h : phase.finished = true) : advance env c v s phase = (phase, s) := by
  cases phase with
  | returned ret => rfl
  | died fault => rfl
  | _ => cases h

/-- Only the last step of a call changes the state. -/
theorem advance_silent (h : (advance env c v s phase).1.finished = false) :
    (advance env c v s phase).2 = s := by
  cases phase with
  | writeState theState =>
    rw [advance] at h
    split at h <;> cases h
  | readState thePath op =>
    rw [advance]
    split
    · rfl
    · rfl
  | insert entry => cases h
  | delete thePath => cases h
  | install tmp => cases h
  | _ => rfl

theorem checkPwd_congr (h : s'.pwd = s.pwd) (thePwd : List UInt8) :
    checkPwd env s' thePwd = checkPwd env s thePwd := by
  unfold checkPwd
  rw [h]

theorem beginCall_congr (h : s'.pwd = s.pwd) : beginCall env c s' = beginCall env c s := by
  unfold beginCall
  simp only [checkPwd_congr h]

/-- Where the first step leads to, the password has been compared. -/
theorem Leads.reliesOnPwd (h : Leads env c s phase phase') (hfin : phase'.finished = false)
    : phase'.reliesOnPwd = true := by
  cases h with
  | failed hret => cases hfin
  | wrote => cases hfin
  | faulted => cases hfin
  | inserted => cases hfin
  | deleted => cases hfin
  | installed => cases hfin
  | done => cases hfin
  | dead => cases hfin
  | _ => rfl

/-- A call relies on more and more. -/
theorem Leads.keepsFor (h : Leads env c s phase phase') (hfin : phase'.finished = false)
    {s₁ s₂ : State} (hk : KeepsFor phase' s₁ s₂) : KeepsFor phase s₁ s₂ := by
  have hpwd := hk.pwd (h.reliesOnPwd hfin)
  have hfalse : ∀ {P : Prop}, (false = true → P) := fun hf => absurd hf Bool.false_ne_true
  cases h with
  | failed hret => cases hfin
  | wrote => cases hfin
  | faulted => cases hfin
  | inserted => cases hfin
  | deleted => cases hfin
  | installed => cases hfin
  | done => cases hfin
  | dead => cases hfin
  | checked hrec => exact ⟨fun _ => hpwd, hfalse, hfalse, hfalse⟩
  | resolvedToAdd => exact ⟨fun _ => hpwd, fun _ => hk.state rfl, hfalse, hfalse⟩
  | resolvedToDelete => exact ⟨fun _ => hpwd, fun _ => hk.state rfl, hfalse, hfalse⟩
  | notFound hin => exact ⟨fun _ => hpwd, fun _ => hk.state rfl, hfalse, hfalse⟩
  | recorded => exact ⟨fun _ => hpwd, fun _ => hk.state rfl, fun _ => hk.list rfl, hfalse⟩
  | _ => exact ⟨hfalse, hfalse, hfalse, hfalse⟩

theorem scanList_congr {thePath : List UInt8} {dentry : δ}
    (h : s'.restrictPathList = s.restrictPathList) :
    scanList v c.task thePath dentry s' = scanList v c.task thePath dentry s := by
  unfold scanList isPathIn
  rw [h]

/-- A step leads to the same place from a state in which everything the call relies on after it
is the same. -/
theorem advance_keeps (hfin : (advance env c v s phase).1.finished = false)
    (hk : KeepsFor (advance env c v s phase).1 s s') :
    advance env c v s' phase = ((advance env c v s phase).1, s') := by
  have hleads := @advance_leads δ env c s v phase
  cases phase with
  | start =>
    have hpwd := hk.pwd (hleads.reliesOnPwd hfin)
    exact Prod.ext (beginCall_congr hpwd) rfl
  | writeState theState =>
    rw [advance] at hfin
    split at hfin <;> cases hfin
  | readState thePath op =>
    rw [advance] at hfin
    split at hfin
    · cases hfin
    · next hrec =>
      have hadv : advance env c v s (.readState thePath op) = (.resolve thePath op, s) :=
        if_neg hrec
      rw [hadv] at hk ⊢
      have hstate : s'.currentState = s.currentState := hk.state rfl
      rw [advance, hstate, if_neg hrec]
  | resolve thePath op => rfl
  | scan thePath dentry =>
    refine Prod.ext (scanList_congr (hk.list ?_)) rfl
    change Leads env c s _ (scanList v c.task thePath dentry s) at hleads
    change (scanList v c.task thePath dentry s).finished = false at hfin
    show (scanList v c.task thePath dentry s).reliesOnList = true
    generalize scanList v c.task thePath dentry s = k at hleads hfin ⊢
    cases hleads with
    | failed hret => cases hfin
    | notFound hin => rfl
  | record thePath i =>
    have hinodes : s'.inodes = s.inodes := hk.inodes rfl
    refine Prod.ext ?_ rfl
    show CallPhase.insert (newEntry s' thePath i) = .insert (newEntry s thePath i)
    simp only [newEntry, hinodes]
  | insert entry => cases hfin
  | delete thePath => cases hfin
  | install tmp => cases hfin
  | returned ret => cases hfin
  | died fault => cases hfin

/-- The way to a phase does not depend on what the call does not rely on there. -/
theorem Alone.keeps {x : CallPhase δ × State} (h : Alone env c v (.start, s) x)
    (hfin : x.1.finished = false) :
    x.2 = s ∧ (KeepsFor x.1 s s' → Alone env c v (.start, s') (x.1, s')) := by
  induction h with
  | refl => exact ⟨rfl, fun _ => .now⟩
  | @tail x y _ hstep ih =>
    subst hstep
    have hx : x.1.finished = false := by
      cases hxf : x.1.finished with
      | false => rfl
      | true =>
        rw [advance_finished hxf, hxf] at hfin
        cases hfin
    obtain ⟨hs, hway⟩ := ih hx
    obtain ⟨k, t⟩ := x
    dsimp only at hs
    subst hs
    refine ⟨advance_silent hfin, fun hk => ?_⟩
    have hbefore := hway ((@advance_leads δ env c t v k).keepsFor hfin hk)
    exact hbefore.tail (advance_keeps hfin hk)

/-- Nothing follows the end of a call, so all ways lead to one end. -/
theorem Alone.end_unique {x y y' : CallPhase δ × State} (h : Alone env c v x y)
    (h' : Alone env c v x y') (hy : y.1.finished = true) (hy' : y'.1.finished = true) : y = y' := by
  have hstay : ∀ {y z : CallPhase δ × State}, y.1.finished = true → Alone env c v y z → z = y := by
    intro y z hy hz
    induction hz with
    | refl => rfl
    | tail _ hstep ih =>
      subst ih
      rw [← hstep, advance_finished hy]
  have hunique : Relator.RightUnique fun x y : CallPhase δ × State => advance env c v x.2 x.1 = y :=
    fun _ _ _ h₁ h₂ => h₁.symm.trans h₂
  rcases Relation.ReflTransGen.total_of_right_unique hunique h h' with hyy | hyy
  · exact (hstay hy hyy).symm
  · exact hstay hy' hyy

theorem callEnd_finished (s : State) (out : Except Fault (Int × State)) :
    (callEnd s out : CallPhase δ × State).1.finished = true := by
  cases out with
  | error f => rfl
  | ok res => rfl

end Steps

/-! ## Undisturbed calls -/

section Linear

variable [DecidableEq ι] {env : Env} {callers : ι → Caller δ} {names : ι → Vfs δ}

theorem Tracked.start (c : Caller δ) (v : Vfs δ) (s : State) : Tracked env c v s .start := by
  refine ⟨?_, fun _ _ => .now⟩
  rintro (h | ⟨_, _, h⟩)
  · cases h
  · cases h

/-- Which calls come to the phases that are about paths. -/
theorem Leads.belongs {c : Caller δ} {s : State} {phase phase' : CallPhase δ}
    (h : Leads env c s phase phase') (hreq : c.call.isRequest = true)
    (hbefore : phase.reliesOnState = true ∨ (∃ thePath op, phase = .readState thePath op) →
      c.call.isChangePath = true)
    (hafter : phase'.reliesOnState = true ∨ (∃ thePath op, phase' = .readState thePath op)) :
    c.call.isChangePath = true := by
  cases h with
  | toPath hcall => rw [hcall]; rfl
  | toAdd hcall =>
    rw [hcall] at hreq
    cases hreq
  | toDelete hcall =>
    rw [hcall] at hreq
    cases hreq
  | checked hrec => exact hbefore (.inr ⟨_, _, rfl⟩)
  | resolvedToAdd => exact hbefore (.inl rfl)
  | resolvedToDelete => exact hbefore (.inl rfl)
  | notFound hin => exact hbefore (.inl rfl)
  | recorded => exact hbefore (.inl rfl)
  | _ =>
    rcases hafter with hafter | ⟨_, _, hafter⟩
    · cases hafter
    · cases hafter

/-- A step before the last one, in every namespace the call may meet. -/
theorem Tracked.advance {c : Caller δ} {ns v : Vfs δ} {s : State} {phase : CallPhase δ}
    (h : Tracked env c ns s phase) (hreq : c.call.isRequest = true)
    (hv : c.call.isChangePath = true → v = ns)
    (hfin : (advance env c v s phase).1.finished = false) :
    Tracked env c ns s (RefMonitor.advance env c v s phase).1 := by
  have hleads := @advance_leads δ env c s v phase
  refine ⟨hleads.belongs hreq h.belongs, fun v' hv' => ?_⟩
  refine (h.alone v' hv').tail ?_
  show RefMonitor.advance env c v' s phase = _
  have hsame : RefMonitor.advance env c v' s phase = RefMonitor.advance env c v s phase := by
    cases hpath : c.call.isChangePath with
    | true => rw [hv hpath, hv' hpath]
    | false =>
      -- without a path there is no name to look up before the last step
      have hnot : ∀ {P : Prop}, c.call.isChangePath = true → P := by
        intro P hp
        rw [hpath] at hp
        cases hp
      cases phase with
      | start => rfl
      | writeState theState =>
        rw [RefMonitor.advance] at hfin
        split at hfin <;> cases hfin
      | readState thePath op => exact hnot (h.belongs (.inr ⟨_, _, rfl⟩))
      | install tmp => cases hfin
      | returned ret => cases hfin
      | died fault => cases hfin
      | _ => exact hnot (h.belongs (.inl rfl))
  rw [hsame]
  exact Prod.ext rfl (advance_silent hfin)

/-- The last step of a call that is where it should be is the whole call. -/
theorem Tracked.commit {c : Caller δ} {ns v : Vfs δ} {s : State} {phase : CallPhase δ}
    (h : Tracked env c ns s phase) (hv : c.call.isChangePath = true → v = ns)
    (hfin : (RefMonitor.advance env c v s phase).1.finished = true) :
    RefMonitor.advance env c v s phase = callEnd s (c.run env v s) := by
  have hway : Alone env c v (.start, s) (RefMonitor.advance env c v s phase) :=
    (h.alone v hv).tail rfl
  exact hway.end_unique (c.alone env v s) hfin (callEnd_finished s _)

theorem tracked_keeps {c : Caller δ} {ns : Vfs δ} {s s' : State} {phase : CallPhase δ}
    (h : Tracked env c ns s phase) (hfin : phase.finished = false) (hk : KeepsFor phase s s') :
    Tracked env c ns s' phase :=
  ⟨h.belongs, fun v hv => ((h.alone v hv).keeps hfin).2 hk⟩

theorem calls_track (hreq : ∀ i, (callers i).call.isRequest = true) :
    Linear.Track (callMachine env callers) (fun i => Tracked env (callers i) (names i))
      (Undisturbed env callers names) where
  done i v s phase hfin := advance_finished hfin
  silent p mv hD hT hfin hnext := by
    rw [Linear.next_self] at hnext ⊢
    exact ⟨advance_silent hnext, hT.advance (hreq mv.1) hD.names hnext⟩
  commit p mv hD hT hfin hnext := by
    rw [Linear.next_self] at hnext
    exact hT.commit hD.names hnext
  others p mv i hD hne hfin hT := tracked_keeps hT hfin (hD.others i hne)

/-- Nobody has started yet. -/
def idle (s : State) : Linear.Config State ι (CallPhase δ) := ⟨s, fun _ => .start⟩

/-- Overlapping calls of `do_change_state`, `do_change_path` and `do_change_password` that do not
disturb each other leave the state, and return the values, that the same calls leave and return
one after the other, in the order of their last steps. -/
theorem calls_linear (hreq : ∀ i, (callers i).call.isRequest = true) {s : State}
    {moves : List (ι × Vfs δ)}
    (hquiet : (callMachine env callers).Always (Undisturbed env callers names) (idle s) moves) :
    Linear.IsLinear (callMachine env callers) (idle s) ((callMachine env callers).run (idle s) moves)
      ((callMachine env callers).returns (idle s) moves) :=
  (calls_track hreq).linear moves (fun i _ => Tracked.start (callers i) (names i) s) hquiet

/-! ## Calls of `do_change_state` -/

/-- Threads that each make one call of `do_change_state`. -/
def stateCallers (pwds : ι → List UInt8) (states : ι → Int) (tasks : ι → Task δ) (i : ι) : Caller δ :=
  { call := .changeState (pwds i) (states i), task := tasks i }

/-- Such a call has nothing to do with paths or a new digest. -/
def CallPhase.ofState : CallPhase δ → Bool
  | .start | .writeState _ | .returned _ | .died _ => true
  | _ => false

theorem Leads.ofState {c : Caller δ} {s : State} {phase phase' : CallPhase δ}
    (h : Leads env c s phase phase') {thePwd : List UInt8} {theState : Int}
    (hcall : c.call = .changeState thePwd theState) (hphase : phase.ofState = true) :
    phase'.ofState = true := by
  cases h with
  | toPath hc => rw [hcall] at hc; cases hc
  | compared hc => rw [hcall] at hc; cases hc
  | toAdd hc => rw [hcall] at hc; cases hc
  | toDelete hc => rw [hcall] at hc; cases hc
  | checked hrec => cases hphase
  | resolvedToAdd => cases hphase
  | resolvedToDelete => cases hphase
  | notFound hin => cases hphase
  | recorded => cases hphase
  | _ => rfl

/-- What another call of `do_change_state` does is not what such a call relies on. -/
theorem keepsFor_state {c : Caller δ} {v : Vfs δ} {s : State} {phase other : CallPhase δ}
    (hphase : phase.ofState = true) (hother : other.ofState = true) :
    KeepsFor other s (RefMonitor.advance env c v s phase).2 := by
  have hpwd : (RefMonitor.advance env c v s phase).2.pwd = s.pwd := by
    rcases @advance_pwd δ env c v s phase with h | ⟨tmp, rfl, _⟩
    · exact h
    · cases hphase
  have hfalse : ∀ {P : Prop}, (false = true → P) := fun hf => absurd hf Bool.false_ne_true
  cases other with
  | start => exact ⟨hfalse, hfalse, hfalse, hfalse⟩
  | writeState theState => exact ⟨fun _ => hpwd, hfalse, hfalse, hfalse⟩
  | returned ret => exact ⟨hfalse, hfalse, hfalse, hfalse⟩
  | died fault => exact ⟨hfalse, hfalse, hfalse, hfalse⟩
  | _ => cases hother

theorem state_changes_undisturbed (pwds : ι → List UInt8) (states : ι → Int) (tasks : ι → Task δ)
    (moves : List (ι × Vfs δ)) :
    ∀ {p : Linear.Config State ι (CallPhase δ)}, (∀ i, (p.phase i).ofState = true) →
      (callMachine env (stateCallers pwds states tasks)).Always
        (Undisturbed env (stateCallers pwds states tasks) names) p moves := by
  induction moves with
  | nil => exact fun _ => trivial
  | cons mv moves ih =>
    intro p hp
    refine ⟨⟨fun i _ => keepsFor_state (hp mv.1) (hp i), fun hpath => by cases hpath⟩, ih fun i => ?_⟩
    rcases eq_or_ne i mv.1 with rfl | hne
    · rw [Linear.next_self]
      exact (advance_leads mv.2 _).ofState rfl (hp mv.1)
    · rw [Linear.next_of_ne hne]
      exact hp i

/-- Any number of overlapping calls of `do_change_state`, by any threads with any arguments and in
any interleaving, are the same calls one after the other in the order of their last steps. -/
theorem state_changes_linear (env : Env) (pwds : ι → List UInt8) (states : ι → Int)
    (tasks : ι → Task δ) (s : State) (moves : List (ι × Vfs δ)) :
    Linear.IsLinear (callMachine env (stateCallers pwds states tasks)) (idle s)
      ((callMachine env (stateCallers pwds states tasks)).run (idle s) moves)
      ((callMachine env (stateCallers pwds states tasks)).returns (idle s) moves) := by
  cases moves with
  | nil => exact .nil _
  | cons mv moves =>
    -- no call has a name to look up, so any namespace will do
    have hquiet := @state_changes_undisturbed δ ι _ env (fun _ => mv.2) pwds states tasks
      (mv :: moves) (idle s) fun _ => rfl
    exact (calls_track fun _ => rfl).linear (mv :: moves)
      (fun i _ => Tracked.start _ mv.2 s) hquiet

/-! Two calls of `root`: both have had their password accepted before either writes the state. -/

def overlapCallers : Bool → Caller Nat :=
  stateCallers (fun _ => samplePassword) (fun b => if b then stateOn else stateRecOn)
    (fun _ => sampleTask 0 0)

def overlapMoves : List (Bool × Vfs Nat) :=
  [(false, sampleTree.vfs), (true, sampleTree.vfs), (true, sampleTree.vfs), (false, sampleTree.vfs)]

theorem overlap_linear :
    Linear.IsLinear (callMachine sampleEnv overlapCallers) (idle (sampleState stateOff false []))
      ((callMachine sampleEnv overlapCallers).run (idle (sampleState stateOff false [])) overlapMoves)
      ((callMachine sampleEnv overlapCallers).returns (idle (sampleState stateOff false []))
        overlapMoves) :=
  calls_linear (fun _ => rfl)
    (@state_changes_undisturbed Nat Bool _ sampleEnv (fun _ => sampleTree.vfs) _ _ _ overlapMoves _
      fun _ => rfl)

end Linear

end RefMonitor
