import Mathlib.Tactic.Common

/-!
# Runs of a step function that can fail

A run is a list of events taken one after the other from a state; a step that fails ends
it. Two kinds of statement are made about runs: a property of every state reached
(`EveryState`) and a property of every step in the state it is taken in (`EveryStep`).

A step can also have several outcomes; then it is a relation, and the same two statements are
`AllStates` and `AllSteps`.

Results:
1. `EveryState.of_inv`: an invariant that every step under a condition keeps holds in every
   state of every run whose steps all meet the condition.
2. `EveryStep.of_inv`: with such an invariant, what it implies of a step holds of every step.
3. `EveryStep.of_forall`: what holds of every step holds of the steps of every run.
4. `AllStates.of_inv`, `AllSteps.of_mem`: the same for steps with several outcomes.
-/

namespace Run

variable {σ ε φ : Type}

/-- A step that keeps part of the result of a call has a call that returned. -/
theorem returned_of_map {α β : Type} {f : α → β} {x : Except φ α} {b : β}
    (h : x.map f = .ok b) : ∃ a, x = .ok a ∧ f a = b := by
  cases x with
  | error e => cases h
  | ok a => exact ⟨a, rfl, Except.ok.inj h⟩

/-- The property holds in the first state and in every state the events lead to. -/
def EveryState (step : σ → ε → Except φ σ) (P : σ → Prop) : σ → List ε → Prop
  | s, [] => P s
  | s, e :: es => P s ∧ ∀ s', step s e = .ok s' → EveryState step P s' es

/-- Every event of the run meets the condition in the state it is taken in. -/
def EveryStep (step : σ → ε → Except φ σ) (C : σ → ε → Prop) : σ → List ε → Prop
  | _, [] => True
  | s, e :: es => C s e ∧ ∀ s', step s e = .ok s' → EveryStep step C s' es

/-- An invariant that implies the property and is kept by every step that meets the
condition. -/
theorem EveryState.of_inv {step : σ → ε → Except φ σ} {C : σ → ε → Prop} {Inv P : σ → Prop}
    (hP : ∀ {s}, Inv s → P s)
    (hstep : ∀ {s e s'}, Inv s → C s e → step s e = .ok s' → Inv s') {es : List ε} :
    ∀ {s : σ}, Inv s → EveryStep step C s es → EveryState step P s es := by
  induction es with
  | nil => exact fun h _ => hP h
  | cons e es ih =>
    rintro s h ⟨hc, hrest⟩
    exact ⟨hP h, fun s' hs => ih (hstep h hc hs) (hrest s' hs)⟩

theorem EveryState.imp {step : σ → ε → Except φ σ} {P Q : σ → Prop} (h : ∀ {s}, P s → Q s)
    {es : List ε} : ∀ {s : σ}, EveryState step P s es → EveryState step Q s es := by
  induction es with
  | nil => exact fun hs => h hs
  | cons e es ih => exact fun hs => ⟨h hs.1, fun s' hs' => ih (hs.2 s' hs')⟩

/-- A run begins with its first step. -/
theorem foldlM_step {step : σ → ε → Except φ σ} {s s' q : σ} {e : ε} {es : List ε}
    (hstep : step s e = .ok s') (hrun : es.foldlM step s' = .ok q) :
    (e :: es).foldlM step s = .ok q := by
  rw [List.foldlM_cons, hstep]
  exact hrun

/-- The state a run ends in is one of its states. -/
theorem EveryState.last {step : σ → ε → Except φ σ} {P : σ → Prop} {es : List ε} {q : σ} :
    ∀ {s : σ}, EveryState step P s es → es.foldlM step s = .ok q → P q := by
  induction es with
  | nil =>
    intro s h hrun
    cases hrun
    exact h
  | cons e es ih =>
    intro s h hrun
    rw [List.foldlM_cons] at hrun
    cases hs : step s e with
    | error f =>
      rw [hs] at hrun
      cases hrun
    | ok s' =>
      rw [hs] at hrun
      exact ih (h.2 s' hs) hrun

theorem EveryStep.imp {step : σ → ε → Except φ σ} {C D : σ → ε → Prop}
    (h : ∀ {s e}, C s e → D s e) {es : List ε} :
    ∀ {s : σ}, EveryStep step C s es → EveryStep step D s es := by
  induction es with
  | nil => exact fun _ => trivial
  | cons e es ih => exact fun hs => ⟨h hs.1, fun s' hs' => ih (hs.2 s' hs')⟩

/-- What a step does in a state with the invariant. -/
theorem EveryStep.of_inv {step : σ → ε → Except φ σ} {C D : σ → ε → Prop} {Inv : σ → Prop}
    (hD : ∀ {s e}, Inv s → C s e → D s e)
    (hstep : ∀ {s e s'}, Inv s → C s e → step s e = .ok s' → Inv s') {es : List ε} :
    ∀ {s : σ}, Inv s → EveryStep step C s es → EveryStep step D s es := by
  induction es with
  | nil => exact fun _ _ => trivial
  | cons e es ih =>
    rintro s h ⟨hc, hrest⟩
    exact ⟨hD h hc, fun s' hs => ih (hstep h hc hs) (hrest s' hs)⟩

/-- A run with its first step known. -/
theorem EveryStep.cons {step : σ → ε → Except φ σ} {C : σ → ε → Prop} {s s' : σ} {e : ε}
    {es : List ε} (hC : C s e) (hs : step s e = .ok s') (hrest : EveryStep step C s' es) :
    EveryStep step C s (e :: es) := by
  refine ⟨hC, fun s'' hs'' => ?_⟩
  rw [hs] at hs''
  cases hs''
  exact hrest

theorem EveryStep.of_mem {step : σ → ε → Except φ σ} {C : σ → ε → Prop} {es : List ε}
    (h : ∀ e ∈ es, ∀ s, C s e) : ∀ s : σ, EveryStep step C s es := by
  induction es with
  | nil => exact fun _ => trivial
  | cons e es ih =>
    intro s
    exact ⟨h e (List.mem_cons_self ..) s,
      fun s' _ => ih (fun e' he' => h e' (List.mem_cons_of_mem e he')) s'⟩

theorem EveryStep.of_forall {step : σ → ε → Except φ σ} {C : σ → ε → Prop}
    (h : ∀ s e, C s e) (es : List ε) (s : σ) : EveryStep step C s es :=
  EveryStep.of_mem (fun e _ s => h s e) s

/-! ## Steps with several outcomes -/

/-- The property holds in the first state and in every state the events can lead to. -/
def AllStates (R : σ → ε → σ → Prop) (P : σ → Prop) : σ → List ε → Prop
  | s, [] => P s
  | s, e :: es => P s ∧ ∀ s', R s e s' → AllStates R P s' es

/-- Every event meets the condition in every state it can be taken in. -/
def AllSteps (R : σ → ε → σ → Prop) (C : σ → ε → Prop) : σ → List ε → Prop
  | _, [] => True
  | s, e :: es => C s e ∧ ∀ s', R s e s' → AllSteps R C s' es

theorem AllStates.of_inv {R : σ → ε → σ → Prop} {C : ε → Prop} {Inv P : σ → Prop}
    (hP : ∀ {s}, Inv s → P s) (hstep : ∀ {s e s'}, Inv s → C e → R s e s' → Inv s')
    {es : List ε} : ∀ {s : σ}, Inv s → (∀ e ∈ es, C e) → AllStates R P s es := by
  induction es with
  | nil => exact fun h _ => hP h
  | cons e es ih =>
    intro s h hC
    obtain ⟨he, hes⟩ := List.forall_mem_cons.mp hC
    exact ⟨hP h, fun s' hs => ih (hstep h he hs) hes⟩

theorem AllSteps.of_mem {R : σ → ε → σ → Prop} {C : σ → ε → Prop} {es : List ε}
    (h : ∀ e ∈ es, ∀ s, C s e) : ∀ s : σ, AllSteps R C s es := by
  induction es with
  | nil => exact fun _ => trivial
  | cons e es ih =>
    obtain ⟨he, hes⟩ := List.forall_mem_cons.mp h
    exact fun s => ⟨he s, fun s' _ => ih hes s'⟩

end Run
