import Mathlib.Data.List.Nodup
import Mathlib.Logic.Function.Basic
import Mathlib.Tactic.Common

/-!
# Calls whose steps interleave, and the same calls one after the other

Each call of a family takes steps on a shared state until it has finished. A run is any sequence
of moves, each by one call. Its return order is the sequence of the moves with which calls
finish: a call that has returned before another one starts comes before it.

The run is linear when it is the same as making the calls whole, in their return order: the shared
state at the end and the phase in which each call finished are the same. This holds when for each
call there is something that is true of where it stands (`T`), kept by its own steps and by the
steps of the others, from which its last step is the whole call (`Track`).

Result: `Track.linear`, such runs are linear.
-/

namespace Linear

variable {σ ι κ μ : Type}

structure Machine (σ ι κ μ : Type) where
  /-- One step of a call. -/
  step : ι → μ → σ → κ → κ × σ
  /-- The call made at one stroke. -/
  whole : ι → μ → σ → κ × σ
  finished : κ → Bool

structure Config (σ ι κ : Type) where
  shared : σ
  phase : ι → κ

variable [DecidableEq ι] (M : Machine σ ι κ μ)

def Machine.next (p : Config σ ι κ) (mv : ι × μ) : Config σ ι κ :=
  { shared := (M.step mv.1 mv.2 p.shared (p.phase mv.1)).2
    phase := Function.update p.phase mv.1 (M.step mv.1 mv.2 p.shared (p.phase mv.1)).1 }

def Machine.run (p : Config σ ι κ) (moves : List (ι × μ)) : Config σ ι κ := moves.foldl M.next p

/-- The moves with which calls finish. -/
def Machine.returns : Config σ ι κ → List (ι × μ) → List (ι × μ)
  | _, [] => []
  | p, mv :: moves =>
    if !M.finished (p.phase mv.1) && M.finished ((M.next p mv).phase mv.1) then
      mv :: Machine.returns (M.next p mv) moves
    else Machine.returns (M.next p mv) moves

/-- The calls one after the other. -/
def Machine.inOrder (s : σ) (order : List (ι × μ)) : σ :=
  order.foldl (fun s mv => (M.whole mv.1 mv.2 s).2) s

/-- Every move of the run meets the condition where it is made. -/
def Machine.Always (D : Config σ ι κ → ι × μ → Prop) : Config σ ι κ → List (ι × μ) → Prop
  | _, [] => True
  | p, mv :: moves => D p mv ∧ Machine.Always D (M.next p mv) moves

/-- What is true of where a call stands, and what the moves make of it. -/
structure Track (T : ι → σ → κ → Prop) (D : Config σ ι κ → ι × μ → Prop) : Prop where
  /-- A call that has finished takes no more steps. -/
  done : ∀ i m s k, M.finished k = true → M.step i m s k = (k, s)
  /-- A step before the last one shows to nobody. -/
  silent : ∀ p mv, D p mv → T mv.1 p.shared (p.phase mv.1) → M.finished (p.phase mv.1) = false →
    M.finished ((M.next p mv).phase mv.1) = false →
    (M.next p mv).shared = p.shared ∧ T mv.1 p.shared ((M.next p mv).phase mv.1)
  /-- The last step is the whole call. -/
  commit : ∀ p mv, D p mv → T mv.1 p.shared (p.phase mv.1) → M.finished (p.phase mv.1) = false →
    M.finished ((M.next p mv).phase mv.1) = true →
    M.step mv.1 mv.2 p.shared (p.phase mv.1) = M.whole mv.1 mv.2 p.shared
  others : ∀ p mv i, D p mv → i ≠ mv.1 → M.finished (p.phase i) = false →
    T i p.shared (p.phase i) → T i (M.next p mv).shared (p.phase i)

variable {M} {T : ι → σ → κ → Prop} {D : Config σ ι κ → ι × μ → Prop}

theorem next_self (p : Config σ ι κ) (mv : ι × μ) :
    (M.next p mv).phase mv.1 = (M.step mv.1 mv.2 p.shared (p.phase mv.1)).1 :=
  Function.update_self ..

theorem next_of_ne {p : Config σ ι κ} {mv : ι × μ} {i : ι} (h : i ≠ mv.1) :
    (M.next p mv).phase i = p.phase i := Function.update_of_ne h ..

/-- All calls that have not finished are where they should be. -/
def OnTrack (M : Machine σ ι κ μ) (T : ι → σ → κ → Prop) (p : Config σ ι κ) : Prop :=
  ∀ i, M.finished (p.phase i) = false → T i p.shared (p.phase i)

theorem Track.next (h : Track M T D) {p : Config σ ι κ} {mv : ι × μ} (hp : OnTrack M T p)
    (hD : D p mv) : OnTrack M T (M.next p mv) := by
  intro i hi
  rcases eq_or_ne i mv.1 with rfl | hne
  · cases hfin : M.finished (p.phase mv.1) with
    | true =>
      rw [next_self, h.done _ _ _ _ hfin, hfin] at hi
      cases hi
    | false =>
      obtain ⟨hshared, hT⟩ := h.silent p mv hD (hp mv.1 hfin) hfin hi
      rw [hshared]
      exact hT
  · rw [next_of_ne hne] at hi ⊢
    exact h.others p mv i hD hne hi (hp i hi)

/-- A call that has finished stays as it is. -/
theorem Track.finished_next (h : Track M T D) {p : Config σ ι κ} {i : ι}
    (hi : M.finished (p.phase i) = true) (mv : ι × μ) : (M.next p mv).phase i = p.phase i := by
  rcases eq_or_ne i mv.1 with rfl | hne
  · rw [next_self, h.done _ _ _ _ hi]
  · exact next_of_ne hne

theorem Track.finished_run (h : Track M T D) (moves : List (ι × μ)) :
    ∀ {p : Config σ ι κ} {i : ι}, M.finished (p.phase i) = true →
      (M.run p moves).phase i = p.phase i := by
  induction moves with
  | nil => exact fun _ => rfl
  | cons mv moves ih =>
    intro p i hi
    have hstay := h.finished_next hi mv
    exact (ih (hstay ▸ hi)).trans hstay

/-- A move that finishes no call leaves the shared state. -/
theorem Track.shared_next (h : Track M T D) {p : Config σ ι κ} {mv : ι × μ} (hp : OnTrack M T p)
    (hD : D p mv)
    (hno : ¬ (!M.finished (p.phase mv.1) && M.finished ((M.next p mv).phase mv.1)) = true) :
    (M.next p mv).shared = p.shared := by
  cases hfin : M.finished (p.phase mv.1) with
  | true =>
    show (M.step mv.1 mv.2 p.shared (p.phase mv.1)).2 = p.shared
    rw [h.done _ _ _ _ hfin]
  | false =>
    cases hnext : M.finished ((M.next p mv).phase mv.1) with
    | true =>
      rw [hfin, hnext] at hno
      exact absurd rfl hno
    | false => exact (h.silent p mv hD (hp mv.1 hfin) hfin hnext).1

/-- What a run and its return order have in common. -/
structure IsLinear (M : Machine σ ι κ μ) (p p' : Config σ ι κ) (order : List (ι × μ)) : Prop where
  shared : p'.shared = M.inOrder p.shared order
  results : ∀ before mv after, order = before ++ mv :: after →
    p'.phase mv.1 = (M.whole mv.1 mv.2 (M.inOrder p.shared before)).1
  finished : ∀ i, M.finished (p'.phase i) = true ↔
    M.finished (p.phase i) = true ∨ i ∈ order.map Prod.fst
  once : (order.map Prod.fst).Nodup

omit [DecidableEq ι] in
theorem IsLinear.nil (p : Config σ ι κ) : IsLinear M p p [] := by
  refine ⟨rfl, ?_, ?_, List.nodup_nil⟩
  · intro before mv after heq
    cases before <;> cases heq
  · intro i
    exact ⟨.inl, fun hi => hi.resolve_right List.not_mem_nil⟩

theorem returns_unfinished {moves : List (ι × μ)} (h : Track M T D) :
    ∀ {p : Config σ ι κ} {i : ι}, i ∈ (M.returns p moves).map Prod.fst →
      M.finished (p.phase i) = false := by
  induction moves with
  | nil =>
    intro p i hi
    cases hi
  | cons mv moves ih =>
    intro p i hi
    cases hfin : M.finished (p.phase i) with
    | false => rfl
    | true =>
      have hlater : i ∈ (M.returns (M.next p mv) moves).map Prod.fst := by
        rw [Machine.returns] at hi
        split at hi
        · next hret =>
          rw [List.map_cons, List.mem_cons] at hi
          refine hi.resolve_left ?_
          rintro rfl
          rw [hfin] at hret
          cases hret
        · exact hi
      have hnext := ih hlater
      rw [h.finished_next hfin, hfin] at hnext
      exact hnext

/-- A run on track is the calls one after the other, in the order in which they return. -/
theorem Track.linear (h : Track M T D) (moves : List (ι × μ)) :
    ∀ {p : Config σ ι κ}, OnTrack M T p → M.Always D p moves →
      IsLinear M p (M.run p moves) (M.returns p moves) := by
  induction moves with
  | nil => exact fun _ _ => .nil _
  | cons mv moves ih =>
    rintro p hp ⟨hD, hrest⟩
    obtain ⟨hshared, hresults, hfinished, honce⟩ := ih (h.next hp hD) hrest
    change IsLinear M p (M.run (M.next p mv) moves) _
    rw [Machine.returns]
    split
    · -- the move finishes its call, and it is the whole call
      next hret =>
      simp only [Bool.and_eq_true, Bool.not_eq_true'] at hret
      obtain ⟨hfin, hdone⟩ := hret
      have hcommit := h.commit p mv hD (hp mv.1 hfin) hfin hdone
      have hstate : (M.next p mv).shared = (M.whole mv.1 mv.2 p.shared).2 := by
        rw [← hcommit]
        rfl
      refine ⟨?_, ?_, ?_, ?_⟩
      · rw [hshared, hstate]
        rfl
      · intro before mv' after heq
        cases before with
        | nil =>
          obtain ⟨rfl, _⟩ := List.cons.inj heq
          rw [h.finished_run moves hdone, next_self, hcommit]
          rfl
        | cons mv₀ before =>
          obtain ⟨rfl, htail⟩ := List.cons.inj heq
          rw [hresults before mv' after htail, hstate]
          rfl
      · intro i
        rw [hfinished, List.map_cons, List.mem_cons]
        rcases eq_or_ne i mv.1 with rfl | hne
        · exact ⟨fun _ => .inr (.inl rfl), fun _ => .inl hdone⟩
        · rw [next_of_ne hne]
          exact or_congr_right ⟨.inr, fun hi => hi.resolve_left hne⟩
      · rw [List.map_cons, List.nodup_cons]
        refine ⟨fun hmem => ?_, honce⟩
        have hun := returns_unfinished h hmem
        rw [hdone] at hun
        cases hun
    · next hno =>
      have hstate := h.shared_next hp hD hno
      refine ⟨?_, ?_, ?_, honce⟩
      · rw [hshared, hstate]
      · intro before mv' after heq
        rw [hresults before mv' after heq, hstate]
      · intro i
        rw [hfinished]
        refine or_congr_left ?_
        rcases eq_or_ne i mv.1 with rfl | hne
        · cases hfin : M.finished (p.phase mv.1) with
          | true => rw [h.finished_next hfin, hfin]
          | false =>
            rw [hfin, Bool.not_false, Bool.true_and] at hno
            rw [Bool.eq_false_iff.mpr hno]
        · rw [next_of_ne hne]

end Linear
