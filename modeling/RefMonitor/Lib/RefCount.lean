import Mathlib.Data.List.Count
import Mathlib.Logic.Function.Basic
import Mathlib.Tactic.Common

/-!
# Reference counts

A counter for each object. Taking a reference adds one to the counter of the object and giving it
back removes one; nothing else is known of an object, so a reference given back too often shows
as a counter below the one it started from.

Results: `Refs.put_get` says that a pair of the two cancels out, and `Refs.get_ne`, `Refs.put_ne`
and `Refs.getAll_eq_self` that nothing else does.
-/

namespace RefCount

variable {δ : Type} [DecidableEq δ]

structure Refs (δ : Type) where
  count : δ → Int

def Refs.get (refs : Refs δ) (d : δ) : Refs δ :=
  { count := Function.update refs.count d (refs.count d + 1) }

def Refs.put (refs : Refs δ) (d : δ) : Refs δ :=
  { count := Function.update refs.count d (refs.count d - 1) }

/-- One reference to each of the objects, in the order of the list. -/
def Refs.getAll (refs : Refs δ) (ds : List δ) : Refs δ := ds.foldl Refs.get refs

theorem Refs.get_self (refs : Refs δ) (d : δ) : (refs.get d).count d = refs.count d + 1 :=
  Function.update_self ..

theorem Refs.get_of_ne (refs : Refs δ) {d d' : δ} (h : d' ≠ d) :
    (refs.get d).count d' = refs.count d' := Function.update_of_ne h ..

theorem Refs.put_self (refs : Refs δ) (d : δ) : (refs.put d).count d = refs.count d - 1 :=
  Function.update_self ..

/-- A reference that is taken and given back. -/
@[simp] theorem Refs.put_get (refs : Refs δ) (d : δ) : (refs.get d).put d = refs := by
  rw [Refs.put, Refs.get_self, Int.add_sub_cancel, Refs.get, Function.update_idem,
    Function.update_eq_self]

theorem Refs.get_ne (refs : Refs δ) (d : δ) : refs.get d ≠ refs := by
  intro h
  have hd := congrArg (fun r => r.count d) h
  rw [Refs.get_self] at hd
  omega

theorem Refs.put_ne (refs : Refs δ) (d : δ) : refs.put d ≠ refs := by
  intro h
  have hd := congrArg (fun r => r.count d) h
  rw [Refs.put_self] at hd
  omega

theorem Refs.count_getAll (ds : List δ) :
    ∀ (refs : Refs δ) (d : δ), (refs.getAll ds).count d = refs.count d + ds.count d := by
  induction ds with
  | nil =>
    intro refs d
    simp [Refs.getAll]
  | cons e ds ih =>
    intro refs d
    have hrest : refs.getAll (e :: ds) = (refs.get e).getAll ds := rfl
    rw [hrest, ih]
    cases decEq d e with
    | isTrue h =>
      rw [h, Refs.get_self, List.count_cons_self]
      push_cast
      rw [Int.add_assoc, Int.add_comm 1]
    | isFalse h => rw [Refs.get_of_ne refs h, List.count_cons_of_ne (Ne.symm h)]

/-- References that are only taken leave no counter as it was. -/
theorem Refs.getAll_eq_self {refs : Refs δ} {ds : List δ} : refs.getAll ds = refs ↔ ds = [] := by
  constructor
  · intro h
    cases ds with
    | nil => rfl
    | cons d ds =>
      have hd := congrArg (fun r => r.count d) h
      rw [Refs.count_getAll, List.count_cons_self] at hd
      omega
  · intro h
    rw [h]
    rfl

end RefCount
