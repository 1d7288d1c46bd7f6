import Mathlib.Data.List.Basic
import Mathlib.Tactic.Common

/-!
# Reading a stream line by line into a buffer

A reader takes one line after the other from a stream, each up to its separator, into a buffer
that has room for `n` elements. A line that does not fit is taken in several pieces, and the next
piece starts where the last one stopped.

Results:
1. `piece_line`: a line that fits is taken whole, and nothing behind it.
2. `pieces_flatten`: nothing is lost or taken twice, however the lines are cut.
-/

namespace Lines

variable {α : Type} [DecidableEq α] {sep : α}

/-- What one call takes: elements up to the separator, at most `n`. -/
def piece (sep : α) : Nat → List α → List α
  | 0, _ => []
  | _ + 1, [] => []
  | n + 1, a :: stream => if a = sep then [a] else a :: piece sep n stream

/-- What the calls take until the stream ends, one after the other; at most `fuel` calls. -/
def pieces (sep : α) (n : Nat) : Nat → List α → List (List α)
  | 0, _ => []
  | _ + 1, [] => []
  | fuel + 1, a :: stream =>
    let got := piece sep n (a :: stream)
    got :: pieces sep n fuel ((a :: stream).drop got.length)

theorem piece_isPrefix {n : Nat} : ∀ {stream : List α}, piece sep n stream <+: stream := by
  induction n with
  | zero => exact List.nil_prefix
  | succ n ih =>
    intro stream
    cases stream with
    | nil => exact List.nil_prefix
    | cons a stream =>
      rw [piece]
      split
      · exact List.prefix_cons_inj a |>.mpr List.nil_prefix
      · exact List.prefix_cons_inj a |>.mpr ih

theorem piece_append_drop (sep : α) (n : Nat) (stream : List α) :
    piece sep n stream ++ stream.drop (piece sep n stream).length = stream := by
  obtain ⟨rest, hrest⟩ := @piece_isPrefix α _ sep n stream
  conv_lhs => rw [← hrest]
  rw [List.drop_append_of_le_length (Nat.le_of_eq (by rw [hrest])), hrest, List.drop_length,
    List.nil_append]
  exact hrest

theorem piece_pos {n : Nat} {stream : List α} (hn : 0 < n) (hne : stream ≠ []) :
    0 < (piece sep n stream).length := by
  obtain ⟨n, rfl⟩ := Nat.exists_eq_succ_of_ne_zero (Nat.ne_of_gt hn)
  cases stream with
  | nil => exact absurd rfl hne
  | cons a stream =>
    rw [piece]
    split
    · exact Nat.one_pos
    · exact Nat.succ_pos _

/-- A line with its separator, and room for both. -/
theorem piece_line {line rest : List α} (hsep : sep ∉ line) {n : Nat} :
    line.length < n → piece sep n (line ++ sep :: rest) = line ++ [sep] := by
  induction line generalizing n with
  | nil =>
    intro hn
    obtain ⟨n, rfl⟩ := Nat.exists_eq_succ_of_ne_zero (Nat.ne_of_gt hn)
    exact if_pos rfl
  | cons a line ih =>
    intro hn
    obtain ⟨n, rfl⟩ := Nat.exists_eq_succ_of_ne_zero (Nat.ne_of_gt (Nat.zero_lt_of_lt hn))
    rw [List.mem_cons, not_or] at hsep
    show (if a = sep then [a] else a :: piece sep n (line ++ sep :: rest)) = _
    rw [if_neg (Ne.symm hsep.1), ih hsep.2 (Nat.lt_of_succ_lt_succ hn)]
    rfl

/-- The pieces are the stream. -/
theorem pieces_flatten {n : Nat} (hn : 0 < n) {fuel : Nat} :
    ∀ {stream : List α}, stream.length ≤ fuel → (pieces sep n fuel stream).flatten = stream := by
  induction fuel with
  | zero =>
    intro stream h
    rw [List.length_eq_zero_iff.mp (Nat.le_zero.mp h)]
    rfl
  | succ fuel ih =>
    intro stream h
    cases stream with
    | nil => rfl
    | cons a stream =>
      have hpos : 0 < (piece sep n (a :: stream)).length := piece_pos hn (List.cons_ne_nil a stream)
      have hrest : ((a :: stream).drop (piece sep n (a :: stream)).length).length ≤ fuel := by
        rw [List.length_drop]
        omega
      rw [pieces, List.flatten_cons, ih hrest, piece_append_drop]

end Lines
