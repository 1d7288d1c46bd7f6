import Mathlib.Data.List.Basic
import Mathlib.Data.Nat.Find
import Mathlib.Tactic.Common

/-!
# Reading a text in pieces

A reader is asked again and again, each time from the position the last call left behind.
What a call delivers may depend on its number (each call asks for as much as it likes) and
on the position. A reader pages through a text when a call before the end delivers a piece
of it that is not empty and moves behind that piece, and a call at the end delivers nothing.

Results:
1. `Pages.gathered_eq`: after any number of calls, what was delivered is the text up to the
   position.
2. `Pages.reads_whole`: the first call that delivers nothing comes, and by then the whole
   text was delivered.
3. `Pages.readFrom_eq`: the same for a reader that stops there.
-/

namespace Reader

variable {α : Type}

/-- What call number `n` at a position delivers, and the position it leaves. -/
structure Session (α : Type) where
  piece : Nat → Nat → List α
  next : Nat → Nat → Nat

/-- The position of call number `n` when the first call starts at 0. -/
def Session.position (r : Session α) : Nat → Nat
  | 0 => 0
  | n + 1 => r.next n (r.position n)

/-- What the calls before number `n` delivered. -/
def Session.gathered (r : Session α) : Nat → List α
  | 0 => []
  | n + 1 => r.gathered n ++ r.piece n (r.position n)

/-- The reader pages through the text. -/
structure Pages (r : Session α) (text : List α) : Prop where
  inside : ∀ n pos, pos < text.length → r.piece n pos <+: text.drop pos
  progress : ∀ n pos, pos < text.length → r.piece n pos ≠ []
  behind : ∀ n pos, pos < text.length → r.next n pos = pos + (r.piece n pos).length
  finished : ∀ n, r.piece n text.length = [] ∧ r.next n text.length = text.length

variable {r : Session α} {text : List α}

/-- A piece of the text extends what stands before it. -/
theorem take_append_piece {piece : List α} {pos : Nat} (h : piece <+: text.drop pos) :
    text.take pos ++ piece = text.take (pos + piece.length) := by
  obtain ⟨rest, hrest⟩ := h
  rw [List.take_add, ← hrest, List.take_left' rfl]

theorem Pages.gathered_eq (h : Pages r text) (n : Nat) :
    r.position n ≤ text.length ∧ r.gathered n = text.take (r.position n) := by
  induction n with
  | zero => exact ⟨Nat.zero_le _, rfl⟩
  | succ n ih =>
    obtain ⟨hle, heq⟩ := ih
    rw [Session.position, Session.gathered, heq]
    rcases Nat.lt_or_ge (r.position n) text.length with hlt | hge
    · have hpre := h.inside n _ hlt
      have hlen := hpre.length_le
      rw [List.length_drop] at hlen
      rw [h.behind n _ hlt]
      exact ⟨by omega, take_append_piece hpre⟩
    · rw [Nat.le_antisymm hle hge, (h.finished n).1, (h.finished n).2, List.append_nil]
      exact ⟨le_refl _, rfl⟩

/-- Every call before the end moves on. -/
theorem Pages.position_lt (h : Pages r text) {n : Nat} (hlt : r.position n < text.length) :
    r.position n < r.position (n + 1) := by
  rw [Session.position, h.behind n _ hlt]
  exact Nat.lt_add_of_pos_right (List.length_pos_of_ne_nil (h.progress n _ hlt))

/-- So the end is reached after at most as many calls as the text is long. -/
theorem Pages.reaches_end (h : Pages r text) : ∃ n, r.position n = text.length := by
  by_contra hnever
  -- each call would then move on, and the position outgrow the text
  have hbelow : ∀ n, r.position n < text.length := fun n =>
    Nat.lt_of_le_of_ne (h.gathered_eq n).1 fun heq => hnever ⟨n, heq⟩
  have hgrows : ∀ n, n ≤ r.position n := by
    intro n
    induction n with
    | zero => exact Nat.zero_le _
    | succ n ih => exact Nat.lt_of_le_of_lt ih (h.position_lt (hbelow n))
  exact absurd (hgrows text.length) (Nat.not_le.mpr (hbelow _))

/-- The calls deliver the text piece by piece, and the first empty one comes at its end. -/
theorem Pages.reads_whole (h : Pages r text) :
    ∃ n, r.position n = text.length ∧ (∀ k < n, r.position k < text.length) ∧
      r.gathered n = text := by
  have hend := h.reaches_end
  refine ⟨Nat.find hend, Nat.find_spec hend, ?_, ?_⟩
  · intro k hk
    exact Nat.lt_of_le_of_ne (h.gathered_eq k).1 (Nat.find_min hend hk)
  · rw [(h.gathered_eq _).2, Nat.find_spec hend, List.take_length]

/-- What is delivered from call number `n` on, up to the first call that delivers nothing; at most
`fuel` calls. -/
def Session.readFrom (r : Session α) : Nat → Nat → Nat → List α
  | 0, _, _ => []
  | fuel + 1, n, pos =>
    match r.piece n pos with
    | [] => []
    | a :: piece => a :: piece ++ r.readFrom fuel (n + 1) (r.next n pos)

/-- A reader that goes on until nothing is delivered gets the rest of the text. -/
theorem Pages.readFrom_eq (h : Pages r text) {fuel : Nat} :
    ∀ {n pos : Nat}, pos ≤ text.length → text.length < pos + fuel →
      r.readFrom fuel n pos = text.drop pos := by
  induction fuel with
  | zero => exact fun hpos hfuel => absurd hfuel (Nat.not_lt.mpr hpos)
  | succ fuel ih =>
    intro n pos hpos hfuel
    rw [Session.readFrom]
    rcases Nat.eq_or_lt_of_le hpos with rfl | hlt
    · rw [(h.finished n).1, List.drop_length]
    · have hpre := h.inside n pos hlt
      have hbehind := h.behind n pos hlt
      have hle := hpre.length_le
      rw [List.length_drop] at hle
      cases hpiece : r.piece n pos with
      | nil => exact absurd hpiece (h.progress n pos hlt)
      | cons a piece =>
        rw [hpiece] at hpre hbehind hle
        rw [List.length_cons] at hbehind hle
        obtain ⟨rest, hrest⟩ := hpre
        dsimp only
        rw [hbehind, ih (by omega) (by omega), ← List.drop_drop, ← hrest]
        exact congrArg (a :: piece ++ ·) (List.drop_left' rfl)

end Reader
