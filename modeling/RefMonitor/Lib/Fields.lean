import Mathlib.Data.List.Basic
import Mathlib.Tactic.Common

/-!
# Texts made of fields

A text is often put together from fields with a separator between them, or with one at the
end of each. It can be taken apart again as long as no field holds the separator. Decimal
numbers are such fields: their bytes are digits.

Results:
1. `append_sep_inj`: the first field of a text is determined by the text.
2. `lines_terminated_iff`: the lines of a text are the fields it was made of exactly when no
   field holds the separator.
3. `decimal_inj`, `decimal_digit`: numbers can be read back, and are made of digits.
-/

namespace Fields

section Separators

variable {α : Type} {sep : α}

/-- The fields, each followed by the separator. -/
def terminated (sep : α) (fields : List (List α)) : List α := fields.flatMap fun f => f ++ [sep]

theorem append_sep_inj {a a' r r' : List α} (ha : sep ∉ a) (ha' : sep ∉ a')
    (h : a ++ sep :: r = a' ++ sep :: r') : a = a' ∧ r = r' := by
  induction a generalizing a' with
  | nil =>
    cases a' with
    | nil => exact ⟨rfl, (List.cons.inj h).2⟩
    | cons x a' => exact absurd ((List.cons.inj h).1 ▸ List.mem_cons_self ..) ha'
  | cons x a ih =>
    cases a' with
    | nil => exact absurd ((List.cons.inj h).1 ▸ List.mem_cons_self ..) ha
    | cons x' a' =>
      obtain ⟨hx, hrest⟩ := List.cons.inj h
      obtain ⟨heq, hr⟩ := ih (List.not_mem_of_not_mem_cons ha) (List.not_mem_of_not_mem_cons ha') hrest
      exact ⟨by rw [hx, heq], hr⟩

theorem terminated_cons (field : List α) (fields : List (List α)) :
    terminated sep (field :: fields) = field ++ sep :: terminated sep fields := by
  rw [terminated, List.flatMap_cons, List.append_assoc]
  rfl

theorem mem_intercalate {b : α} {parts : List (List α)} {part : List α}
    (hpart : part ∈ parts) (hb : b ∈ part) : b ∈ [sep].intercalate parts := by
  induction parts with
  | nil => exact absurd hpart List.not_mem_nil
  | cons p parts ih =>
    cases parts with
    | nil =>
      rw [List.mem_singleton.mp hpart] at hb
      rwa [List.intercalate_singleton]
    | cons p' parts =>
      rw [List.intercalate_cons_cons, List.mem_append, List.mem_append]
      rcases List.mem_cons.mp hpart with rfl | hpart
      · exact .inl (.inl hb)
      · exact .inr (ih hpart)

variable [DecidableEq α]

/-- The lines of a text: what stands before each separator. -/
def lines (sep : α) (text : List α) : List (List α) := (text.splitOn sep).dropLast

/-- A part between separators holds none. -/
theorem sep_notMem_splitOn {text part : List α} (h : part ∈ text.splitOn sep) : sep ∉ part := by
  induction text generalizing part with
  | nil =>
    rw [List.splitOn_nil] at h
    rw [List.mem_singleton.mp h]
    exact List.not_mem_nil
  | cons x text ih =>
    rw [List.splitOn_cons_eq_if_modifyHead] at h
    split at h
    · rcases List.mem_cons.mp h with rfl | h
      · exact List.not_mem_nil
      · exact ih h
    · next hx =>
      cases hparts : text.splitOn sep with
      | nil => exact absurd hparts (List.splitOn_ne_nil _ _)
      | cons first parts =>
        rw [hparts] at h ih
        rcases List.mem_cons.mp h with rfl | h
        · rintro (_ | ⟨_, hsep⟩)
          · exact hx (beq_self_eq_true sep)
          · exact ih (List.mem_cons_self ..) hsep
        · exact ih (List.mem_cons_of_mem _ h)

/-- A part between separators is made of what the whole is made of. -/
theorem mem_of_mem_splitOn {b : α} {text part : List α}
    (hpart : part ∈ text.splitOn sep) (hb : b ∈ part) : b ∈ text := by
  have hjoin : [sep].intercalate (text.splitOn sep) = text := List.intercalate_splitOn sep
  rw [← hjoin]
  exact mem_intercalate hpart hb

theorem lines_cons {field : List α} (h : sep ∉ field) (rest : List α) :
    lines sep (field ++ sep :: rest) = field :: lines sep rest := by
  rw [lines, lines, List.splitOn_append_cons_self_of_not_mem h,
    List.dropLast_cons_of_ne_nil (List.splitOn_ne_nil _ _)]

theorem lines_terminated {fields : List (List α)} (h : ∀ f ∈ fields, sep ∉ f) :
    lines sep (terminated sep fields) = fields := by
  induction fields with
  | nil => rfl
  | cons field fields ih =>
    rw [terminated_cons, lines_cons (h field (List.mem_cons_self ..)),
      ih fun f hf => h f (List.mem_cons_of_mem _ hf)]

/-- The lines are the fields exactly when no field holds the separator. -/
theorem lines_terminated_iff {fields : List (List α)} :
    lines sep (terminated sep fields) = fields ↔ ∀ f ∈ fields, sep ∉ f := by
  refine ⟨?_, lines_terminated⟩
  intro h f hf
  rw [← h] at hf
  exact sep_notMem_splitOn (List.dropLast_subset _ hf)

end Separators

/-! ## Decimal numbers -/

/-- The digits of a number, as bytes. -/
def decimal (n : Nat) : List UInt8 := (Nat.toDigits 10 n).map fun c => UInt8.ofNat c.toNat

/-- The number that a list of digits stands for. -/
def decimalValue (digits : List UInt8) : Nat :=
  digits.foldl (fun n b => 10 * n + (b.toNat - 48)) 0

theorem toNat_digit {c : Char} (h : c.isDigit = true) :
    (UInt8.ofNat c.toNat).toNat = c.toNat ∧ 48 ≤ c.toNat ∧ c.toNat ≤ 57 := by
  simp only [Char.isDigit, Bool.and_eq_true, decide_eq_true_eq] at h
  have hlo : 48 ≤ c.toNat := h.1
  have hhi : c.toNat ≤ 57 := h.2
  refine ⟨?_, hlo, hhi⟩
  rw [UInt8.toNat_ofNat']
  exact Nat.mod_eq_of_lt (Nat.lt_of_le_of_lt hhi (by decide))

theorem decimal_digit {n : Nat} {b : UInt8} (h : b ∈ decimal n) : 48 ≤ b.toNat ∧ b.toNat ≤ 57 := by
  obtain ⟨c, hc, rfl⟩ := List.mem_map.mp h
  obtain ⟨hnat, hlo, hhi⟩ :=
    toNat_digit (Nat.isDigit_of_mem_toDigits (by decide) (by decide) hc)
  rw [hnat]
  exact ⟨hlo, hhi⟩

theorem decimalValue_decimal (n : Nat) : decimalValue (decimal n) = n := by
  have hfold : ∀ (cs : List Char) (init : Nat), (∀ c ∈ cs, c.isDigit = true) →
      (cs.map fun c => UInt8.ofNat c.toNat).foldl (fun n b => 10 * n + (b.toNat - 48)) init =
        Nat.ofDigitChars 10 cs init := by
    intro cs
    induction cs with
    | nil => exact fun _ _ => rfl
    | cons c cs ih =>
      intro init hdigits
      have hc := (toNat_digit (hdigits c (List.mem_cons_self ..))).1
      rw [List.map_cons, List.foldl_cons, hc, Nat.ofDigitChars_cons,
        ih _ fun c' hc' => hdigits c' (List.mem_cons_of_mem c hc')]
      rfl
  rw [decimalValue, decimal, hfold, Nat.ofDigitChars_ten_toDigits]
  exact fun c hc => Nat.isDigit_of_mem_toDigits (by decide) (by decide) hc

theorem decimal_inj {m n : Nat} (h : decimal m = decimal n) : m = n := by
  rw [← decimalValue_decimal m, h, decimalValue_decimal]

end Fields
