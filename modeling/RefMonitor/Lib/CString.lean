import Mathlib.Data.List.Basic
import Mathlib.Data.List.GetD
import Mathlib.Data.List.TakeWhile
import Mathlib.Tactic.Common

/-!
# C strings in byte buffers

A `char *` is the list of bytes from the pointer to the end of its allocation.
The string it denotes is what stands before the first NUL (`cstr`); the string
functions below read and write the list as the kernel's `lib/string.c` does,
and their specifications say what they do to the string.

A buffer that holds a string followed only by zero bytes is `padded size s`.
Most code that handles path names keeps its buffers in that shape, and the
lemmas about `padded` are what such code needs.

Results:
1. `strcmp_eq_zero`, `strncmp_eq_zero`: a comparison answers zero exactly when
   the strings (their first `n` bytes) are equal.
2. `strncmp_strlen_eq_zero`: comparing over the length of the first argument
   tests whether it starts the second.
3. `writeAt_zero_padded`, `memsetZero_padded`, `memmove_cons`, `strncpy_padded_nil`:
   overwriting a padded buffer.
-/

namespace CString

/-! ## Strings -/

/-- The bytes of an ASCII literal. -/
def ascii (s : String) : List UInt8 := s.toList.map fun c => UInt8.ofNat c.toNat

/-- The string a pointer denotes: the bytes before the first NUL. -/
def cstr (buf : List UInt8) : List UInt8 := buf.takeWhile (· != 0)

def strlen (buf : List UInt8) : Nat := (cstr buf).length

def strnlen (buf : List UInt8) (n : Nat) : Nat := min (strlen buf) n

/-- `strcmp`, byte by byte; a list that has ended reads as NUL. -/
def strcmp : List UInt8 → List UInt8 → Int
  | [], b => if b.headD 0 = 0 then 0 else -1
  | x :: xs, b =>
    if x ≠ b.headD 0 then (if x < b.headD 0 then -1 else 1)
    else if x = 0 then 0
    else strcmp xs b.tail

/-- `strncmp`, over at most `n` bytes. -/
def strncmp : Nat → List UInt8 → List UInt8 → Int
  | 0, _, _ => 0
  | n + 1, a, b =>
    if a.headD 0 ≠ b.headD 0 then (if a.headD 0 < b.headD 0 then -1 else 1)
    else if a.headD 0 = 0 then 0
    else strncmp n a.tail b.tail

theorem cstr_nil : cstr [] = [] := rfl

theorem cstr_cons_zero (l : List UInt8) : cstr (0 :: l) = [] := by
  simp [cstr]

theorem cstr_cons {x : UInt8} (hx : x ≠ 0) (l : List UInt8) : cstr (x :: l) = x :: cstr l := by
  simp [cstr, hx]

/-- A string never holds the byte that ends it. -/
theorem zero_notMem_cstr (buf : List UInt8) : (0 : UInt8) ∉ cstr buf := by
  intro h
  have := List.mem_takeWhile_imp h
  simp at this

theorem cstr_append_of_notMem {s : List UInt8} (hs : (0 : UInt8) ∉ s) (r : List UInt8) :
    cstr (s ++ r) = s ++ cstr r := by
  unfold cstr
  rw [List.takeWhile_append_of_pos]
  intro x hx
  have : x ≠ 0 := fun h => hs (h ▸ hx)
  simpa using this

theorem cstr_eq_self {s : List UInt8} (hs : (0 : UInt8) ∉ s) : cstr s = s := by
  have := cstr_append_of_notMem hs []
  simpa [cstr_nil] using this

theorem cstr_append_zero {s : List UInt8} (hs : (0 : UInt8) ∉ s) (r : List UInt8) :
    cstr (s ++ 0 :: r) = s := by
  rw [cstr_append_of_notMem hs, cstr_cons_zero, List.append_nil]

/-- No string starts where a zero byte stands. -/
theorem cstr_drop_eq_nil_iff (buf : List UInt8) (n : Nat) :
    cstr (buf.drop n) = [] ↔ buf.getD n 0 = 0 := by
  have hhead : buf.getD n 0 = (buf.drop n).headD 0 := by
    rw [List.getD_eq_getElem?_getD, List.headD_eq_head?_getD, List.head?_drop]
  rw [hhead]
  cases buf.drop n with
  | nil => exact ⟨fun _ => rfl, fun _ => rfl⟩
  | cons b rest =>
    rw [List.headD_cons]
    constructor
    · intro hnil
      by_contra hb
      rw [cstr_cons hb] at hnil
      cases hnil
    · rintro rfl
      exact cstr_cons_zero rest

theorem cstr_isPrefix (buf : List UInt8) : cstr buf <+: buf := List.takeWhile_prefix _

theorem strlen_le_length (buf : List UInt8) : strlen buf ≤ buf.length :=
  (cstr_isPrefix buf).length_le

/-- What is read from inside a string is the rest of it. -/
theorem cstr_drop_of_le : ∀ {buf : List UInt8} {n : Nat}, n ≤ strlen buf →
    cstr (buf.drop n) = (cstr buf).drop n
  | _, 0, _ => rfl
  | [], _ + 1, _ => rfl
  | b :: buf, n + 1, h => by
    by_cases hb : b = 0
    · rw [hb, strlen, cstr_cons_zero] at h
      exact absurd h (Nat.not_succ_le_zero n)
    · rw [strlen, cstr_cons hb, List.length_cons] at h
      rw [List.drop_succ_cons, cstr_cons hb, List.drop_succ_cons]
      exact cstr_drop_of_le (Nat.le_of_succ_le_succ h)

theorem strcmp_eq_zero {a b : List UInt8} : strcmp a b = 0 ↔ cstr a = cstr b := by
  induction a generalizing b with
  | nil =>
    cases b with
    | nil => simp [strcmp, cstr]
    | cons y l =>
      by_cases hy : y = 0
      · simp [strcmp, hy, cstr]
      · simp [strcmp, hy, cstr]
  | cons x xs ih =>
    cases b with
    | nil =>
      by_cases hx : x = 0
      · simp [strcmp, hx, cstr]
      · by_cases hlt : x < 0 <;> simp [strcmp, hx, hlt, cstr]
    | cons y ys =>
      by_cases hxy : x = y
      · subst hxy
        by_cases hx : x = 0
        · simp [strcmp, hx, cstr]
        · simp only [strcmp, List.headD_cons, ne_eq, not_true_eq_false, if_false, if_neg hx,
            List.tail_cons, ih, cstr_cons hx, List.cons.injEq, true_and]
      · have hne : cstr (x :: xs) ≠ cstr (y :: ys) := by
          intro h
          by_cases hx : x = 0
          · subst hx
            rw [cstr_cons_zero, cstr_cons (Ne.symm hxy)] at h
            exact absurd h (by simp)
          · by_cases hy : y = 0
            · subst hy
              rw [cstr_cons_zero, cstr_cons hx] at h
              exact absurd h (by simp)
            · rw [cstr_cons hx, cstr_cons hy] at h
              exact hxy (List.cons.inj h).1
        by_cases hlt : x < y <;> simp [strcmp, hxy, hlt, hne]

theorem strncmp_eq_zero {n : Nat} {a b : List UInt8} :
    strncmp n a b = 0 ↔ (cstr a).take n = (cstr b).take n := by
  induction n generalizing a b with
  | zero => simp [strncmp]
  | succ n ih =>
    have hnil : ∀ l : List UInt8, (cstr l).take (n + 1) = [] ↔ l.headD 0 = 0 := by
      intro l
      cases l with
      | nil => simp [cstr]
      | cons x l => by_cases hx : x = 0 <;> simp [cstr, hx]
    have hcons : ∀ l : List UInt8, l.headD 0 ≠ 0 →
        (cstr l).take (n + 1) = l.headD 0 :: (cstr l.tail).take n := by
      intro l hl
      cases l with
      | nil => exact absurd rfl hl
      | cons x l => simp [cstr_cons (by simpa using hl : x ≠ 0)]
    unfold strncmp
    by_cases hab : a.headD 0 = b.headD 0
    · by_cases ha : a.headD 0 = 0
      · have hb : b.headD 0 = 0 := hab ▸ ha
        simp only [hab, hb, ne_eq, not_true_eq_false, if_false, if_true, true_iff]
        rw [(hnil a).mpr ha, (hnil b).mpr hb]
      · have hb : b.headD 0 ≠ 0 := hab ▸ ha
        rw [if_neg (by simpa using hab), if_neg ha, ih, hcons a ha, hcons b hb, hab]
        simp
    · have hne : (cstr a).take (n + 1) ≠ (cstr b).take (n + 1) := by
        intro h
        by_cases ha : a.headD 0 = 0
        · have hb := (hnil b).mp (h ▸ (hnil a).mpr ha)
          exact hab (ha.trans hb.symm)
        · by_cases hb : b.headD 0 = 0
          · exact ha ((hnil a).mp (h.trans ((hnil b).mpr hb)))
          · rw [hcons a ha, hcons b hb] at h
            exact hab (List.cons.inj h).1
      rw [if_pos hab]
      split <;> simp [hne]

/-- Comparing over the length of the first string tests whether it starts the second. -/
theorem strncmp_strlen_eq_zero {a b : List UInt8} :
    strncmp (strlen a) a b = 0 ↔ cstr a <+: cstr b := by
  rw [strncmp_eq_zero, List.prefix_iff_eq_take]
  simp [strlen]

/-! ## Writing into a buffer -/

/-- Overwrite the bytes from position `i` on with `bs`. -/
def writeAt (buf : List UInt8) (i : Nat) (bs : List UInt8) : List UInt8 :=
  buf.take i ++ bs ++ buf.drop (i + bs.length)

/-- `memset(&buf[i], 0, n)`. -/
def memsetZero (buf : List UInt8) (i n : Nat) : List UInt8 :=
  writeAt buf i (List.replicate n 0)

/-- `memmove(&buf[dst], &buf[src], n)`: the source bytes are read before any is written. -/
def memmove (buf : List UInt8) (dst src n : Nat) : List UInt8 :=
  writeAt buf dst ((buf.drop src).take n)

/-- `strncpy(dst, src, n)`: at most `n` bytes of the string, zero bytes up to `n`,
and no terminator when the string has `n` bytes or more. -/
def strncpy (dst src : List UInt8) (n : Nat) : List UInt8 :=
  writeAt dst 0 ((cstr src).take n ++ List.replicate (n - strlen src) 0)

/-- `strncat(dst, src, n)`: at most `n` bytes of `src` after the string of `dst`, and a NUL. -/
def strncat (dst src : List UInt8) (n : Nat) : List UInt8 :=
  writeAt dst (strlen dst) ((cstr src).take n ++ [0])

/-- `scnprintf(&buf[i], size, …)` of a formatted text: at most `size - 1` bytes of it and a NUL.
The number of these bytes is returned. -/
def scnprintf (buf : List UInt8) (i size : Nat) (text : List UInt8) : List UInt8 × Nat :=
  if size = 0 then (buf, 0)
  else (writeAt buf i (text.take (size - 1) ++ [0]), (text.take (size - 1)).length)

/-- `copy_from_user(dst, src, n)` into a zeroed buffer of `size` bytes: the readable
bytes among the first `n` are copied, the kernel leaves zeros behind them. -/
def copyFromUser (size n : Nat) (readable : List UInt8) : List UInt8 :=
  readable.take n ++ List.replicate (size - (readable.take n).length) 0

/-- A buffer of `size` bytes that holds `s` followed by zero bytes. -/
def padded (size : Nat) (s : List UInt8) : List UInt8 :=
  s ++ List.replicate (size - s.length) 0

theorem cstr_append_zeros (s : List UInt8) (k : Nat) : cstr (s ++ List.replicate k 0) = cstr s := by
  induction s with
  | nil =>
    cases k with
    | zero => rfl
    | succ k => rw [List.nil_append, List.replicate_succ, cstr_cons_zero, cstr_nil]
  | cons x s ih =>
    by_cases hx : x = 0
    · rw [hx, List.cons_append, cstr_cons_zero, cstr_cons_zero]
    · rw [List.cons_append, cstr_cons hx, cstr_cons hx, ih]

/-- The zero bytes of a buffer do not change the string of what stands before them. -/
theorem cstr_padded_eq (size : Nat) (s : List UInt8) : cstr (padded size s) = cstr s :=
  cstr_append_zeros s _

theorem cstr_padded {s : List UInt8} (hs : (0 : UInt8) ∉ s) (size : Nat) :
    cstr (padded size s) = s := by
  rw [cstr_padded_eq, cstr_eq_self hs]

theorem strlen_padded {s : List UInt8} (hs : (0 : UInt8) ∉ s) (size : Nat) :
    strlen (padded size s) = s.length := by
  rw [strlen, cstr_padded hs]

theorem length_padded {size : Nat} {s : List UInt8} (h : s.length ≤ size) :
    (padded size s).length = size := by
  simp [padded, h]

theorem getD_append_zeros (s : List UInt8) (n j : Nat) :
    (s ++ List.replicate n 0).getD j 0 = s.getD j 0 := by
  rw [List.getD_eq_getElem?_getD, List.getD_eq_getElem?_getD]
  rcases Nat.lt_or_ge j s.length with hlt | hge
  · rw [List.getElem?_append_left hlt]
  · rw [List.getElem?_append_right hge, List.getElem?_eq_none hge, List.getElem?_replicate]
    split
    · rfl
    · rfl

/-- The bytes of a padded buffer are those of its string, and zero bytes. -/
theorem getD_padded (size : Nat) (s : List UInt8) (j : Nat) :
    (padded size s).getD j 0 = s.getD j 0 :=
  getD_append_zeros s _ j

theorem length_writeAt {buf bs : List UInt8} {i : Nat} (h : i + bs.length ≤ buf.length) :
    (writeAt buf i bs).length = buf.length := by
  simp [writeAt]
  omega

/-- What stands before the end of the bytes written. -/
theorem take_writeAt {buf bs : List UInt8} {i : Nat} (h : i ≤ buf.length) (r : List UInt8) :
    (writeAt buf i (bs ++ r)).take (i + bs.length) = buf.take i ++ bs := by
  have hlen : (buf.take i ++ bs).length = i + bs.length := by
    rw [List.length_append, List.length_take, Nat.min_eq_left h]
  rw [writeAt, ← List.append_assoc, List.append_assoc, List.take_left' hlen]

/-- Overwriting the string of a padded buffer, from its start, with at least as many bytes. -/
theorem writeAt_zero_padded {size : Nat} {s bs : List UInt8} (h : s.length ≤ bs.length)
    (hb : bs.length ≤ size) : writeAt (padded size s) 0 bs = padded size bs := by
  have hd : (padded size s).drop bs.length = List.replicate (size - bs.length) 0 := by
    rw [padded, List.drop_append, List.drop_eq_nil_of_le h, List.drop_replicate, List.nil_append]
    congr 1
    omega
  rw [writeAt, Nat.zero_add, hd, List.take_zero, List.nil_append, padded]

/-- Printing behind the string of a padded buffer. -/
theorem writeAt_padded_end {size : Nat} {s bs : List UInt8} (h : s.length + bs.length < size) :
    writeAt (padded size s) s.length (bs ++ [0]) = padded size (s ++ bs) := by
  have htake : (padded size s).take s.length = s := List.take_left' rfl
  have hdrop : (padded size s).drop (s.length + (bs ++ [0]).length) =
      List.replicate (size - (s.length + bs.length + 1)) 0 := by
    rw [padded, List.drop_append, List.drop_eq_nil_of_le (Nat.le_add_right _ _),
      List.nil_append, List.drop_replicate, List.length_append, List.length_singleton]
    congr 1
    omega
  obtain ⟨k, hk⟩ : ∃ k, size - (s.length + bs.length) = k + 1 :=
    ⟨size - (s.length + bs.length) - 1, by omega⟩
  have hsub : size - (s.length + bs.length + 1) = k := by omega
  rw [writeAt, htake, hdrop, hsub, padded, List.length_append, hk, List.replicate_succ,
    List.append_assoc, List.append_assoc, List.append_assoc, List.singleton_append]

theorem padded_nil (size : Nat) : padded size [] = List.replicate size 0 := by
  simp [padded]

/-- Clearing the string of a padded buffer clears the buffer. -/
theorem memsetZero_padded {size : Nat} {s : List UInt8} (h : s.length ≤ size) :
    memsetZero (padded size s) 0 s.length = padded size [] := by
  rw [memsetZero, writeAt_zero_padded (by simp) (by simpa using h)]
  simp [padded, h]

/-- Clearing the end of the string. -/
theorem memsetZero_append (s r tail : List UInt8) :
    memsetZero (s ++ r ++ tail) s.length r.length = s ++ List.replicate r.length 0 ++ tail := by
  have htake : (s ++ r ++ tail).take s.length = s := by
    rw [List.append_assoc, List.take_left' rfl]
  have hdrop : (s ++ r ++ tail).drop (s.length + (List.replicate r.length (0 : UInt8)).length) =
      tail := by
    rw [List.length_replicate]
    exact List.drop_left' List.length_append
  rw [memsetZero, writeAt, htake, hdrop]

theorem memsetZero_padded_append {size : Nat} {s r : List UInt8} (h : (s ++ r).length ≤ size) :
    memsetZero (padded size (s ++ r)) s.length r.length = padded size s := by
  rw [List.length_append] at h
  have hzeros : size - s.length = r.length + (size - (s.length + r.length)) := by omega
  rw [padded, memsetZero_append, padded, List.append_assoc, List.replicate_append_replicate,
    List.length_append, hzeros]

/-- Moving the rest of the string, with the byte behind it, over one byte. -/
theorem memmove_cons (s r tail : List UInt8) (x y : UInt8) :
    memmove (s ++ x :: r ++ y :: tail) s.length (s.length + 1) (r.length + 1) =
      s ++ r ++ y :: y :: tail := by
  have hbuf : s ++ x :: r ++ y :: tail = s ++ x :: (r ++ y :: tail) := by
    rw [List.append_assoc, List.cons_append]
  have hmoved : ((s ++ x :: (r ++ y :: tail)).drop (s.length + 1)).take (r.length + 1) =
      r ++ [y] := by
    rw [← List.drop_drop, List.drop_left' rfl, List.drop_one, List.tail_cons, List.append_cons]
    exact List.take_left' List.length_append
  have htake : (s ++ x :: (r ++ y :: tail)).take s.length = s := List.take_left' rfl
  have hdrop : (s ++ x :: (r ++ y :: tail)).drop (s.length + (r ++ [y]).length) = y :: tail := by
    rw [List.length_append, List.length_singleton, ← List.drop_drop, List.drop_left' rfl,
      List.drop_succ_cons, List.drop_left' rfl]
  rw [hbuf, memmove, writeAt, hmoved, htake, hdrop, List.append_assoc, List.append_assoc,
    List.append_assoc, List.singleton_append]

/-- A string that leaves room in its buffer has a NUL behind it. -/
theorem padded_of_lt {size : Nat} {s : List UInt8} (h : s.length < size) :
    padded size s = s ++ 0 :: List.replicate (size - (s.length + 1)) 0 := by
  have hzeros : size - s.length = size - (s.length + 1) + 1 := by omega
  rw [padded, hzeros, List.replicate_succ]

/-- With its own length as the bound, a string is copied without its terminator. -/
theorem strncpy_strlen (dst src : List UInt8) :
    strncpy dst src (strlen src) = writeAt dst 0 (cstr src) := by
  have ht : (cstr src).take (strlen src) = cstr src := List.take_of_length_le (le_refl _)
  rw [strncpy, ht, Nat.sub_self, List.replicate_zero, List.append_nil]

/-- So the copy goes on with what the destination held behind it. -/
theorem cstr_strncpy_strlen (dst src : List UInt8) :
    cstr (strncpy dst src (strlen src)) = cstr src ++ cstr (dst.drop (strlen src)) := by
  rw [strncpy_strlen, writeAt, List.take_zero, List.nil_append, Nat.zero_add,
    cstr_append_of_notMem (zero_notMem_cstr _)]
  rfl

/-- `strncat` appends to the string, wherever that ends. -/
theorem cstr_strncat (dst src : List UInt8) (n : Nat) :
    cstr (strncat dst src n) = cstr dst ++ (cstr src).take n := by
  have htake : dst.take (strlen dst) = cstr dst :=
    (List.prefix_iff_eq_take.mp (cstr_isPrefix dst)).symm
  have hnul : (0 : UInt8) ∉ cstr dst ++ (cstr src).take n := by
    intro h
    rcases List.mem_append.mp h with h | h
    · exact zero_notMem_cstr _ h
    · exact zero_notMem_cstr _ (List.mem_of_mem_take h)
  rw [strncat, writeAt, htake, ← List.append_assoc, List.append_assoc, List.singleton_append,
    cstr_append_zero hnul]

/-- Copying a string, with its own length as the bound, into a cleared buffer. -/
theorem strncpy_padded_nil {size : Nat} {src : List UInt8} (h : strlen src ≤ size) :
    strncpy (padded size []) src (strlen src) = padded size (cstr src) := by
  rw [strncpy_strlen]
  exact writeAt_zero_padded (by simp) h

/-- `strncpy` fills exactly `n` bytes. -/
theorem length_strncpy {dst src : List UInt8} {n : Nat} (h : n ≤ dst.length) :
    (strncpy dst src n).length = dst.length := by
  have hbytes : ((cstr src).take n ++ List.replicate (n - strlen src) 0).length = n := by
    rw [List.length_append, List.length_take, List.length_replicate, strlen]
    omega
  refine length_writeAt ?_
  rw [hbytes]
  omega

theorem copyFromUser_of_le {size n : Nat} {s : List UInt8} (h : s.length ≤ n) :
    copyFromUser size n s = padded size s := by
  simp [copyFromUser, padded, List.take_of_length_le h]

end CString
