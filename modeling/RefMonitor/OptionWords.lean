import RefMonitor.TokenBounds
import RefMonitor.Lib.Fields

/-!
# The words of an option value

`parse_opt` compares a word with the names `ON`, `OFF`, `RON`, `ROF`, `ADPTH` and `RMPTH`
over the length of the word, not of the name. A word that is only the start of a name, the
empty word among them, therefore counts as the first name it starts, and a value such as
`o` or the empty value asks for the state `ON`.

Results:
1. `wordBit_cases`: what one word contributes, next to what it names.
2. `optionWords_exact_iff`: the words of a value mean exactly their names when every
   shortened word stands next to the name it is taken for.
3. `optionWords_empty`: the empty value is the state `ON`.
-/

namespace RefMonitor
open CString Fields

/-! ## What the words name -/

/-- The words of a value: what stands between the bars. -/
def valueWords (opStr : List UInt8) : List (List UInt8) := (cstr opStr).splitOn bar

/-- The flag of the name that the word equals, in full and ignoring case. -/
def namedFlag (word : List UInt8) : Nat :=
  match optWords.find? (fun w => word.map toUpper == w.1) with
  | some w => w.2
  | none => 0

def namedFlags (opStr : List UInt8) : Nat :=
  (valueWords opStr).foldl (fun ret word => ret ||| namedFlag word) 0

/-- The value means exactly what its words name, and a request that names nothing is
refused as invalid by both functions it can reach. -/
structure WordsExact (opStr : List UInt8) : Prop where
  flags : parseOpt opStr = .ok (namedFlags opStr)
  refused : (∀ word ∈ valueWords opStr, namedFlag word = 0) →
    ∀ op, parseOpt opStr = .ok op →
    ∀ (δ : Type) (env : Env) (v : Vfs δ) (task : Task δ) (thePwd thePath : List UInt8) (s : State),
      task.euid = env.admin →
      doChangeState env v task thePwd op s = (fail .einval, s) ∧
      doChangePath env v task thePwd thePath op s = .ok (fail .einval, s)

/-- The first name that the word starts, when the word is not that name itself. -/
def shortFor (word : List UInt8) : Option (List UInt8) :=
  match optWords.find? (fun w => (word.map toUpper).isPrefixOf w.1) with
  | some w => if word.map toUpper = w.1 then none else some w.1
  | none => none

/-- Every shortened word stands next to the name it is taken for. -/
def WordsComplete (opStr : List UInt8) : Prop :=
  ∀ word ∈ valueWords opStr, ∀ name, shortFor word = some name →
    ∃ full ∈ valueWords opStr, full.map toUpper = name

/-! ## One word -/

theorem nul_notMem_toUpper {word : List UInt8} (h : (0 : UInt8) ∉ word) :
    (0 : UInt8) ∉ word.map toUpper := by
  intro h0
  obtain ⟨c, hc, hup⟩ := List.mem_map.mp h0
  unfold toUpper at hup
  split at hup
  · next hrange =>
    have hc32 : c = 0 + 32 := by rw [← hup]; simp
    rw [hc32] at hrange
    exact absurd hrange.1 (by decide)
  · exact h (hup ▸ hc)

/-- The names are strings, so the comparison over the word's length is a test for a start. -/
theorem wordBit_eq {word : List UInt8} (h : (0 : UInt8) ∉ word) :
    wordBit word =
      match optWords.find? (fun w => word.isPrefixOf w.1) with
      | some w => w.2
      | none => 0 := by
  have hnames : ∀ w ∈ optWords, cstr w.1 = w.1 := by decide +kernel
  have htest : ∀ w ∈ optWords, (strncmp (strlen word) word w.1 == 0) = word.isPrefixOf w.1 := by
    intro w hw
    rw [Bool.eq_iff_iff, beq_iff_eq, strncmp_strlen_eq_zero, cstr_eq_self h, hnames w hw,
      List.isPrefixOf_iff_prefix]
  have hfind : optWords.find? (fun w => strncmp (strlen word) word w.1 == 0) =
      optWords.find? (fun w => word.isPrefixOf w.1) :=
    List.find?_congr htest
  exact congrArg (fun found : Option (List UInt8 × Nat) =>
    match found with
    | some w => w.2
    | none => 0) hfind

/-- No name starts another one, so a full name is found under both searches. -/
theorem find_full {w : List UInt8 × Nat} (hw : w ∈ optWords) :
    optWords.find? (fun x => w.1 == x.1) = some w ∧
      optWords.find? (fun x => w.1.isPrefixOf x.1) = some w := by
  revert w
  decide +kernel

/-- What a word contributes: the flag of its name, the flag of a name it only starts, or
nothing. -/
theorem wordBit_cases {word : List UInt8} (h : (0 : UInt8) ∉ word) :
    (∃ w ∈ optWords, word.map toUpper = w.1 ∧ shortFor word = none ∧ namedFlag word = w.2 ∧
      wordBit (word.map toUpper) = w.2) ∨
    (∃ w ∈ optWords, shortFor word = some w.1 ∧ namedFlag word = 0 ∧
      wordBit (word.map toUpper) = w.2) ∨
    (shortFor word = none ∧ namedFlag word = 0 ∧ wordBit (word.map toUpper) = 0) := by
  rw [wordBit_eq (nul_notMem_toUpper h)]
  unfold shortFor namedFlag
  by_cases hfull : ∃ w ∈ optWords, word.map toUpper = w.1
  · obtain ⟨w, hw, hname⟩ := hfull
    obtain ⟨heq, hpre⟩ := find_full hw
    rw [hname, heq, hpre]
    exact .inl ⟨w, hw, rfl, if_pos rfl, rfl, rfl⟩
  · have hnone : optWords.find? (fun w => word.map toUpper == w.1) = none := by
      refine List.find?_eq_none.mpr ?_
      intro w hw heq
      exact hfull ⟨w, hw, beq_iff_eq.mp heq⟩
    rw [hnone]
    refine .inr ?_
    cases hfind : optWords.find? (fun w => (word.map toUpper).isPrefixOf w.1) with
    | none => exact .inr ⟨rfl, rfl, rfl⟩
    | some w =>
      have hw : w ∈ optWords := List.mem_of_find?_eq_some hfind
      exact .inl ⟨w, hw, if_neg fun hname => hfull ⟨w, hw, hname⟩, rfl, rfl⟩

/-! ## A whole value -/

theorem splitOn_toUpper (bytes : List UInt8) :
    (bytes.map toUpper).splitOn bar = (bytes.splitOn bar).map (List.map toUpper) := by
  induction bytes with
  | nil => rfl
  | cons c bytes ih =>
    rw [List.splitOn_eq_splitOnP, List.splitOn_eq_splitOnP] at ih ⊢
    rw [List.map_cons, List.splitOnP_cons_eq_if_modifyHead, List.splitOnP_cons_eq_if_modifyHead, ih]
    by_cases hc : c = bar
    · rw [if_pos (by simpa using toUpper_eq_bar.mpr hc), if_pos (by simpa using hc), List.map_cons,
        List.map_nil]
    · rw [if_neg (by simpa using fun h => hc (toUpper_eq_bar.mp h)), if_neg (by simpa using hc)]
      cases bytes.splitOnP (· == bar) with
      | nil => rfl
      | cons word words => rfl

theorem nul_notMem_valueWords {opStr word : List UInt8} (h : word ∈ valueWords opStr) :
    (0 : UInt8) ∉ word :=
  fun h0 => zero_notMem_cstr opStr (mem_of_mem_splitOn h h0)

theorem testBit_foldl_lor {α : Type} (f : α → Nat) (l : List α) (a k : Nat) :
    (l.foldl (fun ret x => ret ||| f x) a).testBit k =
      (a.testBit k || l.any fun x => (f x).testBit k) := by
  induction l generalizing a with
  | nil => simp
  | cons x l ih => rw [List.foldl_cons, ih, Nat.testBit_lor, List.any_cons, Bool.or_assoc]

/-- `parse_opt` over the words as they were written. -/
theorem parseOpt_eq {opStr : List UInt8} (h : (cstr opStr).count bar ≤ 7) :
    parseOpt opStr =
      .ok ((valueWords opStr).foldl (fun ret word => ret ||| wordBit (word.map toUpper)) 0) := by
  unfold parseOpt
  dsimp only
  rw [if_neg (by rw [length_splitOn, count_toUpper]; omega), splitOn_toUpper, List.foldl_map]
  rfl

/-- Each name has a bit that no other name has. -/
theorem ownBit {w : List UInt8 × Nat} (hw : w ∈ optWords) :
    ∃ k < 6, w.2.testBit k = true ∧ ∀ w' ∈ optWords, w'.2.testBit k = true → w' = w := by
  revert w
  decide +kernel

theorem namedFlag_full {word : List UInt8} {w : List UInt8 × Nat} (hw : w ∈ optWords)
    (h : word.map toUpper = w.1) : namedFlag word = w.2 := by
  unfold namedFlag
  rw [h, (find_full hw).1]

/-- A bit of a word's name comes from that name. -/
theorem named_of_testBit {word : List UInt8} {k : Nat} (h : (namedFlag word).testBit k = true) :
    ∃ w ∈ optWords, word.map toUpper = w.1 ∧ w.2.testBit k = true := by
  unfold namedFlag at h
  split at h
  · next w hfind =>
    have hname := List.find?_some (p := fun w : List UInt8 × Nat => word.map toUpper == w.1) hfind
    exact ⟨w, List.mem_of_find?_eq_some hfind, beq_iff_eq.mp hname, h⟩
  · exact absurd h (by simp)

/-- The bits the words contribute are those of the names, exactly when no shortened word
adds one of its own. -/
theorem foldl_words_eq_iff (opStr : List UInt8) :
    (valueWords opStr).foldl (fun ret word => ret ||| wordBit (word.map toUpper)) 0 =
      namedFlags opStr ↔ WordsComplete opStr := by
  constructor
  · intro heq word hword name hshort
    rcases wordBit_cases (nul_notMem_valueWords hword) with
      ⟨w, -, -, hnone, -⟩ | ⟨w, hw, hsome, -, hbit⟩ | ⟨hnone, -⟩
    · rw [hnone] at hshort
      cases hshort
    · rw [hsome] at hshort
      obtain ⟨k, -, hk, hown⟩ := ownBit hw
      -- the bit of `w` is set by the shortened word, so some word must name it
      have hset : (namedFlags opStr).testBit k = true := by
        rw [← heq, testBit_foldl_lor, Bool.or_eq_true]
        exact .inr (List.any_eq_true.mpr ⟨word, hword, by rw [hbit]; exact hk⟩)
      rw [namedFlags, testBit_foldl_lor, Nat.zero_testBit, Bool.false_or] at hset
      obtain ⟨full, hfull, hflag⟩ := List.any_eq_true.mp hset
      obtain ⟨w', hw', hname, hk'⟩ := named_of_testBit hflag
      refine ⟨full, hfull, ?_⟩
      rw [hname, hown w' hw' hk']
      exact Option.some.inj hshort
    · rw [hnone] at hshort
      cases hshort
  · intro hcomplete
    refine Nat.eq_of_testBit_eq ?_
    intro k
    rw [namedFlags, testBit_foldl_lor, testBit_foldl_lor, Nat.zero_testBit, Bool.false_or,
      Bool.false_or, Bool.eq_iff_iff, List.any_eq_true, List.any_eq_true]
    constructor
    · rintro ⟨word, hword, hk⟩
      rcases wordBit_cases (nul_notMem_valueWords hword) with
        ⟨w, -, -, -, hflag, hbit⟩ | ⟨w, hw, hsome, -, hbit⟩ | ⟨-, -, hbit⟩
      · exact ⟨word, hword, by rw [hflag, ← hbit]; exact hk⟩
      · obtain ⟨full, hfull, hname⟩ := hcomplete word hword w.1 hsome
        exact ⟨full, hfull, by rw [namedFlag_full hw hname, ← hbit]; exact hk⟩
      · rw [hbit, Nat.zero_testBit] at hk
        cases hk
    · rintro ⟨word, hword, hk⟩
      rcases wordBit_cases (nul_notMem_valueWords hword) with
        ⟨w, -, -, -, hflag, hbit⟩ | ⟨w, -, -, hflag, -⟩ | ⟨-, hflag, -⟩
      · exact ⟨word, hword, by rw [hbit, ← hflag]; exact hk⟩
      · rw [hflag, Nat.zero_testBit] at hk
        cases hk
      · rw [hflag, Nat.zero_testBit] at hk
        cases hk

/-- Nothing is named, so nothing is asked for. -/
theorem namedFlags_eq_zero {opStr : List UInt8}
    (h : ∀ word ∈ valueWords opStr, namedFlag word = 0) : namedFlags opStr = 0 := by
  refine Nat.eq_of_testBit_eq ?_
  intro k
  rw [namedFlags, testBit_foldl_lor, Nat.zero_testBit, Bool.false_or, List.any_eq_false]
  intro word hword
  rw [h word hword, Nat.zero_testBit]
  decide

/-- The words of a value mean exactly their names, and a request without a name is refused,
exactly when every shortened word stands next to the name it is taken for. -/
theorem optionWords_exact_iff (opStr : List UInt8) (hbars : (cstr opStr).count bar ≤ 7) :
    WordsExact opStr ↔ WordsComplete opStr := by
  rw [← foldl_words_eq_iff]
  constructor
  · intro h
    have hflags := h.flags
    rw [parseOpt_eq hbars] at hflags
    exact Except.ok.inj hflags
  · intro heq
    have hflags : parseOpt opStr = .ok (namedFlags opStr) := by rw [parseOpt_eq hbars, heq]
    refine ⟨hflags, ?_⟩
    intro hnone op hop δ env v task thePwd thePath s hadmin
    rw [hflags, namedFlags_eq_zero hnone] at hop
    obtain rfl : 0 = op := Except.ok.inj hop
    refine ⟨?_, ?_⟩
    · unfold doChangeState
      rw [if_neg (not_not.mpr hadmin), if_pos (by decide)]
    · unfold doChangePath
      rw [if_neg (not_not.mpr hadmin), if_pos (by decide)]

/-- The short `ro` adds nothing to the `Ron` it stands next to. -/
theorem optionWords_exact_iff_ron : WordsExact (ascii "Ron|ro") := by
  have hwords : valueWords (ascii "Ron|ro") = [ascii "Ron", ascii "ro"] := by decide +kernel
  have hron : shortFor (ascii "Ron") = none := by decide +kernel
  have hro : shortFor (ascii "ro") = some (ascii "RON") := by decide +kernel
  refine (optionWords_exact_iff (ascii "Ron|ro") (by decide +kernel)).mpr ?_
  intro word hword name hshort
  rw [hwords] at hword ⊢
  rcases List.mem_cons.mp hword with rfl | hword
  · rw [hron] at hshort
    cases hshort
  · rw [List.mem_singleton.mp hword, hro] at hshort
    refine ⟨ascii "Ron", List.mem_cons_self .., ?_⟩
    rw [← Option.some.inj hshort]
    decide +kernel

/-- The empty value is read as the state `ON`, though it names nothing. -/
theorem optionWords_empty :
    (cstr []).count bar ≤ 7 ∧ parseOpt [] = .ok stateOn ∧
      (∀ word ∈ valueWords [], namedFlag word = 0) ∧ ¬ WordsExact [] := by
  have hop : parseOpt [] = .ok stateOn := by decide +kernel
  refine ⟨by decide, hop, by decide +kernel, ?_⟩
  intro h
  have hflags := h.flags
  rw [hop] at hflags
  exact absurd (Except.ok.inj hflags) (by decide +kernel)

end RefMonitor
