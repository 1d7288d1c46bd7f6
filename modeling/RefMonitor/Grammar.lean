import RefMonitor.CommandParsing

/-!
# The lines that are accepted

A line of the grammar is a command with each of its keywords once and a value behind each. The
write recognises lines otherwise: the first word need only start the name of a command, the
separators are counted, and every token is compared with the keywords over four bytes. What it
accepts is read off the strings of the line (`Understood`), and so are the lines on which a wrapper
leaves its arrays (`Overruns`).

Results:
1. `finish_ok_iff`, `finish_fault_iff`: the lines a wrapper makes its call for, and its faults.
2. `acceptedExactly_iff`: the lines on which the write agrees with the grammar.
3. `grammar_missed`: one line accepted that is not of the grammar, one refused that is, and one
   that is not and faults.
-/

namespace RefMonitor
open CString

/-! ## The grammar -/

/-- The line is the command, up to a newline at its end, with its keywords in some order, each once
and with a value that is not `(null)`. -/
def Grammatical (c : CommandName) (line : List UInt8) : Prop :=
  ∃ keys values ending, keys.Perm c.keywords ∧
    (∀ k ∈ keys, OneWord (values k) ∧ values k ≠ nullText) ∧ LineEnd ending ∧
    line = commandLine c keys values ++ ending

/-- The write calls the function of the command. -/
def CallsFor (alloc : Nat → Bool) (line : List UInt8) (c : CommandName) : Prop :=
  ∃ call, procCall alloc line = .ok (.ok call) ∧ call.command = c

/-- The write calls the function of a command exactly when the line is one of that command, and
returns an error on a line of no command. -/
structure AcceptedExactly (alloc : Nat → Bool) (line : List UInt8) : Prop where
  calls : ∀ c, CallsFor alloc line c ↔ Grammatical c line
  refuses : (∀ c, ¬ Grammatical c line) → ∃ ret < 0, procCall alloc line = .ok (.error ret)

/-! ## What the wrappers accept -/

/-- A loop can act on a token that is taken for the keyword, with the string behind it: `-opt`
needs one with at most seven bars, `-pth` one other than `(null)` that fits the path buffer. -/
def Usable (value : Option (List UInt8)) : Option Keyword → Prop
  | some .opt => ∃ word, value = some word ∧ (cstr word).count bar ≤ 7
  | some .pth => ∃ path, value = some path ∧ path ≠ nullText ∧ path.length ≤ pathMax
  | _ => True

/-- Acting on it is a fault: `-opt` with nothing behind it or with too many bars, `-pth` with a path
that is too long. -/
def Fatal (value : Option (List UInt8)) : Option Keyword → Prop
  | some .opt => ∀ word, value = some word → 7 < (cstr word).count bar
  | some .pth => ∃ path, value = some path ∧ path ≠ nullText ∧ pathMax < path.length
  | _ => False

/-- The string behind the last token that is taken for the keyword. -/
def CommandName.lastValue (c : CommandName) (k : Keyword)
    (looked : List (List UInt8 × Option (List UInt8))) (kept : Option (List UInt8)) :
    Option (List UInt8) :=
  looked.foldl (fun kept p => if c.keywordOf p.1 = some k then p.2 else kept) kept

/-- The passwords a wrapper insists on. -/
def CommandName.credentials : CommandName → List Keyword
  | .cngst => [.pwd]
  | .cngpth => [.pwd]
  | .cngpwd => [.old, .new]

/-- The loop gets through the strings behind the command, and there is a password other than
`(null)` behind the last token taken for each password keyword. -/
structure Understood (c : CommandName) (strings : List (List UInt8)) : Prop where
  usable : ∀ p ∈ c.lookedAt strings, Usable p.2 (c.keywordOf p.1)
  credentials : ∀ k ∈ c.credentials, ∃ value,
    c.lastValue k (c.lookedAt strings) none = some value ∧ value ≠ nullText

/-- The loop gets to a token that it faults at. -/
def Overruns (c : CommandName) (strings : List (List UInt8)) : Prop :=
  ∃ before p after, c.lookedAt strings = before ++ p :: after ∧
    (∀ q ∈ before, Usable q.2 (c.keywordOf q.1)) ∧ Fatal p.2 (c.keywordOf p.1)

/-! ## One token -/

section
variable {c : CommandName} {value : Option (List UInt8)} {g g' : Gathered} {k : Option Keyword}

theorem parseOpt_cases (word : List UInt8) :
    ((cstr word).count bar ≤ 7 ∧ ∃ op, parseOpt word = .ok op) ∨
      (7 < (cstr word).count bar ∧ ∃ f, parseOpt word = .error f) := by
  cases hparse : parseOpt word with
  | ok op => exact .inl ⟨fits_iff.mp (parseOpt_ok_iff.mp ⟨op, hparse⟩), op, rfl⟩
  | error f =>
    refine .inr ⟨Nat.not_le.mp fun hcount => ?_, f, rfl⟩
    obtain ⟨op, hop⟩ := parseOpt_ok_iff.mpr (fits_iff.mpr hcount)
    rw [hop] at hparse
    cases hparse

theorem act_usable (h : Usable value k) (g : Gathered) : ∃ g', act value g k = .ok (.ok g') := by
  cases k with
  | none => exact ⟨g, rfl⟩
  | some k =>
    cases k with
    | pwd => exact ⟨_, rfl⟩
    | old => exact ⟨_, rfl⟩
    | new => exact ⟨_, rfl⟩
    | pth =>
      obtain ⟨path, rfl, hnull, hlen⟩ := h
      refine ⟨{ g with pathname := copyOver g.pathname path }, ?_⟩
      rw [act, if_neg hnull, if_neg (Nat.not_lt.mpr hlen)]
    | opt =>
      obtain ⟨word, rfl, hcount⟩ := h
      rcases parseOpt_cases word with ⟨-, op, hop⟩ | ⟨hmany, -⟩
      · refine ⟨{ g with op := op }, ?_⟩
        rw [act, hop]
      · exact absurd hcount (Nat.not_le.mpr hmany)

theorem act_fatal (h : Fatal value k) (g : Gathered) : ∃ f, act value g k = .error f := by
  cases k with
  | none => exact h.elim
  | some k =>
    cases k with
    | pwd => exact h.elim
    | old => exact h.elim
    | new => exact h.elim
    | pth =>
      obtain ⟨path, rfl, hnull, hlen⟩ := h
      refine ⟨.arrayBound, ?_⟩
      rw [act, if_neg hnull, if_pos hlen]
    | opt =>
      cases value with
      | none => exact ⟨.nullPtr, rfl⟩
      | some word =>
        rcases parseOpt_cases word with ⟨hfew, -⟩ | ⟨-, f, hf⟩
        · exact absurd hfew (Nat.not_le.mpr (h word rfl))
        · refine ⟨f, ?_⟩
          rw [act, hf]

/-- Nothing else can happen at a token but an early return. -/
theorem act_refused (husable : ¬ Usable value k) (hfatal : ¬ Fatal value k) (g : Gathered) :
    ∃ e, act value g k = .ok (.error e) := by
  cases k with
  | none => exact absurd trivial husable
  | some k =>
    cases k with
    | pwd => exact absurd trivial husable
    | old => exact absurd trivial husable
    | new => exact absurd trivial husable
    | pth =>
      cases value with
      | none => exact ⟨.einval, rfl⟩
      | some path =>
        by_cases hnull : path = nullText
        · exact ⟨.einval, if_pos hnull⟩
        · rcases Nat.lt_or_ge pathMax path.length with hlong | hfits
          · exact absurd ⟨path, rfl, hnull, hlong⟩ hfatal
          · exact absurd ⟨path, rfl, hnull, hfits⟩ husable
    | opt =>
      cases value with
      | none => exact absurd (fun word h => nomatch h) hfatal
      | some word =>
        rcases parseOpt_cases word with ⟨hfew, -⟩ | ⟨hmany, -⟩
        · exact absurd ⟨word, rfl, hfew⟩ husable
        · refine absurd (fun word' h => ?_) hfatal
          cases h
          exact hmany

/-- The keyword a wrapper keeps in its first pointer. -/
def CommandName.firstKey : CommandName → Keyword
  | .cngst => .pwd
  | .cngpth => .pwd
  | .cngpwd => .old

/-- The pointers a step keeps. -/
theorem act_kept {token : List UInt8} (h : act value g (c.keywordOf token) = .ok (.ok g')) :
    g'.first = (if c.keywordOf token = some c.firstKey then value else g.first) ∧
      g'.second = if c.keywordOf token = some .new then value else g.second := by
  cases hk : c.keywordOf token with
  | none =>
    rw [hk] at h
    cases h
    exact ⟨rfl, rfl⟩
  | some k =>
    have hmem := (prefix_of_keywordOf hk).1
    rw [hk] at h
    cases k with
    | pwd =>
      cases h
      cases c with
      | cngst => exact ⟨rfl, rfl⟩
      | cngpth => exact ⟨rfl, rfl⟩
      | cngpwd => exact absurd hmem (by decide)
    | old =>
      cases h
      cases c with
      | cngst => exact absurd hmem (by decide)
      | cngpth => exact absurd hmem (by decide)
      | cngpwd => exact ⟨rfl, rfl⟩
    | new =>
      cases h
      refine ⟨(if_neg ?_).symm, rfl⟩
      cases c <;> decide
    | pth =>
      -- the path is copied into its own buffer and the option parsed: no pointer moves
      have hfirst : ¬ some Keyword.pth = some c.firstKey := by cases c <;> decide
      rw [if_neg hfirst, if_neg nofun]
      dsimp only [act] at h
      split at h
      · cases h
      · split at h
        · cases h
        · split at h
          · cases h
          · cases h
            exact ⟨rfl, rfl⟩
    | opt =>
      have hfirst : ¬ some Keyword.opt = some c.firstKey := by cases c <;> decide
      rw [if_neg hfirst, if_neg nofun]
      dsimp only [act] at h
      split at h
      · cases h
      · split at h
        · cases h
        · cases h
          exact ⟨rfl, rfl⟩

end

/-! ## All tokens -/

section
variable {c : CommandName} {looked : List (List UInt8 × Option (List UInt8))}

theorem gather_cons (c : CommandName) (p : List UInt8 × Option (List UInt8))
    (rest : List (List UInt8 × Option (List UInt8))) (g : Gathered) :
    c.gather (p :: rest) g =
      match act p.2 g (c.keywordOf p.1) with
      | .error f => .error f
      | .ok (.error e) => .ok (.error e)
      | .ok (.ok g) => c.gather rest g := by
  rfl

theorem gather_kept : ∀ {g g' : Gathered}, c.gather looked g = .ok (.ok g') →
    g'.first = c.lastValue c.firstKey looked g.first ∧
      g'.second = c.lastValue .new looked g.second := by
  induction looked with
  | nil =>
    intro g g' h
    cases h
    exact ⟨rfl, rfl⟩
  | cons p looked ih =>
    intro g g' h
    rw [gather_cons] at h
    cases hact : act p.2 g (c.keywordOf p.1) with
    | error f =>
      rw [hact] at h
      cases h
    | ok out =>
      rw [hact] at h
      cases out with
      | error e => cases h
      | ok g₁ =>
        obtain ⟨hfirst, hsecond⟩ := ih h
        obtain ⟨hfirst', hsecond'⟩ := act_kept hact
        rw [hfirst, hsecond, hfirst', hsecond']
        exact ⟨rfl, rfl⟩

/-- The loop gets through exactly when it can act on every token it looks at. -/
theorem gather_ok_iff : ∀ {g : Gathered}, (∃ g', c.gather looked g = .ok (.ok g')) ↔
    ∀ p ∈ looked, Usable p.2 (c.keywordOf p.1) := by
  induction looked with
  | nil =>
    intro g
    constructor
    · intro _ p hp
      exact absurd hp List.not_mem_nil
    · intro _
      exact ⟨g, rfl⟩
  | cons p looked ih =>
    intro g
    rw [List.forall_mem_cons, gather_cons]
    by_cases husable : Usable p.2 (c.keywordOf p.1)
    · obtain ⟨g₁, hact⟩ := act_usable husable g
      rw [hact, and_iff_right husable]
      exact ih
    · refine ⟨?_, fun h => absurd h.1 husable⟩
      rintro ⟨g', hg'⟩
      by_cases hfatal : Fatal p.2 (c.keywordOf p.1)
      · obtain ⟨f, hact⟩ := act_fatal hfatal g
        rw [hact] at hg'
        cases hg'
      · obtain ⟨e, hact⟩ := act_refused husable hfatal g
        rw [hact] at hg'
        cases hg'

theorem not_usable_of_fatal {value : Option (List UInt8)} {k : Option Keyword}
    (h : Fatal value k) : ¬ Usable value k := by
  intro husable
  obtain ⟨f, hf⟩ := act_fatal h .none
  obtain ⟨g, hg⟩ := act_usable husable .none
  rw [hf] at hg
  cases hg

theorem gather_fault_iff : ∀ {g : Gathered}, (∃ f, c.gather looked g = .error f) ↔
    ∃ before p after, looked = before ++ p :: after ∧
      (∀ q ∈ before, Usable q.2 (c.keywordOf q.1)) ∧ Fatal p.2 (c.keywordOf p.1) := by
  induction looked with
  | nil =>
    intro g
    constructor
    · rintro ⟨f, h⟩
      cases h
    · rintro ⟨before, p, after, hsplit, -⟩
      exact absurd hsplit.symm (List.append_ne_nil_of_right_ne_nil _ (List.cons_ne_nil _ _))
  | cons p looked ih =>
    intro g
    rw [gather_cons]
    by_cases husable : Usable p.2 (c.keywordOf p.1)
    · obtain ⟨g₁, hact⟩ := act_usable husable g
      rw [hact]
      refine ih.trans ⟨?_, ?_⟩
      · rintro ⟨before, q, after, rfl, hbefore, hfatal⟩
        exact ⟨p :: before, q, after, rfl, List.forall_mem_cons.mpr ⟨husable, hbefore⟩, hfatal⟩
      · rintro ⟨before, q, after, hsplit, hbefore, hfatal⟩
        cases before with
        | nil =>
          cases hsplit
          exact absurd husable (not_usable_of_fatal hfatal)
        | cons p' before =>
          cases hsplit
          exact ⟨before, q, after, rfl, (List.forall_mem_cons.mp hbefore).2, hfatal⟩
    · by_cases hfatal : Fatal p.2 (c.keywordOf p.1)
      · obtain ⟨f, hact⟩ := act_fatal hfatal g
        rw [hact]
        exact ⟨fun _ => ⟨[], p, looked, rfl, List.forall_mem_nil _, hfatal⟩, fun _ => ⟨f, rfl⟩⟩
      · obtain ⟨e, hact⟩ := act_refused husable hfatal g
        rw [hact]
        constructor
        · rintro ⟨f, h⟩
          cases h
        · rintro ⟨before, q, after, hsplit, hbefore, hfatal'⟩
          cases before with
          | nil =>
            cases hsplit
            exact absurd hfatal' hfatal
          | cons p' before =>
            cases hsplit
            exact absurd (List.forall_mem_cons.mp hbefore).1 husable

/-! ## The wrapper -/

theorem given_eq_some {value : Option (List UInt8)} {string : List UInt8} :
    given value = some string ↔ value = some string ∧ string ≠ nullText := by
  rw [given, Option.filter_eq_some_iff, decide_eq_true_iff]

theorem call_some_iff {g : Gathered} :
    (∃ call, c.call g = some call) ↔
      ∀ k ∈ c.credentials, ∃ value,
        (if k = c.firstKey then g.first else g.second) = some value ∧ value ≠ nullText := by
  cases c with
  | cngst =>
    simp only [CommandName.credentials, List.forall_mem_singleton, CommandName.call,
      Option.map_eq_some_iff, given_eq_some, CommandName.firstKey, if_true]
    constructor
    · rintro ⟨call, value, hvalue, -⟩
      exact ⟨value, hvalue⟩
    · rintro ⟨value, hvalue⟩
      exact ⟨_, value, hvalue, rfl⟩
  | cngpth =>
    simp only [CommandName.credentials, List.forall_mem_singleton, CommandName.call,
      Option.map_eq_some_iff, given_eq_some, CommandName.firstKey, if_true]
    constructor
    · rintro ⟨call, value, hvalue, -⟩
      exact ⟨value, hvalue⟩
    · rintro ⟨value, hvalue⟩
      exact ⟨_, value, hvalue, rfl⟩
  | cngpwd =>
    simp only [CommandName.credentials, List.forall_mem_cons, CommandName.call,
      Option.bind_eq_some_iff, Option.map_eq_some_iff, given_eq_some, CommandName.firstKey, if_true]
    constructor
    · rintro ⟨call, old, hold, new, hnew, -⟩
      exact ⟨⟨old, hold⟩, ⟨new, hnew⟩, List.forall_mem_nil _⟩
    · rintro ⟨⟨old, hold⟩, ⟨new, hnew⟩, -⟩
      exact ⟨_, old, hold, new, hnew, rfl⟩

/-- The second pointer of a wrapper belongs to `-new`. -/
theorem credentials_key {k : Keyword} (h : k ∈ c.credentials) : k = c.firstKey ∨ k = .new := by
  cases c with
  | cngst => exact .inl (List.mem_singleton.mp h)
  | cngpth => exact .inl (List.mem_singleton.mp h)
  | cngpwd => exact List.mem_pair.mp h

theorem kept_credential {g : Gathered} (h : c.gather looked .none = .ok (.ok g)) {k : Keyword}
    (hk : k ∈ c.credentials) :
    (if k = c.firstKey then g.first else g.second) = c.lastValue k looked none := by
  obtain ⟨hfirst, hsecond⟩ := gather_kept h
  split
  · next heq =>
    rw [heq]
    exact hfirst
  · next hne =>
    rw [(credentials_key hk).resolve_left hne]
    exact hsecond

variable {strings : List (List UInt8)}

/-- A wrapper makes its call exactly on the strings it understands. -/
theorem finish_ok_iff :
    (∃ call, c.finish (c.gather (c.lookedAt strings) .none) = .ok (.ok call)) ↔
      Understood c strings := by
  have hcalls : ∀ {g}, c.gather (c.lookedAt strings) .none = .ok (.ok g) →
      ((∃ call, c.finish (c.gather (c.lookedAt strings) .none) = .ok (.ok call)) ↔
        ∀ k ∈ c.credentials, ∃ value,
          c.lastValue k (c.lookedAt strings) none = some value ∧ value ≠ nullText) := by
    intro g hg
    have hcred : (∃ call, c.call g = some call) ↔ ∀ k ∈ c.credentials, ∃ value,
        c.lastValue k (c.lookedAt strings) none = some value ∧ value ≠ nullText := by
      rw [call_some_iff]
      refine forall₂_congr fun k hk => ?_
      rw [kept_credential hg hk]
    rw [hg, ← hcred, CommandName.finish]
    cases c.call g with
    | none =>
      constructor
      · rintro ⟨call, h⟩
        cases h
      · rintro ⟨call, h⟩
        cases h
    | some call => exact ⟨fun _ => ⟨call, rfl⟩, fun _ => ⟨call, rfl⟩⟩
  constructor
  · rintro ⟨call, hcall⟩
    cases hgather : c.gather (c.lookedAt strings) .none with
    | error f =>
      rw [hgather] at hcall
      cases hcall
    | ok out =>
      cases out with
      | error e =>
        rw [hgather] at hcall
        cases hcall
      | ok g => exact ⟨gather_ok_iff.mp ⟨g, hgather⟩, (hcalls hgather).mp ⟨call, hcall⟩⟩
  · rintro ⟨husable, hcred⟩
    obtain ⟨g, hgather⟩ := gather_ok_iff.mpr husable
    exact (hcalls hgather).mpr hcred

theorem not_fault_of_ok {α : Type} {out : α} : ¬ ∃ f : Fault, Except.ok out = .error f := by
  rintro ⟨f, h⟩
  cases h

theorem finish_fault_iff :
    (∃ f, c.finish (c.gather (c.lookedAt strings) .none) = .error f) ↔ Overruns c strings := by
  rw [Overruns, ← @gather_fault_iff c _ .none]
  cases c.gather (c.lookedAt strings) .none with
  | error f => exact ⟨fun _ => ⟨f, rfl⟩, fun _ => ⟨f, rfl⟩⟩
  | ok out =>
    cases out with
    | error e => exact iff_of_false not_fault_of_ok not_fault_of_ok
    | ok g =>
      rw [CommandName.finish]
      -- whether or not the values are there, the wrapper comes back from here
      cases c.call g with
      | none => exact iff_of_false not_fault_of_ok not_fault_of_ok
      | some call => exact iff_of_false not_fault_of_ok not_fault_of_ok

/-- The call of a wrapper is one of its own function. -/
theorem finish_command {out : Except Fault (Except Errno Gathered)} {call : DoChange}
    (h : c.finish out = .ok (.ok call)) : call.command = c := by
  cases out with
  | error f => cases h
  | ok out =>
    cases out with
    | error e => cases h
    | ok g =>
      rw [CommandName.finish] at h
      cases hcall : c.call g with
      | none =>
        rw [hcall] at h
        cases h
      | some call' =>
        rw [hcall] at h
        cases h
        cases c with
        | cngst =>
          obtain ⟨pwd, -, rfl⟩ := Option.map_eq_some_iff.mp hcall
          rfl
        | cngpth =>
          obtain ⟨pwd, -, rfl⟩ := Option.map_eq_some_iff.mp hcall
          rfl
        | cngpwd =>
          obtain ⟨old, -, hnew⟩ := Option.bind_eq_some_iff.mp hcall
          obtain ⟨new, -, rfl⟩ := Option.map_eq_some_iff.mp hnew
          rfl

/-- Without a call and without a fault, a wrapper returns an error. -/
theorem finish_refused (hno : ¬ Understood c strings) (hsafe : ¬ Overruns c strings) :
    ∃ ret < 0, c.finish (c.gather (c.lookedAt strings) .none) = .ok (.error ret) := by
  cases hgather : c.gather (c.lookedAt strings) .none with
  | error f => exact absurd (finish_fault_iff.mp ⟨f, by rw [hgather]; rfl⟩) hsafe
  | ok out =>
    cases out with
    | error e => exact ⟨fail e, fail_neg e, rfl⟩
    | ok g =>
      cases hcall : c.call g with
      | none =>
        refine ⟨fail .einval, fail_neg _, ?_⟩
        rw [CommandName.finish, hcall]
      | some call =>
        have hfinish : c.finish (c.gather (c.lookedAt strings) .none) = .ok (.ok call) := by
          rw [hgather, CommandName.finish, hcall]
        exact absurd (finish_ok_iff.mp ⟨call, hfinish⟩) hno

end

/-! ## The write -/

section
variable {alloc : Nat → Bool} {c : CommandName} {line : List UInt8}

theorem Addressed.unique {c' : CommandName} (h : Addressed alloc c line)
    (h' : Addressed alloc c' line) : c = c' :=
  Option.some.inj (h.name.symm.trans h'.name)

theorem Addressed.calls_iff (h : Addressed alloc c line) :
    CallsFor alloc line c ↔ Understood c (lineStrings line).tail := by
  rw [← finish_ok_iff, ← procCall_eq h]
  constructor
  · rintro ⟨call, hcall, -⟩
    exact ⟨call, hcall⟩
  · rintro ⟨call, hcall⟩
    refine ⟨call, hcall, ?_⟩
    rw [procCall_eq h] at hcall
    exact finish_command hcall

/-- A function is called only through the wrapper of its command. -/
theorem addressed_of_calls (hspaces : line.count space ≤ 14) (h : CallsFor alloc line c) :
    Addressed alloc c line := by
  obtain ⟨call, hcall, rfl⟩ := h
  by_contra hno
  have hrefused : ∃ ret < 0, procCall alloc line = .ok (.error ret) := by
    refine procCall_refused hspaces fun c haddr => ?_
    have hfinish := hcall
    rw [procCall_eq haddr] at hfinish
    rw [finish_command hfinish] at hno
    exact hno haddr
  obtain ⟨ret, -, hret⟩ := hrefused
  rw [hcall] at hret
  cases hret

theorem not_acceptedExactly_of_fault {f : Fault} (h : procCall alloc line = .error f) :
    ¬ AcceptedExactly alloc line := by
  rintro ⟨hcalls, hrefuses⟩
  have hnone : ∀ c, ¬ Grammatical c line := by
    intro c hgram
    obtain ⟨call, hcall, -⟩ := (hcalls c).mpr hgram
    rw [h] at hcall
    cases hcall
  obtain ⟨ret, -, hret⟩ := hrefuses hnone
  rw [h] at hret
  cases hret

/-- Each line of the grammar reaches its wrapper and is understood; any other line that reaches a
wrapper is neither understood nor run over. -/
def ReadRightly (alloc : Nat → Bool) (line : List UInt8) (c : CommandName) : Prop :=
  (Grammatical c line → Addressed alloc c line ∧ Understood c (lineStrings line).tail) ∧
  (¬ Grammatical c line → Addressed alloc c line →
    ¬ Understood c (lineStrings line).tail ∧ ¬ Overruns c (lineStrings line).tail)

/-- On a line of at most fourteen separators the write agrees with the grammar exactly when the
line is read rightly as every command. -/
theorem acceptedExactly_iff (alloc : Nat → Bool) (line : List UInt8)
    (hspaces : line.count space ≤ 14) :
    AcceptedExactly alloc line ↔ ∀ c, ReadRightly alloc line c := by
  constructor
  · rintro ⟨hcalls, hrefuses⟩ c
    refine ⟨fun hgram => ?_, fun hgram haddr => ⟨fun hund => ?_, fun hover => ?_⟩⟩
    · have hcall := (hcalls c).mpr hgram
      have haddr := addressed_of_calls hspaces hcall
      exact ⟨haddr, haddr.calls_iff.mp hcall⟩
    · exact hgram ((hcalls c).mp (haddr.calls_iff.mpr hund))
    · obtain ⟨f, hf⟩ := finish_fault_iff.mpr hover
      rw [← procCall_eq haddr] at hf
      exact not_acceptedExactly_of_fault hf ⟨hcalls, hrefuses⟩
  · intro hright
    refine ⟨fun c => ⟨fun hcall => ?_, fun hgram => ?_⟩, fun hnone => ?_⟩
    · by_contra hgram
      have haddr := addressed_of_calls hspaces hcall
      exact ((hright c).2 hgram haddr).1 (haddr.calls_iff.mp hcall)
    · obtain ⟨haddr, hund⟩ := (hright c).1 hgram
      exact haddr.calls_iff.mpr hund
    · by_cases haddr : ∃ c, Addressed alloc c line
      · obtain ⟨c, haddr⟩ := haddr
        obtain ⟨hund, hover⟩ := (hright c).2 (hnone c) haddr
        rw [procCall_eq haddr]
        exact finish_refused hund hover
      · exact procCall_refused hspaces fun c h => haddr ⟨c, h⟩

theorem Grammatical.name (h : Grammatical c line) : (lineStrings line).headD [] = c.text := by
  obtain ⟨keys, values, ending, -, hvalues, hend, rfl⟩ := h
  rw [lineStrings_commandLine (fun k hk => (hvalues k hk).1) hend]
  rfl

end

section
variable {c : CommandName} {keys : List Keyword} {values : Keyword → List UInt8}
  {ending : List UInt8}

theorem understood_plain (hkeys : keys.Perm c.keywords) (hplain : PlainValues c values) :
    Understood c (pairWords keys values) := by
  obtain ⟨op, hop⟩ := parseOpt_plain hplain
  refine finish_ok_iff.mp ⟨c.called values op, ?_⟩
  rw [gather_commandLine hplain hop hkeys, CommandName.finish, call_take hplain]

/-- A line with plain values is read rightly. -/
theorem readRightly_plain {alloc : Nat → Bool} (hkeys : keys.Perm c.keywords)
    (hplain : PlainValues c values) (hend : LineEnd ending)
    (hshort : (commandLine c keys values ++ ending).length < pathMax + nameMax + 1)
    (hbuffer : alloc 5 = true) (hpathname : c = .cngpth → alloc 4 = true) (c' : CommandName) :
    ReadRightly alloc (commandLine c keys values ++ ending) c' := by
  have hwords : ∀ k ∈ keys, OneWord (values k) := fun k hk => hplain.words k (hkeys.subset hk)
  have hgram : Grammatical c (commandLine c keys values ++ ending) :=
    ⟨keys, values, ending, hkeys,
      fun k hk => ⟨hwords k hk, hplain.notNull k (hkeys.subset hk)⟩, hend, rfl⟩
  have haddr : Addressed alloc c (commandLine c keys values ++ ending) :=
    addressed_commandLine hkeys hwords hend hshort hbuffer hpathname
  constructor
  · intro hgram'
    have hname : commandOf c'.text = some c := hgram'.name ▸ haddr.name
    obtain rfl : c' = c := Option.some.inj ((commandOf_text c').symm.trans hname)
    refine ⟨haddr, ?_⟩
    rw [lineStrings_commandLine hwords hend]
    exact understood_plain hkeys hplain
  · intro hgram' haddr'
    obtain rfl := haddr'.unique haddr
    exact absurd hgram hgram'

end

theorem acceptedExactly_iff_sample : AcceptedExactly (fun _ => true)
    (commandLine .cngpth [.opt, .pth, .pwd] sampleValues ++ [newline]) :=
  (acceptedExactly_iff (fun _ => true)
    (commandLine .cngpth [.opt, .pth, .pwd] sampleValues ++ [newline]) (by decide)).mpr
    (readRightly_plain (by decide) sampleValues_plain (.inr rfl) (by decide) rfl fun _ => rfl)

/-- The start of a name is taken for the command; a value that starts like a keyword hides the
password; an `-opt` at the end hands `NULL` to `parse_opt`. -/
theorem grammar_missed :
    ¬ AcceptedExactly (fun _ => true) (ascii "c -pwd p -opt on") ∧
      ¬ AcceptedExactly (fun _ => true) (ascii "cngpwd -old a -new -old") ∧
      ¬ AcceptedExactly (fun _ => true) (ascii "cngst -pwd p x -opt") := by
  refine ⟨fun h => ?_, fun h => ?_, not_acceptedExactly_of_fault rfl⟩
  · have hcalls : CallsFor (fun _ => true) (ascii "c -pwd p -opt on") .cngst :=
      ⟨.state (ascii "p") stateOn, rfl, rfl⟩
    exact absurd ((h.calls .cngst).mp hcalls).name (by decide)
  · let values : Keyword → List UInt8 := fun k => if k = .old then ascii "a" else oldPwdKey
    have hgram : Grammatical .cngpwd (ascii "cngpwd -old a -new -old") :=
      ⟨[.old, .new], values, [], .refl _, by decide, .inl rfl, by decide⟩
    obtain ⟨call, hcall, -⟩ := (h.calls .cngpwd).mpr hgram
    have hrefused : procCall (fun _ => true) (ascii "cngpwd -old a -new -old") =
        .ok (.error (fail .einval)) := rfl
    rw [hrefused] at hcall
    cases hcall

end RefMonitor
