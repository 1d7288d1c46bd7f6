import RefMonitor.CommandStrings
import RefMonitor.NameTable

/-!
# Parsing the commands

The comments of `syscall_proc_write` show one line for each command, with its keywords in one
order; the tests write them in another. A line is given here by the order of its keywords and the
value of each. When no value starts like a keyword, the loops see exactly the given pairs, and each
keyword writes a local of its own: the order does not matter.

Results:
1. `lineStrings_commandLine`: the strings of such a line, also with a newline at its end.
2. `gather_commandLine`: what the loop gathers from it.
3. `commandLine_called`: the call, with the values as they were given.
-/

namespace RefMonitor
open CString

variable {δ : Type}

/-! ## Lines -/

/-- The keywords, each with its value behind it. -/
def pairWords (keys : List Keyword) (values : Keyword → List UInt8) : List (List UInt8) :=
  keys.flatMap fun k => [k.text, values k]

/-- The command and the pairs, with single spaces between them. -/
def commandLine (c : CommandName) (keys : List Keyword) (values : Keyword → List UInt8) :
    List UInt8 :=
  [space].intercalate (c.text :: pairWords keys values)

/-- A line may end in a newline. -/
def LineEnd (ending : List UInt8) : Prop := ending = [] ∨ ending = [newline]

theorem lineStrings_cons (b : UInt8) (line : List UInt8) :
    lineStrings (b :: line) =
      if b = space then [] :: lineStrings line
      else (lineStrings line).modifyHead fun token =>
        if b = newline ∨ b = 0 then [] else b :: token := by
  have hsplit : lineTokens (b :: line) = if b = space then [] :: lineTokens line
      else (lineTokens line).modifyHead (List.cons (if b = newline then 0 else b)) := by
    unfold lineTokens
    rw [List.splitOn_eq_splitOnP, List.splitOn_eq_splitOnP, List.map_cons,
      List.splitOnP_cons_eq_if_modifyHead]
    by_cases hb : b = space
    · rw [if_pos hb, if_pos (by rw [hb]; decide)]
    · have hne : ¬ ((if b = newline then 0 else b) == space) = true := by
        rw [beq_iff_eq]
        split
        · decide
        · exact hb
      rw [if_neg hb, if_neg hne]
  unfold lineStrings
  rw [hsplit]
  split
  · rfl
  · cases lineTokens line with
    | nil => rfl
    | cons token tokens =>
      rw [List.modifyHead_cons, List.map_cons, List.map_cons, List.modifyHead_cons]
      congr 1
      by_cases hn : b = newline
      · rw [if_pos hn, if_pos (.inl hn), cstr_cons_zero]
      · rw [if_neg hn]
        by_cases h0 : b = 0
        · rw [if_pos (.inr h0), h0, cstr_cons_zero]
        · rw [if_neg (not_or.mpr ⟨hn, h0⟩), cstr_cons h0]

/-- The newline at the end of a line is not seen. -/
theorem lineStrings_newline (line : List UInt8) : lineStrings (line ++ [newline]) = lineStrings line := by
  induction line with
  | nil => rfl
  | cons b line ih => rw [List.cons_append, lineStrings_cons, lineStrings_cons, ih]

theorem lineStrings_ending {ending : List UInt8} (h : LineEnd ending) (line : List UInt8) :
    lineStrings (line ++ ending) = lineStrings line := by
  rcases h with rfl | rfl
  · rw [List.append_nil]
  · exact lineStrings_newline line

theorem CommandName.text_oneWord (c : CommandName) : OneWord c.text := by
  cases c <;> decide

theorem Keyword.text_oneWord (k : Keyword) : OneWord k.text := by
  cases k <;> decide

section
variable {c : CommandName} {keys : List Keyword} {values : Keyword → List UInt8}
  {ending : List UInt8}

theorem oneWord_pairWords (hwords : ∀ k ∈ keys, OneWord (values k)) :
    ∀ w ∈ c.text :: pairWords keys values, OneWord w := by
  intro w hw
  rcases List.mem_cons.mp hw with rfl | hw
  · exact c.text_oneWord
  · obtain ⟨k, hk, hw⟩ := List.mem_flatMap.mp hw
    rcases List.mem_pair.mp hw with rfl | rfl
    · exact k.text_oneWord
    · exact hwords k hk

theorem lineStrings_commandLine (hwords : ∀ k ∈ keys, OneWord (values k)) (hend : LineEnd ending) :
    lineStrings (commandLine c keys values ++ ending) = c.text :: pairWords keys values := by
  have hall := @oneWord_pairWords c keys values hwords
  rw [lineStrings_ending hend, lineStrings, commandLine, lineTokens_intercalate hall
    (List.cons_ne_nil _ _)]
  have hid : ∀ w ∈ c.text :: pairWords keys values, cstr w = id w :=
    fun w hw => cstr_eq_self (hall w hw).nul
  rw [List.map_congr_left hid, List.map_id]

theorem length_pairWords (keys : List Keyword) (values : Keyword → List UInt8) :
    (pairWords keys values).length = 2 * keys.length := by
  induction keys with
  | nil => rfl
  | cons k keys ih =>
    rw [List.length_cons, Nat.mul_succ, ← ih]
    rfl

theorem count_commandLine (hkeys : keys.Perm c.keywords) (hwords : ∀ k ∈ keys, OneWord (values k))
    (hend : LineEnd ending) : (commandLine c keys values ++ ending).count space = c.format := by
  have hlen : (lineStrings (commandLine c keys values ++ ending)).length = _ :=
    congrArg List.length (lineStrings_commandLine hwords hend)
  rw [lineStrings, List.length_map, length_lineTokens, List.length_cons, length_pairWords,
    hkeys.length_eq] at hlen
  refine (Nat.succ.inj hlen).trans ?_
  cases c with
  | cngst => rfl
  | cngpth => rfl
  | cngpwd => rfl

theorem commandOf_text (c : CommandName) : commandOf c.text = some c := by
  cases c <;> decide

/-- A line of the command reaches its wrapper. -/
theorem addressed_commandLine {alloc : Nat → Bool} (hkeys : keys.Perm c.keywords)
    (hwords : ∀ k ∈ keys, OneWord (values k)) (hend : LineEnd ending)
    (hshort : (commandLine c keys values ++ ending).length < pathMax + nameMax + 1)
    (hbuffer : alloc 5 = true) (hpathname : c = .cngpth → alloc 4 = true) :
    Addressed alloc c (commandLine c keys values ++ ending) where
  short := hshort
  buffer := hbuffer
  name := by
    rw [lineStrings_commandLine hwords hend]
    exact commandOf_text c
  format := count_commandLine hkeys hwords hend
  pathname := hpathname

/-! ## Gathering the pairs -/

/-- Values that are read as they are: no value starts like a keyword, the path fits its buffer and
`parse_opt` has room for the words. -/
structure PlainValues (c : CommandName) (values : Keyword → List UInt8) : Prop where
  words : ∀ k ∈ c.keywords, OneWord (values k)
  notNull : ∀ k ∈ c.keywords, values k ≠ nullText
  notKeyword : ∀ k ∈ c.keywords, ∀ k' : Keyword, ¬ k'.text <+: values k
  path : .pth ∈ c.keywords → (values .pth).length < pathMax
  bars : .opt ∈ c.keywords → (values .opt).count bar ≤ 7

/-- A keyword of the command, with its value, writes its own local. -/
def Gathered.take (values : Keyword → List UInt8) (op : Nat) (g : Gathered) : Keyword → Gathered
  | .pwd => { g with first := some (values .pwd) }
  | .old => { g with first := some (values .old) }
  | .new => { g with second := some (values .new) }
  | .pth => { g with pathname := copyOver g.pathname (values .pth) }
  | .opt => { g with op := op }

theorem take_comm (values : Keyword → List UInt8) (op : Nat) (c : CommandName) :
    ∀ k ∈ c.keywords, ∀ k' ∈ c.keywords, ∀ g : Gathered,
      (g.take values op k).take values op k' = (g.take values op k').take values op k := by
  cases c with
  | cngst =>
    intro k hk k' hk' g
    rcases List.mem_pair.mp hk with rfl | rfl <;> rcases List.mem_pair.mp hk' with rfl | rfl <;> rfl
  | cngpth =>
    intro k hk k' hk' g
    cases k <;> cases k' <;> first | rfl | exact absurd hk (by decide) | exact absurd hk' (by decide)
  | cngpwd =>
    intro k hk k' hk' g
    rcases List.mem_pair.mp hk with rfl | rfl <;> rcases List.mem_pair.mp hk' with rfl | rfl <;> rfl

/-- At a keyword, the loop takes its value. -/
theorem act_take {op : Nat} (hplain : PlainValues c values)
    (hop : .opt ∈ c.keywords → parseOpt (values .opt) = .ok op) {k : Keyword} (hk : k ∈ c.keywords)
    (g : Gathered) : act (some (values k)) g (some k) = .ok (.ok (g.take values op k)) := by
  cases k with
  | pwd => rfl
  | old => rfl
  | new => rfl
  | pth =>
    have hfit : ¬ pathMax < (values .pth).length := Nat.not_lt.mpr (Nat.le_of_lt (hplain.path hk))
    rw [act, if_neg (hplain.notNull _ hk), if_neg hfit]
    rfl
  | opt =>
    rw [act, hop hk]
    rfl

theorem keywordOf_text {k : Keyword} (hk : k ∈ c.keywords) : c.keywordOf k.text = some k :=
  keywordOf_eq_some hk (List.prefix_refl _)

theorem gather_pairWords {op : Nat} (hplain : PlainValues c values)
    (hop : .opt ∈ c.keywords → parseOpt (values .opt) = .ok op) (hkeys : ∀ k ∈ keys, k ∈ c.keywords) :
    ∀ g : Gathered, c.gather (c.lookedAt (pairWords keys values)) g =
      .ok (.ok (keys.foldl (Gathered.take values op) g)) := by
  induction keys with
  | nil => exact fun g => rfl
  | cons k keys ih =>
    intro g
    have hk := hkeys k (List.mem_cons_self ..)
    have hvalue : c.keywordOf (values k) = none :=
      keywordOf_eq_none_iff.mpr fun k' _ => hplain.notKeyword k hk k'
    have hrest := ih fun k' hk' => hkeys k' (List.mem_cons_of_mem _ hk')
    have hwords : pairWords (k :: keys) values = k.text :: values k :: pairWords keys values := rfl
    rw [hwords, lookedAt_cons, CommandName.gather, keywordOf_text hk, List.head?_cons,
      act_take hplain hop hk, List.foldl_cons, ← hrest]
    dsimp only
    -- the value of an `-opt` is not looked at, any other is taken for nothing
    split
    · rfl
    · exact gather_skip hvalue _ _

theorem gather_commandLine {op : Nat} (hplain : PlainValues c values)
    (hop : .opt ∈ c.keywords → parseOpt (values .opt) = .ok op) (hkeys : keys.Perm c.keywords) :
    c.gather (c.lookedAt (pairWords keys values)) .none =
      .ok (.ok (c.keywords.foldl (Gathered.take values op) .none)) := by
  rw [gather_pairWords hplain hop fun k hk => hkeys.subset hk]
  refine congrArg (fun g => Except.ok (Except.ok g)) (hkeys.foldl_eq' ?_ _)
  intro k hk k' hk' g
  exact take_comm values op c k (hkeys.subset hk) k' (hkeys.subset hk') g

/-! ## The call -/

/-- The call with the values as they were given; the path stands in a buffer of zeros. -/
def CommandName.called (c : CommandName) (values : Keyword → List UInt8) (op : Nat) : DoChange :=
  match c with
  | .cngst => .state (values .pwd) op
  | .cngpth => .path (values .pwd) (padded pathMax (values .pth)) op
  | .cngpwd => .password (values .old) (values .new)

theorem given_some {value : List UInt8} (h : value ≠ nullText) : given (some value) = some value := by
  rw [given, Option.filter_some, if_pos (by simpa using h)]

theorem call_take {op : Nat} (hplain : PlainValues c values) :
    c.call (c.keywords.foldl (Gathered.take values op) .none) = some (c.called values op) := by
  cases c with
  | cngst =>
    have hpwd := given_some (hplain.notNull .pwd (by decide))
    show (given (some (values .pwd))).map _ = _
    rw [hpwd]
    rfl
  | cngpth =>
    have hpwd := given_some (hplain.notNull .pwd (by decide))
    have hcopy : copyOver (List.replicate pathMax 0) (values .pth) = padded pathMax (values .pth) := by
      rw [← padded_nil, copyOver_padded (hplain.words .pth (by decide)).nul, List.drop_nil,
        List.append_nil]
    show (given (some (values .pwd))).map (fun pwd => DoChange.path pwd
      (copyOver (List.replicate pathMax 0) (values .pth)) op) = _
    rw [hpwd, hcopy]
    rfl
  | cngpwd =>
    have hold := given_some (hplain.notNull .old (by decide))
    have hnew := given_some (hplain.notNull .new (by decide))
    show (given (some (values .old))).bind
      (fun oldPwd => (given (some (values .new))).map (DoChange.password oldPwd)) = _
    rw [hold, hnew]
    rfl

theorem parseOpt_plain (hplain : PlainValues c values) :
    ∃ op, .opt ∈ c.keywords → parseOpt (values .opt) = .ok op := by
  by_cases hopt : Keyword.opt ∈ c.keywords
  · have hfit : Fits (values .opt) := by
      rw [fits_iff, cstr_eq_self (hplain.words .opt hopt).nul]
      exact hplain.bars hopt
    obtain ⟨op, hop⟩ := parseOpt_ok_iff.mpr hfit
    exact ⟨op, fun _ => hop⟩
  · exact ⟨0, fun h => absurd h hopt⟩

/-- For every command, every order of its keywords and all plain values, the write makes one call
of the command's function, with the values as they are given and the `op` that `parse_opt` computes
from the value of `-opt`, and it returns the length of the line or the error of that call. -/
theorem commandLine_called {env : Env} {v : Vfs δ} {task : Task δ} {s : State}
    (hkeys : keys.Perm c.keywords) (hplain : PlainValues c values) (hend : LineEnd ending)
    (hshort : (commandLine c keys values ++ ending).length < pathMax + nameMax + 1)
    (hbuffer : task.alloc 5 = true) (hpathname : c = .cngpth → task.alloc 4 = true) :
    ∃ op : Nat, (.opt ∈ c.keywords → parseOpt (values .opt) = .ok op) ∧
      procCall task.alloc (commandLine c keys values ++ ending) = .ok (.ok (c.called values op)) ∧
      syscallProcWrite env v task (commandLine c keys values ++ ending) s =
        returned (commandLine c keys values ++ ending).length
          ((c.called values op).run env v task s) := by
  have hwords : ∀ k ∈ keys, OneWord (values k) := fun k hk => hplain.words k (hkeys.subset hk)
  have haddressed : Addressed task.alloc c (commandLine c keys values ++ ending) :=
    addressed_commandLine hkeys hwords hend hshort hbuffer hpathname
  obtain ⟨op, hop⟩ := parseOpt_plain hplain
  have hcall : procCall task.alloc (commandLine c keys values ++ ending) =
      .ok (.ok (c.called values op)) := by
    rw [procCall_eq haddressed, lineStrings_commandLine hwords hend, List.tail_cons,
      gather_commandLine hplain hop hkeys, CommandName.finish, call_take hplain]
  refine ⟨op, hop, hcall, ?_⟩
  rw [syscallProcWrite_call, hcall]
  rfl

end

/-- The values of `cngpth -opt adpth -pth /secret -pwd hunter2`. -/
def sampleValues : Keyword → List UInt8
  | .pwd => ascii "hunter2"
  | .pth => ascii "/secret"
  | .opt => ascii "adpth"
  | .old => []
  | .new => []

theorem sampleValues_plain : PlainValues .cngpth sampleValues where
  words := by decide
  notNull := by decide
  notKeyword := by
    intro k hk k'
    cases k' <;> revert k <;> decide
  path := fun _ => by decide
  bars := fun _ => by decide

theorem commandLine_called_sample :
    PlainValues .cngpth sampleValues ∧ ∃ op : Nat, parseOpt (ascii "adpth") = .ok op ∧
      syscallProcWrite sampleEnv sampleTree.vfs (sampleTask 0 0)
          (commandLine .cngpth [.opt, .pth, .pwd] sampleValues ++ [newline]) (sampleState stateRecOn true []) =
        returned 44 (doChangePath sampleEnv sampleTree.vfs (sampleTask 0 0) (ascii "hunter2")
          (padded pathMax (ascii "/secret")) op (sampleState stateRecOn true [])) := by
  obtain ⟨op, hop, -, hwrite⟩ := @commandLine_called _ .cngpth [.opt, .pth, .pwd] sampleValues
    [newline] sampleEnv sampleTree.vfs (sampleTask 0 0) (sampleState stateRecOn true []) (by decide)
    sampleValues_plain (.inr rfl) (by decide) rfl fun _ => rfl
  exact ⟨sampleValues_plain, op, hop (by decide), hwrite⟩

end RefMonitor
