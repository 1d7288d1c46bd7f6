import RefMonitor.Interfaces
import RefMonitor.NamedFile

/-!
# The text left in the buffer

`resolve_relative_path` prints the cwd and the name into the buffer that holds the cwd already; the
text of the cwd is overwritten while it is being read, and still the two are joined, for every
length that fits. `fill_absolute_path` then writes the path of the dentry over the name. Of an
absolute name it clears only the bytes of the name itself, so that bytes behind its NUL come to
stand behind a longer path. The other functions that replace a name, `resolve_relative_path` and
`fill_path_by_dentry`, clear all `PATH_MAX` bytes.

Results:
1. `resolveRelativePath_joins`: the cwd and the name, joined in place.
2. `leavesCanonical_iff`: the buffers in which the canonical path is left.
-/

namespace RefMonitor
open CString

variable {δ : Type}

/-! ## The cwd and the name -/

/-- Whatever the fresh buffer holds, and however much of the cwd's text the joined text runs over:
the name is replaced by the cwd, a slash and the name, and zero bytes up to `PATH_MAX`. -/
theorem resolveRelativePath_joins {env : Env} {v : Vfs δ} {task : Task δ} {pathStr : List UInt8}
    (hnul : (0 : UInt8) ∉ v.dPath task.cwd) (hbuf : pathStr.length = pathMax)
    (hfit : (v.dPath task.cwd).length + 1 + (cstr pathStr).length < pathMax) :
    resolveRelativePath env v task true pathStr =
      .ok (0, padded pathMax (v.dPath task.cwd ++ slash :: cstr pathStr)) := by
  have hcwd : (v.dPath task.cwd).length < pathMax := by omega
  have hjoined : (v.dPath task.cwd ++ slash :: cstr pathStr).length ≤ pathMax - 1 := by
    rw [List.length_append, List.length_cons]
    omega
  rw [resolveRelativePath_eq hnul hcwd (Nat.le_of_eq hbuf), List.take_of_length_le hjoined]

/-- The text of a directory thirty levels down. -/
def deepText : List UInt8 := (List.replicate 30 (slash :: List.replicate 99 97)).flatten

theorem length_deepText : deepText.length = 3000 := by decide +kernel

theorem zero_notMem_deepText : (0 : UInt8) ∉ deepText := by decide +kernel

/-- A tree in which the cwd lies that deep. -/
def deepVfs : Vfs Nat := { sampleTree.vfs with dPath := fun _ => deepText }

/-- The text of that directory takes up more than half of the buffer. -/
theorem resolveRelativePath_joins_deep :
    pathMax < 2 * deepText.length ∧
      resolveRelativePath sampleEnv deepVfs (sampleTask 0 0) true (padded pathMax (ascii "notes")) =
        .ok (0, padded pathMax (deepText ++ slash :: ascii "notes")) := by
  have htext : cstr (padded pathMax (ascii "notes")) = ascii "notes" := cstr_padded (by decide) _
  have hcwd : deepVfs.dPath (sampleTask 0 0).cwd = deepText := rfl
  have hjoined := @resolveRelativePath_joins Nat sampleEnv deepVfs (sampleTask 0 0)
    (padded pathMax (ascii "notes"))
  rw [hcwd, htext, length_deepText] at hjoined
  refine ⟨?_, hjoined zero_notMem_deepText (length_padded (by decide)) (by decide)⟩
  rw [length_deepText]
  decide

/-! ## The path of the dentry -/

/-- The buffer, read as a string, is the path of the dentry the name was resolved to. -/
def LeavesCanonical (v : Vfs δ) (task : Task δ) (buf out : List UInt8) : Prop :=
  ∃ d, v.kernPath task.cwd (absText v task.cwd (cstr buf)) = .ok d ∧ cstr out = v.dPath d

/-- In any namespace, for every buffer of `PATH_MAX` bytes with any bytes behind the name: a result
of zero leaves the canonical path exactly when the buffer is clear where that path ends. A relative
name needs nothing of the kind. -/
theorem leavesCanonical_iff {env : Env} {v : Vfs δ} {task : Task δ} {alloc : Nat → Bool}
    {buf out : List UInt8} (hv : WellNamed v) (hcwd : v.Resolves task.cwd)
    (hbuf : buf.length = pathMax) (h : fillAbsolutePath env v task alloc buf = .ok (0, out)) :
    LeavesCanonical v task buf out ↔ ClearBehind v task buf := by
  obtain ⟨d, hk, hprinted⟩ := fillAbsolutePath_printed (fun _ => hv.text_nul) hcwd hbuf h
  have hleaves : LeavesCanonical v task buf out ↔ printedText v buf d = v.dPath d := by
    rw [← hprinted]
    constructor
    · rintro ⟨d', hk', htext⟩
      obtain rfl := Except.ok.inj (hk.symm.trans hk')
      exact htext
    · exact fun htext => ⟨d, hk, htext⟩
  rw [hleaves, printedText_eq_iff]
  constructor
  · intro hclear d' hslash hk'
    rw [absText, if_pos hslash] at hk
    obtain rfl := Except.ok.inj (hk.symm.trans hk')
    exact hclear hslash
  · intro hclear hslash
    rw [absText, if_pos hslash] at hk
    exact hclear d hslash hk

/-! ## Names with bytes behind them -/

/-- What `sys_change_paths` fetches for a name with the letters `xs` behind it in user memory. -/
def lettersBehind (name : List UInt8) : List UInt8 := fromUserPath (name ++ 0 :: ascii "xs")

theorem lettersBehind_call {name : List UInt8} {d : Nat}
    (hlen : (name ++ 0 :: ascii "xs").length ≤ maxFromUser) (hnul : (0 : UInt8) ∉ name)
    (hslash : name.head? = some slash) (hk : sampleTree.vfs.kernPath 0 name = .ok d) :
    ∃ n, fillAbsolutePath sampleEnv sampleTree.vfs (sampleTask 0 0) (fun _ => true)
        (lettersBehind name) = .ok (0, sampleTree.vfs.dPath d ++ (List.replicate name.length 0 ++
          0 :: (ascii "xs" ++ List.replicate n 0)).drop (sampleTree.vfs.dPath d).length) := by
  refine ⟨pathMax - (name ++ 0 :: ascii "xs").length, ?_⟩
  rw [lettersBehind, fromUserPath, copyFromUser_of_le hlen, padded, List.append_assoc,
    List.cons_append]
  exact fillAbsolutePath_behind sampleTree_singleMount rfl hnul hslash hk

/-- A name that is longer than its path leaves the path, whatever follows it. -/
theorem leavesCanonical_iff_longer : ∃ out,
    fillAbsolutePath sampleEnv sampleTree.vfs (sampleTask 0 0) (fun _ => true)
        (lettersBehind (ascii "/tmp/../home/secret")) = .ok (0, out) ∧
      LeavesCanonical sampleTree.vfs (sampleTask 0 0) (lettersBehind (ascii "/tmp/../home/secret"))
        out := by
  have hnul : (0 : UInt8) ∉ ascii "/tmp/../home/secret" := by decide
  have htext : cstr (lettersBehind (ascii "/tmp/../home/secret")) = ascii "/tmp/../home/secret" :=
    cstr_copyFromUser hnul (by decide) pathMax (ascii "xs")
  obtain ⟨n, hcall⟩ := @lettersBehind_call (ascii "/tmp/../home/secret") 2 (by decide) hnul rfl rfl
  have hbuf : (lettersBehind (ascii "/tmp/../home/secret")).length = pathMax :=
    length_fromUserPath _
  refine ⟨_, hcall, (leavesCanonical_iff sampleTree_wellNamed sampleTree_root hbuf hcall).mpr ?_⟩
  intro d _ hk
  rw [htext] at hk
  obtain rfl : 2 = d := Except.ok.inj hk
  rw [strlen, htext]
  exact .inl (by decide)

/-- `/tmp/alias` leads to `/home/secret`; a letter that stood behind it makes this the path of
another file. -/
theorem letter_left_behind : ∃ out,
    fillAbsolutePath sampleEnv sampleTree.vfs (sampleTask 0 0) (fun _ => true)
        (lettersBehind (ascii "/tmp/alias")) = .ok (0, out) ∧
      cstr out = ascii "/home/secrets" ∧
      ¬ LeavesCanonical sampleTree.vfs (sampleTask 0 0) (lettersBehind (ascii "/tmp/alias")) out := by
  have hnul : (0 : UInt8) ∉ ascii "/tmp/alias" := by decide
  have htext : cstr (lettersBehind (ascii "/tmp/alias")) = ascii "/tmp/alias" :=
    cstr_copyFromUser hnul (by decide) pathMax (ascii "xs")
  obtain ⟨n, hcall⟩ := @lettersBehind_call (ascii "/tmp/alias") 2 (by decide) hnul rfl rfl
  have hout : cstr (sampleTree.vfs.dPath 2 ++ (List.replicate (ascii "/tmp/alias").length 0 ++
      0 :: (ascii "xs" ++ List.replicate n 0)).drop (sampleTree.vfs.dPath 2).length) =
      ascii "/home/secrets" :=
    cstr_append_zeros (ascii "/home/secrets") n
  refine ⟨_, hcall, hout, ?_⟩
  rintro ⟨d, hk, hleft⟩
  rw [htext] at hk
  obtain rfl : 2 = d := Except.ok.inj hk
  rw [hout] at hleft
  exact absurd hleft (by decide)

end RefMonitor
