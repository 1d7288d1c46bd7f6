import RefMonitor.OpenText
import RefMonitor.NamedFile

/-!
# The texts a buffer is judged by

Whatever bytes `pre_do_filp_open_handler` finds in its buffer, it comes to judge one text: the
bytes themselves when they are few, the path of the file the name leads to (for the name of a swap
or backup file, of the file behind it), or that of the directory of a name that leads nowhere. The
path is the one inside the file system the file lies on. Of an absolute name only its own bytes are
cleared before, so that bytes behind it can come to stand behind a longer path.

This is said here in terms of the namespace (`JudgedAs`), for any buffer and any namespace.

Results:
1. `fillAbsolutePath_filled`: one lookup; `LeadsTo.filled`, `Missing.filled`: its two outcomes.
2. `fetchOpen_fetches`: what the handler judges is a text of the buffer.
3. `JudgedAs.fetched`: with memory to spare it judges every such text.
4. `objected_iff`, `verdict_denied`: the texts it objects to.
-/

namespace RefMonitor
open CString

variable {δ : Type}

/-! ## Buffers -/

theorem length_clearSwapSuffix {buf : List UInt8} {len : Nat} (hlong : 5 ≤ len)
    (hlen : len ≤ buf.length) : (clearSwapSuffix buf len).length = buf.length := by
  have hzero : ∀ n, n ≤ len → (memsetZero buf (len - n) n).length = buf.length := fun n hn =>
    length_writeAt (by rw [List.length_replicate]; omega)
  unfold clearSwapSuffix
  split
  · exact hzero 4 (by omega)
  · split
    · exact hzero 5 hlong
    · split
      · exact List.length_set
      · rfl

/-- The buffer without the decoration of a swap name. -/
def bareBuffer (buf : List UInt8) : List UInt8 :=
  if SwapNamed (cstr buf) then
    clearSwapSuffix (removeSwapDot buf (strlen buf)).1 (removeSwapDot buf (strlen buf)).2
  else buf

theorem swapDotIndex_lt {buf : List UInt8} {i : Nat} :
    ∀ {n : Nat}, swapDotIndex buf n = some i → i ≤ n := by
  intro n
  induction n with
  | zero => exact fun h => nomatch h
  | succ n ih =>
    intro h
    rw [swapDotIndex] at h
    split at h
    · split at h
      · cases h
        exact Nat.le_refl _
      · cases h
    · exact Nat.le_succ_of_le (ih h)

/-- Removing the dot moves bytes inside the buffer. -/
theorem length_removeSwapDot {buf : List UInt8} {len : Nat} (hlong : 6 ≤ len)
    (hlen : len ≤ buf.length) :
    (removeSwapDot buf len).1.length = buf.length ∧ 5 ≤ (removeSwapDot buf len).2 ∧
      (removeSwapDot buf len).2 ≤ buf.length := by
  unfold removeSwapDot
  split
  · next dotIndex hdot =>
    have hle := swapDotIndex_lt hdot
    have hmoved : dotIndex + ((buf.drop (dotIndex + 1)).take (len - dotIndex)).length ≤
        buf.length := by
      rw [List.length_take, List.length_drop]
      omega
    refine ⟨?_, by dsimp only; omega, by dsimp only; omega⟩
    dsimp only
    rw [List.length_set, memmove, length_writeAt hmoved]
  · exact ⟨rfl, by dsimp only; omega, hlen⟩

theorem length_bareBuffer {buf : List UInt8} (hlong : 6 ≤ strlen buf) :
    (bareBuffer buf).length = buf.length := by
  unfold bareBuffer
  split
  · obtain ⟨hlen, hlong', hle⟩ := length_removeSwapDot hlong (strlen_le_length buf)
    rw [length_clearSwapSuffix hlong' (by rw [hlen]; exact hle), hlen]
  · rfl

theorem length_getParentPath (buf : List UInt8) : (getParentPath buf).length = buf.length := by
  unfold getParentPath
  dsimp only
  split
  · exact List.length_set
  · rfl

/-- The first byte stays: the cut is made at a later slash. -/
theorem headD_getParentPath (buf : List UInt8) : (getParentPath buf).headD 0 = buf.headD 0 := by
  unfold getParentPath
  dsimp only
  split
  · next hpos =>
    cases buf with
    | nil => rfl
    | cons b buf =>
      obtain ⟨k, hk⟩ := Nat.exists_eq_succ_of_ne_zero (Nat.ne_of_gt hpos)
      rw [hk, List.set_cons_succ]
      rfl
  · rfl

theorem length_copyFromUser (memory : List UInt8) :
    (copyFromUser pathMax pathMax memory).length = pathMax := by
  rw [copyFromUser, List.length_append, List.length_replicate, List.length_take]
  omega

theorem copyFromUser_full {memory : List UInt8} (hlen : memory.length = pathMax) :
    copyFromUser pathMax pathMax memory = memory := by
  rw [copyFromUser_of_le (Nat.le_of_eq hlen), padded, hlen, Nat.sub_self, List.replicate_zero,
    List.append_nil]

/-! ## One lookup -/

/-- The buffer once its name is absolute. -/
def absBuffer (v : Vfs δ) (cwd : δ) (buf : List UInt8) : List UInt8 :=
  if (cstr buf).head? = some slash then buf else padded pathMax (absText v cwd (cstr buf))

/-- The text of the cwd can be printed, if it is needed. -/
def CwdFits (v : Vfs δ) (cwd : δ) (buf : List UInt8) : Prop :=
  (cstr buf).head? = some slash ∨ (v.dPath cwd).length < pathMax

/-- The name in the buffer, made absolute, leads to a dentry whose text can be printed. -/
structure LeadsTo (v : Vfs δ) (cwd : δ) (buf : List UInt8) (d : δ) : Prop where
  cwdFits : CwdFits v cwd buf
  found : v.kernPath cwd (absText v cwd (cstr buf)) = .ok d
  fits : (v.dPath d).length < pathMax

/-- The name in the buffer, made absolute, leads nowhere. -/
structure Missing (v : Vfs δ) (cwd : δ) (buf : List UInt8) : Prop where
  cwdFits : CwdFits v cwd buf
  missing : ∃ e, v.kernPath cwd (absText v cwd (cstr buf)) = .error e

/-- What `fill_absolute_path` does with any buffer. -/
inductive Filled (v : Vfs δ) (cwd : δ) (alloc : Nat → Bool) (buf : List UInt8) :
    Except Fault (Int × List UInt8) → Prop
  | printed {d : δ} {out : List UInt8} : LeadsTo v cwd buf d → cstr out = printedText v buf d →
      Filled v cwd alloc buf (.ok (0, out))
  | missing : Missing v cwd buf → Filled v cwd alloc buf (.ok (fail .enoent, absBuffer v cwd buf))
  | nomem {out : List UInt8} : (cstr buf).head? ≠ some slash ∧ alloc 0 = false ∨ alloc 1 = false →
      Filled v cwd alloc buf (.ok (fail .enomem, out))
  | longCwd {f : Fault} : ¬ CwdFits v cwd buf → Filled v cwd alloc buf (.error f)
  | longText {d : δ} {f : Fault} : v.kernPath cwd (absText v cwd (cstr buf)) = .ok d →
      pathMax ≤ (v.dPath d).length → Filled v cwd alloc buf (.error f)

section
variable {env : Env} {v : Vfs δ} {task : Task δ} {alloc : Nat → Bool} {buf : List UInt8}

theorem cstr_absBuffer (hv : WellNamed v) (hcwd : v.Resolves task.cwd) :
    cstr (absBuffer v task.cwd buf) = absText v task.cwd (cstr buf) := by
  unfold absBuffer
  split
  · next hs => rw [absText, if_pos hs]
  · exact cstr_padded (zero_notMem_absText (hv.text_nul hcwd) (zero_notMem_cstr buf)) _

theorem length_absBuffer (hlen : buf.length = pathMax) :
    (absBuffer v task.cwd buf).length = pathMax := by
  unfold absBuffer
  split
  · exact hlen
  · exact length_padded (length_absText_le (hlen ▸ strlen_le_length buf))

/-- The text left behind the path: of an absolute name only its own bytes have been cleared. -/
theorem cstr_drop_absBuffer (hv : WellNamed v) (hcwd : v.Resolves task.cwd) (d : δ) :
    v.dPath d ++ cstr ((memsetZero (absBuffer v task.cwd buf) 0
      (strlen (absBuffer v task.cwd buf))).drop (v.dPath d).length) = printedText v buf d := by
  unfold printedText
  by_cases hs : (cstr buf).head? = some slash
  · rw [absBuffer, if_pos hs, cstr_drop_cleared]
    simp only [hs, true_and]
  · rw [absBuffer, if_neg hs, if_neg fun h => hs h.1, cstr_drop_cleared_padded
      (zero_notMem_absText (hv.text_nul hcwd) (zero_notMem_cstr buf))]

/-- Making the name absolute, when the memory for it is there. -/
theorem resolved_eq (hv : WellNamed v) (hcwd : v.Resolves task.cwd) (hlen : buf.length = pathMax)
    (halloc : (cstr buf).head? = some slash ∨ alloc 0 = true) (hfits : CwdFits v task.cwd buf) :
    (if buf.headD 0 ≠ slash then resolveRelativePath env v task (alloc 0) buf
      else .ok (0, buf)) = .ok (0, absBuffer v task.cwd buf) := by
  unfold absBuffer
  by_cases hs : (cstr buf).head? = some slash
  · rw [if_neg (not_not.mpr ((headD_eq_slash_iff buf).mpr hs)), if_pos hs]
  · rw [if_pos fun h0 => hs ((headD_eq_slash_iff buf).mp h0), if_neg hs, halloc.resolve_left hs,
      resolveRelativePath_eq (hv.text_nul hcwd) (hfits.resolve_left hs) (Nat.le_of_eq hlen),
      absText, if_neg hs]

/-- A relative name, without memory for the text of the cwd. -/
theorem fillAbsolutePath_relative_nomem (env : Env) (v : Vfs δ) (task : Task δ)
    (hs : (cstr buf).head? ≠ some slash) (h0 : alloc 0 = false) :
    fillAbsolutePath env v task alloc buf = .ok (fail .enomem, buf) := by
  unfold fillAbsolutePath
  dsimp only
  rw [if_pos fun hslash => hs ((headD_eq_slash_iff buf).mp hslash), h0, resolveRelativePath]
  rfl

/-- A relative name below a cwd whose text is too long: the error pointer `dentry_path_raw` answers
with is read like a string. -/
theorem fillAbsolutePath_relative_dies (env : Env) (h0 : alloc 0 = true)
    (hfits : ¬ CwdFits v task.cwd buf) :
    fillAbsolutePath env v task alloc buf = .error .errPtr := by
  have hs : (cstr buf).head? ≠ some slash := fun h => hfits (.inl h)
  have hlong : ¬ (v.dPath task.cwd).length < pathMax := fun h => hfits (.inr h)
  have hraw : v.dentryPathRaw task.cwd (env.kmalloc pathMax) = none :=
    dentryPathRaw_long (by rw [env.kmalloc_length]; exact hlong)
  unfold fillAbsolutePath
  dsimp only
  rw [if_pos fun hslash => hs ((headD_eq_slash_iff buf).mp hslash), h0, resolveRelativePath, hraw]
  rfl

/-- The name is made absolute and looked up. -/
theorem fillAbsolutePath_absBuffer (env : Env) (hv : WellNamed v) (hcwd : v.Resolves task.cwd)
    (hlen : buf.length = pathMax) (h0 : (cstr buf).head? = some slash ∨ alloc 0 = true)
    (hfits : CwdFits v task.cwd buf) :
    fillAbsolutePath env v task alloc buf =
      match v.kernPath task.cwd (absText v task.cwd (cstr buf)) with
      | .error _ => .ok (fail .enoent, absBuffer v task.cwd buf)
      | .ok d =>
        if !alloc 1 then .ok (fail .enomem, absBuffer v task.cwd buf)
        else
          match v.dentryPathRaw d (List.replicate pathMax 0) with
          | none => .error .errPtr
          | some (buffer, at_) =>
            .ok (0, strncpy (memsetZero (absBuffer v task.cwd buf) 0
              (strlen (absBuffer v task.cwd buf))) (buffer.drop at_) (strlen (buffer.drop at_))) := by
  have hresolved := @resolved_eq δ env v task alloc buf hv hcwd hlen h0 hfits
  unfold fillAbsolutePath
  dsimp only
  rw [hresolved]
  refine (if_neg (by decide)).trans ?_
  generalize hname : cstr (absBuffer v task.cwd buf) = name
  obtain rfl : absText v task.cwd (cstr buf) = name := (cstr_absBuffer hv hcwd).symm.trans hname
  cases v.kernPath task.cwd (absText v task.cwd (cstr buf)) with
  | error e => rfl
  | ok d =>
    show (if !alloc 1 then _ else _) = (if !alloc 1 then _ else _)
    cases v.dentryPathRaw d (List.replicate pathMax 0) with
    | none => rfl
    | some r => rfl

theorem fillAbsolutePath_filled (env : Env) (alloc : Nat → Bool) (hv : WellNamed v)
    (hcwd : v.Resolves task.cwd) (hlen : buf.length = pathMax) :
    Filled v task.cwd alloc buf (fillAbsolutePath env v task alloc buf) := by
  by_cases h0 : (cstr buf).head? = some slash ∨ alloc 0 = true
  · by_cases hfits : CwdFits v task.cwd buf
    · rw [fillAbsolutePath_absBuffer env hv hcwd hlen h0 hfits]
      cases hk : v.kernPath task.cwd (absText v task.cwd (cstr buf)) with
      | error e => exact .missing ⟨hfits, e, hk⟩
      | ok d =>
        dsimp only
        cases h1 : alloc 1 with
        | false => exact .nomem (.inr h1)
        | true =>
          rw [if_neg (by decide)]
          rcases Nat.lt_or_ge (v.dPath d).length pathMax with hlt | hge
          · have hraw := dentryPathRaw_eq v d (List.replicate pathMax 0)
              (by rw [List.length_replicate]; exact hlt)
            have htext := cstr_dentryPathRaw (hv.text_nul ⟨_, _, hk⟩) hraw
            rw [hraw]
            refine .printed ⟨hfits, hk, hlt⟩ ?_
            rw [cstr_strncpy_strlen, strlen, htext]
            exact cstr_drop_absBuffer hv hcwd d
          · rw [dentryPathRaw_long (by rw [List.length_replicate]; exact Nat.not_lt.mpr hge)]
            exact .longText hk hge
    · rw [fillAbsolutePath_relative_dies env (h0.resolve_left fun h => hfits (.inl h)) hfits]
      exact .longCwd hfits
  · obtain ⟨hs, h0⟩ := not_or.mp h0
    have h0 := Bool.eq_false_iff.mpr h0
    rw [fillAbsolutePath_relative_nomem env v task hs h0]
    exact .nomem (.inl ⟨hs, h0⟩)

theorem LeadsTo.filled {d : δ} (h : LeadsTo v task.cwd buf d) (env : Env) (hv : WellNamed v)
    (hcwd : v.Resolves task.cwd) (hlen : buf.length = pathMax)
    (h0 : (cstr buf).head? = some slash ∨ alloc 0 = true) (h1 : alloc 1 = true) :
    ∃ out, fillAbsolutePath env v task alloc buf = .ok (0, out) ∧ cstr out = printedText v buf d := by
  have hfilled := @fillAbsolutePath_filled δ v task buf env alloc hv hcwd hlen
  generalize fillAbsolutePath env v task alloc buf = r at hfilled ⊢
  cases hfilled with
  | printed hleads htext =>
    obtain rfl := Except.ok.inj (h.found.symm.trans hleads.found)
    exact ⟨_, rfl, htext⟩
  | missing hmissing =>
    obtain ⟨e, he⟩ := hmissing.missing
    exact absurd (h.found.symm.trans he) (by simp)
  | nomem hno =>
    rcases hno with ⟨hs, hno⟩ | hno
    · exact absurd (hno.symm.trans (h0.resolve_left hs)) (by decide)
    · exact absurd (hno.symm.trans h1) (by decide)
  | longCwd hno => exact absurd h.cwdFits hno
  | longText hk hlong =>
    obtain rfl := Except.ok.inj (h.found.symm.trans hk)
    exact absurd h.fits (Nat.not_lt.mpr hlong)

theorem Missing.filled (h : Missing v task.cwd buf) (env : Env) (hv : WellNamed v)
    (hcwd : v.Resolves task.cwd) (hlen : buf.length = pathMax)
    (h0 : (cstr buf).head? = some slash ∨ alloc 0 = true) (h1 : alloc 1 = true) :
    fillAbsolutePath env v task alloc buf = .ok (fail .enoent, absBuffer v task.cwd buf) := by
  have hfilled := @fillAbsolutePath_filled δ v task buf env alloc hv hcwd hlen
  obtain ⟨e, he⟩ := h.missing
  generalize fillAbsolutePath env v task alloc buf = r at hfilled ⊢
  cases hfilled with
  | printed hleads _ => exact absurd (hleads.found.symm.trans he) (by simp)
  | missing _ => rfl
  | nomem hno =>
    rcases hno with ⟨hs, hno⟩ | hno
    · exact absurd (hno.symm.trans (h0.resolve_left hs)) (by decide)
    · exact absurd (hno.symm.trans h1) (by decide)
  | longCwd hno => exact absurd h.cwdFits hno
  | longText hk _ => exact absurd (hk.symm.trans he) (by simp)

/-! ## The text -/

/-- What the text of a request is the text of. -/
inductive TextKind
  | file
  | dir
  | swap
deriving DecidableEq, Repr

def TextKind.fetched : TextKind → List UInt8 → FetchedText
  | .file, buffer => .file buffer
  | .dir, buffer => .dir buffer
  | .swap, buffer => .swap buffer

/-- The buffer in which the directory of a missing name is looked up. -/
def parentBuffer (v : Vfs δ) (cwd : δ) (buf : List UInt8) : List UInt8 :=
  getParentPath (absBuffer v cwd (bareBuffer buf))

/-- The texts a buffer is judged by, in a namespace: the bytes themselves when they are fewer than
six, the path of the file the name leads to, of the file behind a swap name, or of the directory of
a name that leads nowhere. -/
inductive JudgedAs (v : Vfs δ) (cwd : δ) (buf : List UInt8) : TextKind → List UInt8 → Prop
  | short : strlen buf < 6 → JudgedAs v cwd buf .file (cstr buf)
  | file {d : δ} : 6 ≤ strlen buf → ¬ SwapNamed (cstr buf) → LeadsTo v cwd buf d →
      JudgedAs v cwd buf .file (printedText v buf d)
  | swap {d : δ} : 6 ≤ strlen buf → SwapNamed (cstr buf) → LeadsTo v cwd (bareBuffer buf) d →
      JudgedAs v cwd buf .swap (printedText v (bareBuffer buf) d)
  | dir {d : δ} : 6 ≤ strlen buf → Missing v cwd (bareBuffer buf) →
      LeadsTo v cwd (parentBuffer v cwd buf) d →
      JudgedAs v cwd buf .dir (printedText v (parentBuffer v cwd buf) d)

/-- What the handler can make of any bytes. -/
inductive Fetches (v : Vfs δ) (task : Task δ) (buf : List UInt8) : Except Fault FetchedText → Prop
  | judged {kind : TextKind} {out : List UInt8} : JudgedAs v task.cwd buf kind (cstr out) →
      Fetches v task buf (.ok (kind.fetched out))
  | nothing : Fetches v task buf (.ok .nothing)
  | nomem : task.alloc 1 = false ∨ task.alloc 2 = false ∨ task.alloc 4 = false →
      Fetches v task buf (.ok .nomem)
  | longCwd {f : Fault} : pathMax ≤ (v.dPath task.cwd).length → Fetches v task buf (.error f)
  | longText {x : List UInt8} {d : δ} {f : Fault} : x.head? = some slash → (0 : UInt8) ∉ x →
      v.kernPath task.cwd x = .ok d → pathMax ≤ (v.dPath d).length → Fetches v task buf (.error f)

/-- The directory of an absolute name is named absolutely. -/
theorem slash_parentBuffer (hv : WellNamed v) (hcwd : v.Resolves task.cwd) (buf : List UInt8) :
    (cstr (parentBuffer v task.cwd buf)).head? = some slash := by
  rw [parentBuffer, ← headD_eq_slash_iff, headD_getParentPath, headD_eq_slash_iff,
    cstr_absBuffer hv hcwd]
  exact head_absText (hv.text_slash hcwd)

theorem fillWithSwapFilter_eq (env : Env) (v : Vfs δ) (task : Task δ) (alloc : Nat → Bool)
    (hlong : 6 ≤ strlen buf) :
    fillWithSwapFilter env v task alloc buf =
      (fillAbsolutePath env v task alloc (bareBuffer buf)).map fun r =>
        if r.1 ≠ 0 then r else (if SwapNamed (cstr buf) then 1 else 0, r.2) := by
  have hswap : isSwapName buf (strlen buf) = decide (SwapNamed (cstr buf)) := by
    rw [Bool.eq_iff_iff, isSwapName_iff hlong, decide_eq_true_iff]
  unfold fillWithSwapFilter bareBuffer
  dsimp only
  rw [if_neg (Nat.not_lt.mpr hlong), hswap]
  simp only [decide_eq_true_eq]
  split
  · next hf => rw [hf]; rfl
  · next ret out hf =>
    rw [hf]
    show _ = Except.ok (if ret ≠ 0 then _ else _)
    split
    · rfl
    · rfl

theorem fillWithSwapFilter_few (env : Env) (v : Vfs δ) (task : Task δ) (alloc : Nat → Bool)
    (hshort : strlen buf < 6) : fillWithSwapFilter env v task alloc buf = .ok (0, buf) :=
  if_pos hshort

/-- The directory of a missing name. -/
theorem fetchOpen_missing (hv : WellNamed v) (hcwd : v.Resolves task.cwd)
    (hlen : buf.length = pathMax) (hlong : 6 ≤ strlen buf)
    (hmissing : Missing v task.cwd (bareBuffer buf)) :
    Fetches v task buf
      (match fillAbsolutePath env v task (fun k => task.alloc (k + 3)) (parentBuffer v task.cwd buf) with
      | .error f => .error f
      | .ok (ret, buffer) =>
        if ret = fail .enomem then .ok .nomem
        else if ret ≠ 0 then .ok .nothing
        else .ok (.dir buffer)) := by
  have hparent : (parentBuffer v task.cwd buf).length = pathMax :=
    (length_getParentPath _).trans (length_absBuffer ((length_bareBuffer hlong).trans hlen))
  have hslash := slash_parentBuffer hv hcwd buf
  have hfilled := @fillAbsolutePath_filled δ v task (parentBuffer v task.cwd buf) env
    (fun k => task.alloc (k + 3)) hv hcwd hparent
  generalize fillAbsolutePath env v task (fun k => task.alloc (k + 3)) (parentBuffer v task.cwd buf) = r
    at hfilled ⊢
  cases hfilled with
  | printed hleads htext =>
    exact @Fetches.judged δ v task buf .dir _ (htext ▸ .dir hlong hmissing hleads)
  | missing _ => exact .nothing
  | nomem hno => exact .nomem (.inr (.inr (hno.resolve_left fun h => h.1 hslash)))
  | longCwd hno => exact absurd (.inl hslash) hno
  | longText hk hlong =>
    rw [absText, if_pos hslash] at hk
    exact .longText hslash (zero_notMem_cstr _) hk hlong

theorem fetchOpen_fetches (env : Env) (hv : WellNamed v) (hcwd : v.Resolves task.cwd)
    (hlen : buf.length = pathMax) : Fetches v task buf (fetchOpen env v task buf) := by
  unfold fetchOpen
  rcases Nat.lt_or_ge (strlen buf) 6 with hshort | hlong
  · rw [fillWithSwapFilter_few _ _ _ _ hshort]
    exact @Fetches.judged δ v task buf .file _ (.short hshort)
  · have hbare : (bareBuffer buf).length = pathMax := (length_bareBuffer hlong).trans hlen
    have hfilled := @fillAbsolutePath_filled δ v task (bareBuffer buf) env
      (fun k => task.alloc (k + 1)) hv hcwd hbare
    rw [fillWithSwapFilter_eq _ _ _ _ hlong]
    generalize fillAbsolutePath env v task (fun k => task.alloc (k + 1)) (bareBuffer buf) = r
      at hfilled ⊢
    cases hfilled with
    | printed hleads htext =>
      by_cases hswap : SwapNamed (cstr buf)
      · simp only [Except.map, ne_eq, not_true_eq_false, if_false, if_pos hswap]
        exact @Fetches.judged δ v task buf .swap _ (htext ▸ .swap hlong hswap hleads)
      · simp only [Except.map, ne_eq, not_true_eq_false, if_false, if_neg hswap]
        rw [bareBuffer, if_neg hswap] at hleads htext
        exact @Fetches.judged δ v task buf .file _ (htext ▸ .file hlong hswap hleads)
    | missing hmissing => exact fetchOpen_missing hv hcwd hlen hlong hmissing
    | nomem hno =>
      refine .nomem ?_
      rcases hno with ⟨-, h⟩ | h
      · exact .inl h
      · exact .inr (.inl h)
    | longCwd hno => exact .longCwd (Nat.not_lt.mp fun h => hno (.inr h))
    | longText hk hlong =>
      exact .longText (head_absText (hv.text_slash hcwd))
        (zero_notMem_absText (hv.text_nul hcwd) (zero_notMem_cstr _)) hk hlong

/-- With memory to spare, the handler comes to every text of the buffer. -/
theorem JudgedAs.fetched {kind : TextKind} {text : List UInt8}
    (h : JudgedAs v task.cwd buf kind text) (env : Env) (hv : WellNamed v)
    (hcwd : v.Resolves task.cwd) (hlen : buf.length = pathMax) (h1 : task.alloc 1 = true)
    (h2 : task.alloc 2 = true) (h4 : task.alloc 4 = true) :
    ∃ out, fetchOpen env v task buf = .ok (kind.fetched out) ∧ cstr out = text := by
  unfold fetchOpen
  cases h with
  | short hshort =>
    rw [fillWithSwapFilter_few _ _ _ _ hshort]
    exact ⟨buf, rfl, rfl⟩
  | file hlong hswap hleads =>
    obtain ⟨out, hfill, htext⟩ := @LeadsTo.filled δ v task (fun k => task.alloc (k + 1)) buf _
      hleads env hv hcwd hlen (.inr h1) h2
    have hbare : bareBuffer buf = buf := if_neg hswap
    rw [fillWithSwapFilter_eq _ _ _ _ hlong, hbare, hfill]
    simp only [Except.map, ne_eq, not_true_eq_false, if_false, if_neg hswap]
    exact ⟨out, rfl, htext⟩
  | swap hlong hswap hleads =>
    obtain ⟨out, hfill, htext⟩ := @LeadsTo.filled δ v task (fun k => task.alloc (k + 1)) _ _
      hleads env hv hcwd ((length_bareBuffer hlong).trans hlen) (.inr h1) h2
    rw [fillWithSwapFilter_eq _ _ _ _ hlong, hfill]
    simp only [Except.map, ne_eq, not_true_eq_false, if_false, if_pos hswap]
    exact ⟨out, rfl, htext⟩
  | dir hlong hmissing hleads =>
    have hbare : (bareBuffer buf).length = pathMax := (length_bareBuffer hlong).trans hlen
    have hparent : (parentBuffer v task.cwd buf).length = pathMax :=
      (length_getParentPath _).trans (length_absBuffer hbare)
    have hgone := @Missing.filled δ v task (fun k => task.alloc (k + 1)) _ hmissing env hv hcwd hbare
      (.inr h1) h2
    obtain ⟨out, hfill, htext⟩ := @LeadsTo.filled δ v task (fun k => task.alloc (k + 3)) _ _
      hleads env hv hcwd hparent (.inl (slash_parentBuffer hv hcwd buf)) h4
    rw [parentBuffer] at hfill
    rw [fillWithSwapFilter_eq _ _ _ _ hlong, hgone]
    simp only [Except.map, ne_eq, fail_ne_zero, not_false_eq_true, if_true]
    rw [if_neg (by decide), hfill]
    exact ⟨out, rfl, htext⟩

end

/-! ## What the list covers -/

/-- The path is itself on the list. -/
def PathListed (s : State) (path : List UInt8) : Prop :=
  ∃ e ∈ s.restrictPathList, e.path = cstr path

/-- The number of the file is recorded. -/
def NumberRecorded (s : State) (i : Inode) : Prop :=
  ∃ e ∈ s.restrictPathList, e.iIno = i.iIno

/-- The path is on the list, or leads to a file with a number that is recorded there. -/
def Covered (v : Vfs δ) (task : Task δ) (s : State) (path : List UInt8) : Prop :=
  PathListed s path ∨ ∃ i, targetInode v task path = some i ∧ NumberRecorded s i

/-- What is done about a covered text: a swap name is always denied, a file that is opened for
writing and a directory that is opened or gets a new name are denied when they exist. -/
def TextKind.Acts (v : Vfs δ) (task : Task δ) (flags : UInt32) (text : List UInt8) : TextKind → Prop
  | .file => opensForWriting flags = true ∧ ∃ i, targetInode v task text = some i
  | .dir => (opensToCreate flags = true ∨ opensForWriting flags = true) ∧
      ∃ i, targetInode v task text = some i
  | .swap => True

section
variable {v : Vfs δ} {task : Task δ} {flags : UInt32} {s : State}

theorem listCovers_iff {path : List UInt8} : ListCovers v task s path ↔ Covered v task s path := by
  rw [ListCovers, checkBlackList_eq_zero]
  constructor
  · rintro ⟨e, he, hpath | ⟨_, i, hi, hino⟩⟩
    · exact .inl ⟨e, he, hpath⟩
    · exact .inr ⟨i, hi, e, he, hino⟩
  · rintro (⟨e, he, hpath⟩ | ⟨i, hi, e, he, hino⟩)
    · exact ⟨e, he, .inl hpath⟩
    · exact ⟨e, he, .inr ⟨rfl, i, hi, hino⟩⟩

/-- Both depend on the string in the buffer only. -/
theorem targetInode_cstr (path : List UInt8) :
    targetInode v task (cstr path) = targetInode v task path := by
  rw [targetInode, targetInode, cstr_eq_self (zero_notMem_cstr path)]

theorem covered_cstr (path : List UInt8) : Covered v task s (cstr path) ↔ Covered v task s path := by
  rw [Covered, Covered, PathListed, PathListed, targetInode_cstr,
    cstr_eq_self (zero_notMem_cstr path)]

/-- The handler objects to a covered text, if something is to be done about it. -/
theorem objected_iff (kind : TextKind) (out : List UInt8) :
    (kind.fetched out).Objected v task flags s ↔
      Covered v task s (cstr out) ∧ kind.Acts v task flags (cstr out) := by
  rw [covered_cstr, ← listCovers_iff]
  cases kind with
  | file =>
    rw [TextKind.Acts, targetInode_cstr]
    exact Iff.rfl
  | dir =>
    rw [TextKind.Acts, targetInode_cstr]
    exact Iff.rfl
  | swap => exact ⟨fun h => ⟨h, trivial⟩, fun h => h.1⟩

/-- With an objection to a text the call is denied. -/
theorem verdict_denied {kind : TextKind} {out : List UInt8}
    (h : (kind.fetched out).Objected v task flags s) :
    ((kind.fetched out).verdict v task flags s).hookError = fail .eacces := by
  cases kind with
  | file =>
    obtain ⟨hcovers, hwrite, i, hi⟩ := h
    rw [ListCovers] at hcovers
    show (checkOpen v task flags out false false s).hookError = _
    rw [checkOpen, if_neg (not_not.mpr hcovers), Bool.false_and, if_neg (by decide),
      if_neg (by decide), if_pos hwrite, markAndDeny_found hi]
    rfl
  | dir =>
    obtain ⟨hcovers, hflags, i, hi⟩ := h
    rw [ListCovers] at hcovers
    show (checkOpen v task flags out true false s).hookError = _
    rw [checkOpen, if_neg (not_not.mpr hcovers), Bool.true_and, if_neg (by decide : ¬ false = true),
      markAndDeny_found hi]
    split
    · rfl
    · next hcreate =>
      rw [if_pos (hflags.resolve_left hcreate)]
      rfl
  | swap =>
    have hcovers : checkBlackList v task s out true = 0 := h
    show (checkOpen v task flags out false true s).hookError = _
    rw [checkOpen, if_neg (not_not.mpr hcovers), Bool.false_and, if_neg (by decide), if_pos rfl]
    rfl

end

end RefMonitor
