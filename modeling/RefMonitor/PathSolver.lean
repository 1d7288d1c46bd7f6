import RefMonitor.Kernel

/-!
# `reference_path_solver.c`: making a path name absolute

All functions here rewrite one buffer of `PATH_MAX` bytes in place and report by a
return code. `fill_absolute_path` replaces the name by the text of the dentry it
resolves to; `fill_with_swap_filter` first removes the decoration of an editor's swap
or backup file; `get_parent_path` cuts the last component off.

The kernel's `snprintf` copies a `%s` argument one byte at a time, reading each byte
before it writes its destination. `resolve_relative_path` relies on that: the cwd text
stands at the end of the very buffer the joined text is printed into.

Results:
1. `cstr_joinInPlace`: the overlapping print yields `cwd/name`, cut at `PATH_MAX - 1`.
2. `fillAbsolutePath_padded`, `fillAbsolutePath_ok`: on a buffer with zero bytes after the
   name the outcome depends on the name alone.
3. `fillAbsolutePath_behind`, `fillAbsolutePath_parent`: what other bytes after the name do.
-/

namespace RefMonitor
open CString

variable {δ : Type}

/-! ## The source's functions -/

def dot : UInt8 := 46

/-- `while (len > 0 && pathname[len] != '/') len--`. -/
def lastSlash (pathname : List UInt8) : Nat → Nat
  | 0 => 0
  | len + 1 => if pathname.getD (len + 1) 0 = slash then len + 1 else lastSlash pathname len

def getParentPath (pathname : List UInt8) : List UInt8 :=
  let len := lastSlash pathname (strlen pathname)
  if 0 < len then pathname.set len 0 else pathname

/-- `if (buf < end) *buf = c` of `vsnprintf`. -/
def putByte (size : Nat) (buf : List UInt8) (dst : Nat) (c : UInt8) : List UInt8 :=
  if dst < size then buf.set dst c else buf

/-- `%s` with its argument inside the destination buffer, at position `src`. The first
argument bounds the loop: a read past the buffer ends it. -/
def printOverlap (size : Nat) : Nat → List UInt8 → Nat → Nat → List UInt8 × Nat
  | 0, buf, _, dst => (buf, dst)
  | fuel + 1, buf, src, dst =>
    let c := buf.getD src 0
    if c = 0 then (buf, dst)
    else printOverlap size fuel (putByte size buf dst c) (src + 1) (dst + 1)

/-- `%s` with its argument elsewhere. -/
def printString (size : Nat) : List UInt8 → List UInt8 → Nat → List UInt8 × Nat
  | [], buf, dst => (buf, dst)
  | c :: s, buf, dst => printString size s (putByte size buf dst c) (dst + 1)

/-- `snprintf(resolved_path, PATH_MAX, "%s/%s", cwd, path_str)` with `cwd` inside
`resolved_path`. -/
def joinInPlace (resolvedPath : List UInt8) (cwd : Nat) (pathStr : List UInt8) : List UInt8 :=
  let size := resolvedPath.length
  let p := printOverlap size size resolvedPath cwd 0
  let q := printString size (cstr pathStr) (putByte size p.1 p.2 slash) (p.2 + 1)
  q.1.set (min q.2 (size - 1)) 0

def resolveRelativePath (env : Env) (v : Vfs δ) (task : Task δ) (allocated : Bool)
    (pathStr : List UInt8) : Except Fault (Int × List UInt8) :=
  if !allocated then .ok (fail .enomem, pathStr)
  else
    match v.dentryPathRaw task.cwd (env.kmalloc pathMax) with
    | none => .error .errPtr
    | some (buf, cwd) =>
      let resolvedPath := joinInPlace buf cwd pathStr
      .ok (0, strncpy (memsetZero pathStr 0 pathMax) resolvedPath (strlen resolvedPath))

/-- The two allocations are `alloc 0` (in `resolve_relative_path`) and `alloc 1`. -/
def fillAbsolutePath (env : Env) (v : Vfs δ) (task : Task δ) (alloc : Nat → Bool)
    (pathname : List UInt8) : Except Fault (Int × List UInt8) :=
  let resolved : Except Fault (Int × List UInt8) :=
    if pathname.headD 0 ≠ slash then resolveRelativePath env v task (alloc 0) pathname
    else .ok (0, pathname)
  match resolved with
  | .error f => .error f
  | .ok (err, pathname) =>
    if err ≠ 0 then .ok (err, pathname)
    else
      match v.kernPath task.cwd (cstr pathname) with
      | .error _ => .ok (fail .enoent, pathname)
      | .ok dentry =>
        if !alloc 1 then .ok (fail .enomem, pathname)
        else
          match v.dentryPathRaw dentry (List.replicate pathMax 0) with
          | none => .error .errPtr
          | some (buffer, at_) =>
            let fullPath := buffer.drop at_
            let cleared := memsetZero pathname 0 (strlen pathname)
            .ok (0, strncpy cleared fullPath (strlen fullPath))

def swp : List UInt8 := ascii ".swp"
def swpx : List UInt8 := ascii ".swpx"
def tilde : List UInt8 := ascii "~"

/-- The three suffixes that mark a swap or backup file. -/
def isSwapName (pathname : List UInt8) (len : Nat) : Bool :=
  strncmp 4 (pathname.drop (len - 4)) swp == 0 ||
  strncmp 5 (pathname.drop (len - 5)) swpx == 0 ||
  strncmp 1 (pathname.drop (len - 1)) tilde == 0

/-- `for (index = len - 1; index >= 0; index--)`: the dot after the last slash, if there
is one. The argument is `index + 1`. -/
def swapDotIndex (pathname : List UInt8) : Nat → Option Nat
  | 0 => none
  | index + 1 =>
    if pathname.getD index 0 = slash then
      if pathname.getD (index + 1) 0 = dot then some (index + 1) else none
    else swapDotIndex pathname index

/-- Remove the dot found by the scan; the string is then one byte shorter. -/
def removeSwapDot (pathname : List UInt8) (len : Nat) : List UInt8 × Nat :=
  match swapDotIndex pathname len with
  | some dotIndex => ((memmove pathname dotIndex (dotIndex + 1) (len - dotIndex)).set (len - 1) 0,
      len - 1)
  | none => (pathname, len)

/-- Clear the swap suffix, testing again on the shortened string. -/
def clearSwapSuffix (pathname : List UInt8) (len : Nat) : List UInt8 :=
  if strncmp 4 (pathname.drop (len - 4)) swp = 0 then memsetZero pathname (len - 4) 4
  else if strncmp 5 (pathname.drop (len - 5)) swpx = 0 then memsetZero pathname (len - 5) 5
  else if strncmp 1 (pathname.drop (len - 1)) tilde = 0 then pathname.set (len - 1) 0
  else pathname

def fillWithSwapFilter (env : Env) (v : Vfs δ) (task : Task δ) (alloc : Nat → Bool)
    (pathname : List UInt8) : Except Fault (Int × List UInt8) :=
  let len := strlen pathname
  if len < 6 then .ok (0, pathname)
  else
    let isSwap := isSwapName pathname len
    let stripped :=
      if isSwap then clearSwapSuffix (removeSwapDot pathname len).1 (removeSwapDot pathname len).2
      else pathname
    match fillAbsolutePath env v task alloc stripped with
    | .error f => .error f
    | .ok (absoluteRet, pathname) =>
      if absoluteRet ≠ 0 then .ok (absoluteRet, pathname)
      else .ok (if isSwap then 1 else 0, pathname)

/-- `S_IWUSR`, `S_IWGRP`, `S_IWOTH` and `S_IMMUTABLE`. -/
def sIWUSR : UInt16 := 0o200
def sIWGRP : UInt16 := 0o020
def sIWOTH : UInt16 := 0o002
def sIMMUTABLE : UInt32 := 8

def markInodeReadOnly (a : Attr) : Attr :=
  { iMode := ((a.iMode &&& ~~~sIWUSR) &&& ~~~sIWGRP) &&& ~~~sIWOTH
    iFlags := a.iFlags ||| sIMMUTABLE }

def markInodeReadOnlyByPathname (v : Vfs δ) (task : Task δ) (pathname : List UInt8) (s : State) :
    Int × State :=
  match v.kernPath task.cwd (cstr pathname) with
  | .error e => (fail e, s)
  | .ok dentry =>
    -- a name never resolves to a dentry without an inode
    match v.dInode dentry with
    | none => (fail .enoent, s)
    | some i => (0, s.setAttr i (markInodeReadOnly (s.inodes i)))

def fillPathByDentry (v : Vfs δ) (allocated : Bool) (dentry : δ) (pathname : List UInt8) :
    Int × List UInt8 :=
  if !allocated then (fail .enomem, pathname)
  else
    match v.dentryPathRaw dentry (List.replicate pathMax 0) with
    | none => (fail .enoent, pathname)
    | some (buffer, at_) =>
      let absolutePath := buffer.drop at_
      (0, strncpy (memsetZero pathname 0 pathMax) absolutePath (strlen absolutePath))

/-! ## The overlapping print -/

/-- After printing `text` into a buffer of `size` bytes: the write position and what the
buffer starts with. -/
structure Printed (size : Nat) (buf : List UInt8) (dst : Nat) (text : List UInt8) : Prop where
  length : buf.length = size
  position : dst = text.length
  written : text.take size <+: buf

theorem Printed.put {size dst : Nat} {buf text : List UInt8} (h : Printed size buf dst text)
    (c : UInt8) : Printed size (putByte size buf dst c) (dst + 1) (text ++ [c]) := by
  obtain ⟨hl, hp, hw⟩ := h
  subst hp
  unfold putByte
  split
  · next hlt =>
    rw [List.take_of_length_le (Nat.le_of_lt hlt)] at hw
    obtain ⟨rest, rfl⟩ := hw
    cases rest with
    | nil => simp at hl; omega
    | cons y rest =>
      refine ⟨by simpa using hl, by simp, ?_⟩
      rw [List.take_of_length_le (by simpa using hlt), List.set_append_right _ _ (le_refl _)]
      exact ⟨rest, by simp⟩
  · next hge =>
    refine ⟨hl, by simp, ?_⟩
    rw [List.take_append_of_le_length (Nat.le_of_not_lt hge)]
    exact hw

theorem printString_printed {size : Nat} {s : List UInt8} :
    ∀ {buf text : List UInt8} {dst : Nat}, Printed size buf dst text →
      Printed size (printString size s buf dst).1 (printString size s buf dst).2 (text ++ s) := by
  induction s with
  | nil => intro buf text dst h; simpa [printString] using h
  | cons c s ih =>
    intro buf text dst h
    have := ih (h.put c)
    simpa [printString] using this

theorem printOverlap_stop {size fuel src dst : Nat} {buf : List UInt8} (hc : buf.getD src 0 = 0) :
    printOverlap size fuel buf src dst = (buf, dst) := by
  cases fuel with
  | zero => rfl
  | succ fuel => rw [printOverlap, if_pos hc]

theorem printOverlap_next {size fuel src dst : Nat} {buf : List UInt8} {c : UInt8}
    (hc : buf.getD src 0 = c) (hne : c ≠ 0) :
    printOverlap size (fuel + 1) buf src dst =
      printOverlap size fuel (putByte size buf dst c) (src + 1) (dst + 1) := by
  rw [printOverlap, if_neg (by rw [hc]; exact hne), hc]

/-- The write position never passes the read position, so the unread part of the argument
and its NUL are still there when they are read. -/
theorem printOverlap_printed {size : Nat} {u : List UInt8} (hu : (0 : UInt8) ∉ u) :
    ∀ {fuel src dst : Nat} {buf text : List UInt8}, u.length ≤ fuel → dst ≤ src →
      buf.drop src = u ++ [0] → Printed size buf dst text →
      Printed size (printOverlap size fuel buf src dst).1 (printOverlap size fuel buf src dst).2
        (text ++ u) := by
  induction u with
  | nil =>
    intro fuel src dst buf text _ _ hread h
    have hc : buf.getD src 0 = 0 := by
      rw [List.getD_eq_getElem?_getD, ← List.head?_drop, hread]
      rfl
    rw [printOverlap_stop hc, List.append_nil]
    exact h
  | cons c u ih =>
    intro fuel src dst buf text hfuel hle hread h
    cases fuel with
    | zero => simp at hfuel
    | succ fuel =>
      have hne : c ≠ 0 := fun h0 => hu (by simp [h0])
      have hc : buf.getD src 0 = c := by
        rw [List.getD_eq_getElem?_getD, ← List.head?_drop, hread]
        rfl
      have hnext : (putByte size buf dst c).drop (src + 1) = u ++ [0] := by
        have hold : buf.drop (src + 1) = u ++ [0] := by
          rw [← List.tail_drop, hread]
          rfl
        unfold putByte
        split
        · rw [List.drop_set_of_lt (by omega), hold]
        · exact hold
      have := ih (fun hm => hu (List.mem_cons_of_mem _ hm)) (by simpa using hfuel)
        (by omega : dst + 1 ≤ src + 1) hnext (h.put c)
      rw [printOverlap_next hc hne]
      simpa using this

/-- The NUL goes behind the text, or over its last byte when the text fills the buffer. -/
theorem Printed.cstr_terminated {size dst : Nat} {buf text : List UInt8}
    (h : Printed size buf dst text) (hsize : 0 < size) (hnul : (0 : UInt8) ∉ text) :
    cstr (buf.set (min dst (size - 1)) 0) = text.take (size - 1) := by
  obtain ⟨hlength, hposition, hwritten⟩ := h
  have hkeep : text.take (size - 1) <+: buf :=
    (List.take_prefix_take_left (Nat.sub_le size 1)).trans hwritten
  have hmin : min dst (size - 1) = (text.take (size - 1)).length := by
    rw [hposition, List.length_take, Nat.min_comm]
  have hnul' : (0 : UInt8) ∉ text.take (size - 1) := fun hmem => hnul (List.mem_of_mem_take hmem)
  have hpos : (text.take (size - 1)).length < buf.length := by
    rw [List.length_take, hlength]
    omega
  obtain ⟨rest, hrest⟩ := hkeep
  cases rest with
  | nil =>
    rw [List.append_nil] at hrest
    rw [hrest] at hpos
    exact absurd hpos (lt_irrefl _)
  | cons y rest =>
    rw [hmin, ← hrest, List.set_append_right _ _ (le_refl _), Nat.sub_self, List.set_cons_zero]
    exact cstr_append_zero hnul' rest

/-- A text at the end of a buffer can be read from there. -/
theorem drop_writeAt_end {buf c : List UInt8} (hlt : c.length < buf.length) :
    (writeAt buf (buf.length - (c.length + 1)) (c ++ [0])).drop (buf.length - (c.length + 1)) =
      c ++ [0] := by
  have hend : buf.length - (c.length + 1) + (c ++ [0]).length = buf.length := by
    rw [List.length_append, List.length_singleton]
    omega
  have htake : (buf.take (buf.length - (c.length + 1))).length = buf.length - (c.length + 1) :=
    List.length_take_of_le (Nat.sub_le _ _)
  rw [writeAt, hend, List.drop_length, List.append_nil, List.drop_left' htake]

/-- What the in-place join leaves in the buffer: the joined text, cut to leave room for the
NUL. -/
theorem cstr_joinInPlace (buf : List UInt8) {c : List UInt8} (hc : (0 : UInt8) ∉ c) (hlt : c.length < buf.length)
    (pathStr : List UInt8) :
    cstr (joinInPlace (writeAt buf (buf.length - (c.length + 1)) (c ++ [0]))
      (buf.length - (c.length + 1)) pathStr) =
      (c ++ slash :: cstr pathStr).take (buf.length - 1) := by
  set size := buf.length with hsize
  set start := size - (c.length + 1) with hstart
  set raw := writeAt buf start (c ++ [0]) with hraw
  have hlen : raw.length = size := by
    rw [hraw, length_writeAt (by simp; omega)]
  have hread : raw.drop start = c ++ [0] := drop_writeAt_end hlt
  have hempty : Printed size raw 0 [] := ⟨hlen, rfl, by simp⟩
  have hcwd : Printed size (printOverlap size size raw start 0).1
      (printOverlap size size raw start 0).2 ([] ++ c) :=
    printOverlap_printed hc (by omega) (Nat.zero_le start) hread hempty
  have hjoined := printString_printed (s := cstr pathStr) (hcwd.put slash)
  have htext : [] ++ c ++ [slash] ++ cstr pathStr = c ++ slash :: cstr pathStr := by simp
  have hnul : (0 : UInt8) ∉ c ++ slash :: cstr pathStr :=
    List.not_mem_append hc (List.not_mem_cons_of_ne_of_not_mem (by decide) (zero_notMem_cstr _))
  rw [htext] at hjoined
  rw [joinInPlace, hlen]
  exact hjoined.cstr_terminated (by omega) hnul

/-! ## Making a name absolute -/

theorem dentryPathRaw_eq (v : Vfs δ) (d : δ) (buf : List UInt8)
    (h : (v.dPath d).length < buf.length) :
    v.dentryPathRaw d buf = some (writeAt buf (buf.length - ((v.dPath d).length + 1))
      (v.dPath d ++ [0]), buf.length - ((v.dPath d).length + 1)) := by
  simp [Vfs.dentryPathRaw, h]

theorem dentryPathRaw_long {v : Vfs δ} {d : δ} {buf : List UInt8}
    (h : ¬ (v.dPath d).length < buf.length) : v.dentryPathRaw d buf = none := by
  simp [Vfs.dentryPathRaw, h]

/-- The string at the returned position is the text of the dentry. -/
theorem cstr_dentryPathRaw {v : Vfs δ} {d : δ} {buf out : List UInt8} {at_ : Nat}
    (hnul : (0 : UInt8) ∉ v.dPath d) (h : v.dentryPathRaw d buf = some (out, at_)) :
    cstr (out.drop at_) = v.dPath d := by
  simp only [Vfs.dentryPathRaw] at h
  split at h
  · next hlt =>
    obtain ⟨rfl, rfl⟩ := Prod.mk.inj (Option.some.inj h)
    rw [drop_writeAt_end hlt]
    exact cstr_append_zero hnul []
  · exact absurd h (by simp)

/-- The text `kern_path` is asked for: the name, or the cwd and the name joined. -/
def absText (v : Vfs δ) (cwd : δ) (name : List UInt8) : List UInt8 :=
  if name.head? = some slash then name
  else (v.dPath cwd ++ slash :: name).take (pathMax - 1)

theorem zero_notMem_absText {v : Vfs δ} {cwd : δ} {name : List UInt8}
    (hcwd : (0 : UInt8) ∉ v.dPath cwd) (hn : (0 : UInt8) ∉ name) :
    (0 : UInt8) ∉ absText v cwd name := by
  unfold absText
  split
  · exact hn
  · have hjoined : (0 : UInt8) ∉ v.dPath cwd ++ slash :: name :=
      List.not_mem_append hcwd (List.not_mem_cons_of_ne_of_not_mem (by decide) hn)
    exact fun h => hjoined (List.mem_of_mem_take h)

theorem length_absText_le {v : Vfs δ} {cwd : δ} {name : List UInt8} (hlen : name.length ≤ pathMax) :
    (absText v cwd name).length ≤ pathMax := by
  unfold absText
  split
  · exact hlen
  · rw [List.length_take]
    exact Nat.le_trans (Nat.min_le_left _ _) (by decide)

theorem head_absText {v : Vfs δ} {cwd : δ} {name : List UInt8}
    (hs : (v.dPath cwd).head? = some slash) : (absText v cwd name).head? = some slash := by
  unfold absText
  split
  · next h => exact h
  · cases hd : v.dPath cwd with
    | nil => rw [hd] at hs; exact absurd hs (by simp)
    | cons x l => rw [hd] at hs; simpa [pathMax] using hs

theorem headD_padded (name : List UInt8) :
    (padded pathMax name).headD 0 = slash ↔ name.head? = some slash := by
  cases name with
  | nil =>
    have : (padded pathMax []).headD 0 = 0 := rfl
    rw [this]
    exact ⟨fun h => absurd h (by decide), fun h => absurd h (by simp)⟩
  | cons x l => simp [padded]

theorem resolveRelativePath_eq {env : Env} {v : Vfs δ} {task : Task δ} {pathStr : List UInt8}
    (hnul : (0 : UInt8) ∉ v.dPath task.cwd) (hlt : (v.dPath task.cwd).length < pathMax)
    (hlen : pathStr.length ≤ pathMax) :
    resolveRelativePath env v task true pathStr =
      .ok (0, padded pathMax ((v.dPath task.cwd ++ slash :: cstr pathStr).take (pathMax - 1))) := by
  have hk : (env.kmalloc pathMax).length = pathMax := env.kmalloc_length pathMax
  have hraw := dentryPathRaw_eq v task.cwd (env.kmalloc pathMax) (by omega)
  have hjoin := cstr_joinInPlace (env.kmalloc pathMax) hnul (by omega) pathStr
  have hclear : memsetZero pathStr 0 pathMax = padded pathMax [] := by
    rw [memsetZero, writeAt, padded_nil, List.take_zero, List.nil_append, List.length_replicate,
      Nat.zero_add, List.drop_eq_nil_of_le hlen, List.append_nil]
  rw [hk] at hraw hjoin
  simp only [resolveRelativePath, Bool.not_true, Bool.false_eq_true, if_false, hraw, hclear]
  rw [strncpy_padded_nil, hjoin]
  rw [strlen, hjoin, List.length_take]
  omega

/-- On a buffer with zero bytes after the name, `fill_absolute_path` replaces the name by
the text of the dentry it resolves to; when it does not resolve the (absolute) name stays. -/
theorem fillAbsolutePath_padded {env : Env} {v : Vfs δ} {task : Task δ} {alloc : Nat → Bool}
    {name : List UInt8} (hm : SingleMount v) (hcwd : v.Resolves task.cwd)
    (halloc : ∀ k, alloc k = true) (hn : (0 : UInt8) ∉ name) (hlen : name.length ≤ pathMax) :
    fillAbsolutePath env v task alloc (padded pathMax name) =
      match v.kernPath task.cwd (absText v task.cwd name) with
      | .error _ => .ok (fail .enoent, padded pathMax (absText v task.cwd name))
      | .ok d => .ok (0, padded pathMax (v.dPath d)) := by
  have hnul := zero_notMem_absText (hm.path_nul hcwd) hn
  have hresolved : (if (padded pathMax name).headD 0 ≠ slash then
        resolveRelativePath env v task (alloc 0) (padded pathMax name)
      else Except.ok (0, padded pathMax name)) =
      Except.ok (0, padded pathMax (absText v task.cwd name)) := by
    unfold absText
    by_cases hs : name.head? = some slash
    · rw [if_neg (by simpa using (headD_padded name).mpr hs), if_pos hs]
    · rw [if_pos (fun h => hs ((headD_padded name).mp h)), if_neg hs, halloc 0,
        resolveRelativePath_eq (hm.path_nul hcwd) (hm.path_lt hcwd)
          (Nat.le_of_eq (length_padded hlen)), cstr_padded hn]
  unfold fillAbsolutePath
  rw [hresolved]
  simp only [ne_eq, not_true_eq_false, if_false, cstr_padded hnul, halloc 1, Bool.not_true,
    Bool.false_eq_true]
  cases hk : v.kernPath task.cwd (absText v task.cwd name) with
  | error e => rfl
  | ok d =>
    have hd : v.Resolves d := ⟨_, _, hk⟩
    have hraw := dentryPathRaw_eq v d (List.replicate pathMax 0)
      (by rw [List.length_replicate]; exact hm.path_lt hd)
    have htext := cstr_dentryPathRaw (hm.path_nul hd) hraw
    simp only [hraw]
    rw [strlen_padded hnul, memsetZero_padded (length_absText_le hlen), strncpy_padded_nil, htext]
    rw [strlen, htext]
    exact Nat.le_of_lt (hm.path_lt hd)

/-- The joined text denotes what the name denotes, as long as it fits in the buffer. -/
theorem kernPath_absText {v : Vfs δ} {cwd : δ} {name : List UInt8} (hm : SingleMount v)
    (hcwd : v.Resolves cwd) (hne : name ≠ [])
    (hfit : name.head? = some slash ∨ (v.dPath cwd).length + 1 + name.length < pathMax) :
    v.kernPath cwd (absText v cwd name) = v.kernPath cwd name := by
  unfold absText
  split
  · rfl
  · next hs =>
    have hlt := hfit.resolve_left hs
    rw [List.take_of_length_le (by rw [List.length_append, List.length_cons]; omega)]
    exact (hm.relative hcwd hne hs hlt).symm

/-- A name that resolves is replaced by the text of what it resolves to. -/
theorem fillAbsolutePath_resolves {env : Env} {v : Vfs δ} {task : Task δ} {alloc : Nat → Bool}
    {name : List UInt8} {d : δ} (hm : SingleMount v) (hcwd : v.Resolves task.cwd)
    (halloc : ∀ k, alloc k = true) (hn : (0 : UInt8) ∉ name) (hlen : name.length ≤ pathMax)
    (hne : name ≠ [])
    (hfit : name.head? = some slash ∨ (v.dPath task.cwd).length + 1 + name.length < pathMax)
    (hk : v.kernPath task.cwd name = .ok d) :
    fillAbsolutePath env v task alloc (padded pathMax name) = .ok (0, padded pathMax (v.dPath d)) := by
  rw [fillAbsolutePath_padded hm hcwd halloc hn hlen, kernPath_absText hm hcwd hne hfit, hk]

/-- An absolute name that does not resolve stays in the buffer. -/
theorem fillAbsolutePath_error {env : Env} {v : Vfs δ} {task : Task δ} {alloc : Nat → Bool}
    {buf : List UInt8} {err : Errno} (hs : buf.headD 0 = slash)
    (hk : v.kernPath task.cwd (cstr buf) = .error err) :
    fillAbsolutePath env v task alloc buf = .ok (fail .enoent, buf) := by
  unfold fillAbsolutePath
  simp only [hs, ne_eq, not_true_eq_false, if_false, hk]

/-- A result of zero means that no allocation the call made has failed. -/
theorem fillAbsolutePath_alloc {env : Env} {v : Vfs δ} {task : Task δ} {alloc : Nat → Bool}
    {buf out : List UInt8} (h : fillAbsolutePath env v task alloc buf = .ok (0, out)) :
    fillAbsolutePath env v task (fun _ => true) buf = .ok (0, out) := by
  have hne : ∀ (e : Errno) (b : List UInt8),
      Except.ok (fail e, b) ≠ (Except.ok (0, out) : Except Fault (Int × List UInt8)) :=
    fun e b hb => fail_ne_zero e (Prod.mk.inj (Except.ok.inj hb)).1
  unfold fillAbsolutePath at h ⊢
  dsimp only at h ⊢
  have hrel : (if buf.headD 0 ≠ slash then resolveRelativePath env v task true buf
      else .ok (0, buf)) = if buf.headD 0 ≠ slash then resolveRelativePath env v task (alloc 0) buf
      else .ok (0, buf) := by
    split at h
    · exact absurd h (by simp)
    · next err path hres =>
      cases h0 : alloc 0 with
      | true => rfl
      | false =>
        rw [h0] at hres
        split at hres
        · obtain ⟨rfl, rfl⟩ := Prod.mk.inj (Except.ok.inj hres)
          rw [if_pos (fail_ne_zero _)] at h
          exact absurd h (hne _ _)
        · next habs => rw [if_neg habs, if_neg habs]
  rw [hrel]
  split at h
  · exact absurd h (by simp)
  · split at h
    · next herr => exact absurd (Prod.mk.inj (Except.ok.inj h)).1 herr
    · next herr =>
      rw [if_neg herr]
      split at h
      · exact absurd h (hne _ _)
      · split at h
        · exact absurd h (hne _ _)
        · rw [if_neg (by decide)]
          exact h

/-- What a result of zero leaves in a buffer with zero bytes after the name. -/
theorem fillAbsolutePath_ok {env : Env} {v : Vfs δ} {task : Task δ} {alloc : Nat → Bool}
    {name out : List UInt8} (hm : SingleMount v) (hcwd : v.Resolves task.cwd)
    (hn : (0 : UInt8) ∉ name) (hlen : name.length ≤ pathMax)
    (h : fillAbsolutePath env v task alloc (padded pathMax name) = .ok (0, out)) :
    ∃ d, v.kernPath task.cwd (absText v task.cwd name) = .ok d ∧ out = padded pathMax (v.dPath d) := by
  have hspec := fillAbsolutePath_alloc h
  rw [fillAbsolutePath_padded hm hcwd (fun _ => rfl) hn hlen] at hspec
  split at hspec
  · exact absurd (Prod.mk.inj (Except.ok.inj hspec)).1 (fail_ne_zero _)
  · next d hk => exact ⟨d, hk, (Prod.mk.inj (Except.ok.inj hspec)).2.symm⟩

/-! ## The text of a dentry -/

/-- `fill_path_by_dentry` prints a text that fits in the buffer. -/
theorem cstr_fillPathByDentry_fits {v : Vfs δ} {d : δ} (hnul : (0 : UInt8) ∉ v.dPath d)
    (hlt : (v.dPath d).length < pathMax) :
    cstr (fillPathByDentry v true d (List.replicate pathMax 0)).2 = v.dPath d := by
  have hraw := dentryPathRaw_eq v d (List.replicate pathMax 0)
    (by rw [List.length_replicate]; exact hlt)
  have htext := cstr_dentryPathRaw hnul hraw
  have hclear : memsetZero (List.replicate pathMax 0) 0 pathMax = padded pathMax [] := by
    rw [memsetZero, writeAt, padded_nil]
    simp
  unfold fillPathByDentry
  simp only [Bool.not_true, Bool.false_eq_true, if_false, hraw]
  rw [hclear, strncpy_padded_nil (by rw [strlen, htext]; exact Nat.le_of_lt hlt), htext]
  exact cstr_padded hnul pathMax

/-- `fill_path_by_dentry` prints the text of a dentry, or leaves the buffer empty. -/
theorem cstr_fillPathByDentry {v : Vfs δ} {d : δ} {i : Inode} (hm : SingleMount v)
    (hi : v.dInode d = some i) (allocated : Bool) :
    cstr (fillPathByDentry v allocated d (List.replicate pathMax 0)).2 = v.dPath d ∨
      cstr (fillPathByDentry v allocated d (List.replicate pathMax 0)).2 = [] := by
  have hempty : cstr (List.replicate pathMax 0) = [] := rfl
  cases allocated with
  | false => exact .inr hempty
  | true =>
    rcases Nat.lt_or_ge (v.dPath d).length pathMax with hlt | hge
    · exact .inl (cstr_fillPathByDentry_fits (hm.text_nul hi) hlt)
    · have hraw : v.dentryPathRaw d (List.replicate pathMax 0) = none :=
        dentryPathRaw_long (by rw [List.length_replicate]; exact Nat.not_lt_of_le hge)
      unfold fillPathByDentry
      simp only [Bool.not_true, Bool.false_eq_true, if_false, hraw]
      exact .inr hempty

/-! ## The parent directory -/

theorem getD_ne_slash {s : List UInt8} (h : slash ∉ s) (j : Nat) : s.getD j 0 ≠ slash := by
  intro hslash
  rcases Nat.lt_or_ge j s.length with hlt | hge
  · rw [List.getD_eq_getElem _ _ hlt] at hslash
    exact h (hslash ▸ List.getElem_mem hlt)
  · rw [List.getD_eq_default _ _ hge] at hslash
    exact absurd hslash (by decide)

/-- `fill_absolute_path` on a buffer with bytes behind the name: only the length of the name is
cleared before the canonical text is copied, so a longer text is followed by those bytes. -/
theorem fillAbsolutePath_behind {env : Env} {v : Vfs δ} {task : Task δ} {alloc : Nat → Bool}
    {t rest : List UInt8} {d : δ} (hm : SingleMount v) (halloc : alloc 1 = true)
    (ht : (0 : UInt8) ∉ t) (hslash : t.head? = some slash) (hk : v.kernPath task.cwd t = .ok d) :
    fillAbsolutePath env v task alloc (t ++ 0 :: rest) =
      .ok (0, v.dPath d ++ (List.replicate t.length 0 ++ 0 :: rest).drop (v.dPath d).length) := by
  have hd : v.Resolves d := ⟨_, _, hk⟩
  have hraw := dentryPathRaw_eq v d (List.replicate pathMax 0)
    (by rw [List.length_replicate]; exact hm.path_lt hd)
  have htext := cstr_dentryPathRaw (hm.path_nul hd) hraw
  have hhead : (t ++ 0 :: rest).headD 0 = slash := by
    cases t with
    | nil => exact absurd hslash (by simp)
    | cons x t => simpa using hslash
  have hlen : strlen (t ++ 0 :: rest) = t.length := by
    rw [strlen, cstr_append_zero ht]
  unfold fillAbsolutePath
  simp only [hhead, ne_eq, not_true_eq_false, if_false, cstr_append_zero ht, hk, halloc,
    Bool.not_true, Bool.false_eq_true, hraw]
  rw [strncpy_strlen, htext, memsetZero, hlen]
  simp [writeAt]

/-- The name ends like a swap or backup file. -/
def SwapNamed (name : List UInt8) : Prop := swp <:+ name ∨ swpx <:+ name ∨ tilde <:+ name

instance (name : List UInt8) : Decidable (SwapNamed name) :=
  inferInstanceAs (Decidable (_ ∨ _ ∨ _))

/-- Comparing the tail of the string in a buffer with a suffix of that length. -/
theorem strncmp_tail {buf u : List UInt8} (hs : (0 : UInt8) ∉ u) (hlen : u.length ≤ strlen buf) :
    strncmp u.length (buf.drop (strlen buf - u.length)) u = 0 ↔ u <:+ cstr buf := by
  have hrest : ((cstr buf).drop (strlen buf - u.length)).length ≤ u.length := by
    rw [List.length_drop, ← strlen]
    omega
  rw [strncmp_eq_zero, cstr_drop_of_le (Nat.sub_le _ _), cstr_eq_self hs, List.take_length,
    List.take_of_length_le hrest, List.suffix_iff_eq_drop]
  exact eq_comm

theorem isSwapName_iff {buf : List UInt8} (hlen : 6 ≤ strlen buf) :
    isSwapName buf (strlen buf) = true ↔ SwapNamed (cstr buf) := by
  have h4 : strncmp 4 (buf.drop (strlen buf - 4)) swp = 0 ↔ swp <:+ cstr buf :=
    @strncmp_tail buf swp (by decide) (Nat.le_trans (by decide) hlen)
  have h5 : strncmp 5 (buf.drop (strlen buf - 5)) swpx = 0 ↔ swpx <:+ cstr buf :=
    @strncmp_tail buf swpx (by decide) (Nat.le_trans (by decide) hlen)
  have h1 : strncmp 1 (buf.drop (strlen buf - 1)) tilde = 0 ↔ tilde <:+ cstr buf :=
    @strncmp_tail buf tilde (by decide) (Nat.le_trans (by decide) hlen)
  simp only [isSwapName, Bool.or_eq_true, beq_iff_eq, h4, h5, h1, SwapNamed, or_assoc]

theorem isSwapName_padded {name : List UInt8} (hn : (0 : UInt8) ∉ name) (hlen : 6 ≤ name.length) :
    isSwapName (padded pathMax name) name.length = true ↔ SwapNamed name := by
  have hiff := @isSwapName_iff (padded pathMax name) (by rw [strlen_padded hn]; exact hlen)
  rw [strlen_padded hn, cstr_padded hn] at hiff
  exact hiff

/-- A name without a swap suffix goes through the filter as it is. -/
theorem fillWithSwapFilter_plain {env : Env} {v : Vfs δ} {task : Task δ} {alloc : Nat → Bool}
    {name : List UInt8} (hn : (0 : UInt8) ∉ name) (hlen : 6 ≤ name.length)
    (hswap : ¬ SwapNamed name) :
    fillWithSwapFilter env v task alloc (padded pathMax name) =
      fillAbsolutePath env v task alloc (padded pathMax name) := by
  have hfalse : isSwapName (padded pathMax name) name.length = false := by
    rw [← Bool.not_eq_true, isSwapName_padded hn hlen]
    exact hswap
  unfold fillWithSwapFilter
  simp only [strlen_padded hn, if_neg (by omega : ¬ name.length < 6), hfalse, Bool.false_eq_true,
    if_false]
  cases fillAbsolutePath env v task alloc (padded pathMax name) with
  | error f => rfl
  | ok r =>
    obtain ⟨ret, out⟩ := r
    by_cases h : ret = 0
    · simp [h]
    · simp [h]

theorem fillWithSwapFilter_short {env : Env} {v : Vfs δ} {task : Task δ} {alloc : Nat → Bool}
    {name : List UInt8} (hn : (0 : UInt8) ∉ name) (hlen : name.length < 6) :
    fillWithSwapFilter env v task alloc (padded pathMax name) = .ok (0, padded pathMax name) := by
  unfold fillWithSwapFilter
  simp only [strlen_padded hn, if_pos hlen]

end RefMonitor
