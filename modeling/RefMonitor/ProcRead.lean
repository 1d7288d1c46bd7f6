import RefMonitor.Defer
import RefMonitor.Mediation
import RefMonitor.NameTable
import RefMonitor.PathBasedSyscall

/-!
# `syscall_proc_read`: the list as text

A read of the access point prints the whole restrict list into a fresh buffer, one line for each
entry, and copies the piece at the file offset to the reader. The offset is that of an earlier
call, and may lie behind the text of this one: the list has become shorter, or the reader used
`pread`. `written - *off` is then below zero, and as a `size_t` larger than any length.

Results:
1. `renderList_holds`: what the loop over the list leaves in the buffer.
2. `toCopy_inside`, `toCopy_behind`: the amount copied, without the conversions.
3. `read_rendered_iff`: the reads that stay inside the text.
4. `stale_offset_leaks`: a reader behind the end of the text.
-/

namespace RefMonitor
open CString

variable {δ : Type}

/-! ## The loop over the list -/

/-- `"(i=%d, path=%s)\n"`. -/
def entryLine (i : Nat) (entry : RcuRestrict) : List UInt8 :=
  ascii "(i=" ++ printD (UInt32.ofNat i) ++ ascii ", path=" ++ entry.path ++ ascii ")\n"

/-- `temp_buffer` and `written`. -/
structure Rendering where
  tempBuffer : List UInt8
  written : Nat

def renderEntry (i : Nat) (entry : RcuRestrict) (r : Rendering) : Rendering :=
  let (buf, n) := scnprintf r.tempBuffer r.written (pathMax - r.written) (entryLine i entry)
  { tempBuffer := buf, written := r.written + n }

/-- `list_for_each_entry_rcu`; `i` counts the entries that are printed. -/
def renderList : Nat → List RcuRestrict → Rendering → Rendering
  | _, [], r => r
  | i, entry :: entries, r =>
    if r.written < pathMax then renderList (i + 1) entries (renderEntry i entry r)
    else renderList i entries r

/-- The lines of all entries. -/
def listText : Nat → List RcuRestrict → List UInt8
  | _, [] => []
  | i, entry :: entries => entryLine i entry ++ listText (i + 1) entries

/-- The buffer starts with the text, as far as it fits before the last byte. -/
structure Rendering.Holds (r : Rendering) (text : List UInt8) : Prop where
  length : r.tempBuffer.length = pathMax
  written : r.written = min text.length (pathMax - 1)
  text : r.tempBuffer.take r.written = text.take (pathMax - 1)

theorem Rendering.Holds.lt {r : Rendering} {text : List UInt8} (h : r.Holds text) :
    r.written < pathMax := by
  rw [h.written]
  exact Nat.lt_of_le_of_lt (Nat.min_le_right ..) (by decide)

theorem Rendering.Holds.renderEntry {r : Rendering} {text : List UInt8} (h : r.Holds text) (i : Nat)
    (entry : RcuRestrict) : (renderEntry i entry r).Holds (text ++ entryLine i entry) := by
  have hlt := h.lt
  have hwritten := h.written
  have hsize : pathMax - r.written ≠ 0 := Nat.sub_ne_zero_of_lt hlt
  -- the room left for this line, counted from the start of the text
  have hroom : pathMax - r.written - 1 = pathMax - 1 - text.length := by omega
  unfold RefMonitor.renderEntry scnprintf
  rw [if_neg hsize, hroom]
  refine ⟨?_, ?_, ?_⟩
  · dsimp only
    rw [length_writeAt, h.length]
    rw [List.length_append, List.length_take, List.length_singleton, h.length]
    omega
  · dsimp only
    rw [List.length_take, List.length_append]
    omega
  · dsimp only
    rw [take_writeAt (by rw [h.length]; exact Nat.le_of_lt hlt), h.text, List.take_append]

/-- The text in the buffer does not depend on what the buffer held. -/
theorem renderList_holds {entries : List RcuRestrict} :
    ∀ {i : Nat} {r : Rendering} {text : List UInt8}, r.Holds text →
      (renderList i entries r).Holds (text ++ listText i entries) := by
  induction entries with
  | nil =>
    intro i r text h
    rw [listText, List.append_nil]
    exact h
  | cons entry entries ih =>
    intro i r text h
    rw [renderList, if_pos h.lt, listText, ← List.append_assoc]
    exact ih (h.renderEntry i entry)

/-! ## The read -/

/-- A call, with a length the VFS passes on. `room` is how many bytes at `buff` can be
written. -/
structure ReadCall where
  len : Nat
  len_le : len ≤ maxRwCount
  off : Nat
  room : Nat

/-- The return value, the offset afterwards, and the positions of `temp_buffer` whose bytes were
copied to the reader. -/
structure ReadResult where
  ret : Int
  off : Nat
  tempBuffer : List UInt8
  copied : List Nat

/-- `(size_t)(a - b)`. -/
def sizeDiff (a b : Nat) : Nat := (((a : Int) - b) % (2 ^ 64 : Nat)).toNat

/-- A `size_t` stored into an `int`. -/
def toInt32 (n : Nat) : Int := Int.bmod n (2 ^ 32)

/-- `to_copy = min(len, (size_t)(written - *off))`. -/
def toCopy (len written off : Nat) : Int := toInt32 (min len (sizeDiff written off))

/-- How many bytes `copy_to_user` copies. A negative `to_copy` becomes a length it refuses. -/
def userCopied (amount : Int) (room : Nat) : Nat := min amount.toNat room

/-- `task.alloc 6` is the buffer. -/
def syscallProcRead (env : Env) (task : Task δ) (call : ReadCall) (s : State) : ReadResult :=
  let tempBuffer := env.kmalloc pathMax
  if !task.alloc 6 then { ret := fail .enomem, off := call.off, tempBuffer := [], copied := [] }
  else if pathMax ≤ call.off then
    { ret := 0, off := call.off, tempBuffer := tempBuffer, copied := [] }
  else
    let r := renderList 0 s.restrictPathList { tempBuffer := tempBuffer, written := 0 }
    let copied := userCopied (toCopy call.len r.written call.off) call.room
    { ret := copied, off := call.off + copied, tempBuffer := r.tempBuffer
      copied := List.range' call.off copied }

/-- `written` after the loop. -/
def readWritten (env : Env) (s : State) : Nat :=
  (renderList 0 s.restrictPathList { tempBuffer := env.kmalloc pathMax, written := 0 }).written

/-- The read copies only what this call has printed, and nothing from behind the text. -/
def ReadsRendered (env : Env) (task : Task δ) (call : ReadCall) (s : State) : Prop :=
  (∀ k ∈ (syscallProcRead env task call s).copied, k < readWritten env s ∧
    (syscallProcRead env task call s).tempBuffer[k]? = (listText 0 s.restrictPathList)[k]?) ∧
  (readWritten env s ≤ call.off → (syscallProcRead env task call s).ret = 0)

theorem render_holds (env : Env) (s : State) :
    (renderList 0 s.restrictPathList { tempBuffer := env.kmalloc pathMax, written := 0 }).Holds
      (listText 0 s.restrictPathList) :=
  @renderList_holds s.restrictPathList 0 { tempBuffer := env.kmalloc pathMax, written := 0 } []
    ⟨env.kmalloc_length _, rfl, rfl⟩

theorem readWritten_lt (env : Env) (s : State) : readWritten env s < pathMax :=
  (render_holds env s).lt

theorem readWritten_eq (env : Env) (s : State) :
    readWritten env s = min (listText 0 s.restrictPathList).length (pathMax - 1) :=
  (render_holds env s).written

theorem toInt32_eq {n : Nat} (h : n < 2 ^ 31) : toInt32 n = n :=
  Int.bmod_eq_of_le (by omega) (by omega)

theorem sizeDiff_of_le {a b : Nat} (h : b ≤ a) (ha : a < 2 ^ 64) : sizeDiff a b = a - b := by
  have hdiff : (a : Int) - b = (a - b : Nat) := by omega
  rw [sizeDiff, hdiff, Int.emod_eq_of_lt (by omega) (by omega), Int.toNat_natCast]

/-- Below zero, the difference wraps around. -/
theorem sizeDiff_of_lt {a b : Nat} (h : a < b) (hb : b ≤ 2 ^ 64) : sizeDiff a b = 2 ^ 64 - (b - a) := by
  have hdiff : (a : Int) - b + (2 ^ 64 : Nat) = (2 ^ 64 - (b - a) : Nat) := by omega
  rw [sizeDiff, ← Int.add_emod_right, hdiff, Int.emod_eq_of_lt (by omega) (by omega),
    Int.toNat_natCast]

theorem toCopy_inside {len written off : Nat} (hlen : len ≤ maxRwCount) (hwritten : written < pathMax)
    (hoff : off ≤ written) : toCopy len written off = (min len (written - off) : Nat) := by
  have hcap : maxRwCount < 2 ^ 31 := by decide
  have hmax : pathMax < 2 ^ 64 := by decide
  rw [toCopy, sizeDiff_of_le hoff (Nat.lt_trans hwritten hmax)]
  exact toInt32_eq (Nat.lt_of_le_of_lt (Nat.le_trans (Nat.min_le_left ..) hlen) hcap)

/-- Behind the text, the whole length asked for is copied. -/
theorem toCopy_behind {len written off : Nat} (hlen : len ≤ maxRwCount) (hoff : off < pathMax)
    (hbehind : written < off) : toCopy len written off = len := by
  have hcap : maxRwCount < 2 ^ 31 := by decide
  have hmax : pathMax < 2 ^ 31 := by decide
  have hmin : min len (2 ^ 64 - (off - written)) = len := Nat.min_eq_left (by omega)
  rw [toCopy, sizeDiff_of_lt hbehind (by omega), hmin]
  exact toInt32_eq (Nat.lt_of_le_of_lt hlen hcap)

/-- The byte at a position before the end of the text is the text's. -/
theorem Rendering.Holds.getElem? {r : Rendering} {text : List UInt8} (h : r.Holds text) {k : Nat}
    (hk : k < r.written) : r.tempBuffer[k]? = text[k]? := by
  have htext := congrArg (fun l : List UInt8 => l[k]?) h.text
  have hmin := h.written
  rw [List.getElem?_take_of_lt hk, List.getElem?_take_of_lt (by omega)] at htext
  exact htext

/-- How many bytes a read copies that is not turned down. -/
def copiedBytes (env : Env) (call : ReadCall) (s : State) : Nat :=
  userCopied (toCopy call.len (readWritten env s) call.off) call.room

theorem syscallProcRead_turned_down {env : Env} {task : Task δ} {call : ReadCall} {s : State}
    (halloc : task.alloc 6 = true) (hoff : pathMax ≤ call.off) :
    (syscallProcRead env task call s).ret = 0 ∧ (syscallProcRead env task call s).copied = [] := by
  unfold syscallProcRead
  rw [halloc, if_neg (by decide), if_pos hoff]
  exact ⟨rfl, rfl⟩

theorem syscallProcRead_copies {env : Env} {task : Task δ} {call : ReadCall} {s : State}
    (halloc : task.alloc 6 = true) (hoff : ¬ pathMax ≤ call.off) :
    (syscallProcRead env task call s).ret = copiedBytes env call s ∧
      (syscallProcRead env task call s).copied = List.range' call.off (copiedBytes env call s) ∧
      (syscallProcRead env task call s).tempBuffer =
        (renderList 0 s.restrictPathList
          { tempBuffer := env.kmalloc pathMax, written := 0 }).tempBuffer := by
  unfold syscallProcRead copiedBytes readWritten
  simp only [halloc, Bool.not_true, Bool.false_eq_true, if_false, if_neg hoff, and_self]

theorem copiedBytes_inside {env : Env} {call : ReadCall} {s : State}
    (h : call.off ≤ readWritten env s) :
    copiedBytes env call s = min (min call.len (readWritten env s - call.off)) call.room := by
  rw [copiedBytes, toCopy_inside call.len_le (readWritten_lt env s) h, userCopied,
    Int.toNat_natCast]

theorem copiedBytes_behind {env : Env} {call : ReadCall} {s : State}
    (hoff : ¬ pathMax ≤ call.off) (h : readWritten env s < call.off) :
    copiedBytes env call s = min call.len call.room := by
  rw [copiedBytes, toCopy_behind call.len_le (Nat.lt_of_not_le hoff) h, userCopied,
    Int.toNat_natCast]

/-- A read with a buffer of its own stays inside the text exactly when its offset is not behind
the text, or is one the function turns down, or nothing is to be copied anyway. -/
theorem read_rendered_iff (env : Env) (task : Task δ) (call : ReadCall) (s : State)
    (halloc : task.alloc 6 = true) :
    ReadsRendered env task call s ↔
      call.off ≤ min (listText 0 s.restrictPathList).length (pathMax - 1) ∨ pathMax ≤ call.off ∨
        call.len = 0 ∨ call.room = 0 := by
  rw [← readWritten_eq env s, ReadsRendered]
  by_cases hoff : pathMax ≤ call.off
  · obtain ⟨hret, hcopied⟩ := @syscallProcRead_turned_down δ env task call s halloc hoff
    rw [hret, hcopied]
    exact ⟨fun _ => .inr (.inl hoff), fun _ => ⟨fun k hk => absurd hk List.not_mem_nil, fun _ => rfl⟩⟩
  · obtain ⟨hret, hcopied, htemp⟩ := @syscallProcRead_copies δ env task call s halloc hoff
    rw [hret, hcopied, htemp, or_iff_right hoff]
    rcases Nat.lt_or_ge (readWritten env s) call.off with hbehind | hinside
    · rw [copiedBytes_behind hoff hbehind, or_iff_right (Nat.not_le.mpr hbehind)]
      constructor
      · intro h
        have hzero := Int.natCast_eq_zero.mp (h.2 (Nat.le_of_lt hbehind))
        omega
      · intro h
        have hzero : min call.len call.room = 0 := by omega
        rw [hzero]
        exact ⟨fun k hk => absurd hk List.not_mem_nil, fun _ => rfl⟩
    · rw [copiedBytes_inside hinside]
      refine ⟨fun _ => .inl hinside, fun _ => ⟨fun k hk => ?_, fun hle => ?_⟩⟩
      · obtain ⟨_, hhi⟩ := List.mem_range'_1.mp hk
        have hk' : k < readWritten env s := by omega
        exact ⟨hk', (render_holds env s).getElem? hk'⟩
      · have hzero : min (min call.len (readWritten env s - call.off)) call.room = 0 := by omega
        rw [hzero]
        rfl

theorem ten_le_maxRwCount : 10 ≤ maxRwCount := by decide

/-- A read of ten bytes. -/
def sampleRead (off : Nat) : ReadCall where
  len := 10
  len_le := ten_le_maxRwCount
  off := off
  room := 10

/-- A reader at offset 20, the list empty by now: ten bytes the call has not written are copied. -/
theorem stale_offset_leaks :
    ¬ ReadsRendered sampleEnv (sampleTask 1000 0) (sampleRead 20) (sampleState stateOn true []) := by
  intro h
  have hret := h.2 (by decide +kernel)
  exact absurd hret (by decide +kernel)

/-- A listed path, read from the middle of its line on. -/
theorem read_rendered_iff_inside :
    ReadsRendered sampleEnv (sampleTask 1000 0) (sampleRead 12)
      (sampleState stateOn true [secretEntry]) :=
  (read_rendered_iff sampleEnv (sampleTask 1000 0) (sampleRead 12)
    (sampleState stateOn true [secretEntry]) rfl).mpr (.inl (by decide +kernel))

end RefMonitor
