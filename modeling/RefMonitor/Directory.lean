import RefMonitor.FileLookup
import RefMonitor.Lib.Reader

/-!
# `singlefile-FS/dir.c`: listing the root directory

`onefilefs_iterate` hands three entries to `dir_emit`, one after the other, and counts them in
`ctx->pos`, which the next call starts from. `dir_emit` refuses an entry when the caller's buffer
is full. Each entry is handed over with the length `FILENAME_MAXLEN`, not that of its name, so the
bytes that stand behind the string constant in the module go to the caller as well.

Results:
1. `dirEntries_names`: the names the caller reads.
2. `emitAt_spec`: what the block for one entry does.
3. `iterate_spec`: what one call delivers.
4. `directory_listed`: what any number of calls deliver.
-/

namespace RefMonitor
open CString Reader

/-! ## The source's function -/

def filenameMaxlen : Nat := 255
def rootInodeNumber : Nat := 10
def fileInodeNumber : Nat := 1

structure DirEntry where
  name : List UInt8
  ino : Nat

/-- The entry as `dir_emit` takes it; `behind` is what stands behind the NUL of the constant. -/
def dirEntry (behind : List UInt8) (constant : List UInt8) (ino : Nat) : DirEntry where
  name := (constant ++ 0 :: behind).take filenameMaxlen
  ino := ino

/-- The entries, with the bytes behind each of the three constants. -/
def dirEntries (behind : Nat → List UInt8) : List DirEntry :=
  [dirEntry (behind 0) (ascii ".") rootInodeNumber, dirEntry (behind 1) (ascii "..") 1,
    dirEntry (behind 2) uniqueFileName fileInodeNumber]

/-- What was emitted by this call, and `ctx->pos`. -/
structure DirContext where
  emitted : List DirEntry
  pos : Nat

/-- The block for position `k`; the error is the early `return 0`. `emit n` is what `dir_emit`
answers when `n` entries have been emitted by this call. -/
def emitAt (emit : Nat → Bool) (k : Nat) (e : DirEntry) (ctx : DirContext) :
    Except DirContext DirContext :=
  if ctx.pos = k then
    if !emit ctx.emitted.length then .error ctx
    else .ok { emitted := ctx.emitted ++ [e], pos := ctx.pos + 1 }
  else .ok ctx

def onefilefsIterate (behind : Nat → List UInt8) (emit : Nat → Bool) (pos : Nat) : DirContext :=
  if 2 + 1 ≤ pos then { emitted := [], pos := pos }
  else
    let entry (k : Nat) : DirEntry := (dirEntries behind).getD k (dirEntry [] [] 0)
    let out : Except DirContext DirContext := do
      let ctx ← emitAt emit 0 (entry 0) { emitted := [], pos := pos }
      let ctx ← emitAt emit 1 (entry 1) ctx
      emitAt emit 2 (entry 2) ctx
    match out with
    | .ok ctx => ctx
    | .error ctx => ctx

/-! ## Calls -/

variable {behind : Nat → List UInt8} {emit : Nat → Bool}

/-- The caller reads the right names, each in front of bytes of the module. -/
theorem dirEntries_names (behind : Nat → List UInt8) :
    (dirEntries behind).map (fun e => cstr e.name) = [ascii ".", ascii "..", uniqueFileName] := by
  have hname : ∀ (constant tail : List UInt8) (ino : Nat), (0 : UInt8) ∉ constant →
      constant.length < filenameMaxlen → cstr (dirEntry tail constant ino).name = constant := by
    intro constant tail ino hnul hlen
    obtain ⟨k, hk⟩ := Nat.exists_eq_add_of_lt hlen
    rw [dirEntry, hk, Nat.add_assoc, List.take_length_add_append, List.take_succ_cons,
      cstr_append_zero hnul]
  simp only [dirEntries, List.map_cons, List.map_nil]
  rw [hname _ _ _ (by decide) (by decide), hname _ _ _ (by decide) (by decide),
    hname _ _ _ (by decide) (by decide)]

/-- A call that started at `pos` has handed over the entries from there up to `ctx->pos`. -/
structure Listing (behind : Nat → List UInt8) (pos : Nat) (ctx : DirContext) : Prop where
  emitted : ctx.emitted = ((dirEntries behind).drop pos).take (ctx.pos - pos)
  started : pos ≤ ctx.pos
  inside : ctx.pos ≤ 3

theorem Listing.length {pos : Nat} {ctx : DirContext} (h : Listing behind pos ctx) :
    ctx.emitted.length = ctx.pos - pos := by
  have hinside := h.inside
  rw [h.emitted, List.length_take, List.length_drop, show (dirEntries behind).length = 3 from rfl]
  omega

/-- What the blocks before position `k` leave: the call goes on with nothing left to hand over
there, or the last entry was refused. -/
inductive Emitted (behind : Nat → List UInt8) (emit : Nat → Bool) (pos k : Nat) :
    Except DirContext DirContext → Prop
  | goesOn {ctx : DirContext} : Listing behind pos ctx → k ≤ ctx.pos →
      Emitted behind emit pos k (.ok ctx)
  | refused {ctx : DirContext} : Listing behind pos ctx → emit ctx.emitted.length = false →
      Emitted behind emit pos k (.error ctx)

/-- The block for position `k`. -/
theorem emitAt_spec {pos k : Nat} {ctx : DirContext} (hk : k < 3) (h : Listing behind pos ctx)
    (hle : k ≤ ctx.pos) : Emitted behind emit pos (k + 1)
      (emitAt emit k ((dirEntries behind).getD k (dirEntry [] [] 0)) ctx) := by
  unfold emitAt
  split
  · next hat =>
    split
    · next hfull => exact .refused h (by simpa using hfull)
    · have hstarted := h.started
      have hlen : (dirEntries behind).length = 3 := rfl
      refine .goesOn ⟨?_, Nat.le_succ_of_le hstarted, ?_⟩ ?_
      · have hnext : ((dirEntries behind).drop pos)[k - pos]? =
            some ((dirEntries behind).getD k (dirEntry [] [] 0)) := by
          rw [List.getElem?_drop, Nat.add_sub_cancel' (by omega),
            List.getElem?_eq_getElem (by omega), List.getD_eq_getElem _ _ (by omega)]
        show ctx.emitted ++ _ = List.take (ctx.pos + 1 - pos) _
        rw [h.emitted, hat, Nat.succ_sub (by omega), List.take_add_one, hnext]
        rfl
      · show ctx.pos + 1 ≤ 3
        omega
      · show k + 1 ≤ ctx.pos + 1
        omega
  · next hne => exact .goesOn h (by omega)

/-- The next block runs when the call goes on. -/
theorem Emitted.bind {pos k : Nat} {out : Except DirContext DirContext} (hk : k < 3)
    (h : Emitted behind emit pos k out) : Emitted behind emit pos (k + 1)
      (out >>= emitAt emit k ((dirEntries behind).getD k (dirEntry [] [] 0))) := by
  cases h with
  | goesOn hlisting hle => exact emitAt_spec hk hlisting hle
  | refused hlisting hfull => exact .refused hlisting hfull

/-- Behind the last block, the call has moved on if `dir_emit` takes the first entry. -/
theorem Emitted.moved {pos : Nat} {out : Except DirContext DirContext}
    (h : Emitted behind emit pos 3 out) :
    ∃ ctx, (out = .ok ctx ∨ out = .error ctx) ∧ Listing behind pos ctx ∧
      (emit 0 = true → pos < 3 → pos < ctx.pos) := by
  cases h with
  | @goesOn ctx hlisting hle =>
    exact ⟨ctx, .inl rfl, hlisting, fun _ hpos => Nat.lt_of_lt_of_le hpos hle⟩
  | @refused ctx hlisting hfull =>
    refine ⟨ctx, .inr rfl, hlisting, fun hroom _ => Nat.lt_of_le_of_ne hlisting.started ?_⟩
    intro heq
    rw [hlisting.length, ← heq, Nat.sub_self, hroom] at hfull
    cases hfull

/-- A call delivers the next entries, and one or more when `dir_emit` takes the first. -/
theorem iterate_spec {pos : Nat} (hpos : pos ≤ 3) :
    ∃ n, (onefilefsIterate behind emit pos).emitted = ((dirEntries behind).drop pos).take n ∧
      (onefilefsIterate behind emit pos).pos = pos + n ∧ pos + n ≤ 3 ∧
      (emit 0 = true → pos < 3 → 0 < n) := by
  rcases Nat.eq_or_lt_of_le hpos with rfl | hlt
  · exact ⟨0, rfl, rfl, hpos, fun _ h => absurd h (by decide)⟩
  have hstart : Listing behind pos { emitted := [], pos := pos } :=
    ⟨by rw [Nat.sub_self, List.take_zero], le_refl _, hpos⟩
  have hfirst : Emitted behind emit pos 1
      (emitAt emit 0 ((dirEntries behind).getD 0 (dirEntry [] [] 0)) { emitted := [], pos := pos }) :=
    emitAt_spec (by decide) hstart (Nat.zero_le _)
  obtain ⟨ctx, hout, hlisting, hmoved⟩ := ((hfirst.bind (by decide)).bind (by decide)).moved
  have hcall : onefilefsIterate behind emit pos = ctx := by
    unfold onefilefsIterate
    rw [if_neg (Nat.not_le.mpr hlt)]
    dsimp only
    rw [← bind_assoc]
    rcases hout with hok | herr
    · rw [hok]
    · rw [herr]
  have hend : pos + (ctx.pos - pos) = ctx.pos := Nat.add_sub_cancel' hlisting.started
  rw [hcall]
  refine ⟨ctx.pos - pos, hlisting.emitted, hend.symm, ?_, fun hroom hpos' => ?_⟩
  · rw [hend]
    exact hlisting.inside
  · exact Nat.sub_pos_of_lt (hmoved hroom hpos')

/-- The calls of one open directory, each from the position the last one left. -/
def dirSession (behind : Nat → List UInt8) (emits : Nat → Nat → Bool) : Session DirEntry where
  piece n pos := (onefilefsIterate behind (emits n) pos).emitted
  next n pos := (onefilefsIterate behind (emits n) pos).pos

/-- How many of the first `n` calls had room for an entry. -/
def roomy (emits : Nat → Nat → Bool) (n : Nat) : Nat := (List.range n).countP fun k => emits k 0

theorem dirSession_position (emits : Nat → Nat → Bool) (n : Nat) :
    (dirSession behind emits).position n ≤ 3 ∧
      min 3 (roomy emits n) ≤ (dirSession behind emits).position n ∧
      (dirSession behind emits).gathered n =
        (dirEntries behind).take ((dirSession behind emits).position n) := by
  induction n with
  | zero => exact ⟨Nat.zero_le _, Nat.min_le_right _ _, rfl⟩
  | succ n ih =>
    obtain ⟨hle, hroomy, hgathered⟩ := ih
    obtain ⟨m, hpiece, hnext, hbound, hmoves⟩ := @iterate_spec behind (emits n) _ hle
    have hposition : (dirSession behind emits).position (n + 1) =
        (dirSession behind emits).position n + m := hnext
    have hcount : roomy emits (n + 1) = roomy emits n + if emits n 0 = true then 1 else 0 := by
      rw [roomy, List.range_succ, List.countP_append, List.countP_singleton]
      rfl
    rw [hposition, Session.gathered, hgathered, List.take_add]
    refine ⟨hbound, ?_, congrArg _ hpiece⟩
    rw [hcount]
    split
    · next hroom =>
      -- a call with room moves on, unless all entries have been delivered
      rcases Nat.eq_or_lt_of_le hle with hend | hlt
      · rw [hend]
        exact Nat.le_trans (Nat.min_le_left _ _) (Nat.le_add_right _ _)
      · have hpos := hmoves hroom hlt
        omega
    · omega

/-- However often the directory is read and whatever the buffers have room for: the entries come in
order, none twice and none left out, and after three calls with room for an entry all have come. -/
theorem directory_listed (behind : Nat → List UInt8) (emits : Nat → Nat → Bool) (n : Nat) :
    (dirSession behind emits).gathered n =
        (dirEntries behind).take ((dirSession behind emits).position n) ∧
      (3 ≤ roomy emits n → (dirSession behind emits).gathered n = dirEntries behind) := by
  obtain ⟨hle, hroomy, hgathered⟩ := @dirSession_position behind emits n
  refine ⟨hgathered, fun hthree => ?_⟩
  have hall : (dirSession behind emits).position n = 3 := by omega
  rw [hgathered, hall]
  rfl

end RefMonitor
