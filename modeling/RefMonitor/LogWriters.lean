import RefMonitor.SingleFs

/-!
# Several writers of the log

Threads call `onefilefs_write` in any order and their steps interleave. A call takes
`lock_log`, then the inode lock, checks the size, runs the loop one block at a time,
publishes its result, and gives the locks back in the other order. A schedule is the list
of the threads that take the next step; a thread that waits for a lock takes an empty one.

A call is `finished` from the step on that decides its return value.

Results:
1. `Consistent.step`, `consistent_run`: at every moment the calls finished so far are a
   sequential run of `onefilefs_write`, and the thread in the loop has shown nothing yet.
2. `write_appendOnly`: the log is an append-only byte sequence under every schedule.
-/

namespace RefMonitor
open PagedStore

/-! ## The interleaved system -/

/-- Where a thread stands. -/
inductive Phase
  | outside
  /-- Holds `lock_log`, waits for the inode lock. -/
  | waiting (call : WriteCall)
  /-- Holds both locks. -/
  | entered (call : WriteCall)
  | looping (call : WriteCall) (pos k : Nat) (rest : List UInt8)
  /-- At `out_unlock_inode`. -/
  | unlockInode
  | unlockLog

structure Writers (τ : Type) where
  fs : LogFs
  lockLog : Option τ
  inodeLock : Option τ
  phase : τ → Phase
  /-- The calls each thread has still to make. -/
  todo : τ → List WriteCall
  /-- The calls whose result is decided, in that order. -/
  finished : List (WriteCall × Int)

variable {τ : Type} [DecidableEq τ]

def Writers.goTo (w : Writers τ) (t : τ) (p : Phase) : Writers τ :=
  { w with phase := Function.update w.phase t p }

/-- The call's result is decided, with the file system it leaves. -/
def Writers.finish (w : Writers τ) (t : τ) (call : WriteCall) (r : WriteResult) : Writers τ :=
  { w.goTo t .unlockInode with fs := r.fs, finished := w.finished ++ [(call, r.res)] }

/-- The next step of thread `t`. -/
def Writers.step (maxFileSize : Nat) (w : Writers τ) (t : τ) : Writers τ :=
  match w.phase t with
  | .outside =>
    match w.todo t with
    | [] => w
    | call :: rest =>
      if w.lockLog = none then
        { w.goTo t (.waiting call) with
          lockLog := some t, todo := Function.update w.todo t rest }
      else w
  | .waiting call =>
    if w.inodeLock = none then { w.goTo t (.entered call) with inodeLock := some t } else w
  | .entered call =>
    if exceedsMax maxFileSize w.fs.iSize call.buf.length then
      w.finish t call { res := fail .efbig, off := call.off, fs := w.fs }
    else w.goTo t (.looping call w.fs.iSize 0 call.buf)
  | .looping call pos k rest =>
    if rest = [] then w.finish t call (closeWrite call (w.fs, .ok pos))
    else
      match writeBlock w.fs call.io pos k rest with
      | (fs, .error e) => w.finish t call (closeWrite call (fs, .error e))
      | (fs, .ok n) => { w.goTo t (.looping call (pos + n) (k + 1) (rest.drop n)) with fs := fs }
  | .unlockInode => { w.goTo t .unlockLog with inodeLock := none }
  | .unlockLog => { w.goTo t .outside with lockLog := none }

def Writers.run (maxFileSize : Nat) (w : Writers τ) (schedule : List τ) : Writers τ :=
  schedule.foldl (Writers.step maxFileSize) w

/-- Nobody is inside `onefilefs_write`. -/
structure Writers.Idle (w : Writers τ) : Prop where
  lockLog : w.lockLog = none
  inodeLock : w.inodeLock = none
  phase : ∀ t, w.phase t = .outside
  finished : w.finished = []

/-- The calls made one after the other. -/
def writeAll (maxFileSize : Nat) : LogFs → List WriteCall → LogFs × List Int
  | fs, [] => (fs, [])
  | fs, call :: calls =>
    let r := onefilefsWrite maxFileSize fs call
    let out := writeAll maxFileSize r.fs calls
    (out.1, r.res :: out.2)

theorem writeAll_concat (maxFileSize : Nat) (fs : LogFs) (calls : List WriteCall)
    (call : WriteCall) :
    writeAll maxFileSize fs (calls ++ [call]) =
      ((onefilefsWrite maxFileSize (writeAll maxFileSize fs calls).1 call).fs,
       (writeAll maxFileSize fs calls).2 ++
         [(onefilefsWrite maxFileSize (writeAll maxFileSize fs calls).1 call).res]) := by
  induction calls generalizing fs with
  | nil => rfl
  | cons c calls ih => simp [writeAll, ih]

/-! ## The invariant -/

/-- What the thread inside has done to the file system since `base`, and that finishing its
call from here is the whole call made on `base`. -/
def Phase.Progress (maxFileSize : Nat) (base fs : LogFs) : Phase → Prop
  | .looping call pos k rest =>
    exceedsMax maxFileSize base.iSize call.buf.length = false ∧
    Writing base call.buf fs pos rest ∧
    onefilefsWrite maxFileSize base call =
      closeWrite call (writeLoop call.io rest.length fs pos k rest)
  | _ => fs = base

def Phase.HoldsInode : Phase → Prop
  | .entered _ => True
  | .looping _ _ _ _ => True
  | .unlockInode => True
  | _ => False

/-- The calls finished so far are a sequential run that ends in `base`; a thread inside
holds the locks and is somewhere in its call on `base`. -/
structure Consistent (maxFileSize : Nat) (init : LogFs) (base : LogFs) (w : Writers τ) : Prop where
  position : base.iSize ≤ lastPos
  sequential : writeAll maxFileSize init (w.finished.map Prod.fst) =
    (base, w.finished.map Prod.snd)
  free : w.lockLog = none → w.fs = base
  holder : ∀ t, w.phase t ≠ .outside →
    w.lockLog = some t ∧ (w.phase t).Progress maxFileSize base w.fs
  inside : ∀ t, w.lockLog = some t → w.phase t ≠ .outside
  inode : ∀ t, w.inodeLock = some t ↔ (w.phase t).HoldsInode

theorem Writers.goTo_phase (w : Writers τ) (t : τ) (p : Phase) : (w.goTo t p).phase t = p :=
  Function.update_self ..

theorem Writers.goTo_phase_ne (w : Writers τ) {t u : τ} (p : Phase) (h : u ≠ t) :
    (w.goTo t p).phase u = w.phase u := Function.update_of_ne h ..

omit [DecidableEq τ] in
/-- While a thread is inside, every other thread is outside. -/
theorem Consistent.others {maxFileSize : Nat} {init base : LogFs} {w : Writers τ}
    (h : Consistent maxFileSize init base w) {t u : τ} (ht : w.phase t ≠ .outside) (hu : u ≠ t) :
    w.phase u = .outside := by
  by_contra hin
  have h1 := (h.holder t ht).1
  have h2 := (h.holder u hin).1
  rw [h1] at h2
  exact hu (Option.some.inj h2).symm

omit [DecidableEq τ] in
/-- The inode lock is free while the thread inside does not hold it. -/
theorem Consistent.inode_free {maxFileSize : Nat} {init base : LogFs} {w : Writers τ}
    (h : Consistent maxFileSize init base w) {t : τ} (ht : w.phase t ≠ .outside)
    (hn : ¬ (w.phase t).HoldsInode) : w.inodeLock = none := by
  cases hi : w.inodeLock with
  | none => rfl
  | some u =>
    have hh := (h.inode u).mp hi
    have hu : w.phase u ≠ .outside := by
      intro h0
      rw [h0] at hh
      exact hh
    have hut : u = t := by
      by_contra hne
      exact hu (h.others ht hne)
    rw [hut] at hh
    exact absurd hh hn

omit [DecidableEq τ] in
/-- While `lock_log` is free nobody is inside, and nobody has the inode lock. -/
theorem Consistent.nobody {maxFileSize : Nat} {init base : LogFs} {w : Writers τ}
    (h : Consistent maxFileSize init base w) (hnone : w.lockLog = none) :
    (∀ u, w.phase u = .outside) ∧ w.inodeLock = none := by
  have hout : ∀ u, w.phase u = .outside := by
    intro u
    by_contra hu
    exact absurd ((h.holder u hu).1.symm.trans hnone) (by simp)
  refine ⟨hout, ?_⟩
  cases hi : w.inodeLock with
  | none => rfl
  | some u =>
    have hh := (h.inode u).mp hi
    rw [hout u] at hh
    exact hh.elim

/-- A thread changes its own phase while the other threads are outside. -/
theorem Consistent.move {maxFileSize : Nat} {init base' : LogFs} {w w' : Writers τ} {t : τ}
    {p : Phase} (hothers : ∀ u, u ≠ t → w.phase u = .outside)
    (hpos : base'.iSize ≤ lastPos)
    (hseq : writeAll maxFileSize init (w'.finished.map Prod.fst) =
      (base', w'.finished.map Prod.snd))
    (hphase : w'.phase = (w.goTo t p).phase)
    (hlock : w'.lockLog = some t ∧ p ≠ .outside ∨ w'.lockLog = none ∧ p = .outside)
    (hinode : w'.inodeLock = some t ∧ p.HoldsInode ∨ w'.inodeLock = none ∧ ¬ p.HoldsInode)
    (hprog : p.Progress maxFileSize base' w'.fs) (hfree : p = .outside → w'.fs = base') :
    Consistent maxFileSize init base' w' := by
  have hself : w'.phase t = p := by rw [hphase]; exact w.goTo_phase t p
  have hother : ∀ u, u ≠ t → w'.phase u = .outside := by
    intro u hu
    rw [hphase, w.goTo_phase_ne p hu]
    exact hothers u hu
  refine ⟨hpos, hseq, ?_, ?_, ?_, ?_⟩
  · intro hnone
    rcases hlock with ⟨hs, _⟩ | ⟨_, hp⟩
    · exact absurd (hs.symm.trans hnone) (by simp)
    · exact hfree hp
  · intro u hu
    rcases eq_or_ne u t with rfl | hne
    · rw [hself] at hu ⊢
      rcases hlock with ⟨hs, _⟩ | ⟨_, hp⟩
      · exact ⟨hs, hprog⟩
      · exact absurd hp hu
    · exact absurd (hother u hne) hu
  · intro u hs
    rcases hlock with ⟨hs', hp⟩ | ⟨hnone, _⟩
    · obtain rfl := Option.some.inj (hs'.symm.trans hs)
      rw [hself]
      exact hp
    · exact absurd (hnone.symm.trans hs) (by simp)
  · intro u
    rcases eq_or_ne u t with rfl | hne
    · rw [hself]
      rcases hinode with ⟨hi, hp⟩ | ⟨hi, hp⟩
      · exact ⟨fun _ => hp, fun _ => hi⟩
      · exact ⟨fun hs => absurd (hi.symm.trans hs) (by simp), fun hh => absurd hh hp⟩
    · rw [hother u hne]
      refine ⟨fun hs => ?_, fun hf => hf.elim⟩
      rcases hinode with ⟨hi, _⟩ | ⟨hi, _⟩
      · exact absurd (Option.some.inj (hi.symm.trans hs)).symm hne
      · exact absurd (hi.symm.trans hs) (by simp)

/-- Deciding the result of a call on `base` extends the sequential run by that call. -/
theorem Consistent.finish {maxFileSize : Nat} {init base : LogFs} {w : Writers τ} {t : τ}
    {call : WriteCall} {r : WriteResult} (h : Consistent maxFileSize init base w)
    (hin : (w.phase t).HoldsInode) (hr : onefilefsWrite maxFileSize base call = r) :
    Consistent maxFileSize init r.fs (w.finish t call r) := by
  have ht : w.phase t ≠ .outside := by
    intro h0
    rw [h0] at hin
    exact hin
  refine .move (p := .unlockInode) (fun _ => h.others ht) ?_ ?_ rfl (.inl ⟨(h.holder t ht).1, by simp⟩)
    (.inl ⟨(h.inode t).mpr hin, trivial⟩) rfl (fun hp => absurd hp (by simp))
  · rw [← hr]
    exact (onefilefsWrite_spec h.position call).lastPos h.position
  · simp only [Writers.finish, List.map_append, List.map_cons, List.map_nil]
    rw [writeAll_concat, h.sequential, hr]

section
variable {maxFileSize : Nat} {init base : LogFs} {w : Writers τ} {t : τ} {call : WriteCall}

/-- A call that takes `lock_log` finds the log as the last one left it. -/
theorem Consistent.lock (h : Consistent maxFileSize init base w) (hnone : w.lockLog = none)
    (todo : τ → List WriteCall) : Consistent maxFileSize init base
      { w.goTo t (.waiting call) with lockLog := some t, todo := todo } := by
  obtain ⟨hout, hinode⟩ := h.nobody hnone
  exact .move (p := .waiting call) (fun u _ => hout u) h.position h.sequential rfl
    (.inl ⟨rfl, by simp⟩) (.inr ⟨hinode, fun hf => hf⟩) (h.free hnone)
    (fun h0 => absurd h0 (by simp))

/-- The thread inside goes on with its call on `base`. -/
theorem Consistent.advance (h : Consistent maxFileSize init base w) (ht : w.phase t ≠ .outside)
    {p : Phase} {fs : LogFs} (hp : p.HoldsInode) (hprog : p.Progress maxFileSize base fs) :
    Consistent maxFileSize init base { w.goTo t p with fs := fs, inodeLock := some t } := by
  have hinside : p ≠ .outside := by
    rintro rfl
    exact hp
  exact .move (fun _ => h.others ht) h.position h.sequential rfl
    (.inl ⟨(h.holder t ht).1, hinside⟩) (.inl ⟨rfl, hp⟩) hprog (fun h0 => absurd h0 hinside)

/-- The check of the size, and the start of the loop. -/
theorem Consistent.enter (h : Consistent maxFileSize init base w) (hp : w.phase t = .entered call) :
    ∃ base', Consistent maxFileSize init base' (w.step maxFileSize t) := by
  have ht : w.phase t ≠ .outside := by rw [hp]; simp
  have hin : (w.phase t).HoldsInode := by rw [hp]; trivial
  have hbase : w.fs = base := by
    have hprog := (h.holder t ht).2
    rw [hp] at hprog
    exact hprog
  unfold Writers.step
  rw [hp]
  dsimp only
  split
  · next hmax =>
    refine ⟨_, h.finish hin ?_⟩
    rw [hbase] at hmax ⊢
    rw [onefilefsWrite, if_pos hmax]
  · next hmax =>
    rw [hbase, Bool.not_eq_true] at hmax
    have hcall : onefilefsWrite maxFileSize base call =
        closeWrite call (writeLoop call.io call.buf.length base base.iSize 0 call.buf) := by
      rw [onefilefsWrite, if_neg (by rw [hmax]; simp)]
    have hprog : (Phase.looping call w.fs.iSize 0 call.buf).Progress maxFileSize base w.fs := by
      rw [hbase]
      exact ⟨hmax, .start h.position call.buf, hcall⟩
    have hnext := h.advance (p := .looping call w.fs.iSize 0 call.buf) ht trivial hprog
    rw [← (h.inode t).mpr hin] at hnext
    exact ⟨base, hnext⟩

/-- One round of the loop: what is left of the call stays the rest of the call on `base`. -/
theorem Consistent.round (h : Consistent maxFileSize init base w) {pos k : Nat} {rest : List UInt8}
    (hp : w.phase t = .looping call pos k rest) :
    ∃ base', Consistent maxFileSize init base' (w.step maxFileSize t) := by
  have ht : w.phase t ≠ .outside := by rw [hp]; simp
  have hin : (w.phase t).HoldsInode := by rw [hp]; trivial
  have hprog := (h.holder t ht).2
  rw [hp] at hprog
  obtain ⟨hmax, hwriting, hcont⟩ := hprog
  unfold Writers.step
  rw [hp]
  dsimp only
  split
  · next hnil =>
    subst hnil
    exact ⟨_, h.finish hin hcont⟩
  · next hne =>
    obtain ⟨rounds, hrounds⟩ : ∃ n, rest.length = n + 1 :=
      Nat.exists_eq_succ_of_ne_zero (fun h0 => hne (List.length_eq_zero_iff.mp h0))
    rw [hrounds, writeLoop, if_neg hne] at hcont
    rcases writeBlock_spec hwriting hne call.io k with
      ⟨fs', e, hw, _, _⟩ | ⟨fs', n, hw, hn, hwriting'⟩
    · rw [hw] at hcont ⊢
      exact ⟨_, h.finish hin hcont⟩
    · rw [hw] at hcont ⊢
      -- fewer rounds are enough for what is left
      have hleft : onefilefsWrite maxFileSize base call = closeWrite call
          (writeLoop call.io (rest.drop n).length fs' (pos + n) (k + 1) (rest.drop n)) := by
        rw [hcont]
        exact congrArg (closeWrite call)
          (writeLoop_rounds hwriting' (by rw [List.length_drop]; omega) (le_refl _))
      have hnext := h.advance (p := .looping call (pos + n) (k + 1) (rest.drop n)) ht trivial
        ⟨hmax, hwriting', hleft⟩
      rw [← (h.inode t).mpr hin] at hnext
      exact ⟨base, hnext⟩

end

/-- Every step of every thread keeps the invariant. -/
theorem Consistent.step {maxFileSize : Nat} {init base : LogFs} {w : Writers τ}
    (h : Consistent maxFileSize init base w) (t : τ) :
    ∃ base', Consistent maxFileSize init base' (w.step maxFileSize t) := by
  cases hp : w.phase t with
  | outside =>
    unfold Writers.step
    rw [hp]
    cases htodo : w.todo t with
    | nil => exact ⟨base, h⟩
    | cons call rest =>
      dsimp only
      split
      · next hnone => exact ⟨base, h.lock hnone _⟩
      · exact ⟨base, h⟩
  | waiting call =>
    have ht : w.phase t ≠ .outside := by rw [hp]; simp
    have hprog := (h.holder t ht).2
    rw [hp] at hprog
    unfold Writers.step
    rw [hp]
    dsimp only
    split
    · exact ⟨base, h.advance (p := .entered call) ht trivial hprog⟩
    · exact ⟨base, h⟩
  | entered call => exact h.enter hp
  | looping call pos k rest => exact h.round hp
  | unlockInode =>
    have ht : w.phase t ≠ .outside := by rw [hp]; simp
    have hprog := (h.holder t ht).2
    rw [hp] at hprog
    unfold Writers.step
    rw [hp]
    exact ⟨base, .move (p := .unlockLog) (fun _ => h.others ht) h.position h.sequential rfl
      (.inl ⟨(h.holder t ht).1, by simp⟩) (.inr ⟨rfl, fun hf => hf.elim⟩) hprog
      (fun h0 => absurd h0 (by simp))⟩
  | unlockLog =>
    have ht : w.phase t ≠ .outside := by rw [hp]; simp
    have hprog := (h.holder t ht).2
    rw [hp] at hprog
    unfold Writers.step
    rw [hp]
    exact ⟨base, .move (p := .outside) (fun _ => h.others ht) h.position h.sequential rfl
      (.inr ⟨rfl, rfl⟩) (.inr ⟨h.inode_free ht (by rw [hp]; exact fun hf => hf), fun hf => hf.elim⟩)
      hprog (fun _ => hprog)⟩

theorem consistent_run {maxFileSize : Nat} {init : LogFs} {schedule : List τ} :
    ∀ {base : LogFs} {w : Writers τ}, Consistent maxFileSize init base w →
      ∃ base', Consistent maxFileSize init base' (w.run maxFileSize schedule) := by
  induction schedule with
  | nil => exact fun h => ⟨_, h⟩
  | cons t schedule ih =>
    intro base w h
    obtain ⟨base', h'⟩ := h.step t
    exact ih h'

/-! ## Every call returns -/

/-- A bound on the steps a thread still takes before it is outside. -/
def Phase.stepsLeft : Phase → Nat
  | .outside => 0
  | .unlockLog => 1
  | .unlockInode => 2
  | .looping _ _ _ rest => rest.length + 3
  | .entered call => call.buf.length + 4
  | .waiting call => call.buf.length + 5

/-- A step of the thread inside brings it closer to its return. -/
theorem Consistent.stepsLeft_lt {maxFileSize : Nat} {init base : LogFs} {w : Writers τ} {t : τ}
    (h : Consistent maxFileSize init base w) (ht : w.phase t ≠ .outside) :
    ((w.step maxFileSize t).phase t).stepsLeft < (w.phase t).stepsLeft := by
  have hfinish : ∀ call r, ((w.finish t call r).phase t).stepsLeft = 2 := by
    intro call r
    show ((w.goTo t .unlockInode).phase t).stepsLeft = 2
    rw [w.goTo_phase]
    rfl
  unfold Writers.step
  cases hp : w.phase t with
  | outside => exact absurd hp ht
  | waiting call =>
    dsimp only
    rw [if_pos (h.inode_free ht (by rw [hp]; exact fun hf => hf))]
    show ((w.goTo t (.entered call)).phase t).stepsLeft < call.buf.length + 5
    rw [w.goTo_phase]
    exact Nat.lt_succ_self _
  | entered call =>
    show _ < call.buf.length + 4
    dsimp only
    split
    · rw [hfinish]
      exact Nat.lt_of_lt_of_le (by decide) (Nat.le_add_left 4 _)
    · rw [w.goTo_phase]
      exact Nat.lt_succ_self _
  | looping call pos k rest =>
    have hprog := (h.holder t ht).2
    rw [hp] at hprog
    obtain ⟨_, hwriting, _⟩ := hprog
    show _ < rest.length + 3
    dsimp only
    split
    · rw [hfinish]
      exact Nat.lt_of_lt_of_le (by decide) (Nat.le_add_left 3 _)
    · next hne =>
      rcases writeBlock_spec hwriting hne call.io k with
        ⟨fs', e, hw, _, _⟩ | ⟨fs', n, hw, hn, _⟩
      · rw [hw]
        dsimp only
        rw [hfinish]
        exact Nat.lt_of_lt_of_le (by decide) (Nat.le_add_left 3 _)
      · have hlen : 0 < rest.length := List.length_pos_of_ne_nil hne
        rw [hw]
        show ((w.goTo t (.looping call (pos + n) (k + 1) (rest.drop n))).phase t).stepsLeft < _
        rw [w.goTo_phase, Phase.stepsLeft, List.length_drop]
        omega
  | unlockInode =>
    show ((w.goTo t .unlockLog).phase t).stepsLeft < 2
    rw [w.goTo_phase]
    decide
  | unlockLog =>
    show ((w.goTo t .outside).phase t).stepsLeft < 1
    rw [w.goTo_phase]
    decide

/-- Enough steps of the thread inside bring it outside. -/
theorem Consistent.returns {maxFileSize : Nat} {init : LogFs} {t : τ} :
    ∀ {bound : Nat} {base : LogFs} {w : Writers τ}, Consistent maxFileSize init base w →
      (w.phase t).stepsLeft ≤ bound →
      ∃ n, (w.run maxFileSize (List.replicate n t)).phase t = .outside := by
  intro bound
  induction bound with
  | zero =>
    intro base w h hb
    refine ⟨0, ?_⟩
    by_contra ht
    exact absurd (h.stepsLeft_lt ht) (by omega)
  | succ bound ih =>
    intro base w h hb
    rcases Classical.em (w.phase t = .outside) with ht | ht
    · exact ⟨0, ht⟩
    · obtain ⟨base', h'⟩ := h.step t
      obtain ⟨n, hn⟩ := ih h' (by have := h.stepsLeft_lt ht; omega)
      exact ⟨n + 1, by rw [List.replicate_succ]; exact hn⟩

/-! ## The log is append-only -/

/-- The buffers of the calls that returned their length. -/
def appended (finished : List (WriteCall × Int)) : List UInt8 :=
  finished.flatMap (fun r => if r.2 = r.1.buf.length then r.1.buf else [])

/-- The log `fs` is `fs₀` with the finished calls appended, and no call did anything else. -/
structure Appended (maxFileSize : Nat) (fs₀ : LogFs) (finished : List (WriteCall × Int))
    (fs : LogFs) : Prop where
  results : ∀ r ∈ finished, r.2 = r.1.buf.length ∨ r.2 = fail .efbig ∨ r.2 = fail .eio ∨
    r.2 = fail .efault
  visible : fs.visible = fs₀.visible ++ appended finished
  iSize : fs.iSize = fs₀.iSize + (appended finished).length
  block0 : fs.blocks 0 = fs₀.blocks 0
  block1 : fs.blocks 1 = fs₀.blocks 1
  bounded : fs.iSize = fs₀.iSize ∨ fs.iSize < maxFileSize

theorem appended_cons (r : WriteCall × Int) (finished : List (WriteCall × Int)) :
    appended (r :: finished) =
      (if r.2 = r.1.buf.length then r.1.buf else []) ++ appended finished := rfl

/-- A sequential run of writes appends the buffers of the calls that succeed. -/
theorem writeAll_appended {maxFileSize : Nat} {finished : List (WriteCall × Int)} :
    ∀ {fs₀ fs : LogFs}, fs₀.iSize ≤ lastPos →
      writeAll maxFileSize fs₀ (finished.map Prod.fst) = (fs, finished.map Prod.snd) →
      Appended maxFileSize fs₀ finished fs := by
  induction finished with
  | nil =>
    intro fs₀ fs _ h
    obtain rfl := (Prod.mk.inj h).1
    exact ⟨fun r hr => absurd hr (by simp), by simp [appended], by simp [appended], rfl, rfl,
      .inl rfl⟩
  | cons r finished ih =>
    intro fs₀ fs hpos h
    obtain ⟨call, res⟩ := r
    simp only [List.map_cons, writeAll] at h
    obtain ⟨hfs, hres⟩ := Prod.mk.inj h
    obtain ⟨hr, hrest⟩ := List.cons.inj hres
    have hspec := @onefilefsWrite_spec maxFileSize fs₀ hpos call
    have hnext := ih (hspec.lastPos hpos) (Prod.ext hfs hrest)
    cases hspec with
    | appended hlen hvis hsize h0 h1 hmax hlast hoff =>
      have hhead : appended ((call, res) :: finished) = call.buf ++ appended finished := by
        rw [appended_cons, if_pos (hr.symm.trans hlen)]
      refine ⟨?_, ?_, ?_, hnext.block0.trans h0, hnext.block1.trans h1, ?_⟩
      · rintro r' (_ | ⟨_, hr'⟩)
        · exact .inl (hr.symm.trans hlen)
        · exact hnext.results r' hr'
      · rw [hnext.visible, hvis, hhead, List.append_assoc]
      · rw [hnext.iSize, hsize, hhead, List.length_append]
        omega
      · refine .inr ?_
        rcases hnext.bounded with heq | hlt
        · have hle := call.buf_le
          have hp : lastPos < 2 ^ 44 := by decide
          have hm : maxRwCount < 2 ^ 31 := by decide
          rw [Nat.mod_eq_of_lt (by omega)] at hmax
          rw [heq, hsize]
          exact hmax
        · exact hlt
    | failed herr hsame hoff =>
      have hne : res ≠ (call.buf.length : Int) := by
        rw [← hr]
        rcases herr with he | he | he <;> rw [he] <;> exact fail_ne_length _ _
      have hhead : appended ((call, res) :: finished) = appended finished := by
        rw [appended_cons, if_neg hne, List.nil_append]
      refine ⟨?_, ?_, ?_, hnext.block0.trans hsame.block0, hnext.block1.trans hsame.block1, ?_⟩
      · rintro r' (_ | ⟨_, hr'⟩)
        · exact .inr (hr ▸ herr)
        · exact hnext.results r' hr'
      · rw [hnext.visible, hsame.visible, hhead]
      · rw [hnext.iSize, hsame.iSize, hhead]
      · rcases hnext.bounded with heq | hlt
        · exact .inl (heq.trans hsame.iSize)
        · exact .inr hlt

omit [DecidableEq τ] in
/-- At every moment the file system shows what the finished calls left. -/
theorem Consistent.sameLog {maxFileSize : Nat} {init base : LogFs} {w : Writers τ}
    (h : Consistent maxFileSize init base w) : SameLog base w.fs := by
  cases hlock : w.lockLog with
  | none => rw [h.free hlock]; exact .refl base
  | some t =>
    have hprog := (h.holder t (h.inside t hlock)).2
    cases hp : w.phase t with
    | looping call pos k rest => rw [hp] at hprog; exact hprog.2.1.same
    | outside => exact absurd hp (h.inside t hlock)
    | waiting call => rw [hp] at hprog; rw [show w.fs = base from hprog]; exact .refl base
    | entered call => rw [hp] at hprog; rw [show w.fs = base from hprog]; exact .refl base
    | unlockInode => rw [hp] at hprog; rw [show w.fs = base from hprog]; exact .refl base
    | unlockLog => rw [hp] at hprog; rw [show w.fs = base from hprog]; exact .refl base

/-- The log is an atomic append-only byte sequence. Under every schedule of any number of
writers, at every moment, the visible content is the initial one followed by the buffers of
the calls that returned their length, in the order they finished; every other call returned
`-EFBIG`, `-EIO` or `-EFAULT` and left nothing that shows; the first two blocks are as they
were; the size has not reached the maximum by a write; and every call that has entered
returns. -/
theorem write_appendOnly {maxFileSize : Nat} {init : Writers τ} (hidle : init.Idle)
    (hpos : init.fs.iSize < 2 ^ 42) (schedule : List τ) :
    Appended maxFileSize init.fs (init.run maxFileSize schedule).finished
      (init.run maxFileSize schedule).fs ∧
    ∀ t, ∃ n, ((init.run maxFileSize schedule).run maxFileSize (List.replicate n t)).phase t =
      .outside := by
  have hlast : init.fs.iSize ≤ lastPos := Nat.le_trans (Nat.le_of_lt hpos) (by decide)
  have hinit : Consistent maxFileSize init.fs init.fs init := by
    refine ⟨hlast, by rw [hidle.finished]; rfl, fun _ => rfl, ?_, ?_, ?_⟩
    · exact fun t ht => absurd (hidle.phase t) ht
    · exact fun t ht => absurd (hidle.lockLog.symm.trans ht) (by simp)
    · intro t
      rw [hidle.inodeLock, hidle.phase t]
      exact ⟨fun hs => absurd hs (by simp), fun hf => hf.elim⟩
  obtain ⟨base, h⟩ := @consistent_run τ _ maxFileSize init.fs schedule _ _ hinit
  have hseq := writeAll_appended hlast h.sequential
  have hsame := h.sameLog
  refine ⟨⟨hseq.results, ?_, ?_, ?_, ?_, ?_⟩, fun t => h.returns (le_refl _)⟩
  · rw [hsame.visible, hseq.visible]
  · rw [hsame.iSize, hseq.iSize]
  · rw [hsame.block0, hseq.block0]
  · rw [hsame.block1, hseq.block1]
  · rw [hsame.iSize]
    exact hseq.bounded

/-- Two writers on a device of four blocks; the block of the second one cannot be read. -/
def sampleWriters : Writers Bool where
  fs := { nblocks := 4, nblocks_le := by decide, blocks := fun _ _ => 0, iSize := 0 }
  lockLog := none
  inodeLock := none
  phase _ := .outside
  todo t := [{ buf := [97, 98, 99], buf_le := by decide, off := 0,
               io := { bread := fun _ => t, notCopied := fun _ => 0 } }]
  finished := []

/-- They take turns until both have their result. -/
def sampleSchedule : List Bool := (List.replicate 12 [true, false]).flatten

theorem write_appendOnly_two :
    (sampleWriters.run 8192 sampleSchedule).finished.map Prod.snd = [3, fail .eio] ∧
    Appended 8192 sampleWriters.fs (sampleWriters.run 8192 sampleSchedule).finished
      (sampleWriters.run 8192 sampleSchedule).fs ∧
    ∀ t, ∃ n, ((sampleWriters.run 8192 sampleSchedule).run 8192 (List.replicate n t)).phase t =
      .outside :=
  ⟨rfl, write_appendOnly ⟨rfl, rfl, fun _ => rfl, rfl⟩ (by decide) sampleSchedule⟩

end RefMonitor
