import RefMonitor.Lifecycle

/-!
# `protect_memory`: writing a read-only table

The system-call table lies on read-only pages. `unprotect_memory` keeps CR0 in a global and clears
bit WP in the register of the processor it runs on; `protect_memory` writes the global back, into
the register of the processor it runs on. Nothing keeps the thread on one processor in between. A
store by a processor with WP set faults, and a processor the thread has left before
`protect_memory` stays able to write read-only pages.

Results:
1. `life_simulates`: over any number of loads and unloads, what becomes of the registers and of the
   table, and whether a store faults, is a matter of where the thread was.
2. `registers_kept_iff`: no store faults and all registers are kept if and only if no thread is
   moved between `unprotect_memory` and `protect_memory`.
3. `one_processor_keeps`: a thread that is not moved at all finds every register as it leaves it,
   so that a processor left writable stays so.
-/

namespace RefMonitor

variable {κ : Type}

/-! ## The source's functions -/

def x86Cr0Wp : UInt64 := 0x00010000

/-- Register CR0 of each processor, the global `cr0` and the table. -/
structure Cpus (κ : Type) where
  register : κ → UInt64
  cr0 : UInt64
  table : SyscallTable

/-- A store into the table; it faults on a processor with WP set. -/
def storeWord (k : κ) (slot : Fin tableSize) (word : UInt64) (c : Cpus κ) :
    Except (Cpus κ) (Cpus κ) :=
  if c.register k &&& x86Cr0Wp = 0 then .ok { c with table := Function.update c.table slot word }
  else .error c

/-- The loop over the entries. -/
def storeWords : (Nat → κ) → List (Fin tableSize × UInt64) → Cpus κ → Except (Cpus κ) (Cpus κ)
  | _, [], c => .ok c
  | stores, (slot, word) :: rest, c =>
    match storeWord (stores 0) slot word c with
    | .error c => .error c
    | .ok c => storeWords (fun i => stores (i + 1)) rest c

theorem storeWords_ok (stores : Nat → κ) {c : Cpus κ}
    {entries : List (Fin tableSize × UInt64)}
    (h : ∀ i < entries.length, c.register (stores i) &&& x86Cr0Wp = 0) :
    storeWords stores entries c =
      .ok { c with table := entries.foldl (fun t e => Function.update t e.1 e.2) c.table } := by
  induction entries generalizing stores c with
  | nil => rfl
  | cons e entries ih =>
    have hfirst : storeWord (stores 0) e.1 e.2 c =
        .ok { c with table := Function.update c.table e.1 e.2 } :=
      if_pos (h 0 (Nat.succ_pos _))
    rw [storeWords, hfirst]
    exact ih _ fun i hi => h (i + 1) (Nat.succ_lt_succ hi)

theorem storeWords_error (stores : Nat → κ) {c : Cpus κ}
    {entries : List (Fin tableSize × UInt64)} {i : Nat} (hi : i < entries.length)
    (h : c.register (stores i) &&& x86Cr0Wp ≠ 0) : ∃ c', storeWords stores entries c = .error c' := by
  induction entries generalizing stores c i with
  | nil => cases hi
  | cons e entries ih =>
    rw [storeWords]
    cases hstore : storeWord (stores 0) e.1 e.2 c with
    | error c' => exact ⟨c', rfl⟩
    | ok c' =>
      rw [storeWord] at hstore
      split at hstore
      · next hclear =>
        cases hstore
        cases i with
        | zero => exact absurd hclear h
        | succ i => exact ih _ (Nat.lt_of_succ_lt_succ hi) h
      · cases hstore

variable [DecidableEq κ]

def writeCr0Forced (k : κ) (val : UInt64) (c : Cpus κ) : Cpus κ :=
  { c with register := Function.update c.register k val }

def protectMemory (k : κ) (c : Cpus κ) : Cpus κ := writeCr0Forced k c.cr0 c

/-- `unprotect_memory` of a thread that reads the register on one processor and writes it on
another. -/
def unprotectMemory (reader writer : κ) (c : Cpus κ) : Cpus κ :=
  let c := { c with cr0 := c.register reader }
  writeCr0Forced writer (c.cr0 &&& ~~~x86Cr0Wp) c

/-- The processors a thread is on while it rewrites the table. -/
structure Placement (κ : Type) where
  reads : κ
  clears : κ
  stores : Nat → κ
  restores : κ

def rewriteTable (p : Placement κ) (entries : List (Fin tableSize × UInt64)) (c : Cpus κ) :
    Except (Cpus κ) (Cpus κ) :=
  match storeWords p.stores entries (unprotectMemory p.reads p.clears c) with
  | .error c => .error c
  | .ok c => .ok (protectMemory p.restores c)

/-! ## Loading and unloading -/

/-- The machine, and the globals `restore` and `the_ni_syscall` while the module is loaded. -/
structure Life (κ : Type) where
  cpus : Cpus κ
  loaded : Option (List (Fin tableSize) × UInt64)

/-- A load with the addresses of the three system calls. A load that fails further on unloads what
it has installed. -/
inductive ModuleEvent
  | load (newSysCallArray : Vector UInt64 hackedEntries)
  | unload

/-- One event. The machine of a thread that died is kept. -/
def lifeStep (s : Life κ) : ModuleEvent × Placement κ → Except (Cpus κ) (Life κ)
  | (.load newSysCallArray, p) =>
    match s.loaded with
    | some _ => .ok s
    | none =>
      match getEntries hackedEntries s.cpus.table with
      | none => .ok s
      | some (restore, theNiSyscall) =>
        (rewriteTable p (restore.zip newSysCallArray.toList) s.cpus).map fun c =>
          { cpus := c, loaded := some (restore, theNiSyscall) }
  | (.unload, p) =>
    match s.loaded with
    | none => .ok s
    | some (restore, theNiSyscall) =>
      (rewriteTable p (restore.map fun i => (i, theNiSyscall)) s.cpus).map fun c =>
        { cpus := c, loaded := none }

def lifeRun : List (ModuleEvent × Placement κ) → Life κ → Except (Cpus κ) (Life κ)
  | [], s => .ok s
  | e :: events, s =>
    match lifeStep s e with
    | .error c => .error c
    | .ok s => lifeRun events s

/-! ## What it comes to -/

/-- The system calls that are installed, and the processors that can write read-only pages. -/
structure Outline (κ : Type) where
  installed : Option (Vector UInt64 hackedEntries)
  writable : Finset κ

/-- The processors a rewriting leaves writable. What is restored has WP clear if it was read on a
writable processor. -/
def Placement.leaves (p : Placement κ) (writable : Finset κ) : Finset κ :=
  if p.reads ∈ writable then insert p.restores (insert p.clears writable)
  else (insert p.clears writable).erase p.restores

/-- All stores are made on writable processors. -/
def Placement.Finishes (p : Placement κ) (writable : Finset κ) : Prop :=
  ∀ i < hackedEntries, p.stores i ∈ insert p.clears writable

instance (p : Placement κ) (writable : Finset κ) : Decidable (p.Finishes writable) :=
  inferInstanceAs (Decidable (∀ i < hackedEntries, p.stores i ∈ insert p.clears writable))

def Outline.rewrite (a : Outline κ) (p : Placement κ)
    (installed : Option (Vector UInt64 hackedEntries)) : Option (Outline κ) :=
  if p.Finishes a.writable then some { installed := installed, writable := p.leaves a.writable }
  else none

def Outline.step (a : Outline κ) : ModuleEvent × Placement κ → Option (Outline κ)
  | (.load newSysCallArray, p) =>
    match a.installed with
    | some _ => some a
    | none => a.rewrite p (some newSysCallArray)
  | (.unload, p) =>
    match a.installed with
    | none => some a
    | some _ => a.rewrite p none

def Outline.run : List (ModuleEvent × Placement κ) → Outline κ → Option (Outline κ)
  | [], a => some a
  | e :: events, a => (a.step e).bind (Outline.run events)

/-- The table with the system calls that are installed. -/
def Outline.table (a : Outline κ) (table : SyscallTable) (restore : List (Fin tableSize)) :
    SyscallTable :=
  match a.installed with
  | none => table
  | some words => installSyscalls table restore words.toList

/-! ## The bit -/

section Bit

variable {v : UInt64} {writable : Finset κ} {c : Cpus κ} {p : Placement κ}

theorem clearWp_and_wp (v : UInt64) : v &&& ~~~x86Cr0Wp &&& x86Cr0Wp = 0 := by
  rw [UInt64.and_assoc, UInt64.not_and_self, UInt64.and_zero]

theorem clearWp_clearWp (v : UInt64) :
    v &&& ~~~x86Cr0Wp &&& ~~~x86Cr0Wp = v &&& ~~~x86Cr0Wp := by
  rw [UInt64.and_assoc, UInt64.and_self]

theorem clearWp_ne (hwp : v &&& x86Cr0Wp ≠ 0) : v &&& ~~~x86Cr0Wp ≠ v := by
  intro h
  rw [← h] at hwp
  exact hwp (clearWp_and_wp v)

/-- The registers are all the same but for bit WP, which is clear on the writable processors. -/
def Agrees (v : UInt64) (writable : Finset κ) (register : κ → UInt64) : Prop :=
  ∀ k, register k = if k ∈ writable then v &&& ~~~x86Cr0Wp else v

theorem Agrees.writable_iff (h : Agrees v writable c.register) (hwp : v &&& x86Cr0Wp ≠ 0) {k : κ} :
    c.register k &&& x86Cr0Wp = 0 ↔ k ∈ writable := by
  rw [h k]
  split
  · next hk => exact ⟨fun _ => hk, fun _ => clearWp_and_wp v⟩
  · next hk => exact ⟨fun hclear => absurd hclear hwp, fun hin => absurd hin hk⟩

theorem Agrees.unprotect (h : Agrees v writable c.register) (reader writer : κ) :
    Agrees v (insert writer writable) (unprotectMemory reader writer c).register := by
  intro k
  show Function.update c.register writer (c.register reader &&& ~~~x86Cr0Wp) k = _
  rcases eq_or_ne k writer with rfl | hk
  · rw [Function.update_self, if_pos (Finset.mem_insert_self ..), h reader]
    split
    · exact clearWp_clearWp v
    · rfl
  · rw [Function.update_of_ne hk, h k]
    simp [hk]

/-- What is written back is what was read, the register of a writable processor or of another. -/
theorem Agrees.protect {k : κ} (wasWritable : Prop) [Decidable wasWritable]
    (h : Agrees v writable c.register)
    (hcr0 : c.cr0 = if wasWritable then v &&& ~~~x86Cr0Wp else v) :
    Agrees v (if wasWritable then insert k writable else writable.erase k)
      (protectMemory k c).register := by
  intro j
  show Function.update c.register k c.cr0 j = _
  rcases eq_or_ne j k with rfl | hj
  · rw [Function.update_self, hcr0]
    split
    · rw [if_pos (Finset.mem_insert_self ..)]
    · rw [if_neg (Finset.notMem_erase _ _)]
  · rw [Function.update_of_ne hj, h j]
    split <;> split <;> simp_all

end Bit

/-! ## One rewriting -/

section Rewriting

variable {v : UInt64} {writable : Finset κ} {c : Cpus κ} {p : Placement κ}
  {entries : List (Fin tableSize × UInt64)}

theorem rewriteTable_finishes (h : Agrees v writable c.register) (hwp : v &&& x86Cr0Wp ≠ 0)
    (hlen : entries.length = hackedEntries) (hfinish : p.Finishes writable) :
    ∃ c', rewriteTable p entries c = .ok c' ∧ Agrees v (p.leaves writable) c'.register ∧
      c'.table = entries.foldl (fun t e => Function.update t e.1 e.2) c.table := by
  have hunprotect := h.unprotect p.reads p.clears
  have hstores := storeWords_ok p.stores fun i hi =>
    (hunprotect.writable_iff hwp).mpr (hfinish i (hlen ▸ hi))
  rw [rewriteTable, hstores]
  refine ⟨_, rfl, ?_, rfl⟩
  exact Agrees.protect (p.reads ∈ writable) hunprotect (h p.reads)

theorem rewriteTable_faults (h : Agrees v writable c.register) (hwp : v &&& x86Cr0Wp ≠ 0)
    (hlen : entries.length = hackedEntries) (hfinish : ¬ p.Finishes writable) :
    ∃ c', rewriteTable p entries c = .error c' := by
  have hunprotect := h.unprotect p.reads p.clears
  obtain ⟨i, hi⟩ := not_forall.mp hfinish
  obtain ⟨hlt, hout⟩ := Classical.not_imp.mp hi
  obtain ⟨c', hc'⟩ := storeWords_error p.stores (hlen ▸ hlt) fun hclear =>
    hout ((hunprotect.writable_iff hwp).mp hclear)
  exact ⟨c', by rw [rewriteTable, hc']⟩

end Rewriting

/-! ## The whole life -/

section Lives

variable {v : UInt64} {table : SyscallTable} {restore : List (Fin tableSize)} {theNiSyscall : UInt64}

/-- The machine is as the outline says. -/
structure Outlined (v : UInt64) (table : SyscallTable) (restore : List (Fin tableSize))
    (theNiSyscall : UInt64) (a : Outline κ) (s : Life κ) : Prop where
  registers : Agrees v a.writable s.cpus.register
  table : s.cpus.table = a.table table restore
  loaded : s.loaded = a.installed.map fun _ => (restore, theNiSyscall)

theorem Outlined.initial (v : UInt64) (table : SyscallTable) (restore : List (Fin tableSize))
    (theNiSyscall cr0 : UInt64) :
    Outlined v table restore theNiSyscall ({ installed := none, writable := ∅ } : Outline κ)
      { cpus := { register := fun _ => v, cr0 := cr0, table := table }, loaded := none } where
  registers k := (if_neg (Finset.notMem_empty k)).symm
  table := rfl
  loaded := rfl

/-- Both runs come to an end alike. -/
inductive Simulates (v : UInt64) (table : SyscallTable) (restore : List (Fin tableSize))
    (theNiSyscall : UInt64) : Except (Cpus κ) (Life κ) → Option (Outline κ) → Prop
  | runs {s : Life κ} {a : Outline κ} :
      Outlined v table restore theNiSyscall a s → Simulates v table restore theNiSyscall (.ok s) (some a)
  | dies (c : Cpus κ) : Simulates v table restore theNiSyscall (.error c) none

/-- A rewriting with the table it makes. -/
theorem Outlined.rewrite {a : Outline κ} {s : Life κ} {p : Placement κ}
    {entries : List (Fin tableSize × UInt64)} (installed : Option (Vector UInt64 hackedEntries))
    (h : Outlined v table restore theNiSyscall a s) (hwp : v &&& x86Cr0Wp ≠ 0)
    (hlen : entries.length = hackedEntries)
    (htable : entries.foldl (fun t e => Function.update t e.1 e.2) s.cpus.table =
      Outline.table ⟨installed, p.leaves a.writable⟩ table restore) :
    Simulates v table restore theNiSyscall
      ((rewriteTable p entries s.cpus).map fun c =>
        { cpus := c, loaded := installed.map fun _ => (restore, theNiSyscall) })
      (a.rewrite p installed) := by
  rcases em (p.Finishes a.writable) with hfinish | hfinish
  · obtain ⟨c', hc', hregisters, hc'table⟩ := rewriteTable_finishes h.registers hwp hlen hfinish
    rw [hc', Outline.rewrite, if_pos hfinish]
    exact .runs ⟨hregisters, hc'table.trans htable, rfl⟩
  · obtain ⟨c', hc'⟩ := rewriteTable_faults h.registers hwp hlen hfinish
    rw [hc', Outline.rewrite, if_neg hfinish]
    exact .dies c'

theorem Outlined.step {a : Outline κ} {s : Life κ} (h : Outlined v table restore theNiSyscall a s)
    (hwp : v &&& x86Cr0Wp ≠ 0)
    (hentries : getEntries hackedEntries table = some (restore, theNiSyscall))
    (e : ModuleEvent × Placement κ) :
    Simulates v table restore theNiSyscall (lifeStep s e) (a.step e) := by
  obtain ⟨event, p⟩ := e
  obtain ⟨hlen, -, hholds⟩ := getEntries_spec hentries
  have hloaded := h.loaded
  have htable := h.table
  obtain ⟨installed, writable⟩ := a
  cases event with
  | load words =>
    cases installed with
    | some old =>
      have hstep : lifeStep s (.load words, p) = .ok s := by rw [lifeStep, hloaded]; rfl
      rw [hstep]
      exact .runs h
    | none =>
      have hstep : lifeStep s (.load words, p) =
          (rewriteTable p (restore.zip words.toList) s.cpus).map fun c =>
            { cpus := c, loaded := some (restore, theNiSyscall) } := by
        rw [lifeStep, hloaded]
        dsimp only [Option.map]
        rw [htable]
        dsimp only [Outline.table]
        rw [hentries]
      rw [hstep]
      refine h.rewrite (some words) hwp ?_ ?_
      · rw [List.length_zip, hlen, Vector.length_toList, Nat.min_self]
      · rw [htable]
        rfl
  | unload =>
    cases installed with
    | none =>
      have hstep : lifeStep s (.unload, p) = .ok s := by rw [lifeStep, hloaded]; rfl
      rw [hstep]
      exact .runs h
    | some words =>
      have hstep : lifeStep s (.unload, p) =
          (rewriteTable p (restore.map fun i => (i, theNiSyscall)) s.cpus).map fun c =>
            { cpus := c, loaded := none } := by
        rw [lifeStep, hloaded]
        rfl
      rw [hstep]
      refine h.rewrite none hwp (by rw [List.length_map, hlen]) ?_
      rw [List.foldl_map, htable]
      exact unload_install hholds words.toList

theorem Outlined.run {a : Outline κ} {s : Life κ} (h : Outlined v table restore theNiSyscall a s)
    (hwp : v &&& x86Cr0Wp ≠ 0)
    (hentries : getEntries hackedEntries table = some (restore, theNiSyscall))
    (events : List (ModuleEvent × Placement κ)) :
    Simulates v table restore theNiSyscall (lifeRun events s) (Outline.run events a) := by
  induction events generalizing a s with
  | nil => exact .runs h
  | cons e events ih =>
    have hstep := h.step hwp hentries e
    rw [lifeRun, Outline.run]
    generalize lifeStep s e = r at hstep
    generalize a.step e = o at hstep
    cases hstep with
    | runs h' => exact ih h'
    | dies c => exact .dies c

end Lives

/-- Over any number of loads and unloads, on any processors, from a machine on which the module is
not loaded and all processors have the same CR0 with WP set: a store faults, a processor is left
writable and the table has new words exactly where the outline says so. -/
theorem life_simulates (table : SyscallTable) (restore : List (Fin tableSize))
    (theNiSyscall : UInt64)
    (hentries : getEntries hackedEntries table = some (restore, theNiSyscall)) (v : UInt64)
    (hwp : v &&& x86Cr0Wp ≠ 0) (cr0 : UInt64) (events : List (ModuleEvent × Placement κ)) :
    Simulates v table restore theNiSyscall
      (lifeRun events
        { cpus := { register := fun _ => v, cr0 := cr0, table := table }, loaded := none })
      (Outline.run events { installed := none, writable := ∅ }) :=
  (Outlined.initial v table restore theNiSyscall cr0).run hwp hentries events

/-- A thread on the first of two processors, which is moved to the second before it restores
CR0. -/
def sampleMoved : Placement Bool where
  reads := false
  clears := false
  stores _ := false
  restores := true

def sampleCpus : Cpus Bool where
  register _ := 0x80050033
  cr0 := 0
  table := sampleTable

theorem life_simulates_sample :
    ∃ s, lifeRun [(.load sampleAnswers.newSysCallArray, sampleMoved)]
        { cpus := sampleCpus, loaded := none } = .ok s ∧
      Agrees 0x80050033 {false} s.cpus.register := by
  have hsim := life_simulates sampleTable sampleModule.restore sampleModule.theNiSyscall
    sampleTable_entries 0x80050033 (by decide) 0
    [(.load sampleAnswers.newSysCallArray, sampleMoved)]
  have hrun : Outline.run [(.load sampleAnswers.newSysCallArray, sampleMoved)]
      { installed := none, writable := ∅ } =
        some { installed := some sampleAnswers.newSysCallArray, writable := {false} } := rfl
  rw [hrun] at hsim
  generalize hlife : lifeRun [(.load sampleAnswers.newSysCallArray, sampleMoved)] _ = r at hsim
  cases hsim with
  | runs h => exact ⟨_, hlife, h.registers⟩

/-! ## When the registers are kept -/

/-- The placements of the events that rewrite the table. -/
def rewritings : Bool → List (ModuleEvent × Placement κ) → List (Placement κ)
  | _, [] => []
  | false, (.load _, p) :: events => p :: rewritings true events
  | true, (.unload, p) :: events => p :: rewritings false events
  | true, (.load _, _) :: events => rewritings true events
  | false, (.unload, _) :: events => rewritings false events

/-- From the clearing of the bit to its restoring the thread stays on one processor. -/
structure Placement.Stays (p : Placement κ) : Prop where
  stores : ∀ i < hackedEntries, p.stores i = p.clears
  restores : p.restores = p.clears

section Kept

variable {p : Placement κ} {installed : Option (Vector UInt64 hackedEntries)}

/-- Every prefix of the run finishes without a writable processor. -/
def Outline.Closed (a : Outline κ) (events : List (ModuleEvent × Placement κ)) : Prop :=
  ∀ done, done <+: events → ∃ a', Outline.run done a = some a' ∧ a'.writable = ∅

theorem Outline.closed_cons {a : Outline κ} {e : ModuleEvent × Placement κ}
    {events : List (ModuleEvent × Placement κ)} (ha : a.writable = ∅) :
    a.Closed (e :: events) ↔ ∃ a', a.step e = some a' ∧ a'.Closed events := by
  constructor
  · intro h
    obtain ⟨a', hstep, -⟩ := h [e] (List.prefix_append [e] events)
    rw [Outline.run, Option.bind_eq_some_iff] at hstep
    obtain ⟨b, hb, -⟩ := hstep
    refine ⟨b, hb, fun done hdone => ?_⟩
    obtain ⟨c, hc, hclosed⟩ := h (e :: done) (List.cons_prefix_cons.mpr ⟨rfl, hdone⟩)
    rw [Outline.run, hb] at hc
    exact ⟨c, hc, hclosed⟩
  · rintro ⟨b, hb, h⟩ done hdone
    cases done with
    | nil => exact ⟨a, rfl, ha⟩
    | cons e' done =>
      obtain ⟨rfl, hrest⟩ := List.cons_prefix_cons.mp hdone
      obtain ⟨c, hc, hclosed⟩ := h done hrest
      exact ⟨c, by rw [Outline.run, hb]; exact hc, hclosed⟩

theorem Outline.Closed.writable {a : Outline κ} {events : List (ModuleEvent × Placement κ)}
    (h : a.Closed events) : a.writable = ∅ := by
  obtain ⟨a', ha', hempty⟩ := h [] List.nil_prefix
  cases ha'
  exact hempty

theorem Placement.finishes_empty : p.Finishes ∅ ↔ ∀ i < hackedEntries, p.stores i = p.clears := by
  simp [Placement.Finishes]

theorem Placement.leaves_empty : p.leaves ∅ = ∅ ↔ p.restores = p.clears := by
  rw [Placement.leaves, if_neg (Finset.notMem_empty _)]
  constructor
  · intro h
    rcases eq_or_ne p.restores p.clears with heq | hne
    · exact heq
    · have hleft : p.clears ∈ (insert p.clears ∅ : Finset κ).erase p.restores :=
        Finset.mem_erase.mpr ⟨hne.symm, Finset.mem_insert_self _ _⟩
      rw [h] at hleft
      exact absurd hleft (Finset.notMem_empty _)
  · intro h
    rw [h, Finset.erase_insert (Finset.notMem_empty _)]

theorem Outline.rewrite_closed {events : List (ModuleEvent × Placement κ)}
    (ih : ∀ installed, Outline.Closed ⟨installed, ∅⟩ events ↔
      ∀ q ∈ rewritings installed.isSome events, q.Stays)
    (before after : Option (Vector UInt64 hackedEntries)) :
    (∃ a', Outline.rewrite ⟨before, ∅⟩ p after = some a' ∧ a'.Closed events) ↔
      ∀ q ∈ p :: rewritings after.isSome events, q.Stays := by
  rw [List.forall_mem_cons, Outline.rewrite]
  dsimp only
  constructor
  · rintro ⟨a', ha', hclosed⟩
    split at ha'
    · next hfinish =>
      cases ha'
      have hleaves : p.leaves ∅ = ∅ := hclosed.writable
      rw [hleaves] at hclosed
      exact ⟨⟨Placement.finishes_empty.mp hfinish, Placement.leaves_empty.mp hleaves⟩,
        (ih after).mp hclosed⟩
    · cases ha'
  · rintro ⟨hstays, hrest⟩
    rw [if_pos (Placement.finishes_empty.mpr hstays.stores),
      Placement.leaves_empty.mpr hstays.restores]
    exact ⟨_, rfl, (ih after).mpr hrest⟩

theorem Outline.closed_iff (events : List (ModuleEvent × Placement κ)) :
    ∀ installed, Outline.Closed ⟨installed, ∅⟩ events ↔
      ∀ p ∈ rewritings installed.isSome events, p.Stays := by
  induction events with
  | nil =>
    intro installed
    constructor
    · intro _ p hp
      cases installed <;> cases hp
    · intro _ done hdone
      rw [List.prefix_nil.mp hdone]
      exact ⟨_, rfl, rfl⟩
  | cons e events ih =>
    obtain ⟨event, p⟩ := e
    intro installed
    rw [Outline.closed_cons rfl]
    cases event with
    | load words =>
      cases installed with
      | none => exact Outline.rewrite_closed ih none (some words)
      | some old => simpa [Outline.step, rewritings] using ih (some old)
    | unload =>
      cases installed with
      | none => simpa [Outline.step, rewritings] using ih none
      | some old => exact Outline.rewrite_closed ih (some old) none

end Kept

/-- In every life, from a machine on which the module is not loaded and all processors have the
same CR0 with WP set: no store ever faults and every processor has its CR0 back after each event,
if and only if in every load and unload that rewrites the table the thread stays on one processor
from the clearing of the bit to its restoring. Where it was when CR0 was read does not matter. -/
theorem registers_kept_iff (table : SyscallTable) (restore : List (Fin tableSize))
    (theNiSyscall : UInt64)
    (hentries : getEntries hackedEntries table = some (restore, theNiSyscall)) (v : UInt64)
    (hwp : v &&& x86Cr0Wp ≠ 0) (cr0 : UInt64) (events : List (ModuleEvent × Placement κ)) :
    (∀ done, done <+: events → ∃ s',
        lifeRun done
          { cpus := { register := fun _ => v, cr0 := cr0, table := table }, loaded := none } =
            .ok s' ∧ s'.cpus.register = fun _ => v) ↔
      ∀ p ∈ rewritings false events, p.Stays := by
  refine Iff.trans ?_ (Outline.closed_iff events none)
  refine forall₂_congr fun done _ => ?_
  have hsim := (Outlined.initial v table restore theNiSyscall cr0).run hwp hentries done
  generalize lifeRun done _ = r at hsim ⊢
  generalize Outline.run done _ = o at hsim ⊢
  cases hsim with
  | dies c => simp
  | @runs s a h =>
    constructor
    · rintro ⟨s', hs', hregister⟩
      cases hs'
      refine ⟨a, rfl, Finset.eq_empty_of_forall_notMem fun k hk => ?_⟩
      have hk' := h.registers k
      rw [if_pos hk, hregister] at hk'
      exact clearWp_ne hwp hk'.symm
    · rintro ⟨a', ha', hempty⟩
      cases ha'
      refine ⟨s, rfl, funext fun k => ?_⟩
      rw [h.registers k, hempty, if_neg (Finset.notMem_empty k)]

/-- One move is enough. -/
theorem registers_kept_iff_sample :
    ∃ done, done <+: [(.load sampleAnswers.newSysCallArray, sampleMoved)] ∧ ∀ s',
      lifeRun done { cpus := sampleCpus, loaded := none } = .ok s' →
        s'.cpus.register ≠ fun _ => 0x80050033 := by
  have hiff := registers_kept_iff sampleTable sampleModule.restore sampleModule.theNiSyscall
    sampleTable_entries 0x80050033 (by decide) 0
    [(.load sampleAnswers.newSysCallArray, sampleMoved)]
  have hmoved := fun hkept => (by decide : sampleMoved.restores ≠ sampleMoved.clears)
    (hiff.mp hkept sampleMoved List.mem_cons_self).restores
  obtain ⟨done, hdone⟩ := not_forall.mp hmoved
  obtain ⟨hstart, hlost⟩ := Classical.not_imp.mp hdone
  exact ⟨done, hstart, fun s' hs' hsame => hlost ⟨s', hs', hsame⟩⟩

/-! ## A thread that is not moved -/

/-- The thread is on one processor all the time. -/
def Placement.OnOne (p : Placement κ) : Prop :=
  ∃ k, p.reads = k ∧ p.clears = k ∧ (∀ i, p.stores i = k) ∧ p.restores = k

theorem Placement.OnOne.rewrite {p : Placement κ} (h : p.OnOne)
    (entries : List (Fin tableSize × UInt64)) (c : Cpus κ) :
    ∃ c', rewriteTable p entries c = .ok c' ∧ c'.register = c.register := by
  obtain ⟨k, hreads, hclears, hstores, hrestores⟩ := h
  have hclear : ∀ i < entries.length,
      (unprotectMemory k k c).register (p.stores i) &&& x86Cr0Wp = 0 := by
    intro i _
    rw [hstores i]
    show Function.update c.register k (c.register k &&& ~~~x86Cr0Wp) k &&& x86Cr0Wp = 0
    rw [Function.update_self]
    exact clearWp_and_wp _
  rw [rewriteTable, hreads, hclears, storeWords_ok p.stores hclear, hrestores]
  refine ⟨_, rfl, ?_⟩
  show Function.update (Function.update c.register k _) k (c.register k) = c.register
  rw [Function.update_idem, Function.update_eq_self]

/-- Loads and unloads of a thread that is not moved never fault, and each processor has at the end
the CR0 it had at the start, whatever it was: one that can write read-only pages still can. -/
theorem one_processor_keeps (events : List (ModuleEvent × Placement κ))
    (hone : ∀ e ∈ events, e.2.OnOne) (s : Life κ) :
    ∃ s', lifeRun events s = .ok s' ∧ s'.cpus.register = s.cpus.register := by
  induction events generalizing s with
  | nil => exact ⟨s, rfl, rfl⟩
  | cons e events ih =>
    obtain ⟨hfirst, hrest⟩ := List.forall_mem_cons.mp hone
    have hstep : ∃ s', lifeStep s e = .ok s' ∧ s'.cpus.register = s.cpus.register := by
      obtain ⟨event, p⟩ := e
      cases event with
      | load words =>
        rw [lifeStep]
        split
        · exact ⟨s, rfl, rfl⟩
        · split
          · exact ⟨s, rfl, rfl⟩
          · next restore theNiSyscall _ =>
            obtain ⟨c', hc', hkept⟩ :=
              hfirst.rewrite (restore.zip words.toList) s.cpus
            rw [hc']
            exact ⟨_, rfl, hkept⟩
      | unload =>
        rw [lifeStep]
        split
        · exact ⟨s, rfl, rfl⟩
        · next restore theNiSyscall _ =>
          obtain ⟨c', hc', hkept⟩ :=
            hfirst.rewrite (restore.map fun i => (i, theNiSyscall)) s.cpus
          rw [hc']
          exact ⟨_, rfl, hkept⟩
    obtain ⟨s₁, hs₁, hkept₁⟩ := hstep
    obtain ⟨s', hs', hkept⟩ := ih hrest s₁
    exact ⟨s', by rw [lifeRun, hs₁]; exact hs', hkept.trans hkept₁⟩

/-- The first processor is writable and stays so. -/
theorem one_processor_keeps_sample :
    ∃ s', lifeRun [(.load sampleAnswers.newSysCallArray, ⟨false, false, fun _ => false, false⟩),
          (.unload, ⟨true, true, fun _ => true, true⟩)]
        { cpus := { sampleCpus with register := fun k => if k then 0x80050033 else 0x80040033 }
          loaded := none } = .ok s' ∧
      s'.cpus.register = fun k => if k then 0x80050033 else 0x80040033 :=
  one_processor_keeps _
    (List.forall_mem_cons.mpr ⟨⟨false, rfl, rfl, fun _ => rfl, rfl⟩,
      List.forall_mem_singleton.mpr ⟨true, rfl, rfl, fun _ => rfl, rfl⟩⟩) _

end RefMonitor
