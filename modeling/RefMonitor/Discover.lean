import RefMonitor.Lifecycle
import RefMonitor.Defer

/-!
# `usctm.c` and the numbers of the system calls

The discovery module scans kernel memory for the system-call table: seven fixed slots hold one
word, which it takes for the address of `sys_ni_syscall`, and no slot from 1 to 133 holds it. It
publishes the first slots that hold this word as the parameter `free_entries`. The user library
reads the parameter's text and takes its first three numbers for the new system calls.

The reference monitor looks for free slots on its own: it takes the first word of the table that
occurs twice for the address of `sys_ni_syscall` (`get_entries`).

Results:
1. `map_atoi_strtok`: the library reads back the numbers that were printed.
2. `getSyscalNumber_free`: what it answers, whatever was asked before.
3. `initModule_holders`: what is published are the holders of the word.
4. `numbers_agree_iff`: the tables on which kernel and library agree.
-/

namespace RefMonitor
open CString Run

/-! ## The discovery module -/

/-- Kernel memory: the word at an address, and whether a page is mapped (`sys_vtpmo`). -/
structure Memory where
  word : Nat → UInt64
  mapped : Nat → Bool

/-- The words of a table that starts at the address. -/
def Memory.table (mem : Memory) (addr : Nat) : SyscallTable := fun i => mem.word (addr + 8 * i.val)

def pageSize : Nat := 4096
def firstNiSyscall : Nat := 134
def seventhNiSyscall : Nat := 236
/-- `SECOND_NI_SYSCALL` to `SEVENTH_NI_SYSCALL`. -/
def otherNiSyscalls : List Nat := [174, 182, 183, 214, 215, seventhNiSyscall]

/-- The word in the slot `FIRST_NI_SYSCALL` of a table. -/
def Memory.firstNi (mem : Memory) (addr : Nat) : UInt64 := mem.word (addr + 8 * firstNiSyscall)

/-- `good_area`; the loop starts at slot 1. -/
def goodArea (mem : Memory) (addr : Nat) : Bool :=
  (List.range' 1 (firstNiSyscall - 1)).all fun i => mem.word (addr + 8 * i) != mem.firstNi addr

/-- The pattern `validate_page` looks for. -/
def matchesPattern (mem : Memory) (addr : Nat) : Bool :=
  (mem.firstNi addr &&& 0x3 == 0) && mem.firstNi addr != 0 &&
  decide (0xffffffff00000000 < mem.firstNi addr) &&
  otherNiSyscalls.all (fun i => mem.firstNi addr == mem.word (addr + 8 * i)) && goodArea mem addr

/-- The loop of `validate_page` over the offsets that are left: the address of the table. It
breaks where the last slot would lie on an unmapped second page. -/
def validateFrom (mem : Memory) (page : Nat) : Nat → Nat → Option Nat
  | 0, _ => none
  | n + 1, i =>
    let newPage := page + i + seventhNiSyscall * 8
    if page + pageSize = newPage - newPage % pageSize ∧ mem.mapped newPage = false then none
    else if matchesPattern mem (page + i) then some (page + i)
    else validateFrom mem page n (i + 8)

def validatePage (mem : Memory) (page : Nat) : Option Nat :=
  validateFrom mem page (pageSize / 8) 0

def startAddr : Nat := 0xffffffff00000000
def maxAddr : Nat := 0xfffffffffff00000

/-- The loop of `syscall_table_finder` over the pages that are left. -/
def findFrom (mem : Memory) : Nat → Nat → Option Nat
  | 0, _ => none
  | n + 1, candidate =>
    match (if mem.mapped candidate then validatePage mem candidate else none) with
    | some addr => some addr
    | none => findFrom mem n (candidate + pageSize)

def syscallTableFinder (mem : Memory) : Option Nat :=
  findFrom mem ((maxAddr - startAddr) / pageSize) startAddr

def maxFree : Nat := 15

/-- What the module publishes. -/
structure Discovery where
  sysCallTableAddress : Nat
  sysNiSyscallAddress : UInt64
  freeEntries : List Nat

/-- `free_entries`: the first slots that hold the word; the rest of the array is zero. -/
def collectFree (table : SyscallTable) (word : UInt64) : List Nat :=
  let found := (holders table word).take maxFree
  found.map Fin.val ++ List.replicate (maxFree - found.length) 0

/-- `init_module`; `none` when no table is found. -/
def initModule (mem : Memory) : Option Discovery :=
  (syscallTableFinder mem).map fun addr =>
    { sysCallTableAddress := addr
      sysNiSyscallAddress := mem.firstNi addr
      freeEntries := collectFree (mem.table addr) (mem.firstNi addr) }

/-! ## The user library -/

/-- The text of an array parameter: the numbers with commas between them, and a newline. -/
def parameterText : List Nat → List UInt8
  | [] => []
  | [n] => printD (UInt32.ofNat n) ++ ascii "\n"
  | n :: m :: ns => printD (UInt32.ofNat n) ++ comma :: parameterText (m :: ns)

/-- The tokens `strtok` returns one after the other: the fields that are not empty. -/
def strtok (text : List UInt8) (delimiter : UInt8) : List (List UInt8) :=
  ((cstr text).splitOn delimiter).filter fun field => field != []

def isDigit (c : UInt8) : Bool := decide (48 ≤ c ∧ c ≤ 57)

def isSpace (c : UInt8) : Bool := c == 32 || decide (9 ≤ c ∧ c ≤ 13)

/-- `atoi`: white space, a sign, and the digits that follow. -/
def atoi (text : List UInt8) : Int :=
  let text := text.dropWhile isSpace
  let number (digits : List UInt8) : Int :=
    (digits.takeWhile isDigit).foldl (fun n c => n * 10 + (c.toNat - 48 : Nat)) 0
  match text with
  | [] => 0
  | c :: rest => if c = 45 then -number rest else if c = 43 then number rest else number (c :: rest)

/-- `empty` and `syscall_cache`. -/
structure SyscallCache where
  empty : Bool
  numbers : List Int

def SyscallCache.fresh : SyscallCache := { empty := true, numbers := [0, 0, 0] }

/-- The file is read into `char buff[256]` and `buff[r]` is set to NUL. -/
def readNumbers (file : List UInt8) : Except Fault SyscallCache :=
  if 256 ≤ file.length then .error .arrayBound
  else
    let found := ((strtok file comma).take 3).map atoi
    .ok { empty := false, numbers := found ++ List.replicate (3 - found.length) 0 }

/-- The cache after it was filled if it had to be; `none` when the file cannot be opened. -/
def fillCache (file : Option (List UInt8)) (cache : SyscallCache) :
    Except Fault (Option SyscallCache) :=
  if cache.empty then
    match file with
    | none => .ok none
    | some file => (readNumbers file).map some
  else .ok (some cache)

/-- `get_syscal_number`; `EXIT_FAILURE` when the file cannot be opened. -/
def getSyscalNumber (file : Option (List UInt8)) (sysNumber : Int) (cache : SyscallCache) :
    Except Fault (Int × SyscallCache) :=
  if sysNumber < 0 ∨ 2 < sysNumber then .ok (-1, cache)
  else
    match fillCache file cache with
    | .error f => .error f
    | .ok none => .ok (1, cache)
    | .ok (some cache) => .ok (cache.numbers.getD sysNumber.toNat 0, cache)

/-- A call by the process, as a step of its cache. -/
def cacheStep (file : Option (List UInt8)) (cache : SyscallCache) (sysNumber : Int) :
    Except Fault SyscallCache :=
  (getSyscalNumber file sysNumber cache).map Prod.snd

/-! ## Reading the parameter back -/

/-- The number of a slot, printed: digits that are read back, also in front of a newline. -/
theorem printed_slot : ∀ i : Fin tableSize,
    atoi (printD (UInt32.ofNat i)) = i ∧ atoi (printD (UInt32.ofNat i) ++ ascii "\n") = i ∧
      (printD (UInt32.ofNat i)).length ≤ 3 ∧ comma ∉ printD (UInt32.ofNat i) ∧
      printD (UInt32.ofNat i) ≠ [] := by
  decide +kernel

theorem parameterText_nul (ns : List Nat) : (0 : UInt8) ∉ parameterText ns := by
  induction ns with
  | nil => exact List.not_mem_nil
  | cons n ns ih =>
    cases ns with
    | nil =>
      rw [parameterText, List.mem_append, not_or]
      exact ⟨zero_notMem_printD _, by decide⟩
    | cons m ns =>
      rw [parameterText, List.mem_append, List.mem_cons, not_or, not_or]
      exact ⟨zero_notMem_printD _, by decide, ih⟩

theorem length_parameterText {ns : List Nat} (h : ∀ n ∈ ns, n < tableSize) :
    (parameterText ns).length ≤ 4 * ns.length := by
  induction ns with
  | nil => exact Nat.le_refl 0
  | cons n ns ih =>
    obtain ⟨hn, hrest⟩ := List.forall_mem_cons.mp h
    have hlen := (printed_slot ⟨n, hn⟩).2.2.1
    dsimp only at hlen
    cases ns with
    | nil =>
      rw [parameterText, List.length_append]
      exact Nat.add_le_add_right hlen 1
    | cons m ns =>
      have hih := ih hrest
      rw [parameterText, List.length_append, List.length_cons, List.length_cons, Nat.mul_add]
      omega

theorem strtok_nil (delimiter : UInt8) : strtok [] delimiter = [] := by
  rw [strtok, cstr_nil, List.splitOn_nil]
  rfl

theorem strtok_single {text : List UInt8} {delimiter : UInt8} (hnul : (0 : UInt8) ∉ text)
    (hne : text ≠ []) (h : delimiter ∉ text) : strtok text delimiter = [text] := by
  rw [strtok, cstr_eq_self hnul, List.splitOn_eq_singleton h]
  exact List.filter_cons_of_pos (by simpa using hne)

theorem strtok_cons {text rest : List UInt8} {delimiter : UInt8}
    (hnul : (0 : UInt8) ∉ text ++ delimiter :: rest) (hne : text ≠ []) (h : delimiter ∉ text) :
    strtok (text ++ delimiter :: rest) delimiter = text :: strtok rest delimiter := by
  have hrest : (0 : UInt8) ∉ rest :=
    fun h0 => hnul (List.mem_append_right _ (List.mem_cons_of_mem _ h0))
  rw [strtok, cstr_eq_self hnul, List.splitOn_append_cons_self_of_not_mem h,
    List.filter_cons_of_pos (by simpa using hne), strtok, cstr_eq_self hrest]

/-- The tokens of the text are the numbers that were printed. -/
theorem map_atoi_strtok {ns : List Nat} (h : ∀ n ∈ ns, n < tableSize) :
    (strtok (parameterText ns) comma).map atoi = ns.map fun n : Nat => (n : Int) := by
  induction ns with
  | nil =>
    rw [parameterText, strtok_nil]
    rfl
  | cons n ns ih =>
    obtain ⟨hn, hrest⟩ := List.forall_mem_cons.mp h
    obtain ⟨hread, hreadLine, -, hcomma, hne⟩ := printed_slot ⟨n, hn⟩
    dsimp only at hread hreadLine hcomma hne
    have hnul := parameterText_nul (n :: ns)
    cases ns with
    | nil =>
      rw [parameterText] at hnul ⊢
      have hcomma' : comma ∉ printD (UInt32.ofNat n) ++ ascii "\n" := by
        rw [List.mem_append, not_or]
        exact ⟨hcomma, by decide⟩
      rw [strtok_single hnul (by simp [hne]) hcomma', List.map_singleton, hreadLine]
      rfl
    | cons m ns =>
      rw [parameterText] at hnul ⊢
      rw [strtok_cons hnul hne hcomma, List.map_cons, hread, ih hrest]
      rfl

/-! ## What the library answers -/

/-- The cache holds the first three numbers. -/
def SyscallCache.filled (ns : List Nat) : SyscallCache :=
  { empty := false, numbers := (ns.take 3).map fun n : Nat => (n : Int) }

theorem readNumbers_text {ns : List Nat} (h : ∀ n ∈ ns, n < tableSize) (hthree : 3 ≤ ns.length)
    (hmany : ns.length < 64) : readNumbers (parameterText ns) = .ok (.filled ns) := by
  have hlen := length_parameterText h
  rw [readNumbers, if_neg (by omega), List.map_take, map_atoi_strtok h, ← List.map_take]
  have hfound : (((ns.take 3).map fun n : Nat => (n : Int))).length = 3 := by
    rw [List.length_map, List.length_take, Nat.min_eq_left hthree]
  dsimp only
  rw [hfound, Nat.sub_self, List.replicate_zero, List.append_nil]
  rfl

/-- Before and after the first call, the library answers with the numbers of the file. -/
theorem getSyscalNumber_text {ns : List Nat} (h : ∀ n ∈ ns, n < tableSize) (hthree : 3 ≤ ns.length)
    (hmany : ns.length < 64) {cache : SyscallCache} (hcache : cache = .fresh ∨ cache = .filled ns)
    {sysNumber : Nat} (hnumber : sysNumber < 3) :
    getSyscalNumber (some (parameterText ns)) sysNumber cache =
      .ok (((ns.getD sysNumber 0 : Nat) : Int), .filled ns) := by
  have hfill : fillCache (some (parameterText ns)) cache = .ok (some (.filled ns)) := by
    rcases hcache with rfl | rfl
    · show (readNumbers (parameterText ns)).map some = _
      rw [readNumbers_text h hthree hmany]
      rfl
    · rfl
  have hget : (SyscallCache.filled ns).numbers.getD sysNumber 0 = ((ns.getD sysNumber 0 : Nat) : Int) := by
    rw [SyscallCache.filled, List.getD_eq_getElem?_getD, List.getElem?_map,
      List.getElem?_take_of_lt hnumber, List.getD_eq_getElem?_getD]
    cases ns[sysNumber]? with
    | none => rfl
    | some n => rfl
  rw [getSyscalNumber, if_neg (by omega), hfill]
  dsimp only
  rw [Int.toNat_natCast, hget]

theorem getSyscalNumber_other (file : Option (List UInt8)) {sysNumber : Int}
    (h : sysNumber < 0 ∨ 2 < sysNumber) (cache : SyscallCache) :
    getSyscalNumber file sysNumber cache = .ok (-1, cache) := by
  rw [getSyscalNumber, if_pos h]

/-- Whatever the process has asked before, it gets the numbers of the file. -/
theorem getSyscalNumber_free {ns : List Nat} (h : ∀ n ∈ ns, n < tableSize) (hthree : 3 ≤ ns.length)
    (hmany : ns.length < 64) (earlier : List Int) :
    EveryState (cacheStep (some (parameterText ns)))
      (fun cache => ∀ k < 3, ∃ cache', getSyscalNumber (some (parameterText ns)) (k : Nat) cache =
        .ok (((ns.getD k 0 : Nat) : Int), cache')) .fresh earlier := by
  have hstep : ∀ {cache : SyscallCache} {sysNumber : Int} {cache' : SyscallCache},
      cache = .fresh ∨ cache = .filled ns → True →
      cacheStep (some (parameterText ns)) cache sysNumber = .ok cache' →
      cache' = .fresh ∨ cache' = .filled ns := by
    intro cache sysNumber cache' hcache _ hs
    by_cases hout : sysNumber < 0 ∨ 2 < sysNumber
    · rw [cacheStep, getSyscalNumber_other _ hout] at hs
      cases hs
      exact hcache
    · obtain ⟨k, rfl⟩ := Int.eq_ofNat_of_zero_le (show 0 ≤ sysNumber by omega)
      rw [cacheStep, getSyscalNumber_text h hthree hmany hcache (by omega)] at hs
      cases hs
      exact .inr rfl
  exact EveryState.of_inv (fun hcache k hk => ⟨_, getSyscalNumber_text h hthree hmany hcache hk⟩)
    hstep (.inl rfl) (EveryStep.of_forall (fun _ _ => trivial) earlier _)

/-! ## What is published -/

theorem validateFrom_matches {mem : Memory} {page addr : Nat} {n : Nat} :
    ∀ {i : Nat}, validateFrom mem page n i = some addr → matchesPattern mem addr = true := by
  induction n with
  | zero => exact fun h => by cases h
  | succ n ih =>
    intro i h
    rw [validateFrom] at h
    split at h
    · cases h
    · split at h
      · next hmatch =>
        cases h
        exact hmatch
      · exact ih h

theorem findFrom_matches {mem : Memory} {addr : Nat} {n : Nat} :
    ∀ {candidate : Nat}, findFrom mem n candidate = some addr → matchesPattern mem addr = true := by
  induction n with
  | zero => exact fun h => by cases h
  | succ n ih =>
    intro candidate h
    rw [findFrom] at h
    split at h
    · next addr' hpage =>
      cases h
      split at hpage
      · exact validateFrom_matches hpage
      · cases hpage
    · exact ih h

theorem nodup_niSlots :
    [(⟨134, by decide⟩ : Fin tableSize), ⟨174, by decide⟩, ⟨182, by decide⟩].Nodup := by
  decide

/-- An accepted table has the word in at least three slots. -/
theorem three_le_holders {mem : Memory} {addr : Nat} (h : matchesPattern mem addr = true) :
    3 ≤ (holders (mem.table addr) (mem.firstNi addr)).length := by
  rw [matchesPattern, Bool.and_eq_true, Bool.and_eq_true] at h
  have hother := List.all_eq_true.mp h.1.2
  have h174 : mem.word (addr + 8 * 174) = mem.firstNi addr :=
    (beq_iff_eq.mp (hother 174 (by decide))).symm
  have h182 : mem.word (addr + 8 * 182) = mem.firstNi addr :=
    (beq_iff_eq.mp (hother 182 (by decide))).symm
  refine (List.subperm_of_subset nodup_niSlots fun i hi => ?_).length_le
  rw [mem_holders]
  simp only [List.mem_cons, List.not_mem_nil, or_false] at hi
  rcases hi with rfl | rfl | rfl
  · rfl
  · exact h174
  · exact h182

theorem length_collectFree (table : SyscallTable) (word : UInt64) :
    (collectFree table word).length = maxFree := by
  rw [collectFree, List.length_append, List.length_map, List.length_replicate, List.length_take]
  omega

theorem collectFree_lt {table : SyscallTable} {word : UInt64} :
    ∀ n ∈ collectFree table word, n < tableSize := by
  intro n hn
  rcases List.mem_append.mp hn with hn | hn
  · obtain ⟨i, -, rfl⟩ := List.mem_map.mp hn
    exact i.isLt
  · rw [List.eq_of_mem_replicate hn]
    decide

/-- The first three entries are the first three slots that hold the word. -/
theorem take_collectFree {table : SyscallTable} {word : UInt64}
    (h : 3 ≤ (holders table word).length) :
    (collectFree table word).take 3 = ((holders table word).take 3).map Fin.val := by
  have hlen : 3 ≤ (((holders table word).take maxFree).map Fin.val).length := by
    rw [List.length_map, List.length_take]
    exact le_min (by decide) h
  rw [collectFree, List.take_append_of_le_length hlen, ← List.map_take, List.take_take]
  rfl

/-- What the module publishes about the table it has found. -/
theorem initModule_holders {mem : Memory} {d : Discovery} (h : initModule mem = some d) :
    3 ≤ (holders (mem.table d.sysCallTableAddress) d.sysNiSyscallAddress).length ∧
      d.freeEntries = collectFree (mem.table d.sysCallTableAddress) d.sysNiSyscallAddress := by
  obtain ⟨addr, haddr, rfl⟩ := Option.map_eq_some_iff.mp h
  exact ⟨three_le_holders (findFrom_matches haddr), rfl⟩

/-! ## Agreement -/

/-- The slots the three calls are installed in are the first three published entries, which the
library gives as their numbers, and every slot that was overwritten held the published word. -/
structure NumbersAgree (d : Discovery) (table : SyscallTable) (a : Answers) (m : Module)
    (sys : System) : Prop where
  slots : m.restore.map Fin.val = d.freeEntries.take hackedEntries
  installed : ∀ e ∈ m.restore.zip a.newSysCallArray.toList, sys.table e.1 = e.2
  numbers : ∀ earlier, EveryState (cacheStep (some (parameterText d.freeEntries)))
    (fun cache => ∀ (k : Nat) (slot : Fin tableSize), m.restore[k]? = some slot →
      ∃ cache', getSyscalNumber (some (parameterText d.freeEntries)) (k : Int) cache =
        .ok ((slot.val : Int), cache')) .fresh earlier
  overwritten : ∀ i, sys.table i ≠ table i → table i = d.sysNiSyscallAddress

/-- The first word of the table that occurs a second time is the published one, or it occurs too
seldom for `get_entries`. -/
def RepeatIsFree (table : SyscallTable) (word : UInt64) : Prop :=
  ∀ i z, firstRepeat table = some (i, z) →
    table i = word ∨ (holders table (table i)).length < hackedEntries

/-- The word `get_entries` takes is the published one. -/
theorem RepeatIsFree.entries {table : SyscallTable} {word addr : UInt64}
    {restore : List (Fin tableSize)} (h : RepeatIsFree table word)
    (hentries : getEntries hackedEntries table = some (restore, addr)) : addr = word := by
  obtain ⟨i, z, hfirst, rfl, hrestore, hlen⟩ := getEntries_holders hentries
  rcases h i z hfirst with hword | hfew
  · exact hword
  · rw [hrestore, List.length_take] at hlen
    omega

/-- Every slot of the list, with its position. -/
theorem getD_of_map_eq {restore : List (Fin tableSize)} {free : List Nat} {n k : Nat}
    {slot : Fin tableSize} (h : restore.map Fin.val = free.take n)
    (hk : restore[k]? = some slot) : free.getD k 0 = slot.val := by
  have hmap : (restore.map Fin.val)[k]? = some slot.val := by
    rw [List.getElem?_map, hk]
    rfl
  rw [h, List.getElem?_take] at hmap
  split at hmap
  · rw [List.getD_eq_getElem?_getD, hmap]
    rfl
  · cases hmap

/-- The published entries are three at least and few enough for the buffer of the library. -/
theorem initModule_freeEntries {mem : Memory} {d : Discovery} (h : initModule mem = some d) :
    d.freeEntries.take 3 = ((holders (mem.table d.sysCallTableAddress)
      d.sysNiSyscallAddress).take 3).map Fin.val ∧
    3 ≤ d.freeEntries.length ∧ d.freeEntries.length < 64 ∧ ∀ n ∈ d.freeEntries, n < tableSize := by
  obtain ⟨hthree, hfree⟩ := initModule_holders h
  rw [hfree, length_collectFree]
  exact ⟨take_collectFree hthree, by decide, by decide, collectFree_lt⟩

/-- When another word is repeated first, its first slot is overwritten, which is not published. -/
theorem repeat_disagrees {mem : Memory} {d : Discovery} (hfound : initModule mem = some d)
    {i z : Fin tableSize}
    (hfirst : firstRepeat (mem.table d.sysCallTableAddress) = some (i, z))
    (hne : mem.table d.sysCallTableAddress i ≠ d.sysNiSyscallAddress)
    (hmany : hackedEntries ≤ (holders (mem.table d.sysCallTableAddress)
      (mem.table d.sysCallTableAddress i)).length) (inodes : Inode → Attr) :
    ∃ m sys, referenceMonitorInit sampleParams sampleAnswers
        (insmod sampleParams (mem.table d.sysCallTableAddress) inodes) = .ok (m, sys) ∧
      ¬ NumbersAgree d (mem.table d.sysCallTableAddress) sampleAnswers m sys := by
  obtain ⟨htake, -⟩ := initModule_freeEntries hfound
  have hentries := getEntries_of_firstRepeat hfirst hmany
  refine ⟨_, _, referenceMonitorInit_ok.mpr ⟨sampleDigest, sample_loads_on hentries, rfl⟩,
    fun hagree => ?_⟩
  have hsame := hagree.slots.trans htake
  rw [(firstRepeat_some hfirst).holders_eq] at hsame
  have hmem : i.val ∈ ((holders (mem.table d.sysCallTableAddress)
      d.sysNiSyscallAddress).take 3).map Fin.val := by
    rw [← hsame]
    exact List.mem_cons_self ..
  obtain ⟨j, hj, hval⟩ := List.mem_map.mp hmem
  rw [← Fin.ext hval] at hne
  exact hne (mem_holders.mp (List.mem_of_mem_take hj))

theorem RepeatIsFree.agree {mem : Memory} {d : Discovery} (hfound : initModule mem = some d)
    (h : RepeatIsFree (mem.table d.sysCallTableAddress) d.sysNiSyscallAddress) {p : Params}
    {a : Answers} {m : Module} {digest : List UInt8} (inodes : Inode → Attr)
    (hloads : Loads p a (mem.table d.sysCallTableAddress) m digest) :
    NumbersAgree d (mem.table d.sysCallTableAddress) a m
      (loadedSystem p a (mem.table d.sysCallTableAddress) inodes m digest) := by
  obtain ⟨htake, hthree, hfew, hlt⟩ := initModule_freeEntries hfound
  obtain ⟨i, z, -, -, hrestore, hlen⟩ := getEntries_holders hloads.entries
  obtain ⟨-, hnodup, hheld⟩ := getEntries_spec hloads.entries
  have hword := h.entries hloads.entries
  have hslots : m.restore.map Fin.val = d.freeEntries.take hackedEntries := by
    rw [hrestore, hword]
    exact htake.symm
  have hcount : m.restore.length = a.newSysCallArray.toList.length := by
    rw [hlen, Vector.length_toList]
  refine ⟨hslots, fun e he => ?_, fun earlier => ?_, fun i hi => ?_⟩
  · have hkeys : (m.restore.zip a.newSysCallArray.toList).map Prod.fst = m.restore :=
      List.map_fst_zip (Nat.le_of_eq hcount)
    exact install_mem (by rw [hkeys]; exact hnodup) he
  · refine (getSyscalNumber_free hlt hthree hfew earlier).imp fun {cache} hcache k slot hk => ?_
    have hbound : k < 3 := by
      have hin := (List.getElem?_eq_some_iff.mp hk).1
      rw [hlen] at hin
      exact hin
    obtain ⟨cache', hget⟩ := hcache k hbound
    rw [getD_of_map_eq hslots hk] at hget
    exact ⟨cache', hget⟩
  · by_cases hmem : i ∈ m.restore
    · rw [hheld i hmem, hword]
    · exact absurd (installSyscalls_notMem hmem _) hi

/-- Kernel and user space agree on the numbers for every load of the module on the discovered
table exactly when the first repeated word of the table is that of `sys_ni_syscall`, or too rare
for the load to succeed. -/
theorem numbers_agree_iff (mem : Memory) (d : Discovery) (hfound : initModule mem = some d)
    (inodes : Inode → Attr) :
    (∀ p a m sys, referenceMonitorInit p a (insmod p (mem.table d.sysCallTableAddress) inodes) =
      .ok (m, sys) → NumbersAgree d (mem.table d.sysCallTableAddress) a m sys) ↔
    RepeatIsFree (mem.table d.sysCallTableAddress) d.sysNiSyscallAddress := by
  constructor
  · intro h i z hfirst
    by_contra hnot
    obtain ⟨hne, hmany⟩ := not_or.mp hnot
    obtain ⟨m, sys, hinit, hdisagree⟩ :=
      repeat_disagrees hfound hfirst hne (Nat.le_of_not_lt hmany) inodes
    exact hdisagree (h _ _ m sys hinit)
  · intro h p a m sys hinit
    obtain ⟨digest, hloads, rfl⟩ := referenceMonitorInit_ok.mp hinit
    exact h.agree hfound inodes hloads

/-! ## Two sample tables -/

/-- A table at the first address that is looked at. -/
def sampleMemory (others : Nat → Nat) : Memory where
  word addr :=
    let i := (addr - startAddr) / 8
    if i ∈ firstNiSyscall :: otherNiSyscalls then 0xffffffff81fff000 else UInt64.ofNat (others i)
  mapped _ := true

/-- All other system calls are different functions. -/
def plainMemory : Memory := sampleMemory fun i => 0xffffffff81000000 + 16 * i

/-- The first three slots hold one function. -/
def sharedMemory : Memory :=
  sampleMemory fun i => if i < 3 then 0xffffffff81000000 else 0xffffffff81000000 + 16 * i

def sampleDiscovery (mem : Memory) : Discovery where
  sysCallTableAddress := startAddr
  sysNiSyscallAddress := 0xffffffff81fff000
  freeEntries := collectFree (mem.table startAddr) 0xffffffff81fff000

theorem plainMemory_found : initModule plainMemory = some (sampleDiscovery plainMemory) := by
  have h : syscallTableFinder plainMemory = some startAddr := by decide +kernel
  rw [initModule, h]
  rfl

theorem sharedMemory_found : initModule sharedMemory = some (sampleDiscovery sharedMemory) := by
  have h : syscallTableFinder sharedMemory = some startAddr := by decide +kernel
  rw [initModule, h]
  rfl

theorem table_sampleMemory (others : Nat → Nat) (i : Fin tableSize) :
    (sampleMemory others).table startAddr i =
      if i.val ∈ firstNiSyscall :: otherNiSyscalls then 0xffffffff81fff000
      else UInt64.ofNat (others i.val) := by
  have hindex : (startAddr + 8 * i.val - startAddr) / 8 = i.val := by omega
  rw [Memory.table, sampleMemory]
  dsimp only
  rw [hindex]

theorem toNat_plainWord {i : Nat} (h : i < tableSize) :
    (UInt64.ofNat (0xffffffff81000000 + 16 * i)).toNat = 0xffffffff81000000 + 16 * i := by
  have hsize : UInt64.size = 0x10000000000000000 := rfl
  have htable : tableSize = 256 := rfl
  exact UInt64.toNat_ofNat_of_lt' (by omega)

/-- In the plain table only the word of `sys_ni_syscall` is repeated. -/
theorem plainMemory_repeat :
    RepeatIsFree (plainMemory.table startAddr) (sampleDiscovery plainMemory).sysNiSyscallAddress := by
  intro i z h
  obtain ⟨hlt, hsame, -, -⟩ := firstRepeat_some h
  refine .inl ?_
  rw [plainMemory, table_sampleMemory, table_sampleMemory] at hsame
  rw [plainMemory, table_sampleMemory]
  split
  · rfl
  · next hi =>
    exfalso
    rw [if_neg hi] at hsame
    have hnat := congrArg UInt64.toNat hsame
    have hi256 : i.val < 256 := i.isLt
    have hltNat : i.val < z.val := hlt
    split at hnat
    · rw [toNat_plainWord i.isLt] at hnat
      have hni : UInt64.toNat 0xffffffff81fff000 = 0xffffffff81fff000 := rfl
      omega
    · rw [toNat_plainWord i.isLt, toNat_plainWord z.isLt] at hnat
      omega

/-- Loaded on the table with the shared function, the monitor overwrites its slots. -/
theorem numbers_differ :
    initModule sharedMemory = some (sampleDiscovery sharedMemory) ∧
    ∃ m sys, referenceMonitorInit sampleParams sampleAnswers
        (insmod sampleParams (sharedMemory.table startAddr) fun _ => ⟨0o644, 0⟩) = .ok (m, sys) ∧
      ¬ NumbersAgree (sampleDiscovery sharedMemory) (sharedMemory.table startAddr) sampleAnswers
        m sys := by
  have hfirst : firstRepeat (sharedMemory.table startAddr) =
      some (⟨0, by decide⟩, ⟨1, by decide⟩) := by
    decide +kernel
  exact ⟨sharedMemory_found, repeat_disagrees sharedMemory_found hfirst (by decide +kernel)
    (by decide +kernel) _⟩

theorem numbers_agree_iff_plain :
    RepeatIsFree (plainMemory.table startAddr) 0xffffffff81fff000 ∧
    ∀ p a m sys, referenceMonitorInit p a
      (insmod p (plainMemory.table startAddr) fun _ => ⟨0o644, 0⟩) = .ok (m, sys) →
      NumbersAgree (sampleDiscovery plainMemory) (plainMemory.table startAddr) a m sys :=
  ⟨plainMemory_repeat, (numbers_agree_iff plainMemory (sampleDiscovery plainMemory)
    plainMemory_found fun _ => ⟨0o644, 0⟩).mpr plainMemory_repeat⟩

end RefMonitor
