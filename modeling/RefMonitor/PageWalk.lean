import RefMonitor.Discover

/-!
# `vtpmo.c`, and the pages the discovery touches

`sys_vtpmo` walks the page tables of the running kernel to find out whether a virtual page is
mapped. The discovery module asks it before it looks at a page, since reading an unmapped kernel
address is an oops.

What the processor does is `PageTables.page`: four levels of tables, with large pages at the
second and third. `sys_vtpmo` differs from it in three ways: it takes a 1 GiB page for a table, it
keeps bits 52 to 62 of an entry in the address, and it returns the number of the frame as an
`int`, of which `-1` says that there is none. `Plain` says of an address that none of this
matters; it is so for the addresses the discovery looks at when the kernel maps its image
with pages of 4 KiB and 2 MiB.

In the second part every access to memory of the discovery is made through the tables, and an
access to a page that is not there is a `PageFault`.

Results:
1. `sysVtpmo_page`: on plain addresses `sys_vtpmo` tells what the processor does.
2. `finder_never_faults`: the scan for the table touches mapped pages only.
3. `publish_faults_iff`: the slots behind the last one that is compared are read without asking.
-/

namespace RefMonitor

/-! ## The source's function -/

/-- Physical memory by words, and `cr3`. -/
structure PageTables where
  ram : Nat → UInt64
  cr3 : UInt64

def addressMask : UInt64 := 0xfffffffffffff000
def ptAddressMask : UInt64 := 0x7ffffffffffff000
def validBit : UInt64 := 0x1
def lhMapping : UInt64 := 0x80
def noMap : Int := -1

/-- `PML4(addr)`, `PDP(addr)`, `PDE(addr)` and `PTE(addr)`: nine bits of the address each. -/
def pml4 (addr : Nat) : Nat := addr / 2 ^ 39 % 512
def pdp (addr : Nat) : Nat := addr / 2 ^ 30 % 512
def pde (addr : Nat) : Nat := addr / 2 ^ 21 % 512
def pte (addr : Nat) : Nat := addr / 2 ^ 12 % 512

/-- The entry of a table; the tables are read at their address in the direct mapping (`__va`). -/
def PageTables.entry (t : PageTables) (table : UInt64) (index : Nat) : UInt64 :=
  t.ram (table.toNat + 8 * index)

def isValid (e : UInt64) : Bool := e &&& validBit != 0
def isLarge (e : UInt64) : Bool := e &&& lhMapping != 0

/-- `frame_number = frame_addr >> 12`, an `int`. -/
def frameNumber (frameAddr : UInt64) : Int := (BitVec.ofNat 32 (frameAddr.toNat / 2 ^ 12)).toInt

def sysVtpmo (t : PageTables) (vaddr : Nat) : Int :=
  let e4 := t.entry (t.cr3 &&& addressMask) (pml4 vaddr)
  if !isValid e4 then noMap
  else
    let e3 := t.entry (e4 &&& ptAddressMask) (pdp vaddr)
    if !isValid e3 then noMap
    else
      let e2 := t.entry (e3 &&& ptAddressMask) (pde vaddr)
      if !isValid e2 then noMap
      else if isLarge e2 then frameNumber (e2 &&& ptAddressMask)
      else
        let e1 := t.entry (e2 &&& ptAddressMask) (pte vaddr)
        if !isValid e1 then noMap else frameNumber (e1 &&& ptAddressMask)

/-! ## The processor -/

/-- The bits of an entry that are an address. -/
def addressBits : UInt64 := 0x000ffffffffff000

/-- The entries on the way to a page. -/
def PageTables.level4 (t : PageTables) (a : Nat) : UInt64 :=
  t.entry (t.cr3 &&& addressMask) (pml4 a)
def PageTables.level3 (t : PageTables) (a : Nat) : UInt64 :=
  t.entry (t.level4 a &&& addressBits) (pdp a)
def PageTables.level2 (t : PageTables) (a : Nat) : UInt64 :=
  t.entry (t.level3 a &&& addressBits) (pde a)
def PageTables.level1 (t : PageTables) (a : Nat) : UInt64 :=
  t.entry (t.level2 a &&& addressBits) (pte a)

/-- The physical address and the size of the page an address lies in. -/
def PageTables.page (t : PageTables) (a : Nat) : Option (Nat × Nat) :=
  if !isValid (t.level4 a) then none
  else if !isValid (t.level3 a) then none
  else if isLarge (t.level3 a) then
    some ((t.level3 a &&& 0x000fffffc0000000).toNat, 2 ^ 30)
  else if !isValid (t.level2 a) then none
  else if isLarge (t.level2 a) then
    some ((t.level2 a &&& 0x000fffffffe00000).toNat, 2 ^ 21)
  else if !isValid (t.level1 a) then none
  else some ((t.level1 a &&& addressBits).toNat, 2 ^ 12)

/-- The word at a virtual address, where a page is. -/
def PageTables.wordAt (t : PageTables) (a : Nat) : Option UInt64 :=
  (t.page a).map fun p => t.ram (p.1 + a % p.2)

/-- Bits 52 to 62 of the entry are clear. -/
def Clean (e : UInt64) : Prop := e &&& 0x7ff0000000000000 = 0

instance (e : UInt64) : Decidable (Clean e) :=
  inferInstanceAs (Decidable (e &&& 0x7ff0000000000000 = 0))

/-- On the way to the page there is no 1 GiB page and no entry that uses the high bits, and the page
lies in the first 8 TiB of the memory. -/
structure Plain (t : PageTables) (a : Nat) : Prop where
  level4 : isValid (t.level4 a) = true → Clean (t.level4 a)
  level3 : isValid (t.level4 a) = true → isValid (t.level3 a) = true →
    Clean (t.level3 a) ∧ isLarge (t.level3 a) = false
  level2 : isValid (t.level4 a) = true → isValid (t.level3 a) = true →
    isValid (t.level2 a) = true → Clean (t.level2 a)
  low : ∀ base size, t.page a = some (base, size) → base < 2 ^ 43
  level1 : isValid (t.level4 a) = true → isValid (t.level3 a) = true →
    isValid (t.level2 a) = true → isLarge (t.level2 a) = false → isValid (t.level1 a) = true →
    Clean (t.level1 a)

/-! ## The two walks -/

theorem and_or_of_and_eq_zero {e m k : UInt64} (h : e &&& m = 0) : e &&& (m ||| k) = e &&& k := by
  have hbits : e.toBitVec &&& m.toBitVec = 0#64 := congrArg UInt64.toBitVec h
  refine UInt64.eq_of_toBitVec_eq ?_
  show e.toBitVec &&& (m.toBitVec ||| k.toBitVec) = e.toBitVec &&& k.toBitVec
  rw [BitVec.and_or_distrib_left, hbits, BitVec.zero_or]

theorem Clean.mask {e : UInt64} (h : Clean e) : e &&& ptAddressMask = e &&& addressBits := by
  have hsplit : ptAddressMask = 0x7ff0000000000000 ||| addressBits := by decide
  rw [hsplit, and_or_of_and_eq_zero h]

/-- The address in the entry of a large page, where bit 12 is the PAT bit, is one in the page. -/
theorem large_lt {e : UInt64} (h : (e &&& 0x000fffffffe00000).toNat < 2 ^ 43) :
    (e &&& addressBits).toNat < 2 ^ 43 := by
  have hsplit : e &&& addressBits = (e &&& 0x1ff000) ||| (e &&& 0x000fffffffe00000) := by
    have hmask : addressBits = 0x1ff000 ||| 0x000fffffffe00000 := by decide
    refine UInt64.eq_of_toBitVec_eq ?_
    rw [hmask]
    exact BitVec.and_or_distrib_left
  have hlow : (e &&& 0x1ff000).toNat < 2 ^ 43 := by
    rw [UInt64.toNat_and]
    exact Nat.lt_of_le_of_lt Nat.and_le_right (by decide)
  rw [hsplit, UInt64.toNat_or]
  exact Nat.or_lt_two_pow hlow h

theorem frameNumber_of_lt {base : UInt64} (h : base.toNat < 2 ^ 43) :
    frameNumber base = (base.toNat / 2 ^ 12 : Nat) := by
  have hlt : base.toNat / 2 ^ 12 < 2 ^ 31 := Nat.div_lt_of_lt_mul h
  have hnat : (BitVec.ofNat 32 (base.toNat / 2 ^ 12)).toNat = base.toNat / 2 ^ 12 := by
    rw [BitVec.toNat_ofNat]
    exact Nat.mod_eq_of_lt (Nat.lt_trans hlt (by decide))
  rw [frameNumber, BitVec.toInt_eq_toNat_of_lt (by rw [hnat]; omega), hnat]

/-- The walk of `sys_vtpmo` goes through the entries the processor uses. -/
theorem sysVtpmo_walk {t : PageTables} {a : Nat} (h : Plain t a) :
    sysVtpmo t a =
      if !isValid (t.level4 a) then noMap
      else if !isValid (t.level3 a) then noMap
      else if !isValid (t.level2 a) then noMap
      else if isLarge (t.level2 a) then frameNumber (t.level2 a &&& addressBits)
      else if !isValid (t.level1 a) then noMap
      else frameNumber (t.level1 a &&& addressBits) := by
  have h4 : t.entry (t.cr3 &&& addressMask) (pml4 a) = t.level4 a := rfl
  unfold sysVtpmo
  dsimp only
  rw [h4]
  cases hv4 : isValid (t.level4 a) with
  | false => simp
  | true =>
    have h3 : t.entry (t.level4 a &&& ptAddressMask) (pdp a) = t.level3 a := by
      rw [(h.level4 hv4).mask]
      rfl
    rw [h3]
    cases hv3 : isValid (t.level3 a) with
    | false => simp
    | true =>
      have h2 : t.entry (t.level3 a &&& ptAddressMask) (pde a) = t.level2 a := by
        rw [(h.level3 hv4 hv3).1.mask]
        rfl
      rw [h2]
      cases hv2 : isValid (t.level2 a) with
      | false => simp
      | true =>
        have hmask := (h.level2 hv4 hv3 hv2).mask
        have h1 : t.entry (t.level2 a &&& addressBits) (pte a) = t.level1 a := rfl
        rw [hmask, h1]
        cases hlarge : isLarge (t.level2 a) with
        | true => simp
        | false =>
          cases hv1 : isValid (t.level1 a) with
          | false => simp
          | true => rw [(h.level1 hv4 hv3 hv2 hlarge hv1).mask]

/-- On a plain address `sys_vtpmo` returns the number of a frame, and `NO_MAP` exactly when there is
no page. -/
theorem sysVtpmo_page {t : PageTables} {a : Nat} (h : Plain t a) :
    (t.page a = none ∧ sysVtpmo t a = noMap) ∨
    (∃ page, t.page a = some page ∧ 0 ≤ sysVtpmo t a) := by
  have hlow := h.low
  rw [sysVtpmo_walk h]
  unfold PageTables.page at hlow ⊢
  cases hv4 : isValid (t.level4 a) with
  | false => exact .inl ⟨rfl, rfl⟩
  | true =>
    cases hv3 : isValid (t.level3 a) with
    | false => exact .inl ⟨rfl, rfl⟩
    | true =>
      rw [hv4, hv3, (h.level3 hv4 hv3).2] at hlow
      rw [(h.level3 hv4 hv3).2]
      cases hv2 : isValid (t.level2 a) with
      | false => exact .inl ⟨rfl, rfl⟩
      | true =>
        rw [hv2] at hlow
        cases hlarge : isLarge (t.level2 a) with
        | true =>
          rw [hlarge] at hlow
          have hbase := hlow _ _ rfl
          refine .inr ⟨_, rfl, ?_⟩
          show 0 ≤ frameNumber (t.level2 a &&& addressBits)
          rw [frameNumber_of_lt (large_lt hbase)]
          exact Int.natCast_nonneg _
        | false =>
          rw [hlarge] at hlow
          cases hv1 : isValid (t.level1 a) with
          | false => exact .inl ⟨rfl, rfl⟩
          | true =>
            rw [hv1] at hlow
            have hbase := hlow _ _ rfl
            refine .inr ⟨_, rfl, ?_⟩
            show 0 ≤ frameNumber (t.level1 a &&& addressBits)
            rw [frameNumber_of_lt hbase]
            exact Int.natCast_nonneg _

theorem sysVtpmo_ne_noMap {t : PageTables} {a : Nat} (h : Plain t a) :
    sysVtpmo t a ≠ noMap ↔ (t.page a).isSome = true := by
  rcases sysVtpmo_page h with ⟨hpage, hv⟩ | ⟨page, hpage, hv⟩
  · rw [hpage, hv]
    exact ⟨fun hne => absurd rfl hne, fun hsome => by cases hsome⟩
  · rw [hpage]
    refine ⟨fun _ => rfl, fun _ heq => ?_⟩
    rw [heq, noMap] at hv
    exact absurd hv (by decide)

/-! ## Tables with one page in every 2 MiB -/

/-- One table of each level, at the addresses 0x1000 to 0x4000; only the first entry of the last
one is valid, and its page is at 0x5000. -/
def onePage (content : Nat → UInt64) : PageTables where
  ram a :=
    if a < 0x2000 then 0x2001
    else if a < 0x3000 then 0x3001
    else if a < 0x4000 then 0x4001
    else if a < 0x4008 then 0x5001
    else if a < 0x5000 then 0
    else content (a - 0x5000)
  cr3 := 0x1000

section OnePage

variable (content : Nat → UInt64) (a : Nat)

theorem onePage_level4 : (onePage content).level4 a = 0x2001 := by
  have hlt : pml4 a < 512 := Nat.mod_lt _ (by decide)
  have hroot : 0x1000 &&& addressMask = 0x1000 := by decide
  rw [PageTables.level4, show (onePage content).cr3 = 0x1000 from rfl, hroot]
  show (onePage content).ram (4096 + 8 * pml4 a) = _
  exact if_pos (by omega)

theorem onePage_level3 : (onePage content).level3 a = 0x3001 := by
  have hlt : pdp a < 512 := Nat.mod_lt _ (by decide)
  rw [PageTables.level3, onePage_level4]
  show (onePage content).ram (8192 + 8 * pdp a) = _
  rw [onePage]
  exact (if_neg (by omega)).trans (if_pos (by omega))

theorem onePage_level2 : (onePage content).level2 a = 0x4001 := by
  have hlt : pde a < 512 := Nat.mod_lt _ (by decide)
  rw [PageTables.level2, onePage_level3]
  show (onePage content).ram (12288 + 8 * pde a) = _
  rw [onePage]
  exact (if_neg (by omega)).trans ((if_neg (by omega)).trans (if_pos (by omega)))

theorem onePage_level1 :
    (onePage content).level1 a = if pte a = 0 then 0x5001 else 0 := by
  have hlt : pte a < 512 := Nat.mod_lt _ (by decide)
  rw [PageTables.level1, onePage_level2]
  show (onePage content).ram (16384 + 8 * pte a) = _
  rw [onePage]
  dsimp only
  rw [if_neg (by omega), if_neg (by omega), if_neg (by omega)]
  by_cases hzero : pte a = 0
  · rw [if_pos (by omega), if_pos hzero]
  · rw [if_neg (by omega), if_pos (by omega), if_neg hzero]

theorem onePage_page :
    (onePage content).page a = if pte a = 0 then some (0x5000, 2 ^ 12) else none := by
  rw [PageTables.page, onePage_level4, onePage_level3, onePage_level2, onePage_level1]
  by_cases hzero : pte a = 0
  · rw [if_pos hzero, if_pos hzero]
    rfl
  · rw [if_neg hzero, if_neg hzero]
    rfl

theorem onePage_plain : Plain (onePage content) a where
  level4 _ := by rw [onePage_level4]; decide
  level3 _ _ := by rw [onePage_level3]; decide
  level2 _ _ _ := by rw [onePage_level2]; decide
  low base size h := by
    rw [onePage_page] at h
    split at h
    · cases h
      decide
    · cases h
  level1 _ _ _ _ _ := by
    rw [onePage_level1]
    split
    · decide
    · decide

end OnePage

/-! ## Access through the tables -/

/-- The processor could not find the page of the address. -/
structure PageFault where
  address : Nat

def PageTables.present (t : PageTables) (a : Nat) : Bool := (t.page a).isSome

def PageTables.read (t : PageTables) (a : Nat) : Except PageFault UInt64 :=
  match t.wordAt a with
  | some w => .ok w
  | none => .error ⟨a⟩

/-- The loop of `good_area` from slot `i` on. -/
def goodAreaFrom (t : PageTables) (addr : Nat) : Nat → Nat → Except PageFault Bool
  | 0, _ => .ok true
  | n + 1, i => do
    let word ← t.read (addr + 8 * i)
    let ni ← t.read (addr + 8 * firstNiSyscall)
    if word == ni then .ok false else goodAreaFrom t addr n (i + 1)

/-- The comparisons of the slot `FIRST_NI_SYSCALL` with the others. -/
def sameWords (t : PageTables) (addr : Nat) : List Nat → Except PageFault Bool
  | [] => .ok true
  | i :: slots => do
    let ni ← t.read (addr + 8 * firstNiSyscall)
    let word ← t.read (addr + 8 * i)
    if ni == word then sameWords t addr slots else .ok false

/-- The condition of `validate_page`, from left to right. -/
def probePattern (t : PageTables) (addr : Nat) : Except PageFault Bool := do
  let ni ← t.read (addr + 8 * firstNiSyscall)
  if (ni &&& 0x3 == 0) && ni != 0 && decide (0xffffffff00000000 < ni) then
    let same ← sameWords t addr otherNiSyscalls
    if same then goodAreaFrom t addr (firstNiSyscall - 1) 1 else .ok false
  else .ok false

/-- `validate_page` over the offsets that are left. -/
def probeFrom (t : PageTables) (page : Nat) : Nat → Nat → Except PageFault (Option Nat)
  | 0, _ => .ok none
  | n + 1, i =>
    let newPage := page + i + seventhNiSyscall * 8
    if page + pageSize = newPage - newPage % pageSize ∧ sysVtpmo t newPage = noMap then .ok none
    else do
      let found ← probePattern t (page + i)
      if found then .ok (some (page + i)) else probeFrom t page n (i + 8)

/-- `syscall_table_finder` over the pages that are left. -/
def scanFrom (t : PageTables) : Nat → Nat → Except PageFault (Option Nat)
  | 0, _ => .ok none
  | n + 1, candidate =>
    if sysVtpmo t candidate = noMap then scanFrom t n (candidate + pageSize)
    else do
      let found ← probeFrom t candidate (pageSize / 8) 0
      match found with
      | some addr => .ok (some addr)
      | none => scanFrom t n (candidate + pageSize)

def scanKernel (t : PageTables) : Except PageFault (Option Nat) :=
  scanFrom t ((maxAddr - startAddr) / pageSize) startAddr

/-- The loop of `init_module` that fills `free_entries`, from slot `i` on. -/
def publishFrom (t : PageTables) (addr : Nat) (ni : UInt64) :
    Nat → Nat → List Nat → Except PageFault (List Nat)
  | 0, _, free => .ok free
  | n + 1, i, free => do
    let word ← t.read (addr + 8 * i)
    if word == ni then
      if maxFree ≤ free.length + 1 then .ok (free ++ [i])
      else publishFrom t addr ni n (i + 1) (free ++ [i])
    else publishFrom t addr ni n (i + 1) free

/-- `init_module`. -/
def initModuleOn (t : PageTables) : Except PageFault (Option Discovery) := do
  let found ← scanKernel t
  match found with
  | none => .ok none
  | some addr =>
    let ni ← t.read (addr + 8 * firstNiSyscall)
    let free ← publishFrom t addr ni tableSize 0 []
    .ok (some
      { sysCallTableAddress := addr
        sysNiSyscallAddress := ni
        freeEntries := free ++ List.replicate (maxFree - free.length) 0 })

/-- The memory as `Discover` has it: words where there is a page, and the answers of
`sys_vtpmo`. -/
def PageTables.memory (t : PageTables) : Memory where
  word a := (t.wordAt a).getD 0
  mapped a := decide (sysVtpmo t a ≠ noMap)

/-- All addresses the discovery looks at are plain. -/
def KernelPlain (t : PageTables) : Prop := ∀ a, startAddr ≤ a → a < 2 ^ 64 → Plain t a

/-! ## The scan -/

section Scan

variable {t : PageTables}

/-- All addresses of a page have one way through the tables. -/
theorem page_congr {a b : Nat} (h : a / pageSize = b / pageSize) : t.page a = t.page b := by
  have hindex : ∀ k, a / 2 ^ (12 + k) = b / 2 ^ (12 + k) := by
    intro k
    rw [Nat.pow_add, ← Nat.div_div_eq_div_mul, ← Nat.div_div_eq_div_mul]
    exact congrArg (· / 2 ^ k) h
  have h4 : pml4 a = pml4 b := congrArg (· % 512) (hindex 27)
  have h3 : pdp a = pdp b := congrArg (· % 512) (hindex 18)
  have h2 : pde a = pde b := congrArg (· % 512) (hindex 9)
  have h1 : pte a = pte b := congrArg (· % 512) (hindex 0)
  have hl4 : t.level4 a = t.level4 b := by rw [PageTables.level4, h4, PageTables.level4]
  have hl3 : t.level3 a = t.level3 b := by rw [PageTables.level3, hl4, h3, PageTables.level3]
  have hl2 : t.level2 a = t.level2 b := by rw [PageTables.level2, hl3, h2, PageTables.level2]
  have hl1 : t.level1 a = t.level1 b := by rw [PageTables.level1, hl2, h1, PageTables.level1]
  rw [PageTables.page, hl4, hl3, hl2, hl1, PageTables.page]

theorem present_congr {a b : Nat} (h : a / pageSize = b / pageSize) :
    t.present a = t.present b := by
  rw [PageTables.present, page_congr h, PageTables.present]

theorem read_of_present {a : Nat} (h : t.present a = true) :
    t.read a = .ok (t.memory.word a) := by
  obtain ⟨p, hp⟩ := Option.isSome_iff_exists.mp h
  have hword : t.wordAt a = some (t.ram (p.1 + a % p.2)) := by rw [PageTables.wordAt, hp]; rfl
  rw [PageTables.read, hword, PageTables.memory]
  dsimp only
  rw [hword]
  rfl

theorem read_of_absent {a : Nat} (h : t.present a = false) : t.read a = .error ⟨a⟩ := by
  have hpage : t.page a = none := Option.isNone_iff_eq_none.mp (by simpa [PageTables.present] using h)
  rw [PageTables.read, PageTables.wordAt, hpage]
  rfl

/-- The slots that are compared are on pages that are there. -/
def SlotsPresent (t : PageTables) (addr : Nat) : Prop :=
  ∀ i ≤ seventhNiSyscall, t.present (addr + 8 * i) = true

theorem goodAreaFrom_eq {addr : Nat} (h : SlotsPresent t addr) {n : Nat} :
    ∀ {i : Nat}, i + n ≤ firstNiSyscall → goodAreaFrom t addr n i =
      .ok ((List.range' i n).all fun k => t.memory.word (addr + 8 * k) != t.memory.firstNi addr) := by
  induction n with
  | zero => exact fun _ => rfl
  | succ n ih =>
    intro i hi
    have hbound : firstNiSyscall ≤ seventhNiSyscall := by decide
    rw [goodAreaFrom, read_of_present (h i (by omega)), read_of_present (h _ hbound)]
    show (if t.memory.word (addr + 8 * i) == t.memory.firstNi addr then _ else _) = _
    rw [List.range'_succ, List.all_cons, ih (by omega)]
    cases hw : t.memory.word (addr + 8 * i) == t.memory.firstNi addr with
    | true => simp [bne, hw]
    | false => simp [bne, hw]

theorem sameWords_eq {addr : Nat} (h : SlotsPresent t addr) {slots : List Nat} :
    (∀ i ∈ slots, i ≤ seventhNiSyscall) → sameWords t addr slots =
      .ok (slots.all fun i => t.memory.firstNi addr == t.memory.word (addr + 8 * i)) := by
  induction slots with
  | nil => exact fun _ => rfl
  | cons i slots ih =>
    intro hslots
    obtain ⟨hi, hrest⟩ := List.forall_mem_cons.mp hslots
    have hbound : firstNiSyscall ≤ seventhNiSyscall := by decide
    rw [sameWords, read_of_present (h _ hbound), read_of_present (h i hi)]
    show (if t.memory.firstNi addr == t.memory.word (addr + 8 * i) then _ else _) = _
    rw [List.all_cons, ih hrest]
    cases hw : t.memory.firstNi addr == t.memory.word (addr + 8 * i) with
    | true => simp
    | false => simp

theorem probePattern_eq {addr : Nat} (h : SlotsPresent t addr) :
    probePattern t addr = .ok (matchesPattern t.memory addr) := by
  have hbound : firstNiSyscall ≤ seventhNiSyscall := by decide
  have hothers : ∀ i ∈ otherNiSyscalls, i ≤ seventhNiSyscall := by decide
  rw [probePattern, read_of_present (h _ hbound), sameWords_eq h hothers,
    goodAreaFrom_eq h (by decide)]
  show (if (t.memory.firstNi addr &&& 0x3 == 0) && t.memory.firstNi addr != 0 &&
    decide (0xffffffff00000000 < t.memory.firstNi addr) then
      (if otherNiSyscalls.all fun i => t.memory.firstNi addr == t.memory.word (addr + 8 * i)
        then Except.ok (goodArea t.memory addr) else .ok false) else .ok false) = _
  rw [matchesPattern]
  cases ((t.memory.firstNi addr &&& 0x3 == 0) && t.memory.firstNi addr != 0 &&
    decide (0xffffffff00000000 < t.memory.firstNi addr)) with
  | false => simp
  | true =>
    cases (otherNiSyscalls.all fun i => t.memory.firstNi addr == t.memory.word (addr + 8 * i)) with
    | false => simp
    | true => simp

/-- A page the discovery may look at: it starts where a page does, in the range of the scan. -/
structure Candidate (page : Nat) : Prop where
  aligned : page % pageSize = 0
  above : startAddr ≤ page
  below : page + 2 * pageSize ≤ 2 ^ 64

/-- Where the loop of `validate_page` compares, all slots it compares are there: they are on the
page, which is mapped, or on the next one, of which it has asked `sys_vtpmo`. -/
theorem slotsPresent {page i : Nat} (hplain : KernelPlain t) (hpage : Candidate page)
    (hmapped : t.present page = true) (hi : i < pageSize)
    (hgo : ¬ (page + pageSize = page + i + seventhNiSyscall * 8 -
      (page + i + seventhNiSyscall * 8) % pageSize ∧
      sysVtpmo t (page + i + seventhNiSyscall * 8) = noMap)) :
    SlotsPresent t (page + i) := by
  obtain ⟨haligned, habove, hbelow⟩ := hpage
  intro j hj
  simp only [pageSize, seventhNiSyscall] at *
  rcases Nat.lt_or_ge (i + 8 * j) 4096 with hfirst | hsecond
  · rw [← hmapped]
    refine present_congr ?_
    rw [pageSize]
    omega
  · have hnew : page + 4096 = page + i + 236 * 8 - (page + i + 236 * 8) % 4096 := by omega
    have hvtpmo : sysVtpmo t (page + i + 236 * 8) ≠ noMap := fun h => hgo ⟨hnew, h⟩
    have hplain' := hplain (page + i + 236 * 8) (by omega) (by omega)
    have hpresent : t.present (page + i + 236 * 8) = true := (sysVtpmo_ne_noMap hplain').mp hvtpmo
    rw [← hpresent]
    refine present_congr ?_
    rw [pageSize]
    omega

/-- `validate_page` on a mapped page: it does not fault, and finds what the model without page
faults finds. A table it accepts starts in the page, at a multiple of 8, and all slots that were
compared are there. -/
theorem probeFrom_eq {page : Nat} (hplain : KernelPlain t) (hpage : Candidate page)
    (hmapped : t.present page = true) {n : Nat} :
    ∀ {i : Nat}, i + 8 * n = pageSize →
      probeFrom t page n i = .ok (validateFrom t.memory page n i) ∧
      ∀ addr, validateFrom t.memory page n i = some addr →
        ∃ k, addr = page + k ∧ k % 8 = 0 ∧ k < pageSize ∧ SlotsPresent t addr := by
  induction n with
  | zero => exact fun _ => ⟨rfl, fun addr h => by cases h⟩
  | succ n ih =>
    intro i hi
    obtain ⟨hprobe, hfound⟩ := @ih (i + 8) (by omega)
    have hlt : i < pageSize := by omega
    have hcond : (page + pageSize = page + i + seventhNiSyscall * 8 -
        (page + i + seventhNiSyscall * 8) % pageSize ∧
        t.memory.mapped (page + i + seventhNiSyscall * 8) = false) ↔
        (page + pageSize = page + i + seventhNiSyscall * 8 -
          (page + i + seventhNiSyscall * 8) % pageSize ∧
          sysVtpmo t (page + i + seventhNiSyscall * 8) = noMap) := by
      simp [PageTables.memory]
    rw [probeFrom, validateFrom]
    by_cases hstop : page + pageSize = page + i + seventhNiSyscall * 8 -
        (page + i + seventhNiSyscall * 8) % pageSize ∧
        sysVtpmo t (page + i + seventhNiSyscall * 8) = noMap
    · rw [if_pos hstop, if_pos (hcond.mpr hstop)]
      exact ⟨rfl, fun addr h => by cases h⟩
    · have hslots := slotsPresent hplain hpage hmapped hlt hstop
      rw [if_neg hstop, if_neg (fun h => hstop (hcond.mp h)), probePattern_eq hslots]
      show (if matchesPattern t.memory (page + i) then _ else _) = _ ∧ _
      cases hmatch : matchesPattern t.memory (page + i) with
      | true =>
        refine ⟨rfl, fun addr h => ?_⟩
        cases h
        refine ⟨i, rfl, ?_, hlt, hslots⟩
        rw [pageSize] at hi
        omega
      | false => exact ⟨hprobe, hfound⟩

/-- The whole scan does not fault. -/
theorem scanFrom_eq (hplain : KernelPlain t) {n : Nat} :
    ∀ {candidate : Nat}, candidate % pageSize = 0 → startAddr ≤ candidate →
      candidate + pageSize * n + pageSize ≤ 2 ^ 64 →
      scanFrom t n candidate = .ok (findFrom t.memory n candidate) ∧
      ∀ addr, findFrom t.memory n candidate = some addr →
        addr % 8 = 0 ∧ startAddr ≤ addr ∧ addr + 2 * pageSize ≤ 2 ^ 64 + pageSize ∧
          SlotsPresent t addr := by
  induction n with
  | zero => exact fun _ _ _ => ⟨rfl, fun addr h => by cases h⟩
  | succ n ih =>
    intro candidate haligned habove hbelow
    obtain ⟨hscan, hlater⟩ := @ih (candidate + pageSize) (by simp [haligned]) (by omega)
      (by rw [Nat.mul_succ] at hbelow; omega)
    have hpage : Candidate candidate := by
      refine ⟨haligned, habove, ?_⟩
      rw [Nat.mul_succ] at hbelow
      omega
    have hplain' : Plain t candidate := by
      refine hplain candidate habove ?_
      have hsize : 0 < pageSize := by decide
      omega
    rw [scanFrom, findFrom]
    by_cases hvtpmo : sysVtpmo t candidate = noMap
    · have hmem : t.memory.mapped candidate = false := by simp [PageTables.memory, hvtpmo]
      rw [if_pos hvtpmo, hmem]
      exact ⟨hscan, hlater⟩
    · have hmem : t.memory.mapped candidate = true := by simp [PageTables.memory, hvtpmo]
      have hmapped : t.present candidate = true := (sysVtpmo_ne_noMap hplain').mp hvtpmo
      have hprobe := @probeFrom_eq t candidate hplain hpage hmapped (pageSize / 8) 0 (by decide)
      rw [← validatePage] at hprobe
      obtain ⟨hprobe, hfound⟩ := hprobe
      rw [if_neg hvtpmo, hmem, if_pos rfl, hprobe]
      generalize validatePage t.memory candidate = out at hfound
      cases out with
      | none => exact ⟨hscan, hlater⟩
      | some addr =>
        refine ⟨rfl, fun addr' h => ?_⟩
        cases h
        obtain ⟨k, rfl, hk, hlt, hslots⟩ := hfound addr rfl
        refine ⟨?_, by omega, ?_, hslots⟩
        · rw [pageSize] at haligned
          omega
        · have := hpage.below
          omega

/-- `syscall_table_finder` reads only where there is a page, and finds what it finds in the model
without page faults. -/
theorem finder_never_faults (t : PageTables) (hplain : KernelPlain t) :
    scanKernel t = .ok (syscallTableFinder t.memory) := by
  have hrange : startAddr + pageSize * ((maxAddr - startAddr) / pageSize) + pageSize ≤ 2 ^ 64 := by
    decide
  exact (scanFrom_eq hplain (by decide) (Nat.le_refl _) hrange).1

/-- A table that starts at an offset in the page, with the word in the seven slots. -/
def tableAt (offset a : Nat) : UInt64 :=
  if a < offset then 1
  else if (a - offset) / 8 ∈ firstNiSyscall :: otherNiSyscalls then 0xffffffff81000000
  else 1

theorem onePage_kernelPlain (content : Nat → UInt64) : KernelPlain (onePage content) :=
  fun a _ _ => onePage_plain content a

/-- With 237 slots on the page. -/
theorem finder_never_faults_cut :
    scanKernel (onePage (tableAt 2200)) =
      .ok (syscallTableFinder (onePage (tableAt 2200)).memory) :=
  finder_never_faults _ (onePage_kernelPlain _)

end Scan

/-! ## Publishing the free slots -/

section Publish

variable {t : PageTables} {addr : Nat} {ni : UInt64}

/-- The slots from `i` on that hold the word. -/
def holding (t : PageTables) (addr : Nat) (ni : UInt64) (i n : Nat) : List Nat :=
  (List.range' i n).filter fun k => t.memory.word (addr + 8 * k) == ni

/-- How many slots of a table stand on the page it starts in. -/
def slotsOnPage (addr : Nat) : Nat := min tableSize ((pageSize - addr % pageSize) / 8)

/-- The last slot is on a page that is there, or `free_entries` is full before the first page
ends. -/
def Publishes (t : PageTables) (addr : Nat) : Prop :=
  t.present (addr + 8 * (tableSize - 1)) = true ∨
    maxFree ≤ (holding t addr (t.memory.firstNi addr) 0 (slotsOnPage addr)).length

instance (t : PageTables) (addr : Nat) : Decidable (Publishes t addr) :=
  inferInstanceAs (Decidable (_ ∨ _))

/-- The loop over slots that are there: it stops with a full array or goes on behind them. -/
theorem publishFrom_present {k : Nat} :
    ∀ {n i : Nat} {free : List Nat}, k ≤ n → free.length < maxFree →
      (∀ j < k, t.present (addr + 8 * (i + j)) = true) →
      publishFrom t addr ni n i free =
        if maxFree ≤ free.length + (holding t addr ni i k).length then
          .ok (free ++ (holding t addr ni i k).take (maxFree - free.length))
        else publishFrom t addr ni (n - k) (i + k) (free ++ holding t addr ni i k) := by
  induction k with
  | zero =>
    intro n i free _ hfree _
    have hnone : holding t addr ni i 0 = [] := rfl
    rw [hnone, List.length_nil, Nat.add_zero, if_neg (Nat.not_le.mpr hfree), List.append_nil]
    rfl
  | succ k ih =>
    intro n i free hn hfree hpresent
    obtain ⟨n, rfl⟩ : ∃ m, n = m + 1 := ⟨n - 1, by omega⟩
    have hrest : ∀ j < k, t.present (addr + 8 * (i + 1 + j)) = true := by
      intro j hj
      have hnext := hpresent (j + 1) (by omega)
      rwa [Nat.add_comm j 1, ← Nat.add_assoc] at hnext
    have hshift : n + 1 - (k + 1) = n - k ∧ i + (k + 1) = i + 1 + k := by omega
    have hhere : t.present (addr + 8 * i) = true := hpresent 0 (Nat.succ_pos k)
    rw [publishFrom, read_of_present hhere, hshift.1, hshift.2]
    show (if t.memory.word (addr + 8 * i) == ni then _ else _) = _
    have hsplit : holding t addr ni i (k + 1) =
        if t.memory.word (addr + 8 * i) == ni then i :: holding t addr ni (i + 1) k
        else holding t addr ni (i + 1) k := by
      rw [holding, List.range'_succ, List.filter_cons]
      rfl
    rw [hsplit]
    cases t.memory.word (addr + 8 * i) == ni with
    | false =>
      rw [if_neg Bool.false_ne_true, if_neg Bool.false_ne_true]
      exact ih (by omega) hfree hrest
    | true =>
      rw [if_pos rfl, if_pos rfl, List.length_cons]
      by_cases hfull : maxFree ≤ free.length + 1
      · -- this slot fills the array
        have hone : maxFree - free.length = 1 := by omega
        rw [if_pos hfull, if_pos (by omega), hone]
        rfl
      · have hlen : (free ++ [i]).length = free.length + 1 := List.length_append
        rw [if_neg hfull, ih (by omega) (by omega) hrest, hlen, List.append_assoc,
          List.append_assoc]
        have hleft : maxFree - free.length = maxFree - (free.length + 1) + 1 := by omega
        have hcond : (maxFree ≤ free.length + 1 + (holding t addr ni (i + 1) k).length) ↔
            (maxFree ≤ free.length + ((holding t addr ni (i + 1) k).length + 1)) := by omega
        rw [hleft, List.take_succ_cons, if_congr hcond rfl rfl]
        rfl

theorem holding_eq_holders (addr : Nat) (ni : UInt64) :
    holding t addr ni 0 tableSize = (holders (t.memory.table addr) ni).map Fin.val := by
  rw [holding, holders, ← List.range_eq_range', ← List.map_coe_finRange_eq_range, List.filter_map]
  rfl

/-- The slots of the first page come first. -/
theorem holding_isPrefix (addr : Nat) (ni : UInt64) {k : Nat} (hk : k ≤ tableSize) :
    holding t addr ni 0 k <+: holding t addr ni 0 tableSize := by
  obtain ⟨m, hm⟩ := Nat.exists_eq_add_of_le hk
  rw [holding, holding, hm, ← List.range'_append_1, List.filter_append]
  exact List.prefix_append _ _

/-- With all slots there, the array gets the first slots that hold the word. -/
theorem publishFrom_all (h : ∀ i < tableSize, t.present (addr + 8 * i) = true) :
    publishFrom t addr ni tableSize 0 [] =
      .ok ((holding t addr ni 0 tableSize).take maxFree) := by
  have hpresent : ∀ j < tableSize, t.present (addr + 8 * (0 + j)) = true := by simpa using h
  rw [publishFrom_present (Nat.le_refl _) (by decide) hpresent, List.length_nil, Nat.zero_add,
    List.nil_append, Nat.sub_zero, Nat.sub_self]
  split
  · rfl
  · next hfew => rw [publishFrom, List.take_of_length_le (by omega), List.nil_append]

/-- With the second page missing, the loop ends early or faults on the first slot of that page. -/
theorem publishFrom_cut {k : Nat} (hk : k < tableSize)
    (h : ∀ i < k, t.present (addr + 8 * i) = true) (hcut : t.present (addr + 8 * k) = false) :
    publishFrom t addr ni tableSize 0 [] =
      if maxFree ≤ (holding t addr ni 0 k).length then
        .ok ((holding t addr ni 0 tableSize).take maxFree)
      else .error ⟨addr + 8 * k⟩ := by
  have hpresent : ∀ j < k, t.present (addr + 8 * (0 + j)) = true := by simpa using h
  rw [publishFrom_present hk.le (by decide) hpresent, List.length_nil, Nat.zero_add, Nat.zero_add,
    List.nil_append, List.nil_append, Nat.sub_zero]
  split
  · next hfull =>
    -- the array is full before the page ends
    obtain ⟨rest, hrest⟩ := holding_isPrefix (t := t) addr ni hk.le
    rw [← hrest, List.take_append_of_le_length hfull]
  · obtain ⟨m, hm⟩ : ∃ m, tableSize - k = m + 1 := ⟨tableSize - k - 1, by omega⟩
    rw [hm, publishFrom, read_of_absent hcut]
    rfl

/-- `init_module` after the scan. -/
theorem initModuleOn_found (hplain : KernelPlain t) (hfound : syscallTableFinder t.memory = some addr) :
    addr % 8 = 0 ∧ SlotsPresent t addr ∧
      initModuleOn t = (publishFrom t addr (t.memory.firstNi addr) tableSize 0 []).map fun free =>
        some
          { sysCallTableAddress := addr
            sysNiSyscallAddress := t.memory.firstNi addr
            freeEntries := free ++ List.replicate (maxFree - free.length) 0 } := by
  have hrange : startAddr + pageSize * ((maxAddr - startAddr) / pageSize) + pageSize ≤ 2 ^ 64 := by
    decide
  obtain ⟨hscan, hat⟩ := scanFrom_eq hplain (by decide) (Nat.le_refl _) hrange
  obtain ⟨haligned, -, -, hslots⟩ := hat addr hfound
  have hok : scanKernel t = .ok (some addr) := by rw [scanKernel, hscan, ← hfound, syscallTableFinder]
  have hbound : firstNiSyscall ≤ seventhNiSyscall := by decide
  refine ⟨haligned, hslots, ?_⟩
  rw [initModuleOn, hok]
  show (t.read (addr + 8 * firstNiSyscall) >>= fun ni => _) = _
  rw [read_of_present (hslots _ hbound)]
  show (publishFrom t addr (t.memory.firstNi addr) tableSize 0 [] >>= fun free => _) = _
  cases publishFrom t addr (t.memory.firstNi addr) tableSize 0 [] with
  | error fault => rfl
  | ok free => rfl

/-- The published entries are those of the model without page faults. -/
theorem initModule_of_holding (hfound : syscallTableFinder t.memory = some addr) :
    initModule t.memory = some
      { sysCallTableAddress := addr
        sysNiSyscallAddress := t.memory.firstNi addr
        freeEntries := (holding t addr (t.memory.firstNi addr) 0 tableSize).take maxFree ++
          List.replicate (maxFree -
            ((holding t addr (t.memory.firstNi addr) 0 tableSize).take maxFree).length) 0 } := by
  rw [initModule, hfound, holding_eq_holders, ← List.map_take, List.length_map]
  rfl

/-- The slots up to the last compared one are there; if the last of the table is not, the second
page starts between them. -/
theorem slots_cut (haligned : addr % 8 = 0) (hslots : SlotsPresent t addr)
    (hlast : t.present (addr + 8 * (tableSize - 1)) = false) :
    slotsOnPage addr < tableSize ∧
      (∀ i < slotsOnPage addr, t.present (addr + 8 * i) = true) ∧
      (addr + 8 * slotsOnPage addr) / pageSize = addr / pageSize + 1 ∧
      t.present (addr + 8 * slotsOnPage addr) = false := by
  have hfirst : t.present addr = true := hslots 0 (Nat.zero_le _)
  have hlastSlot := hslots seventhNiSyscall (Nat.le_refl _)
  have hother : (addr + 8 * seventhNiSyscall) / pageSize ≠
      (addr + 8 * (tableSize - 1)) / pageSize := by
    intro heq
    rw [present_congr heq, hlast] at hlastSlot
    cases hlastSlot
  have hcut : slotsOnPage addr = (pageSize - addr % pageSize) / 8 ∧ slotsOnPage addr < tableSize ∧
      (addr + 8 * slotsOnPage addr) / pageSize = addr / pageSize + 1 ∧
      (addr + 8 * (tableSize - 1)) / pageSize = addr / pageSize + 1 := by
    simp only [slotsOnPage, pageSize, tableSize, seventhNiSyscall] at *
    omega
  obtain ⟨hk, hlt, hpage, hpageLast⟩ := hcut
  refine ⟨hlt, fun i hi => ?_, hpage, ?_⟩
  · rw [← hfirst]
    refine present_congr ?_
    rw [hk] at hi
    simp only [pageSize] at *
    omega
  · rw [← hlast]
    exact present_congr (hpage.trans hpageLast.symm)

theorem slots_of_last (haligned : addr % 8 = 0) (hslots : SlotsPresent t addr)
    (hlast : t.present (addr + 8 * (tableSize - 1)) = true) :
    ∀ i < tableSize, t.present (addr + 8 * i) = true := by
  intro i hi
  rcases Nat.lt_or_ge seventhNiSyscall i with hbehind | hcompared
  · have hbefore := hslots seventhNiSyscall (Nat.le_refl _)
    -- it is on the page of the last slot that is compared, or on that of the last slot
    have hpages : (addr + 8 * i) / pageSize = (addr + 8 * seventhNiSyscall) / pageSize ∨
        (addr + 8 * i) / pageSize = (addr + 8 * (tableSize - 1)) / pageSize := by
      simp only [pageSize, tableSize, seventhNiSyscall] at *
      omega
    rcases hpages with hpage | hpage
    · rw [present_congr hpage, hbefore]
    · rw [present_congr hpage, hlast]
  · exact hslots i hcompared

/-- The module publishes what it finds without a page fault exactly when the last slot of the
table is on a page that is there or the array is full before the first page ends; else it
faults on the page behind the one the table starts in. -/
theorem publish_faults_iff (t : PageTables) (hplain : KernelPlain t) (addr : Nat)
    (hfound : syscallTableFinder t.memory = some addr) :
    (Publishes t addr ∧ initModuleOn t = .ok (initModule t.memory)) ∨
    (¬ Publishes t addr ∧ ∃ a, a / pageSize = addr / pageSize + 1 ∧
      initModuleOn t = .error ⟨a⟩) := by
  obtain ⟨haligned, hslots, hinit⟩ := initModuleOn_found hplain hfound
  rw [hinit, initModule_of_holding hfound]
  cases hlast : t.present (addr + 8 * (tableSize - 1)) with
  | true =>
    rw [publishFrom_all (slots_of_last haligned hslots hlast)]
    exact .inl ⟨.inl hlast, rfl⟩
  | false =>
    obtain ⟨hk, hbefore, hpage, hcut⟩ := slots_cut haligned hslots hlast
    rw [publishFrom_cut hk hbefore hcut]
    by_cases hfull : maxFree ≤ (holding t addr (t.memory.firstNi addr) 0 (slotsOnPage addr)).length
    · rw [if_pos hfull]
      exact .inl ⟨.inr hfull, rfl⟩
    · rw [if_neg hfull]
      refine .inr ⟨?_, _, hpage, rfl⟩
      rintro (hthere | henough)
      · rw [hlast] at hthere
        cases hthere
      · exact hfull henough

theorem finder_cut : syscallTableFinder (onePage (tableAt 2200)).memory = some (startAddr + 2200) := by
  decide +kernel

/-- A table whose last 19 slots would be on the next page. -/
theorem publish_faults_cut :
    ∃ a, a / pageSize = (startAddr + 2200) / pageSize + 1 ∧
      initModuleOn (onePage (tableAt 2200)) = .error ⟨a⟩ := by
  rcases publish_faults_iff (onePage (tableAt 2200)) (onePage_kernelPlain _) (startAddr + 2200)
    finder_cut with ⟨hpublishes, -⟩ | ⟨-, hfault⟩
  · exact absurd hpublishes (by decide +kernel)
  · exact hfault

end Publish

end RefMonitor
