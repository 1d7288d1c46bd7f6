import RefMonitor.Durability

/-!
# `onefilefs_lookup` and the caches

The file of the log is looked up once and then found through its dentry. The kernel may drop the
dentry when nobody uses it, and after that the inode, whenever it needs memory. `onefilefs_lookup`
is called again when the dentry is gone, and must cope with an inode that is still cached:
`iget_locked` then returns it with one more reference and without `I_NEW`. The function returns the
dentry it was given without having attached the inode and without a reference of its own, so the
caller's `dput` frees it.

The size of the file is not written to block 1, so it is the old one when the inode is loaded
again. This needs no unmount.

Results:
1. `lookup_found_iff`: when a lookup finds the file.
2. `lost_for_good`: after one lookup has failed on a cached inode, or on the read of block 1, the
   file is not found again.
3. `found_when_dropped_together`: if the kernel drops the inode with its dentry, the file is found.
4. `shown_since_load`: the file shows what was appended since its inode was loaded.
-/

namespace RefMonitor
open CString

/-! ## The source's function -/

/-- The inode of the file in the inode cache; `isNew` is `I_NEW`. -/
structure CachedInode where
  count : Nat
  isNew : Bool
  iMode : Nat
  iNlink : Nat
  iSize : Nat

/-- The device, the inode of the file if it is cached, and the number of users of the dentry that
names it if there is one. -/
structure Caches where
  nblocks : Nat
  nblocks_le : nblocks ≤ 2 ^ 51
  blocks : Nat → Nat → UInt8
  inode : Option CachedInode
  dentry : Option Nat

/-- The dentry a lookup is to fill. -/
structure Child where
  count : Nat
  positive : Bool

def uniqueFileName : List UInt8 := ascii "the-file"

/-- `S_IFREG | S_IRUSR | S_IRGRP | S_IROTH | S_IWUSR | S_IWGRP | S_IXUSR | S_IXGRP | S_IXOTH`. -/
def fileMode : Nat := 0o100775

/-- What `iget_locked` does: it waits for an inode that somebody else is filling. -/
inductive Iget
  | noMemory
  | waits
  | cached (i : CachedInode)
  | fresh (i : CachedInode)

def igetLocked (alloc : Bool) : Option CachedInode → Iget × Option CachedInode
  | some i =>
    let i := { i with count := i.count + 1 }
    (if i.isNew then .waits else .cached i, some i)
  | none =>
    if !alloc then (.noMemory, none)
    else
      let i : CachedInode := { count := 1, isNew := true, iMode := 0, iNlink := 0, iSize := 0 }
      (.fresh i, some i)

/-- What the kernel does for a call: whether an inode can be allocated and block 1 read. -/
structure LookupIo where
  alloc : Bool
  bread : Bool

/-- The pointer that is returned; a call that waits for a lock nobody gives back does not return. -/
inductive Returned
  | null
  | err (e : Errno)
  | child
  | never

def onefilefsLookup (io : LookupIo) (name : List UInt8) (child : Child) (c : Caches) :
    Returned × Child × Caches :=
  if strcmp name uniqueFileName ≠ 0 then (.null, child, c)
  else
    match igetLocked io.alloc c.inode with
    | (.noMemory, inode) => (.err .enomem, child, { c with inode := inode })
    | (.waits, inode) => (.never, child, { c with inode := inode })
    | (.cached _, inode) => (.child, child, { c with inode := inode })
    | (.fresh i, _) =>
      let i := { i with iMode := fileMode, iNlink := 1 }
      if !(io.bread && decide (1 < c.nblocks)) then
        -- `iput`; the inode is still locked and new
        (.err .eio, child, { c with inode := some { i with count := i.count - 1 } })
      else
        let i := { i with iSize := getU64 (c.blocks 1) 24 }
        -- `d_add` passes the reference on to the dentry
        let child := { count := child.count + 1, positive := true }
        (.child, child, { c with inode := some { i with isNew := false } })

/-! ## The caller -/

/-- What a process that looks a name up gets: the file, nothing, a dentry that has been freed, or an
error. -/
inductive Looked
  | found
  | absent
  | freed
  | failed (e : Errno)
  | never
deriving DecidableEq, Repr

/-- The lookup of a name whose dentry is not cached. A dentry that is returned replaces the one that
was passed, of which one reference is given back. -/
def lookupSlow (io : LookupIo) (name : List UInt8) (c : Caches) : Looked × Caches :=
  match onefilefsLookup io name { count := 1, positive := false } c with
  | (.null, _, c) => (.absent, c)
  | (.err e, _, c) => (.failed e, c)
  | (.never, _, c) => (.never, c)
  | (.child, child, c) =>
    if child.count - 1 = 0 then (.freed, c)
    else (.found, { c with dentry := if child.positive then some (child.count - 1) else c.dentry })

def look (io : LookupIo) (name : List UInt8) (c : Caches) : Looked × Caches :=
  match c.dentry with
  | some users =>
    if strcmp name uniqueFileName = 0 then (.found, { c with dentry := some (users + 1) })
    else lookupSlow io name c
  | none => lookupSlow io name c

/-- The mounted file system with the size of the cached inode. -/
def Caches.fs (c : Caches) (i : CachedInode) : LogFs where
  nblocks := c.nblocks
  nblocks_le := c.nblocks_le
  blocks := c.blocks
  iSize := i.iSize

/-- A write by a process that has the file open. -/
def cachedWrite (maxFileSize : Nat) (call : WriteCall) (c : Caches) : Caches :=
  match c.dentry, c.inode with
  | some (_ + 1), some i =>
    let r := onefilefsWrite maxFileSize (c.fs i) call
    { c with blocks := r.fs.blocks, inode := some { i with iSize := r.fs.iSize } }
  | _, _ => c

/-- A dentry nobody uses is dropped, and its reference to the inode given back. -/
def shrinkDentries (c : Caches) : Caches :=
  if c.dentry = some 0 then
    { c with dentry := none, inode := c.inode.map fun i => { i with count := i.count - 1 } }
  else c

/-- An inode without references is evicted; one that is new is not. -/
def shrinkInodes (c : Caches) : Caches :=
  match c.inode with
  | some i => if i.count = 0 ∧ i.isNew = false then { c with inode := none } else c
  | none => c

inductive CacheEvent
  | look (name : List UInt8) (io : LookupIo)
  | close
  | write (call : WriteCall)
  | shrinkDentries
  | shrinkInodes

def cachesStep (maxFileSize : Nat) (c : Caches) : CacheEvent → Caches
  | .look name io => (look io name c).2
  | .close => { c with dentry := c.dentry.map fun users => users - 1 }
  | .write call => cachedWrite maxFileSize call c
  | .shrinkDentries => RefMonitor.shrinkDentries c
  | .shrinkInodes => RefMonitor.shrinkInodes c

def cachesRun (maxFileSize : Nat) (c : Caches) (events : List CacheEvent) : Caches :=
  events.foldl (cachesStep maxFileSize) c

/-- The answers to the lookups of a run. -/
def answers (maxFileSize : Nat) : Caches → List CacheEvent → List Looked
  | _, [] => []
  | c, .look name io :: events =>
    (look io name c).1 :: answers maxFileSize (cachesStep maxFileSize c (.look name io)) events
  | c, e :: events => answers maxFileSize (cachesStep maxFileSize c e) events

/-- A file system that has just been mounted. -/
def freshMount (nblocks : Nat) (hn : nblocks ≤ 2 ^ 51) (blocks : Nat → Nat → UInt8) : Caches where
  nblocks := nblocks
  nblocks_le := hn
  blocks := blocks
  inode := none
  dentry := none

/-! ## Lookups -/

section Lookups

variable {maxFileSize : Nat} {c : Caches} {io : LookupIo} {name : List UInt8}

/-- What a lookup can do. -/
inductive LookCase (c : Caches) (io : LookupIo) (name : List UInt8) : Looked × Caches → Prop
  | other : strcmp name uniqueFileName ≠ 0 → LookCase c io name (.absent, c)
  | hit (users : Nat) : strcmp name uniqueFileName = 0 → c.dentry = some users →
      LookCase c io name (.found, { c with dentry := some (users + 1) })
  | noMemory : strcmp name uniqueFileName = 0 → c.dentry = none → c.inode = none →
      io.alloc = false → LookCase c io name (.failed .enomem, c)
  | waits (i : CachedInode) : strcmp name uniqueFileName = 0 → c.dentry = none →
      c.inode = some i → i.isNew = true →
      LookCase c io name (.never, { c with inode := some { i with count := i.count + 1 } })
  | cached (i : CachedInode) : strcmp name uniqueFileName = 0 → c.dentry = none →
      c.inode = some i → i.isNew = false →
      LookCase c io name (.freed, { c with inode := some { i with count := i.count + 1 } })
  | unread (i : CachedInode) : strcmp name uniqueFileName = 0 → c.dentry = none →
      c.inode = none → io.alloc = true → ¬ (io.bread = true ∧ 1 < c.nblocks) → i.isNew = true →
      LookCase c io name (.failed .eio, { c with inode := some i })
  | loaded (i : CachedInode) : strcmp name uniqueFileName = 0 → c.dentry = none →
      c.inode = none → io.alloc = true → io.bread = true ∧ 1 < c.nblocks → i.isNew = false →
      i.count = 1 → i.iSize = getU64 (c.blocks 1) 24 →
      LookCase c io name (.found, { c with inode := some i, dentry := some 1 })

theorem igetLocked_waits {i : CachedInode} (hnew : i.isNew = true) (alloc : Bool) :
    igetLocked alloc (some i) = (.waits, some { i with count := i.count + 1 }) := by
  rw [igetLocked]
  dsimp only
  rw [if_pos hnew]

theorem igetLocked_cached {i : CachedInode} (hnew : i.isNew = false) (alloc : Bool) :
    igetLocked alloc (some i) =
      (.cached { i with count := i.count + 1 }, some { i with count := i.count + 1 }) := by
  rw [igetLocked]
  dsimp only
  rw [if_neg (by rw [hnew]; decide)]

theorem lookupSlow_case (hdentry : c.dentry = none) : LookCase c io name (lookupSlow io name c) := by
  unfold lookupSlow onefilefsLookup
  by_cases hname : strcmp name uniqueFileName = 0
  · rw [if_neg (not_not.mpr hname)]
    cases hinode : c.inode with
    | some i =>
      rcases Bool.eq_false_or_eq_true i.isNew with hnew | hnew
      · rw [igetLocked_waits hnew]
        exact .waits i hname hdentry hinode hnew
      · rw [igetLocked_cached hnew]
        exact .cached i hname hdentry hinode hnew
    | none =>
      rw [igetLocked]
      cases halloc : io.alloc with
      | false =>
        have hsame : { c with inode := none } = c := by rw [← hinode]
        show LookCase c io name (.failed .enomem, { c with inode := none })
        rw [hsame]
        exact .noMemory hname hdentry hinode halloc
      | true =>
        by_cases hread : io.bread = true ∧ 1 < c.nblocks
        · have hgood : (!(io.bread && decide (1 < c.nblocks))) = false := by simp [hread]
          simp only [Bool.not_true, Bool.false_eq_true, if_false, hgood]
          exact .loaded { count := 1, isNew := false, iMode := fileMode, iNlink := 1
                          iSize := getU64 (c.blocks 1) 24 }
            hname hdentry hinode halloc hread rfl rfl rfl
        · have hbad : (!(io.bread && decide (1 < c.nblocks))) = true := by
            rw [Bool.not_eq_true', Bool.eq_false_iff]
            exact fun h => hread (by simpa using h)
          simp only [Bool.not_true, Bool.false_eq_true, if_false, hbad, if_true]
          exact .unread { count := 0, isNew := true, iMode := fileMode, iNlink := 1, iSize := 0 }
            hname hdentry hinode halloc hread rfl
  · rw [if_pos hname]
    exact .other hname

theorem look_case : LookCase c io name (look io name c) := by
  unfold look
  cases hdentry : c.dentry with
  | none => exact lookupSlow_case hdentry
  | some users =>
    dsimp only
    split
    · next hname => exact .hit users hname hdentry
    · next hname =>
      -- another name has no dentry
      have hslow : lookupSlow io name c = (.absent, c) := by
        rw [lookupSlow, onefilefsLookup, if_pos hname]
      rw [hslow]
      exact .other hname

/-- A lookup of the file finds it exactly when its dentry is cached, or when its inode is not and
can be loaded. -/
theorem lookup_found_iff : (look io name c).1 = .found ↔
    strcmp name uniqueFileName = 0 ∧
      (c.dentry.isSome = true ∨
        (c.inode = none ∧ io.alloc = true ∧ io.bread = true ∧ 1 < c.nblocks)) := by
  have hcase := @look_case c io name
  generalize look io name c = r at hcase
  cases hcase with
  | other hname => simp [hname]
  | hit users hname hdentry => simp [hname, hdentry]
  | noMemory hname hdentry hinode halloc => simp [hdentry, halloc]
  | waits i hname hdentry hinode hnew => simp [hdentry, hinode]
  | cached i hname hdentry hinode hnew => simp [hdentry, hinode]
  | unread i hname hdentry hinode halloc hread hnew => simpa [hdentry, hname, hinode, halloc] using hread
  | loaded i hname hdentry hinode halloc hread hnew hcount hsize =>
    simp [hname, hinode, halloc, hread]

end Lookups

/-! ## The file stays lost -/

section Lost

variable {maxFileSize : Nat} {c : Caches}

/-- A dentry refers to an inode that has been filled. -/
structure DentryHeld (c : Caches) : Prop where
  inode : ∀ users, c.dentry = some users → ∃ i, c.inode = some i ∧ i.isNew = false ∧ 0 < i.count

theorem freshMount_held (nblocks : Nat) (hn : nblocks ≤ 2 ^ 51)
    (blocks : Nat → Nat → UInt8) : DentryHeld (freshMount nblocks hn blocks) :=
  ⟨fun _ h => by cases h⟩

/-- No dentry names the file, and its inode stays in the cache: it has references nobody will
give back, or is still new. -/
structure Pinned (c : Caches) : Prop where
  dentry : c.dentry = none
  inode : ∃ i, c.inode = some i ∧ (0 < i.count ∨ i.isNew = true)

/-- A lookup that failed for good. -/
def Looked.loses : Looked → Prop
  | .freed => True
  | .failed e => e = .eio
  | .never => True
  | _ => False

theorem cachedWrite_of_none {call : WriteCall} (h : c.dentry = none) :
    cachedWrite maxFileSize call c = c := by
  rw [cachedWrite, h]

theorem DentryHeld.look (h : DentryHeld c) (io : LookupIo) (name : List UInt8) :
    DentryHeld (look io name c).2 := by
  have hcase := @look_case c io name
  generalize RefMonitor.look io name c = r at hcase
  cases hcase with
  | other hname => exact h
  | hit users hname hdentry => exact ⟨fun _ _ => h.inode users hdentry⟩
  | noMemory hname hdentry hinode halloc => exact h
  | waits i hname hdentry hinode hnew => exact ⟨fun _ hd => by rw [hdentry] at hd; cases hd⟩
  | cached i hname hdentry hinode hnew => exact ⟨fun _ hd => by rw [hdentry] at hd; cases hd⟩
  | unread i hname hdentry hinode halloc hread hnew =>
    exact ⟨fun _ hd => by rw [hdentry] at hd; cases hd⟩
  | loaded i hname hdentry hinode halloc hread hnew hcount hsize =>
    exact ⟨fun _ _ => ⟨i, rfl, hnew, by rw [hcount]; exact Nat.one_pos⟩⟩

theorem DentryHeld.step (h : DentryHeld c) (e : CacheEvent) :
    DentryHeld (cachesStep maxFileSize c e) := by
  cases e with
  | look name io => exact h.look io name
  | close =>
    refine ⟨fun users hd => ?_⟩
    obtain ⟨users', hd', -⟩ := Option.map_eq_some_iff.mp hd
    exact h.inode users' hd'
  | write call =>
    show DentryHeld (cachedWrite maxFileSize call c)
    unfold cachedWrite
    split
    · next users i hdentry hinode =>
      refine ⟨fun _ _ => ?_⟩
      obtain ⟨i', hi', hnew, hcount⟩ := h.inode (users + 1) hdentry
      rw [hinode] at hi'
      cases hi'
      exact ⟨_, rfl, hnew, hcount⟩
    · exact h
  | shrinkDentries =>
    show DentryHeld (RefMonitor.shrinkDentries c)
    unfold RefMonitor.shrinkDentries
    split
    · exact ⟨fun _ hd => by cases hd⟩
    · exact h
  | shrinkInodes =>
    show DentryHeld (RefMonitor.shrinkInodes c)
    unfold RefMonitor.shrinkInodes
    split
    · next i hinode =>
      split
      · next hidle =>
        refine ⟨fun users hd => ?_⟩
        -- an inode with a dentry has a reference
        obtain ⟨i', hi', -, hcount⟩ := h.inode users hd
        rw [hinode] at hi'
        cases hi'
        exact absurd hidle.1 (Nat.ne_of_gt hcount)
      · exact h
    · exact h

theorem Pinned.step (h : Pinned c) (e : CacheEvent) : Pinned (cachesStep maxFileSize c e) := by
  obtain ⟨hdentry, i, hinode, hheld⟩ := h
  cases e with
  | look name io =>
    show Pinned (look io name c).2
    have hcase := @look_case c io name
    generalize RefMonitor.look io name c = r at hcase
    cases hcase with
    | other hname => exact ⟨hdentry, i, hinode, hheld⟩
    | hit users hname hd => rw [hdentry] at hd; cases hd
    | noMemory hname hd hi halloc => exact ⟨hdentry, i, hinode, hheld⟩
    | waits i' hname hd hi hnew => exact ⟨hdentry, _, rfl, .inl (Nat.succ_pos _)⟩
    | cached i' hname hd hi hnew => exact ⟨hdentry, _, rfl, .inl (Nat.succ_pos _)⟩
    | unread i' hname hd hi halloc hread hnew => exact ⟨hdentry, _, rfl, .inr hnew⟩
    | loaded i' hname hd hi halloc hread hnew hcount hsize => rw [hinode] at hi; cases hi
  | close => exact ⟨by show c.dentry.map _ = none; rw [hdentry]; rfl, i, hinode, hheld⟩
  | write call =>
    show Pinned (cachedWrite maxFileSize call c)
    rw [cachedWrite_of_none hdentry]
    exact ⟨hdentry, i, hinode, hheld⟩
  | shrinkDentries =>
    have hsame : RefMonitor.shrinkDentries c = c := if_neg (by rw [hdentry]; exact fun hd => by cases hd)
    show Pinned (RefMonitor.shrinkDentries c)
    rw [hsame]
    exact ⟨hdentry, i, hinode, hheld⟩
  | shrinkInodes =>
    have hbusy : ¬ (i.count = 0 ∧ i.isNew = false) := by
      rintro ⟨hcount, hnew⟩
      rcases hheld with hpos | hpos
      · exact absurd hcount (Nat.ne_of_gt hpos)
      · rw [hnew] at hpos
        cases hpos
    have hsame : RefMonitor.shrinkInodes c = c := by
      rw [RefMonitor.shrinkInodes, hinode]
      exact if_neg hbusy
    show Pinned (RefMonitor.shrinkInodes c)
    rw [hsame]
    exact ⟨hdentry, i, hinode, hheld⟩

/-- The lookups that fail for good leave the inode behind. -/
theorem pinned_of_loses {io : LookupIo} {name : List UInt8} (h : (look io name c).1.loses) :
    Pinned (look io name c).2 := by
  have hcase := @look_case c io name
  generalize look io name c = r at hcase h
  cases hcase with
  | other hname => exact h.elim
  | hit users hname hdentry => exact h.elim
  | noMemory hname hdentry hinode halloc => cases (show Errno.enomem = Errno.eio from h)
  | waits i hname hdentry hinode hnew => exact ⟨hdentry, _, rfl, .inl (Nat.succ_pos _)⟩
  | cached i hname hdentry hinode hnew => exact ⟨hdentry, _, rfl, .inl (Nat.succ_pos _)⟩
  | unread i hname hdentry hinode halloc hread hnew => exact ⟨hdentry, _, rfl, .inr hnew⟩
  | loaded i hname hdentry hinode halloc hread hnew hcount hsize => exact h.elim

/-- From then on the file is not found. -/
theorem Pinned.answers (h : Pinned c) {events : List CacheEvent} :
    ∀ a ∈ answers maxFileSize c events, a ≠ .found := by
  induction events generalizing c with
  | nil => exact fun _ ha => absurd ha List.not_mem_nil
  | cons e events ih =>
    have hrest := ih (@Pinned.step maxFileSize c h e)
    cases e with
    | look name io =>
      intro a ha
      rcases List.mem_cons.mp ha with rfl | ha
      · intro hfound
        obtain ⟨-, hd | ⟨hi, -⟩⟩ := lookup_found_iff.mp hfound
        · rw [h.dentry] at hd
          cases hd
        · obtain ⟨i, hinode, -⟩ := h.inode
          rw [hi] at hinode
          cases hinode
      · exact hrest a ha
    | close => exact hrest
    | write call => exact hrest
    | shrinkDentries => exact hrest
    | shrinkInodes => exact hrest

/-- In every run since the mount: once a lookup of the file has met its inode in the cache without
its dentry, or has failed to read block 1, no later lookup finds the file. -/
theorem lost_for_good (maxFileSize : Nat) (c : Caches) (events : List CacheEvent) :
    (answers maxFileSize c events).Pairwise fun a b => a.loses → b ≠ .found := by
  induction events generalizing c with
  | nil => exact List.Pairwise.nil
  | cons e events ih =>
    cases e with
    | look name io =>
      refine List.Pairwise.cons (fun b hb hloses => ?_) (ih _)
      exact (pinned_of_loses hloses).answers b hb
    | close => exact ih _
    | write call => exact ih _
    | shrinkDentries => exact ih _
    | shrinkInodes => exact ih _

end Lost

/-! ## Dropping both -/

section Together

variable {maxFileSize : Nat} {c : Caches}

/-- Events of a kernel that never drops the dentry alone. -/
inductive CalmEvent
  | look (name : List UInt8) (io : LookupIo)
  | close
  | write (call : WriteCall)
  | drop

def CalmEvent.events : CalmEvent → List CacheEvent
  | .look name io => [.look name io]
  | .close => [.close]
  | .write call => [.write call]
  | .drop => [.shrinkDentries, .shrinkInodes]

/-- Block 1 can be read when it is needed. -/
def CalmEvent.Reads : CalmEvent → Prop
  | .look _ io => io.bread = true
  | _ => True

/-- The inode is cached with its dentry, which has the only reference to it. -/
structure Together (c : Caches) : Prop where
  device : 1 < c.nblocks
  gone : c.dentry = none → c.inode = none
  kept : ∀ users, c.dentry = some users → ∃ i, c.inode = some i ∧ i.isNew = false ∧ i.count = 1

theorem Together.look (h : Together c) {io : LookupIo} (hread : io.bread = true)
    (name : List UInt8) : Together (look io name c).2 := by
  have hcase := @look_case c io name
  generalize RefMonitor.look io name c = r at hcase
  cases hcase with
  | other hname => exact h
  | hit users hname hdentry => exact ⟨h.device, fun hd => (by cases hd), fun _ _ => h.kept users hdentry⟩
  | noMemory hname hdentry hinode halloc => exact h
  | waits i hname hdentry hinode hnew => rw [h.gone hdentry] at hinode; cases hinode
  | cached i hname hdentry hinode hnew => rw [h.gone hdentry] at hinode; cases hinode
  | unread i hname hdentry hinode halloc hfail hnew => exact absurd ⟨hread, h.device⟩ hfail
  | loaded i hname hdentry hinode halloc hread hnew hcount hsize =>
    exact ⟨h.device, fun hd => (by cases hd), fun _ _ => ⟨i, rfl, hnew, hcount⟩⟩

/-- A lookup of the file finds it, in the cache or on the device, if there is memory for an inode. -/
theorem Together.found (h : Together c) {io : LookupIo} {name : List UInt8}
    (hname : strcmp name uniqueFileName = 0) (hread : io.bread = true) :
    (RefMonitor.look io name c).1 = .found ∨
      (io.alloc = false ∧ (RefMonitor.look io name c).1 = .failed .enomem) := by
  have hcase := @look_case c io name
  generalize RefMonitor.look io name c = r at hcase
  cases hcase with
  | other hother => exact absurd hname hother
  | hit users _ hdentry => exact .inl rfl
  | noMemory _ hdentry hinode halloc => exact .inr ⟨halloc, rfl⟩
  | waits i _ hdentry hinode hnew => rw [h.gone hdentry] at hinode; cases hinode
  | cached i _ hdentry hinode hnew => rw [h.gone hdentry] at hinode; cases hinode
  | unread i _ hdentry hinode halloc hfail hnew => exact absurd ⟨hread, h.device⟩ hfail
  | loaded i _ hdentry hinode halloc hread hnew hcount hsize => exact .inl rfl

theorem Together.write (h : Together c) (call : WriteCall) :
    Together (cachedWrite maxFileSize call c) := by
  unfold cachedWrite
  split
  · next users i hdentry hinode =>
    obtain ⟨i', hi', hnew, hcount⟩ := h.kept (users + 1) hdentry
    rw [hinode] at hi'
    cases hi'
    refine ⟨h.device, fun hd => ?_, fun _ _ => ⟨_, rfl, hnew, hcount⟩⟩
    rw [hdentry] at hd
    cases hd
  · exact h

theorem Together.drop (h : Together c) :
    Together (RefMonitor.shrinkInodes (RefMonitor.shrinkDentries c)) := by
  unfold RefMonitor.shrinkDentries
  split
  · next hidle =>
    -- the dentry goes, and the inode has no reference left
    obtain ⟨i, hinode, hnew, hcount⟩ := h.kept 0 hidle
    rw [hinode, RefMonitor.shrinkInodes, Option.map_some]
    dsimp only
    rw [if_pos ⟨by rw [hcount], hnew⟩]
    exact ⟨h.device, fun _ => rfl, fun _ hd => by cases hd⟩
  · unfold RefMonitor.shrinkInodes
    split
    · next i hinode =>
      split
      · next hunused =>
        refine ⟨h.device, fun _ => rfl, fun users hd => ?_⟩
        obtain ⟨i', hi', -, hcount⟩ := h.kept users hd
        rw [hinode] at hi'
        cases hi'
        exact absurd (hunused.1.symm.trans hcount) (by decide)
      · exact h
    · exact h

theorem Together.step (h : Together c) {e : CalmEvent} (he : e.Reads) :
    Together (cachesRun maxFileSize c e.events) := by
  cases e with
  | look name io => exact h.look he name
  | close =>
    refine ⟨h.device, fun hd => ?_, fun users hd => ?_⟩
    · exact h.gone (Option.map_eq_none_iff.mp hd)
    · obtain ⟨users', hd', -⟩ := Option.map_eq_some_iff.mp hd
      exact h.kept users' hd'
  | write call => exact h.write call
  | drop => exact h.drop

theorem Together.run {events : List CalmEvent} (hreads : ∀ e ∈ events, e.Reads) :
    ∀ {c : Caches}, Together c → Together (cachesRun maxFileSize c (events.flatMap CalmEvent.events)) := by
  induction events with
  | nil => exact fun h => h
  | cons e events ih =>
    intro c h
    obtain ⟨he, hrest⟩ := List.forall_mem_cons.mp hreads
    rw [List.flatMap_cons, cachesRun, List.foldl_append]
    exact ih hrest (h.step he)

/-- When the kernel drops the inode with its dentry, every lookup of the file, after any run, finds
it or fails for want of memory. -/
theorem found_when_dropped_together (maxFileSize nblocks : Nat) (hn : nblocks ≤ 2 ^ 51)
    (hdevice : 1 < nblocks) (blocks : Nat → Nat → UInt8) (events : List CalmEvent)
    (hreads : ∀ e ∈ events, e.Reads) {name : List UInt8} {io : LookupIo}
    (hname : strcmp name uniqueFileName = 0) (hread : io.bread = true) :
    (look io name (cachesRun maxFileSize (freshMount nblocks hn blocks)
        (events.flatMap CalmEvent.events))).1 = .found ∨
      (io.alloc = false ∧ (look io name (cachesRun maxFileSize (freshMount nblocks hn blocks)
        (events.flatMap CalmEvent.events))).1 = .failed .enomem) := by
  have hstart : Together (freshMount nblocks hn blocks) :=
    ⟨hdevice, fun _ => rfl, fun _ hd => by cases hd⟩
  exact (hstart.run hreads).found hname hread

/-- A lookup for which nothing fails. -/
def goodIo : LookupIo := { alloc := true, bread := true }

/-- The file is looked up, closed, and dropped with its inode. -/
def sampleDrop : List CalmEvent := [.look uniqueFileName goodIo, .close, .drop]

/-- Looked up again, it is found. -/
theorem found_when_dropped_together_sample :
    (cachesRun 8192 (freshMount 8 (by decide) fun _ _ => 0)
        (sampleDrop.flatMap CalmEvent.events)).inode.isNone = true ∧
      (look goodIo uniqueFileName (cachesRun 8192 (freshMount 8 (by decide) fun _ _ => 0)
        (sampleDrop.flatMap CalmEvent.events))).1 = .found := by
  refine ⟨rfl, ?_⟩
  have hfound := found_when_dropped_together 8192 8 (by decide) (by decide) (fun _ _ => 0) sampleDrop
    (fun e he => ?_) (rfl : strcmp uniqueFileName uniqueFileName = 0) (rfl : goodIo.bread = true)
  · exact hfound.resolve_right fun h => absurd h.1 (by decide)
  · simp only [sampleDrop, List.mem_cons, List.not_mem_nil, or_false] at he
    rcases he with rfl | rfl | rfl
    · exact rfl
    · exact trivial
    · exact trivial

end Together

/-! ## What the file shows -/

section Shown

variable {maxFileSize : Nat} {c : Caches} {since : List UInt8}

/-- What has been appended since the inode was loaded, one event later. -/
def stepSince (maxFileSize : Nat) (c : Caches) (since : List UInt8) : CacheEvent → List UInt8
  | .write call =>
    match c.dentry, c.inode with
    | some (_ + 1), some i =>
      if (onefilefsWrite maxFileSize (c.fs i) call).res = call.buf.length then since ++ call.buf
      else since
    | _, _ => since
  | .shrinkInodes => if (RefMonitor.shrinkInodes c).inode.isNone then [] else since
  | _ => since

/-- What has been appended since the inode was last loaded. -/
def sinceLoad (maxFileSize : Nat) : Caches → List UInt8 → List CacheEvent → List UInt8
  | _, since, [] => since
  | c, since, e :: events =>
    sinceLoad maxFileSize (cachesStep maxFileSize c e) (stepSince maxFileSize c since e) events

/-- The file system with the size that block 1 holds. -/
def Caches.onDisk (c : Caches) : LogFs where
  nblocks := c.nblocks
  nblocks_le := c.nblocks_le
  blocks := c.blocks
  iSize := fileBody.length

theorem FromMkfs.truncate {fs : LogFs} (h : FromMkfs fs) :
    FromMkfs { fs with iSize := fileBody.length } ∧
      LogFs.visible { fs with iSize := fileBody.length } = fileBody := by
  obtain ⟨fs', hmount, hvis, h'⟩ := remount_visible h
  have hn := h.nblocks
  rw [LogFs.remount, mountLog, if_neg (by omega), if_neg (fun hne => hne h.super),
    if_neg (by omega), h.inode] at hmount
  cases hmount
  exact ⟨h', hvis⟩

/-- The blocks are those of an image, and a filled inode shows the header line and what has been
appended since it was loaded. -/
structure Shows (c : Caches) (since : List UInt8) : Prop where
  held : DentryHeld c
  disk : FromMkfs c.onDisk
  gone : c.inode = none → since = []
  kept : ∀ i, c.inode = some i → i.isNew = false →
    FromMkfs (c.fs i) ∧ (c.fs i).visible = fileBody ++ since

theorem shrinkInodes_cases (c : Caches) :
    RefMonitor.shrinkInodes c = { c with inode := none } ∨
      ∃ i, c.inode = some i ∧ RefMonitor.shrinkInodes c = c := by
  unfold RefMonitor.shrinkInodes
  cases hinode : c.inode with
  | none => exact .inl (by cases c; cases hinode; rfl)
  | some i =>
    dsimp only
    split
    · exact .inl rfl
    · exact .inr ⟨i, rfl, rfl⟩

theorem Shows.look (h : Shows c since) (io : LookupIo) (name : List UInt8) :
    Shows (look io name c).2 since := by
  have hheld := h.held.look io name
  have hcase := @look_case c io name
  generalize RefMonitor.look io name c = r at hcase hheld
  cases hcase with
  | other hname => exact h
  | hit users hname hdentry => exact ⟨hheld, h.disk, h.gone, h.kept⟩
  | noMemory hname hdentry hinode halloc => exact h
  | waits i hname hdentry hinode hnew =>
    refine ⟨hheld, h.disk, fun hi => (by cases hi), fun i' hi' hnew' => ?_⟩
    cases hi'
    exact h.kept i hinode hnew'
  | cached i hname hdentry hinode hnew =>
    refine ⟨hheld, h.disk, fun hi => (by cases hi), fun i' hi' hnew' => ?_⟩
    cases hi'
    exact h.kept i hinode hnew'
  | unread i hname hdentry hinode halloc hread hnew =>
    refine ⟨hheld, h.disk, fun hi => (by cases hi), fun i' hi' hnew' => ?_⟩
    cases hi'
    rw [hnew] at hnew'
    cases hnew'
  | loaded i hname hdentry hinode halloc hread hnew hcount hsize =>
    refine ⟨hheld, h.disk, fun hi => (by cases hi), fun i' hi' _ => ?_⟩
    cases hi'
    -- the size is the one in block 1
    have hfs : Caches.fs { c with inode := some i, dentry := some 1 } i = c.onDisk := by
      have hblock : getU64 (c.blocks 1) 24 = fileBody.length := h.disk.inode
      rw [Caches.fs, Caches.onDisk, hsize, hblock]
    rw [hfs, h.gone hinode, List.append_nil]
    exact ⟨h.disk, h.disk.truncate.2⟩

/-- The file system after a write of a process that has the file open. -/
theorem fs_cachedWrite {call : WriteCall} {users : Nat} {i : CachedInode}
    (hdentry : c.dentry = some (users + 1)) (hinode : c.inode = some i)
    (himage : FromMkfs (c.fs i)) :
    ∃ i', (cachedWrite maxFileSize call c).inode = some i' ∧ i'.isNew = i.isNew ∧
      (cachedWrite maxFileSize call c).fs i' = (onefilefsWrite maxFileSize (c.fs i) call).fs ∧
      (cachedWrite maxFileSize call c).onDisk =
        { (onefilefsWrite maxFileSize (c.fs i) call).fs with iSize := fileBody.length } := by
  have hn := @onefilefsWrite_nblocks maxFileSize (c.fs i) himage.position call
  have hwrite : cachedWrite maxFileSize call c =
      { c with
        blocks := (onefilefsWrite maxFileSize (c.fs i) call).fs.blocks
        inode := some { i with iSize := (onefilefsWrite maxFileSize (c.fs i) call).fs.iSize } } := by
    rw [cachedWrite, hdentry, hinode]
  rw [hwrite]
  generalize onefilefsWrite maxFileSize (c.fs i) call = r at hn
  obtain ⟨res, off, nblocks, nblocks_le, blocks, iSize⟩ := r
  cases hn
  exact ⟨_, rfl, rfl, rfl, rfl⟩

theorem Shows.write (h : Shows c since) (call : WriteCall) :
    Shows (cachedWrite maxFileSize call c) (stepSince maxFileSize c since (.write call)) := by
  have hheld : DentryHeld (cachedWrite maxFileSize call c) :=
    h.held.step (.write call)
  unfold stepSince
  dsimp only
  split
  · next users i hdentry hinode =>
    obtain ⟨i', hi', hnew, -⟩ := h.held.inode (users + 1) hdentry
    rw [hinode] at hi'
    cases hi'
    obtain ⟨himage, hvisible⟩ := h.kept i hinode hnew
    obtain ⟨i', hi', -, hfs, hdisk⟩ := @fs_cachedWrite maxFileSize c call users i hdentry hinode himage
    have himage' := @FromMkfs.write maxFileSize (c.fs i) himage call
    have hspec := @onefilefsWrite_spec maxFileSize (c.fs i) himage.position call
    refine ⟨hheld, hdisk ▸ himage'.truncate.1, fun hnone => ?_, fun i'' hi'' _ => ?_⟩
    · rw [hi'] at hnone
      cases hnone
    · rw [hi'] at hi''
      cases hi''
      rw [hfs]
      refine ⟨himage', ?_⟩
      cases hspec with
      | appended hres hvis _ _ _ _ _ _ => rw [if_pos hres, hvis, hvisible, List.append_assoc]
      | failed hres hsame _ =>
        have hne : (onefilefsWrite maxFileSize (c.fs i) call).res ≠ call.buf.length := by
          rcases hres with hres | hres | hres
          · rw [hres]
            exact fail_ne_length _ _
          · rw [hres]
            exact fail_ne_length _ _
          · rw [hres]
            exact fail_ne_length _ _
        rw [if_neg hne, hsame.visible, hvisible]
  · next hnot =>
    have hsame : cachedWrite maxFileSize call c = c := by
      unfold cachedWrite
      split
      · next users i hdentry hinode => exact absurd hinode (hnot users i hdentry)
      · rfl
    rw [hsame]
    exact h

theorem Shows.step (h : Shows c since) (e : CacheEvent) :
    Shows (cachesStep maxFileSize c e) (stepSince maxFileSize c since e) := by
  have hheld : DentryHeld (cachesStep maxFileSize c e) := h.held.step e
  cases e with
  | look name io => exact h.look io name
  | close => exact ⟨hheld, h.disk, h.gone, h.kept⟩
  | write call => exact h.write call
  | shrinkDentries =>
    show Shows (RefMonitor.shrinkDentries c) since
    have hheld' : DentryHeld (RefMonitor.shrinkDentries c) := hheld
    unfold RefMonitor.shrinkDentries at hheld' ⊢
    split at hheld'
    · next hidle =>
      rw [if_pos hidle]
      refine ⟨hheld', h.disk, fun hi => h.gone (Option.map_eq_none_iff.mp hi), fun i hi hnew => ?_⟩
      obtain ⟨i', hi', rfl⟩ := Option.map_eq_some_iff.mp hi
      exact h.kept i' hi' hnew
    · next hbusy =>
      rw [if_neg hbusy]
      exact h
  | shrinkInodes =>
    rcases shrinkInodes_cases c with hgone | ⟨i, hinode, hsame⟩
    · have hsince : stepSince maxFileSize c since .shrinkInodes = [] :=
        if_pos (by rw [hgone]; rfl)
      have hstep : cachesStep maxFileSize c .shrinkInodes = { c with inode := none } := hgone
      rw [hsince]
      rw [hstep] at hheld ⊢
      exact ⟨hheld, h.disk, fun _ => rfl, fun _ hi => by cases hi⟩
    · have hsince : stepSince maxFileSize c since .shrinkInodes = since :=
        if_neg (by rw [hsame, hinode]; exact Bool.false_ne_true)
      have hstep : cachesStep maxFileSize c .shrinkInodes = c := hsame
      rw [hsince, hstep]
      exact h

/-- Whatever is looked up, written and dropped after `mkfs` and a mount: the file shows the header
line and what has been appended since its inode was loaded. Records from before are gone. -/
theorem shown_since_load (maxFileSize : Nat) {nblocks : Nat} (h3 : 3 ≤ nblocks)
    (hn : nblocks ≤ 2 ^ 51) (superStack inodeStack : Nat → UInt8) (device : Nat → Nat → UInt8)
    (events : List CacheEvent) (i : CachedInode)
    (hinode : (cachesRun maxFileSize
      (freshMount nblocks hn (mkfs superStack inodeStack device)) events).inode = some i)
    (hnew : i.isNew = false) :
    ((cachesRun maxFileSize (freshMount nblocks hn (mkfs superStack inodeStack device))
      events).fs i).visible = fileBody ++ sinceLoad maxFileSize
        (freshMount nblocks hn (mkfs superStack inodeStack device)) [] events := by
  have hstart : Shows (freshMount nblocks hn (mkfs superStack inodeStack device)) [] := by
    refine ⟨freshMount_held _ _ _, ?_, fun _ => rfl, fun _ hi => by cases hi⟩
    exact (fromMkfs_mkfs h3 hn _ _ _ (mount_mkfs h3 hn superStack inodeStack device)).2
  generalize freshMount nblocks hn (mkfs superStack inodeStack device) = c at hstart hinode
  generalize ([] : List UInt8) = since at hstart
  have hend : Shows (cachesRun maxFileSize c events) (sinceLoad maxFileSize c since events) := by
    clear hinode
    induction events generalizing c since with
    | nil => exact hstart
    | cons e events ih => exact ih _ _ (hstart.step e)
  exact (hend.kept i hinode hnew).2

/-- A byte is appended, the dentry and the inode are dropped, and the file is opened again. -/
def sampleEviction : List CacheEvent :=
  [.look uniqueFileName goodIo, .write (sampleWrite [120] (by decide)), .close, .shrinkDentries,
    .shrinkInodes, .look uniqueFileName goodIo]

theorem shown_since_load_sample :
    ∃ i, (cachesRun 8192 (freshMount 8 (by decide) (mkfs (fun _ => 0) (fun _ => 0) fun _ _ => 0))
        sampleEviction).inode = some i ∧
      ((cachesRun 8192 (freshMount 8 (by decide) (mkfs (fun _ => 0) (fun _ => 0) fun _ _ => 0))
        sampleEviction).fs i).visible = fileBody ++ sinceLoad 8192
          (freshMount 8 (by decide) (mkfs (fun _ => 0) (fun _ => 0) fun _ _ => 0)) []
          sampleEviction ∧
      sinceLoad 8192 (freshMount 8 (by decide) (mkfs (fun _ => 0) (fun _ => 0) fun _ _ => 0)) []
        sampleEviction = [] := by
  have hcached : (cachesRun 8192 (freshMount 8 (by decide)
      (mkfs (fun _ => 0) (fun _ => 0) fun _ _ => 0)) sampleEviction).inode.map
      (fun i => i.isNew) = some false := by decide +kernel
  obtain ⟨i, hinode, hnew⟩ := Option.map_eq_some_iff.mp hcached
  exact ⟨i, hinode, shown_since_load 8192 (by decide) (by decide) _ _ _ sampleEviction i hinode hnew,
    by decide +kernel⟩

end Shown

end RefMonitor
