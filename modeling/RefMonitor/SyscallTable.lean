import RefMonitor.Kernel

/-!
# `scth.c`: free slots of the system-call table

`get_entries` looks for slots it may overwrite. It takes the first word of the table that
occurs a second time for the address of `sys_ni_syscall`, and acquires the first slots that
hold this word; the word is returned so that the slots can be set back to it.

Results:
1. `getEntries_holders`: the acquired slots are the first holders of the word, in order.
2. `getEntries_spec`: they are distinct, as many as asked for, and all hold the word.
-/

namespace RefMonitor

def tableSize : Nat := 256

/-- The words of the table that are looked at. -/
abbrev SyscallTable := Fin tableSize → UInt64

def maxAcquires : Nat := 4

/-- The two outer loops: the first slot whose word occurs again, and where it does first. -/
def firstRepeat (p : SyscallTable) : Option (Fin tableSize × Fin tableSize) :=
  (List.finRange tableSize).findSome? fun i =>
    ((List.finRange tableSize).find? fun z => decide (i < z ∧ p i = p z)).map fun z => (i, z)

/-- `get_entries`: the acquired slots and the word they hold. The inner loop goes over the slots
behind `z`; every store is guarded by the number that is asked for. -/
def getEntries (numAcquires : Nat) (p : SyscallTable) : Option (List (Fin tableSize) × UInt64) :=
  if numAcquires < 1 then none
  else if maxAcquires < numAcquires then none
  else
    match firstRepeat p with
    | none => none
    | some (i, z) =>
      let more := (List.finRange tableSize).filter fun k => decide (z < k ∧ p i = p k)
      let restore := (i :: z :: more).take numAcquires
      if restore.length = numAcquires then some (restore, p i) else none

/-! ## The slots that hold a word -/

def holders (p : SyscallTable) (word : UInt64) : List (Fin tableSize) :=
  (List.finRange tableSize).filter fun i => decide (p i = word)

theorem mem_holders {p : SyscallTable} {word : UInt64} {i : Fin tableSize} :
    i ∈ holders p word ↔ p i = word := by
  simp [holders]

theorem holders_sorted (p : SyscallTable) (word : UInt64) : (holders p word).Pairwise (· < ·) :=
  (List.sortedLT_finRange tableSize).pairwise.filter _

/-- What stands before an element of the slots in order is smaller. -/
theorem mem_before {n : Nat} {before after : List (Fin n)} {i : Fin n}
    (h : List.finRange n = before ++ i :: after) (j : Fin n) : j ∈ before ↔ j < i := by
  have hsorted := (List.sortedLT_finRange n).pairwise
  rw [h, List.pairwise_append] at hsorted
  obtain ⟨-, hrest, hcross⟩ := hsorted
  constructor
  · exact fun hj => hcross j hj i (List.mem_cons_self ..)
  · intro hlt
    have hj := List.mem_finRange j
    rw [h, List.mem_append, List.mem_cons] at hj
    rcases hj with hj | hj | hj
    · exact hj
    · exact absurd hj (ne_of_lt hlt)
    · exact absurd (List.rel_of_pairwise_cons hrest hj) (lt_asymm hlt)

/-- What the two loops find: the word of no earlier slot occurs again, and between the two slots
it does not occur. -/
structure FirstRepeat (p : SyscallTable) (i z : Fin tableSize) : Prop where
  lt : i < z
  same : p z = p i
  first : ∀ j z', j < i → j < z' → p j ≠ p z'
  next : ∀ k, i < k → k < z → p k ≠ p i

theorem firstRepeat_some {p : SyscallTable} {i z : Fin tableSize}
    (h : firstRepeat p = some (i, z)) : FirstRepeat p i z := by
  obtain ⟨before, a, after, hlist, hfound, hnone⟩ := List.findSome?_eq_some_iff.mp h
  obtain ⟨z', hfind, hpair⟩ := Option.map_eq_some_iff.mp hfound
  obtain ⟨rfl, rfl⟩ := Prod.mk.inj hpair
  obtain ⟨hz, before', after', hlist', hno⟩ := List.find?_eq_some_iff_append.mp hfind
  obtain ⟨hlt, hsame⟩ := of_decide_eq_true hz
  refine ⟨hlt, hsame.symm, fun j k hj hk hjk => ?_, fun k hik hkz hk => ?_⟩
  · have hj' := hnone j ((mem_before hlist j).mpr hj)
    rw [Option.map_eq_none_iff, List.find?_eq_none] at hj'
    exact hj' k (List.mem_finRange k) (decide_eq_true ⟨hk, hjk⟩)
  · have hk' := hno k ((mem_before hlist' k).mpr hkz)
    rw [decide_eq_true (show a < k ∧ p a = p k from ⟨hik, hk.symm⟩)] at hk'
    exact absurd hk' (by decide)

/-- The slots the loops go over are the holders of the repeated word. -/
theorem FirstRepeat.holders_eq {p : SyscallTable} {i z : Fin tableSize} (h : FirstRepeat p i z) :
    holders p (p i) =
      i :: z :: (List.finRange tableSize).filter fun k => decide (z < k ∧ p i = p k) := by
  refine (holders_sorted p (p i)).eq_of_mem_iff ?_ fun k => ?_
  · have hmore : ∀ k ∈ (List.finRange tableSize).filter fun k => decide (z < k ∧ p i = p k),
        z < k := by
      intro k hk
      obtain ⟨hlt, -⟩ := of_decide_eq_true (List.mem_filter.mp hk).2
      exact hlt
    refine List.pairwise_cons.mpr ⟨fun k hk => ?_, List.pairwise_cons.mpr ⟨hmore,
      (List.sortedLT_finRange tableSize).pairwise.filter _⟩⟩
    rcases List.mem_cons.mp hk with rfl | hk
    · exact h.lt
    · exact lt_trans h.lt (hmore k hk)
  · rw [mem_holders, List.mem_cons, List.mem_cons, List.mem_filter]
    constructor
    · intro hk
      rcases lt_trichotomy k i with hki | hki | hki
      · exact absurd hk (h.first k i hki hki)
      · exact .inl hki
      · rcases lt_trichotomy k z with hkz | hkz | hkz
        · exact absurd hk (h.next k hki hkz)
        · exact .inr (.inl hkz)
        · exact .inr (.inr ⟨List.mem_finRange k, decide_eq_true ⟨hkz, hk.symm⟩⟩)
    · rintro (rfl | rfl | ⟨-, hk⟩)
      · rfl
      · exact h.same
      · exact (of_decide_eq_true hk).2.symm

/-- `get_entries` acquires the first holders of the word it found. -/
theorem getEntries_holders {n : Nat} {p : SyscallTable} {restore : List (Fin tableSize)}
    {addr : UInt64} (h : getEntries n p = some (restore, addr)) :
    ∃ i z, firstRepeat p = some (i, z) ∧ p i = addr ∧ restore = (holders p addr).take n ∧
      restore.length = n := by
  unfold getEntries at h
  split at h
  · exact absurd h (by simp)
  · split at h
    · exact absurd h (by simp)
    · split at h
      · exact absurd h (by simp)
      · next i z hfirst =>
        dsimp only at h
        split at h
        · next hlen =>
          obtain ⟨rfl, rfl⟩ := Prod.mk.inj (Option.some.inj h)
          exact ⟨i, z, hfirst, rfl, by rw [(firstRepeat_some hfirst).holders_eq], hlen⟩
        · exact absurd h (by simp)

/-- A word that is repeated first and occurs three times is taken. -/
theorem getEntries_of_firstRepeat {p : SyscallTable} {i z : Fin tableSize}
    (h : firstRepeat p = some (i, z)) (hlen : 3 ≤ (holders p (p i)).length) :
    getEntries 3 p = some ((holders p (p i)).take 3, p i) := by
  have hholders := (firstRepeat_some h).holders_eq
  have hthree : ((holders p (p i)).take 3).length = 3 := by
    rw [List.length_take, Nat.min_eq_left hlen]
  rw [getEntries, if_neg (by decide), if_neg (by decide), h]
  dsimp only
  rw [← hholders, if_pos hthree]

theorem getEntries_spec {n : Nat} {p : SyscallTable} {restore : List (Fin tableSize)}
    {addr : UInt64} (h : getEntries n p = some (restore, addr)) :
    restore.length = n ∧ restore.Nodup ∧ ∀ i ∈ restore, p i = addr := by
  obtain ⟨-, -, -, -, hrestore, hlen⟩ := getEntries_holders h
  refine ⟨hlen, ?_, fun i hi => ?_⟩
  · rw [hrestore]
    exact ((holders_sorted p addr).imp ne_of_lt).sublist (List.take_sublist ..)
  · rw [hrestore] at hi
    exact mem_holders.mp (List.mem_of_mem_take hi)

end RefMonitor
