import Mathlib.Data.Fintype.Basic
import Mathlib.Data.List.Nodup
import Mathlib.Logic.Function.Basic
import Mathlib.Tactic.Common
import RefMonitor.Lib.Run

/-!
# A linked list read under RCU

A singly linked list in memory, searched by any number of readers without a lock while writers
change it under one. A reader enters a section, follows the pointers node by node and leaves the
section when it has found what it looks for or reached the end. A writer adds a node at the head,
or searches for a node, unlinks it, waits until every reader that was inside a section at that
moment has left it, and frees the node; it holds the lock all the while. Freed memory may be
handed out again. Following a pointer to a node that is free is a fault.

Results:
1. `Inv.step`: every step keeps the list a list, and every pointer that is held valid.
2. `never_faults`: no run follows a pointer to a free node.
3. `updates_run`: the list of the values after any number of updates.
4. `search_spec`: what a search says about a list that changes under it.
-/

namespace RcuList
open Run

variable {ν α ρ : Type}

/-! ## The machine -/

structure Cell (ν α : Type) where
  value : α
  next : Option ν

inductive Reader (ν α : Type)
  | outside
  /-- In its section, about to look at the node `pos`. -/
  | inside (query : α → Bool) (pos : Option ν)
  | returned (found : Bool)

inductive Writer (ν α ρ : Type)
  | unlocked
  /-- Holds the lock, about to look at the node `pos`, whose predecessor is `prev`. -/
  | searching (pick : α → Bool) (prev pos : Option ν)
  | unlinked (node : ν)
  /-- Waits for these readers to leave. -/
  | waiting (node : ν) (readers : ρ → Bool)

structure Memory (ν α ρ : Type) where
  head : Option ν
  /-- A node that is free has no cell. -/
  cells : ν → Option (Cell ν α)
  readers : ρ → Reader ν α
  writer : Writer ν α ρ

inductive Event (ν α ρ : Type)
  | enter (reader : ρ) (query : α → Bool)
  | visit (reader : ρ)
  | add (node : ν) (value : α)
  | search (pick : α → Bool)
  | look
  | sync
  | free

/-- A pointer to a free node was followed. -/
structure UseAfterFree (ν : Type) where
  node : ν

def Reader.isInside : Reader ν α → Bool
  | .inside .. => true
  | _ => false

section Step

variable [DecidableEq ν] [DecidableEq ρ]

def Memory.moveReader (m : Memory ν α ρ) (r : ρ) (st : Reader ν α) : Memory ν α ρ :=
  { m with readers := Function.update m.readers r st }

/-- The waiting writer notices that the reader has left. -/
def Writer.left (r : ρ) : Writer ν α ρ → Writer ν α ρ
  | .waiting n readers => .waiting n (Function.update readers r false)
  | w => w

def Memory.leave (m : Memory ν α ρ) (r : ρ) (found : Bool) : Memory ν α ρ :=
  { m.moveReader r (.returned found) with writer := m.writer.left r }

/-- One turn of a reader's loop. -/
def Memory.visit (m : Memory ν α ρ) (r : ρ) (query : α → Bool) :
    Option ν → Except (UseAfterFree ν) (Memory ν α ρ)
  | none => .ok (m.leave r false)
  | some n =>
    match m.cells n with
    | none => .error ⟨n⟩
    | some c =>
      if query c.value then .ok (m.leave r true) else .ok (m.moveReader r (.inside query c.next))

/-- Take the node out of the list. Its own pointer stays, for the readers that stand on it. -/
def Memory.unlink (m : Memory ν α ρ) (n : ν) (next : Option ν) :
    Option ν → Except (UseAfterFree ν) (Memory ν α ρ)
  | none => .ok { m with head := next, writer := .unlinked n }
  | some p =>
    match m.cells p with
    | none => .error ⟨p⟩
    | some c =>
      .ok { m with
        cells := Function.update m.cells p (some { c with next := next }), writer := .unlinked n }

/-- One turn of a writer's loop. -/
def Memory.look (m : Memory ν α ρ) (pick : α → Bool) (prev : Option ν) :
    Option ν → Except (UseAfterFree ν) (Memory ν α ρ)
  | none => .ok { m with writer := .unlocked }
  | some n =>
    match m.cells n with
    | none => .error ⟨n⟩
    | some c =>
      if pick c.value then m.unlink n c.next prev
      else .ok { m with writer := .searching pick (some n) c.next }

/-- An event that is not possible where its thread stands, as taking a lock that is held, leaves
everything as it is. -/
def step [Fintype ρ] (m : Memory ν α ρ) : Event ν α ρ → Except (UseAfterFree ν) (Memory ν α ρ)
  | .enter r query =>
    if (m.readers r).isInside then .ok m else .ok (m.moveReader r (.inside query m.head))
  | .visit r =>
    match m.readers r with
    | .inside query pos => m.visit r query pos
    | _ => .ok m
  | .add n a =>
    match m.writer, m.cells n with
    | .unlocked, none =>
      .ok { m with cells := Function.update m.cells n (some ⟨a, m.head⟩), head := some n }
    | _, _ => .ok m
  | .search pick =>
    match m.writer with
    | .unlocked => .ok { m with writer := .searching pick none m.head }
    | _ => .ok m
  | .look =>
    match m.writer with
    | .searching pick prev pos => m.look pick prev pos
    | _ => .ok m
  | .sync =>
    match m.writer with
    | .unlinked n => .ok { m with writer := .waiting n fun r => (m.readers r).isInside }
    | _ => .ok m
  | .free =>
    match m.writer with
    | .waiting n readers =>
      if ∀ r, readers r = false then
        .ok { m with cells := Function.update m.cells n none, writer := .unlocked }
      else .ok m
    | _ => .ok m

end Step

/-- The list is empty and nobody is at work. -/
def Memory.empty : Memory ν α ρ :=
  { head := none, cells := fun _ => none, readers := fun _ => .outside, writer := .unlocked }

/-! ## Updates -/

/-- An update of a list of values as one step. -/
inductive Update (α : Type)
  | insert (value : α)
  | remove (pick : α → Bool)

def Update.apply (list : List α) : Update α → List α
  | .insert a => a :: list
  | .remove pick => list.eraseP pick

/-- The update of a writer that takes the lock with this event. -/
def Event.granted (m : Memory ν α ρ) : Event ν α ρ → Option (Update α)
  | .add n a =>
    match m.writer, m.cells n with
    | .unlocked, none => some (.insert a)
    | _, _ => none
  | .search pick =>
    match m.writer with
    | .unlocked => some (.remove pick)
    | _ => none
  | _ => none

/-- What the writer that has the lock has still to do to the list. -/
def Writer.pending : Writer ν α ρ → List (Update α)
  | .searching pick _ _ => [.remove pick]
  | _ => []

@[simp] theorem pending_left [DecidableEq ρ] (w : Writer ν α ρ) (r : ρ) :
    (w.left r).pending = w.pending := by
  cases w <;> rfl

/-- The updates of the writers that take the lock, in the order in which they do. -/
def granted [DecidableEq ν] [DecidableEq ρ] [Fintype ρ] (m : Memory ν α ρ) :
    List (Event ν α ρ) → List (Update α)
  | [] => []
  | e :: es =>
    (e.granted m).toList ++
      match step m e with
      | .error _ => []
      | .ok m' => granted m' es

/-- Without a match nothing is removed. -/
theorem apply_remove_none {pick : α → Bool} {l : List (ν × α)} (h : ∀ x ∈ l, pick x.2 = false) :
    (Update.remove pick).apply (l.map Prod.snd) = l.map Prod.snd := by
  refine List.eraseP_of_forall_not fun a ha => ?_
  obtain ⟨x, hx, rfl⟩ := List.mem_map.mp ha
  rw [h x hx]
  exact Bool.false_ne_true

/-- The first match of a list that is cut at it. -/
theorem apply_remove_first {pick : α → Bool} {before after : List (ν × α)} {e : ν × α}
    (hbefore : ∀ x ∈ before, pick x.2 = false) (he : pick e.2 = true) :
    (Update.remove pick).apply ((before ++ e :: after).map Prod.snd) =
      (before ++ after).map Prod.snd := by
  have hnone : ∀ a ∈ before.map Prod.snd, ¬ pick a = true := by
    intro a ha
    obtain ⟨x, hx, rfl⟩ := List.mem_map.mp ha
    rw [hbefore x hx]
    exact Bool.false_ne_true
  rw [Update.apply, List.map_append, List.eraseP_append_right _ hnone, List.map_cons,
    List.eraseP_cons_of_pos he, List.map_append]

/-! ## Chains of nodes -/

/-- From `pos` the pointers lead through these nodes, in this order, to the end. -/
def Chain (cells : ν → Option (Cell ν α)) : Option ν → List (ν × α) → Prop
  | pos, [] => pos = none
  | pos, (n, a) :: rest => pos = some n ∧ ∃ next, cells n = some ⟨a, next⟩ ∧ Chain cells next rest

theorem Chain.unique {cells : ν → Option (Cell ν α)} {pos : Option ν} {l l' : List (ν × α)}
    (h : Chain cells pos l) (h' : Chain cells pos l') : l = l' := by
  induction l generalizing pos l' with
  | nil =>
    cases l' with
    | nil => rfl
    | cons e rest =>
      obtain ⟨hpos, _⟩ := h'
      rw [show pos = none from h] at hpos
      cases hpos
  | cons e rest ih =>
    obtain ⟨hpos, next, hcell, hrest⟩ := h
    cases l' with
    | nil =>
      rw [show pos = none from h'] at hpos
      cases hpos
    | cons e' rest' =>
      obtain ⟨hpos', next', hcell', hrest'⟩ := h'
      obtain ⟨n, a⟩ := e
      obtain ⟨n', a'⟩ := e'
      obtain rfl : n = n' := Option.some.inj (hpos.symm.trans hpos')
      have hsame : some (Cell.mk a next) = some ⟨a', next'⟩ := hcell.symm.trans hcell'
      simp only [Option.some.injEq, Cell.mk.injEq] at hsame
      obtain ⟨rfl, rfl⟩ := hsame
      rw [ih hrest hrest']

/-- A chain does not notice what happens to other nodes. -/
theorem Chain.congr {cells cells' : ν → Option (Cell ν α)} {pos : Option ν} {l : List (ν × α)}
    (h : Chain cells pos l) (hsame : ∀ e ∈ l, cells' e.1 = cells e.1) : Chain cells' pos l := by
  induction l generalizing pos with
  | nil => exact h
  | cons e rest ih =>
    obtain ⟨hpos, next, hcell, hrest⟩ := h
    obtain ⟨hhead, htail⟩ := List.forall_mem_cons.mp hsame
    exact ⟨hpos, next, hhead.trans hcell, ih hrest htail⟩

theorem Chain.cell_ne_none {cells : ν → Option (Cell ν α)} {pos : Option ν} {l : List (ν × α)}
    (h : Chain cells pos l) {e : ν × α} (he : e ∈ l) : cells e.1 ≠ none := by
  induction l generalizing pos with
  | nil => cases he
  | cons e' rest ih =>
    obtain ⟨_, next, hcell, hrest⟩ := h
    rcases List.mem_cons.mp he with rfl | he
    · rw [hcell]
      exact Option.some_ne_none _
    · exact ih hrest he

theorem Chain.update [DecidableEq ν] {cells : ν → Option (Cell ν α)} {pos : Option ν}
    {l : List (ν × α)} {n : ν} {c : Option (Cell ν α)} (h : Chain cells pos l)
    (hn : n ∉ l.map Prod.fst) : Chain (Function.update cells n c) pos l := by
  refine h.congr fun e he => Function.update_of_ne ?_ _ _
  rintro rfl
  exact hn (List.mem_map_of_mem he)

/-- Behind the node `e` the chain goes on. -/
theorem Chain.drop {cells : ν → Option (Cell ν α)} {pos : Option ν} {l l' : List (ν × α)}
    {e : ν × α} (h : Chain cells pos (l ++ e :: l')) :
    ∃ next, cells e.1 = some ⟨e.2, next⟩ ∧ Chain cells next l' := by
  induction l generalizing pos with
  | nil =>
    obtain ⟨_, next, hcell, hrest⟩ := h
    exact ⟨next, hcell, hrest⟩
  | cons e' rest ih =>
    obtain ⟨_, _, _, hrest⟩ := h
    exact ih hrest

/-- Redirecting the last pointer before a node takes the node out of the chain. -/
theorem Chain.unlink [DecidableEq ν] {cells : ν → Option (Cell ν α)} {pos next : Option ν}
    {l l' : List (ν × α)} {p : ν} {a b : α} {n : ν} {c : Cell ν α}
    (h : Chain cells pos (l ++ (p, a) :: (n, b) :: l'))
    (hnodup : ((l ++ (p, a) :: (n, b) :: l').map Prod.fst).Nodup) (hp : cells p = some c)
    (hn : cells n = some ⟨b, next⟩) :
    Chain (Function.update cells p (some { c with next := next })) pos (l ++ (p, a) :: l') := by
  induction l generalizing pos with
  | nil =>
    obtain ⟨hpos, next', hcell, _, next'', hcell', hrest⟩ := h
    have hpc : some c = some ⟨a, next'⟩ := hp.symm.trans hcell
    have hnext : some (Cell.mk b next) = some ⟨b, next''⟩ := hn.symm.trans hcell'
    simp only [Option.some.injEq] at hpc
    simp only [Option.some.injEq, Cell.mk.injEq, true_and] at hnext
    subst hpc hnext
    simp only [List.nil_append, List.map_cons, List.nodup_cons, List.mem_cons, not_or] at hnodup
    exact ⟨hpos, next, Function.update_self .., hrest.update hnodup.1.2⟩
  | cons e rest ih =>
    obtain ⟨hpos, next', hcell, hrest⟩ := h
    simp only [List.cons_append, List.map_cons, List.nodup_cons, List.map_append,
      List.mem_append, List.mem_cons, not_or] at hnodup
    refine ⟨hpos, next', ?_, ih hrest ?_⟩
    · rw [Function.update_of_ne hnodup.1.2.1]
      exact hcell
    · simpa using hnodup.2

/-! ## The invariant -/

/-- The node is out of the list, and its pointer still leads into it. -/
def Gone (cells : ν → Option (Cell ν α)) (l : List (ν × α)) (n : ν) : Prop :=
  n ∉ l.map Prod.fst ∧
    ∃ a next rest, cells n = some ⟨a, next⟩ ∧ Chain cells next rest ∧ rest <:+ l

inductive WriterOk (cells : ν → Option (Cell ν α)) (l : List (ν × α)) : Writer ν α ρ → Prop
  | unlocked : WriterOk cells l .unlocked
  | searching {pick : α → Bool} {prev pos : Option ν} {before after : List (ν × α)}
      (hl : l = before ++ after) (hpos : Chain cells pos after)
      (hprev : prev = before.getLast?.map Prod.fst) (hpick : ∀ e ∈ before, pick e.2 = false) :
      WriterOk cells l (.searching pick prev pos)
  | unlinked {n : ν} (h : Gone cells l n) : WriterOk cells l (.unlinked n)
  | waiting {n : ν} {readers : ρ → Bool} (h : Gone cells l n) :
      WriterOk cells l (.waiting n readers)

/-- The writer has unlinked the node and will not free it before the reader has left. -/
def Writer.keeps (r : ρ) (n : ν) : Writer ν α ρ → Prop
  | .unlinked k => k = n
  | .waiting k readers => k = n ∧ readers r = true
  | _ => False

/-- What lies ahead of a reader that holds the pointer `pos`: a rest of the list, or such a rest
behind a node the writer keeps for it. -/
def ReaderOk (cells : ν → Option (Cell ν α)) (l : List (ν × α)) (w : Writer ν α ρ) (r : ρ)
    (pos : Option ν) : Prop :=
  ∃ rest, Chain cells pos rest ∧
    (rest <:+ l ∨ ∃ n a rest', rest = (n, a) :: rest' ∧ rest' <:+ l ∧ w.keeps r n)

structure Inv (m : Memory ν α ρ) (l : List (ν × α)) : Prop where
  chain : Chain m.cells m.head l
  nodup : (l.map Prod.fst).Nodup
  writer : WriterOk m.cells l m.writer
  readers : ∀ r query pos, m.readers r = .inside query pos → ReaderOk m.cells l m.writer r pos

theorem Inv.empty : Inv (Memory.empty : Memory ν α ρ) [] := by
  refine ⟨rfl, List.nodup_nil, .unlocked, ?_⟩
  intro r query pos h
  cases h

theorem Gone.update [DecidableEq ν] {cells : ν → Option (Cell ν α)} {l : List (ν × α)} {n k : ν}
    {c : Option (Cell ν α)} (h : Gone cells l n) (hk : k ≠ n) (hl : k ∉ l.map Prod.fst) :
    Gone (Function.update cells k c) l n := by
  obtain ⟨hn, a, next, rest, hcell, hchain, hrest⟩ := h
  refine ⟨hn, a, next, rest, ?_, hchain.update fun hmem => hl ?_, hrest⟩
  · rw [Function.update_of_ne hk.symm]
    exact hcell
  · exact (hrest.map Prod.fst).subset hmem

/-- Where the nodes of a list lie that is cut in two. -/
theorem suffix_append_cases {β : Type} {rest xs ys : List β} (h : rest <:+ xs ++ ys) :
    rest <:+ ys ∨ ∃ xs', xs' <:+ xs ∧ rest = xs' ++ ys := by
  obtain ⟨t, ht⟩ := h
  rcases List.append_eq_append_iff.mp ht with ⟨u, hxs, hrest⟩ | ⟨u, _, hys⟩
  · exact .inr ⟨u, ⟨t, hxs.symm⟩, hrest⟩
  · exact .inl ⟨u, hys.symm⟩

section Steps

variable {m : Memory ν α ρ} {l : List (ν × α)}

@[simp] theorem moveReader_self [DecidableEq ρ] (r : ρ) (st : Reader ν α) :
    (m.moveReader r st).readers r = st := Function.update_self ..

theorem moveReader_of_ne [DecidableEq ρ] {r r' : ρ} (h : r' ≠ r) (st : Reader ν α) :
    (m.moveReader r st).readers r' = m.readers r' := Function.update_of_ne h ..

theorem Inv.moveReader [DecidableEq ρ] (h : Inv m l) {r : ρ} {st : Reader ν α}
    (hst : ∀ query pos, st = .inside query pos → ReaderOk m.cells l m.writer r pos) :
    Inv (m.moveReader r st) l := by
  refine ⟨h.chain, h.nodup, h.writer, ?_⟩
  intro r' query pos hr
  rcases eq_or_ne r' r with rfl | hne
  · rw [moveReader_self] at hr
    exact hst query pos hr
  · rw [moveReader_of_ne hne] at hr
    exact h.readers r' query pos hr

theorem keeps_left [DecidableEq ρ] {w : Writer ν α ρ} {r r' : ρ} {n : ν} (hne : r' ≠ r) (h : w.keeps r' n) :
    (w.left r).keeps r' n := by
  cases w with
  | waiting k readers =>
    refine ⟨h.1, ?_⟩
    rw [Function.update_of_ne hne]
    exact h.2
  | _ => exact h

theorem WriterOk.left [DecidableEq ρ] {cells : ν → Option (Cell ν α)} {w : Writer ν α ρ}
    (h : WriterOk cells l w) (r : ρ) : WriterOk cells l (w.left r) := by
  cases h with
  | unlocked => exact .unlocked
  | searching hl hpos hprev hpick => exact .searching hl hpos hprev hpick
  | unlinked hgone => exact .unlinked hgone
  | waiting hgone => exact .waiting hgone

theorem Inv.leave [DecidableEq ρ] (h : Inv m l) (r : ρ) (found : Bool) :
    Inv (m.leave r found) l := by
  refine ⟨h.chain, h.nodup, h.writer.left r, ?_⟩
  · intro r' query pos hr
    change (m.moveReader r (.returned found)).readers r' = _ at hr
    rcases eq_or_ne r' r with rfl | hne
    · rw [moveReader_self] at hr
      cases hr
    · rw [moveReader_of_ne hne] at hr
      obtain ⟨rest, hchain, hrest⟩ := h.readers r' query pos hr
      refine ⟨rest, hchain, ?_⟩
      rcases hrest with hrest | ⟨n, a, rest', hcons, hrest', hkeeps⟩
      · exact .inl hrest
      · exact .inr ⟨n, a, rest', hcons, hrest', keeps_left hne hkeeps⟩

/-- The node a reader looks at is there, and it may go on to the next one. -/
theorem ReaderOk.next {cells : ν → Option (Cell ν α)} {w : Writer ν α ρ} {r : ρ} {n : ν}
    (h : ReaderOk cells l w r (some n)) :
    ∃ c, cells n = some c ∧ ReaderOk cells l w r c.next := by
  obtain ⟨rest, hchain, hrest⟩ := h
  cases rest with
  | nil => cases (show some n = none from hchain)
  | cons e rest =>
    obtain ⟨k, a⟩ := e
    obtain ⟨hpos, next, hcell, hchain⟩ := hchain
    obtain rfl : n = k := Option.some.inj hpos
    refine ⟨_, hcell, rest, hchain, .inl ?_⟩
    rcases hrest with hrest | ⟨_, _, rest', hcons, hrest', _⟩
    · exact (List.suffix_cons ..).trans hrest
    · cases hcons
      exact hrest'

theorem Inv.visit [DecidableEq ρ] (h : Inv m l) {r : ρ} {query : α → Bool} {pos : Option ν}
    (hr : m.readers r = .inside query pos) :
    ∃ m', m.visit r query pos = .ok m' ∧ Inv m' l := by
  cases pos with
  | none => exact ⟨_, rfl, h.leave r false⟩
  | some n =>
    obtain ⟨c, hcell, hnext⟩ := (h.readers r query _ hr).next
    simp only [Memory.visit, hcell]
    split
    · exact ⟨_, rfl, h.leave r true⟩
    · refine ⟨_, rfl, h.moveReader ?_⟩
      intro query' pos' hst
      cases hst
      exact hnext

/-- Nobody else notices. -/
theorem visit_other [DecidableEq ρ] {m' : Memory ν α ρ} {r r' : ρ} {query : α → Bool}
    {pos : Option ν} (h : m.visit r query pos = .ok m') (hne : r ≠ r') :
    m'.cells = m.cells ∧ m'.readers r' = m.readers r' := by
  have hleave : ∀ found, (m.leave r found).readers r' = m.readers r' :=
    fun found => moveReader_of_ne hne.symm (.returned found)
  cases pos with
  | none =>
    cases h
    exact ⟨rfl, hleave false⟩
  | some n =>
    rw [Memory.visit] at h
    split at h
    · cases h
    · split at h
      · cases h
        exact ⟨rfl, hleave true⟩
      · cases h
        exact ⟨rfl, moveReader_of_ne hne.symm _⟩

theorem look_readers [DecidableEq ν] {m' : Memory ν α ρ} {pick : α → Bool} {prev pos : Option ν}
    (h : m.look pick prev pos = .ok m') : m'.readers = m.readers := by
  cases pos with
  | none =>
    cases h
    rfl
  | some n =>
    rw [Memory.look] at h
    split at h
    · cases h
    · split at h
      · cases prev with
        | none =>
          cases h
          rfl
        | some p =>
          rw [Memory.unlink] at h
          split at h
          · cases h
          · cases h
            rfl
      · cases h
        rfl

/-- The readers of a writer that keeps nothing stand on the list. -/
theorem Inv.reader_suffix (h : Inv m l) (hw : ∀ r n, ¬ m.writer.keeps r n) {r : ρ}
    {query : α → Bool} {pos : Option ν} (hr : m.readers r = .inside query pos) :
    ∃ rest, Chain m.cells pos rest ∧ rest <:+ l := by
  obtain ⟨rest, hchain, hrest | ⟨n, _, _, _, _, hkeeps⟩⟩ := h.readers r query pos hr
  · exact ⟨rest, hchain, hrest⟩
  · exact absurd hkeeps (hw r n)

theorem Inv.add [DecidableEq ν] (h : Inv m l) (hw : m.writer = .unlocked) {n : ν} (hn : m.cells n = none) (a : α) :
    Inv { m with cells := Function.update m.cells n (some ⟨a, m.head⟩), head := some n }
      ((n, a) :: l) := by
  have hfresh : ∀ {pos rest}, Chain m.cells pos rest → n ∉ rest.map Prod.fst := by
    intro pos rest hchain hmem
    obtain ⟨e, he, rfl⟩ := List.mem_map.mp hmem
    exact hchain.cell_ne_none he hn
  refine ⟨⟨rfl, m.head, Function.update_self .., h.chain.update (hfresh h.chain)⟩, ?_, ?_, ?_⟩
  · exact List.nodup_cons.mpr ⟨hfresh h.chain, h.nodup⟩
  · show WriterOk _ _ m.writer
    rw [hw]
    exact .unlocked
  · intro r query pos hr
    obtain ⟨rest, hchain, hrest⟩ := h.reader_suffix (by rw [hw]; exact fun _ _ => id) hr
    exact ⟨rest, hchain.update (hfresh hchain), .inl (hrest.trans (List.suffix_cons ..))⟩

/-- What lies ahead of a pointer into the list when a node is taken out of it: the same without
the node, unless the pointer is to the node itself. -/
theorem Chain.unlink_ahead [DecidableEq ν] {cells : ν → Option (Cell ν α)}
    {before after rest : List (ν × α)} {n p : ν} {a b : α} {c : Cell ν α} {next pos : Option ν}
    (hnodup : ((before ++ (p, b) :: (n, a) :: after).map Prod.fst).Nodup)
    (hp : cells p = some c) (hn : cells n = some ⟨a, next⟩) (hchain : Chain cells pos rest)
    (hrest : rest <:+ before ++ (p, b) :: (n, a) :: after) :
    ∃ rest', Chain (Function.update cells p (some { c with next := next })) pos rest' ∧
      rest'.Sublist rest ∧ (∀ e ∈ rest, e ∈ rest' ∨ e = (n, a)) ∧
      (rest' <:+ before ++ (p, b) :: after ∨ rest' = (n, a) :: after) := by
  have hp' : p ∉ ((n, a) :: after).map Prod.fst := by
    have htail := (List.nodup_append.mp (List.map_append ▸ hnodup)).2.1
    exact (List.nodup_cons.mp htail).1
  rcases suffix_append_cases hrest with hbehind | ⟨xs, hxs, rfl⟩
  · rcases List.suffix_cons_iff.mp hbehind with rfl | hbehind
    · -- it points to the node before
      refine ⟨(p, b) :: after, ?_, ?_, ?_, .inl (List.suffix_append ..)⟩
      · exact Chain.unlink (l := []) hchain (hnodup.sublist (hrest.sublist.map _)) hp hn
      · exact (List.sublist_cons_self _ _).cons_cons _
      · intro e he
        simp only [List.mem_cons] at he ⊢
        tauto
    · -- it points to the node, or behind it
      refine ⟨rest, hchain.update fun hmem => hp' ((hbehind.map Prod.fst).subset hmem), .refl rest,
        fun e he => .inl he, ?_⟩
      rcases List.suffix_cons_iff.mp hbehind with rfl | hbehind
      · exact .inr rfl
      · exact .inl (hbehind.trans ⟨before ++ [(p, b)], by simp⟩)
  · -- it points to a node further ahead
    refine ⟨xs ++ (p, b) :: after, hchain.unlink (hnodup.sublist (hrest.sublist.map _)) hp hn, ?_,
      ?_, .inl ?_⟩
    · exact (List.Sublist.refl xs).append ((List.sublist_cons_self _ _).cons_cons _)
    · intro e he
      simp only [List.mem_append, List.mem_cons] at he ⊢
      tauto
    · obtain ⟨t, rfl⟩ := hxs
      exact ⟨t, (List.append_assoc ..).symm⟩

/-- Taking a node out keeps everything else in place. -/
theorem nodup_without {before after : List (ν × α)} {e : ν × α}
    (h : ((before ++ e :: after).map Prod.fst).Nodup) :
    ((before ++ after).map Prod.fst).Nodup ∧ e.1 ∉ (before ++ after).map Prod.fst := by
  rw [List.map_append, List.map_cons] at h
  rw [List.map_append]
  exact ⟨h.sublist ((List.Sublist.refl _).append (List.sublist_cons_self _ _)),
    (List.nodup_middle.mp h).notMem⟩

/-- The first node is taken out. -/
theorem Inv.unlinkHead {n : ν} {a : α} {after : List (ν × α)} (h : Inv m ((n, a) :: after))
    (hw : ∀ r k, ¬ m.writer.keeps r k) {next : Option ν} (hn : m.cells n = some ⟨a, next⟩) :
    Inv { m with head := next, writer := .unlinked n } after := by
  obtain ⟨next', hcell, hrest⟩ := Chain.drop (l := []) h.chain
  obtain rfl : next = next' := by
    have hsame := hn.symm.trans hcell
    simp only [Option.some.injEq, Cell.mk.injEq, true_and] at hsame
    exact hsame
  obtain ⟨hnodup, hnot⟩ : (after.map Prod.fst).Nodup ∧ n ∉ after.map Prod.fst :=
    (List.nodup_cons.mp h.nodup).symm
  refine ⟨hrest, hnodup, .unlinked ⟨hnot, a, next, after, hn, hrest, List.suffix_refl after⟩, ?_⟩
  intro r query pos hr
  obtain ⟨rest, hchain, hsuffix⟩ := h.reader_suffix hw hr
  refine ⟨rest, hchain, ?_⟩
  rcases List.suffix_cons_iff.mp hsuffix with rfl | hsuffix
  · exact .inr ⟨n, a, after, rfl, List.suffix_refl after, rfl⟩
  · exact .inl hsuffix

/-- A node with another one before it is taken out. -/
theorem Inv.unlinkNext [DecidableEq ν] {before after : List (ν × α)} {n p : ν} {a b : α}
    (h : Inv m (before ++ (p, b) :: (n, a) :: after)) (hw : ∀ r k, ¬ m.writer.keeps r k)
    {next : Option ν} {c : Cell ν α} (hp : m.cells p = some c)
    (hn : m.cells n = some ⟨a, next⟩) :
    Inv { m with
        cells := Function.update m.cells p (some { c with next := next }), writer := .unlinked n }
      (before ++ (p, b) :: after) := by
  have hsplit := List.append_cons before (p, b) ((n, a) :: after)
  obtain ⟨hnodup, hnot⟩ := nodup_without (hsplit ▸ h.nodup)
  rw [← List.append_cons] at hnodup hnot
  have hpn : p ≠ n := by
    rintro rfl
    simp at hnot
  have hgone : Gone m.cells after n := by
    obtain ⟨next', hcell, hrest⟩ := (hsplit ▸ h.chain).drop
    obtain rfl : next = next' := by
      have hsame := hn.symm.trans hcell
      simp only [Option.some.injEq, Cell.mk.injEq, true_and] at hsame
      exact hsame
    refine ⟨fun hmem => hnot ?_, a, next, after, hn, hrest, List.suffix_refl after⟩
    simp [hmem]
  refine ⟨h.chain.unlink h.nodup hp hn, hnodup, .unlinked ?_, ?_⟩
  · have hp' : p ∉ after.map Prod.fst := by
      have htail := (List.nodup_append.mp (List.map_append ▸ hnodup)).2.1
      exact (List.nodup_cons.mp htail).1
    obtain ⟨_, a', next', rest, hcell, hchain, hrest⟩ := hgone.update hpn hp'
    exact ⟨hnot, a', next', rest, hcell, hchain, hrest.trans ⟨before ++ [(p, b)], by simp⟩⟩
  · intro r query pos hr
    obtain ⟨rest, hchain, hsuffix⟩ := h.reader_suffix hw hr
    obtain ⟨rest', hchain', _, _, hrest'⟩ := Chain.unlink_ahead h.nodup hp hn hchain hsuffix
    refine ⟨rest', hchain', ?_⟩
    rcases hrest' with hrest' | rfl
    · exact .inl hrest'
    · exact .inr ⟨n, a, after, rfl, ⟨before ++ [(p, b)], by simp⟩, rfl⟩

/-- What a step does to the list of the values: nothing, or the update that has waited longest is
made. -/
inductive Made (m : Memory ν α ρ) (l : List (ν × α)) (e : Event ν α ρ)
    (m' : Memory ν α ρ) : List (ν × α) → Prop
  | none (hpending : m.writer.pending ++ (e.granted m).toList = m'.writer.pending) : Made m l e m' l
  | one {u : Update α} {l' : List (ν × α)}
      (hpending : m.writer.pending ++ (e.granted m).toList = u :: m'.writer.pending)
      (hlist : l'.map Prod.snd = u.apply (l.map Prod.snd)) : Made m l e m' l'

/-- What lies ahead of a pointer after a step: what did before, except for nodes that are no
longer listed. -/
def Ahead (m : Memory ν α ρ) (l : List (ν × α)) (pos : Option ν) (rest : List (ν × α)) : Prop :=
  ∃ rest', Chain m.cells pos rest' ∧ rest'.Sublist rest ∧ ∀ e ∈ rest, e ∈ rest' ∨ e ∉ l

theorem Chain.ahead {pos : Option ν} {rest : List (ν × α)} (h : Chain m.cells pos rest) :
    Ahead m l pos rest := ⟨rest, h, .refl rest, fun _ he => .inl he⟩

/-- A step, with what it does to the list and to the other readers. -/
structure Stepped (m : Memory ν α ρ) (l : List (ν × α)) (e : Event ν α ρ)
    (m' : Memory ν α ρ) (l' : List (ν × α)) : Prop where
  inv : Inv m' l'
  made : Made m l e m' l'
  ahead : ∀ r query pos rest, e ≠ .visit r → m.readers r = .inside query pos →
    Chain m.cells pos rest → m'.readers r = .inside query pos ∧ Ahead m' l' pos rest

theorem Stepped.stay (h : Inv m l) {e : Event ν α ρ} (hno : e.granted m = none) :
    Stepped m l e m l :=
  ⟨h, .none (by rw [hno]; exact List.append_nil _), fun _ _ _ _ _ hr hchain => ⟨hr, hchain.ahead⟩⟩

/-- A turn of the writer's loop. -/
theorem Inv.look [DecidableEq ν] (h : Inv m l) {pick : α → Bool} {prev pos : Option ν}
    (hw : m.writer = .searching pick prev pos) :
    ∃ m' l', m.look pick prev pos = .ok m' ∧ Stepped m l .look m' l' := by
  have hkeeps : ∀ r k, ¬ m.writer.keeps r k := by
    rw [hw]
    exact fun _ _ => id
  have hreaders : ∀ w : Writer ν α ρ, ∀ r query pos, m.readers r = .inside query pos →
      ReaderOk m.cells l w r pos := by
    intro w r query pos hr
    obtain ⟨rest, hchain, hrest⟩ := h.reader_suffix hkeeps hr
    exact ⟨rest, hchain, .inl hrest⟩
  have hwriter := h.writer
  rw [hw] at hwriter
  cases hwriter with
  | @searching _ _ _ before after hl hpos hprev hpick =>
    subst hl
    cases after with
    | nil =>
      obtain rfl : pos = none := hpos
      refine ⟨_, _, rfl, ⟨h.chain, h.nodup, .unlocked, hreaders _⟩, .one (by rw [hw]; rfl) ?_,
        fun _ _ _ _ _ hr hchain => ⟨hr, Chain.ahead hchain⟩⟩
      rw [List.append_nil]
      exact (apply_remove_none hpick).symm
    | cons e after =>
      obtain ⟨n, a⟩ := e
      obtain ⟨rfl, next, hcell, hrest⟩ := hpos
      simp only [Memory.look, hcell]
      cases hp : pick a with
      | false =>
        -- the node stays, the search goes on behind it
        refine ⟨_, _, rfl, ⟨h.chain, h.nodup, ?_, hreaders _⟩, .none (by rw [hw]; rfl),
          fun _ _ _ _ _ hr hchain => ⟨hr, Chain.ahead hchain⟩⟩
        refine .searching (List.append_cons before (n, a) after) hrest (by simp) ?_
        intro e he
        rcases List.mem_append.mp he with he | he
        · exact hpick e he
        · obtain rfl := List.mem_singleton.mp he
          exact hp
      | true =>
        have hpending : m.writer.pending ++ (Event.granted m .look).toList = [.remove pick] := by
          rw [hw]
          rfl
        have hlist := (@apply_remove_first ν α pick before after (n, a) hpick hp).symm
        rcases List.eq_nil_or_concat' before with rfl | ⟨xs, e, rfl⟩
        · subst hprev
          exact ⟨_, after, rfl, h.unlinkHead hkeeps hcell, .one hpending hlist,
            fun _ _ _ _ _ hr hchain => ⟨hr, Chain.ahead hchain⟩⟩
        · obtain ⟨p, b⟩ := e
          obtain rfl : prev = some p := by simpa using hprev
          have hinv : Inv m (xs ++ (p, b) :: (n, a) :: after) := by
            rw [List.append_cons]
            exact h
          obtain ⟨next', hp', _⟩ := hinv.chain.drop
          simp only [Memory.unlink, hp', if_true]
          refine ⟨_, xs ++ (p, b) :: after, rfl, hinv.unlinkNext hkeeps hp' hcell, ?_, ?_⟩
          · refine .one hpending ?_
            rw [List.append_cons xs (p, b) after]
            exact hlist
          · intro r query pos rest _ hr hchain
            obtain ⟨rest', hchain', hsuffix⟩ := hinv.reader_suffix hkeeps hr
            obtain rfl := hchain.unique hchain'
            obtain ⟨rest', hahead, hsub, hmem, _⟩ :=
              Chain.unlink_ahead hinv.nodup hp' hcell hchain hsuffix
            refine ⟨hr, rest', hahead, hsub, fun e he => (hmem e he).imp_right ?_⟩
            rintro rfl hmem
            rw [List.append_cons xs (p, b) after] at hmem
            exact (nodup_without h.nodup).2 (List.mem_map_of_mem hmem)

theorem visit_pending [DecidableEq ρ] {m' : Memory ν α ρ} {r : ρ} {query : α → Bool}
    {pos : Option ν} (hm' : m.visit r query pos = .ok m') : m'.writer.pending = m.writer.pending := by
  cases pos with
  | none =>
    cases hm'
    exact pending_left _ r
  | some n =>
    rw [Memory.visit] at hm'
    split at hm'
    · cases hm'
    · split at hm'
      · cases hm'
        exact pending_left _ r
      · cases hm'
        rfl

/-- Every step keeps the invariant, and none follows a pointer to a free node. -/
theorem Inv.step [DecidableEq ν] [DecidableEq ρ] [Fintype ρ] (h : Inv m l) (e : Event ν α ρ) :
    ∃ m' l', step m e = .ok m' ∧ Stepped m l e m' l' := by
  cases e with
  | enter r query =>
    simp only [RcuList.step]
    split
    · exact ⟨m, l, rfl, .stay h rfl⟩
    · next hout =>
      refine ⟨_, l, rfl, h.moveReader ?_, .none (List.append_nil _), ?_⟩
      · intro query' pos hst
        cases hst
        exact ⟨l, h.chain, .inl (List.suffix_refl l)⟩
      · intro r' query' pos rest _ hr hchain
        have hne : r' ≠ r := by
          rintro rfl
          rw [hr] at hout
          exact hout rfl
        rw [moveReader_of_ne hne]
        exact ⟨hr, Chain.ahead hchain⟩
  | visit r =>
    simp only [RcuList.step]
    split
    · next query pos hr =>
      obtain ⟨m', hm', hinv⟩ := h.visit hr
      refine ⟨m', l, hm', hinv, .none ((List.append_nil _).trans (visit_pending hm').symm), ?_⟩
      intro r' query' pos' rest hne hr' hchain
      have hother : m'.cells = m.cells ∧ m'.readers r' = m.readers r' :=
        visit_other hm' fun heq => hne (by rw [heq])
      rw [hother.2]
      exact ⟨hr', rest, hother.1 ▸ hchain, .refl rest, fun _ he => .inl he⟩
    · exact ⟨m, l, rfl, .stay h rfl⟩
  | add n a =>
    simp only [RcuList.step]
    split
    · next hw hn =>
      refine ⟨_, _, rfl, h.add hw hn a, ?_, ?_⟩
      · refine @Made.one ν α ρ m l _ _ (.insert a) _ ?_ rfl
        simp only [Event.granted, hw, hn]
        rfl
      intro r query pos rest _ hr hchain
      refine ⟨hr, Chain.ahead (hchain.update fun hmem => ?_)⟩
      obtain ⟨e, he, rfl⟩ := List.mem_map.mp hmem
      exact hchain.cell_ne_none he hn
    · next hno =>
      refine ⟨m, l, rfl, .stay h ?_⟩
      simp only [Event.granted]
  | search pick =>
    simp only [RcuList.step]
    split
    · next hw =>
      refine ⟨_, l, rfl, ⟨h.chain, h.nodup, ?_, ?_⟩, .none ?_,
        fun _ _ _ _ _ hr hchain => ⟨hr, Chain.ahead hchain⟩⟩
      · exact .searching (List.nil_append l).symm h.chain rfl (fun e he => by cases he)
      · intro r query pos hr
        obtain ⟨rest, hchain, hrest⟩ := h.reader_suffix (by rw [hw]; exact fun _ _ => id) hr
        exact ⟨rest, hchain, .inl hrest⟩
      · simp only [Event.granted, hw]
        rfl
    · next hno =>
      refine ⟨m, l, rfl, .stay h ?_⟩
      simp only [Event.granted]
  | look =>
    simp only [RcuList.step]
    split
    · next pick prev pos hw => exact h.look hw
    · exact ⟨m, l, rfl, .stay h rfl⟩
  | sync =>
    simp only [RcuList.step]
    split
    · next n hw =>
      have hwriter := h.writer
      rw [hw] at hwriter
      cases hwriter with
      | unlinked hgone =>
        refine ⟨_, l, rfl, ⟨h.chain, h.nodup, .waiting hgone, ?_⟩, .none (by rw [hw]; rfl),
          fun _ _ _ _ _ hr hchain => ⟨hr, Chain.ahead hchain⟩⟩
        intro r query pos hr
        obtain ⟨rest, hchain, hrest⟩ := h.readers r query pos hr
        rw [hw] at hrest
        have hinside : (m.readers r).isInside = true := by
          rw [show m.readers r = .inside query pos from hr]
          rfl
        exact ⟨rest, hchain, hrest.imp_right fun ⟨k, a, rest', hcons, hrest', hk⟩ =>
          ⟨k, a, rest', hcons, hrest', hk, hinside⟩⟩
    · exact ⟨m, l, rfl, .stay h rfl⟩
  | free =>
    simp only [RcuList.step]
    split
    · next n readers hw =>
      split
      · next hall =>
        have hwriter := h.writer
        rw [hw] at hwriter
        cases hwriter with
        | waiting hgone =>
          -- nobody it waited for is left, so nobody stands on the node
          have hkeeps : ∀ r k, ¬ m.writer.keeps r k := by
            rw [hw]
            rintro r k ⟨_, hr⟩
            rw [hall r] at hr
            cases hr
          have hahead : ∀ {r query pos rest}, m.readers r = .inside query pos →
              Chain m.cells pos rest → Chain (Function.update m.cells n none) pos rest := by
            intro r query pos rest hr hchain
            obtain ⟨rest', hchain', hrest⟩ := h.reader_suffix hkeeps hr
            obtain rfl := hchain.unique hchain'
            exact hchain.update fun hmem => hgone.1 ((hrest.map Prod.fst).subset hmem)
          refine ⟨_, l, rfl, ⟨h.chain.update hgone.1, h.nodup, .unlocked, ?_⟩,
            .none (by rw [hw]; rfl), ?_⟩
          · intro r query pos hr
            obtain ⟨rest, hchain, hrest⟩ := h.reader_suffix hkeeps hr
            exact ⟨rest, hahead hr hchain, .inl hrest⟩
          · intro r query pos rest _ hr hchain
            exact ⟨hr, Chain.ahead (hahead hr hchain)⟩
      · exact ⟨m, l, rfl, .stay h rfl⟩
    · exact ⟨m, l, rfl, .stay h rfl⟩

/-- A step of a search by its own reader. -/
theorem visit_search [DecidableEq ρ] {m' : Memory ν α ρ} {r : ρ} {query : α → Bool} {pos : Option ν}
    {rest : List (ν × α)} (hchain : Chain m.cells pos rest)
    (hm' : m.visit r query pos = .ok m') :
    (∃ e pos' rest', rest = e :: rest' ∧ query e.2 = false ∧
      m'.readers r = .inside query pos' ∧ Chain m'.cells pos' rest') ∨
    (m'.readers r = .returned true ∧ ∃ e ∈ rest, query e.2 = true) ∨
    (m'.readers r = .returned false ∧ rest = []) := by
  cases rest with
  | nil =>
    obtain rfl : pos = none := hchain
    cases hm'
    exact .inr (.inr ⟨moveReader_self .., rfl⟩)
  | cons e rest =>
    obtain ⟨n, a⟩ := e
    obtain ⟨rfl, next, hcell, hrest⟩ := hchain
    simp only [Memory.visit, hcell] at hm'
    cases hq : query a with
    | true =>
      rw [hq, if_pos rfl] at hm'
      cases hm'
      exact .inr (.inl ⟨moveReader_self .., (n, a), List.mem_cons_self, hq⟩)
    | false =>
      rw [hq, if_neg Bool.false_ne_true] at hm'
      cases hm'
      exact .inl ⟨(n, a), next, rest, rfl, hq, moveReader_self .., hrest⟩

def Listed (e : ν × α) (m : Memory ν α ρ) : Prop := ∃ l, Chain m.cells m.head l ∧ e ∈ l

theorem Inv.listed_iff (h : Inv m l) {e : ν × α} : Listed e m ↔ e ∈ l := by
  constructor
  · rintro ⟨l', hl', he⟩
    exact h.chain.unique hl' ▸ he
  · exact fun he => ⟨l, h.chain, he⟩

end Steps

/-! ## Whole runs -/

section Runs

variable [DecidableEq ν] [DecidableEq ρ] [Fintype ρ]

/-- No run follows a pointer to a free node. -/
theorem never_faults (es : List (Event ν α ρ)) :
    ∀ {m : Memory ν α ρ} {l : List (ν × α)}, Inv m l →
      ∃ m' l', es.foldlM step m = .ok m' ∧ Inv m' l' := by
  induction es with
  | nil => exact fun h => ⟨_, _, rfl, h⟩
  | cons e es ih =>
    intro m l h
    obtain ⟨m₁, l₁, hm₁, h₁⟩ := h.step e
    rw [List.foldlM_cons, hm₁]
    exact ih h₁.inv

/-- After any run the list of the values is what the updates of the writers that have taken the lock
make of it, one after the other, except for the one that is still searching. -/
theorem updates_run (es : List (Event ν α ρ)) :
    ∀ {m : Memory ν α ρ} {l : List (ν × α)}, Inv m l →
      ∃ m' l' done, es.foldlM step m = .ok m' ∧ Inv m' l' ∧
        m.writer.pending ++ granted m es = done ++ m'.writer.pending ∧
        l'.map Prod.snd = done.foldl Update.apply (l.map Prod.snd) := by
  induction es with
  | nil => exact fun {m l} h => ⟨m, l, [], rfl, h, List.append_nil _, rfl⟩
  | cons e es ih =>
    intro m l h
    obtain ⟨m₁, l₁, hm₁, h₁⟩ := h.step e
    obtain ⟨m', l', done, hrun, hinv, hpending, hlist⟩ := ih h₁.inv
    have hgranted : granted m (e :: es) = (e.granted m).toList ++ granted m₁ es := by
      rw [granted, hm₁]
    have hrun' : (e :: es).foldlM step m = .ok m' := by
      rw [List.foldlM_cons, hm₁]
      exact hrun
    rw [hgranted, ← List.append_assoc]
    cases h₁.made with
    | none hstep =>
      rw [hstep]
      exact ⟨m', l', done, hrun', hinv, hpending, hlist⟩
    | @one u _ hstep hmade =>
      rw [hstep, List.cons_append, hpending]
      refine ⟨m', l', u :: done, hrun', hinv, rfl, ?_⟩
      rw [hlist, hmade, List.foldl_cons]

variable {m m' : Memory ν α ρ} {l : List (ν × α)} {r : ρ} {query : α → Bool}

/-- A step while the reader searches: it goes on, with fewer nodes ahead of it, or returns. -/
theorem search_step {e : Event ν α ρ} {l' : List (ν × α)} {pos : Option ν}
    {rest : List (ν × α)} (hm' : step m e = .ok m') (h : Stepped m l e m' l')
    (hr : m.readers r = .inside query pos) (hchain : Chain m.cells pos rest) :
    (∃ pos' rest', m'.readers r = .inside query pos' ∧ Chain m'.cells pos' rest' ∧
      rest'.Sublist rest ∧ ∀ x ∈ rest, query x.2 = true → x ∈ rest' ∨ x ∉ l') ∨
    (m'.readers r = .returned true ∧ ∃ x ∈ rest, query x.2 = true) ∨
    (m'.readers r = .returned false ∧ rest = []) := by
  by_cases hvisit : e = .visit r
  · subst hvisit
    simp only [step, hr] at hm'
    rcases visit_search hchain hm' with ⟨x, pos', rest', rfl, hx, hr', hchain'⟩ | hret
    · refine .inl ⟨pos', rest', hr', hchain', List.sublist_cons_self _ _, ?_⟩
      intro y hy hquery
      rcases List.mem_cons.mp hy with rfl | hy
      · rw [hx] at hquery
        cases hquery
      · exact .inl hy
    · exact .inr hret
  · obtain ⟨hr', rest', hchain', hsub, hmem⟩ := h.ahead r query pos rest hvisit hr hchain
    exact .inl ⟨pos, rest', hr', hchain', hsub, fun x hx _ => hmem x hx⟩

/-- A reader that has returned stays so until it enters again. -/
theorem returned_step {e : Event ν α ρ} {found : Bool} (hm' : step m e = .ok m')
    (hr : m.readers r = .returned found) (henter : ∀ query, e ≠ .enter r query) :
    m'.readers r = .returned found := by
  cases e with
  | enter r' query =>
    have hne : r ≠ r' := by
      rintro rfl
      exact henter query rfl
    simp only [step] at hm'
    split at hm'
    · cases hm'
      exact hr
    · cases hm'
      rw [moveReader_of_ne hne]
      exact hr
  | visit r' =>
    simp only [step] at hm'
    split at hm'
    · next query pos hr' =>
      have hne : r' ≠ r := by
        rintro rfl
        rw [hr] at hr'
        cases hr'
      rw [(visit_other hm' hne).2]
      exact hr
    · cases hm'
      exact hr
  | look =>
    simp only [step] at hm'
    split at hm'
    · next pick prev pos hw =>
      rw [look_readers hm']
      exact hr
    · cases hm'
      exact hr
  | free =>
    simp only [step] at hm'
    split at hm'
    · split at hm'
      · cases hm'
        exact hr
      · cases hm'
        exact hr
    · cases hm'
      exact hr
  | _ =>
    simp only [step] at hm'
    split at hm'
    · cases hm'
      exact hr
    · cases hm'
      exact hr

theorem returned_run {es : List (Event ν α ρ)} {found : Bool}
    (henter : ∀ query, Event.enter r query ∉ es) :
    ∀ {m : Memory ν α ρ}, m.readers r = .returned found → es.foldlM step m = .ok m' →
      m'.readers r = .returned found := by
  induction es with
  | nil =>
    intro m hr hrun
    cases hrun
    exact hr
  | cons e es ih =>
    intro m hr hrun
    rw [List.foldlM_cons] at hrun
    cases hm₁ : step m e with
    | error f =>
      rw [hm₁] at hrun
      cases hrun
    | ok m₁ =>
      rw [hm₁] at hrun
      have hr₁ := returned_step hm₁ hr fun query heq =>
        henter query (heq ▸ List.mem_cons_self)
      exact ih (fun query hmem => henter query (List.mem_cons_of_mem e hmem)) hr₁ hrun

/-- The rest of a search, from any point of it on. -/
theorem search_run {es : List (Event ν α ρ)} {found : Bool}
    (henter : ∀ query, Event.enter r query ∉ es) :
    ∀ {m : Memory ν α ρ} {l rest : List (ν × α)} {pos : Option ν}, Inv m l →
      m.readers r = .inside query pos → Chain m.cells pos rest → es.foldlM step m = .ok m' →
      m'.readers r = .returned found →
      (found = true → ∃ x ∈ rest, query x.2 = true) ∧
      (∀ x ∈ rest, query x.2 = true → EveryState step (Listed x) m es → found = true) := by
  induction es with
  | nil =>
    intro m l rest pos _ hr _ hrun hret
    cases hrun
    rw [hr] at hret
    cases hret
  | cons e es ih =>
    intro m l rest pos h hr hchain hrun hret
    have henter' : ∀ query, Event.enter r query ∉ es :=
      fun query hmem => henter query (List.mem_cons_of_mem e hmem)
    obtain ⟨m₁, l₁, hm₁, h₁⟩ := h.step e
    rw [List.foldlM_cons, hm₁] at hrun
    have hdone : ∀ {found'}, m₁.readers r = .returned found' → found' = found := by
      intro found' hr₁
      have hret' := returned_run henter' hr₁ hrun
      rw [hret] at hret'
      cases hret'
      rfl
    rcases search_step hm₁ h₁ hr hchain with
      ⟨pos', rest', hr₁, hchain₁, hsub, hmem⟩ | ⟨hr₁, hfound⟩ | ⟨hr₁, rfl⟩
    · obtain ⟨hsound, hcomplete⟩ := ih henter' h₁.inv hr₁ hchain₁ hrun hret
      refine ⟨fun hf => ?_, ?_⟩
      · obtain ⟨x, hx, hquery⟩ := hsound hf
        exact ⟨x, hsub.subset hx, hquery⟩
      · rintro x hx hquery ⟨_, hlisted⟩
        -- it is still listed after the step, so the step has not taken it out
        have hlater := hlisted m₁ hm₁
        refine hcomplete x ((hmem x hx hquery).resolve_right fun hnot => hnot ?_) hquery hlater
        refine h₁.inv.listed_iff.mp ?_
        cases es with
        | nil => exact hlater
        | cons _ _ => exact hlater.1
    · obtain rfl := hdone hr₁
      exact ⟨fun _ => hfound, fun _ _ _ _ => rfl⟩
    · obtain rfl := hdone hr₁
      exact ⟨fun hf => absurd hf Bool.false_ne_true, fun x hx => absurd hx List.not_mem_nil⟩

/-- A whole search. What it finds was listed when it began, and what is listed from its beginning
to its end is found. -/
theorem search_spec {es : List (Event ν α ρ)} {found : Bool} (h : Inv m l)
    (hout : (m.readers r).isInside = false) (henter : ∀ query, Event.enter r query ∉ es)
    (hrun : (Event.enter r query :: es).foldlM step m = .ok m')
    (hret : m'.readers r = .returned found) :
    (found = true → ∃ x, Listed x m ∧ query x.2 = true) ∧
    (∀ x, query x.2 = true → EveryState step (Listed x) m (.enter r query :: es) →
      found = true) := by
  have hm₁ : step m (.enter r query) = .ok (m.moveReader r (.inside query m.head)) := by
    simp only [step, hout, Bool.false_eq_true, if_false]
  have h₁ : Inv (m.moveReader r (.inside query m.head)) l := by
    refine h.moveReader fun query' pos hst => ?_
    cases hst
    exact ⟨l, h.chain, .inl (List.suffix_refl l)⟩
  rw [List.foldlM_cons, hm₁] at hrun
  obtain ⟨hsound, hcomplete⟩ :=
    search_run henter h₁ (moveReader_self ..) h.chain hrun hret
  constructor
  · intro hf
    obtain ⟨x, hx, hquery⟩ := hsound hf
    exact ⟨x, h.listed_iff.mpr hx, hquery⟩
  · rintro x hquery ⟨hx, hlisted⟩
    exact hcomplete x (h.listed_iff.mp hx) hquery (hlisted _ hm₁)

end Runs

end RcuList
