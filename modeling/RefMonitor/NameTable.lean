import RefMonitor.Hash

/-!
# Namespaces given by a table

A finite namespace: the dentries of a tree, each with its text, its inode number and its
parent, and the absolute names that resolve to them (canonical names, names with `..`,
names through symbolic links). A relative name is looked up as the cwd's text joined with
it. A dentry is a position in the table; two dentries with one inode number are hard links.

Result: `NameTable.singleMount`. A table whose names lead to dentries that are named by
their own texts obeys the laws of a single mounted file system.
-/

namespace RefMonitor
open CString

/-- One dentry: its text, its inode number, its parent. -/
structure TableDentry where
  text : List UInt8
  ino : Nat
  parent : Nat
deriving DecidableEq

structure NameTable where
  dentries : List TableDentry
  /-- Absolute names and the position of the dentry each resolves to. -/
  names : List (List UInt8 × Nat)

/-- The text before the last slash. -/
def dirText (name : List UInt8) : List UInt8 :=
  (name.reverse.dropWhile (· != slash)).tail.reverse

namespace NameTable

def text (t : NameTable) (d : Nat) : List UInt8 :=
  match t.dentries[d]? with
  | some e => e.text
  | none => []

/-- The dentry an absolute name resolves to. -/
def find (t : NameTable) (name : List UInt8) : Except Errno Nat :=
  match t.names.find? (fun e => e.1 == name) with
  | some e => .ok e.2
  | none => .error .enoent

def kernPath (t : NameTable) (cwd : Nat) (name : List UInt8) : Except Errno Nat :=
  t.find (if name.head? = some slash then name else t.text cwd ++ slash :: name)

/-- The root stands first in the table. -/
def parentDir (t : NameTable) (cwd : Nat) (name : List UInt8) : Except Errno Nat :=
  if slash ∈ name then
    if dirText name = [] then .ok 0 else t.kernPath cwd (dirText name)
  else .ok cwd

def vfs (t : NameTable) : Vfs Nat where
  kernPath := t.kernPath
  parentDir := t.parentDir
  dPath := t.text
  dInode d := t.dentries[d]?.map (fun e => ⟨0, e.ino⟩)
  dParent d := t.dentries[d]?.map (·.parent)

/-- Every name leads to a dentry whose text is a legal absolute name of that dentry, and no
two dentries have one text. -/
def Ok (t : NameTable) : Prop :=
  (∀ e ∈ t.names, e.2 < t.dentries.length ∧ t.find (t.text e.2) = .ok e.2 ∧
    (t.text e.2).head? = some slash ∧ (t.text e.2).length < pathMax) ∧
  (t.dentries.map (·.text)).Nodup ∧ ∀ e ∈ t.dentries, (0 : UInt8) ∉ e.text

instance (t : NameTable) : Decidable t.Ok := inferInstanceAs (Decidable (_ ∧ _))

theorem find_mem {t : NameTable} {name : List UInt8} {d : Nat} (h : t.find name = .ok d) :
    ∃ e ∈ t.names, e.1 = name ∧ e.2 = d := by
  unfold find at h
  split at h
  · next e he =>
    exact ⟨e, List.mem_of_find?_eq_some he, by simpa using List.find?_some he, Except.ok.inj h⟩
  · exact absurd h (by simp)

/-- What `Ok` says about the target of a name. -/
theorem Ok.target {t : NameTable} (hok : t.Ok) {d : Nat} (hd : t.vfs.Resolves d) :
    d < t.dentries.length ∧ t.find (t.text d) = .ok d ∧ (t.text d).head? = some slash ∧
      (t.text d).length < pathMax := by
  obtain ⟨cwd, name, h⟩ := hd
  obtain ⟨e, he, _, rfl⟩ := find_mem h
  exact hok.1 e he

theorem dirText_append {t f : List UInt8} (hf : slash ∉ f) : dirText (t ++ slash :: f) = t := by
  have hrev : (t ++ slash :: f).reverse = f.reverse ++ slash :: t.reverse := by simp
  have hdrop : (f.reverse ++ slash :: t.reverse).dropWhile (· != slash) = slash :: t.reverse := by
    rw [List.dropWhile_append_of_pos]
    · simp
    · intro x hx
      have hne : x ≠ slash := fun h => hf (h ▸ List.mem_reverse.mp hx)
      simpa using hne
  rw [dirText, hrev, hdrop, List.tail_cons, List.reverse_reverse]

theorem text_inj {t : NameTable} (hok : t.Ok) {d d' : Nat} (hd : d < t.dentries.length)
    (hd' : d' < t.dentries.length) (h : t.text d = t.text d') : d = d' := by
  have hget : ∀ {k : Nat}, k < t.dentries.length →
      (t.dentries.map (·.text))[k]? = some (t.text k) := by
    intro k hk
    simp [text, List.getElem?_eq_getElem hk]
  refine (List.getElem?_inj (by simpa using hd) hok.2.1).mp ?_
  rw [hget hd, hget hd', h]

theorem singleMount {t : NameTable} (hok : t.Ok) : SingleMount t.vfs where
  positive hd := by
    obtain ⟨hlt, _⟩ := hok.target hd
    exact Option.isSome_iff_exists.mp (by simp [vfs, hlt])
  absolute hs := by
    simp only [vfs, kernPath, if_pos hs]
  relative {cwd name} hcwd _ hs _ := by
    obtain ⟨_, _, hhead, _⟩ := hok.target hcwd
    have habs : (t.text cwd ++ slash :: name).head? = some slash := by
      rw [List.head?_append, hhead]
      rfl
    simp only [vfs, kernPath, if_neg hs, if_pos habs]
  roundTrip hd := by
    obtain ⟨_, hfind, hhead, _⟩ := hok.target hd
    simp only [vfs, kernPath, if_pos hhead, hfind]
  path_slash hd := (hok.target hd).2.2.1
  text_nul {d} _ h := by
    obtain ⟨e, he, _⟩ := Option.map_eq_some_iff.mp h
    have htext : t.text d = e.text := by simp [text, he]
    change (0 : UInt8) ∉ t.text d
    rw [htext]
    exact hok.2.2 e (List.mem_of_getElem? he)
  path_lt hd := (hok.target hd).2.2.2
  path_inj h h' heq := by
    have hlt : ∀ {d : Nat} {i : Inode}, t.vfs.dInode d = some i → d < t.dentries.length := by
      intro d i hi
      obtain ⟨e, he, _⟩ := Option.map_eq_some_iff.mp hi
      exact (List.getElem?_eq_some_iff.mp he).1
    exact text_inj hok (hlt h) (hlt h') heq
  ino_inj h h' heq := by
    obtain ⟨e, _, rfl⟩ := Option.map_eq_some_iff.mp h
    obtain ⟨e', _, rfl⟩ := Option.map_eq_some_iff.mp h'
    have hino : e.ino = e'.ino := heq
    rw [hino]
  parent_slash ht _ hf h := by
    simp only [vfs, parentDir] at h
    rw [if_pos (by simp), dirText_append hf, if_neg ht] at h
    exact h
  parent_plain _ hf h := by
    simp only [vfs, parentDir, if_neg hf] at h
    exact (Except.ok.inj h).symm

end NameTable

/-! ## A loaded module

The surroundings used by the concrete runs: a small tree with a hard link, `root` is the
administrator, no allocation fails, and the digest function keeps the first 64 bytes of the
salted text. -/

/-- `/home/link` is a hard link of `/home/secret`, and `/tmp/alias` a symbolic link to it. -/
def sampleTree : NameTable where
  dentries :=
    [⟨ascii "/", 2, 0⟩, ⟨ascii "/home", 3, 0⟩, ⟨ascii "/home/secret", 4, 1⟩,
     ⟨ascii "/home/secrets", 5, 1⟩, ⟨ascii "/home/link", 4, 1⟩, ⟨ascii "/tmp", 6, 0⟩,
     ⟨ascii "/home/tool", 7, 1⟩]
  names :=
    [(ascii "/", 0), (ascii "/home", 1), (ascii "/home/secret", 2), (ascii "/home/secrets", 3),
     (ascii "/home/link", 4), (ascii "/tmp", 5), (ascii "/tmp/../home/secret", 2),
     (ascii "/tmp/alias", 2), (ascii "/home/tool", 6)]

theorem sampleTree_ok : sampleTree.Ok := by decide +kernel

theorem sampleTree_singleMount : SingleMount sampleTree.vfs :=
  NameTable.singleMount sampleTree_ok

theorem length_zeros (n : Nat) : (List.replicate n (0 : UInt8)).length = n :=
  List.length_replicate

def sampleEnv : Env where
  admin := 0
  salt := []
  singleFileName := ascii "/mnt/the-file"
  sha512 text := some (Vector.ofFn fun i => text.getD i.val 0)
  kmalloc n := List.replicate n 0
  kmalloc_length := length_zeros

def sampleTask (euid : UInt32) (cwd : Nat) : Task Nat where
  euid := euid
  cwd := cwd
  alloc _ := true
  err := 0

def samplePassword : List UInt8 := ascii "correct horse"

/-- The module's globals with the given state and list; ordinary files and directories. -/
def sampleState (state : Nat) (protects : Bool) (list : List RcuRestrict) : State where
  currentState := state
  probes _ := protects
  restrictPathList := list
  pwd := (hashPlaintext sampleEnv samplePassword).getD []
  inodes _ := { iMode := 0o644, iFlags := 0 }

end RefMonitor
