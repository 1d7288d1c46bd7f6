import Mathlib
import RefMonitor.Lib.CString

/-!
# The data the module works on, and the kernel it runs in

`reference_types.h` and `reference_rcu_restrict_list.h` (constants, list entries,
the module's globals) and the kernel services the module calls.

The kernel's own code is not part of the repository. What the module uses of it is

* `Vfs`: path resolution (`kern_path` with `LOOKUP_FOLLOW`), the text of a dentry
  (`dentry_path_raw`), `d_inode` and `d_parent`. It is a parameter of the model; the
  laws of a single mounted file system are `SingleMount`. A state of the namespace is
  one `Vfs`, so users who rename or delete files change the `Vfs` between two calls.
* `Env`: what is fixed while the module is loaded, with the SHA-512 of the crypto API.
* `Task`: the calling thread, with the outcome of each allocation made on its behalf.

An access the kernel would die on (an error pointer or a null pointer that is
dereferenced, a write past an array) is a `Fault`.
-/

namespace RefMonitor
open CString

/-! ## Constants -/

/-- `ON`, `OFF`, `REC_ON`, `REC_OFF`, `ADD_PATH`, `REMOVE_PATH` as the source numbers them. -/
def stateOn : Nat := 0x01
def stateOff : Nat := 0x02
def stateRecOn : Nat := 0x04
def stateRecOff : Nat := 0x08
def addPathOp : Nat := 0x10
def removePathOp : Nat := 0x20

def hooksSize : Nat := 4
def pathMax : Nat := 4096
def nameMax : Nat := 255
/-- `MAX_PATH_LEN >> 4` with `MAX_PATH_LEN` the page size. -/
def maxFromUser : Nat := 256
def sha512Length : Nat := 64
def saltLength : Nat := 16
def maxFileName : Nat := 256
def digestSize : Nat := sha512Length * 2 + 1

def slash : UInt8 := 47

/-- The error numbers the module returns or passes on. -/
inductive Errno
  | eperm | enoent | eio | ebadf | enomem | eacces | efault | eexist | enotdir | einval
  | efbig | enametoolong | eloop | ebadmsg | ecanceled
deriving DecidableEq, Repr

def Errno.code : Errno → Nat
  | .eperm => 1
  | .enoent => 2
  | .eio => 5
  | .ebadf => 9
  | .enomem => 12
  | .eacces => 13
  | .efault => 14
  | .eexist => 17
  | .enotdir => 20
  | .einval => 22
  | .efbig => 27
  | .enametoolong => 36
  | .eloop => 40
  | .ebadmsg => 74
  | .ecanceled => 125

/-- The return value `-E…`. -/
def fail (e : Errno) : Int := -(e.code : Int)

theorem fail_neg (e : Errno) : fail e < 0 := by
  cases e <;> decide

theorem fail_ne_zero (e : Errno) : fail e ≠ 0 := Int.ne_of_lt (fail_neg e)

/-- What the kernel stops the thread for. -/
inductive Fault
  | errPtr
  | nullPtr
  | arrayBound
deriving DecidableEq, Repr

/-! ## Inodes and the module's state -/

/-- The identity of an inode: its file system and its number there. -/
structure Inode where
  iSb : Nat
  iIno : Nat
deriving DecidableEq, Repr

/-- The two attribute words of an inode the module writes. -/
structure Attr where
  iMode : UInt16
  iFlags : UInt32
deriving DecidableEq, Repr

/-- `struct rcu_restrict`. The path is a C string of its own. -/
structure RcuRestrict where
  path : List UInt8
  path_nul : (0 : UInt8) ∉ path
  iIno : Nat
  oMode : UInt32
  oFlags : UInt32
deriving DecidableEq, Repr

/-- The globals of the module that change while it is loaded, and the attributes of all
inodes. -/
structure State where
  currentState : Nat
  probes : Fin hooksSize → Bool
  restrictPathList : List RcuRestrict
  /-- The stored digest, a buffer of `digestSize` bytes. -/
  pwd : List UInt8
  inodes : Inode → Attr

/-- Set the attributes of one inode. -/
def State.setAttr (s : State) (i : Inode) (a : Attr) : State :=
  { s with inodes := fun j => if j = i then a else s.inodes j }

@[simp] theorem State.setAttr_currentState (s : State) (i : Inode) (a : Attr) :
    (s.setAttr i a).currentState = s.currentState := rfl
@[simp] theorem State.setAttr_probes (s : State) (i : Inode) (a : Attr) :
    (s.setAttr i a).probes = s.probes := rfl
@[simp] theorem State.setAttr_restrictPathList (s : State) (i : Inode) (a : Attr) :
    (s.setAttr i a).restrictPathList = s.restrictPathList := rfl
@[simp] theorem State.setAttr_pwd (s : State) (i : Inode) (a : Attr) :
    (s.setAttr i a).pwd = s.pwd := rfl
theorem State.setAttr_inodes (s : State) (i j : Inode) (a : Attr) :
    (s.setAttr i a).inodes j = if j = i then a else s.inodes j := rfl

/-! ## The kernel's services -/

/-- The namespace as the module sees it. -/
structure Vfs (δ : Type) where
  /-- `kern_path(name, LOOKUP_FOLLOW, &path)` for a thread with the given cwd. -/
  kernPath : δ → List UInt8 → Except Errno δ
  /-- The directory that `LOOKUP_PARENT` gives for a name: a last component that is a dangling
  link is not followed, so the file may be made elsewhere. -/
  parentDir : δ → List UInt8 → Except Errno δ
  /-- The text `dentry_path_raw` prints. -/
  dPath : δ → List UInt8
  dInode : δ → Option Inode
  dParent : δ → Option δ

/-- `dentry_path_raw(dentry, buf, buflen)`: the text goes to the end of the buffer and its
position is returned; an error pointer when the buffer is too short. -/
def Vfs.dentryPathRaw {δ : Type} (v : Vfs δ) (dentry : δ) (buf : List UInt8) :
    Option (List UInt8 × Nat) :=
  let text := v.dPath dentry
  if text.length < buf.length then
    let at_ := buf.length - (text.length + 1)
    some (writeAt buf at_ (text ++ [0]), at_)
  else none

/-- The dentry is the target of some name. -/
def Vfs.Resolves {δ : Type} (v : Vfs δ) (d : δ) : Prop :=
  ∃ cwd name, v.kernPath cwd name = .ok d

/-- Path resolution on a single mounted file system: what the kernel promises about names,
texts and inode numbers when every dentry lies on it and no path is `PATH_MAX` bytes long. -/
structure SingleMount {δ : Type} (v : Vfs δ) : Prop where
  /-- A name resolves to a dentry with an inode. -/
  positive : ∀ {d : δ}, v.Resolves d → ∃ i, v.dInode d = some i
  /-- An absolute name does not depend on the cwd. -/
  absolute : ∀ {cwd cwd' : δ} {name : List UInt8}, name.head? = some slash →
    v.kernPath cwd name = v.kernPath cwd' name
  /-- A relative name starts at the cwd, as long as the joined text is a legal name. -/
  relative : ∀ {cwd : δ} {name : List UInt8}, v.Resolves cwd → name ≠ [] →
    name.head? ≠ some slash → (v.dPath cwd).length + 1 + name.length < pathMax →
    v.kernPath cwd name = v.kernPath cwd (v.dPath cwd ++ slash :: name)
  /-- The printed text names the dentry it was printed from. -/
  roundTrip : ∀ {cwd d : δ}, v.Resolves d → v.kernPath cwd (v.dPath d) = .ok d
  path_slash : ∀ {d : δ}, v.Resolves d → (v.dPath d).head? = some slash
  text_nul : ∀ {d : δ} {i : Inode}, v.dInode d = some i → (0 : UInt8) ∉ v.dPath d
  /-- No dentry lies so deep that its text is longer than a legal name. -/
  path_lt : ∀ {d : δ}, v.Resolves d → (v.dPath d).length < pathMax
  /-- Two dentries of the tree with one text are one dentry. -/
  path_inj : ∀ {d d' : δ} {i i' : Inode}, v.dInode d = some i → v.dInode d' = some i' →
    v.dPath d = v.dPath d' → d = d'
  /-- One file system: the inode number identifies the inode. -/
  ino_inj : ∀ {d d' : δ} {i i' : Inode}, v.dInode d = some i → v.dInode d' = some i' →
    i.iIno = i'.iIno → i = i'
  /-- `LOOKUP_PARENT` gives the directory `t` for `t/f`, and the cwd for `f`. -/
  parent_slash : ∀ {cwd d : δ} {t f : List UInt8}, t ≠ [] → f ≠ [] → slash ∉ f →
    v.parentDir cwd (t ++ slash :: f) = .ok d → v.kernPath cwd t = .ok d
  parent_plain : ∀ {cwd d : δ} {f : List UInt8}, f ≠ [] → slash ∉ f →
    v.parentDir cwd f = .ok d → d = cwd

theorem SingleMount.path_nul {δ : Type} {v : Vfs δ} (hm : SingleMount v) {d : δ}
    (hd : v.Resolves d) : (0 : UInt8) ∉ v.dPath d := by
  obtain ⟨i, hi⟩ := hm.positive hd
  exact hm.text_nul hi

/-- What is fixed while the module is loaded. -/
structure Env where
  admin : UInt32
  salt : List UInt8
  singleFileName : List UInt8
  /-- SHA-512 by the crypto API, `none` when it reports an error. -/
  sha512 : List UInt8 → Option (Vector UInt8 64)
  /-- The bytes found in a fresh `kmalloc(n)` buffer. -/
  kmalloc : Nat → List UInt8
  kmalloc_length : ∀ n, (kmalloc n).length = n

/-- The calling thread. -/
structure Task (δ : Type) where
  euid : UInt32
  cwd : δ
  /-- Whether the `k`-th allocation of the call succeeds. -/
  alloc : Nat → Bool
  /-- What the local `err` of `add_path` and `del_path` reads as: neither assigns it. -/
  err : Int

end RefMonitor
