import RefMonitor.Histories

/-!
# Mediation of the directory functions

A call of `vfs_mkdir` is about the directory it makes an entry in; calls of `vfs_rmdir` and
`vfs_unlink` are about the victim and the directory it is taken from. When one of these is
listed the monitor is to refuse the call: the verdict is `-EACCES` and an inode the call
needs to change is immutable before the function runs.

`vfs_unlink` has a handler of its own, which looks at both objects. `vfs_rmdir` shares the
handler of `vfs_mkdir`, which looks at the parent only, so a listed directory can be removed
from a directory that is not listed.

Results:
1. `mkRmdir_cases`, `unlink_cases`: what the two handlers decide from.
2. `dir_refused_iff`: the calls that are refused.
-/

namespace RefMonitor
open CString

variable {δ : Type}

/-- The objects a call of a directory function is about. -/
def HookCall.Involves (v : Vfs δ) : HookCall δ → δ → Prop
  | .open_ _, _ => False
  | .mkdir dentry, o => v.dParent dentry = some o
  | .rmdir dentry, o => o = dentry ∨ v.dParent dentry = some o
  | .unlink dentry, o => o = dentry ∨ v.dParent dentry = some o

/-- What the VFS has checked before it calls the function: the parent directory exists, and so
does a victim. -/
def HookCall.Checked (v : Vfs δ) (call : HookCall δ) : Prop :=
  ∀ o, call.Involves v o → ∃ i, v.dInode o = some i

/-- The write bits are cleared and `S_IMMUTABLE` is set. -/
def Attr.ReadOnly (a : Attr) : Prop :=
  a.iMode &&& (sIWUSR ||| sIWGRP ||| sIWOTH) = 0 ∧ a.iFlags &&& sIMMUTABLE = sIMMUTABLE

theorem markInodeReadOnly_readOnly (a : Attr) : (markInodeReadOnly a).ReadOnly := by
  constructor
  · show ((a.iMode &&& ~~~sIWUSR) &&& ~~~sIWGRP) &&& ~~~sIWOTH &&& (sIWUSR ||| sIWGRP ||| sIWOTH) = 0
    have hmask : ~~~sIWUSR &&& ~~~sIWGRP &&& ~~~sIWOTH &&& (sIWUSR ||| sIWGRP ||| sIWOTH) = 0 := by
      decide
    rw [UInt16.and_assoc a.iMode, UInt16.and_assoc a.iMode, UInt16.and_assoc a.iMode, hmask,
      UInt16.and_zero]
  · show (a.iFlags ||| sIMMUTABLE) &&& sIMMUTABLE = sIMMUTABLE
    refine UInt32.toBitVec_inj.mp (BitVec.eq_of_getElem_eq fun k hk => ?_)
    rw [UInt32.toBitVec_and, UInt32.toBitVec_or, BitVec.getElem_and, BitVec.getElem_or]
    cases sIMMUTABLE.toBitVec[k] with
    | false => rw [Bool.and_false]
    | true => rw [Bool.or_true, Bool.and_true]

/-- The call is refused: the entry handler leaves `-EACCES`, which the caller gets whatever the
function returns, and a listed object the call is about is read-only by then. -/
def DirRefused (env : Env) (v : Vfs δ) (task : Task δ) (s : State) (call : HookCall δ) : Prop :=
  ∃ r, entryHandler env v task s call = .ok r ∧ r.hookError = fail .eacces ∧
    (∀ ax, probedCall env v task s call ax = .ok (toRegister (fail .eacces), r.state)) ∧
    ∃ o i, call.Involves v o ∧ v.dPath o ∈ s.paths ∧ v.dInode o = some i ∧
      (r.state.inodes i).ReadOnly

section

variable {env : Env} {v : Vfs δ} {task : Task δ} {s : State}

/-- The search for the text of a dentry that fits in the buffer of the handler. -/
theorem dentryListed_iff {o : δ} {i : Inode} (hm : SingleMount v)
    (hentries : ∀ e ∈ s.restrictPathList, e.Legal) (hi : v.dInode o = some i) :
    dentryListed v task true o s = true ↔ v.dPath o ∈ s.paths := by
  rw [dentryListed, beq_iff_eq, checkBlackList_eq_zero, mem_paths]
  constructor
  · rintro ⟨e, he, hpath | ⟨hopen, _⟩⟩
    · rcases cstr_fillPathByDentry hm hi true with htext | hempty
      · exact ⟨e, he, hpath.trans htext⟩
      · exact absurd (hpath.trans hempty) (hentries e he).ne_nil
    · exact absurd hopen (by decide)
  · rintro ⟨e, he, hpath⟩
    have hlt : (v.dPath o).length < pathMax := by
      rw [← hpath]
      exact (hentries e he).path_lt
    exact ⟨e, he, .inl (hpath.trans (cstr_fillPathByDentry_fits (hm.text_nul hi) hlt).symm)⟩

/-- A denial by a handler whose probe is enabled is a refusal. -/
theorem dirRefused_of_deny {call : HookCall δ} {o : δ} {i : Inode}
    (hprobe : s.probes call.hook.index = true) (hinvolves : call.Involves v o)
    (hlisted : v.dPath o ∈ s.paths) (hi : v.dInode o = some i)
    (hentry : entryHandler env v task s call = denyDentry v o s) :
    DirRefused env v task s call := by
  have hdeny : denyDentry v o s = .ok (.deny (s.setAttr i (markInodeReadOnly (s.inodes i)))) := by
    rw [denyDentry, hi]
  rw [hdeny] at hentry
  refine ⟨_, hentry, rfl, ?_, o, i, hinvolves, hlisted, hi, ?_⟩
  · intro ax
    simp only [probedCall, hprobe, if_true, hentry]
    cases call with
    | open_ req => exact hinvolves.elim
    | mkdir d => rfl
    | rmdir d => rfl
    | unlink d => rfl
  · show ((s.setAttr i (markInodeReadOnly (s.inodes i))).inodes i).ReadOnly
    rw [State.setAttr_inodes, if_pos rfl]
    exact markInodeReadOnly_readOnly _

theorem not_dirRefused_of_pass {call : HookCall δ}
    (hentry : entryHandler env v task s call = .ok (.pass s)) : ¬ DirRefused env v task s call := by
  rintro ⟨r, hr, herror, _⟩
  rw [hentry] at hr
  obtain rfl := Except.ok.inj hr
  exact fail_ne_zero .eacces herror.symm

/-! ## What the handlers decide from -/

section

variable (hm : SingleMount v) (hentries : ∀ e ∈ s.restrictPathList, e.Legal)
  (halloc : ∀ k, task.alloc k = true)
include hm hentries halloc

/-- The handler of `vfs_mkdir` and `vfs_rmdir` denies when the parent is listed. -/
theorem mkRmdir_cases {dentry : δ}
    (hinodes : ∀ p, v.dParent dentry = some p → ∃ i, v.dInode p = some i) :
    (∃ p, v.dParent dentry = some p ∧ v.dPath p ∈ s.paths ∧
      preVfsMkRmdirHandler v task dentry s = denyDentry v p s) ∨
    ((∀ p, v.dParent dentry = some p → v.dPath p ∉ s.paths) ∧
      preVfsMkRmdirHandler v task dentry s = .ok (.pass s)) := by
  unfold preVfsMkRmdirHandler
  rw [halloc 0, halloc 1, if_neg (by decide)]
  cases hp : v.dParent dentry with
  | none => exact .inr ⟨fun p h => absurd h (by simp), rfl⟩
  | some p =>
    obtain ⟨i, hi⟩ := hinodes p hp
    have hiff := @dentryListed_iff δ v task s p i hm hentries hi
    dsimp only
    split
    · next hl => exact .inl ⟨p, rfl, hiff.mp hl, rfl⟩
    · next hl =>
      refine .inr ⟨fun p' h => ?_, rfl⟩
      obtain rfl := Option.some.inj h
      exact fun hmem => hl (hiff.mpr hmem)

/-- The handler of `vfs_unlink` denies when the victim or its parent is listed. -/
theorem unlink_cases {dentry : δ}
    (hinodes : ∀ o, o = dentry ∨ v.dParent dentry = some o → ∃ i, v.dInode o = some i) :
    (∃ o, (o = dentry ∨ v.dParent dentry = some o) ∧ v.dPath o ∈ s.paths ∧
      preVfsUnlinkHandler v task dentry s = denyDentry v o s) ∨
    ((∀ o, o = dentry ∨ v.dParent dentry = some o → v.dPath o ∉ s.paths) ∧
      preVfsUnlinkHandler v task dentry s = .ok (.pass s)) := by
  have hiff : ∀ o, o = dentry ∨ v.dParent dentry = some o →
      (dentryListed v task true o s = true ↔ v.dPath o ∈ s.paths) := by
    intro o ho
    obtain ⟨i, hi⟩ := hinodes o ho
    exact dentryListed_iff hm hentries hi
  unfold preVfsUnlinkHandler
  rw [halloc 0, halloc 1, halloc 2, if_neg (by decide)]
  split
  · next hl => exact .inl ⟨dentry, .inl rfl, (hiff dentry (.inl rfl)).mp hl, rfl⟩
  · next hl =>
    have hvictim : v.dPath dentry ∉ s.paths := fun h => hl ((hiff dentry (.inl rfl)).mpr h)
    cases hp : v.dParent dentry with
    | none =>
      refine .inr ⟨?_, rfl⟩
      rintro o (rfl | h)
      · exact hvictim
      · exact absurd h (by simp)
    | some p =>
      dsimp only
      split
      · next hpl => exact .inl ⟨p, .inr rfl, (hiff p (.inr hp)).mp hpl, rfl⟩
      · next hpl =>
        refine .inr ⟨?_, rfl⟩
        rintro o (rfl | h)
        · exact hvictim
        · obtain rfl := Option.some.inj h
          exact fun hmem => hpl ((hiff p (.inr hp)).mpr hmem)

end

/-! ## The calls that are refused -/

/-- Directory mediation: in a state that protects, on a single mounted file system and with
allocations succeeding, a call about a listed object is refused exactly when it is not the
removal of a directory from a parent that is not listed. -/
theorem dir_refused_iff {call : HookCall δ} (hreach : History δ env s) (hon : Protecting s)
    (hm : SingleMount v) (halloc : ∀ k, task.alloc k = true) (hchecked : call.Checked v)
    (hlisted : ∃ o, call.Involves v o ∧ v.dPath o ∈ s.paths) :
    DirRefused env v task s call ↔
      ∀ dentry, call = .rmdir dentry → ∃ p, v.dParent dentry = some p ∧ v.dPath p ∈ s.paths := by
  have hprobe := hreach.probes_eq.enabled hon call.hook.index
  have hentries := hreach.entries
  cases call with
  | open_ req =>
    obtain ⟨o, ho, _⟩ := hlisted
    exact ho.elim
  | mkdir dentry =>
    refine ⟨fun _ d h => absurd h (by simp), fun _ => ?_⟩
    rcases mkRmdir_cases hm hentries halloc hchecked with ⟨p, hp, hpl, hentry⟩ | ⟨hno, _⟩
    · obtain ⟨i, hi⟩ := hchecked p hp
      exact dirRefused_of_deny hprobe hp hpl hi hentry
    · obtain ⟨o, ho, hol⟩ := hlisted
      exact absurd hol (hno o ho)
  | rmdir dentry =>
    have hparent : ∀ p, v.dParent dentry = some p → ∃ i, v.dInode p = some i :=
      fun p hp => hchecked p (.inr hp)
    rcases mkRmdir_cases hm hentries halloc hparent with ⟨p, hp, hpl, hentry⟩ | ⟨hno, hentry⟩
    · obtain ⟨i, hi⟩ := hparent p hp
      refine ⟨fun _ d h => ?_, fun _ => dirRefused_of_deny hprobe (.inr hp) hpl hi hentry⟩
      obtain rfl := HookCall.rmdir.inj h
      exact ⟨p, hp, hpl⟩
    · refine ⟨fun h => absurd h (not_dirRefused_of_pass hentry), fun h => ?_⟩
      obtain ⟨p, hp, hpl⟩ := h dentry rfl
      exact absurd hpl (hno p hp)
  | unlink dentry =>
    refine ⟨fun _ d h => absurd h (by simp), fun _ => ?_⟩
    rcases unlink_cases hm hentries halloc hchecked with ⟨o, ho, hol, hentry⟩ | ⟨hno, _⟩
    · obtain ⟨i, hi⟩ := hchecked o ho
      exact dirRefused_of_deny hprobe ho hol hi hentry
    · obtain ⟨o, ho, hol⟩ := hlisted
      exact absurd hol (hno o ho)

end

/-! ## Calls on the sample tree -/

/-- `/home` is listed and `/` is not: the removal of `/home` goes through. -/
theorem listed_dir_removed :
    History Nat sampleEnv (sampleState stateRecOn true [homeEntry]) ∧
    Protecting (sampleState stateRecOn true [homeEntry]) ∧ SingleMount sampleTree.vfs ∧
    (∀ k, (sampleTask 1000 0).alloc k = true) ∧
    (HookCall.rmdir 1).Checked sampleTree.vfs ∧ (HookCall.rmdir 1).Involves sampleTree.vfs 1 ∧
    sampleTree.vfs.dPath 1 ∈ (sampleState stateRecOn true [homeEntry]).paths ∧
    entryHandler sampleEnv sampleTree.vfs (sampleTask 1000 0)
      (sampleState stateRecOn true [homeEntry]) (.rmdir 1) =
      .ok (.pass (sampleState stateRecOn true [homeEntry])) ∧
    ¬ DirRefused sampleEnv sampleTree.vfs (sampleTask 1000 0)
      (sampleState stateRecOn true [homeEntry]) (.rmdir 1) := by
  have hchecked : (HookCall.rmdir 1).Checked sampleTree.vfs := by
    rintro o (rfl | hp)
    · exact ⟨⟨0, 3⟩, rfl⟩
    · obtain rfl := Option.some.inj hp
      exact ⟨⟨0, 2⟩, rfl⟩
  have hentry : entryHandler sampleEnv sampleTree.vfs (sampleTask 1000 0)
      (sampleState stateRecOn true [homeEntry]) (.rmdir 1) =
      .ok (.pass (sampleState stateRecOn true [homeEntry])) := by
    rcases @mkRmdir_cases Nat sampleTree.vfs (sampleTask 1000 0)
      (sampleState stateRecOn true [homeEntry]) sampleTree_singleMount sampleHistory_home.entries
      (fun _ => rfl) 1 (fun p hp => hchecked p (.inr hp)) with ⟨p, hp, hpl, _⟩ | ⟨_, hpass⟩
    · obtain rfl := Option.some.inj hp
      exact absurd (List.mem_singleton.mp hpl) (by decide)
    · exact hpass
  exact ⟨sampleHistory_home, .inr rfl, sampleTree_singleMount, fun _ => rfl, hchecked, .inl rfl,
    List.mem_singleton.mpr rfl, hentry, not_dirRefused_of_pass hentry⟩

theorem unlink_secret_checked : (HookCall.unlink 2).Checked sampleTree.vfs := by
  rintro o (rfl | hp)
  · exact ⟨⟨0, 4⟩, rfl⟩
  · obtain rfl := Option.some.inj hp
    exact ⟨⟨0, 3⟩, rfl⟩

/-- `unlink("/home/secret")` with that path listed. -/
theorem dir_refused_iff_unlink :
    DirRefused sampleEnv sampleTree.vfs (sampleTask 1000 0)
      (sampleState stateRecOn true [secretEntry]) (.unlink 2) ↔
    ∀ dentry, HookCall.unlink 2 = .rmdir dentry → ∃ p, sampleTree.vfs.dParent dentry = some p ∧
      sampleTree.vfs.dPath p ∈ (sampleState stateRecOn true [secretEntry]).paths :=
  dir_refused_iff sampleHistory_secret (.inr rfl) sampleTree_singleMount (fun _ => rfl)
    unlink_secret_checked ⟨2, .inl rfl, List.mem_singleton.mpr rfl⟩

end RefMonitor
