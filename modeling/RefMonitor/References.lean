import RefMonitor.Counted

/-!
# References to paths

What the operations of the monitor do to the reference counters. Three of them have returns that
do not give back what was taken: `fill_absolute_path` when a buffer cannot be had,
`restore_black_list_entries` for each entry whose path resolves, `check_black_list` when no entry
matches. A successful `add_path` gives back the reference of its caller, who does so again.

Results:
1. `fillAbsolutePath_refs`, `restoreBlackListEntries_refs`, `checkBlackList_refs`, `addPath_refs`,
   `delPath_refs`, `markInodeReadOnlyByPathname_refs`: what each function does to the counters.
2. `Operation.neutral_iff`: an operation leaves every counter as it was exactly when it takes none
   of these returns.
3. `references_neutral_iff`: every operation of every run.
-/

namespace RefMonitor
open CString Run RefCount

variable {δ : Type} [DecidableEq δ]

namespace Counted

/-! ## What happens to the counters -/

section Refs
variable {env : Env} {v : Vfs δ} {task : Task δ}

/-- The name that `fill_absolute_path` looks up: the given one, or the one that
`resolve_relative_path` makes of it. -/
def LooksUp (env : Env) (v : Vfs δ) (task : Task δ) (alloc : Nat → Bool)
    (pathname name : List UInt8) : Prop :=
  (pathname.headD 0 = slash ∧ name = pathname) ∨
  (pathname.headD 0 ≠ slash ∧
    RefMonitor.resolveRelativePath env v task (alloc 0) pathname = .ok (0, name))

/-- A buffer that `fill_absolute_path` needs cannot be had: the one for the relative path, or the
one for the text of what the name resolves to. -/
def FillKeeps (env : Env) (v : Vfs δ) (task : Task δ) (alloc : Nat → Bool)
    (pathname : List UInt8) : Prop :=
  (pathname.headD 0 ≠ slash ∧ alloc 0 = false) ∨
  ∃ name dentry, LooksUp env v task alloc pathname name ∧
    v.kernPath task.cwd (cstr name) = .ok dentry ∧ alloc 1 = false

/-- How the first part of `fill_absolute_path` can end. -/
theorem resolved_cases (alloc : Nat → Bool) (pathname : List UInt8) (refs : Refs δ)
    {resolved : Except Fault ((Int × List UInt8) × Refs δ)}
    (h : (if pathname.headD 0 ≠ slash then
        resolveRelativePath env v task (alloc 0) pathname refs
      else .ok ((0, pathname), refs)) = resolved) :
    (pathname.headD 0 ≠ slash ∧ alloc 0 = false ∧
      resolved = .ok ((fail .enomem, pathname), refs.get task.cwd)) ∨
    (¬ (pathname.headD 0 ≠ slash ∧ alloc 0 = false) ∧
      ((∃ f, resolved = .error f ∧ ∀ name, ¬ LooksUp env v task alloc pathname name) ∨
        ∃ name, resolved = .ok ((0, name), refs) ∧
          ∀ name', LooksUp env v task alloc pathname name' ↔ name' = name)) := by
  subst h
  by_cases hrel : pathname.headD 0 ≠ slash
  · rw [if_pos hrel]
    unfold resolveRelativePath LooksUp RefMonitor.resolveRelativePath
    cases hbuf : alloc 0 with
    | false => exact .inl ⟨hrel, rfl, rfl⟩
    | true =>
      refine .inr ⟨fun h => absurd h.2 (by decide), ?_⟩
      cases v.dentryPathRaw task.cwd (env.kmalloc pathMax) with
      | none =>
        refine .inl ⟨.errPtr, rfl, fun name h => ?_⟩
        rcases h with ⟨habs, -⟩ | ⟨-, h⟩
        · exact hrel habs
        · cases h
      | some found =>
        dsimp only
        rw [Refs.put_get]
        refine .inr ⟨_, rfl, fun name' => ⟨fun h => ?_, fun h => .inr ⟨hrel, by rw [h]; rfl⟩⟩⟩
        rcases h with ⟨habs, -⟩ | ⟨-, h⟩
        · exact absurd habs hrel
        · exact (Prod.mk.inj (Except.ok.inj h)).2.symm
  · rw [if_neg hrel]
    have habs : pathname.headD 0 = slash := not_not.mp hrel
    refine .inr ⟨fun h => hrel h.1, .inr ⟨pathname, rfl, fun name' => ⟨fun h => ?_, fun h => ?_⟩⟩⟩
    · rcases h with ⟨-, h⟩ | ⟨h, -⟩
      · exact h
      · exact absurd h hrel
    · exact .inl ⟨habs, h⟩

/-- `fill_absolute_path` keeps one reference when a buffer cannot be had, and is neutral
otherwise. -/
theorem fillAbsolutePath_refs (alloc : Nat → Bool) (pathname : List UInt8) (refs : Refs δ) :
    (FillKeeps env v task alloc pathname ∧ ∃ ret name d, ret ≠ 0 ∧
      fillAbsolutePath env v task alloc pathname refs = .ok ((ret, name), refs.get d)) ∨
    (¬ FillKeeps env v task alloc pathname ∧ ∀ out refs',
      fillAbsolutePath env v task alloc pathname refs = .ok (out, refs') → refs' = refs) := by
  unfold fillAbsolutePath
  dsimp only
  generalize hres : (if pathname.headD 0 ≠ slash then
      resolveRelativePath env v task (alloc 0) pathname refs
    else .ok ((0, pathname), refs)) = resolved
  rcases resolved_cases alloc pathname refs hres with ⟨hrel, hbuf, rfl⟩ |
    ⟨hfits, ⟨f, rfl, hnone⟩ | ⟨name, rfl, hname⟩⟩
  · exact .inl ⟨.inl ⟨hrel, hbuf⟩, fail .enomem, pathname, task.cwd, fail_ne_zero _, rfl⟩
  · refine .inr ⟨fun h => ?_, fun out refs' h => by cases h⟩
    rcases h with h | ⟨name, d, hlook, -⟩
    · exact hfits h
    · exact hnone name hlook
  · dsimp only
    rw [if_neg (not_not.mpr rfl)]
    cases hk : v.kernPath task.cwd (cstr name) with
    | error e =>
      refine .inr ⟨fun h => ?_, fun out refs' h => (Prod.mk.inj (Except.ok.inj h)).2.symm⟩
      rcases h with h | ⟨name', d, hlook, hd, -⟩
      · exact hfits h
      · rw [(hname name').mp hlook, hk] at hd
        cases hd
    | ok d =>
      dsimp only
      cases hbuf : alloc 1 with
      | false =>
        exact .inl ⟨.inr ⟨name, d, (hname name).mpr rfl, hk, hbuf⟩, fail .enomem, name, d,
          fail_ne_zero _, rfl⟩
      | true =>
        refine .inr ⟨fun h => ?_, fun out refs' h => ?_⟩
        · rcases h with h | ⟨name', d', -, -, hbuf'⟩
          · exact hfits h
          · rw [hbuf] at hbuf'
            cases hbuf'
        · cases hraw : v.dentryPathRaw d (List.replicate pathMax 0) with
          | none =>
            rw [hraw] at h
            cases h
          | some found =>
            rw [hraw] at h
            dsimp only at h
            rw [Refs.put_get] at h
            exact (Prod.mk.inj (Except.ok.inj h)).2.symm

theorem markInodeReadOnlyByPathname_refs (pathname : List UInt8) (w : State × Refs δ) :
    (markInodeReadOnlyByPathname v task pathname w).2.2 = w.2 ↔
      ¬ ∃ dentry, v.kernPath task.cwd (cstr pathname) = .ok dentry ∧ v.dInode dentry = none := by
  unfold markInodeReadOnlyByPathname
  cases hk : v.kernPath task.cwd (cstr pathname) with
  | error e => exact ⟨fun _ ⟨d, hd, _⟩ => (by cases hd), fun _ => rfl⟩
  | ok d =>
    dsimp only
    cases hi : v.dInode d with
    | none => exact ⟨fun h => absurd h (Refs.get_ne w.2 d), fun h => absurd ⟨d, rfl, hi⟩ h⟩
    | some i =>
      refine ⟨fun _ ⟨d', hd, hi'⟩ => ?_, fun _ => Refs.put_get w.2 d⟩
      rw [← Except.ok.inj hd, hi] at hi'
      cases hi'

/-- What the paths of the entries resolve to. -/
def resolving (v : Vfs δ) (task : Task δ) (list : List RcuRestrict) : List δ :=
  list.filterMap fun entry => (v.kernPath task.cwd entry.path).toOption

theorem restoreEntries_refs (list : List RcuRestrict) :
    ∀ w : State × Refs δ,
      (list.foldl (restoreEntry v task) w).2 = w.2.getAll (resolving v task list) := by
  induction list with
  | nil => exact fun _ => rfl
  | cons entry list ih =>
    intro w
    rw [List.foldl_cons, ih, restoreEntry]
    cases hk : v.kernPath task.cwd entry.path with
    | error e =>
      have hcons : resolving v task (entry :: list) = resolving v task list :=
        List.filterMap_cons_none (by rw [hk]; rfl)
      rw [hcons]
    | ok d =>
      have hcons : resolving v task (entry :: list) = d :: resolving v task list :=
        List.filterMap_cons_some (by rw [hk]; rfl)
      rw [hcons]
      dsimp only
      cases v.dInode d with
      | none => rfl
      | some i => rfl

/-- `restore_black_list_entries` keeps one reference for every entry whose path resolves. -/
theorem restoreBlackListEntries_refs (w : State × Refs δ) :
    (restoreBlackListEntries v task w).2 =
      w.2.getAll (resolving v task w.1.restrictPathList) :=
  restoreEntries_refs w.1.restrictPathList w

omit [DecidableEq δ] in
theorem resolving_eq_nil {list : List RcuRestrict} :
    resolving v task list = [] ↔
      ¬ ∃ entry ∈ list, ∃ dentry, v.kernPath task.cwd entry.path = .ok dentry := by
  rw [resolving, List.filterMap_eq_nil_iff]
  constructor
  · rintro h ⟨entry, hmem, d, hd⟩
    have hnone := h entry hmem
    rw [hd] at hnone
    cases hnone
  · intro h entry hmem
    cases hk : v.kernPath task.cwd entry.path with
    | error e => rfl
    | ok d => exact absurd ⟨entry, hmem, d, hk⟩ h

/-- What `add_path` needs to insert a new entry. -/
def Adds (v : Vfs δ) (task : Task δ) (alloc : Nat → Bool) (thePath : List UInt8) (dentry : δ)
    (s : State) : Prop :=
  isPathIn s thePath ≠ 0 ∧ task.err = 0 ∧ alloc 0 = true ∧ alloc 1 = true ∧
    v.dInode dentry ≠ none

/-- `add_path` gives back a reference of its caller when it inserts an entry. -/
theorem addPath_refs (alloc : Nat → Bool) (thePath : List UInt8) (dentry : δ)
    (w : State × Refs δ) :
    (Adds v task alloc thePath dentry w.1 ∧
      (addPath v task alloc thePath dentry w).2.2 = w.2.put dentry) ∨
    (¬ Adds v task alloc thePath dentry w.1 ∧
      (addPath v task alloc thePath dentry w).2.2 = w.2) := by
  unfold addPath Adds
  by_cases hin : isPathIn w.1 thePath = 0
  · rw [if_pos hin]
    exact .inr ⟨fun h => h.1 hin, rfl⟩
  · rw [if_neg hin]
    by_cases herr : task.err ≠ 0
    · rw [if_pos herr]
      exact .inr ⟨fun h => herr h.2.1, rfl⟩
    · rw [if_neg herr]
      cases halloc : alloc 0 with
      | false => exact .inr ⟨fun h => absurd h.2.2.1 (by decide), rfl⟩
      | true =>
        cases halloc' : alloc 1 with
        | false => exact .inr ⟨fun h => absurd h.2.2.2.1 (by decide), rfl⟩
        | true =>
          cases hi : v.dInode dentry with
          | none => exact .inr ⟨fun h => h.2.2.2.2 rfl, rfl⟩
          | some i =>
            exact .inl ⟨⟨hin, not_not.mp herr, rfl, rfl, fun h => by cases h⟩, rfl⟩

theorem delPath_refs (thePath : List UInt8) (w : State × Refs δ) :
    (delPath v task thePath w).2.2 = w.2 := by
  unfold delPath
  split
  · rfl
  · split
    · rfl
    · next entry _ =>
      dsimp only
      cases v.kernPath task.cwd entry.path with
      | error e => rfl
      | ok d =>
        dsimp only
        cases v.dInode d with
        | none => exact Refs.put_get w.2 d
        | some i => exact Refs.put_get w.2 d

/-- The path resolves, and no entry has it or, on `open`, its inode number. -/
def CheckKeeps (v : Vfs δ) (task : Task δ) (path : List UInt8) (isOpen : Bool) (s : State) : Prop :=
  ∃ dentry, v.kernPath task.cwd (cstr path) = .ok dentry ∧ ∀ entry ∈ s.restrictPathList,
    entry.path ≠ cstr path ∧
    (isOpen = true → ∀ i, v.dInode dentry = some i → entry.iIno ≠ i.iIno)

omit [DecidableEq δ] in
theorem matchesEntry_ok {path : List UInt8} {isOpen : Bool} {dentry : δ} {entry : RcuRestrict} :
    matchesEntry v path isOpen (.ok dentry) entry = false ↔ entry.path ≠ cstr path ∧
      (isOpen = true → ∀ i, v.dInode dentry = some i → entry.iIno ≠ i.iIno) := by
  have hinode : (Except.ok dentry : Except Errno δ).toOption.bind v.dInode = v.dInode dentry := rfl
  rw [matchesEntry, hinode, Bool.or_eq_false_iff, beq_eq_false_iff_ne, ne_eq, strcmp_eq_zero,
    entry.cstr_path]
  refine and_congr ⟨fun h h0 => h h0.symm, fun h h0 => h h0.symm⟩ ?_
  cases isOpen with
  | false => exact ⟨fun _ h => absurd h (by decide), fun _ => rfl⟩
  | true =>
    rw [Bool.true_and]
    cases v.dInode dentry with
    | none => exact ⟨fun _ _ i h => (by cases h), fun _ => rfl⟩
    | some i =>
      rw [Option.any_some, beq_eq_false_iff_ne]
      refine ⟨fun h _ j hj => ?_, fun h => h rfl i rfl⟩
      rw [← Option.some.inj hj]
      exact h

/-- `check_black_list` keeps the reference to what the path resolves to when no entry matches. -/
theorem checkBlackList_refs (path : List UInt8) (isOpen : Bool) (w : State × Refs δ) :
    (checkBlackList v task path isOpen w).2 = w.2 ↔ ¬ CheckKeeps v task path isOpen w.1 := by
  unfold checkBlackList CheckKeeps
  cases hk : v.kernPath task.cwd (cstr path) with
  | error e =>
    dsimp only
    rw [checkEntries_eq]
    refine ⟨fun _ ⟨d, hd, _⟩ => (by cases hd), fun _ => ?_⟩
    split
    · rfl
    · rfl
  | ok d =>
    dsimp only
    rw [checkEntries_eq]
    split
    · next hany =>
      refine ⟨fun _ ⟨d', hd, hno⟩ => ?_, fun _ => Refs.put_get w.2 d⟩
      obtain ⟨entry, hmem, hmatch⟩ := List.any_eq_true.mp hany
      rw [Except.ok.inj hd] at hmatch
      rw [matchesEntry_ok.mpr (hno entry hmem)] at hmatch
      cases hmatch
    · next hany =>
      refine ⟨fun h => absurd h (Refs.get_ne w.2 d), fun h => absurd ⟨d, rfl, ?_⟩ h⟩
      intro entry hmem
      refine matchesEntry_ok.mp ?_
      cases hmatch : matchesEntry v path isOpen (.ok d) entry with
      | false => rfl
      | true => exact absurd (List.any_eq_true.mpr ⟨entry, hmem, hmatch⟩) hany

/-- A transition that runs `restore_black_list_entries` on an entry whose path resolves. -/
def StateKeeps (env : Env) (v : Vfs δ) (task : Task δ) (thePwd : List UInt8) (theState : Int)
    (s : State) : Prop :=
  Authorised env task thePwd s ∧ isState theState = true ∧ (s.currentState : Int) ≠ theState ∧
    isOn theState.toNat = false ∧
    ∃ entry ∈ s.restrictPathList, ∃ dentry, v.kernPath task.cwd entry.path = .ok dentry

theorem doChangeState_refs (thePwd : List UInt8) (theState : Int) (w : State × Refs δ) :
    (doChangeState env v task thePwd theState w).2.2 = w.2 ↔
      ¬ StateKeeps env v task thePwd theState w.1 := by
  unfold doChangeState StateKeeps Authorised
  split
  · next hadmin => exact ⟨fun _ h => hadmin h.1.1, fun _ => rfl⟩
  · next hadmin =>
    split
    · next hstate =>
      refine ⟨fun _ h => ?_, fun _ => rfl⟩
      rw [h.2.1] at hstate
      cases hstate
    · next hstate =>
      split
      · next hpwd =>
        exact ⟨fun _ h => hpwd (checkPwd_eq_zero.mpr h.1.2), fun _ => rfl⟩
      · next hpwd =>
        split
        · next hsame => exact ⟨fun _ h => h.2.2.1 hsame, fun _ => rfl⟩
        · next hsame =>
          dsimp only
          split
          · next hon =>
            refine ⟨fun _ h => ?_, fun _ => rfl⟩
            rw [h.2.2.2.1] at hon
            cases hon
          · next hon =>
            have hrest : isOn theState.toNat = false := by
              cases h : isOn theState.toNat with
              | false => rfl
              | true => exact absurd h hon
            rw [restoreBlackListEntries_refs, Refs.getAll_eq_self, resolving_eq_nil]
            refine not_congr ⟨fun h => ?_, fun h => h.2.2.2.2⟩
            exact ⟨⟨not_not.mp hadmin, checkPwd_eq_zero.mp (not_not.mp hpwd)⟩,
              by simpa using hstate, hsame, hrest, h⟩

/-- A request that gets as far as the path, where a buffer cannot be had or `add_path` inserts an
entry. -/
def PathDrifts (env : Env) (v : Vfs δ) (task : Task δ) (thePwd thePath : List UInt8) (op : Int)
    (s : State) : Prop :=
  Authorised env task thePwd s ∧ (op = addPathOp ∨ op = removePathOp) ∧
    (s.currentState = stateRecOff ∨ s.currentState = stateRecOn) ∧
    (FillKeeps env v task task.alloc thePath ∨
      op = addPathOp ∧ ∃ full dentry, PathAccepted env v task thePwd thePath s full dentry ∧
        Adds v task (fun k => task.alloc (k + 2)) full dentry s)

/-- `do_change_path` with an accepted path: the reference it took is given back once for `del_path`
and a failed `add_path`, twice for a successful one. -/
theorem doChangePath_accepted {thePwd thePath full : List UInt8} {op : Int} {w : State × Refs δ}
    {d : δ} {refs : Refs δ} (hop : op = addPathOp ∨ op = removePathOp)
    (hacc : PathAccepted env v task thePwd thePath w.1 full d)
    (hfill : fillAbsolutePath env v task task.alloc thePath w.2 = .ok ((0, full), refs)) :
    (op = addPathOp ∧ Adds v task (fun k => task.alloc (k + 2)) full d w.1 ∧ ∃ ret s',
      doChangePath env v task thePwd thePath op w = .ok (ret, s', refs.put d)) ∨
    (¬ (op = addPathOp ∧ Adds v task (fun k => task.alloc (k + 2)) full d w.1) ∧ ∃ ret s',
      doChangePath env v task thePwd thePath op w = .ok (ret, s', refs)) := by
  obtain ⟨⟨hadmin, hpwd⟩, hrec, -, hforb, hk⟩ := hacc
  unfold doChangePath
  rw [if_neg (not_not.mpr hadmin), if_neg (by rw [not_and_or, not_not, not_not]; exact hop),
    if_neg (not_not.mpr (checkPwd_eq_zero.mpr hpwd)), if_neg (not_not.mpr hrec), hfill]
  dsimp only
  rw [if_neg (not_not.mpr rfl), if_neg (by rw [hforb]; decide), hk]
  dsimp only
  by_cases hadd : op = addPathOp
  · rw [if_pos hadd]
    rcases @addPath_refs δ _ v task (fun k => task.alloc (k + 2)) full d (w.1, refs.get d) with
      ⟨hadds, hrefs⟩ | ⟨hadds, hrefs⟩
    · rw [hrefs]
      dsimp only
      rw [Refs.put_get]
      exact .inl ⟨hadd, hadds, _, _, rfl⟩
    · rw [hrefs]
      dsimp only
      rw [Refs.put_get]
      exact .inr ⟨fun h => hadds h.2, _, _, rfl⟩
  · rw [if_neg hadd, delPath_refs]
    dsimp only
    rw [Refs.put_get]
    exact .inr ⟨fun h => hadd h.1, _, _, rfl⟩

/-- How far a call of `do_change_path` gets: not to the path, not past the checks of the path, or
to `add_path` or `del_path`. -/
theorem doChangePath_reached {thePwd thePath : List UInt8} {op ret : Int} {w w' : State × Refs δ}
    (h : doChangePath env v task thePwd thePath op w = .ok (ret, w')) :
    w' = w ∨ (Authorised env task thePwd w.1 ∧ (op = addPathOp ∨ op = removePathOp) ∧
      (w.1.currentState = stateRecOff ∨ w.1.currentState = stateRecOn) ∧
      ((∃ out, fillAbsolutePath env v task task.alloc thePath w.2 = .ok (out, w'.2)) ∨
        ∃ full d refs, PathAccepted env v task thePwd thePath w.1 full d ∧
          fillAbsolutePath env v task task.alloc thePath w.2 = .ok ((0, full), refs))) := by
  unfold doChangePath at h
  split at h
  · exact .inl (Prod.mk.inj (Except.ok.inj h)).2.symm
  · next hadmin =>
    split at h
    · exact .inl (Prod.mk.inj (Except.ok.inj h)).2.symm
    · next hop =>
      split at h
      · exact .inl (Prod.mk.inj (Except.ok.inj h)).2.symm
      · next hpwd =>
        split at h
        · exact .inl (Prod.mk.inj (Except.ok.inj h)).2.symm
        · next hrec =>
          have hauth : Authorised env task thePwd w.1 :=
            ⟨not_not.mp hadmin, checkPwd_eq_zero.mp (not_not.mp hpwd)⟩
          have hvalid : op = addPathOp ∨ op = removePathOp := by
            rw [not_and_or, not_not, not_not] at hop
            exact hop
          refine .inr ⟨hauth, hvalid, not_not.mp hrec, ?_⟩
          split at h
          · cases h
          · next r full refs hfill =>
            have hout {x : Int} {y : State}
                (hx : (.ok (x, y, refs) : Except Fault (Int × State × Refs δ)) = .ok (ret, w')) :
                ∃ out, fillAbsolutePath env v task task.alloc thePath w.2 = .ok (out, w'.2) := by
              obtain ⟨-, rfl⟩ := Prod.mk.inj (Except.ok.inj hx)
              exact ⟨(r, full), hfill⟩
            split at h
            · exact .inl (hout h)
            · next hr =>
              split at h
              · exact .inl (hout h)
              · next hforb =>
                split at h
                · exact .inl (hout h)
                · next d hk =>
                  rw [not_not.mp hr] at hfill
                  exact .inr ⟨full, d, refs, ⟨hauth, not_not.mp hrec, fillAbsolutePath_ok hfill,
                    by simpa using hforb, hk⟩, hfill⟩

/-- The references a call of `do_change_path` leaves behind. -/
theorem doChangePath_refs (thePwd thePath : List UInt8) (op : Int) (w : State × Refs δ) :
    (∀ ret w', doChangePath env v task thePwd thePath op w = .ok (ret, w') → w'.2 = w.2) ↔
      ¬ PathDrifts env v task thePwd thePath op w.1 := by
  constructor
  · rintro h ⟨⟨hadmin, hpwd⟩, hop, hrec, hdrift⟩
    rcases @fillAbsolutePath_refs δ _ env v task task.alloc thePath w.2 with
      ⟨-, ret, name, d, hret, hfill⟩ | ⟨hnot, hsame⟩
    · -- the error of `fill_absolute_path` is returned as it is
      have hout : doChangePath env v task thePwd thePath op w = .ok (ret, w.1, w.2.get d) := by
        unfold doChangePath
        rw [if_neg (not_not.mpr hadmin), if_neg (by rw [not_and_or, not_not, not_not]; exact hop),
          if_neg (not_not.mpr (checkPwd_eq_zero.mpr hpwd)), if_neg (not_not.mpr hrec), hfill]
        exact if_pos hret
      exact Refs.get_ne w.2 d (h _ _ hout)
    · rcases hdrift with hkeeps | ⟨hadd, full, d, hacc, hadds⟩
      · exact hnot hkeeps
      · have hfill := hacc.absolute
        rw [← fillAbsolutePath_erase task.alloc thePath w.2] at hfill
        cases hout : fillAbsolutePath env v task task.alloc thePath w.2 with
        | error f =>
          rw [hout] at hfill
          cases hfill
        | ok out =>
          rw [hout] at hfill
          obtain ⟨out, refs⟩ := out
          cases hfill
          rcases doChangePath_accepted hop hacc hout with ⟨-, -, ret, s', hrun⟩ | ⟨hno, -⟩
          · have hput := h _ _ hrun
            rw [hsame _ _ hout] at hput
            exact Refs.put_ne w.2 d hput
          · exact hno ⟨hadd, hadds⟩
  · intro hnot ret w' hrun
    by_contra hne
    rcases doChangePath_reached hrun with rfl | ⟨hauth, hop, hrec, hreached⟩
    · exact hne rfl
    · rcases @fillAbsolutePath_refs δ _ env v task task.alloc thePath w.2 with
        ⟨hkeeps, -⟩ | ⟨-, hsame⟩
      · exact hnot ⟨hauth, hop, hrec, .inl hkeeps⟩
      · rcases hreached with ⟨out, hfill⟩ | ⟨full, d, refs, hacc, hfill⟩
        · exact hne (hsame _ _ hfill)
        · rcases doChangePath_accepted hop hacc hfill with ⟨hadd, hadds, -⟩ | ⟨-, r, s', hrun'⟩
          · exact hnot ⟨hauth, hop, hrec, .inr ⟨hadd, full, d, hacc, hadds⟩⟩
          · rw [hrun] at hrun'
            obtain ⟨-, rfl⟩ := Prod.mk.inj (Except.ok.inj hrun')
            exact hne (hsame _ _ hfill)

end Refs

end Counted

/-! ## Every run -/

/-- The operations that take references. -/
inductive MonitorCall
  | changePath (thePwd thePath : List UInt8) (op : Int)
  | changeState (thePwd : List UInt8) (theState : Int)
  | checkBlackList (path : List UInt8) (isOpen : Bool)
  | fillAbsolutePath (pathname : List UInt8)
  | markInodeReadOnlyByPathname (pathname : List UInt8)

/-- An operation with the thread that calls it and the namespace at that moment. -/
structure Operation (δ : Type) where
  call : MonitorCall
  task : Task δ
  vfs : Vfs δ

/-- The globals after the operation, as the other modules have it. -/
def Operation.run (env : Env) (o : Operation δ) (s : State) : Except Fault State :=
  match o.call with
  | .changePath thePwd thePath op =>
    (doChangePath env o.vfs o.task thePwd thePath op s).map Prod.snd
  | .changeState thePwd theState => .ok (doChangeState env o.vfs o.task thePwd theState s).2
  | .checkBlackList _ _ => .ok s
  | .fillAbsolutePath pathname =>
    (fillAbsolutePath env o.vfs o.task o.task.alloc pathname).map fun _ => s
  | .markInodeReadOnlyByPathname pathname =>
    .ok (markInodeReadOnlyByPathname o.vfs o.task pathname s).2

/-- The globals and the counters after the operation. -/
def Operation.step (env : Env) (w : State × Refs δ) (o : Operation δ) :
    Except Fault (State × Refs δ) :=
  match o.call with
  | .changePath thePwd thePath op =>
    (Counted.doChangePath env o.vfs o.task thePwd thePath op w).map Prod.snd
  | .changeState thePwd theState =>
    .ok (Counted.doChangeState env o.vfs o.task thePwd theState w).2
  | .checkBlackList path isOpen =>
    .ok (w.1, (Counted.checkBlackList o.vfs o.task path isOpen w).2)
  | .fillAbsolutePath pathname =>
    (Counted.fillAbsolutePath env o.vfs o.task o.task.alloc pathname w.2).map fun out =>
      (w.1, out.2)
  | .markInodeReadOnlyByPathname pathname =>
    .ok (Counted.markInodeReadOnlyByPathname o.vfs o.task pathname w).2

/-- The counters change nothing else. -/
theorem Operation.step_erase (env : Env) (w : State × Refs δ) (o : Operation δ) :
    (o.step env w).map Prod.fst = o.run env w.1 := by
  unfold Operation.step Operation.run
  cases o.call with
  | changePath thePwd thePath op =>
    dsimp only
    rw [← Counted.doChangePath_erase thePwd thePath op w]
    cases Counted.doChangePath env o.vfs o.task thePwd thePath op w with
    | error f => rfl
    | ok out => rfl
  | changeState thePwd theState =>
    dsimp only
    rw [← Counted.doChangeState_erase thePwd theState w]
    rfl
  | checkBlackList path isOpen => rfl
  | fillAbsolutePath pathname =>
    dsimp only
    rw [← Counted.fillAbsolutePath_erase o.task.alloc pathname w.2]
    cases Counted.fillAbsolutePath env o.vfs o.task o.task.alloc pathname w.2 with
    | error f => rfl
    | ok out => rfl
  | markInodeReadOnlyByPathname pathname =>
    dsimp only
    rw [← Counted.markInodeReadOnlyByPathname_erase pathname w]
    rfl

/-- When the operation returns, every counter is as it was. -/
def Operation.Neutral (env : Env) (w : State × Refs δ) (o : Operation δ) : Prop :=
  ∀ w', o.step env w = .ok w' → w'.2 = w.2

/-- The operation takes a return that keeps a reference or gives one back twice. -/
def Operation.Drifts (env : Env) (s : State) (o : Operation δ) : Prop :=
  match o.call with
  | .changePath thePwd thePath op => Counted.PathDrifts env o.vfs o.task thePwd thePath op s
  | .changeState thePwd theState => Counted.StateKeeps env o.vfs o.task thePwd theState s
  | .checkBlackList path isOpen => Counted.CheckKeeps o.vfs o.task path isOpen s
  | .fillAbsolutePath pathname => Counted.FillKeeps env o.vfs o.task o.task.alloc pathname
  | .markInodeReadOnlyByPathname pathname =>
    ∃ dentry, o.vfs.kernPath o.task.cwd (cstr pathname) = .ok dentry ∧ o.vfs.dInode dentry = none

theorem Operation.neutral_iff (env : Env) (w : State × Refs δ) (o : Operation δ) :
    o.Neutral env w ↔ ¬ o.Drifts env w.1 := by
  unfold Operation.Neutral Operation.Drifts Operation.step
  cases o.call with
  | changePath thePwd thePath op =>
    dsimp only
    rw [← Counted.doChangePath_refs thePwd thePath op w]
    constructor
    · intro h ret w' hrun
      exact h w' (by rw [hrun]; rfl)
    · intro h w' hrun
      obtain ⟨out, hout, rfl⟩ := returned_of_map hrun
      exact h out.1 out.2 hout
  | changeState thePwd theState =>
    dsimp only
    rw [← Counted.doChangeState_refs thePwd theState w]
    exact ⟨fun h => h _ rfl, fun h w' hw => Except.ok.inj hw ▸ h⟩
  | checkBlackList path isOpen =>
    dsimp only
    rw [← Counted.checkBlackList_refs path isOpen w]
    exact ⟨fun h => h _ rfl, fun h w' hw => Except.ok.inj hw ▸ h⟩
  | fillAbsolutePath pathname =>
    dsimp only
    rcases @Counted.fillAbsolutePath_refs δ _ env o.vfs o.task o.task.alloc pathname w.2 with
      ⟨hkeeps, ret, name, d, -, hfill⟩ | ⟨hnot, hsame⟩
    · refine ⟨fun h => ?_, fun h => absurd hkeeps h⟩
      exact absurd (h (w.1, w.2.get d) (by rw [hfill]; rfl)) (Refs.get_ne w.2 d)
    · refine ⟨fun _ => hnot, fun _ w' hrun => ?_⟩
      obtain ⟨out, hout, rfl⟩ := returned_of_map hrun
      exact hsame out.1 out.2 hout
  | markInodeReadOnlyByPathname pathname =>
    dsimp only
    rw [← Counted.markInodeReadOnlyByPathname_refs pathname w]
    exact ⟨fun h => h _ rfl, fun h w' hw => Except.ok.inj hw ▸ h⟩

/-- In every run of the five operations, from any state and counters and with the namespace
changing between them in any way: an operation leaves every counter as it was exactly when it does
not take one of the returns that drift, and a run of such operations keeps all counters. -/
theorem references_neutral_iff (env : Env) (ops : List (Operation δ)) (w : State × Refs δ) :
    EveryStep (fun w o => o.step env w) (fun w o => o.Neutral env w ↔ ¬ o.Drifts env w.1) w ops ∧
    (EveryStep (fun w o => o.step env w) (fun w o => ¬ o.Drifts env w.1) w ops →
      EveryState (fun w o => o.step env w) (fun w' => w'.2 = w.2) w ops) := by
  refine ⟨EveryStep.of_forall (fun w o => o.neutral_iff env w) ops w, fun hops => ?_⟩
  refine EveryState.of_inv (fun h => h) (fun {w₁ o w₂} h hnot hstep => ?_) rfl hops
  exact ((o.neutral_iff env w₁).mpr hnot w₂ hstep).trans h

/-! ## A path that is added

`root` switches to `REC_OFF` and adds `/home/secret`. -/

def sampleOperation (call : MonitorCall) : Operation Nat :=
  { call := call, task := sampleTask 0 0, vfs := sampleTree.vfs }

def sampleOperations : List (Operation Nat) :=
  [sampleOperation (.changeState samplePassword stateRecOff),
   sampleOperation (.changePath samplePassword (padded pathMax (ascii "/home/secret"))
     addPathOp)]

/-- The counter of `/home/secret` is one lower than before. -/
theorem added_path_loses_reference :
    ∃ m sys, referenceMonitorInit sampleParams sampleAnswers
        (insmod sampleParams sampleTable fun _ => ⟨0o644, 0⟩) = .ok (m, sys) ∧
      ¬ EveryStep (fun w o => o.step m.env w) (fun w o => o.Neutral m.env w)
        (sys.state, ⟨fun _ => 1⟩) sampleOperations := by
  refine ⟨sampleModule, _, sample_init _, fun h => ?_⟩
  have hmatch : HashMatches sampleModule.env (sampleLoaded fun _ => ⟨0o644, 0⟩).state
    samplePassword := sample_password_matches rfl
  have hadmin : (sampleTask 0 0).euid = sampleModule.env.admin := rfl
  have hfirst : (sampleOperation (.changeState samplePassword stateRecOff)).step sampleModule.env
      ((sampleLoaded fun _ => ⟨0o644, 0⟩).state, ⟨fun _ => 1⟩) =
        .ok (sampleRecOff [], ⟨fun _ => 1⟩) := by
    dsimp only [Operation.step, sampleOperation, Counted.doChangeState]
    rw [if_neg (not_not.mpr hadmin), if_neg (by decide),
      if_neg (not_not.mpr (checkPwd_eq_zero.mpr hmatch)), if_neg (by decide), if_neg (by decide)]
    rfl
  have hacc := @sample_accepted sampleModule.env sampleTree samplePassword (sampleTree.text 2) 2
    (sampleRecOff []) sampleTree_ok sampleTree_root rfl (sample_password_matches rfl) (.inl rfl)
    secret_nul (Nat.le_of_lt secret_lt) rfl rfl (by decide +kernel)
  refine (Operation.neutral_iff _ _ _).mp (h.2 _ hfirst).1 ?_
  exact ⟨hacc.authorised, .inl rfl, .inl rfl, .inr ⟨rfl, _, 2, hacc, by decide, rfl, rfl, rfl,
    by decide⟩⟩

end RefMonitor
