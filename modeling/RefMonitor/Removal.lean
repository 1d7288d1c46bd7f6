import RefMonitor.Histories

/-!
# Removing an entry

An entry is to be removable for as long as it is listed, whatever has become of the file it
was made for: `del_path` has a branch for entries whose path is gone. But `do_change_path`
resolves the name it is given before it calls `del_path`, which then searches for the text of
what the name resolves to now, and takes the first entry that starts with it.

Results:
1. `fillAbsolutePath_absolute`: the text `del_path` is given for an absolute name.
2. `entry_removed_iff`: the entries that are removed by their own path.
-/

namespace RefMonitor
open CString

variable {δ : Type}

/-- `do_change_path(password, p, REMOVE_PATH)` leaves no entry of the path `p`. -/
def Removes (env : Env) (v : Vfs δ) (task : Task δ) (thePwd : List UInt8) (s : State)
    (p : List UInt8) : Prop :=
  ∃ r s', doChangePath env v task thePwd (padded pathMax p) removePathOp s = .ok (r, s') ∧
    p ∉ s'.paths

/-- The first entry whose path starts with the text. -/
def firstBelow (s : State) (text : List UInt8) : Option RcuRestrict :=
  s.restrictPathList.find? fun e => text.isPrefixOf e.path

/-- The path of the entry still names something: a dentry whose text can be printed, is not
exempt and resolves in turn, and no entry before this one starts with that text. -/
def StillNamed (env : Env) (v : Vfs δ) (cwd : δ) (s : State) (e : RcuRestrict) : Prop :=
  ∃ d d', v.kernPath cwd e.path = .ok d ∧ (v.dPath d).length < pathMax ∧
    forbittenPath env (padded pathMax (v.dPath d)) = false ∧
    v.kernPath cwd (v.dPath d) = .ok d' ∧ firstBelow s (v.dPath d) = some e

section

variable {env : Env} {v : Vfs δ} {task : Task δ} {s : State}

/-- `fill_absolute_path` on an absolute name, with zero bytes behind it, that resolves. -/
theorem fillAbsolutePath_absolute {alloc : Nat → Bool} {p : List UInt8} {d : δ} (hv : WellNamed v)
    (halloc : alloc 1 = true) (hp : (0 : UInt8) ∉ p) (hs : p.head? = some slash)
    (hk : v.kernPath task.cwd p = .ok d) :
    fillAbsolutePath env v task alloc (padded pathMax p) =
      if (v.dPath d).length < pathMax then .ok (0, padded pathMax (v.dPath d))
      else .error .errPtr := by
  have hhead : (padded pathMax p).headD 0 = slash := (headD_padded p).mpr hs
  have hnul := hv.text_nul ⟨_, _, hk⟩
  unfold fillAbsolutePath
  simp only [hhead, ne_eq, not_true_eq_false, if_false, cstr_padded hp, hk, halloc, Bool.not_true,
    Bool.false_eq_true]
  rcases Nat.lt_or_ge (v.dPath d).length pathMax with hlt | hge
  · have hraw := dentryPathRaw_eq v d (List.replicate pathMax 0)
      (by rw [List.length_replicate]; exact hlt)
    have htext := cstr_dentryPathRaw hnul hraw
    simp only [hraw]
    rw [if_pos hlt, strlen_padded hp, memsetZero_padded (Nat.le_of_lt (hv.name_lt hk)),
      strncpy_padded_nil, htext]
    rw [strlen, htext]
    exact Nat.le_of_lt hlt
  · have hge := Nat.not_lt_of_le hge
    have hraw : v.dentryPathRaw d (List.replicate pathMax 0) = none :=
      dentryPathRaw_long (by rw [List.length_replicate]; exact hge)
    simp only [hraw]
    rw [if_neg hge]

/-- A result of zero: the name resolves and its text can be printed. -/
theorem fillAbsolutePath_absolute_ok {alloc : Nat → Bool} {p out : List UInt8} (hv : WellNamed v)
    (halloc : alloc 1 = true) (hp : (0 : UInt8) ∉ p) (hs : p.head? = some slash)
    (h : fillAbsolutePath env v task alloc (padded pathMax p) = .ok (0, out)) :
    ∃ d, v.kernPath task.cwd p = .ok d ∧ (v.dPath d).length < pathMax ∧
      out = padded pathMax (v.dPath d) := by
  cases hk : v.kernPath task.cwd p with
  | error err =>
    rw [fillAbsolutePath_error ((headD_padded p).mpr hs) (by rw [cstr_padded hp]; exact hk)] at h
    exact absurd (Prod.mk.inj (Except.ok.inj h)).1 (fail_ne_zero _)
  | ok d =>
    rw [fillAbsolutePath_absolute hv halloc hp hs hk] at h
    split at h
    · next hlt => exact ⟨d, rfl, hlt, (Prod.mk.inj (Except.ok.inj h)).2.symm⟩
    · exact absurd h (by simp)

/-- The search of `del_path` for the text of a dentry. -/
theorem find_delMatches_padded {text : List UInt8} (hnul : (0 : UInt8) ∉ text) :
    s.restrictPathList.find? (delMatches (padded pathMax text)) = firstBelow s text := by
  have hpred : delMatches (padded pathMax text) = fun e => text.isPrefixOf e.path := by
    funext e
    rw [Bool.eq_iff_iff, delMatches_iff, cstr_padded hnul, List.isPrefixOf_iff_prefix]
  rw [hpred, firstBelow]

/-- With no path listed twice, `del_path` takes an entry's path off the list exactly when the
entry is the first match. -/
theorem removed_iff_first {full : List UInt8} {e : RcuRestrict} (hnodup : s.paths.Nodup)
    (he : e ∈ s.restrictPathList) :
    e.path ∉ (s.restrictPathList.eraseP (delMatches full)).map (·.path) ↔
      s.restrictPathList.find? (delMatches full) = some e := by
  constructor
  · intro hgone
    cases hfind : s.restrictPathList.find? (delMatches full) with
    | none =>
      rw [List.eraseP_of_forall_not (by simpa using hfind)] at hgone
      exact absurd (List.mem_map_of_mem he) hgone
    | some e' =>
      obtain ⟨before, after, hlist, herased⟩ := eraseP_delMatches hfind
      rw [herased] at hgone
      rw [hlist] at he
      rcases List.mem_append.mp he with hb | ha
      · exact absurd (List.mem_map_of_mem (List.mem_append_left _ hb)) hgone
      · rcases List.mem_cons.mp ha with rfl | ha
        · rfl
        · exact absurd (List.mem_map_of_mem (List.mem_append_right _ ha)) hgone
  · intro hfind
    obtain ⟨before, after, hlist, herased⟩ := eraseP_delMatches hfind
    rw [State.paths, hlist, List.map_append, List.map_cons] at hnodup
    rw [herased, List.map_append]
    exact (List.nodup_middle.mp hnodup).notMem

/-- An entry can be removed by its own path exactly when the path still names something and
the entry is the first below the text of that. -/
theorem entry_removed_iff {thePwd : List UInt8} {e : RcuRestrict} (hreach : History δ env s)
    (hrec : s.currentState = stateRecOff ∨ s.currentState = stateRecOn)
    (he : e ∈ s.restrictPathList) (hv : WellNamed v) (hauth : Authorised env task thePwd s)
    (halloc : ∀ k, task.alloc k = true) (herr : task.err = 0) :
    Removes env v task thePwd s e.path ↔ StillNamed env v task.cwd s e := by
  have hslash := (hreach.entries e he).slash_first
  constructor
  · rintro ⟨r, s', hcall, hgone⟩
    rcases doChangePath_cases hcall with rfl | ⟨full, d', hacc, ⟨hop, _⟩ | ⟨_, hdel⟩⟩
    · exact absurd (List.mem_map_of_mem he) hgone
    · exact absurd hop (by decide)
    · obtain ⟨d, hk, hlt, rfl⟩ :=
        fillAbsolutePath_absolute_ok hv (halloc 1) e.path_nul hslash hacc.absolute
      have hnul := hv.text_nul ⟨_, _, hk⟩
      have hres := hacc.resolves
      rw [cstr_padded hnul] at hres
      refine ⟨d, d', hk, hlt, hacc.permitted, hres, ?_⟩
      rw [← find_delMatches_padded hnul, ← removed_iff_first hreach.nodup he]
      rcases delPath_cases hdel with rfl | ⟨_, _, ⟨rfl, _⟩ | ⟨_, _, _, _, _, rfl⟩⟩
      · exact absurd (List.mem_map_of_mem he) hgone
      · exact hgone
      · exact hgone
  · rintro ⟨d, d', hk, hlt, hperm, hres, hfirst⟩
    have hnul := hv.text_nul ⟨_, _, hk⟩
    have hacc : PathAccepted env v task thePwd (padded pathMax e.path) s
        (padded pathMax (v.dPath d)) d' := by
      refine ⟨hauth, hrec, ?_, hperm, by rw [cstr_padded hnul]; exact hres⟩
      rw [fillAbsolutePath_absolute hv (halloc 1) e.path_nul hslash hk, if_pos hlt]
    rw [← find_delMatches_padded hnul] at hfirst
    have hlist := @delPath_list δ ⟨.del, padded pathMax (v.dPath d), d', v, task⟩ s e rfl herr hfirst
    refine ⟨_, _, hacc.doChangePath (.inr rfl), ?_⟩
    show e.path ∉ (delPath v task (padded pathMax (v.dPath d)) s).2.restrictPathList.map (·.path)
    have hlist : (delPath v task (padded pathMax (v.dPath d)) s).2.restrictPathList =
      s.restrictPathList.eraseP (delMatches (padded pathMax (v.dPath d))) := hlist
    rw [hlist]
    exact (removed_iff_first hreach.nodup he).mpr hfirst

end

/-! ## A deleted file -/

/-- Every name of `/home/secret` is gone. -/
def deletedTree : NameTable :=
  { sampleTree with names := sampleTree.names.filter fun e => e.2 != 2 }

theorem deletedTree_wellNamed : WellNamed deletedTree.vfs :=
  NameTable.wellNamed (by decide +kernel) (by decide +kernel)

/-- `/home/secret` is listed in `REC_OFF` and then deleted: `root` cannot remove the entry. -/
theorem deleted_entry_stays :
    History Nat sampleEnv (sampleState stateRecOff false [secretEntry]) ∧
    secretEntry ∈ (sampleState stateRecOff false [secretEntry]).restrictPathList ∧
    WellNamed deletedTree.vfs ∧
    Authorised sampleEnv (sampleTask 0 0) samplePassword
      (sampleState stateRecOff false [secretEntry]) ∧
    (∀ k, (sampleTask 0 0).alloc k = true) ∧ (sampleTask 0 0).err = 0 ∧
    ¬ Removes sampleEnv deletedTree.vfs (sampleTask 0 0) samplePassword
      (sampleState stateRecOff false [secretEntry]) (ascii "/home/secret") := by
  refine ⟨sampleHistory_recOff, List.mem_singleton.mpr rfl, deletedTree_wellNamed,
    sampleRoot_authorised .., fun _ => rfl, rfl, ?_⟩
  rintro ⟨r, s', hcall, hgone⟩
  rcases doChangePath_cases hcall with rfl | ⟨full, d', hacc, _⟩
  · exact hgone (List.mem_singleton.mpr rfl)
  · obtain ⟨d, hk, _⟩ := fillAbsolutePath_absolute_ok deletedTree_wellNamed rfl secret_nul rfl
      hacc.absolute
    cases hk

/-- The same call while the file is there. -/
theorem entry_removed_iff_secret :
    Removes sampleEnv sampleTree.vfs (sampleTask 0 0) samplePassword
      (sampleState stateRecOff false [secretEntry]) secretEntry.path ↔
    StillNamed sampleEnv sampleTree.vfs 0 (sampleState stateRecOff false [secretEntry])
      secretEntry :=
  entry_removed_iff sampleHistory_recOff (.inl rfl) (List.mem_singleton.mpr rfl)
    sampleTree_wellNamed (sampleRoot_authorised ..) (fun _ => rfl) rfl

end RefMonitor
