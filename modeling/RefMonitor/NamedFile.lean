import RefMonitor.Removal

/-!
# The file that was named

`do_change_path` resolves the name it is given, prints the dentry back to text, and resolves that
text once more to make the entry. `dentry_path_raw` prints the path from the root of the dentry's
own file system, while `kern_path` looks a name up from the root of the whole namespace: on a file
system that is mounted elsewhere the second lookup goes astray, and so does the text of a cwd that
lies there. Bytes behind the name in the buffer can also end up in the text.

The namespace here is any namespace (`WellNamed`), with any number of mounted file systems.

Results:
1. `fillAbsolutePath_printed`: the text that is looked up the second time, for any buffer.
2. `doChangePath_added`: what a result of zero means.
3. `protectsNamed_iff`: the requests that protect the file that was named.
-/

namespace RefMonitor
open CString

variable {δ : Type}

/-- The file `s'` protects and `s` does not is the one the name denotes: one entry is new, it
records the inode the name denotes and its path resolves to that inode. -/
def ProtectsNamed (v : Vfs δ) (task : Task δ) (name : List UInt8) (s s' : State) : Prop :=
  ∃ e i, s'.restrictPathList = e :: s.restrictPathList ∧ targetInode v task name = some i ∧
    e.iIno = i.iIno ∧ targetInode v task e.path = some i

/-- The text the buffer holds after it has been filled with the text of the dentry: of an absolute
name only its own bytes have been cleared before. -/
def printedText (v : Vfs δ) (buf : List UInt8) (d : δ) : List UInt8 :=
  v.dPath d ++
    if (cstr buf).head? = some slash ∧ strlen buf < (v.dPath d).length then
      cstr (buf.drop (v.dPath d).length)
    else []

/-- The path of an absolute name is no longer than the name, or a zero byte stands in the buffer
where the path is going to end. -/
def ClearBehind (v : Vfs δ) (task : Task δ) (buf : List UInt8) : Prop :=
  ∀ d, (cstr buf).head? = some slash → v.kernPath task.cwd (cstr buf) = .ok d →
    (v.dPath d).length ≤ strlen buf ∨ buf.getD (v.dPath d).length 0 = 0

/-- The printed text leads back to the file the name denotes. -/
def NamedBack (v : Vfs δ) (task : Task δ) (buf : List UInt8) : Prop :=
  ∃ i d, targetInode v task buf = some i ∧
    v.kernPath task.cwd (absText v task.cwd (cstr buf)) = .ok d ∧
    targetInode v task (printedText v buf d) = some i

/-! ## The printed text -/

theorem headD_eq_slash_iff (buf : List UInt8) :
    buf.headD 0 = slash ↔ (cstr buf).head? = some slash := by
  cases buf with
  | nil => exact ⟨fun h => absurd h (by decide), fun h => nomatch h⟩
  | cons b buf =>
    by_cases hb : b = 0
    · rw [hb, cstr_cons_zero, List.headD_cons]
      exact ⟨fun h => absurd h (by decide), fun h => nomatch h⟩
    · rw [cstr_cons hb, List.head?_cons, Option.some.injEq]
      exact Iff.rfl

theorem cstr_drop_strlen (buf : List UInt8) : cstr (buf.drop (strlen buf)) = [] := by
  induction buf with
  | nil => rfl
  | cons b buf ih =>
    by_cases hb : b = 0
    · rw [hb, strlen, cstr_cons_zero]
      exact cstr_cons_zero buf
    · rw [strlen, cstr_cons hb]
      exact ih

/-- What is left behind a text of `n` bytes that is copied over a cleared name. -/
theorem cstr_drop_cleared (buf : List UInt8) (n : Nat) :
    cstr ((memsetZero buf 0 (strlen buf)).drop n) =
      if strlen buf < n then cstr (buf.drop n) else [] := by
  have hcleared : memsetZero buf 0 (strlen buf) =
      List.replicate (strlen buf) 0 ++ buf.drop (strlen buf) := by
    rw [memsetZero, writeAt, List.take_zero, List.nil_append, List.length_replicate, Nat.zero_add]
  rw [hcleared, List.drop_append, List.drop_replicate, List.length_replicate, List.drop_drop]
  rcases Nat.lt_trichotomy (strlen buf) n with hlt | heq | hgt
  · rw [if_pos hlt, Nat.sub_eq_zero_of_le (Nat.le_of_lt hlt), List.replicate_zero, List.nil_append,
      Nat.add_sub_cancel' (Nat.le_of_lt hlt)]
  · rw [← heq, if_neg (Nat.lt_irrefl _), Nat.sub_self, List.replicate_zero, List.nil_append,
      Nat.add_zero]
    exact cstr_drop_strlen buf
  · obtain ⟨k, hk⟩ := Nat.exists_eq_succ_of_ne_zero (Nat.sub_ne_zero_of_lt hgt)
    rw [if_neg (Nat.lt_asymm hgt), hk, List.replicate_succ]
    exact cstr_cons_zero _

/-- Behind a name that zero bytes follow, nothing is left. -/
theorem cstr_drop_cleared_padded {size : Nat} {t : List UInt8} (ht : (0 : UInt8) ∉ t) (n : Nat) :
    cstr ((memsetZero (padded size t) 0 (strlen (padded size t))).drop n) = [] := by
  rw [cstr_drop_cleared, strlen_padded ht]
  split
  · next hlt =>
    rw [padded, List.drop_append, List.drop_eq_nil_of_le (Nat.le_of_lt hlt), List.nil_append,
      List.drop_replicate]
    exact cstr_append_zeros [] _
  · rfl

/-- With zero bytes behind the name, the text is the path of the dentry. -/
theorem printedText_padded {v : Vfs δ} {name : List UInt8} (hn : (0 : UInt8) ∉ name) (d : δ) :
    printedText v (padded pathMax name) d = v.dPath d := by
  have hclear := @cstr_drop_cleared_padded pathMax name hn (v.dPath d).length
  rw [cstr_drop_cleared] at hclear
  unfold printedText
  split
  · next hlong =>
    rw [if_pos hlong.2] at hclear
    rw [hclear, List.append_nil]
  · rw [List.append_nil]

/-- The bytes behind the path are nothing exactly when the buffer is clear there. -/
theorem printedText_eq_iff (v : Vfs δ) (buf : List UInt8) (d : δ) :
    printedText v buf d = v.dPath d ↔ ((cstr buf).head? = some slash →
      (v.dPath d).length ≤ strlen buf ∨ buf.getD (v.dPath d).length 0 = 0) := by
  unfold printedText
  split
  · next hlong =>
    rw [List.append_right_eq_self, cstr_drop_eq_nil_iff]
    constructor
    · exact fun hclear _ => .inr hclear
    · exact fun h => (h hlong.1).resolve_left (Nat.not_le.mpr hlong.2)
  · next hshort =>
    refine iff_of_true (List.append_nil _) ?_
    exact fun hslash => .inl (Nat.le_of_not_lt fun hlt => hshort ⟨hslash, hlt⟩)

section
variable {env : Env} {v : Vfs δ} {task : Task δ} {buf out thePwd : List UInt8} {s s' : State}

/-- A result of zero leaves the text of the dentry the absolute text resolves to, and what stood
behind an absolute name when that text is longer. -/
theorem fillAbsolutePath_printed {alloc : Nat → Bool}
    (hnul : ∀ d, v.Resolves d → (0 : UInt8) ∉ v.dPath d) (hcwd : v.Resolves task.cwd)
    (hlen : buf.length = pathMax) (h : fillAbsolutePath env v task alloc buf = .ok (0, out)) :
    ∃ d, v.kernPath task.cwd (absText v task.cwd (cstr buf)) = .ok d ∧
      cstr out = printedText v buf d := by
  obtain ⟨pathname, d, hres, hk, hout⟩ := fillAbsolutePath_steps hnul h
  refine ⟨d, ?_⟩
  unfold absText printedText
  by_cases hs : (cstr buf).head? = some slash
  · rw [if_neg (not_not.mpr ((headD_eq_slash_iff buf).mpr hs))] at hres
    obtain ⟨-, rfl⟩ := Prod.mk.inj (Except.ok.inj hres)
    rw [if_pos hs, hout, cstr_drop_cleared]
    refine ⟨hk, ?_⟩
    simp only [hs, true_and]
  · -- a relative name is joined into a cleared buffer, so nothing stands behind the text
    have hjoined := @zero_notMem_absText δ v task.cwd (cstr buf) (hnul _ hcwd)
      (zero_notMem_cstr buf)
    rw [absText, if_neg hs] at hjoined
    rw [if_pos fun h0 => hs ((headD_eq_slash_iff buf).mp h0)] at hres
    cases halloc : alloc 0 with
    | false =>
      rw [halloc] at hres
      exact absurd (Prod.mk.inj (Except.ok.inj hres)).1 (fail_ne_zero _)
    | true =>
      rw [halloc] at hres
      rcases Nat.lt_or_ge (v.dPath task.cwd).length pathMax with hlt | hge
      · rw [resolveRelativePath_eq (hnul _ hcwd) hlt (Nat.le_of_eq hlen)] at hres
        obtain ⟨-, rfl⟩ := Prod.mk.inj (Except.ok.inj hres)
        rw [cstr_padded hjoined] at hk
        rw [cstr_drop_cleared_padded hjoined] at hout
        rw [if_neg hs, if_neg fun hc => hs hc.1]
        exact ⟨hk, hout⟩
      · have hraw : v.dentryPathRaw task.cwd (env.kmalloc pathMax) = none :=
          dentryPathRaw_long (by rw [env.kmalloc_length]; exact Nat.not_lt.mpr hge)
        rw [resolveRelativePath, hraw] at hres
        cases hres

/-! ## A result of zero -/

/-- When an addition succeeds, all checks have been passed and one entry is new. -/
theorem doChangePath_added (h : doChangePath env v task thePwd buf addPathOp s = .ok (0, s')) :
    ∃ full d i, PathAccepted env v task thePwd buf s full d ∧ v.dInode d = some i ∧
      s' = { s with restrictPathList := newEntry s full i :: s.restrictPathList } := by
  rcases doChangePath_outcome h with ⟨hne, -⟩ | ⟨full, d, hacc, ⟨-, hadd⟩ | ⟨hop, -⟩⟩
  · exact absurd rfl hne
  · rcases addPath_outcome hadd with ⟨hne, -⟩ | ⟨-, -, i, hi, hs⟩
    · exact absurd rfl hne
    · exact ⟨full, d, i, hacc, hi, hs⟩
  · exact absurd hop (by decide)

/-- In any namespace, for every cwd and every buffer: an addition that succeeds protects the file
that was named exactly when the printed text leads back to it. -/
theorem protectsNamed_iff (hv : WellNamed v) (hcwd : v.Resolves task.cwd)
    (hlen : buf.length = pathMax)
    (h : doChangePath env v task thePwd buf addPathOp s = .ok (0, s')) :
    ProtectsNamed v task buf s s' ↔ NamedBack v task buf := by
  obtain ⟨full, d₂, i₂, hacc, hi₂, rfl⟩ := doChangePath_added h
  obtain ⟨d, hk, hprinted⟩ := fillAbsolutePath_printed (fun _ => hv.text_nul) hcwd hlen hacc.absolute
  -- the entry always records the file its own path leads to; only the name may lead elsewhere
  have hentry : targetInode v task (newEntry s full i₂).path = some i₂ :=
    targetInode_eq_some.mpr ⟨d₂, by rw [RcuRestrict.cstr_path]; exact hacc.resolves, hi₂⟩
  have hback : targetInode v task (printedText v buf d) = some i₂ := by
    rw [← hprinted]
    exact hentry
  constructor
  · rintro ⟨e, i, hlist, hnamed, -, hpath⟩
    obtain rfl : newEntry s full i₂ = e := (List.cons.inj hlist).1
    obtain rfl := Option.some.inj (hentry.symm.trans hpath)
    exact ⟨i₂, d, hnamed, hk, hback⟩
  · rintro ⟨i, d', hnamed, hk', hback'⟩
    obtain rfl := Except.ok.inj (hk.symm.trans hk')
    obtain rfl := Option.some.inj (hback.symm.trans hback')
    exact ⟨newEntry s full i₂, i₂, rfl, hnamed, rfl, hentry⟩

/-- On a single file system, with zero bytes behind a name that is absolute or fits in the buffer
with the cwd, the printed text leads back. -/
theorem namedBack_singleMount {name : List UInt8} {d : δ} (hm : SingleMount v)
    (hcwd : v.Resolves task.cwd) (hn : (0 : UInt8) ∉ name) (hne : name ≠ [])
    (hfit : name.head? = some slash ∨ (v.dPath task.cwd).length + 1 + name.length < pathMax)
    (hk : v.kernPath task.cwd name = .ok d) : NamedBack v task (padded pathMax name) := by
  have hd : v.Resolves d := ⟨_, _, hk⟩
  obtain ⟨i, hi⟩ := hm.positive hd
  refine ⟨i, d, ?_, ?_, ?_⟩
  · exact targetInode_eq_some.mpr ⟨d, by rw [cstr_padded hn]; exact hk, hi⟩
  · rw [cstr_padded hn, kernPath_absText hm hcwd hne hfit]
    exact hk
  · rw [printedText_padded hn]
    refine targetInode_eq_some.mpr ⟨d, ?_, hi⟩
    rw [cstr_eq_self (hm.path_nul hd)]
    exact hm.roundTrip hd

end

theorem protectsNamed_iff_secret :
    doChangePath sampleEnv sampleTree.vfs (sampleTask 0 0) samplePassword
        (padded pathMax (ascii "/home/secret")) addPathOp (sampleState stateRecOff false []) =
      .ok (0, sampleState stateRecOff false [secretEntry]) ∧
    ProtectsNamed sampleTree.vfs (sampleTask 0 0) (padded pathMax (ascii "/home/secret"))
      (sampleState stateRecOff false []) (sampleState stateRecOff false [secretEntry]) := by
  refine ⟨sampleRecOff_add, ?_⟩
  have hlen : (padded pathMax (ascii "/home/secret")).length = pathMax := length_padded (by decide)
  refine (protectsNamed_iff sampleTree_wellNamed sampleTree_root hlen sampleRecOff_add).mpr ?_
  exact namedBack_singleMount sampleTree_singleMount sampleTree_root (by decide) (by decide)
    (.inl rfl) rfl

/-! ## A second file system -/

/-- The names of a tree with a second file system mounted at `/mnt`. -/
def mountTree : NameTable where
  dentries :=
    [⟨ascii "/", 2, 0⟩, ⟨ascii "/a", 3, 0⟩, ⟨ascii "/mnt", 2, 0⟩, ⟨ascii "/mnt/a", 7, 2⟩]
  names := [(ascii "/", 0), (ascii "/a", 1), (ascii "/mnt", 2), (ascii "/mnt/a", 3)]

/-- The path of each dentry from the root of its own file system. -/
def mountText : Nat → List UInt8
  | 0 => ascii "/"
  | 1 => ascii "/a"
  | 2 => ascii "/"
  | _ => ascii "/a"

/-- Names are looked up across the mount; texts and inodes belong to one of the two file systems. -/
def crossVfs : Vfs Nat :=
  { mountTree.vfs with
    dPath := mountText
    dInode := fun d => (mountTree.vfs.dInode d).map fun i => ⟨if d < 2 then 0 else 1, i.iIno⟩ }

theorem mountText_absolute (d : Nat) :
    (mountText d).head? = some slash ∧ (0 : UInt8) ∉ mountText d := by
  match d with
  | 0 => exact ⟨rfl, by decide⟩
  | 1 => exact ⟨rfl, by decide⟩
  | 2 => exact ⟨rfl, by decide⟩
  | _ + 3 =>
    have hnul : (0 : UInt8) ∉ ascii "/a" := by decide
    exact ⟨rfl, hnul⟩

theorem crossVfs_wellNamed : WellNamed crossVfs where
  name_lt hk := (@NameTable.wellNamed mountTree (by decide +kernel) (by decide +kernel)).name_lt hk
  text_slash _ := (mountText_absolute _).1
  text_nul _ := (mountText_absolute _).2

/-- Adding `/mnt/a` protects `/a`. -/
theorem mounted_file_missed : ∃ s',
    doChangePath sampleEnv crossVfs (sampleTask 0 0) samplePassword
        (padded pathMax (ascii "/mnt/a")) addPathOp (sampleState stateRecOn true []) = .ok (0, s') ∧
      ¬ ProtectsNamed crossVfs (sampleTask 0 0) (padded pathMax (ascii "/mnt/a"))
        (sampleState stateRecOn true []) s' := by
  have hfill : fillAbsolutePath sampleEnv crossVfs (sampleTask 0 0) (sampleTask 0 0).alloc
      (padded pathMax (ascii "/mnt/a")) = .ok (0, padded pathMax (ascii "/a")) :=
    @fillAbsolutePath_absolute Nat sampleEnv crossVfs (sampleTask 0 0) (sampleTask 0 0).alloc
      (ascii "/mnt/a") 3 crossVfs_wellNamed rfl (by decide) rfl rfl
  have htext : cstr (padded pathMax (ascii "/a")) = ascii "/a" := cstr_padded (by decide) pathMax
  have hacc : PathAccepted sampleEnv crossVfs (sampleTask 0 0) samplePassword
      (padded pathMax (ascii "/mnt/a")) (sampleState stateRecOn true [])
      (padded pathMax (ascii "/a")) 1 :=
    ⟨sampleRoot_authorised stateRecOn true [], .inr rfl, hfill, rfl, by rw [htext]; rfl⟩
  have hnew : isPathIn (sampleState stateRecOn true []) (padded pathMax (ascii "/a")) ≠ 0 := by
    rw [Ne, isPathIn_eq_zero]
    rintro ⟨e, he, -⟩
    cases he
  have hcall := @PathAccepted.adds Nat sampleEnv crossVfs (sampleTask 0 0) samplePassword
    (padded pathMax (ascii "/mnt/a")) (padded pathMax (ascii "/a")) 1 ⟨0, 3⟩
    (sampleState stateRecOn true []) hacc rfl (fun _ => rfl) rfl hnew
  refine ⟨_, hcall, ?_⟩
  rintro ⟨e, i, hlist, hnamed, hino, -⟩
  have hentry : newEntry (sampleState stateRecOn true []) (padded pathMax (ascii "/a")) ⟨0, 3⟩ = e :=
    (List.cons.inj hlist).1
  obtain ⟨d, hk, hi⟩ := targetInode_eq_some.mp hnamed
  rw [cstr_padded (by decide)] at hk
  obtain rfl : 3 = d := Except.ok.inj hk
  obtain rfl : ⟨1, 7⟩ = i := Option.some.inj hi
  rw [← hentry] at hino
  exact absurd hino (by decide)

end RefMonitor
