import RefMonitor.OpenText
import RefMonitor.RestrictSet

/-!
# Swap and backup files

An editor keeps `.f.swp`, `.f.swpx` and `f~` beside the file `f` it works on.
`fill_with_swap_filter` takes such a name back to that of the file, so that the `open` handler can
judge it by the file it belongs to. It looks for the dot behind the last slash of the name, and a
name without a slash keeps its dot. Names of less than six bytes it does not look at, which is the
length of the shortest swap name but not of the shortest backup name.

Results:
1. `swapDotIndex_dir`, `removeSwapDot_dot`, `clearSwapSuffix_eq`: the edits in any buffer;
   `removeSwapDot_decorate`, `clearSwapSuffix_ending`: in a buffer with zero bytes behind the name.
2. `fillWithSwapFilter_one_iff`: what is left of a decorated name is made absolute.
3. `undone_iff`: the names whose decoration is undone.
4. `Recognised.denied`: with a listed file, all opens of these names are denied.
-/

namespace RefMonitor
open CString

variable {δ : Type}

/-! ## Decorated names -/

/-- The files an editor keeps beside a file. -/
inductive Decoration
  | swapFile
  | swapxFile
  | backup
deriving DecidableEq, Repr

/-- What the decorated name ends in. -/
def Decoration.ending : Decoration → List UInt8
  | .swapFile => swp
  | .swapxFile => swpx
  | .backup => tilde

/-- The decorated name of `dir ++ name`. -/
def Decoration.decorate (c : Decoration) (dir name : List UInt8) : List UInt8 :=
  match c with
  | .swapFile => dir ++ dot :: (name ++ swp)
  | .swapxFile => dir ++ dot :: (name ++ swpx)
  | .backup => dir ++ (name ++ tilde)

/-- A directory text, ending in a slash or empty, and the name of a file that is not hidden. -/
structure Decorable (dir name : List UInt8) : Prop where
  dirEnd : dir = [] ∨ dir.getLast? = some slash
  named : name ≠ []
  oneComponent : slash ∉ name
  notHidden : name.head? ≠ some dot
  nul : (0 : UInt8) ∉ dir ++ name

theorem Decorable.name_nul {dir name : List UInt8} (h : Decorable dir name) : (0 : UInt8) ∉ name :=
  fun hmem => h.nul (List.mem_append_right dir hmem)

/-! ## The scan for the dot -/

theorem swapDotIndex_noSlash {buf : List UInt8} {n : Nat} (h : ∀ j < n, buf.getD j 0 ≠ slash) :
    swapDotIndex buf n = none := by
  induction n with
  | zero => rfl
  | succ n ih =>
    rw [swapDotIndex, if_neg (h n (Nat.lt_succ_self n))]
    exact ih fun j hj => h j (Nat.lt_succ_of_lt hj)

/-- The scan stops at the last slash and looks at the byte behind it. -/
theorem swapDotIndex_lastSlash {buf : List UInt8} {k n : Nat} (hk : buf.getD k 0 = slash)
    (hkn : k < n) (h : ∀ j, k < j → j < n → buf.getD j 0 ≠ slash) :
    swapDotIndex buf n = if buf.getD (k + 1) 0 = dot then some (k + 1) else none := by
  induction n with
  | zero => exact absurd hkn (Nat.not_lt_zero k)
  | succ n ih =>
    rw [swapDotIndex]
    rcases Nat.lt_or_eq_of_le (Nat.le_of_lt_succ hkn) with hlt | rfl
    · rw [if_neg (h n hlt (Nat.lt_succ_self n))]
      exact ih hlt fun j hj hjn => h j hj (Nat.lt_succ_of_lt hjn)
    · rw [if_pos hk]

theorem swapDotIndex_dir {dir rest : List UInt8} (hdir : dir.getLast? = some slash)
    (hrest : slash ∉ rest) (hne : rest ≠ []) (tail : List UInt8) :
    swapDotIndex (dir ++ rest ++ tail) (dir ++ rest).length =
      if rest.head? = some dot then some dir.length else none := by
  obtain ⟨above, rfl⟩ := List.getLast?_eq_some_iff.mp hdir
  have hat : ∀ j, j ≤ rest.length → (above ++ [slash] ++ rest ++ tail).getD (above.length + j) 0 =
      (slash :: rest).getD j 0 := by
    intro j hj
    rw [List.append_assoc, List.append_assoc, List.singleton_append,
      List.getD_append_right _ _ _ _ (Nat.le_add_right _ _), Nat.add_sub_cancel_left,
      ← List.cons_append, List.getD_append _ _ _ _ (Nat.lt_succ_of_le hj)]
  have hhead : (slash :: rest).getD 1 0 = dot ↔ rest.head? = some dot := by
    cases rest with
    | nil => exact absurd rfl hne
    | cons b rest => exact (Option.some.injEq b dot ▸ Iff.rfl)
  have hslash : (above ++ [slash] ++ rest ++ tail).getD above.length 0 = slash :=
    hat 0 (Nat.zero_le _)
  rw [swapDotIndex_lastSlash hslash]
  · rw [hat 1 (List.length_pos_of_ne_nil hne), List.length_append, List.length_singleton]
    simp only [hhead]
  · rw [List.length_append, List.length_append, List.length_singleton]
    omega
  · intro j hj hlt
    obtain ⟨m, rfl⟩ := Nat.exists_eq_add_of_lt hj
    rw [List.length_append, List.length_append, List.length_singleton] at hlt
    rw [Nat.add_assoc, hat _ (by omega), List.getD_cons_succ]
    exact getD_ne_slash hrest m

/-! ## Removing the decoration -/

theorem removeSwapDot_none {buf : List UInt8} {len : Nat} (h : swapDotIndex buf len = none) :
    removeSwapDot buf len = (buf, len) := by
  rw [removeSwapDot, h]

/-- The dot that starts the last component is removed, and the NUL is moved along. -/
theorem removeSwapDot_dot {dir rest : List UInt8} (hdir : dir.getLast? = some slash)
    (hrest : slash ∉ rest) (tail : List UInt8) :
    removeSwapDot (dir ++ dot :: rest ++ 0 :: tail) (dir ++ dot :: rest).length =
      (dir ++ rest ++ 0 :: 0 :: tail, (dir ++ rest).length) := by
  have hnoSlash : slash ∉ dot :: rest := List.not_mem_cons_of_ne_of_not_mem (by decide) hrest
  have hcount : (dir ++ dot :: rest).length - dir.length = rest.length + 1 := by
    rw [List.length_append, Nat.add_sub_cancel_left, List.length_cons]
  have hshort : (dir ++ dot :: rest).length - 1 = (dir ++ rest).length := by
    rw [List.length_append, List.length_append, List.length_cons, ← Nat.add_assoc,
      Nat.add_sub_cancel]
  rw [removeSwapDot, swapDotIndex_dir hdir hnoSlash (List.cons_ne_nil _ _), List.head?_cons,
    if_pos rfl]
  dsimp only
  rw [hcount, memmove_cons, hshort, List.set_append_right _ _ (le_refl _), Nat.sub_self,
    List.set_cons_zero]

theorem removeSwapDot_dot_padded {dir rest : List UInt8} (hdir : dir.getLast? = some slash)
    (hrest : slash ∉ rest) (hlen : (dir ++ dot :: rest).length < pathMax) :
    removeSwapDot (padded pathMax (dir ++ dot :: rest)) (dir ++ dot :: rest).length =
      (padded pathMax (dir ++ rest), (dir ++ rest).length) := by
  have hlength : (dir ++ dot :: rest).length = (dir ++ rest).length + 1 := by
    rw [List.length_append, List.length_append, List.length_cons, Nat.add_assoc]
  have hlt : (dir ++ rest).length < pathMax := by omega
  obtain ⟨k, hk⟩ : ∃ k, pathMax - ((dir ++ rest).length + 1) = k + 1 :=
    ⟨pathMax - ((dir ++ rest).length + 1) - 1, by omega⟩
  have hzeros : pathMax - ((dir ++ rest).length + 1 + 1) = k := by omega
  rw [padded_of_lt hlen, padded_of_lt hlt, removeSwapDot_dot hdir hrest, hlength, hk, hzeros,
    List.replicate_succ]

/-- A text that ends in another byte does not end in `u`. -/
theorem not_suffix_of_last {u w t : List UInt8} {a b : UInt8} (hu : u.getLast? = some a)
    (hw : w.getLast? = some b) (hne : a ≠ b) : ¬ u <:+ t ++ w := by
  obtain ⟨u', rfl⟩ := List.getLast?_eq_some_iff.mp hu
  obtain ⟨w', rfl⟩ := List.getLast?_eq_some_iff.mp hw
  rintro ⟨r, hr⟩
  rw [← List.append_assoc, ← List.append_assoc] at hr
  exact hne (List.singleton_inj.mp (List.append_inj' hr rfl).2)

/-- The test for an ending, on a string that is long enough for all of them. -/
theorem strncmp_ending {buf : List UInt8} (c : Decoration) (hlong : 5 ≤ strlen buf) :
    strncmp c.ending.length (buf.drop (strlen buf - c.ending.length)) c.ending = 0 ↔
      c.ending <:+ cstr buf := by
  cases c with
  | swapFile => exact strncmp_tail (by decide) (Nat.le_trans (by decide) hlong)
  | swapxFile => exact strncmp_tail (by decide) (Nat.le_trans (by decide) hlong)
  | backup => exact strncmp_tail (by decide) (Nat.le_trans (by decide) hlong)

/-- The ending is cleared; none of the tests takes it for another one. -/
theorem clearSwapSuffix_eq (c : Decoration) {buf t : List UInt8} (htext : cstr buf = t ++ c.ending)
    (hlong : 5 ≤ strlen buf) :
    clearSwapSuffix buf (strlen buf) = memsetZero buf t.length c.ending.length := by
  have hswp : strncmp 4 (buf.drop (strlen buf - 4)) swp = 0 ↔ swp <:+ cstr buf :=
    strncmp_ending .swapFile hlong
  have hswpx : strncmp 5 (buf.drop (strlen buf - 5)) swpx = 0 ↔ swpx <:+ cstr buf :=
    strncmp_ending .swapxFile hlong
  have htilde : strncmp 1 (buf.drop (strlen buf - 1)) tilde = 0 ↔ tilde <:+ cstr buf :=
    strncmp_ending .backup hlong
  have hstart : strlen buf - c.ending.length = t.length := by
    rw [strlen, htext, List.length_append, Nat.add_sub_cancel]
  have hends : c.ending <:+ cstr buf := by
    rw [htext]
    exact List.suffix_append t c.ending
  unfold clearSwapSuffix
  cases c with
  | swapFile =>
    rw [if_pos (hswp.mpr hends)]
    exact congrArg (memsetZero buf · 4) hstart
  | swapxFile =>
    -- `.swp` is tested first, but this ends in an `x`
    have hno : ¬ swp <:+ t ++ swpx := not_suffix_of_last rfl rfl (by decide)
    rw [if_neg (fun h => hno (htext ▸ hswp.mp h)), if_pos (hswpx.mpr hends)]
    exact congrArg (memsetZero buf · 5) hstart
  | backup =>
    have hno : ¬ swp <:+ t ++ tilde := not_suffix_of_last rfl rfl (by decide)
    have hno' : ¬ swpx <:+ t ++ tilde := not_suffix_of_last rfl rfl (by decide)
    have hlast : strlen buf - 1 < buf.length :=
      Nat.lt_of_lt_of_le (Nat.sub_lt (Nat.lt_of_lt_of_le (by decide) hlong) (by decide))
        (strlen_le_length buf)
    rw [if_neg (fun h => hno (htext ▸ hswp.mp h)), if_neg (fun h => hno' (htext ▸ hswpx.mp h)),
      if_pos (htilde.mpr hends), List.set_eq_take_append_cons_drop, if_pos hlast,
      List.append_cons]
    exact congrArg (memsetZero buf · 1) hstart

theorem clearSwapSuffix_ending (c : Decoration) {t : List UInt8}
    (hnul : (0 : UInt8) ∉ t ++ c.ending) (hlong : 5 ≤ (t ++ c.ending).length)
    (hlen : (t ++ c.ending).length ≤ pathMax) :
    clearSwapSuffix (padded pathMax (t ++ c.ending)) (t ++ c.ending).length = padded pathMax t := by
  have hclear := @clearSwapSuffix_eq c (padded pathMax (t ++ c.ending)) t (cstr_padded hnul _)
    (by rw [strlen_padded hnul]; exact hlong)
  rw [strlen_padded hnul, memsetZero_padded_append hlen] at hclear
  exact hclear

/-- What the filter leaves of a decorated name: a dot is removed only behind a slash. -/
def Decoration.bare (c : Decoration) (dir name : List UInt8) : List UInt8 :=
  if c ≠ .backup ∧ dir = [] then dot :: name else dir ++ name

section
variable {c : Decoration} {dir name : List UInt8}

theorem decorate_dotted (h : c ≠ .backup) :
    c.decorate dir name = dir ++ dot :: (name ++ c.ending) := by
  cases c with
  | swapFile => rfl
  | swapxFile => rfl
  | backup => exact absurd rfl h

theorem slash_notMem_ending (h : slash ∉ name) : slash ∉ name ++ c.ending := by
  have hend : slash ∉ c.ending := by cases c <;> decide
  exact List.not_mem_append h hend

theorem zero_notMem_ending (h : (0 : UInt8) ∉ name) : (0 : UInt8) ∉ name ++ c.ending := by
  have hend : (0 : UInt8) ∉ c.ending := by cases c <;> decide
  exact List.not_mem_append h hend

theorem zero_notMem_bare (h : Decorable dir name) : (0 : UInt8) ∉ c.bare dir name := by
  unfold Decoration.bare
  split
  · exact List.not_mem_cons_of_ne_of_not_mem (by decide) h.name_nul
  · exact h.nul

theorem bare_dir (hdir : dir.getLast? = some slash) : c.bare dir name = dir ++ name := by
  refine if_neg fun h => ?_
  rw [h.2] at hdir
  cases hdir

/-- Without a directory text there is no slash, and nothing is removed. -/
theorem removeSwapDot_relative (h : Decorable [] name) :
    removeSwapDot (padded pathMax (c.decorate [] name)) (c.decorate [] name).length =
      (padded pathMax (c.bare [] name ++ c.ending), (c.bare [] name ++ c.ending).length) := by
  have htext : c.decorate [] name = c.bare [] name ++ c.ending := by
    cases c with
    | swapFile => rfl
    | swapxFile => rfl
    | backup => rfl
  have hbare : slash ∉ c.bare [] name := by
    unfold Decoration.bare
    split
    · exact List.not_mem_cons_of_ne_of_not_mem (by decide) h.oneComponent
    · exact h.oneComponent
  rw [htext]
  refine removeSwapDot_none (swapDotIndex_noSlash fun j _ => ?_)
  rw [getD_padded]
  exact getD_ne_slash (slash_notMem_ending hbare) j

/-- Behind a directory text the dot of a swap file is removed, and a backup file has none. -/
theorem removeSwapDot_dir (h : Decorable dir name) (hdir : dir.getLast? = some slash)
    (hlen : (c.decorate dir name).length < pathMax) :
    removeSwapDot (padded pathMax (c.decorate dir name)) (c.decorate dir name).length =
      (padded pathMax (c.bare dir name ++ c.ending), (c.bare dir name ++ c.ending).length) := by
  have hrest : slash ∉ name ++ c.ending := slash_notMem_ending h.oneComponent
  rw [bare_dir hdir, List.append_assoc]
  by_cases hc : c = .backup
  · -- the name itself does not start with a dot, so the scan finds none
    subst hc
    have hhead : (name ++ tilde).head? ≠ some dot := by
      rw [List.head?_append_of_ne_nil _ h.named]
      exact h.notHidden
    exact removeSwapDot_none
      ((swapDotIndex_dir hdir hrest (List.append_ne_nil_of_left_ne_nil h.named _) _).trans
        (if_neg hhead))
  · rw [decorate_dotted hc] at hlen ⊢
    exact removeSwapDot_dot_padded hdir hrest hlen

theorem removeSwapDot_decorate (h : Decorable dir name)
    (hlen : (c.decorate dir name).length < pathMax) :
    removeSwapDot (padded pathMax (c.decorate dir name)) (c.decorate dir name).length =
      (padded pathMax (c.bare dir name ++ c.ending), (c.bare dir name ++ c.ending).length) := by
  rcases h.dirEnd with rfl | hdir
  · exact removeSwapDot_relative h
  · exact removeSwapDot_dir h hdir hlen

/-- The name is one byte shorter at the second test, or as long as before. -/
theorem length_bare_ending (h : Decorable dir name) :
    (c.bare dir name ++ c.ending).length ≤ (c.decorate dir name).length ∧
      (c.decorate dir name).length ≤ (c.bare dir name ++ c.ending).length + 1 := by
  rcases h.dirEnd with rfl | hdir
  · cases c with
    | swapFile => exact ⟨le_refl _, Nat.le_succ _⟩
    | swapxFile => exact ⟨le_refl _, Nat.le_succ _⟩
    | backup => exact ⟨le_refl _, Nat.le_succ _⟩
  · rw [bare_dir hdir]
    by_cases hc : c = .backup
    · subst hc
      rw [List.append_assoc]
      exact ⟨le_refl _, Nat.le_succ _⟩
    · rw [decorate_dotted hc]
      simp only [List.length_append, List.length_cons]
      omega

/-- The filter looks up what is left of the decorated name. -/
theorem stripped_decorate (h : Decorable dir name) (hlen : (c.decorate dir name).length < pathMax)
    (hlong : 6 ≤ (c.decorate dir name).length) :
    clearSwapSuffix
        (removeSwapDot (padded pathMax (c.decorate dir name)) (c.decorate dir name).length).1
        (removeSwapDot (padded pathMax (c.decorate dir name)) (c.decorate dir name).length).2 =
      padded pathMax (c.bare dir name) := by
  obtain ⟨hle, hge⟩ := @length_bare_ending c dir name h
  rw [removeSwapDot_decorate h hlen]
  exact clearSwapSuffix_ending c (zero_notMem_ending (zero_notMem_bare h))
    (Nat.le_of_succ_le_succ (Nat.le_trans hlong hge)) (Nat.le_trans hle (Nat.le_of_lt hlen))

theorem zero_notMem_decorate (h : Decorable dir name) : (0 : UInt8) ∉ c.decorate dir name := by
  have hdir : (0 : UInt8) ∉ dir := fun hmem => h.nul (List.mem_append_left name hmem)
  have hrest : (0 : UInt8) ∉ name ++ c.ending := zero_notMem_ending h.name_nul
  by_cases hc : c = .backup
  · subst hc
    exact List.not_mem_append hdir hrest
  · rw [decorate_dotted hc]
    exact List.not_mem_append hdir (List.not_mem_cons_of_ne_of_not_mem (by decide) hrest)

theorem ending_suffix_decorate : c.ending <:+ c.decorate dir name := by
  cases c with
  | swapFile => exact (List.suffix_append (dot :: name) swp).trans (List.suffix_append dir _)
  | swapxFile => exact (List.suffix_append (dot :: name) swpx).trans (List.suffix_append dir _)
  | backup => exact (List.suffix_append name tilde).trans (List.suffix_append dir _)

theorem swapNamed_decorate : SwapNamed (c.decorate dir name) := by
  have hends := @ending_suffix_decorate c dir name
  cases c with
  | swapFile => exact .inl hends
  | swapxFile => exact .inr (.inl hends)
  | backup => exact .inr (.inr hends)

/-! ## What the filter makes of a decorated name -/

section
variable {env : Env} {v : Vfs δ} {task : Task δ} {alloc : Nat → Bool}

/-- The filter looks up what is left of the decorated name, and reports a swap name when that
resolves. -/
theorem fillWithSwapFilter_decorate (h : Decorable dir name)
    (hlen : (c.decorate dir name).length < pathMax) (hlong : 6 ≤ (c.decorate dir name).length)
    {ret : Int} {out : List UInt8}
    (hfill : fillAbsolutePath env v task alloc (padded pathMax (c.bare dir name)) = .ok (ret, out)) :
    fillWithSwapFilter env v task alloc (padded pathMax (c.decorate dir name)) =
      .ok (if ret = 0 then 1 else ret, out) := by
  have hnul := @zero_notMem_decorate c dir name h
  have hswap : isSwapName (padded pathMax (c.decorate dir name)) (c.decorate dir name).length = true :=
    (isSwapName_padded hnul hlong).mpr swapNamed_decorate
  unfold fillWithSwapFilter
  dsimp only
  rw [strlen_padded hnul, if_neg (Nat.not_lt.mpr hlong), hswap, if_pos rfl,
    stripped_decorate h hlen hlong, hfill]
  dsimp only
  by_cases hret : ret = 0
  · rw [if_neg (not_not.mpr hret), if_pos hret, if_pos rfl]
  · rw [if_pos hret, if_neg hret]

/-- `fill_absolute_path` leaves the path of `d` exactly when the text it looks up leads there. -/
theorem filled_iff (hm : SingleMount v) (hcwd : v.Resolves task.cwd) (halloc : ∀ k, alloc k = true)
    {t : List UInt8} (ht : (0 : UInt8) ∉ t) (hlen : t.length ≤ pathMax) {d : δ} (hd : v.Resolves d) :
    (∃ out, fillAbsolutePath env v task alloc (padded pathMax t) = .ok (0, out) ∧
        cstr out = v.dPath d) ↔ v.kernPath task.cwd (absText v task.cwd t) = .ok d := by
  constructor
  · rintro ⟨out, hfill, htext⟩
    obtain ⟨e, hk, rfl⟩ := fillAbsolutePath_ok hm hcwd ht hlen hfill
    have he : v.Resolves e := ⟨_, _, hk⟩
    rw [cstr_padded (hm.path_nul he)] at htext
    obtain ⟨i, hi⟩ := hm.positive hd
    obtain ⟨j, hj⟩ := hm.positive he
    rw [hk, hm.path_inj hj hi htext]
  · intro hk
    refine ⟨padded pathMax (v.dPath d), ?_, cstr_padded (hm.path_nul hd) pathMax⟩
    rw [fillAbsolutePath_padded hm hcwd halloc ht hlen, hk]

theorem length_bare_le (h : Decorable dir name) (hlen : (c.decorate dir name).length < pathMax) :
    (c.bare dir name).length ≤ pathMax := by
  have hle := (@length_bare_ending c dir name h).1
  rw [List.length_append] at hle
  exact Nat.le_trans (Nat.le_of_add_right_le hle) (Nat.le_of_lt hlen)

/-- The filter reports a swap name exactly when what is left of it is made absolute. -/
theorem fillWithSwapFilter_one_iff (hm : SingleMount v) (hcwd : v.Resolves task.cwd)
    (halloc : ∀ k, alloc k = true) (h : Decorable dir name)
    (hlen : (c.decorate dir name).length < pathMax) (hlong : 6 ≤ (c.decorate dir name).length)
    {out : List UInt8} :
    fillWithSwapFilter env v task alloc (padded pathMax (c.decorate dir name)) = .ok (1, out) ↔
      fillAbsolutePath env v task alloc (padded pathMax (c.bare dir name)) = .ok (0, out) := by
  have hspec := @fillAbsolutePath_padded δ env v task alloc (c.bare dir name) hm hcwd halloc
    (zero_notMem_bare h) (length_bare_le h hlen)
  cases hk : v.kernPath task.cwd (absText v task.cwd (c.bare dir name)) with
  | error e =>
    rw [hk] at hspec
    rw [fillWithSwapFilter_decorate h hlen hlong hspec, hspec, if_neg (fail_ne_zero _)]
    constructor
    · intro heq
      exact absurd (Prod.mk.inj (Except.ok.inj heq)).1 (by decide)
    · intro heq
      exact absurd (Prod.mk.inj (Except.ok.inj heq)).1 (fail_ne_zero _)
  | ok d =>
    rw [hk] at hspec
    rw [fillWithSwapFilter_decorate h hlen hlong hspec, hspec, if_pos rfl]
    simp only [Except.ok.injEq, Prod.mk.injEq, true_and]

end

end

/-! ## Undoing the decoration -/

section
variable {env : Env} {v : Vfs δ} {task : Task δ} {alloc : Nat → Bool} {c : Decoration}
  {dir name : List UInt8} {d : δ}

/-- The filter reports a swap name and leaves the canonical path of `dir ++ name`, which is what
`fill_absolute_path` makes of `dir ++ name`; so a list that has this path covers the text. -/
def Undone (env : Env) (v : Vfs δ) (task : Task δ) (alloc : Nat → Bool) (c : Decoration)
    (dir name : List UInt8) : Prop :=
  ∃ d out out', v.kernPath task.cwd (dir ++ name) = .ok d ∧
    fillWithSwapFilter env v task alloc (padded pathMax (c.decorate dir name)) = .ok (1, out) ∧
    cstr out = v.dPath d ∧
    fillAbsolutePath env v task alloc (padded pathMax (dir ++ name)) = .ok (0, out') ∧
    cstr out' = v.dPath d ∧
    ∀ s : State, v.dPath d ∈ s.paths → ListCovers v task s out

/-- The names whose decoration is undone. A backup name needs six bytes. The text that is looked up
for `dir ++ name`, joined with the cwd when it is relative, has to lead to the same file; and so has
the hidden name that is left of a swap name without a directory. -/
structure Recognised (v : Vfs δ) (cwd : δ) (c : Decoration) (dir name : List UInt8) : Prop where
  long : c = .backup → 5 ≤ (dir ++ name).length
  joined : v.kernPath cwd (absText v cwd (dir ++ name)) = v.kernPath cwd (dir ++ name)
  hidden : c ≠ .backup → dir = [] →
    v.kernPath cwd (absText v cwd (dot :: name)) = v.kernPath cwd (dir ++ name)

theorem length_decorate (c : Decoration) (dir name : List UInt8) :
    (c.decorate dir name).length =
      (dir ++ name).length + if c = .backup then 1 else c.ending.length + 1 := by
  by_cases hc : c = .backup
  · subst hc
    show (dir ++ (name ++ tilde)).length = _
    rw [← List.append_assoc, List.length_append]
    rfl
  · rw [decorate_dotted hc, if_neg hc]
    simp only [List.length_append, List.length_cons]
    omega

theorem long_decorate_iff (h : Decorable dir name) :
    6 ≤ (c.decorate dir name).length ↔ (c = .backup → 5 ≤ (dir ++ name).length) := by
  rw [length_decorate]
  by_cases hc : c = .backup
  · rw [if_pos hc]
    exact ⟨fun hle _ => Nat.le_of_succ_le_succ hle, fun hle => Nat.succ_le_succ (hle hc)⟩
  · have hname := List.length_pos_of_ne_nil h.named
    have hend : 4 ≤ c.ending.length := by
      cases c with
      | swapFile => decide
      | swapxFile => decide
      | backup => exact absurd rfl hc
    refine iff_of_true ?_ fun hbackup => absurd hbackup hc
    rw [if_neg hc, List.length_append]
    omega

/-- The lookups that have to lead to the file, as the filter makes them. -/
theorem recognised_iff (hk : v.kernPath task.cwd (dir ++ name) = .ok d) (h : Decorable dir name) :
    Recognised v task.cwd c dir name ↔ 6 ≤ (c.decorate dir name).length ∧
      v.kernPath task.cwd (absText v task.cwd (dir ++ name)) = .ok d ∧
      v.kernPath task.cwd (absText v task.cwd (c.bare dir name)) = .ok d := by
  rw [long_decorate_iff h]
  constructor
  · rintro ⟨hlong, hjoined, hhidden⟩
    rw [hk] at hjoined hhidden
    refine ⟨hlong, hjoined, ?_⟩
    unfold Decoration.bare
    split
    · next hbare => exact hhidden hbare.1 hbare.2
    · exact hjoined
  · rintro ⟨hlong, hjoined, hbare⟩
    refine ⟨hlong, hjoined.trans hk.symm, ?_⟩
    intro hc hdir
    rw [Decoration.bare, if_pos ⟨hc, hdir⟩] at hbare
    exact hbare.trans hk.symm

theorem listCovers_of_text {s : State} {out : List UInt8} (htext : cstr out = v.dPath d)
    (hlisted : v.dPath d ∈ s.paths) : ListCovers v task s out := by
  obtain ⟨e, he, hpath⟩ := mem_paths.mp hlisted
  exact checkBlackList_eq_zero.mpr ⟨e, he, .inl (hpath.trans htext.symm)⟩

theorem length_name_le (hlen : (c.decorate dir name).length < pathMax) :
    (dir ++ name).length ≤ pathMax := by
  rw [length_decorate] at hlen
  exact Nat.le_trans (Nat.le_add_right _ _) (Nat.le_of_lt hlen)

theorem Undone.recognised (hundone : Undone env v task alloc c dir name) (hm : SingleMount v)
    (hcwd : v.Resolves task.cwd) (halloc : ∀ k, alloc k = true) (h : Decorable dir name)
    (hlen : (c.decorate dir name).length < pathMax) : Recognised v task.cwd c dir name := by
  obtain ⟨d, out, out', hk, hfilter, htext, hfill, htext', -⟩ := hundone
  have hd : v.Resolves d := ⟨_, _, hk⟩
  have hlong : 6 ≤ (c.decorate dir name).length := by
    by_contra hshort
    rw [fillWithSwapFilter_short (zero_notMem_decorate h) (Nat.lt_of_not_le hshort)] at hfilter
    exact absurd (Prod.mk.inj (Except.ok.inj hfilter)).1 (by decide)
  rw [fillWithSwapFilter_one_iff hm hcwd halloc h hlen hlong] at hfilter
  refine (recognised_iff hk h).mpr ⟨hlong, ?_, ?_⟩
  · exact (filled_iff hm hcwd halloc h.nul (length_name_le hlen) hd).mp ⟨out', hfill, htext'⟩
  · exact (filled_iff hm hcwd halloc (zero_notMem_bare h) (length_bare_le h hlen) hd).mp
      ⟨out, hfilter, htext⟩

theorem Recognised.undone (hrec : Recognised v task.cwd c dir name) (hm : SingleMount v)
    (hcwd : v.Resolves task.cwd) (halloc : ∀ k, alloc k = true) (h : Decorable dir name)
    (hlen : (c.decorate dir name).length < pathMax)
    (hk : v.kernPath task.cwd (dir ++ name) = .ok d) : Undone env v task alloc c dir name := by
  have hd : v.Resolves d := ⟨_, _, hk⟩
  obtain ⟨hlong, hjoined, hbare⟩ := (recognised_iff hk h).mp hrec
  obtain ⟨out', hfill, htext'⟩ := (@filled_iff δ env v task alloc hm hcwd halloc (dir ++ name)
    h.nul (length_name_le hlen) d hd).mpr hjoined
  obtain ⟨out, hleft, htext⟩ := (@filled_iff δ env v task alloc hm hcwd halloc (c.bare dir name)
    (zero_notMem_bare h) (length_bare_le h hlen) d hd).mpr hbare
  exact ⟨d, out, out', hk, (fillWithSwapFilter_one_iff hm hcwd halloc h hlen hlong).mpr hleft,
    htext, hfill, htext', fun s hlisted => listCovers_of_text htext hlisted⟩

/-- On a single file system, for every directory text and every name of a file that exists: a
decoration is undone exactly when the name is recognised. -/
theorem undone_iff (hm : SingleMount v) (hcwd : v.Resolves task.cwd) (halloc : ∀ k, alloc k = true)
    (h : Decorable dir name) (hlen : (c.decorate dir name).length < pathMax)
    (hk : v.kernPath task.cwd (dir ++ name) = .ok d) :
    Undone env v task alloc c dir name ↔ Recognised v task.cwd c dir name :=
  ⟨fun hundone => hundone.recognised hm hcwd halloc h hlen,
    fun hrec => hrec.undone hm hcwd halloc h hlen hk⟩

/-- Where the joined text fits in the buffer: all names but the short backup names, and the swap
names without a directory whose hidden name is not a name of the same file. -/
theorem recognised_fits_iff (hm : SingleMount v) {cwd : δ} (hcwd : v.Resolves cwd)
    (h : Decorable dir name)
    (hfit : dir.head? = some slash ∨ (v.dPath cwd).length + 2 + (dir ++ name).length < pathMax) :
    Recognised v cwd c dir name ↔ (c = .backup → 5 ≤ (dir ++ name).length) ∧
      (c ≠ .backup → dir = [] → v.kernPath cwd (dot :: name) = v.kernPath cwd name) := by
  have hne : dir ++ name ≠ [] := List.append_ne_nil_of_right_ne_nil dir h.named
  have hjoined : v.kernPath cwd (absText v cwd (dir ++ name)) = v.kernPath cwd (dir ++ name) := by
    refine kernPath_absText hm hcwd hne (hfit.imp ?_ ?_)
    · intro hslash
      rw [List.head?_append, hslash]
      rfl
    · intro hlt
      omega
  have hhidden : dir = [] →
      v.kernPath cwd (absText v cwd (dot :: name)) = v.kernPath cwd (dot :: name) := by
    rintro rfl
    refine kernPath_absText hm hcwd (List.cons_ne_nil _ _) (.inr ?_)
    have hlt := hfit.resolve_left (by simp)
    rw [List.nil_append] at hlt
    rw [List.length_cons]
    omega
  constructor
  · intro hrec
    refine ⟨hrec.long, fun hc hdir => ?_⟩
    have hsame := hrec.hidden hc hdir
    rw [hhidden hdir, hdir] at hsame
    exact hsame
  · rintro ⟨hlong, hsame⟩
    refine ⟨hlong, hjoined, fun hc hdir => ?_⟩
    rw [hhidden hdir, hsame hc hdir, hdir]
    rfl

/-- So the handler denies every open of such a file beside a listed one, and marks nothing. -/
theorem Recognised.denied (hrec : Recognised v task.cwd c dir name) (hm : SingleMount v)
    (hcwd : v.Resolves task.cwd) (halloc : ∀ k, task.alloc k = true) (h : Decorable dir name)
    (hlen : (c.decorate dir name).length < pathMax)
    (hk : v.kernPath task.cwd (dir ++ name) = .ok d) {s : State} (hlisted : v.dPath d ∈ s.paths)
    (flags : UInt32) :
    decideOpen env v task flags (padded pathMax (c.decorate dir name)) s = .ok (.deny s) := by
  obtain ⟨d', out, -, hk', hfilter, -, -, -, hcovers⟩ :=
    @Recognised.undone δ env v task (fun k => task.alloc (k + 1)) c dir name d hrec hm hcwd
      (fun k => halloc (k + 1)) h hlen hk
  obtain rfl := Except.ok.inj (hk.symm.trans hk')
  have hcovered : checkBlackList v task s out true = 0 := hcovers s hlisted
  rw [decideOpen, hfilter]
  dsimp only
  rw [if_neg (by decide), if_neg (by decide), checkOpen, hcovered, if_neg (not_not.mpr rfl)]
  rfl

end

/-! ## Samples -/

theorem homeSecret_decorable : Decorable (ascii "/home/") (ascii "secret") :=
  ⟨.inr rfl, by decide, by decide, by decide, by decide⟩

theorem undone_iff_homeSecret :
    Undone sampleEnv sampleTree.vfs (sampleTask 0 0) (fun _ => true) .swapFile (ascii "/home/")
        (ascii "secret") ∧
      Undone sampleEnv sampleTree.vfs (sampleTask 0 0) (fun _ => true) .swapxFile (ascii "/home/")
        (ascii "secret") ∧
      Undone sampleEnv sampleTree.vfs (sampleTask 0 0) (fun _ => true) .backup (ascii "/home/")
        (ascii "secret") := by
  have hall : ∀ c : Decoration, Undone sampleEnv sampleTree.vfs (sampleTask 0 0) (fun _ => true) c
      (ascii "/home/") (ascii "secret") := by
    intro c
    have hlen : (c.decorate (ascii "/home/") (ascii "secret")).length < pathMax := by
      cases c <;> decide
    refine (undone_iff sampleTree_singleMount sampleTree_root (fun _ => rfl) homeSecret_decorable
      hlen (d := 2) rfl).mpr ?_
    exact (recognised_fits_iff sampleTree_singleMount sampleTree_root homeSecret_decorable
      (.inl rfl)).mpr ⟨fun _ => by decide, fun _ h => absurd h (by decide)⟩
  exact ⟨hall .swapFile, hall .swapxFile, hall .backup⟩

theorem sampleTree_home : sampleTree.vfs.Resolves 1 := ⟨0, ascii "/home", rfl⟩

/-- With `/home` as the cwd, `.secret.swp` is looked up as `.secret`; and `/tmp~` is too short to be
looked at. -/
theorem decoration_kept :
    (sampleTree.vfs.kernPath 1 (ascii "secret") = .ok 2 ∧
      ¬ Undone sampleEnv sampleTree.vfs (sampleTask 0 1) (fun _ => true) .swapFile []
        (ascii "secret")) ∧
    sampleTree.vfs.kernPath 0 (ascii "/tmp") = .ok 5 ∧
      ¬ Undone sampleEnv sampleTree.vfs (sampleTask 0 0) (fun _ => true) .backup (ascii "/")
        (ascii "tmp") := by
  refine ⟨⟨rfl, ?_⟩, rfl, ?_⟩
  · intro hundone
    have hrec := hundone.recognised sampleTree_singleMount sampleTree_home (fun _ => rfl)
      ⟨.inl rfl, by decide, by decide, by decide, by decide⟩ (by decide)
    exact absurd (hrec.hidden (by decide) rfl) (by decide)
  · intro hundone
    have hrec := hundone.recognised sampleTree_singleMount sampleTree_root (fun _ => rfl)
      ⟨.inr rfl, by decide, by decide, by decide, by decide⟩ (by decide)
    exact absurd (hrec.long rfl) (by decide)

end RefMonitor
