import RefMonitor.Races
import RefMonitor.Password

/-!
# Races between password changes

`do_change_password` compares the old password under the read lock and installs the new digest
under the write lock, after another hash computation. A second call that compares in between
installs its digest over the new one.

Results:
1. `ComparedCurrent.step`: while a digest is installed only with no other call between its
   comparison and its installation, the old password of a call that has compared is current.
2. `install_over_old_digest`: every run.
-/

namespace RefMonitor
open CString Run

variable {δ ι : Type} [DecidableEq ι]

/-! ## The comparison and the installation -/

/-- The step with which `do_change_password(old, new)` comes to return zero is taken while the
stored digest is that of `old`, and leaves that of `new`. -/
def InstallsOverOld (env : Env) (callers : ι → Caller δ) (p : Calls δ ι) (mv : Move δ ι) : Prop :=
  ∀ oldPassword newPassword p', (callers mv.who).call = .changePassword oldPassword newPassword →
    p.phase mv.who ≠ .returned 0 → p.step env callers mv = .ok p' →
    p'.phase mv.who = .returned 0 →
    HashMatches env p.state oldPassword ∧ HashMatches env p'.state newPassword

/-- No call sets the password to one with this digest. -/
def NeverSet (env : Env) (callers : ι → Caller δ) (password : List UInt8) : Prop :=
  ∀ k oldPassword newPassword, (callers k).call = .changePassword oldPassword newPassword →
    hashPlaintext env newPassword ≠ hashPlaintext env password

/-- Of the calls that give one and the same old password, at most one has returned zero, unless a
call sets that password again. -/
def OneSucceeds (env : Env) (callers : ι → Caller δ) (p : Calls δ ι) : Prop :=
  ∀ i j old old' new new', (callers i).call = .changePassword old new →
    (callers j).call = .changePassword old' new' → cstr old = cstr old' →
    NeverSet env callers old → p.phase i = .returned 0 → p.phase j = .returned 0 → i = j

/-- The section that installs a digest is taken while no other call stands between its comparison
and its installation. -/
def InstallsAlone (p : Calls δ ι) (mv : Move δ ι) : Prop :=
  ∀ tmp, p.phase mv.who = .install tmp → ∀ j, j ≠ mv.who → ∀ tmp', p.phase j ≠ .install tmp'

/-- Where `do_change_password` can stand; once it has compared, its old password is current. -/
def CallPhase.Changing (env : Env) (s : State) (oldPassword newPassword : List UInt8) :
    CallPhase δ → Prop
  | .start | .returned _ => True
  | .install tmp => HashMatches env s oldPassword ∧ hashPlaintext env newPassword = some tmp
  | _ => False

theorem CallPhase.Changing.congr {env : Env} {s s' : State} {old new : List UInt8}
    {phase : CallPhase δ} (h : phase.Changing env s old new)
    (hstate : s'.pwd = s.pwd ∨ ∀ tmp, phase ≠ .install tmp) : phase.Changing env s' old new := by
  cases phase with
  | start => trivial
  | returned ret => trivial
  | install tmp =>
    rcases hstate with hpwd | hne
    · obtain ⟨⟨digest, hold, hsame⟩, hnew⟩ := h
      exact ⟨⟨digest, hold, by rw [hpwd]; exact hsame⟩, hnew⟩
    · exact absurd rfl (hne tmp)
  | _ => exact h.elim

/-- A step of `do_change_password` that does not install leads on to the installation or to an
error. -/
theorem CallPhase.Changing.next {env : Env} {c : Caller δ} {s : State} {old new : List UInt8}
    {phase next : CallPhase δ} (h : phase.Changing env s old new)
    (hcall : c.call = .changePassword old new) (hleads : Leads env c s phase next)
    (hne : ∀ tmp, phase ≠ .install tmp) :
    next.Changing env s old new ∧ (next = .returned 0 → phase = .returned 0) := by
  cases hleads with
  | failed hret => exact ⟨trivial, fun h0 => absurd (CallPhase.returned.inj h0) hret⟩
  | compared hc hold hnew =>
    rw [hcall] at hc
    obtain ⟨rfl, rfl⟩ := Call.changePassword.inj hc
    exact ⟨⟨hold, hnew⟩, fun h0 => by cases h0⟩
  | toState hc => exact absurd (hcall.symm.trans hc) (by simp)
  | toPath hc => exact absurd (hcall.symm.trans hc) (by simp)
  | toAdd hc => exact absurd (hcall.symm.trans hc) (by simp)
  | toDelete hc => exact absurd (hcall.symm.trans hc) (by simp)
  | @installed tmp => exact absurd rfl (hne tmp)
  | done => exact ⟨trivial, fun h0 => h0⟩
  | _ => exact h.elim

/-- Only `do_change_password` installs a digest. -/
theorem Leads.install {env : Env} {c : Caller δ} {s : State} {phase : CallPhase δ}
    {tmp : List UInt8} (h : Leads env c s phase (.install tmp)) :
    ∃ old new, c.call = .changePassword old new := by
  cases h with
  | compared hcall _ _ => exact ⟨_, _, hcall⟩

theorem hashPlaintext_terminated {env : Env} {text digest : List UInt8}
    (h : hashPlaintext env text = some digest) : digest = cstr digest ++ [0] := by
  unfold hashPlaintext at h
  split at h
  · cases h
  · obtain rfl := Option.some.inj h
    rw [cstr_hash]

/-- The stored digest is that of one password only, up to collisions. -/
theorem HashMatches.same {env : Env} {s : State} {x y : List UInt8} (hx : HashMatches env s x)
    (hy : HashMatches env s y) : hashPlaintext env x = hashPlaintext env y := by
  obtain ⟨digest, hd, hs⟩ := hx
  obtain ⟨digest', hd', hs'⟩ := hy
  rw [hd, hd', hashPlaintext_terminated hd, hashPlaintext_terminated hd', hs, hs']

theorem HashMatches.congr {env : Env} {s s' : State} {x y : List UInt8} (h : HashMatches env s x)
    (hpwd : s'.pwd = s.pwd) (hxy : CString.cstr x = CString.cstr y) : HashMatches env s' y := by
  obtain ⟨digest, hd, hs⟩ := h
  refine ⟨digest, ?_, by rw [hpwd]; exact hs⟩
  rw [← hashPlaintext_cstr, ← hxy, hashPlaintext_cstr]
  exact hd

/-- What the comparisons made so far are worth. -/
structure ComparedCurrent (env : Env) (callers : ι → Caller δ) (p : Calls δ ι) : Prop where
  changing : ∀ {j old new}, (callers j).call = .changePassword old new →
    (p.phase j).Changing env p.state old new
  installing : ∀ {j tmp}, p.phase j = .install tmp →
    ∃ old new, (callers j).call = .changePassword old new
  spent : ∀ {j old new}, (callers j).call = .changePassword old new → p.phase j = .returned 0 →
    NeverSet env callers old → ¬ HashMatches env p.state old
  once : OneSucceeds env callers p

/-- The call that installs gave the current password, and its own is current then. -/
theorem ComparedCurrent.install {env : Env} {callers : ι → Caller δ} {p p' : Calls δ ι}
    {mv : Move δ ι} {tmp : List UInt8} (h : ComparedCurrent env callers p)
    (hphase : p.phase mv.who = .install tmp) (hstep : p.step env callers mv = .ok p') :
    ∃ old new, (callers mv.who).call = .changePassword old new ∧ HashMatches env p.state old ∧
      HashMatches env p'.state new := by
  obtain ⟨hstate, -, -⟩ := phase_step hstep
  obtain ⟨old, new, hcall⟩ := h.installing hphase
  have hchanging := h.changing hcall
  rw [hphase] at hchanging
  obtain ⟨hold, hnew⟩ := hchanging
  refine ⟨old, new, hcall, hold, tmp, hnew, ?_⟩
  rw [hstate, hphase, advance]
  exact (cstr_stored (strlen_hashPlaintext hnew) _).symm

/-- An installation: no other call is about to install, and those that have returned zero with
this old password have not done so. -/
theorem ComparedCurrent.step_install {env : Env} {callers : ι → Caller δ} {p p' : Calls δ ι}
    {mv : Move δ ι} {tmp : List UInt8} (h : ComparedCurrent env callers p)
    (halone : InstallsAlone p mv) (hphase : p.phase mv.who = .install tmp)
    (hstep : p.step env callers mv = .ok p') : ComparedCurrent env callers p' := by
  obtain ⟨old, new, hcall, hold, hnew⟩ := h.install hphase hstep
  obtain ⟨-, hwho, hothers⟩ := phase_step hstep
  rw [hphase, advance] at hwho
  -- a call that has succeeded and does not move has another old password
  have hspent : ∀ {j old' new'}, j ≠ mv.who → (callers j).call = .changePassword old' new' →
      p'.phase j = .returned 0 → NeverSet env callers old' → cstr old ≠ cstr old' := by
    intro j old' new' hj hcall' hret hnever hsame
    rw [hothers j hj] at hret
    exact h.spent hcall' hret hnever (hold.congr rfl hsame)
  refine ⟨fun {j o n} hj => ?_, fun {j t} hj => ?_, fun {j o n} hj _ hnever hmatch => ?_,
    fun i j o o' n n' hi hj hsame hnever hri hrj => ?_⟩
  · rcases phase_cases hstep j with ⟨rfl, -⟩ | ⟨hother, hkept⟩
    · rw [hwho]
      trivial
    · rw [hkept]
      exact (h.changing hj).congr (.inr (halone tmp hphase j hother))
  · rcases phase_cases hstep j with ⟨rfl, -⟩ | ⟨-, hkept⟩
    · rw [hwho] at hj
      cases hj
    · rw [hkept] at hj
      exact h.installing hj
  · exact hnever mv.who old new hcall (hnew.same hmatch)
  · have hnever' : NeverSet env callers o' := by
      intro k ok nk hk
      rw [← hashPlaintext_cstr env o', ← hsame, hashPlaintext_cstr]
      exact hnever k ok nk hk
    rcases phase_cases hstep i with ⟨rfl, -⟩ | ⟨hiother, hikept⟩
    · by_contra hne
      obtain ⟨rfl, -⟩ := Call.changePassword.inj (hi.symm.trans hcall)
      exact hspent (fun h0 => hne h0.symm) hj hrj hnever' hsame
    · rcases phase_cases hstep j with ⟨rfl, -⟩ | ⟨-, hjkept⟩
      · obtain ⟨rfl, -⟩ := Call.changePassword.inj (hj.symm.trans hcall)
        exact absurd hsame.symm (hspent hiother hi hri hnever)
      · rw [hikept] at hri
        rw [hjkept] at hrj
        exact h.once i j o o' n n' hi hj hsame hnever hri hrj

/-- Any other step leaves the digest alone. -/
theorem ComparedCurrent.step_other {env : Env} {callers : ι → Caller δ} {p p' : Calls δ ι}
    {mv : Move δ ι} (h : ComparedCurrent env callers p)
    (hphase : ∀ tmp, p.phase mv.who ≠ .install tmp) (hstep : p.step env callers mv = .ok p') :
    ComparedCurrent env callers p' := by
  obtain ⟨hstate, -, -⟩ := phase_step hstep
  have hpwd : p'.state.pwd = p.state.pwd := by
    rw [hstate]
    rcases @advance_pwd δ env (callers mv.who) mv.vfs p.state (p.phase mv.who) with
      hsame | ⟨tmp, hinstall, -⟩
    · exact hsame
    · exact absurd hinstall (hphase tmp)
  -- no call comes to return zero
  have hret : ∀ {j old new}, (callers j).call = .changePassword old new →
      p'.phase j = .returned 0 → p.phase j = .returned 0 := by
    intro j old new hcall hj
    rcases phase_cases hstep j with ⟨rfl, hnext⟩ | ⟨-, hkept⟩
    · rw [hnext] at hj
      exact ((h.changing hcall).next hcall (advance_leads mv.vfs _) hphase).2 hj
    · rw [hkept] at hj
      exact hj
  refine ⟨fun {j o n} hj => ?_, fun {j t} hj => ?_, fun {j o n} hj hr hnever hmatch => ?_,
    fun i j o o' n n' hi hj hsame hnever hri hrj => ?_⟩
  · rcases phase_cases hstep j with ⟨rfl, hnext⟩ | ⟨-, hkept⟩
    · rw [hnext]
      exact ((h.changing hj).next hj (advance_leads mv.vfs _) hphase).1.congr (.inl hpwd)
    · rw [hkept]
      exact (h.changing hj).congr (.inl hpwd)
  · rcases phase_cases hstep j with ⟨rfl, hnext⟩ | ⟨-, hkept⟩
    · rw [hnext] at hj
      exact Leads.install (hj ▸ advance_leads mv.vfs _)
    · rw [hkept] at hj
      exact h.installing hj
  · exact h.spent hj (hret hj hr) hnever (hmatch.congr hpwd.symm rfl)
  · exact h.once i j o o' n n' hi hj hsame hnever (hret hi hri) (hret hj hrj)

theorem ComparedCurrent.step {env : Env} {callers : ι → Caller δ} {p p' : Calls δ ι}
    {mv : Move δ ι} (h : ComparedCurrent env callers p) (halone : InstallsAlone p mv)
    (hstep : p.step env callers mv = .ok p') : ComparedCurrent env callers p' := by
  by_cases hphase : ∃ tmp, p.phase mv.who = .install tmp
  · obtain ⟨tmp, hphase⟩ := hphase
    exact h.step_install halone hphase hstep
  · exact h.step_other (fun tmp h0 => hphase ⟨tmp, h0⟩) hstep

theorem ComparedCurrent.installsOverOld {env : Env} {callers : ι → Caller δ} {p : Calls δ ι}
    {mv : Move δ ι} (h : ComparedCurrent env callers p) : InstallsOverOld env callers p mv := by
  intro old new p' hcall hbefore hstep hret
  by_cases hphase : ∃ tmp, p.phase mv.who = .install tmp
  · obtain ⟨tmp, hphase⟩ := hphase
    obtain ⟨old', new', hcall', hold, hnew⟩ := h.install hphase hstep
    rw [hcall] at hcall'
    obtain ⟨rfl, rfl⟩ := Call.changePassword.inj hcall'
    exact ⟨hold, hnew⟩
  · rw [(phase_step hstep).2.1] at hret
    have hreturned := ((h.changing hcall).next hcall (advance_leads mv.vfs _)
      fun tmp h0 => hphase ⟨tmp, h0⟩).2 hret
    exact absurd hreturned hbefore

/-- Calls of any kind and any number of them, in any order of their steps: as long as a digest is
installed only while no other call stands between its comparison and its installation, every call
of `do_change_password` that returns zero replaces the digest of its old password by that of its
new one, and of the calls that give the same old password at most one returns zero, unless a call
sets that password again. -/
theorem install_over_old_digest (env : Env) (callers : ι → Caller δ) (s : State)
    (moves : List (Move δ ι))
    (hmoves : EveryStep (Calls.step env callers) InstallsAlone (Calls.idle s) moves) :
    EveryStep (Calls.step env callers) (InstallsOverOld env callers) (Calls.idle s) moves ∧
    EveryState (Calls.step env callers) (OneSucceeds env callers) (Calls.idle s) moves := by
  have hstart : ComparedCurrent env callers (Calls.idle s) := by
    refine ⟨fun _ => trivial, fun {j tmp} hj => ?_, fun {j old new} _ hj => ?_,
      fun i j old old' new new' _ _ _ _ hi => ?_⟩
    · cases hj
    · cases hj
    · cases hi
  exact ⟨EveryStep.of_inv (fun h _ => h.installsOverOld) (fun h hc hs => h.step hc hs) hstart
      hmoves,
    EveryState.of_inv (fun h => h.once) (fun h hc hs => h.step hc hs) hstart hmoves⟩

/-! Two calls replace the password by different ones. -/

def twoChanges : Bool → Caller Nat :=
  sampleCallers (.changePassword samplePassword (ascii "first new one"))
    (.changePassword samplePassword (ascii "second new one"))

/-- Both calls get past the comparison as long as the old password is current. -/
theorem twoChanges_compare {s : State} (hpwd : s.pwd = sampleDigest) (i : Bool) :
    ∃ tmp, hashPlaintext sampleModule.env
        (cond i (ascii "second new one") (ascii "first new one")) = some tmp ∧
      advance sampleModule.env (twoChanges i) sampleTree.vfs s .start = (.install tmp, s) := by
  have hcheck := checkPwd_eq_zero.mpr (sample_password_matches hpwd)
  cases i with
  | false =>
    refine ⟨_, rfl, ?_⟩
    dsimp only [advance, beginCall, twoChanges, sampleCallers, cond_false]
    rw [if_neg (not_not.mpr sample_admin), if_neg (by decide), if_neg (by decide),
      if_neg (not_not.mpr hcheck)]
    rfl
  | true =>
    refine ⟨_, rfl, ?_⟩
    dsimp only [advance, beginCall, twoChanges, sampleCallers, cond_true]
    rw [if_neg (not_not.mpr sample_admin), if_neg (by decide), if_neg (by decide),
      if_neg (not_not.mpr hcheck)]
    rfl

/-- Neither call sets the old password again. -/
theorem twoChanges_neverSet : NeverSet sampleModule.env twoChanges samplePassword := by
  intro i old new hcall
  cases i with
  | false =>
    rw [← (Call.changePassword.inj hcall).2]
    decide +kernel
  | true =>
    rw [← (Call.changePassword.inj hcall).2]
    decide +kernel

/-- The second call installs its digest over that of the first, and both return zero. -/
theorem concurrent_changes_both_succeed :
    ¬ EveryStep (Calls.step sampleModule.env twoChanges)
        (InstallsOverOld sampleModule.env twoChanges) (Calls.idle sampleRecOn)
        (sampleMoves [false, true, false, true]) ∧
    ¬ EveryState (Calls.step sampleModule.env twoChanges)
        (OneSucceeds sampleModule.env twoChanges) (Calls.idle sampleRecOn)
        (sampleMoves [false, true, false, true]) := by
  obtain ⟨tmp, htmp, hfirst⟩ := twoChanges_compare (s := sampleRecOn) rfl false
  obtain ⟨tmp', htmp', hsecond⟩ := twoChanges_compare (s := sampleRecOn) rfl true
  rw [idle_two]
  refine ⟨fun h => ?_, fun h => ?_⟩
  · have h1 := h.2 _ (step_first hfirst)
    have h2 := h1.2 _ (step_second hsecond)
    have h3 := h2.2 _ (step_first rfl)
    have hold := (h3.1 _ _ _ rfl (fun h0 => by cases h0) (step_second rfl) rfl).1
    -- the stored digest is that of the first new password by then
    have hnew : HashMatches sampleModule.env
        { sampleRecOn with
          pwd := strncpy (memsetZero sampleRecOn.pwd 0 digestSize) tmp digestSize }
        (ascii "first new one") :=
      ⟨tmp, htmp, (cstr_stored (strlen_hashPlaintext htmp) _).symm⟩
    exact twoChanges_neverSet false _ _ rfl (hnew.same hold)
  · have h1 := h.2 _ (step_first hfirst)
    have h2 := h1.2 _ (step_second hsecond)
    have h3 := h2.2 _ (step_first rfl)
    have h4 := h3.2 _ (step_second rfl)
    exact absurd (h4 false true _ _ _ _ rfl rfl rfl twoChanges_neverSet rfl rfl) (by decide)

/-- The first call installs its digest before the second one compares. -/
theorem install_over_old_digest_sample :
    EveryStep (Calls.step sampleModule.env twoChanges)
      (InstallsOverOld sampleModule.env twoChanges) (Calls.idle sampleRecOn)
      (sampleMoves [false, false, true]) ∧
    EveryState (Calls.step sampleModule.env twoChanges)
      (OneSucceeds sampleModule.env twoChanges) (Calls.idle sampleRecOn)
      (sampleMoves [false, false, true]) := by
  obtain ⟨tmp, -, hfirst⟩ := twoChanges_compare (s := sampleRecOn) rfl false
  refine install_over_old_digest _ _ _ _ ?_
  rw [idle_two]
  refine .cons (fun _ h => by cases h) (step_first hfirst) ?_
  refine .cons (fun _ _ i hi => ?_) (step_first rfl) ?_
  · cases i with
    | false => exact absurd rfl hi
    | true => exact fun _ h => by cases h
  exact ⟨fun _ h => (by cases h), fun _ _ => trivial⟩

end RefMonitor
