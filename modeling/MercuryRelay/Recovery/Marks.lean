/-
  When the store is marked as truncated (lease_recovery.py, `RecoveryStore`).

  A store is marked for good once a row is dropped: what is dropped in memory
  only has expired, and is dropped again from the file.  A put that raises after
  its file is in place breaks this, since the file then has no more the row that
  the memory keeps.

  * `step_held`: the file accounts for the memory;
  * `put_evicts`: what every put leaves.
-/
import Mathlib.Tactic.Push
import MercuryRelay.Recovery.Puts
import MercuryRelay.Recovery.Truncation

set_option autoImplicit false

namespace MercuryRelay

open Python

namespace RecoveryStore

variable {depths : JsonDepths} {s t f : RecoveryStore} {now wall : ℚ} {a : StoreAct} {trace : List StoreAct}

/-! ## The flag -/

/-- A file that a new process finds marked from this reading on. -/
def Marked (f : RecoveryStore) (now : ℚ) : Prop := f.truncated = true ∨ ∃ r ∈ f.rows, r.expiresAt ≤ now

theorem Marked.mono {later : ℚ} (h : f.Marked now) (hle : now ≤ later) : f.Marked later := by
  rcases h with htrunc | ⟨r, hr, hexpired⟩
  · exact .inl htrunc
  · exact .inr ⟨r, hr, hexpired.trans hle⟩

/-- Rows within the limit are pruned by their time only. -/
theorem prune_marked (hlen : s.rows.length ≤ s.maxRows) : (s.prune wall).truncated = true ↔ s.Marked wall := by
  have hlive : (s.live wall).length ≤ s.maxRows := (length_live_le s wall).trans hlen
  have hflag : (s.prune wall).truncated = (s.truncated || (s.live wall).length != s.rows.length) := by
    show (s.truncated || (s.live wall).length != s.rows.length || decide (s.maxRows < (s.live wall).length)) = _
    rw [decide_eq_false (Nat.not_lt.2 hlive), Bool.or_false]
  rw [hflag, Bool.or_eq_true, bne_iff_ne, Marked]
  refine or_congr_right ?_
  have hall : (s.live wall).length = s.rows.length ↔ ∀ r ∈ s.rows, wall < r.expiresAt := by
    unfold live
    rw [List.length_filter_eq_length_iff]
    simp only [decide_eq_true_eq]
  rw [ne_eq, hall]
  push Not
  exact Iff.rfl

/-- A file that accounts for the memory: its rows, and its flag. -/
structure Backs (f s : RecoveryStore) (now : ℚ) : Prop where
  sound : SoundStore f
  maxRows : f.maxRows = s.maxRows
  fits : f.Fits
  marked : s.truncated = true → f.Marked now
  rows : ∀ r ∈ s.rows, r ∈ f.rows ∨ f.Marked now

/-- The file accounts for the memory, and the memory keeps the limits of a file. -/
structure Held (s : RecoveryStore) (now : ℚ) : Prop where
  capacity : s.rows.length ≤ s.maxRows
  fits : rendered s.revision = true → s.Fits
  empty : s.file = none → s.rows = [] ∧ s.truncated = false
  file : ∀ bytes ∈ s.file, ∃ f, bytes = raw f ∧ f.Backs s now

theorem Held.mono {later : ℚ} (h : s.Held now) (hle : now ≤ later) : s.Held later where
  capacity := h.capacity
  fits := h.fits
  empty := h.empty
  file bytes hbytes := by
    obtain ⟨f, hraw, hf⟩ := h.file bytes hbytes
    exact ⟨f, hraw, hf.sound, hf.maxRows, hf.fits, fun htrunc => (hf.marked htrunc).mono hle,
      fun r hr => (hf.rows r hr).imp_right (·.mono hle)⟩

/-- A store that differs in its faults only. -/
theorem Held.congr (h : s.Held now) (hrows : t.rows = s.rows) (hrevision : t.revision = s.revision)
    (htruncated : t.truncated = s.truncated) (hmax : t.maxRows = s.maxRows) (hfile : t.file = s.file) :
    t.Held now where
  capacity := by
    rw [hrows, hmax]
    exact h.capacity
  fits hshort := by
    rw [hrevision] at hshort
    have hlen : t.encode.length = s.encode.length := by
      rw [length_encode, length_encode, hrows, hrevision, htruncated]
    obtain ⟨h1, h2⟩ := h.fits hshort
    exact ⟨by rw [hrows, hmax]; exact h1, by rw [hlen]; exact h2⟩
  empty := by
    rw [hfile, hrows, htruncated]
    exact h.empty
  file bytes hbytes := by
    rw [hfile] at hbytes
    obtain ⟨f, hraw, hf⟩ := h.file bytes hbytes
    refine ⟨f, hraw, hf.sound, hf.maxRows.trans hmax.symm, hf.fits, ?_, ?_⟩
    · rw [htruncated]
      exact hf.marked
    · rw [hrows]
      exact hf.rows

/-- A store whose file is what it holds. -/
theorem held_written (hf : SoundStore f) (hfits : f.Fits) (hrows : t.rows = f.rows)
    (hrevision : t.revision = f.revision) (htruncated : t.truncated = f.truncated) (hmax : t.maxRows = f.maxRows)
    (hfile : t.file = some f.raw) : t.Held now where
  capacity := by
    rw [hrows, hmax]
    exact hfits.1
  fits _ := by
    have hlen : t.encode.length = f.encode.length := by
      rw [length_encode, length_encode, hrows, hrevision, htruncated]
    exact ⟨by rw [hrows, hmax]; exact hfits.1, by rw [hlen]; exact hfits.2⟩
  empty h := by
    rw [hfile] at h
    cases h
  file bytes hbytes := by
    rw [hfile] at hbytes
    cases hbytes
    refine ⟨f, rfl, hf, hmax.symm, hfits, fun h => .inl (htruncated ▸ h), fun r hr => .inl (hrows ▸ hr)⟩

/-- What is pruned from the memory is pruned from the file. -/
theorem Held.prune (h : s.Held now) (hle : now ≤ wall) : (s.prune wall).Held wall where
  capacity := length_prune_le s wall
  fits hshort := (prune_trimmed s wall).fits (h.fits hshort)
  empty hnone := by
    obtain ⟨hrows, htruncated⟩ := h.empty hnone
    have hunmarked : ¬ s.Marked wall := by
      rintro (htrunc | ⟨r, hr, -⟩)
      · rw [htruncated] at htrunc
        cases htrunc
      · rw [hrows] at hr
        cases hr
    rw [← prune_marked h.capacity, Bool.not_eq_true] at hunmarked
    refine ⟨List.eq_nil_of_subset_nil ?_, hunmarked⟩
    rw [← hrows]
    exact (prune_trimmed s wall).rows.subset
  file bytes hbytes := by
    obtain ⟨f, hraw, hf⟩ := h.file bytes hbytes
    refine ⟨f, hraw, hf.sound, hf.maxRows, hf.fits, fun htrunc => ?_, fun r hr => ?_⟩
    · rcases (prune_marked h.capacity).1 htrunc with hflag | ⟨r, hr, hexpired⟩
      · exact (hf.marked hflag).mono hle
      · rcases hf.rows r hr with hmem | hmarked
        · exact .inr ⟨r, hmem, hexpired⟩
        · exact hmarked.mono hle
    · exact (hf.rows r ((prune_trimmed s wall).rows.subset hr)).imp_right (·.mono hle)

theorem Held.without (h : s.Held now) (installation device : Str) : (s.without installation device).Held now where
  capacity := (List.length_filter_le _ _).trans h.capacity
  fits hshort := by
    have hsub : ((s.without installation device).rows).Sublist s.rows := List.filter_sublist
    have hsum : ((s.without installation device).rows.map fun r => r.toJson.textLength 1 1).sum ≤
        (s.rows.map fun r => r.toJson.textLength 1 1).sum := (hsub.map _).sum_le_sum fun _ _ => Nat.zero_le _
    have hlen := hsub.length_le
    have hs := (h.fits hshort).2
    have hrevision : (s.without installation device).revision = s.revision := rfl
    have hflag : (s.without installation device).truncated = s.truncated := rfl
    refine ⟨(List.length_filter_le _ _).trans h.capacity, ?_⟩
    rw [length_encode] at hs ⊢
    rw [hrevision, hflag]
    omega
  empty hnone := by
    obtain ⟨hrows, htruncated⟩ := h.empty hnone
    refine ⟨?_, htruncated⟩
    show s.rows.filter _ = []
    rw [hrows]
    rfl
  file bytes hbytes := by
    obtain ⟨f, hraw, hf⟩ := h.file bytes hbytes
    exact ⟨f, hraw, hf.sound, hf.maxRows, hf.fits, hf.marked, fun r hr => hf.rows r (List.mem_filter.1 hr).1⟩

/-- What keeps the limits is saved without its expired rows only. -/
theorem saving_prune_of_fits (h : s.Fits) (wall : ℚ) : s.saving wall = s.prune wall :=
  saving_of_fits ((prune_trimmed s wall).length_encode.trans h.2)

/-- **A step keeps the memory accounted for**, if its put does not raise after it has written. -/
theorem step_held (hs : SoundStore s) (h : s.Held now) (hread : 6 ≤ depths.read) (henabled : s.Enabled depths a)
    (ha : a.Observed s.ttlSeconds) (hordered : a.Ordered) (hclock : now ≤ a.first) (hwhole : s.Whole a) :
    (s.act a).Held a.last := by
  cases a with
  | put c scope binding event =>
    have hordered : c.Ordered := hordered
    have hclock : now ≤ c.start := hclock
    have hlast : c.start ≤ c.saved := hordered.stored.trans hordered.saved
    have hcases := put_cases s c scope binding event
    have hwhole : (s.put c scope binding event).1 = none →
      (s.put c scope binding event).2.2.file = s.file := hwhole
    simp only [act, StoreAct.last]
    generalize s.put c scope binding event = x at hcases hwhole ⊢
    cases hcases with
    | finished _ _ => exact (h.prune hclock).mono hlast
    | unrendered _ hlong =>
      have hpruned := (h.prune hclock).mono hlast
      refine ⟨hpruned.capacity, fun hshort => ?_, hpruned.empty, fun bytes hbytes => ?_⟩
      · have hshort : rendered (s.revision + 1) = true := hshort
        rw [hlong] at hshort
        cases hshort
      · obtain ⟨f, hraw, hf⟩ := hpruned.file bytes hbytes
        exact ⟨f, hraw, hf.sound, hf.maxRows, hf.fits, hf.marked, hf.rows⟩
    | stored _ hshort _ =>
      have hsound := (saving_trimmed _ c.saved).sound (adding_sound ha.put ha.clock hs)
      exact held_written hsound (saving_fits hshort _) rfl rfl rfl rfl rfl
    | failed _ _ _ => exact (h.mono (hclock.trans hlast)).congr rfl rfl rfl rfl (hwhole rfl)
  | prune wall => exact h.prune hclock
  | revoke wall installation device =>
    have hclock : now ≤ wall := hclock
    have hpruned := (h.without installation device).prune hclock
    show (s.revoke wall installation device).2.Held wall
    cases hshort : rendered s.revision with
    | true =>
      have hsaving := saving_prune_of_fits ((h.without installation device).fits hshort) wall
      rw [revoke_rendered hshort, hsaving, wrote]
      split
      · have hsound := (prune_trimmed _ wall).sound (without_sound hs installation device)
        exact held_written hsound (hpruned.fits hshort) rfl rfl rfl rfl rfl
      · exact hpruned.congr rfl rfl rfl rfl rfl
    | false =>
      rw [revoke_unrendered hshort]
      exact hpruned
  | restart wall loaded =>
    have hclock : now ≤ wall := hclock
    have hmax : loaded.maxRows = s.maxRows := henabled.maxRows
    have hfile : loaded.file = s.file := henabled.file
    show loaded.Held wall
    cases hcontent : s.file with
    | none =>
      obtain ⟨hrows, hrevision, htruncated⟩ := restarted_new henabled hcontent
      refine ⟨?_, fun _ => ⟨?_, ?_⟩, fun _ => ⟨hrows, htruncated⟩, fun bytes hbytes => ?_⟩
      · rw [hrows]
        exact Nat.zero_le _
      · rw [hrows]
        exact Nat.zero_le _
      · have hdigit : (intRepr 0).length = 1 := by decide
        rw [length_encode, hrows, hrevision, htruncated, hdigit]
        decide
      · rw [hfile, hcontent] at hbytes
        cases hbytes
    | some bytes =>
      obtain ⟨f, rfl, hf⟩ := h.file bytes hcontent
      obtain ⟨hrows, hrevision, htruncated⟩ := restarted_rows henabled hread hcontent hf.sound hf.maxRows
      have hmax' : loaded.maxRows = f.maxRows := hmax.trans hf.maxRows.symm
      have hpruned : (f.prune wall).Fits := (prune_trimmed f wall).fits hf.fits
      have hlen : loaded.encode.length = (f.prune wall).encode.length := by
        have hrev : (f.prune wall).revision = f.revision := rfl
        rw [length_encode, length_encode, hrows, hrevision, htruncated, hrev]
      refine ⟨?_, fun _ => ⟨?_, ?_⟩, fun hnone => ?_, fun bytes hbytes => ?_⟩
      · rw [hrows, hmax']
        exact hpruned.1
      · rw [hrows, hmax']
        exact hpruned.1
      · rw [hlen]
        exact hpruned.2
      · rw [hfile, hcontent] at hnone
        cases hnone
      · rw [hfile, hcontent] at hbytes
        cases hbytes
        refine ⟨f, rfl, hf.sound, hmax'.symm, hf.fits, fun htrunc => ?_, fun r hr => ?_⟩
        · rw [htruncated] at htrunc
          exact (prune_marked hf.fits.1).1 htrunc
        · rw [hrows] at hr
          exact .inl ((prune_trimmed f wall).rows.subset hr)

/-- **The flag is not taken back**, not by a new process either. -/
theorem step_truncated (h : s.Held now) (hread : 6 ≤ depths.read) (henabled : s.Enabled depths a)
    (hclock : now ≤ a.first) (htrunc : s.truncated = true) : (s.act a).truncated = true := by
  cases a with
  | put c scope binding event =>
    have hcases := put_cases s c scope binding event
    simp only [act]
    generalize s.put c scope binding event = x at hcases ⊢
    have hpruned := (prune_trimmed s c.start).truncated htrunc
    cases hcases with
    | finished _ _ | unrendered _ _ => exact hpruned
    | stored _ _ _ => exact (saving_trimmed (s.adding c (putKey scope binding event) event) c.saved).truncated hpruned
    | failed _ _ _ => exact htrunc
  | prune wall => exact (prune_trimmed s wall).truncated htrunc
  | revoke wall installation device => exact (revoke_trimmed s wall installation device).truncated htrunc
  | restart wall loaded =>
    show loaded.truncated = true
    cases hcontent : s.file with
    | none =>
      rw [(h.empty hcontent).2] at htrunc
      cases htrunc
    | some bytes =>
      obtain ⟨f, rfl, hf⟩ := h.file bytes hcontent
      rw [(restarted_rows henabled hread hcontent hf.sound hf.maxRows).2.2]
      exact (prune_marked hf.fits.1).2 ((hf.marked htrunc).mono hclock)

/-- **A step that drops a row marks the store.** -/
theorem drops_truncated (h : s.Held now) (hread : 6 ≤ depths.read) (henabled : s.Enabled depths a)
    (hclock : now ≤ a.first) (hdrops : s.Drops a) : (s.act a).truncated = true := by
  rcases hdrops with @⟨r, hr, htakes, hout⟩ | @⟨c, scope, binding, event, r, rfl, hr, hpruned, hout⟩ |
    @⟨c, scope, binding, event, revision, rfl, hopen, hdone, hout⟩ |
    @⟨wall, loaded, f, r, rfl, hfile, hf, hmax, hr, hout⟩
  · cases a with
    | put c scope binding event =>
      have hcases := put_cases s c scope binding event
      simp only [act] at hout ⊢
      generalize s.put c scope binding event = x at hcases hout ⊢
      have hpruned : (s.prune c.start).Accounted r := (prune_trimmed s c.start).accounted (.inl hr)
      cases hcases with
      | finished _ _ | unrendered _ _ => exact hpruned.resolve_left hout
      | stored _ _ _ =>
        have hadded : (s.adding c (putKey scope binding event) event).Accounted r := by
          rcases hpruned with hmem | htrunc
          · exact .inl (List.mem_append_left _ (List.mem_filter.2 ⟨hmem, decide_eq_true fun hkey => htakes hkey.symm⟩))
          · exact .inr htrunc
        exact ((saving_trimmed _ c.saved).accounted hadded).resolve_left hout
      | failed _ _ _ => exact absurd hr hout
    | prune wall =>
      have hpruned : (s.prune wall).Accounted r := (prune_trimmed s wall).accounted (.inl hr)
      exact hpruned.resolve_left hout
    | revoke wall installation device =>
      have hleft := accounted_without (.inl hr) htakes
      exact ((revoke_trimmed s wall installation device).accounted hleft).resolve_left hout
    | restart wall loaded =>
      have hout : r ∉ loaded.rows := hout
      show loaded.truncated = true
      cases hcontent : s.file with
      | none =>
        rw [(h.empty hcontent).1] at hr
        cases hr
      | some bytes =>
        obtain ⟨f, rfl, hf⟩ := h.file bytes hcontent
        obtain ⟨hrows, -, htruncated⟩ := restarted_rows henabled hread hcontent hf.sound hf.maxRows
        rw [hrows] at hout
        rw [htruncated]
        rcases hf.rows r hr with hmem | hmarked
        · exact ((prune_trimmed f wall).accounted (.inl hmem)).resolve_left hout
        · exact (prune_marked hf.fits.1).2 (hmarked.mono hclock)
  · have hcases := put_cases s c scope binding event
    simp only [act] at hout ⊢
    generalize s.put c scope binding event = x at hcases hout ⊢
    have hmarked : (s.prune c.start).truncated = true :=
      ((prune_trimmed s c.start).accounted (.inl hr)).resolve_left hpruned
    cases hcases with
    | finished _ _ | unrendered _ _ => exact hmarked
    | stored _ _ _ =>
      exact (saving_trimmed (s.adding c (putKey scope binding event) event) c.saved).truncated hmarked
    | failed _ _ _ => exact absurd hr hout
  · obtain ⟨-, -, -, hafter⟩ := put_stored hopen hdone
    simp only [act] at hout ⊢
    rw [hafter] at hout ⊢
    have hadded : (s.adding c (putKey scope binding event) event).Accounted
        (s.putRow c.stored (putKey scope binding event) event) := .inl (List.mem_append_right _ List.mem_cons_self)
    exact ((saving_trimmed _ c.saved).accounted hadded).resolve_left hout
  · show loaded.truncated = true
    obtain ⟨hrows, -, htruncated⟩ := restarted_rows henabled hread hfile hf hmax
    rw [hrows] at hout
    rw [htruncated]
    exact ((prune_trimmed f wall).accounted (.inl hr)).resolve_left hout

/-! ## Runs -/

/-- No put of the run raised after its file was in place. -/
def WholeRun (s : RecoveryStore) (trace : List StoreAct) : Prop :=
  ∀ pre a post, trace = pre ++ a :: post → (pre.foldl act s).Whole a

theorem WholeRun.tail (h : s.WholeRun (a :: trace)) : (s.act a).WholeRun trace := fun pre b post heq =>
  h (a :: pre) b post (by rw [heq]; rfl)

/-- A run keeps the memory accounted for, and the flag. -/
theorem timedRun_held {m m' : RecoveryStore × ℚ} (h : TimedRun depths m trace m') (hread : 6 ≤ depths.read)
    (hs : SoundStore m.1) (hfile : m.1.SoundFile) (hheld : m.1.Held m.2)
    (ha : ∀ a ∈ trace, a.Observed m.1.ttlSeconds) (hwhole : m.1.WholeRun trace) :
    m'.1.Held m'.2 ∧ (m.1.truncated = true → m'.1.truncated = true) := by
  induction h with
  | nil => exact ⟨hheld, id⟩
  | @cons m a _ trace m' hstep _ ih =>
    obtain ⟨hclock, hordered, henabled, rfl⟩ := hstep
    rw [List.forall_mem_cons] at ha
    obtain ⟨h1, h2⟩ := act_sound hs hfile hread henabled ha.1.sound
    have h3 := step_held hs hheld hread henabled ha.1 hordered hclock (hwhole [] a trace rfl)
    have httl := (act_config m.1 a henabled).2
    obtain ⟨h4, h5⟩ := ih h1 h2 h3 (by rw [httl]; exact ha.2) hwhole.tail
    exact ⟨h4, fun htrunc => h5 (step_truncated hheld hread henabled hclock htrunc)⟩

/-- **A run that drops a row ends with a marked store.** -/
theorem dropped_truncated {m m' : RecoveryStore × ℚ} {pre post : List StoreAct}
    (h : TimedRun depths m (pre ++ a :: post) m') (hread : 6 ≤ depths.read) (hs : SoundStore m.1)
    (hfile : m.1.SoundFile) (hheld : m.1.Held m.2) (ha : ∀ b ∈ pre ++ a :: post, b.Observed m.1.ttlSeconds)
    (hwhole : m.1.WholeRun (pre ++ a :: post)) (hdrops : (pre.foldl act m.1).Drops a) :
    m'.1.truncated = true := by
  obtain ⟨v, hpre, hrest⟩ := h.split
  have hv := timedRun_foldl hpre
  have hmem : ∀ b ∈ a :: post, b ∈ pre ++ a :: post := fun b hb => List.mem_append_right _ hb
  have hbefore : ∀ b ∈ pre, b.Observed m.1.ttlSeconds := fun b hb => ha b (List.mem_append_left _ hb)
  obtain ⟨h1, h2, h3, -⟩ := timedRun_sound hpre hread hs hfile hbefore
  obtain ⟨h4, -⟩ := timedRun_held hpre hread hs hfile hheld hbefore fun l b r heq =>
    hwhole l b (r ++ a :: post) (by rw [heq, List.append_assoc]; rfl)
  have hwhole' : v.1.WholeRun (a :: post) := by
    rw [hv]
    intro l b r heq
    have hb := hwhole (pre ++ l) b r (by rw [heq, List.append_assoc])
    rw [List.foldl_append] at hb
    exact hb
  rw [← hv] at hdrops
  cases hrest with
  | cons hstep hpost =>
    obtain ⟨hclock, hordered, henabled, rfl⟩ := hstep
    have hobserved : a.Observed v.1.ttlSeconds := by
      rw [h3]
      exact ha a (hmem a List.mem_cons_self)
    obtain ⟨h5, h6⟩ := act_sound h1 h2 hread henabled hobserved.sound
    have hposts : ∀ b ∈ post, b.Observed (v.1.act a).ttlSeconds := by
      intro b hb
      rw [(act_config v.1 a henabled).2, h3]
      exact ha b (hmem b (List.mem_cons_of_mem _ hb))
    have h7 := step_held h1 h4 hread henabled hobserved hordered hclock (hwhole' [] a post rfl)
    exact (timedRun_held hpost hread h5 h6 h7 hposts hwhole'.tail).2 (drops_truncated h4 hread henabled hclock hdrops)

/-- Nothing was ever stored. -/
structure New (s : RecoveryStore) : Prop where
  rows : s.rows = []
  revision : s.revision = 0
  truncated : s.truncated = false
  file : s.file = none
  capacity : 1 ≤ s.maxRows ∧ s.maxRows ≤ maxStoreRows

theorem New.sound (h : s.New) : SoundStore s where
  rows r hr := by
    rw [h.rows] at hr
    cases hr
  keyed := by
    rw [h.rows]
    exact List.nodup_nil
  revision := h.revision.ge
  capacity := h.capacity

theorem New.soundFile (h : s.New) : s.SoundFile := fun bytes hbytes => by
  rw [h.file] at hbytes
  cases hbytes

theorem New.held (h : s.New) (now : ℚ) : s.Held now where
  capacity := by
    rw [h.rows]
    exact Nat.zero_le _
  fits _ := by
    have hdigit : (intRepr 0).length = 1 := by decide
    refine ⟨?_, ?_⟩
    · rw [h.rows]
      exact Nat.zero_le _
    · rw [length_encode, h.rows, h.revision, h.truncated, hdigit]
      decide
  empty _ := ⟨h.rows, h.truncated⟩
  file bytes hbytes := by
    rw [h.file] at hbytes
    cases hbytes

/-- **What a put leaves.**  In every run whose clock does not go back, a put that stores its event leaves
    the newest unexpired rows of the other children in their order, and its own row last unless that has
    expired meanwhile; it writes what it leaves, within the limits; the store is marked if a row was ever
    dropped, provided that no put raised after its file was in place; and the revision was never assigned
    before. -/
theorem put_evicts {m : RecoveryStore × ℚ} {c : Readings} {scope : Scope} {binding : Binding} {event : TaskEvent}
    {revision : ℤ} (h : TimedRun depths (s, now) (trace ++ [.put c scope binding event]) m)
    (hread : 6 ≤ depths.read) (hs : s.New)
    (ha : ∀ a ∈ trace ++ [.put c scope binding event], a.Observed s.ttlSeconds)
    (hopen : (trace.foldl act s).finished c.start (putKey scope binding event) = false)
    (hdone : ((trace.foldl act s).put c scope binding event).1 = some revision) :
    (∃ n, m.1.rows = ((trace.foldl act s).others c.saved (putKey scope binding event)).drop n ++
      if c.saved < ((trace.foldl act s).putRow c.stored (putKey scope binding event) event).expiresAt then
        [(trace.foldl act s).putRow c.stored (putKey scope binding event) event] else []) ∧
    (m.1.file = some m.1.raw ∧ m.1.rows.length ≤ s.maxRows ∧ m.1.raw.length ≤ maxStoreBytes) ∧
    (s.WholeRun trace → (∃ pre a post, trace ++ [.put c scope binding event] = pre ++ a :: post ∧
      (pre.foldl act s).Drops a) → m.1.truncated = true) ∧
    ∀ pre a post earlier, trace = pre ++ a :: post → (pre.foldl act s).Assigns a earlier →
      earlier < revision ∧ projectionId earlier ≠ projectionId revision := by
  obtain ⟨v, hpre, hrest⟩ := h.split
  have hv : v.1 = trace.foldl act s := timedRun_foldl hpre
  have hbefore : ∀ a ∈ trace, a.Observed s.ttlSeconds := fun a h => ha a (List.mem_append_left _ h)
  obtain ⟨h1, h2, h3, h4⟩ := timedRun_sound hpre hread hs.sound hs.soundFile hbefore
  have hput : ObservedPut s.ttlSeconds c scope binding event :=
    ha _ (List.mem_append_right _ List.mem_cons_self)
  rw [hv] at h1 h2 h3 h4
  have hput' : ObservedPut (trace.foldl act s).ttlSeconds c scope binding event := by
    rw [h3]
    exact hput
  obtain ⟨hshort, hrevision, hwrite, hafter⟩ := put_stored hopen hdone
  have hend : m.1 = ((trace.foldl act s).put c scope binding event).2.2 := by
    have hfold := timedRun_foldl h
    rw [List.foldl_append] at hfold
    exact hfold
  have hordered : c.Ordered := by
    cases hrest with
    | cons hstep _ => exact hstep.2.1
  have hfits := @saving_fits ((trace.foldl act s).adding c (putKey scope binding event) event) hshort c.saved
  refine ⟨?_, ⟨?_, ?_, ?_⟩, ?_, ?_⟩
  · rw [hend, hafter]
    exact stored_rows hput' h1 hshort hordered
  · rw [hend, hafter]
    rfl
  · rw [hend, hafter]
    have hmax := (saving_trimmed ((trace.foldl act s).adding c (putKey scope binding event) event)
      c.saved).maxRows
    exact hfits.1.trans (hmax.trans h4).le
  · rw [hend, hafter]
    exact (length_raw _).trans hfits.2
  · rintro hwhole ⟨pre, a, post, heq, hdrops⟩
    have hall : s.WholeRun (trace ++ [.put c scope binding event]) := by
      intro l b r hsplit
      rcases List.eq_nil_or_concat r with rfl | ⟨r, last, rfl⟩
      · obtain ⟨rfl, hlast⟩ := List.append_inj' hsplit rfl
        obtain rfl := List.singleton_inj.1 hlast
        intro hnone
        rw [hdone] at hnone
        cases hnone
      · rw [List.concat_eq_append, ← List.cons_append, ← List.append_assoc] at hsplit
        exact hwhole l b r (List.append_inj' hsplit rfl).1
    rw [heq] at h hall ha
    exact dropped_truncated h hread hs.sound hs.soundFile (hs.held now) ha hall hdrops
  · rintro pre a post earlier rfl hassigns
    have hle := assigned_lt hpre hread hs.sound hs.soundFile hbefore hassigns
    rw [hv] at hle
    refine ⟨by omega, fun hsame => ?_⟩
    have heq := projectionId_injective hsame
    omega

/-! ## Examples -/

/-- The event of a child, as it is persisted. -/
def childStarted (child : Str) : TaskEvent where
  sessionId := lit "a"
  kind := lit "subagent.start"
  payload := [(lit "subagent_id", .str child)]
  recoveryRevision := 1
  recoveryBinding := some startedBinding
  durableSessionId := some (lit "s")
  profile := some (lit "default")

theorem childStarted_observed {ttl : ℚ} {c : Readings} {child : Str} (hchild : child.length ≤ 128)
    (hlegible : LegibleStr child) (hclock : Clock ttl c.stored) :
    ObservedPut ttl c startedScope startedBinding (childStarted child) := by
  have hnames : Named (lit "a") ∧ Named (lit "s") ∧ Named (lit "default") ∧ Named (lit "i") ∧ Named (lit "d") :=
    ⟨⟨by decide, by decide, by decide⟩, ⟨by decide, by decide, by decide⟩,
      ⟨by decide, by decide, by decide⟩, ⟨by decide, by decide, by decide⟩,
      ⟨by decide, by decide, by decide⟩⟩
  obtain ⟨ha, hs, hdefault, hi, hd⟩ := hnames
  refine ⟨⟨⟨hi, hd, 0, rfl, by decide, by decide⟩, ⟨ha, hs, hdefault, rfl⟩, rfl, rfl, rfl, rfl, ?_, ?_⟩,
    ?_, hclock⟩
  · show LegibleStr (lit "subagent.start")
    decide
  swap
  · show lit "subagent.start" ∈ RecoveryProjection.childKinds
    decide
  have hlongest : Dict.get textFields (lit "subagent_id") = some 128 := by decide
  refine ⟨List.nodup_singleton _, fun item hitem => ?_⟩
  obtain rfl := List.mem_singleton.1 hitem
  refine ⟨?_, hlegible⟩
  unfold validField
  dsimp only
  rw [hlongest, Option.any_some]
  exact decide_eq_true hchild

/-- A put of a child. -/
def childPutAt (c : Readings) (child : Str) : StoreAct := .put c startedScope startedBinding (childStarted child)

/-- A store whose rows last a second. -/
def briefStore : RecoveryStore := { ttlSeconds := 1 }

/-- A store whose rows last ten seconds, and whose second write raises at last. -/
def tornStore : RecoveryStore := { ttlSeconds := 10, faults := [none, some .directorySync] }

/-- The child `x` is stored, and again at 5, when the write raises; its first row is dropped at 12. -/
def tornPuts : List StoreAct := [childPutAt ⟨0, 0, 0⟩ (lit "x"), childPutAt ⟨5, 5, 5⟩ (lit "x"), .prune 12]

/-- What the file then has. -/
def tornFile : RecoveryStore :=
  (RecoveryStore.adding (tornStore.act (childPutAt ⟨0, 0, 0⟩ (lit "x"))) ⟨5, 5, 5⟩
    (putKey startedScope startedBinding (childStarted (lit "x"))) (childStarted (lit "x"))).saving 5

/-- What a new process loads at 12. -/
def tornLoaded : RecoveryStore :=
  { tornFile.prune 12 with
    faults := []
    file := some tornFile.raw }

/-- A new process starts at 12. -/
def tornActs : List StoreAct := tornPuts ++ [.restart 12 tornLoaded]

theorem briefStore_new : briefStore.New := ⟨rfl, rfl, rfl, rfl, by decide⟩

theorem tornStore_new : tornStore.New := ⟨rfl, rfl, rfl, rfl, by decide⟩

theorem childStarted_x {ttl : ℚ} {c : Readings} (hclock : Clock ttl c.stored) :
    ObservedPut ttl c startedScope startedBinding (childStarted (lit "x")) :=
  childStarted_observed (by decide) (by decide) hclock

/-- What the puts before the write that raises have come to. -/
theorem tornStore_checked : (Clock tornStore.ttlSeconds 0 ∧ Clock tornStore.ttlSeconds 5) ∧
    (tornStore.act (childPutAt ⟨0, 0, 0⟩ (lit "x"))).finished 5
      (putKey startedScope startedBinding (childStarted (lit "x"))) = false ∧
    rendered ((tornStore.act (childPutAt ⟨0, 0, 0⟩ (lit "x"))).revision + 1) = true ∧
    (tornStore.act (childPutAt ⟨0, 0, 0⟩ (lit "x"))).faults.headD none = some .directorySync ∧
    (tornPuts.foldl act tornStore).maxRows = 256 ∧ tornLoaded.maxRows = 256 ∧
    tornLoaded.ttlSeconds = (tornPuts.foldl act tornStore).ttlSeconds := by
  unfold Clock
  decide +kernel

theorem tornFile_rows : tornFile.rows.map (fun r => (write plainAscii r.event.toJson).length) = [346] ∧
    tornFile.revision = 2 ∧ tornFile.maxRows = 256 ∧ tornFile.encode.length ≤ maxStoreBytes := by
  decide +kernel

theorem prune_file (s : RecoveryStore) (wall : ℚ) : (s.act (.prune wall)).file = s.file := rfl

theorem childPut_file (s : RecoveryStore) (c : Readings) (child : Str) : (s.act (childPutAt c child)).file =
    (s.put c startedScope startedBinding (childStarted child)).2.2.file := rfl

/-- The write that raised has put its file in place. -/
theorem torn_file : (tornPuts.foldl act tornStore).file = some tornFile.raw := by
  obtain ⟨-, hopen, hshort, hwrite, -⟩ := tornStore_checked
  have hraised := put_failed (c := ⟨5, 5, 5⟩) hopen hshort hwrite
  have hrenamed : renamed (some .directorySync) = true := rfl
  rw [wrote, hwrite, if_pos hrenamed] at hraised
  rw [tornPuts, List.foldl_cons, List.foldl_cons, List.foldl_cons, List.foldl_nil, prune_file, childPut_file,
    hraised]
  rfl

theorem tornFile_sound : SoundStore tornFile := by
  obtain ⟨⟨hclock, hlater⟩, -⟩ := tornStore_checked
  have hfirst := (@act_sound ⟨9, 9⟩ _ (childPutAt ⟨0, 0, 0⟩ (lit "x")) tornStore_new.sound
    tornStore_new.soundFile (by decide) trivial
    (StoreAct.Observed.sound (a := childPutAt ⟨0, 0, 0⟩ (lit "x")) (childStarted_x hclock))).1
  have httl := (@act_config ⟨9, 9⟩ tornStore (childPutAt ⟨0, 0, 0⟩ (lit "x")) trivial).2
  have hclock' : Clock (tornStore.act (childPutAt ⟨0, 0, 0⟩ (lit "x"))).ttlSeconds 5 := by
    rw [httl]
    exact hlater
  have hput := @childStarted_x _ ⟨5, 5, 5⟩ hclock'
  exact (saving_trimmed _ 5).sound (adding_sound hput.put hput.clock hfirst)

theorem torn_restarted : Restarted ⟨9, 9⟩ (tornPuts.foldl act tornStore) 12 tornLoaded := by
  obtain ⟨hevents, hrevision, hmax, hlen⟩ := tornFile_rows
  have hsmall : ∀ r ∈ tornFile.rows, SmallEvent r.event := by
    intro r hr
    have hone : (write plainAscii r.event.toJson).length ∈ [346] := by
      rw [← hevents]
      exact List.mem_map_of_mem hr
    rw [SmallEvent, List.mem_singleton.1 hone]
    decide
  have hcount : tornFile.rows.length ≤ maxStoreRows := by
    have hlen := congrArg List.length hevents
    rw [List.length_map] at hlen
    rw [hlen]
    decide
  obtain ⟨-, -, -, -, hmax', hmax'', httl⟩ := tornStore_checked
  refine ⟨?_, fun r hr => ?_, torn_file.symm, hmax''.trans hmax'.symm, httl⟩
  · have himage : ∀ (s : RecoveryStore) (faults : List (Option WriteFault)) (file : Option Bytes),
        image { s with faults := faults, file := file } = image s := fun _ _ _ => rfl
    rw [torn_file, hmax', ← hmax, tornLoaded, himage]
    exact load_raw tornFile_sound (by rw [hrevision]; decide) hcount hsmall hlen (by decide) (by decide) 12
  · rw [tornLoaded] at hr
    dsimp only at hr
    have hmem : r ∈ tornFile.rows := (prune_trimmed tornFile 12).rows.subset hr
    obtain ⟨⟨_, _, _, _, _, _, _, hexpiry, _⟩, -⟩ := tornFile_sound.rows r hmem
    exact hexpiry

theorem timedRun_cons {m : RecoveryStore × ℚ} (hclock : now ≤ a.first) (hordered : a.Ordered)
    (henabled : s.Enabled depths a) (h : TimedRun depths (s.act a, a.last) trace m) :
    TimedRun depths (s, now) (a :: trace) m := .cons ⟨hclock, hordered, henabled, rfl⟩ h

theorem torn_run : TimedRun ⟨9, 9⟩ (tornStore, 0) (tornActs ++ [childPutAt ⟨13, 13, 13⟩ (lit "y")])
    ((tornActs ++ [childPutAt ⟨13, 13, 13⟩ (lit "y")]).foldl act tornStore, 13) := by
  have hstill : ∀ q : ℚ, Readings.Ordered ⟨q, q, q⟩ := fun q => ⟨le_rfl, le_rfl⟩
  have hclock : (0 : ℚ) ≤ 5 ∧ (5 : ℚ) ≤ 12 ∧ (12 : ℚ) ≤ 13 := by norm_num
  have hrestarted := torn_restarted
  simp only [tornActs, tornPuts, List.cons_append, List.nil_append, List.foldl_cons, List.foldl_nil] at hrestarted ⊢
  refine timedRun_cons le_rfl (hstill 0) trivial (timedRun_cons hclock.1 (hstill 5) trivial
    (timedRun_cons hclock.2.1 trivial trivial (timedRun_cons le_rfl trivial hrestarted
      (timedRun_cons hclock.2.2 (hstill 13) trivial .nil))))

/-- A row that expires while it is put is not last; and after a put that raised at last, a new process does
    not tell that a row was dropped. -/
theorem eviction_fails :
    (briefStore.New ∧ 0 < briefStore.ttlSeconds ∧ Readings.Ordered ⟨0, 0, 2⟩ ∧
      briefStore.finished 0 (putKey startedScope startedBinding (childStarted (lit "x"))) = false ∧
      (briefStore.put ⟨0, 0, 2⟩ startedScope startedBinding (childStarted (lit "x"))).1 = some 1 ∧
      (briefStore.put ⟨0, 0, 2⟩ startedScope startedBinding (childStarted (lit "x"))).2.2.rows = []) ∧
    (tornStore.New ∧ TimedRun ⟨9, 9⟩ (tornStore, 0) (tornActs ++ [childPutAt ⟨13, 13, 13⟩ (lit "y")])
        ((tornActs ++ [childPutAt ⟨13, 13, 13⟩ (lit "y")]).foldl act tornStore, 13) ∧
      ((tornPuts.take 2).foldl act tornStore).Drops (.prune 12) ∧
      (tornActs.foldl act tornStore).Assigns (childPutAt ⟨13, 13, 13⟩ (lit "y")) 3 ∧
      ((tornActs ++ [childPutAt ⟨13, 13, 13⟩ (lit "y")]).foldl act tornStore).truncated = false) := by
  refine ⟨⟨briefStore_new, ?_, ⟨le_rfl, ?_⟩, ?_, ?_, ?_⟩, tornStore_new, torn_run, ?_, ?_, ?_⟩
  · show (0 : ℚ) < 1
    norm_num
  · show (0 : ℚ) ≤ 2
    norm_num
  · decide
  · decide +kernel
  · refine List.length_eq_zero_iff.1 ?_
    decide +kernel
  · have hone : ((tornPuts.take 2).foldl act tornStore).rows.length = 1 := by decide +kernel
    have hnone : (((tornPuts.take 2).foldl act tornStore).act (.prune 12)).rows.length = 0 := by
      decide +kernel
    obtain ⟨r, hr⟩ := List.length_eq_one_iff.1 hone
    refine .held (r := r) ?_ id ?_
    · rw [hr]
      exact List.mem_cons_self
    · rw [List.length_eq_zero_iff.1 hnone]
      exact List.not_mem_nil
  · exact ⟨_, _, _, _, rfl, by decide +kernel, by decide +kernel⟩
  · decide +kernel

/-- A first put leaves its row, which is marked neither before nor after. -/
theorem put_evicts_first :
    (∃ n, (tornStore.act (childPutAt ⟨0, 0, 0⟩ (lit "x"))).rows =
      (tornStore.others 0 (putKey startedScope startedBinding (childStarted (lit "x")))).drop n ++
        if 0 < (tornStore.putRow 0 (putKey startedScope startedBinding (childStarted (lit "x")))
            (childStarted (lit "x"))).expiresAt then
          [tornStore.putRow 0 (putKey startedScope startedBinding (childStarted (lit "x"))) (childStarted (lit "x"))]
        else []) ∧
    (tornStore.act (childPutAt ⟨0, 0, 0⟩ (lit "x"))).rows.length = 1 := by
  have hclock : Clock tornStore.ttlSeconds 0 := by
    unfold Clock
    decide +kernel
  have hrun : TimedRun ⟨9, 9⟩ (tornStore, 0) ([] ++ [childPutAt ⟨0, 0, 0⟩ (lit "x")])
      (tornStore.act (childPutAt ⟨0, 0, 0⟩ (lit "x")), 0) :=
    .cons ⟨le_rfl, ⟨le_rfl, le_rfl⟩, trivial, rfl⟩ .nil
  refine ⟨?_, by decide +kernel⟩
  refine (@put_evicts _ _ _ _ _ _ _ _ _ 1 hrun (by decide) tornStore_new ?_ ?_ ?_).1
  · intro a h
    obtain rfl := List.mem_singleton.1 h
    exact childStarted_x hclock
  · decide
  · decide +kernel

end RecoveryStore

end MercuryRelay
