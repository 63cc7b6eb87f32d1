/-
  Acts on the store with the readings of their clock, and the revisions that
  puts assign (lease_recovery.py, `RecoveryStore`).

  * `timedRun_sound`: the rows stay sound, in the memory and in the file;
  * `assigned_lt`: a revision that was assigned is never assigned again, not by
    a new process either.
-/
import MercuryRelay.Recovery.Readings

set_option autoImplicit false

namespace MercuryRelay

open Python

namespace StoreAct

/-- The clock does not go back in an act. -/
def Ordered : StoreAct → Prop
  | put c _ _ _ => c.Ordered
  | _ => True

/-- A put is of an event that was observed. -/
def Observed (ttl : ℚ) : StoreAct → Prop
  | put c scope binding event => RecoveryStore.ObservedPut ttl c scope binding event
  | _ => True

theorem Observed.sound {ttl : ℚ} {a : StoreAct} (h : a.Observed ttl) : a.Sound ttl := by
  cases a with
  | put c scope binding event => exact ⟨h.put, h.clock⟩
  | _ => trivial

end StoreAct

namespace RecoveryStore

/-- The put stores its event, under this revision. -/
def Assigns (s : RecoveryStore) (a : StoreAct) (revision : ℤ) : Prop :=
  ∃ c scope binding event, a = .put c scope binding event ∧
    s.finished c.start (putKey scope binding event) = false ∧
    (s.put c scope binding event).1 = some revision

/-- A row is dropped: one that was held and is not taken, one that a put prunes before it takes the row
    of its child, one that is put, or one that is loaded. -/
inductive Drops (s : RecoveryStore) (a : StoreAct) : Prop
  | held {r} (hr : r ∈ s.rows) (htakes : ¬ a.Takes r) (hout : r ∉ (s.act a).rows)
  | pruned {c scope binding event r} (ha : a = .put c scope binding event) (hr : r ∈ s.rows)
      (hpruned : r ∉ (s.prune c.start).rows) (hout : r ∉ (s.act a).rows)
  | stored {c scope binding event revision} (ha : a = .put c scope binding event)
      (hopen : s.finished c.start (putKey scope binding event) = false)
      (hdone : (s.put c scope binding event).1 = some revision)
      (hout : s.putRow c.stored (putKey scope binding event) event ∉ (s.act a).rows)
  | loaded {wall loaded f r} (ha : a = .restart wall loaded) (hfile : s.file = some (raw f)) (hf : SoundStore f)
      (hmax : f.maxRows = s.maxRows) (hr : r ∈ f.rows) (hout : r ∉ loaded.rows)

/-- A put that raised has not changed the file. -/
def Whole (s : RecoveryStore) : StoreAct → Prop
  | .put c scope binding event => (s.put c scope binding event).1 = none →
      (s.put c scope binding event).2.2.file = s.file
  | _ => True

/-- A step at a time: the store, and the last reading. -/
def TimedStep (depths : JsonDepths) (m : RecoveryStore × ℚ) (a : StoreAct) (m' : RecoveryStore × ℚ) : Prop :=
  m.2 ≤ a.first ∧ a.Ordered ∧ m.1.Enabled depths a ∧ m' = (m.1.act a, a.last)

abbrev TimedRun (depths : JsonDepths) : RecoveryStore × ℚ → List StoreAct → RecoveryStore × ℚ → Prop :=
  Transition.Run (TimedStep depths)

variable {depths : JsonDepths} {s t f : RecoveryStore} {now wall : ℚ} {a : StoreAct} {trace : List StoreAct}

theorem timedRun_foldl {m m' : RecoveryStore × ℚ} (h : TimedRun depths m trace m') :
    m'.1 = trace.foldl act m.1 := by
  induction h with
  | nil => rfl
  | cons hstep _ ih =>
    obtain ⟨-, -, -, rfl⟩ := hstep
    exact ih

/-! ## What an act saves -/

/-- What an act saves keeps the limits of a file, and has a revision that can be written. -/
theorem saves_fits (h : s.saves a = some f) : rendered f.revision = true ∧ s.revision ≤ f.revision ∧ f.Fits := by
  cases a with
  | put c scope binding event =>
    obtain ⟨-, hshort, rfl⟩ := of_saves_put h
    have htrim := saving_trimmed (s.adding c (putKey scope binding event) event) c.saved
    have hrevision : (s.adding c (putKey scope binding event) event).revision = s.revision + 1 := rfl
    rw [htrim.revision, hrevision]
    exact ⟨hshort, Int.le_add_one (Int.le_refl _), saving_fits hshort _⟩
  | revoke wall installation device =>
    obtain ⟨hshort, rfl⟩ := of_saves_revoke h
    have hfits := @saving_fits (s.without installation device) hshort wall
    have hrevision : (s.without installation device).revision = s.revision := rfl
    rw [(saving_trimmed (s.without installation device) wall).revision, hrevision]
    exact ⟨hshort, Int.le_refl _, hfits⟩
  | prune wall => cases h
  | restart wall loaded => cases h

/-- The file is what it was, or what the act saves. -/
theorem act_file_cases (h : s.Enabled depths a) :
    (s.act a).file = s.file ∨ ∃ f, (s.act a).file = some f.raw ∧ s.saves a = some f := by
  rw [act_file s a h]
  cases hwrites : s.writes a with
  | none => exact .inl rfl
  | some f => exact .inr ⟨f, rfl, saves_of_writes hwrites⟩

/-! ## Revisions -/

/-- A revision that was assigned is not assigned again: the store and its file are past it. -/
structure Past (revision : ℤ) (s : RecoveryStore) : Prop where
  memory : revision ≤ s.revision
  file : ∃ f, s.file = some f.raw ∧ SoundStore f ∧ f.maxRows = s.maxRows ∧ revision ≤ f.revision

/-- A revision goes back with a new process only, to what the file has. -/
theorem act_revision (h : s.Enabled depths a) :
    s.revision ≤ (s.act a).revision ∨ ∃ wall loaded, a = .restart wall loaded := by
  cases a with
  | put c scope binding event => exact .inl (put_revision s c scope binding event).1
  | prune wall => exact .inl (Int.le_refl _)
  | revoke wall installation device => exact .inl (revoke_trimmed s wall installation device).revision.ge
  | restart wall loaded => exact .inr ⟨wall, loaded, rfl⟩

theorem act_past {revision : ℤ} (hs : SoundStore s) (hread : 6 ≤ depths.read) (h : s.Enabled depths a)
    (ha : a.Observed s.ttlSeconds) (hpast : Past revision s) : Past revision (s.act a) := by
  have hmax := (act_config s a h).1
  constructor
  · rcases act_revision h with hle | ⟨wall, loaded, rfl⟩
    · exact hpast.memory.trans hle
    · obtain ⟨f, hfile, hf, hfmax, hle⟩ := hpast.file
      show revision ≤ loaded.revision
      rw [(restarted_rows h hread hfile hf hfmax).2.1]
      exact hle
  · rw [hmax]
    rcases act_file_cases h with hsame | ⟨f, hwrote, hsaves⟩
    · rw [hsame]
      exact hpast.file
    · exact ⟨f, hwrote, saves_sound hs ha.sound hsaves, (saves_trimmed hsaves).1,
        hpast.memory.trans (saves_fits hsaves).2.1⟩

/-- An assigned revision is that of the store and of its file from then on. -/
theorem assigned_past {revision : ℤ} (hs : SoundStore s) (ha : a.Observed s.ttlSeconds)
    (h : s.Assigns a revision) : s.revision < revision ∧ Past revision (s.act a) := by
  obtain ⟨c, scope, binding, event, rfl, hopen, hdone⟩ := h
  obtain ⟨hshort, rfl, -, hafter⟩ := put_stored hopen hdone
  have htrim := saving_trimmed (s.adding c (putKey scope binding event) event) c.saved
  have hrevision : ((s.adding c (putKey scope binding event) event).saving c.saved).revision = s.revision + 1 :=
    htrim.revision
  refine ⟨Int.lt_succ _, ?_⟩
  simp only [act]
  rw [hafter]
  exact ⟨hrevision.ge, _, rfl, htrim.sound (adding_sound ha.put ha.clock hs), rfl, hrevision.ge⟩

/-- What holds of the store in every run of observed acts. -/
theorem timedRun_sound {m m' : RecoveryStore × ℚ} (h : TimedRun depths m trace m') (hread : 6 ≤ depths.read)
    (hs : SoundStore m.1) (hfile : m.1.SoundFile) (ha : ∀ a ∈ trace, a.Observed m.1.ttlSeconds) :
    SoundStore m'.1 ∧ m'.1.SoundFile ∧ m'.1.ttlSeconds = m.1.ttlSeconds ∧ m'.1.maxRows = m.1.maxRows := by
  induction h with
  | nil => exact ⟨hs, hfile, rfl, rfl⟩
  | @cons m a _ trace m' hstep _ ih =>
    obtain ⟨-, -, henabled, rfl⟩ := hstep
    rw [List.forall_mem_cons] at ha
    obtain ⟨h1, h2⟩ := act_sound hs hfile hread henabled ha.1.sound
    obtain ⟨hmax, httl⟩ := act_config m.1 a henabled
    obtain ⟨h3, h4, h5, h6⟩ := ih h1 h2 (by rw [httl]; exact ha.2)
    exact ⟨h3, h4, h5.trans httl, h6.trans hmax⟩

theorem timedRun_past {m m' : RecoveryStore × ℚ} {revision : ℤ} (h : TimedRun depths m trace m')
    (hread : 6 ≤ depths.read) (hs : SoundStore m.1) (hfile : m.1.SoundFile)
    (ha : ∀ a ∈ trace, a.Observed m.1.ttlSeconds) (hpast : Past revision m.1) : Past revision m'.1 := by
  induction h with
  | nil => exact hpast
  | @cons m a _ trace m' hstep _ ih =>
    obtain ⟨-, -, henabled, rfl⟩ := hstep
    rw [List.forall_mem_cons] at ha
    obtain ⟨h1, h2⟩ := act_sound hs hfile hread henabled ha.1.sound
    have httl := (act_config m.1 a henabled).2
    exact ih h1 h2 (by rw [httl]; exact ha.2) (act_past hs hread henabled ha.1 hpast)

/-- **The revisions that a run assigns are past.** -/
theorem assigned_lt {m m' : RecoveryStore × ℚ} {pre post : List StoreAct} {revision : ℤ}
    (h : TimedRun depths m (pre ++ a :: post) m') (hread : 6 ≤ depths.read) (hs : SoundStore m.1)
    (hfile : m.1.SoundFile) (ha : ∀ b ∈ pre ++ a :: post, b.Observed m.1.ttlSeconds)
    (hassigns : (pre.foldl act m.1).Assigns a revision) : revision ≤ m'.1.revision := by
  obtain ⟨v, hpre, hrest⟩ := h.split
  have hv := timedRun_foldl hpre
  rw [← hv] at hassigns
  have hmem : ∀ b ∈ a :: post, b ∈ pre ++ a :: post := fun b hb => List.mem_append_right _ hb
  obtain ⟨h1, h2, h3, -⟩ := timedRun_sound hpre hread hs hfile fun b hb => ha b (List.mem_append_left _ hb)
  cases hrest with
  | cons hstep hpost =>
    obtain ⟨-, -, henabled, rfl⟩ := hstep
    have hobserved : a.Observed v.1.ttlSeconds := by
      rw [h3]
      exact ha a (hmem a List.mem_cons_self)
    obtain ⟨h4, h5⟩ := act_sound h1 h2 hread henabled hobserved.sound
    have hposts : ∀ b ∈ post, b.Observed (v.1.act a).ttlSeconds := by
      intro b hb
      rw [(act_config v.1 a henabled).2, h3]
      exact ha b (hmem b (List.mem_cons_of_mem _ hb))
    exact (timedRun_past hpost hread h4 h5 hposts (assigned_past h1 hobserved hassigns).2).memory

end RecoveryStore

end MercuryRelay
