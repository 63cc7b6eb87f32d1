/-
  What leases ask of the recovery store (lease_recovery.py, `RecoveryStore`,
  and its callers in `RecoveryProjection` and admission.py).

  Events are put, devices revoked, snapshots read, and a new process loads the
  file.  The rows of the memory and of the file stay sound.

  * `act_sound`: what an act keeps;
  * `restarted_rows`: what a new process holds.
-/
import MercuryRelay.Lib.Run
import MercuryRelay.Recovery.Payload
import MercuryRelay.Recovery.Saving

set_option autoImplicit false

namespace MercuryRelay

open Python

/-- What happens to the store. -/
inductive StoreAct where
  | put (c : Readings) (scope : Scope) (binding : Binding) (event : TaskEvent)
  | revoke (wall : ℚ) (installation device : Str)
  /-- `snapshot`, which drops what has expired. -/
  | prune (wall : ℚ)
  /-- A new process holds what it has loaded. -/
  | restart (wall : ℚ) (loaded : RecoveryStore)

/-- `t` is what a new process holds after it has loaded the file of `s`. -/
structure Restarted (depths : JsonDepths) (s : RecoveryStore) (wall : ℚ) (t : RecoveryStore) : Prop where
  load : load depths wall s.maxRows s.file = some (image t)
  values : ∀ r ∈ t.rows, Float64.IsValue r.expiresAt
  file : t.file = s.file
  maxRows : t.maxRows = s.maxRows
  ttl : t.ttlSeconds = s.ttlSeconds

/-- A live binding, whose names are read as they were written. -/
structure SoundBinding (b : Binding) : Prop where
  runtime : Named b.runtimeSessionId
  durable : Named b.durableSessionId
  profile : Named b.profile
  live : b.live = true

/-- A put of a bound event. -/
structure SoundPut (scope : Scope) (binding : Binding) (event : TaskEvent) : Prop where
  admitted : scope.Admitted
  proven : SoundBinding binding
  session : event.sessionId = binding.runtimeSessionId
  bound : event.recoveryBinding = some binding
  durable : event.durableSessionId = some binding.durableSessionId
  profile : event.profile = some binding.profile
  kind : LegibleStr event.kind
  payload : SoundPayload event.payload

/-- The clock reads a number, and rows expire. -/
def Clock (ttl wall : ℚ) : Prop := (Float64.ofRat (floatSum wall ttl)).isFinite = true

/-- A put is sound, and the clock reads a number. -/
def StoreAct.Sound (ttl : ℚ) : StoreAct → Prop
  | .put c scope binding event => SoundPut scope binding event ∧ Clock ttl c.stored
  | _ => True

/-- An event is put. -/
def StoreAct.IsPut : StoreAct → Prop
  | .put _ _ _ _ => True
  | _ => False

/-- The first reading of the clock in an act. -/
def StoreAct.first : StoreAct → ℚ
  | .put c _ _ _ => c.start
  | .revoke wall _ _ | .prune wall | .restart wall _ => wall

/-- The last reading. -/
def StoreAct.last : StoreAct → ℚ
  | .put c _ _ _ => c.saved
  | .revoke wall _ _ | .prune wall | .restart wall _ => wall

/-- An act that takes a row out: it puts another of its child, or revokes its device. -/
def StoreAct.Takes (r : RecoveryRow) : StoreAct → Prop
  | .put _ scope binding event => RecoveryStore.putKey scope binding event = r.key
  | .revoke _ installation device => RecoveryStore.ofDevice installation device r = true
  | _ => False

namespace RecoveryStore

variable {depths : JsonDepths} {s t u : RecoveryStore} {wall : ℚ} {a : StoreAct} {c : Readings} {scope : Scope}
  {binding : Binding} {event : TaskEvent} {installation device : Str}

/-- The rows that are left when a device is revoked. -/
def without (s : RecoveryStore) (installation device : Str) : RecoveryStore :=
  { s with rows := s.rows.filter fun r => !ofDevice installation device r }

theorem revoke_rendered (h : rendered s.revision = true) (wall : ℚ) (installation device : Str) :
    s.revoke wall installation device = ((s.faults.headD none).isNone,
      { (s.without installation device).saving wall with
        faults := s.faults.tail
        file := s.wrote ((s.without installation device).saving wall).raw }) :=
  save_eq (s := s.without installation device) h wall

theorem revoke_unrendered (h : rendered s.revision = false) (wall : ℚ) (installation device : Str) :
    s.revoke wall installation device = (false, (s.without installation device).prune wall) :=
  save_unrendered (s := s.without installation device) h wall

/-- A revocation drops the rows of the device, and what a save drops. -/
theorem revoke_trimmed (s : RecoveryStore) (wall : ℚ) (installation device : Str) :
    Trimmed (s.without installation device) (s.revoke wall installation device).2 := by
  cases hshort : rendered s.revision with
  | true =>
    have htrim := saving_trimmed (s.without installation device) wall
    rw [revoke_rendered hshort]
    exact ⟨htrim.rows, htrim.revision, htrim.maxRows, htrim.ttl, htrim.truncated, htrim.whole⟩
  | false =>
    rw [revoke_unrendered hshort]
    exact prune_trimmed _ wall

def act (s : RecoveryStore) : StoreAct → RecoveryStore
  | .put c scope binding event => (s.put c scope binding event).2.2
  | .revoke wall installation device => (s.revoke wall installation device).2
  | .prune wall => s.prune wall
  | .restart _ loaded => loaded

/-- A process can only hold what it has loaded. -/
def Enabled (depths : JsonDepths) (s : RecoveryStore) : StoreAct → Prop
  | .restart wall loaded => Restarted depths s wall loaded
  | _ => True

/-- The store that an act saves. -/
def saves (s : RecoveryStore) : StoreAct → Option RecoveryStore
  | .put c scope binding event =>
    if s.finished c.start (putKey scope binding event) ∨ ¬ rendered (s.revision + 1) then none
    else some ((s.adding c (putKey scope binding event) event).saving c.saved)
  | .revoke wall installation device =>
    if rendered s.revision then some ((s.without installation device).saving wall) else none
  | _ => none

/-- The store whose file an act puts in place. -/
def writes (s : RecoveryStore) (a : StoreAct) : Option RecoveryStore :=
  if renamed (s.faults.headD none) then s.saves a else none

/-- The acts of a store one after another. -/
abbrev Acts (depths : JsonDepths) : RecoveryStore → List StoreAct → RecoveryStore → Prop :=
  Transition.Run fun s a t => s.Enabled depths a ∧ s.act a = t

/-! ## What an act leaves -/

theorem saves_put (hopen : s.finished c.start (putKey scope binding event) = false)
    (hshort : rendered (s.revision + 1) = true) : s.saves (.put c scope binding event) =
      some ((s.adding c (putKey scope binding event) event).saving c.saved) := by
  simp only [saves]
  rw [if_neg]
  rw [hopen, hshort]
  simp

theorem saves_put_none (h : s.finished c.start (putKey scope binding event) = true ∨ rendered (s.revision + 1) = false) :
    s.saves (.put c scope binding event) = none := by
  simp only [saves]
  rw [if_pos]
  rcases h with h | h
  · exact .inl h
  · exact .inr (by rw [h]; decide)

theorem of_saves_put (h : s.saves (.put c scope binding event) = some t) :
    s.finished c.start (putKey scope binding event) = false ∧ rendered (s.revision + 1) = true ∧
      t = (s.adding c (putKey scope binding event) event).saving c.saved := by
  simp only [saves] at h
  split at h
  · cases h
  · rename_i hput
    rw [not_or, Bool.not_eq_true, not_not] at hput
    exact ⟨hput.1, hput.2, (Option.some.inj h).symm⟩

theorem of_saves_revoke (h : s.saves (.revoke wall installation device) = some t) :
    rendered s.revision = true ∧ t = (s.without installation device).saving wall := by
  simp only [saves] at h
  split at h
  · rename_i hshort
    exact ⟨hshort, (Option.some.inj h).symm⟩
  · cases h

/-- What an act leaves in the file. -/
theorem act_file (s : RecoveryStore) (a : StoreAct) (h : s.Enabled depths a) :
    (s.act a).file = ((s.writes a).map (·.raw)).or s.file := by
  unfold writes
  cases a with
  | put c scope binding event =>
    have hcases := put_cases s c scope binding event
    simp only [act]
    generalize s.put c scope binding event = r at hcases ⊢
    cases hcases with
    | finished hprior hterminal =>
      have hfinished : s.finished c.start (putKey scope binding event) = true := by
        rw [finished, hprior]
        exact hterminal
      rw [saves_put_none (.inl hfinished)]
      cases renamed (s.faults.headD none) <;> rfl
    | unrendered _ hlong =>
      rw [saves_put_none (.inr hlong)]
      cases renamed (s.faults.headD none) <;> rfl
    | stored hopen hshort hwrite =>
      rw [saves_put hopen hshort, hwrite]
      rfl
    | failed hopen hshort hwrite =>
      rw [saves_put hopen hshort]
      unfold wrote
      cases renamed (s.faults.headD none) <;> rfl
  | revoke wall installation device =>
    simp only [act, saves]
    cases hshort : rendered s.revision with
    | true =>
      rw [revoke_rendered hshort, if_pos rfl]
      unfold wrote
      cases renamed (s.faults.headD none) <;> rfl
    | false =>
      rw [revoke_unrendered hshort, if_neg Bool.false_ne_true]
      cases renamed (s.faults.headD none) <;> rfl
  | prune wall => cases renamed (s.faults.headD none) <;> rfl
  | restart wall loaded =>
    have hfile := h.file
    cases renamed (s.faults.headD none) <;> exact hfile

theorem act_config (s : RecoveryStore) (a : StoreAct) (h : s.Enabled depths a) :
    (s.act a).maxRows = s.maxRows ∧ (s.act a).ttlSeconds = s.ttlSeconds := by
  cases a with
  | put c scope binding event =>
    have hcases := put_cases s c scope binding event
    simp only [act]
    generalize s.put c scope binding event = r at hcases ⊢
    cases hcases with
    | finished _ _ | unrendered _ _ | failed _ _ _ => exact ⟨rfl, rfl⟩
    | stored _ _ _ =>
      have htrim := saving_trimmed (s.adding c (putKey scope binding event) event) c.saved
      exact ⟨htrim.maxRows, htrim.ttl⟩
  | revoke wall installation device =>
    have htrim := revoke_trimmed s wall installation device
    exact ⟨htrim.maxRows, htrim.ttl⟩
  | prune wall => exact ⟨rfl, rfl⟩
  | restart wall loaded => exact ⟨h.maxRows, h.ttl⟩

end RecoveryStore

/-! ## Rows are read back -/

theorem intRepr_injective {m n : ℤ} (h : intRepr m = intRepr n) : m = n := by
  have hdigit : ∀ k c, c ∈ natDigits k → 48 ≤ c := fun k c hc => (natDigits_digits k c hc).1
  cases m with
  | ofNat m =>
    cases n with
    | ofNat n => exact congrArg Int.ofNat (natDigits_injective h)
    | negSucc n =>
      have h : natDigits m = 45 :: natDigits (n + 1) := h
      have hminus := hdigit m 45 (by rw [h]; exact List.mem_cons_self)
      omega
  | negSucc m =>
    cases n with
    | ofNat n =>
      have h : 45 :: natDigits (m + 1) = natDigits n := h
      have hminus := hdigit n 45 (by rw [← h]; exact List.mem_cons_self)
      omega
    | negSucc n =>
      have h : 45 :: natDigits (m + 1) = 45 :: natDigits (n + 1) := h
      have hsame := natDigits_injective (List.cons.inj h).2
      rw [Nat.succ.inj hsame]

theorem optionalInt_injective {m n : Option ℤ} (h : optionalInt m = optionalInt n) : m = n := by
  cases m <;> cases n <;> cases h <;> rfl

theorem optionalStr_injective {m n : Option Str} (h : optionalStr m = optionalStr n) : m = n := by
  cases m <;> cases n <;> cases h <;> rfl

theorem RowKey.toJson_injective {k l : RowKey} (h : k.toJson = l.toJson) : k = l := by
  obtain ⟨⟨installation, device, epoch⟩, profile, durable, child⟩ := k
  obtain ⟨⟨installation', device', epoch'⟩, profile', durable', child'⟩ := l
  simp only [RowKey.toJson, Json.arr.injEq, List.cons.injEq, Json.str.injEq, and_true] at h
  obtain ⟨rfl, rfl, hepoch, rfl, rfl, hchild⟩ := h
  rw [optionalInt_injective hepoch, optionalStr_injective hchild]

theorem Binding.toJson_injective {b c : Binding} (h : b.toJson = c.toJson) : b = c := by
  obtain ⟨runtime, durable, profile, live⟩ := b
  obtain ⟨runtime', durable', profile', live'⟩ := c
  simp only [Binding.toJson, Json.obj.injEq, List.cons.injEq, Prod.mk.injEq, Json.str.injEq, Json.bool.injEq,
    true_and, and_true] at h
  obtain ⟨rfl, rfl, rfl, rfl⟩ := h
  rfl

theorem projectionId_injective {m n : ℤ} (h : projectionId m = projectionId n) : m = n :=
  intRepr_injective (List.append_cancel_left (Json.str.inj h))

/-- How many parameters a frame has. -/
def paramCount : Json → ℕ
  | .obj [_, _, (_, .obj params)] => params.length
  | _ => 0

/-- A stored event is the only one that is written as it is. -/
theorem event_of_toJson {e : TaskEvent} {session kind durable profile : Str} {payload : Payload} {revision : ℤ}
    (h : e.toJson = (storedEvent session kind payload revision durable profile).toJson) :
    e = storedEvent session kind payload revision durable profile := by
  obtain ⟨sessionId, kind', payload', recoveryRevision, recoveryBinding, durableSessionId, profile', relayEventId⟩ := e
  rw [storedEvent_toJson] at h
  have hlen := congrArg paramCount h
  simp only [paramCount, TaskEvent.toJson, storedParams, List.length_append, List.length_cons, List.length_nil,
    Option.length_toList, Option.isSome_map] at hlen
  have hall : recoveryBinding.isSome = true ∧ durableSessionId.isSome = true ∧ profile'.isSome = true ∧
      relayEventId.isSome = true := by
    revert hlen
    generalize recoveryBinding.isSome = a, durableSessionId.isSome = b, profile'.isSome = c, relayEventId.isSome = d
    revert a b c d
    decide
  obtain ⟨h1, h2, h3, h4⟩ := hall
  obtain ⟨b, rfl⟩ := Option.isSome_iff_exists.1 h1
  obtain ⟨durable', rfl⟩ := Option.isSome_iff_exists.1 h2
  obtain ⟨profile'', rfl⟩ := Option.isSome_iff_exists.1 h3
  obtain ⟨revision', rfl⟩ := Option.isSome_iff_exists.1 h4
  simp only [TaskEvent.toJson, storedParams, Option.map_some, Option.toList_some, List.cons_append, List.nil_append,
    Json.obj.injEq, List.cons.injEq, Prod.mk.injEq, Json.str.injEq, Json.int.injEq, true_and, and_true] at h
  obtain ⟨rfl, rfl, rfl, rfl, hbinding, rfl, rfl, hid⟩ := h
  rw [Binding.toJson_injective hbinding, projectionId_injective hid]
  rfl

/-- **A sound row is read back as it was written.** -/
theorem SoundRow.of_toJson {r r' : RecoveryRow} (hr : SoundRow r) (hvalue : Float64.IsValue r'.expiresAt)
    (h : r'.toJson = r.toJson) : r' = r := by
  cases hr with
  | @mk scope session durable profile kind payload revision expiresAt hscope hsession hdurable hprofile hkind
      hpayload hrevision hexpiry hfinite =>
    obtain ⟨key, expiresAt', event⟩ := r'
    simp only [RecoveryRow.toJson, Json.obj.injEq, List.cons.injEq, Prod.mk.injEq, true_and, and_true] at h
    obtain ⟨hkey, hexpires, hevent⟩ := h
    have hfloat : Float64.ofRat expiresAt' = Float64.ofRat expiresAt := Json.float.inj hexpires
    have hsame : expiresAt' = expiresAt :=
      (hvalue.2.symm.trans (congrArg Float64.value hfloat)).trans hexpiry.2
    rw [RowKey.toJson_injective hkey, hsame, event_of_toJson hevent]

theorem rows_of_toJson {rows rows' : List RecoveryRow} (hrows : ∀ r ∈ rows, SoundRow r)
    (hvalues : ∀ r ∈ rows', Float64.IsValue r.expiresAt) (h : rows'.map (·.toJson) = rows.map (·.toJson)) :
    rows' = rows := by
  induction rows generalizing rows' with
  | nil => exact List.map_eq_nil_iff.1 h
  | cons r rows ih =>
    cases rows' with
    | nil => cases h
    | cons r' rows' =>
      obtain ⟨hhead, htail⟩ := List.cons.inj h
      rw [List.forall_mem_cons] at hrows hvalues
      rw [hrows.1.of_toJson hvalues.1 hhead, ih hrows.2 hvalues.2 htail]

namespace RecoveryStore

variable {depths : JsonDepths} {s t u : RecoveryStore} {wall : ℚ} {a : StoreAct} {c : Readings} {scope : Scope}
  {binding : Binding} {event : TaskEvent}

/-! ## Sound acts -/

theorem Trimmed.sound (h : Trimmed s t) (hs : SoundStore s) : SoundStore t where
  rows r hr := by
    rw [h.revision]
    exact hs.rows r (h.rows.subset hr)
  keyed := hs.keyed.sublist (h.rows.map _)
  revision := h.revision ▸ hs.revision
  capacity := h.maxRows ▸ hs.capacity

/-- A store that differs in what is on disk only. -/
theorem sound_congr (hs : SoundStore s) (hrows : t.rows = s.rows) (hrevision : t.revision = s.revision)
    (hmax : t.maxRows = s.maxRows) : SoundStore t where
  rows := by rw [hrows, hrevision]; exact hs.rows
  keyed := by rw [hrows]; exact hs.keyed
  revision := hrevision ▸ hs.revision
  capacity := hmax ▸ hs.capacity

theorem without_sound (hs : SoundStore s) (installation device : Str) :
    SoundStore (s.without installation device) where
  rows r hr := hs.rows r (List.mem_filter.1 hr).1
  keyed := hs.keyed.sublist (List.filter_sublist.map _)
  revision := hs.revision
  capacity := hs.capacity

theorem putRow_sound (h : SoundPut scope binding event) (hclock : Clock s.ttlSeconds wall) (hs : SoundStore s) :
    SoundRow (s.putRow wall (putKey scope binding event) event) := by
  obtain ⟨hscope, hbinding, hsession, hbound, hdurable, hprofile, hkind, hpayload⟩ := h
  obtain ⟨hruntime, hdurableName, hprofileName, hlive⟩ := hbinding
  obtain ⟨runtime, durable, profile, live⟩ := binding
  obtain ⟨sessionId, kind, payload, recoveryRevision, recoveryBinding, durableSessionId, profile', relayEventId⟩ := event
  dsimp only at hsession hbound hdurable hprofile hkind hpayload hruntime hdurableName hprofileName hlive
  subst hsession hbound hdurable hprofile hlive
  exact .mk hscope hruntime hdurableName hprofileName hkind hpayload (Int.add_nonneg hs.revision (by decide))
    (isValue_floatSum _ _) hclock

theorem adding_sound (h : SoundPut scope binding event) (hclock : Clock s.ttlSeconds c.stored) (hs : SoundStore s) :
    SoundStore (s.adding c (putKey scope binding event) event) := by
  have hpruned := (prune_trimmed s c.start).sound hs
  have hrevision : (s.prune c.start).revision = s.revision := rfl
  constructor
  · intro r hr
    rcases List.mem_append.1 hr with hr | hr
    · obtain ⟨hsound, hle⟩ := hpruned.rows r (List.mem_filter.1 hr).1
      refine ⟨hsound, ?_⟩
      show r.event.recoveryRevision ≤ s.revision + 1
      omega
    · rw [List.mem_singleton.1 hr]
      exact ⟨putRow_sound h hclock hs, Int.le_refl _⟩
  · show (((s.prune c.start).rows.filter (·.key ≠ putKey scope binding event) ++
      [s.putRow c.stored (putKey scope binding event) event]).map (·.key)).Nodup
    rw [List.map_append, List.nodup_append]
    refine ⟨hpruned.keyed.sublist (List.filter_sublist.map _), by simp, ?_⟩
    rintro k hk l hl rfl
    obtain ⟨r, hr, rfl⟩ := List.mem_map.1 hk
    have hne : r.key ≠ putKey scope binding event := of_decide_eq_true (List.mem_filter.1 hr).2
    exact hne (List.mem_singleton.1 hl)
  · exact Int.add_nonneg hs.revision (by decide)
  · exact hs.capacity

/-- What a sound act saves is sound. -/
theorem saves_sound (hs : SoundStore s) (ha : a.Sound s.ttlSeconds) (h : s.saves a = some t) : SoundStore t := by
  cases a with
  | put c scope binding event =>
    obtain ⟨-, -, rfl⟩ := of_saves_put h
    exact (saving_trimmed _ c.saved).sound (adding_sound ha.1 ha.2 hs)
  | revoke wall installation device =>
    obtain ⟨-, rfl⟩ := of_saves_revoke h
    exact (saving_trimmed _ wall).sound (without_sound hs installation device)
  | prune wall => cases h
  | restart wall loaded => cases h

theorem saves_trimmed (h : s.saves a = some t) : t.maxRows = s.maxRows ∧ t.ttlSeconds = s.ttlSeconds ∧
    t.rows.length ≤ s.maxRows := by
  cases a with
  | put c scope binding event =>
    obtain ⟨-, -, rfl⟩ := of_saves_put h
    have htrim := saving_trimmed (s.adding c (putKey scope binding event) event) c.saved
    exact ⟨htrim.maxRows, htrim.ttl, length_saving_le _ c.saved⟩
  | revoke wall installation device =>
    obtain ⟨-, rfl⟩ := of_saves_revoke h
    have htrim := saving_trimmed (s.without installation device) wall
    exact ⟨htrim.maxRows, htrim.ttl, length_saving_le _ wall⟩
  | prune wall => cases h
  | restart wall loaded => cases h

theorem saves_of_writes (h : s.writes a = some t) : s.saves a = some t := by
  unfold writes at h
  split at h
  · exact h
  · cases h

/-- A file that was written by a sound store with the same limits. -/
def SoundFile (s : RecoveryStore) : Prop :=
  ∀ bytes ∈ s.file, ∃ f, bytes = raw f ∧ SoundStore f ∧ f.maxRows = s.maxRows

/-- **What a new process holds** is what was written, less what has expired. -/
theorem restarted_rows {f : RecoveryStore} (h : Restarted depths s wall t) (hread : 6 ≤ depths.read)
    (hfile : s.file = some f.raw) (hf : SoundStore f) (hmax : f.maxRows = s.maxRows) :
    t.rows = (f.prune wall).rows ∧ t.revision = f.revision ∧ t.truncated = (f.prune wall).truncated := by
  have hload := h.load
  rw [hfile] at hload
  obtain ⟨-, -, hrevision⟩ := load_revision hload
  have himage := image_of_load hf hrevision hread hload
  rw [← hmax, prune_image fun r hr => (hf.rows r hr).1] at himage
  obtain ⟨hrows, hrev, htruncated⟩ := LoadedStore.mk.inj himage
  have hsound : ∀ r ∈ (f.prune wall).rows, SoundRow r := fun r hr =>
    (hf.rows r ((prune_trimmed f wall).rows.subset hr)).1
  exact ⟨rows_of_toJson hsound h.values hrows, hrev, htruncated⟩

theorem restarted_new (h : Restarted depths s wall t) (hfile : s.file = none) :
    t.rows = [] ∧ t.revision = 0 ∧ t.truncated = false := by
  have hload := h.load
  rw [hfile] at hload
  obtain ⟨hrows, hrev, htruncated⟩ := LoadedStore.mk.inj (Option.some.inj hload)
  exact ⟨List.map_eq_nil_iff.1 hrows.symm, hrev.symm, htruncated.symm⟩

theorem restarted_sound (h : Restarted depths s wall t) (hread : 6 ≤ depths.read) (hs : SoundStore s)
    (hfile : s.SoundFile) : SoundStore t := by
  cases hcontent : s.file with
  | none =>
    obtain ⟨hrows, hrev, -⟩ := restarted_new h hcontent
    refine ⟨?_, ?_, ?_, ?_⟩
    · rw [hrows]
      exact fun r hr => absurd hr List.not_mem_nil
    · rw [hrows]
      exact List.nodup_nil
    · rw [hrev]
    · rw [h.maxRows]
      exact hs.capacity
  | some bytes =>
    obtain ⟨f, rfl, hf, hmax⟩ := hfile bytes hcontent
    obtain ⟨hrows, hrev, -⟩ := restarted_rows h hread hcontent hf hmax
    have hpruned := (prune_trimmed f wall).sound hf
    exact sound_congr hpruned hrows hrev (h.maxRows.trans hmax.symm)

/-- **An act keeps the rows sound**, those of the memory and those of the file. -/
theorem act_sound (hs : SoundStore s) (hfile : s.SoundFile) (hread : 6 ≤ depths.read) (h : s.Enabled depths a)
    (ha : a.Sound s.ttlSeconds) : SoundStore (s.act a) ∧ (s.act a).SoundFile := by
  constructor
  · cases a with
    | put c scope binding event =>
      have hcases := put_cases s c scope binding event
      simp only [act]
      generalize s.put c scope binding event = r at hcases ⊢
      have hpruned := (prune_trimmed s c.start).sound hs
      cases hcases with
      | finished _ _ => exact hpruned
      | unrendered _ _ =>
        have hnext : s.revision ≤ s.revision + 1 := by omega
        exact ⟨fun r hr => ⟨(hpruned.rows r hr).1, (hpruned.rows r hr).2.trans hnext⟩, hpruned.keyed,
          hs.revision.trans hnext, hpruned.capacity⟩
      | stored _ _ _ =>
        have hsaving := (saving_trimmed _ c.saved).sound (adding_sound ha.1 ha.2 hs)
        exact sound_congr hsaving rfl rfl rfl
      | failed _ _ _ => exact sound_congr hs rfl rfl rfl
    | revoke wall installation device =>
      exact (revoke_trimmed s wall installation device).sound (without_sound hs installation device)
    | prune wall => exact (prune_trimmed s wall).sound hs
    | restart wall loaded => exact restarted_sound h hread hs hfile
  · intro bytes hbytes
    obtain ⟨hmax, -⟩ := act_config s a h
    rw [act_file s a h, hmax] at *
    cases hwrites : s.writes a with
    | none =>
      rw [hwrites] at hbytes
      exact hfile bytes hbytes
    | some f =>
      rw [hwrites] at hbytes
      cases hbytes
      have hsaves := saves_of_writes hwrites
      exact ⟨f, rfl, saves_sound hs ha hsaves, (saves_trimmed hsaves).1⟩

/-- Puts keep the rows sound. -/
theorem puts_sound {acts : List StoreAct} (hs : SoundStore s) (hfile : s.SoundFile)
    (hacts : ∀ a ∈ acts, a.IsPut ∧ a.Sound s.ttlSeconds) :
    SoundStore (acts.foldl act s) ∧ (acts.foldl act s).SoundFile ∧
      (acts.foldl act s).ttlSeconds = s.ttlSeconds ∧ (acts.foldl act s).maxRows = s.maxRows := by
  induction acts generalizing s with
  | nil => exact ⟨hs, hfile, rfl, rfl⟩
  | cons a acts ih =>
    rw [List.forall_mem_cons] at hacts
    obtain ⟨⟨hput, hsound⟩, hrest⟩ := hacts
    have henabled : s.Enabled ⟨6, 0⟩ a := by
      cases a with
      | put c scope binding event => trivial
      | _ => cases hput
    obtain ⟨hmax, httl⟩ := act_config s a henabled
    obtain ⟨hs', hfile'⟩ := act_sound hs hfile (Nat.le_refl 6) henabled hsound
    obtain ⟨h1, h2, h3, h4⟩ := ih hs' hfile' (by rw [httl]; exact hrest)
    exact ⟨h1, h2, h3.trans httl, h4.trans hmax⟩

/-! ## Acts one after another -/

variable {acts : List StoreAct}

theorem acts_foldl (h : Acts depths s acts u) : u = acts.foldl act s := by
  induction h with
  | nil => rfl
  | cons hstep _ ih =>
    obtain ⟨-, rfl⟩ := hstep
    exact ih

theorem acts_sound (h : Acts depths s acts u) (hread : 6 ≤ depths.read) (hs : SoundStore s) (hfile : s.SoundFile)
    (hsound : ∀ b ∈ acts, b.Sound s.ttlSeconds) : SoundStore u ∧ u.SoundFile ∧ u.ttlSeconds = s.ttlSeconds := by
  induction h with
  | nil => exact ⟨hs, hfile, rfl⟩
  | @cons s b _ ls u hstep _ ih =>
    obtain ⟨henabled, rfl⟩ := hstep
    rw [List.forall_mem_cons] at hsound
    obtain ⟨h1, h2⟩ := act_sound hs hfile hread henabled hsound.1
    have httl := (act_config s b henabled).2
    obtain ⟨h3, h4, h5⟩ := ih h1 h2 (by rw [httl]; exact hsound.2)
    exact ⟨h3, h4, h5.trans httl⟩

end RecoveryStore

end MercuryRelay
