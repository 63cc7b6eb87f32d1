/-
  What the recovery store writes (lease_recovery.py, `RecoveryStore._save`,
  `put` and `revoke`).

  Pruning and fitting drop rows from the front only, and say so in the
  truncated flag.  A write that raises is undone in memory, but the file that
  it has already put in place is not.

  * `length_encode`: how long a file is;
  * `put_cases`: what `put` does;
  * `put_agrees_iff`: a failed put leaves the memory and the file in agreement
    exactly if it did not fail after the rename.
-/
import MercuryRelay.Python.JsonLength
import MercuryRelay.Recovery.File

set_option autoImplicit false

namespace MercuryRelay

open Python

namespace RecoveryStore

variable {s t u : RecoveryStore} {wall : ℚ} {c : Readings} {key : RowKey} {scope : Scope} {binding : Binding}
  {event : TaskEvent}

/-! ## Dropping rows -/

/-- `t` is `s` less some rows; where rows are missing, `t` is known to be truncated. -/
structure Trimmed (s t : RecoveryStore) : Prop where
  rows : t.rows.Sublist s.rows
  revision : t.revision = s.revision
  maxRows : t.maxRows = s.maxRows
  ttl : t.ttlSeconds = s.ttlSeconds
  truncated : s.truncated = true → t.truncated = true
  whole : t.truncated = true ∨ t.rows = s.rows

theorem Trimmed.refl (s : RecoveryStore) : Trimmed s s :=
  ⟨List.Sublist.refl _, rfl, rfl, rfl, id, .inr rfl⟩

theorem Trimmed.trans (h : Trimmed s t) (h' : Trimmed t u) : Trimmed s u := by
  refine ⟨h'.rows.trans h.rows, h'.revision.trans h.revision, h'.maxRows.trans h.maxRows, h'.ttl.trans h.ttl,
    h'.truncated ∘ h.truncated, ?_⟩
  rcases h'.whole with htrunc | hrows
  · exact .inl htrunc
  · rcases h.whole with htrunc | hrows'
    · exact .inl (h'.truncated htrunc)
    · exact .inr (hrows.trans hrows')

/-- Nothing is expired and nothing exceeds the limit, or the flag is set. -/
theorem prune_trimmed (s : RecoveryStore) (wall : ℚ) : Trimmed s (s.prune wall) := by
  refine ⟨(List.drop_sublist _ _).trans List.filter_sublist, rfl, rfl, rfl, fun h => by simp [prune, h], ?_⟩
  by_cases hlen : (s.rows.filter fun r => wall < r.expiresAt).length = s.rows.length
  · by_cases hmax : s.maxRows < (s.rows.filter fun r => wall < r.expiresAt).length
    · exact .inl (by simp [prune, hmax])
    · right
      have hsame : (s.rows.filter fun r => decide (wall < r.expiresAt)) = s.rows :=
        List.filter_sublist.eq_of_length hlen
      show List.drop _ (s.rows.filter fun r => decide (wall < r.expiresAt)) = s.rows
      rw [Nat.sub_eq_zero_of_le (Nat.le_of_not_lt hmax), List.drop_zero, hsame]
  · exact .inl (by simp [prune, hlen])

theorem length_prune_le (s : RecoveryStore) (wall : ℚ) : (s.prune wall).rows.length ≤ s.maxRows := by
  show (List.drop _ _).length ≤ s.maxRows
  rw [List.length_drop]
  omega

/-- What is kept is not expired. -/
theorem live_of_prune {r : RecoveryRow} (h : r ∈ (s.prune wall).rows) : wall < r.expiresAt := by
  have hmem := (List.drop_sublist _ _).subset h
  exact of_decide_eq_true (List.mem_filter.1 hmem).2

/-- What has not expired is kept, if there is room. -/
theorem mem_prune {r : RecoveryRow} (h : r ∈ s.rows) (hlive : wall < r.expiresAt) (hlen : s.rows.length ≤ s.maxRows) :
    r ∈ (s.prune wall).rows := by
  have hkept := (List.length_filter_le (fun r : RecoveryRow => decide (wall < r.expiresAt)) s.rows).trans hlen
  show r ∈ List.drop _ (s.rows.filter fun r => decide (wall < r.expiresAt))
  rw [Nat.sub_eq_zero_of_le hkept, List.drop_zero]
  exact List.mem_filter.2 ⟨h, decide_eq_true hlive⟩

theorem fit_trimmed (tries : ℕ) (s : RecoveryStore) : Trimmed s (fit tries s) := by
  induction tries generalizing s with
  | zero => exact .refl s
  | succ tries ih =>
    rw [fit]
    split
    · have hdrop : Trimmed s { s with rows := s.rows.tail, truncated := true } :=
        ⟨List.tail_sublist _, rfl, rfl, rfl, fun _ => rfl, .inl rfl⟩
      exact hdrop.trans (ih _)
    · exact .refl s

theorem fit_faults (tries : ℕ) (s : RecoveryStore) : (fit tries s).faults = s.faults := by
  induction tries generalizing s with
  | zero => rfl
  | succ tries ih =>
    rw [fit]
    split
    · rw [ih]
    · rfl

theorem fit_file (tries : ℕ) (s : RecoveryStore) : (fit tries s).file = s.file := by
  induction tries generalizing s with
  | zero => rfl
  | succ tries ih =>
    rw [fit]
    split
    · exact ih _
    · rfl

/-- With as many tries as there are rows the file fits, or there is no row left. -/
theorem fit_length {tries : ℕ} (h : s.rows.length ≤ tries) :
    (fit tries s).encode.length ≤ maxStoreBytes ∨ (fit tries s).rows = [] := by
  induction tries generalizing s with
  | zero => exact .inr (List.length_eq_zero_iff.1 (Nat.le_zero.1 h))
  | succ tries ih =>
    rw [fit]
    split
    · refine ih ?_
      rw [List.length_tail]
      omega
    · rename_i hfits
      rw [not_and_or, not_not, Nat.not_lt] at hfits
      exact hfits

/-! ## Saving -/

/-- What `_save` writes, and keeps in memory. -/
def saving (s : RecoveryStore) (wall : ℚ) : RecoveryStore := fit (s.prune wall).rows.length (s.prune wall)

/-- A file that fits is written as it is. -/
theorem saving_of_fits (h : (s.prune wall).encode.length ≤ maxStoreBytes) : s.saving wall = s.prune wall := by
  unfold saving
  cases (s.prune wall).rows.length with
  | zero => rfl
  | succ n =>
    rw [fit, if_neg]
    exact fun hlarge => absurd h (Nat.not_le.2 hlarge.1)

theorem saving_trimmed (s : RecoveryStore) (wall : ℚ) : Trimmed s (s.saving wall) :=
  (prune_trimmed s wall).trans (fit_trimmed _ _)

theorem saving_prune (s : RecoveryStore) (wall : ℚ) : Trimmed (s.prune wall) (s.saving wall) := fit_trimmed _ _

theorem length_saving_le (s : RecoveryStore) (wall : ℚ) : (s.saving wall).rows.length ≤ s.maxRows :=
  (saving_prune s wall).rows.length_le.trans (length_prune_le s wall)

/-- **How long a file is.** -/
theorem length_encode (s : RecoveryStore) : s.encode.length = 48 + (intRepr s.revision).length +
    (if s.truncated then 4 else 5) + (s.rows.map fun r => r.toJson.textLength 1 1).sum + (s.rows.length - 1) := by
  have hkeys : stringLength (lit "version") = 9 ∧ stringLength (lit "revision") = 10 ∧
      stringLength (lit "truncated") = 11 ∧ stringLength (lit "rows") = 6 ∧ (intRepr 1).length = 1 ∧
      (lit ",").length = 1 ∧ (lit ":").length = 1 := by
    decide
  obtain ⟨k1, k2, k3, k4, hone, hcomma, hcolon⟩ := hkeys
  rw [encode_eq, length_write rfl rfl, RecoveryStore.toJson]
  simp only [Json.textLength, Json.membersLength, k1, k2, k3, k4, hone, hcomma, hcolon, List.length_cons,
    List.length_nil, List.length_map]
  rw [Json.itemsLength_eq, List.map_map, Function.comp_def]
  omega

/-- A file without rows is short. -/
theorem encode_empty (h0 : 0 ≤ s.revision) (h : s.revision ≤ 2 ^ 63 - 1) (hrows : s.rows = []) :
    s.encode.length ≤ maxStoreBytes := by
  have hrevision := length_intRepr_le h0 (h.trans (by decide))
  have hmax : (128 : ℕ) ≤ maxStoreBytes := by decide
  rw [length_encode, hrows]
  simp only [List.map_nil, List.sum_nil, List.length_nil]
  split <;> omega

/-- What is written is not longer than what is read. -/
theorem length_encode_saving (h0 : 0 ≤ s.revision) (h : s.revision ≤ 2 ^ 63 - 1) (wall : ℚ) :
    (s.saving wall).encode.length ≤ maxStoreBytes := by
  have hrevision := (saving_trimmed s wall).revision
  rcases fit_length (Nat.le_refl (s.prune wall).rows.length) with hlen | hrows
  · exact hlen
  · exact encode_empty (hrevision ▸ h0) (hrevision ▸ h) hrows

theorem saving_file (s : RecoveryStore) (wall : ℚ) : (s.saving wall).file = s.file := fit_file _ _

theorem saving_faults (s : RecoveryStore) (wall : ℚ) : (s.saving wall).faults = s.faults := fit_faults _ _

/-- The file after the next write. -/
def wrote (s : RecoveryStore) (raw : Bytes) : Option Bytes :=
  if renamed (s.faults.headD none) then some raw else s.file

theorem save_eq (h : rendered s.revision = true) (wall : ℚ) : s.save wall =
    ((s.faults.headD none).isNone, { s.saving wall with
      faults := s.faults.tail
      file := s.wrote (s.saving wall).raw }) := by
  have hfaults := saving_faults s wall
  have hfile := saving_file s wall
  have hrevision : (s.prune wall).revision = s.revision := rfl
  unfold save wrote
  dsimp only
  rw [hrevision, if_neg (not_not.2 h), ← saving, hfaults, hfile]

/-- A revision that is too long raises when the file is made. -/
theorem save_unrendered (h : rendered s.revision = false) (wall : ℚ) : s.save wall = (false, s.prune wall) := by
  have hrevision : (s.prune wall).revision = s.revision := rfl
  unfold save
  dsimp only
  rw [hrevision, if_pos (by rw [h]; exact Bool.false_ne_true)]

/-! ## Storing an event -/

/-- The key under which `put` stores an event. -/
def putKey (scope : Scope) (binding : Binding) (event : TaskEvent) : RowKey :=
  ⟨scope, binding.profile, binding.durableSessionId, childKey event.payload⟩

/-- The row that `put` adds. -/
def putRow (s : RecoveryStore) (wall : ℚ) (key : RowKey) (event : TaskEvent) : RecoveryRow :=
  ⟨key, floatSum wall s.ttlSeconds,
    { event with recoveryRevision := s.revision + 1, relayEventId := some (s.revision + 1) }⟩

/-- The store that `put` saves. -/
def adding (s : RecoveryStore) (c : Readings) (key : RowKey) (event : TaskEvent) : RecoveryStore :=
  { s.prune c.start with
    revision := s.revision + 1
    rows := (s.prune c.start).rows.filter (·.key ≠ key) ++ [s.putRow c.stored key event] }

/-- The row of a child, if it has one that has not expired. -/
def priorRow (s : RecoveryStore) (wall : ℚ) (key : RowKey) : Option RecoveryRow :=
  (s.prune wall).rows.find? (·.key = key)

theorem priorRow_spec {key : RowKey} {r : RecoveryRow} (h : s.priorRow wall key = some r) :
    r ∈ (s.prune wall).rows ∧ r.key = key := by
  have hfind : (s.prune wall).rows.find? (fun r : RecoveryRow => decide (r.key = key)) = some r := h
  have hkey : decide (r.key = key) = true := @List.find?_some _ (fun r : RecoveryRow => decide (r.key = key)) _ _ hfind
  exact ⟨List.mem_of_find?_eq_some hfind, of_decide_eq_true hkey⟩

/-- The child has finished. -/
def finished (s : RecoveryStore) (wall : ℚ) (key : RowKey) : Bool :=
  (s.priorRow wall key).any fun r => hasTerminalStatus r.event.payload

/-- What `put` does. -/
inductive Put (s : RecoveryStore) (c : Readings) (key : RowKey) (event : TaskEvent) :
    Option ℤ × TaskEvent × RecoveryStore → Prop
  /-- The child has finished: the event gets what is known of it. -/
  | finished {prior} (hprior : s.priorRow c.start key = some prior)
      (hterminal : hasTerminalStatus prior.event.payload = true) :
      Put s c key event (some prior.event.recoveryRevision,
        { event with payload := prior.event.payload, kind := prior.event.kind }, s.prune c.start)
  /-- The revision is too long. -/
  | unrendered (hopen : s.finished c.start key = false) (hlong : rendered (s.revision + 1) = false) :
      Put s c key event (none, event, { s.prune c.start with revision := s.revision + 1 })
  /-- The event is stored. -/
  | stored (hopen : s.finished c.start key = false) (hshort : rendered (s.revision + 1) = true)
      (hwrite : s.faults.headD none = none) :
      Put s c key event (some (s.revision + 1), event, { (s.adding c key event).saving c.saved with
        faults := s.faults.tail
        file := some ((s.adding c key event).saving c.saved).raw })
  /-- The write raised, and the rows are what they were. -/
  | failed {fault} (hopen : s.finished c.start key = false) (hshort : rendered (s.revision + 1) = true)
      (hwrite : s.faults.headD none = some fault) :
      Put s c key event (none, event, { s with
        faults := s.faults.tail
        file := s.wrote ((s.adding c key event).saving c.saved).raw })

theorem append_cases (hopen : s.finished c.start key = false) :
    Put s c key event (put.append s (s.prune c.start) c key event) := by
  have happend : put.append s (s.prune c.start) c key event =
      if ¬ rendered (s.revision + 1) then (none, event, { s.prune c.start with revision := s.revision + 1 })
      else if ((s.adding c key event).save c.saved).1 then
        (some (s.revision + 1), event, ((s.adding c key event).save c.saved).2)
      else (none, event, { s with
        faults := ((s.adding c key event).save c.saved).2.faults
        file := ((s.adding c key event).save c.saved).2.file }) := rfl
  have hfaults : (s.adding c key event).faults = s.faults := rfl
  rw [happend]
  cases hshort : rendered (s.revision + 1) with
  | false => exact .unrendered hopen hshort
  | true =>
    have hsave := @save_eq (s.adding c key event) hshort c.saved
    rw [hsave]
    dsimp only
    rw [hfaults]
    cases hwrite : s.faults.headD none with
    | none =>
      have hwrote : (s.adding c key event).wrote ((s.adding c key event).saving c.saved).raw =
          some ((s.adding c key event).saving c.saved).raw := by
        rw [wrote, hfaults, hwrite]
        rfl
      rw [hwrote]
      exact .stored hopen hshort hwrite
    | some fault => exact .failed hopen hshort hwrite

/-- **What `put` does.** -/
theorem put_eq (s : RecoveryStore) (c : Readings) (scope : Scope) (binding : Binding) (event : TaskEvent) :
    s.put c scope binding event =
      match s.priorRow c.start (putKey scope binding event) with
      | some prior =>
        if hasTerminalStatus prior.event.payload then
          (some prior.event.recoveryRevision,
            { event with payload := prior.event.payload, kind := prior.event.kind }, s.prune c.start)
        else put.append s (s.prune c.start) c (putKey scope binding event) event
      | none => put.append s (s.prune c.start) c (putKey scope binding event) event := rfl

theorem put_cases (s : RecoveryStore) (c : Readings) (scope : Scope) (binding : Binding) (event : TaskEvent) :
    Put s c (putKey scope binding event) event (s.put c scope binding event) := by
  rw [put_eq]
  cases hprior : s.priorRow c.start (putKey scope binding event) with
  | none =>
    refine append_cases ?_
    rw [finished, hprior]
    rfl
  | some prior =>
    dsimp only
    cases hterminal : hasTerminalStatus prior.event.payload with
    | true => exact .finished hprior hterminal
    | false =>
      refine append_cases ?_
      rw [finished, hprior]
      exact hterminal

/-- A put of an open child that returns has stored its event. -/
theorem put_stored {revision : ℤ} (hopen : s.finished c.start (putKey scope binding event) = false)
    (hdone : (s.put c scope binding event).1 = some revision) :
    rendered (s.revision + 1) = true ∧ revision = s.revision + 1 ∧ s.faults.headD none = none ∧
      (s.put c scope binding event).2.2 =
        { (s.adding c (putKey scope binding event) event).saving c.saved with
          faults := s.faults.tail
          file := some ((s.adding c (putKey scope binding event) event).saving c.saved).raw } := by
  have hcases := put_cases s c scope binding event
  generalize s.put c scope binding event = x at hcases hdone ⊢
  cases hcases with
  | finished hprior hterminal =>
    rw [finished, hprior, Option.any_some, hterminal] at hopen
    cases hopen
  | unrendered _ _ => cases hdone
  | stored _ hshort hwrite => exact ⟨hshort, (Option.some.inj hdone).symm, hwrite, rfl⟩
  | failed _ _ _ => cases hdone

/-- What a put that raised at its write left. -/
theorem put_failed {fault : WriteFault} (hopen : s.finished c.start (putKey scope binding event) = false)
    (hshort : rendered (s.revision + 1) = true) (hwrite : s.faults.headD none = some fault) :
    s.put c scope binding event = (none, event, { s with
      faults := s.faults.tail
      file := s.wrote ((s.adding c (putKey scope binding event) event).saving c.saved).raw }) := by
  have hcases := put_cases s c scope binding event
  generalize s.put c scope binding event = r at hcases ⊢
  cases hcases with
  | finished hprior hterminal =>
    rw [finished, hprior, Option.any_some, hterminal] at hopen
    cases hopen
  | unrendered _ hlong =>
    rw [hshort] at hlong
    cases hlong
  | stored _ _ hnone =>
    rw [hwrite] at hnone
    cases hnone
  | failed _ _ _ => rfl

/-- A put takes the next revision at most. -/
theorem put_revision (s : RecoveryStore) (c : Readings) (scope : Scope) (binding : Binding) (event : TaskEvent) :
    s.revision ≤ (s.put c scope binding event).2.2.revision ∧
      (s.put c scope binding event).2.2.revision ≤ s.revision + 1 := by
  have hcases := put_cases s c scope binding event
  generalize s.put c scope binding event = r at hcases ⊢
  cases hcases with
  | finished _ _ | failed _ _ _ => exact ⟨Int.le_refl _, Int.le_add_one (Int.le_refl _)⟩
  | unrendered _ _ => exact ⟨Int.le_add_one (Int.le_refl _), Int.le_refl _⟩
  | stored _ _ _ =>
    have hrevision := (saving_trimmed (s.adding c (putKey scope binding event) event) c.saved).revision
    exact ⟨(Int.le_add_one (Int.le_refl _)).trans hrevision.ge, hrevision.le⟩

/-- A store with no failing write to come stores, and still has none to come. -/
theorem put_ok (hs : s.faults = []) (hshort : rendered (s.revision + 1) = true) :
    (s.put c scope binding event).1.isSome ∧ (s.put c scope binding event).2.2.faults = [] := by
  have hcases := put_cases s c scope binding event
  generalize s.put c scope binding event = r at hcases ⊢
  cases hcases with
  | finished _ _ => exact ⟨rfl, hs⟩
  | unrendered _ hlong =>
    rw [hshort] at hlong
    cases hlong
  | stored _ _ _ =>
    refine ⟨rfl, ?_⟩
    show s.faults.tail = []
    rw [hs]
    rfl
  | failed _ _ hwrite =>
    rw [hs] at hwrite
    cases hwrite

/-! ## Failed puts -/

/-- The memory and the file agree: whenever the file is loaded from `since` on, it gives what the memory
    holds then. -/
def Agrees (depths : JsonDepths) (s : RecoveryStore) (since : ℚ) : Prop :=
  ∀ wall, since ≤ wall → load depths wall s.maxRows s.file = some (image (s.prune wall))

/-- After the rename the file has a revision that the memory has not. -/
theorem disagrees_of_renamed {depths : JsonDepths} {raw : RecoveryStore} {faults : List (Option WriteFault)}
    (hrevision : raw.revision = s.revision + 1) (since : ℚ) :
    ¬ Agrees depths { s with faults := faults, file := some raw.raw } since := by
  intro hagrees
  have hload := (load_revision (hagrees since le_rfl)).1
  have hsame : s.revision = raw.revision := hload
  omega

/-- A store that agrees with its file has a revision that is short enough. -/
theorem Agrees.rendered {depths : JsonDepths} {since : ℚ} (h : Agrees depths s since) :
    MercuryRelay.rendered (s.revision + 1) = true := by
  obtain ⟨h0, hmax⟩ := load_bounded (h since le_rfl)
  have h0 : 0 ≤ s.revision := h0
  have hmax : s.revision ≤ 2 ^ 63 - 1 := hmax
  exact rendered_of_le (by omega) (by omega)

/-- **A put that raised leaves the memory and the file in agreement** exactly if it did not raise
    after the new file was in place. -/
theorem put_agrees_iff {depths : JsonDepths} {since : ℚ} (hs : Agrees depths s since)
    (hraise : (s.put c scope binding event).1 = none) :
    Agrees depths (s.put c scope binding event).2.2 since ↔ s.faults.headD none ≠ some .directorySync := by
  have hcases := put_cases s c scope binding event
  generalize s.put c scope binding event = r at hcases hraise
  cases hcases with
  | finished _ _ => cases hraise
  | unrendered _ hlong =>
    rw [hs.rendered] at hlong
    cases hlong
  | stored _ _ _ => cases hraise
  | @failed fault hopen _ hwrite =>
    rw [hwrite]
    dsimp only
    constructor
    · rintro hagrees hfault
      rw [wrote, hwrite, hfault] at hagrees
      exact disagrees_of_renamed (saving_trimmed _ c.saved).revision since hagrees
    · intro hfault now hnow
      have hold : s.wrote ((s.adding c (putKey scope binding event) event).saving c.saved).raw = s.file := by
        rw [wrote, hwrite]
        cases fault with
        | directorySync => exact absurd rfl hfault
        | _ => rfl
      rw [hold]
      exact hs now hnow

/-- A store that was never saved agrees with the missing file. -/
theorem agrees_new (depths : JsonDepths) (faults : List (Option WriteFault)) (since : ℚ) :
    Agrees depths { faults := faults } since := by
  intro wall _
  simp [load, image, prune]

/-- A new store, where the directory is not synced. -/
def unsynced : RecoveryStore := { faults := [some .directorySync] }

/-- A child of the session `a` starts. -/
def started : TaskEvent where
  sessionId := lit "a"
  kind := lit "subagent.start"
  payload := [(lit "subagent_id", .str (lit "c"))]
  recoveryRevision := 1

def startedScope : Scope := ⟨lit "i", lit "d", some 0⟩

def startedBinding : Binding := ⟨lit "a", lit "s", lit "default", true⟩

/-- The put of `started` raises. -/
theorem unsynced_put : ∃ t, unsynced.put ⟨0, 0, 0⟩ startedScope startedBinding started =
    (none, started, { unsynced with faults := [], file := some (RecoveryStore.raw t) }) ∧ t.revision = 1 :=
  ⟨_, put_failed rfl (by decide) rfl, (saving_trimmed _ 0).revision⟩

/-- The file has the revision 1, that the memory uses for the next event. -/
theorem put_disagrees : Agrees ⟨9, 9⟩ unsynced 0 ∧
    (unsynced.put ⟨0, 0, 0⟩ startedScope startedBinding started).1 = none ∧
    (unsynced.put ⟨0, 0, 0⟩ startedScope startedBinding started).2.2.revision = 0 ∧
    ¬ Agrees ⟨9, 9⟩ (unsynced.put ⟨0, 0, 0⟩ startedScope startedBinding started).2.2 0 := by
  obtain ⟨t, hput, hrevision⟩ := unsynced_put
  rw [hput]
  exact ⟨agrees_new _ _ _, rfl, rfl, disagrees_of_renamed hrevision 0⟩

theorem put_agrees_iff_unsynced : Agrees ⟨9, 9⟩ (unsynced.put ⟨0, 0, 0⟩ startedScope startedBinding started).2.2 0 ↔
    unsynced.faults.headD none ≠ some .directorySync := by
  obtain ⟨t, hput, -⟩ := unsynced_put
  have hraise : (unsynced.put ⟨0, 0, 0⟩ startedScope startedBinding started).1 = none := by rw [hput]
  exact put_agrees_iff (agrees_new _ _ _) hraise

end RecoveryStore

end MercuryRelay
