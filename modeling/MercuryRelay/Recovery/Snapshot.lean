/-
  What a snapshot reports (lease_recovery.py, `RecoveryProjection.snapshot`).

  The rows of the store come first, as historical events; the live tasks are
  merged over them by profile, durable session and child.  The last 64 of the
  merged events are listed, and the oldest of them dropped until they fit.

  * `snapshot_eq`: a snapshot in terms of what is merged and listed;
  * `mem_merged`: what is merged is live or historical;
  * `listed_finished`: what it reports of a finished child, unless the row of the child
    is overlooked.
-/
import MercuryRelay.Recovery.Persisting

set_option autoImplicit false

namespace MercuryRelay

open Python

/-- The key under which a snapshot merges an event. -/
abbrev TaskKey := Option Str × Str × Option Str

namespace RecoveryProjection

variable {p : RecoveryProjection} {env : Surroundings}

/-- The rows of the store that are of the scope of the projection and of a profile that exists. -/
def storeRows (p : RecoveryProjection) (env : Surroundings) : List RecoveryRow :=
  match p.store, p.scope with
  | some store, some scope =>
    (store.prune env.wall).rows.filter fun r => r.key.scope = scope ∧ env.profileAuthorizer r.key.profile
  | _, _ => []

/-- The store has dropped something, or has more of these rows than are reported. -/
def storeTruncated (p : RecoveryProjection) (env : Surroundings) : Bool :=
  match p.store, p.scope with
  | some store, some _ => (store.prune env.wall).truncated || maxRows < (p.storeRows env).length
  | _, _ => false

/-- The last 64 of these rows. -/
def lastRows (p : RecoveryProjection) (env : Surroundings) : List RecoveryRow :=
  (p.storeRows env).drop ((p.storeRows env).length - maxRows)

/-- The historical events and the live tasks over them. -/
def merged (p : RecoveryProjection) (env : Surroundings) : Dict TaskKey TaskEvent :=
  (p.tasks.map (·.2)).foldl (mergeTask env.profileAuthorizer)
    (((p.lastRows env).map RecoveryStore.historical).foldl (fun rows e => Dict.set rows (snapshotKey e) e) [])

/-- The tasks that are listed, and whether some were dropped for their size. -/
def listed (p : RecoveryProjection) (env : Surroundings) : List TaskEvent × Bool :=
  fitTasks ((Dict.last maxRows (p.merged env)).map (·.2))

/-- The bindings of the listed tasks, and those of the live sessions. -/
def bindingRows (p : RecoveryProjection) (env : Surroundings) : Dict (Str × Str × Str) Binding :=
  ((p.bindings.map (·.2)).filter fun b => env.profileAuthorizer b.profile).foldl
    (fun d b => Dict.set d (bindingKey b) b)
    (((p.listed env).1.filterMap (·.recoveryBinding)).foldl (fun d b => Dict.set d (bindingKey b) b) [])

/-- The bindings that are listed. -/
def listedBindings (p : RecoveryProjection) (env : Surroundings) : List Binding :=
  (Dict.last maxRows (p.bindingRows env)).map (·.2)

/-- `snapshot_truncated`. -/
def snapshotTruncated (p : RecoveryProjection) (env : Surroundings) : Bool :=
  p.truncated || p.storeTruncated env || (p.listed env).2 || maxRows < (p.merged env).length

/-- **A snapshot**, in terms of what is merged and listed. -/
theorem snapshot_eq (p : RecoveryProjection) (env : Surroundings) : (p.snapshot env).1 =
    [(lit "task_snapshot", .arr ((p.listed env).1.map (·.toJson))),
      (lit "bindings", .arr ((p.listedBindings env).map (·.toJson))),
      (lit "snapshot_complete", .bool false),
      (lit "snapshot_truncated", .bool (p.snapshotTruncated env))] := by
  obtain ⟨profile, store, scope, pending, bindings, tasks, truncated, revision⟩ := p
  have hlast : ∀ rows : List RecoveryRow,
      (rows.map RecoveryStore.historical).drop ((rows.map RecoveryStore.historical).length - maxRows) =
        (rows.drop (rows.length - maxRows)).map RecoveryStore.historical := by
    intro rows
    rw [List.length_map, List.map_drop]
  have hbindings : ∀ d : Dict (Str × Str × Str) Binding,
      (Dict.last maxRows d).map (fun b => b.2.toJson) = ((Dict.last maxRows d).map (·.2)).map (·.toJson) := by
    intro d
    rw [List.map_map]
    rfl
  cases store with
  | none =>
    cases scope <;>
    · unfold snapshot
      dsimp only
      rw [hbindings]
      rfl
  | some store =>
    cases scope with
    | none =>
      unfold snapshot
      dsimp only
      rw [hbindings]
      rfl
    | some scope =>
      unfold snapshot RecoveryStore.snapshot
      dsimp only
      rw [hbindings, hlast, List.length_map]
      rfl

/-! ## Merging -/

/-- An event that is reported: it is not bound, or its profile exists. -/
def Reportable (env : Surroundings) (e : TaskEvent) : Prop :=
  ∀ b ∈ e.recoveryBinding, env.profileAuthorizer b.profile = true

instance (env : Surroundings) (e : TaskEvent) : Decidable (Reportable env e) := by
  unfold Reportable; infer_instance

/-- The event under a key has finished. -/
def FinishedAt (rows : Dict TaskKey TaskEvent) (k : TaskKey) : Prop :=
  ∃ e, rows.get k = some e ∧ hasTerminalStatus e.payload = true

variable {rows : Dict TaskKey TaskEvent} {e : TaskEvent} {es : List TaskEvent} {k : TaskKey}

/-- A merge leaves the rows, or sets the event that is reported; it does not set an open event over a
    finished one. -/
theorem mergeTask_cases (env : Surroundings) (rows : Dict TaskKey TaskEvent) (e : TaskEvent) :
    mergeTask env.profileAuthorizer rows e = rows ∧ (Reportable env e → FinishedAt rows (snapshotKey e) ∧
      hasTerminalStatus e.payload = false) ∨
    mergeTask env.profileAuthorizer rows e = rows.set (snapshotKey e) e ∧ Reportable env e ∧
      (FinishedAt rows (snapshotKey e) → hasTerminalStatus e.payload = true) := by
  have hreportable : ((e.recoveryBinding.map fun b => !env.profileAuthorizer b.profile).getD false = true) ↔
      ¬ Reportable env e := by
    unfold Reportable
    cases e.recoveryBinding with
    | none => simp
    | some b => simp
  have hfinished : (((rows.get (snapshotKey e)).map fun prior => hasTerminalStatus prior.payload).getD false = true) ↔
      FinishedAt rows (snapshotKey e) := by
    unfold FinishedAt
    cases rows.get (snapshotKey e) with
    | none => simp
    | some prior => simp
  unfold mergeTask
  split
  · rename_i hnot
    exact .inl ⟨rfl, fun h => absurd h (hreportable.1 hnot)⟩
  · rename_i hyes
    have hyes : Reportable env e := by
      by_contra hno
      exact hyes (hreportable.2 hno)
    split
    · rename_i hblocked
      rw [Bool.and_eq_true, hfinished] at hblocked
      exact .inl ⟨rfl, fun _ => ⟨hblocked.1, by simpa using hblocked.2⟩⟩
    · rename_i hopen
      refine .inr ⟨rfl, hyes, fun hdone => ?_⟩
      rw [Bool.and_eq_true, hfinished, not_and] at hopen
      simpa using hopen hdone

/-- What holds of the rows, and goes on to hold with every event that is set, holds of what is merged. -/
theorem merge_invariant {I : Dict TaskKey TaskEvent → Prop} (h0 : I rows)
    (hset : ∀ rows, ∀ e ∈ es, Reportable env e → I rows → I (rows.set (snapshotKey e) e)) :
    I (es.foldl (mergeTask env.profileAuthorizer) rows) := by
  induction es generalizing rows with
  | nil => exact h0
  | cons e es ih =>
    refine ih ?_ fun rows f hf => hset rows f (List.mem_cons_of_mem _ hf)
    rcases mergeTask_cases env rows e with ⟨heq, -⟩ | ⟨heq, hreportable, -⟩
    · rw [heq]
      exact h0
    · rw [heq]
      exact hset rows e List.mem_cons_self hreportable h0

/-- **What has finished stays finished** when an event is merged. -/
theorem mergeTask_finished (h : FinishedAt rows k) (e : TaskEvent) :
    FinishedAt (mergeTask env.profileAuthorizer rows e) k := by
  rcases mergeTask_cases env rows e with ⟨heq, -⟩ | ⟨heq, -, hterminal⟩
  · rw [heq]
    exact h
  · rw [heq]
    by_cases hk : snapshotKey e = k
    · subst hk
      exact ⟨e, Dict.get_set_self, hterminal h⟩
    · obtain ⟨e', hget, hdone⟩ := h
      exact ⟨e', (Dict.get_set_of_ne hk).trans hget, hdone⟩

theorem merge_finished (h : FinishedAt rows k) (es : List TaskEvent) :
    FinishedAt (es.foldl (mergeTask env.profileAuthorizer) rows) k := by
  induction es generalizing rows with
  | nil => exact h
  | cons e es ih => exact ih (mergeTask_finished h e)

/-- A live event that has finished is merged as finished. -/
theorem merge_live_finished (he : e ∈ es) (hreportable : Reportable env e)
    (hterminal : hasTerminalStatus e.payload = true) :
    FinishedAt (es.foldl (mergeTask env.profileAuthorizer) rows) (snapshotKey e) := by
  induction es generalizing rows with
  | nil => exact absurd he List.not_mem_nil
  | cons f es ih =>
    rcases List.mem_cons.1 he with rfl | he
    · refine merge_finished ?_ es
      rcases mergeTask_cases env rows e with ⟨-, hno⟩ | ⟨heq, -⟩
      · rw [(hno hreportable).2] at hterminal
        cases hterminal
      · rw [heq]
        exact ⟨e, Dict.get_set_self, hterminal⟩
    · exact ih he

/-- A key that is there stays there. -/
theorem mergeTask_isSome (h : (rows.get k).isSome) (e : TaskEvent) :
    ((mergeTask env.profileAuthorizer rows e).get k).isSome := by
  rcases mergeTask_cases env rows e with ⟨heq, -⟩ | ⟨heq, -⟩
  · rw [heq]
    exact h
  · rw [heq, Dict.get_set]
    split
    · rfl
    · exact h

theorem merge_isSome (h : (rows.get k).isSome) (es : List TaskEvent) :
    ((es.foldl (mergeTask env.profileAuthorizer) rows).get k).isSome := by
  induction es generalizing rows with
  | nil => exact h
  | cons e es ih => exact ih (mergeTask_isSome h e)

/-- Every live event that is reported has a row. -/
theorem merge_live (he : e ∈ es) (hreportable : Reportable env e) :
    ((es.foldl (mergeTask env.profileAuthorizer) rows).get (snapshotKey e)).isSome := by
  induction es generalizing rows with
  | nil => exact absurd he List.not_mem_nil
  | cons f es ih =>
    rcases List.mem_cons.1 he with rfl | he
    · refine merge_isSome ?_ es
      rcases mergeTask_cases env rows e with ⟨heq, hno⟩ | ⟨heq, -⟩
      · obtain ⟨⟨e', hget, -⟩, -⟩ := hno hreportable
        rw [heq, hget]
        rfl
      · rw [heq, Dict.get_set_self]
        rfl
    · exact ih he

/-! ## History -/

/-- The historical events by key. -/
def history (p : RecoveryProjection) (env : Surroundings) : Dict TaskKey TaskEvent :=
  ((p.lastRows env).map RecoveryStore.historical).foldl (fun rows e => Dict.set rows (snapshotKey e) e) []

theorem merged_eq (p : RecoveryProjection) (env : Surroundings) :
    p.merged env = (p.tasks.map (·.2)).foldl (mergeTask env.profileAuthorizer) (p.history env) := rfl

/-- Setting events under their keys. -/
theorem foldl_set_invariant {I : Dict TaskKey TaskEvent → Prop} (h0 : I rows)
    (hset : ∀ rows, ∀ e ∈ es, I rows → I (rows.set (snapshotKey e) e)) :
    I (es.foldl (fun rows e => Dict.set rows (snapshotKey e) e) rows) := by
  induction es generalizing rows with
  | nil => exact h0
  | cons e es ih =>
    exact ih (hset rows e List.mem_cons_self h0) fun rows f hf => hset rows f (List.mem_cons_of_mem _ hf)

/-- An event is live and reported, or the historical event of a row. -/
def LiveOrHistorical (p : RecoveryProjection) (env : Surroundings) (e : TaskEvent) : Prop :=
  (Reportable env e ∧ ∃ key, (key, e) ∈ p.tasks) ∨ ∃ r ∈ p.lastRows env, e = RecoveryStore.historical r

theorem mem_history {x : TaskKey × TaskEvent} (h : x ∈ p.history env) :
    x.1 = snapshotKey x.2 ∧ ∃ r ∈ p.lastRows env, x.2 = RecoveryStore.historical r := by
  have hinv : ∀ x ∈ p.history env, x.1 = snapshotKey x.2 ∧ ∃ r ∈ p.lastRows env, x.2 = RecoveryStore.historical r := by
    refine foldl_set_invariant (I := fun rows => ∀ x ∈ rows, x.1 = snapshotKey x.2 ∧
      ∃ r ∈ p.lastRows env, x.2 = RecoveryStore.historical r) (fun x hx => absurd hx List.not_mem_nil) ?_
    intro rows e he hrows x hx
    rcases Dict.mem_set hx with rfl | hx
    · obtain ⟨r, hr, rfl⟩ := List.mem_map.1 he
      exact ⟨rfl, r, hr, rfl⟩
    · exact hrows x hx
  exact hinv x h

theorem keyed_history (p : RecoveryProjection) (env : Surroundings) : Dict.Keyed (p.history env) :=
  foldl_set_invariant (I := Dict.Keyed) Dict.keyed_nil fun _ _ _ hrows => hrows.set _ _

/-- **What is merged is live or historical.** -/
theorem mem_merged {x : TaskKey × TaskEvent} (h : x ∈ p.merged env) :
    x.1 = snapshotKey x.2 ∧ p.LiveOrHistorical env x.2 := by
  have hinv : ∀ x ∈ p.merged env, x.1 = snapshotKey x.2 ∧ p.LiveOrHistorical env x.2 := by
    refine merge_invariant (I := fun rows => ∀ x ∈ rows, x.1 = snapshotKey x.2 ∧ p.LiveOrHistorical env x.2) ?_ ?_
    · intro x hx
      obtain ⟨hkey, hr⟩ := mem_history hx
      exact ⟨hkey, .inr hr⟩
    · intro rows e he hreportable hrows x hx
      rcases Dict.mem_set hx with rfl | hx
      · obtain ⟨⟨key, e'⟩, hitem, rfl⟩ := List.mem_map.1 he
        exact ⟨rfl, .inl ⟨hreportable, key, hitem⟩⟩
      · exact hrows x hx
  exact hinv x h

theorem keyed_merged (p : RecoveryProjection) (env : Surroundings) : Dict.Keyed (p.merged env) :=
  merge_invariant (I := Dict.Keyed) (keyed_history p env) fun _ _ _ _ hrows => hrows.set _ _

/-- Every row that is reported has a historical event, unless a later row has its key. -/
theorem history_isSome {r : RecoveryRow} (h : r ∈ p.lastRows env) :
    ((p.history env).get (snapshotKey (RecoveryStore.historical r))).isSome := by
  unfold history
  have hmem : RecoveryStore.historical r ∈ (p.lastRows env).map RecoveryStore.historical := List.mem_map_of_mem h
  generalize (p.lastRows env).map RecoveryStore.historical = es at hmem
  generalize ([] : Dict TaskKey TaskEvent) = rows
  induction es generalizing rows with
  | nil => exact absurd hmem List.not_mem_nil
  | cons f es ih =>
    rcases List.mem_cons.1 hmem with heq | hmem
    · rw [List.foldl_cons, ← heq]
      refine foldl_set_invariant (I := fun rows =>
        (rows.get (snapshotKey (RecoveryStore.historical r))).isSome) ?_ ?_
      · rw [Dict.get_set_self]
        rfl
      · intro rows e _ hrows
        rw [Dict.get_set]
        split
        · rfl
        · exact hrows
    · exact ih hmem _

/-! ## Listing -/

/-- The tasks that are listed are the last ones. -/
theorem fitTasks_suffix (tasks : List TaskEvent) : (fitTasks tasks).1 <:+ tasks := by
  induction tasks with
  | nil => exact List.suffix_rfl
  | cons e tasks ih =>
    rw [fitTasks]
    split
    · exact ih.trans (List.suffix_cons e tasks)
    · exact List.suffix_rfl

theorem fitTasks_whole {tasks : List TaskEvent} (h : (fitTasks tasks).2 = false) : (fitTasks tasks).1 = tasks := by
  cases tasks with
  | nil => rfl
  | cons e tasks =>
    rw [fitTasks] at h ⊢
    split at h
    · cases h
    · rename_i hfits
      rw [if_neg hfits]

/-- **What is listed is merged.** -/
theorem mem_listed (h : e ∈ (p.listed env).1) : (snapshotKey e, e) ∈ p.merged env := by
  have hmem := (fitTasks_suffix _).subset h
  obtain ⟨⟨k, e'⟩, hitem, rfl⟩ := List.mem_map.1 hmem
  have hitem := (List.drop_sublist _ _).subset hitem
  obtain rfl : k = snapshotKey e' := (mem_merged hitem).1
  exact hitem

/-! ## Rows of sound stores -/

/-- The key under which a row is merged. -/
def taskKey (r : RecoveryRow) : TaskKey := (some r.key.profile, r.key.durableSessionId, r.key.child)

/-- A status does not name the child. -/
theorem childKey_set_status (payload : Payload) (v : Json) :
    childKey (Dict.set payload (lit "status") v) = childKey payload := by
  have hne : ∀ k ∈ [lit "subagent_id", lit "child_session_id", lit "delegation_id", lit "task_index"],
      lit "status" ≠ k := by decide
  simp only [List.forall_mem_cons] at hne
  obtain ⟨h1, h2, h3, h4, -⟩ := hne
  rw [childKey_eq, childKey_eq]
  simp only [lookup_eq_get, Dict.get_set_of_ne h1, Dict.get_set_of_ne h2, Dict.get_set_of_ne h3,
    Dict.get_set_of_ne h4]

theorem snapshotKey_historical {r : RecoveryRow} (h : SoundRow r) :
    snapshotKey (RecoveryStore.historical r) = taskKey r := by
  cases h with
  | @mk scope session durable profile kind payload revision expiresAt _ _ _ _ _ _ _ _ _ =>
    have hchild : childKey (RecoveryStore.historical ⟨⟨scope, profile, durable, childKey payload⟩, expiresAt,
        storedEvent session kind payload revision durable profile⟩).payload = childKey payload := by
      unfold RecoveryStore.historical
      dsimp only
      split
      · rfl
      · exact childKey_set_status payload _
    unfold snapshotKey
    rw [hchild]
    rfl

/-- A historical event is not live, and unknown if it has not finished. -/
theorem historical_spec (r : RecoveryRow) :
    (∀ b ∈ (RecoveryStore.historical r).recoveryBinding, b.live = false) ∧
    (hasTerminalStatus r.event.payload = false →
      Json.lookup (RecoveryStore.historical r).payload (lit "status") = some (.str (lit "unknown"))) ∧
    (hasTerminalStatus r.event.payload = true → (RecoveryStore.historical r).payload = r.event.payload) := by
  refine ⟨?_, ?_, ?_⟩
  · intro b hb
    obtain ⟨b', -, rfl⟩ := Option.map_eq_some_iff.1 hb
    rfl
  · intro hopen
    unfold RecoveryStore.historical
    dsimp only
    rw [if_neg (by rw [hopen]; decide)]
    exact Dict.get_set_self
  · intro hterminal
    unfold RecoveryStore.historical
    dsimp only
    rw [if_pos hterminal]

section Sound

variable {r r' : RecoveryRow}

theorem mem_storeRows (h : r ∈ p.storeRows env) : ∃ s scope, p.store = some s ∧ p.scope = some scope ∧
    r ∈ (s.prune env.wall).rows ∧ r.key.scope = scope ∧ env.profileAuthorizer r.key.profile = true := by
  unfold storeRows at h
  split at h
  · rename_i s scope hs hscope
    obtain ⟨hmem, hkey⟩ := List.mem_filter.1 h
    exact ⟨s, scope, hs, hscope, hmem, of_decide_eq_true hkey⟩
  · exact absurd h List.not_mem_nil

/-- What is in the store of a projection is sound. -/
def SoundRows (p : RecoveryProjection) : Prop := ∀ s ∈ p.store, SoundStore s

theorem storeRow_sound (hp : p.SoundRows) (h : r ∈ p.storeRows env) : SoundRow r := by
  obtain ⟨s, -, hs, -, hmem, -⟩ := mem_storeRows h
  exact ((hp s hs).rows r ((RecoveryStore.prune_trimmed s env.wall).rows.subset hmem)).1

/-- Two rows that are merged under one key are one. -/
theorem storeRow_unique (hp : p.SoundRows) (h : r ∈ p.storeRows env) (h' : r' ∈ p.storeRows env)
    (hkey : taskKey r' = taskKey r) : r' = r := by
  obtain ⟨s, scope, hs, hscope, hmem, hr, -⟩ := mem_storeRows h
  obtain ⟨s', scope', hs', hscope', hmem', hr', -⟩ := mem_storeRows h'
  rw [hs] at hs'
  cases hs'
  rw [hscope] at hscope'
  cases hscope'
  have hsame : r'.key = r.key := by
    obtain ⟨⟨rscope, profile, durable, child⟩, _, _⟩ := r
    obtain ⟨⟨rscope', profile', durable', child'⟩, _, _⟩ := r'
    simp only [taskKey, Prod.mk.injEq, Option.some.injEq] at hkey
    obtain ⟨rfl, rfl, rfl⟩ := hkey
    dsimp only at hr hr'
    subst hr hr'
    rfl
  exact List.inj_on_of_nodup_map ((RecoveryStore.prune_trimmed s env.wall).sound (hp s hs)).keyed hmem' hmem hsame

theorem lastRows_sublist (p : RecoveryProjection) (env : Surroundings) :
    (p.lastRows env).Sublist (p.storeRows env) := List.drop_sublist _ _

/-- A row that a snapshot does not look at although its child has finished, where a live event of the
    child is open and none has finished. -/
def Overlooked (p : RecoveryProjection) (env : Surroundings) : Prop :=
  ∃ r ∈ p.storeRows env, r ∉ p.lastRows env ∧ hasTerminalStatus r.event.payload = true ∧
    (∃ item ∈ p.tasks, Reportable env item.2 ∧ snapshotKey item.2 = taskKey r) ∧
    ∀ item ∈ p.tasks, Reportable env item.2 → snapshotKey item.2 = taskKey r →
      hasTerminalStatus item.2.payload = false

/-- The historical event of a row that a snapshot looks at. -/
theorem history_row (hp : p.SoundRows) (h : r ∈ p.lastRows env) :
    (p.history env).get (taskKey r) = some (RecoveryStore.historical r) := by
  have hr := (lastRows_sublist p env).subset h
  have hsome := history_isSome h
  rw [snapshotKey_historical (storeRow_sound hp hr)] at hsome
  obtain ⟨e, he⟩ := Option.isSome_iff_exists.1 hsome
  obtain ⟨hkey, r', hr', heq⟩ := mem_history (Dict.get_mem he)
  dsimp only at hkey heq
  have hrow' := (lastRows_sublist p env).subset hr'
  rw [heq, snapshotKey_historical (storeRow_sound hp hrow')] at hkey
  rw [he, heq, storeRow_unique hp hr hrow' hkey.symm]

/-- **What a snapshot reports of a finished child has finished**, unless the row of a child is
    overlooked. -/
theorem listed_finished (hp : p.SoundRows) (hlooked : ¬ p.Overlooked env) (hr : r ∈ p.storeRows env)
    (hterminal : hasTerminalStatus r.event.payload = true) (he : e ∈ (p.listed env).1)
    (hkey : snapshotKey e = taskKey r) : hasTerminalStatus e.payload = true := by
  have hmem := mem_listed he
  have hget := (keyed_merged p env).get_of_mem hmem
  have hdone : FinishedAt (p.merged env) (snapshotKey e) → hasTerminalStatus e.payload = true := by
    rintro ⟨e', hget', hterminal'⟩
    rw [hget] at hget'
    cases hget'
    exact hterminal'
  by_cases hlast : r ∈ p.lastRows env
  · refine hdone ?_
    rw [merged_eq, hkey]
    refine merge_finished ⟨_, history_row hp hlast, ?_⟩ _
    rw [(historical_spec r).2.2 hterminal]
    exact hterminal
  · rcases (mem_merged hmem).2 with ⟨hreportable, key, hitem⟩ | ⟨r', hr', rfl⟩
    · by_contra hopen
      refine hlooked ⟨r, hr, hlast, hterminal, ⟨_, hitem, hreportable, hkey⟩, ?_⟩
      intro item hitem' hreportable' hkey'
      by_contra hfinished
      refine hopen (hdone ?_)
      rw [merged_eq, hkey, ← hkey']
      exact merge_live_finished (List.mem_map_of_mem hitem') hreportable' (by simpa using hfinished)
    · have hrow' := (lastRows_sublist p env).subset hr'
      rw [snapshotKey_historical (storeRow_sound hp hrow')] at hkey
      exact absurd (storeRow_unique hp hr hrow' hkey ▸ hr') hlast

end Sound

end RecoveryProjection

end MercuryRelay
