/-
  A store and a snapshot with room (lease_recovery.py, `put`, `observe` and
  `snapshot`).

  As long as the rows are few and small, what is put is added to them; and a
  binding puts the events of its session whatever the rows are.

  * `puts_append`: the rows after puts that all have room;
  * `persistingAll_eq`: what a binding asks of a store that does not fail;
  * `binds_session`: what a binding does to a service of one lease;
  * `merged_append`: a snapshot of an event that no row knows, and of events
    that rows know.
-/
import MercuryRelay.Recovery.Service
import MercuryRelay.Recovery.Snapshot

set_option autoImplicit false

namespace MercuryRelay

open Python

/-- An event is put while the clock stands. -/
def StoreAct.PutsAt (wall : ℚ) : StoreAct → Prop
  | .put c _ _ _ => c = ⟨wall, wall, wall⟩
  | _ => False

namespace RecoveryStore

variable {s : RecoveryStore} {acts : List StoreAct} {wall : ℚ}

/-! ## Puts that have room -/

/-- A store is written in the length of its rows and some more. -/
theorem length_encode_le (h0 : 0 ≤ s.revision) (h : s.revision ≤ 2 ^ 63 - 1) :
    s.encode.length ≤ (s.rows.map fun r => r.toJson.textLength 1 1 + 1).sum + 80 := by
  have hrevision := length_intRepr_le h0 (h.trans (by decide))
  have hrows : ∀ rows : List RecoveryRow, (rows.map fun r => r.toJson.textLength 1 1).sum + rows.length =
      (rows.map fun r => r.toJson.textLength 1 1 + 1).sum := by
    intro rows
    induction rows with
    | nil => rfl
    | cons r rows ih =>
      simp only [List.map_cons, List.sum_cons, List.length_cons] at ih ⊢
      omega
  have hrows := hrows s.rows
  rw [length_encode]
  split <;> omega

/-- The rows that puts add, from a revision on. -/
def news (ttl : ℚ) : ℤ → List StoreAct → List RecoveryRow
  | n, .put c scope binding event :: acts =>
    ⟨putKey scope binding event, floatSum c.stored ttl,
      { event with recoveryRevision := n + 1, relayEventId := some (n + 1) }⟩ :: news ttl (n + 1) acts
  | n, _ :: acts => news ttl n acts
  | _, [] => []

/-- Rows that are kept and fit: few and small, each of its own child and not expired. -/
structure Room (maxRows : ℕ) (wall : ℚ) (rows : List RecoveryRow) : Prop where
  few : rows.length ≤ maxRows
  small : (rows.map fun r => r.toJson.textLength 1 1 + 1).sum + 80 ≤ maxStoreBytes
  keyed : (rows.map (·.key)).Nodup
  live : ∀ r ∈ rows, wall < r.expiresAt

theorem Room.sublist {maxRows : ℕ} {rows rows' : List RecoveryRow} (h : Room maxRows wall rows')
    (hsub : rows.Sublist rows') : Room maxRows wall rows where
  few := hsub.length_le.trans h.few
  small := (Nat.add_le_add_right ((hsub.map _).sum_le_sum fun _ _ => Nat.zero_le _) 80).trans h.small
  keyed := h.keyed.sublist (hsub.map _)
  live r hr := h.live r (hsub.subset hr)

theorem prune_of_room (h : Room s.maxRows wall s.rows) : (s.prune wall).rows = s.rows := by
  have hlive : s.rows.filter (fun r => decide (wall < r.expiresAt)) = s.rows :=
    List.filter_eq_self.2 fun r hr => decide_eq_true (h.live r hr)
  show List.drop _ (s.rows.filter fun r => decide (wall < r.expiresAt)) = s.rows
  rw [hlive, Nat.sub_eq_zero_of_le h.few, List.drop_zero]

theorem truncated_of_room (h : Room s.maxRows wall s.rows) : (s.prune wall).truncated = s.truncated := by
  have hlive : s.rows.filter (fun r => decide (wall < r.expiresAt)) = s.rows :=
    List.filter_eq_self.2 fun r hr => decide_eq_true (h.live r hr)
  simp only [prune, hlive, bne_self_eq_false, Bool.or_false, Nat.not_lt.2 h.few, decide_false]

/-- A put of a new child that has room adds its row. -/
theorem put_adds {scope : Scope} {binding : Binding} {event : TaskEvent} (hfaults : s.faults = [])
    (h0 : 0 ≤ s.revision) (h : s.revision + 1 ≤ 2 ^ 63 - 1)
    (hroom : Room s.maxRows wall (s.rows ++ [s.putRow wall (putKey scope binding event) event])) :
    let t := s.act (.put ⟨wall, wall, wall⟩ scope binding event)
    t.rows = s.rows ++ [s.putRow wall (putKey scope binding event) event] ∧ t.revision = s.revision + 1 ∧
      t.truncated = s.truncated ∧ t.maxRows = s.maxRows ∧ t.ttlSeconds = s.ttlSeconds ∧ t.faults = [] := by
  have hold : Room s.maxRows wall s.rows := hroom.sublist (List.sublist_append_left _ _)
  have hnew : ∀ r ∈ s.rows, r.key ≠ putKey scope binding event := by
    intro r hr heq
    have hkeyed := hroom.keyed
    rw [List.map_append, List.nodup_append] at hkeyed
    exact hkeyed.2.2 _ (List.mem_map_of_mem hr) _ List.mem_cons_self heq
  have hrows : (s.adding ⟨wall, wall, wall⟩ (putKey scope binding event) event).rows =
      s.rows ++ [s.putRow wall (putKey scope binding event) event] := by
    show (s.prune wall).rows.filter _ ++ _ = _
    rw [prune_of_room hold, List.filter_eq_self.2 fun r hr => decide_eq_true (hnew r hr)]
  have hadding : Room (s.adding ⟨wall, wall, wall⟩ (putKey scope binding event) event).maxRows wall
      (s.adding ⟨wall, wall, wall⟩ (putKey scope binding event) event).rows := by
    rw [hrows]
    exact hroom
  have hsaving : (s.adding ⟨wall, wall, wall⟩ (putKey scope binding event) event).saving wall =
      (s.adding ⟨wall, wall, wall⟩ (putKey scope binding event) event).prune wall := by
    refine saving_of_fits ((length_encode_le (Int.add_nonneg h0 (by decide)) h).trans ?_)
    rw [prune_of_room hadding]
    exact hadding.small
  have htruncated : (s.adding ⟨wall, wall, wall⟩ (putKey scope binding event) event).truncated = s.truncated :=
    truncated_of_room hold
  have hcases := put_cases s ⟨wall, wall, wall⟩ scope binding event
  dsimp only [act]
  generalize s.put ⟨wall, wall, wall⟩ scope binding event = x at hcases ⊢
  cases hcases with
  | finished hprior _ =>
    obtain ⟨hmem, hkey⟩ := priorRow_spec hprior
    rw [prune_of_room hold] at hmem
    exact absurd hkey (hnew _ hmem)
  | unrendered _ hlong =>
    rw [rendered_of_le (by omega) (by omega)] at hlong
    cases hlong
  | stored _ _ _ =>
    have htail : s.faults.tail = [] := by rw [hfaults]; rfl
    dsimp only
    rw [hsaving, htail]
    exact ⟨(prune_of_room hadding).trans hrows, rfl, (truncated_of_room hadding).trans htruncated, rfl, rfl, rfl⟩
  | failed _ _ hwrite =>
    rw [hfaults] at hwrite
    cases hwrite

/-- **Puts that all have room add their rows**, and nothing is lost. -/
theorem puts_append (hputs : ∀ b ∈ acts, b.PutsAt wall) (hfaults : s.faults = []) (h0 : 0 ≤ s.revision)
    (h : s.revision + acts.length ≤ 2 ^ 63 - 1)
    (hroom : Room s.maxRows wall (s.rows ++ news s.ttlSeconds s.revision acts)) :
    (acts.foldl act s).rows = s.rows ++ news s.ttlSeconds s.revision acts ∧
      (acts.foldl act s).truncated = s.truncated ∧ (acts.foldl act s).maxRows = s.maxRows := by
  induction acts generalizing s with
  | nil => exact ⟨(List.append_nil _).symm, rfl, rfl⟩
  | cons b acts ih =>
    rw [List.forall_mem_cons] at hputs
    obtain ⟨hput, hputs⟩ := hputs
    cases b with
    | put c scope binding event =>
      obtain rfl : c = ⟨wall, wall, wall⟩ := hput
      have hsplit : s.rows ++ news s.ttlSeconds s.revision (.put ⟨wall, wall, wall⟩ scope binding event :: acts) =
          (s.rows ++ [s.putRow wall (putKey scope binding event) event]) ++
            news s.ttlSeconds (s.revision + 1) acts := by
        rw [List.append_assoc]
        rfl
      rw [List.length_cons] at h
      rw [hsplit] at hroom ⊢
      have hadds := put_adds hfaults h0 (by omega) (hroom.sublist (List.sublist_append_left _ _))
      dsimp only at hadds
      obtain ⟨hrows, hrevision, htruncated, hmax, httl, hfaults'⟩ := hadds
      rw [← hrows, ← hrevision, ← httl, ← hmax] at hroom
      obtain ⟨h1, h2, h3⟩ := ih hputs hfaults' (by omega) (by omega) hroom
      rw [hrows, hrevision, httl] at h1
      exact ⟨h1, h2.trans htruncated, h3.trans hmax⟩
    | _ => exact absurd hput id

end RecoveryStore

namespace RecoveryProjection

variable {p : RecoveryProjection} {env : Surroundings} {runtime : Str}

/-! ## Binding a session -/

/-- The store has no failing write to come, and can write `n` revisions. -/
def Writable (p : RecoveryProjection) (n : ℕ) : Prop :=
  ∀ s ∈ p.store, s.faults = [] ∧ 0 ≤ s.revision ∧ s.revision + n ≤ 2 ^ 63

theorem Writable.less {n : ℕ} (hp : p.Writable (n + 1)) : p.Writable n := by
  intro s hs
  obtain ⟨hfaults, h0, hmax⟩ := hp s hs
  exact ⟨hfaults, h0, by push_cast at hmax; omega⟩

theorem persist_ok {n : ℕ} (hp : p.Writable (n + 1)) {event event' : TaskEvent} {p' : RecoveryProjection}
    {fault : Option ObserveFault} (hx : p.persist env event = (p', event', fault)) :
    fault = none ∧ p'.Writable n := by
  rw [persist_eq] at hx
  split at hx
  · cases hx
    exact ⟨rfl, hp.less⟩
  · rename_i binding _
    split at hx
    · rename_i store scope hstore _
      obtain ⟨hfaults, h0, hmax⟩ := hp store hstore
      push_cast at hmax
      obtain ⟨hdone, hfaults'⟩ := @RecoveryStore.put_ok store (env.readings 0) scope binding (bound binding event)
        hfaults (rendered_of_le (by omega) (by omega))
      obtain ⟨hle, hle'⟩ := store.put_revision (env.readings 0) scope binding (bound binding event)
      rcases hput : store.put (env.readings 0) scope binding (bound binding event) with ⟨revision, event'', store'⟩
      rw [hput] at hx hdone hfaults' hle hle'
      cases revision with
      | none => cases hdone
      | some revision =>
        cases hx
        refine ⟨rfl, fun s hs => ?_⟩
        cases hs
        exact ⟨hfaults', h0.trans hle, by dsimp only at hle'; omega⟩
    · cases hx
      exact ⟨rfl, hp.less⟩

/-- **What a binding asks of a store that does not fail**, while the clock stands: a put of each event of its
    session. -/
theorem persistingAll_eq (hstill : env.next = env) (tasks : Dict (Str × Str) TaskEvent)
    (hp : p.Writable tasks.length) : persistingAll runtime env p tasks =
      (tasks.filter fun item => item.1.1 = runtime).flatMap fun item => p.persisting env item.2 := by
  induction tasks generalizing p with
  | nil => rfl
  | cons item tasks ih =>
    obtain ⟨key, event⟩ := item
    unfold persistingAll
    by_cases hkey : key.1 = runtime
    · obtain ⟨store, hp'⟩ := persist_fst p env event
      have hstore := persist_store p env event
      rcases hx : p.persist env event with ⟨p', event', fault⟩
      obtain ⟨rfl, hwritable⟩ := persist_ok hp hx
      rw [hx] at hp' hstore
      obtain rfl : p' = { p with store := store } := hp'
      have hstore : store = p.store.map _ := hstore
      have hsame : ∀ e, RecoveryProjection.persisting { p with store := store } env e = p.persisting env e := by
        intro e
        unfold persisting
        dsimp only
        have hbinding : bindingOf { p with store := store } env e = p.bindingOf env e := rfl
        rw [hbinding, hstore]
        cases p.store with
        | none => rfl
        | some s => cases p.bindingOf env e <;> cases p.scope <;> rfl
      rw [if_pos hkey, List.filter_cons, if_pos (decide_eq_true hkey), List.flatMap_cons]
      dsimp only
      rw [hstill, ih hwritable]
      simp only [hsame]
    · rw [if_neg hkey, List.filter_cons, if_neg (by simpa using hkey)]
      exact ih hp.less

/-- An event that is persisted has the binding of its session. -/
theorem persist_binding {event : TaskEvent} {binding : Binding} (h : p.bindingOf env event = some binding) :
    (p.persist env event).2.1.recoveryBinding = some binding := by
  rw [persist_eq, h]
  dsimp only
  split
  · rename_i store scope _ _
    have hcases := RecoveryStore.put_cases store (env.readings 0) scope binding (bound binding event)
    generalize store.put (env.readings 0) scope binding (bound binding event) = x at hcases ⊢
    cases hcases <;> rfl
  · rfl

/-- The tasks after a binding: those of the session are bound, the others are what they were. -/
theorem mem_persistAll (hstill : env.next = env) {tasks : Dict (Str × Str) TaskEvent} (hp : p.Writable tasks.length)
    {item : (Str × Str) × TaskEvent} (h : item ∈ (persistAll runtime env p tasks).2.1) : ∃ old ∈ tasks, item.1 = old.1 ∧
      (old.1.1 ≠ runtime → item = old) ∧
      (old.1.1 = runtime → ∀ binding, p.bindingOf env old.2 = some binding →
        item.2.recoveryBinding = some binding) := by
  induction tasks generalizing p with
  | nil => exact absurd h List.not_mem_nil
  | cons first tasks ih =>
    obtain ⟨key, event⟩ := first
    unfold persistAll at h
    split at h
    · rename_i hkey
      obtain ⟨store, hp'⟩ := persist_fst p env event
      have hbinding := @persist_binding p env event
      rcases hx : p.persist env event with ⟨p', event', fault⟩
      obtain ⟨rfl, hwritable⟩ := persist_ok hp hx
      rw [hx] at h hp' hbinding
      obtain rfl : p' = { p with store := store } := hp'
      rw [hstill] at h
      rcases List.mem_cons.1 h with rfl | h
      · exact ⟨_, List.mem_cons_self, rfl, fun hne => absurd hkey hne, fun _ binding hb => hbinding hb⟩
      · obtain ⟨old, hold, h1, h2, h3⟩ := ih hwritable h
        exact ⟨old, List.mem_cons_of_mem _ hold, h1, h2, h3⟩
    · rename_i hkey
      rcases List.mem_cons.1 h with rfl | h
      · exact ⟨_, List.mem_cons_self, rfl, fun _ => rfl, fun heq => absurd heq hkey⟩
      · obtain ⟨old, hold, h1, h2, h3⟩ := ih hp.less h
        exact ⟨old, List.mem_cons_of_mem _ hold, h1, h2, h3⟩

/-- An event of a new child, in a session that is not bound, is the newest task. -/
theorem report_unbound {key : Str × Str} {event : TaskEvent} (hbinding : p.bindings.get event.sessionId = none)
    (hnew : p.tasks.get key = none) : p.report env key event = ({ p with
      revision := p.revision + 1
      tasks := bounded (p.tasks ++ [(key, event)])
      truncated := p.truncated || maxRows < (p.tasks ++ [(key, event)]).length }, none) := by
  have hpersist : RecoveryProjection.persist { p with revision := p.revision + 1 } env event =
      ({ p with revision := p.revision + 1 }, event, none) := by
    rw [persist_eq]
    have hnone : bindingOf { p with revision := p.revision + 1 } env event = none := by
      show Option.filter _ (p.bindings.get event.sessionId) = none
      rw [hbinding]
      rfl
    rw [hnone]
  have htasks : Dict.moveToEnd (p.tasks.set key event) key = p.tasks ++ [(key, event)] := by
    rw [Dict.moveToEnd_of_get Dict.get_set_self, Dict.remove_set hnew]
  unfold report
  rw [hpersist]
  dsimp only
  rw [htasks]

/-! ## An event that no row knows -/

variable {d : Dict TaskKey TaskEvent} {e : TaskEvent} {es : List TaskEvent} {k : TaskKey}

/-- Events of children that have a row leave the last entry, of another child, where it is. -/
theorem merge_append (h : ∀ x ∈ es, (d.get (snapshotKey x)).isSome ∧ snapshotKey x ≠ k) :
    ∃ d', es.foldl (mergeTask env.profileAuthorizer) (d ++ [(k, e)]) = d' ++ [(k, e)] := by
  induction es generalizing d with
  | nil => exact ⟨d, rfl⟩
  | cons x es ih =>
    rw [List.forall_mem_cons] at h
    obtain ⟨⟨hsome, hne⟩, hes⟩ := h
    have hset : Dict.set (d ++ [(k, e)]) (snapshotKey x) x = Dict.set d (snapshotKey x) x ++ [(k, e)] :=
      Dict.set_append hsome
    rw [List.foldl_cons, mergeTask]
    split
    · exact ih hes
    · split
      · exact ih hes
      · rw [hset]
        refine ih fun y hy => ⟨?_, (hes y hy).2⟩
        rw [Dict.get_set]
        split
        · rfl
        · exact (hes y hy).1

/-- **An open event that no row knows is merged last**, if rows know the other live events. -/
theorem merged_append {key : Str × Str} {rest : Dict (Str × Str) TaskEvent} (htasks : p.tasks = (key, e) :: rest)
    (hreportable : Reportable env e) (hnew : (p.history env).get (snapshotKey e) = none)
    (hrest : ∀ item ∈ rest, ((p.history env).get (snapshotKey item.2)).isSome) :
    ∃ d', p.merged env = d' ++ [(snapshotKey e, e)] := by
  have hfirst : mergeTask env.profileAuthorizer (p.history env) e = p.history env ++ [(snapshotKey e, e)] := by
    have hauthorized : (e.recoveryBinding.map fun b => !env.profileAuthorizer b.profile).getD false = false := by
      cases hb : e.recoveryBinding with
      | none => rfl
      | some b =>
        have hprofile := hreportable b hb
        simp only [Option.map_some, Option.getD_some, hprofile, Bool.not_true]
    rw [mergeTask, hauthorized, hnew, Dict.set_new hnew]
    rfl
  rw [merged_eq, htasks, List.map_cons, List.foldl_cons, hfirst]
  refine merge_append fun x hx => ?_
  obtain ⟨item, hitem, rfl⟩ := List.mem_map.1 hx
  refine ⟨hrest item hitem, fun heq => ?_⟩
  have hsome := hrest item hitem
  rw [heq, hnew] at hsome
  cases hsome

/-- The newest task is listed, if it is not too long by itself. -/
theorem mem_fitTasks (h : (write plainAscii (.arr [e.toJson])).length ≤ maxSnapshotBytes) (tasks : List TaskEvent) :
    e ∈ (fitTasks (tasks ++ [e])).1 := by
  induction tasks with
  | nil =>
    rw [List.nil_append, fitTasks, List.map_singleton, if_neg (Nat.not_lt.2 h)]
    exact List.mem_cons_self
  | cons x tasks ih =>
    rw [List.cons_append, fitTasks]
    split
    · exact ih
    · exact List.mem_cons_of_mem _ (List.mem_append_right _ List.mem_cons_self)

/-- What is merged last is listed, if it is not too long by itself. -/
theorem listed_last {d' : Dict TaskKey TaskEvent} (h : p.merged env = d' ++ [(k, e)])
    (hsmall : (write plainAscii (.arr [e.toJson])).length ≤ maxSnapshotBytes) : e ∈ (p.listed env).1 := by
  have hdrop : (p.merged env).length - maxRows ≤ d'.length := by
    have hmax : 1 ≤ maxRows := by decide
    rw [h, List.length_append, List.length_singleton]
    omega
  unfold listed Dict.last
  rw [h, List.drop_append_of_le_length (by rw [← h]; exact hdrop), List.map_append]
  exact mem_fitTasks hsmall _

end RecoveryProjection

namespace RecoveryService

open RecoveryProjection

variable {depths : JsonDepths} {m : RecoveryService} {p : RecoveryProjection} {env : Surroundings}

/-! ## A service of one lease -/

theorem perform_observe (m : RecoveryService) (i : ℕ) (env : Surroundings) (text : Str) :
    m.perform depths (.observe i env text) = m.on i fun p => (p.observeValue env (loadsStrict depths text)).1 := rfl

theorem lend_store (h : p.store.isSome) : (m.lend p).store = some m.store := by
  obtain ⟨s, hs⟩ := Option.isSome_iff_exists.1 h
  show p.store.map _ = _
  rw [hs]
  rfl

theorem on_single {f : RecoveryProjection → RecoveryProjection} {s : RecoveryStore} (hp : m.projections = [p])
    (hs : (f (m.lend p)).store = some s) : (m.on 0 f).store = s ∧ (m.on 0 f).projections = [f (m.lend p)] := by
  have hfirst : m.projections[0]? = some p := by rw [hp]; rfl
  rw [on, hfirst]
  dsimp only
  rw [hs, hp]
  exact ⟨rfl, rfl⟩

theorem flatMap_singletons {α β : Type} {l : List α} {f : α → List β} {g : α → β} (h : ∀ x ∈ l, f x = [g x]) :
    l.flatMap f = l.map g := by
  induction l with
  | nil => rfl
  | cons x l ih =>
    rw [List.forall_mem_cons] at h
    rw [List.flatMap_cons, h.1, ih h.2]
    rfl

/-- The puts of the events of a session that is bound. -/
def bindingPuts (env : Surroundings) (scope : Scope) (binding : Binding) (tasks : Dict (Str × Str) TaskEvent) :
    List StoreAct :=
  (tasks.filter fun item => item.1.1 = binding.runtimeSessionId).map fun item =>
    .put (env.readings 0) scope binding (bound binding item.2)

/-- **A reply that binds a session** puts the events of its tasks, and binds them. -/
theorem binds_session {scope : Scope} {text : Str} {rid : Json} {binding : Binding} (hp : m.projections = [p])
    (hstore : p.store.isSome) (hscope : p.scope = some scope) (hstill : env.next = env)
    (hfaults : m.store.faults = []) (h0 : 0 ≤ m.store.revision) (hmax : m.store.revision + p.tasks.length ≤ 2 ^ 63)
    (hbound : (m.lend p).boundBy env (loadsStrict depths text) = some (rid, binding))
    (hauthorized : env.profileAuthorizer binding.profile = true)
    (hbinding : (bounded (p.bindings.set binding.runtimeSessionId binding)).get binding.runtimeSessionId = some binding)
    (hsession : ∀ item ∈ p.tasks, item.2.sessionId = item.1.1) :
    (m.perform depths (.observe 0 env text)).store =
        (bindingPuts env scope binding p.tasks).foldl RecoveryStore.act m.store ∧
      ∃ p', (m.perform depths (.observe 0 env text)).projections = [p'] ∧ p'.store.isSome ∧ p'.scope = some scope ∧
        p'.tasks.map (·.1) = p.tasks.map (·.1) ∧
        ∀ item ∈ p'.tasks, ∃ old ∈ p.tasks, item.1 = old.1 ∧
          (old.1.1 ≠ binding.runtimeSessionId → item = old) ∧
          (old.1.1 = binding.runtimeSessionId → item.2.recoveryBinding = some binding) := by
  obtain ⟨q, hq⟩ : ∃ q, q = { m.lend p with pending := (m.lend p).unanswered (loadsStrict depths text) } := ⟨_, rfl⟩
  have hqtasks : q.tasks = p.tasks := by rw [hq]; rfl
  have hobserve : (m.lend p).observeValue env (loadsStrict depths text) = q.bind env binding := by
    have hcases := observeValue_cases (m.lend p) env (loadsStrict depths text)
    rw [hq]
    generalize (m.lend p).observeValue env (loadsStrict depths text) = r at hcases
    cases hcases with
    | quiet hnone _ _ =>
      rw [hbound] at hnone
      cases hnone
    | binds hsome _ =>
      rw [hbound] at hsome
      cases hsome
      rfl
    | reports _ hnone _ =>
      rw [hbound] at hnone
      cases hnone
  obtain ⟨r, hr⟩ : ∃ r, r = q.binds binding := ⟨_, rfl⟩
  have hrstore : r.store = some m.store := by rw [hr, hq]; exact lend_store hstore
  have hrscope : r.scope = some scope := by rw [hr, hq]; exact hscope
  have hrbinding : ∀ item ∈ p.tasks, item.1.1 = binding.runtimeSessionId →
      r.bindingOf env item.2 = some binding := by
    intro item hitem hkey
    have hget : r.bindings.get binding.runtimeSessionId = some binding := by rw [hr, hq]; exact hbinding
    rw [bindingOf, hsession item hitem, hkey, hget, Option.filter_some, if_pos hauthorized]
  have hwritable : r.Writable q.tasks.length := by
    intro s hs
    rw [hrstore] at hs
    have hsame : m.store = s := Option.some.inj hs
    rw [← hsame, hqtasks]
    exact ⟨hfaults, h0, hmax⟩
  have hputs : persistingAll binding.runtimeSessionId env r q.tasks = bindingPuts env scope binding p.tasks := by
    rw [persistingAll_eq hstill _ hwritable, hqtasks]
    refine flatMap_singletons fun item hitem => ?_
    obtain ⟨hmem, hkey⟩ := List.mem_filter.1 hitem
    rw [persisting, hrbinding item hmem (of_decide_eq_true hkey), hrstore, hrscope]
  have hstored : (persistAll binding.runtimeSessionId env r q.tasks).1.store =
      some ((bindingPuts env scope binding p.tasks).foldl RecoveryStore.act m.store) := by
    rw [persistAll_store, hputs, hrstore]
    rfl
  obtain ⟨store, hpersisted⟩ := persistAll_fst binding.runtimeSessionId env r q.tasks
  have hbind : (q.bind env binding).1 =
      { r with store := store, tasks := (persistAll binding.runtimeSessionId env r q.tasks).2.1 } := by
    have hpair : (q.bind env binding).1 = { (persistAll binding.runtimeSessionId env r q.tasks).1 with
        tasks := (persistAll binding.runtimeSessionId env r q.tasks).2.1 } := by rw [hr]; rfl
    rw [hpair, hpersisted]
  rw [hpersisted] at hstored
  have hstored : store = some _ := hstored
  have hsingle := @on_single m p (fun x => (x.observeValue env (loadsStrict depths text)).1)
    ((bindingPuts env scope binding p.tasks).foldl RecoveryStore.act m.store) hp (by
      rw [hobserve, hbind]
      exact hstored)
  rw [perform_observe, hsingle.1, hsingle.2, hobserve, hbind]
  refine ⟨rfl, _, rfl, ?_, hrscope, ?_, ?_⟩
  · rw [hstored]
    rfl
  · show (persistAll binding.runtimeSessionId env r q.tasks).2.1.map (·.1) = _
    rw [persistAll_keys, hqtasks]
  · intro item hitem
    obtain ⟨old, hold, h1, h2, h3⟩ := mem_persistAll hstill hwritable hitem
    rw [hqtasks] at hold
    exact ⟨old, hold, h1, h2, fun hkey => h3 hkey binding (hrbinding old hold hkey)⟩

end RecoveryService

end MercuryRelay
