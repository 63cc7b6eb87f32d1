/-
  What a projection asks of the store (lease_recovery.py, `_persist` and its
  callers).

  Every call of a projection changes the store by the acts that it asks for,
  and by nothing else; what it puts is sound, and so is what it then holds.

  * `observe_store`, `upgrade_store`: the store after a call;
  * `observe_sound`, `upgrade_sound`: what a call keeps.
-/
import MercuryRelay.Recovery.Acts
import MercuryRelay.Recovery.Bindings

set_option autoImplicit false

namespace MercuryRelay

open Python

namespace RecoveryProjection

variable {p q : RecoveryProjection} {env : Surroundings} {depths : JsonDepths}

/-- The event as a binding bounds it. -/
def bound (binding : Binding) (event : TaskEvent) : TaskEvent :=
  { event with
    recoveryBinding := some binding
    durableSessionId := some binding.durableSessionId
    profile := some binding.profile }

/-- The binding under which an event is persisted. -/
def bindingOf (p : RecoveryProjection) (env : Surroundings) (event : TaskEvent) : Option Binding :=
  (p.bindings.get event.sessionId).filter fun b => env.profileAuthorizer b.profile

/-- What `_persist` asks of the store. -/
def persisting (p : RecoveryProjection) (env : Surroundings) (event : TaskEvent) : List StoreAct :=
  match p.bindingOf env event, p.store, p.scope with
  | some binding, some _, some scope => [.put (env.readings 0) scope binding (bound binding event)]
  | _, _, _ => []

/-- What persisting the events of one session asks, up to a write that raises. -/
def persistingAll (runtime : Str) :
    Surroundings → RecoveryProjection → Dict (Str × Str) TaskEvent → List StoreAct
  | _, _, [] => []
  | env, p, (key, event) :: tasks =>
    if key.1 = runtime then
      p.persisting env event ++
        match p.persist env event with
        | (_, _, some _) => []
        | (p, _, none) => persistingAll runtime env.next p tasks
    else persistingAll runtime env p tasks

/-- What persisting every event asks. -/
def persistingEach : Surroundings → RecoveryProjection → Dict (Str × Str) TaskEvent → List StoreAct
  | _, _, [] => []
  | env, p, (_, event) :: tasks =>
    p.persisting env event ++
      match p.persist env event with
      | (_, _, some _) => []
      | (p, _, none) => persistingEach env.next p tasks

/-- The projection with a new binding, before its events are persisted. -/
def binds (p : RecoveryProjection) (binding : Binding) : RecoveryProjection :=
  { p with
    bindings := bounded (p.bindings.set binding.runtimeSessionId binding)
    truncated := p.truncated || maxRows < (p.bindings.set binding.runtimeSessionId binding).length }

/-- What a frame asks. -/
def observing (p : RecoveryProjection) (env : Surroundings) (value : Option Json) : List StoreAct :=
  match p.boundBy env value with
  | some (_, binding) =>
    persistingAll binding.runtimeSessionId env ({ p with pending := p.unanswered value }.binds binding) p.tasks
  | none =>
    match p.reported value with
    | some (_, event) => { p with revision := p.revision + 1 }.persisting env event
    | none => []

/-- What `_reattach_lease` asks of a store that the lease had not. -/
def upgrading (p : RecoveryProjection) (env : Surroundings) (store : RecoveryStore) : List StoreAct :=
  if p.store.isSome then [] else persistingEach env { p with store := some store } p.tasks

/-! ## The store after a call -/

/-- What `persist` does with the binding it finds. -/
theorem persist_eq (p : RecoveryProjection) (env : Surroundings) (event : TaskEvent) :
    p.persist env event =
      match p.bindingOf env event with
      | none => (p, event, none)
      | some binding =>
        match p.store, p.scope with
        | some store, some scope =>
          match store.put (env.readings 0) scope binding (bound binding event) with
          | (some revision, event, store) =>
            ({ p with store := some store },
              { event with recoveryRevision := revision, relayEventId := some revision }, none)
          | (none, event, store) => ({ p with store := some store }, event, some .storeWrite)
        | _, _ => (p, bound binding event, none) := by
  unfold persist bindingOf
  cases p.bindings.get event.sessionId with
  | none => rfl
  | some binding =>
    dsimp only
    by_cases hauth : env.profileAuthorizer binding.profile = true
    · rw [if_neg (not_not.2 hauth), Option.filter_some, if_pos hauth]
      rfl
    · rw [if_pos hauth, Option.filter_some, if_neg hauth]

theorem persist_store (p : RecoveryProjection) (env : Surroundings) (event : TaskEvent) :
    (p.persist env event).1.store =
      p.store.map fun s => (p.persisting env event).foldl RecoveryStore.act s := by
  rw [persist_eq]
  unfold persisting
  cases p.bindingOf env event with
  | none => cases p.store <;> rfl
  | some binding =>
    cases hstore : p.store with
    | none => exact hstore
    | some store =>
      cases p.scope with
      | none => exact hstore
      | some scope =>
        have hact : ([StoreAct.put (env.readings 0) scope binding (bound binding event)]).foldl
            RecoveryStore.act store = (store.put (env.readings 0) scope binding (bound binding event)).2.2 := rfl
        dsimp only [Option.map_some]
        rw [hact]
        rcases store.put (env.readings 0) scope binding (bound binding event) with ⟨revision, event', store'⟩
        cases revision <;> rfl

theorem map_foldl_append (store : Option RecoveryStore) (as bs : List StoreAct) :
    (store.map fun s => (as ++ bs).foldl RecoveryStore.act s) =
      (store.map fun s => as.foldl RecoveryStore.act s).map fun s => bs.foldl RecoveryStore.act s := by
  cases store with
  | none => rfl
  | some s => exact congrArg some List.foldl_append

theorem persistAll_store (runtime : Str) (env : Surroundings) (p : RecoveryProjection)
    (tasks : Dict (Str × Str) TaskEvent) :
    (persistAll runtime env p tasks).1.store =
      p.store.map fun s => (persistingAll runtime env p tasks).foldl RecoveryStore.act s := by
  induction tasks generalizing p env with
  | nil => exact Option.map_id'.symm
  | cons item tasks ih =>
    obtain ⟨key, event⟩ := item
    unfold persistAll persistingAll
    split
    · have hstore := persist_store p env event
      rcases hx : p.persist env event with ⟨p', event', fault⟩
      rw [hx] at hstore
      rw [map_foldl_append, ← hstore]
      cases fault with
      | some fault => exact Option.map_id'.symm
      | none => exact ih env.next p'
    · exact ih env p

theorem persistEach_store (env : Surroundings) (p : RecoveryProjection) (tasks : Dict (Str × Str) TaskEvent) :
    (persistEach env p tasks).1.store =
      p.store.map fun s => (persistingEach env p tasks).foldl RecoveryStore.act s := by
  induction tasks generalizing p env with
  | nil => exact Option.map_id'.symm
  | cons item tasks ih =>
    obtain ⟨key, event⟩ := item
    unfold persistEach persistingEach
    have hstore := persist_store p env event
    rcases hx : p.persist env event with ⟨p', event', fault⟩
    rw [hx] at hstore
    rw [map_foldl_append, ← hstore]
    cases fault with
    | some fault => exact Option.map_id'.symm
    | none => exact ih env.next p'

theorem bind_store (p : RecoveryProjection) (env : Surroundings) (binding : Binding) :
    (p.bind env binding).1.store = p.store.map fun s =>
      (persistingAll binding.runtimeSessionId env (p.binds binding) p.tasks).foldl RecoveryStore.act s :=
  persistAll_store binding.runtimeSessionId env (p.binds binding) p.tasks

theorem report_store (p : RecoveryProjection) (env : Surroundings) (key : Str × Str) (event : TaskEvent) :
    (p.report env key event).1.store = p.store.map fun s =>
      ({ p with revision := p.revision + 1 }.persisting env event).foldl RecoveryStore.act s := by
  have hstore := persist_store { p with revision := p.revision + 1 } env event
  unfold report
  rcases hx : ({ p with revision := p.revision + 1 } : RecoveryProjection).persist env event with ⟨p', event', fault⟩
  rw [hx] at hstore
  cases fault <;> exact hstore

/-- **The store after a frame** is what the acts that it asks for leave. -/
theorem observe_store (p : RecoveryProjection) (env : Surroundings) (value : Option Json) :
    (p.observeValue env value).1.store = p.store.map fun s => (p.observing env value).foldl RecoveryStore.act s := by
  have hcases := observeValue_cases p env value
  generalize p.observeValue env value = r at hcases
  unfold observing
  cases hcases with
  | quiet hbound hreport _ =>
    rw [hbound, hreport]
    exact Option.map_id'.symm
  | @binds rid binding hbound hreport =>
    rw [hbound]
    exact bind_store { p with pending := p.unanswered value } env binding
  | @reports key event hanswered hbound hreport =>
    rw [hbound, hreport]
    exact report_store p env key event

theorem upgrade_store (p : RecoveryProjection) (env : Surroundings) (store : RecoveryStore) :
    (p.upgrade env store).1.store =
      some ((p.upgrading env store).foldl RecoveryStore.act (p.store.getD store)) := by
  unfold upgrade upgrading
  cases hstore : p.store with
  | some s => exact hstore
  | none => exact persistEach_store env { p with store := some store } p.tasks

/-! ## Sound projections -/

/-- A task whose event names its session and its child; a bound one has a sound binding of its session. -/
structure SoundTask (key : Str × Str) (e : TaskEvent) : Prop where
  session : e.sessionId = key.1
  named : Named key.1
  kind : LegibleStr e.kind
  payload : SoundPayload e.payload
  child : childKey e.payload = some key.2
  bound : ∀ b ∈ e.recoveryBinding, SoundBinding b ∧ b.runtimeSessionId = key.1 ∧
    e.durableSessionId = some b.durableSessionId ∧ e.profile = some b.profile

/-- The tables hold 64 items at most, and what they hold can be stored. -/
structure Sound (p : RecoveryProjection) : Prop where
  tables : p.Bounded
  scope : ∀ scope ∈ p.scope, scope.Admitted
  pending : ∀ item ∈ p.pending, Named item.2
  bindings : ∀ item ∈ p.bindings, SoundBinding item.2 ∧ item.2.runtimeSessionId = item.1
  tasks : ∀ item ∈ p.tasks, SoundTask item.1 item.2

/-- The clock reads a number at every put of a call. -/
def Clocked (env : Surroundings) (ttl : ℚ) : Prop := ∀ k, Clock ttl (env.readings k).stored

/-- A store that takes what is put at the readings of the clock. -/
def Ready (env : Surroundings) (s : RecoveryStore) : Prop :=
  SoundStore s ∧ s.SoundFile ∧ Clocked env s.ttlSeconds

theorem Ready.next {s : RecoveryStore} (h : Ready env s) : Ready env.next s :=
  ⟨h.1, h.2.1, fun k => h.2.2 (k + 1)⟩

theorem ready_of_puts {s : RecoveryStore} {acts : List StoreAct} (hs : Ready env s)
    (hacts : ∀ a ∈ acts, a.IsPut ∧ a.Sound s.ttlSeconds) : Ready env (acts.foldl RecoveryStore.act s) := by
  obtain ⟨h1, h2, h3, -⟩ := RecoveryStore.puts_sound hs.1 hs.2.1 hacts
  exact ⟨h1, h2, h3 ▸ hs.2.2⟩

theorem bindingOf_sound (hp : p.Sound) {event : TaskEvent} {binding : Binding}
    (h : p.bindingOf env event = some binding) :
    SoundBinding binding ∧ binding.runtimeSessionId = event.sessionId := by
  obtain ⟨hget, -⟩ := Option.filter_eq_some_iff.1 h
  exact hp.bindings _ (Dict.get_mem hget)

theorem bound_put (hp : p.Sound) {key : Str × Str} {event : TaskEvent} {binding : Binding} {scope : Scope}
    (he : SoundTask key event) (hbinding : p.bindingOf env event = some binding) (hscope : p.scope = some scope) :
    SoundPut scope binding (bound binding event) := by
  obtain ⟨hsound, hruntime⟩ := bindingOf_sound hp hbinding
  exact ⟨hp.scope scope hscope, hsound, hruntime.symm, rfl, rfl, rfl, he.kind, he.payload⟩

/-- What `persist` asks is sound. -/
theorem persisting_sound (hp : p.Sound) {key : Str × Str} {event : TaskEvent} (he : SoundTask key event)
    (hs : ∀ s ∈ p.store, Ready env s) :
    ∀ s ∈ p.store, ∀ a ∈ p.persisting env event, a.IsPut ∧ a.Sound s.ttlSeconds := by
  intro s hstore a ha
  unfold persisting at ha
  split at ha
  · rename_i binding store scope hbinding _ hscope
    rw [List.mem_singleton.1 ha]
    exact ⟨trivial, bound_put hp he hbinding hscope, (hs s hstore).2.2 0⟩
  · cases ha

theorem bound_task (hp : p.Sound) {key : Str × Str} {event : TaskEvent} {binding : Binding}
    (he : SoundTask key event) (hbinding : p.bindingOf env event = some binding) :
    SoundTask key (bound binding event) := by
  obtain ⟨hsound, hruntime⟩ := bindingOf_sound hp hbinding
  refine ⟨he.session, he.named, he.kind, he.payload, he.child, ?_⟩
  intro b hb
  cases hb
  exact ⟨hsound, hruntime.trans he.session, rfl, rfl⟩

/-- **The event that is persisted stays sound**, also where it gets what is known of a finished child. -/
theorem persist_task (hp : p.Sound) {key : Str × Str} {event : TaskEvent} (he : SoundTask key event)
    (hs : ∀ s ∈ p.store, Ready env s) : SoundTask key (p.persist env event).2.1 := by
  rw [persist_eq]
  cases hbinding : p.bindingOf env event with
  | none => exact he
  | some binding =>
    have hbound := bound_task hp he hbinding
    cases hstore : p.store with
    | none => exact hbound
    | some store =>
      cases p.scope with
      | none => exact hbound
      | some scope =>
        have hready := hs store hstore
        have hcases := RecoveryStore.put_cases store (env.readings 0) scope binding (bound binding event)
        dsimp only
        generalize store.put (env.readings 0) scope binding (bound binding event) = r at hcases ⊢
        cases hcases with
        | @finished prior hprior hterminal =>
          obtain ⟨hmem, hkey⟩ := RecoveryStore.priorRow_spec hprior
          obtain ⟨hrow, -⟩ := ((RecoveryStore.prune_trimmed store _).sound hready.1).rows prior hmem
          have hchild : childKey prior.event.payload = prior.key.child := by
            cases hrow
            rfl
          have hrowKind : LegibleStr prior.event.kind ∧ SoundPayload prior.event.payload := by
            cases hrow with
            | mk _ _ _ _ hkind hpayload _ _ _ => exact ⟨hkind, hpayload⟩
          refine ⟨hbound.session, hbound.named, hrowKind.1, hrowKind.2, ?_, hbound.bound⟩
          rw [hkey] at hchild
          exact hchild.trans he.child
        | stored _ _ _ =>
          exact ⟨hbound.session, hbound.named, hbound.kind, hbound.payload, hbound.child, hbound.bound⟩
        | unrendered _ _ | failed _ _ _ => exact hbound

/-- Soundness is about the tables and the scope. -/
theorem Sound.congr (hp : p.Sound) (hscope : q.scope = p.scope) (hpending : q.pending = p.pending)
    (hbindings : q.bindings = p.bindings) (htasks : q.tasks = p.tasks) : q.Sound where
  tables := ⟨hpending ▸ hp.tables.pending, hbindings ▸ hp.tables.bindings, htasks ▸ hp.tables.tasks⟩
  scope := hscope ▸ hp.scope
  pending := hpending ▸ hp.pending
  bindings := hbindings ▸ hp.bindings
  tasks := htasks ▸ hp.tasks

/-- What persisting an event leaves and asks. -/
structure Next (env : Surroundings) (p : RecoveryProjection) (key : Str × Str) (event : TaskEvent)
    (p' : RecoveryProjection) (event' : TaskEvent) : Prop where
  task : SoundTask key event'
  sound : p'.Sound
  ready : ∀ s ∈ p'.store, Ready env s
  asks : ∀ s ∈ p.store, ∀ a ∈ p.persisting env event, a.IsPut ∧ a.Sound s.ttlSeconds
  kept : ∀ s ∈ p.store, ∃ t, p'.store = some t ∧ t.ttlSeconds = s.ttlSeconds

theorem persist_next (hp : p.Sound) {key : Str × Str} {event event' : TaskEvent} {p' : RecoveryProjection}
    {fault : Option ObserveFault} (he : SoundTask key event) (hs : ∀ s ∈ p.store, Ready env s)
    (hx : p.persist env event = (p', event', fault)) : Next env p key event p' event' := by
  have htask := persist_task hp he hs
  have hstore := persist_store p env event
  have hasks := persisting_sound hp he hs
  obtain ⟨store, hp'⟩ := persist_fst p env event
  rw [hx] at htask hstore hp'
  obtain rfl : p' = { p with store := store } := hp'
  have hstore : store = p.store.map fun s => (p.persisting env event).foldl RecoveryStore.act s := hstore
  refine ⟨htask, hp.congr rfl rfl rfl rfl, ?_, hasks, ?_⟩
  · intro s hs'
    rw [show store = some s from hs'] at hstore
    obtain ⟨s₀, hs₀, rfl⟩ := Option.map_eq_some_iff.1 hstore.symm
    exact ready_of_puts (hs s₀ hs₀) (hasks s₀ hs₀)
  · intro s hs'
    have hready := hs s hs'
    refine ⟨(p.persisting env event).foldl RecoveryStore.act s, ?_, ?_⟩
    · show store = _
      rw [hstore, show p.store = some s from hs']
      rfl
    · exact (RecoveryStore.puts_sound hready.1 hready.2.1 (hasks s hs')).2.2.1

/-- What is asked after an event has been persisted is sound for the store before, too. -/
theorem Next.append {key : Str × Str} {event event' : TaskEvent} {p' : RecoveryProjection} {acts : List StoreAct}
    (h : Next env p key event p' event') (hacts : ∀ s ∈ p'.store, ∀ a ∈ acts, a.IsPut ∧ a.Sound s.ttlSeconds) :
    ∀ s ∈ p.store, ∀ a ∈ p.persisting env event ++ acts, a.IsPut ∧ a.Sound s.ttlSeconds := by
  intro s hs a ha
  rcases List.mem_append.1 ha with ha | ha
  · exact h.asks s hs a ha
  · obtain ⟨t, ht, httl⟩ := h.kept s hs
    rw [← httl]
    exact hacts t ht a ha

/-- **What persisting the events of a session asks is sound**, and so are the tasks after it. -/
theorem persistAll_sound (runtime : Str) (tasks : Dict (Str × Str) TaskEvent) (hp : p.Sound)
    (hs : ∀ s ∈ p.store, Ready env s) (htasks : ∀ item ∈ tasks, SoundTask item.1 item.2) :
    (∀ item ∈ (persistAll runtime env p tasks).2.1, SoundTask item.1 item.2) ∧
      ∀ s ∈ p.store, ∀ a ∈ persistingAll runtime env p tasks, a.IsPut ∧ a.Sound s.ttlSeconds := by
  induction tasks generalizing p env with
  | nil => exact ⟨htasks, fun _ _ a ha => absurd ha List.not_mem_nil⟩
  | cons item tasks ih =>
    obtain ⟨key, event⟩ := item
    rw [List.forall_mem_cons] at htasks
    obtain ⟨he, htasks⟩ := htasks
    unfold persistAll persistingAll
    split
    · rcases hx : p.persist env event with ⟨p', event', fault⟩
      have hnext := persist_next hp he hs hx
      cases fault with
      | some fault =>
        refine ⟨?_, hnext.append fun _ _ a ha => absurd ha List.not_mem_nil⟩
        rw [List.forall_mem_cons]
        exact ⟨hnext.task, htasks⟩
      | none =>
        obtain ⟨h1, h2⟩ := ih hnext.sound (fun s hs' => (hnext.ready s hs').next) htasks
        refine ⟨?_, hnext.append h2⟩
        rw [List.forall_mem_cons]
        exact ⟨hnext.task, h1⟩
    · obtain ⟨h1, h2⟩ := ih hp hs htasks
      refine ⟨?_, h2⟩
      rw [List.forall_mem_cons]
      exact ⟨he, h1⟩

theorem persistEach_sound (tasks : Dict (Str × Str) TaskEvent) (hp : p.Sound)
    (hs : ∀ s ∈ p.store, Ready env s) (htasks : ∀ item ∈ tasks, SoundTask item.1 item.2) :
    (∀ item ∈ (persistEach env p tasks).2.1, SoundTask item.1 item.2) ∧
      ∀ s ∈ p.store, ∀ a ∈ persistingEach env p tasks, a.IsPut ∧ a.Sound s.ttlSeconds := by
  induction tasks generalizing p env with
  | nil => exact ⟨htasks, fun _ _ a ha => absurd ha List.not_mem_nil⟩
  | cons item tasks ih =>
    obtain ⟨key, event⟩ := item
    rw [List.forall_mem_cons] at htasks
    obtain ⟨he, htasks⟩ := htasks
    unfold persistEach persistingEach
    rcases hx : p.persist env event with ⟨p', event', fault⟩
    have hnext := persist_next hp he hs hx
    cases fault with
    | some fault =>
      refine ⟨?_, hnext.append fun _ _ a ha => absurd ha List.not_mem_nil⟩
      rw [List.forall_mem_cons]
      exact ⟨hnext.task, htasks⟩
    | none =>
      obtain ⟨h1, h2⟩ := ih hnext.sound (fun s hs' => (hnext.ready s hs').next) htasks
      refine ⟨?_, hnext.append h2⟩
      rw [List.forall_mem_cons]
      exact ⟨hnext.task, h1⟩

/-! ## Calls -/

/-- Profiles have legible names. -/
def LegibleProfiles (env : Surroundings) : Prop :=
  ∀ profile, env.profileAuthorizer profile = true → LegibleStr profile

theorem named_of_identifier {v : Option Json} {s : Str} (h : identifier v = some s)
    (hv : ∀ w ∈ v, w.Strings) : Named s := by
  obtain ⟨rfl, hpos, hshort⟩ := identifier_some h
  exact ⟨hpos, hshort, hv _ rfl⟩

/-- What a request names is remembered with a legible profile. -/
theorem request_sound (hp : p.Sound) (henv : LegibleProfiles env) (value : Option Json) : (p.request env value).Sound := by
  have hact := @acted_request ⟨0, 0⟩ _ hp.tables env value
  have htables := hact.bounded
  rw [request_eq] at htables ⊢
  cases hreq : requested env value with
  | none => exact hp
  | some request =>
    obtain ⟨rid, profile⟩ := request
    rw [hreq] at htables
    refine ⟨htables, hp.scope, ?_, hp.bindings, hp.tasks⟩
    intro item hitem
    rcases Dict.mem_set ((bounded_sublist _).subset hitem) with rfl | hitem
    · unfold requested at hreq
      split at hreq
      · split at hreq
        · split at hreq
          · split at hreq
            · rename_i profile' hprofile
              split at hreq
              · rename_i hauth
                obtain ⟨-, rfl⟩ := Prod.mk.inj (Option.some.inj hreq)
                obtain ⟨-, hpos, hshort⟩ := identifier_some hprofile
                exact ⟨hpos, hshort, henv _ hauth⟩
              · cases hreq
            · cases hreq
          · cases hreq
        · cases hreq
      · cases hreq
    · exact hp.pending item hitem

/-- What was read from the text of a frame. -/
structure Received (v : Json) : Prop where
  strings : v.Strings
  distinct : v.distinct = true

theorem received {text : Str} {v : Json} (htext : (utf8 text).isSome) (h : loadsStrict depths text = some v) :
    Received v := ⟨loadsStrict_strings htext h, loadsStrict_distinct h⟩

theorem Received.lookup {ms : List (Str × Json)} {k : Str} {v : Json} (h : Received (.obj ms))
    (hv : Json.lookup ms k = some v) : Received v := by
  have hdistinct := h.distinct
  unfold Json.distinct at hdistinct
  rw [Bool.and_eq_true, Json.distinctMembers_iff] at hdistinct
  exact ⟨h.strings.lookup hv, hdistinct.2 _ (Dict.get_mem hv)⟩

theorem Received.keyed {ms : List (Str × Json)} (h : Received (.obj ms)) : Dict.Keyed ms := by
  have hdistinct := h.distinct
  unfold Json.distinct at hdistinct
  rw [Bool.and_eq_true, decide_eq_true_eq] at hdistinct
  exact hdistinct.1

theorem Received.identifier {ms : List (Str × Json)} {k s : Str} (h : Received (.obj ms))
    (hs : identifier (Json.lookup ms k) = some s) : Named s :=
  named_of_identifier hs fun _ hw => (h.lookup hw).strings

/-- The event of a child: what is known of it, and what is reported. -/
theorem childEvent_sound (hp : p.Sound) {kind runtime : Str} {raw : List (Str × Json)} {key : Str × Str}
    {event : TaskEvent} (hkind : LegibleStr kind) (hruntime : Named runtime) (hraw : Received (.obj raw))
    (h : p.childEvent kind runtime raw = some (key, event)) : SoundTask key event := by
  have hclean := cleanPayload_sound hraw.strings hraw.keyed
  unfold childEvent at h
  split at h
  · cases h
  · split at h
    · cases h
    · rename_i child hchild
      dsimp only at h
      split at h
      · cases h
      · obtain ⟨rfl, rfl⟩ := Prod.mk.inj (Option.some.inj h)
        cases hprevious : p.tasks.get (runtime, child) with
        | none =>
          refine ⟨rfl, hruntime, hkind, ?_, ?_, fun b hb => by cases hb⟩
          · exact mergePayload_sound ⟨List.nodup_nil, fun _ hm => absurd hm List.not_mem_nil⟩ hclean
          · show childKey (mergePayload [] (cleanPayload raw)) = some child
            rw [childKey_eq] at hchild ⊢
            rw [identifier_merge hclean rfl, identifier_merge hclean rfl, identifier_merge hclean rfl,
              counter_merge hclean rfl]
            have hid : ∀ k, identifier (Json.lookup [] k) = none := fun _ => rfl
            have hcount : ∀ k, counter (Json.lookup [] k) = none := fun _ => rfl
            simp only [hid, hcount, Option.or_none]
            exact hchild
        | some previous =>
          have htask := hp.tasks _ (Dict.get_mem hprevious)
          refine ⟨rfl, hruntime, hkind, mergePayload_sound htask.payload hclean, ?_, fun b hb => by cases hb⟩
          exact childKey_merge hclean hchild htask.child

theorem reported_sound (hp : p.Sound) {v : Json} {key : Str × Str} {event : TaskEvent} (hv : Received v)
    (h : p.reported (some v) = some (key, event)) : SoundTask key event := by
  have hkinds : ∀ kind ∈ childKinds, LegibleStr kind := by decide
  unfold reported at h
  split at h
  · rename_i members heq
    cases heq
    split at h
    · rename_i method params _ hparams
      split at h
      · split at h
        · rename_i kind runtime raw hkind hruntime hraw
          split at h
          · rename_i hchild
            have hp' := hv.lookup hparams
            exact childEvent_sound hp (hkinds kind hchild) (hp'.identifier hruntime) (hp'.lookup hraw) h
          · cases h
        · cases h
      · cases h
    · cases h
  · cases h

theorem orElse_cases {a b : Option Json} {v : Json} (h : orElse a b = some v) : a = some v ∨ b = some v := by
  unfold orElse at h
  split at h
  · split at h
    · exact .inl h
    · exact .inr h
  · exact .inr h

theorem boundBy_sound (hp : p.Sound) {v : Json} {rid : Json} {b : Binding} (hv : Received v)
    (h : p.boundBy env (some v) = some (rid, b)) : SoundBinding b := by
  unfold boundBy at h
  split at h
  · rename_i members heq
    cases heq
    split at h
    · rename_i other hreply
      split at h
      · rename_i profile result hprofile hresult
        have hnamed := hp.pending _ (Dict.get_mem hprofile)
        have hr := hv.lookup hresult
        obtain ⟨b', hproven, heq⟩ := Option.map_eq_some_iff.1 h
        cases heq
        unfold provenBinding at hproven
        split at hproven
        · cases hproven
        · split at hproven
          · rename_i runtime durable hruntime hdurable
            split at hproven
            · cases hproven
              refine ⟨hr.identifier hruntime, named_of_identifier hdurable fun w hw => ?_, hnamed, rfl⟩
              rcases orElse_cases hw with hw | hw
              · exact (hr.lookup hw).strings
              · exact (hr.lookup hw).strings
            · cases hproven
          · cases hproven
      · cases h
    · cases h
  · cases h

/-- The events that are persisted for a new binding. -/
theorem binds_sound (hp : p.Sound) {binding : Binding} (hbinding : SoundBinding binding) :
    (p.binds binding).Sound := by
  have hkeyed := hp.tables.bindings.1.set binding.runtimeSessionId binding
  refine ⟨⟨hp.tables.pending, table_bounded hkeyed, hp.tables.tasks⟩, hp.scope, hp.pending, ?_, hp.tasks⟩
  intro item hitem
  rcases Dict.mem_set ((bounded_sublist _).subset hitem) with rfl | hitem
  · exact ⟨hbinding, rfl⟩
  · exact hp.bindings item hitem

/-- **What a call keeps, and what it asks of the store.** -/
structure Called (env : Surroundings) (p : RecoveryProjection) (acts : List StoreAct) (q : RecoveryProjection) :
    Prop where
  sound : q.Sound
  asks : ∀ s ∈ p.store, ∀ a ∈ acts, a.IsPut ∧ a.Sound s.ttlSeconds

theorem bind_sound (hp : p.Sound) (hs : ∀ s ∈ p.store, Ready env s) {binding : Binding}
    (hbinding : SoundBinding binding) :
    Called env p (persistingAll binding.runtimeSessionId env (p.binds binding) p.tasks) (p.bind env binding).1 := by
  have hbinds := binds_sound hp hbinding
  obtain ⟨htasks, hasks⟩ := persistAll_sound binding.runtimeSessionId p.tasks hbinds hs hp.tasks
  obtain ⟨store, hstore⟩ := persistAll_fst binding.runtimeSessionId env (p.binds binding) p.tasks
  have hkeys := persistAll_keys binding.runtimeSessionId env (p.binds binding) p.tasks
  refine ⟨?_, hasks⟩
  have hbind : (p.bind env binding).1 = { (p.binds binding) with
      store := store
      tasks := (persistAll binding.runtimeSessionId env (p.binds binding) p.tasks).2.1 } := by
    show { (persistAll binding.runtimeSessionId env (p.binds binding) p.tasks).1 with
      tasks := (persistAll binding.runtimeSessionId env (p.binds binding) p.tasks).2.1 } = _
    rw [hstore]
  rw [hbind]
  exact ⟨⟨hbinds.tables.pending, hbinds.tables.bindings, hbinds.tables.tasks.of_keys hkeys⟩, hbinds.scope,
    hbinds.pending, hbinds.bindings, htasks⟩

theorem report_sound (hp : p.Sound) (hs : ∀ s ∈ p.store, Ready env s) {key : Str × Str} {event : TaskEvent}
    (he : SoundTask key event) :
    Called env p ({ p with revision := p.revision + 1 }.persisting env event) (p.report env key event).1 := by
  have hp' : ({ p with revision := p.revision + 1 } : RecoveryProjection).Sound := hp.congr rfl rfl rfl rfl
  refine ⟨?_, persisting_sound hp' he hs⟩
  unfold report
  rcases hx : ({ p with revision := p.revision + 1 } : RecoveryProjection).persist env event with ⟨p', event', fault⟩
  have hnext := persist_next hp' he hs hx
  cases fault with
  | some fault => exact hnext.sound
  | none =>
    have hkeyed := (hnext.sound.tables.tasks.1.set key event').moveToEnd key
    refine ⟨⟨hnext.sound.tables.pending, hnext.sound.tables.bindings, table_bounded hkeyed⟩, hnext.sound.scope,
      hnext.sound.pending, hnext.sound.bindings, ?_⟩
    rintro ⟨k, e⟩ hitem
    have hget := Dict.Keyed.get_of_mem hkeyed ((bounded_sublist _).subset hitem)
    rw [Dict.get_moveToEnd] at hget
    rcases Dict.mem_set (Dict.get_mem hget) with heq | hmem
    · cases heq
      exact hnext.task
    · exact hnext.sound.tasks _ hmem

/-- **Observing a frame keeps the projection sound**, and puts sound events. -/
theorem observe_sound (hp : p.Sound) (hs : ∀ s ∈ p.store, Ready env s) {text : Str} (htext : (utf8 text).isSome) :
    Called env p (p.observing env (loadsStrict depths text)) (p.observe depths env text).1 := by
  have hv : ∀ v, loadsStrict depths text = some v → Received v := fun v h => received htext h
  unfold observe
  generalize loadsStrict depths text = value at hv
  have hopen : ({ p with pending := p.unanswered value } : RecoveryProjection).Sound := by
    refine ⟨⟨table_unanswered hp.tables value, hp.tables.bindings, hp.tables.tasks⟩, hp.scope, ?_, hp.bindings,
      hp.tasks⟩
    intro item hitem
    have hitem : item ∈ p.unanswered value := hitem
    unfold unanswered at hitem
    split at hitem
    · exact hp.pending item (List.mem_filter.1 hitem).1
    · exact hp.pending item hitem
  have hcases := observeValue_cases p env value
  generalize p.observeValue env value = r at hcases
  unfold observing
  cases hcases with
  | quiet hbound hreport _ =>
    rw [hbound, hreport]
    exact ⟨hopen.congr rfl rfl rfl rfl, fun _ _ a ha => absurd ha List.not_mem_nil⟩
  | @binds rid binding hbound hreport =>
    rw [hbound]
    cases value with
    | none => cases hbound
    | some v =>
      obtain ⟨hsound, hasks⟩ := bind_sound hopen hs (boundBy_sound hp (hv v rfl) hbound)
      exact ⟨hsound, hasks⟩
  | @reports key event hanswered hbound hreport =>
    rw [hbound, hreport]
    cases value with
    | none => cases hreport
    | some v => exact report_sound hp hs (reported_sound hp (hv v rfl) hreport)

/-- **Giving a lease a store keeps it sound.** -/
theorem upgrade_sound (hp : p.Sound) {store : RecoveryStore} (hstore : Ready env store) : (p.upgrade env store).1.Sound ∧
      ∀ a ∈ p.upgrading env store, a.IsPut ∧ a.Sound store.ttlSeconds := by
  unfold upgrade upgrading
  cases hnone : p.store with
  | some s => exact ⟨hp, fun a ha => absurd ha List.not_mem_nil⟩
  | none =>
    have hp' : ({ p with store := some store } : RecoveryProjection).Sound := hp.congr rfl rfl rfl rfl
    have hs' : ∀ s ∈ ({ p with store := some store } : RecoveryProjection).store, Ready env s := by
      intro s hs
      cases hs
      exact hstore
    obtain ⟨htasks, hasks⟩ := persistEach_sound p.tasks hp' hs' hp.tasks
    obtain ⟨⟨store', hfst⟩, hkeys⟩ := persistEach_spec env { p with store := some store } p.tasks
    refine ⟨?_, hasks store rfl⟩
    show ({ (persistEach env { p with store := some store } p.tasks).1 with
      tasks := (persistEach env { p with store := some store } p.tasks).2.1 } : RecoveryProjection).Sound
    rw [hfst]
    exact ⟨⟨hp.tables.pending, hp.tables.bindings, hp.tables.tasks.of_keys hkeys⟩, hp.scope, hp.pending,
      hp.bindings, htasks⟩

end RecoveryProjection

end MercuryRelay
