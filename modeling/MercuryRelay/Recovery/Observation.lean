/-
  What one call of the projection can do (lease_recovery.py,
  `RecoveryProjection.request` and `observe`).

  A frame proves a binding, reports a child, or neither; `observeValue_cases`
  says what each does, and everything about runs follows from it.

  * `boundBy`: the binding that a frame proves;
  * `reported`: the child event that a frame reports;
  * `observeValue_cases`, `request_eq`: what a call does.
-/
import MercuryRelay.Recovery.Projection

set_option autoImplicit false

namespace MercuryRelay

open Python

namespace RecoveryProjection

/-! ## Bounded dictionaries -/

section Bounded

variable {κ α : Type} [DecidableEq κ] {d : Dict κ α} {k l : κ} {v : α}

omit [DecidableEq κ] in
theorem length_bounded_le (d : Dict κ α) : (bounded d).length ≤ maxRows := by
  unfold bounded
  rw [List.length_drop]
  omega

omit [DecidableEq κ] in
theorem bounded_of_le (h : d.length ≤ maxRows) : bounded d = d := by
  unfold bounded
  rw [Nat.sub_eq_zero_of_le h]
  rfl

omit [DecidableEq κ] in
theorem bounded_sublist (d : Dict κ α) : (bounded d).Sublist d := List.drop_sublist _ _

omit [DecidableEq κ] in
theorem keyed_bounded (h : Dict.Keyed d) : Dict.Keyed (bounded d) :=
  h.sublist ((bounded_sublist d).map _)

/-- What a bounded dictionary holds, the dictionary held. -/
theorem get_of_bounded (hd : Dict.Keyed d) (h : Dict.get (bounded d) k = some v) : Dict.get d k = some v :=
  hd.get_of_mem ((bounded_sublist d).subset (Dict.get_mem h))

end Bounded

/-! ## What a frame says -/

/-- The identifier of a reply. -/
def replyId (value : List (Str × Json)) : Option Json :=
  if Json.hasKey value (lit "method") then none
  else
    match Json.lookup value (lit "id") with
    | some (.str s) => some (.str s)
    | some (.int n) => some (.int n)
    | _ => none

/-- A reply that names another profile than its request did. -/
def namesOther (profile : Str) (result : List (Str × Json)) : Prop :=
  ((reportedProfile result).map Json.truthy).getD false = true ∧ reportedProfile result ≠ some (.str profile)

instance (profile : Str) (result : List (Str × Json)) : Decidable (namesOther profile result) := by
  unfold namesOther; infer_instance

/-- The binding that the result of a request for `profile` proves. -/
def provenBinding (env : Surroundings) (profile : Str) (result : List (Str × Json)) : Option Binding :=
  if namesOther profile result then none
  else
    match identifier (Json.lookup result (lit "session_id")),
      identifier (orElse (Json.lookup result (lit "stored_session_id"))
        (Json.lookup result (lit "session_key"))) with
    | some runtime, some durable =>
      if env.profileAuthorizer profile then some ⟨runtime, durable, profile, true⟩ else none
    | _, _ => none

/-- The binding that a frame proves, with the request it answers. -/
def boundBy (p : RecoveryProjection) (env : Surroundings) (value : Option Json) : Option (Json × Binding) :=
  match value with
  | some (.obj value) =>
    match replyId value with
    | some rid =>
      match p.pending.get rid, Json.lookup value (lit "result") with
      | some profile, some (.obj result) => (provenBinding env profile result).map (rid, ·)
      | _, _ => none
    | none => none
  | _ => none

/-- The child event that a payload reports: merged with what is known of the child, unless it has
    finished. -/
def childEvent (p : RecoveryProjection) (kind runtime : Str) (raw : List (Str × Json)) :
    Option ((Str × Str) × TaskEvent) :=
  if identityFields.any fun k => ((Json.lookup raw k).map Json.truthy).getD false &&
      (identifier (Json.lookup raw k)).isNone then none
  else
    match childKey (cleanPayload raw) with
    | none => none
    | some child =>
      let previous := (p.tasks.get (runtime, child)).map (·.payload)
      if (previous.map hasTerminalStatus).getD false then none
      else some ((runtime, child), {
        sessionId := runtime
        kind := kind
        payload := mergePayload (previous.getD []) (cleanPayload raw)
        recoveryRevision := p.revision + 1 })

/-- The child event that a frame reports, with the key of its task. -/
def reported (p : RecoveryProjection) (value : Option Json) : Option ((Str × Str) × TaskEvent) :=
  match value with
  | some (.obj value) =>
    match Json.lookup value (lit "method"), Json.lookup value (lit "params") with
    | some (.str method), some (.obj params) =>
      if method = lit "event" then
        match Json.lookup params (lit "type"), identifier (Json.lookup params (lit "session_id")),
          Json.lookup params (lit "payload") with
        | some (.str kind), some runtime, some (.obj raw) =>
          if kind ∈ childKinds then p.childEvent kind runtime raw else none
        | _, _, _ => none
      else none
    | _, _ => none
  | _ => none

/-- The event is persisted, and its task is the newest. -/
def report (p : RecoveryProjection) (env : Surroundings) (key : Str × Str) (event : TaskEvent) :
    RecoveryProjection × Option ObserveFault :=
  match { p with revision := p.revision + 1 }.persist env event with
  | (p, _, some fault) => (p, some fault)
  | (p, event, none) =>
    let tasks := Dict.moveToEnd (p.tasks.set key event) key
    ({ p with
      tasks := bounded tasks
      truncated := p.truncated || maxRows < tasks.length }, none)

/-! ## What a call does -/

/-- The identifier of the request that a frame answers. -/
def answered (value : Option Json) : Option Json :=
  match value with
  | some (.obj members) => replyId members
  | _ => none

/-- The requests that are open after a frame. -/
def unanswered (p : RecoveryProjection) (value : Option Json) : Dict Json Str :=
  match answered value with
  | some rid => p.pending.remove rid
  | none => p.pending

/-- What observing a frame does. -/
inductive Observed (p : RecoveryProjection) (env : Surroundings) (value : Option Json) :
    RecoveryProjection × Option ObserveFault → Prop
  /-- Nothing but that the request it answers is over, or that something was not understood. -/
  | quiet {truncated fault} (hbound : p.boundBy env value = none) (hreport : p.reported value = none)
      (htruncated : p.truncated = true → truncated = true) :
      Observed p env value ({ p with pending := p.unanswered value, truncated := truncated }, fault)
  /-- The request it answers is over, and a session is bound. -/
  | binds {rid binding} (hbound : p.boundBy env value = some (rid, binding)) (hreport : p.reported value = none) :
      Observed p env value ({ p with pending := p.unanswered value }.bind env binding)
  /-- A child is reported. -/
  | reports {key event} (hanswered : answered value = none) (hbound : p.boundBy env value = none)
      (hreport : p.reported value = some (key, event)) : Observed p env value (p.report env key event)

variable {p : RecoveryProjection} {env : Surroundings}

theorem observeResult_eq (p : RecoveryProjection) (env : Surroundings) (profile : Str)
    (result : List (Str × Json)) : p.observeResult env profile result =
      match provenBinding env profile result with
      | some binding => p.bind env binding
      | none => ({ p with truncated := p.truncated || decide (namesOther profile result) }, none) := by
  have hnames : (((reportedProfile result).map Json.truthy).getD false = true ∧
      reportedProfile result ≠ some (.str profile)) = namesOther profile result := rfl
  unfold observeResult provenBinding
  dsimp only
  by_cases h : namesOther profile result
  · rw [if_pos (hnames.mpr h), if_pos h]
    simp [h]
  · rw [if_neg (fun h' => h (hnames.mp h')), if_neg h]
    simp only [h, decide_false, Bool.or_false]
    cases identifier (Json.lookup result (lit "session_id")) with
    | none => rfl
    | some runtime =>
      cases identifier (orElse (Json.lookup result (lit "stored_session_id"))
          (Json.lookup result (lit "session_key"))) with
      | none => rfl
      | some durable =>
        dsimp only
        split <;> rfl

theorem observeChild_eq (p : RecoveryProjection) (env : Surroundings) (kind runtime : Str)
    (raw : List (Str × Json)) :
    (∃ key event, p.childEvent kind runtime raw = some (key, event) ∧
      p.observeChild env kind runtime raw = p.report env key event) ∨
    (p.childEvent kind runtime raw = none ∧ ∃ truncated, (p.truncated = true → truncated = true) ∧
      p.observeChild env kind runtime raw = ({ p with truncated := truncated }, none)) := by
  unfold observeChild childEvent
  split
  · exact .inr ⟨rfl, true, fun _ => rfl, rfl⟩
  · dsimp only
    cases childKey (cleanPayload raw) with
    | none => exact .inr ⟨rfl, p.truncated, id, rfl⟩
    | some child =>
      dsimp only
      by_cases hdone : (((p.tasks.get (runtime, child)).map (·.payload)).map hasTerminalStatus).getD false = true
      · rw [if_pos hdone, if_pos hdone]
        exact .inr ⟨rfl, p.truncated, id, rfl⟩
      · rw [if_neg hdone, if_neg hdone]
        exact .inl ⟨_, _, rfl, rfl⟩

/-- The reply to the request `rid`. -/
def answer (p : RecoveryProjection) (env : Surroundings) (value : List (Str × Json)) (rid : Json) :
    RecoveryProjection × Option ObserveFault :=
  match p.pending.get rid, Json.lookup value (lit "result") with
  | some profile, some (.obj result) =>
    { p with pending := p.pending.remove rid }.observeResult env profile result
  | _, _ => ({ p with pending := p.pending.remove rid }, none)

theorem observeReply_eq (p : RecoveryProjection) (env : Surroundings) {value : List (Str × Json)}
    (hmethod : ¬ Json.hasKey value (lit "method") = true) : p.observeReply env value =
      match replyId value with
      | some rid => p.answer env value rid
      | none => (p, none) := by
  unfold observeReply replyId answer
  rw [if_neg hmethod]
  cases Json.lookup value (lit "id") with
  | none => rfl
  | some v =>
    cases v with
    | str s =>
      rewrite [Option.getD_some]
      cases p.pending.get (.str s) with
      | none => rfl
      | some profile =>
        cases Json.lookup value (lit "result") with
        | none => rfl
        | some result => cases result <;> rfl
    | int n =>
      rewrite [Option.getD_some]
      cases p.pending.get (.int n) with
      | none => rfl
      | some profile =>
        cases Json.lookup value (lit "result") with
        | none => rfl
        | some result => cases result <;> rfl
    | _ => rfl

/-- **What observing a frame does.** -/
theorem observeValue_cases (p : RecoveryProjection) (env : Surroundings) (value : Option Json) :
    Observed p env value (p.observeValue env value) := by
  have hquiet : ∀ {truncated fault}, p.boundBy env value = none → p.reported value = none →
      answered value = none → (p.truncated = true → truncated = true) →
      Observed p env value ({ p with truncated := truncated }, fault) := by
    intro truncated fault h1 h2 h3 h4
    have h := @Observed.quiet _ _ _ _ fault h1 h2 h4
    rwa [unanswered, h3] at h
  unfold observeValue
  split
  · rename_i members
    split
    · rename_i hmethod
      have hnone : Json.lookup members (lit "method") = none := by
        cases h : Json.lookup members (lit "method") with
        | none => rfl
        | some v => exact absurd (Json.hasKey_of_lookup h) hmethod
      have hreport : p.reported (some (.obj members)) = none := by
        simp only [reported, hnone]
      rw [observeReply_eq p env hmethod]
      cases hrid : replyId members with
      | none =>
        refine hquiet ?_ hreport hrid id
        simp only [boundBy, hrid]
      | some rid =>
        have hopen : p.unanswered (some (.obj members)) = p.pending.remove rid := by
          simp only [unanswered, answered, hrid]
        dsimp only
        unfold answer
        rw [← hopen]
        split
        · rename_i profile result hprofile hresult
          rw [observeResult_eq]
          have hboundBy : p.boundBy env (some (.obj members)) =
              (provenBinding env profile result).map (rid, ·) := by
            simp only [boundBy, hrid, hprofile, hresult]
          split
          · rename_i binding hproven
            refine @Observed.binds _ _ _ rid _ ?_ hreport
            rw [hboundBy, hproven]
            rfl
          · rename_i hproven
            refine .quiet ?_ hreport (fun h => ?_)
            · rw [hboundBy, hproven]
              rfl
            · simp [h]
        · refine Observed.quiet ?_ hreport id
          simp only [boundBy, hrid]
    · rename_i hmethod
      have hid : replyId members = none := by
        rw [replyId, if_pos (not_not.1 hmethod)]
      have hbound : p.boundBy env (some (.obj members)) = none := by
        simp only [boundBy, hid]
      split
      · rename_i method params hm hp
        split
        · rename_i hevent
          have hreport : p.reported (some (.obj members)) =
              match Json.lookup params (lit "type"), identifier (Json.lookup params (lit "session_id")),
                Json.lookup params (lit "payload") with
              | some (.str kind), some runtime, some (.obj raw) =>
                if kind ∈ childKinds then p.childEvent kind runtime raw else none
              | _, _, _ => none := by
            simp only [reported, hm, hp, if_pos hevent]
          unfold observeEvent
          dsimp only
          split
          · rename_i hkind
            refine hquiet hbound ?_ hid id
            rw [hreport]
            split
            · rename_i hstr _ _
              rw [hstr] at hkind
              exact absurd rfl hkind
            · rfl
          · split
            · rename_i kind runtime raw hkind hruntime hraw
              have hstr : Json.lookup params (lit "type") = some (.str kind) := by
                cases h : Json.lookup params (lit "type") with
                | none =>
                  rw [h] at hkind
                  cases hkind
                | some v =>
                  rw [h] at hkind
                  rw [show v = .str kind from hkind]
              simp only [hstr, hruntime, hraw] at hreport
              split
              · rename_i hchild
                rw [if_pos hchild] at hreport
                rcases observeChild_eq p env kind runtime raw with ⟨key, event, h1, h2⟩ | ⟨h1, truncated, h2, h3⟩
                · rw [h2]
                  exact .reports hid hbound (hreport.trans h1)
                · rw [h3]
                  exact hquiet hbound (hreport.trans h1) hid h2
              · rename_i hchild
                rw [if_neg hchild] at hreport
                exact hquiet hbound hreport hid id
            · rename_i hno
              refine hquiet hbound ?_ hid id
              rw [hreport]
              split
              · rename_i hstr hruntime hraw
                exact absurd hraw (hno _ _ _ (by rw [hstr]; rfl) hruntime)
              · rfl
        · rename_i hevent
          refine hquiet hbound ?_ hid id
          simp only [reported, hm, hp, if_neg hevent]
      · rename_i hno
        refine hquiet hbound ?_ hid id
        simp only [reported]
  · refine hquiet ?_ ?_ ?_ id
    · simp only [boundBy]
    · simp only [reported]
    · simp only [answered]

/-- The request that a message makes and the profile it names, when it is remembered. -/
def requested (env : Surroundings) (value : Option Json) : Option (Json × Str) :=
  match value with
  | some (.obj value) =>
    if Json.lookup value (lit "method") = some (.str (lit "session.create")) ∨
        Json.lookup value (lit "method") = some (.str (lit "session.resume")) then
      match pendingId (Json.lookup value (lit "id")), (Json.lookup value (lit "params")).getD (.obj []) with
      | some rid, .obj params =>
        match identifier (Json.lookup params (lit "profile")) with
        | some profile => if env.profileAuthorizer profile then some (rid, profile) else none
        | none => none
      | _, _ => none
    else none
  | _ => none

theorem request_eq (p : RecoveryProjection) (env : Surroundings) (value : Option Json) :
    p.request env value =
      match requested env value with
      | some (rid, profile) => { p with
          pending := bounded (p.pending.set rid profile)
          truncated := p.truncated || maxRows < (p.pending.set rid profile).length }
      | none => p := by
  unfold request requested
  cases value with
  | none => rfl
  | some value =>
    cases value with
    | obj members =>
      dsimp only
      split
      · cases pendingId (Json.lookup members (lit "id")) with
        | none => rfl
        | some rid =>
          cases (Json.lookup members (lit "params")).getD (.obj []) with
          | obj params =>
            dsimp only
            cases identifier (Json.lookup params (lit "profile")) with
            | none => rfl
            | some profile =>
              dsimp only
              split <;> rfl
          | _ => rfl
      · rfl
    | _ => rfl

/-! ## What a call leaves alone -/

theorem persist_fst (p : RecoveryProjection) (env : Surroundings) (event : TaskEvent) :
    ∃ store, (p.persist env event).1 = { p with store := store } := by
  unfold persist
  split
  · exact ⟨p.store, rfl⟩
  · split
    · exact ⟨p.store, rfl⟩
    · dsimp only
      split
      · split
        · exact ⟨_, rfl⟩
        · exact ⟨_, rfl⟩
      · exact ⟨p.store, rfl⟩

theorem persistAll_fst (runtime : Str) (env : Surroundings) (p : RecoveryProjection)
    (tasks : Dict (Str × Str) TaskEvent) :
    ∃ store, (persistAll runtime env p tasks).1 = { p with store := store } := by
  induction tasks generalizing p env with
  | nil => exact ⟨p.store, rfl⟩
  | cons item tasks ih =>
    obtain ⟨key, event⟩ := item
    unfold persistAll
    split
    · obtain ⟨store, hstore⟩ := persist_fst p env event
      rcases hx : p.persist env event with ⟨p', event', fault⟩
      rw [hx] at hstore
      obtain rfl : p' = { p with store := store } := hstore
      cases fault with
      | some fault => exact ⟨store, rfl⟩
      | none => exact ih env.next { p with store := store }
    · exact ih env p

theorem persistAll_keys (runtime : Str) (env : Surroundings) (p : RecoveryProjection)
    (tasks : Dict (Str × Str) TaskEvent) :
    (persistAll runtime env p tasks).2.1.map (·.1) = tasks.map (·.1) := by
  induction tasks generalizing p env with
  | nil => rfl
  | cons item tasks ih =>
    obtain ⟨key, event⟩ := item
    unfold persistAll
    split
    · rcases p.persist env event with ⟨p', event', fault⟩
      cases fault with
      | some fault => rfl
      | none => exact congrArg (key :: ·) (ih env.next p')
    · exact congrArg (key :: ·) (ih env p)

/-- Binding a session changes its binding, the store and the events of the tasks. -/
theorem bind_fst (p : RecoveryProjection) (env : Surroundings) (binding : Binding) :
    ∃ store tasks, tasks.map (·.1) = p.tasks.map (·.1) ∧ (p.bind env binding).1 = { p with
      store := store
      bindings := bounded (p.bindings.set binding.runtimeSessionId binding)
      tasks := tasks
      truncated := p.truncated || maxRows < (p.bindings.set binding.runtimeSessionId binding).length } := by
  obtain ⟨store, hstore⟩ := persistAll_fst binding.runtimeSessionId env { p with
    bindings := bounded (p.bindings.set binding.runtimeSessionId binding)
    truncated := p.truncated || maxRows < (p.bindings.set binding.runtimeSessionId binding).length } p.tasks
  refine ⟨store, _, persistAll_keys binding.runtimeSessionId env { p with
    bindings := bounded (p.bindings.set binding.runtimeSessionId binding)
    truncated := p.truncated || maxRows < (p.bindings.set binding.runtimeSessionId binding).length } p.tasks, ?_⟩
  unfold bind
  dsimp only at hstore ⊢
  rw [hstore]

/-- Reporting a child changes its task and the store. -/
theorem report_fst (p : RecoveryProjection) (env : Surroundings) (key : Str × Str) (event : TaskEvent) :
    ∃ store, ((p.report env key event).2.isSome = true ∧
        (p.report env key event).1 = { p with store := store, revision := p.revision + 1 }) ∨
      ∃ event', (p.report env key event).2 = none ∧ (p.report env key event).1 = { p with
        store := store
        revision := p.revision + 1
        tasks := bounded (Dict.moveToEnd (p.tasks.set key event') key)
        truncated := p.truncated || maxRows < (Dict.moveToEnd (p.tasks.set key event') key).length } := by
  obtain ⟨store, hstore⟩ := persist_fst { p with revision := p.revision + 1 } env event
  refine ⟨store, ?_⟩
  unfold report
  rcases hx : ({ p with revision := p.revision + 1 } : RecoveryProjection).persist env event with ⟨p', event', fault⟩
  rw [hx] at hstore
  dsimp only at hstore
  subst hstore
  cases fault with
  | some fault => exact .inl ⟨rfl, rfl⟩
  | none => exact .inr ⟨event', rfl, rfl⟩

/-! ## A store for a lease that had none -/

/-- Persist every event. -/
def persistEach : Surroundings → RecoveryProjection → Dict (Str × Str) TaskEvent →
    RecoveryProjection × Dict (Str × Str) TaskEvent × Option ObserveFault
  | _, p, [] => (p, [], none)
  | env, p, (key, event) :: tasks =>
    match p.persist env event with
    | (p, event, some fault) => (p, (key, event) :: tasks, some fault)
    | (p, event, none) =>
      let (p, tasks, fault) := persistEach env.next p tasks
      (p, (key, event) :: tasks, fault)

/-- What `_reattach_lease` does for a lease without a store. -/
def upgrade (p : RecoveryProjection) (env : Surroundings) (store : RecoveryStore) :
    RecoveryProjection × Option ObserveFault :=
  if p.store.isSome then (p, none)
  else
    let p := { p with store := some store }
    let (p, tasks, fault) := persistEach env p p.tasks
    ({ p with tasks := tasks }, fault)

theorem persistEach_spec (env : Surroundings) (p : RecoveryProjection) (tasks : Dict (Str × Str) TaskEvent) :
    (∃ store, (persistEach env p tasks).1 = { p with store := store }) ∧
      (persistEach env p tasks).2.1.map (·.1) = tasks.map (·.1) := by
  induction tasks generalizing p env with
  | nil => exact ⟨⟨p.store, rfl⟩, rfl⟩
  | cons item tasks ih =>
    obtain ⟨key, event⟩ := item
    unfold persistEach
    obtain ⟨store, hstore⟩ := persist_fst p env event
    rcases hx : p.persist env event with ⟨p', event', fault⟩
    rw [hx] at hstore
    obtain rfl : p' = { p with store := store } := hstore
    cases fault with
    | some fault => exact ⟨⟨store, rfl⟩, rfl⟩
    | none =>
      obtain ⟨h1, h2⟩ := ih env.next { p with store := store }
      exact ⟨h1, congrArg (key :: ·) h2⟩

theorem upgrade_fst (p : RecoveryProjection) (env : Surroundings) (store : RecoveryStore) :
    ∃ store' tasks, tasks.map (·.1) = p.tasks.map (·.1) ∧
      (p.upgrade env store).1 = { p with store := store', tasks := tasks } := by
  unfold upgrade
  split
  · exact ⟨p.store, p.tasks, rfl, rfl⟩
  · obtain ⟨⟨store', hstore⟩, hkeys⟩ := persistEach_spec env { p with store := some store } p.tasks
    refine ⟨store', _, hkeys, ?_⟩
    dsimp only at hstore ⊢
    rw [hstore]

end RecoveryProjection

end MercuryRelay
