/-
  The recovery of a service (admission.py and lease_recovery.py).

  The leases that were opened with recovery share one store; a lease that was
  not may be given it when it is reattached.  Devices are revoked, and new
  processes load what was written.

  * `perform_store`: an act changes the store by what it asks of it;
  * `run_sound`: every reachable service is sound.
-/
import MercuryRelay.Recovery.Persisting

set_option autoImplicit false

namespace MercuryRelay

open Python

/-- A projection has a store if it is the one of the service. -/
structure RecoveryService where
  store : RecoveryStore
  projections : List RecoveryProjection

/-- What happens to a service. -/
inductive ServiceAct where
  /-- `_open_lease`, with the store or without. -/
  | openLease (profile : Str) (recovery : Bool) (scope : Scope)
  | request (i : ℕ) (env : Surroundings) (value : Option Json)
  | observe (i : ℕ) (env : Surroundings) (text : Str)
  /-- `_reattach_lease` with recovery. -/
  | upgrade (i : ℕ) (env : Surroundings)
  | snapshot (i : ℕ) (env : Surroundings)
  | revoke (wall : ℚ) (installation device : Str)
  /-- A new process, whose store is `loaded`. -/
  | restart (wall : ℚ) (loaded : RecoveryStore)

namespace RecoveryService

/-- The projection with the store as it is now. -/
def lend (m : RecoveryService) (p : RecoveryProjection) : RecoveryProjection :=
  { p with store := p.store.map fun _ => m.store }

/-- A call of projection `i`. -/
def on (m : RecoveryService) (i : ℕ) (f : RecoveryProjection → RecoveryProjection) : RecoveryService :=
  match m.projections[i]? with
  | some p =>
    { store := (f (m.lend p)).store.getD m.store
      projections := m.projections.set i (f (m.lend p)) }
  | none => m

def perform (depths : JsonDepths) (m : RecoveryService) : ServiceAct → RecoveryService
  | .openLease profile recovery scope =>
    { m with projections := m.projections ++
        [{ profile := profile, store := if recovery then some m.store else none, scope := some scope }] }
  | .request i env value => m.on i (·.request env value)
  | .observe i env text => m.on i fun p => (p.observe depths env text).1
  | .upgrade i env => m.on i fun p => (p.upgrade env m.store).1
  | .snapshot i env => m.on i fun p => (p.snapshot env).2
  | .revoke wall installation device => { m with store := (m.store.revoke wall installation device).2 }
  | .restart _ loaded => { store := loaded, projections := [] }

/-- What an act asks of the store. -/
def asks (depths : JsonDepths) (m : RecoveryService) : ServiceAct → List StoreAct
  | .openLease _ _ _ | .request _ _ _ => []
  | .observe i env text =>
    match m.projections[i]? with
    | some p => if p.store.isSome then (m.lend p).observing env (loadsStrict depths text) else []
    | none => []
  | .upgrade i env =>
    match m.projections[i]? with
    | some p => (m.lend p).upgrading env m.store
    | none => []
  | .snapshot i env =>
    match m.projections[i]? with
    | some p => if p.store.isSome ∧ p.scope.isSome then [.prune env.wall] else []
    | none => []
  | .revoke wall installation device => [.revoke wall installation device]
  | .restart wall loaded => [.restart wall loaded]

/-- What the callers supply: admitted scopes, profiles that exist, texts that were decoded and a clock
    that reads numbers. -/
def Enabled (depths : JsonDepths) (m : RecoveryService) : ServiceAct → Prop
  | .openLease _ _ scope => scope.Admitted
  | .request _ env _ => RecoveryProjection.LegibleProfiles env
  | .observe _ env text => (utf8 text).isSome ∧ RecoveryProjection.Clocked env m.store.ttlSeconds
  | .upgrade _ env => RecoveryProjection.Clocked env m.store.ttlSeconds
  | .snapshot _ _ => True
  | .revoke _ _ _ => True
  | .restart wall loaded => Restarted depths m.store wall loaded

/-- A step, labelled with the act and what it asks of the store. -/
def Step (depths : JsonDepths) (m : RecoveryService) (l : ServiceAct × List StoreAct) (m' : RecoveryService) : Prop :=
  m.Enabled depths l.1 ∧ m.asks depths l.1 = l.2 ∧ m.perform depths l.1 = m'

abbrev Run (depths : JsonDepths) : RecoveryService → List (ServiceAct × List StoreAct) → RecoveryService → Prop :=
  Transition.Run (Step depths)

/-- No lease is open, and nothing was ever stored. -/
structure New (m : RecoveryService) : Prop where
  projections : m.projections = []
  rows : m.store.rows = []
  revision : m.store.revision = 0
  truncated : m.store.truncated = false
  file : m.store.file = none
  capacity : 1 ≤ m.store.maxRows ∧ m.store.maxRows ≤ maxStoreRows

variable {depths : JsonDepths} {m m' : RecoveryService} {a : ServiceAct} {trace : List (ServiceAct × List StoreAct)}

/-! ## The store -/

theorem snapshot_store (p : RecoveryProjection) (env : Surroundings) :
    (p.snapshot env).2 = { p with store := p.store.map fun s =>
      if p.scope.isSome then s.prune env.wall else s } := by
  obtain ⟨profile, store, scope, pending, bindings, tasks, truncated, revision⟩ := p
  cases store <;> cases scope <;> rfl

theorem getD_map_lend {p : RecoveryProjection} (f : RecoveryStore → RecoveryStore) :
    ((m.lend p).store.map f).getD m.store = if p.store.isSome then f m.store else m.store := by
  unfold lend
  cases p.store <;> rfl

/-- **An act changes the store by what it asks of it.** -/
theorem perform_store (depths : JsonDepths) (m : RecoveryService) (a : ServiceAct) :
    (m.perform depths a).store = (m.asks depths a).foldl RecoveryStore.act m.store := by
  have hon : ∀ (i : ℕ) (f : RecoveryProjection → RecoveryProjection) (acts : RecoveryProjection → List StoreAct),
      (∀ p, m.projections[i]? = some p →
        ((f (m.lend p)).store.getD m.store) = (acts p).foldl RecoveryStore.act m.store) →
      (m.on i f).store =
        (match m.projections[i]? with | some p => acts p | none => []).foldl RecoveryStore.act m.store := by
    intro i f acts h
    unfold on
    cases hi : m.projections[i]? with
    | none => rfl
    | some p => exact h p hi
  cases a with
  | openLease profile recovery scope => rfl
  | request i env value =>
    show (m.on i (·.request env value)).store = m.store
    rw [hon i _ (fun _ => [])]
    · cases m.projections[i]? <;> rfl
    · intro p hp
      have hstore : ((m.lend p).request env value).store = (m.lend p).store := by
        rw [RecoveryProjection.request_eq]
        cases RecoveryProjection.requested env value <;> rfl
      rw [hstore]
      unfold lend
      cases p.store <;> rfl
  | observe i env text =>
    refine hon i _ (fun p => if p.store.isSome then (m.lend p).observing env (loadsStrict depths text) else []) ?_
    intro p hp
    show (((m.lend p).observeValue env (loadsStrict depths text)).1.store).getD m.store = _
    rw [RecoveryProjection.observe_store, getD_map_lend]
    split <;> rfl
  | upgrade i env =>
    refine hon i _ (fun p => (m.lend p).upgrading env m.store) ?_
    intro p hp
    have hlend : (m.lend p).store.getD m.store = m.store := by
      unfold lend
      cases p.store <;> rfl
    rw [RecoveryProjection.upgrade_store, hlend]
    rfl
  | snapshot i env =>
    refine hon i _ (fun p => if p.store.isSome ∧ p.scope.isSome then [.prune env.wall] else []) ?_
    intro p hp
    rw [snapshot_store]
    have hscope : (m.lend p).scope = p.scope := rfl
    rw [getD_map_lend, hscope]
    cases p.store with
    | none => rfl
    | some s => cases p.scope <;> rfl
  | revoke wall installation device => rfl
  | restart wall loaded => rfl

/-! ## Reachable services -/

/-- The rows of the store and of its file are sound, and so is every projection. -/
structure Sound (m : RecoveryService) : Prop where
  store : SoundStore m.store
  file : m.store.SoundFile
  projections : ∀ p ∈ m.projections, p.Sound

theorem New.sound (h : m.New) : m.Sound := by
  refine ⟨⟨?_, ?_, ?_, h.capacity⟩, ?_, ?_⟩
  · rw [h.rows]
    exact fun r hr => absurd hr List.not_mem_nil
  · rw [h.rows]
    exact List.nodup_nil
  · rw [h.revision]
  · intro bytes hbytes
    rw [h.file] at hbytes
    cases hbytes
  · rw [h.projections]
    exact fun p hp => absurd hp List.not_mem_nil

theorem lend_sound {p : RecoveryProjection} (hp : p.Sound) : (m.lend p).Sound := hp.congr rfl rfl rfl rfl

theorem lend_ready {p : RecoveryProjection} {env : Surroundings} (hm : m.Sound)
    (hclock : RecoveryProjection.Clocked env m.store.ttlSeconds) : ∀ s ∈ (m.lend p).store, RecoveryProjection.Ready env s := by
  intro s hs
  obtain ⟨_, -, rfl⟩ := Option.map_eq_some_iff.1 hs
  exact ⟨hm.store, hm.file, hclock⟩

/-- What an act asks of the store: sound puts, or one act that can be. -/
theorem asks_cases (hm : m.Sound) (h : m.Enabled depths a) :
    (∀ b ∈ m.asks depths a, b.IsPut ∧ b.Sound m.store.ttlSeconds) ∨
      ∃ b, m.asks depths a = [b] ∧ m.store.Enabled depths b ∧ b.Sound m.store.ttlSeconds := by
  have hnone : ∀ b ∈ ([] : List StoreAct), b.IsPut ∧ b.Sound m.store.ttlSeconds :=
    fun b hb => absurd hb List.not_mem_nil
  cases a with
  | openLease profile recovery scope => exact .inl hnone
  | request i env value => exact .inl hnone
  | observe i env text =>
    left
    cases hi : m.projections[i]? with
    | none =>
      simp only [asks, hi]
      exact hnone
    | some p =>
      simp only [asks, hi]
      by_cases hstore : p.store.isSome = true
      · rw [if_pos hstore]
        have hp := lend_sound (m := m) (hm.projections p (List.mem_of_getElem? hi))
        have hcalled := @RecoveryProjection.observe_sound _ _ depths hp (lend_ready hm h.2) _ h.1
        refine hcalled.asks m.store ?_
        obtain ⟨s, hs⟩ := Option.isSome_iff_exists.1 hstore
        show p.store.map _ = _
        rw [hs]
        rfl
      · rw [if_neg hstore]
        exact hnone
  | upgrade i env =>
    left
    cases hi : m.projections[i]? with
    | none =>
      simp only [asks, hi]
      exact hnone
    | some p =>
      simp only [asks, hi]
      have hp := lend_sound (m := m) (hm.projections p (List.mem_of_getElem? hi))
      exact (RecoveryProjection.upgrade_sound hp ⟨hm.store, hm.file, h⟩).2
  | snapshot i env =>
    cases hi : m.projections[i]? with
    | none =>
      simp only [asks, hi]
      exact .inl hnone
    | some p =>
      simp only [asks, hi]
      split
      · exact .inr ⟨_, rfl, trivial, trivial⟩
      · exact .inl hnone
  | revoke wall installation device => exact .inr ⟨_, rfl, trivial, trivial⟩
  | restart wall loaded => exact .inr ⟨_, rfl, h, trivial⟩

theorem acts_of_puts {s : RecoveryStore} {acts : List StoreAct} (h : ∀ b ∈ acts, b.IsPut) :
    RecoveryStore.Acts depths s acts (acts.foldl RecoveryStore.act s) := by
  induction acts generalizing s with
  | nil => exact .nil
  | cons b acts ih =>
    rw [List.forall_mem_cons] at h
    refine .cons ⟨?_, rfl⟩ (ih h.2)
    cases b with
    | put wall scope binding event => trivial
    | _ => exact absurd h.1 id

/-- **A step of the service is a run of its store.** -/
theorem step_acts {asked : List StoreAct} (hm : m.Sound) (h : Step depths m (a, asked) m') :
    RecoveryStore.Acts depths m.store asked m'.store ∧ ∀ b ∈ asked, b.Sound m.store.ttlSeconds := by
  obtain ⟨henabled, hasked, rfl⟩ := h
  obtain rfl : m.asks depths a = asked := hasked
  rw [perform_store]
  rcases asks_cases hm henabled with hputs | ⟨b, hb, hb', hsound⟩
  · exact ⟨acts_of_puts fun b hb => (hputs b hb).1, fun b hb => (hputs b hb).2⟩
  · have hone : m.asks depths a = [b] := hb
    dsimp only
    rw [hone]
    exact ⟨.single ⟨hb', rfl⟩, fun c hc => List.mem_singleton.1 hc ▸ hsound⟩

theorem on_sound {f : RecoveryProjection → RecoveryProjection} {i : ℕ} (hm : m.Sound)
    (hf : ∀ p ∈ m.projections, (f (m.lend p)).Sound) : ∀ p ∈ (m.on i f).projections, p.Sound := by
  unfold on
  cases hi : m.projections[i]? with
  | none => exact hm.projections
  | some p =>
    intro q hq
    rcases List.mem_or_eq_of_mem_set hq with hq | rfl
    · exact hm.projections q hq
    · exact hf p (List.mem_of_getElem? hi)

/-- **An act keeps the service sound.** -/
theorem perform_sound (hread : 6 ≤ depths.read) (hm : m.Sound) (h : m.Enabled depths a) :
    (m.perform depths a).Sound := by
  have hstore : SoundStore (m.perform depths a).store ∧ (m.perform depths a).store.SoundFile := by
    rcases asks_cases hm h with hputs | ⟨b, hb, hb', hbs⟩
    · rw [perform_store]
      obtain ⟨h1, h2, -⟩ := RecoveryStore.puts_sound hm.store hm.file hputs
      exact ⟨h1, h2⟩
    · rw [perform_store, hb]
      exact RecoveryStore.act_sound hm.store hm.file hread hb' hbs
  refine ⟨hstore.1, hstore.2, ?_⟩
  cases a with
  | openLease profile recovery scope =>
    intro p hp
    rcases List.mem_append.1 hp with hp | hp
    · exact hm.projections p hp
    · rw [List.mem_singleton.1 hp]
      have hnil : ∀ {κ α : Type}, RecoveryProjection.Table ([] : Dict κ α) := RecoveryProjection.table_nil
      refine ⟨⟨hnil, hnil, hnil⟩, fun s hs => ?_, ?_, ?_, ?_⟩
      · cases hs
        exact h
      all_goals exact fun item hitem => absurd hitem List.not_mem_nil
  | request i env value =>
    exact on_sound hm fun p hp =>
      RecoveryProjection.request_sound (lend_sound (hm.projections p hp)) h value
  | observe i env text =>
    exact on_sound hm fun p hp =>
      (RecoveryProjection.observe_sound (lend_sound (hm.projections p hp)) (lend_ready hm h.2) h.1).sound
  | upgrade i env =>
    exact on_sound hm fun p hp =>
      (RecoveryProjection.upgrade_sound (lend_sound (hm.projections p hp)) ⟨hm.store, hm.file, h⟩).1
  | snapshot i env =>
    refine on_sound hm fun p hp => ?_
    rw [snapshot_store]
    exact (hm.projections p hp).congr rfl rfl rfl rfl
  | revoke wall installation device => exact hm.projections
  | restart wall loaded => exact fun p hp => absurd hp List.not_mem_nil

/-- **Every reachable service is sound.** -/
theorem run_sound (hread : 6 ≤ depths.read) (h : Run depths m trace m') (hm : m.Sound) : m'.Sound := by
  refine Transition.Run.invariant (I := Sound) ?_ h hm
  rintro s ⟨a, asked⟩ t hs ⟨henabled, -, rfl⟩
  exact perform_sound hread hs henabled

theorem acts_ttl {s t : RecoveryStore} {acts : List StoreAct} (h : RecoveryStore.Acts depths s acts t) :
    t.ttlSeconds = s.ttlSeconds ∧ t.maxRows = s.maxRows := by
  induction h with
  | nil => exact ⟨rfl, rfl⟩
  | @cons s b _ _ _ hstep _ ih =>
    obtain ⟨henabled, rfl⟩ := hstep
    obtain ⟨hmax, httl⟩ := RecoveryStore.act_config s b henabled
    exact ⟨ih.1.trans httl, ih.2.trans hmax⟩

/-- **A run of the service is a run of its store.** -/
theorem run_acts (hread : 6 ≤ depths.read) (h : Run depths m trace m') (hm : m.Sound) :
    RecoveryStore.Acts depths m.store (trace.flatMap (·.2)) m'.store ∧
      ∀ b ∈ trace.flatMap (·.2), b.Sound m.store.ttlSeconds := by
  induction h with
  | nil => exact ⟨.nil, fun b hb => absurd hb List.not_mem_nil⟩
  | @cons s l t ls u hstep hrun ih =>
    obtain ⟨a, asked⟩ := l
    obtain ⟨hacts, hsound⟩ := step_acts hm hstep
    have ht : t.Sound := run_sound hread (.single hstep) hm
    obtain ⟨hacts', hsound'⟩ := ih ht
    rw [List.flatMap_cons]
    refine ⟨hacts.append hacts', fun b hb => ?_⟩
    rcases List.mem_append.1 hb with hb | hb
    · exact hsound b hb
    · rw [← (acts_ttl hacts).1]
      exact hsound' b hb

/-! ## Performing acts -/

/-- What acts ask one after another. -/
def traceOf (depths : JsonDepths) : RecoveryService → List ServiceAct → List (ServiceAct × List StoreAct)
  | _, [] => []
  | m, a :: acts => (a, m.asks depths a) :: traceOf depths (m.perform depths a) acts

/-- Every act is enabled when it is its turn. -/
def AllEnabled (depths : JsonDepths) : RecoveryService → List ServiceAct → Prop
  | _, [] => True
  | m, a :: acts => m.Enabled depths a ∧ AllEnabled depths (m.perform depths a) acts

theorem run_traceOf {acts : List ServiceAct} (h : AllEnabled depths m acts) :
    Run depths m (traceOf depths m acts) (acts.foldl (perform depths) m) := by
  induction acts generalizing m with
  | nil => exact .nil
  | cons a acts ih => exact .cons ⟨h.1, rfl, rfl⟩ (ih h.2)

theorem traceOf_singleton (m : RecoveryService) (a : ServiceAct) :
    traceOf depths m [a] = [(a, m.asks depths a)] := rfl

theorem traceOf_append (m : RecoveryService) (acts acts' : List ServiceAct) : traceOf depths m (acts ++ acts') =
    traceOf depths m acts ++ traceOf depths (acts.foldl (perform depths) m) acts' := by
  induction acts generalizing m with
  | nil => rfl
  | cons a acts ih => exact congrArg ((a, m.asks depths a) :: ·) (ih (m.perform depths a))

theorem allEnabled_append {acts acts' : List ServiceAct} (h : AllEnabled depths m acts)
    (h' : AllEnabled depths (acts.foldl (perform depths) m) acts') : AllEnabled depths m (acts ++ acts') := by
  induction acts generalizing m with
  | nil => exact h'
  | cons a acts ih => exact ⟨h.1, ih h.2 h'⟩

/-- Acts that are enabled whenever the time to live is what it is are enabled one after another. -/
theorem allEnabled_of_ttl {acts : List ServiceAct} (hread : 6 ≤ depths.read) (hm : m.Sound)
    (h : ∀ a ∈ acts, ∀ m' : RecoveryService, m'.store.ttlSeconds = m.store.ttlSeconds → m'.Enabled depths a) :
    AllEnabled depths m acts := by
  induction acts generalizing m with
  | nil => trivial
  | cons a acts ih =>
    rw [List.forall_mem_cons] at h
    have henabled := h.1 m rfl
    have hstep : Step depths m (a, m.asks depths a) (m.perform depths a) := ⟨henabled, rfl, rfl⟩
    refine ⟨henabled, ih (perform_sound hread hm henabled) fun b hb m' hm' => h.2 b hb m' ?_⟩
    exact hm'.trans (acts_ttl (step_acts hm hstep).1).1

/-- The store after acts is what all they asked leaves. -/
theorem foldl_store (depths : JsonDepths) (m : RecoveryService) (acts : List ServiceAct) :
    (acts.foldl (perform depths) m).store =
      ((traceOf depths m acts).flatMap (·.2)).foldl RecoveryStore.act m.store := by
  induction acts generalizing m with
  | nil => rfl
  | cons a acts ih =>
    have htrace : traceOf depths m (a :: acts) = (a, m.asks depths a) :: traceOf depths (m.perform depths a) acts :=
      rfl
    rw [List.foldl_cons, ih, perform_store, htrace, List.flatMap_cons, List.foldl_append]

end RecoveryService

end MercuryRelay
