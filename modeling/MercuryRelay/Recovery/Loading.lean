/-
  Files that can be loaded (lease_recovery.py, `RecoveryStore`).

  `observe` bounds the characters of a field and the reader the octets of an
  event: twelve full fields are 2928 characters, and up to 35136 octets.  A
  store whose events are small is always loaded as it was written.

  * `files_load`: what is written is loaded, over every run in which the
    stored events are small.
-/
import MercuryRelay.Python.JsonLength
import MercuryRelay.Recovery.Service

set_option autoImplicit false

namespace MercuryRelay

open Python

/-- A put stores an event that the reader takes, under a revision that it takes. -/
def StoreAct.Small (s : RecoveryStore) : StoreAct → Prop
  | .put c scope binding event =>
    s.finished c.start (RecoveryStore.putKey scope binding event) = true ∨
      SmallEvent (s.putRow c.stored (RecoveryStore.putKey scope binding event) event).event ∧
        s.revision < 2 ^ 63 - 1
  | _ => True

namespace RecoveryStore

variable {depths : JsonDepths} {s t u : RecoveryStore} {wall : ℚ} {c : Readings} {a : StoreAct}
  {acts : List StoreAct}

/-- Every event is one that the reader takes, and so is the revision. -/
structure SmallStore (s : RecoveryStore) : Prop where
  events : ∀ r ∈ s.rows, SmallEvent r.event
  revision : s.revision ≤ 2 ^ 63 - 1

/-- A file that was written by a small store with the same limits. -/
def SmallFile (s : RecoveryStore) : Prop :=
  ∀ bytes ∈ s.file, ∃ f, bytes = raw f ∧ SoundStore f ∧ SmallStore f ∧ f.maxRows = s.maxRows

theorem SmallFile.sound (h : s.SmallFile) : s.SoundFile := fun bytes hbytes =>
  let ⟨f, hraw, hf, _, hmax⟩ := h bytes hbytes
  ⟨f, hraw, hf, hmax⟩

theorem Trimmed.small (h : Trimmed s t) (hs : SmallStore s) : SmallStore t :=
  ⟨fun r hr => hs.events r (h.rows.subset hr), h.revision ▸ hs.revision⟩

theorem adding_small {key : RowKey} {event : TaskEvent} (hs : SmallStore s)
    (hevent : SmallEvent (s.putRow c.stored key event).event) (hrevision : s.revision < 2 ^ 63 - 1) :
    SmallStore (s.adding c key event) := by
  constructor
  · intro r hr
    rcases List.mem_append.1 hr with hr | hr
    · exact hs.events r ((prune_trimmed s c.start).rows.subset (List.mem_filter.1 hr).1)
    · rw [List.mem_singleton.1 hr]
      exact hevent
  · show s.revision + 1 ≤ 2 ^ 63 - 1
    omega

/-- The rows that are left when a device is revoked are small. -/
theorem without_small (hs : SmallStore s) (installation device : Str) :
    SmallStore (s.without installation device) :=
  ⟨fun r hr => hs.events r (List.mem_filter.1 hr).1, hs.revision⟩

theorem saves_small (hs : SmallStore s) (ha : a.Small s) (h : s.saves a = some t) : SmallStore t := by
  cases a with
  | put c scope binding event =>
    obtain ⟨hopen, -, rfl⟩ := of_saves_put h
    rcases ha with hfinished | ⟨hevent, hrevision⟩
    · rw [hopen] at hfinished
      cases hfinished
    · exact (saving_trimmed _ c.saved).small (adding_small hs hevent hrevision)
  | revoke wall installation device =>
    obtain ⟨-, rfl⟩ := of_saves_revoke h
    exact (saving_trimmed _ wall).small (without_small hs installation device)
  | prune wall => cases h
  | restart wall loaded => cases h

/-- **An act that stores a small event keeps the store small**, and its file. -/
theorem act_small (hs : SoundStore s) (hsmall : SmallStore s) (hfile : s.SmallFile) (hread : 6 ≤ depths.read)
    (h : s.Enabled depths a) (hsound : a.Sound s.ttlSeconds) (ha : a.Small s) :
    SmallStore (s.act a) ∧ (s.act a).SmallFile := by
  constructor
  · cases a with
    | put c scope binding event =>
      have hcases := put_cases s c scope binding event
      simp only [act]
      generalize s.put c scope binding event = r at hcases ⊢
      cases hcases with
      | finished _ _ => exact (prune_trimmed s c.start).small hsmall
      | unrendered hopen hlong =>
        rcases ha with hfinished | ⟨-, hrevision⟩
        · rw [hopen] at hfinished
          cases hfinished
        · rw [rendered_of_le (Int.add_nonneg hs.revision (by decide)) (by omega)] at hlong
          cases hlong
      | stored hopen hshort _ =>
        have hkept := saves_small hsmall ha (saves_put hopen hshort)
        exact ⟨hkept.events, hkept.revision⟩
      | failed _ _ _ => exact ⟨hsmall.events, hsmall.revision⟩
    | revoke wall installation device =>
      exact (revoke_trimmed s wall installation device).small (without_small hsmall installation device)
    | prune wall => exact (prune_trimmed s wall).small hsmall
    | restart wall loaded =>
      cases hcontent : s.file with
      | none =>
        obtain ⟨hrows, hrev, -⟩ := restarted_new h hcontent
        refine ⟨fun r hr => ?_, ?_⟩
        · have hr : r ∈ loaded.rows := hr
          rw [hrows] at hr
          exact absurd hr List.not_mem_nil
        · show loaded.revision ≤ 2 ^ 63 - 1
          rw [hrev]
          decide
      | some bytes =>
        obtain ⟨f, rfl, hf, hfsmall, hmax⟩ := hfile bytes hcontent
        obtain ⟨hrows, hrev, -⟩ := restarted_rows h hread hcontent hf hmax
        have hpruned := (prune_trimmed f wall).small hfsmall
        refine ⟨fun r hr => ?_, ?_⟩
        · have hr : r ∈ loaded.rows := hr
          rw [hrows] at hr
          exact hpruned.events r hr
        · show loaded.revision ≤ 2 ^ 63 - 1
          rw [hrev]
          exact hfsmall.revision
  · intro bytes hbytes
    obtain ⟨hmax, -⟩ := act_config s a h
    rw [act_file s a h] at hbytes
    rw [hmax]
    cases hwrites : s.writes a with
    | none =>
      rw [hwrites] at hbytes
      exact hfile bytes hbytes
    | some f =>
      rw [hwrites] at hbytes
      cases hbytes
      have hsaves := saves_of_writes hwrites
      exact ⟨f, rfl, saves_sound hs hsound hsaves, saves_small hsmall ha hsaves, (saves_trimmed hsaves).1⟩

/-- A saved file is not longer than what is read. -/
theorem length_saves (hs : SoundStore s) (hsmall : SmallStore s) (hsound : a.Sound s.ttlSeconds) (ha : a.Small s)
    (h : s.saves a = some t) : t.encode.length ≤ maxStoreBytes := by
  cases a with
  | put c scope binding event =>
    obtain ⟨hopen, -, rfl⟩ := of_saves_put h
    rcases ha with hfinished | ⟨hevent, hrevision⟩
    · rw [hopen] at hfinished
      cases hfinished
    · exact length_encode_saving (adding_sound hsound.1 hsound.2 hs).revision
        (adding_small hsmall hevent hrevision).revision c.saved
  | revoke wall installation device =>
    obtain ⟨-, rfl⟩ := of_saves_revoke h
    exact length_encode_saving (without_sound hs installation device).revision hsmall.revision wall
  | prune wall => cases h
  | restart wall loaded => cases h

/-- The store that the constructor makes of a file, as the rows of another: the same rows in the same
    order, less those that have expired, the same revision, and a flag at least as true. -/
def LoadsAs (depths : JsonDepths) (wall : ℚ) (t : RecoveryStore) : Prop :=
  ∃ loaded, load depths wall t.maxRows (some t.raw) = some loaded ∧
    loaded.rows = (t.rows.filter fun r => wall < r.expiresAt).map (·.toJson) ∧
    loaded.revision = t.revision ∧ (t.truncated = true → loaded.truncated = true)

theorem loads_of_saves (hs : SoundStore s) (hsmall : SmallStore s) (hread : 6 ≤ depths.read)
    (hwrite : 3 ≤ depths.write) (hsound : a.Sound s.ttlSeconds) (ha : a.Small s) (h : s.saves a = some t)
    (wall : ℚ) : LoadsAs depths wall t := by
  obtain ⟨hmax, -, hlen⟩ := saves_trimmed h
  have ht := saves_sound hs hsound h
  have htsmall := saves_small hsmall ha h
  have hrows : t.rows.length ≤ maxStoreRows := hlen.trans hs.capacity.2
  refine ⟨_, load_raw ht htsmall.revision hrows htsmall.events (length_saves hs hsmall hsound ha h) hread hwrite wall,
    ?_, rfl, (prune_trimmed t wall).truncated⟩
  show ((t.prune wall).rows).map (·.toJson) = _
  have hkept : (t.rows.filter fun r => decide (wall < r.expiresAt)).length ≤ t.maxRows :=
    (List.length_filter_le _ _).trans (hlen.trans hmax.ge)
  show (List.drop _ (t.rows.filter fun r => decide (wall < r.expiresAt))).map _ = _
  rw [Nat.sub_eq_zero_of_le hkept, List.drop_zero]

/-- **What is written is loaded**, over every run of the store that stores small events. -/
theorem acts_load (h : Acts depths s acts u) (hread : 6 ≤ depths.read) (hwrite : 3 ≤ depths.write)
    (hs : SoundStore s) (hsmall : SmallStore s) (hfile : s.SmallFile)
    (hsound : ∀ b ∈ acts, b.Sound s.ttlSeconds)
    (hacts : ∀ pre b post, acts = pre ++ b :: post → b.Small (pre.foldl act s)) :
    ∀ pre b post t, acts = pre ++ b :: post → (pre.foldl act s).writes b = some t →
      ((pre.foldl act s).act b).file = some t.raw ∧ ∀ wall, LoadsAs depths wall t := by
  induction h with
  | nil =>
    intro pre b post t heq
    cases pre <;> cases heq
  | @cons s a v ls u hstep hrun ih =>
    obtain ⟨henabled, rfl⟩ := hstep
    rw [List.forall_mem_cons] at hsound
    have ha : a.Small s := hacts [] a ls rfl
    intro pre b post t heq hwrites
    cases pre with
    | nil =>
      cases heq
      have hwrites : s.writes a = some t := hwrites
      refine ⟨?_, loads_of_saves hs hsmall hread hwrite hsound.1 ha (saves_of_writes hwrites)⟩
      show (s.act a).file = some t.raw
      rw [act_file s a henabled, hwrites]
      rfl
    | cons c pre =>
      cases heq
      obtain ⟨h1, -⟩ := act_sound hs hfile.sound hread henabled hsound.1
      obtain ⟨h2, h3⟩ := act_small hs hsmall hfile hread henabled hsound.1 ha
      have httl := (act_config s a henabled).2
      refine ih h1 h2 h3 ?_ ?_ pre b post t rfl hwrites
      · rw [httl]
        exact hsound.2
      · intro pre' b' post' heq'
        exact hacts (a :: pre') b' post' (by rw [heq']; rfl)

end RecoveryStore

namespace RecoveryStore

/-! ## Large events -/

/-- A file with an event that is too large is not loaded. -/
theorem load_large {depths : JsonDepths} {s : RecoveryStore} {r : RecoveryRow} (hs : SoundStore s)
    (hmax : s.revision ≤ 2 ^ 63 - 1) (hread : 6 ≤ depths.read) (hwrite : 3 ≤ depths.write) (hr : r ∈ s.rows)
    (hlarge : ¬ SmallEvent r.event) (wall : ℚ) (maxRows : ℕ) : load depths wall maxRows (some s.raw) = none := by
  rw [load_some]
  split
  · rfl
  · rw [read_raw hs hmax hread, Option.bind_some, loadValue_toJson, if_neg]
    · rfl
    · rintro ⟨-, -, -, hvalid⟩
      exact hlarge ((validRow_iff (hs.rows r hr).1 hwrite).1 (hvalid r hr))

end RecoveryStore

namespace RecoveryService

variable {depths : JsonDepths} {m m' : RecoveryService} {trace : List (ServiceAct × List StoreAct)}

/-- **Every file that is written is loaded** with the rows, the revision and the flag that were saved,
    in every run whose stored events are small. -/
theorem files_load (h : Run depths m trace m') (hm : m.New) (hread : 6 ≤ depths.read) (hwrite : 3 ≤ depths.write)
    (hacts : ∀ pre b post, trace.flatMap (·.2) = pre ++ b :: post → b.Small (pre.foldl RecoveryStore.act m.store)) :
    ∀ pre b post t, trace.flatMap (·.2) = pre ++ b :: post →
      (pre.foldl RecoveryStore.act m.store).writes b = some t →
      ((pre.foldl RecoveryStore.act m.store).act b).file = some t.raw ∧
        ∀ wall, RecoveryStore.LoadsAs depths wall t := by
  obtain ⟨hrun, hsound⟩ := run_acts hread h hm.sound
  refine RecoveryStore.acts_load hrun hread hwrite hm.sound.store ⟨fun r hr => ?_, ?_⟩ ?_ hsound hacts
  · rw [hm.rows] at hr
    exact absurd hr List.not_mem_nil
  · rw [hm.revision]
    decide
  · intro bytes hbytes
    rw [hm.file] at hbytes
    cases hbytes

/-- A host with the profile `default`, whose clock stands at 0. -/
def onlyDefault : Surroundings := .standing 0 fun profile => profile = lit "default"

theorem onlyDefault_legible : RecoveryProjection.LegibleProfiles onlyDefault := by
  intro profile h
  have hname : profile = lit "default" := of_decide_eq_true h
  rw [hname]
  decide

/-- A service that was never started before. -/
def fresh : RecoveryService := ⟨{}, []⟩

theorem fresh_new : fresh.New := ⟨rfl, rfl, rfl, rfl, rfl, by decide⟩

theorem startedScope_admitted : RecoveryStore.startedScope.Admitted :=
  ⟨⟨by decide, by decide, by decide⟩, ⟨by decide, by decide, by decide⟩, 0, rfl, by decide, by decide⟩

/-- A lease with recovery, and a request for a session that the reply binds to `s`. -/
def sessionActs : List ServiceAct :=
  [.openLease (lit "default") true RecoveryStore.startedScope,
    .request 0 onlyDefault (some (.obj [(lit "id", .int 1), (lit "method", .str (lit "session.create")),
      (lit "params", .obj [(lit "profile", .str (lit "default"))])])),
    .observe 0 onlyDefault (lit "\x7b\"id\":1,\"result\":\x7b\"session_id\":\"a\",\"session_key\":\"s\"\x7d\x7d")]

/-- The service with the session. -/
def session : RecoveryService := sessionActs.foldl (perform ⟨9, 9⟩) fresh

/-- The times to live of a new store are rendered, and are longer than no time. -/
theorem fresh_clock : Clock 604800 0 ∧ 0 < floatSum 0 604800 := by
  unfold Clock
  decide +kernel

theorem session_enabled : AllEnabled ⟨9, 9⟩ fresh sessionActs :=
  ⟨startedScope_admitted, onlyDefault_legible, ⟨by decide, fun _ => fresh_clock.1⟩, trivial⟩

/-- The session asks nothing of the store, and binds one session of one lease. -/
theorem session_checked : ((traceOf ⟨9, 9⟩ fresh sessionActs).flatMap (·.2)).length = 0 ∧
    session.projections.map (fun p => (p.store.isSome, p.tasks.length, p.revision)) = [(true, 0, 0)] ∧
    session.projections.map (fun p => (p.scope, p.bindings)) =
      [(some RecoveryStore.startedScope, [(lit "a", RecoveryStore.startedBinding)])] := by
  decide +kernel

theorem session_silent : (traceOf ⟨9, 9⟩ fresh sessionActs).flatMap (·.2) = [] :=
  List.length_eq_zero_iff.1 session_checked.1

/-- What the session has come to. -/
theorem session_spec : session.store = fresh.store ∧ ∃ p, session.projections = [p] ∧ p.store.isSome ∧
    p.scope = some RecoveryStore.startedScope ∧ p.bindings = [(lit "a", RecoveryStore.startedBinding)] ∧
    p.tasks = [] ∧ p.revision = 0 := by
  obtain ⟨-, hsome, hbound⟩ := session_checked
  obtain ⟨p, hp, hfields⟩ := List.map_eq_singleton_iff.1 hsome
  rw [hp, List.map_singleton] at hbound
  obtain ⟨hscope, hbindings⟩ := Prod.mk.inj (List.singleton_inj.1 hbound)
  obtain ⟨hstore, hrest⟩ := Prod.mk.inj hfields
  obtain ⟨htasks, hrevision⟩ := Prod.mk.inj hrest
  refine ⟨?_, p, hp, hstore, hscope, hbindings, List.length_eq_zero_iff.1 htasks, hrevision⟩
  rw [session, foldl_store, session_silent]
  rfl

/-- A frame of the session that reports a child. -/
def childFrame (raw : List (Str × Json)) : Json :=
  .obj [(lit "method", .str (lit "event")), (lit "params", .obj [(lit "type", .str (lit "subagent.progress")),
    (lit "session_id", .str (lit "a")), (lit "payload", .obj raw)])]

/-- The first event of the session, before it is bound. -/
def childTask (payload : Payload) : TaskEvent where
  sessionId := lit "a"
  kind := lit "subagent.progress"
  payload := payload
  recoveryRevision := 1

/-- The bound event that is stored for it. -/
def childEvent (raw : List (Str × Json)) : TaskEvent := RecoveryProjection.bound RecoveryStore.startedBinding
  (childTask (RecoveryProjection.mergePayload [] (RecoveryProjection.cleanPayload raw)))

/-- What is put for it. -/
def childPut (raw : List (Str × Json)) : StoreAct :=
  .put ⟨0, 0, 0⟩ RecoveryStore.startedScope RecoveryStore.startedBinding (childEvent raw)

/-- What the first frame of the session asks. -/
theorem session_asks {raw : List (Str × Json)} {text child : Str} (htext : loadsStrict ⟨9, 9⟩ text = some (childFrame raw))
    (hnamed : (identityFields.any fun k => ((Json.lookup raw k).map Json.truthy).getD false &&
      (identifier (Json.lookup raw k)).isNone) = false)
    (hchild : childKey (RecoveryProjection.cleanPayload raw) = some child) :
    session.asks ⟨9, 9⟩ (.observe 0 onlyDefault text) = [childPut raw] := by
  obtain ⟨hstore, p, hp, hsome, hscope, hbindings, htasks, hrevision⟩ := session_spec
  have hfirst : session.projections[0]? = some p := by rw [hp]; rfl
  have hbound : (session.lend p).boundBy onlyDefault (some (childFrame raw)) = none := rfl
  have hevent : (session.lend p).reported (some (childFrame raw)) = some ((lit "a", child),
      childTask (RecoveryProjection.mergePayload [] (RecoveryProjection.cleanPayload raw))) := by
    have hget : (session.lend p).tasks.get (lit "a", child) = none := by
      show Dict.get p.tasks _ = none
      rw [htasks]
      rfl
    have hrevision' : (session.lend p).revision = 0 := hrevision
    show (session.lend p).childEvent (lit "subagent.progress") (lit "a") raw = _
    unfold RecoveryProjection.childEvent
    rw [if_neg (by rw [hnamed]; decide), hchild]
    dsimp only
    rw [hget, hrevision']
    rfl
  have hbinding : ∀ payload, RecoveryProjection.bindingOf { session.lend p with
      revision := (session.lend p).revision + 1 } onlyDefault (childTask payload) =
      some RecoveryStore.startedBinding := by
    intro payload
    show Option.filter _ (Dict.get p.bindings (lit "a")) = _
    rw [hbindings]
    rfl
  have hlend : (session.lend p).store = some session.store := by
    obtain ⟨s, hs⟩ := Option.isSome_iff_exists.1 hsome
    show p.store.map _ = _
    rw [hs]
    rfl
  have hscope' : (session.lend p).scope = some RecoveryStore.startedScope := hscope
  simp only [asks, hfirst, if_pos hsome, htext, RecoveryProjection.observing, hbound, hevent]
  unfold RecoveryProjection.persisting
  dsimp only
  rw [hbinding, hlend, hscope']
  rfl

/-- The run of the session with its first frame. -/
theorem session_run {raw : List (Str × Json)} {text child : Str} (htext : loadsStrict ⟨9, 9⟩ text = some (childFrame raw))
    (hutf8 : (utf8 text).isSome)
    (hnamed : (identityFields.any fun k => ((Json.lookup raw k).map Json.truthy).getD false &&
      (identifier (Json.lookup raw k)).isNone) = false)
    (hchild : childKey (RecoveryProjection.cleanPayload raw) = some child) :
    ∃ trace m, Run ⟨9, 9⟩ fresh trace m ∧ trace.flatMap (·.2) = [childPut raw] ∧
      m.store = fresh.store.act (childPut raw) := by
  have hclock : RecoveryProjection.Clocked onlyDefault session.store.ttlSeconds := by
    rw [session_spec.1]
    exact fun _ => fresh_clock.1
  have hrun := run_traceOf (@allEnabled_append _ _ _ [.observe 0 onlyDefault text]
    session_enabled ⟨⟨hutf8, hclock⟩, trivial⟩)
  have hasked : (traceOf ⟨9, 9⟩ fresh (sessionActs ++ [.observe 0 onlyDefault text])).flatMap (·.2) =
      [childPut raw] := by
    have hsession : sessionActs.foldl (perform ⟨9, 9⟩) fresh = session := rfl
    rw [traceOf_append, List.flatMap_append, session_silent, hsession, traceOf_singleton,
      session_asks htext hnamed hchild, List.nil_append, List.flatMap_singleton]
  refine ⟨_, _, hrun, hasked, ?_⟩
  rw [foldl_store, hasked, List.foldl_cons, List.foldl_nil]

/-- A payload whose text fields are full of characters beyond the BMP. -/
def fullPayload : List (Str × Json) := textFields.map fun f => (f.1, .str (List.replicate f.2 0x1F600))

theorem fullPayload_legible : (childFrame fullPayload).Legible := by
  have hkeys : ∀ k ∈ [lit "method", lit "params", lit "type", lit "session_id", lit "payload", lit "event",
      lit "subagent.progress", lit "a"], LegibleStr k := by
    decide
  have houter : [lit "method", lit "params"].Nodup := by decide
  have hinner : [lit "type", lit "session_id", lit "payload"].Nodup := by decide
  have hfields : (fullPayload.map (·.1)).Nodup := by decide
  have htexts : ∀ f ∈ textFields, LegibleStr f.1 ∧ LegibleStr (List.replicate f.2 0x1F600) := by
    have hnames : ∀ f ∈ textFields, LegibleStr f.1 := by decide
    have hwide : ∀ n, LegibleStr (List.replicate n 0x1F600) := by
      intro n
      induction n with
      | zero => trivial
      | succ n ih => exact ⟨by decide, fun h => absurd h (by decide), ih⟩
    exact fun f hf => ⟨hnames f hf, hwide f.2⟩
  simp only [List.forall_mem_cons] at hkeys
  obtain ⟨k1, k2, k3, k4, k5, k6, k7, k8, -⟩ := hkeys
  have hpayload : (Json.obj fullPayload).Legible := by
    refine ⟨hfields, Json.legibleMembers_iff.2 fun m hm => ?_⟩
    obtain ⟨f, hf, rfl⟩ := List.mem_map.1 hm
    exact htexts f hf
  exact ⟨houter, k1, k6, k2, ⟨hinner, k3, k7, k4, k8, k5, hpayload, trivial⟩, trivial⟩

/-- The row of a first child, and the store that holds it. -/
def childRow (raw : List (Str × Json)) : RecoveryRow := fresh.store.putRow 0
  (RecoveryStore.putKey RecoveryStore.startedScope RecoveryStore.startedBinding (childEvent raw)) (childEvent raw)

def childStore (raw : List (Str × Json)) : RecoveryStore := fresh.store.adding ⟨0, 0, 0⟩
  (RecoveryStore.putKey RecoveryStore.startedScope RecoveryStore.startedBinding (childEvent raw)) (childEvent raw)

theorem childStore_rows (raw : List (Str × Json)) : (childStore raw).rows = [childRow raw] := rfl

theorem childRow_live (raw : List (Str × Json)) : 0 < (childRow raw).expiresAt := fresh_clock.2

theorem childPut_writes (raw : List (Str × Json)) :
    fresh.store.writes (childPut raw) = some ((childStore raw).saving 0) := by
  have hopen : fresh.store.finished 0
      (RecoveryStore.putKey RecoveryStore.startedScope RecoveryStore.startedBinding (childEvent raw)) = false := rfl
  have hshort : rendered (fresh.store.revision + 1) = true := by decide
  have hsaves : fresh.store.saves (childPut raw) = some ((childStore raw).saving 0) :=
    RecoveryStore.saves_put hopen hshort
  exact hsaves

/-- A file that holds one large event is not loaded. -/
theorem child_not_loaded {raw : List (Str × Json)} (hsound : (childPut raw).Sound fresh.store.ttlSeconds)
    (hfits : ((childStore raw).prune 0).toJson.textLength 1 1 ≤ maxStoreBytes)
    (hlarge : 32768 < (childRow raw).event.toJson.textLength 2 2) (wall : ℚ) (maxRows : ℕ) :
    load ⟨9, 9⟩ wall maxRows (some ((childStore raw).saving 0).raw) = none := by
  have hsaved := RecoveryStore.saves_sound fresh_new.sound.store hsound
    (RecoveryStore.saves_of_writes (childPut_writes raw))
  have hsaving : (childStore raw).saving 0 = (childStore raw).prune 0 := by
    refine RecoveryStore.saving_of_fits ?_
    rw [encode_eq, length_write rfl rfl]
    exact hfits
  refine RecoveryStore.load_large (r := childRow raw) hsaved ?_ (by decide) (by decide) ?_ ?_ wall maxRows
  · rw [(RecoveryStore.saving_trimmed (childStore raw) 0).revision]
    show fresh.store.revision + 1 ≤ 2 ^ 63 - 1
    decide
  · rw [hsaving]
    refine RecoveryStore.mem_prune ?_ (childRow_live raw) ?_
    · rw [childStore_rows]
      exact List.mem_cons_self
    · rw [childStore_rows]
      show 1 ≤ maxStoreRows
      decide
  · unfold SmallEvent
    rw [length_write rfl rfl]
    exact Nat.not_le.2 hlarge

/-- A frame with twelve full fields is stored, and the file that it is stored in is not loaded. -/
theorem full_event_not_loaded : ∃ trace m b t, Run ⟨9, 9⟩ fresh trace m ∧ trace.flatMap (·.2) = [b] ∧
    fresh.store.writes b = some t ∧ m.store.file = some t.raw ∧
    ∀ wall maxRows, load ⟨9, 9⟩ wall maxRows (some t.raw) = none := by
  have htext : loadsStrict ⟨9, 9⟩ (write fileStyle (childFrame fullPayload)) = some (childFrame fullPayload) :=
    loadsStrict_write undone_file fullPayload_legible (by decide)
  have hutf8 : (utf8 (write fileStyle (childFrame fullPayload))).isSome :=
    (write_ascii undone_file rfl (childFrame fullPayload)).utf8
  have hchild : childKey (RecoveryProjection.cleanPayload fullPayload) =
      some (lit "subagent_id:" ++ List.replicate 128 0x1F600) := by
    decide +kernel
  obtain ⟨trace, m, hrun, hasked, hstore⟩ := session_run htext hutf8 (by decide +kernel) hchild
  have hsound : (childPut fullPayload).Sound fresh.store.ttlSeconds :=
    (run_acts (by decide) hrun fresh_new.sound).2 _ (by rw [hasked]; exact List.mem_cons_self)
  refine ⟨trace, m, _, _, hrun, hasked, childPut_writes fullPayload, ?_, child_not_loaded hsound ?_ ?_⟩
  · have henabled : fresh.store.Enabled ⟨9, 9⟩ (childPut fullPayload) := trivial
    rw [hstore, RecoveryStore.act_file _ _ henabled, childPut_writes, Option.map_some, Option.some_or]
  · decide +kernel
  · decide +kernel

/-- A payload with a short name. -/
def smallPayload : List (Str × Json) := [(lit "subagent_id", .str (lit "c"))]

theorem files_load_session : ∃ trace m, Run ⟨9, 9⟩ fresh trace m ∧ trace.flatMap (·.2) = [childPut smallPayload] ∧
    ∃ t, fresh.store.writes (childPut smallPayload) = some t ∧ ∀ wall, RecoveryStore.LoadsAs ⟨9, 9⟩ wall t := by
  have htext : loadsStrict ⟨9, 9⟩ (write fileStyle (childFrame smallPayload)) = some (childFrame smallPayload) := by
    decide +kernel
  have hutf8 : (utf8 (write fileStyle (childFrame smallPayload))).isSome :=
    (write_ascii undone_file rfl (childFrame smallPayload)).utf8
  have hchild : childKey (RecoveryProjection.cleanPayload smallPayload) = some (lit "subagent_id:c") := by
    decide
  have hevent : SmallEvent (childRow smallPayload).event := by
    unfold SmallEvent
    decide +kernel
  obtain ⟨trace, m, hrun, hasked, -⟩ := session_run htext hutf8 (by decide) hchild
  have hsmall : ∀ pre b post, trace.flatMap (·.2) = pre ++ b :: post →
      b.Small (pre.foldl RecoveryStore.act fresh.store) := by
    intro pre b post heq
    rw [hasked] at heq
    cases pre with
    | nil =>
      obtain ⟨rfl, -⟩ := List.cons.inj heq
      exact .inr ⟨hevent, by decide⟩
    | cons c pre => cases pre <;> cases heq
  have hwrites := childPut_writes smallPayload
  refine ⟨trace, m, hrun, hasked, _, hwrites, ?_⟩
  exact (files_load hrun fresh_new (by decide) (by decide) hsmall [] (childPut smallPayload) [] _ hasked hwrites).2

end RecoveryService

end MercuryRelay
