/-
  Finished children stay finished (lease_recovery.py, `put` and `snapshot`).

  A row of a finished child is not replaced, in the memory or in the file, as
  long as it is kept.  A snapshot reads the last 64 rows of its scope only: an
  older row does not keep a live event of its child, still open under another
  runtime session, from being reported.

  * `acts_kept`: a finished row stays what it is as long as it is kept;
  * `terminal_sticky`: finished children over every run;
  * `finished_reported_open`: a finished child that a snapshot reports as open.
-/
import MercuryRelay.Recovery.Filling
import MercuryRelay.Recovery.Loading

set_option autoImplicit false

namespace MercuryRelay

open Python

namespace RecoveryStore

variable {depths : JsonDepths} {s t u : RecoveryStore} {wall : ℚ} {b : StoreAct} {acts : List StoreAct}
  {r r' : RecoveryRow}

/-! ## The row of a child -/

theorem row_unique (hs : SoundStore s) (h : r ∈ s.rows) (h' : r' ∈ s.rows) (hkey : r'.key = r.key) : r' = r :=
  List.inj_on_of_nodup_map hs.keyed h' h hkey

/-- An act that keeps a row: it has not expired, and a row of its child is there after the act. -/
def Keeps (s : RecoveryStore) (b : StoreAct) (r : RecoveryRow) : Prop :=
  r ∈ (s.prune b.first).rows ∧ ∃ row ∈ (s.act b).rows, row.key = r.key

/-- The row is in the memory, and the file has no other row of its child. -/
structure Holds (s : RecoveryStore) (r : RecoveryRow) : Prop where
  row : r ∈ s.rows
  file : ∀ bytes ∈ s.file, ∃ f, bytes = raw f ∧ SoundStore f ∧ f.maxRows = s.maxRows ∧
    ∀ r' ∈ f.rows, r'.key = r.key → r' = r

/-- Where the row of a child has finished, nothing is stored for the child. -/
theorem finished_of_row (hs : SoundStore s) (hr : r ∈ (s.prune wall).rows)
    (hterminal : hasTerminalStatus r.event.payload = true) : s.finished wall r.key = true := by
  have hpruned := (prune_trimmed s wall).sound hs
  unfold finished
  cases hprior : s.priorRow wall r.key with
  | none =>
    have hnone : (s.prune wall).rows.find? (fun row => decide (row.key = r.key)) = none := hprior
    rw [List.find?_eq_none] at hnone
    exact absurd (decide_eq_true rfl) (hnone r hr)
  | some prior =>
    obtain ⟨hmem, hkey⟩ := priorRow_spec hprior
    rw [row_unique hpruned hr hmem hkey]
    exact hterminal

/-- What is saved has no other row of a finished child whose row is kept. -/
theorem saves_row (hs : SoundStore s) (hr : r ∈ (s.prune b.first).rows)
    (hterminal : hasTerminalStatus r.event.payload = true) (h : s.saves b = some t) :
    ∀ r' ∈ t.rows, r'.key = r.key → r' = r := by
  have hold : r ∈ s.rows := (prune_trimmed s b.first).rows.subset hr
  intro r' hr' hkey
  cases b with
  | put c scope binding event =>
    obtain ⟨hopen, -, rfl⟩ := of_saves_put h
    rcases List.mem_append.1 ((saving_trimmed _ c.saved).rows.subset hr') with hmem | hnew
    · exact row_unique hs hold ((prune_trimmed s c.start).rows.subset (List.mem_filter.1 hmem).1) hkey
    · rw [List.mem_singleton.1 hnew] at hkey
      have hsame : putKey scope binding event = r.key := hkey
      have hfinished : s.finished c.start r.key = true := finished_of_row hs hr hterminal
      rw [← hsame, hopen] at hfinished
      cases hfinished
  | revoke wall installation device =>
    obtain ⟨-, rfl⟩ := of_saves_revoke h
    have hmem := (saving_trimmed _ wall).rows.subset hr'
    exact row_unique hs hold (List.mem_filter.1 hmem).1 hkey
  | prune wall => cases h
  | restart wall loaded => cases h

/-- What the file holds after an act that keeps the row. -/
theorem file_kept (hs : SoundStore s) (h : s.Holds r) (henabled : s.Enabled depths b) (hsound : b.Sound s.ttlSeconds)
    (hr : r ∈ (s.prune b.first).rows) (hterminal : hasTerminalStatus r.event.payload = true) :
    ∀ bytes ∈ (s.act b).file, ∃ f, bytes = raw f ∧ SoundStore f ∧ f.maxRows = (s.act b).maxRows ∧
      ∀ r' ∈ f.rows, r'.key = r.key → r' = r := by
  intro bytes hbytes
  rw [act_file s b henabled] at hbytes
  rw [(act_config s b henabled).1]
  cases hwrites : s.writes b with
  | none =>
    rw [hwrites] at hbytes
    exact h.file bytes hbytes
  | some f =>
    rw [hwrites] at hbytes
    cases hbytes
    have hsaves := saves_of_writes hwrites
    exact ⟨f, rfl, saves_sound hs hsound hsaves, (saves_trimmed hsaves).1, saves_row hs hr hterminal hsaves⟩

/-- **An act that keeps the row of a finished child keeps it as it is.** -/
theorem act_kept (hs : SoundStore s) (h : s.Holds r) (hread : 6 ≤ depths.read) (henabled : s.Enabled depths b)
    (hsound : b.Sound s.ttlSeconds) (hkeeps : s.Keeps b r) (hterminal : hasTerminalStatus r.event.payload = true) :
    (s.act b).Holds r := by
  obtain ⟨hr, row, hrow, hkey⟩ := hkeeps
  refine ⟨?_, file_kept hs h henabled hsound hr hterminal⟩
  suffices hsame : row = r by
    rw [← hsame]
    exact hrow
  cases b with
  | put c scope binding event =>
    have hrow : row ∈ (s.put c scope binding event).2.2.rows := hrow
    have hcases := put_cases s c scope binding event
    generalize s.put c scope binding event = x at hcases hrow
    cases hcases with
    | finished _ _ | unrendered _ _ => exact row_unique hs h.row ((prune_trimmed s c.start).rows.subset hrow) hkey
    | stored hopen hshort _ => exact saves_row hs hr hterminal (saves_put hopen hshort) row hrow hkey
    | failed _ _ _ => exact row_unique hs h.row hrow hkey
  | revoke wall installation device =>
    have hleft := (revoke_trimmed s wall installation device).rows.subset hrow
    exact row_unique hs h.row (List.mem_filter.1 hleft).1 hkey
  | prune wall => exact row_unique hs h.row ((prune_trimmed s wall).rows.subset hrow) hkey
  | restart wall loaded =>
    have hrow : row ∈ loaded.rows := hrow
    cases hcontent : s.file with
    | none =>
      rw [(restarted_new henabled hcontent).1] at hrow
      exact absurd hrow List.not_mem_nil
    | some bytes =>
      obtain ⟨f, rfl, hf, hmax, hfile⟩ := h.file bytes hcontent
      rw [(restarted_rows henabled hread hcontent hf hmax).1] at hrow
      exact hfile row ((prune_trimmed f wall).rows.subset hrow) hkey

/-- A row that an act brings in is the only one of its child, in the memory and in the file. -/
theorem act_enters (hs : SoundStore s) (hfile : s.SoundFile) (hread : 6 ≤ depths.read)
    (henabled : s.Enabled depths b) (hsound : b.Sound s.ttlSeconds) (hout : r ∉ s.rows) (hin : r ∈ (s.act b).rows) :
    (s.act b).Holds r := by
  have hunique : ∀ f, SoundStore f → r ∈ f.rows → ∀ r' ∈ f.rows, r'.key = r.key → r' = r :=
    fun f hf hr r' hr' hkey => row_unique hf hr hr' hkey
  refine ⟨hin, fun bytes hbytes => ?_⟩
  rw [(act_config s b henabled).1]
  cases b with
  | put c scope binding event =>
    have hcases := put_cases s c scope binding event
    simp only [act] at hin hbytes
    generalize s.put c scope binding event = x at hcases hin hbytes
    cases hcases with
    | finished _ _ | unrendered _ _ => exact absurd ((prune_trimmed s c.start).rows.subset hin) hout
    | stored _ _ _ =>
      cases hbytes
      have htrim := saving_trimmed (s.adding c (putKey scope binding event) event) c.saved
      have hsaving := htrim.sound (adding_sound hsound.1 hsound.2 hs)
      exact ⟨_, rfl, hsaving, htrim.maxRows, hunique _ hsaving hin⟩
    | failed _ _ _ => exact absurd hin hout
  | revoke wall installation device =>
    have hleft := (revoke_trimmed s wall installation device).rows.subset hin
    exact absurd (List.mem_filter.1 hleft).1 hout
  | prune wall => exact absurd ((prune_trimmed s wall).rows.subset hin) hout
  | restart wall loaded =>
    have hbytes : bytes ∈ loaded.file := hbytes
    rw [henabled.file] at hbytes
    obtain ⟨f, rfl, hf, hmax⟩ := hfile bytes hbytes
    have hin : r ∈ loaded.rows := hin
    rw [(restarted_rows henabled hread hbytes hf hmax).1] at hin
    exact ⟨f, rfl, hf, hmax, hunique f hf ((prune_trimmed f wall).rows.subset hin)⟩

/-- **A finished row stays what it is** over every run whose acts keep it. -/
theorem acts_kept (h : Acts depths s acts u) (hread : 6 ≤ depths.read) (hs : SoundStore s) (hfile : s.SoundFile)
    (hsound : ∀ b ∈ acts, b.Sound s.ttlSeconds) (hr : s.Holds r)
    (hterminal : hasTerminalStatus r.event.payload = true)
    (hkeeps : ∀ pre b post, acts = pre ++ b :: post → (pre.foldl act s).Keeps b r) : u.Holds r := by
  induction h with
  | nil => exact hr
  | @cons s b _ ls u hstep hrun ih =>
    obtain ⟨henabled, rfl⟩ := hstep
    rw [List.forall_mem_cons] at hsound
    obtain ⟨h1, h2⟩ := act_sound hs hfile hread henabled hsound.1
    have hkept := act_kept hs hr hread henabled hsound.1 (hkeeps [] b ls rfl) hterminal
    refine ih h1 h2 ?_ hkept fun pre c post heq => hkeeps (b :: pre) c post (by rw [heq]; rfl)
    rw [(act_config s b henabled).2]
    exact hsound.2

/-- **The row of a finished child is not changed** from the act that brings it in, over acts that keep it. -/
theorem row_kept {pre mid post : List StoreAct} (h : Acts depths s (pre ++ b :: (mid ++ post)) u)
    (hread : 6 ≤ depths.read) (hs : SoundStore s) (hfile : s.SoundFile)
    (hsound : ∀ c ∈ pre ++ b :: (mid ++ post), c.Sound s.ttlSeconds) (hout : r ∉ (pre.foldl act s).rows)
    (hin : r ∈ ((pre.foldl act s).act b).rows) (hterminal : hasTerminalStatus r.event.payload = true)
    (hkeeps : ∀ mid₁ c mid₂, mid = mid₁ ++ c :: mid₂ → (mid₁.foldl act ((pre.foldl act s).act b)).Keeps c r) :
    ∀ row ∈ (mid.foldl act ((pre.foldl act s).act b)).rows, row.key = r.key → row = r := by
  obtain ⟨v, hpre, hrest⟩ := h.split
  obtain rfl := acts_foldl hpre
  have hmem : ∀ c ∈ b :: (mid ++ post), c ∈ pre ++ b :: (mid ++ post) := fun c hc => List.mem_append_right _ hc
  obtain ⟨h1, h2, httl⟩ := acts_sound hpre hread hs hfile fun c hc => hsound c (List.mem_append_left _ hc)
  cases hrest with
  | cons hstep hrest =>
    obtain ⟨henabled, rfl⟩ := hstep
    obtain ⟨w, hmid, -⟩ := hrest.split
    obtain rfl := acts_foldl hmid
    have hb := hsound b (hmem b List.mem_cons_self)
    rw [← httl] at hb
    have hmids : ∀ c ∈ mid, c.Sound ((pre.foldl act s).act b).ttlSeconds := by
      intro c hc
      rw [(act_config _ b henabled).2, httl]
      exact hsound c (hmem c (List.mem_cons_of_mem _ (List.mem_append_left _ hc)))
    obtain ⟨h3, h4⟩ := act_sound h1 h2 hread henabled hb
    have henters := act_enters h1 h2 hread henabled hb hout hin
    have hkept := acts_kept hmid hread h3 h4 hmids henters hterminal hkeeps
    intro row hrow hkey
    exact row_unique (acts_sound hmid hread h3 h4 hmids).1 hkept.row hrow hkey

end RecoveryStore

namespace RecoveryService

open RecoveryProjection RecoveryStore

variable {depths : JsonDepths} {m m₀ : RecoveryService} {trace : List (ServiceAct × List StoreAct)}

theorem lend_rows {p : RecoveryProjection} (hm : m.Sound) : (m.lend p).SoundRows := by
  intro s hs
  obtain ⟨_, -, rfl⟩ := Option.map_eq_some_iff.1 hs
  exact hm.store

/-- **Finished children stay finished.**  The row of a finished child is not changed as long as it is
    kept; a snapshot reports no open event of the child, unless a row is overlooked; and it reports
    historical events as not live, and as unknown if they have not finished. -/
theorem terminal_sticky (h : Run depths m₀ trace m) (hm : m₀.New) (hread : 6 ≤ depths.read) :
    (∀ pre b mid post r, trace.flatMap (·.2) = pre ++ b :: (mid ++ post) → r ∉ (pre.foldl act m₀.store).rows →
      r ∈ ((pre ++ [b]).foldl act m₀.store).rows → hasTerminalStatus r.event.payload = true →
      (∀ mid₁ c mid₂, mid = mid₁ ++ c :: mid₂ → ((pre ++ b :: mid₁).foldl act m₀.store).Keeps c r) →
      ∀ row ∈ ((pre ++ b :: mid).foldl act m₀.store).rows, row.key = r.key → row = r) ∧
    ∀ p ∈ m.projections, ∀ env,
      (¬ (m.lend p).Overlooked env → ∀ r ∈ (m.lend p).storeRows env, hasTerminalStatus r.event.payload = true →
        ∀ e ∈ ((m.lend p).listed env).1, snapshotKey e = taskKey r → hasTerminalStatus e.payload = true) ∧
      ∀ e ∈ ((m.lend p).listed env).1, (∃ key, (key, e) ∈ p.tasks) ∨
        ∃ r ∈ (m.lend p).storeRows env, e = historical r ∧ (∀ b ∈ e.recoveryBinding, b.live = false) ∧
          (hasTerminalStatus r.event.payload = false →
            Json.lookup e.payload (lit "status") = some (.str (lit "unknown"))) := by
  have hms₀ := hm.sound
  have hms := run_sound hread h hms₀
  obtain ⟨hacts, hsound⟩ := run_acts hread h hm.sound
  refine ⟨?_, fun p hp env => ⟨?_, ?_⟩⟩
  · intro pre b mid post r htrace hout hin hterminal hkeeps row hrow hkey
    rw [htrace] at hacts hsound
    rw [List.foldl_append] at hin
    rw [List.foldl_append] at hrow
    refine row_kept hacts hread hms₀.store hms₀.file hsound hout hin hterminal ?_ row hrow hkey
    intro mid₁ c mid₂ hmid
    have hkeep := hkeeps mid₁ c mid₂ hmid
    rw [List.foldl_append] at hkeep
    exact hkeep
  · intro hlooked r hr hterminal e he hkey
    exact listed_finished (lend_rows hms) hlooked hr hterminal he hkey
  · intro e he
    rcases (mem_merged (mem_listed he)).2 with ⟨-, hlive⟩ | ⟨r, hr, rfl⟩
    · exact .inl hlive
    · obtain ⟨h1, h2, -⟩ := historical_spec r
      exact .inr ⟨r, (lastRows_sublist _ env).subset hr, rfl, h1, h2⟩

/-! ## A finished child that is overlooked -/

/-- What a frame says of a child. -/
def statusPayload (child status : Str) : List (Str × Json) :=
  [(lit "subagent_id", .str child), (lit "status", .str status)]

/-- A frame that reports a child of a session. -/
def statusFrame (runtime child status : Str) : Json :=
  .obj [(lit "method", .str (lit "event")), (lit "params", .obj [(lit "type", .str (lit "subagent.progress")),
    (lit "session_id", .str runtime), (lit "payload", .obj (statusPayload child status))])]

def reportStatus (i : ℕ) (runtime child status : Str) : ServiceAct :=
  .observe i onlyDefault (write fileStyle (statusFrame runtime child status))

/-- A request for a session. -/
def createRequest (i : ℕ) (n : ℤ) : ServiceAct :=
  .request i onlyDefault (some (.obj [(lit "id", .int n), (lit "method", .str (lit "session.create")),
    (lit "params", .obj [(lit "profile", .str (lit "default"))])]))

/-- The reply that binds it. -/
def replyFrame (n : ℤ) (runtime durable : Str) : Json :=
  .obj [(lit "id", .int n), (lit "result", .obj [(lit "session_id", .str runtime),
    (lit "session_key", .str durable)])]

def createReply (i : ℕ) (n : ℤ) (runtime durable : Str) : ServiceAct :=
  .observe i onlyDefault (write fileStyle (replyFrame n runtime durable))

/-- A child runs in the session `a` and finishes in `b`, of one durable session. -/
def pairActs : List ServiceAct :=
  [.openLease (lit "default") true startedScope, reportStatus 0 (lit "b") (lit "x") (lit "completed"),
    reportStatus 0 (lit "b") (lit "y") (lit "running"), reportStatus 0 (lit "a") (lit "x") (lit "running"),
    createRequest 0 1, createReply 0 1 (lit "a") (lit "s"), createRequest 0 2, createReply 0 2 (lit "b") (lit "s"),
    createRequest 0 3]

def paired : RecoveryService := pairActs.foldl (perform ⟨9, 9⟩) fresh

/-- The event of a child before it is bound. -/
def statusTask (runtime child status : Str) (revision : ℤ) : TaskEvent where
  sessionId := runtime
  kind := lit "subagent.progress"
  payload := statusPayload child status
  recoveryRevision := revision

/-- The event of a child after it has been stored. -/
def storedTask (runtime child status : Str) (revision : ℤ) : TaskEvent :=
  { bound ⟨runtime, lit "s", lit "default", true⟩ (statusTask runtime child status revision) with
    relayEventId := some revision }

def childName (child : Str) : Str := lit "subagent_id:" ++ child

def storedRow (runtime child status : Str) (revision : ℤ) : RecoveryRow :=
  ⟨⟨startedScope, lit "default", lit "s", some (childName child)⟩, floatSum 0 604800,
    storedTask runtime child status revision⟩

/-- The binding of the session `b`. -/
def secondBinding : Binding := ⟨lit "b", lit "s", lit "default", true⟩

def pairTasks : Dict (Str × Str) TaskEvent :=
  [((lit "b", childName (lit "x")), storedTask (lit "b") (lit "x") (lit "completed") 2),
    ((lit "b", childName (lit "y")), storedTask (lit "b") (lit "y") (lit "running") 3),
    ((lit "a", childName (lit "x")), storedTask (lit "a") (lit "x") (lit "running") 1)]

def pairRows : List RecoveryRow :=
  [storedRow (lit "b") (lit "x") (lit "completed") 2, storedRow (lit "b") (lit "y") (lit "running") 3]

theorem pair_projection : paired.projections.map (fun p => (p.store.isSome, p.scope)) = [(true, some startedScope)] ∧
    paired.projections.map (fun p => (p.bindings, p.pending)) =
      [([(lit "a", startedBinding), (lit "b", secondBinding)], [(.int 3, lit "default")])] ∧
    paired.projections.map (·.tasks) = [pairTasks] ∧ paired.projections.map (·.revision) = [3] := by
  decide +kernel

theorem pair_store : (paired.store.rows.map (·.key) = pairRows.map (·.key) ∧
    paired.store.rows.map (·.expiresAt) = pairRows.map (·.expiresAt) ∧
    paired.store.rows.map (·.event) = pairRows.map (·.event)) ∧
    (paired.store.revision, paired.store.truncated) = (3, false) ∧ paired.store.maxRows = 256 ∧
    (paired.store.ttlSeconds, paired.store.faults) = (604800, []) := by
  decide +kernel

/-- A service of one lease, whose sessions `a` and `b` are bound. -/
structure Crowding (m : RecoveryService) (p : RecoveryProjection) (tasks : Dict (Str × Str) TaskEvent)
    (revision : ℤ) : Prop where
  rows : m.store.rows = pairRows
  revised : (m.store.revision, m.store.truncated) = (3, false)
  limit : m.store.maxRows = 256
  config : (m.store.ttlSeconds, m.store.faults) = (604800, [])
  projections : m.projections = [p]
  recovery : p.store.isSome
  scope : p.scope = some startedScope
  bindings : p.bindings = [(lit "a", startedBinding), (lit "b", secondBinding)]
  pending : p.pending = [(.int 3, lit "default")]
  tasks : p.tasks = tasks
  revision : p.revision = revision

theorem paired_crowding : ∃ p, Crowding paired p pairTasks 3 := by
  obtain ⟨h1, h2, h3, h4⟩ := pair_projection
  obtain ⟨⟨h5, h6, h7⟩, h8, h9, h10⟩ := pair_store
  obtain ⟨p, hp, hfields⟩ := List.map_eq_singleton_iff.1 h1
  rw [hp, List.map_singleton] at h2 h3 h4
  obtain ⟨hstore, hscope⟩ := Prod.mk.inj hfields
  obtain ⟨hbindings, hpending⟩ := Prod.mk.inj (List.singleton_inj.1 h2)
  have hrows : paired.store.rows = pairRows := by
    have hext : ∀ rows rows' : List RecoveryRow, rows.map (·.key) = rows'.map (·.key) →
        rows.map (·.expiresAt) = rows'.map (·.expiresAt) → rows.map (·.event) = rows'.map (·.event) →
        rows = rows' := by
      intro rows
      induction rows with
      | nil =>
        intro rows' h _ _
        exact (List.map_eq_nil_iff.1 h.symm).symm
      | cons r rows ih =>
        rintro (_ | ⟨r', rows'⟩) hk he hv
        · cases hk
        · obtain ⟨hk1, hk2⟩ := List.cons.inj hk
          obtain ⟨he1, he2⟩ := List.cons.inj he
          obtain ⟨hv1, hv2⟩ := List.cons.inj hv
          rw [ih rows' hk2 he2 hv2]
          obtain ⟨_, _, _⟩ := r
          obtain ⟨_, _, _⟩ := r'
          cases hk1
          cases he1
          cases hv1
          rfl
    exact hext _ _ h5 h6 h7
  exact ⟨p, hrows, h8, h9, h10, hp, hstore, hscope, hbindings, hpending, List.singleton_inj.1 h3, List.singleton_inj.1 h4⟩

/-- A name that a frame may give a child. -/
def Reported (child : Str) : Prop :=
  LegibleStr child ∧
    (identityFields.any fun k => ((Json.lookup (statusPayload child (lit "running")) k).map Json.truthy).getD false &&
      (identifier (Json.lookup (statusPayload child (lit "running")) k)).isNone) = false ∧
    childKey (cleanPayload (statusPayload child (lit "running"))) = some (childName child) ∧
    mergePayload [] (cleanPayload (statusPayload child (lit "running"))) = statusPayload child (lit "running")

instance (child : Str) : Decidable (Reported child) := by
  unfold Reported; infer_instance

theorem statusFrame_read {child : Str} (h : Reported child) :
    loadsStrict ⟨9, 9⟩ (write fileStyle (statusFrame (lit "d") child (lit "running"))) =
      some (statusFrame (lit "d") child (lit "running")) := by
  have hkeys : ∀ k ∈ [lit "method", lit "params", lit "type", lit "session_id", lit "payload", lit "event",
      lit "subagent.progress", lit "d", lit "subagent_id", lit "status", lit "running"], LegibleStr k := by
    decide
  have houter : [lit "method", lit "params"].Nodup := by decide
  have hinner : [lit "type", lit "session_id", lit "payload"].Nodup := by decide
  have hfields : [lit "subagent_id", lit "status"].Nodup := by decide
  simp only [List.forall_mem_cons] at hkeys
  obtain ⟨k1, k2, k3, k4, k5, k6, k7, k8, k9, k10, k11, -⟩ := hkeys
  refine loadsStrict_write undone_file ?_ (by simp [statusFrame, statusPayload, Json.depth, Json.depthMembers])
  exact ⟨houter, k1, k6, k2, ⟨hinner, k3, k7, k4, k8, k5, ⟨hfields, k9, h.1, k10, k11, trivial⟩, trivial⟩, trivial⟩

/-- A child of the session `d`, which is not bound, is the newest task. -/
theorem Crowding.report {m : RecoveryService} {p : RecoveryProjection} {tasks : Dict (Str × Str) TaskEvent}
    {revision : ℤ} {child : Str} (h : Crowding m p tasks revision) (hchild : Reported child)
    (hnew : tasks.get (lit "d", childName child) = none) :
    ∃ p', Crowding (m.perform ⟨9, 9⟩ (reportStatus 0 (lit "d") child (lit "running"))) p'
      (bounded (tasks ++ [((lit "d", childName child), statusTask (lit "d") child (lit "running") (revision + 1))]))
      (revision + 1) := by
  obtain ⟨hrows, hrevised, hlimit, hconfig, hp, hstore, hscope, hbindings, hpending, htasks, hrevision⟩ := h
  have htext := statusFrame_read hchild
  obtain ⟨-, hnamed, hkey, hmerged⟩ := hchild
  have hevent : (m.lend p).reported (some (statusFrame (lit "d") child (lit "running"))) =
      some ((lit "d", childName child), statusTask (lit "d") child (lit "running") (revision + 1)) := by
    have hget : (m.lend p).tasks.get (lit "d", childName child) = none := by
      show Dict.get p.tasks _ = none
      rw [htasks]
      exact hnew
    have hrevision' : (m.lend p).revision = revision := hrevision
    show (m.lend p).childEvent (lit "subagent.progress") (lit "d") (statusPayload child (lit "running")) = _
    unfold RecoveryProjection.childEvent
    rw [if_neg (by rw [hnamed]; decide), hkey]
    dsimp only
    rw [hget, hrevision', Option.map_none, Option.getD_none, if_neg (by decide)]
    rw [hmerged]
    rfl
  have hobserve : (m.lend p).observeValue onlyDefault (some (statusFrame (lit "d") child (lit "running"))) =
      (m.lend p).report onlyDefault (lit "d", childName child)
        (statusTask (lit "d") child (lit "running") (revision + 1)) := by
    have hcases := observeValue_cases (m.lend p) onlyDefault (some (statusFrame (lit "d") child (lit "running")))
    generalize (m.lend p).observeValue onlyDefault (some (statusFrame (lit "d") child (lit "running"))) = r at hcases
    cases hcases with
    | quiet _ hreport _ =>
      rw [hevent] at hreport
      cases hreport
    | binds _ hreport =>
      rw [hevent] at hreport
      cases hreport
    | reports _ _ hreport =>
      rw [hevent] at hreport
      cases hreport
      rfl
  have hreport := @report_unbound (m.lend p) onlyDefault (lit "d", childName child)
    (statusTask (lit "d") child (lit "running") (revision + 1)) (by
      show Dict.get p.bindings (lit "d") = none
      rw [hbindings]
      decide) (by
      show Dict.get p.tasks _ = none
      rw [htasks]
      exact hnew)
  have hfirst : m.projections[0]? = some p := by rw [hp]; rfl
  have hlend := @lend_store m p hstore
  have hperform : m.perform ⟨9, 9⟩ (reportStatus 0 (lit "d") child (lit "running")) =
      m.on 0 fun q => (q.observeValue onlyDefault (some (statusFrame (lit "d") child (lit "running")))).1 := by
    unfold reportStatus
    rw [perform_observe, htext]
  rw [hperform, on, hfirst]
  dsimp only
  rw [hobserve, hreport, hp]
  have hsame : (m.lend p).store.getD m.store = m.store := by
    rw [hlend]
    rfl
  dsimp only
  rw [hsame, List.set_cons_zero]
  refine ⟨_, hrows, hrevised, hlimit, hconfig, rfl, ?_, hscope, hbindings, hpending, ?_, ?_⟩
  · rw [hlend]
    rfl
  · show bounded (p.tasks ++ _) = _
    rw [htasks]
  · show p.revision + 1 = _
    rw [hrevision]

/-- The tasks, and the revision, when the session `d` has one child more. -/
def withChild (x : Dict (Str × Str) TaskEvent × ℤ) (child : Str) : Dict (Str × Str) TaskEvent × ℤ :=
  (bounded (x.1 ++ [((lit "d", childName child), statusTask (lit "d") child (lit "running") (x.2 + 1))]), x.2 + 1)

theorem Crowding.reports {m : RecoveryService} {p : RecoveryProjection} {tasks : Dict (Str × Str) TaskEvent}
    {revision : ℤ} {children : List Str} (h : Crowding m p tasks revision) (hchild : ∀ c ∈ children, Reported c)
    (hnodup : children.Nodup) (hnew : ∀ c ∈ children, tasks.get (lit "d", childName c) = none) :
    ∃ p', Crowding ((children.map (reportStatus 0 (lit "d") · (lit "running"))).foldl (perform ⟨9, 9⟩) m) p'
      (children.foldl withChild (tasks, revision)).1 (children.foldl withChild (tasks, revision)).2 := by
  induction children generalizing m p tasks revision with
  | nil => exact ⟨p, h⟩
  | cons c children ih =>
    rw [List.forall_mem_cons] at hchild hnew
    obtain ⟨hc, hnodup⟩ := List.nodup_cons.1 hnodup
    obtain ⟨p', hp'⟩ := h.report hchild.1 hnew.1
    refine ih hp' hchild.2 hnodup fun c' hc' => ?_
    rw [Dict.get_none_iff]
    intro x hx
    rcases List.mem_append.1 ((bounded_sublist _).subset hx) with hx | hx
    · exact Dict.get_none_iff.1 (hnew.2 c' hc') x hx
    · rw [List.mem_singleton.1 hx]
      intro heq
      have hname : lit "subagent_id:" ++ c = lit "subagent_id:" ++ c' := (Prod.mk.inj heq).2
      rw [List.append_cancel_left hname] at hc
      exact hc hc'

/-- Sixty-three children. -/
def manyChildren : List Str := (List.range 63).map natDigits

theorem manyChildren_nodup : manyChildren.Nodup := List.nodup_range.map fun _ _ h => natDigits_injective h

def crowdActs : List ServiceAct := pairActs ++ manyChildren.map (reportStatus 0 (lit "d") · (lit "running"))

/-- The finished child of `b` is not among the newest tasks any more. -/
def crowdTasks : Dict (Str × Str) TaskEvent :=
  ((lit "a", childName (lit "x")), storedTask (lit "a") (lit "x") (lit "running") 1) ::
    manyChildren.mapIdx fun i child =>
      ((lit "d", childName child), statusTask (lit "d") child (lit "running") (4 + i))

def crowded : RecoveryService := crowdActs.foldl (perform ⟨9, 9⟩) fresh

theorem crowded_crowding : ∃ p, Crowding crowded p crowdTasks 66 := by
  obtain ⟨p, hp⟩ := paired_crowding
  have hfold : manyChildren.foldl withChild (pairTasks, 3) = (crowdTasks, 66) := by decide +kernel
  obtain ⟨p', hp'⟩ := @Crowding.reports _ _ _ _ manyChildren hp (by decide) manyChildren_nodup (by decide)
  rw [hfold] at hp'
  have hcrowded : crowded = (manyChildren.map (reportStatus 0 (lit "d") · (lit "running"))).foldl
      (perform ⟨9, 9⟩) paired := by
    unfold crowded crowdActs
    rw [List.foldl_append]
    rfl
  rw [hcrowded]
  exact ⟨p', hp'⟩

/-- The binding of the session `d`. -/
def thirdBinding : Binding := ⟨lit "d", lit "s", lit "default", true⟩

/-- What binding it puts. -/
def crowdPuts : List StoreAct := bindingPuts onlyDefault startedScope thirdBinding crowdTasks

def crowdRows : List RecoveryRow := pairRows ++ news 604800 3 crowdPuts

/-- Every row is of another child. -/
theorem crowdRows_keys : crowdRows.map (·.key) = (lit "x" :: lit "y" :: manyChildren).map fun child =>
    ⟨startedScope, lit "default", lit "s", some (childName child)⟩ := by
  decide

theorem crowdRows_room : Room 256 0 crowdRows where
  few := by decide
  small := by decide +kernel
  keyed := by
    have hinjective : Function.Injective fun child =>
        (⟨startedScope, lit "default", lit "s", some (childName child)⟩ : RowKey) := by
      intro c c' heq
      exact List.append_cancel_left (Option.some.inj (RowKey.mk.inj heq).2.2.2)
    rw [crowdRows_keys]
    exact (List.nodup_cons.2 ⟨by decide, List.nodup_cons.2 ⟨by decide, manyChildren_nodup⟩⟩).map
      hinjective
  live := by decide +kernel

/-- The service when the session `d` is bound as well. -/
def overcrowded : RecoveryService := crowded.perform ⟨9, 9⟩ (createReply 0 3 (lit "d") (lit "s"))

/-- The rows after the binding, and the tasks: the child of `a` is open, and the others are bound. -/
theorem overcrowded_spec : overcrowded.store.rows = crowdRows ∧ overcrowded.store.maxRows = 256 ∧
    ∃ p rest, overcrowded.projections = [p] ∧ p.store.isSome ∧ p.scope = some startedScope ∧
      p.tasks = ((lit "a", childName (lit "x")), storedTask (lit "a") (lit "x") (lit "running") 1) :: rest ∧
      ∀ item ∈ rest, item.2.recoveryBinding = some thirdBinding ∧
        item.1 ∈ manyChildren.map fun child => (lit "d", childName child) := by
  obtain ⟨p, hrows, hrevised, hlimit, hconfig, hp, hstore, hscope, hbindings, hpending, htasks, -⟩ := crowded_crowding
  obtain ⟨hrevision, -⟩ := Prod.mk.inj hrevised
  obtain ⟨httl, hfaults⟩ := Prod.mk.inj hconfig
  have hboundBy : (crowded.lend p).boundBy onlyDefault
      (loadsStrict ⟨9, 9⟩ (write fileStyle (replyFrame 3 (lit "d") (lit "s")))) = some (.int 3, thirdBinding) := by
    have htext : loadsStrict ⟨9, 9⟩ (write fileStyle (replyFrame 3 (lit "d") (lit "s"))) =
        some (replyFrame 3 (lit "d") (lit "s")) := by decide +kernel
    have hid : replyId [(lit "id", Json.int 3), (lit "result", .obj [(lit "session_id", .str (lit "d")),
        (lit "session_key", .str (lit "s"))])] = some (.int 3) := by decide
    have hopen : (crowded.lend p).pending.get (.int 3) = some (lit "default") := by
      show Dict.get p.pending _ = _
      rw [hpending]
      decide
    have hproven : provenBinding onlyDefault (lit "default") [(lit "session_id", .str (lit "d")),
        (lit "session_key", .str (lit "s"))] = some thirdBinding := by decide
    rw [htext]
    unfold replyFrame boundBy
    dsimp only
    rw [hid]
    dsimp only
    rw [hopen]
    show Option.map _ (provenBinding onlyDefault (lit "default") _) = _
    rw [hproven]
    rfl
  have hbinding : (bounded (p.bindings.set thirdBinding.runtimeSessionId thirdBinding)).get
      thirdBinding.runtimeSessionId = some thirdBinding := by
    rw [hbindings]
    decide
  have hsession : ∀ item ∈ p.tasks, item.2.sessionId = item.1.1 := by
    rw [htasks]
    decide
  obtain ⟨hover, p', hp', hstore', hscope', hkeys, hitems⟩ :=
    binds_session hp hstore hscope rfl hfaults (by rw [hrevision]; decide) (by rw [hrevision, htasks]; decide)
      hboundBy (by decide) hbinding hsession
  rw [htasks] at hover hkeys hitems
  have hputs : ∀ b ∈ crowdPuts, b.PutsAt 0 := by
    intro b hb
    obtain ⟨item, -, rfl⟩ := List.mem_map.1 hb
    rfl
  have hroom : Room crowded.store.maxRows 0
      (crowded.store.rows ++ news crowded.store.ttlSeconds crowded.store.revision crowdPuts) := by
    rw [hrows, hlimit, httl, hrevision]
    exact crowdRows_room
  obtain ⟨h1, -, h3⟩ := puts_append hputs hfaults (by rw [hrevision]; decide) (by rw [hrevision]; decide) hroom
  have hstored : overcrowded.store = crowdPuts.foldl act crowded.store := hover
  rw [hrows, httl, hrevision] at h1
  rw [hstored]
  have hnames : p'.tasks.map (·.1) = (lit "a", childName (lit "x")) ::
      manyChildren.map fun child => (lit "d", childName child) := by
    rw [hkeys]
    decide
  have hfirst : ∀ item ∈ crowdTasks, item.1.1 ≠ lit "d" →
      item = ((lit "a", childName (lit "x")), storedTask (lit "a") (lit "x") (lit "running") 1) := by decide
  refine ⟨h1, h3.trans hlimit, p', ?_⟩
  cases htasks' : p'.tasks with
  | nil =>
    rw [htasks'] at hnames
    cases hnames
  | cons item rest =>
    rw [htasks'] at hnames hitems
    obtain ⟨hkey, hrest⟩ := List.cons.inj hnames
    have hkey : item.1 = (lit "a", childName (lit "x")) := hkey
    refine ⟨rest, hp', hstore', hscope', ?_, fun item' hitem' => ?_⟩
    · obtain ⟨old, hold, heq, hsame, -⟩ := hitems item List.mem_cons_self
      have hne : old.1.1 ≠ lit "d" := by
        rw [← heq, hkey]
        decide
      rw [hsame hne, hfirst old hold hne]
    · have hname : item'.1 ∈ manyChildren.map fun child => (lit "d", childName child) := by
        rw [← hrest]
        exact List.mem_map_of_mem hitem'
      refine ⟨?_, hname⟩
      obtain ⟨old, -, heq, -, hbound⟩ := hitems item' (List.mem_cons_of_mem _ hitem')
      obtain ⟨child, -, hchild⟩ := List.mem_map.1 hname
      refine hbound ?_
      rw [← heq, ← hchild]
      rfl

/-- A frame that is written is observed in the time to live of a new service. -/
theorem observe_enabled (i : ℕ) (v : Json) {m' : RecoveryService} (httl : m'.store.ttlSeconds = fresh.store.ttlSeconds) :
    m'.Enabled ⟨9, 9⟩ (.observe i onlyDefault (write fileStyle v)) := by
  refine ⟨(write_ascii undone_file rfl v).utf8, fun _ => ?_⟩
  rw [httl]
  exact fresh_clock.1

theorem pairActs_enabled {a : ServiceAct} (ha : a ∈ pairActs) {m' : RecoveryService}
    (httl : m'.store.ttlSeconds = fresh.store.ttlSeconds) : m'.Enabled ⟨9, 9⟩ a := by
  simp only [pairActs, List.mem_cons, List.not_mem_nil, or_false] at ha
  rcases ha with rfl | rfl | rfl | rfl | rfl | rfl | rfl | rfl | rfl
  · exact startedScope_admitted
  · exact observe_enabled _ _ httl
  · exact observe_enabled _ _ httl
  · exact observe_enabled _ _ httl
  · exact onlyDefault_legible
  · exact observe_enabled _ _ httl
  · exact onlyDefault_legible
  · exact observe_enabled _ _ httl
  · exact onlyDefault_legible

theorem paired_run : Run ⟨9, 9⟩ fresh (traceOf ⟨9, 9⟩ fresh pairActs) paired :=
  run_traceOf (allEnabled_of_ttl (by decide) fresh_new.sound fun _ ha _ httl => pairActs_enabled ha httl)

theorem overcrowded_run : Run ⟨9, 9⟩ fresh
    (traceOf ⟨9, 9⟩ fresh (crowdActs ++ [createReply 0 3 (lit "d") (lit "s")])) overcrowded := by
  have hend : (crowdActs ++ [createReply 0 3 (lit "d") (lit "s")]).foldl (perform ⟨9, 9⟩) fresh = overcrowded := by
    rw [List.foldl_append, ← crowded, List.foldl_cons, List.foldl_nil, ← overcrowded]
  have hrun := @run_traceOf ⟨9, 9⟩ fresh (crowdActs ++ [createReply 0 3 (lit "d") (lit "s")])
    (allEnabled_of_ttl (by decide) fresh_new.sound ?_)
  · rw [hend] at hrun
    exact hrun
  intro a ha m' httl
  rcases List.mem_append.1 ha with ha | ha
  · rcases List.mem_append.1 ha with ha | ha
    · exact pairActs_enabled ha httl
    · obtain ⟨child, -, rfl⟩ := List.mem_map.1 ha
      exact observe_enabled _ _ httl
  · rw [List.mem_singleton.1 ha]
    exact observe_enabled _ _ httl

/-- The row of the finished child is the first one. -/
def finishedRow : RecoveryRow := storedRow (lit "b") (lit "x") (lit "completed") 2

/-- Rows that have room, of the scope of a lease and of its profile, are those that the lease is given. -/
theorem storeRows_of_room {p : RecoveryProjection} {rows : List RecoveryRow} (hstore : p.store.isSome)
    (hscope : p.scope = some startedScope) (hrows : m.store.rows = rows) (hmax : m.store.maxRows = 256)
    (hroom : Room 256 0 rows)
    (hall : ∀ r ∈ rows, r.key.scope = startedScope ∧ onlyDefault.profileAuthorizer r.key.profile = true) :
    (m.lend p).storeRows onlyDefault = rows := by
  have hscope' : (m.lend p).scope = some startedScope := hscope
  have hroom' : Room m.store.maxRows 0 m.store.rows := by
    rw [hrows, hmax]
    exact hroom
  have hpruned : (m.store.prune onlyDefault.wall).rows = rows := (prune_of_room hroom').trans hrows
  unfold storeRows
  rw [lend_store hstore, hscope']
  dsimp only
  rw [hpruned, List.filter_eq_self]
  exact fun r hr => decide_eq_true (hall r hr)

/-- A child that has finished in one session, and whose row is followed by 64 others, is reported as it
    was in a session in which it was running. -/
theorem finished_reported_open : ∃ trace m p, Run ⟨9, 9⟩ fresh trace m ∧ p ∈ m.projections ∧
    ∃ r ∈ (m.lend p).storeRows onlyDefault, hasTerminalStatus r.event.payload = true ∧
      ∃ e ∈ ((m.lend p).listed onlyDefault).1, snapshotKey e = taskKey r ∧ hasTerminalStatus e.payload = false := by
  have hsound : overcrowded.Sound := run_sound (by decide) overcrowded_run fresh_new.sound
  obtain ⟨hrows, hmax, p, rest, hp, hstore, hscope, htasks, hrest⟩ := overcrowded_spec
  have hstoreRows := storeRows_of_room hstore hscope hrows hmax crowdRows_room (by decide)
  have hlast : (overcrowded.lend p).lastRows onlyDefault = crowdRows.drop 1 := by
    have hlength : crowdRows.length - maxRows = 1 := by decide
    rw [lastRows, hstoreRows, hlength]
  have hlent : (overcrowded.lend p).SoundRows := lend_rows hsound
  have hkeys : ∀ r ∈ crowdRows.drop 1, taskKey r ≠ (some (lit "default"), lit "s", some (childName (lit "x"))) := by
    decide
  have hnamed : ∀ child ∈ manyChildren,
      (some (lit "default"), lit "s", some (childName child)) ∈ (crowdRows.drop 1).map taskKey := by
    have hrowKeys : (crowdRows.drop 1).map (·.key) = (lit "y" :: manyChildren).map fun child =>
        ⟨startedScope, lit "default", lit "s", some (childName child)⟩ := by
      rw [List.map_drop, crowdRows_keys]
      rfl
    have hlabel : (crowdRows.drop 1).map taskKey =
        ((crowdRows.drop 1).map (·.key)).map fun k => (some k.profile, k.durableSessionId, k.child) := by
      rw [List.map_map]
      rfl
    intro child hchild
    rw [hlabel, hrowKeys, List.map_map]
    exact List.mem_map.2 ⟨child, List.mem_cons_of_mem _ hchild, rfl⟩
  have hnew : ((overcrowded.lend p).history onlyDefault).get
      (snapshotKey (storedTask (lit "a") (lit "x") (lit "running") 1)) = none := by
    cases hget : ((overcrowded.lend p).history onlyDefault).get
        (snapshotKey (storedTask (lit "a") (lit "x") (lit "running") 1)) with
    | none => rfl
    | some e =>
      obtain ⟨hkey, r, hr, heq⟩ := mem_history (Dict.get_mem hget)
      have hrow := storeRow_sound hlent ((lastRows_sublist _ onlyDefault).subset hr)
      rw [hlast] at hr
      dsimp only at hkey heq
      rw [heq, snapshotKey_historical hrow] at hkey
      have hsame : snapshotKey (storedTask (lit "a") (lit "x") (lit "running") 1) =
          (some (lit "default"), lit "s", some (childName (lit "x"))) := by decide +kernel
      exact absurd (hkey.symm.trans hsame) (hkeys r hr)
  have hknown : ∀ item ∈ rest, (((overcrowded.lend p).history onlyDefault).get (snapshotKey item.2)).isSome := by
    intro item hitem
    obtain ⟨hbinding, hname⟩ := hrest item hitem
    obtain ⟨child, hchild, hkey⟩ := List.mem_map.1 hname
    have htask := (hsound.projections p (by rw [hp]; exact List.mem_cons_self)).tasks item
      (by rw [htasks]; exact List.mem_cons_of_mem _ hitem)
    have hsnapshot : snapshotKey item.2 = (some (lit "default"), lit "s", some (childName child)) := by
      rw [snapshotKey, hbinding, htask.child, ← hkey]
      rfl
    obtain ⟨r, hr, hrow⟩ := List.mem_map.1 (hnamed child hchild)
    rw [← hlast] at hr
    have hsome := history_isSome hr
    rw [snapshotKey_historical (storeRow_sound hlent ((lastRows_sublist _ onlyDefault).subset hr)), hrow] at hsome
    rw [hsnapshot]
    exact hsome
  have hreportable : Reportable onlyDefault (storedTask (lit "a") (lit "x") (lit "running") 1) := by decide +kernel
  have hsmall : (write plainAscii (.arr [(storedTask (lit "a") (lit "x") (lit "running") 1).toJson])).length ≤
      maxSnapshotBytes := by
    rw [length_write rfl rfl]
    decide +kernel
  obtain ⟨d, hmerged⟩ := @merged_append (overcrowded.lend p) onlyDefault _ _ rest htasks hreportable hnew hknown
  refine ⟨_, overcrowded, p, overcrowded_run, by rw [hp]; exact List.mem_cons_self, finishedRow, ?_, by decide +kernel,
    _, listed_last hmerged hsmall, by decide +kernel, by decide +kernel⟩
  rw [hstoreRows]
  exact List.mem_cons_self

/-- A child that runs in one session and has finished in another is reported as finished. -/
theorem terminal_sticky_paired : ∃ p ∈ paired.projections, finishedRow ∈ (paired.lend p).storeRows onlyDefault ∧
    hasTerminalStatus finishedRow.event.payload = true ∧
    (∃ item ∈ p.tasks, snapshotKey item.2 = taskKey finishedRow ∧ hasTerminalStatus item.2.payload = false) ∧
    ∀ e ∈ ((paired.lend p).listed onlyDefault).1, snapshotKey e = taskKey finishedRow →
      hasTerminalStatus e.payload = true := by
  obtain ⟨p, h⟩ := paired_crowding
  have hmem : p ∈ paired.projections := by
    rw [h.projections]
    exact List.mem_cons_self
  have hroom : Room 256 0 pairRows := crowdRows_room.sublist (List.sublist_append_left _ _)
  have hrows := storeRows_of_room h.recovery h.scope h.rows h.limit hroom (by decide)
  have hfinished : finishedRow ∈ (paired.lend p).storeRows onlyDefault := by
    rw [hrows]
    exact List.mem_cons_self
  have hterminal : hasTerminalStatus finishedRow.event.payload = true := by decide +kernel
  have hlooked : ¬ (paired.lend p).Overlooked onlyDefault := by
    rintro ⟨r, hr, hlast, -⟩
    have hfew : pairRows.length - maxRows = 0 := by decide
    rw [lastRows, hrows, hfew, List.drop_zero, ← hrows] at hlast
    exact hlast hr
  have hopen : ∃ item ∈ pairTasks, snapshotKey item.2 = taskKey finishedRow ∧
      hasTerminalStatus item.2.payload = false := by
    decide +kernel
  rw [← h.tasks] at hopen
  exact ⟨p, hmem, hfinished, hterminal, hopen,
    ((terminal_sticky paired_run fresh_new (by decide)).2 p hmem onlyDefault).1 hlooked finishedRow hfinished hterminal⟩

end RecoveryService

end MercuryRelay
