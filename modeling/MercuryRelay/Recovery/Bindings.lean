/-
  Bindings are proven (lease_recovery.py, `RecoveryProjection`).

  A projection takes requests and frames one after another; other leases may
  change the store in between, and a lease without a store may get one.  A
  reply is matched to the last request with its identifier that no reply has
  answered, so a request proves one binding at most.

  * `bindings_proven`: the claim about bindings, over every run.
-/
import MercuryRelay.Lib.Run
import MercuryRelay.Recovery.Observation

set_option autoImplicit false

namespace MercuryRelay

open Python

/-- What happens to a projection. -/
inductive ProjectionAct where
  | request (env : Surroundings) (value : Option Json)
  | observe (env : Surroundings) (text : Str)
  | upgrade (env : Surroundings) (store : RecoveryStore)
  /-- The store as the others that write to it left it. -/
  | share (store : Option RecoveryStore)

/-- The request that an act makes, with the profile it names. -/
def ProjectionAct.named : ProjectionAct → Option (Json × Str)
  | .request env value => RecoveryProjection.requested env value
  | _ => none

/-- The request that an act answers. -/
def ProjectionAct.answers (depths : JsonDepths) : ProjectionAct → Option Json
  | .observe _ text => RecoveryProjection.answered (loadsStrict depths text)
  | _ => none

namespace RecoveryProjection

def act (depths : JsonDepths) (p : RecoveryProjection) : ProjectionAct → RecoveryProjection
  | .request env value => p.request env value
  | .observe env text => (p.observe depths env text).1
  | .upgrade env store => (p.upgrade env store).1
  | .share store => { p with store := store }

/-- The acts of a projection one after another. -/
abbrev Acts (depths : JsonDepths) : RecoveryProjection → List ProjectionAct → RecoveryProjection → Prop :=
  Transition.Run fun p a q => p.act depths a = q

/-- Nothing was requested or observed yet. -/
structure Fresh (p : RecoveryProjection) : Prop where
  pending : p.pending = []
  bindings : p.bindings = []
  tasks : p.tasks = []

/-! ## Tables -/

section Tables

variable {κ α : Type} {d e : Dict κ α} {k : κ}

/-- A table of at most 64 items whose keys differ. -/
def Table (d : Dict κ α) : Prop := Dict.Keyed d ∧ d.length ≤ maxRows

theorem table_nil : Table ([] : Dict κ α) := ⟨Dict.keyed_nil, Nat.zero_le _⟩

theorem table_bounded (h : Dict.Keyed d) : Table (bounded d) :=
  ⟨keyed_bounded h, length_bounded_le d⟩

theorem Table.of_keys (h : Table d) (he : e.map (·.1) = d.map (·.1)) : Table e := by
  refine ⟨?_, ?_⟩
  · unfold Dict.Keyed
    rw [he]
    exact h.1
  · have hlen := congrArg List.length he
    rw [List.length_map, List.length_map] at hlen
    rw [hlen]
    exact h.2

variable [DecidableEq κ]

theorem Table.remove (h : Table d) (k : κ) : Table (Dict.remove d k) :=
  ⟨h.1.remove k, (List.length_filter_le _ _).trans h.2⟩

/-- A key that a bounded table lost was dropped for its size. -/
theorem lost_bounded (h : (Dict.get d k).isSome) (hlost : Dict.get (bounded d) k = none) :
    maxRows < d.length := by
  by_contra hlen
  rw [bounded_of_le (Nat.le_of_not_lt hlen)] at hlost
  rw [hlost] at h
  cases h

/-- The same keys are found. -/
theorem get_isSome_of_keys (he : e.map (·.1) = d.map (·.1)) : (Dict.get e k).isSome = (Dict.get d k).isSome := by
  have hmem : ∀ {f : Dict κ α}, (Dict.get f k).isSome = true ↔ k ∈ f.map (·.1) := by
    intro f
    constructor
    · intro h
      obtain ⟨v, hv⟩ := Option.isSome_iff_exists.1 h
      exact List.mem_map.2 ⟨_, Dict.get_mem hv, rfl⟩
    · intro h
      obtain ⟨x, hx, rfl⟩ := List.mem_map.1 h
      by_contra hnone
      rw [Option.not_isSome_iff_eq_none] at hnone
      exact Dict.get_none_iff.1 hnone x hx rfl
  rw [Bool.eq_iff_iff, hmem, hmem, he]

end Tables

/-- Every table is one of at most 64 items. -/
structure Bounded (p : RecoveryProjection) : Prop where
  pending : Table p.pending
  bindings : Table p.bindings
  tasks : Table p.tasks

variable {depths : JsonDepths} {p p₀ q u : RecoveryProjection} {a : ProjectionAct} {acts : List ProjectionAct}

theorem Fresh.bounded (h : p.Fresh) : p.Bounded := by
  refine ⟨?_, ?_, ?_⟩
  · rw [h.pending]
    exact table_nil
  · rw [h.bindings]
    exact table_nil
  · rw [h.tasks]
    exact table_nil

/-! ## One act -/

/-- The binding that an act proves, with the request it answers. -/
def proves (depths : JsonDepths) (p : RecoveryProjection) : ProjectionAct → Option (Json × Binding)
  | .observe env text => p.boundBy env (loadsStrict depths text)
  | _ => none

/-- The task that an act reports. -/
def reports (depths : JsonDepths) (p : RecoveryProjection) : ProjectionAct → Option (Str × Str)
  | .observe env text =>
    if (p.observe depths env text).2.isSome then none
    else (p.reported (loadsStrict depths text)).map (·.1)
  | _ => none

/-- What an act does to the tables: an item is kept, or is new, or was answered; or the tables are
    known to be truncated. -/
structure Acted (depths : JsonDepths) (p : RecoveryProjection) (a : ProjectionAct) (q : RecoveryProjection) :
    Prop where
  bounded : q.Bounded
  truncated : p.truncated = true → q.truncated = true
  pending : ∀ rid profile, q.pending.get rid = some profile → a.named = some (rid, profile) ∨
    p.pending.get rid = some profile ∧ a.answers depths ≠ some rid ∧ ∀ other, a.named ≠ some (rid, other)
  bindings : ∀ runtime b, q.bindings.get runtime = some b → p.bindings.get runtime = some b ∨
    b.runtimeSessionId = runtime ∧ ∃ rid, p.proves depths a = some (rid, b)
  pendingKept : ∀ rid, (p.pending.get rid).isSome ∨ (∃ profile, a.named = some (rid, profile)) →
    q.pending.get rid = none → a.answers depths = some rid ∨ q.truncated = true
  bindingsKept : ∀ runtime, (p.bindings.get runtime).isSome ∨
    (∃ rid b, p.proves depths a = some (rid, b) ∧ b.runtimeSessionId = runtime) →
    q.bindings.get runtime = none → q.truncated = true
  tasksKept : ∀ key, (p.tasks.get key).isSome ∨ p.reports depths a = some key →
    q.tasks.get key = none → q.truncated = true

/-- An act that changes neither the requests nor the bindings, and keeps the tasks. -/
theorem acted_quiet (hp : p.Bounded) (hpending : q.pending = p.pending) (hbindings : q.bindings = p.bindings)
    (htasks : q.tasks.map (·.1) = p.tasks.map (·.1)) (htruncated : p.truncated = true → q.truncated = true)
    (hnamed : a.named = none) (hanswers : a.answers depths = none) (hproves : p.proves depths a = none)
    (hreports : p.reports depths a = none) : Acted depths p a q := by
  refine ⟨⟨hpending ▸ hp.pending, hbindings ▸ hp.bindings, hp.tasks.of_keys htasks⟩, htruncated, ?_, ?_, ?_, ?_, ?_⟩
  · intro rid profile h
    rw [hpending] at h
    exact .inr ⟨h, by simp [hanswers], by simp [hnamed]⟩
  · intro runtime b h
    rw [hbindings] at h
    exact .inl h
  · intro rid h hlost
    rw [hpending] at hlost
    simp [hlost, hnamed] at h
  · intro runtime h hlost
    rw [hbindings] at hlost
    simp [hlost, hproves] at h
  · intro key h hlost
    have hkeys := get_isSome_of_keys (k := key) htasks
    simp [hreports, ← hkeys, hlost] at h

theorem acted_request (hp : p.Bounded) (env : Surroundings) (value : Option Json) :
    Acted depths p (.request env value) (p.request env value) := by
  rw [request_eq]
  cases hreq : requested env value with
  | none => exact acted_quiet hp rfl rfl rfl id hreq rfl rfl rfl
  | some request =>
    obtain ⟨rid, profile⟩ := request
    have hkeyed := hp.pending.1.set rid profile
    refine ⟨⟨table_bounded hkeyed, hp.bindings, hp.tasks⟩, fun h => by simp [h], ?_, ?_, ?_, ?_, ?_⟩
    · intro other named h
      have hget := get_of_bounded hkeyed h
      rw [Dict.get_set] at hget
      split at hget
      · rename_i heq
        cases hget
        exact .inl (heq ▸ hreq)
      · rename_i hne
        refine .inr ⟨hget, by simp [ProjectionAct.answers], fun x hx => hne ?_⟩
        have hsame := hreq.symm.trans hx
        cases hsame
        rfl
    · exact fun runtime b h => .inl h
    · intro other h hlost
      right
      have hpresent : (Dict.get (p.pending.set rid profile) other).isSome := by
        rw [Dict.get_set]
        split
        · rfl
        · rename_i hne
          rcases h with h | ⟨named, h⟩
          · exact h
          · have hsame := hreq.symm.trans h
            cases hsame
            exact absurd rfl hne
      simp [lost_bounded hpresent hlost]
    · intro runtime h hlost
      have hlost' : p.bindings.get runtime = none := hlost
      simp [proves, hlost'] at h
    · intro key h hlost
      have hlost' : p.tasks.get key = none := hlost
      simp [reports, hlost'] at h

theorem table_unanswered (hp : p.Bounded) (value : Option Json) : Table (p.unanswered value) := by
  unfold unanswered
  split
  · exact hp.pending.remove _
  · exact hp.pending

/-- A request is open after a frame if it was, and the frame does not answer it. -/
theorem get_unanswered {value : Option Json} {rid : Json} :
    (p.unanswered value).get rid = if answered value = some rid then none else p.pending.get rid := by
  unfold unanswered
  cases answered value with
  | none => rfl
  | some other =>
    dsimp only
    rw [Dict.get_remove]
    by_cases h : other = rid
    · rw [if_pos h, if_pos (congrArg some h)]
    · rw [if_neg h, if_neg (fun heq => h (Option.some.inj heq))]

section Observe

variable {env : Surroundings} {text : Str} {fault : Option ObserveFault}

/-- What becomes of the requests when a frame is observed. -/
theorem pending_observed {value : Option Json} (hvalue : loadsStrict depths text = value)
    (hq : q.pending = p.unanswered value) :
    (∀ rid profile, q.pending.get rid = some profile →
      (ProjectionAct.observe env text).named = some (rid, profile) ∨
      p.pending.get rid = some profile ∧ (ProjectionAct.observe env text).answers depths ≠ some rid ∧
        ∀ other, (ProjectionAct.observe env text).named ≠ some (rid, other)) ∧
    (∀ rid, (p.pending.get rid).isSome ∨ (∃ profile, (ProjectionAct.observe env text).named = some (rid, profile)) →
      q.pending.get rid = none → (ProjectionAct.observe env text).answers depths = some rid ∨ q.truncated = true) := by
  subst hvalue
  constructor
  · intro rid profile h
    rw [hq, get_unanswered] at h
    split at h
    · cases h
    · rename_i hno
      exact .inr ⟨h, hno, by simp [ProjectionAct.named]⟩
  · intro rid h hlost
    left
    rw [hq, get_unanswered] at hlost
    split at hlost
    · rename_i hyes
      exact hyes
    · simp [hlost, ProjectionAct.named] at h

theorem acted_observe (hp : p.Bounded) (env : Surroundings) (text : Str) :
    Acted depths p (.observe env text) (p.observe depths env text).1 := by
  generalize hvalue : loadsStrict depths text = value
  have hproves : p.proves depths (.observe env text) = p.boundBy env value := by
    rw [← hvalue]
    rfl
  have hreports : p.reports depths (.observe env text) =
      if (p.observeValue env value).2.isSome then none else (p.reported value).map (·.1) := by
    rw [← hvalue]
    rfl
  have hobserve : p.observe depths env text = p.observeValue env value := by
    rw [← hvalue]
    rfl
  rw [hobserve]
  have hcases := observeValue_cases p env value
  generalize p.observeValue env value = r at hcases hreports
  cases hcases with
  | @quiet truncated fault hbound hreport htruncated =>
    obtain ⟨h1, h2⟩ := pending_observed (q := { p with
      pending := p.unanswered value
      truncated := truncated }) hvalue rfl
    refine ⟨⟨table_unanswered hp value, hp.bindings, hp.tasks⟩, htruncated, h1, fun _ _ h => .inl h, h2, ?_, ?_⟩
    · intro runtime h hlost
      have hlost' : p.bindings.get runtime = none := hlost
      simp [hproves, hbound, hlost'] at h
    · intro key h hlost
      have hlost' : p.tasks.get key = none := hlost
      simp [hreports, hreport, hlost'] at h
  | @binds rid binding hbound hreport =>
    obtain ⟨store, tasks, hkeys, hbind⟩ := bind_fst { p with pending := p.unanswered value } env binding
    rw [hbind]
    have hkeyed := hp.bindings.1.set binding.runtimeSessionId binding
    obtain ⟨h1, h2⟩ := pending_observed (q := { p with
      pending := p.unanswered value
      store := store
      bindings := bounded (p.bindings.set binding.runtimeSessionId binding)
      tasks := tasks
      truncated := p.truncated || maxRows < (p.bindings.set binding.runtimeSessionId binding).length }) hvalue rfl
    refine ⟨⟨table_unanswered hp value, table_bounded hkeyed, hp.tasks.of_keys hkeys⟩, fun h => by simp [h],
      h1, ?_, h2, ?_, ?_⟩
    · intro runtime b h
      have hget := get_of_bounded hkeyed h
      rw [Dict.get_set] at hget
      split at hget
      · rename_i heq
        cases hget
        exact .inr ⟨heq, rid, hproves.trans hbound⟩
      · exact .inl hget
    · intro runtime h hlost
      have hpresent : (Dict.get (p.bindings.set binding.runtimeSessionId binding) runtime).isSome := by
        rw [Dict.get_set]
        split
        · rfl
        · rename_i hne
          rcases h with h | ⟨other, b, h, hruntime⟩
          · exact h
          · rw [hproves, hbound] at h
            cases h
            exact absurd hruntime hne
      have hdropped := lost_bounded hpresent hlost
      simp [hdropped]
    · intro key h hlost
      have hsame := get_isSome_of_keys (k := key) hkeys
      have hlost' : Dict.get tasks key = none := hlost
      simp [hreports, hreport, ← hsame, hlost'] at h
  | @reports key event hanswered hbound hreport =>
    have hopen : p.unanswered value = p.pending := by
      rw [unanswered, hanswered]
    obtain ⟨store, ⟨hfault, hreported⟩ | ⟨event', hfault, hreported⟩⟩ := report_fst p env key event
    · obtain ⟨h1, h2⟩ := pending_observed (q := { p with store := store, revision := p.revision + 1 }) hvalue hopen.symm
      rw [hreported]
      refine ⟨⟨hp.pending, hp.bindings, hp.tasks⟩, id, h1, fun _ _ h => .inl h, h2, ?_, ?_⟩
      · intro runtime h hlost
        have hlost' : p.bindings.get runtime = none := hlost
        simp [hproves, hbound, hlost'] at h
      · intro other h hlost
        have hlost' : p.tasks.get other = none := hlost
        simp [hreports, hfault, hlost'] at h
    · have hkeyed := (hp.tasks.1.set key event').moveToEnd key
      obtain ⟨h1, h2⟩ := pending_observed (q := { p with
        store := store
        revision := p.revision + 1
        tasks := bounded (Dict.moveToEnd (p.tasks.set key event') key)
        truncated := p.truncated || maxRows < (Dict.moveToEnd (p.tasks.set key event') key).length }) hvalue hopen.symm
      rw [hreported]
      refine ⟨⟨hp.pending, hp.bindings, table_bounded hkeyed⟩, fun h => by simp [h], h1, fun _ _ h => .inl h, h2,
        ?_, ?_⟩
      · intro runtime h hlost
        have hlost' : p.bindings.get runtime = none := hlost
        simp [hproves, hbound, hlost'] at h
      · intro other h hlost
        have hpresent : (Dict.get (Dict.moveToEnd (p.tasks.set key event') key) other).isSome := by
          rw [Dict.get_moveToEnd, Dict.get_set]
          split
          · rfl
          · rename_i hne
            rcases h with h | h
            · exact h
            · rw [hreports, hfault, hreport] at h
              cases h
              exact absurd rfl hne
        have hdropped := lost_bounded hpresent hlost
        simp [hdropped]

end Observe

/-- **What an act does to the tables.** -/
theorem acted (hp : p.Bounded) (a : ProjectionAct) : Acted depths p a (p.act depths a) := by
  cases a with
  | request env value => exact acted_request hp env value
  | observe env text => exact acted_observe hp env text
  | upgrade env store =>
    obtain ⟨store', tasks, hkeys, h⟩ := upgrade_fst p env store
    show Acted depths p (.upgrade env store) (p.upgrade env store).1
    rw [h]
    exact acted_quiet hp rfl rfl hkeys id rfl rfl rfl rfl
  | share store => exact acted_quiet hp rfl rfl rfl id rfl rfl rfl rfl

/-! ## Runs -/

theorem acts_bounded (h : Acts depths p acts q) (hp : p.Bounded) : q.Bounded := by
  refine Transition.Run.invariant (I := Bounded) ?_ h hp
  rintro s a _ hs rfl
  exact (acted hs a).bounded

theorem acts_truncated (h : Acts depths p acts q) (hp : p.Bounded) (ht : p.truncated = true) :
    q.truncated = true := by
  have hinv : q.Bounded ∧ q.truncated = true := by
    refine Transition.Run.invariant (I := fun p => p.Bounded ∧ p.truncated = true) ?_ h ⟨hp, ht⟩
    rintro s a _ ⟨hs, ht⟩ rfl
    exact ⟨(acted hs a).bounded, (acted hs a).truncated ht⟩
  exact hinv.2

/-- The binding `b` was proved by act `j`. -/
def Produced (depths : JsonDepths) (p₀ : RecoveryProjection) (acts : List ProjectionAct) (j : ℕ) (b : Binding) :
    Prop :=
  ∃ u a rid, Acts depths p₀ (acts.take j) u ∧ acts[j]? = some a ∧ u.proves depths a = some (rid, b)

/-- Act `j` answers the request `rid` of act `i`, which no other act in between names or answers; the
    request named the profile of `b`, and the reply reports its sessions. -/
structure Proven (depths : JsonDepths) (acts : List ProjectionAct) (i j : ℕ) (b : Binding) : Prop where
  before : i < j
  exchange : ∃ rid env value env' text members result,
    acts[i]? = some (.request env value) ∧ requested env value = some (rid, b.profile) ∧
    acts[j]? = some (.observe env' text) ∧ loadsStrict depths text = some (.obj members) ∧
    replyId members = some rid ∧ Json.lookup members (lit "result") = some (.obj result) ∧
    provenBinding env' b.profile result = some b ∧
    ∀ k a, i < k → k < j → acts[k]? = some a →
      a.answers depths ≠ some rid ∧ ∀ profile, a.named ≠ some (rid, profile)

/-- An open request was made by an act after which no act names or answers it. -/
def OpenSince (depths : JsonDepths) (acts : List ProjectionAct) (rid : Json) (profile : Str) (i : ℕ) : Prop :=
  (∃ env value, acts[i]? = some (.request env value) ∧ requested env value = some (rid, profile)) ∧
    ∀ k a, i < k → acts[k]? = some a → a.answers depths ≠ some rid ∧ ∀ other, a.named ≠ some (rid, other)

theorem open_since (h : Acts depths p₀ acts p) (h0 : p₀.Fresh) :
    ∀ rid profile, p.pending.get rid = some profile → ∃ i, OpenSince depths acts rid profile i := by
  have hinv : p.Bounded ∧ ∀ rid profile, p.pending.get rid = some profile →
      ∃ i, OpenSince depths acts rid profile i := by
    refine Transition.Run.history (I := fun acts p => p.Bounded ∧ ∀ rid profile, p.pending.get rid = some profile →
      ∃ i, OpenSince depths acts rid profile i) h ⟨h0.bounded, ?_⟩ ?_
    · intro rid profile hget
      rw [h0.pending] at hget
      cases hget
    · rintro ms u a v - ⟨hu, hopen⟩ rfl
      have hact := @acted depths _ hu a
      refine ⟨hact.bounded, fun rid profile hget => ?_⟩
      rcases hact.pending rid profile hget with hnew | ⟨hold, hanswer, hname⟩
      · refine ⟨ms.length, ?_, ?_⟩
        · cases a with
          | request env value => exact ⟨env, value, by simp, hnew⟩
          | observe env text => cases hnew
          | upgrade env store => cases hnew
          | share store => cases hnew
        · intro k b hk hb
          rw [List.getElem?_append_right (by omega)] at hb
          rw [List.getElem?_singleton, if_neg (by omega)] at hb
          cases hb
      · obtain ⟨i, ⟨env, value, hi, hreq⟩, hafter⟩ := hopen rid profile hold
        have hlt : i < ms.length := by
          by_contra hge
          rw [List.getElem?_eq_none (by omega)] at hi
          cases hi
        refine ⟨i, ⟨env, value, by rw [List.getElem?_append_left hlt]; exact hi, hreq⟩, ?_⟩
        intro k b hk hb
        by_cases hlast : k < ms.length
        · rw [List.getElem?_append_left hlast] at hb
          exact hafter k b hk hb
        · rw [List.getElem?_append_right (by omega), List.getElem?_singleton] at hb
          split at hb
          · cases hb
            exact ⟨hanswer, hname⟩
          · cases hb
  exact hinv.2

/-- What is proved answers a request that is open. -/
theorem proves_spec {rid : Json} {b : Binding} (h : u.proves depths a = some (rid, b)) :
    u.pending.get rid = some b.profile ∧ ∃ env text members result, a = .observe env text ∧
      loadsStrict depths text = some (.obj members) ∧ replyId members = some rid ∧
      Json.lookup members (lit "result") = some (.obj result) ∧ provenBinding env b.profile result = some b := by
  cases a with
  | observe env text =>
    have h : u.boundBy env (loadsStrict depths text) = some (rid, b) := h
    unfold boundBy at h
    split at h
    · rename_i members hvalue
      split at h
      · rename_i other hreply
        split at h
        · rename_i profile result hprofile hresult
          obtain ⟨b', hproven, heq⟩ := Option.map_eq_some_iff.1 h
          cases heq
          have hsame : b.profile = profile := by
            unfold provenBinding at hproven
            split at hproven
            · cases hproven
            · split at hproven
              · split at hproven
                · cases hproven
                  rfl
                · cases hproven
              · cases hproven
          rw [hsame]
          exact ⟨hprofile, env, text, members, result, rfl, hvalue, hreply, hresult, hproven⟩
        · cases h
      · cases h
    · cases h
  | request env value => cases h
  | upgrade env store => cases h
  | share store => cases h

/-- What is proved answers the last request with its identifier. -/
theorem proven_of_produced {j : ℕ} {b : Binding} (h0 : p₀.Fresh) (h : Produced depths p₀ acts j b) :
    ∃ i, Proven depths acts i j b := by
  obtain ⟨u, a, rid, hrun, ha, hproves⟩ := h
  obtain ⟨hopen, env', text, members, result, rfl, hvalue, hreply, hresult, hproven⟩ := proves_spec hproves
  obtain ⟨i, ⟨env, value, hi, hreq⟩, hafter⟩ := open_since hrun h0 rid b.profile hopen
  have hj : j < acts.length := by
    by_contra hge
    rw [List.getElem?_eq_none (by omega)] at ha
    cases ha
  have hij : i < j := by
    by_contra hge
    rw [List.getElem?_take, if_neg (by omega)] at hi
    cases hi
  rw [List.getElem?_take, if_pos hij] at hi
  refine ⟨i, hij, rid, env, value, env', text, members, result, hi, hreq, ha, hvalue, hreply, hresult, hproven, ?_⟩
  intro k c hk hkj hc
  refine hafter k c hk ?_
  rw [List.getElem?_take, if_pos hkj]
  exact hc

/-- A request has one answer. -/
theorem proven_unique {i j j' : ℕ} {b b' : Binding} (h : Proven depths acts i j b)
    (h' : Proven depths acts i j' b') : j = j' ∧ b = b' := by
  obtain ⟨hij, rid, env, value, env₁, text₁, members₁, result₁, hi, hreq, hj, hvalue₁, hreply₁, hresult₁, hproven₁,
    hbetween⟩ := h
  obtain ⟨hij', rid', env', value', env₂, text₂, members₂, result₂, hi', hreq', hj', hvalue₂, hreply₂, hresult₂,
    hproven₂, hbetween'⟩ := h'
  have hanswers : ∀ {env text members rid}, loadsStrict depths text = some (.obj members) →
      replyId members = some rid → (ProjectionAct.observe env text).answers depths = some rid := by
    intro env text members rid h1 h2
    show answered (loadsStrict depths text) = some rid
    rw [h1]
    exact h2
  rw [hi] at hi'
  cases hi'
  rw [hreq] at hreq'
  obtain ⟨rfl, hprofile⟩ := Prod.mk.inj (Option.some.inj hreq')
  have hjj : j = j' := by
    rcases Nat.lt_trichotomy j j' with hlt | heq | hlt
    · exact absurd (hanswers hvalue₁ hreply₁) (hbetween' j _ hij hlt hj).1
    · exact heq
    · exact absurd (hanswers hvalue₂ hreply₂) (hbetween j' _ hij' hlt hj').1
  subst hjj
  rw [hj] at hj'
  cases hj'
  rw [hvalue₁] at hvalue₂
  cases hvalue₂
  rw [hresult₁] at hresult₂
  cases hresult₂
  refine ⟨rfl, ?_⟩
  rw [← hprofile, hproven₁] at hproven₂
  exact Option.some.inj hproven₂

/-- Every binding was produced. -/
theorem bindings_produced (h : Acts depths p₀ acts p) (h0 : p₀.Fresh) {runtime : Str} {b : Binding}
    (hb : p.bindings.get runtime = some b) : b.runtimeSessionId = runtime ∧ ∃ j, Produced depths p₀ acts j b := by
  have hinv : p.Bounded ∧ ∀ runtime b, p.bindings.get runtime = some b →
      b.runtimeSessionId = runtime ∧ ∃ j, Produced depths p₀ acts j b := by
    refine Transition.Run.history (I := fun acts p => p.Bounded ∧ ∀ runtime b, p.bindings.get runtime = some b →
      b.runtimeSessionId = runtime ∧ ∃ j, Produced depths p₀ acts j b) h ⟨h0.bounded, ?_⟩ ?_
    · intro runtime b hget
      rw [h0.bindings] at hget
      cases hget
    · rintro ms u a v hms ⟨hu, hold⟩ rfl
      have hact := @acted depths _ hu a
      refine ⟨hact.bounded, fun runtime b hget => ?_⟩
      rcases hact.bindings runtime b hget with hkept | ⟨hruntime, rid, hproves⟩
      · obtain ⟨hruntime, j, w, c, rid, hw, hc, hproves⟩ := hold runtime b hkept
        have hj : j < ms.length := by
          by_contra hge
          rw [List.getElem?_eq_none (by omega)] at hc
          cases hc
        refine ⟨hruntime, j, w, c, rid, ?_, ?_, hproves⟩
        · rwa [List.take_append_of_le_length hj.le]
        · rwa [List.getElem?_append_left hj]
      · refine ⟨hruntime, ms.length, u, a, rid, ?_, by simp, hproves⟩
        rwa [List.take_left]
  exact hinv.2 runtime b hb

/-- An act loses an item of a table: a request that it does not answer, a binding or a task that was
    there or that it proves or reports. -/
inductive Loses (depths : JsonDepths) (p : RecoveryProjection) (a : ProjectionAct) : Prop
  | request {rid} (had : (p.pending.get rid).isSome ∨ ∃ profile, a.named = some (rid, profile))
      (lost : (p.act depths a).pending.get rid = none) (open_ : a.answers depths ≠ some rid)
  | binding {runtime} (had : (p.bindings.get runtime).isSome ∨
      ∃ rid b, p.proves depths a = some (rid, b) ∧ b.runtimeSessionId = runtime)
      (lost : (p.act depths a).bindings.get runtime = none)
  | task {key} (had : (p.tasks.get key).isSome ∨ p.reports depths a = some key)
      (lost : (p.act depths a).tasks.get key = none)

theorem loses_truncated (hp : p.Bounded) (h : Loses depths p a) : (p.act depths a).truncated = true := by
  have hact := @acted depths _ hp a
  cases h with
  | request had lost open_ => exact (hact.pendingKept _ had lost).resolve_left open_
  | binding had lost => exact hact.bindingsKept _ had lost
  | task had lost => exact hact.tasksKept _ had lost

/-- **Bindings are proven.**  Every binding was produced by a reply to a request that named its
    profile, no request has two, and the tables hold 64 items at most and lose none unnoticed. -/
theorem bindings_proven (h : Acts depths p₀ acts p) (h0 : p₀.Fresh) :
    (∀ runtime b, p.bindings.get runtime = some b →
      b.runtimeSessionId = runtime ∧ ∃ j, Produced depths p₀ acts j b) ∧
    (∀ j b, Produced depths p₀ acts j b → ∃ i, Proven depths acts i j b) ∧
    (∀ i j j' b b', Proven depths acts i j b → Proven depths acts i j' b' → j = j' ∧ b = b') ∧
    p.pending.length ≤ 64 ∧ p.bindings.length ≤ 64 ∧ p.tasks.length ≤ 64 ∧
    ∀ pre a post u, acts = pre ++ a :: post → Acts depths p₀ pre u → Loses depths u a → p.truncated = true := by
  have hp := acts_bounded h h0.bounded
  refine ⟨fun runtime b => bindings_produced h h0, fun j b => proven_of_produced h0,
    fun i j j' b b' => proven_unique, hp.pending.2, hp.bindings.2, hp.tasks.2, ?_⟩
  rintro pre a post u rfl hu hlost
  have hub := acts_bounded hu h0.bounded
  obtain ⟨u', hu', hrest⟩ := h.split
  obtain rfl := hu.functional (fun s a t t' h h' => h.symm.trans h') hu'
  cases hrest with
  | cons hact hpost =>
    subst hact
    exact acts_truncated hpost (acted hub a).bounded (loses_truncated hub hlost)

/-- A session that is created, and the reply that names it. -/
def createActs : List ProjectionAct :=
  [.request (.standing 0 fun profile => profile = lit "default") (some (.obj [(lit "id", .int 1),
      (lit "method", .str (lit "session.create")),
      (lit "params", .obj [(lit "profile", .str (lit "default"))])])),
    .observe (.standing 0 fun profile => profile = lit "default")
      (lit "\x7b\"id\":1,\"result\":\x7b\"session_id\":\"a\",\"session_key\":\"d\"\x7d\x7d")]

theorem bindings_proven_create :
    ∃ j i, Proven ⟨9, 9⟩ createActs i j ⟨lit "a", lit "d", lit "default", true⟩ := by
  have hrun : Acts ⟨9, 9⟩ ⟨lit "default", none, none, [], [], [], false, 0⟩ createActs
      (createActs.foldl (act ⟨9, 9⟩) ⟨lit "default", none, none, [], [], [], false, 0⟩) :=
    .cons rfl (.cons rfl .nil)
  have hbound : (createActs.foldl (act ⟨9, 9⟩) ⟨lit "default", none, none, [], [], [], false, 0⟩).bindings.get
      (lit "a") = some ⟨lit "a", lit "d", lit "default", true⟩ := by
    decide +kernel
  obtain ⟨hproduced, hproven, -⟩ := bindings_proven hrun ⟨rfl, rfl, rfl⟩
  obtain ⟨-, j, hj⟩ := hproduced _ _ hbound
  exact ⟨j, hproven j _ hj⟩

end RecoveryProjection

end MercuryRelay
