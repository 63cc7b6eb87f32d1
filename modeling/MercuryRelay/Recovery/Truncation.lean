/-
  What a snapshot leaves out (lease_recovery.py, `RecoveryProjection.snapshot`
  and `RecoveryStore._prune`).

  `snapshot_truncated` tells that rows, tasks or bindings were dropped: by the
  tables of the projection, by the store, by the limit of 64 tasks and by the
  limit of their length.  The list of bindings is cut to 64 as well, but the
  flag does not tell.

  * `row_unlost`: a store that is not marked has every row that was not
    replaced or revoked;
  * `kept_of_run`: a projection that is not marked has every binding and task;
  * `snapshot_honest`: what an unmarked snapshot contains, and when.
-/
import MercuryRelay.Recovery.Terminal

set_option autoImplicit false

namespace MercuryRelay

open Python

namespace RecoveryStore

variable {depths : JsonDepths} {s t u : RecoveryStore} {b : StoreAct} {r : RecoveryRow} {acts : List StoreAct}

/-! ## Rows -/

/-- A row is there, or the store is marked. -/
def Accounted (s : RecoveryStore) (r : RecoveryRow) : Prop := r ∈ s.rows ∨ s.truncated = true

theorem Trimmed.accounted (h : Trimmed s t) (hr : s.Accounted r) : t.Accounted r := by
  rcases hr with hr | hr
  · rcases h.whole with htrunc | hrows
    · exact .inr htrunc
    · rw [← hrows] at hr
      exact .inl hr
  · exact .inr (h.truncated hr)

/-- A row is there or the store is marked, in the memory and in the file. -/
structure Covered (s : RecoveryStore) (r : RecoveryRow) : Prop where
  memory : s.Accounted r
  written : s.file.isSome
  file : ∀ bytes ∈ s.file, ∃ f, bytes = raw f ∧ SoundStore f ∧ f.maxRows = s.maxRows ∧ f.Accounted r

theorem accounted_without {installation device : Str} (hr : s.Accounted r)
    (htakes : ¬ ofDevice installation device r = true) : (s.without installation device).Accounted r := by
  refine hr.imp (fun hmem => List.mem_filter.2 ⟨hmem, ?_⟩) id
  rw [Bool.not_eq_true', Bool.eq_false_iff]
  exact htakes

/-- What is saved accounts for a row that the act does not take. -/
theorem saves_accounted (hr : s.Accounted r) (htakes : ¬ b.Takes r) (h : s.saves b = some t) : t.Accounted r := by
  cases b with
  | put c scope binding event =>
    obtain ⟨-, -, rfl⟩ := of_saves_put h
    refine (saving_trimmed _ c.saved).accounted ?_
    rcases (prune_trimmed s c.start).accounted hr with hmem | htrunc
    · refine .inl (List.mem_append_left _ (List.mem_filter.2 ⟨hmem, decide_eq_true fun hkey => ?_⟩))
      exact htakes hkey.symm
    · exact .inr htrunc
  | revoke wall installation device =>
    obtain ⟨-, rfl⟩ := of_saves_revoke h
    exact (saving_trimmed _ wall).accounted (accounted_without hr htakes)
  | prune wall => cases h
  | restart wall loaded => cases h

/-- **An act that does not take a row accounts for it.** -/
theorem act_covered (hs : SoundStore s) (h : s.Covered r) (hread : 6 ≤ depths.read) (henabled : s.Enabled depths b)
    (hsound : b.Sound s.ttlSeconds) (htakes : ¬ b.Takes r) : (s.act b).Covered r := by
  have hfile := act_file s b henabled
  have hmax := (act_config s b henabled).1
  refine ⟨?_, ?_, ?_⟩
  · cases b with
    | put c scope binding event =>
      have hcases := put_cases s c scope binding event
      simp only [act]
      generalize s.put c scope binding event = x at hcases ⊢
      cases hcases with
      | finished _ _ | unrendered _ _ => exact (prune_trimmed s c.start).accounted h.memory
      | stored hopen hshort _ =>
        have hsaved := saves_accounted h.memory htakes (saves_put hopen hshort)
        exact hsaved
      | failed _ _ _ => exact h.memory
    | revoke wall installation device =>
      exact (revoke_trimmed s wall installation device).accounted (accounted_without h.memory htakes)
    | prune wall => exact (prune_trimmed s wall).accounted h.memory
    | restart wall loaded =>
      obtain ⟨bytes, hbytes⟩ := Option.isSome_iff_exists.1 h.written
      obtain ⟨f, rfl, hf, hfmax, hr⟩ := h.file bytes hbytes
      obtain ⟨hrows, -, htruncated⟩ := restarted_rows henabled hread hbytes hf hfmax
      refine ((prune_trimmed f wall).accounted hr).imp (fun hmem => ?_) fun htrunc => ?_
      · show r ∈ loaded.rows
        rw [hrows]
        exact hmem
      · show loaded.truncated = true
        rw [htruncated]
        exact htrunc
  · rw [hfile]
    obtain ⟨bytes, hbytes⟩ := Option.isSome_iff_exists.1 h.written
    rw [hbytes]
    cases (s.writes b).map (·.raw) <;> rfl
  · intro bytes hbytes
    rw [hfile] at hbytes
    rw [hmax]
    cases hwrites : s.writes b with
    | none =>
      rw [hwrites] at hbytes
      exact h.file bytes hbytes
    | some f =>
      rw [hwrites] at hbytes
      cases hbytes
      have hsaves := saves_of_writes hwrites
      exact ⟨f, rfl, saves_sound hs hsound hsaves, (saves_trimmed hsaves).1, saves_accounted h.memory htakes hsaves⟩

/-- An act brings a row in: the row is new, or it is stored by a put. -/
inductive Brings (s : RecoveryStore) (r : RecoveryRow) (b : StoreAct) : Prop
  | enters (hout : r ∉ s.rows) (hin : r ∈ (s.act b).rows)
  | stores {c scope binding event revision} (hput : b = .put c scope binding event)
      (hopen : s.finished c.start (putKey scope binding event) = false)
      (hdone : (s.put c scope binding event).1 = some revision)
      (hrow : r = s.putRow c.stored (putKey scope binding event) event)

/-- A row that is stored is accounted for. -/
theorem put_covers {scope : Scope} {binding : Binding} {event : TaskEvent} {c : Readings} {revision : ℤ}
    (hs : SoundStore s) (hsound : (StoreAct.put c scope binding event).Sound s.ttlSeconds)
    (hopen : s.finished c.start (putKey scope binding event) = false)
    (hdone : (s.put c scope binding event).1 = some revision) :
    (s.act (.put c scope binding event)).Covered (s.putRow c.stored (putKey scope binding event) event) := by
  have htrim := saving_trimmed (s.adding c (putKey scope binding event) event) c.saved
  have hadded : (s.adding c (putKey scope binding event) event).Accounted
      (s.putRow c.stored (putKey scope binding event) event) := .inl (List.mem_append_right _ List.mem_cons_self)
  have hsaved := htrim.accounted hadded
  obtain ⟨-, -, -, hafter⟩ := put_stored hopen hdone
  simp only [act]
  rw [hafter]
  refine ⟨hsaved, rfl, fun bytes hbytes => ?_⟩
  cases hbytes
  exact ⟨_, rfl, htrim.sound (adding_sound hsound.1 hsound.2 hs), rfl, hsaved⟩

/-- A row that an act brings in is accounted for, in the file as well. -/
theorem act_covers (hs : SoundStore s) (hfile : s.SoundFile) (hread : 6 ≤ depths.read)
    (henabled : s.Enabled depths b) (hsound : b.Sound s.ttlSeconds) (hbrings : s.Brings r b) :
    (s.act b).Covered r := by
  rcases hbrings with ⟨hout, hin⟩ | ⟨rfl, hopen, hdone, rfl⟩
  swap
  · exact put_covers hs hsound hopen hdone
  cases b with
  | put c scope binding event =>
    have hcases := put_cases s c scope binding event
    simp only [act] at hin ⊢
    generalize s.put c scope binding event = x at hcases hin ⊢
    cases hcases with
    | finished _ _ | unrendered _ _ => exact absurd ((prune_trimmed s c.start).rows.subset hin) hout
    | stored _ _ _ =>
      have htrim := saving_trimmed (s.adding c (putKey scope binding event) event) c.saved
      refine ⟨.inl hin, rfl, fun bytes hbytes => ?_⟩
      cases hbytes
      exact ⟨_, rfl, htrim.sound (adding_sound hsound.1 hsound.2 hs), rfl, .inl hin⟩
    | failed _ _ _ => exact absurd hin hout
  | revoke wall installation device =>
    have hkept := (revoke_trimmed s wall installation device).rows.subset hin
    exact absurd (List.mem_filter.1 hkept).1 hout
  | prune wall => exact absurd ((prune_trimmed s wall).rows.subset hin) hout
  | restart wall loaded =>
    have hin : r ∈ loaded.rows := hin
    cases hcontent : s.file with
    | none =>
      rw [(restarted_new henabled hcontent).1] at hin
      exact absurd hin List.not_mem_nil
    | some bytes =>
      obtain ⟨f, rfl, hf, hmax⟩ := hfile bytes hcontent
      have hrows := (restarted_rows henabled hread hcontent hf hmax).1
      refine ⟨.inl hin, ?_, fun bytes hbytes => ?_⟩
      · show loaded.file.isSome = true
        rw [henabled.file, hcontent]
        rfl
      · have hbytes : bytes ∈ loaded.file := hbytes
        rw [henabled.file, hcontent] at hbytes
        cases hbytes
        rw [hrows] at hin
        exact ⟨f, rfl, hf, hmax.trans henabled.maxRows.symm, .inl ((prune_trimmed f wall).rows.subset hin)⟩

theorem acts_covered (h : Acts depths s acts u) (hread : 6 ≤ depths.read) (hs : SoundStore s) (hfile : s.SoundFile)
    (hsound : ∀ b ∈ acts, b.Sound s.ttlSeconds) (hr : s.Covered r) (htakes : ∀ b ∈ acts, ¬ b.Takes r) :
    u.Covered r := by
  induction h with
  | nil => exact hr
  | @cons s b _ ls u hstep _ ih =>
    obtain ⟨henabled, rfl⟩ := hstep
    rw [List.forall_mem_cons] at hsound htakes
    obtain ⟨h1, h2⟩ := act_sound hs hfile hread henabled hsound.1
    refine ih h1 h2 ?_ (act_covered hs hr hread henabled hsound.1 htakes.1) htakes.2
    rw [(act_config s b henabled).2]
    exact hsound.2

/-- **No row is lost unnoticed**: a store that is not marked has every row that was not replaced or
    revoked since it came in. -/
theorem row_unlost {pre post : List StoreAct} (h : Acts depths s (pre ++ b :: post) u) (hread : 6 ≤ depths.read)
    (hs : SoundStore s) (hfile : s.SoundFile) (hsound : ∀ c ∈ pre ++ b :: post, c.Sound s.ttlSeconds)
    (hbrings : (pre.foldl act s).Brings r b) (htakes : ∀ c ∈ post, ¬ c.Takes r)
    (htruncated : u.truncated = false) : r ∈ u.rows := by
  obtain ⟨v, hpre, hrest⟩ := h.split
  obtain rfl := acts_foldl hpre
  have hmem : ∀ c ∈ b :: post, c ∈ pre ++ b :: post := fun c hc => List.mem_append_right _ hc
  obtain ⟨h1, h2, httl⟩ := acts_sound hpre hread hs hfile fun c hc => hsound c (List.mem_append_left _ hc)
  cases hrest with
  | cons hstep hpost =>
    obtain ⟨henabled, rfl⟩ := hstep
    have hb := hsound b (hmem b List.mem_cons_self)
    rw [← httl] at hb
    obtain ⟨h3, h4⟩ := act_sound h1 h2 hread henabled hb
    have hposts : ∀ c ∈ post, c.Sound ((pre.foldl act s).act b).ttlSeconds := by
      intro c hc
      rw [(act_config _ b henabled).2, httl]
      exact hsound c (hmem c (List.mem_cons_of_mem _ hc))
    have hcovered := acts_covered hpost hread h3 h4 hposts (act_covers h1 h2 hread henabled hb hbrings) htakes
    rcases hcovered.memory with hr | hr
    · exact hr
    · rw [htruncated] at hr
      cases hr

end RecoveryStore

namespace RecoveryService

open RecoveryProjection

variable {depths : JsonDepths} {m m' : RecoveryService} {a : ServiceAct} {i : ℕ}
  {trace : List (ServiceAct × List StoreAct)}

/-! ## Bindings and tasks -/

/-- A projection that is not marked was not before, and has every binding and task. -/
def Kept (p q : RecoveryProjection) : Prop :=
  q.truncated = false → p.truncated = false ∧
    (∀ runtime, (p.bindings.get runtime).isSome → (q.bindings.get runtime).isSome) ∧
    ∀ key, (p.tasks.get key).isSome → (q.tasks.get key).isSome

theorem Kept.refl (p : RecoveryProjection) : Kept p p := fun h => ⟨h, fun _ => id, fun _ => id⟩

theorem Kept.trans {p q r : RecoveryProjection} (h : Kept p q) (h' : Kept q r) : Kept p r := by
  intro ht
  obtain ⟨h1, h2, h3⟩ := h' ht
  obtain ⟨h4, h5, h6⟩ := h h1
  exact ⟨h4, fun runtime => h2 runtime ∘ h5 runtime, fun key => h3 key ∘ h6 key⟩

theorem kept_of_acted {p q : RecoveryProjection} {b : ProjectionAct} (h : Acted depths p b q) : Kept p q := by
  intro ht
  have hmarked : ∀ {P : Prop}, q.truncated = true → P := fun h' => by
    rw [ht] at h'
    cases h'
  refine ⟨?_, fun runtime hsome => ?_, fun key hsome => ?_⟩
  · cases hp : p.truncated with
    | false => rfl
    | true => exact hmarked (h.truncated hp)
  · rw [Option.isSome_iff_ne_none]
    exact fun hnone => hmarked (h.bindingsKept runtime (.inl hsome) hnone)
  · rw [Option.isSome_iff_ne_none]
    exact fun hnone => hmarked (h.tasksKept key (.inl hsome) hnone)

theorem lend_kept (m : RecoveryService) (p : RecoveryProjection) : Kept p (m.lend p) := Kept.refl p

/-- The act starts a new process. -/
def IsRestart : ServiceAct → Prop
  | .restart _ _ => True
  | _ => False

theorem on_kept {f : RecoveryProjection → RecoveryProjection} {j : ℕ} {p : RecoveryProjection}
    (hp : m.projections[i]? = some p) (hf : ∀ q, m.projections[j]? = some q → Kept q (f (m.lend q))) :
    ∃ q, (m.on j f).projections[i]? = some q ∧ Kept p q := by
  unfold on
  cases hj : m.projections[j]? with
  | none => exact ⟨p, hp, Kept.refl p⟩
  | some q =>
    dsimp only
    rw [List.getElem?_set]
    by_cases hij : j = i
    · subst hij
      rw [hp] at hj
      cases hj
      have hlt : j < m.projections.length := (List.getElem?_eq_some_iff.1 hp).1
      rw [if_pos rfl, if_pos hlt]
      exact ⟨_, rfl, hf p hp⟩
    · rw [if_neg hij]
      exact ⟨p, hp, Kept.refl p⟩

/-- An act of the service keeps the projections, up to a restart. -/
theorem perform_kept {p : RecoveryProjection} (hm : m.Sound) (hp : m.projections[i]? = some p) (h : ¬ IsRestart a) :
    ∃ q, (m.perform depths a).projections[i]? = some q ∧ Kept p q := by
  have hbounded : ∀ q, ∀ j : ℕ, m.projections[j]? = some q → (m.lend q).Bounded := fun q j hq =>
    (lend_sound (hm.projections q (List.mem_of_getElem? hq))).tables
  cases a with
  | openLease profile recovery scope =>
    have hlt : i < m.projections.length := (List.getElem?_eq_some_iff.1 hp).1
    refine ⟨p, ?_, Kept.refl p⟩
    show (m.projections ++ [_])[i]? = some p
    rw [List.getElem?_append_left hlt, hp]
  | request j env value =>
    refine on_kept hp fun q hq => ?_
    exact (lend_kept m q).trans (kept_of_acted (@acted depths _ (hbounded q j hq) (.request env value)))
  | observe j env text =>
    refine on_kept hp fun q hq => ?_
    exact (lend_kept m q).trans (kept_of_acted (acted (hbounded q j hq) (.observe env text)))
  | upgrade j env =>
    refine on_kept hp fun q hq => ?_
    exact (lend_kept m q).trans (kept_of_acted (@acted depths _ (hbounded q j hq) (.upgrade env m.store)))
  | snapshot j env =>
    refine on_kept hp fun q hq => ?_
    rw [snapshot_store]
    exact Kept.refl q
  | revoke wall installation device => exact ⟨p, hp, Kept.refl p⟩
  | restart wall loaded => exact absurd trivial h

/-- **A projection that is not marked has every binding and task** that it ever had. -/
theorem kept_of_run {p : RecoveryProjection} (h : Run depths m trace m') (hread : 6 ≤ depths.read) (hm : m.Sound)
    (hp : m.projections[i]? = some p) (hprocess : ∀ l ∈ trace, ¬ IsRestart l.1) :
    ∃ q, m'.projections[i]? = some q ∧ Kept p q := by
  induction h generalizing p with
  | nil => exact ⟨p, hp, Kept.refl p⟩
  | @cons m l m₁ ls m' hstep _ ih =>
    obtain ⟨henabled, -, rfl⟩ := hstep
    rw [List.forall_mem_cons] at hprocess
    obtain ⟨q, hq, hkept⟩ := perform_kept hm hp hprocess.1
    obtain ⟨q', hq', hkept'⟩ := ih (perform_sound hread hm henabled) hq hprocess.2
    exact ⟨q', hq', hkept.trans hkept'⟩

end RecoveryService

namespace RecoveryProjection

variable {p : RecoveryProjection} {env : Surroundings} {e : TaskEvent} {es : List TaskEvent} {k : TaskKey}

/-! ## What is known of a child -/

/-- The events of a child. -/
def eventsOf (es : List TaskEvent) (k : TaskKey) : List TaskEvent := es.filter fun e => snapshotKey e = k

/-- What is known of a child: its last event that has finished, or its last one. -/
def latest (es : List TaskEvent) (k : TaskKey) : Option TaskEvent :=
  ((eventsOf es k).filter fun e => hasTerminalStatus e.payload).getLast?.or (eventsOf es k).getLast?

theorem latest_other (h : snapshotKey e ≠ k) : latest (es ++ [e]) k = latest es k := by
  have hevents : eventsOf (es ++ [e]) k = eventsOf es k := by
    unfold eventsOf
    rw [List.filter_append, List.filter_cons, if_neg (by simpa using h), List.filter_nil, List.append_nil]
  rw [latest, hevents, latest]

theorem latest_finished (h : snapshotKey e = k) (hterminal : hasTerminalStatus e.payload = true) :
    latest (es ++ [e]) k = some e := by
  unfold latest eventsOf
  rw [List.filter_append, List.filter_cons, if_pos (decide_eq_true h), List.filter_nil, List.filter_append,
    List.filter_cons, if_pos hterminal, List.filter_nil, List.getLast?_append]
  rfl

theorem latest_open (h : snapshotKey e = k) (hopen : hasTerminalStatus e.payload = false) :
    latest (es ++ [e]) k = if ((latest es k).map fun e => hasTerminalStatus e.payload).getD false then latest es k
      else some e := by
  have hevents : eventsOf (es ++ [e]) k = eventsOf es k ++ [e] := by
    unfold eventsOf
    rw [List.filter_append, List.filter_cons, if_pos (decide_eq_true h), List.filter_nil]
  have hfinished : (eventsOf (es ++ [e]) k).filter (fun e => hasTerminalStatus e.payload) =
      (eventsOf es k).filter fun e => hasTerminalStatus e.payload := by
    rw [hevents, List.filter_append, List.filter_cons, if_neg (by rw [hopen]; decide), List.filter_nil,
      List.append_nil]
  have hlast : (eventsOf es k ++ [e]).getLast? = some e := by rw [List.getLast?_append]; rfl
  rw [latest, hfinished, hevents, hlast, latest]
  cases hdone : ((eventsOf es k).filter fun e => hasTerminalStatus e.payload).getLast? with
  | some e' =>
    have hterminal : hasTerminalStatus e'.payload = true := (List.mem_filter.1 (List.mem_of_getLast? hdone)).2
    simp [hterminal]
  | none =>
    have hnone : ∀ e' ∈ (eventsOf es k).getLast?, hasTerminalStatus e'.payload = false := by
      intro e' he'
      have hempty := List.getLast?_eq_none_iff.1 hdone
      rw [List.filter_eq_nil_iff] at hempty
      simpa using hempty e' (List.mem_of_getLast? he')
    cases hget : (eventsOf es k).getLast? with
    | none => rfl
    | some e' => simp [hnone e' hget]

/-- The events of the rows and of the live tasks that are reported. -/
def known (p : RecoveryProjection) (env : Surroundings) : List TaskEvent :=
  (p.storeRows env).map RecoveryStore.historical ++ (p.tasks.map (·.2)).filter fun e => decide (Reportable env e)

/-- Merging tells what is known. -/
theorem get_merge {rows : Dict TaskKey TaskEvent} {before : List TaskEvent}
    (h : ∀ k, rows.get k = latest before k) :
    (es.foldl (mergeTask env.profileAuthorizer) rows).get k =
      latest (before ++ es.filter fun e => decide (Reportable env e)) k := by
  induction es generalizing rows before with
  | nil => rw [List.filter_nil, List.append_nil, List.foldl_nil, h]
  | cons e es ih =>
    rw [List.foldl_cons, List.filter_cons]
    have hstep : ∀ k, (mergeTask env.profileAuthorizer rows e).get k =
        latest (before ++ if decide (Reportable env e) then [e] else []) k := by
      intro k
      have hfinishedAt : ∀ k, FinishedAt rows k ↔
          ((latest before k).map fun e => hasTerminalStatus e.payload).getD false = true := by
        intro k
        unfold FinishedAt
        rw [h k]
        cases latest before k with
        | none => simp
        | some e' => simp
      by_cases hreportable : Reportable env e
      · rw [if_pos (decide_eq_true hreportable)]
        rcases mergeTask_cases env rows e with ⟨heq, hno⟩ | ⟨heq, -, hyes⟩
        · obtain ⟨hdone, hopen⟩ := hno hreportable
          rw [heq, h k]
          by_cases hk : snapshotKey e = k
          · subst hk
            rw [latest_open rfl hopen, if_pos ((hfinishedAt _).1 hdone)]
          · rw [latest_other hk]
        · rw [heq, Dict.get_set, h k]
          by_cases hk : snapshotKey e = k
          · rw [if_pos hk]
            subst hk
            cases hterminal : hasTerminalStatus e.payload with
            | true => rw [latest_finished rfl hterminal]
            | false =>
              have hopen : ¬ FinishedAt rows (snapshotKey e) := by
                intro hdone
                rw [hyes hdone] at hterminal
                cases hterminal
              rw [hfinishedAt] at hopen
              rw [latest_open rfl hterminal, if_neg hopen]
          · rw [if_neg hk, latest_other hk]
      · rw [if_neg (by simpa using hreportable), List.append_nil]
        rcases mergeTask_cases env rows e with ⟨heq, -⟩ | ⟨-, hyes, -⟩
        · rw [heq, h k]
        · exact absurd hyes hreportable
    by_cases hreportable : Reportable env e
    · rw [if_pos (decide_eq_true hreportable)] at hstep ⊢
      rw [ih hstep, List.append_assoc]
      rfl
    · have hno : ¬ (decide (Reportable env e) = true) := by simpa using hreportable
      rw [if_neg hno, List.append_nil] at hstep
      rw [if_neg hno]
      exact ih hstep

theorem mem_eventsOf : e ∈ eventsOf es k ↔ e ∈ es ∧ snapshotKey e = k := by
  unfold eventsOf
  rw [List.mem_filter, decide_eq_true_iff]

/-- A child of which only one event is known. -/
theorem latest_single (h : ∀ x ∈ eventsOf es k, x = e) (he : e ∈ eventsOf es k) : latest es k = some e := by
  have hlast : ∀ l : List TaskEvent, (∀ x ∈ l, x = e) → l.getLast? = some e ∨ l.getLast? = none := by
    intro l hl
    cases hget : l.getLast? with
    | none => exact .inr rfl
    | some x => exact .inl (by rw [hl x (List.mem_of_getLast? hget)])
  have hall : (eventsOf es k).getLast? = some e := by
    refine (hlast _ h).resolve_right fun hnone => ?_
    rw [List.getLast?_eq_none_iff] at hnone
    rw [hnone] at he
    exact absurd he List.not_mem_nil
  unfold latest
  rcases hlast _ fun x hx => h x (List.mem_filter.1 hx).1 with hsome | hnone
  · rw [hsome]
    rfl
  · rw [hnone, hall]
    rfl

theorem latest_none (h : ∀ x ∈ es, snapshotKey x ≠ k) : latest es k = none := by
  have hempty : eventsOf es k = [] := by
    rw [List.eq_nil_iff_forall_not_mem]
    intro x hx
    obtain ⟨hmem, hkey⟩ := mem_eventsOf.1 hx
    exact h x hmem hkey
  rw [latest, hempty]
  rfl

/-- The historical events tell what is known from the rows. -/
theorem get_history (hp : p.SoundRows) (k : TaskKey) :
    (p.history env).get k = latest ((p.lastRows env).map RecoveryStore.historical) k := by
  have hrow : ∀ r ∈ p.lastRows env, r ∈ p.storeRows env := fun r hr => (lastRows_sublist p env).subset hr
  by_cases h : ∃ r ∈ p.lastRows env, taskKey r = k
  · obtain ⟨r, hr, rfl⟩ := h
    have hkey := snapshotKey_historical (storeRow_sound hp (hrow r hr))
    rw [history_row hp hr, latest_single]
    · intro x hx
      obtain ⟨hmem, hx⟩ := mem_eventsOf.1 hx
      obtain ⟨r', hr', rfl⟩ := List.mem_map.1 hmem
      rw [snapshotKey_historical (storeRow_sound hp (hrow r' hr'))] at hx
      rw [storeRow_unique hp (hrow r hr) (hrow r' hr') hx]
    · exact mem_eventsOf.2 ⟨List.mem_map_of_mem hr, hkey⟩
  · rw [latest_none]
    · cases hget : (p.history env).get k with
      | none => rfl
      | some e =>
        obtain ⟨hkey, r, hr, heq⟩ := mem_history (Dict.get_mem hget)
        dsimp only at hkey heq
        rw [heq, snapshotKey_historical (storeRow_sound hp (hrow r hr))] at hkey
        exact absurd ⟨r, hr, hkey.symm⟩ h
    · intro x hx hkey
      obtain ⟨r, hr, rfl⟩ := List.mem_map.1 hx
      rw [snapshotKey_historical (storeRow_sound hp (hrow r hr))] at hkey
      exact h ⟨r, hr, hkey⟩

/-! ## Snapshots that are not marked -/

/-- What a snapshot that is not marked has not dropped. -/
structure Whole (p : RecoveryProjection) (env : Surroundings) : Prop where
  tables : p.truncated = false
  store : p.storeTruncated env = false
  length : (p.listed env).2 = false
  merged : (p.merged env).length ≤ maxRows

theorem whole_iff : p.snapshotTruncated env = false ↔ p.Whole env := by
  unfold snapshotTruncated
  simp only [Bool.or_eq_false_iff, decide_eq_false_iff_not, Nat.not_lt]
  exact ⟨fun ⟨⟨⟨h1, h2⟩, h3⟩, h4⟩ => ⟨h1, h2, h3, h4⟩, fun ⟨h1, h2, h3, h4⟩ => ⟨⟨⟨h1, h2⟩, h3⟩, h4⟩⟩

theorem Whole.lastRows (h : p.Whole env) : p.lastRows env = p.storeRows env := by
  have hlen : (p.storeRows env).length ≤ maxRows := by
    have hstore := h.store
    unfold storeTruncated at hstore
    cases hs : p.store with
    | none => simp [storeRows, hs]
    | some s =>
      cases hscope : p.scope with
      | none => simp [storeRows, hs, hscope]
      | some scope =>
        rw [hs, hscope] at hstore
        simp only [Bool.or_eq_false_iff, decide_eq_false_iff_not, Nat.not_lt] at hstore
        exact hstore.2
  rw [RecoveryProjection.lastRows, Nat.sub_eq_zero_of_le hlen, List.drop_zero]

/-- Every row that has not expired is still there. -/
theorem Whole.mem_storeRows {s : RecoveryStore} {r : RecoveryRow} (h : p.Whole env) (hstore : p.store = some s)
    (hscope : p.scope = some r.key.scope) (hr : r ∈ s.rows) (hprofile : env.profileAuthorizer r.key.profile = true) :
    r ∈ p.storeRows env := by
  have htrunc := h.store
  unfold storeTruncated at htrunc
  rw [hstore, hscope] at htrunc
  simp only [Bool.or_eq_false_iff] at htrunc
  have hrows : (s.prune env.wall).rows = s.rows := by
    refine (RecoveryStore.prune_trimmed s env.wall).whole.resolve_left fun htrue => ?_
    rw [htrunc.1] at htrue
    cases htrue
  unfold storeRows
  rw [hstore, hscope]
  dsimp only
  rw [hrows]
  exact List.mem_filter.2 ⟨hr, decide_eq_true ⟨rfl, hprofile⟩⟩

theorem Whole.listed (h : p.Whole env) : (p.listed env).1 = (p.merged env).map (·.2) := by
  have hlast : Dict.last maxRows (p.merged env) = p.merged env := by
    unfold Dict.last
    rw [Nat.sub_eq_zero_of_le h.merged, List.drop_zero]
  have hfits := fitTasks_whole h.length
  rw [hlast] at hfits
  exact (congrArg (fun d => (fitTasks (d.map (·.2))).1) hlast).trans hfits

/-- **What is listed is what is known of each child.** -/
theorem Whole.mem_listed_iff (h : p.Whole env) (hp : p.SoundRows) :
    e ∈ (p.listed env).1 ↔ latest (p.known env) (snapshotKey e) = some e := by
  have hget : ∀ k, (p.merged env).get k = latest (p.known env) k := by
    intro k
    rw [merged_eq, get_merge (get_history hp), h.lastRows, known]
  rw [← hget, h.listed]
  constructor
  · intro he
    obtain ⟨⟨k, e'⟩, hmem, rfl⟩ := List.mem_map.1 he
    obtain rfl : k = snapshotKey e' := (mem_merged hmem).1
    exact (keyed_merged p env).get_of_mem hmem
  · intro he
    exact List.mem_map.2 ⟨_, Dict.get_mem he, rfl⟩

/-! ## Bindings -/

/-- The bindings of the live sessions whose profiles exist. -/
def liveBindings (p : RecoveryProjection) (env : Surroundings) : List Binding :=
  (p.bindings.map (·.2)).filter fun b => env.profileAuthorizer b.profile

/-- The bindings that there are to list: those of the live sessions, and of what is known of each child. -/
def bindingNames (p : RecoveryProjection) (env : Surroundings) : Finset (Str × Str × Str) :=
  ((p.liveBindings env).map bindingKey).toFinset ∪
    (((p.known env).filter fun e => latest (p.known env) (snapshotKey e) = some e).filterMap
      (·.recoveryBinding) |>.map bindingKey).toFinset

theorem foldl_pairs (bs : List Binding) (d : Dict (Str × Str × Str) Binding) :
    bs.foldl (fun d b => Dict.set d (bindingKey b) b) d =
      (bs.map fun b => (bindingKey b, b)).foldl (fun d x => Dict.set d x.1 x.2) d := by
  rw [List.foldl_map]

theorem isSome_foldl_bindings {bs : List Binding} {d : Dict (Str × Str × Str) Binding} {name : Str × Str × Str} :
    ((bs.foldl (fun d b => Dict.set d (bindingKey b) b) d).get name).isSome ↔
      (d.get name).isSome ∨ ∃ b ∈ bs, bindingKey b = name := by
  induction bs generalizing d with
  | nil => simp
  | cons b bs ih =>
    rw [List.foldl_cons, ih, Dict.get_set]
    by_cases h : bindingKey b = name
    · simp [h]
    · simp [h]

theorem keyed_foldl_bindings {bs : List Binding} {d : Dict (Str × Str × Str) Binding} (h : Dict.Keyed d) :
    Dict.Keyed (bs.foldl (fun d b => Dict.set d (bindingKey b) b) d) := by
  induction bs generalizing d with
  | nil => exact h
  | cons b bs ih => exact ih (h.set _ _)

theorem keyed_bindingRows (p : RecoveryProjection) (env : Surroundings) : Dict.Keyed (p.bindingRows env) :=
  keyed_foldl_bindings (keyed_foldl_bindings Dict.keyed_nil)

/-- A binding is there under its name if it is live, or of a listed task. -/
theorem isSome_bindingRows {name : Str × Str × Str} : ((p.bindingRows env).get name).isSome ↔
    (∃ b ∈ p.liveBindings env, bindingKey b = name) ∨
      ∃ e ∈ (p.listed env).1, ∃ b ∈ e.recoveryBinding, bindingKey b = name := by
  unfold bindingRows
  rw [isSome_foldl_bindings, isSome_foldl_bindings]
  have htasks : (∃ b ∈ (p.listed env).1.filterMap (·.recoveryBinding), bindingKey b = name) ↔
      ∃ e ∈ (p.listed env).1, ∃ b ∈ e.recoveryBinding, bindingKey b = name := by
    constructor
    · rintro ⟨b, hb, hname⟩
      obtain ⟨e, he, hb⟩ := List.mem_filterMap.1 hb
      exact ⟨e, he, b, hb, hname⟩
    · rintro ⟨e, he, b, hb, hname⟩
      exact ⟨b, List.mem_filterMap.2 ⟨e, he, hb⟩, hname⟩
  rw [htasks]
  constructor
  · rintro ((h | h) | h)
    · cases h
    · exact .inr h
    · exact .inl h
  · rintro (h | h)
    · exact .inr h
    · exact .inl (.inr h)

theorem mem_bindingNames {name : Str × Str × Str} (h : p.Whole env) (hp : p.SoundRows) :
    name ∈ p.bindingNames env ↔ ((p.bindingRows env).get name).isSome := by
  unfold bindingNames
  rw [isSome_bindingRows, Finset.mem_union, List.mem_toFinset, List.mem_toFinset, List.mem_map, List.mem_map]
  refine or_congr Iff.rfl ?_
  constructor
  · rintro ⟨b, hb, hname⟩
    obtain ⟨e, he, hb⟩ := List.mem_filterMap.1 hb
    exact ⟨e, (h.mem_listed_iff hp).2 (of_decide_eq_true (List.mem_filter.1 he).2), b, hb, hname⟩
  · rintro ⟨e, he, b, hb, hname⟩
    have hlatest := (h.mem_listed_iff hp).1 he
    have hknown : e ∈ p.known env := by
      by_contra hno
      have hmem : e ∈ eventsOf (p.known env) (snapshotKey e) := by
        unfold latest at hlatest
        rcases Option.or_eq_some_iff.1 hlatest with hsome | ⟨-, hsome⟩
        · exact (List.mem_filter.1 (List.mem_of_getLast? hsome)).1
        · exact List.mem_of_getLast? hsome
      exact hno (mem_eventsOf.1 hmem).1
    exact ⟨b, List.mem_filterMap.2 ⟨e, List.mem_filter.2 ⟨hknown, decide_eq_true hlatest⟩, hb⟩, hname⟩

theorem card_bindingNames (h : p.Whole env) (hp : p.SoundRows) :
    (p.bindingNames env).card = (p.bindingRows env).length := by
  have hkeys : p.bindingNames env = ((p.bindingRows env).map (·.1)).toFinset := by
    ext name
    rw [mem_bindingNames h hp, List.mem_toFinset]
    constructor
    · intro hsome
      obtain ⟨b, hb⟩ := Option.isSome_iff_exists.1 hsome
      exact List.mem_map.2 ⟨_, Dict.get_mem hb, rfl⟩
    · intro hmem
      obtain ⟨⟨name', b⟩, hb, rfl⟩ := List.mem_map.1 hmem
      rw [(keyed_bindingRows p env).get_of_mem hb]
      rfl
  rw [hkeys, List.toFinset_card_of_nodup (keyed_bindingRows p env), List.length_map]

/-- A live binding is there as it is. -/
theorem get_bindingRows_live (hp : p.Sound) {b : Binding} (hb : b ∈ p.liveBindings env) :
    (p.bindingRows env).get (bindingKey b) = some b := by
  have hruntimes : ((p.bindings.map (·.2)).map (·.runtimeSessionId)).Nodup := by
    have hsame : (p.bindings.map (·.2)).map (·.runtimeSessionId) = p.bindings.map (·.1) := by
      rw [List.map_map]
      exact List.map_congr_left fun item hitem => (hp.bindings item hitem).2
    rw [hsame]
    exact hp.tables.bindings.1
  have hkeyed : Dict.Keyed ((p.liveBindings env).map fun b => (bindingKey b, b)) := by
    have hnodup : ((p.liveBindings env).map (·.runtimeSessionId)).Nodup :=
      hruntimes.sublist (List.filter_sublist.map _)
    unfold Dict.Keyed
    rw [List.map_map]
    refine List.Nodup.of_map (·.1) ?_
    rw [List.map_map]
    exact hnodup
  have hrows : p.bindingRows env = (p.liveBindings env).foldl (fun d b => Dict.set d (bindingKey b) b)
      (((p.listed env).1.filterMap (·.recoveryBinding)).foldl (fun d b => Dict.set d (bindingKey b) b) []) := rfl
  rw [hrows, foldl_pairs, Dict.get_update hkeyed, hkeyed.get_of_mem (List.mem_map.2 ⟨b, hb, rfl⟩)]
  rfl

/-- The bindings that are there have their names. -/
theorem bindingRows_name {x : (Str × Str × Str) × Binding} (h : x ∈ p.bindingRows env) : x.1 = bindingKey x.2 := by
  have hfold : ∀ (bs : List Binding) (d : Dict (Str × Str × Str) Binding), (∀ x ∈ d, x.1 = bindingKey x.2) →
      ∀ x ∈ bs.foldl (fun d b => Dict.set d (bindingKey b) b) d, x.1 = bindingKey x.2 := by
    intro bs
    induction bs with
    | nil => exact fun d hd => hd
    | cons b bs ih =>
      intro d hd
      refine ih _ fun x hx => ?_
      rcases Dict.mem_set hx with rfl | hx
      · rfl
      · exact hd x hx
  exact hfold _ _ (hfold _ _ fun x hx => absurd hx List.not_mem_nil) x h

/-! ## Complete snapshots -/

/-- A snapshot has every live binding and the binding of every task it lists, one row for every live
    task, and every row of the store. -/
structure Complete (p : RecoveryProjection) (env : Surroundings) : Prop where
  live : ∀ item ∈ p.bindings, env.profileAuthorizer item.2.profile = true → item.2 ∈ p.listedBindings env
  bound : ∀ e ∈ (p.listed env).1, ∀ b ∈ e.recoveryBinding, ∃ b' ∈ p.listedBindings env, bindingKey b' = bindingKey b
  tasks : ∀ item ∈ p.tasks, Reportable env item.2 → (eventsOf (p.listed env).1 (snapshotKey item.2)).length = 1
  rows : ∀ r ∈ p.storeRows env, ∃ e ∈ (p.listed env).1, snapshotKey e = taskKey r

theorem Whole.listed_key (h : p.Whole env) {k : TaskKey} (hk : ((p.merged env).get k).isSome) :
    ∃ e ∈ (p.listed env).1, snapshotKey e = k := by
  obtain ⟨e, he⟩ := Option.isSome_iff_exists.1 hk
  have hmem := Dict.get_mem he
  rw [h.listed]
  exact ⟨e, List.mem_map.2 ⟨_, hmem, rfl⟩, (mem_merged hmem).1.symm⟩

theorem Whole.rows (h : p.Whole env) (hp : p.SoundRows) :
    ∀ r ∈ p.storeRows env, ∃ e ∈ (p.listed env).1, snapshotKey e = taskKey r := by
  intro r hr
  have hlast : r ∈ p.lastRows env := by rw [h.lastRows]; exact hr
  have hsome := history_isSome hlast
  rw [snapshotKey_historical (storeRow_sound hp hr)] at hsome
  exact h.listed_key (merge_isSome hsome _)

theorem Whole.tasks (h : p.Whole env) : ∀ item ∈ p.tasks, Reportable env item.2 →
    (eventsOf (p.listed env).1 (snapshotKey item.2)).length = 1 := by
  intro item hitem hreportable
  have hsome : ((p.merged env).get (snapshotKey item.2)).isSome := by
    rw [merged_eq]
    exact merge_live (List.mem_map_of_mem hitem) hreportable
  obtain ⟨e, he, hkey⟩ := h.listed_key hsome
  have hnodup : ((p.listed env).1.map snapshotKey).Nodup := by
    have hkeys : (p.listed env).1.map snapshotKey = (p.merged env).map (·.1) := by
      rw [h.listed, List.map_map]
      exact List.map_congr_left fun x hx => (mem_merged hx).1.symm
    rw [hkeys]
    exact keyed_merged p env
  have hle : (eventsOf (p.listed env).1 (snapshotKey item.2)).length ≤ 1 := by
    have hsub := hnodup.sublist ((List.filter_sublist (p := fun e =>
      decide (snapshotKey e = snapshotKey item.2))).map snapshotKey)
    have hreplicate : (eventsOf (p.listed env).1 (snapshotKey item.2)).map snapshotKey =
        List.replicate (eventsOf (p.listed env).1 (snapshotKey item.2)).length (snapshotKey item.2) := by
      rw [List.eq_replicate_iff, List.length_map]
      refine ⟨rfl, fun k hk => ?_⟩
      obtain ⟨x, hx, rfl⟩ := List.mem_map.1 hk
      exact (mem_eventsOf.1 hx).2
    have hsub : ((eventsOf (p.listed env).1 (snapshotKey item.2)).map snapshotKey).Nodup := hsub
    rw [hreplicate, List.nodup_replicate] at hsub
    exact hsub
  have hpos := List.length_pos_of_mem (mem_eventsOf.2 ⟨he, hkey⟩)
  omega

/-- **A snapshot that is not marked is complete** if and only if there are 64 bindings to list at most. -/
theorem complete_iff (h : p.Whole env) (hsound : p.Sound) (hp : p.SoundRows) :
    p.Complete env ↔ (p.bindingNames env).card ≤ maxRows := by
  rw [card_bindingNames h hp]
  constructor
  · intro hcomplete
    by_contra hmany
    rw [Nat.not_le] at hmany
    have hlisted : ∀ name, ((p.bindingRows env).get name).isSome →
        ∃ x ∈ Dict.last maxRows (p.bindingRows env), x.1 = name := by
      intro name hname
      have hb : ∃ b ∈ p.listedBindings env, bindingKey b = name := by
        rcases isSome_bindingRows.1 hname with ⟨b, hb, rfl⟩ | ⟨e, he, b, hb, rfl⟩
        · obtain ⟨hmem, hprofile⟩ := List.mem_filter.1 hb
          obtain ⟨item, hitem, rfl⟩ := List.mem_map.1 hmem
          exact ⟨item.2, hcomplete.live item hitem hprofile, rfl⟩
        · exact hcomplete.bound e he b hb
      obtain ⟨b, hb, rfl⟩ := hb
      obtain ⟨x, hx, rfl⟩ := List.mem_map.1 hb
      exact ⟨x, hx, bindingRows_name ((List.drop_sublist _ _).subset hx)⟩
    have hkeyed := keyed_bindingRows p env
    cases hrows : p.bindingRows env with
    | nil =>
      rw [hrows] at hmany
      exact absurd hmany (Nat.not_lt_zero _)
    | cons x rest =>
      rw [hrows] at hkeyed hlisted hmany
      obtain ⟨y, hy, hkey⟩ := hlisted x.1 (by rw [Dict.get_cons, if_pos rfl]; rfl)
      have hdrop : Dict.last maxRows (x :: rest) = rest.drop (rest.length - maxRows) := by
        unfold Dict.last
        rw [List.length_cons] at hmany ⊢
        rw [show rest.length + 1 - maxRows = (rest.length - maxRows) + 1 by omega, List.drop_succ_cons]
      rw [hdrop] at hy
      have hrest := (List.drop_sublist _ _).subset hy
      exact Dict.get_none_iff.1 hkeyed.cons.1 y hrest hkey
  · intro hfew
    have hlist : p.listedBindings env = (p.bindingRows env).map (·.2) := by
      unfold listedBindings Dict.last
      rw [Nat.sub_eq_zero_of_le hfew, List.drop_zero]
    refine ⟨fun item hitem hprofile => ?_, fun e he b hb => ?_, h.tasks, h.rows hp⟩
    · have hlive : item.2 ∈ p.liveBindings env := List.mem_filter.2 ⟨List.mem_map_of_mem hitem, hprofile⟩
      rw [hlist]
      exact List.mem_map.2 ⟨_, Dict.get_mem (get_bindingRows_live hsound hlive), rfl⟩
    · obtain ⟨b', hb'⟩ := Option.isSome_iff_exists.1 (isSome_bindingRows.2 (.inr ⟨e, he, b, hb, rfl⟩))
      have hmem := Dict.get_mem hb'
      rw [hlist]
      exact ⟨b', List.mem_map.2 ⟨_, hmem, rfl⟩, (bindingRows_name hmem).symm⟩

end RecoveryProjection

namespace RecoveryService

open RecoveryProjection RecoveryStore

variable {depths : JsonDepths} {m m' m₀ : RecoveryService} {i : ℕ} {p : RecoveryProjection} {env : Surroundings}
  {trace : List (ServiceAct × List StoreAct)}

/-! ## Honest snapshots -/

/-- What an act of the service does to a projection. -/
def actOn (m : RecoveryService) (i : ℕ) : ServiceAct → Option ProjectionAct
  | .request j env value => if j = i then some (.request env value) else none
  | .observe j env text => if j = i then some (.observe env text) else none
  | .upgrade j env => if j = i then some (.upgrade env m.store) else none
  | _ => none

theorem perform_actOn {a : ServiceAct} {b : ProjectionAct} (hp : m.projections[i]? = some p) (h : m.actOn i a = some b) :
    (m.perform depths a).projections[i]? = some ((m.lend p).act depths b) ∧ ¬ IsRestart a := by
  have hon : ∀ f : RecoveryProjection → RecoveryProjection, (m.on i f).projections[i]? = some (f (m.lend p)) := by
    intro f
    unfold on
    rw [hp]
    exact List.getElem?_set_self (List.getElem?_eq_some_iff.1 hp).1
  cases a with
  | request j env value =>
    simp only [actOn, Option.ite_none_right_eq_some] at h
    obtain ⟨rfl, h⟩ := h
    cases h
    exact ⟨hon _, id⟩
  | observe j env text =>
    simp only [actOn, Option.ite_none_right_eq_some] at h
    obtain ⟨rfl, h⟩ := h
    cases h
    exact ⟨hon _, id⟩
  | upgrade j env =>
    simp only [actOn, Option.ite_none_right_eq_some] at h
    obtain ⟨rfl, h⟩ := h
    cases h
    exact ⟨hon _, id⟩
  | _ => cases h

/-- A snapshot that says it is not truncated is complete, and nothing that it is to tell was ever dropped:
    no request, binding or task by an act on the projection, and no row of the store. -/
structure Honest (depths : JsonDepths) (m₀ : RecoveryService) (trace : List (ServiceAct × List StoreAct))
    (m : RecoveryService) (i : ℕ) (p : RecoveryProjection) (env : Surroundings) : Prop where
  reply : ((m.lend p).snapshot env).1 = [(lit "task_snapshot", .arr (((m.lend p).listed env).1.map (·.toJson))),
    (lit "bindings", .arr (((m.lend p).listedBindings env).map (·.toJson))),
    (lit "snapshot_complete", .bool false), (lit "snapshot_truncated", .bool false)]
  complete : (m.lend p).Complete env
  rows : p.store.isSome → ∀ r ∈ m.store.rows, p.scope = some r.key.scope →
    env.profileAuthorizer r.key.profile = true → ∃ e ∈ ((m.lend p).listed env).1, snapshotKey e = taskKey r
  kept : ∀ pre l post m₁ p₁ b, trace = pre ++ l :: post → Run depths m₀ pre m₁ → m₁.projections[i]? = some p₁ →
    m₁.actOn i l.1 = some b → (∀ l' ∈ post, ¬ IsRestart l'.1) → ¬ Loses depths (m₁.lend p₁) b
  stored : p.store.isSome → p.scope.isSome → ∀ pre b post r, trace.flatMap (·.2) = pre ++ b :: post →
    (pre.foldl act m₀.store).Brings r b → (∀ c ∈ post, ¬ c.Takes r) → r ∈ m.store.rows

theorem Run.functional {m₁ m₂ : RecoveryService} (h : Run depths m₀ trace m₁) (h' : Run depths m₀ trace m₂) : m₁ = m₂ :=
  Transition.Run.functional (fun _ _ _ _ h h' => h.2.2.symm.trans h'.2.2) h h'

/-- **Snapshots are honest about truncation** if and only if there are 64 bindings to list at most. -/
theorem snapshot_honest (h : Run depths m₀ trace m) (hm : m₀.New) (hread : 6 ≤ depths.read)
    (hp : m.projections[i]? = some p) (htruncated : (m.lend p).snapshotTruncated env = false) :
    Honest depths m₀ trace m i p env ↔ ((m.lend p).bindingNames env).card ≤ 64 := by
  have hms₀ := hm.sound
  have hms := run_sound hread h hms₀
  obtain ⟨hacts, hsound⟩ := run_acts hread h hms₀
  have hwhole := whole_iff.1 htruncated
  have hrows := lend_rows (p := p) hms
  have hiff := complete_iff hwhole (lend_sound (hms.projections p (List.mem_of_getElem? hp))) hrows
  refine ⟨fun hhonest => hiff.1 hhonest.complete, fun hfew => ⟨?_, hiff.2 hfew, ?_, ?_, ?_⟩⟩
  · rw [snapshot_eq, htruncated]
  · intro hstore r hr hscope hprofile
    exact hwhole.rows hrows r (hwhole.mem_storeRows (lend_store hstore) hscope hr hprofile)
  · rintro pre l post m₁ p₁ b rfl hpre hp₁ hb hprocess hloses
    obtain ⟨m₂, hpre', hrest⟩ := h.split
    obtain rfl := hpre.functional hpre'
    have hm₁ := run_sound hread hpre hms₀
    cases hrest with
    | cons hstep hpost =>
      obtain ⟨henabled, -, rfl⟩ := hstep
      obtain ⟨hafter, -⟩ := perform_actOn hp₁ hb
      obtain ⟨q, hq, hkept⟩ := kept_of_run hpost hread (perform_sound hread hm₁ henabled) hafter hprocess
      rw [hp] at hq
      cases hq
      have hbounded := (lend_sound (m := m₁) (hm₁.projections p₁ (List.mem_of_getElem? hp₁))).tables
      have hmarked := loses_truncated hbounded hloses
      rw [(hkept hwhole.tables).1] at hmarked
      cases hmarked
  · intro hstore hscope pre b post r htrace hbrings htakes
    rw [htrace] at hacts hsound
    refine row_unlost hacts hread hms₀.store hms₀.file hsound hbrings htakes ?_
    have hmarked := hwhole.store
    obtain ⟨scope, hscope⟩ := Option.isSome_iff_exists.1 hscope
    have hscope' : (m.lend p).scope = some scope := hscope
    unfold storeTruncated at hmarked
    rw [lend_store hstore, hscope'] at hmarked
    simp only [Bool.or_eq_false_iff] at hmarked
    cases htrue : m.store.truncated with
    | false => rfl
    | true =>
      rw [(prune_trimmed m.store env.wall).truncated htrue] at hmarked
      cases hmarked.1

/-- A child is stored in the session `z` of a first lease; a second lease of the device has 64 sessions. -/
def rebindActs : List ServiceAct :=
  [.openLease (lit "default") true startedScope, createRequest 0 1, createReply 0 1 (lit "z") (lit "s"),
    reportStatus 0 (lit "z") (lit "x") (lit "running"), .openLease (lit "default") true startedScope] ++
  (List.range 64).flatMap fun n : ℕ => [createRequest 1 n, createReply 1 n (natDigits n) (natDigits n)]

def rebound : RecoveryService := rebindActs.foldl (perform ⟨9, 9⟩) fresh

theorem rebound_cut : (rebound.projections[1]?.any fun p => !(rebound.lend p).snapshotTruncated onlyDefault &&
    ((rebound.lend p).listed onlyDefault).1.any fun e => e.recoveryBinding.any fun b =>
      ((rebound.lend p).listedBindings onlyDefault).all fun b' => bindingKey b' ≠ bindingKey b) = true := by
  decide +kernel

theorem rebound_run : Run ⟨9, 9⟩ fresh (traceOf ⟨9, 9⟩ fresh rebindActs) rebound := by
  refine run_traceOf (allEnabled_of_ttl (by decide) fresh_new.sound ?_)
  intro a ha m' httl
  rcases List.mem_append.1 ha with ha | ha
  · simp only [List.mem_cons, List.not_mem_nil, or_false] at ha
    rcases ha with rfl | rfl | rfl | rfl | rfl
    · exact startedScope_admitted
    · exact onlyDefault_legible
    · exact observe_enabled _ _ httl
    · exact observe_enabled _ _ httl
    · exact startedScope_admitted
  · obtain ⟨n, -, ha⟩ := List.mem_flatMap.1 ha
    simp only [List.mem_cons, List.not_mem_nil, or_false] at ha
    rcases ha with rfl | rfl
    · exact onlyDefault_legible
    · exact observe_enabled _ _ httl

/-- A snapshot that is not marked lists a task whose binding it does not list. -/
theorem binding_cut : ∃ trace m p, Run ⟨9, 9⟩ fresh trace m ∧ p ∈ m.projections ∧
    (m.lend p).snapshotTruncated onlyDefault = false ∧ ∃ e ∈ ((m.lend p).listed onlyDefault).1,
      ∃ b ∈ e.recoveryBinding, ∀ b' ∈ (m.lend p).listedBindings onlyDefault, bindingKey b' ≠ bindingKey b := by
  have hcut := rebound_cut
  rw [Option.any_eq_true] at hcut
  obtain ⟨p, hp, hcut⟩ := hcut
  rw [Bool.and_eq_true, Bool.not_eq_true', List.any_eq_true] at hcut
  obtain ⟨hmarked, e, he, hbinding⟩ := hcut
  rw [Option.any_eq_true] at hbinding
  obtain ⟨b, hb, hall⟩ := hbinding
  rw [List.all_eq_true] at hall
  exact ⟨_, rebound, p, rebound_run, List.mem_of_getElem? hp, hmarked, e, he, b, hb, fun b' hb' =>
    of_decide_eq_true (hall b' hb')⟩

theorem snapshot_honest_session : ∃ p, session.projections[0]? = some p ∧
    Honest ⟨9, 9⟩ fresh (traceOf ⟨9, 9⟩ fresh sessionActs) session 0 p onlyDefault := by
  have hchecks : (session.projections[0]?.any fun p => !(session.lend p).snapshotTruncated onlyDefault &&
      decide (((session.lend p).bindingNames onlyDefault).card ≤ 64)) = true := by
    decide +kernel
  rw [Option.any_eq_true] at hchecks
  obtain ⟨p, hp, hchecks⟩ := hchecks
  rw [Bool.and_eq_true, Bool.not_eq_true', decide_eq_true_iff] at hchecks
  exact ⟨p, hp, (snapshot_honest (run_traceOf session_enabled) fresh_new (by decide) hp hchecks.1).2 hchecks.2⟩

end RecoveryService

end MercuryRelay
