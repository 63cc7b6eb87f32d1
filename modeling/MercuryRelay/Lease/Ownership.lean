/-
  The registry of the leases owns each one until its cleanup succeeds
  (session_lease.py, `SessionLeaseManager`).

  * `step_evolves`: a step takes each lease some steps of its own;
  * `step_moved`: what a step can do to the registry and to the calls that
    release many leases;
  * `leases_owned`: a lease whose cleanup did not succeed keeps its slot, and those
    calls release every lease they are about.
-/
import Mathlib.Data.List.Perm.Subperm
import MercuryRelay.Lease.Callers
import MercuryRelay.Lease.Manager

set_option autoImplicit false

namespace MercuryRelay

open Python Shield Transition

namespace LeasePool

/-! ## The leases -/

section Evolves

variable {s s' s'' : LeasePool} {P : ℕ → ℕ → Prop} {i : ℕ} {label : PoolLabel}

/-- A lease at the end of some run of its tasks. -/
def Grown (x : Lifecycle) : Prop := ∃ x₀ labels, x₀.Fresh ∧ Lifecycle.Run x₀ labels x

/-- Each lease took some steps, none of which cancels a task that `P` protects; a new
    one took some steps too. -/
structure Evolves (P : ℕ → ℕ → Prop) (s s' : LeasePool) : Prop where
  goes : ∀ (i : ℕ) (lease : ManagedLease), s.heap[i]? = some lease → ∃ lease' labels,
    s'.heap[i]? = some lease' ∧ lease'.key = lease.key ∧
    Lifecycle.Run lease.lifecycle labels lease'.lifecycle ∧
    ∀ label ∈ labels, ∀ t, P i t → label.1 ≠ .cancels t
  born : ∀ (i : ℕ) (lease' : ManagedLease), s'.heap[i]? = some lease' →
    (∃ lease, s.heap[i]? = some lease) ∨ Grown lease'.lifecycle

theorem Grown.run {x y : Lifecycle} {labels : List LifecycleLabel} (h : Grown x)
    (hrun : Lifecycle.Run x labels y) : Grown y := by
  obtain ⟨x₀, before, hfresh, hbefore⟩ := h
  exact ⟨x₀, _, hfresh, hbefore.append hrun⟩

theorem Grown.agrees {x : Lifecycle} (h : Grown x) : ∃ trace, Lifecycle.Agrees trace x := by
  obtain ⟨x₀, labels, hfresh, hrun⟩ := h
  exact ⟨labels, Lifecycle.agrees_run hfresh hrun⟩

theorem Grown.orderly {x : Lifecycle} (h : Grown x) : x.Orderly := by
  obtain ⟨x₀, labels, hfresh, hrun⟩ := h
  exact Lifecycle.orderly_run hfresh hrun

theorem Evolves.of_heap (h : s'.heap = s.heap) : Evolves P s s' where
  goes i lease hi := ⟨lease, [], by rw [h]; exact hi, rfl, .nil, by simp⟩
  born i lease' hi := .inl ⟨lease', by rw [← h]; exact hi⟩

theorem Evolves.trans (h : Evolves P s s') (h' : Evolves P s' s'') : Evolves P s s'' := by
  constructor
  · intro i lease hi
    obtain ⟨lease', labels, hi', hkey, hrun, hspare⟩ := h.goes i lease hi
    obtain ⟨lease'', labels', hi'', hkey', hrun', hspare'⟩ := h'.goes i lease' hi'
    refine ⟨lease'', labels ++ labels', hi'', hkey'.trans hkey, hrun.append hrun', fun l hl => ?_⟩
    rcases List.mem_append.1 hl with hl | hl
    · exact hspare l hl
    · exact hspare' l hl
  · intro i lease'' hi''
    rcases h'.born i lease'' hi'' with ⟨lease', hi'⟩ | hgrown
    · rcases h.born i lease' hi' with hold | hgrown
      · exact .inl hold
      · obtain ⟨x, labels, hx, -, hrun, -⟩ := h'.goes i lease' hi'
        obtain rfl : lease'' = x := Option.some.inj (hi''.symm.trans hx)
        exact .inr (hgrown.run hrun)
    · exact .inr hgrown

theorem lifecycle_eq_some {x : Lifecycle} : s.lifecycle i = some x ↔
    ∃ lease, s.heap[i]? = some lease ∧ lease.lifecycle = x := Option.map_eq_some_iff

/-- One lease takes a step. -/
theorem withLifecycle_evolves {lease : ManagedLease} {x : Lifecycle} {l : LifecycleLabel}
    (hi : s.heap[i]? = some lease) (hs : Lifecycle.Step lease.lifecycle l x)
    (hP : ∀ t, P i t → l.1 ≠ .cancels t) : Evolves P s (s.withLifecycle i x) := by
  have hget : ∀ j, (s.withLifecycle i x).heap[j]? =
      (s.heap[j]?).map fun old => if i = j then { old with lifecycle := x } else old := by
    intro j
    simp only [withLifecycle, List.getElem?_modify]
    split <;> simp
  constructor
  · intro j old hj
    have hj' := hget j
    rw [hj] at hj'
    by_cases hij : i = j
    · subst hij
      obtain rfl : lease = old := Option.some.inj (hi.symm.trans hj)
      exact ⟨_, [l], hj'.trans (congrArg some (if_pos rfl)), rfl, .single hs, by simpa using hP⟩
    · exact ⟨_, [], hj'.trans (congrArg some (if_neg hij)), rfl, .nil, by simp⟩
  · intro j lease' hj
    rw [hget, Option.map_eq_some_iff] at hj
    obtain ⟨old, hold, -⟩ := hj
    exact .inl ⟨old, hold⟩

theorem performLease_evolves {e : LifecycleEvent} {out : PoolOutput}
    (hx : s.performLease i e = (s', out))
    (hen : ∃ lifecycle ∈ s.lifecycle i, lifecycle.Enabled e) (hP : ∀ t, P i t → e ≠ .cancels t) :
    Evolves P s s' := by
  obtain ⟨x, hlife, hen⟩ := hen
  obtain ⟨lease, hi, rfl⟩ := lifecycle_eq_some.1 hlife
  simp only [performLease, show s.lifecycle i = some lease.lifecycle from hlife, Prod.mk.injEq] at hx
  obtain ⟨rfl, -⟩ := hx
  have hstep : Lifecycle.Step lease.lifecycle (e, (lease.lifecycle.perform e).2)
      (lease.lifecycle.perform e).1 := ⟨hen, rfl⟩
  exact withLifecycle_evolves hi hstep hP

theorem scheduleAll_evolves {reason : String} {is : List ℕ} :
    Evolves P s (s.scheduleAll reason is).1 := by
  induction is generalizing s with
  | nil => exact .of_heap rfl
  | cons i is ih =>
    unfold scheduleAll
    split
    · exact ih
    · rename_i x hlife
      obtain ⟨lease, hi, rfl⟩ := lifecycle_eq_some.1 hlife
      have hstep : Lifecycle.Step lease.lifecycle (.schedules reason, .done)
          (lease.lifecycle.create (.release reason) .created) := ⟨trivial, rfl⟩
      exact (withLifecycle_evolves hi hstep (by simp)).trans ih

theorem releaseAll_evolves {reason : String} {is : List ℕ} :
    Evolves P s (s.releaseAll is reason).1 :=
  (scheduleAll_evolves).trans (.of_heap rfl)

theorem answer_fst (r : LeasePool × Option Released) : (answer r).1 = r.1 := by
  obtain ⟨s, result⟩ := r
  cases result <;> rfl

theorem get_heap (key : Str × Str) : (s.get key).1.heap = s.heap := by
  unfold get
  split
  · rfl
  · split <;> rfl

theorem register_evolves : Evolves P s (s.register i).1 := by
  unfold register
  split
  · exact .of_heap rfl
  · split
    · exact .of_heap rfl
    · rename_i lease hi
      split
      · rename_i m j hget
        have hheap := get_heap (s := s) lease.key
        rw [hget] at hheap
        exact .of_heap hheap
      · rename_i m hget
        have hheap := get_heap (s := s) lease.key
        rw [hget] at hheap
        dsimp only
        split
        · exact .of_heap hheap
        · have hstep : Lifecycle.Step lease.lifecycle (.starts, .done) lease.lifecycle.start :=
            ⟨trivial, rfl⟩
          refine (Evolves.of_heap hheap).trans (.trans (.of_heap ?_)
            (withLifecycle_evolves ?_ hstep (by simp)))
          · rfl
          · exact (congrArg (fun heap : List ManagedLease => heap[i]?) hheap).trans hi

/-- A task that a call of `_release_all` made. -/
def Gathers (s : LeasePool) (i t : ℕ) : Prop := ∃ call ∈ s.calls, (i, t) ∈ call.children

/-- **A step takes each lease some steps.** -/
theorem step_evolves (hs : Step s label s') : Evolves s.Gathers s s' := by
  obtain ⟨e, out⟩ := label
  obtain ⟨hen, hx⟩ := hs
  cases e with
  | creates deviceId channel hasOnRelease =>
    cases hx
    constructor
    · intro i lease hi
      have hlt : i < s.heap.length := (List.getElem?_eq_some_iff.1 hi).1
      exact ⟨lease, [], by rw [List.getElem?_append_left hlt]; exact hi, rfl, .nil, by simp⟩
    · intro i lease' hi
      rw [List.getElem?_append] at hi
      split at hi
      · exact .inl ⟨lease', hi⟩
      · obtain rfl : lease' = ⟨deviceId, channel, { hasOnRelease := hasOnRelease }⟩ := by
          simpa using List.mem_of_getElem? hi
        exact .inr ⟨_, [], ⟨rfl, rfl, rfl, rfl, rfl, rfl, rfl, rfl, rfl, rfl⟩, .nil⟩
  | lease i e =>
    refine performLease_evolves hx hen.1 fun t ht => ?_
    obtain ⟨call, hcall, hmem⟩ := ht
    exact hen.2 call hcall (i, t) hmem rfl
  | registers i =>
    simp only [perform] at hx
    have h := register_evolves (s := s) (P := s.Gathers) (i := i)
    split at hx
    · rename_i m hr
      cases hx
      rwa [hr] at h
    · rename_i m fault hr
      cases hx
      rwa [hr] at h
  | gets deviceId channel =>
    cases hx
    exact .of_heap (get_heap _)
  | releasesLease deviceId channel t reason =>
    simp only [perform] at hx
    have hheap := get_heap (s := s) (deviceId, channel)
    split at hx
    · rename_i m hg
      cases hx
      rw [hg] at hheap
      exact .of_heap hheap
    · rename_i m j hg
      rw [hg] at hheap
      have hlife : ∃ x ∈ m.lifecycle j, x.Enabled (.calls t reason) := by
        have h := hen j (by rw [hg]; rfl)
        unfold lifecycle at h ⊢
        rwa [hheap]
      exact (Evolves.of_heap hheap).trans (performLease_evolves hx hlife (by simp))
  | releasesDevice deviceId reason =>
    have h := answer_fst (s.releaseDevice deviceId reason)
    rw [show answer (s.releaseDevice deviceId reason) = (s', out) from hx] at h
    rw [show s' = _ from h]
    exact releaseAll_evolves
  | closes =>
    have h := answer_fst s.close
    rw [show answer s.close = (s', out) from hx] at h
    rw [show s' = _ from h]
    exact @Evolves.trans _ { s with manager := { s.manager with closed := true } } _ _ (.of_heap rfl)
      releaseAll_evolves
  | cancels k =>
    simp only [perform] at hx
    split at hx
    · cases hx
      exact .of_heap rfl
    · cases hx
      exact .of_heap rfl
  | resumes k =>
    simp only [perform] at hx
    split at hx
    · cases hx
      exact .of_heap rfl
    · rename_i call hcall
      have h := answer_fst (s.resume k call)
      rw [hx] at h
      rw [show s' = _ from h]
      exact .of_heap rfl

end Evolves

/-! ## The registry and the calls -/

section Moves

variable {s s' : LeasePool} {P : ℕ → ℕ → Prop} {i : ℕ} {label : PoolLabel}

/-- The call is about the leases of the device. -/
def Covers (e : PoolEvent) (deviceId : Str) : Prop :=
  match e with
  | .releasesDevice d _ => d = deviceId
  | .closes => True
  | _ => False

/-- What a pruning leaves of the slots: those of the leases that are owned. -/
structure Pruned (s : LeasePool) (leases : Dict (Str × Str) ℕ) : Prop where
  keeps : ∀ key i, s.manager.leases.get key = some i → s.succeeded i = false → leases.get key = some i
  length : leases.length ≤ s.manager.leases.length

theorem Pruned.refl (s : LeasePool) : Pruned s s.manager.leases := ⟨fun _ _ h _ => h, Nat.le_refl _⟩

theorem get_pruned (key : Str × Str) : Pruned s (s.get key).1.manager.leases := by
  unfold get
  split
  · exact .refl s
  · rename_i j hj
    split
    · rename_i hsucc
      refine ⟨fun key' i hi hopen => ?_, List.length_filter_le _ _⟩
      have hne : key ≠ key' := by
        rintro rfl
        obtain rfl : i = j := Option.some.inj (hi.symm.trans hj)
        rw [hsucc] at hopen
        cases hopen
      exact Dict.get_remove.trans ((if_neg hne).trans hi)
    · exact .refl s

/-- A slot that is given up was that of a lease whose cleanup succeeded. -/
theorem get_none {key : Str × Str} {m : LeasePool} (h : s.get key = (m, none)) (j : ℕ)
    (hj : s.manager.leases.get key = some j) : s.succeeded j = true := by
  unfold get at h
  rw [hj] at h
  dsimp only at h
  split at h
  · assumption
  · cases h

theorem get_rest (key : Str × Str) : (s.get key).1.manager.closed = s.manager.closed ∧
    (s.get key).1.manager.maxLeases = s.manager.maxLeases ∧ (s.get key).1.calls = s.calls := by
  unfold get
  split
  · exact ⟨rfl, rfl, rfl⟩
  · split <;> exact ⟨rfl, rfl, rfl⟩

/-- What a step can do to the registry, and to the calls that release many leases. -/
inductive Moved (s : LeasePool) : PoolLabel → LeasePool → Prop
  | pruned {e out s'} : (∀ i, (e, out) ≠ (.registers i, .done)) → (∀ d, ¬ Covers e d) →
      (∀ k result, (e, out) ≠ (.resumes k, .released result)) →
      Pruned s s'.manager.leases → s'.manager.maxLeases = s.manager.maxLeases →
      s'.manager.closed = s.manager.closed → s'.calls = s.calls → Moved s (e, out) s'
  | registered {i lease leases s'} : s.manager.closed = false → s.heap[i]? = some lease →
      (∀ j, s.manager.leases.get lease.key = some j → s.succeeded j = true) → Pruned s leases →
      leases.length < s.manager.maxLeases → s'.manager.leases = Dict.set leases lease.key i →
      s'.manager.maxLeases = s.manager.maxLeases → s'.manager.closed = s.manager.closed →
      s'.calls = s.calls → Moved s (.registers i, .done) s'
  /-- `_release_all` makes its tasks -/
  | called {e out call s'} : (∀ i, e ≠ .registers i) → (∀ k, e ≠ .resumes k) →
      s'.manager.leases = s.manager.leases → s'.manager.maxLeases = s.manager.maxLeases →
      (s.manager.closed = true ∨ e = .closes → s'.manager.closed = true) →
      s'.calls = s.calls ++ [call] →
      (∀ key i, s.manager.leases.get key = some i → s.succeeded i = false → Covers e key.1 →
        (∃ lease, s.heap[i]? = some lease) → ∃ t, (i, t) ∈ call.children) →
      (∀ child ∈ call.children, ∃ lease : ManagedLease, s'.heap[child.1]? = some lease ∧
        Lifecycle.Child child.2 lease.lifecycle) →
      (out = .done ∨ call.children = []) → Moved s (e, out) s'
  /-- its caller is cancelled, or resumes -/
  | waited {k call call' e out s'} : s.calls[k]? = some call → s'.manager = s.manager →
      s'.calls = s.calls.set k call' → call'.children = call.children → e = .cancels k ∨ e = .resumes k →
      (∀ result, out = .released result → ∃ x c, s.gathered call.children = some x ∧
        result = x.after c) → Moved s (e, out) s'

theorem performLease_rest {e : LifecycleEvent} : (s.performLease i e).1.manager = s.manager ∧
    (s.performLease i e).1.calls = s.calls := by
  unfold performLease
  split
  · exact ⟨rfl, rfl⟩
  · exact ⟨rfl, rfl⟩

/-- What a new lease may do next, its tasks go on to do. -/
theorem Evolves.child {t : ℕ} {lease : ManagedLease} (h : Evolves (fun _ _ => True) s s')
    (hgrown : Grown lease.lifecycle) (hi : s.heap[i]? = some lease)
    (hchild : Lifecycle.Child t lease.lifecycle) :
    ∃ lease', s'.heap[i]? = some lease' ∧ Lifecycle.Child t lease'.lifecycle := by
  obtain ⟨lease', labels, hi', -, hrun, hspare⟩ := h.goes i lease hi
  obtain ⟨trace, ha⟩ := hgrown.agrees
  exact ⟨lease', hi', hchild.run ha hrun fun l hl => hspare l hl t trivial⟩

/-- The tasks that `_release_all` makes: one for each lease. -/
structure Scheduled (s : LeasePool) (is : List ℕ) (s' : LeasePool) (children : List (ℕ × ℕ)) : Prop where
  manager : s'.manager = s.manager
  calls : s'.calls = s.calls
  all : ∀ i ∈ is, (∃ lease, s.heap[i]? = some lease) → ∃ t, (i, t) ∈ children
  child : ∀ child ∈ children, ∃ lease : ManagedLease, s'.heap[child.1]? = some lease ∧
    Lifecycle.Child child.2 lease.lifecycle

theorem scheduleAll_spec {reason : String} {is : List ℕ}
    (hgrown : ∀ (i : ℕ) (lease : ManagedLease), s.heap[i]? = some lease → Grown lease.lifecycle) :
    Scheduled s is (s.scheduleAll reason is).1 (s.scheduleAll reason is).2 := by
  induction is generalizing s with
  | nil => exact ⟨rfl, rfl, by simp, by simp [scheduleAll]⟩
  | cons i is ih =>
    unfold scheduleAll
    split
    · rename_i hnone
      obtain ⟨h1, h2, h3, h4⟩ := ih hgrown
      refine ⟨h1, h2, fun j hj hex => ?_, h4⟩
      rcases List.mem_cons.1 hj with rfl | hj
      · obtain ⟨lease, hlease⟩ := hex
        simp [lifecycle, hlease] at hnone
      · exact h3 j hj hex
    · rename_i x hlife
      obtain ⟨lease, hi, rfl⟩ := lifecycle_eq_some.1 hlife
      have hstep : Lifecycle.Step lease.lifecycle (.schedules reason, .done)
          (lease.lifecycle.create (.release reason) .created) := ⟨trivial, rfl⟩
      have hev : Evolves (fun _ _ => True) s
          (s.withLifecycle i (lease.lifecycle.create (.release reason) .created)) :=
        withLifecycle_evolves hi hstep (by simp)
      have hgrown' : ∀ (j : ℕ) (lease' : ManagedLease), (s.withLifecycle i
          (lease.lifecycle.create (.release reason) .created)).heap[j]? = some lease' →
          Grown lease'.lifecycle := by
        intro j lease' hj
        rcases hev.born j lease' hj with ⟨old, hold⟩ | hg
        · obtain ⟨y, labels, hy, -, hrun, -⟩ := hev.goes j old hold
          obtain rfl : lease' = y := Option.some.inj (hj.symm.trans hy)
          exact (hgrown j old hold).run hrun
        · exact hg
      obtain ⟨h1, h2, h3, h4⟩ := ih hgrown'
      refine ⟨h1, h2, fun j hj hex => ?_, fun child hchild => ?_⟩
      · rcases List.mem_cons.1 hj with rfl | hj
        · exact ⟨_, List.mem_cons_self⟩
        · obtain ⟨old, hold⟩ := hex
          obtain ⟨y, -, hy, -⟩ := hev.goes j old hold
          obtain ⟨t, ht⟩ := h3 j hj ⟨y, hy⟩
          exact ⟨t, List.mem_cons_of_mem _ ht⟩
      · rcases List.mem_cons.1 hchild with rfl | hchild
        · obtain ⟨y, labels, hy, -, -, -⟩ := hev.goes i lease hi
          have hnew : y.lifecycle = lease.lifecycle.create (.release reason) .created := by
            simp only [withLifecycle, List.getElem?_modify, hi] at hy
            simp at hy
            rw [← hy]
          refine scheduleAll_evolves.child (hgrown' i y hy) hy ?_
          rw [hnew]
          exact (hgrown i lease hi).orderly.known.child
        · exact h4 child hchild

theorem releaseAll_spec {reason : String} {is : List ℕ} {out : PoolOutput}
    (hgrown : ∀ (i : ℕ) (lease : ManagedLease), s.heap[i]? = some lease → Grown lease.lifecycle)
    (hx : answer (s.releaseAll is reason) = (s', out)) :
    ∃ call : ReleaseAll, s'.manager = s.manager ∧ s'.calls = s.calls ++ [call] ∧
      (∀ i ∈ is, (∃ lease, s.heap[i]? = some lease) → ∃ t, (i, t) ∈ call.children) ∧
      (∀ child ∈ call.children, ∃ lease : ManagedLease, s'.heap[child.1]? = some lease ∧
        Lifecycle.Child child.2 lease.lifecycle) ∧ (out = .done ∨ call.children = []) := by
  obtain ⟨h1, h2, h3, h4⟩ := scheduleAll_spec hgrown
  unfold releaseAll at hx
  rcases hr : s.scheduleAll reason is with ⟨m, children⟩
  rw [hr] at hx h1 h2 h3 h4
  dsimp only at hx h1 h2 h3 h4
  by_cases hempty : children = []
  · rw [if_pos (by simp [hempty])] at hx
    cases hx
    exact ⟨_, h1, congrArg (· ++ _) h2, h3, h4, .inr hempty⟩
  · rw [if_neg (by simp [hempty])] at hx
    cases hx
    exact ⟨_, h1, congrArg (· ++ _) h2, h3, h4, .inl rfl⟩

theorem register_moved {fault : Option LeaseFault} (hx : s.register i = (s', fault)) :
    Moved s (.registers i, match fault with | none => .done | some fault => .raised fault) s' := by
  unfold register at hx
  split at hx
  · cases hx
    exact .pruned (by simp) (fun _ => id) (by simp) (.refl s) rfl rfl rfl
  · rename_i hopen
    split at hx
    · cases hx
      exact .pruned (by simp) (fun _ => id) (by simp) (.refl s) rfl rfl rfl
    · rename_i lease hi
      have hpruned := get_pruned (s := s) lease.key
      obtain ⟨hclosed, hmax, hcalls⟩ := get_rest (s := s) lease.key
      split at hx
      · rename_i m j hg
        rw [hg] at hpruned hclosed hmax hcalls
        cases hx
        exact .pruned (by simp) (fun _ => id) (by simp) hpruned hmax hclosed hcalls
      · rename_i m hg
        have hheap := get_heap (s := s) lease.key
        rw [hg] at hpruned hclosed hmax hcalls hheap
        have hsucc : ∀ j, m.succeeded j = s.succeeded j := fun j => by
          unfold succeeded
          rw [show m.heap = s.heap from hheap]
        have hfilter : Pruned s (m.manager.leases.filter fun item => !m.succeeded item.2) := by
          refine ⟨fun key j hj hopen => ?_, Nat.le_trans (List.length_filter_le _ _) hpruned.length⟩
          exact Dict.get_filter (hpruned.keeps key j hj hopen) (by simp [hsucc, hopen])
        dsimp only at hx
        split at hx
        · cases hx
          exact .pruned (by simp) (fun _ => id) (by simp) hfilter hmax hclosed hcalls
        · rename_i hroom
          cases hx
          refine .registered (by simpa using hopen) hi (get_none hg) hfilter ?_ rfl hmax hclosed hcalls
          rw [← show m.manager.maxLeases = s.manager.maxLeases from hmax]
          exact Nat.lt_of_not_le hroom

/-- **What a step can do to the registry, and to the calls that release many leases.** -/
theorem step_moved (hgrown : ∀ (i : ℕ) (lease : ManagedLease), s.heap[i]? = some lease →
    Grown lease.lifecycle) (hs : Step s label s') : Moved s label s' := by
  obtain ⟨e, out⟩ := label
  obtain ⟨hen, hx⟩ := hs
  cases e with
  | creates deviceId channel hasOnRelease =>
    cases hx
    exact .pruned (by simp) (fun _ => id) (by simp) (.refl s) rfl rfl rfl
  | lease i e =>
    obtain ⟨hm, hc⟩ := performLease_rest (s := s) (i := i) (e := e)
    rw [show s.performLease i e = (s', out) from hx] at hm hc
    exact .pruned (by simp) (fun _ => id) (by simp) (by rw [hm]; exact .refl s) (by rw [hm])
      (by rw [hm]) hc
  | registers i =>
    simp only [perform] at hx
    split at hx
    · rename_i m hr
      cases hx
      exact register_moved hr
    · rename_i m fault hr
      cases hx
      exact register_moved hr
  | gets deviceId channel =>
    cases hx
    obtain ⟨hclosed, hmax, hcalls⟩ := get_rest (s := s) (deviceId, channel)
    exact .pruned (by simp) (fun _ => id) (by simp) (get_pruned _) hmax hclosed hcalls
  | releasesLease deviceId channel t reason =>
    simp only [perform] at hx
    have hpruned := get_pruned (s := s) (deviceId, channel)
    obtain ⟨hclosed, hmax, hcalls⟩ := get_rest (s := s) (deviceId, channel)
    split at hx
    · rename_i m hg
      rw [hg] at hpruned hclosed hmax hcalls
      cases hx
      exact .pruned (by simp) (fun _ => id) (by simp) hpruned hmax hclosed hcalls
    · rename_i m j hg
      rw [hg] at hpruned hclosed hmax hcalls
      obtain ⟨hm, hc⟩ := performLease_rest (s := m) (i := j) (e := .calls t reason)
      rw [hx] at hm hc
      exact .pruned (by simp) (fun _ => id) (by simp) (by rw [hm]; exact hpruned)
        (by rw [hm]; exact hmax) (by rw [hm]; exact hclosed) (by rw [hc]; exact hcalls)
  | releasesDevice deviceId reason =>
    obtain ⟨call, hm, hc, hall, hchild, hout⟩ := releaseAll_spec hgrown hx
    refine .called (by simp) (by simp) (by rw [hm]) (by rw [hm]) ?_ hc ?_ hchild hout
    · rintro (h | h)
      · rw [hm]
        exact h
      · cases h
    · intro key i hi hopen hcovers hex
      refine hall i ?_ hex
      exact List.mem_map.2 ⟨(key, i), List.mem_filter.2 ⟨Dict.get_mem hi, by simpa [hopen] using hcovers.symm⟩,
        rfl⟩
  | closes =>
    obtain ⟨call, hm, hc, hall, hchild, hout⟩ := releaseAll_spec
      (s := { s with manager := { s.manager with closed := true } }) hgrown hx
    refine .called (by simp) (by simp) (by rw [hm]) (by rw [hm]) (fun _ => by rw [hm]) hc ?_ hchild hout
    intro key i hi _ _ hex
    exact hall i (List.mem_map.2 ⟨(key, i), Dict.get_mem hi, rfl⟩) hex
  | cancels k =>
    obtain ⟨call, hcall, -⟩ := hen
    simp only [perform, show s.calls[k]? = some call from hcall] at hx
    cases hx
    exact .waited hcall rfl rfl rfl (.inl rfl) (by simp)
  | resumes k =>
    obtain ⟨call, hcall, -⟩ := hen
    simp only [perform, show s.calls[k]? = some call from hcall, resume] at hx
    rcases hg : s.gathered call.children with _ | x
    · rw [hg] at hx
      cases hx
      exact .waited hcall rfl rfl rfl (.inr rfl) (by simp)
    · rw [hg] at hx
      cases hx
      refine .waited hcall rfl rfl rfl (.inr rfl) fun result hout => ?_
      cases hout
      exact ⟨x, _, hg, rfl⟩

end Moves

/-! ## Runs -/

section Runs

variable {s₀ s s' : LeasePool} {trace : List PoolLabel} {i : ℕ} {label : PoolLabel}

/-- The lease was registered. -/
def Enrolled (trace : List PoolLabel) (i : ℕ) : Prop := (.registers i, .done) ∈ trace

instance (trace : List PoolLabel) (i : ℕ) : Decidable (Enrolled trace i) :=
  inferInstanceAs (Decidable (_ ∈ trace))

theorem succeeded_iff {lease : ManagedLease} (hi : s.heap[i]? = some lease) :
    s.succeeded i = lease.lifecycle.releaseSucceeded := by
  simp [succeeded, hi]

theorem Evolves.succeeded {P : ℕ → ℕ → Prop} (h : Evolves P s s') (hs : s.succeeded i = true) :
    s'.succeeded i = true := by
  obtain ⟨lease, hi, hsucc⟩ := (Option.any_eq_true _ _).1 hs
  obtain ⟨lease', labels, hi', -, hrun, -⟩ := h.goes i lease hi
  rw [succeeded_iff hi']
  exact Lifecycle.releaseSucceeded_run hrun hsucc

/-- What holds of the registry in every run. -/
structure Held (trace : List PoolLabel) (s : LeasePool) : Prop where
  grown : ∀ (i : ℕ) (lease : ManagedLease), s.heap[i]? = some lease → Grown lease.lifecycle
  child : ∀ call ∈ s.calls, ∀ child ∈ call.children, ∃ lease : ManagedLease,
    s.heap[child.1]? = some lease ∧ Lifecycle.Child child.2 lease.lifecycle
  length : s.manager.leases.length ≤ s.manager.maxLeases
  there : ∀ i, Enrolled trace i → ∃ lease, s.heap[i]? = some lease
  kept : ∀ (i : ℕ) (lease : ManagedLease), Enrolled trace i → s.heap[i]? = some lease →
    s.succeeded i = false → s.manager.leases.get lease.key = some i
  closed : ∀ out, (.closes, out) ∈ trace → s.manager.closed = true

/-- The tasks of a call go on. -/
theorem Held.gathers (h : Held trace s) (hev : Evolves s.Gathers s s') {t : ℕ} (ht : s.Gathers i t) :
    ∃ lease : ManagedLease, s'.heap[i]? = some lease ∧ Lifecycle.Child t lease.lifecycle := by
  obtain ⟨call, hcall, hmem⟩ := ht
  obtain ⟨lease, hi, hchild⟩ := h.child call hcall _ hmem
  obtain ⟨lease', labels, hi', -, hrun, hspare⟩ := hev.goes i lease hi
  obtain ⟨before, ha⟩ := (h.grown i lease hi).agrees
  exact ⟨lease', hi', hchild.run ha hrun fun l hl => hspare l hl t ⟨call, hcall, hmem⟩⟩

theorem Held.child_step (h : Held trace s) (hs : Step s label s') : ∀ call ∈ s'.calls,
    ∀ child ∈ call.children, ∃ lease : ManagedLease,
      s'.heap[child.1]? = some lease ∧ Lifecycle.Child child.2 lease.lifecycle := by
  have hev := step_evolves hs
  have hold : ∀ call ∈ s.calls, ∀ child ∈ call.children, ∃ lease : ManagedLease,
      s'.heap[child.1]? = some lease ∧ Lifecycle.Child child.2 lease.lifecycle :=
    fun call hcall child hchild => h.gathers hev ⟨call, hcall, hchild⟩
  intro call hcall
  cases step_moved h.grown hs with
  | pruned _ _ _ _ _ _ hc => exact hold call (hc ▸ hcall)
  | registered _ _ _ _ _ _ _ _ hc => exact hold call (hc ▸ hcall)
  | called _ _ _ _ _ hc _ hchild =>
    rw [hc] at hcall
    rcases List.mem_append.1 hcall with hcall | hcall
    · exact hold call hcall
    · obtain rfl := List.mem_singleton.1 hcall
      exact hchild
  | @waited k old new _ _ _ hk _ hc hsame =>
    rw [hc] at hcall
    rcases List.mem_or_eq_of_mem_set hcall with hcall | rfl
    · exact hold call hcall
    · rw [hsame]
      exact hold old (List.mem_of_getElem? hk)

theorem Held.kept_step (h : Held trace s) (hs : Step s label s') {lease : ManagedLease}
    (hi : s'.heap[i]? = some lease) (hopen : s'.succeeded i = false)
    (henrolled : Enrolled (trace ++ [label]) i) : s'.manager.leases.get lease.key = some i := by
  have hev := step_evolves hs
  have hopen' : s.succeeded i = false := by
    cases hsucc : s.succeeded i with
    | false => rfl
    | true => exact absurd (hev.succeeded hsucc) (by simp [hopen])
  -- its slot before the step, if it had one
  have hold : Enrolled trace i → s.manager.leases.get lease.key = some i := by
    intro he
    obtain ⟨old, hold⟩ := h.there i he
    obtain ⟨lease', labels, hi', hkey, -, -⟩ := hev.goes i old hold
    obtain rfl : lease = lease' := Option.some.inj (hi.symm.trans hi')
    rw [hkey]
    exact h.kept i old he hold hopen'
  rcases List.mem_append.1 henrolled with he | he
  · cases step_moved h.grown hs with
    | pruned _ _ _ hp => exact hp.keeps _ _ (hold he) hopen'
    | @registered j lease' leases _ _ _ hfree hp _ hset =>
      rw [hset, Dict.get_set]
      by_cases hkey : lease'.key = lease.key
      · have hsucc := hfree i (by rw [hkey]; exact hold he)
        rw [hopen'] at hsucc
        cases hsucc
      · rw [if_neg hkey]
        exact hp.keeps _ _ (hold he) hopen'
    | called _ _ hl => rw [hl]; exact hold he
    | waited _ hm => rw [hm]; exact hold he
  · obtain rfl := List.mem_singleton.1 he
    cases step_moved h.grown hs with
    | pruned hno => exact absurd rfl (hno i)
    | @registered j lease' leases _ _ hj _ _ _ hset =>
      obtain ⟨x, labels, hx, hkey, -, -⟩ := hev.goes i lease' hj
      obtain rfl : lease = x := Option.some.inj (hi.symm.trans hx)
      rw [hset, hkey]
      exact Dict.get_set_self
    | called hno => exact absurd rfl (hno i)
    | waited _ _ _ _ he => rcases he with he | he <;> cases he

theorem Held.closed_step (h : Held trace s) (hs : Step s label s') {out : PoolOutput}
    (hmem : (.closes, out) ∈ trace ++ [label]) : s'.manager.closed = true := by
  have hold : (.closes, out) ∈ trace → s.manager.closed = true := h.closed out
  rcases List.mem_append.1 hmem with he | he
  · cases step_moved h.grown hs with
    | pruned _ _ _ _ _ hclosed => exact hclosed.trans (hold he)
    | registered _ _ _ _ _ _ _ hclosed => exact hclosed.trans (hold he)
    | called _ _ _ _ hclosed => exact hclosed (.inl (hold he))
    | waited _ hm => rw [hm]; exact hold he
  · obtain rfl := List.mem_singleton.1 he
    cases step_moved h.grown hs with
    | pruned _ hcovers => exact absurd trivial (hcovers [])
    | called _ _ _ _ hclosed => exact hclosed (.inr rfl)
    | waited _ _ _ _ he => rcases he with he | he <;> cases he

theorem Held.step (h : Held trace s) (hs : Step s label s') : Held (trace ++ [label]) s' := by
  have hev := step_evolves hs
  refine ⟨fun i lease hi => ?_, h.child_step hs, ?_, fun i he => ?_,
    fun i lease he hi hopen => h.kept_step hs hi hopen he, fun out hmem => h.closed_step hs hmem⟩
  · rcases hev.born i lease hi with ⟨old, hold⟩ | hgrown
    · obtain ⟨lease', labels, hi', -, hrun, -⟩ := hev.goes i old hold
      obtain rfl : lease = lease' := Option.some.inj (hi.symm.trans hi')
      exact (h.grown i old hold).run hrun
    · exact hgrown
  · cases step_moved h.grown hs with
    | pruned _ _ _ hp hmax => exact hmax ▸ Nat.le_trans hp.length h.length
    | registered _ _ _ _ hroom hset hmax =>
      rw [hset, hmax, Dict.length_set]
      split
      · exact Nat.le_of_lt hroom
      · exact hroom
    | called _ _ hl hmax => rw [hl, hmax]; exact h.length
    | waited _ hm => rw [hm]; exact h.length
  · rcases List.mem_append.1 he with he | he
    · obtain ⟨old, hold⟩ := h.there i he
      obtain ⟨lease', -, hi', -⟩ := hev.goes i old hold
      exact ⟨lease', hi'⟩
    · obtain rfl := List.mem_singleton.1 he
      cases step_moved h.grown hs with
      | pruned hno => exact absurd rfl (hno i)
      | registered _ hj =>
        obtain ⟨lease', -, hi', -⟩ := hev.goes i _ hj
        exact ⟨lease', hi'⟩
      | called hno => exact absurd rfl (hno i)
      | waited _ _ _ _ he => rcases he with he | he <;> cases he

theorem held_run (hfresh : s₀.Fresh) (hrun : Run s₀ trace s) : Held trace s := by
  refine hrun.history ⟨?_, ?_, ?_, ?_, ?_, ?_⟩ fun _ _ _ _ _ hi hs => hi.step hs
  · simp [hfresh.heap]
  · simp [hfresh.calls]
  · simp [hfresh.leases]
  · simp [Enrolled]
  · simp [Enrolled]
  · simp

/-- A task of `_release_all` that is done: its lease is released, and it came to what the
    cleanup came to. -/
theorem childResult_spec {t : ℕ} {lease : ManagedLease} {r : Released}
    (hi : s.heap[i]? = some lease) (hchild : Lifecycle.Child t lease.lifecycle)
    (hr : s.childResult (i, t) = some r) :
    ∃ x first c, lease.lifecycle.cleanup = some x ∧ r = (x.map fun _ => first).after c := by
  obtain ⟨-, task, reason, ht, -, hprog⟩ := hchild
  have hlife : s.lifecycle i = some lease.lifecycle := lifecycle_eq_some.2 ⟨lease, hi, rfl⟩
  simp only [childResult, hlife, Option.bind_some, ht] at hr
  split at hr
  · rename_i result hstate
    cases hr
    cases hprog with
    | created hst => cases hst.symm.trans (congrArg OwnedTask.state (Option.some.inj hstate))
    | waiting _ hst => cases hst.symm.trans (congrArg OwnedTask.state (Option.some.inj hstate))
    | @ended x first c hc hst =>
      have h := hst.symm.trans (congrArg OwnedTask.state (Option.some.inj hstate))
      cases h
      exact ⟨x, first, c, hc, rfl⟩
  · cases hr

/-- The lease is owned, and the call that `label` makes is about it. -/
structure About (s₀ : LeasePool) (before : List PoolLabel) (m : LeasePool) (label : PoolLabel)
    (m' : LeasePool) (i : ℕ) : Prop where
  run : Run s₀ before m
  step : Step m label m'
  enrolled : Enrolled before i
  owned : m.succeeded i = false
  covers : ∃ lease, m.heap[i]? = some lease ∧ Covers label.1 lease.deviceId

/-- The call `k` has a task for the lease. -/
def HasChild (s : LeasePool) (k i t : ℕ) : Prop := ∃ call ∈ s.calls[k]?, (i, t) ∈ call.children

theorem About.child {before : List PoolLabel} {m m' : LeasePool} (hfresh : s₀.Fresh)
    (h : About s₀ before m label m' i) : label.2 = .done ∧ ∃ t, m'.HasChild m.calls.length i t := by
  have hheld := held_run hfresh h.run
  obtain ⟨lease, hi, hcovers⟩ := h.covers
  have hslot := hheld.kept i lease h.enrolled hi h.owned
  cases step_moved hheld.grown h.step with
  | pruned _ hno => exact absurd hcovers (hno _)
  | registered => exact hcovers.elim
  | @called e out call _ _ _ _ _ _ hc hall _ hout =>
    obtain ⟨t, ht⟩ := hall _ i hslot h.owned hcovers ⟨lease, hi⟩
    refine ⟨hout.resolve_right (List.ne_nil_of_mem ht), t, call, ?_, ht⟩
    rw [hc]
    simp
  | waited _ _ _ _ he =>
    rcases he with rfl | rfl
    · exact hcovers.elim
    · exact hcovers.elim

theorem HasChild.step {k t : ℕ} (h : s.HasChild k i t) (hheld : Held trace s) (hs : Step s label s') :
    s'.HasChild k i t := by
  obtain ⟨call, hk, hmem⟩ := h
  cases step_moved hheld.grown hs with
  | pruned _ _ _ _ _ _ hc => exact ⟨call, by rw [hc]; exact hk, hmem⟩
  | registered _ _ _ _ _ _ _ _ hc => exact ⟨call, by rw [hc]; exact hk, hmem⟩
  | called _ _ _ _ _ hc =>
    refine ⟨call, ?_, hmem⟩
    rw [hc, List.getElem?_append_left (List.getElem?_eq_some_iff.1 hk).1]
    exact hk
  | @waited j old new _ _ _ hj _ hc hsame =>
    by_cases hjk : j = k
    · subst hjk
      obtain rfl : call = old := Option.some.inj (Eq.trans (Eq.symm hk) hj)
      refine ⟨new, ?_, by rw [hsame]; exact hmem⟩
      rw [hc, List.getElem?_set_self (List.getElem?_eq_some_iff.1 hk).1]
      rfl
    · refine ⟨call, ?_, hmem⟩
      rw [hc, List.getElem?_set_ne hjk]
      exact hk

/-- A task of a call goes on until it is done, along a run. -/
theorem child_run {k t : ℕ} (hfresh : s₀.Fresh) {before since : List PoolLabel} {m : LeasePool}
    (hm : Run s₀ before m) (h : m.HasChild k i t) (hrun : Run m since s) : s.HasChild k i t ∧
    ∃ lease : ManagedLease, s.heap[i]? = some lease ∧ Lifecycle.Child t lease.lifecycle := by
  have hinv : (∃ trace, Held trace s) ∧ s.HasChild k i t := by
    refine hrun.invariant (I := fun s => (∃ trace, Held trace s) ∧ s.HasChild k i t) ?_
      ⟨⟨before, held_run hfresh hm⟩, h⟩
    rintro n label n' ⟨⟨trace', hheld⟩, h⟩ hs
    exact ⟨⟨_, hheld.step hs⟩, h.step hheld hs⟩
  obtain ⟨⟨trace', hheld⟩, call, hk, hmem⟩ := hinv
  exact ⟨⟨call, hk, hmem⟩, hheld.child call (List.mem_of_getElem? hk) (i, t) hmem⟩

theorem maxLeases_run (hfresh : s₀.Fresh) (hrun : Run s₀ trace s) :
    s.manager.maxLeases = s₀.manager.maxLeases := by
  refine (hrun.history (I := fun trace s => Held trace s ∧ s.manager.maxLeases = s₀.manager.maxLeases)
    ⟨held_run hfresh .nil, rfl⟩ fun _ _ _ _ _ hi hs => ⟨hi.1.step hs, ?_⟩).2
  cases step_moved hi.1.grown hs with
  | pruned _ _ _ _ hmax => exact hmax.trans hi.2
  | registered _ _ _ _ _ _ hmax => exact hmax.trans hi.2
  | called _ _ _ hmax => exact hmax.trans hi.2
  | waited _ hm => rw [hm]; exact hi.2

/-- What holds of the registry at the end of a run. -/
structure LeasesOwned (s₀ : LeasePool) (trace : List PoolLabel) (s : LeasePool) : Prop where
  /-- a lease keeps its slot until its cleanup succeeds -/
  kept : ∀ (i : ℕ) (lease : ManagedLease), Enrolled trace i → s.heap[i]? = some lease →
    s.succeeded i = false → s.manager.leases.get lease.key = some i
  /-- there is one of them for a device and a channel -/
  one : ∀ (i j : ℕ) (lease lease' : ManagedLease), Enrolled trace i → Enrolled trace j →
    s.heap[i]? = some lease → s.heap[j]? = some lease' → s.succeeded i = false →
    s.succeeded j = false → lease.key = lease'.key → i = j
  few : ∀ is : List ℕ, is.Nodup → (∀ i ∈ is, Enrolled trace i ∧ s.succeeded i = false) →
    is.length ≤ s₀.manager.maxLeases
  /-- none is registered after `close` -/
  closed : ∀ before label after i out, trace = before ++ label :: after → (.closes, out) ∈ before →
    label ≠ (.registers i, .done)
  /-- a lease that a call is about is released, or is to be when a task runs that may run
      whatever else happens -/
  fenced : ∀ before label after m m' i, trace = before ++ label :: after →
    About s₀ before m label m' i → Run m' after s →
    label.2 = .done ∧ (s.released i = true ∨ ∃ t, s.Enabled (.lease i (.runs t)) ∧
      (s.perform (.lease i (.runs t))).1.released i = true)
  /-- when the call ends, all are released; it returns only where each cleanup succeeded, and
      raises what one of them raised -/
  ended : ∀ before label since last after m m' n n' i result,
    trace = (before ++ label :: since) ++ last :: after → About s₀ before m label m' i →
    Run m' since n → Step n last n' → last = (.resumes m.calls.length, .released result) →
    n.released i = true ∧ (∀ b, result = .returned b → n.succeeded i = true) ∧
    ∀ (lease : ManagedLease) e, n.heap[i]? = some lease → lease.lifecycle.cleanup = some (.raised e) →
      ∃ e', result = .raised e'

theorem Held.few (h : Held trace s) {is : List ℕ} (hnodup : is.Nodup)
    (his : ∀ i ∈ is, Enrolled trace i ∧ s.succeeded i = false) : is.length ≤ s.manager.maxLeases := by
  have hsub : is ⊆ s.manager.leases.map (·.2) := by
    intro i hi
    obtain ⟨he, hopen⟩ := his i hi
    obtain ⟨lease, hlease⟩ := h.there i he
    exact List.mem_map.2 ⟨_, Dict.get_mem (h.kept i lease he hlease hopen), rfl⟩
  have hlen := (hnodup.subperm hsub).length_le
  rw [List.length_map] at hlen
  exact Nat.le_trans hlen h.length

theorem released_iff {lease : ManagedLease} (hi : s.heap[i]? = some lease) :
    s.released i = lease.lifecycle.released := by
  simp [released, hi]

/-- The task of a call is enough to release its lease. -/
theorem child_fences {t : ℕ} {lease : ManagedLease} (hgrown : Grown lease.lifecycle)
    (hi : s.heap[i]? = some lease) (hchild : Lifecycle.Child t lease.lifecycle) :
    s.released i = true ∨ s.Enabled (.lease i (.runs t)) ∧
      (s.perform (.lease i (.runs t))).1.released i = true := by
  obtain ⟨labels, ha⟩ := hgrown.agrees
  have hlife : s.lifecycle i = some lease.lifecycle := lifecycle_eq_some.2 ⟨lease, hi, rfl⟩
  rcases hchild.fences ha.released with h | ⟨hen, h⟩
  · exact .inl ((released_iff hi).trans h)
  · refine .inr ⟨⟨⟨lease.lifecycle, hlife, hen⟩, by simp [Spares]⟩, ?_⟩
    have hperform : (s.perform (.lease i (.runs t))).1 =
        s.withLifecycle i (lease.lifecycle.perform (.runs t)).1 := by
      simp only [perform, performLease, hlife]
    have hget : (s.withLifecycle i (lease.lifecycle.perform (.runs t)).1).heap[i]? =
        some { lease with lifecycle := (lease.lifecycle.perform (.runs t)).1 } := by
      simp [withLifecycle, hi]
    rw [hperform, released_iff hget]
    exact h

theorem gathered_spec {t : ℕ} {x : Released} {call : ReleaseAll} (h : (i, t) ∈ call.children)
    (hx : s.gathered call.children = some x) : ∃ r xs, s.childResult (i, t) = some r ∧ r ∈ xs ∧
      x = settle anyFirst xs := by
  unfold gathered at hx
  split at hx
  · rename_i hall
    obtain ⟨r, hr⟩ := Option.isSome_iff_exists.1 (List.all_eq_true.1 hall (i, t) h)
    exact ⟨r, _, hr, List.mem_filterMap.2 ⟨(i, t), h, hr⟩, (Option.some.inj hx).symm⟩
  · cases hx

/-- **A lease is owned until its cleanup succeeds**, and what releases many of them releases
    each. -/
theorem leases_owned (hfresh : s₀.Fresh) (hrun : Run s₀ trace s) : LeasesOwned s₀ trace s := by
  have hheld := held_run hfresh hrun
  refine ⟨hheld.kept, ?_, ?_, ?_, ?_, ?_⟩
  · intro i j lease lease' hi hj hlease hlease' hopen hopen' hkey
    have h1 := hheld.kept i lease hi hlease hopen
    have h2 := hheld.kept j lease' hj hlease' hopen'
    rw [hkey] at h1
    exact Option.some.inj (h1.symm.trans h2)
  · intro is hnodup his
    rw [← maxLeases_run hfresh hrun]
    exact hheld.few hnodup his
  · rintro before label after i out rfl hclose rfl
    obtain ⟨m, hm, hrest⟩ := hrun.split
    have hclosed := (held_run hfresh hm).closed out hclose
    cases hrest with
    | cons hs _ =>
      cases step_moved (held_run hfresh hm).grown hs with
      | pruned hno => exact hno i rfl
      | registered hopen =>
        rw [hclosed] at hopen
        cases hopen
      | called hno => exact hno i rfl
      | waited _ _ _ _ he => rcases he with he | he <;> cases he
  · intro before label after m m' i htrace habout hafter
    obtain ⟨hdone, t, ht⟩ := habout.child hfresh
    refine ⟨hdone, ?_⟩
    obtain ⟨-, lease, hi, hchild⟩ := child_run hfresh (habout.run.snoc habout.step) ht hafter
    exact (child_fences (hheld.grown i lease hi) hi hchild).imp_right fun h => ⟨t, h⟩
  · rintro before label since last after m m' n n' i result htrace habout hsince hs rfl
    obtain ⟨-, t, ht⟩ := habout.child hfresh
    have hm' := habout.run.snoc habout.step
    have hn := held_run hfresh (hm'.append hsince)
    obtain ⟨⟨call, hk, hmem⟩, lease, hi, hchild⟩ := child_run hfresh hm' ht hsince
    have hagrees := (hn.grown i lease hi).agrees
    obtain ⟨labels, ha⟩ := hagrees
    cases step_moved hn.grown hs with
    | pruned _ _ hno => exact absurd rfl (hno _ _)
    | called _ hno => exact absurd rfl (hno _)
    | @waited k old new _ _ _ hold _ _ _ he hout =>
      obtain rfl : m.calls.length = k := by
        rcases he with he | he
        · cases he
        · cases he
          rfl
      obtain rfl : call = old := Option.some.inj (Eq.trans (Eq.symm hk) hold)
      obtain ⟨x, c, hx, rfl⟩ := hout result rfl
      obtain ⟨r, xs, hr, hrmem, rfl⟩ := gathered_spec hmem hx
      obtain ⟨y, first, c', hcleanup, rfl⟩ := childResult_spec hi hchild hr
      refine ⟨?_, fun b hb => ?_, fun lease' e hlease' hraised => ?_⟩
      · rw [released_iff hi, ha.released]
        exact Lifecycle.cleanup_releaseTask hcleanup
      · obtain ⟨a, ha'⟩ := settle_returned (after_returned.1 hb).1 _ hrmem
        obtain ⟨⟨⟩, rfl, -⟩ := map_returned.1 (after_returned.1 ha').1
        rw [succeeded_iff hi]
        exact ha.succeeded.2 (Lifecycle.cleanup_phase.1 hcleanup)
      · obtain rfl : lease = lease' := Option.some.inj (hi.symm.trans hlease')
        obtain rfl : y = .raised e := Option.some.inj (hcleanup.symm.trans hraised)
        obtain ⟨e', he'⟩ := settle_raised (f := anyFirst).2 ⟨e, hrmem⟩
        exact ⟨e', after_raised.2 he'⟩

/-- Two leases of a device are released at once; one cleanup fails, and the caller is
    cancelled. -/
def deviceReleaseRun : List PoolEvent :=
  [.creates [100] [1] true, .creates [100] [2] true, .registers 0, .registers 1,
    .creates [101] [1] true, .registers 2, .releasesDevice [100] "device_revoked", .cancels 0, .resumes 0,
    .lease 0 (.runs 2), .lease 0 .cleansUp, .lease 0 (.ends 0), .lease 0 (.ends 1), .lease 0 .joins,
    .lease 0 .websocketCloses, .lease 0 (.controllerCloses (.raised ())), .lease 0 (.resumes 2),
    .lease 1 (.runs 2), .lease 1 .cleansUp, .lease 1 (.ends 0), .lease 1 (.ends 1), .lease 1 .joins,
    .lease 1 .websocketCloses, .lease 1 (.controllerCloses (.returned ())), .lease 1 (.resumes 2),
    .resumes 0, .closes, .registers 2]

def deviceReleasePool : LeasePool := { manager := { maxLeases := 2, positive := by decide } }

theorem deviceReleaseRun_executes : (execution Enabled perform deviceReleasePool deviceReleaseRun).any
    (fun r => decide (r.1.activeCount = 1 ∧ Enrolled r.2 0 ∧ r.1.succeeded 0 = false ∧
      (r.2.filter (·.2 matches .raised _)).map (·.1) = [.registers 2, .registers 2] ∧
      r.2.any (· matches (.resumes 0, .released (.raised _))))) = true := by decide

theorem leases_owned_failure : ∃ trace s, Run deviceReleasePool trace s ∧ s.activeCount = 1 ∧
    Enrolled trace 0 ∧ s.succeeded 0 = false ∧
    (trace.filter (·.2 matches .raised _)).map (·.1) = [.registers 2, .registers 2] ∧
    trace.any (· matches (.resumes 0, .released (.raised _))) ∧
    LeasesOwned deviceReleasePool trace s := by
  obtain ⟨r, hr, h⟩ := (Option.any_eq_true _ _).1 deviceReleaseRun_executes
  obtain ⟨h1, h2, h3, h4, h5⟩ := of_decide_eq_true h
  have hrun : Run deviceReleasePool r.2 r.1 := run_of_execution hr
  exact ⟨r.2, r.1, hrun, h1, h2, h3, h4, h5, leases_owned ⟨rfl, rfl, rfl, rfl⟩ hrun⟩

end Runs

end LeasePool

end MercuryRelay
