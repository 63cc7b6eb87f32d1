/-
  The runtime: the registry of controllers, and the calls that open and close
  them (runtime.py, `RelayRuntime`).

  A call runs from one await to the next.  Calls and bridges are known by
  number, in the order they are made.
-/
import Mathlib.Data.List.Nodup
import MercuryRelay.Lib.Run
import MercuryRelay.Python.Dict
import MercuryRelay.Python.Text

set_option autoImplicit false

namespace MercuryRelay

open Python Transition

inductive RuntimeState where
  | stopped | ready | unsupportedHermesContract | closing
  deriving DecidableEq

/-- A call of `bridge.close()`: it runs, with its cancellation requested or not,
    and ends on its own or after that. -/
inductive CloseRun where
  | running | cancelling | completed | cancelled
  deriving DecidableEq

def CloseRun.isEnded : CloseRun → Bool
  | .completed | .cancelled => true
  | _ => false

def CloseRun.cancel : CloseRun → CloseRun
  | .running => .cancelling
  | run => run

def CloseRun.finish : CloseRun → CloseRun
  | .running => .completed
  | .cancelling => .cancelled
  | run => run

/-- The calls of `close` on a bridge. -/
abbrev Bridge := List CloseRun

inductive RuntimeCallKind where
  | start
  | openController
  | closeController (controllerId : Str)
  | close
  deriving DecidableEq

/-- How a call ends. -/
inductive RuntimeResult where
  | returned
  | handle (controllerId : Str) (bridge : ℕ)
  | found (found : Bool)
  | unavailable (reason : String)
  | limitReached
  | profileNotAvailable
  | idUnavailable
  /-- what the bridge raised -/
  | bridgeFailed
  | cancelled
  deriving DecidableEq

/-- Where a call waits. -/
inductive RuntimePhase where
  /-- for the lock -/
  | locking
  /-- for `bridge.start()`, with the lock -/
  | starting (controllerId : Str) (bridge : ℕ)
  /-- for the cleanup, behind the shield; `requested` is its own cancellation -/
  | shielded (requested : Bool)
  /-- for the cleanup, after it was cancelled, without a shield -/
  | joining
  /-- `close` for the lock again -/
  | relocking (cancelled : Bool)
  | ended (result : RuntimeResult)
  deriving DecidableEq

structure RuntimeCall where
  kind : RuntimeCallKind
  phase : RuntimePhase := .locking
  /-- the bridge that an open started -/
  started : Option ℕ := none
  /-- the bridges that it closes -/
  bridges : List ℕ := []
  deriving DecidableEq

structure Runtime where
  maxControllers : ℕ
  state : RuntimeState := .stopped
  controllers : Dict Str ℕ := []
  bridges : List Bridge := []
  calls : List RuntimeCall := []
  /-- an open that waits with the lock -/
  lock : Option ℕ := none
  deriving DecidableEq

/-- What a call meets once it has the lock: what the probe, the authorizer, the
    identifiers and the bridge factory give. -/
structure RuntimeEnv where
  supported : Bool := true
  profileAvailable : Bool := true
  candidates : List Str := []
  bridgeMade : Bool := true

inductive RuntimeEvent where
  | call (kind : RuntimeCallKind)
  /-- a call gets the lock -/
  | enter (k : ℕ) (env : RuntimeEnv)
  /-- `bridge.start()` ended, well or not -/
  | started (k : ℕ) (ok : Bool)
  /-- the `close()` of a bridge ended -/
  | closed (b : ℕ)
  /-- a call whose cancellation is due, or whose cleanup is done, goes on -/
  | resume (k : ℕ)
  | cancel (k : ℕ)

namespace Runtime

variable (s : Runtime)

def modifyCall (k : ℕ) (f : RuntimeCall → RuntimeCall) : Runtime :=
  { s with calls := s.calls.modify k f }

/-- The call ends. -/
def finish (k : ℕ) (result : RuntimeResult) : Runtime :=
  s.modifyCall k fun call => { call with phase := .ended result }

/-- `_close_bridges` up to its first await. -/
def closeBridges (k : ℕ) (bs : List ℕ) : Runtime :=
  { s with bridges := s.bridges.mapIdx fun b closes => closes ++ List.replicate (bs.count b) CloseRun.running }
    |>.modifyCall k fun call => { call with bridges := bs, phase := .shielded false }

/-- The cleanup is done. -/
def Cleaned (call : RuntimeCall) : Prop :=
  ∀ b ∈ call.bridges, ∀ closes, s.bridges[b]? = some closes → ∀ run ∈ closes, run.isEnded = true

instance (call : RuntimeCall) : Decidable (s.Cleaned call) := by
  unfold Cleaned
  exact List.decidableBAll _ _

/-- `_new_controller_id`. -/
def newControllerId (candidates : List Str) : Option Str :=
  (candidates.take 8).find? fun id =>
    1 ≤ id.length && id.length ≤ 128 && (s.controllers.get id).isNone

/-- `open_controller` up to `await bridge.start()`. -/
def enterOpen (k : ℕ) (env : RuntimeEnv) : Runtime :=
  if s.state ≠ .ready then s.finish k (.unavailable "runtime_not_ready")
  else if s.maxControllers ≤ s.controllers.length then s.finish k .limitReached
  else if ¬ env.profileAvailable then s.finish k .profileNotAvailable
  else
    match s.newControllerId env.candidates with
    | none => s.finish k .idUnavailable
    | some id =>
      if ¬ env.bridgeMade then s.finish k .bridgeFailed
      else
        { s with bridges := s.bridges ++ [[]], lock := some k }
          |>.modifyCall k fun call =>
            { call with phase := .starting id s.bridges.length, started := some s.bridges.length }

/-- `start`. -/
def enterStart (k : ℕ) (env : RuntimeEnv) : Runtime :=
  match s.state with
  | .ready | .unsupportedHermesContract => s.finish k .returned
  | .closing => s.finish k (.unavailable "runtime_closing")
  | .stopped =>
    { s with state := if env.supported then .ready else .unsupportedHermesContract }
      |>.finish k .returned

/-- `close_controller`: the handle leaves the registry. -/
def enterCloseController (k : ℕ) (id : Str) : Runtime :=
  match s.controllers.get id with
  | none => s.finish k (.found false)
  | some b => { s with controllers := s.controllers.remove id } |>.closeBridges k [b]

/-- `close`: all handles leave the registry. -/
def enterClose (k : ℕ) : Runtime :=
  if s.state = .stopped ∧ s.controllers = [] then s.finish k .returned
  else
    let bs := s.controllers.map (·.2)
    let s := { s with state := .closing, controllers := [] }
    if bs = [] then s.modifyCall k fun call => { call with phase := .relocking false }
    else s.closeBridges k bs

/-- A call gets the lock. -/
def enter (k : ℕ) (env : RuntimeEnv) (call : RuntimeCall) : Runtime :=
  match call.phase, call.kind with
  | .locking, .start => s.enterStart k env
  | .locking, .openController => s.enterOpen k env
  | .locking, .closeController id => s.enterCloseController k id
  | .locking, .close => s.enterClose k
  | .relocking cancelled, _ =>
    { s with state := .stopped } |>.finish k (if cancelled then .cancelled else .returned)
  | _, _ => s

/-- `bridge.start()` ended. -/
def started (k : ℕ) (ok : Bool) (call : RuntimeCall) : Runtime :=
  match call.phase with
  | .starting id b =>
    if ok then
      { s with controllers := s.controllers.set id b, lock := none } |>.finish k (.handle id b)
    else s.closeBridges k [b]
  | _ => s

/-- `_close_bridges` is over; an open raises what its bridge raised, or its
    cancellation. -/
def afterCleanup (k : ℕ) (cancelled : Bool) (call : RuntimeCall) : Runtime :=
  match call.kind with
  | .openController =>
    { s with lock := none } |>.finish k (if cancelled then .cancelled else .bridgeFailed)
  | .close => s.modifyCall k fun call => { call with phase := .relocking cancelled }
  | _ => s.finish k (if cancelled then .cancelled else .found true)

def resume (k : ℕ) (call : RuntimeCall) : Runtime :=
  match call.phase with
  | .shielded true => s.modifyCall k fun call => { call with phase := .joining }
  | .shielded false => s.afterCleanup k false call
  | .joining => s.afterCleanup k true call
  | _ => s

/-- `task.cancel()`: `bridge.start()` deals with it as it likes, the shield holds
    it off, and without the shield it goes on to the cleanup. -/
def cancel (k : ℕ) (call : RuntimeCall) : Runtime :=
  match call.phase with
  | .locking | .relocking _ => s.finish k .cancelled
  | .shielded _ => s.modifyCall k fun call => { call with phase := .shielded true }
  | .joining =>
    { s with bridges := s.bridges.mapIdx fun b closes =>
        if b ∈ call.bridges then closes.map (·.cancel) else closes }
  | .starting _ _ | .ended _ => s

def perform : RuntimeEvent → Runtime
  | .call kind => { s with calls := s.calls ++ [{ kind := kind }] }
  | .enter k env => (s.calls[k]?.map (s.enter k env)).getD s
  | .started k ok => (s.calls[k]?.map (s.started k ok)).getD s
  | .closed b => { s with bridges := s.bridges.modify b (·.map (·.finish)) }
  | .resume k => (s.calls[k]?.map (s.resume k)).getD s
  | .cancel k => (s.calls[k]?.map (s.cancel k)).getD s

/-- A call waits for the lock. -/
def waitsForLock (call : RuntimeCall) : Bool :=
  match call.phase with
  | .locking | .relocking _ => true
  | _ => false

def isStarting (call : RuntimeCall) : Bool :=
  match call.phase with
  | .starting _ _ => true
  | _ => false

/-- The call may go on. -/
def Resumable (call : RuntimeCall) : Prop :=
  match call.phase with
  | .shielded true => True
  | .shielded false | .joining => s.Cleaned call
  | _ => False

instance (call : RuntimeCall) : Decidable (s.Resumable call) := by
  unfold Resumable
  split <;> infer_instance

def Enabled : RuntimeEvent → Prop
  | .call _ => True
  | .enter k _ => s.lock = none ∧ s.calls[k]?.any waitsForLock = true
  | .started k _ => s.calls[k]?.any isStarting = true
  | .closed b => b < s.bridges.length
  | .resume k => ∃ call ∈ s.calls[k]?, s.Resumable call
  | .cancel k => k < s.calls.length

instance (e : RuntimeEvent) : Decidable (s.Enabled e) := by
  cases e <;> unfold Enabled <;> infer_instance

def Step (s : Runtime) (e : RuntimeEvent) (t : Runtime) : Prop := s.Enabled e ∧ t = s.perform e

/-! ## What is claimed, and when -/

/-- A call of `close` that has emptied the registry and has not ended. -/
def isClosing (call : RuntimeCall) : Bool :=
  call.kind = .close &&
    match call.phase with
    | .shielded _ | .joining | .relocking _ => true
    | _ => false

/-- Nothing is registered, and the runtime is stopped. -/
def IsStopped : Prop := s.state = .stopped ∧ s.controllers = []

instance : Decidable s.IsStopped := by unfold IsStopped; infer_instance

/-- What an event may not do: cancel a call again that waits for a cleanup which
    is not done; cancel a `close` that waits for the lock, unless there is nothing
    to close; register a controller while a `close` that has emptied the registry
    has not ended. -/
def Harmless : RuntimeEvent → Prop
  | .cancel k => ∀ call ∈ s.calls[k]?,
      (call.phase = .joining → s.Cleaned call) ∧
      (call.kind = .close → waitsForLock call = true → s.IsStopped)
  | .started _ ok => ok = true → ∀ call ∈ s.calls, isClosing call = false
  | _ => True

instance (e : RuntimeEvent) : Decidable (s.Harmless e) := by
  cases e <;> unfold Harmless <;> infer_instance

/-- The bridge had `close` called on it once, and that ran to its end. -/
def ClosedOnce (b : ℕ) : Prop := s.bridges[b]? = some [.completed]

/-- A call ended, with anything but a handle. -/
def endedWithout (call : RuntimeCall) : Bool :=
  match call.phase with
  | .ended (.handle _ _) => false
  | .ended _ => true
  | _ => false

/-- What holds of a runtime at every moment. -/
structure Safe : Prop where
  /-- the registry is bounded -/
  bounded : s.controllers.length ≤ s.maxControllers
  /-- `close` is called once at most, and is not cancelled -/
  once : ∀ bridge ∈ s.bridges, bridge = [] ∨ bridge = [.running] ∨ bridge = [.completed]
  /-- an open that gave no handle has closed the bridge that it started -/
  opens : ∀ call ∈ s.calls, call.kind = .openController → endedWithout call = true →
    ∀ b ∈ call.started, s.ClosedOnce b
  /-- a call that closes handles has closed their bridges when it ends -/
  closes : ∀ call ∈ s.calls, endedWithout call = true → ∀ b ∈ call.bridges, s.ClosedOnce b

/-- What holds of a step: a handle leaves the registry only to have its bridge
    closed, and a `close` that ends leaves nothing registered and the runtime
    stopped. -/
structure SafeStep (t : Runtime) : Prop where
  released : ∀ item ∈ s.controllers, item ∉ t.controllers → ∃ call ∈ t.calls, item.2 ∈ call.bridges
  stopped : ∀ (k : ℕ) (call call' : RuntimeCall), s.calls[k]? = some call → call.kind = .close →
    t.calls[k]? = some call' →
    (∀ r, call.phase ≠ .ended r) → (∃ r, call'.phase = .ended r) → t.IsStopped

/-! ## The invariant -/

/-- The call has the lock while it waits. -/
def holdsLock (call : RuntimeCall) : Bool :=
  call.kind = .openController &&
    match call.phase with
    | .starting _ _ | .shielded _ | .joining => true
    | _ => false

/-- `close` was called on the bridge once, and runs or has ended. -/
def ClosedBy (b : ℕ) : Prop := s.bridges[b]? = some [.running] ∨ s.ClosedOnce b

/-- An open closes the bridge that it started. -/
def Owns (call : RuntimeCall) : Prop := call.kind = .openController → ∀ b ∈ call.started, b ∈ call.bridges

/-- What a call has, by where it waits. -/
def PhaseKept (call : RuntimeCall) : Prop :=
  match call.phase with
  | .locking => call.started = none ∧ call.bridges = []
  | .starting id b => call.kind = .openController ∧ call.started = some b ∧ call.bridges = [] ∧
      s.bridges[b]? = some [] ∧ b ∉ s.controllers.map (·.2) ∧ s.controllers.length < s.maxControllers ∧
      s.controllers.get id = none
  | .shielded _ | .joining => (∀ b ∈ call.bridges, s.ClosedBy b) ∧ Owns call
  | .relocking _ => call.kind = .close ∧ ∀ b ∈ call.bridges, s.ClosedOnce b
  | .ended (.handle _ _) => True
  | .ended _ => (∀ b ∈ call.bridges, s.ClosedOnce b) ∧ Owns call

structure CallKept (k : ℕ) (call : RuntimeCall) : Prop where
  phase : s.PhaseKept call
  lock : holdsLock call = true → s.lock = some k

/-- What every harmless event keeps. -/
structure Kept : Prop where
  calls : ∀ (k : ℕ) (call : RuntimeCall), s.calls[k]? = some call → s.CallKept k call
  bounded : s.controllers.length ≤ s.maxControllers
  once : ∀ bridge ∈ s.bridges, bridge = [] ∨ bridge = [.running] ∨ bridge = [.completed]
  registered : ∀ item ∈ s.controllers, s.bridges[item.2]? = some []
  distinct : (s.controllers.map (·.2)).Nodup
  keyed : Dict.Keyed s.controllers
  closing : ∀ call ∈ s.calls, isClosing call = true → s.controllers = []

/-- Calls of `close` go on, none is cancelled. -/
def Progress (t : Runtime) : Prop :=
  ∀ b, (s.ClosedBy b → t.ClosedBy b) ∧ (s.ClosedOnce b → t.ClosedOnce b)

/-- What an open relies on that starts a bridge. -/
def StartsOn (t : Runtime) : Prop :=
  t.controllers = s.controllers ∧ t.maxControllers = s.maxControllers ∧
    ∀ b : ℕ, s.bridges[b]? = some [] → t.bridges[b]? = some []

variable {s} {t u : Runtime} {k j : ℕ} {call : RuntimeCall} {e : RuntimeEvent}

theorem Progress.refl (h : t.bridges = s.bridges) : s.Progress t := by
  intro b
  unfold ClosedBy ClosedOnce
  rw [h]
  exact ⟨id, id⟩

/-- What others do keeps what a call has. -/
theorem CallKept.transport (h : s.CallKept j call) (hprogress : s.Progress t)
    (hlock : holdsLock call = true → t.lock = some j) (hstart : isStarting call = true → s.StartsOn t) :
    t.CallKept j call := by
  refine ⟨?_, hlock⟩
  have hphase := h.phase
  unfold PhaseKept at hphase ⊢
  split at hphase
  · exact hphase
  · rename_i hp
    obtain ⟨hcontrollers, hmax, hbridges⟩ := hstart (by rw [isStarting, hp])
    obtain ⟨hkind, hst, hbs, hb, hnew, hroom, hid⟩ := hphase
    rw [hcontrollers, hmax]
    exact ⟨hkind, hst, hbs, hbridges _ hb, hnew, hroom, hid⟩
  · exact ⟨fun b hb => (hprogress b).1 (hphase.1 b hb), hphase.2⟩
  · exact ⟨fun b hb => (hprogress b).1 (hphase.1 b hb), hphase.2⟩
  · exact ⟨hphase.1, fun b hb => (hprogress b).2 (hphase.2 b hb)⟩
  · trivial
  · exact ⟨fun b hb => (hprogress b).2 (hphase.1 b hb), hphase.2⟩

/-- A call of `k` that waits anew, in a runtime where the others find what they
    rely on. -/
theorem Kept.modify (h : s.Kept) {f : RuntimeCall → RuntimeCall} (hcall : s.calls[k]? = some call)
    (hcalls : u.calls = s.calls) (hprogress : s.Progress u)
    (hothers : ∀ (j : ℕ) (other : RuntimeCall), j ≠ k → s.calls[j]? = some other →
      (holdsLock other = true → u.lock = some j) ∧ (isStarting other = true → s.StartsOn u))
    (hself : (u.modifyCall k f).CallKept k (f call)) (hbounded : u.controllers.length ≤ u.maxControllers)
    (honce : ∀ bridge ∈ u.bridges, bridge = [] ∨ bridge = [.running] ∨ bridge = [.completed])
    (hregistered : ∀ item ∈ u.controllers, u.bridges[item.2]? = some [])
    (hdistinct : (u.controllers.map (·.2)).Nodup) (hkeyed : Dict.Keyed u.controllers)
    (hclosing : (∃ other ∈ s.calls, isClosing other = true) ∨ isClosing (f call) = true →
      u.controllers = []) : (u.modifyCall k f).Kept := by
  refine ⟨fun j other hj => ?_, hbounded, honce, hregistered, hdistinct, hkeyed, fun other hother hc => ?_⟩
  · rw [modifyCall, hcalls, List.getElem?_modify] at hj
    by_cases hjk : k = j
    · subst hjk
      rw [hcall] at hj
      simp only [if_true, Option.map_eq_map, Option.map_some, Option.some.injEq] at hj
      rw [← hj]
      exact hself
    · simp only [hjk, if_false, id_map'] at hj
      obtain ⟨hlock, hstart⟩ := hothers j other (Ne.symm hjk) hj
      exact (h.calls j other hj).transport (t := u.modifyCall k f) hprogress hlock hstart
  · have hmem : other ∈ s.calls.modify k f := by
      rw [← hcalls]
      exact hother
    obtain ⟨i, hi, rfl⟩ := List.mem_iff_getElem.1 hmem
    rw [List.length_modify] at hi
    rw [List.getElem_modify] at hc
    split at hc
    · rename_i hik
      subst hik
      rw [List.getElem?_eq_getElem hi] at hcall
      rw [Option.some.inj hcall] at hc
      exact hclosing (.inr hc)
    · exact hclosing (.inl ⟨_, List.getElem_mem hi, hc⟩)

/-! ## What each event keeps -/

theorem Kept.withState (h : s.Kept) (state : RuntimeState) : Kept { s with state := state } :=
  ⟨fun k call hk => ⟨(h.calls k call hk).phase, (h.calls k call hk).lock⟩, h.bounded, h.once, h.registered,
    h.distinct, h.keyed, h.closing⟩

/-- A call that has nothing to close ends, or waits for the lock again. -/
theorem Kept.modify_locking (h : s.Kept) (hcall : s.calls[k]? = some call) (hphase : call.phase = .locking)
    {phase : RuntimePhase} (hnext : (∃ r, phase = .ended r) ∨
      call.kind = .close ∧ s.controllers = [] ∧ ∃ c, phase = .relocking c) :
    (s.modifyCall k fun call => { call with phase := phase }).Kept := by
  have hkept := (h.calls k call hcall).phase
  rw [PhaseKept, hphase] at hkept
  refine h.modify hcall rfl (.refl rfl) (fun j other _ hj => ?_) ?_ h.bounded h.once h.registered h.distinct
    h.keyed ?_
  · exact ⟨(h.calls j other hj).lock, fun _ => ⟨rfl, rfl, fun _ hb => hb⟩⟩
  · rcases hnext with ⟨r, rfl⟩ | ⟨hkind, -, c, rfl⟩
    · refine ⟨?_, by simp [holdsLock]⟩
      cases r <;> simp [PhaseKept, hkept, Owns]
    · exact ⟨⟨hkind, by simp [hkept]⟩, by simp [holdsLock, hkind]⟩
  · rintro (⟨other, hother, hc⟩ | hself)
    · exact h.closing other hother hc
    · rcases hnext with ⟨r, rfl⟩ | ⟨-, hnil, -⟩
      · simp [isClosing] at hself
      · exact hnil

theorem closeBridges_getElem (bs : List ℕ) (b : ℕ) : (s.closeBridges k bs).bridges[b]? =
    s.bridges[b]?.map fun closes => closes ++ List.replicate (bs.count b) CloseRun.running := by
  simp [closeBridges, modifyCall, List.getElem?_mapIdx]

/-- Bridges that nobody has closed are closed. -/
theorem closeBridges_spec {bs : List ℕ} (hnodup : bs.Nodup) (hopen : ∀ b ∈ bs, s.bridges[b]? = some []) (b : ℕ) :
    (b ∈ bs → (s.closeBridges k bs).bridges[b]? = some [.running]) ∧
      (b ∉ bs → (s.closeBridges k bs).bridges[b]? = s.bridges[b]?) := by
  rw [closeBridges_getElem]
  refine ⟨fun hb => ?_, fun hb => ?_⟩
  · rw [hopen b hb, List.count_eq_one_of_mem hnodup hb]
    rfl
  · rw [List.count_eq_zero_of_not_mem hb]
    simp

theorem closeBridges_progress {bs : List ℕ} (hnodup : bs.Nodup) (hopen : ∀ b ∈ bs, s.bridges[b]? = some []) :
    s.Progress (s.closeBridges k bs) := by
  intro b
  obtain ⟨hin, hout⟩ := closeBridges_spec (k := k) hnodup hopen b
  by_cases hb : b ∈ bs
  · have hempty := hopen b hb
    constructor
    · rintro (h | h)
      · rw [hempty] at h
        cases h
      · rw [ClosedOnce, hempty] at h
        cases h
    · intro h
      rw [ClosedOnce, hempty] at h
      cases h
  · unfold ClosedBy ClosedOnce
    rw [hout hb]
    exact ⟨id, id⟩

/-- A call begins to close bridges that it took from the registry, or started;
    nobody else relies on them. -/
theorem Kept.closeBridges {bs : List ℕ} {controllers : Dict Str ℕ} (h : s.Kept)
    (hcall : s.calls[k]? = some call) (hnodup : bs.Nodup)
    (hopen : ∀ b ∈ bs, s.bridges[b]? = some []) (hsub : controllers.Sublist s.controllers)
    (hout : ∀ item ∈ controllers, item.2 ∉ bs) (howns : call.kind = .openController → ∀ b ∈ call.started, b ∈ bs)
    (hholds : call.kind = .openController → s.lock = some k)
    (hothers : ∀ (j : ℕ) (other : RuntimeCall), j ≠ k → s.calls[j]? = some other → isStarting other = false)
    (hclosing : (∃ other ∈ s.calls, isClosing other = true) ∨ call.kind = .close → controllers = []) :
    (Runtime.closeBridges { s with controllers := controllers } k bs).Kept := by
  have hspec := closeBridges_spec (s := { s with controllers := controllers }) (k := k) hnodup hopen
  refine h.modify (u := { s with
      controllers := controllers
      bridges := s.bridges.mapIdx fun b closes => closes ++ List.replicate (bs.count b) CloseRun.running })
    hcall rfl (closeBridges_progress (s := { s with controllers := controllers }) (k := k) hnodup hopen)
    (fun j other hne hj => ?_) ?_ ?_ ?_ ?_ ?_ ?_ ?_
  · refine ⟨(h.calls j other hj).lock, fun hstart => ?_⟩
    rw [hothers j other hne hj] at hstart
    cases hstart
  · refine ⟨⟨fun b hb => .inl ((hspec b).1 hb), howns⟩, fun hl => ?_⟩
    simp only [holdsLock, Bool.and_eq_true, decide_eq_true_eq] at hl
    exact hholds hl.1
  · have hlen : controllers.length ≤ s.controllers.length := hsub.length_le
    exact Nat.le_trans hlen h.bounded
  · intro bridge hbridge
    obtain ⟨b, hb⟩ := List.mem_iff_getElem?.1 hbridge
    by_cases hin : b ∈ bs
    · have hrunning := (hspec b).1 hin
      exact .inr (.inl (Option.some.inj (hb.symm.trans hrunning)))
    · have hsame := (hspec b).2 hin
      exact h.once bridge (List.mem_of_getElem? (hsame.symm.trans hb))
  · intro item hitem
    have hb := (hspec item.2).2 (hout item hitem)
    exact hb.trans (h.registered item (hsub.subset hitem))
  · exact h.distinct.sublist (hsub.map _)
  · exact List.Nodup.sublist (hsub.map _) h.keyed
  · rintro (hother | hself)
    · exact hclosing (.inl hother)
    · simp only [isClosing, Bool.and_eq_true, decide_eq_true_eq] at hself
      exact hclosing (.inr hself.1)

/-- While the lock is free, nobody starts a bridge. -/
theorem Kept.not_starting (h : s.Kept) (hlock : s.lock = none ∨ s.lock = some k) {other : RuntimeCall}
    (hne : j ≠ k) (hj : s.calls[j]? = some other) : isStarting other = false := by
  cases hphase : other.phase with
  | starting id b =>
    have hkept := (h.calls j other hj).phase
    rw [PhaseKept, hphase] at hkept
    have hholds := (h.calls j other hj).lock (by simp [holdsLock, hkept.1, hphase])
    rcases hlock with hlock | hlock
    · rw [hlock] at hholds
      cases hholds
    · rw [hlock, Option.some.injEq] at hholds
      exact absurd hholds.symm hne
  | _ => simp [isStarting, hphase]

/-- While the lock is free, no open waits with it. -/
theorem Kept.not_holding (h : s.Kept) (hlock : s.lock = none) {other : RuntimeCall}
    (hj : s.calls[j]? = some other) : holdsLock other = false := by
  by_contra hholds
  have hsome := (h.calls j other hj).lock (by simpa using hholds)
  rw [hlock] at hsome
  cases hsome

theorem newControllerId_spec {candidates : List Str} {id : Str} (hid : s.newControllerId candidates = some id) :
    s.controllers.get id = none := by
  have hfound := List.find?_some hid
  simp only [Bool.and_eq_true, Option.isNone_iff_eq_none] at hfound
  exact hfound.2

theorem kept_enterOpen (h : s.Kept) (hcall : s.calls[k]? = some call) (hphase : call.phase = .locking)
    (hkind : call.kind = .openController) (hlock : s.lock = none) (env : RuntimeEnv) :
    (s.enterOpen k env).Kept := by
  have hend : ∀ r, (s.finish k r).Kept := fun r => h.modify_locking hcall hphase (.inl ⟨r, rfl⟩)
  unfold enterOpen
  split
  · exact hend _
  · split
    · exact hend _
    · rename_i hroom
      split
      · exact hend _
      · split
        · exact hend _
        · rename_i id hid
          split
          · exact hend _
          · have hlocking := (h.calls k call hcall).phase
            rw [PhaseKept, hphase] at hlocking
            have hold : ∀ (b : ℕ) (c : Bridge), s.bridges[b]? = some c → (s.bridges ++ [[]])[b]? = some c := by
              intro b c hb
              rw [List.getElem?_append_left (List.getElem?_eq_some_iff.1 hb).1]
              exact hb
            refine h.modify (u := { s with bridges := s.bridges ++ [[]], lock := some k }) hcall rfl ?_ ?_ ?_
              h.bounded ?_ ?_ h.distinct h.keyed ?_
            · intro b
              refine ⟨?_, hold b _⟩
              rintro (hb | hb)
              · exact .inl (hold b _ hb)
              · exact .inr (hold b _ hb)
            · intro j other hne hj
              rw [h.not_holding hlock hj, h.not_starting (.inl hlock) hne hj]
              simp
            · refine ⟨⟨hkind, rfl, hlocking.2, ?_, ?_, ?_, newControllerId_spec hid⟩, fun _ => rfl⟩
              · simp [modifyCall]
              · intro hmem
                obtain ⟨item, hitem, heq⟩ := List.mem_map.1 hmem
                have hb := h.registered item hitem
                rw [heq] at hb
                simp at hb
              · exact Nat.lt_of_not_le hroom
            · intro bridge hbridge
              rcases List.mem_append.1 hbridge with hb | hb
              · exact h.once bridge hb
              · exact .inl (List.mem_singleton.1 hb)
            · exact fun item hitem => hold _ _ (h.registered item hitem)
            · rintro (⟨other, hother, hc⟩ | hself)
              · exact h.closing other hother hc
              · simp [isClosing, hkind] at hself

theorem kept_enterStart (h : s.Kept) (hcall : s.calls[k]? = some call) (hphase : call.phase = .locking)
    (env : RuntimeEnv) : (s.enterStart k env).Kept := by
  unfold enterStart
  split
  · exact h.modify_locking hcall hphase (.inl ⟨_, rfl⟩)
  · exact h.modify_locking hcall hphase (.inl ⟨_, rfl⟩)
  · exact h.modify_locking hcall hphase (.inl ⟨_, rfl⟩)
  · exact (h.withState (if env.supported then .ready else .unsupportedHermesContract)).modify_locking hcall hphase
      (.inl ⟨_, rfl⟩)

theorem kept_enterCloseController (h : s.Kept) (hcall : s.calls[k]? = some call) (hphase : call.phase = .locking)
    {id : Str} (hkind : call.kind = .closeController id) (hlock : s.lock = none) :
    (s.enterCloseController k id).Kept := by
  unfold enterCloseController
  split
  · exact h.modify_locking hcall hphase (.inl ⟨_, rfl⟩)
  · rename_i b hget
    have hmem : (id, b) ∈ s.controllers := Dict.get_mem hget
    refine h.closeBridges hcall (List.nodup_singleton b) ?_ List.filter_sublist ?_ ?_ ?_
      (fun j other hne hj => h.not_starting (.inl hlock) hne hj) ?_
    · intro c hc
      obtain rfl := List.mem_singleton.1 hc
      exact h.registered _ hmem
    · intro item hitem hb
      obtain ⟨hin, hne⟩ := List.mem_filter.1 hitem
      have heq := List.inj_on_of_nodup_map h.distinct hin hmem (List.mem_singleton.1 hb)
      rw [heq] at hne
      simp at hne
    · intro ho
      rw [hkind] at ho
      cases ho
    · intro ho
      rw [hkind] at ho
      cases ho
    · rintro (⟨other, hother, hc⟩ | hc)
      · rw [h.closing other hother hc]
        rfl
      · rw [hkind] at hc
        cases hc

theorem kept_enterClose (h : s.Kept) (hcall : s.calls[k]? = some call) (hphase : call.phase = .locking)
    (hkind : call.kind = .close) (hlock : s.lock = none) : (s.enterClose k).Kept := by
  unfold enterClose
  split
  · exact h.modify_locking hcall hphase (.inl ⟨_, rfl⟩)
  · dsimp only
    split
    · rename_i hnil
      have hempty : s.controllers = [] := List.map_eq_nil_iff.1 hnil
      have hsame : ({ s with state := .closing, controllers := [] } : Runtime) = { s with state := .closing } := by
        rw [← hempty]
      rw [hsame]
      exact (h.withState .closing).modify_locking hcall hphase (.inr ⟨hkind, hempty, false, rfl⟩)
    · refine (h.withState .closing).closeBridges hcall h.distinct ?_ (List.nil_sublist _)
        (by simp) ?_ ?_ (fun j other hne hj => h.not_starting (.inl hlock) hne hj) (fun _ => rfl)
      · intro b hb
        obtain ⟨item, hitem, rfl⟩ := List.mem_map.1 hb
        exact h.registered item hitem
      · intro ho
        rw [hkind] at ho
        cases ho
      · intro ho
        rw [hkind] at ho
        cases ho

/-- A call that waits, or has closed its bridges, goes on to the next await. -/
theorem Kept.modify_phase (h : s.Kept) (hcall : s.calls[k]? = some call) {lock : Option ℕ} {phase : RuntimePhase}
    (hlock : lock = s.lock ∨ s.lock = some k) (hself : ∀ t : Runtime, t.bridges = s.bridges →
      t.lock = lock → t.CallKept k { call with phase := phase })
    (hclosing : isClosing { call with phase := phase } = true → s.controllers = []) :
    (Runtime.modifyCall { s with lock := lock } k fun call => { call with phase := phase }).Kept := by
  refine h.modify (u := { s with lock := lock }) hcall rfl (.refl rfl) (fun j other hne hj => ⟨fun hholds => ?_,
    fun _ => ⟨rfl, rfl, fun _ hb => hb⟩⟩) (hself _ rfl rfl) h.bounded h.once h.registered h.distinct h.keyed ?_
  · have hsome := (h.calls j other hj).lock hholds
    rcases hlock with rfl | hk
    · exact hsome
    · rw [hk, Option.some.injEq] at hsome
      exact absurd hsome.symm hne
  · rintro (⟨other, hother, hc⟩ | hc)
    · exact h.closing other hother hc
    · exact hclosing hc

theorem kept_relocked (h : s.Kept) (hcall : s.calls[k]? = some call) {c : Bool}
    (hphase : call.phase = .relocking c) (r : RuntimeResult) : (s.finish k r).Kept := by
  have hkept := (h.calls k call hcall).phase
  rw [PhaseKept, hphase] at hkept
  refine h.modify_phase hcall (.inl rfl) (fun t hbridges _ => ⟨?_, by simp [holdsLock]⟩) (by simp [isClosing])
  have honce : ∀ b ∈ call.bridges, t.ClosedOnce b := by
    intro b hb
    rw [ClosedOnce, hbridges]
    exact hkept.2 b hb
  have howns : Owns { call with phase := RuntimePhase.ended r } := by
    intro ho
    rw [hkept.1] at ho
    cases ho
  cases r <;> first | exact ⟨honce, howns⟩ | trivial

/-- Once the cleanup is done, the bridges of a call were closed once. -/
theorem Kept.closed_of_cleaned (h : s.Kept) (hcall : s.calls[k]? = some call) (hcleaned : s.Cleaned call)
    (hphase : (∃ c, call.phase = .shielded c) ∨ call.phase = .joining) :
    (∀ b ∈ call.bridges, s.ClosedOnce b) ∧ Owns call := by
  have hkept := (h.calls k call hcall).phase
  have hkept : (∀ b ∈ call.bridges, s.ClosedBy b) ∧ Owns call := by
    rcases hphase with ⟨c, hp⟩ | hp
    · rwa [PhaseKept, hp] at hkept
    · rwa [PhaseKept, hp] at hkept
  refine ⟨fun b hb => ?_, hkept.2⟩
  rcases hkept.1 b hb with hrun | honce
  · have hended := hcleaned b hb _ hrun .running (by simp)
    cases hended
  · exact honce

theorem kept_afterCleanup (h : s.Kept) (hcall : s.calls[k]? = some call) (hcleaned : s.Cleaned call)
    (hphase : (∃ c, call.phase = .shielded c) ∨ call.phase = .joining) (c : Bool) :
    (s.afterCleanup k c call).Kept := by
  obtain ⟨honce, howns⟩ := h.closed_of_cleaned hcall hcleaned hphase
  have hclosed : ∀ t : Runtime, t.bridges = s.bridges → ∀ b ∈ call.bridges, t.ClosedOnce b := by
    intro t ht b hb
    rw [ClosedOnce, ht]
    exact honce b hb
  unfold afterCleanup
  split
  · rename_i hkind
    have hholds : s.lock = some k := by
      refine (h.calls k call hcall).lock ?_
      rcases hphase with ⟨c, hp⟩ | hp <;> simp [holdsLock, hkind, hp]
    refine h.modify_phase hcall (.inr hholds) (fun t ht _ => ⟨?_, by simp [holdsLock]⟩) (by simp [isClosing])
    cases c <;> exact ⟨hclosed t ht, howns⟩
  · rename_i hkind
    refine h.modify_phase hcall (.inl rfl) (fun t ht _ => ⟨⟨hkind, hclosed t ht⟩, by simp [holdsLock]⟩) fun _ => ?_
    refine h.closing call (List.mem_of_getElem? hcall) ?_
    rcases hphase with ⟨c, hp⟩ | hp <;> simp [isClosing, hkind, hp]
  · refine h.modify_phase hcall (.inl rfl) (fun t ht _ => ⟨?_, by simp [holdsLock]⟩) (by simp [isClosing])
    cases c <;> exact ⟨hclosed t ht, howns⟩

theorem kept_resume (h : s.Kept) (hcall : s.calls[k]? = some call) (hresumable : s.Resumable call) :
    (s.resume k call).Kept := by
  have hkept := (h.calls k call hcall)
  unfold Resumable at hresumable
  unfold resume
  split
  · rename_i hphase
    have hk := hkept.phase
    rw [PhaseKept, hphase] at hk
    refine h.modify_phase hcall (.inl rfl) (fun t ht hl => ⟨⟨fun b hb => ?_, hk.2⟩, fun hholds => ?_⟩) ?_
    · rw [ClosedBy, ClosedOnce, ht]
      exact hk.1 b hb
    · rw [hl]
      refine hkept.lock ?_
      simpa [holdsLock, hphase] using hholds
    · intro hc
      refine h.closing call (List.mem_of_getElem? hcall) ?_
      simpa [isClosing, hphase] using hc
  · rename_i hphase
    rw [hphase] at hresumable
    exact kept_afterCleanup h hcall hresumable (.inl ⟨_, hphase⟩) _
  · rename_i hphase
    rw [hphase] at hresumable
    exact kept_afterCleanup h hcall hresumable (.inr hphase) _
  · exact h

theorem kept_started (h : s.Kept) (hcall : s.calls[k]? = some call) {ok : Bool}
    (hharmless : ok = true → ∀ other ∈ s.calls, isClosing other = false) : (s.started k ok call).Kept := by
  have hkept := h.calls k call hcall
  unfold started
  split
  · rename_i id b hphase
    have hk := hkept.phase
    rw [PhaseKept, hphase] at hk
    obtain ⟨hkind, hstarted, -, hopen, hnew, hroom, hid⟩ := hk
    have hholds : s.lock = some k := hkept.lock (by simp [holdsLock, hkind, hphase])
    split
    · rename_i hok
      have hset : s.controllers.set id b = s.controllers ++ [(id, b)] := Dict.set_new hid
      refine h.modify (u := { s with controllers := s.controllers.set id b, lock := none }) hcall rfl (.refl rfl)
        (fun j other hne hj => ⟨fun hl => ?_, fun hstart => ?_⟩) ⟨trivial, by simp [holdsLock]⟩ ?_ h.once ?_ ?_
        (h.keyed.set id b) ?_
      · have hsome := (h.calls j other hj).lock hl
        rw [hholds, Option.some.injEq] at hsome
        exact absurd hsome.symm hne
      · rw [h.not_starting (.inr hholds) hne hj] at hstart
        cases hstart
      · have hlen : (s.controllers.set id b).length = s.controllers.length + 1 := by simp [hset]
        exact Nat.le_trans (Nat.le_of_eq hlen) hroom
      · intro item hitem
        rcases Dict.mem_set hitem with rfl | hold
        · exact hopen
        · exact h.registered item hold
      · have hvalues : (s.controllers.set id b).map (·.2) = s.controllers.map (·.2) ++ [b] := by simp [hset]
        show ((s.controllers.set id b).map (·.2)).Nodup
        rw [hvalues, List.nodup_append]
        refine ⟨h.distinct, List.nodup_singleton b, ?_⟩
        rintro x hx y hy rfl
        exact hnew (List.mem_singleton.1 hy ▸ hx)
      · rintro (⟨other, hother, hc⟩ | hc)
        · rw [hharmless hok other hother] at hc
          cases hc
        · simp [isClosing] at hc
    · refine h.closeBridges hcall (List.nodup_singleton b) ?_ (List.Sublist.refl _) ?_
        ?_ (fun _ => hholds) (fun j other hne hj => h.not_starting (.inr hholds) hne hj) ?_
      · intro c hc
        obtain rfl := List.mem_singleton.1 hc
        exact hopen
      · intro item hitem hb
        exact hnew (List.mem_map.2 ⟨item, hitem, List.mem_singleton.1 hb⟩)
      · intro _ c hc
        rw [hstarted, Option.mem_def, Option.some.injEq] at hc
        simp [hc]
      · rintro (⟨other, hother, hc⟩ | hc)
        · exact h.closing other hother hc
        · rw [hkind] at hc
          cases hc
  · exact h

theorem kept_cancel (h : s.Kept) (hcall : s.calls[k]? = some call)
    (hharmless : call.phase = .joining → s.Cleaned call) : (s.cancel k call).Kept := by
  have hkept := h.calls k call hcall
  unfold cancel
  split
  · rename_i hphase
    exact h.modify_locking hcall hphase (.inl ⟨_, rfl⟩)
  · rename_i hphase
    exact kept_relocked h hcall hphase _
  · rename_i hphase
    have hk := hkept.phase
    rw [PhaseKept, hphase] at hk
    refine h.modify_phase hcall (.inl rfl) (fun t ht hl => ⟨⟨fun b hb => ?_, hk.2⟩, fun hholds => ?_⟩) ?_
    · rw [ClosedBy, ClosedOnce, ht]
      exact hk.1 b hb
    · rw [hl]
      refine hkept.lock ?_
      simpa [holdsLock, hphase] using hholds
    · intro hc
      refine h.closing call (List.mem_of_getElem? hcall) ?_
      simpa [isClosing, hphase] using hc
  · -- all that the cancellation could reach has ended
    rename_i hphase
    have hcleaned := hharmless hphase
    have hsame : (s.bridges.mapIdx fun b closes =>
        if b ∈ call.bridges then closes.map (·.cancel) else closes) = s.bridges := by
      refine List.ext_getElem? fun b => ?_
      rw [List.getElem?_mapIdx]
      cases hb : s.bridges[b]? with
      | none => rfl
      | some closes =>
        rw [Option.map_some]
        split
        · rename_i hin
          have hall := hcleaned b hin closes hb
          rw [List.map_congr_left (g := id), List.map_id]
          intro run hrun
          have hended := hall run hrun
          cases run <;> simp_all [CloseRun.isEnded, CloseRun.cancel]
        · rfl
    rw [hsame]
    exact h
  · exact h
  · exact h

theorem kept_closed (h : s.Kept) (b : ℕ) :
    Kept { s with bridges := s.bridges.modify b (·.map (·.finish)) } := by
  have hget : ∀ c : ℕ, (s.bridges.modify b (·.map (·.finish)))[c]? =
      if b = c then s.bridges[c]?.map (·.map (·.finish)) else s.bridges[c]? := by
    intro c
    rw [List.getElem?_modify]
    split <;> simp
  have hempty : ∀ c : ℕ, s.bridges[c]? = some [] → (s.bridges.modify b (·.map (·.finish)))[c]? = some [] := by
    intro c hc
    rw [hget, hc]
    split <;> rfl
  have honce : ∀ c : ℕ, s.ClosedOnce c → (s.bridges.modify b (·.map (·.finish)))[c]? = some [.completed] := by
    intro c hc
    rw [hget, hc]
    split <;> rfl
  have hprogress : s.Progress { s with bridges := s.bridges.modify b (·.map (·.finish)) } := by
    intro c
    refine ⟨?_, honce c⟩
    rintro (hc | hc)
    · unfold ClosedBy ClosedOnce
      rw [hget, hc]
      split
      · exact .inr rfl
      · exact .inl rfl
    · exact .inr (honce c hc)
  refine ⟨fun k call hk => (h.calls k call hk).transport hprogress (h.calls k call hk).lock
    fun _ => ⟨rfl, rfl, hempty⟩, h.bounded, fun bridge hbridge => ?_, fun item hitem => hempty _ (h.registered item hitem),
    h.distinct, h.keyed, h.closing⟩
  obtain ⟨c, hc⟩ := List.mem_iff_getElem?.1 hbridge
  rw [hget] at hc
  split at hc
  · obtain ⟨old, hold, rfl⟩ := Option.map_eq_some_iff.1 hc
    rcases h.once old (List.mem_of_getElem? hold) with rfl | rfl | rfl
    · exact .inl rfl
    · exact .inr (.inr rfl)
    · exact .inr (.inr rfl)
  · exact h.once bridge (List.mem_of_getElem? hc)

theorem kept_call (h : s.Kept) (kind : RuntimeCallKind) : Kept { s with calls := s.calls ++ [{ kind := kind }] } := by
  refine ⟨fun k call hk => ?_, h.bounded, h.once, h.registered, h.distinct, h.keyed, fun call hmem hc => ?_⟩
  · rw [List.getElem?_append] at hk
    split at hk
    · exact ⟨(h.calls k call hk).phase, (h.calls k call hk).lock⟩
    · obtain rfl := List.mem_singleton.1 (List.mem_of_getElem? hk)
      exact ⟨⟨rfl, rfl⟩, by simp [holdsLock]⟩
  · rcases List.mem_append.1 hmem with hold | hnew
    · exact h.closing call hold hc
    · obtain rfl := List.mem_singleton.1 hnew
      simp [isClosing] at hc

/-- **Every harmless event keeps the invariant.** -/
theorem kept_step (h : s.Kept) (hharmless : s.Harmless e) (hs : Step s e t) : t.Kept := by
  obtain ⟨hen, rfl⟩ := hs
  cases e with
  | call kind => exact kept_call h kind
  | enter k env =>
    obtain ⟨hlock, hwaits⟩ := hen
    cases hcall : s.calls[k]? with
    | none => simp [hcall] at hwaits
    | some call =>
      have hperform : s.perform (.enter k env) = s.enter k env call := by rw [perform, hcall]; rfl
      rw [hperform]
      unfold enter
      split
      · rename_i hphase _
        exact kept_enterStart h hcall hphase env
      · rename_i hphase hkind
        exact kept_enterOpen h hcall hphase hkind hlock env
      · rename_i hphase hkind
        exact kept_enterCloseController h hcall hphase hkind hlock
      · rename_i hphase hkind
        exact kept_enterClose h hcall hphase hkind hlock
      · rename_i hphase
        exact kept_relocked (h.withState .stopped) hcall hphase _
      · exact h
  | started k ok =>
    cases hcall : s.calls[k]? with
    | none =>
      rw [perform, hcall]
      exact h
    | some call =>
      rw [perform, hcall]
      exact kept_started h hcall hharmless
  | closed b => exact kept_closed h b
  | resume k =>
    obtain ⟨call, hcall, hresumable⟩ := hen
    rw [perform, Option.mem_def.1 hcall]
    exact kept_resume h hcall hresumable
  | cancel k =>
    cases hcall : s.calls[k]? with
    | none =>
      rw [perform, hcall]
      exact h
    | some call =>
      rw [perform, hcall]
      exact kept_cancel h hcall (hharmless call hcall).1

theorem kept_new (n : ℕ) : Kept { maxControllers := n } := by
  refine ⟨fun k call hk => ?_, Nat.zero_le n, ?_, ?_, List.nodup_nil, Dict.keyed_nil, ?_⟩
  · simp at hk
  · simp
  · simp
  · simp

/-! ## What the invariant gives -/

theorem Kept.closes_of_ended (h : s.Kept) (hcall : s.calls[k]? = some call) (hend : endedWithout call = true) :
    (∀ b ∈ call.bridges, s.ClosedOnce b) ∧ Owns call := by
  have hkept := (h.calls k call hcall).phase
  unfold PhaseKept at hkept
  split at hkept
  case h_7 => exact hkept
  all_goals
    rename_i hphase
    simp [endedWithout, hphase] at hend

theorem Kept.safe (h : s.Kept) : s.Safe where
  bounded := h.bounded
  once := h.once
  opens call hmem hkind hend b hb := by
    obtain ⟨k, hk⟩ := List.mem_iff_getElem?.1 hmem
    obtain ⟨hclosed, howns⟩ := h.closes_of_ended hk hend
    exact hclosed b (howns hkind b hb)
  closes call hmem hend := by
    obtain ⟨k, hk⟩ := List.mem_iff_getElem?.1 hmem
    exact (h.closes_of_ended hk hend).1

theorem closeBridges_bridges {bs : List ℕ} (hcall : s.calls[k]? = some call) :
    ∃ call' ∈ (s.closeBridges k bs).calls, call'.bridges = bs := by
  refine ⟨{ call with bridges := bs, phase := .shielded false }, ?_, rfl⟩
  refine List.mem_iff_getElem?.2 ⟨k, ?_⟩
  simp [closeBridges, modifyCall, hcall]

theorem enter_released (h : s.Kept) (hcall : s.calls[k]? = some call) (env : RuntimeEnv) (item : Str × ℕ)
    (hin : item ∈ s.controllers) (hout : item ∉ (s.enter k env call).controllers) :
    ∃ call' ∈ (s.enter k env call).calls, item.2 ∈ call'.bridges := by
  unfold enter at hout ⊢
  split at hout
  · refine absurd ?_ hout
    unfold enterStart
    split <;> exact hin
  · refine absurd ?_ hout
    unfold enterOpen
    split
    · exact hin
    split
    · exact hin
    split
    · exact hin
    split
    · exact hin
    split <;> exact hin
  · rename_i id _ hkind
    unfold enterCloseController at hout ⊢
    split at hout
    · exact absurd hin hout
    · rename_i b hget
      obtain ⟨call', hcall', hbridges⟩ :=
        closeBridges_bridges (s := { s with controllers := s.controllers.remove id }) hcall
      refine ⟨call', hcall', ?_⟩
      have hid : item.1 = id := by
        by_contra hne
        exact hout (List.mem_filter.2 ⟨hin, by simpa using hne⟩)
      have hitem : s.controllers.get item.1 = some item.2 := h.keyed.get_of_mem hin
      rw [hid, hget, Option.some.injEq] at hitem
      rw [hbridges, hitem]
      exact List.mem_singleton.2 rfl
  · unfold enterClose at hout ⊢
    split at hout
    · exact absurd hin hout
    · rename_i hopen
      rw [if_neg hopen]
      dsimp only at hout ⊢
      have hmem : item.2 ∈ s.controllers.map (·.2) := List.mem_map_of_mem hin
      split at hout
      · rename_i hnil
        rw [hnil] at hmem
        cases hmem
      · rename_i hne
        rw [if_neg hne]
        obtain ⟨call', hcall', hbridges⟩ := closeBridges_bridges
          (s := { s with state := .closing, controllers := [] }) hcall
        exact ⟨call', hcall', hbridges ▸ hmem⟩
  · exact absurd hin hout
  · exact absurd hin hout

/-- Only a close takes a handle from the registry. -/
theorem released_step (h : s.Kept) (hs : Step s e t) (item : Str × ℕ) (hin : item ∈ s.controllers)
    (hout : item ∉ t.controllers) : ∃ call ∈ t.calls, item.2 ∈ call.bridges := by
  obtain ⟨-, rfl⟩ := hs
  cases e with
  | call kind => exact absurd hin hout
  | enter k env =>
    cases hcall : s.calls[k]? with
    | none =>
      rw [perform, hcall] at hout
      exact absurd hin hout
    | some call =>
      rw [perform, hcall] at hout ⊢
      exact enter_released h hcall env item hin hout
  | started k ok =>
    refine absurd ?_ hout
    cases hcall : s.calls[k]? with
    | none => simpa [perform, hcall] using hin
    | some call =>
      simp only [perform, hcall, Option.map_some, Option.getD_some, started]
      split
      · rename_i id b hphase
        split
        · have hkept := (h.calls k call hcall).phase
          rw [PhaseKept, hphase] at hkept
          show item ∈ s.controllers.set id b
          rw [Dict.set_new hkept.2.2.2.2.2.2]
          exact List.mem_append_left _ hin
        · exact hin
      · exact hin
  | closed b => exact absurd hin hout
  | resume k =>
    refine absurd ?_ hout
    cases hcall : s.calls[k]? with
    | none => simpa [perform, hcall] using hin
    | some call =>
      simp only [perform, hcall, Option.map_some, Option.getD_some, resume, afterCleanup]
      repeat' split
      all_goals exact hin
  | cancel k =>
    refine absurd ?_ hout
    cases hcall : s.calls[k]? with
    | none => simpa [perform, hcall] using hin
    | some call =>
      simp only [perform, hcall, Option.map_some, Option.getD_some, cancel]
      split <;> exact hin

/-! ## When a close ends -/

/-- The step touches no call but `k`. -/
def Only (s : Runtime) (k : ℕ) (t : Runtime) : Prop := ∃ f, t.calls = s.calls.modify k f

theorem Only.refl (s : Runtime) (k : ℕ) : s.Only k s := ⟨id, (List.modify_id k s.calls).symm⟩

theorem enter_only (k : ℕ) (env : RuntimeEnv) (call : RuntimeCall) : s.Only k (s.enter k env call) := by
  unfold enter enterStart enterOpen enterCloseController enterClose
  dsimp only
  repeat' split
  all_goals first | exact ⟨_, rfl⟩ | exact .refl s k

theorem started_only (k : ℕ) (ok : Bool) (call : RuntimeCall) : s.Only k (s.started k ok call) := by
  unfold started
  repeat' split
  all_goals first | exact ⟨_, rfl⟩ | exact .refl s k

theorem resume_only (k : ℕ) (call : RuntimeCall) : s.Only k (s.resume k call) := by
  unfold resume afterCleanup
  repeat' split
  all_goals first | exact ⟨_, rfl⟩ | exact .refl s k

theorem cancel_only (k : ℕ) (call : RuntimeCall) : s.Only k (s.cancel k call) := by
  unfold cancel
  split
  all_goals first | exact ⟨_, rfl⟩ | exact .refl _ k

theorem modify_getElem_self {f : RuntimeCall → RuntimeCall} {call' : RuntimeCall} (hcall : s.calls[k]? = some call)
    (hcall' : (s.modifyCall k f).calls[k]? = some call') : call' = f call := by
  simp only [modifyCall, List.getElem?_modify, hcall, if_true, Option.map_eq_map, Option.map_some,
    Option.some.injEq] at hcall'
  exact hcall'.symm

theorem enter_stops (h : s.Kept) (hcall : s.calls[k]? = some call) (hkind : call.kind = .close)
    (hopen : ∀ r, call.phase ≠ .ended r) (env : RuntimeEnv) {call' : RuntimeCall}
    (hcall' : (s.enter k env call).calls[k]? = some call') {r : RuntimeResult} (hend : call'.phase = .ended r) :
    (s.enter k env call).IsStopped := by
  have hcloses : ∀ (u : Runtime) (bs : List ℕ), u.calls = s.calls →
      (u.closeBridges k bs).calls[k]? ≠ some call' := by
    intro u bs hu hsome
    have heq := modify_getElem_self (s := u) (by rw [hu]; exact hcall) hsome
    rw [heq] at hend
    cases hend
  unfold enter at hcall' ⊢
  rw [hkind] at hcall' ⊢
  split at hcall'
  · rename_i hk
    cases hk
  · rename_i hk
    cases hk
  · rename_i hk
    cases hk
  · unfold enterClose at hcall' ⊢
    split at hcall'
    · rename_i hstopped
      rw [if_pos hstopped]
      exact hstopped
    · dsimp only at hcall'
      split at hcall'
      · have heq := modify_getElem_self (s := { s with state := .closing, controllers := [] }) hcall hcall'
        rw [heq] at hend
        cases hend
      · exact absurd hcall' (hcloses _ _ rfl)
  · rename_i hphase
    exact ⟨rfl, h.closing call (List.mem_of_getElem? hcall) (by simp [isClosing, hkind, hphase])⟩
  · rw [hcall, Option.some.injEq] at hcall'
    exact absurd (hcall' ▸ hend) (hopen r)

theorem resume_stops (hcall : s.calls[k]? = some call) (hkind : call.kind = .close)
    (hopen : ∀ r, call.phase ≠ .ended r) {call' : RuntimeCall}
    (hcall' : (s.resume k call).calls[k]? = some call') {r : RuntimeResult} : call'.phase ≠ .ended r := by
  intro hend
  unfold resume afterCleanup at hcall'
  rw [hkind] at hcall'
  split at hcall'
  case h_4 =>
    rw [hcall, Option.some.injEq] at hcall'
    exact absurd (hcall' ▸ hend) (hopen r)
  all_goals
    rw [modify_getElem_self hcall hcall'] at hend
    cases hend

theorem cancel_stops (hcall : s.calls[k]? = some call) (hkind : call.kind = .close)
    (hopen : ∀ r, call.phase ≠ .ended r) (hharmless : waitsForLock call = true → s.IsStopped)
    {call' : RuntimeCall} (hcall' : (s.cancel k call).calls[k]? = some call') {r : RuntimeResult}
    (hend : call'.phase = .ended r) : (s.cancel k call).IsStopped := by
  have hsame : call' ≠ call := by
    rintro rfl
    exact hopen r hend
  unfold cancel at hcall' ⊢
  split at hcall'
  · rename_i hphase
    exact hharmless (by simp [waitsForLock, hphase])
  · rename_i hphase
    exact hharmless (by simp [waitsForLock, hphase])
  · rw [modify_getElem_self hcall hcall'] at hend
    cases hend
  all_goals exact absurd (Option.some.inj (hcall'.symm.trans hcall)) hsame

/-- A call that a step on another call leaves as it was. -/
theorem Only.eq {call' : RuntimeCall} (h : s.Only j t) (hne : j ≠ k) (hcall : s.calls[k]? = some call)
    (hcall' : t.calls[k]? = some call') : call' = call := by
  obtain ⟨f, hf⟩ := h
  rw [hf, List.getElem?_modify, hcall] at hcall'
  simpa [hne] using hcall'.symm

/-- A `close` that ends leaves nothing registered, and the runtime stopped. -/
theorem stopped_step (h : s.Kept) (hharmless : s.Harmless e) (hs : Step s e t) {call' : RuntimeCall}
    (hcall : s.calls[k]? = some call) (hkind : call.kind = .close) (hcall' : t.calls[k]? = some call')
    (hopen : ∀ r, call.phase ≠ .ended r) {r : RuntimeResult} (hend : call'.phase = .ended r) : t.IsStopped := by
  have hchanged : call' ≠ call := by
    rintro rfl
    exact hopen r hend
  have honly : ∀ j, s.Only j t → j = k := by
    intro j ho
    by_contra hne
    exact hchanged (ho.eq hne hcall hcall')
  obtain ⟨hen, rfl⟩ := hs
  cases e with
  | call kind =>
    simp only [perform, List.getElem?_append_left (List.getElem?_eq_some_iff.1 hcall).1] at hcall'
    exact absurd (Option.some.inj (hcall'.symm.trans hcall)) hchanged
  | enter j env =>
    obtain ⟨c, hc⟩ : ∃ c, s.calls[j]? = some c := Option.isSome_iff_exists.1 (Option.isSome_of_any hen.2)
    have hperform : s.perform (.enter j env) = s.enter j env c := by rw [perform, hc]; rfl
    rw [hperform] at hcall' honly ⊢
    obtain rfl := honly j (enter_only j env c)
    obtain rfl := Option.some.inj (hc.symm.trans hcall)
    exact enter_stops h hcall hkind hopen env hcall' hend
  | started j ok =>
    obtain ⟨c, hc⟩ : ∃ c, s.calls[j]? = some c := Option.isSome_iff_exists.1 (Option.isSome_of_any hen)
    have hperform : s.perform (.started j ok) = s.started j ok c := by rw [perform, hc]; rfl
    rw [hperform] at hcall' honly ⊢
    obtain rfl := honly j (started_only j ok c)
    obtain rfl := Option.some.inj (hc.symm.trans hcall)
    have hkept := (h.calls j c hcall).phase
    unfold started at hcall'
    split at hcall'
    · rename_i hphase
      rw [PhaseKept, hphase, hkind] at hkept
      cases hkept.1
    · exact absurd (Option.some.inj (hcall'.symm.trans hcall)) hchanged
  | closed b => exact absurd (Option.some.inj (hcall'.symm.trans hcall)) hchanged
  | resume j =>
    obtain ⟨c, hc, -⟩ := hen
    have hperform : s.perform (.resume j) = s.resume j c := by rw [perform, Option.mem_def.1 hc]; rfl
    rw [hperform] at hcall' honly ⊢
    obtain rfl := honly j (resume_only j c)
    obtain rfl := Option.some.inj ((Option.mem_def.1 hc).symm.trans hcall)
    exact absurd hend (resume_stops hcall hkind hopen hcall')
  | cancel j =>
    obtain ⟨c, hc⟩ : ∃ c, s.calls[j]? = some c := ⟨_, List.getElem?_eq_getElem hen⟩
    have hperform : s.perform (.cancel j) = s.cancel j c := by rw [perform, hc]; rfl
    rw [hperform] at hcall' honly ⊢
    obtain rfl := honly j (cancel_only j c)
    obtain rfl := Option.some.inj (hc.symm.trans hcall)
    exact cancel_stops hcall hkind hopen ((hharmless c hc).2 hkind) hcall' hend

/-- The limit stays as it was made. -/
theorem perform_maxControllers (e : RuntimeEvent) : (s.perform e).maxControllers = s.maxControllers := by
  cases e with
  | call kind => rfl
  | enter k env =>
    cases hcall : s.calls[k]? with
    | none => simp [perform, hcall]
    | some call =>
      simp only [perform, hcall, Option.map_some, Option.getD_some]
      unfold enter enterStart enterOpen enterCloseController enterClose
      dsimp only
      repeat' split
      all_goals rfl
  | started k ok =>
    cases hcall : s.calls[k]? with
    | none => simp [perform, hcall]
    | some call =>
      simp only [perform, hcall, Option.map_some, Option.getD_some, started]
      repeat' split
      all_goals rfl
  | closed b => rfl
  | resume k =>
    cases hcall : s.calls[k]? with
    | none => simp [perform, hcall]
    | some call =>
      simp only [perform, hcall, Option.map_some, Option.getD_some, resume, afterCleanup]
      repeat' split
      all_goals rfl
  | cancel k =>
    cases hcall : s.calls[k]? with
    | none => simp [perform, hcall]
    | some call =>
      simp only [perform, hcall, Option.map_some, Option.getD_some, cancel]
      split <;> rfl

/-- A step with an event that does no harm. -/
def HarmlessStep (s : Runtime) (e : RuntimeEvent) (t : Runtime) : Prop := s.Harmless e ∧ Step s e t

theorem kept_run {events : List RuntimeEvent} (h : Run HarmlessStep s events t) (hs : s.Kept) : t.Kept :=
  h.invariant (fun _ _ _ hkept hstep => kept_step hkept hstep.1 hstep.2) hs

theorem maxControllers_run {events : List RuntimeEvent} (h : Run HarmlessStep s events t) :
    t.maxControllers = s.maxControllers := by
  induction h with
  | nil => rfl
  | cons hstep _ ih =>
    obtain ⟨-, -, rfl⟩ := hstep
    rw [ih, perform_maxControllers]

theorem Kept.safeStep (h : s.Kept) (hstep : HarmlessStep s e t) : s.SafeStep t where
  released item hin hout := released_step h hstep.2 item hin hout
  stopped k call call' hcall hkind hcall' hopen hend := by
    obtain ⟨r, hr⟩ := hend
    exact stopped_step h hstep.1 hstep.2 hcall hkind hcall' hopen hr

end Runtime

/-- **Controllers are bounded, and closed once**: in every run of calls, whatever the
    bridges do and whoever is cancelled, as long as no event does harm: the registry
    is bounded; an open that ended without a handle, and a call that took handles
    from the registry, had their bridges closed once, to the end; a handle leaves
    the registry only for a call that closes its bridge; and a `close` that ends
    leaves nothing registered and the runtime stopped. -/
theorem controllers_closed_once {n : ℕ} {events : List RuntimeEvent} {s : Runtime}
    (h : Run Runtime.HarmlessStep { maxControllers := n } events s) :
    s.maxControllers = n ∧ s.Safe ∧ ∀ e t, Runtime.HarmlessStep s e t → s.SafeStep t := by
  have hkept : s.Kept := Runtime.kept_run h (Runtime.kept_new n)
  exact ⟨Runtime.maxControllers_run h, hkept.safe, fun e t hstep => hkept.safeStep hstep⟩

/-- A controller is opened, and its id is to be closed. -/
def openedController (id : Str) : List RuntimeEvent :=
  [.call .start, .enter 0 {}, .call .openController, .enter 1 { candidates := [id] }, .started 1 true]

/-- A controller is opened, then all are closed; the caller of `close` is cancelled. -/
def closedRuntime (id : Str) : List RuntimeEvent :=
  openedController id ++ [.call .close, .enter 2 {}, .cancel 2, .resume 2, .closed 0, .resume 2, .enter 2 {}]

/-- The caller of `close_controller` is cancelled again, while `bridge.close()` runs. -/
def cancelledTwice (id : Str) : List RuntimeEvent :=
  openedController id ++ [.call (.closeController id), .enter 2 {}, .cancel 2, .resume 2, .cancel 2, .closed 0, .resume 2]

theorem controllers_closed_once_closed : ∃ s : Runtime,
    s = (closedRuntime [97]).foldl Runtime.perform { maxControllers := 8 } ∧
      s.bridges = [[.completed]] ∧ s.IsStopped ∧ s.Safe := by
  have hrun : Run Runtime.HarmlessStep { maxControllers := 8 } (closedRuntime [97])
      ((closedRuntime [97]).foldl Runtime.perform { maxControllers := 8 }) := by
    have halong : Along Runtime.perform (fun s e => s.Harmless e ∧ s.Enabled e) { maxControllers := 8 }
        (closedRuntime [97]) := by decide
    exact (run_of_along halong).mono fun s e t h => ⟨h.1.1, h.1.2, h.2⟩
  exact ⟨_, rfl, by decide, by decide, (controllers_closed_once hrun).2.1⟩

/-- The caller of `close_controller` is cancelled twice, and so is the `close` of
    the bridge, which does not run to its end. -/
theorem cancelledTwice_cancels : ∃ s : Runtime,
    Run Runtime.Step { maxControllers := 8 } (cancelledTwice [97]) s ∧ s.bridges = [[.cancelled]] ∧ ¬ s.Safe := by
  have halong : Along Runtime.perform Runtime.Enabled { maxControllers := 8 } (cancelledTwice [97]) := by
    decide
  refine ⟨_, run_of_along halong, by decide, fun hsafe => ?_⟩
  have honce := hsafe.once [.cancelled] (by decide)
  simp at honce

end MercuryRelay
