/-
  The registry of the leases (session_lease.py, `SessionLeaseManager`), with the
  leases it is about, and the calls that release many of them at once.

  Leases are known by number, in the order they are made, and so are these calls.
-/
import MercuryRelay.Python.Dict
import MercuryRelay.Lease.Lifecycle

set_option autoImplicit false

namespace MercuryRelay

open Python Shield

/-- A lease, as the manager knows it. -/
structure ManagedLease where
  deviceId : Str
  channel : Str
  lifecycle : Lifecycle

/-- `SessionLeaseManager`; leases are known by number. -/
structure SessionLeaseManager where
  maxLeases : ℕ
  leases : Dict (Str × Str) ℕ := []
  closed : Bool := false
  positive : 1 ≤ maxLeases

/-- A call of `_release_all`: the leases and the tasks it gathers, and its caller,
    which waits. -/
structure ReleaseAll where
  children : List (ℕ × ℕ)
  waiter : Shielded := {}
  result : Option Released := none

/-- A manager, the leases there are, and the calls of `_release_all` so far. -/
structure LeasePool where
  manager : SessionLeaseManager
  heap : List ManagedLease := []
  calls : List ReleaseAll := []

def ManagedLease.key (lease : ManagedLease) : Str × Str := (lease.deviceId, lease.channel)

namespace LeasePool

/-- `lease._release_succeeded`. -/
def succeeded (s : LeasePool) (i : ℕ) : Bool := (s.heap[i]?).any (·.lifecycle.releaseSucceeded)

/-- `lease.released`. -/
def released (s : LeasePool) (i : ℕ) : Bool := (s.heap[i]?).any (·.lifecycle.released)

def withLeases (s : LeasePool) (leases : Dict (Str × Str) ℕ) : LeasePool :=
  { s with manager := { s.manager with leases := leases } }

def withLifecycle (s : LeasePool) (i : ℕ) (lifecycle : Lifecycle) : LeasePool :=
  { s with heap := s.heap.modify i fun lease => { lease with lifecycle := lifecycle } }

/-- The lifecycle of a lease. -/
def lifecycle (s : LeasePool) (i : ℕ) : Option Lifecycle := (s.heap[i]?).map (·.lifecycle)

/-- `active_count`. -/
def activeCount (s : LeasePool) : ℕ := s.manager.leases.countP fun item => !s.succeeded item.2

/-- `get`. -/
def get (s : LeasePool) (key : Str × Str) : LeasePool × Option ℕ :=
  match s.manager.leases.get key with
  | none => (s, none)
  | some i =>
    if s.succeeded i then (s.withLeases (s.manager.leases.remove key), none) else (s, some i)

/-- `leases_for`. -/
def leasesFor (s : LeasePool) (deviceId : Str) : List ℕ :=
  (s.manager.leases.filter fun item => item.1.1 = deviceId ∧ s.succeeded item.2 = false).map (·.2)

/-- `register`, of the lease `i`; what it raises. -/
def register (s : LeasePool) (i : ℕ) : LeasePool × Option LeaseFault :=
  if s.manager.closed then (s, some (.session "manager_closed"))
  else
    match s.heap[i]? with
    | none => (s, some .typeError)
    | some lease =>
      match s.get lease.key with
      | (s, some _) => (s, some (.session "device_already_leased"))
      | (s, none) =>
        let leases := s.manager.leases.filter fun item => !s.succeeded item.2
        let s := s.withLeases leases
        if s.manager.maxLeases ≤ leases.length then (s, some (.session "lease_limit_reached"))
        else
          ((s.withLeases (Dict.set leases lease.key i)).withLifecycle i lease.lifecycle.start, none)

/-! ## Release -/

/-- A task is made for each lease, that calls its `release`; the tasks. -/
def scheduleAll (s : LeasePool) (reason : String) : List ℕ → LeasePool × List (ℕ × ℕ)
  | [] => (s, [])
  | i :: is =>
    match s.lifecycle i with
    | none => s.scheduleAll reason is
    | some lifecycle =>
      let (s, children) :=
        (s.withLifecycle i (lifecycle.create (.release reason) .created)).scheduleAll reason is
      (s, (i, lifecycle.next) :: children)

/-- `any(result is True for result in results)`. -/
def anyFirst (results : List Bool) : Bool := results.any id

/-- What a task of `_release_all` came to, if it is done. -/
def childResult (s : LeasePool) (child : ℕ × ℕ) : Option Released :=
  match (s.lifecycle child.1).bind (·.tasks[child.2]?) with
  | some ⟨_, .ended result, _⟩ => some (result.getD .cancelled)
  | _ => none

/-- What the tasks come to together, if all are done. -/
def gathered (s : LeasePool) (children : List (ℕ × ℕ)) : Option Released :=
  if children.all fun child => (s.childResult child).isSome then
    some (settle anyFirst (children.filterMap s.childResult))
  else none

/-- `_release_all`, up to where it waits; what it comes to, if it need not wait. -/
def releaseAll (s : LeasePool) (is : List ℕ) (reason : String) : LeasePool × Option Released :=
  let (s, children) := s.scheduleAll reason is
  let result := if children.isEmpty then some (settle anyFirst []) else none
  ({ s with calls := s.calls ++ [{ children := children, result := result }] }, result)

/-- `release_device`. -/
def releaseDevice (s : LeasePool) (deviceId : Str) (reason : String) : LeasePool × Option Released :=
  s.releaseAll (s.leasesFor deviceId) reason

/-- `close`. -/
def close (s : LeasePool) : LeasePool × Option Released :=
  releaseAll { s with manager := { s.manager with closed := true } }
    (s.manager.leases.map (·.2)) "plugin_shutdown"

def withCall (s : LeasePool) (k : ℕ) (call : ReleaseAll) : LeasePool :=
  { s with calls := s.calls.set k call }

/-- The caller of `_release_all` resumes; what the call comes to, if its tasks are
    done. -/
def resume (s : LeasePool) (k : ℕ) (call : ReleaseAll) : LeasePool × Option Released :=
  let waiter := call.waiter.resume
  let result := waiter.result (s.gathered call.children)
  (s.withCall k { call with waiter := waiter, result := result }, result)

end LeasePool

/-! ## Events -/

inductive PoolEvent where
  /-- a lease is made -/
  | creates (deviceId channel : Str) (hasOnRelease : Bool)
  /-- something happens to the tasks of the lease `i` -/
  | lease (i : ℕ) (e : LifecycleEvent)
  | registers (i : ℕ)
  | gets (deviceId channel : Str)
  /-- `release_lease`, called by a task of the surroundings of the lease -/
  | releasesLease (deviceId channel : Str) (t : ℕ) (reason : String)
  | releasesDevice (deviceId : Str) (reason : String)
  | closes
  /-- the caller of `_release_all` is cancelled -/
  | cancels (k : ℕ)
  /-- the caller of `_release_all` resumes -/
  | resumes (k : ℕ)
  deriving DecidableEq

inductive PoolOutput where
  | done
  | raised (fault : LeaseFault)
  | found (lease : Option ℕ)
  /-- the output of an event of a lease -/
  | lease (out : LifecycleOutput)
  /-- a call ended -/
  | released (result : Released)
  deriving DecidableEq

abbrev PoolLabel := PoolEvent × PoolOutput

namespace LeasePool

/-- The output of a call of `_release_all`. -/
def answer : LeasePool × Option Released → LeasePool × PoolOutput
  | (s, none) => (s, .done)
  | (s, some result) => (s, .released result)

/-- Something happens to the tasks of the lease `i`. -/
def performLease (s : LeasePool) (i : ℕ) (e : LifecycleEvent) : LeasePool × PoolOutput :=
  match s.lifecycle i with
  | none => (s, .done)
  | some lifecycle =>
    let (lifecycle, out) := lifecycle.perform e
    (s.withLifecycle i lifecycle, .lease out)

/-- The pool after an event, and what the event yields. -/
def perform (s : LeasePool) : PoolEvent → LeasePool × PoolOutput
  | .creates deviceId channel hasOnRelease =>
    ({ s with heap := s.heap ++ [⟨deviceId, channel, { hasOnRelease := hasOnRelease }⟩] }, .done)
  | .lease i e => s.performLease i e
  | .registers i =>
    match s.register i with
    | (s, none) => (s, .done)
    | (s, some fault) => (s, .raised fault)
  | .gets deviceId channel => ((s.get (deviceId, channel)).1, .found (s.get (deviceId, channel)).2)
  | .releasesLease deviceId channel t reason =>
    match s.get (deviceId, channel) with
    | (s, none) => (s, .released (.returned false))
    | (s, some i) => s.performLease i (.calls t reason)
  | .releasesDevice deviceId reason => answer (s.releaseDevice deviceId reason)
  | .closes => answer s.close
  | .cancels k =>
    match s.calls[k]? with
    | none => (s, .done)
    | some call => (s.withCall k { call with waiter := call.waiter.cancel }, .done)
  | .resumes k =>
    match s.calls[k]? with
    | none => (s, .done)
    | some call => answer (s.resume k call)

/-- The event is not a cancellation of a task that `_release_all` made: nobody else
    has these. -/
def Spares (s : LeasePool) (i : ℕ) (e : LifecycleEvent) : Prop :=
  ∀ call ∈ s.calls, ∀ child ∈ call.children, child.1 = i → e ≠ .cancels child.2

instance (s : LeasePool) (i : ℕ) (e : LifecycleEvent) : Decidable (s.Spares i e) := by
  unfold Spares
  infer_instance

/-- When an event may happen. -/
def Enabled (s : LeasePool) : PoolEvent → Prop
  | .lease i e => (∃ lifecycle ∈ s.lifecycle i, lifecycle.Enabled e) ∧ s.Spares i e
  | .releasesLease deviceId channel t reason =>
    ∀ i ∈ (s.get (deviceId, channel)).2, ∃ lifecycle ∈ s.lifecycle i,
      lifecycle.Enabled (.calls t reason)
  | .cancels k => ∃ call ∈ s.calls[k]?, call.result = none
  | .resumes k => ∃ call ∈ s.calls[k]?, call.result = none ∧
      (call.waiter.requested = true ∨ (s.gathered call.children).isSome)
  | _ => True

instance (s : LeasePool) (e : PoolEvent) : Decidable (s.Enabled e) := by
  cases e <;> unfold Enabled <;> infer_instance

/-- One event happens. -/
def Step (s : LeasePool) (label : PoolLabel) (s' : LeasePool) : Prop :=
  s.Enabled label.1 ∧ s.perform label.1 = (s', label.2)

/-- What happens to a manager and its leases over time. -/
abbrev Run := Transition.Run Step

/-- A manager as `__init__` makes it. -/
structure Fresh (s : LeasePool) : Prop where
  leases : s.manager.leases = []
  closed : s.manager.closed = false
  heap : s.heap = []
  calls : s.calls = []

end LeasePool

end MercuryRelay
