/-
  Requests in flight, and the responses that answer them by identifier.

  Identifiers are compared by their classes under a map `key`.  While the
  requests in flight differ there, a response answers one request at most.
-/
import Mathlib.Data.List.Nodup

set_option autoImplicit false

/-- The requests in flight, each with what it is for, and the outcomes of those
    that were answered. -/
structure Exchange (ι ρ ο : Type) where
  inFlight : List (ι × ρ) := []
  outcomes : List (ρ × ο) := []

namespace Exchange

variable {ι κ ρ ο : Type} [DecidableEq κ] {key : ι → κ} {x : Exchange ι ρ ο} {i j : ι} {r r' : ρ}
  {o : ο}

/-- A request is sent. -/
def send (x : Exchange ι ρ ο) (i : ι) (r : ρ) : Exchange ι ρ ο :=
  { x with inFlight := x.inFlight ++ [(i, r)] }

/-- A response answers the first request in flight with its identifier. -/
def respond (key : ι → κ) (x : Exchange ι ρ ο) (i : ι) (o : ο) : Exchange ι ρ ο :=
  match x.inFlight.find? fun q => key q.1 = key i with
  | some q =>
    { inFlight := x.inFlight.eraseP fun q => key q.1 = key i
      outcomes := x.outcomes ++ [(q.2, o)] }
  | none => x

/-- No two requests in flight have one identifier. -/
def Distinct (key : ι → κ) (x : Exchange ι ρ ο) : Prop :=
  (x.inFlight.map fun q => key q.1).Nodup

instance : Decidable (x.Distinct key) := inferInstanceAs (Decidable (List.Nodup _))

omit [DecidableEq κ] in
theorem Distinct.unique (hx : x.Distinct key) (hi : (i, r) ∈ x.inFlight) (hj : (j, r') ∈ x.inFlight)
    (h : key i = key j) : r = r' := by
  have := List.inj_on_of_nodup_map hx hi hj h
  exact congrArg Prod.snd this

/-- The outcome of a request in flight is that of the response to it. -/
theorem respond_outcome (hx : x.Distinct key) (hj : (j, r) ∈ x.inFlight) (h : key j = key i) (o : ο) :
    (r, o) ∈ (x.respond key i o).outcomes := by
  unfold respond
  split
  · rename_i q hq
    have hmem := List.mem_of_find?_eq_some hq
    have hkey : key q.1 = key i := by simpa using List.find?_some hq
    have hr : r = q.2 := hx.unique hj hmem (h.trans hkey.symm)
    simp [hr]
  · rename_i hq
    exact absurd h (by simpa using List.find?_eq_none.1 hq (j, r) hj)

/-- Requests with other identifiers stay in flight. -/
theorem respond_inFlight (hj : (j, r) ∈ x.inFlight) (h : key j ≠ key i) (o : ο) :
    (j, r) ∈ (x.respond key i o).inFlight := by
  unfold respond
  split
  · exact (List.mem_eraseP_of_neg (by simpa using h)).2 hj
  · exact hj

/-- Outcomes stay. -/
theorem respond_outcomes {p : ρ × ο} (hp : p ∈ x.outcomes) (i : ι) (o : ο) :
    p ∈ (x.respond key i o).outcomes := by
  unfold respond
  split
  · exact List.mem_append_left _ hp
  · exact hp

end Exchange
