/-
  Waiting that cancellation does not interrupt: a task waits for another until
  that is done, and only then ends, cancelled if it was asked to.

  * `settle`: what a waiter makes of several results at once.
-/
import Mathlib.Data.List.Basic

set_option autoImplicit false

namespace Shield

variable {ε α β : Type}

/-- How a call or a task ends. -/
inductive Ended (ε α : Type) where
  | returned (a : α)
  | raised (e : ε)
  | cancelled
  deriving DecidableEq

def Ended.isCancelled : Ended ε α → Bool
  | .cancelled => true
  | _ => false

def Ended.map (f : α → β) : Ended ε α → Ended ε β
  | .returned a => .returned (f a)
  | .raised e => .raised e
  | .cancelled => .cancelled

/-- What a waiter makes of a result: a failure takes precedence over its own
    cancellation. -/
def Ended.after (cancelled : Bool) : Ended ε α → Ended ε α
  | .returned a => if cancelled then .cancelled else .returned a
  | .raised e => .raised e
  | .cancelled => .cancelled

/-- A task that waits: whether its cancellation was requested since it last
    resumed, and whether it was before. -/
structure Shielded where
  requested : Bool := false
  cancelled : Bool := false
  deriving DecidableEq

/-- The cancellation of the waiter is requested. -/
def Shielded.cancel (w : Shielded) : Shielded := { w with requested := true }

/-- The waiter resumes, and takes note of the request. -/
def Shielded.resume (w : Shielded) : Shielded := ⟨false, w.cancelled || w.requested⟩

/-- What the waiter ends with, once there is a result. -/
def Shielded.result (w : Shielded) (x : Option (Ended ε α)) : Option (Ended ε α) :=
  x.map (Ended.after w.cancelled)

@[simp] theorem after_raised {c : Bool} {e : ε} {x : Ended ε α} :
    x.after c = .raised e ↔ x = .raised e := by
  cases x with
  | returned a => cases c <;> simp [Ended.after]
  | raised e' => simp [Ended.after]
  | cancelled => simp [Ended.after]

@[simp] theorem after_returned {c : Bool} {a : α} {x : Ended ε α} :
    x.after c = .returned a ↔ x = .returned a ∧ c = false := by
  cases x with
  | returned b => cases c <;> simp [Ended.after]
  | raised e => simp [Ended.after]
  | cancelled => simp [Ended.after]

@[simp] theorem map_raised {f : α → β} {e : ε} {x : Ended ε α} :
    x.map f = .raised e ↔ x = .raised e := by
  cases x <;> simp [Ended.map]

@[simp] theorem map_returned {f : α → β} {b : β} {x : Ended ε α} :
    x.map f = .returned b ↔ ∃ a, x = .returned a ∧ f a = b := by
  cases x <;> simp [Ended.map]

@[simp] theorem after_false {x : Ended ε α} : x.after false = x := by
  cases x <;> rfl

/-! ## Several results -/

/-- The first failure among results. -/
def firstRaised : List (Ended ε α) → Option ε
  | [] => none
  | .raised e :: _ => some e
  | _ :: xs => firstRaised xs

/-- The values among results. -/
def values : List (Ended ε α) → List α
  | [] => []
  | .returned a :: xs => a :: values xs
  | _ :: xs => values xs

/-- Several results as one: the first failure, or else a cancellation, or else what
    the values come to. -/
def settle (f : List α → β) (xs : List (Ended ε α)) : Ended ε β :=
  match firstRaised xs with
  | some e => .raised e
  | none => if xs.any Ended.isCancelled then .cancelled else .returned (f (values xs))

theorem firstRaised_eq_none {xs : List (Ended ε α)} :
    firstRaised xs = none ↔ ∀ e, .raised e ∉ xs := by
  induction xs with
  | nil => simp [firstRaised]
  | cons x xs ih =>
    cases x with
    | returned a => simp [firstRaised, ih]
    | raised e =>
      exact iff_of_false (by simp [firstRaised]) fun h => h e List.mem_cons_self
    | cancelled => simp [firstRaised, ih]

/-- Some of the results are failures iff together they are one. -/
theorem settle_raised {f : List α → β} {xs : List (Ended ε α)} :
    (∃ e, settle f xs = .raised e) ↔ ∃ e, .raised e ∈ xs := by
  unfold settle
  cases h : firstRaised xs with
  | some e =>
    have hne : ¬ firstRaised xs = none := by simp [h]
    rw [firstRaised_eq_none] at hne
    push Not at hne
    exact iff_of_true ⟨e, rfl⟩ hne
  | none =>
    refine iff_of_false ?_ (by simpa using firstRaised_eq_none.1 h)
    rintro ⟨e, he⟩
    dsimp only at he
    split at he <;> cases he

/-- Together they return only if each does. -/
theorem settle_returned {f : List α → β} {xs : List (Ended ε α)} {b : β} (h : settle f xs = .returned b) :
    ∀ x ∈ xs, ∃ a, x = .returned a := by
  unfold settle at h
  split at h
  · cases h
  · rename_i hnone
    split at h
    · cases h
    · rename_i hcancelled
      intro x hx
      cases x with
      | returned a => exact ⟨a, rfl⟩
      | raised e => exact absurd hx (firstRaised_eq_none.1 hnone e)
      | cancelled => exact absurd (List.any_eq_true.2 ⟨.cancelled, hx, rfl⟩) hcancelled

end Shield
