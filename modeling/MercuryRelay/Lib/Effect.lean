/-
  Programs that may raise and that change a state as they go; what was done before an
  exception stays done.

  `Gives m s a t`: from `s`, the program `m` returns `a` and leaves `t`.

  `Frames r m s`: however `m` ends, the state it leaves is related to `s` by `r`.  Of a
  relation that is reflexive and transitive, a program is framed if its parts are, each
  from the states in which it is run.
-/
import Mathlib.Logic.Basic

set_option autoImplicit false

namespace Effect

/-- A program over `σ` that may raise an `ε`. -/
def Program (σ ε α : Type) : Type := σ → Except ε α × σ

variable {σ ε ε' α β : Type}

namespace Program

def run (m : Program σ ε α) (s : σ) : Except ε α × σ := m s

instance : Monad (Program σ ε) where
  pure a := fun s => (.ok a, s)
  bind m k := fun s =>
    match m s with
    | (.ok a, t) => k a t
    | (.error e, t) => (.error e, t)

/-- Raise. -/
def fail (e : ε) : Program σ ε α := fun s => (.error e, s)

/-- The state. -/
def state : Program σ ε σ := fun s => (.ok s, s)

/-- Raise what a computation without effect raises. -/
def lift (x : Except ε α) : Program σ ε α := fun s => (x, s)

/-- Run a program and tell how it ends. -/
def attempt (m : Program σ ε α) : Program σ ε' (Except ε α) := fun s => (.ok (m s).1, (m s).2)

/-- `try` and `except`. -/
def rescue (m : Program σ ε α) (h : ε → Program σ ε' α) : Program σ ε' α := do
  match ← m.attempt with
  | .ok a => pure a
  | .error e => h e

end Program

open Program

variable {m : Program σ ε α} {k : α → Program σ ε β} {s t u : σ} {a : α} {b : β} {e : ε}

theorem run_bind (m : Program σ ε α) (k : α → Program σ ε β) (s : σ) :
    (m >>= k).run s =
      match m.run s with
      | (.ok a, t) => (k a).run t
      | (.error e, t) => (.error e, t) := rfl

/-! ## Returning -/

/-- From `s`, the program returns `a` and leaves `t`. -/
def Gives (m : Program σ ε α) (s : σ) (a : α) (t : σ) : Prop := m.run s = (.ok a, t)

theorem gives_pure {a' : α} : Gives (pure a : Program σ ε α) s a' t ↔ a = a' ∧ s = t := by
  constructor
  · intro h
    cases h
    exact ⟨rfl, rfl⟩
  · rintro ⟨rfl, rfl⟩
    rfl

theorem not_gives_fail : ¬ Gives (fail e : Program σ ε α) s a t := by
  intro h
  cases h

theorem gives_lift {x : Except ε α} : Gives (lift x : Program σ ε α) s a t ↔ x = .ok a ∧ s = t := by
  constructor
  · intro h
    exact ⟨congrArg Prod.fst h, congrArg Prod.snd h⟩
  · rintro ⟨rfl, rfl⟩
    rfl

theorem gives_state {a : σ} : Gives (state : Program σ ε σ) s a t ↔ a = s ∧ t = s := by
  constructor
  · intro h
    cases h
    exact ⟨rfl, rfl⟩
  · rintro ⟨rfl, rfl⟩
    rfl

theorem gives_bind : Gives (m >>= k) s b u ↔ ∃ a t, Gives m s a t ∧ Gives (k a) t b u := by
  unfold Gives
  rw [run_bind]
  constructor
  · intro h
    cases hm : m.run s with
    | mk r t =>
      rw [hm] at h
      cases r with
      | ok a => exact ⟨a, t, rfl, h⟩
      | error e => cases h
  · rintro ⟨a, t, hm, hk⟩
    rw [hm]
    exact hk

/-- What follows a program that returns runs from where it was left. -/
theorem Gives.run (h : Gives m s a t) : (m >>= k).run s = (k a).run t := by
  rw [run_bind, show m.run s = _ from h]

theorem gives_attempt {r : Except ε α} : Gives (m.attempt : Program σ ε' (Except ε α)) s r t ↔ m.run s = (r, t) := by
  constructor
  · intro h
    cases h
    rfl
  · intro h
    show (Except.ok (m.run s).1, (m.run s).2) = _
    rw [h]

/-- What `try` returns was returned, or the handler returned it. -/
theorem gives_rescue {h : ε → Program σ ε' α} (hgives : Gives (m.rescue h) s a u) :
    Gives m s a u ∨ ∃ e t, m.run s = (.error e, t) ∧ Gives (h e) t a u := by
  obtain ⟨r, t, hr, hgives⟩ := gives_bind.1 hgives
  cases r with
  | ok a' =>
    obtain ⟨rfl, rfl⟩ := gives_pure.1 hgives
    exact .inl (gives_attempt.1 hr)
  | error e => exact .inr ⟨e, t, gives_attempt.1 hr, hgives⟩

/-! ## Frames -/

/-- However the program ends, the state it leaves is related to `s`. -/
def Frames (r : σ → σ → Prop) (m : Program σ ε α) (s : σ) : Prop := r s (m.run s).2

section

variable {r : σ → σ → Prop}

theorem Frames.of_gives (h : Frames r m s) (hm : Gives m s a t) : r s t := by
  unfold Frames at h
  rwa [hm] at h

theorem frames_pure (hrefl : ∀ s, r s s) : Frames r (pure a : Program σ ε α) s := hrefl s

theorem frames_fail (hrefl : ∀ s, r s s) : Frames r (fail e : Program σ ε α) s := hrefl s

theorem frames_lift (hrefl : ∀ s, r s s) {x : Except ε α} : Frames r (lift x : Program σ ε α) s := hrefl s

theorem frames_state (hrefl : ∀ s, r s s) : Frames r (state : Program σ ε σ) s := hrefl s

theorem frames_attempt (h : Frames r m s) : Frames r (m.attempt : Program σ ε' (Except ε α)) s := h

/-- A program framed by `r` and, where it returns, another one framed by `r'`. -/
theorem frames_seq {r' r'' : σ → σ → Prop} (hfirst : ∀ s t, r s t → r'' s t)
    (hboth : ∀ s t u, r s t → r' t u → r'' s u) (hm : Frames r m s)
    (hk : ∀ a t, Gives m s a t → Frames r' (k a) t) : Frames r'' (m >>= k) s := by
  unfold Frames at hm ⊢
  rw [run_bind]
  cases h : m.run s with
  | mk x t =>
    rw [h] at hm
    cases x with
    | ok a => exact hboth _ _ _ hm (hk a t h)
    | error e => exact hfirst _ _ hm

theorem frames_bind (htrans : ∀ s t u, r s t → r t u → r s u) (hm : Frames r m s)
    (hk : ∀ a t, Gives m s a t → Frames r (k a) t) : Frames r (m >>= k) s :=
  frames_seq (fun _ _ h => h) htrans hm hk

theorem frames_rescue (hrefl : ∀ s, r s s) (htrans : ∀ s t u, r s t → r t u → r s u)
    {h : ε → Program σ ε' α} (hm : Frames r m s) (hh : ∀ e t, m.run s = (.error e, t) → Frames r (h e) t) :
    Frames r (m.rescue h) s := by
  refine frames_bind htrans (frames_attempt hm) fun x t hx => ?_
  cases x with
  | ok a => exact frames_pure hrefl
  | error e => exact hh e t (gives_attempt.1 hx)

end

end Effect
