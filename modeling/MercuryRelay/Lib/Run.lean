/-
  Runs of a labelled transition relation: invariants, splitting, and the step
  at which a property is lost.
-/
import Mathlib.Data.List.Basic

set_option autoImplicit false

namespace Transition

variable {σ ℓ : Type}

/-- `Run step s ls t`: from `s`, steps labelled `ls` lead to `t`. -/
inductive Run (step : σ → ℓ → σ → Prop) : σ → List ℓ → σ → Prop
  | nil {s} : Run step s [] s
  | cons {s l t ls u} : step s l t → Run step t ls u → Run step s (l :: ls) u

namespace Run

variable {step : σ → ℓ → σ → Prop} {s t u : σ} {l : ℓ} {ls ms : List ℓ}

theorem single (h : step s l t) : Run step s [l] t := .cons h .nil

theorem append (h : Run step s ls t) (h' : Run step t ms u) : Run step s (ls ++ ms) u := by
  induction h with
  | nil => exact h'
  | cons hs _ ih => exact .cons hs (ih h')

theorem snoc (h : Run step s ls t) (h' : step t l u) : Run step s (ls ++ [l]) u :=
  h.append (single h')

theorem split (h : Run step s (ls ++ ms) u) : ∃ t, Run step s ls t ∧ Run step t ms u := by
  induction ls generalizing s with
  | nil => exact ⟨s, .nil, h⟩
  | cons l ls ih =>
    cases h with
    | cons hs hr =>
      obtain ⟨t, h1, h2⟩ := ih hr
      exact ⟨t, .cons hs h1, h2⟩

/-- What every step keeps, a run keeps. -/
theorem invariant {I : σ → Prop} (hI : ∀ s l t, I s → step s l t → I t)
    (h : Run step s ls t) (hs : I s) : I t := by
  induction h with
  | nil => exact hs
  | cons hst _ ih => exact ih (hI _ _ _ hs hst)

/-- What every step with a label of the run keeps, the run keeps. -/
theorem invariant_mem {I : σ → Prop} (h : Run step s ls t)
    (hI : ∀ s, ∀ l ∈ ls, ∀ t, I s → step s l t → I t) (hs : I s) : I t := by
  induction h with
  | nil => exact hs
  | cons hst _ ih =>
    exact ih (fun s l hl => hI s l (List.mem_cons_of_mem _ hl))
      (hI _ _ List.mem_cons_self _ hs hst)

/-- What holds at the start, and goes on to hold with every step that extends the
    trace, holds of the trace and the end of a run. -/
theorem history {I : List ℓ → σ → Prop} (h : Run step s ls t) (h0 : I [] s)
    (hI : ∀ ms u l v, Run step s ms u → I ms u → step u l v → I (ms ++ [l]) v) : I ls t := by
  have haux : ∀ {ms u ls t}, Run step s ms u → I ms u → Run step u ls t → I (ms ++ ls) t := by
    intro ms u ls t hms hu hrun
    induction hrun generalizing ms with
    | nil => simpa using hu
    | cons hst _ ih =>
      have := ih (hms.snoc hst) (hI _ _ _ _ hms hu hst)
      rwa [List.append_assoc] at this
  exact haux .nil h0 h

/-- A relation that is reflexive, transitive and holds across a step holds
    across a run. -/
theorem relates {r : σ → σ → Prop} (hrefl : ∀ s, r s s)
    (htrans : ∀ s t u, r s t → r t u → r s u) (hstep : ∀ s l t, step s l t → r s t)
    (h : Run step s ls t) : r s t := by
  induction h with
  | nil => exact hrefl _
  | cons hst _ ih => exact htrans _ _ _ (hstep _ _ _ hst) ih

/-- A property lost along a run is lost at a step of it. -/
theorem lost {P : σ → Prop} (h : Run step s ls u) (hs : P s) (hu : ¬ P u) :
    ∃ as l bs t t', ls = as ++ l :: bs ∧ Run step s as t ∧ P t ∧ step t l t' ∧ ¬ P t' ∧
      Run step t' bs u := by
  induction h with
  | nil => exact absurd hs hu
  | @cons s l t ls u hst hr ih =>
    by_cases ht : P t
    · obtain ⟨as, l', bs, v, v', rfl, h1, h2⟩ := ih ht hu
      exact ⟨l :: as, l', bs, v, v', rfl, .cons hst h1, h2⟩
    · exact ⟨[], l, ls, s, t, rfl, .nil, hs, hst, ht, hr⟩

/-- A run of some steps is a run of any relation they satisfy. -/
theorem mono {step' : σ → ℓ → σ → Prop} (hmono : ∀ s l t, step s l t → step' s l t)
    (h : Run step s ls t) : Run step' s ls t := by
  induction h with
  | nil => exact .nil
  | cons hs _ ih => exact .cons (hmono _ _ _ hs) ih

/-- A run of the steps that satisfy a condition is a run. -/
theorem weaken {P : σ → ℓ → Prop} (h : Run (fun s l t => P s l ∧ step s l t) s ls t) :
    Run step s ls t := by
  induction h with
  | nil => exact .nil
  | cons hs _ ih => exact .cons hs.2 ih

/-- Two conditions that agree where an invariant holds select the same runs. -/
theorem restrict_congr {I : σ → Prop} {P Q : σ → ℓ → σ → Prop}
    (hI : ∀ s l t, I s → step s l t → I t) (hPQ : ∀ s l t, I s → step s l t → (P s l t ↔ Q s l t))
    (hs : I s) : Run (fun s l t => P s l t ∧ step s l t) s ls t ↔
      Run (fun s l t => Q s l t ∧ step s l t) s ls t := by
  constructor
  · intro h
    induction h with
    | nil => exact .nil
    | cons h _ ih => exact .cons ⟨(hPQ _ _ _ hs h.2).1 h.1, h.2⟩ (ih (hI _ _ _ hs h.2))
  · intro h
    induction h with
    | nil => exact .nil
    | cons h _ ih => exact .cons ⟨(hPQ _ _ _ hs h.2).2 h.1, h.2⟩ (ih (hI _ _ _ hs h.2))

/-- Steps that a label determines make runs that their labels determine. -/
theorem functional (hstep : ∀ s l t t', step s l t → step s l t' → t = t') (h : Run step s ls t)
    (h' : Run step s ls u) : t = u := by
  induction h with
  | nil =>
    cases h'
    rfl
  | cons hs _ ih =>
    cases h' with
    | cons hs' hr' =>
      obtain rfl := hstep _ _ _ _ hs hs'
      exact ih hr'

/-- A map that takes steps to steps takes runs to runs. -/
theorem map {τ m : Type} {step' : τ → m → τ → Prop} {φ : σ → τ} {ψ : ℓ → m}
    (hφ : ∀ s l t, step s l t → step' (φ s) (ψ l) (φ t)) (h : Run step s ls t) :
    Run step' (φ s) (ls.map ψ) (φ t) := by
  induction h with
  | nil => exact .nil
  | cons hs _ ih => exact .cons (hφ _ _ _ hs) ih

end Run

/-! ## Machines -/

section Machines

variable {ε ω : Type} {enabled : σ → ε → Prop} [∀ s e, Decidable (enabled s e)]
  {perform : σ → ε → σ × ω} {s : σ} {es : List ε} {r : σ × List (ε × ω)}

/-- Perform events one after another; `none` where one is not enabled. -/
def execution (enabled : σ → ε → Prop) [∀ s e, Decidable (enabled s e)] (perform : σ → ε → σ × ω) :
    σ → List ε → Option (σ × List (ε × ω))
  | s, [] => some (s, [])
  | s, e :: es =>
    if enabled s e then
      (execution enabled perform (perform s e).1 es).map fun r => (r.1, (e, (perform s e).2) :: r.2)
    else none

/-- What was performed is a run. -/
theorem run_of_execution (h : execution enabled perform s es = some r) :
    Run (fun s (l : ε × ω) t => enabled s l.1 ∧ perform s l.1 = (t, l.2)) s r.2 r.1 := by
  induction es generalizing s r with
  | nil =>
    cases h
    exact .nil
  | cons e es ih =>
    unfold execution at h
    split at h
    · rename_i he
      obtain ⟨r', hr', rfl⟩ := Option.map_eq_some_iff.1 h
      exact .cons ⟨he, rfl⟩ (ih hr')
    · cases h

end Machines

/-! ## Observers -/

section Observers

variable {γ : Type} {observe : γ → ℓ → γ} {P : γ → ℓ → Prop} {g : γ} {ls ms : List ℓ}

/-- `P` holds of an observer's state and the next label, all along a trace. -/
def Along (observe : γ → ℓ → γ) (P : γ → ℓ → Prop) : γ → List ℓ → Prop
  | _, [] => True
  | g, l :: ls => P g l ∧ Along observe P (observe g l) ls

/-- Decide `Along`, if `P` is decidable. -/
def Along.decide [∀ g l, Decidable (P g l)] : ∀ g ls, Decidable (Along observe P g ls)
  | _, [] => inferInstanceAs (Decidable True)
  | g, l :: ls =>
    have := Along.decide (observe g l) ls
    inferInstanceAs (Decidable (P g l ∧ Along observe P (observe g l) ls))

instance [∀ g l, Decidable (P g l)] : Decidable (Along observe P g ls) := Along.decide g ls

/-- An observer that relates to the state, and whose steps keep to `P` while the
    trace keeps to `D`, keeps to it along a run. -/
theorem along_run_of {step : σ → ℓ → σ → Prop} {R : σ → γ → Prop} {D : γ → ℓ → Prop} {s t : σ}
    (hstep : ∀ s g l t, R s g → D g l → step s l t → P g l ∧ R t (observe g l))
    (h : Run step s ls t) (hD : Along observe D g ls) (hs : R s g) :
    Along observe P g ls ∧ R t (ls.foldl observe g) := by
  induction h generalizing g with
  | nil => exact ⟨trivial, hs⟩
  | cons hst _ ih =>
    obtain ⟨hp, hr⟩ := hstep _ _ _ _ hs hD.1 hst
    obtain ⟨h1, h2⟩ := ih hD.2 hr
    exact ⟨⟨hp, h1⟩, h2⟩

/-- Events that can be performed one after another make a run. -/
theorem run_of_along {perform : σ → ℓ → σ} {enabled : σ → ℓ → Prop} {s : σ} (h : Along perform enabled s ls) :
    Run (fun s l t => enabled s l ∧ t = perform s l) s ls (ls.foldl perform s) := by
  induction ls generalizing s with
  | nil => exact .nil
  | cons l ls ih => exact .cons ⟨h.1, rfl⟩ (ih h.2)

end Observers

end Transition
