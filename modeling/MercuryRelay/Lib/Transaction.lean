/-
  Transactions over one persisted value.

  A transaction reads and replaces the value, reads a clock, draws random
  octets and meets storage faults; it can raise at any point, and what it
  wrote before stays written.  `World` holds the persisted value and the
  answers the clock, the random source and the storage will give, so a
  transaction is a function that can be run.

  `Returns m a w w'`: from `w`, the transaction `m` returns `a` and leaves `w'`.

  `wp m E Q f rs`: from the value `f` and with the clock readings `rs`, the
  transaction `m` either raises some `e` leaving a value in `E e`, or returns
  some `a` leaving a value in `Q a`, whatever the draws and the faults.
-/
import Mathlib.Data.Set.Basic
import MercuryRelay.Python.Text

set_option autoImplicit false

namespace Transaction

open Python (Bytes)

/-- The persisted value and the answers still to come. -/
structure World (σ : Type) where
  file : σ
  readings : List (Option ℤ) := []
  draws : List (Option Bytes) := []
  faults : List Bool := []

/-- A transaction over `σ` that may raise an `ε`. -/
abbrev Txn (σ ε α : Type) := ExceptT ε (StateM (World σ)) α

variable {σ ε α β : Type}

/-- Run `m`, keeping the persisted value. -/
def exec (m : Txn σ ε α) (w : World σ) : Except ε α × σ :=
  ((m.run.run w).1, (m.run.run w).2.file)

/-- One storage access: it fails with `e` if the next fault says so. -/
def access (e : ε) : Txn σ ε Unit := fun w =>
  match w.faults with
  | [] => (.ok (), w)
  | b :: bs => (if b then .error e else .ok (), { w with faults := bs })

/-- The persisted value. -/
def load : Txn σ ε σ := fun w => (.ok w.file, w)

/-- Replace the persisted value. -/
def store (s : σ) : Txn σ ε Unit := fun w => (.ok (), { w with file := s })

/-- One clock reading; a clock that raises or has no reading left gives `e`. -/
def clock (e : ε) : Txn σ ε ℤ := fun w =>
  match w.readings with
  | [] => (.error e, w)
  | r :: rs => (match r with | some t => .ok t | none => .error e, { w with readings := rs })

/-- `n` random octets; a source that fails or answers another length gives `e`. -/
def draw (n : ℕ) (e : ε) : Txn σ ε {b : Bytes // b.length = n} := fun w =>
  match w.draws with
  | [] => (.error e, w)
  | r :: rs =>
    (match r with
      | some b => if h : b.length = n then .ok ⟨b, h⟩ else .error e
      | none => .error e,
     { w with draws := rs })

/-! ## Runs that return -/

/-- `m` runs from `w` to `w'` and returns `a`. -/
def Returns (m : Txn σ ε α) (a : α) (w w' : World σ) : Prop := m.run.run w = (.ok a, w')

theorem run_bind (m : Txn σ ε β) (k : β → Txn σ ε α) (w : World σ) :
    (m >>= k).run.run w =
      match m.run.run w with
      | (.ok b, w') => (k b).run.run w'
      | (.error e, w') => (.error e, w') := by
  change (ExceptT.bind m k) w = _
  simp only [ExceptT.bind, ExceptT.mk, ExceptT.bindCont, bind, StateT.bind, ExceptT.run,
    StateT.run]
  rcases m w with ⟨b | b, w'⟩ <;> rfl

section Returns

variable {m : Txn σ ε α} {a : α} {w w' w'' : World σ} {e : ε}

theorem Returns.exec (h : Returns m a w w') : exec m w = (.ok a, w'.file) := by
  unfold Transaction.exec
  rw [h]

theorem returns_pure : Returns (pure a : Txn σ ε α) a w w := rfl

theorem Returns.bind {b : β} {k : α → Txn σ ε β} (h : Returns m a w w')
    (hk : Returns (k a) b w' w'') : Returns (m >>= k) b w w'' := by
  unfold Returns at *
  rw [run_bind, h]
  exact hk

theorem Returns.map {g : α → β} (h : Returns m a w w') : Returns (g <$> m) (g a) w w' := by
  rw [map_eq_pure_bind]
  exact h.bind returns_pure

theorem returns_access (h : w.faults = []) : Returns (access e : Txn σ ε Unit) () w w := by
  show (match w.faults with
    | [] => ((.ok (), w) : Except ε Unit × World σ)
    | b :: bs => (if b then .error e else .ok (), { w with faults := bs })) = (.ok (), w)
  rw [h]

theorem returns_load : Returns (load : Txn σ ε σ) w.file w w := rfl

theorem returns_store {s : σ} : Returns (store s : Txn σ ε Unit) () w { w with file := s } := rfl

theorem returns_clock {t : ℤ} {rs : List (Option ℤ)} (h : w.readings = some t :: rs) :
    Returns (clock e : Txn σ ε ℤ) t w { w with readings := rs } := by
  show (match w.readings with
    | [] => ((.error e, w) : Except ε ℤ × World σ)
    | r :: rs =>
      (match r with | some t => .ok t | none => .error e, { w with readings := rs })) =
    (.ok t, { w with readings := rs })
  rw [h]

theorem returns_draw {n : ℕ} {b : {b : Bytes // b.length = n}} {ds : List (Option Bytes)}
    (h : w.draws = some b.1 :: ds) :
    Returns (draw n e : Txn σ ε _) b w { w with draws := ds } := by
  show (match w.draws with
    | [] => ((.error e, w) : Except ε {b : Bytes // b.length = n} × World σ)
    | r :: rs =>
      (match r with
        | some b => if h : b.length = n then .ok ⟨b, h⟩ else .error e
        | none => .error e,
       { w with draws := rs })) = (.ok b, { w with draws := ds })
  rw [h]
  simp [b.2]

/-! What a run that returns has done. -/

theorem returns_of_exec (h : (exec m w).1 = .ok a) : ∃ w', Returns m a w w' :=
  ⟨(m.run.run w).2, Prod.ext h rfl⟩

theorem Returns.split {b : β} {k : α → Txn σ ε β} (h : Returns (m >>= k) b w w'') :
    ∃ a w', Returns m a w w' ∧ Returns (k a) b w' w'' := by
  unfold Returns at h
  rw [run_bind] at h
  rcases hm : m.run.run w with ⟨e | a, w'⟩
  · rw [hm] at h
    cases h
  · rw [hm] at h
    exact ⟨a, w', hm, h⟩

theorem Returns.of_map {g : α → β} {b : β} (h : Returns (g <$> m) b w w') : ∃ a, Returns m a w w' := by
  rw [map_eq_pure_bind] at h
  obtain ⟨a, w₁, hm, hpure⟩ := h.split
  cases hpure
  exact ⟨a, hm⟩

theorem not_returns_throw : ¬ Returns (throw e : Txn σ ε α) a w w' := fun h => by cases h

/-- The access did not fail. -/
theorem Returns.of_access (h : Returns (access e : Txn σ ε Unit) () w w') :
    w.faults.head?.all (· = false) ∧ w' = { w with faults := w.faults.tail } := by
  have hrun : (match w.faults with
    | [] => ((.ok (), w) : Except ε Unit × World σ)
    | b :: bs => (if b then .error e else .ok (), { w with faults := bs })) = (.ok (), w') := h
  obtain ⟨file, readings, draws, faults⟩ := w
  cases faults with
  | nil =>
    cases hrun
    exact ⟨rfl, rfl⟩
  | cons b bs =>
    cases b with
    | true => cases hrun
    | false =>
      cases hrun
      exact ⟨rfl, rfl⟩

theorem Returns.of_load {s : σ} (h : Returns (load : Txn σ ε σ) s w w') : s = w.file ∧ w' = w := by
  cases h
  exact ⟨rfl, rfl⟩

/-- The clock was read. -/
theorem Returns.of_clock {t : ℤ} (h : Returns (clock e : Txn σ ε ℤ) t w w') :
    w.readings.head? = some (some t) ∧ w' = { w with readings := w.readings.tail } := by
  have hrun : (match w.readings with
    | [] => ((.error e, w) : Except ε ℤ × World σ)
    | r :: rs =>
      (match r with | some t => .ok t | none => .error e, { w with readings := rs })) = (.ok t, w') := h
  obtain ⟨file, readings, draws, faults⟩ := w
  cases readings with
  | nil => cases hrun
  | cons r rs =>
    cases r with
    | none => cases hrun
    | some r =>
      cases hrun
      exact ⟨rfl, rfl⟩

end Returns

/-! ## Weakest preconditions -/

/-- Every run of `m` from `f` with clock readings `rs` ends in `E` or, with the
    readings that are left, in `Q`. -/
def wp (m : Txn σ ε α) (E : ε → σ → Prop) (Q : α → σ → List (Option ℤ) → Prop) (f : σ)
    (rs : List (Option ℤ)) : Prop :=
  ∀ w : World σ, w.file = f → w.readings = rs →
    match (m.run.run w).1 with
    | .ok a => Q a (m.run.run w).2.file (m.run.run w).2.readings
    | .error e => E e (m.run.run w).2.file

variable {E E' : ε → σ → Prop} {Q Q' : α → σ → List (Option ℤ) → Prop} {f : σ}
  {rs : List (Option ℤ)}

theorem wp_pure {a : α} (h : Q a f rs) : wp (pure a : Txn σ ε α) E Q f rs := by
  rintro w rfl rfl; exact h

theorem wp_throw {e : ε} (h : E e f) : wp (throw e : Txn σ ε α) E Q f rs := by
  rintro w rfl -; exact h

theorem wp_bind {m : Txn σ ε β} {k : β → Txn σ ε α}
    (h : wp m E (fun b f' rs' => wp (k b) E Q f' rs') f rs) : wp (m >>= k) E Q f rs := by
  intro w hw hr
  have h1 := h w hw hr
  rcases hm : m.run.run w with ⟨e | b, w'⟩
  · rw [hm] at h1; rw [run_bind, hm]; exact h1
  · rw [hm] at h1; rw [run_bind, hm]; exact h1 w' rfl rfl

theorem wp_mono {m : Txn σ ε α} (h : wp m E Q f rs) (hE : ∀ e s, E e s → E' e s)
    (hQ : ∀ a s rs', Q a s rs' → Q' a s rs') : wp m E' Q' f rs := by
  intro w hw hr
  have h1 := h w hw hr
  cases hm : (m.run.run w).1 with
  | ok a => rw [hm] at h1; exact hQ _ _ _ h1
  | error e => rw [hm] at h1; exact hE _ _ h1

theorem wp_map {g : β → α} {m : Txn σ ε β}
    (h : wp m E (fun b f' rs' => Q (g b) f' rs') f rs) : wp (g <$> m) E Q f rs := by
  rw [map_eq_pure_bind]
  exact wp_bind (wp_mono h (fun _ _ => id) fun _ _ _ hb => wp_pure hb)

theorem wp_access {e : ε} {Q : Unit → σ → List (Option ℤ) → Prop} (hE : E e f) (hQ : Q () f rs) :
    wp (access e : Txn σ ε Unit) E Q f rs := by
  rintro w rfl rfl
  have hrun : ((access e : Txn σ ε Unit).run.run w) =
      match w.faults with
      | [] => (.ok (), w)
      | b :: bs => (if b then .error e else .ok (), { w with faults := bs }) := rfl
  rw [hrun]
  rcases w.faults with _ | ⟨b, bs⟩
  · exact hQ
  · cases b
    · exact hQ
    · exact hE

theorem wp_load {Q : σ → σ → List (Option ℤ) → Prop} (h : Q f f rs) :
    wp (load : Txn σ ε σ) E Q f rs := by
  rintro w rfl rfl; exact h

theorem wp_store {s : σ} {Q : Unit → σ → List (Option ℤ) → Prop} (h : Q () s rs) :
    wp (store s : Txn σ ε Unit) E Q f rs := by
  rintro w - rfl; exact h

theorem wp_clock {e : ε} {Q : ℤ → σ → List (Option ℤ) → Prop} (hE : E e f)
    (hQ : ∀ t rs', rs = some t :: rs' → Q t f rs') : wp (clock e : Txn σ ε ℤ) E Q f rs := by
  rintro w rfl rfl
  have hrun : ((clock e : Txn σ ε ℤ).run.run w) =
      match w.readings with
      | [] => (.error e, w)
      | r :: rs =>
        (match r with | some t => .ok t | none => .error e, { w with readings := rs }) := rfl
  rw [hrun]
  rcases hr : w.readings with _ | ⟨_ | t, rs⟩
  · exact hE
  · exact hE
  · exact hQ t rs hr

theorem wp_draw {n : ℕ} {e : ε} {Q : {b : Bytes // b.length = n} → σ → List (Option ℤ) → Prop}
    (hE : E e f) (hQ : ∀ b, Q b f rs) : wp (draw n e : Txn σ ε _) E Q f rs := by
  rintro w rfl rfl
  have hrun : ((draw n e : Txn σ ε _).run.run w) =
      match w.draws with
      | [] => (.error e, w)
      | r :: rs =>
        (match r with
          | some b => if h : b.length = n then .ok ⟨b, h⟩ else .error e
          | none => .error e,
         { w with draws := rs }) := rfl
  rw [hrun]
  rcases w.draws with _ | ⟨r | b, rs⟩
  · exact hE
  · exact hE
  · by_cases hb : b.length = n
    · simp only [hb, ↓reduceDIte]; exact hQ _
    · simp only [hb, ↓reduceDIte]; exact hE

/-- How an execution ends: in `E` or in `Q`. -/
def Ends (E : ε → σ → Prop) (Q : α → σ → Prop) : Except ε α × σ → Prop
  | (.ok a, s) => Q a s
  | (.error e, s) => E e s

theorem Ends.ok {Q : α → σ → Prop} {x : Except ε α × σ} {a : α} (h : Ends E Q x)
    (hx : x.1 = .ok a) : Q a x.2 := by
  rcases x with ⟨e | b, s⟩
  · cases hx
  · cases hx; exact h

/-- What `wp` says of a run. -/
theorem exec_of_wp {m : Txn σ ε α} {Q : α → σ → Prop} {w : World σ}
    (h : wp m E (fun a f' _ => Q a f') w.file w.readings) : Ends E Q (exec m w) := by
  have h1 := h w rfl rfl
  unfold exec
  cases hx : (m.run.run w).1 with
  | ok a => rw [hx] at h1; exact h1
  | error e => rw [hx] at h1; exact h1

end Transaction
