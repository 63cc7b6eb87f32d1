/-
  What the JSON reader does, whatever its fuel.

  * `readMono`: more fuel reads the same;
  * `loadsStrict_built`: what holds of the parts holds of a value that was read;
  * `loadsStrict_distinct`: no object that was read repeats a key.
-/
import Mathlib.Data.List.Nodup
import MercuryRelay.Python.Json

set_option autoImplicit false

namespace Python

variable {m n fuel : ℕ} {s : Str}

/-! ## Fuel -/

/-- What is read with fuel `m` is read with fuel `n`. -/
structure ReadMono (m n : ℕ) : Prop where
  value : ∀ {s r}, readValue m s = some r → readValue n s = some r
  items : ∀ {acc s r}, readItems m acc s = some r → readItems n acc s = some r
  members : ∀ {acc s r}, readMembers m acc s = some r → readMembers n acc s = some r

theorem readValue_succ (h : ReadMono m n) {r : Json × Str} (hr : readValue (m + 1) s = some r) :
    readValue (n + 1) s = some r := by
  unfold readValue at hr ⊢
  split at hr
  · exact hr
  · split at hr
    · exact hr
    · obtain ⟨x, hx, rfl⟩ := Option.map_eq_some_iff.1 hr
      rw [h.members hx]
      rfl
  · split at hr
    · exact hr
    · obtain ⟨x, hx, rfl⟩ := Option.map_eq_some_iff.1 hr
      rw [h.items hx]
      rfl
  all_goals exact hr

theorem readItems_succ (h : ReadMono m n) {acc : List Json} {r : List Json × Str}
    (hr : readItems (m + 1) acc s = some r) : readItems (n + 1) acc s = some r := by
  unfold readItems at hr ⊢
  split at hr
  · cases hr
  · rename_i hvalue
    rw [h.value hvalue]
    dsimp only
    split at hr
    · exact hr
    · exact h.items hr
    · cases hr

theorem readMembers_succ (h : ReadMono m n) {acc : List (Str × Json)} {r : List (Str × Json) × Str}
    (hr : readMembers (m + 1) acc s = some r) : readMembers (n + 1) acc s = some r := by
  unfold readMembers at hr ⊢
  split at hr
  · split at hr
    · cases hr
    · split at hr
      · split at hr
        · cases hr
        · rename_i hvalue
          rw [h.value hvalue]
          dsimp only
          split at hr
          · cases hr
          · rename_i hnew
            rw [if_neg hnew]
            split at hr
            · exact hr
            · exact h.members hr
            · cases hr
      · cases hr
  · cases hr

/-- **More fuel reads the same.** -/
theorem readMono : ∀ {m n : ℕ}, m ≤ n → ReadMono m n
  | 0, _, _ => ⟨fun h => by simp [readValue] at h, fun h => by simp [readItems] at h,
      fun h => by simp [readMembers] at h⟩
  | m + 1, 0, h => absurd h (Nat.not_succ_le_zero m)
  | m + 1, n + 1, h =>
    have ih := readMono (Nat.le_of_succ_le_succ h)
    ⟨readValue_succ ih, readItems_succ ih, readMembers_succ ih⟩

/-! ## Keys -/

namespace Json

mutual

/-- No object has a key twice. -/
def distinct : Json → Bool
  | arr items => distinctItems items
  | obj members => decide (members.map (·.1)).Nodup && distinctMembers members
  | _ => true

def distinctItems : List Json → Bool
  | [] => true
  | v :: vs => distinct v && distinctItems vs

def distinctMembers : List (Str × Json) → Bool
  | [] => true
  | (_, v) :: ms => distinct v && distinctMembers ms

end

theorem distinctItems_iff {vs : List Json} : distinctItems vs = true ↔ ∀ v ∈ vs, v.distinct = true := by
  induction vs with
  | nil => simp [distinctItems]
  | cons v vs ih => simp [distinctItems, ih]

theorem distinctMembers_iff {ms : List (Str × Json)} :
    distinctMembers ms = true ↔ ∀ m ∈ ms, m.2.distinct = true := by
  induction ms with
  | nil => simp [distinctMembers]
  | cons m ms ih => simp [distinctMembers, ih]

end Json

/-- What holds of numbers as they are read and of the other atoms, and of a list
    or an object, whose keys differ, if it holds of its parts. -/
structure Built (P : Json → Prop) : Prop where
  null : P .null
  bool : ∀ b, P (.bool b)
  str : ∀ s, P (.str s)
  number : ∀ {neg s v t}, readNumber neg s = some (v, t) → P v
  arr : ∀ {vs}, (∀ v ∈ vs, P v) → P (.arr vs)
  obj : ∀ {ms : List (Str × Json)}, (ms.map (·.1)).Nodup → (∀ m ∈ ms, P m.2) → P (.obj ms)

/-- It holds of what is read with this fuel, if it holds of what was read before. -/
structure ReadBuilt (P : Json → Prop) (fuel : ℕ) : Prop where
  value : ∀ {s v t}, readValue fuel s = some (v, t) → P v
  items : ∀ {acc s vs t}, readItems fuel acc s = some (vs, t) → (∀ v ∈ acc, P v) → ∀ v ∈ vs, P v
  members : ∀ {acc s ms t}, readMembers fuel acc s = some (ms, t) →
    (acc.map (·.1)).Nodup ∧ (∀ m ∈ acc, P m.2) → (ms.map (·.1)).Nodup ∧ ∀ m ∈ ms, P m.2

section Built

variable {P : Json → Prop} {v : Json} {t : Str}

theorem readValue_built (hP : Built P) (h : ReadBuilt P fuel)
    (hr : readValue (fuel + 1) s = some (v, t)) : P v := by
  unfold readValue at hr
  split at hr
  · obtain ⟨x, -, hx⟩ := Option.map_eq_some_iff.1 hr
    cases hx
    exact hP.str _
  · split at hr
    · cases hr
      exact hP.obj (by simp) (by simp)
    · obtain ⟨x, hread, hx⟩ := Option.map_eq_some_iff.1 hr
      cases hx
      obtain ⟨hkeys, hvalues⟩ := h.members (t := x.2) hread ⟨by simp, by simp⟩
      exact hP.obj hkeys hvalues
  · split at hr
    · cases hr
      exact hP.arr (by simp)
    · obtain ⟨x, hread, hx⟩ := Option.map_eq_some_iff.1 hr
      cases hx
      exact hP.arr (h.items (t := x.2) hread (by simp))
  · cases hr; exact hP.null
  · cases hr; exact hP.bool _
  · cases hr; exact hP.bool _
  · exact hP.number hr
  · exact hP.number hr

theorem readItems_built (h : ReadBuilt P fuel) {acc vs : List Json}
    (hr : readItems (fuel + 1) acc s = some (vs, t)) (hacc : ∀ v ∈ acc, P v) : ∀ v ∈ vs, P v := by
  unfold readItems at hr
  split at hr
  · cases hr
  · rename_i v s' hvalue
    have hcons : ∀ w ∈ v :: acc, P w := by
      rw [List.forall_mem_cons]
      exact ⟨h.value hvalue, hacc⟩
    split at hr
    · cases hr
      intro w hw
      exact hcons w (List.mem_reverse.1 hw)
    · exact h.items hr hcons
    · cases hr

theorem readMembers_built (h : ReadBuilt P fuel) {acc ms : List (Str × Json)}
    (hr : readMembers (fuel + 1) acc s = some (ms, t))
    (hacc : (acc.map (·.1)).Nodup ∧ ∀ m ∈ acc, P m.2) :
    (ms.map (·.1)).Nodup ∧ ∀ m ∈ ms, P m.2 := by
  unfold readMembers at hr
  split at hr
  · split at hr
    · cases hr
    · rename_i k s' hkey
      split at hr
      · split at hr
        · cases hr
        · rename_i v s'' hvalue
          split at hr
          · cases hr
          · rename_i hnew
            have hcons : (((k, v) :: acc).map (·.1)).Nodup ∧ ∀ m ∈ (k, v) :: acc, P m.2 := by
              rw [List.map_cons, List.nodup_cons, List.forall_mem_cons]
              refine ⟨⟨?_, hacc.1⟩, h.value hvalue, hacc.2⟩
              intro hmem
              obtain ⟨m, hm, hkeyed⟩ := List.mem_map.1 hmem
              exact hnew (List.any_eq_true.2 ⟨m, hm, by simpa using hkeyed⟩)
            split at hr
            · cases hr
              rw [List.map_reverse, List.nodup_reverse]
              exact ⟨hcons.1, fun m hm => hcons.2 m (List.mem_reverse.1 hm)⟩
            · exact h.members hr hcons
            · cases hr
      · cases hr
  · cases hr

theorem readBuilt (hP : Built P) (fuel : ℕ) : ReadBuilt P fuel := by
  induction fuel with
  | zero =>
    exact ⟨fun h => by simp [readValue] at h, fun h => by simp [readItems] at h,
      fun h => by simp [readMembers] at h⟩
  | succ fuel ih => exact ⟨readValue_built hP ih, readItems_built ih, readMembers_built ih⟩

/-- **What holds of the parts holds of a value that was read.** -/
theorem loadsStrict_built (hP : Built P) {depths : JsonDepths} {text : Str}
    (h : loadsStrict depths text = some v) : P v := by
  unfold loadsStrict at h
  split at h
  · cases h
  · split at h
    · rename_i hread
      split at h
      · cases h
        exact (readBuilt hP _).value hread
      · cases h
    · cases h

/-- What is built so has members for which it holds too. -/
theorem Built.members (hP : Built P) : Built fun v => P v ∧ ∀ ms, v = .obj ms → ∀ m ∈ ms, P m.2 :=
  { null := ⟨hP.null, by simp⟩
    bool := fun b => ⟨hP.bool b, by simp⟩
    str := fun s => ⟨hP.str s, by simp⟩
    number := fun {neg s v t} h => by
      refine ⟨hP.number h, ?_⟩
      unfold readNumber at h
      dsimp only at h
      rintro ms rfl
      repeat' split at h
      all_goals cases h
    arr := fun hvs => ⟨hP.arr fun v hv => (hvs v hv).1, by simp⟩
    obj := fun hkeys hms => by
      refine ⟨hP.obj hkeys fun m hm => (hms m hm).1, ?_⟩
      rintro ms' hms' m hm
      cases hms'
      exact (hms m hm).1 }

theorem loadsStrict_member (hP : Built P) {depths : JsonDepths} {text : Str}
    {ms : List (Str × Json)} (h : loadsStrict depths text = some (.obj ms)) : ∀ m ∈ ms, P m.2 :=
  (loadsStrict_built hP.members h).2 ms rfl

end Built

/-- **A value that was read is no deeper than the reader goes.** -/
theorem loadsStrict_depth {depths : JsonDepths} {text : Str} {v : Json}
    (h : loadsStrict depths text = some v) : v.depth ≤ depths.read := by
  unfold loadsStrict at h
  split at h
  · cases h
  · split at h
    · split at h
      · rename_i hread
        cases h
        exact hread.2
      · cases h
    · cases h

theorem takeDigits_digits (s : Str) : ∀ c ∈ (takeDigits s).1, 48 ≤ c ∧ c ≤ 57 := by
  induction s with
  | nil => intro c hc; cases hc
  | cons d s ih =>
    unfold takeDigits
    split
    · rename_i hd
      rw [List.forall_mem_cons]
      exact ⟨hd, ih⟩
    · intro c hc
      cases hc

/-- A number is an integer of few digits, or a float. -/
theorem readNumber_cases {neg : Bool} {v : Json} {t : Str} (h : readNumber neg s = some (v, t)) :
    (∃ ds : Str, v = .int (if neg then -(digitsValue ds : ℤ) else digitsValue ds) ∧
      (∀ c ∈ ds, 48 ≤ c ∧ c ≤ 57) ∧ ds.length ≤ intMaxStrDigits) ∨
    ∃ n e, v = .float (.ofDecimal neg n e) := by
  unfold readNumber at h
  dsimp only at h
  split at h
  · cases h
  · rename_i ds u hwhole
    have hds : ∀ c ∈ ds, 48 ≤ c ∧ c ≤ 57 := by
      split at hwhole
      · cases hwhole
        simp
      · split at hwhole
        · have hfst : (takeDigits _).1 = ds := congrArg Prod.fst (Option.some.inj hwhole)
          rw [← hfst]
          exact takeDigits_digits _
        · cases hwhole
      · cases hwhole
    split at h
    · split at h
      · cases h
      · rename_i hlen
        cases h
        exact .inl ⟨ds, rfl, hds, not_lt.1 hlen⟩
    · cases h
      exact .inr ⟨_, _, rfl⟩
    · cases h
      exact .inr ⟨_, _, rfl⟩

/-- **No object that was read repeats a key.** -/
theorem loadsStrict_distinct {depths : JsonDepths} {text : Str} {v : Json}
    (h : loadsStrict depths text = some v) : v.distinct = true := by
  have hbuilt : Built (fun v => v.distinct = true) :=
    { null := rfl
      bool := fun _ => rfl
      str := fun _ => rfl
      number := fun h => by
        rcases readNumber_cases h with ⟨ds, rfl, -, -⟩ | ⟨n, e, rfl⟩ <;> rfl
      arr := fun hvs => by rwa [Json.distinct, Json.distinctItems_iff]
      obj := fun hkeys hvalues => by
        simp [Json.distinct, hkeys, Json.distinctMembers_iff.2 hvalues] }
  exact loadsStrict_built hbuilt h

/-! ## Members -/

/-- The members that are read come after those that were. -/
theorem readMembers_prefix {acc ms : List (Str × Json)} {t : Str} (h : readMembers n acc s = some (ms, t)) :
    ∃ rest, ms = acc.reverse ++ rest := by
  induction n generalizing acc s with
  | zero => simp [readMembers] at h
  | succ n ih =>
    unfold readMembers at h
    split at h
    · split at h
      · cases h
      · rename_i k u hkey
        split at h
        · split at h
          · cases h
          · rename_i v w hvalue
            split at h
            · cases h
            · split at h
              · cases h
                exact ⟨[(k, v)], by simp⟩
              · obtain ⟨rest, rfl⟩ := ih h
                exact ⟨(k, v) :: rest, by simp⟩
              · cases h
        · cases h
    · cases h

end Python
