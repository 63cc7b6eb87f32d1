/-
  The payloads of child events (lease_recovery.py, `observe`).

  What is kept of a payload has bounded fields, and what is merged keeps the
  child that both name: its row keeps its key.

  * `cleanPayload_sound`, `mergePayload_sound`: payloads are sound;
  * `childKey_merge`: merging keeps the child.
-/
import MercuryRelay.Recovery.File
import MercuryRelay.Recovery.Observation

set_option autoImplicit false

namespace MercuryRelay

open Python

open RecoveryProjection

variable {raw : List (Str × Json)} {previous payload : Payload} {k : Str}

/-! ## Cleaning -/

theorem lookup_eq_get (members : List (Str × Json)) (k : Str) : Json.lookup members k = Dict.get members k := rfl

/-- The texts that are kept of a payload. -/
def cleanTexts (raw : List (Str × Json)) : Payload :=
  raw.filterMap fun (k, v) =>
    match Dict.get textFields k, v with
    | some longest, .str s => some (k, .str (s.take longest))
    | _, _ => none

/-- The counters that are kept of a payload. -/
def cleanCounts (raw : List (Str × Json)) : Payload :=
  countFields.filterMap fun k => (counter (Json.lookup raw k)).map fun n => (k, .int n)

theorem cleanPayload_eq (raw : List (Str × Json)) : cleanPayload raw = cleanTexts raw ++ cleanCounts raw := rfl

theorem mem_cleanTexts {m : Str × Json} (h : m ∈ cleanTexts raw) :
    ∃ s longest, (m.1, .str s) ∈ raw ∧ Dict.get textFields m.1 = some longest ∧ m.2 = .str (s.take longest) := by
  obtain ⟨⟨k, v⟩, hmem, hkept⟩ := List.mem_filterMap.1 h
  dsimp only at hkept
  split at hkept
  · rename_i longest s hlongest
    cases hkept
    exact ⟨s, longest, hmem, hlongest, rfl⟩
  · cases hkept

theorem mem_cleanCounts {m : Str × Json} (h : m ∈ cleanCounts raw) :
    ∃ n, m.1 ∈ countFields ∧ counter (Json.lookup raw m.1) = some n ∧ m.2 = .int n := by
  obtain ⟨k, hk, hkept⟩ := List.mem_filterMap.1 h
  obtain ⟨n, hn, rfl⟩ := Option.map_eq_some_iff.1 hkept
  exact ⟨n, hk, hn, rfl⟩

theorem counter_spec {v : Option Json} {n : ℤ} (h : counter v = some n) : v = some (.int n) ∧ 0 ≤ n ∧ n ≤ 10000 := by
  unfold counter at h
  split at h
  · split at h
    · rename_i hbounds
      cases h
      exact ⟨rfl, hbounds⟩
    · cases h
  · cases h

theorem keys_cleanTexts (raw : List (Str × Json)) : ((cleanTexts raw).map (·.1)).Sublist (raw.map (·.1)) := by
  induction raw with
  | nil => exact List.Sublist.refl _
  | cons m raw ih =>
    obtain ⟨k, v⟩ := m
    unfold cleanTexts at ih ⊢
    rw [List.filterMap_cons]
    dsimp only
    split
    · exact ih.cons _
    · rename_i item hitem
      split at hitem
      · cases hitem
        exact ih.cons_cons _
      · cases hitem

theorem keys_cleanCounts (raw : List (Str × Json)) : ((cleanCounts raw).map (·.1)).Sublist countFields := by
  unfold cleanCounts
  generalize countFields = ks
  induction ks with
  | nil => exact List.Sublist.refl _
  | cons k ks ih =>
    rw [List.filterMap_cons]
    cases counter (Json.lookup raw k) with
    | none => exact ih.cons _
    | some n => exact ih.cons_cons _

/-- **What is kept of a payload is sound.** -/
theorem cleanPayload_sound (hraw : (Json.obj raw).Strings) (hkeyed : Dict.Keyed raw) :
    SoundPayload (cleanPayload raw) := by
  have hdisjoint : ∀ k ∈ countFields, Dict.get textFields k = none := by decide
  have hcounts : countFields.Nodup := by decide
  constructor
  · rw [cleanPayload_eq, List.map_append, List.nodup_append]
    refine ⟨List.Nodup.sublist (keys_cleanTexts raw) hkeyed, hcounts.sublist (keys_cleanCounts raw), ?_⟩
    rintro k htext l hcount rfl
    obtain ⟨m, hm, rfl⟩ := List.mem_map.1 htext
    obtain ⟨s, longest, -, hlongest, -⟩ := mem_cleanTexts hm
    rw [hdisjoint _ ((keys_cleanCounts raw).subset hcount)] at hlongest
    cases hlongest
  · intro m hm
    obtain ⟨k, v⟩ := m
    rw [cleanPayload_eq, List.mem_append] at hm
    rcases hm with hm | hm
    · obtain ⟨s, longest, hmem, hlongest, hv⟩ := mem_cleanTexts hm
      dsimp only at hmem hlongest hv
      subst hv
      have hs : LegibleStr s := (Json.stringsMembers_iff.1 hraw _ hmem).2
      refine ⟨?_, hs.take longest⟩
      unfold validField
      dsimp only
      rw [hlongest, Option.any_some, decide_eq_true_eq, List.length_take]
      omega
    · obtain ⟨n, hk, hn, hv⟩ := mem_cleanCounts hm
      dsimp only at hk hn hv
      subst hv
      obtain ⟨-, h0, h1⟩ := counter_spec hn
      refine ⟨?_, trivial⟩
      simp only [validField, hk, h0, h1, decide_true, Bool.and_self]

/-! ## Merging -/

theorem SoundPayload.set {v : Json} (h : SoundPayload payload) (hv : validField (k, v) = true ∧ v.Strings) :
    SoundPayload (Dict.set payload k v) := by
  refine ⟨Dict.Keyed.set h.keyed k v, fun m hm => ?_⟩
  rcases Dict.mem_set hm with rfl | hm
  · exact hv
  · exact h.fields m hm

/-- **What is merged is sound.** -/
theorem mergePayload_sound (hprevious : SoundPayload previous) (hpayload : SoundPayload payload) :
    SoundPayload (mergePayload previous payload) := by
  have hfields : ∀ m ∈ payload.filter fun item => decide (item.2 ≠ .str []), validField m = true ∧ m.2.Strings :=
    fun m hm => hpayload.fields m (List.mem_filter.1 hm).1
  unfold mergePayload
  generalize payload.filter (fun item => decide (item.2 ≠ .str [])) = items at hfields
  induction items generalizing previous with
  | nil => exact hprevious
  | cons m items ih =>
    rw [List.forall_mem_cons] at hfields
    exact ih (hprevious.set hfields.1) hfields.2

/-- A field of a merged payload: the new value, unless it is missing or empty. -/
theorem lookup_merge (hpayload : SoundPayload payload) (k : Str) :
    Json.lookup (mergePayload previous payload) k =
      ((Json.lookup payload k).filter (· ≠ .str [])).or (Json.lookup previous k) := by
  have hkeyed : Dict.Keyed (payload.filter fun item => decide (item.2 ≠ .str [])) :=
    List.Nodup.sublist (List.filter_sublist.map _) hpayload.keyed
  have hfilter : Dict.get (payload.filter fun item => decide (item.2 ≠ .str [])) k =
      (Dict.get payload k).filter (· ≠ .str []) := by
    cases hget : Dict.get payload k with
    | none =>
      rw [Option.filter_none]
      exact Dict.get_none_iff.2 fun x hx => Dict.get_none_iff.1 hget x (List.mem_filter.1 hx).1
    | some v =>
      by_cases hv : v = .str []
      · rw [Option.filter_some_neg (by simp [hv])]
        refine Dict.get_none_iff.2 fun x hx => ?_
        rintro rfl
        obtain ⟨hx, hne⟩ := List.mem_filter.1 hx
        have hsame : Dict.get payload x.1 = some x.2 := Dict.Keyed.get_of_mem hpayload.keyed hx
        rw [hget] at hsame
        cases hsame
        exact of_decide_eq_true hne hv
      · rw [Option.filter_some_pos (by simp [hv])]
        exact Dict.get_filter hget (by simp [hv])
  unfold mergePayload
  rw [lookup_eq_get, Dict.get_update hkeyed, hfilter]
  rfl

/-! ## Children -/

/-- A text field of a sound payload. -/
theorem SoundPayload.text {longest : ℕ} {v : Json} (h : SoundPayload payload)
    (hk : Dict.get textFields k = some longest) (hv : Json.lookup payload k = some v) :
    ∃ s, v = .str s ∧ s.length ≤ longest ∧ LegibleStr s := by
  have hcounts : ∀ k ∈ countFields, Dict.get textFields k = none := by decide
  obtain ⟨hvalid, hstrings⟩ := h.fields _ (Dict.get_mem hv)
  unfold validField at hvalid
  cases v with
  | str s =>
    dsimp only at hvalid
    rw [hk, Option.any_some] at hvalid
    exact ⟨s, rfl, of_decide_eq_true hvalid, hstrings⟩
  | int n =>
    simp only [Bool.and_eq_true, decide_eq_true_eq] at hvalid
    rw [hcounts k hvalid.1.1] at hk
    cases hk
  | _ => cases hvalid

/-- An identity of a merged payload. -/
theorem identifier_merge (hpayload : SoundPayload payload) (hk : Dict.get textFields k = some 128) :
    identifier (Json.lookup (mergePayload previous payload) k) =
      (identifier (Json.lookup payload k)).or (identifier (Json.lookup previous k)) := by
  rw [lookup_merge hpayload]
  cases hv : Json.lookup payload k with
  | none => rfl
  | some v =>
    obtain ⟨s, rfl, hlen, -⟩ := hpayload.text hk hv
    by_cases hs : s = []
    · rw [hs]
      rfl
    · have hid : identifier (some (.str s)) = some s := if_pos ⟨List.length_pos_iff.2 hs, hlen⟩
      rw [Option.filter_some_pos (by simpa using hs), Option.some_or, hid, Option.some_or]

/-- A counter of a sound payload is in range. -/
theorem counter_merge (hpayload : SoundPayload payload) (hk : Dict.get textFields k = none) :
    counter (Json.lookup (mergePayload previous payload) k) =
      (counter (Json.lookup payload k)).or (counter (Json.lookup previous k)) := by
  rw [lookup_merge hpayload]
  cases hv : Json.lookup payload k with
  | none => rfl
  | some v =>
    obtain ⟨hvalid, -⟩ := hpayload.fields _ (Dict.get_mem hv)
    unfold validField at hvalid
    cases v with
    | int n =>
      simp only [Bool.and_eq_true, decide_eq_true_eq] at hvalid
      have hn : counter (some (.int n)) = some n := if_pos ⟨hvalid.1.2, hvalid.2⟩
      rw [Option.filter_some_pos (by simp), Option.some_or, hn, Option.some_or]
    | str s =>
      dsimp only at hvalid
      rw [hk] at hvalid
      cases hvalid
    | _ => cases hvalid

/-- The child that the identities of a payload name. -/
def nameChild (subagent session delegation : Option Str) (index : Option ℤ) : Option Str :=
  match subagent with
  | some s => some (lit "subagent_id:" ++ s)
  | none =>
    match session with
    | some s => some (lit "child_session_id:" ++ s)
    | none =>
      match delegation, index with
      | some delegation, some index => some (lit "delegation:" ++ delegation ++ 58 :: intRepr index)
      | _, _ => none

theorem childKey_eq (payload : Payload) : childKey payload =
    nameChild (identifier (Json.lookup payload (lit "subagent_id")))
      (identifier (Json.lookup payload (lit "child_session_id")))
      (identifier (Json.lookup payload (lit "delegation_id")))
      (counter (Json.lookup payload (lit "task_index"))) := by
  unfold childKey nameChild
  cases identifier (Json.lookup payload (lit "subagent_id")) with
  | some s => rfl
  | none =>
    cases identifier (Json.lookup payload (lit "child_session_id")) with
    | some s => rfl
    | none => rfl

theorem nameChild_or {a a' b b' c c' : Option Str} {i i' : Option ℤ} {child : Str}
    (h : nameChild a b c i = some child) (h' : nameChild a' b' c' i' = some child) :
    nameChild (a.or a') (b.or b') (c.or c') (i.or i') = some child := by
  cases a with
  | some s => exact h
  | none =>
    have ha' : a' = none := by
      cases a' with
      | none => rfl
      | some s =>
        rw [← h'] at h
        cases b with
        | some t => cases h
        | none =>
          cases c with
          | none => cases h
          | some d =>
            cases i with
            | none => cases h
            | some n => cases h
    subst ha'
    cases b with
    | some s => exact h
    | none =>
      have hb' : b' = none := by
        cases b' with
        | none => rfl
        | some s =>
          rw [← h'] at h
          cases c with
          | none => cases h
          | some d =>
            cases i with
            | none => cases h
            | some n => cases h
      subst hb'
      cases c with
      | none => cases h
      | some d =>
        cases i with
        | none => cases h
        | some n => exact h

/-- **Merging keeps the child.** -/
theorem childKey_merge {child : Str} (hpayload : SoundPayload payload) (h : childKey payload = some child)
    (hprevious : childKey previous = some child) :
    childKey (mergePayload previous payload) = some child := by
  rw [childKey_eq] at h hprevious ⊢
  rw [identifier_merge hpayload rfl, identifier_merge hpayload rfl, identifier_merge hpayload rfl,
    counter_merge hpayload rfl]
  exact nameChild_or h hprevious

end MercuryRelay
