/-
  Insertion-ordered dictionaries (`dict`, `OrderedDict`) as association lists
  whose keys differ.
-/
import Mathlib.Data.List.Basic

set_option autoImplicit false

namespace Python

/-- The items of a dictionary, oldest first. -/
abbrev Dict (κ α : Type) := List (κ × α)

namespace Dict

variable {κ α : Type} [DecidableEq κ]

/-- `d.get(key)`. -/
def get (d : Dict κ α) (key : κ) : Option α := (d.find? (·.1 = key)).map (·.2)

/-- `d[key] = value`; a new key goes last. -/
def set : Dict κ α → κ → α → Dict κ α
  | [], key, value => [(key, value)]
  | (k, v) :: d, key, value => if k = key then (k, value) :: d else (k, v) :: set d key value

/-- `d.pop(key, None)`, less its result. -/
def remove (d : Dict κ α) (key : κ) : Dict κ α := d.filter (·.1 ≠ key)

/-- `d.move_to_end(key)`. -/
def moveToEnd (d : Dict κ α) (key : κ) : Dict κ α :=
  match d.find? (·.1 = key) with
  | some item => d.remove key ++ [item]
  | none => d

/-- The last `n` items. -/
def last (n : ℕ) (d : Dict κ α) : Dict κ α := d.drop (d.length - n)

variable {d : Dict κ α} {k l : κ} {v : α}

@[simp] theorem get_nil : get ([] : Dict κ α) k = none := rfl

theorem get_cons (x : κ × α) : get (x :: d) k = if x.1 = k then some x.2 else get d k := by
  unfold get
  rw [List.find?_cons]
  by_cases h : x.1 = k <;> simp [h]

theorem get_mem (h : get d k = some v) : (k, v) ∈ d := by
  induction d with
  | nil => cases h
  | cons x d ih =>
    rw [get_cons] at h
    split at h
    · rename_i hk; cases h; subst hk; exact List.mem_cons_self
    · exact List.mem_cons_of_mem _ (ih h)

theorem get_none_iff : get d k = none ↔ ∀ x ∈ d, x.1 ≠ k := by
  simp [get, List.find?_eq_none]

theorem get_set : get (set d k v) l = if k = l then some v else get d l := by
  induction d with
  | nil => simp [set, get_cons]
  | cons x d ih =>
    unfold set
    by_cases hx : x.1 = k
    · rw [if_pos hx, get_cons, get_cons, hx]
      split <;> rfl
    · rw [if_neg hx, get_cons, get_cons, ih]
      by_cases hl : x.1 = l
      · subst hl; simp [Ne.symm hx]
      · simp [hl]

@[simp] theorem get_set_self : get (set d k v) k = some v := by rw [get_set, if_pos rfl]

theorem get_set_of_ne (h : k ≠ l) : get (set d k v) l = get d l := by rw [get_set, if_neg h]

theorem get_remove : get (remove d k) l = if k = l then none else get d l := by
  induction d with
  | nil => simp [remove]
  | cons x d ih =>
    unfold remove at ih ⊢
    rw [List.filter_cons]
    by_cases hx : x.1 = k
    · simp only [hx, ne_eq, not_true_eq_false, decide_false, Bool.false_eq_true, if_false]
      rw [ih, get_cons, hx]
      split <;> rfl
    · simp only [hx, ne_eq, not_false_eq_true, decide_true, if_true]
      rw [get_cons, ih, get_cons]
      by_cases hl : x.1 = l
      · subst hl; simp [Ne.symm hx]
      · simp [hl]

/-- An item that a filter keeps is found. -/
theorem get_filter {p : κ × α → Bool} (h : get d k = some v) (hp : p (k, v) = true) :
    get (d.filter p : Dict κ α) k = some v := by
  induction d with
  | nil => cases h
  | cons x d ih =>
    rw [get_cons] at h
    rw [List.filter_cons]
    by_cases hx : x.1 = k
    · rw [if_pos hx] at h
      obtain ⟨key, value⟩ := x
      cases h
      obtain rfl : key = k := hx
      rw [if_pos hp]
      simp [get_cons]
    · rw [if_neg hx] at h
      split
      · rw [get_cons, if_neg hx, ih h]
      · exact ih h

theorem get_append {e : Dict κ α} : get (d ++ e) k = (get d k).or (get e k) := by
  induction d with
  | nil => simp
  | cons x d ih =>
    rw [List.cons_append, get_cons, get_cons, ih]
    split <;> simp

theorem set_self (h : get d k = some v) : set d k v = d := by
  induction d with
  | nil => cases h
  | cons x d ih =>
    obtain ⟨key, value⟩ := x
    rw [get_cons] at h
    unfold set
    split
    · rename_i hk
      rw [if_pos hk] at h
      cases h
      rfl
    · rename_i hk
      rw [if_neg hk] at h
      rw [ih h]

theorem remove_set (h : get d k = none) : remove (set d k v) k = d := by
  induction d with
  | nil => simp [set, remove]
  | cons x d ih =>
    have hx : x.1 ≠ k := get_none_iff.1 h x List.mem_cons_self
    rw [get_cons, if_neg hx] at h
    unfold set
    rw [if_neg hx]
    unfold remove at ih ⊢
    rw [List.filter_cons_of_pos (by simpa using hx), ih h]

theorem remove_set_self : remove (set d k v) k = remove d k := by
  induction d with
  | nil => simp [set, remove]
  | cons x d ih =>
    unfold set
    unfold remove at ih ⊢
    split
    · rename_i hx
      rw [List.filter_cons_of_neg (by simpa using hx), List.filter_cons_of_neg (by simpa using hx)]
    · rw [List.filter_cons, List.filter_cons, ih]

theorem length_set : (set d k v).length = if (get d k).isSome then d.length else d.length + 1 := by
  induction d with
  | nil => rfl
  | cons x d ih =>
    unfold set
    rw [get_cons]
    split
    · simp
    · rw [List.length_cons, ih]
      split <;> simp

theorem find_of_get (h : get d k = some v) : d.find? (·.1 = k) = some (k, v) := by
  obtain ⟨⟨key, value⟩, hf, rfl⟩ := Option.map_eq_some_iff.1 h
  have hkey : key = k := by simpa using List.find?_some hf
  rw [hf, hkey]

theorem moveToEnd_of_get (h : get d k = some v) : d.moveToEnd k = d.remove k ++ [(k, v)] := by
  unfold moveToEnd
  rw [find_of_get h]

theorem get_moveToEnd : get (d.moveToEnd k) l = get d l := by
  cases h : get d k with
  | none =>
    unfold moveToEnd
    rw [Option.map_eq_none_iff.1 h]
  | some v =>
    rw [moveToEnd_of_get h, get_append, get_remove]
    by_cases hkl : k = l
    · subst hkl
      simp [get_cons, h]
    · simp [hkl, get_cons]

/-! ## Different keys -/

/-- The keys of a dictionary differ. -/
def Keyed (d : Dict κ α) : Prop := (d.map (·.1)).Nodup

omit [DecidableEq κ] in
theorem keyed_nil : Keyed ([] : Dict κ α) := List.nodup_nil

theorem Keyed.cons {x : κ × α} (h : Keyed (x :: d)) : get d x.1 = none ∧ Keyed d := by
  obtain ⟨h1, h2⟩ := List.nodup_cons.1 h
  exact ⟨get_none_iff.2 fun y hy he => h1 (List.mem_map.2 ⟨y, hy, he⟩), h2⟩

theorem Keyed.get_of_mem (h : Keyed d) (hm : (k, v) ∈ d) : get d k = some v := by
  induction d with
  | nil => cases hm
  | cons x d ih =>
    obtain ⟨hx, hd⟩ := h.cons
    rw [get_cons]
    rcases List.mem_cons.1 hm with rfl | hm
    · rw [if_pos rfl]
    · have hv := ih hd hm
      have hne : x.1 ≠ k := fun he => by rw [he, hv] at hx; cases hx
      rw [if_neg hne, hv]

theorem keys_set_subset {x : κ} (hx : x ∈ (set d k v).map (·.1)) : x = k ∨ x ∈ d.map (·.1) := by
  induction d with
  | nil => simpa [set] using hx
  | cons y d ih =>
    unfold set at hx
    split at hx
    · right; simpa using hx
    · rw [List.map_cons, List.mem_cons] at hx
      rcases hx with rfl | hx
      · right; simp
      · rcases ih hx with h | h
        · exact .inl h
        · right; rw [List.map_cons]; exact List.mem_cons_of_mem _ h

theorem Keyed.set (h : Keyed d) (k : κ) (v : α) : Keyed (set d k v) := by
  induction d with
  | nil => simp [Keyed, Dict.set]
  | cons x d ih =>
    obtain ⟨hx, hd⟩ := h.cons
    unfold Dict.set
    split
    · exact h
    · rename_i hk
      refine List.nodup_cons.2 ⟨fun hm => ?_, ih hd⟩
      rcases keys_set_subset hm with he | hm
      · exact hk he
      · obtain ⟨y, hy, he⟩ := List.mem_map.1 hm
        exact get_none_iff.1 hx y hy he

/-- What a dictionary holds after an assignment. -/
theorem mem_set {x : κ × α} (h : x ∈ set d k v) : x = (k, v) ∨ x ∈ d := by
  induction d with
  | nil => exact .inl (List.mem_singleton.1 h)
  | cons y d ih =>
    unfold set at h
    split at h
    · rename_i hk
      rcases List.mem_cons.1 h with rfl | hx
      · exact .inl (by rw [← hk])
      · exact .inr (List.mem_cons_of_mem _ hx)
    · rcases List.mem_cons.1 h with rfl | hx
      · exact .inr List.mem_cons_self
      · exact (ih hx).imp id (List.mem_cons_of_mem _)

theorem set_append {e : Dict κ α} (h : (get d k).isSome) : set (d ++ e) k v = set d k v ++ e := by
  induction d with
  | nil => cases h
  | cons x d ih =>
    rw [List.cons_append, set, set]
    split
    · rfl
    · rename_i hne
      rw [get_cons, if_neg hne] at h
      rw [ih h, List.cons_append]

theorem set_new (h : get d k = none) : set d k v = d ++ [(k, v)] := by
  induction d with
  | nil => rfl
  | cons x d ih =>
    rw [get_cons] at h
    split at h
    · cases h
    · rename_i hne
      rw [set, if_neg hne, ih h, List.cons_append]

/-- `d.update(items)`, of items whose keys differ. -/
theorem get_update {items : Dict κ α} (h : Keyed items) :
    get (items.foldl (fun d x => set d x.1 x.2) d) k = (get items k).or (get d k) := by
  induction items generalizing d with
  | nil => rfl
  | cons x items ih =>
    obtain ⟨hx, hitems⟩ := h.cons
    rw [List.foldl_cons, ih hitems, get_set, get_cons]
    by_cases hk : x.1 = k
    · rw [if_pos hk, if_pos hk, ← hk, hx]
      rfl
    · rw [if_neg hk, if_neg hk]

theorem Keyed.remove (h : Keyed d) (k : κ) : Keyed (remove d k) :=
  h.sublist (List.filter_sublist.map _)

theorem Keyed.moveToEnd (h : Keyed d) (k : κ) : Keyed (Dict.moveToEnd d k) := by
  cases hk : get d k with
  | none =>
    unfold Dict.moveToEnd
    rwa [Option.map_eq_none_iff.1 hk]
  | some v =>
    rw [moveToEnd_of_get hk]
    unfold Keyed
    rw [List.map_append, List.nodup_append]
    refine ⟨h.remove k, by simp, ?_⟩
    intro x hx y hy he
    obtain ⟨item, hitem, rfl⟩ := List.mem_map.1 hx
    have hne : item.1 ≠ k := by simpa using (List.mem_filter.1 hitem).2
    exact hne (he.trans (by simpa using hy))

/-- A key that is removed makes room for one. -/
theorem Keyed.length_remove (h : Keyed d) (hk : get d k = some v) :
    (Dict.remove d k).length + 1 = d.length := by
  induction d with
  | nil => cases hk
  | cons x d ih =>
    obtain ⟨hx, hd⟩ := h.cons
    rw [get_cons] at hk
    unfold Dict.remove at ih ⊢
    rw [List.filter_cons, List.length_cons]
    by_cases he : x.1 = k
    · have hsame : d.filter (fun y => decide (y.1 ≠ k)) = d := by
        rw [List.filter_eq_self]
        intro y hy
        simpa [he] using get_none_iff.1 hx y hy
      rw [if_neg (by simp [he]), hsame]
    · rw [if_neg he] at hk
      rw [if_pos (by simpa using he), List.length_cons, ih hd hk]

theorem Keyed.length_moveToEnd (h : Keyed d) (k : κ) : (Dict.moveToEnd d k).length = d.length := by
  cases hk : get d k with
  | none =>
    unfold Dict.moveToEnd
    rw [Option.map_eq_none_iff.1 hk]
  | some v =>
    rw [moveToEnd_of_get hk, List.length_append, List.length_singleton, h.length_remove hk]

end Dict

end Python
