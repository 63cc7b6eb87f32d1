/-
  What `json.dumps` writes with `sort_keys=True`, and what is read of it.

  * `write_sorted`: it is what is written, in the order of the members, of the
    value whose members are sorted;
  * `loadsStrict_sorted`: `loads_strict` reads that value.
-/
import MercuryRelay.Python.JsonLength
import MercuryRelay.Python.JsonSize
import MercuryRelay.Python.JsonLegible
import MercuryRelay.Python.Dict

set_option autoImplicit false

namespace Python

variable {v : Json} {vs : List Json} {k : Str} {ms : List (Str × Json)} {style : DumpStyle}

namespace Json

mutual

/-- The members of every object in the order of their keys. -/
def sorted : Json → Json
  | arr items => arr (sortedItems items)
  | obj members => obj (sortMembers (sortedMembers members))
  | v => v

def sortedItems : List Json → List Json
  | [] => []
  | v :: vs => sorted v :: sortedItems vs

def sortedMembers : List (Str × Json) → List (Str × Json)
  | [] => []
  | (k, v) :: ms => (k, sorted v) :: sortedMembers ms

end

theorem sortedMembers_eq (ms : List (Str × Json)) :
    sortedMembers ms = ms.map fun m => (m.1, m.2.sorted) := by
  induction ms with
  | nil => rfl
  | cons m ms ih => rw [sortedMembers, ih, List.map_cons]

/-- An object of atoms is sorted by its own keys. -/
theorem sorted_flat (h : ∀ m ∈ ms, m.2.depth = 0) : (obj ms).sorted = obj (sortMembers ms) := by
  have hms : sortedMembers ms = ms := by
    rw [sortedMembers_eq]
    refine (List.map_congr_left fun m hm => ?_).trans (List.map_id ms)
    have hatom := h m hm
    obtain ⟨k, v⟩ := m
    cases v with
    | arr items => simp [depth] at hatom
    | obj members => simp [depth] at hatom
    | _ => rfl
  rw [sorted, hms]

theorem keys_sortMembers {α : Type} (ms : List (Str × α)) :
    ((sortMembers ms).map (·.1)).Perm (ms.map (·.1)) := (sortMembers_perm ms).map _

/-- Sorted members are looked up as they were. -/
theorem lookup_sortMembers (h : (ms.map (·.1)).Nodup) (k : Str) :
    lookup (sortMembers ms) k = lookup ms k := by
  have hperm := sortMembers_perm ms
  have hsorted : ((sortMembers ms).map (·.1)).Nodup := (keys_sortMembers ms).nodup_iff.2 h
  cases hk : lookup ms k with
  | some v =>
    have hmem := hperm.symm.subset (lookup_mem hk)
    exact Dict.Keyed.get_of_mem hsorted hmem
  | none =>
    refine Dict.get_none_iff.2 fun m hm => ?_
    exact Dict.get_none_iff.1 hk m (hperm.subset hm)

theorem depthMembers_perm {ms' : List (Str × Json)} (h : ms.Perm ms') :
    depthMembers ms = depthMembers ms' := by
  refine le_antisymm ?_ ?_
  · exact depthMembers_le.2 fun m hm => depthMembers_le.1 le_rfl m (h.subset hm)
  · exact depthMembers_le.2 fun m hm => depthMembers_le.1 le_rfl m (h.symm.subset hm)

mutual

theorem depth_sorted : ∀ v : Json, v.sorted.depth = v.depth
  | null | bool _ | int _ | float _ | str _ => rfl
  | arr items => by
    rw [sorted, depth, depth, depthItems_sorted items]
  | obj members => by
    rw [sorted, depth, depth, depthMembers_perm (sortMembers_perm _), depthMembers_sorted members]

theorem depthItems_sorted : ∀ vs : List Json, depthItems (sortedItems vs) = depthItems vs
  | [] => rfl
  | v :: vs => by rw [sortedItems, depthItems, depthItems, depth_sorted v, depthItems_sorted vs]

theorem depthMembers_sorted : ∀ ms : List (Str × Json),
    depthMembers (sortedMembers ms) = depthMembers ms
  | [] => rfl
  | (k, v) :: ms => by
    rw [sortedMembers, depthMembers, depthMembers, depth_sorted v, depthMembers_sorted ms]

end

theorem keys_sortedMembers (ms : List (Str × Json)) : (sortedMembers ms).map (·.1) = ms.map (·.1) := by
  rw [sortedMembers_eq, List.map_map]
  rfl

theorem legibleMembers_perm {ms' : List (Str × Json)} (h : ms.Perm ms') (hms : LegibleMembers ms) :
    LegibleMembers ms' :=
  legibleMembers_iff.2 fun m hm => legibleMembers_iff.1 hms m (h.symm.subset hm)

mutual

/-- A value that is sorted stays legible. -/
theorem Legible.sorted : ∀ v : Json, v.Legible → v.sorted.Legible
  | null, h | bool _, h | int _, h | float _, h | str _, h => h
  | arr items, h => by
    rw [Legible] at h
    rw [Json.sorted, Legible]
    exact Legible.sortedItems items h
  | obj members, h => by
    rw [Legible] at h
    rw [Json.sorted, Legible]
    refine ⟨(keys_sortMembers _).nodup_iff.2 ?_, legibleMembers_perm (sortMembers_perm _).symm ?_⟩
    · rw [keys_sortedMembers]
      exact h.1
    · exact Legible.sortedMembers members h.2

theorem Legible.sortedItems : ∀ vs : List Json, LegibleItems vs → LegibleItems (Json.sortedItems vs)
  | [], h => h
  | v :: vs, h => ⟨Legible.sorted v h.1, Legible.sortedItems vs h.2⟩

theorem Legible.sortedMembers : ∀ ms : List (Str × Json),
    LegibleMembers ms → LegibleMembers (Json.sortedMembers ms)
  | [], h => h
  | (_, v) :: ms, h => ⟨h.1, Legible.sorted v h.2.1, Legible.sortedMembers ms h.2.2⟩

end

theorem membersLength_eq (item key : ℕ) (ms : List (Str × Json)) : membersLength item key ms =
    (ms.map fun m => stringLength m.1 + key + m.2.textLength item key).sum := by
  induction ms with
  | nil => rfl
  | cons m ms ih => rw [membersLength, ih, List.map_cons, List.sum_cons]

theorem length_sortMembers {α : Type} (ms : List (Str × α)) : (sortMembers ms).length = ms.length :=
  (sortMembers_perm ms).length_eq

/-- Sorting the members does not change the length of the text. -/
theorem textLength_sortMembers (item key : ℕ) (ms : List (Str × Json)) :
    (obj (sortMembers ms)).textLength item key = (obj ms).textLength item key := by
  rw [textLength, textLength, length_sortMembers, membersLength_eq, membersLength_eq,
    ((sortMembers_perm ms).map _).sum_eq]

end Json

/-! ## Objects with members that may be left out -/

namespace Json

/-- The members that are given, in this order. -/
def given (fields : List (Str × Option Json)) : List (Str × Json) :=
  fields.filterMap fun (k, v) => v.map (k, ·)

theorem mem_given {fields : List (Str × Option Json)} {m : Str × Json} :
    m ∈ given fields ↔ (m.1, some m.2) ∈ fields := by
  unfold given
  rw [List.mem_filterMap]
  constructor
  · rintro ⟨⟨k, v⟩, hmem, hm⟩
    obtain ⟨w, rfl, rfl⟩ := Option.map_eq_some_iff.1 hm
    exact hmem
  · intro hmem
    exact ⟨_, hmem, rfl⟩

theorem keys_given (fields : List (Str × Option Json)) :
    ((given fields).map (·.1)).Sublist (fields.map (·.1)) := by
  induction fields with
  | nil => exact .slnil
  | cons f fields ih =>
    obtain ⟨k, v⟩ := f
    cases v with
    | none => exact ih.cons k
    | some v => exact ih.cons_cons k

/-- A member is looked up as it was given. -/
theorem lookup_given {fields : List (Str × Option Json)} (h : (fields.map (·.1)).Nodup) {k : Str}
    {v : Option Json} (hk : (k, v) ∈ fields) : lookup (given fields) k = v := by
  cases v with
  | some v =>
    have hnodup : Dict.Keyed (given fields) := (keys_given fields).nodup h
    exact Dict.Keyed.get_of_mem hnodup (mem_given.2 hk)
  | none =>
    refine Dict.get_none_iff.2 fun m hm hkey => ?_
    have hpair : (k, some m.2) ∈ fields := hkey ▸ mem_given.1 hm
    have hinj := List.inj_on_of_nodup_map h hk hpair rfl
    cases hinj

end Json

/-- The style that keeps the members in their order. -/
def DumpStyle.unsorted (style : DumpStyle) : DumpStyle := { style with sortKeys := false }

mutual

/-- **What is written with sorted keys is the sorted value.** -/
theorem write_sorted (h : style.sortKeys = true) : ∀ v : Json,
    write style v = write style.unsorted v.sorted
  | .null | .bool _ | .int _ | .float _ | .str _ => rfl
  | .arr items => by
    rw [Json.sorted, write_arr, write_arr, itemsText, itemsText, map_write_sorted h items]
    rfl
  | .obj members => by
    have hmembers : writeMembers style members = writeMembers style.unsorted (Json.sortedMembers members) := by
      rw [writeMembers_eq, writeMembers_eq]
      exact map_writeMembers_sorted h members
    rw [Json.sorted, @write_obj style.unsorted _ rfl, write, hmembers, writeMembers_eq,
      Json.sortMembers_map]
    simp only [h, if_true, List.map_map, membersText]
    rfl

theorem map_write_sorted (h : style.sortKeys = true) : ∀ vs : List Json,
    vs.map (write style) = (Json.sortedItems vs).map (write style.unsorted)
  | [] => rfl
  | v :: vs => by
    rw [List.map_cons, write_sorted h v, map_write_sorted h vs, Json.sortedItems, List.map_cons]

theorem map_writeMembers_sorted (h : style.sortKeys = true) : ∀ ms : List (Str × Json),
    (ms.map fun m => (m.1, write style m.2)) =
      (Json.sortedMembers ms).map fun m => (m.1, write style.unsorted m.2)
  | [] => rfl
  | (k, v) :: ms => by
    rw [List.map_cons, write_sorted h v, map_writeMembers_sorted h ms, Json.sortedMembers, List.map_cons]

end

/-- **`loads_strict` reads the sorted value.** -/
theorem loadsStrict_sorted (hsort : style.sortKeys = true) (hstyle : Undone style.unsorted)
    {depths : JsonDepths} (hv : v.Legible) (hdepth : v.depth ≤ depths.read) :
    loadsStrict depths (write style v) = some v.sorted := by
  rw [write_sorted hsort]
  refine loadsStrict_write hstyle (Json.Legible.sorted v hv) ?_
  rw [Json.depth_sorted]
  exact hdepth

end Python
