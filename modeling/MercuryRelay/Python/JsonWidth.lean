/-
  The exact number of octets of a text, and of JSON in two styles.

  * `utf8_width`: the octets of a text that encodes;
  * `compact_le_plain`: the default separators only add octets.
-/
import Mathlib.Algebra.Order.BigOperators.Group.List
import Mathlib.Algebra.Order.Ring.Nat
import MercuryRelay.Python.JsonSize

set_option autoImplicit false

namespace Python

/-- `ensure_ascii=False`, with the default separators. -/
def plainUnicode : DumpStyle := ⟨false, lit ", ", lit ": ", false⟩

/-- The octets of a text. -/
def width (s : Str) : ℕ := (s.map fun c => ((utf8Char c).getD []).length).sum

variable {s t : Str} {bs : Bytes}

@[simp] theorem width_nil : width [] = 0 := rfl

theorem width_cons (c : ℕ) (s : Str) : width (c :: s) = width [c] + width s := by
  simp [width]

@[simp] theorem width_append (s t : Str) : width (s ++ t) = width s + width t := by
  simp [width]

theorem utf8_width (h : utf8 s = some bs) : bs.length = width s := by
  induction s generalizing bs with
  | nil =>
    cases h
    rfl
  | cons c s ih =>
    rw [utf8] at h
    split at h
    · rename_i b bs' hc hs
      cases h
      rw [List.length_append, ih hs]
      simp [width, hc]
    · cases h

theorem FitsIn.width {n : ℕ} (h : FitsIn t n) : width t ≤ n := by
  obtain ⟨bs, hbs, hlen⟩ := h
  rw [← utf8_width hbs]
  exact hlen

/-- A character that encodes takes an octet at least. -/
theorem length_le_width (h : (utf8 s).isSome) : s.length ≤ width s := by
  rw [utf8_isSome_iff] at h
  induction s with
  | nil => exact Nat.le_refl 0
  | cons c s ih =>
    have hs := ih fun d hd => h d (List.mem_cons_of_mem c hd)
    obtain ⟨b, hb⟩ := Option.isSome_iff_exists.1 (h c List.mem_cons_self)
    have hpos : 0 < b.length := by
      unfold utf8Char at hb
      repeat' split at hb
      all_goals cases hb
      all_goals simp
    have hc : width [c] = b.length := by simp [width, hb]
    rw [width_cons, List.length_cons]
    omega

/-! ## Two styles -/

theorem join_sublist {sep sep' : Str} (hsep : sep.Sublist sep') {α : Type} {f f' : α → Str} {as : List α}
    (h : ∀ a ∈ as, (f a).Sublist (f' a)) : (join sep (as.map f)).Sublist (join sep' (as.map f')) := by
  induction as with
  | nil => exact .refl _
  | cons a as ih =>
    have ha := h a List.mem_cons_self
    have hrest := ih fun b hb => h b (List.mem_cons_of_mem a hb)
    cases as with
    | nil => exact ha
    | cons b as => exact (ha.append hsep).append hrest

theorem comma_sublist : compactUnicode.itemSeparator.Sublist plainUnicode.itemSeparator := by
  decide

theorem colon_sublist : compactUnicode.keySeparator.Sublist plainUnicode.keySeparator := by
  decide

theorem bracket_sublist {a b : ℕ} (h : s.Sublist t) : (a :: s ++ [b]).Sublist (a :: t ++ [b]) :=
  (h.cons_cons a).append (.refl [b])

mutual

/-- **The default separators only add blanks.** -/
theorem compact_sublist_plain : ∀ v : Json, (write compactUnicode v).Sublist (write plainUnicode v)
  | .null => .refl _
  | .bool _ => .refl _
  | .int _ => .refl _
  | .float _ => .refl _
  | .str _ => .refl _
  | .arr items => by
    rw [write, write, writeItems_eq, writeItems_eq]
    exact bracket_sublist (join_sublist comma_sublist (compact_sublist_plain_items items))
  | .obj members => by
    have hmembers := compact_sublist_plain_members members
    rw [write, write, writeMembers_eq, writeMembers_eq]
    dsimp only
    rw [if_neg (by decide), if_neg (by decide), List.map_map, List.map_map]
    refine bracket_sublist (join_sublist comma_sublist fun m hm => ?_)
    exact ((List.Sublist.refl _).append colon_sublist).append (hmembers m hm)

theorem compact_sublist_plain_items : ∀ vs : List Json, ∀ v ∈ vs,
    (write compactUnicode v).Sublist (write plainUnicode v)
  | [] => by simp
  | v :: vs => by
    rw [List.forall_mem_cons]
    exact ⟨compact_sublist_plain v, compact_sublist_plain_items vs⟩

theorem compact_sublist_plain_members : ∀ ms : List (Str × Json), ∀ m ∈ ms,
    (write compactUnicode m.2).Sublist (write plainUnicode m.2)
  | [] => by simp
  | (k, v) :: ms => by
    rw [List.forall_mem_cons]
    exact ⟨compact_sublist_plain v, compact_sublist_plain_members ms⟩

end

/-- What encodes with blanks encodes without, in no more octets. -/
theorem compact_le_plain {v : Json} (h : utf8 (write plainUnicode v) = some bs) :
    v.encodable = true ∧ width (write compactUnicode v) ≤ bs.length := by
  have hsub := compact_sublist_plain v
  constructor
  · rw [← utf8_write, utf8_isSome_iff]
    have hplain := utf8_isSome_iff.1 (Option.isSome_of_eq_some h)
    exact fun c hc => hplain c (hsub.subset hc)
  · rw [utf8_width h]
    exact (hsub.map _).sum_le_sum fun _ _ => Nat.zero_le _

end Python
