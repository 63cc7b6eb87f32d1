/-
  How long a written JSON value is, in the styles that escape.

  The text is ASCII, so its length is the number of its octets; `textLength`
  counts them without writing the text.

  * `length_write`: the length of a written value.
-/
import MercuryRelay.Python.JsonWrite

set_option autoImplicit false

namespace Python

/-- The octets of an escaped character. -/
def charLength (c : ℕ) : ℕ :=
  if c = 34 ∨ c = 92 ∨ c = 8 ∨ c = 12 ∨ c = 10 ∨ c = 13 ∨ c = 9 then 2
  else if 32 ≤ c ∧ c < 127 then 1
  else if c < 0x10000 then 6
  else 12

/-- The octets of an escaped string. -/
def stringLength (s : Str) : ℕ := (s.map charLength).sum + 2

theorem length_writeChar (c : ℕ) : (writeChar true c).length = charLength c := by
  unfold writeChar charLength
  repeat' split
  all_goals first
    | rfl
    | omega
    | simp_all

theorem length_writeString (s : Str) : (writeString true s).length = stringLength s := by
  unfold writeString stringLength
  rw [List.length_append, List.length_cons, List.length_flatMap]
  simp only [length_writeChar, List.length_cons, List.length_nil]

theorem charLength_le (c : ℕ) : charLength c ≤ 12 := by
  unfold charLength
  repeat' split
  all_goals omega

/-- A string takes twelve octets a character at most. -/
theorem stringLength_le (s : Str) : stringLength s ≤ 12 * s.length + 2 := by
  unfold stringLength
  induction s with
  | nil => simp
  | cons c s ih =>
    have hc := charLength_le c
    simp only [List.map_cons, List.sum_cons, List.length_cons]
    omega

/-- The length of texts that are joined. -/
theorem length_join_eq (sep : Str) (ts : List Str) :
    (join sep ts).length = (ts.map List.length).sum + sep.length * (ts.length - 1) := by
  induction ts with
  | nil => rfl
  | cons t ts ih =>
    cases ts with
    | nil => simp [join]
    | cons u ts =>
      have hjoin : join sep (t :: u :: ts) = t ++ sep ++ join sep (u :: ts) := rfl
      rw [hjoin, List.length_append, List.length_append, ih]
      simp only [List.map_cons, List.sum_cons, List.length_cons]
      rw [show ts.length + 1 + 1 - 1 = (ts.length + 1 - 1) + 1 by omega, Nat.mul_succ]
      omega

mutual

/-- The length of a written value, whose separators have lengths `item` and `key`. -/
def Json.textLength (item key : ℕ) : Json → ℕ
  | .null => 4
  | .bool b => if b then 4 else 5
  | .int n => (intRepr n).length
  | .float x => (floatRepr x).length
  | .str s => stringLength s
  | .arr items => itemsLength item key items + item * (items.length - 1) + 2
  | .obj members => membersLength item key members + item * (members.length - 1) + 2

def Json.itemsLength (item key : ℕ) : List Json → ℕ
  | [] => 0
  | v :: vs => v.textLength item key + itemsLength item key vs

def Json.membersLength (item key : ℕ) : List (Str × Json) → ℕ
  | [] => 0
  | (k, v) :: ms => stringLength k + key + v.textLength item key + membersLength item key ms

end

theorem Json.itemsLength_eq (item key : ℕ) (vs : List Json) :
    Json.itemsLength item key vs = (vs.map (·.textLength item key)).sum := by
  induction vs with
  | nil => rfl
  | cons v vs ih => rw [Json.itemsLength, ih, List.map_cons, List.sum_cons]

section Length

variable {style : DumpStyle}

mutual

/-- **The length of a written value.** -/
theorem length_write (hascii : style.ensureAscii = true) (hsort : style.sortKeys = false) : ∀ v : Json,
    (write style v).length = v.textLength style.itemSeparator.length style.keySeparator.length
  | .null => rfl
  | .bool true => rfl
  | .bool false => rfl
  | .int _ => rfl
  | .float _ => rfl
  | .str s => by
    rw [write, hascii]
    exact length_writeString s
  | .arr items => by
    have hitems := length_writeItems hascii hsort items
    rw [write_arr, itemsText, List.length_append, List.length_cons, length_join_eq, List.map_map, List.length_map,
      Json.textLength]
    simp only [Function.comp_def, List.length_cons, List.length_nil]
    omega
  | .obj members => by
    have hmembers := length_writeMembers hascii hsort members
    rw [write_obj hsort, membersText, List.length_append, List.length_cons, length_join_eq, List.map_map,
      List.length_map, Json.textLength]
    simp only [Function.comp_def, List.length_cons, List.length_nil]
    omega

theorem length_writeItems (hascii : style.ensureAscii = true) (hsort : style.sortKeys = false) :
    ∀ vs : List Json, (vs.map fun v => (write style v).length).sum =
      Json.itemsLength style.itemSeparator.length style.keySeparator.length vs
  | [] => rfl
  | v :: vs => by
    rw [List.map_cons, List.sum_cons, length_write hascii hsort v, length_writeItems hascii hsort vs,
      Json.itemsLength]

theorem length_writeMembers (hascii : style.ensureAscii = true) (hsort : style.sortKeys = false) :
    ∀ ms : List (Str × Json), (ms.map fun m => (memberText style m).length).sum =
      Json.membersLength style.itemSeparator.length style.keySeparator.length ms
  | [] => rfl
  | (k, v) :: ms => by
    have hmember : (memberText style (k, v)).length = stringLength k + style.keySeparator.length +
        v.textLength style.itemSeparator.length style.keySeparator.length := by
      unfold memberText
      rw [List.length_append, List.length_append, hascii, length_writeString, length_write hascii hsort v]
    rw [List.map_cons, List.sum_cons, hmember, length_writeMembers hascii hsort ms, Json.membersLength]

end

end Length

end Python
