/-
  Python text.  A `str` is a list of code points, surrogates included: JSON
  escapes can put a lone surrogate into a `str`, and `str.encode("utf-8")`
  then raises.

  * `lit` turns a literal of the source into a `Str`;
  * `utf8` is `str.encode("utf-8")`, `none` where it raises;
  * `split` and `joinSpace` are `str.split()` and `" ".join`.
-/
import Mathlib.Algebra.Order.Ring.Int
import Mathlib.Algebra.Order.Ring.Nat
import Mathlib.Algebra.Order.Ring.Rat
import Mathlib.Data.List.Infix

set_option autoImplicit false

namespace Python

/-- A Python `str`: its code points. -/
abbrev Str := List ℕ

/-- Python `bytes`. -/
abbrev Bytes := List UInt8

/-- A 32-octet string: a key, a digest, an installation identifier. -/
abbrev Raw := {b : Bytes // b.length = 32}

instance strLawfulBEq : LawfulBEq Str := inferInstance

instance rawLawfulBEq : LawfulBEq Raw := inferInstance

/-- A string literal. -/
def lit (s : String) : Str := s.toList.map Char.toNat

/-! ## UTF-8 -/

/-- The octets of one code point; a surrogate has none. -/
def utf8Char (c : ℕ) : Option Bytes :=
  if c < 0x80 then some [.ofNat c]
  else if c < 0x800 then some [.ofNat (0xC0 + c / 64), .ofNat (0x80 + c % 64)]
  else if 0xD800 ≤ c ∧ c ≤ 0xDFFF then none
  else if c < 0x10000 then
    some [.ofNat (0xE0 + c / 4096), .ofNat (0x80 + c / 64 % 64), .ofNat (0x80 + c % 64)]
  else if c < 0x110000 then
    some [.ofNat (0xF0 + c / 262144), .ofNat (0x80 + c / 4096 % 64),
      .ofNat (0x80 + c / 64 % 64), .ofNat (0x80 + c % 64)]
  else none

/-- `s.encode("utf-8")`; `none` is the `UnicodeEncodeError`. -/
def utf8 : Str → Option Bytes
  | [] => some []
  | c :: s =>
    match utf8Char c, utf8 s with
    | some b, some bs => some (b ++ bs)
    | _, _ => none

@[simp] theorem utf8_nil : utf8 [] = some [] := rfl

theorem utf8_append (s t : Str) :
    utf8 (s ++ t) = (utf8 s).bind fun a => (utf8 t).map fun b => a ++ b := by
  induction s with
  | nil => cases h : utf8 t <;> simp [h]
  | cons c s ih =>
    simp only [List.cons_append, utf8, ih]
    cases utf8Char c with
    | none => simp
    | some b => cases utf8 s <;> cases utf8 t <;> simp

theorem utf8_append_isSome (s t : Str) :
    (utf8 (s ++ t)).isSome ↔ (utf8 s).isSome ∧ (utf8 t).isSome := by
  rw [utf8_append]; cases utf8 s <;> cases utf8 t <;> simp

/-- A string encodes iff its characters do. -/
theorem utf8_isSome_iff {s : Str} : (utf8 s).isSome ↔ ∀ c ∈ s, (utf8Char c).isSome := by
  induction s with
  | nil => simp
  | cons c s ih =>
    rw [List.forall_mem_cons, ← ih, utf8]
    cases utf8Char c <;> cases utf8 s <;> simp

/-- All characters are ASCII. -/
def Ascii (s : Str) : Prop := ∀ c ∈ s, c < 128

instance (s : Str) : Decidable (Ascii s) := by unfold Ascii; infer_instance

theorem Ascii.append {s t : Str} (hs : Ascii s) (ht : Ascii t) : Ascii (s ++ t) := fun c hc =>
  (List.mem_append.1 hc).elim (hs c) (ht c)

theorem Ascii.cons {c : ℕ} {s : Str} (hc : c < 128) (hs : Ascii s) : Ascii (c :: s) :=
  List.forall_mem_cons.2 ⟨hc, hs⟩

theorem Ascii.subset {s t : Str} (ht : Ascii t) (h : s ⊆ t) : Ascii s := fun c hc => ht c (h hc)

theorem Ascii.replicate {c n : ℕ} (hc : c < 128) : Ascii (List.replicate n c) := fun d hd => by
  rw [List.eq_of_mem_replicate hd]; exact hc

theorem utf8Char_ascii {c : ℕ} (h : c < 128) : (utf8Char c).isSome := by simp [utf8Char, h]

theorem Ascii.utf8 {s : Str} (hs : Ascii s) : (utf8 s).isSome :=
  utf8_isSome_iff.2 fun c hc => utf8Char_ascii (hs c hc)

/-! ## White space -/

/-- `str.isspace` of one code point. -/
def isSpace (c : ℕ) : Bool :=
  (9 ≤ c && c ≤ 13) || (28 ≤ c && c ≤ 32) || c == 133 || c == 160 || c == 5760 ||
    (8192 ≤ c && c ≤ 8202) || c == 8232 || c == 8233 || c == 8239 || c == 8287 || c == 12288

/-- The words of `s.split()`, `word` being read. -/
def splitFrom (word : Str) : Str → List Str
  | [] => if word = [] then [] else [word]
  | c :: s =>
    if isSpace c then (if word = [] then splitFrom [] s else word :: splitFrom [] s)
    else splitFrom (word ++ [c]) s

/-- `s.split()`. -/
def split (s : Str) : List Str := splitFrom [] s

/-- `" ".join(words)`. -/
def joinSpace : List Str → Str
  | [] => []
  | [w] => w
  | w :: ws => w ++ 32 :: joinSpace ws

/-- `a <= b` on strings: by code points. -/
def strLe : Str → Str → Bool
  | [], _ => true
  | _ :: _, [] => false
  | a :: s, b :: t => a < b || (a == b && strLe s t)

theorem strLe_total (s t : Str) : strLe s t ∨ strLe t s := by
  induction s generalizing t with
  | nil => exact Or.inl rfl
  | cons a s ih =>
    cases t with
    | nil => exact Or.inr rfl
    | cons b t =>
      simp only [strLe, Bool.or_eq_true, decide_eq_true_eq, Bool.and_eq_true, beq_iff_eq]
      rcases Nat.lt_trichotomy a b with h | rfl | h
      · exact Or.inl (Or.inl h)
      · rcases ih t with h | h
        · exact Or.inl (Or.inr ⟨rfl, h⟩)
        · exact Or.inr (Or.inr ⟨rfl, h⟩)
      · exact Or.inr (Or.inl h)

theorem strLe_trans {s t u : Str} (h : strLe s t) (h' : strLe t u) : strLe s u := by
  induction s generalizing t u with
  | nil => rfl
  | cons a s ih =>
    cases t with
    | nil => cases h
    | cons b t =>
      cases u with
      | nil => cases h'
      | cons c u =>
        simp only [strLe, Bool.or_eq_true, decide_eq_true_eq, Bool.and_eq_true, beq_iff_eq]
          at h h' ⊢
        rcases h with h | ⟨rfl, h⟩
        · rcases h' with h' | ⟨rfl, -⟩
          · exact Or.inl (Nat.lt_trans h h')
          · exact Or.inl h
        · rcases h' with h' | ⟨rfl, h'⟩
          · exact Or.inl h'
          · exact Or.inr ⟨rfl, ih h h'⟩

end Python
