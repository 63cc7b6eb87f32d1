/-
  What `json.dumps` writes is read as the value it was.

  With `ensure_ascii`, a string that holds a high surrogate right before a low
  one is read as another string: the two escapes are one character.

  * `readString_write`: a string is read as it was written;
  * `readValue_write`, `loadsStrict_write`: so is a value.
-/
import MercuryRelay.Python.FloatRead
import MercuryRelay.Python.JsonSize

set_option autoImplicit false

namespace Python

variable {c d fuel : ℕ} {s t acc : Str} {ascii : Bool}

/-! ## Strings -/

def IsHigh (c : ℕ) : Prop := 0xD800 ≤ c ∧ c ≤ 0xDBFF

def IsLow (c : ℕ) : Prop := 0xDC00 ≤ c ∧ c ≤ 0xDFFF

instance (c : ℕ) : Decidable (IsHigh c) := by unfold IsHigh; infer_instance

instance (c : ℕ) : Decidable (IsLow c) := by unfold IsLow; infer_instance

/-- Code points, and no high surrogate right before a low one. -/
def LegibleStr : Str → Prop
  | [] => True
  | c :: s => c < 0x110000 ∧ (IsHigh c → ∀ d ∈ s.head?, ¬ IsLow d) ∧ LegibleStr s

instance : (s : Str) → Decidable (LegibleStr s)
  | [] => .isTrue trivial
  | c :: s =>
    have := instDecidableLegibleStr s
    inferInstanceAs (Decidable (c < 0x110000 ∧ (IsHigh c → ∀ d ∈ s.head?, ¬ IsLow d) ∧ LegibleStr s))

theorem hexValue_hexChar : ∀ n, n < 16 → hexValue? (hexChar n) = some n := by decide

theorem hex4_escapeU (hc : c < 0x10000) (t : Str) : hex4 ((escapeU c).drop 2 ++ t) = some (c, t) := by
  have hvalue : ∀ n, hexValue? (hexChar (n % 16)) = some (n % 16) := fun n =>
    hexValue_hexChar _ (Nat.mod_lt n (by decide))
  simp only [escapeU, List.drop_succ_cons, List.drop_zero, List.cons_append, List.nil_append, hex4, hvalue,
    Option.pure_def, Option.bind_eq_bind, Option.bind_some, Option.some.injEq, Prod.mk.injEq, and_true]
  omega

/-- An escape that follows is not of a low surrogate. -/
def NoLow (t : Str) : Prop := ∀ u, t = 92 :: 117 :: u → ∃ d v, hex4 u = some (d, v) ∧ ¬ IsLow d

theorem unicodeEscape_single (hc : c < 0x10000) (ht : IsHigh c → NoLow t) :
    unicodeEscape ((escapeU c).drop 2 ++ t) = some (c, t) := by
  unfold unicodeEscape
  rw [hex4_escapeU hc]
  by_cases hhigh : 0xD800 ≤ c ∧ c ≤ 0xDBFF
  · simp only [Option.bind_eq_bind, Option.bind_some, hhigh, and_self, if_true]
    split
    · rename_i u
      obtain ⟨d, v, hd, hlow⟩ := ht hhigh u rfl
      have hlow' : ¬ (0xDC00 ≤ d ∧ d ≤ 0xDFFF) := hlow
      rw [hd, Option.bind_some]
      exact if_neg hlow'
    · rfl
  · simp only [Option.bind_eq_bind, Option.bind_some, hhigh, if_false]
    rfl

/-- The escapes of two surrogates are one character. -/
theorem unicodeEscape_surrogates (hc : IsHigh c) (hd : IsLow d) (t : Str) :
    unicodeEscape ((escapeU c).drop 2 ++ (escapeU d ++ t)) =
      some (0x10000 + (c - 0xD800) * 1024 + (d - 0xDC00), t) := by
  have hc' : 0xD800 ≤ c ∧ c ≤ 0xDBFF := hc
  have hd' : 0xDC00 ≤ d ∧ d ≤ 0xDFFF := hd
  have hread := hex4_escapeU (c := d) (by omega) t
  have htext : escapeU d ++ t = 92 :: 117 :: ((escapeU d).drop 2 ++ t) := rfl
  unfold unicodeEscape
  rw [hex4_escapeU (by omega), htext]
  simp only [Option.bind_eq_bind, Option.bind_some, hc', and_self, if_true, hread, hd', Option.pure_def]

theorem surrogates_sum {n : ℕ} (hn : 0x10000 ≤ n) :
    0x10000 + (0xD800 + (n - 0x10000) / 1024 - 0xD800) * 1024 + (0xDC00 + (n - 0x10000) % 1024 - 0xDC00) = n := by
  omega

/-- The two escapes of a character past the basic plane. -/
theorem unicodeEscape_pair (hc : 0x10000 ≤ c) (hmax : c < 0x110000) (t : Str) :
    unicodeEscape ((escapeU (0xD800 + (c - 0x10000) / 1024)).drop 2 ++
      (escapeU (0xDC00 + (c - 0x10000) % 1024) ++ t)) = some (c, t) := by
  have hhigh : IsHigh (0xD800 + (c - 0x10000) / 1024) := by
    unfold IsHigh
    omega
  have hlow : IsLow (0xDC00 + (c - 0x10000) % 1024) := by
    unfold IsLow
    omega
  rw [unicodeEscape_surrogates hhigh hlow, surrogates_sum hc]

theorem readString_escape {e : ℕ} (h : escape? e = some c) (he : e ≠ 117) (acc t : Str) :
    readString (fuel + 1) acc (92 :: e :: t) = readString fuel (c :: acc) t := by
  conv_lhs => unfold readString
  simp only [show ¬ 92 = 34 by decide, show ¬ 92 < 32 by decide, if_false, if_true]
  rw [h]
  rfl

theorem readString_unicode {u : Str} (h : unicodeEscape u = some (c, t)) (acc : Str) :
    readString (fuel + 1) acc (92 :: 117 :: u) = readString fuel (c :: acc) t := by
  conv_lhs => unfold readString
  simp only [show ¬ 92 = 34 by decide, show ¬ 92 < 32 by decide, if_false, if_true, h,
    Option.bind_eq_bind, Option.bind_some]

/-- **A character is read as it was written.** -/
theorem readString_writeChar (hc : c < 0x110000) (ht : IsHigh c → NoLow t) (acc : Str) :
    readString (fuel + 1) acc (writeChar ascii c ++ t) = readString fuel (c :: acc) t := by
  have hsimple : ∀ e, escape? e = some c → e ≠ 117 → writeChar ascii c = [92, e] →
      readString (fuel + 1) acc (writeChar ascii c ++ t) = readString fuel (c :: acc) t := by
    intro e h he htext
    rw [htext]
    exact readString_escape h he acc t
  have hbasic : c < 0x10000 → writeChar ascii c = escapeU c →
      readString (fuel + 1) acc (writeChar ascii c ++ t) = readString fuel (c :: acc) t := by
    intro hc htext
    rw [htext]
    exact readString_unicode (unicodeEscape_single hc ht) acc
  by_cases hquote : c = 34 ∨ c = 92
  · rcases hquote with rfl | rfl
    · exact hsimple 34 rfl (by decide) rfl
    · exact hsimple 92 rfl (by decide) rfl
  · by_cases hcontrol : c < 32
    · by_cases h8 : c = 8
      · subst h8
        exact hsimple 98 rfl (by decide) rfl
      · by_cases h12 : c = 12
        · subst h12
          exact hsimple 102 rfl (by decide) rfl
        · by_cases h10 : c = 10
          · subst h10
            exact hsimple 110 rfl (by decide) rfl
          · by_cases h13 : c = 13
            · subst h13
              exact hsimple 114 rfl (by decide) rfl
            · by_cases h9 : c = 9
              · subst h9
                exact hsimple 116 rfl (by decide) rfl
              · refine hbasic (by omega) ?_
                unfold writeChar
                rw [if_neg hquote, if_neg h8, if_neg h12, if_neg h10, if_neg h13, if_neg h9, if_pos hcontrol]
    · have htext : writeChar ascii c = if ascii ∧ 127 ≤ c then
          if c < 0x10000 then escapeU c
          else escapeU (0xD800 + (c - 0x10000) / 1024) ++ escapeU (0xDC00 + (c - 0x10000) % 1024)
          else [c] := by
        unfold writeChar
        rw [if_neg hquote, if_neg (by omega), if_neg (by omega), if_neg (by omega), if_neg (by omega),
          if_neg (by omega), if_neg hcontrol]
      by_cases hascii : ascii ∧ 127 ≤ c
      · rw [if_pos hascii] at htext
        by_cases hplane : c < 0x10000
        · rw [if_pos hplane] at htext
          exact hbasic hplane htext
        · rw [if_neg hplane] at htext
          rw [htext, List.append_assoc]
          exact readString_unicode (unicodeEscape_pair (by omega) hc t) acc
      · rw [if_neg hascii] at htext
        rw [htext]
        rw [not_or] at hquote
        conv_lhs => unfold readString
        simp only [List.singleton_append, hquote.1, hcontrol, hquote.2, if_false]

/-- The text of a character that is no low surrogate is no escape of one. -/
theorem noLow_writeChar (hd : d < 0x110000) (hlow : ¬ IsLow d) (t : Str) : NoLow (writeChar ascii d ++ t) := by
  intro u hu
  have hescape : ∀ d w, d < 0x10000 → ¬ IsLow d → escapeU d ++ w = 92 :: 117 :: u →
      ∃ d v, hex4 u = some (d, v) ∧ ¬ IsLow d := by
    intro d w hd hlow h
    have hrest : (escapeU d).drop 2 ++ w = u := (List.cons.inj (List.cons.inj h).2).2
    exact ⟨d, w, hrest ▸ hex4_escapeU hd w, hlow⟩
  unfold writeChar at hu
  split at hu
  · have h := (List.cons.inj (List.cons.inj hu).2).1
    omega
  · split at hu
    · cases hu
    · split at hu
      · cases hu
      · split at hu
        · cases hu
        · split at hu
          · cases hu
          · split at hu
            · cases hu
            · split at hu
              · exact hescape d t (by omega) hlow hu
              · split at hu
                · split at hu
                  · exact hescape d t ‹_› hlow hu
                  · rw [List.append_assoc] at hu
                    refine hescape _ _ (by omega) ?_ hu
                    rintro ⟨h, -⟩
                    omega
                · rename_i hquote _ _ _ _ _ _ _
                  exact absurd (.inr (List.cons.inj hu).1) hquote

/-- **A string is read as it was written.** -/
theorem readString_write (h : LegibleStr s) (hfuel : s.length < fuel) :
    readString fuel acc (s.flatMap (writeChar ascii) ++ 34 :: t) = some (acc.reverse ++ s, t) := by
  induction s generalizing fuel acc with
  | nil =>
    obtain ⟨n, rfl⟩ : ∃ n, fuel = n + 1 := ⟨fuel - 1, by simp at hfuel; omega⟩
    rw [List.append_nil]
    rfl
  | cons c s ih =>
    obtain ⟨n, rfl⟩ : ∃ n, fuel = n + 1 := ⟨fuel - 1, by simp at hfuel; omega⟩
    obtain ⟨hc, hpair, hs⟩ := h
    have hnext : IsHigh c → NoLow (s.flatMap (writeChar ascii) ++ 34 :: t) := by
      intro hhigh
      cases s with
      | nil =>
        intro u hu
        cases hu
      | cons d s =>
        rw [List.flatMap_cons, List.append_assoc]
        exact noLow_writeChar hs.1 (hpair hhigh d rfl) _
    rw [List.flatMap_cons, List.append_assoc, readString_writeChar hc hnext,
      ih hs (by simpa using hfuel), List.reverse_cons, List.append_assoc, List.singleton_append]

/-! ## Values -/

namespace Json

mutual

/-- What is read as it was written: numbers that fit, strings that are legible, and no key twice. -/
def Legible : Json → Prop
  | int n => (natDigits n.natAbs).length ≤ intMaxStrDigits
  | float (.finite neg m e) => (Float64.finite neg m e).Canonical
  | float (.inf _) => False
  | str s => LegibleStr s
  | arr items => LegibleItems items
  | obj members => (members.map (·.1)).Nodup ∧ LegibleMembers members
  | _ => True

def LegibleItems : List Json → Prop
  | [] => True
  | v :: vs => Legible v ∧ LegibleItems vs

def LegibleMembers : List (Str × Json) → Prop
  | [] => True
  | (k, v) :: ms => LegibleStr k ∧ Legible v ∧ LegibleMembers ms

end

mutual

/-- The fuel that a value takes. -/
def cost : Json → ℕ
  | arr items => costItems items + 1
  | obj members => costMembers members + 1
  | _ => 1

def costItems : List Json → ℕ
  | [] => 0
  | v :: vs => cost v + costItems vs + 1

def costMembers : List (Str × Json) → ℕ
  | [] => 0
  | (_, v) :: ms => cost v + costMembers ms + 1

end

end Json

/-- The styles that the reader undoes: members in their order, blanks after the separators. -/
structure Undone (style : DumpStyle) : Prop where
  unsorted : style.sortKeys = false
  item : ∃ n, style.itemSeparator = 44 :: List.replicate n 32
  key : ∃ n, style.keySeparator = 58 :: List.replicate n 32

variable {style : DumpStyle} {v : Json} {vs : List Json} {k : Str} {ms : List (Str × Json)}

theorem skipWs_blanks (n : ℕ) (s : Str) : skipWs (List.replicate n 32 ++ s) = skipWs s := by
  induction n with
  | zero => rfl
  | succ n ih =>
    rw [List.replicate_succ, List.cons_append, skipWs, if_pos (.inl rfl), ih]

/-- No white space, no closing bracket and no byte order mark. -/
def IsStart (c : ℕ) : Prop := c ≠ 32 ∧ c ≠ 9 ∧ c ≠ 10 ∧ c ≠ 13 ∧ c ≠ 93 ∧ c ≠ 0xFEFF

instance (c : ℕ) : Decidable (IsStart c) := by unfold IsStart; infer_instance

theorem IsDigit.isStart (h : IsDigit c) : IsStart c := by
  unfold IsDigit at h
  unfold IsStart
  omega

theorem skipWs_start (h : IsStart c) (s : Str) : skipWs (c :: s) = c :: s := by
  obtain ⟨h1, h2, h3, h4, -⟩ := h
  rw [skipWs, if_neg (by simp [h1, h2, h3, h4])]

/-- The digits of a number are the whole part of one. -/
theorem whole_natDigits (n : ℕ) : Whole (natDigits n) := by
  rcases Nat.eq_zero_or_pos n with rfl | hn
  · rw [natDigits_of_lt (by decide)]
    exact .zero
  · obtain ⟨c, ds, hds, h1, h2⟩ := natDigits_head hn
    rw [hds]
    refine .cons h1 h2 ?_
    exact (hds ▸ natDigits_digits n).subset (List.subset_cons_self c ds)

theorem readValue_intRepr {n : ℤ} (h : (natDigits n.natAbs).length ≤ intMaxStrDigits)
    (ht : Ends t) : readValue (fuel + 1) (intRepr n ++ t) = some (.int n, t) := by
  cases n with
  | ofNat n =>
    have hread := @readNumber_int false _ _ (whole_natDigits n) ht h
    rw [digitsValue_natDigits] at hread
    obtain ⟨c, ds, hds⟩ := List.exists_cons_of_ne_nil (natDigits_ne_nil n)
    have hc : IsDigit c := natDigits_digits n c (hds ▸ List.mem_cons_self)
    rw [hds] at hread
    rw [show intRepr (Int.ofNat n) = c :: ds from hds]
    exact (readValue_digit hc _).trans hread
  | negSucc n =>
    have hread := @readNumber_int true _ _ (whole_natDigits (n + 1)) ht h
    rw [digitsValue_natDigits] at hread
    exact hread

/-- An integer of too many digits is not read. -/
theorem readValue_long {n : ℤ} (h : intMaxStrDigits < (natDigits n.natAbs).length) (ht : Ends t) :
    readValue (fuel + 1) (intRepr n ++ t) = none := by
  cases n with
  | ofNat n =>
    have hread : readNumber false (natDigits n ++ t) = none := readNumber_long (whole_natDigits n) ht h
    obtain ⟨c, ds, hds⟩ := List.exists_cons_of_ne_nil (natDigits_ne_nil n)
    have hc : IsDigit c := natDigits_digits n c (hds ▸ List.mem_cons_self)
    rw [hds] at hread
    rw [show intRepr (Int.ofNat n) = c :: ds from hds]
    exact (readValue_digit hc _).trans hread
  | negSucc n =>
    have hread : readNumber true (natDigits (n + 1) ++ t) = none := readNumber_long (whole_natDigits (n + 1)) ht h
    exact hread

theorem intRepr_start (n : ℤ) : ∃ c s, intRepr n = c :: s ∧ IsStart c := by
  cases n with
  | ofNat n =>
    obtain ⟨c, ds, hds⟩ := List.exists_cons_of_ne_nil (natDigits_ne_nil n)
    exact ⟨c, ds, hds, (natDigits_digits n c (hds ▸ List.mem_cons_self)).isStart⟩
  | negSucc n => exact ⟨45, _, rfl, by decide⟩

theorem write_start (h : v.Legible) : ∃ c s, write style v = c :: s ∧ IsStart c := by
  cases v with
  | null => exact ⟨110, _, rfl, by decide⟩
  | bool b =>
    cases b
    · exact ⟨102, _, rfl, by decide⟩
    · exact ⟨116, _, rfl, by decide⟩
  | int n => exact intRepr_start n
  | float x =>
    cases x with
    | inf neg => exact h.elim
    | finite neg m e =>
      obtain ⟨body, htext, ⟨c, s, hbody, hc⟩, -⟩ := floatRepr_body h
      rw [write, htext]
      cases neg with
      | true => exact ⟨45, _, rfl, by decide⟩
      | false => exact ⟨c, s, hbody, hc.isStart⟩
  | str s => exact ⟨34, _, rfl, by decide⟩
  | arr items => exact ⟨91, _, rfl, by decide⟩
  | obj members => exact ⟨123, _, rfl, by decide⟩

/-- The text of an item list: what stands between the brackets. -/
def itemsText (style : DumpStyle) (vs : List Json) : Str :=
  join style.itemSeparator (vs.map (write style))

def memberText (style : DumpStyle) (m : Str × Json) : Str :=
  writeString style.ensureAscii m.1 ++ style.keySeparator ++ write style m.2

def membersText (style : DumpStyle) (ms : List (Str × Json)) : Str :=
  join style.itemSeparator (ms.map (memberText style))

theorem write_arr : write style (.arr vs) = 91 :: itemsText style vs ++ [93] := by
  rw [write, writeItems_eq, itemsText]

theorem write_obj (h : style.sortKeys = false) :
    write style (.obj ms) = 123 :: membersText style ms ++ [125] := by
  rw [write, writeMembers_eq]
  simp only [h, Bool.false_eq_true, if_false, List.map_map, membersText]
  rfl

/-- What follows an item: a separator and the next, or the end. -/
def closing (style : DumpStyle) (last : ℕ) (rest : List Str) (t : Str) : Str :=
  match rest with
  | [] => last :: t
  | u :: us => style.itemSeparator ++ join style.itemSeparator (u :: us) ++ last :: t

theorem join_closing (u : Str) (us : List Str) (last : ℕ) (t : Str) :
    join style.itemSeparator (u :: us) ++ last :: t = u ++ closing style last us t := by
  cases us with
  | nil => rfl
  | cons w us => simp [join, closing]

theorem ends_closing (hstyle : Undone style) {last : ℕ} (hlast : Ends (last :: t)) (rest : List Str) :
    Ends (closing style last rest t) := by
  obtain ⟨n, hn⟩ := hstyle.item
  cases rest with
  | nil => exact hlast
  | cons u us =>
    intro c hc
    rw [closing, hn] at hc
    cases hc
    exact ⟨by decide, by decide, by decide, by decide⟩

theorem skipWs_closing (hstyle : Undone style) {u : Str} {us : List Str} (hu : ∃ c s, u = c :: s ∧ IsStart c)
    (last : ℕ) (t : Str) : ∃ w, closing style last (u :: us) t = 44 :: w ∧
      skipWs w = u ++ closing style last us t := by
  obtain ⟨n, hn⟩ := hstyle.item
  obtain ⟨c, s, rfl, hc⟩ := hu
  refine ⟨List.replicate n 32 ++ ((c :: s) ++ closing style last us t), ?_, ?_⟩
  · rw [closing, List.append_assoc, join_closing, hn, List.cons_append]
  · rw [skipWs_blanks, List.cons_append, skipWs_start hc]

theorem ends_last {last : ℕ} (h : last = 93 ∨ last = 125) (t : Str) : Ends (last :: t) := by
  intro c hc
  cases hc
  rcases h with rfl | rfl <;> exact ⟨by decide, by decide, by decide, by decide⟩

/-- A character is written as one at least. -/
theorem length_le_flatMap (s : Str) : s.length ≤ (s.flatMap (writeChar ascii)).length := by
  induction s with
  | nil => exact Nat.le_refl 0
  | cons c s ih =>
    have hpos : 0 < (writeChar ascii c).length := by
      unfold writeChar
      repeat' split
      all_goals simp [escapeU]
    rw [List.flatMap_cons, List.length_append, List.length_cons]
    omega

/-- A key is read as it was written, and what separates it from its value. -/
theorem readKey (hstyle : Undone style) {u : Str} (hk : LegibleStr k) (hu : ∃ c s, u = c :: s ∧ IsStart c) :
    ∃ w, writeString style.ensureAscii k ++ style.keySeparator ++ u = 34 :: w ∧
      ∃ w', readString (w.length + 1) [] w = some (k, 58 :: w') ∧ skipWs w' = u := by
  obtain ⟨n, hn⟩ := hstyle.key
  obtain ⟨c, s, rfl, hc⟩ := hu
  refine ⟨k.flatMap (writeChar style.ensureAscii) ++ 34 :: (style.keySeparator ++ c :: s), ?_,
    List.replicate n 32 ++ c :: s, ?_, ?_⟩
  · rw [writeString]
    simp
  · have hlen : k.length < (k.flatMap (writeChar style.ensureAscii) ++ 34 :: (style.keySeparator ++ c :: s)).length + 1 := by
      have hle := @length_le_flatMap style.ensureAscii k
      rw [List.length_append]
      omega
    rw [readString_write hk hlen, hn]
    rfl
  · rw [skipWs_blanks, skipWs_start hc]

theorem readValue_string (n : ℕ) (s : Str) : readValue (n + 1) (34 :: s) =
    (readString (s.length + 1) [] s).map fun (t, s) => (.str t, s) := rfl

theorem readValue_bracket (n : ℕ) (s : Str) : readValue (n + 1) (91 :: s) = match skipWs s with
    | 93 :: s => some (.arr [], s)
    | s => (readItems n [] s).map fun (vs, s) => (.arr vs, s) := rfl

theorem readValue_brace (n : ℕ) (s : Str) : readValue (n + 1) (123 :: s) = match skipWs s with
    | 125 :: s => some (.obj [], s)
    | s => (readMembers n [] s).map fun (ms, s) => (.obj ms, s) := rfl

theorem readValue_items {n : ℕ} (hc : IsStart c) (h : readItems n [] (c :: s) = some (vs, t)) :
    readValue (n + 1) (91 :: c :: s) = some (.arr vs, t) := by
  rw [readValue_bracket, skipWs_start hc]
  split
  · rename_i heq
    exact absurd (List.cons.inj heq).1 hc.2.2.2.2.1
  · rw [h]
    rfl

theorem readValue_members {n : ℕ} (h : readMembers n [] (34 :: s) = some (ms, t)) :
    readValue (n + 1) (123 :: 34 :: s) = some (.obj ms, t) := by
  rw [readValue_brace, skipWs_start (by decide)]
  split
  · rename_i heq
    cases heq
  · rw [h]
    rfl

theorem not_any_key {acc : List (Str × Json)} (h : k ∉ acc.map (·.1)) : ¬ acc.any (·.1 = k) = true := by
  intro hany
  obtain ⟨m, hm, hmk⟩ := List.any_eq_true.1 hany
  exact h (List.mem_map.2 ⟨m, hm, by simpa using hmk⟩)

/-- A member is read before what follows it, if its value is. -/
theorem readMembers_member (hstyle : Undone style) {n : ℕ} {acc : List (Str × Json)} (hk : LegibleStr k)
    (hv : ∃ c s, write style v = c :: s ∧ IsStart c) (hnew : k ∉ acc.map (·.1)) :
    readMembers (n + 1) acc (memberText style (k, v) ++ t) =
      match readValue n (write style v ++ t) with
      | none => none
      | some (w, u) =>
        match skipWs u with
        | 125 :: u => some (((k, w) :: acc).reverse, u)
        | 44 :: u => readMembers n ((k, w) :: acc) (skipWs u)
        | _ => none := by
  obtain ⟨c, s, hc, hstart⟩ := hv
  obtain ⟨w, hw, w', hkey, hskip⟩ := readKey hstyle hk (u := write style v ++ t)
    ⟨c, s ++ t, by rw [hc, List.cons_append], hstart⟩
  have htext : memberText style (k, v) ++ t = 34 :: w := by
    rw [← hw, memberText, List.append_assoc]
  rw [htext]
  have hread := readMembers.eq_def (n + 1) acc (34 :: w)
  simp only [hkey, skipWs_start (show IsStart 58 by decide), hskip, if_neg (not_any_key hnew)] at hread
  exact hread

mutual

/-- **A value is read as it was written.** -/
theorem readValue_write (hstyle : Undone style) : ∀ (v : Json) (n : ℕ) (t : Str), v.Legible → v.cost ≤ n →
    Ends t → readValue n (write style v ++ t) = some (v, t)
  | .null, n + 1, t, _, _, _ => rfl
  | .bool true, n + 1, t, _, _, _ => rfl
  | .bool false, n + 1, t, _, _, _ => rfl
  | .int i, n + 1, t, h, _, ht => readValue_intRepr h ht
  | .float (.finite neg m e), n + 1, t, h, _, ht => readValue_floatRepr h ht
  | .float (.inf _), _, _, h, _, _ => h.elim
  | .str s, n + 1, t, h, _, _ => by
    have hs : LegibleStr s := by simpa only [Json.Legible] using h
    have hlen : s.length < (s.flatMap (writeChar style.ensureAscii) ++ 34 :: t).length + 1 := by
      have hle := @length_le_flatMap style.ensureAscii s
      rw [List.length_append]
      omega
    have hread := @readString_write _ s t [] style.ensureAscii hs hlen
    have htext : write style (.str s) ++ t = 34 :: (s.flatMap (writeChar style.ensureAscii) ++ 34 :: t) := by
      rw [write, writeString]
      simp
    rw [htext, readValue_string, hread]
    rfl
  | .arr [], n + 1, t, _, _, _ => rfl
  | .arr (v :: vs), n + 1, t, h, hn, _ => by
    simp only [Json.Legible, Json.LegibleItems] at h
    simp only [Json.cost] at hn
    have hread := readItems_write hstyle v vs n [] t h.1 h.2 (by omega)
    obtain ⟨c, s, hc, hstart⟩ := write_start h.1
    have htext : write style (.arr (v :: vs)) ++ t =
        91 :: (write style v ++ closing style 93 (vs.map (write style)) t) := by
      rw [write_arr, itemsText, List.map_cons, ← join_closing]
      simp
    rw [htext]
    rw [hc, List.cons_append] at hread ⊢
    exact readValue_items hstart hread
  | .obj [], n + 1, t, _, _, _ => by
    rw [write_obj hstyle.unsorted]
    rfl
  | .obj ((k, v) :: ms), n + 1, t, h, hn, _ => by
    simp only [Json.Legible, Json.LegibleMembers] at h
    simp only [Json.cost] at hn
    obtain ⟨hnodup, hk, hv, hms⟩ := h
    have hread := readMembers_write hstyle k v ms n [] t hk hv hms hnodup (by simp) (by omega)
    have htext : write style (.obj ((k, v) :: ms)) ++ t =
        123 :: (memberText style (k, v) ++ closing style 125 (ms.map (memberText style)) t) := by
      rw [write_obj hstyle.unsorted, membersText, List.map_cons, ← join_closing]
      simp
    have hhead : memberText style (k, v) ++ closing style 125 (ms.map (memberText style)) t =
        34 :: (k.flatMap (writeChar style.ensureAscii) ++ [34] ++ style.keySeparator ++ write style v ++
          closing style 125 (ms.map (memberText style)) t) := rfl
    rw [htext]
    rw [hhead] at hread ⊢
    exact readValue_members hread
  | v, 0, _, _, hn, _ => by
    cases v <;> simp [Json.cost] at hn

theorem readItems_write (hstyle : Undone style) : ∀ (v : Json) (vs : List Json) (n : ℕ) (acc : List Json) (t : Str),
    v.Legible → Json.LegibleItems vs → Json.costItems (v :: vs) ≤ n →
    readItems n acc (write style v ++ closing style 93 (vs.map (write style)) t) = some (acc.reverse ++ v :: vs, t)
  | v, vs, 0, _, _, _, _, hn => by simp [Json.costItems] at hn
  | v, vs, n + 1, acc, t, hv, hvs, hn => by
    simp only [Json.costItems] at hn
    have hends := ends_closing hstyle (ends_last (.inl rfl) t) (vs.map (write style))
    have hvalue := readValue_write hstyle v n _ hv (by omega) hends
    cases vs with
    | nil =>
      unfold readItems
      rw [hvalue]
      simp [closing, skipWs]
    | cons w vs =>
      simp only [Json.LegibleItems] at hvs
      obtain ⟨u, hu, hskip⟩ := skipWs_closing hstyle
        (write_start hvs.1) 93 t
      rw [List.map_cons] at hvalue ⊢
      rw [hu] at hvalue ⊢
      have hrest := readItems_write hstyle w vs n (v :: acc) t hvs.1 hvs.2 (by
        simp only [Json.costItems] at hn ⊢
        omega)
      rw [← hskip] at hrest
      unfold readItems
      rw [hvalue]
      dsimp only
      rw [skipWs_start (by decide)]
      refine hrest.trans ?_
      rw [List.reverse_cons, List.append_assoc, List.singleton_append]

theorem readMembers_write (hstyle : Undone style) : ∀ (k : Str) (v : Json) (ms : List (Str × Json)) (n : ℕ)
    (acc : List (Str × Json)) (t : Str), LegibleStr k → v.Legible → Json.LegibleMembers ms →
    (((k, v) :: ms).map (·.1)).Nodup → (∀ m ∈ (k, v) :: ms, m.1 ∉ acc.map (·.1)) →
    Json.costMembers ((k, v) :: ms) ≤ n →
    readMembers n acc (memberText style (k, v) ++ closing style 125 (ms.map (memberText style)) t) =
      some (acc.reverse ++ (k, v) :: ms, t)
  | k, v, ms, 0, _, _, _, _, _, _, _, hn => by simp [Json.costMembers] at hn
  | k, v, ms, n + 1, acc, t, hk, hv, hms, hnodup, hacc, hn => by
    simp only [Json.costMembers] at hn
    have hends := ends_closing hstyle (ends_last (.inr rfl) t) (ms.map (memberText style))
    have hvalue := readValue_write hstyle v n _ hv (by omega) hends
    rw [readMembers_member hstyle hk (write_start hv) (hacc (k, v) List.mem_cons_self), hvalue]
    dsimp only
    cases ms with
    | nil => simp [closing, skipWs]
    | cons m ms =>
      obtain ⟨l, u⟩ := m
      simp only [Json.LegibleMembers] at hms
      obtain ⟨hl, hu, hms⟩ := hms
      have hmember : ∃ c s, memberText style (l, u) = c :: s ∧ IsStart c := ⟨34, _, rfl, by decide⟩
      obtain ⟨z, hz, hskip'⟩ := skipWs_closing hstyle hmember 125 t
      rw [List.map_cons, List.nodup_cons] at hnodup
      have hrest := readMembers_write hstyle l u ms n ((k, v) :: acc) t hl hu hms hnodup.2 (by
        intro m hm
        rw [List.map_cons, List.mem_cons, not_or]
        refine ⟨fun heq => hnodup.1 ?_, hacc m (List.mem_cons_of_mem _ hm)⟩
        exact List.mem_map.2 ⟨m, hm, heq⟩) (by
        simp only [Json.costMembers] at hn ⊢
        omega)
      rw [← hskip'] at hrest
      rw [List.map_cons, hz, skipWs_start (by decide)]
      refine hrest.trans ?_
      rw [List.reverse_cons, List.append_assoc, List.singleton_append]

end

/-! ## Fuel -/

theorem length_join {sep : Str} (hsep : 0 < sep.length) (ts : List Str) :
    (ts.map List.length).sum + ts.length ≤ (join sep ts).length + 1 := by
  induction ts with
  | nil => exact Nat.zero_le 1
  | cons u us ih =>
    cases us with
    | nil => simp [join]
    | cons w us =>
      have htext : join sep (u :: w :: us) = u ++ sep ++ join sep (w :: us) := rfl
      rw [htext, List.length_append, List.length_append, List.map_cons, List.sum_cons, List.length_cons]
      omega

theorem Undone.item_pos (hstyle : Undone style) : 0 < style.itemSeparator.length := by
  obtain ⟨n, hn⟩ := hstyle.item
  rw [hn]
  exact Nat.succ_pos _

theorem length_write_pos (h : v.Legible) : 0 < (write style v).length := by
  obtain ⟨c, s, hs, -⟩ := write_start h
  rw [hs]
  exact Nat.succ_pos _

theorem length_memberText (m : Str × Json) : (write style m.2).length + 1 ≤ (memberText style m).length := by
  rw [memberText, List.length_append, List.length_append, writeString, List.length_append, List.length_cons]
  omega

mutual

/-- A value takes no more fuel than two for each character. -/
theorem cost_le (hstyle : Undone style) : ∀ v : Json, v.Legible → v.cost ≤ 2 * (write style v).length
  | .arr items, h => by
    have hitems := costItems_le hstyle items (by simpa only [Json.Legible] using h)
    have hjoin := length_join hstyle.item_pos (items.map (write style))
    rw [write_arr, itemsText, Json.cost, List.length_append, List.length_cons, List.length_singleton]
    rw [List.length_map] at hjoin
    omega
  | .obj members, h => by
    simp only [Json.Legible] at h
    have hmembers := costMembers_le hstyle members h.2
    have hjoin := length_join hstyle.item_pos (members.map (memberText style))
    rw [write_obj hstyle.unsorted, membersText, Json.cost, List.length_append, List.length_cons,
      List.length_singleton]
    rw [List.length_map] at hjoin
    omega
  | .null, h | .bool _, h | .int _, h | .float _, h | .str _, h => by
    have hpos := @length_write_pos style _ h
    rw [Json.cost]
    · omega
    all_goals simp

theorem costItems_le (hstyle : Undone style) : ∀ vs : List Json, Json.LegibleItems vs →
    Json.costItems vs ≤ 2 * ((vs.map (write style)).map List.length).sum + vs.length
  | [], _ => Nat.le_refl 0
  | v :: vs, h => by
    simp only [Json.LegibleItems] at h
    have hv := cost_le hstyle v h.1
    have hvs := costItems_le hstyle vs h.2
    rw [Json.costItems, List.map_cons, List.map_cons, List.sum_cons, List.length_cons]
    omega

theorem costMembers_le (hstyle : Undone style) : ∀ ms : List (Str × Json), Json.LegibleMembers ms →
    Json.costMembers ms ≤ 2 * ((ms.map (memberText style)).map List.length).sum
  | [], _ => Nat.le_refl 0
  | (k, v) :: ms, h => by
    simp only [Json.LegibleMembers] at h
    have hv := cost_le hstyle v h.2.1
    have hms := costMembers_le hstyle ms h.2.2
    have hlen := @length_memberText style (k, v)
    rw [Json.costMembers, List.map_cons, List.map_cons, List.sum_cons]
    dsimp only at hlen
    omega

end

/-- **What `json.dumps` writes, `loads_strict` reads as the value it was.** -/
theorem loadsStrict_write (hstyle : Undone style) {depths : JsonDepths} (h : v.Legible)
    (hdepth : v.depth ≤ depths.read) : loadsStrict depths (write style v) = some v := by
  have hcost := cost_le hstyle v h
  have hread := readValue_write hstyle v (2 * (write style v).length + 2) [] h (by omega) (by simp [Ends])
  rw [List.append_nil] at hread
  obtain ⟨c, s, hs, hc⟩ := write_start h
  unfold loadsStrict
  rw [if_neg]
  · have hskip : skipWs (write style v) = write style v := by
      rw [hs, skipWs_start hc]
    rw [hskip, hread]
    exact if_pos ⟨rfl, hdepth⟩
  · rw [hs]
    intro hbom
    exact hc.2.2.2.2.2 (Option.some.inj hbom)

theorem undone_compactUnicode : Undone compactUnicode := ⟨rfl, ⟨0, rfl⟩, ⟨0, rfl⟩⟩

/-- `ensure_ascii=True, separators=(",", ":")`. -/
theorem undone_compact : Undone ⟨true, lit ",", lit ":", false⟩ := ⟨rfl, ⟨0, rfl⟩, ⟨0, rfl⟩⟩

/-! ## What is written is ASCII -/

theorem writeChar_ascii (c : ℕ) : Ascii (writeChar true c) := by
  by_cases hc : 127 ≤ c
  · unfold writeChar
    repeat' split
    all_goals first
      | exact escapeU_ascii _
      | exact (escapeU_ascii _).append (escapeU_ascii _)
      | omega
      | simp_all
  · unfold writeChar
    repeat' split
    all_goals first
      | exact escapeU_ascii _
      | omega
      | (intro d hd
         simp only [List.mem_cons, List.not_mem_nil, or_false] at hd
         omega)

theorem writeString_ascii (s : Str) : Ascii (writeString true s) := by
  refine .append (.cons (by decide) ?_) (by decide)
  intro c hc
  obtain ⟨d, -, hd⟩ := List.mem_flatMap.1 hc
  exact writeChar_ascii d c hd

theorem join_ascii {sep : Str} (hsep : Ascii sep) {ts : List Str} (h : ∀ u ∈ ts, Ascii u) : Ascii (join sep ts) := by
  induction ts with
  | nil => exact fun c hc => absurd hc List.not_mem_nil
  | cons u us ih =>
    rw [List.forall_mem_cons] at h
    cases us with
    | nil => exact h.1
    | cons w us => exact (h.1.append hsep).append (ih h.2)

theorem Undone.separators (hstyle : Undone style) : Ascii style.itemSeparator ∧ Ascii style.keySeparator := by
  obtain ⟨m, hm⟩ := hstyle.item
  obtain ⟨n, hn⟩ := hstyle.key
  rw [hm, hn]
  exact ⟨.cons (by decide) (.replicate (by decide)), .cons (by decide) (.replicate (by decide))⟩

mutual

/-- **What is written with `ensure_ascii` is ASCII.** -/
theorem write_ascii (hstyle : Undone style) (hascii : style.ensureAscii = true) : ∀ v : Json, Ascii (write style v)
  | .null => show Ascii (lit "null") by decide
  | .bool true => show Ascii (lit "true") by decide
  | .bool false => show Ascii (lit "false") by decide
  | .int n => intRepr_ascii n
  | .float x => floatRepr_ascii x
  | .str s => by
    rw [write, hascii]
    exact writeString_ascii s
  | .arr items => by
    rw [write_arr]
    refine .append (.cons (by decide) (join_ascii hstyle.separators.1 ?_)) (by decide)
    exact writeItems_ascii hstyle hascii items
  | .obj members => by
    rw [write_obj hstyle.unsorted]
    refine .append (.cons (by decide) (join_ascii hstyle.separators.1 ?_)) (by decide)
    exact writeMembers_ascii hstyle hascii members

theorem writeItems_ascii (hstyle : Undone style) (hascii : style.ensureAscii = true) :
    ∀ vs : List Json, ∀ u ∈ vs.map (write style), Ascii u
  | [] => by simp
  | v :: vs => by
    rw [List.map_cons, List.forall_mem_cons]
    exact ⟨write_ascii hstyle hascii v, writeItems_ascii hstyle hascii vs⟩

theorem writeMembers_ascii (hstyle : Undone style) (hascii : style.ensureAscii = true) : ∀ ms : List (Str × Json),
    ∀ u ∈ ms.map (memberText style), Ascii u
  | [] => by simp
  | (k, v) :: ms => by
    rw [List.map_cons, List.forall_mem_cons]
    refine ⟨.append (.append ?_ hstyle.separators.2) (write_ascii hstyle hascii v), writeMembers_ascii hstyle hascii ms⟩
    rw [hascii]
    exact writeString_ascii k

end

end Python
