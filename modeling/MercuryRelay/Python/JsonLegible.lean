/-
  Which strings are read.

  A text that encodes holds no surrogate of its own, and the reader joins the
  escapes of a high and a low one in a row; so no string that was read has the
  two in a row.

  * `loadsStrict_strings`: every string of a value that was read is legible.
-/
import Mathlib.Data.List.Chain
import MercuryRelay.Python.JsonRead
import MercuryRelay.Python.JsonWrite

set_option autoImplicit false

namespace Python

variable {c d n fuel : ℕ} {s t acc : Str} {v : Json}

/-! ## Legible strings -/

/-- What may stand after a character. -/
def Follows (c d : ℕ) : Prop := IsHigh c → ¬ IsLow d

theorem legibleStr_iff : LegibleStr s ↔ (∀ c ∈ s, c < 0x110000) ∧ s.IsChain Follows := by
  induction s with
  | nil => simp [LegibleStr]
  | cons c s ih =>
    rw [LegibleStr, ih, List.forall_mem_cons, List.isChain_cons]
    constructor
    · rintro ⟨h1, h2, h3, h4⟩
      exact ⟨⟨h1, h3⟩, fun d hd hhigh => h2 hhigh d hd, h4⟩
    · rintro ⟨⟨h1, h3⟩, h2, h4⟩
      exact ⟨h1, fun hhigh d hd => h2 d hd hhigh, h3, h4⟩

theorem LegibleStr.take (h : LegibleStr s) (n : ℕ) : LegibleStr (s.take n) := by
  rw [legibleStr_iff] at h ⊢
  exact ⟨fun c hc => h.1 c (List.mem_of_mem_take hc), h.2.take n⟩

theorem Ascii.legible (h : Ascii s) : LegibleStr s := by
  rw [legibleStr_iff]
  refine ⟨fun c hc => ?_, ?_⟩
  · have := h c hc
    omega
  · induction s with
    | nil => exact .nil
    | cons c s ih =>
      rw [List.isChain_cons]
      refine ⟨fun d _ hhigh => ?_, ih fun d hd => h d (List.mem_cons_of_mem c hd)⟩
      have := h c List.mem_cons_self
      unfold IsHigh at hhigh
      omega

/-- ASCII text may stand before any other. -/
theorem Ascii.append_legible (hs : Ascii s) (ht : LegibleStr t) : LegibleStr (s ++ t) := by
  have hs' := legibleStr_iff.1 hs.legible
  rw [legibleStr_iff] at ht ⊢
  refine ⟨?_, ?_⟩
  · intro c hc
    rcases List.mem_append.1 hc with hc | hc
    · exact hs'.1 c hc
    · exact ht.1 c hc
  · rw [List.isChain_append]
    refine ⟨hs'.2, ht.2, fun c hc d _ hhigh => ?_⟩
    have := hs c (List.mem_of_mem_getLast? hc)
    unfold IsHigh at hhigh
    omega

/-- ASCII text may stand after any other. -/
theorem LegibleStr.append_ascii (hs : LegibleStr s) (ht : Ascii t) : LegibleStr (s ++ t) := by
  have ht' := legibleStr_iff.1 ht.legible
  rw [legibleStr_iff] at hs ⊢
  refine ⟨?_, ?_⟩
  · intro c hc
    rcases List.mem_append.1 hc with hc | hc
    · exact hs.1 c hc
    · exact ht'.1 c hc
  · rw [List.isChain_append]
    refine ⟨hs.2, ht'.2, fun c _ d hd _ hlow => ?_⟩
    have := ht d (List.mem_of_mem_head? hd)
    unfold IsLow at hlow
    omega

/-! ## Reading a string -/

/-- No character is a surrogate, and each is a code point. -/
def Scalar (s : Str) : Prop := ∀ c ∈ s, c < 0x110000 ∧ ¬ IsHigh c ∧ ¬ IsLow c

theorem scalar_of_utf8 (h : (utf8 s).isSome) : Scalar s := by
  intro c hc
  have hchar := utf8_isSome_iff.1 h c hc
  by_cases hlow : 0xD800 ≤ c ∧ c ≤ 0xDFFF
  · rw [utf8Char, if_neg (by omega), if_neg (by omega), if_pos hlow] at hchar
    cases hchar
  · by_cases hmax : c < 0x110000
    · unfold IsHigh IsLow
      omega
    · rw [utf8Char, if_neg (by omega), if_neg (by omega), if_neg hlow, if_neg (by omega), if_neg hmax] at hchar
      cases hchar

theorem Scalar.suffix (h : Scalar t) (hs : s <:+ t) : Scalar s := fun c hc => h c (hs.subset hc)

theorem hexValue_lt (h : hexValue? c = some n) : n < 16 := by
  unfold hexValue? at h
  split at h
  · cases h
    omega
  · split at h
    · cases h
      omega
    · split at h
      · cases h
        omega
      · cases h

theorem hex4_spec (h : hex4 s = some (c, t)) : c < 0x10000 ∧ t <:+ s := by
  unfold hex4 at h
  split at h
  · rename_i a b e f u
    simp only [Option.pure_def, Option.bind_eq_bind, Option.bind_eq_some_iff, Option.some.injEq,
      Prod.mk.injEq] at h
    obtain ⟨w, hw, x, hx, y, hy, z, hz, rfl, rfl⟩ := h
    have := hexValue_lt hw
    have := hexValue_lt hx
    have := hexValue_lt hy
    have := hexValue_lt hz
    exact ⟨by omega, (List.suffix_cons f u).trans ((List.suffix_cons e _).trans
      ((List.suffix_cons b _).trans (List.suffix_cons a _)))⟩
  · cases h

/-- An escape is of a character, with no escape of a low surrogate after a high one. -/
theorem unicodeEscape_spec (h : unicodeEscape s = some (c, t)) :
    c < 0x110000 ∧ t <:+ s ∧ (IsHigh c → NoLow t) := by
  unfold unicodeEscape at h
  simp only [Option.pure_def, Option.bind_eq_bind, Option.bind_eq_some_iff] at h
  obtain ⟨⟨e, u⟩, hfirst, h⟩ := h
  obtain ⟨he, hu⟩ := hex4_spec hfirst
  dsimp only at h
  by_cases hhigh : 0xD800 ≤ e ∧ e ≤ 0xDBFF
  · rw [if_pos hhigh] at h
    split at h
    · rename_i w
      obtain ⟨⟨d, x⟩, hsecond, h⟩ := Option.bind_eq_some_iff.1 h
      obtain ⟨hd, hx⟩ := hex4_spec hsecond
      dsimp only at h
      split at h
      · rename_i hlow
        obtain ⟨rfl, rfl⟩ := Prod.mk.inj (Option.some.inj h)
        refine ⟨by omega, ?_, ?_⟩
        · exact hx.trans ((List.suffix_cons 117 w).trans ((List.suffix_cons 92 _).trans hu))
        · intro hhigh'
          unfold IsHigh at hhigh'
          omega
      · rename_i hlow
        cases h
        refine ⟨by omega, hu, fun _ y hy => ?_⟩
        cases hy
        exact ⟨d, x, hsecond, hlow⟩
    · rename_i hnone
      cases h
      refine ⟨by omega, hu, fun _ y hy => absurd hy (hnone y)⟩
  · rw [if_neg hhigh] at h
    cases h
    exact ⟨by omega, hu, fun hhigh' => absurd hhigh' hhigh⟩

/-- It is a low surrogate only if the first of its escapes is. -/
theorem unicodeEscape_low (h : unicodeEscape s = some (c, t)) (hlow : IsLow c) {e : ℕ} {u : Str}
    (hfirst : hex4 s = some (e, u)) : IsLow e := by
  unfold unicodeEscape at h
  rw [hfirst] at h
  simp only [Option.pure_def, Option.bind_eq_bind, Option.bind_some] at h
  split at h
  · split at h
    · obtain ⟨x, -, h⟩ := Option.bind_eq_some_iff.1 h
      split at h
      · obtain ⟨rfl, -⟩ := Prod.mk.inj (Option.some.inj h)
        unfold IsLow at hlow
        omega
      · cases h
        exact hlow
    · cases h
      exact hlow
  · cases h
    exact hlow

theorem escape_spec (h : escape? c = some d) : d < 128 := by
  unfold escape? at h
  split at h
  · cases h
    omega
  · split at h
    · cases h
      omega
    · split at h
      · cases h
        omega
      · split at h
        · cases h
          omega
        · split at h
          · cases h
            omega
          · split at h
            · cases h
              omega
            · cases h

/-- The characters read so far, the last one first, before what is left of the literal. -/
structure ReadSoFar (acc s : Str) : Prop where
  legible : LegibleStr acc.reverse
  left : Scalar s
  noLow : ∀ c ∈ acc.head?, IsHigh c → NoLow s

theorem ReadSoFar.push (h : ReadSoFar acc s) (hs : t <:+ s) (hc : c < 0x110000)
    (hlow : ∀ d ∈ acc.head?, IsHigh d → ¬ IsLow c) (hnext : IsHigh c → NoLow t) : ReadSoFar (c :: acc) t := by
  refine ⟨?_, h.left.suffix hs, ?_⟩
  · have hacc := legibleStr_iff.1 h.legible
    rw [List.reverse_cons, legibleStr_iff]
    refine ⟨?_, ?_⟩
    · intro d hd
      rcases List.mem_append.1 hd with hd | hd
      · exact hacc.1 d hd
      · rw [List.mem_singleton.1 hd]
        exact hc
    · rw [List.isChain_append]
      refine ⟨hacc.2, .singleton c, ?_⟩
      intro d hd e he hhigh
      rw [List.getLast?_reverse] at hd
      cases he
      exact hlow d hd hhigh
  · intro d hd
    cases hd
    exact hnext

/-- **A string that is read has no high surrogate right before a low one.** -/
theorem readString_legible {r : Str} (h : ReadSoFar acc s) (hr : readString fuel acc s = some (r, t)) :
    LegibleStr r ∧ t <:+ s := by
  induction fuel generalizing acc s with
  | zero => cases hr
  | succ fuel ih =>
    cases s with
    | nil => cases hr
    | cons c s =>
      have hc := h.left c List.mem_cons_self
      have hs := List.suffix_cons c s
      unfold readString at hr
      split at hr
      · cases hr
        exact ⟨h.legible, hs⟩
      · split at hr
        · cases hr
        · split at hr
          · rename_i hslash
            have hstep : ∀ {d u}, readString fuel (d :: acc) u = some (r, t) → u <:+ s → d < 0x110000 →
                (∀ e ∈ acc.head?, IsHigh e → ¬ IsLow d) → (IsHigh d → NoLow u) → LegibleStr r ∧ t <:+ c :: s := by
              intro d u hread hu hd hlow hnext
              obtain ⟨hr, ht⟩ := ih (h.push (hu.trans hs) hd hlow hnext) hread
              exact ⟨hr, ht.trans (hu.trans hs)⟩
            split at hr
            · cases hr
            · rename_i u
              obtain ⟨⟨d, w⟩, hescape, hread⟩ := Option.bind_eq_some_iff.1 hr
              obtain ⟨hd, hw, hnext⟩ := unicodeEscape_spec hescape
              refine hstep hread (hw.trans (List.suffix_cons 117 u)) hd ?_ hnext
              intro e he hhigh hlow
              obtain ⟨x, y, hx, hxlow⟩ := h.noLow e he hhigh u (by rw [hslash])
              exact hxlow (unicodeEscape_low hescape hlow hx)
            · rename_i e u _
              obtain ⟨d, hescape, hread⟩ := Option.bind_eq_some_iff.1 hr
              have hd := escape_spec hescape
              refine hstep hread (List.suffix_cons e u) (by omega) ?_ ?_
              · intro x _ _ hlow
                unfold IsLow at hlow
                omega
              · intro hhigh
                unfold IsHigh at hhigh
                omega
          · obtain ⟨hr, ht⟩ := ih (h.push hs hc.1 (fun _ _ _ => hc.2.2) fun hhigh => absurd hhigh hc.2.1) hr
            exact ⟨hr, ht.trans hs⟩

theorem LegibleStr.of_utf8 (h : (utf8 s).isSome) : LegibleStr s := by
  have hs := scalar_of_utf8 h
  rw [legibleStr_iff]
  refine ⟨fun c hc => (hs c hc).1, ?_⟩
  induction s with
  | nil => exact .nil
  | cons c s ih =>
    rw [List.isChain_cons]
    refine ⟨fun d _ hhigh => absurd hhigh (hs c List.mem_cons_self).2.1, ih ?_ ?_⟩
    · rw [utf8_isSome_iff] at h ⊢
      exact fun d hd => h d (List.mem_cons_of_mem c hd)
    · exact fun d hd => hs d (List.mem_cons_of_mem c hd)

/-! ## Reading a value -/

namespace Json

mutual

/-- Every string is legible, the keys among them. -/
def Strings : Json → Prop
  | str s => LegibleStr s
  | arr items => StringsItems items
  | obj members => StringsMembers members
  | _ => True

def StringsItems : List Json → Prop
  | [] => True
  | v :: vs => Strings v ∧ StringsItems vs

def StringsMembers : List (Str × Json) → Prop
  | [] => True
  | (k, v) :: ms => LegibleStr k ∧ Strings v ∧ StringsMembers ms

end

theorem stringsItems_iff {vs : List Json} : StringsItems vs ↔ ∀ v ∈ vs, v.Strings := by
  induction vs with
  | nil => simp [StringsItems]
  | cons v vs ih => simp [StringsItems, ih]

theorem stringsMembers_iff {ms : List (Str × Json)} :
    StringsMembers ms ↔ ∀ m ∈ ms, LegibleStr m.1 ∧ m.2.Strings := by
  induction ms with
  | nil => simp [StringsMembers]
  | cons m ms ih =>
    rw [StringsMembers, ih, List.forall_mem_cons, and_assoc]

theorem legibleItems_iff {vs : List Json} : LegibleItems vs ↔ ∀ v ∈ vs, v.Legible := by
  induction vs with
  | nil => simp [LegibleItems]
  | cons v vs ih => simp [LegibleItems, ih]

theorem legibleMembers_iff {ms : List (Str × Json)} :
    LegibleMembers ms ↔ ∀ m ∈ ms, LegibleStr m.1 ∧ m.2.Legible := by
  induction ms with
  | nil => simp [LegibleMembers]
  | cons m ms ih =>
    rw [LegibleMembers, ih, List.forall_mem_cons, and_assoc]

theorem depthItems_le {vs : List Json} {n : ℕ} : depthItems vs ≤ n ↔ ∀ v ∈ vs, v.depth ≤ n := by
  induction vs with
  | nil => simp [depthItems]
  | cons v vs ih => simp [depthItems, ih]

theorem depthMembers_le {ms : List (Str × Json)} {n : ℕ} : depthMembers ms ≤ n ↔ ∀ m ∈ ms, m.2.depth ≤ n := by
  induction ms with
  | nil => simp [depthMembers]
  | cons m ms ih => simp [depthMembers, ih]

theorem Strings.lookup {ms : List (Str × Json)} {k : Str} {v : Json} (h : (obj ms).Strings)
    (hv : Json.lookup ms k = some v) : v.Strings := by
  obtain ⟨m, hm, rfl⟩ := Option.map_eq_some_iff.1 hv
  exact (stringsMembers_iff.1 h m (List.mem_of_find?_eq_some hm)).2

end Json

theorem skipWs_suffix (s : Str) : skipWs s <:+ s := by
  induction s with
  | nil => exact List.suffix_rfl
  | cons c s ih =>
    rw [skipWs]
    split
    · exact ih.trans (List.suffix_cons c s)
    · exact List.suffix_rfl

theorem takeDigits_suffix {ds : Str} (h : takeDigits s = (ds, t)) : t <:+ s := by
  induction s generalizing ds t with
  | nil =>
    cases h
    exact List.suffix_rfl
  | cons c s ih =>
    rw [takeDigits] at h
    split at h
    · obtain ⟨-, rfl⟩ := Prod.mk.inj h
      exact (ih rfl).trans (List.suffix_cons c s)
    · obtain ⟨-, rfl⟩ := Prod.mk.inj h
      exact List.suffix_rfl

theorem readExponent_suffix {e : ℤ} (h : readExponent s = some (e, t)) : t <:+ s := by
  unfold readExponent at h
  split at h
  · rename_i c u
    split at h
    · dsimp only at h
      split at h
      · cases h
      · rename_i hdigits
        obtain ⟨-, rfl⟩ := Prod.mk.inj (Option.some.inj h)
        refine (takeDigits_suffix hdigits).trans (List.IsSuffix.trans ?_ (List.suffix_cons c u))
        split
        · exact List.suffix_cons 45 _
        · exact List.suffix_cons 43 _
        · exact List.suffix_rfl
    · cases h
  · cases h

theorem fraction_suffix {u : Str} (hu : u <:+ s) : (match u with
    | 46 :: x => match takeDigits x with
      | ([], _) => ([], u)
      | (fs, x) => (fs, x)
    | _ => (([], u) : Str × Str)).2 <:+ s := by
  split
  · rename_i x
    split
    · exact hu
    · rename_i hdigits
      exact (takeDigits_suffix hdigits).trans ((List.suffix_cons 46 x).trans hu)
  · exact hu

theorem readNumber_spec {neg : Bool} (h : readNumber neg s = some (v, t)) : v.Strings ∧ t <:+ s := by
  unfold readNumber at h
  dsimp only at h
  split at h
  · cases h
  · rename_i ds u hwhole
    have hu : u <:+ s := by
      split at hwhole
      · cases hwhole
        exact List.suffix_cons 48 _
      · split at hwhole
        · exact takeDigits_suffix (Option.some.inj hwhole)
        · cases hwhole
      · cases hwhole
    have hfrac := fraction_suffix hu
    split at h
    · split at h
      · cases h
      · obtain ⟨rfl, rfl⟩ := Prod.mk.inj (Option.some.inj h)
        exact ⟨trivial, hfrac⟩
    · obtain ⟨rfl, rfl⟩ := Prod.mk.inj (Option.some.inj h)
      exact ⟨trivial, hfrac⟩
    · rename_i hexp
      obtain ⟨rfl, rfl⟩ := Prod.mk.inj (Option.some.inj h)
      exact ⟨trivial, (readExponent_suffix hexp).trans hfrac⟩

/-- What is read with this fuel is legible, if what was read before is. -/
structure ReadStrings (fuel : ℕ) : Prop where
  value : ∀ {s v t}, Scalar s → readValue fuel s = some (v, t) → v.Strings ∧ t <:+ s
  items : ∀ {acc s vs t}, Scalar s → readItems fuel acc s = some (vs, t) → (∀ v ∈ acc, v.Strings) →
    (∀ v ∈ vs, v.Strings) ∧ t <:+ s
  members : ∀ {acc s ms t}, Scalar s → readMembers fuel acc s = some (ms, t) →
    (∀ m ∈ acc, LegibleStr m.1 ∧ m.2.Strings) → (∀ m ∈ ms, LegibleStr m.1 ∧ m.2.Strings) ∧ t <:+ s

theorem readString_start {r : Str} (h : Scalar s) (hr : readString fuel [] s = some (r, t)) :
    LegibleStr r ∧ t <:+ s := by
  have hstart : ReadSoFar [] s := ⟨trivial, h, fun c hc => by cases hc⟩
  exact readString_legible hstart hr

theorem readValue_strings (h : ReadStrings fuel) (hs : Scalar s) (hr : readValue (fuel + 1) s = some (v, t)) :
    v.Strings ∧ t <:+ s := by
  unfold readValue at hr
  split at hr
  · rename_i u
    obtain ⟨x, hread, hx⟩ := Option.map_eq_some_iff.1 hr
    cases hx
    have hu := List.suffix_cons 34 u
    obtain ⟨hv, ht⟩ := readString_start (r := x.1) (t := x.2) (hs.suffix hu) hread
    exact ⟨hv, ht.trans hu⟩
  · rename_i u
    have hu := (skipWs_suffix u).trans (List.suffix_cons 123 u)
    split at hr
    · rename_i hskip
      cases hr
      rw [hskip] at hu
      exact ⟨trivial, (List.suffix_cons 125 _).trans hu⟩
    · obtain ⟨x, hread, hx⟩ := Option.map_eq_some_iff.1 hr
      cases hx
      obtain ⟨hv, ht⟩ := h.members (t := x.2) (hs.suffix hu) hread (by simp)
      exact ⟨Json.stringsMembers_iff.2 hv, ht.trans hu⟩
  · rename_i u
    have hu := (skipWs_suffix u).trans (List.suffix_cons 91 u)
    split at hr
    · rename_i hskip
      cases hr
      rw [hskip] at hu
      exact ⟨trivial, (List.suffix_cons 93 _).trans hu⟩
    · obtain ⟨x, hread, hx⟩ := Option.map_eq_some_iff.1 hr
      cases hx
      obtain ⟨hv, ht⟩ := h.items (t := x.2) (hs.suffix hu) hread (by simp)
      exact ⟨Json.stringsItems_iff.2 hv, ht.trans hu⟩
  · cases hr
    exact ⟨trivial, lit "null", rfl⟩
  · cases hr
    exact ⟨trivial, lit "true", rfl⟩
  · cases hr
    exact ⟨trivial, lit "false", rfl⟩
  · rename_i u
    obtain ⟨hv, ht⟩ := readNumber_spec hr
    exact ⟨hv, ht.trans (List.suffix_cons 45 u)⟩
  · exact readNumber_spec hr

theorem readItems_strings (h : ReadStrings fuel) {acc vs : List Json} (hs : Scalar s)
    (hr : readItems (fuel + 1) acc s = some (vs, t)) (hacc : ∀ v ∈ acc, v.Strings) :
    (∀ v ∈ vs, v.Strings) ∧ t <:+ s := by
  unfold readItems at hr
  split at hr
  · cases hr
  · rename_i v u hvalue
    obtain ⟨hv, hu⟩ := h.value hs hvalue
    have hskip := (skipWs_suffix u).trans hu
    have hcons : ∀ w ∈ v :: acc, w.Strings := by
      rw [List.forall_mem_cons]
      exact ⟨hv, hacc⟩
    split at hr
    · rename_i heq
      cases hr
      rw [heq] at hskip
      exact ⟨fun w hw => hcons w (List.mem_reverse.1 hw), (List.suffix_cons 93 _).trans hskip⟩
    · rename_i x heq
      rw [heq] at hskip
      have hx := (skipWs_suffix x).trans ((List.suffix_cons 44 x).trans hskip)
      obtain ⟨hvs, ht⟩ := h.items (hs.suffix hx) hr hcons
      exact ⟨hvs, ht.trans hx⟩
    · cases hr

theorem readMembers_strings (h : ReadStrings fuel) {acc ms : List (Str × Json)} (hs : Scalar s)
    (hr : readMembers (fuel + 1) acc s = some (ms, t)) (hacc : ∀ m ∈ acc, LegibleStr m.1 ∧ m.2.Strings) :
    (∀ m ∈ ms, LegibleStr m.1 ∧ m.2.Strings) ∧ t <:+ s := by
  unfold readMembers at hr
  split at hr
  · rename_i u
    split at hr
    · cases hr
    · rename_i k w hkey
      have hu := List.suffix_cons 34 u
      obtain ⟨hk, hw⟩ := readString_start (hs.suffix hu) hkey
      have hw' := (skipWs_suffix w).trans (hw.trans hu)
      split at hr
      · rename_i x hcolon
        rw [hcolon] at hw'
        have hx := (skipWs_suffix x).trans ((List.suffix_cons 58 x).trans hw')
        split at hr
        · cases hr
        · rename_i v y hvalue
          obtain ⟨hv, hy⟩ := h.value (hs.suffix hx) hvalue
          have hskip := (skipWs_suffix y).trans (hy.trans hx)
          have hcons : ∀ m ∈ (k, v) :: acc, LegibleStr m.1 ∧ m.2.Strings := by
            rw [List.forall_mem_cons]
            exact ⟨⟨hk, hv⟩, hacc⟩
          split at hr
          · cases hr
          · split at hr
            · rename_i heq
              cases hr
              rw [heq] at hskip
              exact ⟨fun m hm => hcons m (List.mem_reverse.1 hm), (List.suffix_cons 125 _).trans hskip⟩
            · rename_i z heq
              rw [heq] at hskip
              have hz := (skipWs_suffix z).trans ((List.suffix_cons 44 z).trans hskip)
              obtain ⟨hms, ht⟩ := h.members (hs.suffix hz) hr hcons
              exact ⟨hms, ht.trans hz⟩
            · cases hr
      · cases hr
  · cases hr

theorem readStrings (fuel : ℕ) : ReadStrings fuel := by
  induction fuel with
  | zero =>
    exact ⟨fun _ h => by simp [readValue] at h, fun _ h => by simp [readItems] at h,
      fun _ h => by simp [readMembers] at h⟩
  | succ fuel ih => exact ⟨readValue_strings ih, readItems_strings ih, readMembers_strings ih⟩

/-- **Every string read from a text that encodes is legible.** -/
theorem loadsStrict_strings {depths : JsonDepths} {text : Str} (htext : (utf8 text).isSome)
    (h : loadsStrict depths text = some v) : v.Strings := by
  unfold loadsStrict at h
  split at h
  · cases h
  · split at h
    · rename_i hread
      split at h
      · cases h
        exact ((readStrings _).value ((scalar_of_utf8 htext).suffix (skipWs_suffix text)) hread).1
      · cases h
    · cases h

end Python
