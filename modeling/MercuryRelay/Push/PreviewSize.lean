/-
  How large previews are.

  * `normalizeTitle_spec`, `completionExcerpt_spec`, `validRoute_spec`: what may be shown,
    and how long it is;
  * `fit_spec`: the body loses as little as it has to, and nothing else is lost;
  * `preview_fits`: the plaintext fits its bound, and the wake that carries it fits its own.
-/
import MercuryRelay.Push.Preview
import MercuryRelay.Routing.Token

set_option autoImplicit false

namespace MercuryRelay

open Python

namespace Preview

variable {data : UnicodeData} {c : ℕ} {s : Str}

/-! ## Text -/

theorem plain_of_other (h : data.isOther c = false) : 32 ≤ c ∧ (utf8Char c).isSome := by
  have hnot : ¬ (c < 32 ∨ 127 ≤ c ∧ c < 160 ∨ 0xD800 ≤ c ∧ c < 0xE000 ∨ 0x110000 ≤ c) := fun hc => by
    rw [data.other c hc] at h
    cases h
  refine ⟨by omega, ?_⟩
  unfold utf8Char
  repeat' split
  · rfl
  · rfl
  · omega
  · rfl
  · rfl
  · omega

/-- What is left has no control characters, newlines apart. -/
theorem withoutControls_mem (h : c ∈ withoutControls data s true) : c = 10 ∨ data.isOther c = false := by
  have hkept := (List.mem_filter.1 h).2
  simpa using hkept

theorem encodes_of_mem (h : c ∈ withoutControls data s true) : (utf8Char c).isSome := by
  rcases withoutControls_mem h with rfl | hother
  · rfl
  · exact (plain_of_other hother).2

theorem drops_subset (old : Str) : replace old [] s ⊆ s := @replace_subset old [] s

theorem unmarked_subset : unmarked s ⊆ s := fun _ h =>
  drops_subset _ (drops_subset _ (drops_subset _ (strip_sublist.subset h)))

theorem afterMarks_subset {rest : Str} (h : afterMarks s = some rest) : rest ⊆ s := by
  unfold afterMarks at h
  dsimp only at h
  split at h
  · split at h
    · rename_i d rest' hdrop
      split at h
      · obtain rfl := Option.some.inj h
        intro c hc
        have hmem : c ∈ s.drop (s.takeWhile (· = 35)).length := by
          rw [hdrop]
          exact List.mem_cons_of_mem d hc
        exact List.drop_subset _ s hmem
      · cases h
    · cases h
  · cases h

theorem titleLine_subset : titleLine s ⊆ s := by
  intro c hc
  refine strip_sublist.subset ?_
  have hmarked := unmarked_subset hc
  cases hafter : afterMarks (strip s) with
  | none =>
    rw [hafter] at hmarked
    exact hmarked
  | some rest =>
    rw [hafter] at hmarked
    exact afterMarks_subset hafter (lstrip_suffix.subset hmarked)

theorem firstLine_mem {lines : List Str} (h : c ∈ firstLine lines) : ∃ line ∈ lines, c ∈ line := by
  induction lines with
  | nil => cases h
  | cons line lines ih =>
    unfold firstLine at h
    split at h
    · obtain ⟨other, hother, hc⟩ := ih h
      exact ⟨other, List.mem_cons_of_mem line hother, hc⟩
    · exact ⟨line, List.mem_cons_self, titleLine_subset h⟩

theorem cleanLine_subset {line : Str} (h : cleanLine s = some line) : line ⊆ s := by
  unfold cleanLine at h
  dsimp only at h
  split at h
  · cases h
  · obtain rfl := Option.some.inj h
    exact fun c hc => strip_sublist.subset (unmarked_subset hc)

theorem excerptLines_mem {wanted : ℕ} {lines : List Str} {line : Str} (h : line ∈ excerptLines wanted lines) :
    ∃ raw ∈ lines, line ⊆ raw := by
  fun_induction excerptLines wanted lines with
  | case1 => cases h
  | case2 => cases h
  | case3 wanted raw raws d rest hclean ih =>
    rcases List.mem_cons.1 h with rfl | h
    · exact ⟨raw, List.mem_cons_self, cleanLine_subset hclean⟩
    · obtain ⟨other, hother, hsub⟩ := ih h
      exact ⟨other, List.mem_cons_of_mem raw hother, hsub⟩
  | case4 wanted raw raws hclean ih =>
    obtain ⟨other, hother, hsub⟩ := ih h
    exact ⟨other, List.mem_cons_of_mem raw hother, hsub⟩

theorem orNone_eq {text : Str} (h : orNone s = some text) : text = s ∧ s ≠ [] := by
  unfold orNone at h
  split at h
  · cases h
  · rename_i hne
    exact ⟨(Option.some.inj h).symm, hne⟩

/-- **The title** has no control characters, and fits its bound. -/
theorem normalizeTitle_spec (value : Option Str) : ∃ title, normalizeTitle data value = .ok title ∧
    ∀ text ∈ title, text ≠ [] ∧ (∀ c ∈ text, data.isOther c = false) ∧ utf8Length text ≤ maxTitleBytes := by
  cases value with
  | none => exact ⟨none, rfl, by simp⟩
  | some value =>
    have hplain : ∀ c ∈ firstLine ((withoutControls data value true).splitOn 10), data.isOther c = false := by
      intro c hc
      obtain ⟨line, hline, hmem⟩ := firstLine_mem hc
      obtain ⟨hnewline, hsub⟩ := mem_splitOn hline
      refine (withoutControls_mem (hsub hmem)).resolve_left ?_
      rintro rfl
      exact hnewline hmem
    have htake := fun c (hc : c ∈ (firstLine ((withoutControls data value true).splitOn 10)).take maxTitleChars) =>
      hplain c (List.take_subset _ _ hc)
    obtain ⟨cut, hcut, hbegins, hlen⟩ := truncate_spec (fun c hc => (plain_of_other (htake c hc)).2) maxTitleBytes
    have htitle : normalizeTitle data (some value) = .ok (orNone (strip cut)) := by
      rw [normalizeTitle, hcut]
    refine ⟨_, htitle, fun text htext => ?_⟩
    obtain ⟨rfl, hne⟩ := orNone_eq htext
    exact ⟨hne, fun c hc => htake c (hbegins.subset (strip_sublist.subset hc)),
      (utf8Length_sublist strip_sublist).trans hlen⟩

/-- **The excerpt** encodes, and is within its bounds. -/
theorem completionExcerpt_spec (value : Option Str) : ∃ excerpt, completionExcerpt data value = .ok excerpt ∧
    ∀ text ∈ excerpt, text ≠ [] ∧ (∀ c ∈ text, (utf8Char c).isSome) ∧ text.length ≤ maxBodyChars ∧
      utf8Length text ≤ maxBodyBytes := by
  have hdone : ∀ text ∈ some (lit "Response completed"), text ≠ [] ∧ (∀ c ∈ text, (utf8Char c).isSome) ∧
      text.length ≤ maxBodyChars ∧ utf8Length text ≤ maxBodyBytes := by
    intro text htext
    obtain rfl := Option.some.inj htext
    exact ⟨by decide, by decide, by decide, by decide⟩
  cases value with
  | none => exact ⟨none, rfl, by simp⟩
  | some value =>
    rw [completionExcerpt]
    split
    · exact ⟨none, rfl, by simp⟩
    split
    · exact ⟨_, rfl, hdone⟩
    split
    · exact ⟨_, rfl, hdone⟩
    · have hjoin : ∀ c ∈ join [10] (excerptLines 3 ((strip (withoutControls data value true)).splitOn 10)),
          (utf8Char c).isSome := by
        intro c hc
        rcases mem_join hc with hsep | ⟨line, hline, hmem⟩
        · rw [List.mem_singleton.1 hsep]
          rfl
        · obtain ⟨raw, hraw, hsub⟩ := excerptLines_mem hline
          exact encodes_of_mem (strip_sublist.subset ((mem_splitOn hraw).2 (hsub hmem)))
      obtain ⟨cut, hcut, hbegins, hlen⟩ := truncate_spec
        (fun c hc => hjoin c (List.take_subset maxBodyChars _ hc)) maxBodyBytes
      rw [hcut]
      refine ⟨_, rfl, fun text htext => ?_⟩
      obtain ⟨rfl, hne⟩ := orNone_eq htext
      have hcutlen := hbegins.length_le.trans (List.length_take_le _ _)
      exact ⟨hne, fun c hc => hjoin c (List.take_subset maxBodyChars _ (hbegins.subset (rstrip_initial.subset hc))),
        rstrip_initial.length_le.trans hcutlen, (utf8Length_sublist rstrip_initial.sublist).trans hlen⟩

/-! ## The route -/

/-- The strings of the route encode. -/
def RouteEncodes : Json → Prop
  | .obj members => ∀ key text, Json.lookup members key = some (.str text) → (utf8 text).isSome
  | _ => True

theorem routeText_spec {value : Option Json} (h : ∀ text, value = some (.str text) → (utf8 text).isSome) (limit : ℕ) :
    ∃ text, routeText value limit = .ok text ∧ ∀ s ∈ text, utf8Length s ≤ limit := by
  unfold routeText
  split
  · rename_i text
    obtain ⟨encoded, hencoded⟩ := Option.isSome_iff_exists.1 (h text rfl)
    rw [hencoded]
    refine ⟨_, rfl, fun s hs => ?_⟩
    split at hs
    · rename_i hlen
      obtain rfl := Option.some.inj hs
      exact length_utf8 hencoded ▸ hlen.2
    · cases hs
  · exact ⟨none, rfl, by simp⟩

/-- **A valid route** has no control characters, and fits its bounds. -/
theorem validRoute_spec {route : Json} (h : RouteEncodes route) : ∃ valid, validRoute data route = .ok valid ∧
    ∀ x ∈ valid, (∀ c ∈ x.1 ++ x.2, data.isOther c = false) ∧ utf8Length x.1 ≤ maxRouteSessionBytes ∧
      utf8Length x.2 ≤ maxRouteProfileBytes := by
  unfold validRoute
  split
  · rename_i members
    split
    · exact ⟨none, rfl, by simp⟩
    · obtain ⟨sid, hsid, hsidLen⟩ := routeText_spec (fun text => h (lit "durable_session_id") text) maxRouteSessionBytes
      obtain ⟨profile, hprofile, hprofileLen⟩ := routeText_spec (fun text => h (lit "profile") text) maxRouteProfileBytes
      rw [hsid]
      cases sid with
      | none => exact ⟨none, rfl, by simp⟩
      | some sid =>
        rw [hprofile]
        cases profile with
        | none => exact ⟨none, rfl, by simp⟩
        | some profile =>
          refine ⟨_, rfl, fun x hx => ?_⟩
          split at hx
          · cases hx
          · rename_i hother
            obtain rfl := Option.some.inj hx
            refine ⟨fun c hc => ?_, hsidLen sid rfl, hprofileLen profile rfl⟩
            rw [Bool.not_eq_true, List.any_eq_false] at hother
            simpa using hother c hc
  · exact ⟨none, rfl, by simp⟩

end Preview

/-! ## The value -/

theorem join_around (sep : Str) (before after : List Str) : ∃ a b, ∀ text,
    join sep (before ++ text :: after) = a ++ (text ++ b) := by
  induction before with
  | nil =>
    cases after with
    | nil => exact ⟨[], [], fun text => by simp [join]⟩
    | cons next after => exact ⟨[], sep ++ join sep (next :: after), fun text => by simp [join]⟩
  | cons first before ih =>
    obtain ⟨a, b, hjoin⟩ := ih
    refine ⟨first ++ sep ++ a, b, fun text => ?_⟩
    have hcons : join sep (first :: (before ++ text :: after)) = first ++ sep ++ join sep (before ++ text :: after) := by
      cases before <;> rfl
    rw [List.cons_append, hcons, hjoin]
    simp only [List.append_assoc]

namespace PreviewValue

variable {p q : PreviewValue} {field : PreviewField} {a b : Option Str} {result : Bytes}

@[simp] theorem setText_setText : (p.setText field a).setText field b = p.setText field b := by cases field <;> rfl

@[simp] theorem text_setText : (p.setText field a).text field = a := by cases field <;> rfl

@[simp] theorem setText_text : p.setText field (p.text field) = p := by cases field <;> rfl

/-- Its strings encode. -/
structure Encodes (p : PreviewValue) : Prop where
  kind : ∀ c ∈ p.kind, (utf8Char c).isSome
  text : ∀ field, ∀ text ∈ p.text field, ∀ c ∈ text, (utf8Char c).isSome
  route : ∀ x ∈ p.route, ∀ c ∈ x.1 ++ x.2, (utf8Char c).isSome

theorem Encodes.setText (h : p.Encodes) (ha : ∀ text ∈ a, ∀ c ∈ text, (utf8Char c).isSome) :
    (p.setText field a).Encodes := by
  cases field with
  | body =>
    refine ⟨h.kind, fun field text htext => ?_, h.route⟩
    cases field with
    | body => exact ha text htext
    | title => exact h.text .title text htext
  | title =>
    refine ⟨h.kind, fun field text htext => ?_, h.route⟩
    cases field with
    | body => exact h.text .body text htext
    | title => exact ha text htext

theorem Encodes.json (h : p.Encodes) : (Json.obj p.members).encodable = true := by
  have hsome : ∀ {s : Str}, (∀ c ∈ s, (utf8Char c).isSome) → Json.encodable (.str s) = true := fun hs => by
    simpa only [Json.encodable] using utf8_isSome_iff.2 hs
  simp only [Json.encodable]
  rw [Json.encodableMembers_iff]
  intro m hm
  simp only [members, List.mem_append, List.mem_cons, List.not_mem_nil, or_false, Option.mem_toList,
    Option.map_eq_some_iff] at hm
  rcases hm with (((((rfl | rfl) | ⟨title, htitle, rfl⟩) | ⟨body, hbody, rfl⟩) | ⟨route, hroute, rfl⟩) | (rfl | rfl))
  · exact ⟨rfl, rfl⟩
  · exact ⟨rfl, hsome h.kind⟩
  · exact ⟨rfl, hsome (h.text .title title htitle)⟩
  · exact ⟨rfl, hsome (h.text .body body hbody)⟩
  · refine ⟨rfl, ?_⟩
    have hsid := hsome fun c hc => h.route route hroute c (List.mem_append_left _ hc)
    have hprofile := hsome fun c hc => h.route route hroute c (List.mem_append_right _ hc)
    simp only [routeJson, Json.encodable, Json.encodableMembers] at hsid hprofile ⊢
    rw [hsid, hprofile]
    rfl
  · exact ⟨rfl, rfl⟩
  · exact ⟨rfl, rfl⟩

/-- A value whose strings encode is written. -/
theorem Encodes.serialize (h : p.Encodes) : ∃ result, p.serialize = .ok result ∧
    result.length ≤ (Json.obj p.members).octets := by
  obtain ⟨result, hresult, hlen⟩ := fitsIn_write compactUnicode_compact _ h.json
  exact ⟨result, by rw [PreviewValue.serialize, hresult], hlen⟩

/-- It is written in as many octets as there may be. -/
def Fits (p : PreviewValue) : Prop := ∃ result, p.serialize = .ok result ∧ result.length ≤ maxPlaintextBytes

theorem fits_iff (h : p.serialize = .ok result) : p.Fits ↔ result.length ≤ maxPlaintextBytes := by
  constructor
  · rintro ⟨result', h', hlen⟩
    rw [h] at h'
    rwa [Except.ok.inj h']
  · exact fun hlen => ⟨result, h, hlen⟩

/-! ## What is made shorter -/

/-- A body that is longer takes no less room. -/
theorem serialize_body_le (p : PreviewValue) {s t : Str} {short long : Bytes}
    (hshort : (p.setText .body (some s)).serialize = .ok short)
    (hlong : (p.setText .body (some (s ++ t))).serialize = .ok long) : short.length ≤ long.length := by
  obtain ⟨before, after, hwrite⟩ : ∃ before after : Str, ∀ s,
      write compactUnicode (.obj (p.setText .body (some s)).members) =
        before ++ (s.flatMap (writeChar false) ++ after) := by
    obtain ⟨before, after, hjoin⟩ := join_around compactUnicode.itemSeparator
      (([(lit "v", Json.int 1), (lit "kind", Json.str p.kind)] ++
        (p.title.map fun title => (lit "title", Json.str title)).toList).map (memberText compactUnicode))
      (((p.route.map fun route => (lit "route", routeJson route)).toList ++
        [(lit "iat", Json.int p.iat), (lit "exp", Json.int p.exp)]).map (memberText compactUnicode))
    refine ⟨123 :: before ++ (writeString false (lit "body") ++ lit ":" ++ [34]), 34 :: after ++ [125], fun s => ?_⟩
    have hmembers : (p.setText .body (some s)).members = ([(lit "v", .int 1), (lit "kind", .str p.kind)] ++
        (p.title.map fun title => (lit "title", Json.str title)).toList) ++ (lit "body", .str s) ::
        ((p.route.map fun route => (lit "route", routeJson route)).toList ++
          [(lit "iat", .int p.iat), (lit "exp", .int p.exp)]) := by
      simp [members, setText]
    rw [write_obj rfl, membersText, hmembers, List.map_append, List.map_cons, hjoin]
    simp [memberText, write, writeString, compactUnicode]
  have hoctets : ∀ {s result}, (p.setText .body (some s)).serialize = .ok result →
      result.length = utf8Length (before ++ (s.flatMap (writeChar false) ++ after)) := by
    intro s result h
    rw [PreviewValue.serialize, hwrite] at h
    split at h
    · cases h
    · rename_i hutf8
      cases h
      exact length_utf8 hutf8
  rw [hoctets hshort, hoctets hlong, List.flatMap_append]
  refine utf8Length_sublist (List.Sublist.append_left ?_ before)
  exact List.Sublist.append_right (List.sublist_append_left _ _) after

/-- What is kept of a text is the longest beginning of it with which the value fits. -/
def Longest (p : PreviewValue) (field : PreviewField) : Option Str → Option Str → Prop
  | none, kept => kept = none
  | some full, kept => (∀ s ∈ kept, s <+: full ∧ s ≠ [] ∧ (p.setText field (some s)).Fits) ∧
      ∀ s, s <+: full → (kept.getD []).length < s.length → ¬ (p.setText field (some s)).Fits

theorem shrink_stop {steps : ℕ} (h : result.length ≤ maxPlaintextBytes ∨ p.text field = none) :
    shrink field steps p result = .ok (p, result) := by
  cases steps with
  | zero => rfl
  | succ steps =>
    rw [shrink]
    split
    · rename_i htext
      rcases h with hlen | hnone
      · rw [if_neg (Nat.not_lt.2 hlen)]
      · rw [hnone] at htext
        cases htext
    · rfl

theorem shrink_longest {full : Str} (henc : ∀ s, s <+: full → (p.setText field (some s)).Encodes)
    (hnone : (p.setText field none).Encodes) {steps : ℕ} {text : Str} (htext : text <+: full) (hne : text ≠ [])
    (hlonger : ∀ s, s <+: full → text.length < s.length → ¬ (p.setText field (some s)).Fits)
    (hsteps : text.length ≤ steps) (hresult : (p.setText field (some text)).serialize = .ok result) :
    ∃ kept result', shrink field steps (p.setText field (some text)) result = .ok (p.setText field kept, result') ∧
      (p.setText field kept).serialize = .ok result' ∧ p.Longest field (some full) kept := by
  induction steps generalizing text result with
  | zero => exact absurd (List.length_eq_zero_iff.1 (Nat.le_zero.1 hsteps)) hne
  | succ steps ih =>
    by_cases hlen : result.length ≤ maxPlaintextBytes
    · refine ⟨some text, result, shrink_stop (.inl hlen), hresult, ?_, hlonger⟩
      intro s hs
      obtain rfl := Option.some.inj hs
      exact ⟨htext, hne, (fits_iff hresult).2 hlen⟩
    -- The text loses its last character.
    have hbig : ¬ (p.setText field (some text)).Fits := fun hfits => hlen ((fits_iff hresult).1 hfits)
    have hshort : text.dropLast <+: full := (List.dropLast_prefix text).trans htext
    have hdrop : text.dropLast.length + 1 = text.length := by
      rw [List.length_dropLast]
      have hpos := List.length_pos_of_ne_nil hne
      omega
    have hlonger' : ∀ s, s <+: full → text.dropLast.length < s.length → ¬ (p.setText field (some s)).Fits := by
      intro s hs hslen
      rcases Nat.lt_or_ge text.length s.length with hmore | hless
      · exact hlonger s hs hmore
      · have heq : s = text := by
          have hsame : s.length = text.length := by omega
          exact List.IsPrefix.eq_of_length (List.prefix_of_prefix_length_le hs htext hless) hsame
        rw [heq]
        exact hbig
    obtain ⟨c, rest, rfl⟩ := List.exists_cons_of_ne_nil hne
    have hstep : shrink field (steps + 1) (p.setText field (some (c :: rest))) result =
        (p.setText field (Preview.orNone (c :: rest).dropLast)).serialize.bind
          (shrink field steps (p.setText field (Preview.orNone (c :: rest).dropLast))) := by
      rw [shrink, text_setText]
      dsimp only
      rw [if_pos (Nat.lt_of_not_le hlen), setText_setText]
    rw [hstep]
    by_cases hempty : (c :: rest).dropLast = []
    · rw [Preview.orNone, if_pos hempty]
      obtain ⟨result', hresult', -⟩ := hnone.serialize
      rw [hresult']
      refine ⟨none, result', shrink_stop (.inr text_setText), hresult', by simp, ?_⟩
      rw [hempty] at hlonger'
      exact hlonger'
    · rw [Preview.orNone, if_neg hempty]
      obtain ⟨result', hresult', -⟩ := (henc _ hshort).serialize
      rw [hresult']
      exact ih hshort hempty hlonger' (by omega) hresult'

/-- **A field** loses as little as it has to. -/
theorem Encodes.shortens (h : p.Encodes) (hne : p.text field ≠ some []) (hresult : p.serialize = .ok result) :
    ∃ kept result', p.shrinkField field result = .ok (p.setText field kept, result') ∧
      (p.setText field kept).serialize = .ok result' ∧ p.Longest field (p.text field) kept := by
  cases htext : p.text field with
  | none =>
    refine ⟨none, result, ?_, ?_, rfl⟩
    · rw [shrinkField, shrink_stop (.inr htext), ← htext, setText_text]
    · rw [← htext, setText_text]
      exact hresult
  | some full =>
    have hsame : p.setText field (some full) = p := by rw [← htext, setText_text]
    have henc : ∀ s, s <+: full → (p.setText field (some s)).Encodes := fun s hs => h.setText fun text ht c hc => by
      obtain rfl := Option.some.inj ht
      exact h.text field full htext c (hs.subset hc)
    have hfull : full ≠ [] := fun hnil => hne (by rw [htext, hnil])
    have hlonger : ∀ s, s <+: full → full.length < s.length → ¬ (p.setText field (some s)).Fits := fun s hs hlen =>
      absurd hs.length_le (Nat.not_le.2 hlen)
    obtain ⟨kept, result', hshrink, hkept⟩ := shrink_longest henc (h.setText (by simp)) (List.prefix_refl full) hfull
      hlonger (Nat.le_refl full.length) (hsame.symm ▸ hresult)
    rw [hsame] at hshrink
    refine ⟨kept, result', ?_, hkept⟩
    rw [shrinkField, htext]
    exact hshrink

theorem shrinkField_fits (h : result.length ≤ maxPlaintextBytes) : p.shrinkField field result = .ok (p, result) :=
  shrink_stop (.inl h)

/-! ## How large it is -/

theorem length_intRepr_le {n : ℤ} (h0 : 0 ≤ n) (h : n < 10 ^ 19) : (intRepr n).length ≤ 19 := by
  obtain ⟨k, rfl⟩ := Int.eq_ofNat_of_zero_le h0
  exact length_natDigits_le (by decide) (by exact_mod_cast h)

/-- The octets of a value, with so many for each of its strings. -/
theorem octets_le {kind title body sid profile : ℕ} (hkind : stringOctets p.kind ≤ kind)
    (htitle : ∀ text ∈ p.title, stringOctets text ≤ title) (hbody : ∀ text ∈ p.body, stringOctets text ≤ body)
    (hroute : ∀ x ∈ p.route, stringOctets x.1 ≤ sid ∧ stringOctets x.2 ≤ profile)
    (hiat : (intRepr p.iat).length ≤ 19) (hexp : (intRepr p.exp).length ≤ 19) :
    (Json.obj p.members).octets ≤ kind + title + body + sid + profile + 114 := by
  have hkeys : stringOctets (lit "v") = 3 ∧ stringOctets (lit "kind") = 6 ∧ stringOctets (lit "title") = 7 ∧
      stringOctets (lit "body") = 6 ∧ stringOctets (lit "route") = 7 ∧ stringOctets (lit "iat") = 5 ∧
      stringOctets (lit "exp") = 5 ∧ stringOctets (lit "sid") = 5 ∧ stringOctets (lit "profile") = 9 ∧
      (intRepr 1).length = 1 := by decide
  obtain ⟨hv, hk, ht, hb, hr, hi, he, hs, hp, hone⟩ := hkeys
  have htitle' : (((p.title.map fun title => (lit "title", Json.str title)).toList).map
      fun m => stringOctets m.1 + 1 + m.2.octets + 1).sum ≤ title + 9 := by
    cases hcase : p.title with
    | none => simp
    | some text =>
      have hlen := htitle text hcase
      simp only [Option.map_some, Option.toList_some, List.map_cons, List.map_nil, List.sum_cons, List.sum_nil,
        Json.octets, ht]
      omega
  have hbody' : (((p.body.map fun body => (lit "body", Json.str body)).toList).map
      fun m => stringOctets m.1 + 1 + m.2.octets + 1).sum ≤ body + 8 := by
    cases hcase : p.body with
    | none => simp
    | some text =>
      have hlen := hbody text hcase
      simp only [Option.map_some, Option.toList_some, List.map_cons, List.map_nil, List.sum_cons, List.sum_nil,
        Json.octets, hb]
      omega
  have hroute' : (((p.route.map fun route => (lit "route", routeJson route)).toList).map
      fun m => stringOctets m.1 + 1 + m.2.octets + 1).sum ≤ sid + profile + 29 := by
    cases hcase : p.route with
    | none => simp
    | some route =>
      obtain ⟨hsid, hprofile⟩ := hroute route hcase
      simp only [Option.map_some, Option.toList_some, List.map_cons, List.map_nil, List.sum_cons, List.sum_nil,
        routeJson, Json.octets, Json.membersOctets, hr, hs, hp]
      omega
  rw [Json.octets, Json.membersOctets_eq, members]
  simp only [List.map_append, List.sum_append, List.map_cons, List.map_nil, List.sum_cons, List.sum_nil, Json.octets,
    hv, hk, hi, he, hone]
  omega

/-- **A value** whose body is short fits. -/
theorem Encodes.fits (h : p.Encodes) (hkind : stringOctets p.kind ≤ 12) (htitle : ∀ text ∈ p.title,
    stringOctets text ≤ 322) (hbody : ∀ text ∈ p.body, stringOctets text ≤ 100)
    (hroute : ∀ x ∈ p.route, stringOctets x.1 ≤ 258 ∧ stringOctets x.2 ≤ 130)
    (hiat : 0 ≤ p.iat ∧ p.iat < 10 ^ 19) (hexp : 0 ≤ p.exp ∧ p.exp < 10 ^ 19) : p.Fits := by
  obtain ⟨result, hresult, hlen⟩ := h.serialize
  have hoctets := octets_le hkind htitle hbody hroute (length_intRepr_le hiat.1 hiat.2)
    (length_intRepr_le hexp.1 hexp.2)
  refine ⟨result, hresult, hlen.trans (hoctets.trans ?_)⟩
  decide

end PreviewValue

namespace Preview

variable {data : UnicodeData} {p : PreviewValue} {request : Request}

/-- **The body** is all that is made shorter. -/
theorem fit_spec (h : p.Encodes) (hbody : p.body ≠ some []) (hbase : (p.setText .body none).Fits) :
    ∃ kept result, fit p = .ok (p.setText .body kept, result) ∧ (p.setText .body kept).serialize = .ok result ∧
      result.length ≤ maxPlaintextBytes ∧ p.Longest .body p.body kept := by
  obtain ⟨first, hfirst, -⟩ := h.serialize
  obtain ⟨kept, result, hshrink, hresult, hlongest⟩ := h.shortens (show p.text .body ≠ some [] from hbody) hfirst
  have hfits : (p.setText .body kept).Fits := by
    cases kept with
    | none => exact hbase
    | some s =>
      cases hfull : p.text .body with
      | none =>
        rw [hfull] at hlongest
        cases hlongest
      | some full =>
        rw [hfull] at hlongest
        exact (hlongest.1 s rfl).2.2
  have hlen := (PreviewValue.fits_iff hresult).1 hfits
  refine ⟨kept, result, ?_, hresult, hlen, hlongest⟩
  simp only [fit, hfirst, hshrink, PreviewValue.shrinkField_fits hlen, if_neg (Nat.not_lt.2 hlen), bind, Except.bind,
    pure, Except.pure]

/-! ## What is built -/

/-- The kind, and that of a request, are ones that are accepted. -/
def Accepted (request : Request) : Prop :=
  request.kind = lit "completion" ∨
    request.kind = lit "attention" ∧ (request.attentionKind.bind attentionText.get).isSome = true

theorem attentionText_mem {kind : Str} {texts : Str × Str} (h : attentionText.get kind = some texts) :
    stringOctets texts.1 ≤ 100 ∧ stringOctets texts.2 ≤ 100 ∧ texts.2 ≠ [] ∧
      (∀ c ∈ texts.1, (utf8Char c).isSome) ∧ ∀ c ∈ texts.2, (utf8Char c).isSome := by
  have hall : ∀ x ∈ attentionText, stringOctets x.2.1 ≤ 100 ∧ stringOctets x.2.2 ≤ 100 ∧ x.2.2 ≠ [] ∧
      (∀ c ∈ x.2.1, (utf8Char c).isSome) ∧ ∀ c ∈ x.2.2, (utf8Char c).isSome := by decide
  exact hall _ (Dict.get_mem h)

/-- What may be said of the title and the body. -/
theorem texts_spec (h : Accepted request) : ∃ title body, texts data request = .ok (title, body) ∧
    (∀ text ∈ title, stringOctets text ≤ 322 ∧ ∀ c ∈ text, (utf8Char c).isSome) ∧
    ∀ text ∈ body, text ≠ [] ∧ ∀ c ∈ text, (utf8Char c).isSome := by
  rcases h with hkind | ⟨hkind, hattention⟩
  · have hne : request.kind ≠ lit "attention" := by rw [hkind]; decide
    have htitle : ∃ title, (if request.includeTitle then normalizeTitle data request.title else .ok none) = .ok title ∧
        ∀ text ∈ title, stringOctets text ≤ 322 ∧ ∀ c ∈ text, (utf8Char c).isSome := by
      split
      · obtain ⟨title, htitle, hspec⟩ := @normalizeTitle_spec data request.title
        refine ⟨title, htitle, fun text htext => ?_⟩
        obtain ⟨-, hother, hlen⟩ := hspec text htext
        have hdouble := stringOctets_le_double fun c hc => plain_of_other (hother c hc)
        have hbound : maxTitleBytes = 160 := rfl
        exact ⟨by omega, fun c hc => (plain_of_other (hother c hc)).2⟩
      · exact ⟨none, rfl, by simp⟩
    have hbody : ∃ body, (if request.includeResponseExcerpt then completionExcerpt data request.responseText
        else .ok none) = .ok body ∧ ∀ text ∈ body, text ≠ [] ∧ ∀ c ∈ text, (utf8Char c).isSome := by
      split
      · obtain ⟨body, hbody, hspec⟩ := @completionExcerpt_spec data request.responseText
        exact ⟨body, hbody, fun text htext => ⟨(hspec text htext).1, (hspec text htext).2.1⟩⟩
      · exact ⟨none, rfl, by simp⟩
    obtain ⟨title, htitle, htitleSpec⟩ := htitle
    obtain ⟨body, hbody, hbodySpec⟩ := hbody
    refine ⟨title, body, ?_, htitleSpec, hbodySpec⟩
    rw [texts, if_neg hne, htitle, hbody]
    rfl
  · obtain ⟨⟨title, body⟩, htexts⟩ := Option.isSome_iff_exists.1 hattention
    obtain ⟨kind, -, hget⟩ := Option.bind_eq_some_iff.1 htexts
    obtain ⟨htitle, hbody, hne, htitleChars, hbodyChars⟩ := attentionText_mem hget
    refine ⟨some title, some body, ?_, fun text htext => ?_, fun text htext => ?_⟩
    · rw [texts, if_pos hkind, htexts]
    · obtain rfl := Option.some.inj htext
      exact ⟨htitle.trans (by decide), htitleChars⟩
    · obtain rfl := Option.some.inj htext
      exact ⟨hne, hbodyChars⟩

/-- The value before anything is made shorter; without its body it fits. -/
theorem fullValue_spec (h : Accepted request) (hnow : 0 ≤ request.now ∧ request.now < 2 ^ 63)
    (hroute : RouteEncodes request.route) : ∃ full, fullValue data request = .ok full ∧ full.Encodes ∧
      full.body ≠ some [] ∧ (full.setText .body none).Fits := by
  obtain ⟨title, body, htexts, htitle, hbody⟩ := @texts_spec data request h
  obtain ⟨route, hvalid, hrouteSpec⟩ := @validRoute_spec data _ hroute
  have hkind : ¬ (request.kind ≠ lit "completion" ∧ request.kind ≠ lit "attention" ∨ request.now < 0) := by
    rintro (⟨hcompletion, hattention⟩ | hneg)
    · rcases h with hkind | ⟨hkind, -⟩
      · exact hcompletion hkind
      · exact hattention hkind
    · exact absurd hnow.1 (not_le.2 hneg)
  have hkindText : stringOctets request.kind ≤ 12 ∧ ∀ c ∈ request.kind, (utf8Char c).isSome := by
    rcases h with hkind | ⟨hkind, -⟩
    · rw [hkind]
      decide
    · rw [hkind]
      decide
  have hrouteText : ∀ x ∈ route, (stringOctets x.1 ≤ 258 ∧ stringOctets x.2 ≤ 130) ∧
      ∀ c ∈ x.1 ++ x.2, (utf8Char c).isSome := by
    intro x hx
    obtain ⟨hother, hsid, hprofile⟩ := hrouteSpec x hx
    have hsidDouble := stringOctets_le_double fun c hc => plain_of_other (hother c (List.mem_append_left _ hc))
    have hprofileDouble := stringOctets_le_double fun c hc => plain_of_other (hother c (List.mem_append_right _ hc))
    have hsidBound : maxRouteSessionBytes = 128 := rfl
    have hprofileBound : maxRouteProfileBytes = 64 := rfl
    exact ⟨by omega, fun c hc => (plain_of_other (hother c hc)).2⟩
  refine ⟨⟨request.kind, title, body, route, request.now, request.now + previewTtlSeconds⟩, ?_, ?_, ?_, ?_⟩
  · rw [fullValue, if_neg hkind, htexts, hvalid]
    rfl
  · refine ⟨hkindText.2, fun field text htext => ?_, fun x hx => (hrouteText x hx).2⟩
    cases field with
    | body => exact (hbody text htext).2
    | title => exact (htitle text htext).2
  · rintro rfl
    exact (hbody [] rfl).1 rfl
  · have hencodes : PreviewValue.Encodes ⟨request.kind, title, none, route, request.now,
        request.now + previewTtlSeconds⟩ := by
      refine ⟨hkindText.2, fun field text htext => ?_, fun x hx => (hrouteText x hx).2⟩
      cases field with
      | body => cases htext
      | title => exact (htitle text htext).2
    have hlater : previewTtlSeconds = 120 := rfl
    refine hencodes.fits hkindText.1 (fun text htext => (htitle text htext).1) (by simp)
      (fun x hx => (hrouteText x hx).1) ⟨hnow.1, by show request.now < _; omega⟩ ?_
    constructor
    · show 0 ≤ request.now + previewTtlSeconds
      omega
    · show request.now + previewTtlSeconds < _
      omega

end Preview

/-! ## The wake that carries it -/

/-- A text of so many characters of the URL-safe alphabet. -/
structure IsUrlText (size : ℕ) (s : Str) : Prop where
  length : s.length = size
  chars : ∀ c ∈ s, isUrlChar c = true

theorem IsUrlText.stringLength {size : ℕ} {s : Str} (h : IsUrlText size s) : stringLength s = size + 2 := by
  have hone : s.map charLength = s.map fun _ => 1 := List.map_congr_left fun c hc => (isUrlChar_spec (h.chars c hc)).2.2
  rw [Python.stringLength, hone, List.map_const', List.sum_replicate, h.length, Nat.nsmul_eq_mul, Nat.mul_one]

theorem IsUrlText.utf8 {size : ℕ} {s : Str} (h : IsUrlText size s) : (Python.utf8 s).isSome :=
  Ascii.utf8 fun c hc => (isUrlChar_spec (h.chars c hc)).1

theorem isUrlText_canonicalB64url (value : Bytes) : IsUrlText ((4 * value.length + 2) / 3) (canonicalB64url value) :=
  ⟨length_b64urlEncode value, b64urlEncode_chars value⟩

theorem aadForPreview_some {environment wakeHandle eventId keyId : Str} (henvironment : (utf8 environment).isSome)
    (hhandle : (utf8 wakeHandle).isSome) (hevent : (utf8 eventId).isSome) (hkey : (utf8 keyId).isSome) :
    ∃ aad, aadForPreview environment wakeHandle eventId keyId = some aad := by
  obtain ⟨environment', henvironment⟩ := Option.isSome_iff_exists.1 henvironment
  obtain ⟨handle', hhandle⟩ := Option.isSome_iff_exists.1 hhandle
  obtain ⟨event', hevent⟩ := Option.isSome_iff_exists.1 hevent
  obtain ⟨key', hkey⟩ := Option.isSome_iff_exists.1 hkey
  have hdomain : ∃ domain, utf8 aadDomain = some domain := ⟨_, rfl⟩
  have hone : ∃ one, utf8 (lit "1") = some one := ⟨_, rfl⟩
  have halgorithm : ∃ algorithm, utf8 previewAlgorithm = some algorithm := ⟨_, rfl⟩
  obtain ⟨domain, hdomain⟩ := hdomain
  obtain ⟨one, hone⟩ := hone
  obtain ⟨algorithm, halgorithm⟩ := halgorithm
  simp [aadForPreview, lengthPrefixed, henvironment, hhandle, hevent, hkey, hdomain, hone, halgorithm]

theorem compactAscii_undone : Undone compactAscii := ⟨rfl, ⟨0, rfl⟩, ⟨0, rfl⟩⟩

/-- The length of the body, by those of its texts. -/
theorem length_postBody {wakeHandle eventId keyId ciphertext : Str} {nonce : Bytes} {size : ℕ}
    (hhandle : IsUrlText 43 wakeHandle) (hevent : IsUrlText 43 eventId) (hkey : IsUrlText 22 keyId)
    (hnonce : nonce.length = 12) (hciphertext : IsUrlText size ciphertext) :
    (postBody wakeHandle (previewFields eventId keyId nonce ciphertext)).length = size + 232 := by
  have hkeys : stringLength (lit "wake_handle") = 13 ∧ stringLength (lit "event_id") = 10 ∧
      stringLength (lit "preview") = 9 ∧ stringLength (lit "version") = 9 ∧ stringLength (lit "alg") = 5 ∧
      stringLength (lit "key_id") = 8 ∧ stringLength (lit "nonce") = 7 ∧ stringLength (lit "ciphertext") = 12 ∧
      stringLength previewAlgorithm = 6 ∧ (intRepr 1).length = 1 := by decide
  obtain ⟨hk1, hk2, hk3, hk4, hk5, hk6, hk7, hk8, halg, hone⟩ := hkeys
  have hnonceText := (isUrlText_canonicalB64url nonce).stringLength
  rw [hnonce] at hnonceText
  have hseparators : compactAscii.itemSeparator.length = 1 ∧ compactAscii.keySeparator.length = 1 := by decide
  rw [postBody, length_write rfl rfl, hseparators.1, hseparators.2]
  simp only [previewFields, Json.textLength, Json.membersLength, hk1, hk2, hk3, hk4, hk5, hk6, hk7, hk8, halg, hone,
    hhandle.stringLength, hevent.stringLength, hkey.stringLength, hnonceText, hciphertext.stringLength,
    List.length_cons, List.length_nil]
  omega

/-- A wake fits its bound, whatever plaintext within bounds it carries. -/
theorem wake_fits (aead : Chacha20Poly1305) {key nonce plaintext : Bytes} {environment wakeHandle eventId keyId : Str}
    (hplaintext : plaintext.length ≤ maxPlaintextBytes) (hkey : key.length = 32) (hnonce : nonce.length = 12)
    (henvironment : (utf8 environment).isSome) (hhandle : IsUrlText 43 wakeHandle) (hevent : IsUrlText 43 eventId)
    (hkeyId : IsUrlText 22 keyId) : ∃ ciphertext,
      encryptPreview aead key nonce plaintext environment wakeHandle eventId keyId = .ok ciphertext ∧
        ∃ body, utf8 (postBody wakeHandle (previewFields eventId keyId nonce ciphertext)) = some body ∧
          body.length ≤ maxPushBodyBytes := by
  obtain ⟨aad, haad⟩ := aadForPreview_some henvironment hhandle.utf8 hevent.utf8 hkeyId.utf8
  have hciphertext := isUrlText_canonicalB64url (aead.encrypt key nonce plaintext aad)
  refine ⟨canonicalB64url (aead.encrypt key nonce plaintext aad), ?_, ?_⟩
  · rw [encryptPreview, if_neg (by omega), haad]
  · have hascii : Ascii (postBody wakeHandle (previewFields eventId keyId nonce
        (canonicalB64url (aead.encrypt key nonce plaintext aad)))) := write_ascii compactAscii_undone rfl _
    refine ⟨_, hascii.utf8_eq, ?_⟩
    rw [List.length_map, length_postBody hhandle hevent hkeyId hnonce hciphertext, aead.length]
    have hbound : maxPlaintextBytes = 1280 := rfl
    have hbody : maxPushBodyBytes = 3072 := rfl
    omega

/-! ## The chain of sizes -/

/-- What is said of a plaintext: it is the full value, less as little of the body as can be. -/
structure Previewed (data : UnicodeData) (request : Preview.Request) (plaintext : Bytes) : Prop where
  size : plaintext.length ≤ maxPlaintextBytes
  value : ∃ full kept, Preview.fullValue data request = .ok full ∧
    (full.setText .body kept).serialize = .ok plaintext ∧ full.Longest .body full.body kept

/-- **Previews** fit, with the title, the route and as much of the body as there is room for, and
    so do the wakes that carry them. -/
theorem preview_fits (data : UnicodeData) (aead : Chacha20Poly1305) {request : Preview.Request}
    (hkind : Preview.Accepted request) (hnow : 0 ≤ request.now ∧ request.now < 2 ^ 63)
    (hroute : Preview.RouteEncodes request.route) :
    ∃ plaintext, Preview.buildPreviewPlaintext data request = .ok plaintext ∧ Previewed data request plaintext ∧
      ∀ (key nonce : Bytes) (environment wakeHandle eventId keyId : Str), key.length = 32 → nonce.length = 12 →
        (utf8 environment).isSome → IsUrlText 43 wakeHandle → IsUrlText 43 eventId → IsUrlText 22 keyId →
        ∃ ciphertext, encryptPreview aead key nonce plaintext environment wakeHandle eventId keyId = .ok ciphertext ∧
          ∃ body, utf8 (postBody wakeHandle (previewFields eventId keyId nonce ciphertext)) = some body ∧
            body.length ≤ maxPushBodyBytes := by
  obtain ⟨full, hfull, hencodes, hbody, hbase⟩ := @Preview.fullValue_spec data request hkind hnow hroute
  obtain ⟨kept, plaintext, hfit, hplaintext, hlen, hlongest⟩ := Preview.fit_spec hencodes hbody hbase
  refine ⟨plaintext, ?_, ⟨hlen, full, kept, hfull, hplaintext, hlongest⟩, ?_⟩
  · simp only [Preview.buildPreviewPlaintext, hfull, hfit, bind, Except.bind, pure, Except.pure]
  · intro key nonce environment wakeHandle eventId keyId hkey hnonce henvironment hhandle hevent hkeyId
    exact wake_fits aead hlen hkey hnonce henvironment hhandle hevent hkeyId

/-- The texts are made of quotes, which are escaped; the body has wide characters, too. -/
def quotedRequest : Preview.Request where
  kind := lit "completion"
  responseText := some (List.replicate 107 34 ++ List.replicate 150 0x1F600)
  title := some (List.replicate 200 34)
  includeTitle := true
  includeResponseExcerpt := true
  route := .obj [(lit "durable_session_id", .str (List.replicate 128 34)),
    (lit "profile", .str (List.replicate 64 34))]
  now := 1700000000

/-- Its body, before it is made shorter. -/
def quotedBody : Str := List.replicate 107 34 ++ List.replicate 133 0x1F600

theorem preview_fits_quoted : ∃ plaintext, Preview.buildPreviewPlaintext basicUnicode quotedRequest = .ok plaintext ∧
    Previewed basicUnicode quotedRequest plaintext ∧ plaintext.length = 1280 := by
  have hroute : Preview.RouteEncodes quotedRequest.route := by
    intro key text h
    have hmem := Json.lookup_mem h
    simp only [List.mem_cons, Prod.mk.injEq, Json.str.injEq, List.not_mem_nil, or_false] at hmem
    rcases hmem with ⟨-, rfl⟩ | ⟨-, rfl⟩
    · decide +kernel
    · decide +kernel
  obtain ⟨plaintext, hbuild, hpreviewed, -⟩ := preview_fits basicUnicode
    ⟨fun _ _ plaintext _ => plaintext ++ List.replicate 16 0, by simp⟩ (Or.inl rfl : Preview.Accepted quotedRequest)
    ⟨by decide, by decide⟩ hroute
  refine ⟨plaintext, hbuild, hpreviewed, Nat.le_antisymm hpreviewed.size ?_⟩
  obtain ⟨full, kept, hfull, hplaintext, hlongest⟩ := hpreviewed.value
  have hcut : (Preview.fullValue basicUnicode quotedRequest).toOption.map (fun p =>
      (p.body, (p.setText .body (some (quotedBody.take 189))).serialize.toOption.map List.length)) =
      some (some quotedBody, some 1280) := by
    decide +kernel
  rw [hfull] at hcut
  obtain ⟨hbody, hlen⟩ := Prod.mk.inj (Option.some.inj hcut)
  obtain ⟨result, hresult, hresultLen⟩ := Option.map_eq_some_iff.1 hlen
  have hserialized : (full.setText .body (some (quotedBody.take 189))).serialize = .ok result := by
    cases hcase : (full.setText .body (some (quotedBody.take 189))).serialize with
    | error fault =>
      rw [hcase] at hresult
      cases hresult
    | ok short =>
      rw [hcase] at hresult
      exact congrArg Except.ok (Option.some.inj hresult)
  have hfits : (full.setText .body (some (quotedBody.take 189))).Fits := ⟨result, hserialized, hresultLen.le⟩
  rw [hbody] at hlongest
  obtain ⟨hkept, hlonger⟩ := hlongest
  have hmany : 189 ≤ (kept.getD []).length := by
    by_contra hfew
    refine hlonger _ (List.take_prefix 189 quotedBody) ?_ hfits
    rw [List.length_take, quotedBody, List.length_append, List.length_replicate, List.length_replicate]
    exact Nat.lt_of_not_le hfew
  cases kept with
  | none => exact absurd hmany (by decide)
  | some s =>
    obtain ⟨rest, hrest⟩ : quotedBody.take 189 <+: s :=
      List.prefix_of_prefix_length_le (List.take_prefix 189 quotedBody) (hkept s rfl).1
        ((List.length_take_le 189 quotedBody).trans hmany)
    rw [← hrest] at hplaintext
    exact hresultLen.symm.le.trans (full.serialize_body_le hserialized hplaintext)

end MercuryRelay
