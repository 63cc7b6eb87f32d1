/-
  What `loads_strict` makes of what `json.dumps` writes of a value it has read.

  The reader refuses the constant `Infinity`, but a literal that overflows is
  read as an infinity, and that is written as `Infinity`.

  * `loadsStrict_lookup`: what was read and encodes differs from what is read
    back by its infinities alone;
  * `loadsStrict_write_iff`: what is written is accepted iff there are none.
-/
import MercuryRelay.Python.JsonLegible

set_option autoImplicit false

namespace Python

variable {c n fuel : ℕ} {s t k : Str} {v : Json} {vs : List Json} {ms : List (Str × Json)}
  {style : DumpStyle}

/-! ## Values that were read -/

namespace Json

mutual

/-- Numbers as they are read, infinities among them, legible strings, no key twice. -/
def Plain : Json → Prop
  | int n => (natDigits n.natAbs).length ≤ intMaxStrDigits
  | float x => x.Canonical
  | str s => LegibleStr s
  | arr items => PlainItems items
  | obj members => (members.map (·.1)).Nodup ∧ PlainMembers members
  | _ => True

def PlainItems : List Json → Prop
  | [] => True
  | v :: vs => Plain v ∧ PlainItems vs

def PlainMembers : List (Str × Json) → Prop
  | [] => True
  | (k, v) :: ms => LegibleStr k ∧ Plain v ∧ PlainMembers ms

end

theorem plainItems_iff : PlainItems vs ↔ ∀ v ∈ vs, v.Plain := by
  induction vs with
  | nil => simp [PlainItems]
  | cons v vs ih => simp [PlainItems, ih]

theorem plainMembers_iff : PlainMembers ms ↔ ∀ m ∈ ms, LegibleStr m.1 ∧ m.2.Plain := by
  induction ms with
  | nil => simp [PlainMembers]
  | cons m ms ih => rw [PlainMembers, ih, List.forall_mem_cons, and_assoc]

mutual

/-- What is read as it was written is plain and finite. -/
theorem legible_iff : ∀ v : Json, v.Legible ↔ v.Plain ∧ v.finite = true
  | null | bool _ | int _ | str _ => by simp [Legible, Plain, finite]
  | float (.finite _ _ _) => by simp [Legible, Plain, finite]
  | float (.inf _) => by simp [Legible, finite]
  | arr items => by
    rw [Legible, Plain, finite]
    exact legibleItems_iff_plain items
  | obj members => by
    rw [Legible, Plain, finite, and_assoc, legibleMembers_iff_plain members]

theorem legibleItems_iff_plain : ∀ vs : List Json,
    LegibleItems vs ↔ PlainItems vs ∧ finiteItems vs = true
  | [] => by simp [LegibleItems, PlainItems, finiteItems]
  | v :: vs => by
    rw [LegibleItems, PlainItems, finiteItems, Bool.and_eq_true, legible_iff v,
      legibleItems_iff_plain vs]
    tauto

theorem legibleMembers_iff_plain : ∀ ms : List (Str × Json),
    LegibleMembers ms ↔ PlainMembers ms ∧ finiteMembers ms = true
  | [] => by simp [LegibleMembers, PlainMembers, finiteMembers]
  | (k, v) :: ms => by
    rw [LegibleMembers, PlainMembers, finiteMembers, Bool.and_eq_true, legible_iff v,
      legibleMembers_iff_plain ms]
    tauto

end

end Json

theorem digitsValue_lt {ds : Str} (h : ∀ c ∈ ds, 48 ≤ c ∧ c ≤ 57) : digitsValue ds < 10 ^ ds.length := by
  induction ds using List.reverseRecOn with
  | nil => decide
  | append_singleton ds c ih =>
    have hc := h c (by simp)
    have hds := ih fun d hd => h d (List.mem_append_left _ hd)
    rw [digitsValue_snoc, List.length_append, List.length_singleton, Nat.pow_succ]
    omega

/-- An integer that was read is written in no more digits. -/
theorem length_natDigits_value {ds : Str} (h : ∀ c ∈ ds, 48 ≤ c ∧ c ≤ 57)
    (hlen : ds.length ≤ intMaxStrDigits) : (natDigits (digitsValue ds)).length ≤ intMaxStrDigits := by
  have hlt : digitsValue ds < 10 ^ intMaxStrDigits :=
    (digitsValue_lt h).trans_le (Nat.pow_le_pow_right (by decide) hlen)
  exact length_natDigits_le (by decide) hlt

/-- A literal is read as a float in its form. -/
theorem ofDecimal_canonical (neg : Bool) (n : ℕ) (e : ℤ) : (Float64.ofDecimal neg n e).Canonical := by
  rw [Float64.ofDecimal_eq]
  unfold Float64.decimal
  split
  · exact .inl ⟨rfl, rfl⟩
  · rename_i hq
    split
    · trivial
    · split
      · exact .inl ⟨rfl, rfl⟩
      · refine Float64.nearest_canonical (lt_of_le_of_ne ?_ (Ne.symm hq))
        positivity

/-- What was read is plain where it encodes. -/
theorem built_plain : Built fun v => v.encodable = true → v.Plain :=
  { null := fun _ => trivial
    bool := fun _ _ => trivial
    str := fun s hs => LegibleStr.of_utf8 (by simpa [Json.encodable] using hs)
    number := fun {neg s v t} h _ => by
      rcases readNumber_cases h with ⟨ds, rfl, hds, hlen⟩ | ⟨n, e, rfl⟩
      · have hshort := length_natDigits_value hds hlen
        cases neg <;> simpa [Json.Plain] using hshort
      · exact ofDecimal_canonical neg n e
    arr := fun {vs} hvs henc => by
      rw [Json.encodable, Json.encodableItems_iff] at henc
      exact Json.plainItems_iff.2 fun v hv => hvs v hv (henc v hv)
    obj := fun {ms} hkeys hvalues henc => by
      rw [Json.encodable, Json.encodableMembers_iff] at henc
      refine ⟨hkeys, Json.plainMembers_iff.2 fun m hm => ?_⟩
      exact ⟨LegibleStr.of_utf8 (henc m hm).1, hvalues m hm (henc m hm).2⟩ }

/-- **A member of an object that was read is plain where it encodes**, whatever
    the other members are. -/
theorem loadsStrict_lookup {depths : JsonDepths} {text : Str} {ms : List (Str × Json)}
    (h : loadsStrict depths text = some (.obj ms)) (hk : Json.lookup ms k = some v) :
    (v.encodable = true → v.Plain) ∧ v.depth < depths.read := by
  have hmem : (k, v) ∈ ms := Json.lookup_mem hk
  refine ⟨loadsStrict_member built_plain h _ hmem, ?_⟩
  have hmember : v.depth ≤ Json.depthMembers ms := Json.depthMembers_le.1 le_rfl _ hmem
  have hread := loadsStrict_depth h
  rw [Json.depth] at hread
  omega

/-! ## Infinities are not read -/

theorem plain_start (h : v.Plain) : ∃ c s, write style v = c :: s ∧ IsStart c := by
  by_cases hfin : v.finite = true
  · exact write_start ((Json.legible_iff v).2 ⟨h, hfin⟩)
  · cases v with
    | null | bool | int | str => exact absurd rfl hfin
    | float x =>
      cases x with
      | finite => exact absurd rfl hfin
      | inf neg =>
        cases neg
        · exact ⟨73, _, rfl, by decide⟩
        · exact ⟨45, _, rfl, by decide⟩
    | arr items => exact ⟨91, _, rfl, by decide⟩
    | obj members => exact ⟨123, _, rfl, by decide⟩

/-- With any fuel, a value is read as it was written or not at all. -/
theorem readValue_unique (hstyle : Undone style) (hv : v.Legible) (ht : Ends t) {r : Json × Str}
    (hr : readValue n (write style v ++ t) = some r) : r = (v, t) := by
  have hmore := (readMono (Nat.le_max_left n v.cost)).value hr
  rw [readValue_write hstyle v _ t hv (Nat.le_max_right n v.cost) ht] at hmore
  exact (Option.some.inj hmore).symm

theorem readValue_items_none (hc : IsStart c) (h : readItems n [] (c :: s) = none) :
    readValue (n + 1) (91 :: c :: s) = none := by
  rw [readValue_bracket, skipWs_start hc]
  split
  · rename_i heq
    exact absurd (List.cons.inj heq).1 hc.2.2.2.2.1
  · rw [h]
    rfl

theorem readValue_members_none (h : readMembers n [] (34 :: s) = none) :
    readValue (n + 1) (123 :: 34 :: s) = none := by
  rw [readValue_brace, skipWs_start (by decide)]
  split
  · rename_i heq
    cases heq
  · rw [h]
    rfl

theorem readValue_infinity (neg : Bool) : readValue (n + 1) (floatRepr (.inf neg) ++ t) = none := by
  cases neg with
  | false =>
    show readValue (n + 1) (73 :: (lit "nfinity" ++ t)) = none
    unfold readValue
    rfl
  | true =>
    show readValue (n + 1) (45 :: 73 :: (lit "nfinity" ++ t)) = none
    unfold readValue
    rfl

mutual

/-- **A value with an infinity is not read.** -/
theorem readValue_infinite (hstyle : Undone style) : ∀ (v : Json) (n : ℕ) (t : Str), v.Plain →
    v.finite = false → readValue n (write style v ++ t) = none
  | _, 0, _, _, _ => rfl
  | .null, _ + 1, _, _, hfin | .bool _, _ + 1, _, _, hfin | .int _, _ + 1, _, _, hfin
  | .str _, _ + 1, _, _, hfin | .float (.finite ..), _ + 1, _, _, hfin => by
    simp [Json.finite] at hfin
  | .float (.inf neg), _ + 1, _, _, _ => readValue_infinity neg
  | .arr [], _ + 1, _, _, hfin => by simp [Json.finite, Json.finiteItems] at hfin
  | .arr (v :: vs), n + 1, t, h, hfin => by
    simp only [Json.Plain, Json.PlainItems] at h
    rw [Json.finite] at hfin
    have hread := readItems_infinite hstyle v vs n [] t h.1 h.2 hfin
    obtain ⟨c, s, hc, hstart⟩ := plain_start h.1
    have htext : write style (.arr (v :: vs)) ++ t =
        91 :: (write style v ++ closing style 93 (vs.map (write style)) t) := by
      rw [write_arr, itemsText, List.map_cons, ← join_closing]
      simp
    rw [htext]
    rw [hc, List.cons_append] at hread ⊢
    exact readValue_items_none hstart hread
  | .obj [], _ + 1, _, _, hfin => by simp [Json.finite, Json.finiteMembers] at hfin
  | .obj ((k, v) :: ms), n + 1, t, h, hfin => by
    simp only [Json.Plain, Json.PlainMembers] at h
    obtain ⟨hnodup, hk, hv, hms⟩ := h
    rw [Json.finite] at hfin
    have hread := readMembers_infinite hstyle k v ms n [] t hk hv hms hnodup (by simp) hfin
    have htext : write style (.obj ((k, v) :: ms)) ++ t =
        123 :: (memberText style (k, v) ++ closing style 125 (ms.map (memberText style)) t) := by
      rw [write_obj hstyle.unsorted, membersText, List.map_cons, ← join_closing]
      simp
    have hhead : memberText style (k, v) ++ closing style 125 (ms.map (memberText style)) t =
        34 :: (k.flatMap (writeChar style.ensureAscii) ++ [34] ++ style.keySeparator ++ write style v ++
          closing style 125 (ms.map (memberText style)) t) := rfl
    rw [htext]
    rw [hhead] at hread ⊢
    exact readValue_members_none hread

theorem readItems_infinite (hstyle : Undone style) : ∀ (v : Json) (vs : List Json) (n : ℕ)
    (acc : List Json) (t : Str), v.Plain → Json.PlainItems vs → Json.finiteItems (v :: vs) = false →
    readItems n acc (write style v ++ closing style 93 (vs.map (write style)) t) = none
  | _, _, 0, _, _, _, _, _ => rfl
  | v, vs, n + 1, acc, t, hv, hvs, hfin => by
    unfold readItems
    cases hread : readValue n (write style v ++ closing style 93 (vs.map (write style)) t) with
    | none => rfl
    | some r =>
      have hvfin : v.finite = true := by
        by_contra hinf
        rw [readValue_infinite hstyle v n _ hv (by simpa using hinf)] at hread
        cases hread
      have hends := ends_closing hstyle (ends_last (.inl rfl) t) (vs.map (write style))
      obtain rfl := readValue_unique hstyle ((Json.legible_iff v).2 ⟨hv, hvfin⟩) hends hread
      rw [Json.finiteItems, hvfin, Bool.true_and] at hfin
      cases vs with
      | nil => simp [Json.finiteItems] at hfin
      | cons w vs =>
        simp only [Json.PlainItems] at hvs
        obtain ⟨u, hu, hskip⟩ := skipWs_closing hstyle
          (plain_start hvs.1) 93 t
        have hrest := readItems_infinite hstyle w vs n (v :: acc) t hvs.1 hvs.2 hfin
        rw [← hskip] at hrest
        rw [List.map_cons, hu]
        dsimp only
        rw [skipWs_start (by decide)]
        exact hrest

theorem readMembers_infinite (hstyle : Undone style) : ∀ (k : Str) (v : Json) (ms : List (Str × Json))
    (n : ℕ) (acc : List (Str × Json)) (t : Str), LegibleStr k → v.Plain → Json.PlainMembers ms →
    (((k, v) :: ms).map (·.1)).Nodup → (∀ m ∈ (k, v) :: ms, m.1 ∉ acc.map (·.1)) →
    Json.finiteMembers ((k, v) :: ms) = false →
    readMembers n acc (memberText style (k, v) ++ closing style 125 (ms.map (memberText style)) t) = none
  | _, _, _, 0, _, _, _, _, _, _, _, _ => rfl
  | k, v, ms, n + 1, acc, t, hk, hv, hms, hnodup, hacc, hfin => by
    rw [readMembers_member hstyle hk (plain_start hv) (hacc (k, v) List.mem_cons_self)]
    cases hread : readValue n (write style v ++ closing style 125 (ms.map (memberText style)) t) with
    | none => rfl
    | some r =>
      have hvfin : v.finite = true := by
        by_contra hinf
        rw [readValue_infinite hstyle v n _ hv (by simpa using hinf)] at hread
        cases hread
      have hends := ends_closing hstyle (ends_last (.inr rfl) t) (ms.map (memberText style))
      obtain rfl := readValue_unique hstyle ((Json.legible_iff v).2 ⟨hv, hvfin⟩) hends hread
      rw [Json.finiteMembers, hvfin, Bool.true_and] at hfin
      cases ms with
      | nil => simp [Json.finiteMembers] at hfin
      | cons m ms =>
        obtain ⟨l, u⟩ := m
        simp only [Json.PlainMembers] at hms
        obtain ⟨hl, hu, hms⟩ := hms
        have hmember : ∃ c s, memberText style (l, u) = c :: s ∧ IsStart c := ⟨34, _, rfl, by decide⟩
        obtain ⟨z, hz, hskip⟩ := skipWs_closing hstyle hmember 125 t
        rw [List.map_cons, List.nodup_cons] at hnodup
        have hrest := readMembers_infinite hstyle l u ms n ((k, v) :: acc) t hl hu hms hnodup.2 (by
          intro m hm
          rw [List.map_cons, List.mem_cons, not_or]
          refine ⟨fun heq => hnodup.1 ?_, hacc m (List.mem_cons_of_mem _ hm)⟩
          exact List.mem_map.2 ⟨m, hm, heq⟩) hfin
        rw [← hskip] at hrest
        rw [List.map_cons, hz]
        dsimp only
        rw [skipWs_start (by decide)]
        exact hrest

end

/-- **What is written of a plain value is accepted iff it holds no infinity.** -/
theorem loadsStrict_write_iff (hstyle : Undone style) {depths : JsonDepths} (hv : v.Plain)
    (hdepth : v.depth ≤ depths.read) {w : Json} :
    loadsStrict depths (write style v) = some w ↔ v.finite = true ∧ w = v := by
  by_cases hfin : v.finite = true
  · rw [loadsStrict_write hstyle ((Json.legible_iff v).2 ⟨hv, hfin⟩) hdepth]
    simp [hfin, eq_comm]
  · refine iff_of_false ?_ fun h => hfin h.1
    intro h
    obtain ⟨c, s, hs, hc⟩ := plain_start hv
    have hskip : skipWs (write style v) = write style v := by
      rw [hs, skipWs_start hc]
    have hread := readValue_infinite hstyle v (2 * (write style v).length + 2) [] hv (by simpa using hfin)
    rw [List.append_nil] at hread
    unfold loadsStrict at h
    rw [hskip, hread] at h
    split at h <;> cases h

end Python
