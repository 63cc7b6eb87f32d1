/-
  `json.loads` of octets: the encoding is detected, a repeated key takes the
  last value, and the constants are read.

  * `loads_strict`: ASCII text that `loads_strict` accepts is read alike.
-/
import MercuryRelay.Python.JsonSorted
import MercuryRelay.Python.Utf8
import MercuryRelay.Python.Dict

set_option autoImplicit false

namespace Python

/-! ## The octets of a text -/

/-- The octets of one code point with `surrogatepass`. -/
def utf8PassChar (c : ℕ) : Option Bytes :=
  if 0xD800 ≤ c ∧ c ≤ 0xDFFF then
    some [.ofNat (0xE0 + c / 4096), .ofNat (0x80 + c / 64 % 64), .ofNat (0x80 + c % 64)]
  else utf8Char c

def decodePassFrom : ℕ → Bytes → Option Str
  | _, [] => some []
  | 0, _ => none
  | fuel + 1, a :: bs =>
    let octets := (a :: bs).take (leadWidth a)
    if utf8PassChar (scalar octets) = some octets then
      (decodePassFrom fuel ((a :: bs).drop (leadWidth a))).map (scalar octets :: ·)
    else none

/-- `bs.decode("utf-8", "surrogatepass")`. -/
def decodeUtf8Pass (bs : Bytes) : Option Str := decodePassFrom bs.length bs

/-- The units of two octets, and of four. -/
def units16 (bigEndian : Bool) : Bytes → Option (List ℕ)
  | [] => some []
  | a :: b :: bs =>
    (units16 bigEndian bs).map
      ((if bigEndian then a.toNat * 256 + b.toNat else b.toNat * 256 + a.toNat) :: ·)
  | [_] => none

def units32 (bigEndian : Bool) : Bytes → Option (List ℕ)
  | [] => some []
  | a :: b :: c :: d :: bs =>
    (units32 bigEndian bs).map
      ((if bigEndian then ((a.toNat * 256 + b.toNat) * 256 + c.toNat) * 256 + d.toNat
        else ((d.toNat * 256 + c.toNat) * 256 + b.toNat) * 256 + a.toNat) :: ·)
  | _ => none

/-- A high unit and a low one are one character; a lone one passes. -/
def joinSurrogates : List ℕ → Str
  | c :: d :: us =>
    if 0xD800 ≤ c ∧ c ≤ 0xDBFF ∧ 0xDC00 ≤ d ∧ d ≤ 0xDFFF then
      (0x10000 + (c - 0xD800) * 1024 + (d - 0xDC00)) :: joinSurrogates us
    else c :: joinSurrogates (d :: us)
  | us => us

/-- `bs.decode("utf-16-be", "surrogatepass")`, or of the little-endian codec. -/
def decodeUtf16Pass (bigEndian : Bool) (bs : Bytes) : Option Str :=
  (units16 bigEndian bs).map joinSurrogates

/-- `bs.decode("utf-32-be", "surrogatepass")`, or of the little-endian codec. -/
def decodeUtf32Pass (bigEndian : Bool) (bs : Bytes) : Option Str :=
  (units32 bigEndian bs).filter fun us => us.all (· < 0x110000)

/-- `b.decode(detect_encoding(b), "surrogatepass")`. -/
def decodeDetected : Bytes → Option Str
  | 0x00 :: 0x00 :: 0xFE :: 0xFF :: bs => decodeUtf32Pass true bs
  | 0xFF :: 0xFE :: 0x00 :: 0x00 :: bs => decodeUtf32Pass false bs
  | 0xFE :: 0xFF :: bs => decodeUtf16Pass true bs
  | 0xFF :: 0xFE :: bs => decodeUtf16Pass false bs
  | 0xEF :: 0xBB :: 0xBF :: bs => decodeUtf8Pass bs
  | bs =>
    match bs with
    | a :: b :: c :: d :: _ =>
      if a = 0 then if b = 0 then decodeUtf32Pass true bs else decodeUtf16Pass true bs
      else if b = 0 then
        if c = 0 ∧ d = 0 then decodeUtf32Pass false bs else decodeUtf16Pass false bs
      else decodeUtf8Pass bs
    | [a, b] =>
      if a = 0 then decodeUtf16Pass true bs else if b = 0 then decodeUtf16Pass false bs
      else decodeUtf8Pass bs
    | _ => decodeUtf8Pass bs

/-! ## Reading -/

/-- What `json.loads` raises. -/
inductive LoadsFault where
  | value
  | recursion
  deriving DecidableEq

/-- A number after its sign, or a constant.  `NaN`, which no value of the model
    is, is read as an infinity: a float as well. -/
def scanNumber (neg : Bool) (s : Str) : Except LoadsFault (Json × Str) :=
  match readNumber neg s with
  | some r => .ok r
  | none =>
    match s with
    | 73 :: 110 :: 102 :: 105 :: 110 :: 105 :: 116 :: 121 :: s => .ok (.float (.inf neg), s)
    | 78 :: 97 :: 78 :: s => if neg then .error .value else .ok (.float (.inf false), s)
    | _ => .error .value

mutual

/-- `scan_once`, with room for so many brackets. -/
def scanValue : ℕ → ℕ → Str → Except LoadsFault (Json × Str)
  | 0, _, _ => .error .value
  | fuel + 1, room, s =>
    match s with
    | 34 :: s =>
      match readString (s.length + 1) [] s with
      | some (t, s) => .ok (.str t, s)
      | none => .error .value
    | 123 :: s =>
      match room with
      | 0 => .error .recursion
      | room + 1 =>
        match skipWs s with
        | 125 :: s => .ok (.obj [], s)
        | s => (scanMembers fuel room [] s).map fun (ms, s) => (.obj ms, s)
    | 91 :: s =>
      match room with
      | 0 => .error .recursion
      | room + 1 =>
        match skipWs s with
        | 93 :: s => .ok (.arr [], s)
        | s => (scanItems fuel room [] s).map fun (vs, s) => (.arr vs, s)
    | 110 :: 117 :: 108 :: 108 :: s => .ok (.null, s)
    | 116 :: 114 :: 117 :: 101 :: s => .ok (.bool true, s)
    | 102 :: 97 :: 108 :: 115 :: 101 :: s => .ok (.bool false, s)
    | 45 :: s => scanNumber true s
    | s => scanNumber false s

def scanItems : ℕ → ℕ → List Json → Str → Except LoadsFault (List Json × Str)
  | 0, _, _, _ => .error .value
  | fuel + 1, room, acc, s =>
    match scanValue fuel room s with
    | .error fault => .error fault
    | .ok (v, s) =>
      match skipWs s with
      | 93 :: s => .ok ((v :: acc).reverse, s)
      | 44 :: s => scanItems fuel room (v :: acc) (skipWs s)
      | _ => .error .value

def scanMembers : ℕ → ℕ → Dict Str Json → Str → Except LoadsFault (Dict Str Json × Str)
  | 0, _, _, _ => .error .value
  | fuel + 1, room, acc, s =>
    match s with
    | 34 :: s =>
      match readString (s.length + 1) [] s with
      | none => .error .value
      | some (k, s) =>
        match skipWs s with
        | 58 :: s =>
          match scanValue fuel room (skipWs s) with
          | .error fault => .error fault
          | .ok (v, s) =>
            match skipWs s with
            | 125 :: s => .ok (acc.set k v, s)
            | 44 :: s => scanMembers fuel room (acc.set k v) (skipWs s)
            | _ => .error .value
        | _ => .error .value
    | _ => .error .value

end

/-- `json.loads` of octets. -/
def loads (depths : JsonDepths) (bs : Bytes) : Except LoadsFault Json :=
  match decodeDetected bs with
  | none => .error .value
  | some text =>
    match scanValue (2 * text.length + 2) depths.read (skipWs text) with
    | .error fault => .error fault
    | .ok (v, s) => if skipWs s = [] then .ok v else .error .value

/-! ## What the strict reader accepts -/

variable {fuel room : ℕ} {s t : Str} {v : Json} {depths : JsonDepths}

/-- What the strict reader reads with this fuel, `scan_once` reads. -/
structure Scans (fuel : ℕ) : Prop where
  value : ∀ {room s v t}, readValue fuel s = some (v, t) → v.depth ≤ room →
    scanValue fuel room s = .ok (v, t)
  items : ∀ {room acc s vs t}, readItems fuel acc s = some (vs, t) → Json.depthItems vs ≤ room →
    scanItems fuel room acc s = .ok (vs, t)
  members : ∀ {room acc s ms t}, readMembers fuel acc s = some (ms, t) → Json.depthMembers ms ≤ room →
    scanMembers fuel room acc.reverse s = .ok (ms, t)

/-- What was read before stays. -/
theorem readItems_keeps {vs : List Json} : ∀ {fuel : ℕ} {acc : List Json} {s : Str},
    readItems fuel acc s = some (vs, t) → ∀ v ∈ acc, v ∈ vs
  | 0, _, _, h => by simp [readItems] at h
  | fuel + 1, acc, s, h => by
    unfold readItems at h
    split at h
    · cases h
    · split at h
      · cases h
        intro v hv
        exact List.mem_reverse.2 (List.mem_cons_of_mem _ hv)
      · intro v hv
        exact readItems_keeps h v (List.mem_cons_of_mem _ hv)
      · cases h

theorem readMembers_keeps {ms : List (Str × Json)} : ∀ {fuel : ℕ} {acc : List (Str × Json)} {s : Str},
    readMembers fuel acc s = some (ms, t) → ∀ m ∈ acc, m ∈ ms
  | 0, _, _, h => by simp [readMembers] at h
  | fuel + 1, acc, s, h => by
    unfold readMembers at h
    split at h
    · split at h
      · cases h
      · split at h
        · split at h
          · cases h
          · split at h
            · cases h
            · split at h
              · cases h
                intro m hm
                exact List.mem_reverse.2 (List.mem_cons_of_mem _ hm)
              · intro m hm
                exact readMembers_keeps h m (List.mem_cons_of_mem _ hm)
              · cases h
        · cases h
    · cases h

theorem scanNumber_of_read {neg : Bool} {r : Json × Str} (h : readNumber neg s = some r) :
    scanNumber neg s = .ok r := by
  unfold scanNumber
  rw [h]

theorem scanValue_object (h : ∀ u, skipWs s ≠ 125 :: u) : scanValue (fuel + 1) (room + 1) (123 :: s) =
    (scanMembers fuel room [] (skipWs s)).map fun x => (.obj x.1, x.2) := by
  cases hw : skipWs s with
  | nil => simp [scanValue, hw]
  | cons c w =>
    have hc : c ≠ 125 := fun hc => h w (by rw [hw, hc])
    simp [scanValue, hw, hc]

theorem scanValue_array (h : ∀ u, skipWs s ≠ 93 :: u) : scanValue (fuel + 1) (room + 1) (91 :: s) =
    (scanItems fuel room [] (skipWs s)).map fun x => (.arr x.1, x.2) := by
  cases hw : skipWs s with
  | nil => simp [scanValue, hw]
  | cons c w =>
    have hc : c ≠ 93 := fun hc => h w (by rw [hw, hc])
    simp [scanValue, hw, hc]

theorem scanValue_strict (h : Scans fuel) (hr : readValue (fuel + 1) s = some (v, t))
    (hroom : v.depth ≤ room) : scanValue (fuel + 1) room s = .ok (v, t) := by
  unfold readValue at hr
  split at hr
  · obtain ⟨x, hx, hpair⟩ := Option.map_eq_some_iff.1 hr
    cases hpair
    simp only [scanValue, hx]
  · cases room with
    | zero =>
      split at hr
      · cases hr
        simp [Json.depth] at hroom
      · obtain ⟨x, hx, hpair⟩ := Option.map_eq_some_iff.1 hr
        cases hpair
        simp [Json.depth] at hroom
    | succ room =>
      split at hr
      · cases hr
        rename_i heq
        simp only [scanValue, heq]
      · rename_i hne
        obtain ⟨x, hx, hpair⟩ := Option.map_eq_some_iff.1 hr
        cases hpair
        rw [Json.depth] at hroom
        have hscan := h.members (t := x.2) hx (Nat.le_of_succ_le_succ hroom)
        rw [List.reverse_nil] at hscan
        rw [scanValue_object hne, hscan]
        rfl
  · cases room with
    | zero =>
      split at hr
      · cases hr
        simp [Json.depth] at hroom
      · obtain ⟨x, hx, hpair⟩ := Option.map_eq_some_iff.1 hr
        cases hpair
        simp [Json.depth] at hroom
    | succ room =>
      split at hr
      · cases hr
        rename_i heq
        simp only [scanValue, heq]
      · rename_i hne
        obtain ⟨x, hx, hpair⟩ := Option.map_eq_some_iff.1 hr
        cases hpair
        rw [Json.depth] at hroom
        have hscan := h.items (t := x.2) hx (Nat.le_of_succ_le_succ hroom)
        rw [scanValue_array hne, hscan]
        rfl
  · cases hr
    simp only [scanValue]
  · cases hr
    simp only [scanValue]
  · cases hr
    simp only [scanValue]
  · simp only [scanValue]
    exact scanNumber_of_read hr
  · have hscan := scanNumber_of_read hr
    rename_i hquote hbrace hbracket hnull htrue hfalse hminus
    unfold scanValue
    split
    · exact absurd rfl (hquote _)
    · exact absurd rfl (hbrace _)
    · exact absurd rfl (hbracket _)
    · exact absurd rfl (hnull _)
    · exact absurd rfl (htrue _)
    · exact absurd rfl (hfalse _)
    · exact absurd rfl (hminus _)
    · exact hscan

theorem scanItems_strict (h : Scans fuel) {acc vs : List Json}
    (hr : readItems (fuel + 1) acc s = some (vs, t)) (hroom : Json.depthItems vs ≤ room) :
    scanItems (fuel + 1) room acc s = .ok (vs, t) := by
  unfold readItems at hr
  unfold scanItems
  split at hr
  · cases hr
  · rename_i v s' hvalue
    have hdepth : v ∈ vs → v.depth ≤ room := fun hv => Json.depthItems_le.1 hroom v hv
    split at hr
    · rename_i hend
      cases hr
      rw [h.value hvalue (hdepth (by simp))]
      simp only [hend]
    · rename_i hend
      have hv : v ∈ vs := readItems_keeps hr v List.mem_cons_self
      rw [h.value hvalue (hdepth hv)]
      simp only [hend]
      exact h.items hr hroom
    · cases hr

theorem scanMembers_strict (h : Scans fuel) {acc ms : List (Str × Json)}
    (hr : readMembers (fuel + 1) acc s = some (ms, t)) (hroom : Json.depthMembers ms ≤ room) :
    scanMembers (fuel + 1) room acc.reverse s = .ok (ms, t) := by
  unfold readMembers at hr
  unfold scanMembers
  split at hr
  · split at hr
    · cases hr
    · rename_i k s' hkey
      split at hr
      · rename_i hcolon
        split at hr
        · cases hr
        · rename_i v s'' hvalue
          split at hr
          · cases hr
          · rename_i hnew
            have hnone : Dict.get acc.reverse k = none := by
              refine Dict.get_none_iff.2 fun m hm hmk => hnew ?_
              exact List.any_eq_true.2 ⟨m, List.mem_reverse.1 hm, by simpa using hmk⟩
            have hset : Dict.set acc.reverse k v = ((k, v) :: acc).reverse := by
              rw [Dict.set_new hnone, List.reverse_cons]
            have hdepth : (k, v) ∈ ms → v.depth ≤ room := fun hv => Json.depthMembers_le.1 hroom _ hv
            try simp only [hkey, hcolon]
            split at hr
            · rename_i hend
              cases hr
              rw [h.value hvalue (hdepth (by simp))]
              simp only [hend, hset]
            · rename_i hend
              rw [h.value hvalue (hdepth (readMembers_keeps hr _ List.mem_cons_self))]
              simp only [hend, hset]
              exact h.members hr hroom
            · cases hr
      · cases hr
  · cases hr

theorem scans (fuel : ℕ) : Scans fuel := by
  induction fuel with
  | zero =>
    exact ⟨fun h => by simp [readValue] at h, fun h => by simp [readItems] at h,
      fun h => by simp [readMembers] at h⟩
  | succ fuel ih => exact ⟨scanValue_strict ih, scanItems_strict ih, scanMembers_strict ih⟩

theorem decodePassFrom_ascii (hs : Ascii s) (hfuel : s.length ≤ fuel) :
    decodePassFrom fuel (s.map UInt8.ofNat) = some s := by
  induction s generalizing fuel with
  | nil => cases fuel <;> rfl
  | cons c s ih =>
    cases fuel with
    | zero => simp at hfuel
    | succ fuel =>
      have hc : c < 128 := hs c List.mem_cons_self
      have hnat : (UInt8.ofNat c).toNat = c := by
        rw [UInt8.toNat_ofNat']
        omega
      have hwidth : leadWidth (.ofNat c) = 1 := by
        rw [leadWidth, hnat, if_pos hc]
      have hchar : utf8PassChar c = some [.ofNat c] := by
        unfold utf8PassChar utf8Char
        rw [if_neg (by omega), if_pos hc]
      have hrest := ih (hs.subset (List.subset_cons_self c s)) (Nat.le_of_succ_le_succ hfuel)
      rw [List.map_cons, decodePassFrom]
      simp only [hwidth, List.take_succ_cons, List.take_zero, List.drop_succ_cons, List.drop_zero, scalar,
        hnat, hchar, if_true, hrest, Option.map_some]

/-- Octets that begin with two of ASCII other than NUL are UTF-8. -/
theorem decodeDetected_utf8 {a b : UInt8} {bs : Bytes} (ha : a.toNat < 128 ∧ a ≠ 0) (hb : b ≠ 0) :
    decodeDetected (a :: b :: bs) = decodeUtf8Pass (a :: b :: bs) := by
  have hlow : ∀ n : UInt8, 128 ≤ n.toNat → a ≠ n := by
    rintro n hn rfl
    omega
  unfold decodeDetected
  split
  · rename_i heq
    exact absurd (List.cons.inj heq).1 ha.2
  · rename_i heq
    exact absurd (List.cons.inj heq).1 (hlow 0xFF (by decide))
  · rename_i heq
    exact absurd (List.cons.inj heq).1 (hlow 0xFE (by decide))
  · rename_i heq
    exact absurd (List.cons.inj heq).1 (hlow 0xFF (by decide))
  · rename_i heq
    exact absurd (List.cons.inj heq).1 (hlow 0xEF (by decide))
  · split
    · rename_i heq
      cases heq
      rw [if_neg ha.2, if_neg hb]
    · rename_i heq
      cases heq
      rw [if_neg ha.2, if_neg hb]
    · rfl

theorem decodeDetected_ascii {c d : ℕ} (hs : Ascii (c :: d :: s)) (hc : c ≠ 0) (hd : d ≠ 0) :
    decodeDetected ((c :: d :: s).map UInt8.ofNat) = some (c :: d :: s) := by
  have hnat : ∀ x ∈ c :: d :: s, (UInt8.ofNat x).toNat = x := by
    intro x hx
    have hlt := hs x hx
    rw [UInt8.toNat_ofNat']
    omega
  have hzero : ∀ x ∈ c :: d :: s, x ≠ 0 → UInt8.ofNat x ≠ 0 := by
    intro x hx hne heq
    have htoNat := hnat x hx
    rw [heq] at htoNat
    exact hne htoNat.symm
  have hfirst : (UInt8.ofNat c).toNat < 128 := by
    rw [hnat c (by simp)]
    exact hs c (by simp)
  rw [List.map_cons, List.map_cons, decodeDetected_utf8 ⟨hfirst, hzero c (by simp) hc⟩ (hzero d (by simp) hd)]
  exact decodePassFrom_ascii hs (by simp)

/-- **ASCII text that `loads_strict` accepts is read alike.** -/
theorem loads_strict {c d : ℕ} (hs : Ascii (c :: d :: s)) (hc : c ≠ 0) (hd : d ≠ 0)
    (h : loadsStrict depths (c :: d :: s) = some v) :
    loads depths ((c :: d :: s).map UInt8.ofNat) = .ok v := by
  unfold loads
  rw [decodeDetected_ascii hs hc hd]
  unfold loadsStrict at h
  split at h
  · cases h
  · split at h
    · rename_i hread
      split at h
      · rename_i hend
        cases h
        dsimp only
        rw [(scans _).value hread hend.2]
        exact if_pos hend.1
      · cases h
    · cases h

end Python
