/-
  JSON values, the strict reader of strict_json.py and the writer `json.dumps`.

  Both recurse once for every level of nesting, and both raise past a depth of
  the interpreter's own; the depths are parameters.  A `str` read from an
  escape can hold a lone surrogate, so a value that was read may not encode.

  * `loadsStrict` is `loads_strict`, `none` where it raises;
  * `dumps` is `json.dumps`, `none` where it raises;
  * `Json.same` is Python's `==`;
  * `utf8_write`: what is written encodes iff every string does.
-/
import MercuryRelay.Python.Float

set_option autoImplicit false

namespace Python

/-- What `json.loads` builds; the members of an object in their order. -/
inductive Json where
  | null
  | bool (b : Bool)
  | int (n : ℤ)
  | float (x : Float64)
  | str (s : Str)
  | arr (items : List Json)
  | obj (members : List (Str × Json))

namespace Json

/-! ## Equality -/

mutual

def beq : Json → Json → Bool
  | null, null => true
  | bool a, bool b => a == b
  | int a, int b => a == b
  | float a, float b => a == b
  | str a, str b => a == b
  | arr a, arr b => beqItems a b
  | obj a, obj b => beqMembers a b
  | _, _ => false

def beqItems : List Json → List Json → Bool
  | [], [] => true
  | a :: as, b :: bs => beq a b && beqItems as bs
  | _, _ => false

def beqMembers : List (Str × Json) → List (Str × Json) → Bool
  | [], [] => true
  | (k, a) :: as, (l, b) :: bs => k == l && beq a b && beqMembers as bs
  | _, _ => false

end

mutual

theorem beq_iff : ∀ {a b : Json}, beq a b = true ↔ a = b
  | null, b => by cases b <;> simp [beq]
  | bool _, b => by cases b <;> simp [beq]
  | int _, b => by cases b <;> simp [beq]
  | float _, b => by cases b <;> simp [beq]
  | str _, b => by cases b <;> simp [beq]
  | arr as, b => by cases b <;> simp [beq, @beqItems_iff as]
  | obj as, b => by cases b <;> simp [beq, @beqMembers_iff as]

theorem beqItems_iff : ∀ {as bs : List Json}, beqItems as bs = true ↔ as = bs
  | [], bs => by cases bs <;> simp [beqItems]
  | a :: as, bs => by
    cases bs <;> simp [beqItems, beq_iff (a := a), @beqItems_iff as]

theorem beqMembers_iff : ∀ {as bs : List (Str × Json)}, beqMembers as bs = true ↔ as = bs
  | [], bs => by cases bs <;> simp [beqMembers]
  | (k, a) :: as, [] => by simp [beqMembers]
  | (k, a) :: as, (l, b) :: bs => by
    simp [beqMembers, beq_iff (a := a), @beqMembers_iff as, Prod.ext_iff]

end

instance : DecidableEq Json := fun _ _ => decidable_of_iff _ beq_iff

instance : Inhabited Json := ⟨null⟩

/-- The members in the order of their keys. -/
def sortMembers {α : Type} (ms : List (Str × α)) : List (Str × α) :=
  ms.foldr (fun m acc => insertMember m acc) []
where
  insertMember (m : Str × α) : List (Str × α) → List (Str × α)
    | [] => [m]
    | x :: xs => if strLe m.1 x.1 then m :: x :: xs else x :: insertMember m xs

mutual

/-- One value for all that `==` does not tell apart: `1`, `1.0` and `True`, and
    objects up to the order of their members. -/
def norm : Json → Json
  | null => null
  | bool b => int (if b then 1 else 0)
  | int n => int n
  | float x => match x.toInt? with | some n => int n | none => float x
  | str s => str s
  | arr items => arr (normItems items)
  | obj members => obj (sortMembers (normMembers members))

def normItems : List Json → List Json
  | [] => []
  | v :: vs => norm v :: normItems vs

def normMembers : List (Str × Json) → List (Str × Json)
  | [] => []
  | (k, v) :: ms => (k, norm v) :: normMembers ms

end

/-- Python's `==`. -/
def same (a b : Json) : Prop := a.norm = b.norm

instance (a b : Json) : Decidable (same a b) := inferInstanceAs (Decidable (a.norm = b.norm))

theorem same_refl (a : Json) : same a a := rfl

/-- Only `None` equals `None`. -/
theorem norm_eq_null {v : Json} (h : v.norm = .null) : v = .null := by
  cases v with
  | null => rfl
  | float x =>
    unfold norm at h
    split at h <;> cases h
  | _ => simp [norm] at h

theorem same.symm {a b : Json} (h : same a b) : same b a := Eq.symm h

theorem same.trans {a b c : Json} (h : same a b) (h' : same b c) : same a c := Eq.trans h h'

/-! ## Access -/

/-- `value.get(key)` of an object's members. -/
def lookup (members : List (Str × Json)) (key : Str) : Option Json :=
  (members.find? (·.1 = key)).map (·.2)

/-- `key in value`. -/
def hasKey (members : List (Str × Json)) (key : Str) : Bool := members.any (·.1 = key)

theorem lookup_mem {members : List (Str × Json)} {key : Str} {v : Json}
    (h : lookup members key = some v) : (key, v) ∈ members := by
  obtain ⟨m, hfind, rfl⟩ := Option.map_eq_some_iff.1 h
  have hkey : m.1 = key := by simpa using List.find?_some hfind
  rw [← hkey]
  exact List.mem_of_find?_eq_some hfind

theorem hasKey_of_lookup {members : List (Str × Json)} {key : Str} {v : Json}
    (h : lookup members key = some v) : hasKey members key = true := by
  obtain ⟨m, hm, -⟩ := Option.map_eq_some_iff.1 h
  have hkey := List.find?_some hm
  exact List.any_eq_true.2 ⟨m, List.mem_of_find?_eq_some hm, hkey⟩

/-- A list or an object has no hash. -/
def hashable : Json → Bool
  | arr _ | obj _ => false
  | _ => true

/-- `type(value) is int`. -/
def asInt? : Json → Option ℤ
  | int n => some n
  | _ => none

/-- `isinstance(value, str)`. -/
def asStr? : Json → Option Str
  | str s => some s
  | _ => none

/-- `bool(value)`. -/
def truthy : Json → Bool
  | null => false
  | bool b => b
  | int n => n ≠ 0
  | float x => x.toInt? ≠ some 0
  | str s => s ≠ []
  | arr items => items ≠ []
  | obj members => members ≠ []

mutual

/-- The levels of nesting. -/
def depth : Json → ℕ
  | arr items => depthItems items + 1
  | obj members => depthMembers members + 1
  | _ => 0

def depthItems : List Json → ℕ
  | [] => 0
  | v :: vs => max (depth v) (depthItems vs)

def depthMembers : List (Str × Json) → ℕ
  | [] => 0
  | (_, v) :: ms => max (depth v) (depthMembers ms)

end

end Json

/-! ## Reading -/

/-- Skip `[ \t\n\r]*`. -/
def skipWs : Str → Str
  | [] => []
  | c :: s => if c = 32 ∨ c = 9 ∨ c = 10 ∨ c = 13 then skipWs s else c :: s

def hexValue? (c : ℕ) : Option ℕ :=
  if 48 ≤ c ∧ c ≤ 57 then some (c - 48)
  else if 97 ≤ c ∧ c ≤ 102 then some (c - 87)
  else if 65 ≤ c ∧ c ≤ 70 then some (c - 55)
  else none

/-- Four hexadecimal digits. -/
def hex4 : Str → Option (ℕ × Str)
  | a :: b :: c :: d :: s => do
    pure (((← hexValue? a) * 16 + (← hexValue? b)) * 256 + (← hexValue? c) * 16 + (← hexValue? d), s)
  | _ => none

/-- What a backslash and `c` stand for. -/
def escape? (c : ℕ) : Option ℕ :=
  if c = 34 ∨ c = 92 ∨ c = 47 then some c
  else if c = 98 then some 8
  else if c = 102 then some 12
  else if c = 110 then some 10
  else if c = 114 then some 13
  else if c = 116 then some 9
  else none

/-- A `\u` escape: a high and a low surrogate in a row are one character. -/
def unicodeEscape (s : Str) : Option (ℕ × Str) := do
  let (c, s) ← hex4 s
  if 0xD800 ≤ c ∧ c ≤ 0xDBFF then
    match s with
    | 92 :: 117 :: t =>
      let (d, t) ← hex4 t
      if 0xDC00 ≤ d ∧ d ≤ 0xDFFF then pure (0x10000 + (c - 0xD800) * 1024 + (d - 0xDC00), t)
      else pure (c, s)
    | _ => pure (c, s)
  else pure (c, s)

/-- The rest of a string literal, after its opening quote. -/
def readString : ℕ → Str → Str → Option (Str × Str)
  | 0, _, _ => none
  | _ + 1, _, [] => none
  | fuel + 1, acc, c :: s =>
    if c = 34 then some (acc.reverse, s)
    else if c < 32 then none
    else if c = 92 then
      match s with
      | [] => none
      | 117 :: s => do
        let (d, s) ← unicodeEscape s
        readString fuel (d :: acc) s
      | e :: s => do readString fuel ((← escape? e) :: acc) s
    else readString fuel (c :: acc) s

/-- The leading decimal digits and the rest. -/
def takeDigits : Str → Str × Str
  | [] => ([], [])
  | c :: s => if 48 ≤ c ∧ c ≤ 57 then ((c :: (takeDigits s).1), (takeDigits s).2) else ([], c :: s)

/-- The value of decimal digits. -/
def digitsValue (ds : Str) : ℕ := ds.foldl (fun n c => n * 10 + (c - 48)) 0

/-- `sys.get_int_max_str_digits()`. -/
def intMaxStrDigits : ℕ := 4300

/-- An exponent, when digits follow it. -/
def readExponent (s : Str) : Option (ℤ × Str) :=
  match s with
  | c :: t =>
    if c = 101 ∨ c = 69 then
      let (neg, t) := match t with
        | 45 :: u => (true, u)
        | 43 :: u => (false, u)
        | u => (false, u)
      match takeDigits t with
      | ([], _) => none
      | (ds, u) => some (if neg then -(digitsValue ds : ℤ) else digitsValue ds, u)
    else none
  | [] => none

/-- A number, after its sign. -/
def readNumber (neg : Bool) (s : Str) : Option (Json × Str) :=
  let whole : Option (Str × Str) := match s with
    | 48 :: t => some ([48], t)
    | c :: t => if 49 ≤ c ∧ c ≤ 57 then some (takeDigits (c :: t)) else none
    | [] => none
  match whole with
  | none => none
  | some (ds, t) =>
    let (frac, t) := match t with
      | 46 :: u => match takeDigits u with
        | ([], _) => ([], t)
        | (fs, u) => (fs, u)
      | _ => ([], t)
    match frac, readExponent t with
    | [], none =>
      if intMaxStrDigits < ds.length then none
      else some (.int (if neg then -(digitsValue ds : ℤ) else digitsValue ds), t)
    | fs, none => some (.float (.ofDecimal neg (digitsValue (ds ++ fs)) (-fs.length)), t)
    | fs, some (e, t) => some (.float (.ofDecimal neg (digitsValue (ds ++ fs)) (e - fs.length)), t)

mutual

/-- `scan_once`.  `NaN`, `Infinity` and `-Infinity` are refused, as is a
    repeated key. -/
def readValue : ℕ → Str → Option (Json × Str)
  | 0, _ => none
  | fuel + 1, s =>
    match s with
    | 34 :: s => (readString (s.length + 1) [] s).map fun (t, s) => (.str t, s)
    | 123 :: s =>
      match skipWs s with
      | 125 :: s => some (.obj [], s)
      | s => (readMembers fuel [] s).map fun (ms, s) => (.obj ms, s)
    | 91 :: s =>
      match skipWs s with
      | 93 :: s => some (.arr [], s)
      | s => (readItems fuel [] s).map fun (vs, s) => (.arr vs, s)
    | 110 :: 117 :: 108 :: 108 :: s => some (.null, s)
    | 116 :: 114 :: 117 :: 101 :: s => some (.bool true, s)
    | 102 :: 97 :: 108 :: 115 :: 101 :: s => some (.bool false, s)
    | 45 :: s => readNumber true s
    | s => readNumber false s

def readItems : ℕ → List Json → Str → Option (List Json × Str)
  | 0, _, _ => none
  | fuel + 1, acc, s =>
    match readValue fuel s with
    | none => none
    | some (v, s) =>
      match skipWs s with
      | 93 :: s => some ((v :: acc).reverse, s)
      | 44 :: s => readItems fuel (v :: acc) (skipWs s)
      | _ => none

def readMembers : ℕ → List (Str × Json) → Str → Option (List (Str × Json) × Str)
  | 0, _, _ => none
  | fuel + 1, acc, s =>
    match s with
    | 34 :: s =>
      match readString (s.length + 1) [] s with
      | none => none
      | some (k, s) =>
        match skipWs s with
        | 58 :: s =>
          match readValue fuel (skipWs s) with
          | none => none
          | some (v, s) =>
            if acc.any (·.1 = k) then none
            else
              match skipWs s with
              | 125 :: s => some (((k, v) :: acc).reverse, s)
              | 44 :: s => readMembers fuel ((k, v) :: acc) (skipWs s)
              | _ => none
        | _ => none
    | _ => none

end

/-- The depths past which the reader and the writer raise `RecursionError`. -/
structure JsonDepths where
  read : ℕ
  write : ℕ

/-- `loads_strict`; `none` is its `StrictJsonError`. -/
def loadsStrict (depths : JsonDepths) (text : Str) : Option Json :=
  if text.head? = some 0xFEFF then none
  else
    match readValue (2 * text.length + 2) (skipWs text) with
    | some (v, s) => if skipWs s = [] ∧ v.depth ≤ depths.read then some v else none
    | none => none

/-! ## Writing -/

/-- The arguments of `json.dumps` in the source. -/
structure DumpStyle where
  ensureAscii : Bool
  itemSeparator : Str
  keySeparator : Str
  sortKeys : Bool

/-- `ensure_ascii=False, separators=(",", ":")`. -/
def compactUnicode : DumpStyle := ⟨false, lit ",", lit ":", false⟩

/-- `ensure_ascii=True, separators=(",", ":"), sort_keys=True`. -/
def compactSorted : DumpStyle := ⟨true, lit ",", lit ":", true⟩

/-- The defaults. -/
def plainAscii : DumpStyle := ⟨true, lit ", ", lit ": ", false⟩

def hexChar (n : ℕ) : ℕ := if n < 10 then 48 + n else 87 + n

/-- `\uXXXX`. -/
def escapeU (c : ℕ) : Str :=
  [92, 117, hexChar (c / 4096 % 16), hexChar (c / 256 % 16), hexChar (c / 16 % 16),
    hexChar (c % 16)]

/-- One character of a string literal. -/
def writeChar (ensureAscii : Bool) (c : ℕ) : Str :=
  if c = 34 ∨ c = 92 then [92, c]
  else if c = 8 then [92, 98]
  else if c = 12 then [92, 102]
  else if c = 10 then [92, 110]
  else if c = 13 then [92, 114]
  else if c = 9 then [92, 116]
  else if c < 32 then escapeU c
  else if ensureAscii ∧ 127 ≤ c then
    if c < 0x10000 then escapeU c
    else escapeU (0xD800 + (c - 0x10000) / 1024) ++ escapeU (0xDC00 + (c - 0x10000) % 1024)
  else [c]

def writeString (ensureAscii : Bool) (s : Str) : Str :=
  34 :: s.flatMap (writeChar ensureAscii) ++ [34]

/-- `sep.join(texts)`. -/
def join (sep : Str) : List Str → Str
  | [] => []
  | [t] => t
  | t :: ts => t ++ sep ++ join sep ts

mutual

def write (style : DumpStyle) : Json → Str
  | .null => lit "null"
  | .bool b => if b then lit "true" else lit "false"
  | .int n => intRepr n
  | .float x => floatRepr x
  | .str s => writeString style.ensureAscii s
  | .arr items => 91 :: join style.itemSeparator (writeItems style items) ++ [93]
  | .obj members =>
    let ms := writeMembers style members
    123 :: join style.itemSeparator
      ((if style.sortKeys then Json.sortMembers ms else ms).map fun (k, t) =>
        writeString style.ensureAscii k ++ style.keySeparator ++ t) ++ [125]

def writeItems (style : DumpStyle) : List Json → List Str
  | [] => []
  | v :: vs => write style v :: writeItems style vs

def writeMembers (style : DumpStyle) : List (Str × Json) → List (Str × Str)
  | [] => []
  | (k, v) :: ms => (k, write style v) :: writeMembers style ms

end

/-- `json.dumps`; `none` is its `RecursionError`. -/
def dumps (depths : JsonDepths) (style : DumpStyle) (v : Json) : Option Str :=
  if v.depth ≤ depths.write then some (write style v) else none

mutual

/-- No number is an infinity: what `allow_nan=False` accepts. -/
def Json.finite : Json → Bool
  | .float (.inf _) => false
  | .arr items => finiteItems items
  | .obj members => finiteMembers members
  | _ => true

def Json.finiteItems : List Json → Bool
  | [] => true
  | v :: vs => v.finite && finiteItems vs

def Json.finiteMembers : List (Str × Json) → Bool
  | [] => true
  | (_, v) :: ms => v.finite && finiteMembers ms

end

/-! ## What encodes -/

mutual

/-- No string holds a lone surrogate. -/
def Json.encodable : Json → Bool
  | .str s => (utf8 s).isSome
  | .arr items => encodableItems items
  | .obj members => encodableMembers members
  | _ => true

def Json.encodableItems : List Json → Bool
  | [] => true
  | v :: vs => encodable v && encodableItems vs

def Json.encodableMembers : List (Str × Json) → Bool
  | [] => true
  | (k, v) :: ms => (utf8 k).isSome && encodable v && encodableMembers ms

end

theorem escapeU_ascii (c : ℕ) : Ascii (escapeU c) := by
  have h : ∀ n, n < 16 → hexChar n < 128 := by decide
  refine .cons (by decide) (.cons (by decide) (.cons (h _ ?_) (.cons (h _ ?_)
    (.cons (h _ ?_) (.cons (h _ ?_) (by simp [Ascii]))))))
  all_goals exact Nat.mod_lt _ (by decide)

theorem utf8_writeChar (c : ℕ) : (utf8 (writeChar false c)).isSome ↔ (utf8Char c).isSome := by
  by_cases h : c < 128
  · refine iff_of_true ?_ (utf8Char_ascii h)
    have hs : Ascii (writeChar false c) := by
      simp only [writeChar, Bool.false_eq_true, false_and, if_false]
      repeat' split
      all_goals first
        | exact escapeU_ascii _
        | (intro d hd; simp only [List.mem_cons, List.not_mem_nil, or_false] at hd; omega)
    exact hs.utf8
  · have hs : writeChar false c = [c] := by
      unfold writeChar
      repeat rw [if_neg (by omega)]
      simp
    rw [hs, utf8_isSome_iff]; simp

/-- Brackets around a text do not matter to its encoding. -/
theorem utf8_bracket {a b : ℕ} (ha : a < 128) (hb : b < 128) (s : Str) :
    (utf8 (a :: s ++ [b])).isSome ↔ (utf8 s).isSome := by
  simp only [utf8_isSome_iff, List.cons_append, List.forall_mem_cons, List.forall_mem_append,
    utf8Char_ascii ha, utf8Char_ascii hb, List.not_mem_nil, false_implies, implies_true, and_true,
    true_and]

theorem utf8_writeString (s : Str) : (utf8 (writeString false s)).isSome ↔ (utf8 s).isSome := by
  have h : (utf8 (s.flatMap (writeChar false))).isSome ↔ (utf8 s).isSome := by
    rw [utf8_isSome_iff, utf8_isSome_iff]
    simp only [List.mem_flatMap, forall_exists_index, and_imp]
    refine ⟨fun h c hc => ?_, fun h d c hc hd => ?_⟩
    · exact (utf8_writeChar c).1 (utf8_isSome_iff.2 fun d hd => h d c hc hd)
    · exact utf8_isSome_iff.1 ((utf8_writeChar c).2 (h c hc)) d hd
  rw [writeString, utf8_bracket (by decide) (by decide), h]

theorem utf8_join {sep : Str} (hsep : Ascii sep) : ∀ ts : List Str,
    (utf8 (join sep ts)).isSome ↔ ∀ t ∈ ts, (utf8 t).isSome
  | [] => by simp [join]
  | [t] => by simp [join]
  | t :: u :: ts => by
    rw [join, utf8_append_isSome, utf8_append_isSome, utf8_join hsep (u :: ts),
      List.forall_mem_cons (l := u :: ts)]
    · simp [hsep.utf8]
    · simp

mutual

/-- **What `dumps` writes encodes iff every string does.** -/
theorem utf8_write : ∀ v : Json, (utf8 (write compactUnicode v)).isSome ↔ v.encodable
  | .null => by simp only [write, Json.encodable]; exact iff_of_true (by decide) trivial
  | .bool b => by
    simp only [write, Json.encodable]; cases b <;> exact iff_of_true (by decide) trivial
  | .int n => by
    simp only [write, Json.encodable]; exact iff_of_true (intRepr_ascii n).utf8 trivial
  | .float x => by
    simp only [write, Json.encodable]; exact iff_of_true (floatRepr_ascii x).utf8 trivial
  | .str s => by simp only [write, Json.encodable]; exact utf8_writeString s
  | .arr items => by
    rw [write, Json.encodable, utf8_bracket (by decide) (by decide), utf8_join (by decide)]
    exact utf8_writeItems items
  | .obj members => by
    rw [write, Json.encodable]
    dsimp only
    rw [utf8_bracket (by decide) (by decide), utf8_join (by decide)]
    simp only [compactUnicode, Bool.false_eq_true, if_false, List.forall_mem_map]
    exact utf8_writeMembers members

theorem utf8_writeItems : ∀ vs : List Json,
    (∀ t ∈ writeItems compactUnicode vs, (utf8 t).isSome) ↔ Json.encodableItems vs
  | [] => by simp [writeItems, Json.encodableItems]
  | v :: vs => by
    rw [writeItems, List.forall_mem_cons, utf8_write v, utf8_writeItems vs, Json.encodableItems,
      Bool.and_eq_true]

theorem utf8_writeMembers : ∀ ms : List (Str × Json),
    (∀ m ∈ writeMembers compactUnicode ms,
      (utf8 (writeString false m.1 ++ lit ":" ++ m.2)).isSome) ↔ Json.encodableMembers ms
  | [] => by simp [writeMembers, Json.encodableMembers]
  | (k, v) :: ms => by
    rw [writeMembers, List.forall_mem_cons, utf8_writeMembers ms, utf8_append_isSome,
      utf8_append_isSome, utf8_writeString, utf8_write v, Json.encodableMembers, Bool.and_eq_true,
      Bool.and_eq_true]
    simp [show (utf8 (lit ":")).isSome from by decide]

end

end Python
