/-
  `datetime.strptime` with `%Y-%m-%dT%H:%M:%S.%fZ`, of text in which every number has
  its full width.

  A digit is one of any script, as `\d` and `int` have it; what the expression of a
  number spells out has to be ASCII.

  * `strptime_reads`: the date it builds is that of the numbers.
-/
import MercuryRelay.Python.Text
import Mathlib.Tactic.Common

set_option autoImplicit false

namespace Python

/-! ## Digits -/

/-- The Unicode data of the interpreter: 14.0 in Python 3.11, 15.0 in 3.12, and 15.1 in 3.13 with the
    digits of 15.0. -/
inductive UnicodeVersion where
  | unicode14
  | unicode15
  deriving DecidableEq

/-- Where the decimal digits of a script begin, in Unicode 14.0. -/
def decimalZeros14 : List ℕ :=
  [0x30, 0x660, 0x6F0, 0x7C0, 0x966, 0x9E6, 0xA66, 0xAE6, 0xB66, 0xBE6, 0xC66, 0xCE6, 0xD66, 0xDE6, 0xE50,
    0xED0, 0xF20, 0x1040, 0x1090, 0x17E0, 0x1810, 0x1946, 0x19D0, 0x1A80, 0x1A90, 0x1B50, 0x1BB0, 0x1C40,
    0x1C50, 0xA620, 0xA8D0, 0xA900, 0xA9D0, 0xA9F0, 0xAA50, 0xABF0, 0xFF10, 0x104A0, 0x10D30, 0x11066,
    0x110F0, 0x11136, 0x111D0, 0x112F0, 0x11450, 0x114D0, 0x11650, 0x116C0, 0x11730, 0x118E0, 0x11950,
    0x11C50, 0x11D50, 0x11DA0, 0x16A60, 0x16AC0, 0x16B50, 0x1D7CE, 0x1D7D8, 0x1D7E2, 0x1D7EC, 0x1D7F6,
    0x1E140, 0x1E2F0, 0x1E950, 0x1FBF0]

/-- The digits of Kawi and of Nag Mundari are new in 15.0. -/
def decimalZeros : UnicodeVersion → List ℕ
  | .unicode14 => decimalZeros14
  | .unicode15 => decimalZeros14 ++ [0x11F50, 0x1E4F0]

/-- `unicodedata.decimal`. -/
def decimal (unicode : UnicodeVersion) (c : ℕ) : Option ℕ :=
  ((decimalZeros unicode).find? fun z => z ≤ c ∧ c < z + 10).map (c - ·)

/-- `int` of decimal digits. -/
def decimals (unicode : UnicodeVersion) (s : Str) : Option ℕ :=
  s.foldl (fun n c => n.bind fun n => (decimal unicode c).map (n * 10 + ·)) (some 0)

/-! ## Dates -/

def isLeap (year : ℕ) : Bool := year % 4 = 0 ∧ (year % 100 ≠ 0 ∨ year % 400 = 0)

def daysInMonth (year month : ℕ) : ℕ :=
  if month = 2 then (if isLeap year then 29 else 28)
  else if month ∈ [4, 6, 9, 11] then 30 else 31

/-- A `datetime`. -/
structure DateTime where
  year : ℕ
  month : ℕ
  day : ℕ
  hour : ℕ
  minute : ℕ
  second : ℕ
  microsecond : ℕ
  year_mem : 1 ≤ year ∧ year ≤ 9999
  month_mem : 1 ≤ month ∧ month ≤ 12
  day_mem : 1 ≤ day ∧ day ≤ daysInMonth year month
  hour_lt : hour < 24
  minute_lt : minute < 60
  second_lt : second < 60
  microsecond_lt : microsecond < 1000000

/-- The constructor; `none` is the `ValueError`. -/
def DateTime.make (year month day hour minute second microsecond : ℕ) : Option DateTime :=
  if h : (1 ≤ year ∧ year ≤ 9999) ∧ (1 ≤ month ∧ month ≤ 12) ∧ (1 ≤ day ∧ day ≤ daysInMonth year month) ∧
      hour < 24 ∧ minute < 60 ∧ second < 60 ∧ microsecond < 1000000 then
    some ⟨year, month, day, hour, minute, second, microsecond, h.1, h.2.1, h.2.2.1, h.2.2.2.1, h.2.2.2.2.1,
      h.2.2.2.2.2.1, h.2.2.2.2.2.2⟩
  else none

/-! ## Directives -/

/-- `[m-n]`, of ASCII digits. -/
def inRange (range : ℕ × ℕ) (c : ℕ) : Bool := 48 + range.1 ≤ c ∧ c ≤ 48 + range.2

/-- One way to write a number of two digits; the second may be any digit, `\d`. -/
abbrev Way := (ℕ × ℕ) × Option (ℕ × ℕ)

/-- The number that an expression of these ways reads. -/
def directive (unicode : UnicodeVersion) (ways : List Way) : Str → Option ℕ
  | [a, b] =>
    if ways.any fun way => inRange way.1 a && way.2.all (inRange · b) then decimals unicode [a, b]
    else none
  | _ => none

/-- `%m`: `1[0-2]|0[1-9]`. -/
def monthDirective : List Way := [((1, 1), some (0, 2)), ((0, 0), some (1, 9))]

/-- `%d`: `3[0-1]|[1-2]\d|0[1-9]`. -/
def dayDirective : List Way := [((3, 3), some (0, 1)), ((1, 2), none), ((0, 0), some (1, 9))]

/-- `%H`: `2[0-3]|[0-1]\d`. -/
def hourDirective : List Way := [((2, 2), some (0, 3)), ((0, 1), none)]

/-- `%M`: `[0-5]\d`. -/
def minuteDirective : List Way := [((0, 5), none)]

/-- `%S`: `6[0-1]|[0-5]\d`. -/
def secondDirective : List Way := [((6, 6), some (0, 1)), ((0, 5), none)]

/-- The number of `%f`: `[0-9]{3}`. -/
def fraction (unicode : UnicodeVersion) (s : Str) : Option ℕ :=
  if s.all (inRange (0, 9)) then decimals unicode s else none

/-! ## Timestamps -/

/-- The parts of `YYYY-MM-DDTHH:MM:SS.fffZ`. -/
def yearText (s : Str) : Str := s.take 4
def monthText (s : Str) : Str := (s.drop 5).take 2
def dayText (s : Str) : Str := (s.drop 8).take 2
def hourText (s : Str) : Str := (s.drop 11).take 2
def minuteText (s : Str) : Str := (s.drop 14).take 2
def secondText (s : Str) : Str := (s.drop 17).take 2
def fractionText (s : Str) : Str := (s.drop 20).take 3

/-- `strptime(s, "%Y-%m-%dT%H:%M:%S.%fZ")` of a text whose numbers have these places;
    `none` is the `ValueError`. -/
def strptime (unicode : UnicodeVersion) (s : Str) : Option DateTime :=
  (decimals unicode (yearText s)).bind fun year =>
  (directive unicode monthDirective (monthText s)).bind fun month =>
  (directive unicode dayDirective (dayText s)).bind fun day =>
  (directive unicode hourDirective (hourText s)).bind fun hour =>
  (directive unicode minuteDirective (minuteText s)).bind fun minute =>
  (directive unicode secondDirective (secondText s)).bind fun second =>
  (fraction unicode (fractionText s)).bind fun milliseconds =>
  DateTime.make year month day hour minute second (milliseconds * 1000)

/-- The numbers of a text are those of a date. -/
structure Reads (unicode : UnicodeVersion) (s : Str) (date : DateTime) : Prop where
  year : decimals unicode (yearText s) = some date.year
  month : decimals unicode (monthText s) = some date.month
  day : decimals unicode (dayText s) = some date.day
  hour : decimals unicode (hourText s) = some date.hour
  minute : decimals unicode (minuteText s) = some date.minute
  second : decimals unicode (secondText s) = some date.second
  fraction : (decimals unicode (fractionText s)).map (· * 1000) = some date.microsecond

variable {unicode : UnicodeVersion}

theorem directive_some {ways : List Way} {s : Str} {n : ℕ} (h : directive unicode ways s = some n) :
    decimals unicode s = some n := by
  unfold directive at h
  split at h
  · split at h
    · exact h
    · cases h
  · cases h

theorem fraction_some {s : Str} {n : ℕ} (h : fraction unicode s = some n) : decimals unicode s = some n := by
  unfold fraction at h
  split at h
  · exact h
  · cases h

theorem strptime_reads {s : Str} {date : DateTime} (h : strptime unicode s = some date) : Reads unicode s date := by
  obtain ⟨year, hyear, h⟩ := Option.bind_eq_some_iff.1 h
  obtain ⟨month, hmonth, h⟩ := Option.bind_eq_some_iff.1 h
  obtain ⟨day, hday, h⟩ := Option.bind_eq_some_iff.1 h
  obtain ⟨hour, hhour, h⟩ := Option.bind_eq_some_iff.1 h
  obtain ⟨minute, hminute, h⟩ := Option.bind_eq_some_iff.1 h
  obtain ⟨second, hsecond, h⟩ := Option.bind_eq_some_iff.1 h
  obtain ⟨milliseconds, hfraction, h⟩ := Option.bind_eq_some_iff.1 h
  unfold DateTime.make at h
  split at h
  · cases h
    constructor
    · exact hyear
    · exact directive_some hmonth
    · exact directive_some hday
    · exact directive_some hhour
    · exact directive_some hminute
    · exact directive_some hsecond
    · rw [fraction_some hfraction]
      rfl
  · cases h

end Python
