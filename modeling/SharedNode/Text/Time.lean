import SharedNode.Text.Json

/-!
# Times

`time.RFC3339Nano` of a point in time, given in nanoseconds since 1970 in UTC. The date follows the
proleptic Gregorian calendar; the fraction has no trailing zeros and is left out when it is zero.
`parseTime` reads such a text, with any zone.
-/

namespace SharedNode.Text

/-- The year, month and day of a day counted from 1970-01-01. A year starts in March here, so that
the leap day is its last. -/
def civil (days : Nat) : Nat × Nat × Nat :=
  let z := days + 719468
  let era := z / 146097
  let dayOfEra := z % 146097
  let yearOfEra := (dayOfEra - dayOfEra / 1460 + dayOfEra / 36524 - dayOfEra / 146096) / 365
  let dayOfYear := dayOfEra - (365 * yearOfEra + yearOfEra / 4 - yearOfEra / 100)
  let march := (5 * dayOfYear + 2) / 153
  let day := dayOfYear - (153 * march + 2) / 5 + 1
  let month := if march < 10 then march + 3 else march - 9
  (yearOfEra + era * 400 + if month ≤ 2 then 1 else 0, month, day)

def formatFraction (nanos : Nat) : Bytes :=
  if nanos = 0 then []
  else 0x2e :: ((padded 9 nanos).reverse.dropWhile (· == 0x30)).reverse

/-- `time.Unix(0, nanos).UTC().Format(time.RFC3339Nano)`. -/
def formatTime (nanos : Nat) : Bytes :=
  let seconds := nanos / 10 ^ 9
  let (year, month, day) := civil (seconds / 86400)
  padded 4 year ++ lit "-" ++ padded 2 month ++ lit "-" ++ padded 2 day ++ lit "T" ++
    padded 2 (seconds / 3600 % 24) ++ lit ":" ++ padded 2 (seconds / 60 % 60) ++ lit ":" ++
    padded 2 (seconds % 60) ++ formatFraction (nanos % 10 ^ 9) ++ lit "Z"

example : formatTime 1709164799500000000 = lit "2024-02-28T23:59:59.5Z" := by decide +kernel

theorem isDigit_of_mem_padded {width n : Nat} {b : UInt8} (h : b ∈ padded width n) : isDigit b := by
  rcases List.mem_append.mp h with h | h
  · rw [List.eq_of_mem_replicate h]
    rfl
  · exact isDigit_of_mem_formatNat h

theorem ascii_padded {width n : Nat} {b : UInt8} (h : b ∈ padded width n) : b < 0x80 := by
  have hdigit := isDigit_of_mem_padded h
  simp only [isDigit, Bool.and_eq_true, decide_eq_true_eq] at hdigit
  exact Nat.lt_of_le_of_lt (UInt8.le_iff_toNat_le.mp hdigit.2) (by decide)

theorem valid_padded (width n : Nat) : ValidUtf8 (padded width n) :=
  valid_of_ascii fun _ => ascii_padded

/-! ## Reading -/

def readDigit : Bytes → Option (Nat × Bytes)
  | b :: s => if isDigit b then some (b.toNat - 0x30, s) else none
  | [] => none

/-- `getnum`: two digits, or one unless `fixed`. -/
def getnum (s : Bytes) (fixed : Bool) : Option (Nat × Bytes) := do
  let (high, s) ← readDigit s
  match readDigit s with
  | some (low, s) => some (10 * high + low, s)
  | none => if fixed then none else some (high, s)

/-- The text after a literal byte of the layout. -/
def skipByte (b : UInt8) : Bytes → Option Bytes
  | c :: s => if c = b then some s else none
  | [] => none

/-- A fraction of a second in nanoseconds, with a period or a comma; digits after the ninth do not
count. -/
def readFractionOfSecond : Bytes → Nat × Bytes
  | mark :: d :: s =>
    if (mark = 0x2e ∨ mark = 0x2c) ∧ isDigit d then
      let digits := (d :: s).takeWhile isDigit
      ((parseDigits ((digits ++ List.replicate 9 0x30).take 9)).getD 0, (d :: s).dropWhile isDigit)
    else (0, mark :: d :: s)
  | s => (0, s)

def readZone : Bytes → Option (Int × Bytes)
  | 0x5a :: s => some (0, s)
  | sign :: s => do
    let (hours, s) ← getnum s true
    let s ← skipByte 0x3a s
    let (minutes, s) ← getnum s true
    -- Offsets of 24 hours and of 60 minutes are let through.
    if 24 < hours ∨ 60 < minutes then none
    else if sign = 0x2b then some ((hours * 60 + minutes) * 60, s)
    else if sign = 0x2d then some (-((hours * 60 + minutes) * 60), s)
    else none
  | [] => none

def daysIn (month year : Nat) : Nat :=
  if month = 2 then if year % 4 = 0 ∧ (year % 100 ≠ 0 ∨ year % 400 = 0) then 29 else 28
  else if month = 4 ∨ month = 6 ∨ month = 9 ∨ month = 11 then 30
  else 31

/-- The days from 1970-01-01 to a date; the inverse of `civil`. -/
def daysFromCivil (year month day : Nat) : Int :=
  let y : Int := year - if month ≤ 2 then 1 else 0
  let era := y / 400
  let yearOfEra := y % 400
  let dayOfYear : Int := (153 * ((month + 9) % 12) + 2) / 5 + day - 1
  era * 146097 + (yearOfEra * 365 + yearOfEra / 4 - yearOfEra / 100 + dayOfYear) - 719468

/-- `time.Parse(time.RFC3339, value)` in nanoseconds since 1970. As in the source's library an hour
may have one digit, and a fraction is read although the layout has none. -/
def parseTime (value : Bytes) : Option Int := do
  let (century, s) ← getnum value true
  let (inCentury, s) ← getnum s true
  let s ← skipByte 0x2d s
  let (month, s) ← getnum s true
  let s ← skipByte 0x2d s
  let (day, s) ← getnum s true
  let s ← skipByte 0x54 s
  let (hour, s) ← getnum s false
  let s ← skipByte 0x3a s
  let (minute, s) ← getnum s true
  let s ← skipByte 0x3a s
  let (second, s) ← getnum s true
  let (nanos, s) := readFractionOfSecond s
  let (offset, s) ← readZone s
  let year := 100 * century + inCentury
  if month < 1 ∨ 12 < month ∨ day < 1 ∨ daysIn month year < day ∨ 24 ≤ hour ∨ 60 ≤ minute ∨
      60 ≤ second ∨ s ≠ [] then none
  else
    let seconds := daysFromCivil year month day * 86400 + hour * 3600 + minute * 60 + second
    some ((seconds - offset) * 10 ^ 9 + nanos)

example : parseTime (lit "2024-02-29T00:59:59.5+01:00") = some 1709164799500000000 := by
  decide +kernel

end SharedNode.Text
