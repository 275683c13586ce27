namespace SchemaRpc

/-- A point in time: whole seconds since the start of 1970, and nanoseconds since that second. A
leap second belongs to the second before it, whose nanoseconds then go on to the second billion. -/
structure Instant where
  seconds : Int
  nanoseconds : Nat
  nanoseconds_lt : nanoseconds < 2000000000
deriving DecidableEq, Repr

structure Date where
  year : Int
  month : Nat
  day : Nat
deriving DecidableEq, Repr

namespace Date

def isLeap (year : Int) : Bool :=
  year % 4 == 0 && (year % 100 != 0 || year % 400 == 0)

def daysInMonth (year : Int) (month : Nat) : Nat :=
  if month = 2 then (if isLeap year then 29 else 28)
  else if month = 4 ∨ month = 6 ∨ month = 9 ∨ month = 11 then 30
  else 31

/-- Days since the start of 1970. Years are counted from March, so that a leap day is the last
day of its year. -/
def toDays (d : Date) : Int :=
  let year := if d.month ≤ 2 then d.year - 1 else d.year
  let month : Int := if d.month ≤ 2 then (d.month : Int) + 9 else (d.month : Int) - 3
  let era := year / 400
  let yearOfEra := year % 400
  let dayOfYear := (153 * month + 2) / 5 + d.day - 1
  era * 146097 + yearOfEra * 365 + yearOfEra / 4 - yearOfEra / 100 + dayOfYear - 719468

def ofDays (days : Int) : Date :=
  let shifted := days + 719468
  let era := shifted / 146097
  let dayOfEra := shifted % 146097
  let yearOfEra := (dayOfEra - dayOfEra / 1460 + dayOfEra / 36524 - dayOfEra / 146096) / 365
  let dayOfYear := dayOfEra - (365 * yearOfEra + yearOfEra / 4 - yearOfEra / 100)
  let month := (5 * dayOfYear + 2) / 153
  let day := dayOfYear - (153 * month + 2) / 5 + 1
  let year := yearOfEra + era * 400
  if month < 10 then ⟨year, (month + 3).toNat, day.toNat⟩
  else ⟨year + 1, (month - 9).toNat, day.toNat⟩

end Date

namespace Instant

def ofMillis (n : Int) : Instant :=
  ⟨n / 1000, (n % 1000).toNat * 1000000, by omega⟩

instance : Inhabited Instant := ⟨ofMillis 0⟩

def ofParts (seconds : Int) (nanos : Nat) : Instant :=
  if h : nanos < 2000000000 then ⟨seconds, nanos, h⟩
  else ⟨seconds + nanos / 1000000000, nanos % 1000000000, by omega⟩

/-- The whole millisecond at or before an instant. A leap second counts as one second more. -/
def millis (t : Instant) : Int :=
  t.seconds * 1000 + (t.nanoseconds / 1000000 : Nat)

def lastMillis : Int := 8210266876799999

/-- The instant without what is below one millisecond. A leap second becomes the second after it,
unless that one is past the calendar's end. -/
def truncated (t : Instant) : Instant :=
  if t.millis ≤ lastMillis then ofMillis t.millis else t

@[simp] theorem millis_ofMillis (n : Int) : (ofMillis n).millis = n := by
  simp only [millis, ofMillis]
  omega

@[simp] theorem truncated_truncated (t : Instant) : t.truncated.truncated = t.truncated := by
  by_cases h : t.millis ≤ lastMillis <;> simp [truncated, h]

def pad (width n : Nat) : String :=
  let digits := toString n
  String.ofList (List.replicate (width - digits.length) '0') ++ digits

def yearText (year : Int) : String :=
  if 0 ≤ year ∧ year ≤ 9999 then pad 4 year.toNat
  else (if year < 0 then "-" else "+") ++ pad 4 year.natAbs

def isLeapSecond (t : Instant) : Bool :=
  decide (1000000000 ≤ t.nanoseconds)

def secondText (t : Instant) : String :=
  let date := Date.ofDays (t.seconds / 86400)
  let second := (t.seconds % 86400).toNat
  yearText date.year ++ "-" ++ pad 2 date.month ++ "-" ++ pad 2 date.day ++ "T" ++
    pad 2 (second / 3600) ++ ":" ++ pad 2 (second / 60 % 60) ++ ":" ++
    pad 2 (second % 60 + t.isLeapSecond.toNat)

def fraction (t : Instant) : Nat :=
  t.nanoseconds % 1000000000

def text (t : Instant) : String :=
  t.secondText ++ "." ++ pad 3 (t.fraction / 1000000) ++ "Z"

def display (t : Instant) : String :=
  let nanos := t.fraction
  let places :=
    if nanos = 0 then ""
    else if nanos % 1000000 = 0 then "." ++ pad 3 (nanos / 1000000)
    else if nanos % 1000 = 0 then "." ++ pad 6 (nanos / 1000)
    else "." ++ pad 9 nanos
  t.secondText ++ places ++ "Z"

end Instant

abbrev Scan := StateT (List Char) Option

namespace Scan

def char (accept : Char → Bool) : Scan Char := fun text =>
  match text with
  | c :: rest => if accept c then some (c, rest) else none
  | [] => none

def digit : Scan Nat := do
  let c ← char fun c => decide ('0' ≤ c) && decide (c ≤ '9')
  return c.toNat - 48

def number (width : Nat) : Scan Nat :=
  (List.replicate width ()).foldlM (fun n () => do return 10 * n + (← digit)) 0

def numberIn (width low high : Nat) : Scan Nat := do
  let n ← number width
  if low ≤ n ∧ n ≤ high then return n else failure

def literal (c : Char) : Scan Unit := do
  let _ ← char (· == c)

def digits : Scan (List Nat) := fun text =>
  let isDigit (c : Char) : Bool := decide ('0' ≤ c) && decide (c ≤ '9')
  some ((text.takeWhile isDigit).map fun c => c.toNat - 48, text.dropWhile isDigit)

/-- A fraction in nanoseconds, if there is one; places past the ninth do not count. -/
def nanoseconds : Scan Nat := fun text =>
  match text with
  | '.' :: rest => do
    let (places, rest) ← digits rest
    if places.isEmpty then none
    else some (((places ++ List.replicate 9 0).take 9).foldl (fun n d => 10 * n + d) 0, rest)
  | _ => some (0, text)

def offset : Scan Int := do
  let c ← char fun c => c == 'Z' || c == 'z' || c == '+' || c == '-' || c == '\u2212'
  if c = 'Z' ∨ c = 'z' then return 0
  let hours ← numberIn 2 0 23
  literal ':'
  let minutes ← numberIn 2 0 59
  let total : Int := hours * 60 + minutes
  return if c = '+' then total else -total

end Scan

namespace Instant

def scan : Scan Instant := do
  let year ← Scan.number 4
  Scan.literal '-'
  let month ← Scan.numberIn 2 1 12
  Scan.literal '-'
  let day ← Scan.numberIn 2 1 (Date.daysInMonth year month)
  let _ ← Scan.char fun c => c == 'T' || c == 't' || c == ' '
  let hour ← Scan.numberIn 2 0 23
  Scan.literal ':'
  let minute ← Scan.numberIn 2 0 59
  Scan.literal ':'
  let second ← Scan.numberIn 2 0 60
  let nanos ← Scan.nanoseconds
  let offset ← Scan.offset
  let days := Date.toDays ⟨year, month, day⟩
  let start := days * 86400 + hour * 3600 + (minute - offset) * 60
  return if second = 60 then ofParts (start + 59) (1000000000 + nanos)
    else ofParts (start + second) nanos

def parse? (text : String) : Option Instant :=
  match scan text.toList with
  | some (t, []) => some t
  | _ => none

end Instant

end SchemaRpc
