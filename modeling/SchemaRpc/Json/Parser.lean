import SchemaRpc.Json

namespace SchemaRpc.Json

inductive Token where
  | beginArray
  | endArray
  | beginObject
  | endObject
  | colon
  | comma
  | atom (v : Json)
  /-- A well-formed string with half of a surrogate pair, which is no character. -/
  | brokenString
  /-- A well-formed number larger than all finite doubles. -/
  | hugeNumber

namespace Token

def hexDigit? (c : Char) : Option Nat :=
  if '0' ≤ c ∧ c ≤ '9' then some (c.toNat - 48)
  else if 'a' ≤ c ∧ c ≤ 'f' then some (c.toNat - 87)
  else if 'A' ≤ c ∧ c ≤ 'F' then some (c.toNat - 55)
  else none

def unit? (text : List Char) : Option (Nat × List Char) :=
  match text.take 4 |>.mapM hexDigit? with
  | some [a, b, c, d] => some (((a * 16 + b) * 16 + c) * 16 + d, text.drop 4)
  | _ => none

def isHigh (unit : Nat) : Bool :=
  decide (0xD800 ≤ unit) && decide (unit < 0xDC00)

def isLow (unit : Nat) : Bool :=
  decide (0xDC00 ≤ unit) && decide (unit < 0xE000)

def lowUnit? : List Char → Option (Nat × List Char)
  | '\\' :: 'u' :: text => (unit? text).filter fun found => isLow found.1
  | _ => none

/-- The character behind the escape of a unit. A high unit and the low one after it are one
character; without the other, neither is any. -/
def unicode? (text : List Char) : Option (Option Char × List Char) := do
  let (first, rest) ← unit? text
  if isLow first then some (none, rest)
  else if isHigh first then
    match lowUnit? rest with
    | some (second, rest) =>
      some (Char.ofNat (0x10000 + (first - 0xD800) * 0x400 + (second - 0xDC00)), rest)
    | none => some (none, rest)
  else some (Char.ofNat first, rest)

def escaped? : List Char → Option (Option Char × List Char)
  | '"' :: rest => some ('"', rest)
  | '\\' :: rest => some ('\\', rest)
  | '/' :: rest => some ('/', rest)
  | 'b' :: rest => some ('\x08', rest)
  | 'f' :: rest => some ('\x0c', rest)
  | 'n' :: rest => some ('\n', rest)
  | 'r' :: rest => some ('\r', rest)
  | 't' :: rest => some ('\t', rest)
  | 'u' :: rest => unicode? rest
  | _ => none

theorem length_of_unit? {text rest : List Char} {n : Nat} (h : unit? text = some (n, rest)) :
    rest.length < text.length := by
  cases text with
  | nil => cases h
  | cons c tail =>
      rw [unit?] at h
      split at h
      · cases h
        simp only [List.length_drop, List.length_cons]
        omega
      · cases h

theorem length_of_lowUnit? {text rest : List Char} {n : Nat}
    (h : lowUnit? text = some (n, rest)) : rest.length < text.length := by
  unfold lowUnit? at h
  split at h
  · have hu := length_of_unit? (Option.filter_eq_some_iff.1 h).1
    simp only [List.length_cons]
    omega
  · cases h

theorem length_of_unicode? {text rest : List Char} {c : Option Char}
    (h : unicode? text = some (c, rest)) : rest.length < text.length := by
  simp only [unicode?, Option.bind_eq_bind, Option.bind_eq_some_iff, Prod.exists] at h
  obtain ⟨first, left, hu, h⟩ := h
  have hl := length_of_unit? hu
  split at h
  · cases h; exact hl
  · split at h
    · split at h
      · next hs =>
        cases h
        exact Nat.lt_trans (length_of_lowUnit? hs) hl
      · cases h; exact hl
    · cases h; exact hl

theorem length_of_escaped? {text rest : List Char} {c : Option Char}
    (h : escaped? text = some (c, rest)) : rest.length < text.length := by
  unfold escaped? at h
  split at h
  case h_9 => exact Nat.lt_trans (length_of_unicode? h) (Nat.lt_succ_self _)
  case h_10 => cases h
  all_goals cases h; exact Nat.lt_succ_self _

def string? (read : Option (List Char)) (text : List Char) : Option (Token × List Char) :=
  match text with
  | [] => none
  | c :: rest =>
    if c = '"' then
      match read with
      | some read => some (.atom (.string (String.ofList read.reverse)), rest)
      | none => some (.brokenString, rest)
    else if c = '\\' then
      match _h : escaped? rest with
      | some (e, left) => string? (e.bind fun c => read.map (c :: ·)) left
      | none => none
    else if c.toNat < 0x20 then none
    else string? (read.map (c :: ·)) rest
termination_by text.length
decreasing_by
  · exact Nat.lt_trans (length_of_escaped? _h) (Nat.lt_succ_self _)
  · exact Nat.lt_succ_self _

theorem length_of_string? {read : Option (List Char)} {text rest : List Char} {t : Token}
    (h : string? read text = some (t, rest)) : rest.length < text.length := by
  fun_induction string? read text with
  | case1 => cases h
  | case2 => cases h; exact Nat.lt_succ_self _
  | case3 => cases h; exact Nat.lt_succ_self _
  | case4 _ _ _ _ he _ ih =>
      exact Nat.lt_trans (ih h) (Nat.lt_trans (length_of_escaped? he) (Nat.lt_succ_self _))
  | case5 => cases h
  | case6 => cases h
  | case7 _ _ _ _ _ _ ih => exact Nat.lt_trans (ih h) (Nat.lt_succ_self _)

structure Numeral where
  negative : Bool
  whole : List Char
  places : Option (List Char)
  exponent : Option (Bool × List Char)

/-- The value: an integer if there is neither point nor exponent and 64 bits hold it, else a
finite double. -/
def Numeral.value? (n : Numeral) : Option Json :=
  let whole : Int := Decimal.ofDigits n.whole
  let signed := if n.negative then -whole else whole
  let places := n.places.getD []
  let exponent : Int :=
    match n.exponent with
    | some (negative, digits) =>
      if negative then -(Decimal.ofDigits digits : Int) else Decimal.ofDigits digits
    | none => 0
  if n.places.isNone ∧ n.exponent.isNone ∧ -9223372036854775808 ≤ signed ∧
      signed < 18446744073709551616 ∧ ¬(n.negative ∧ whole = 0) then
    some (.int signed)
  else
    let bits := FloatFormat.binary64.ofDecimal n.negative (Decimal.ofDigits (n.whole ++ places))
      (exponent - places.length)
    match FloatFormat.binary64.magnitude bits with
    | .finite _ _ => some (.double (UInt64.ofNat bits))
    | _ => none

def Numeral.ofChars? (text : List Char) : Option Numeral := do
  let (negative, text) :=
    match text with
    | '-' :: rest => (true, rest)
    | text => (false, text)
  let whole := text.takeWhile Decimal.isDigit
  let text := text.dropWhile Decimal.isDigit
  let (places, text) :=
    match text with
    | '.' :: rest => (some (rest.takeWhile Decimal.isDigit), rest.dropWhile Decimal.isDigit)
    | text => (none, text)
  let (exponent, text) :=
    match text with
    | 'e' :: rest | 'E' :: rest =>
      let (negative, rest) := Decimal.splitSign rest
      (some (negative, rest.takeWhile Decimal.isDigit), rest.dropWhile Decimal.isDigit)
    | text => (none, text)
  let leadingZero := whole.head? = some '0' ∧ whole.length ≠ 1
  let lacksDigits := whole = [] ∨ places = some [] ∨ exponent.any fun e => e.2.isEmpty
  if leadingZero ∨ lacksDigits ∨ text ≠ [] then none
  else some ⟨negative, whole, places, exponent⟩

def isNumeric (c : Char) : Bool :=
  Decimal.isDigit c || c == '-' || c == '+' || c == '.' || c == 'e' || c == 'E'

def isBlank (c : Char) : Bool :=
  c == ' ' || c == '\t' || c == '\n' || c == '\r'

def words : List (String × Json) :=
  [("null", .null), ("true", .bool true), ("false", .bool false)]

def mark? : Char → Option Token
  | '[' => some .beginArray
  | ']' => some .endArray
  | '\x7b' => some .beginObject
  | '\x7d' => some .endObject
  | ':' => some .colon
  | ',' => some .comma
  | _ => none

def plain? (run : List Char) : Option Token :=
  match words.lookup (String.ofList run) with
  | some v => some (.atom v)
  | none => (Numeral.ofChars? run).map fun n => n.value?.elim hugeNumber atom

def isPlain (c : Char) : Bool :=
  isNumeric c || c.isAlpha

def scan (text : List Char) : Option (List Token) :=
  match text with
  | [] => some []
  | c :: rest =>
    if isBlank c then scan rest
    else if c = '"' then
      match _h : string? (some []) rest with
      | some (t, left) => (scan left).map (t :: ·)
      | none => none
    else if isPlain c then
      match plain? (c :: rest.takeWhile isPlain) with
      | some t => (scan (rest.dropWhile isPlain)).map (t :: ·)
      | none => none
    else
      match mark? c with
      | some t => (scan rest).map (t :: ·)
      | none => none
termination_by text.length
decreasing_by
  · exact Nat.lt_succ_self _
  · exact Nat.lt_trans (length_of_string? _h) (Nat.lt_succ_self _)
  · exact Nat.lt_succ_of_le (List.dropWhile_sublist _).length_le
  · exact Nat.lt_succ_self _

end Token

inductive Frame where
  | array (items : List Json)
  | object (members : List (String × Json))
  | member (members : List (String × Json)) (key : String)

inductive Expect where
  | value
  | firstItem
  | key
  | firstKey
  | colon (key : String)
  | separator

inductive State where
  | reading (e : Expect) (stack : List Frame)
  | done (v : Json)

inductive Extent where
  | all
  /-- The outermost value, its keys, and what they stand for if it is readable. The rest has only
  to be well-formed, and it may be nested to any depth. -/
  | outermost
deriving DecidableEq, Repr

namespace State

def nestingLimit : Nat := 127

def complete (v : Json) : List Frame → State
  | [] => .done v
  | .array items :: outer => .reading .separator (.array (v :: items) :: outer)
  | .object members :: outer => .reading .separator (.object members :: outer)
  | .member members key :: outer => .reading .separator (.object ((key, v) :: members) :: outer)

def enter (extent : Extent) (e : Expect) (f : Frame) (stack : List Frame) : Option State :=
  if extent = .outermost ∨ stack.length < nestingLimit then some (.reading e (f :: stack))
  else none

def takeValue (extent : Extent) (t : Token) (stack : List Frame) : Option State :=
  match t with
  | .atom v => some (complete v stack)
  | .brokenString | .hugeNumber =>
    if extent = .outermost then some (complete .null stack) else none
  | .beginArray => enter extent .firstItem (.array []) stack
  | .beginObject => enter extent .firstKey (.object []) stack
  | _ => none

def takeKey (extent : Extent) (t : Token) (stack : List Frame) : Option State :=
  match t with
  | .atom (.string key) => some (.reading (.colon key) stack)
  | .brokenString =>
    if extent = .outermost ∧ 1 < stack.length then some (.reading (.colon "") stack) else none
  | _ => none

def takeEnd (t : Token) (stack : List Frame) : Option State :=
  match t, stack with
  | .endArray, .array items :: outer => some (complete (.array items.reverse) outer)
  | .endObject, .object members :: outer => some (complete (.object members.reverse) outer)
  | _, _ => none

def step (extent : Extent) : State → Token → Option State
  | .done _, _ => none
  | .reading .value stack, t => takeValue extent t stack
  | .reading .firstItem stack, t => takeEnd t stack <|> takeValue extent t stack
  | .reading .key stack, t => takeKey extent t stack
  | .reading .firstKey stack, t => takeEnd t stack <|> takeKey extent t stack
  | .reading (.colon key) stack, t =>
    match t, stack with
    | .colon, .object members :: outer => some (.reading .value (.member members key :: outer))
    | _, _ => none
  | .reading .separator stack, t =>
    match t, stack with
    | .comma, .array items :: outer => some (.reading .value (.array items :: outer))
    | .comma, .object members :: outer => some (.reading .key (.object members :: outer))
    | t, stack => takeEnd t stack

end State

def parseAll? (extent : Extent) (text : String) : Option Json := do
  let tokens ← Token.scan text.toList
  match ← tokens.foldlM (State.step extent) (.reading .value []) with
  | .done v => some v
  | .reading _ _ => none

mutual

def merged : Json → Json
  | array items => .array (mergedItems items)
  | object members => .object (distinct (mergedMembers members))
  | v => v

def mergedItems : List Json → List Json
  | [] => []
  | v :: rest => v.merged :: mergedItems rest

def mergedMembers : List (String × Json) → List (String × Json)
  | [] => []
  | (k, v) :: rest => (k, v.merged) :: mergedMembers rest

end

/-- The value of a text. A repeated key stays at its first place and has its last value. -/
def parse? (text : String) : Option Json :=
  (parseAll? .all text).map merged

end SchemaRpc.Json
