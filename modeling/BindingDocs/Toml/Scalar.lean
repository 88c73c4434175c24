import BindingDocs.Text.Search
import BindingDocs.Toml.Value

/-!
# Reading single values

Strings in their four forms, numbers, truth values, dates and times.  Every reader returns what it
read and the rest of the text.

## Main definitions

* `newline?`, `skipBlank`, `skipComment`, `lineEnd?` — what stands between values.
* `shortString?`, `string?` — strings.
* `integer?`, `float?`, `moment?`, `boolean?` — the other scalars.
* `scalar?` — any of them.
-/

namespace BindingDocs.Toml

/-! ### Between values -/

/-- Blanks within a line. -/
def isBlank (c : Char) : Bool := c == ' ' || c == '\t'

/-- Characters that stand for themselves in comments and strings: all but control characters other
than the tab. -/
def isPlain (c : Char) : Bool := c == '\t' || (32 ≤ c.toNat && c.toNat != 127)

/-- The text after a line end. -/
def newline? : List Char → Option (List Char)
  | '\n' :: s => some s
  | '\r' :: '\n' :: s => some s
  | _ => none

/-- The text after the blanks at its beginning. -/
def skipBlank (s : List Char) : List Char := s.dropWhile isBlank

/-- The text after the comment at its beginning, if there is one. -/
def skipComment : List Char → List Char
  | '#' :: s => s.dropWhile isPlain
  | s => s

/-- The text after the rest of a line that holds only blanks and a comment. -/
def lineEnd? (s : List Char) : Option (List Char) :=
  match skipComment (skipBlank s) with
  | [] => some []
  | s => newline? s

/-- The text after blanks and line ends. -/
def skipLines : List Char → List Char
  | [] => []
  | '\r' :: '\n' :: s => skipLines s
  | c :: s => if isBlank c || c == '\n' then skipLines s else c :: s

/-- The text after blanks, line ends and comments.  A comment holds plain characters only. -/
def skipGap? : (inComment : Bool) → List Char → Option (List Char)
  | _, [] => some []
  | _, '\n' :: s => skipGap? false s
  | _, '\r' :: '\n' :: s => skipGap? false s
  | true, c :: s => if isPlain c then skipGap? true s else none
  | false, c :: s =>
    if isBlank c then skipGap? false s else if c = '#' then skipGap? true s else some (c :: s)

/-! ### Digits -/

/-- The value of a digit. -/
def digitValue (c : Char) : Nat :=
  if c.isDigit then c.toNat - '0'.toNat else c.toLower.toNat - 'a'.toNat + 10

/-- The digits of a number in a base up to sixteen. -/
def isDigitOf (base : Nat) (c : Char) : Bool :=
  (c.isDigit || ('a' ≤ c.toLower && c.toLower ≤ 'f')) && digitValue c < base

/-- The number that digits stand for. -/
def ofDigits (base : Nat) (ds : List Char) : Nat :=
  ds.foldl (fun n d => n * base + digitValue d) 0

/-- Further digits, each of which may have an underscore in front of it. -/
def moreDigits (base : Nat) : List Char → List Char × List Char
  | [] => ([], [])
  | '_' :: d :: s =>
    if isDigitOf base d then
      let (ds, rest) := moreDigits base s
      (d :: ds, rest)
    else ([], '_' :: d :: s)
  | d :: s =>
    if isDigitOf base d then
      let (ds, rest) := moreDigits base s
      (d :: ds, rest)
    else ([], d :: s)

/-- One or more digits, with underscores between them. -/
def digits? (base : Nat) : List Char → Option (List Char × List Char)
  | [] => none
  | d :: s =>
    if isDigitOf base d then
      let (ds, rest) := moreDigits base s
      some (d :: ds, rest)
    else none

/-- The number that exactly `n` digits stand for after the number `acc`. -/
def exactly? (base : Nat) : (n acc : Nat) → List Char → Option (Nat × List Char)
  | 0, acc, s => some (acc, s)
  | _ + 1, _, [] => none
  | n + 1, acc, d :: s =>
    if isDigitOf base d then exactly? base n (acc * base + digitValue d) s else none

/-! ### Strings -/

/-- The quote of strings without escapes. -/
def apostrophe : Char := Char.ofNat 39

/-- The character with a code, if there is one. -/
def charOf? (n : Nat) : Option Char := if Nat.isValidChar n then some (Char.ofNat n) else none

/-- The character that an escape stands for, and the length of the escape after its backslash. -/
def escape? : List Char → Option (Char × Nat)
  | 'b' :: _ => some (Char.ofNat 8, 1)
  | 't' :: _ => some ('\t', 1)
  | 'n' :: _ => some ('\n', 1)
  | 'f' :: _ => some (Char.ofNat 12, 1)
  | 'r' :: _ => some ('\r', 1)
  | '"' :: _ => some ('"', 1)
  | '\\' :: _ => some ('\\', 1)
  | 'u' :: s => (exactly? 16 4 0 s).bind fun (n, _) => (charOf? n).map (·, 5)
  | 'U' :: s => (exactly? 16 8 0 s).bind fun (n, _) => (charOf? n).map (·, 9)
  | _ => none

/-- A string of one line after its opening quote; `skip` characters belong to an escape already
read.  Only strings between double quotes have escapes. -/
def shortBody? (quote : Char) : (skip : Nat) → List Char → Option (List Char × List Char)
  | _, [] => none
  | skip + 1, _ :: s => shortBody? quote skip s
  | 0, c :: s =>
    let keep (d : Char) (skip : Nat) := (shortBody? quote skip s).map fun (t, rest) => (d :: t, rest)
    if c = quote then some ([], s)
    else if c = '\\' ∧ quote = '"' then (escape? s).bind fun (d, n) => keep d n
    else if isPlain c then keep c 0
    else none

/-- The length of a line end that a backslash hides, with the blanks and line ends around it. -/
def hiddenBreak? (s : List Char) : Option Nat :=
  (newline? (skipBlank s)).map fun rest => s.length - (skipLines rest).length

/-- A string of several lines after its opening quotes; `skip` characters belong to an escape
already read.  Up to two quotes in front of the closing ones belong to the string, and every line
end reads as a newline. -/
def longBody? (quote : Char) : (skip : Nat) → List Char → Option (List Char × List Char)
  | _, [] => none
  | skip + 1, _ :: s => longBody? quote skip s
  | 0, c :: s =>
    let keep (d : Char) (skip : Nat) := (longBody? quote skip s).map fun (t, rest) => (d :: t, rest)
    if c = quote then
      let more := (s.takeWhile (· == quote)).length
      if more < 2 then keep c 0
      else
        let own := min (more - 2) 2
        some (List.replicate own quote, s.drop (own + 2))
    else if c = '\\' ∧ quote = '"' then
      match hiddenBreak? s with
      | some n => longBody? quote n s
      | none => (escape? s).bind fun (d, n) => keep d n
    else if c = '\n' then keep c 0
    else if c = '\r' ∧ s.head? = some '\n' then keep '\n' 1
    else if isPlain c then keep c 0
    else none

/-- A string of one line. -/
def shortString? : List Char → Option (List Char × List Char)
  | [] => none
  | q :: s => if q = '"' ∨ q = apostrophe then shortBody? q 0 s else none

/-- A string.  A newline right after three opening quotes is left out. -/
def string? : List Char → Option (List Char × List Char)
  | [] => none
  | q :: s =>
    if q = '"' ∨ q = apostrophe then
      match Text.after? [q, q] s with
      | some body => longBody? q 0 ((newline? body).getD body)
      | none => shortBody? q 0 s
    else none

/-! ### Numbers -/

/-- The text after a sign, and whether that is a minus sign. -/
def sign : List Char → Bool × List Char
  | '+' :: s => (false, s)
  | '-' :: s => (true, s)
  | s => (false, s)

/-- The digits of a decimal number without superfluous zeros. -/
def decimal? : List Char → Option (List Char × List Char)
  | '0' :: s => some (['0'], s)
  | s => digits? 10 s

/-- A whole number that fits into 64 bits. -/
def integer? (s : List Char) : Option (Int × List Char) :=
  let number : Option (Int × List Char) := match s with
    | '0' :: 'x' :: s => (digits? 16 s).map fun (ds, rest) => ((ofDigits 16 ds : Int), rest)
    | '0' :: 'o' :: s => (digits? 8 s).map fun (ds, rest) => ((ofDigits 8 ds : Int), rest)
    | '0' :: 'b' :: s => (digits? 2 s).map fun (ds, rest) => ((ofDigits 2 ds : Int), rest)
    | s =>
      let (minus, s) := sign s
      (decimal? s).map fun (ds, rest) =>
        (if minus then -(ofDigits 10 ds : Int) else (ofDigits 10 ds : Int), rest)
  number.bind fun (n, rest) =>
    if Int64.minValue.toInt ≤ n ∧ n ≤ Int64.maxValue.toInt then some (n, rest) else none

/-- The rest after an exponent. -/
def exponent? : List Char → Option (List Char)
  | 'e' :: s | 'E' :: s => (digits? 10 (sign s).2).map Prod.snd
  | _ => none

/-- The rest after a fraction. -/
def fraction? : List Char → Option (List Char)
  | '.' :: s => (digits? 10 s).map Prod.snd
  | _ => none

/-- The rest after a number with a fraction or an exponent, or after an infinity or no number. -/
def floatEnd? (s : List Char) : Option (List Char) :=
  let s := (sign s).2
  Text.after? "inf".toList s <|> Text.after? "nan".toList s <|>
    (decimal? s).bind fun (_, s) =>
      exponent? s <|> (fraction? s).map fun s => (exponent? s).getD s

/-! ### Dates and times -/

/-- The number of `n` digits, if it lies in a range. -/
def inRange? (n lo hi : Nat) (s : List Char) : Option (Nat × List Char) :=
  (exactly? 10 n 0 s).bind fun (v, rest) => if lo ≤ v ∧ v ≤ hi then some (v, rest) else none

/-- The number of days of a month. -/
def daysOf (year month : Nat) : Nat :=
  if month = 2 then
    if year % 4 = 0 ∧ (year % 100 ≠ 0 ∨ year % 400 = 0) then 29 else 28
  else if month = 4 ∨ month = 6 ∨ month = 9 ∨ month = 11 then 30
  else 31

/-- The rest after a date. -/
def dateEnd? (s : List Char) : Option (List Char) := do
  let (year, s) ← inRange? 4 0 9999 s
  let (month, s) ← inRange? 2 1 12 (← Text.after? ['-'] s)
  let (_, s) ← inRange? 2 1 (daysOf year month) (← Text.after? ['-'] s)
  return s

/-- The rest after a time of day. -/
def timeEnd? (s : List Char) : Option (List Char) := do
  let (_, s) ← inRange? 2 0 23 s
  let (_, s) ← inRange? 2 0 59 (← Text.after? [':'] s)
  let (_, s) ← inRange? 2 0 60 (← Text.after? [':'] s)
  match s with
  | '.' :: d :: rest => return if d.isDigit then rest.dropWhile Char.isDigit else s
  | _ => return s

/-- The rest after a distance from universal time. -/
def offsetEnd? : List Char → Option (List Char)
  | 'Z' :: s | 'z' :: s => some s
  | c :: s =>
    if c = '+' ∨ c = '-' then do
      let (_, s) ← inRange? 2 0 23 s
      let (_, s) ← inRange? 2 0 59 (← Text.after? [':'] s)
      return s
    else none
  | [] => none

/-- The rest after the time of day that belongs to a date. -/
def dayTimeEnd? : List Char → Option (List Char)
  | 'T' :: s | 't' :: s | ' ' :: s => (timeEnd? s).map fun s => (offsetEnd? s).getD s
  | _ => none

/-- The rest after a date, a time or both. -/
def momentEnd? (s : List Char) : Option (List Char) :=
  ((dateEnd? s).map fun s => (dayTimeEnd? s).getD s) <|> timeEnd? s

/-! ### Any scalar -/

/-- A value as it is written, given the rest after it. -/
def written (make : List Char → Value) (s rest : List Char) : Value × List Char :=
  (make (s.take (s.length - rest.length)), rest)

/-- A value that holds no others. -/
def scalar? (s : List Char) : Option (Value × List Char) :=
  ((string? s).map fun (t, rest) => (.string t, rest)) <|>
  ((momentEnd? s).map (written .moment s)) <|>
  ((floatEnd? s).map (written .float s)) <|>
  ((integer? s).map fun (n, rest) => (.integer n, rest)) <|>
  ((Text.after? "true".toList s).map (.boolean true, ·)) <|>
  ((Text.after? "false".toList s).map (.boolean false, ·))

end BindingDocs.Toml
