import BindingDocs.Text.Search
import BindingDocs.Text.Utf8

/-!
# References in the text of a page

Strict markup knows five named entities and the numeric references to valid characters.  Every
ampersand must begin such a reference.

## Main definitions

* `NumberFault`, `TextFault` — what can be wrong with a reference.
* `checkNumber` — the number of a numeric reference.
* `checkText` — the first faulty reference of a text.
-/

namespace BindingDocs.Markup

open Text

/-- What can be wrong with the number of a reference. -/
inductive NumberFault where
  | empty
  | invalidDigit
  | tooLarge
  | sign
  | zero
  /-- A number that no character has. -/
  | notACharacter (code : Nat)
deriving DecidableEq, Repr

/-- The text of the fault. -/
def NumberFault.message : NumberFault → String
  | .empty => "cannot parse integer from empty string"
  | .invalidDigit => "invalid digit found in string"
  | .tooLarge => "number too large to fit in target type"
  | .sign => "unexpected number sign"
  | .zero => "0x0 character is not permitted in XML"
  | .notACharacter code => "`" ++ toString code ++ "` is not a valid codepoint"

/-- What can be wrong with the references of a text.  Positions count the bytes of the text. -/
inductive TextFault where
  /-- A name that is not known, between the ampersand and the semicolon. -/
  | unknownEntity (first last : Nat) (name : String)
  /-- An ampersand without a semicolon of its own, in a text of the given size. -/
  | unterminated (first size : Nat)
  /-- A faulty numeric reference. -/
  | number (fault : NumberFault)
deriving DecidableEq, Repr

/-- The text of the fault. -/
def TextFault.message : TextFault → String
  | .unknownEntity first last name =>
    "at " ++ toString first ++ ".." ++ toString last ++ ": unrecognized entity `" ++ name ++ "`"
  | .unterminated first size =>
    "Error while escaping character at range " ++ toString first ++ ".." ++ toString size ++
      ": Cannot find ';' after '&'"
  | .number fault => "invalid character reference: " ++ fault.message

/-- The value of a digit in a base up to sixteen. -/
def digit? (base : Nat) (c : Char) : Option Nat :=
  let v :=
    if '0' ≤ c ∧ c ≤ '9' then some (c.toNat - '0'.toNat)
    else if 'a' ≤ c ∧ c ≤ 'f' then some (c.toNat - 'a'.toNat + 10)
    else if 'A' ≤ c ∧ c ≤ 'F' then some (c.toNat - 'A'.toNat + 10)
    else none
  v.bind fun n => if n < base then some n else none

/-- The number that digits stand for after the number `acc`; it must stay below 2 ^ 32. -/
def digits (base : Nat) : (acc : Nat) → List Char → Except NumberFault Nat
  | acc, [] => .ok acc
  | acc, c :: s =>
    match digit? base c with
    | none => .error .invalidDigit
    | some n =>
      let acc := acc * base + n
      if acc < UInt32.size then digits base acc s else .error .tooLarge

/-- The number that a nonempty text without sign stands for. -/
def number (base : Nat) : List Char → Except NumberFault Nat
  | [] => .error .empty
  | c :: s => if c = '+' ∨ c = '-' then .error .sign else digits base 0 (c :: s)

/-- The fault of the text after the number sign of a reference, if it has one. -/
def checkNumber (s : List Char) : Option NumberFault :=
  let code := match s with
    | 'x' :: hex => number 16 hex
    | _ => number 10 s
  match code with
  | .error fault => some fault
  | .ok 0 => some .zero
  | .ok n => if Nat.isValidChar n then none else some (.notACharacter n)

/-- The named entities of strict markup. -/
def entities : List String := ["amp", "lt", "gt", "quot", "apos"]

/-- The fault of the reference written between the positions `first` and `last`, if it has one. -/
def checkReference (first last : Nat) (name : List Char) : Option TextFault :=
  match name with
  | '#' :: rest => (checkNumber rest).map .number
  | _ =>
    if entities.contains (String.ofList name) then none
    else some (.unknownEntity first last (String.ofList name))

/-- The first fault of a text of the given size, read from the position `pos` on; `open?` is the
position of an ampersand and the reversal of what follows it so far. -/
def checkFrom (size : Nat) :
    (pos : Nat) → (open? : Option (Nat × List Char)) → List Char → Option TextFault
  | _, none, [] => none
  | _, some (first, _), [] => some (.unterminated first size)
  | pos, none, c :: s =>
    if c = '&' then checkFrom size (pos + 1) (some (pos, [])) s
    else checkFrom size (pos + charSize c) none s
  | pos, some (first, name), c :: s =>
    if c = ';' then
      match checkReference (first + 1) pos name.reverse with
      | some fault => some fault
      | none => checkFrom size (pos + 1) none s
    else if c = '&' then some (.unterminated first size)
    else checkFrom size (pos + charSize c) (some (first, c :: name)) s

/-- The first fault of a text, if it has one. -/
def checkText (s : List Char) : Option TextFault := checkFrom (Text.size s) 0 none s

end BindingDocs.Markup
