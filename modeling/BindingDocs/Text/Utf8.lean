/-!
# Bytes and characters

Files hold bytes.  A text is written in UTF-8 and read back strictly, or leniently: then each
maximal piece of an ill-formed sequence reads as one replacement character.

## Main definitions

* `bytesOf` — the UTF-8 form of a text.
* `decode?` — the text of well-formed bytes.
* `decodeLossy` — a text for any bytes.
* `size` — the number of bytes of a text.
-/

namespace BindingDocs.Text

/-- The bytes of a text in UTF-8. -/
def bytesOf (s : String) : List UInt8 := s.toUTF8.toList

/-- The number of bytes of a character. -/
def charSize (c : Char) : Nat :=
  if c.toNat < 0x80 then 1 else if c.toNat < 0x800 then 2 else if c.toNat < 0x10000 then 3 else 4

/-- The number of bytes of a text. -/
def size : List Char → Nat
  | [] => 0
  | c :: s => charSize c + size s

/-- How many further bytes a leading byte asks for, and the range of the first of them. -/
def leading? (b : Nat) : Option (Nat × Nat × Nat) :=
  if b < 0xC2 then none
  else if b < 0xE0 then some (1, 0x80, 0xBF)
  else if b = 0xE0 then some (2, 0xA0, 0xBF)
  else if b = 0xED then some (2, 0x80, 0x9F)
  else if b < 0xF0 then some (2, 0x80, 0xBF)
  else if b = 0xF0 then some (3, 0x90, 0xBF)
  else if b < 0xF4 then some (3, 0x80, 0xBF)
  else if b = 0xF4 then some (3, 0x80, 0x8F)
  else none

/-- What the next bytes read as: a character, or an ill-formed piece. -/
inductive Piece where
  | char (c : Char)
  | broken

/-- Reads `n` further bytes of a character whose bits so far are `acc`, the first of them between
`lo` and `hi`.  Returns how many bytes were taken. -/
def continuation (acc : Nat) : (n lo hi : Nat) → List UInt8 → Piece × Nat
  | 0, _, _, _ => (.char (Char.ofNat acc), 0)
  | _ + 1, _, _, [] => (.broken, 0)
  | n + 1, lo, hi, b :: rest =>
    if lo ≤ b.toNat && b.toNat ≤ hi then
      let (p, used) := continuation (acc * 64 + b.toNat % 64) n 0x80 0xBF rest
      (p, used + 1)
    else (.broken, 0)

/-- The pieces of a sequence of bytes; `skip` bytes belong to a piece already read. -/
def piecesFrom : (skip : Nat) → List UInt8 → List Piece
  | _, [] => []
  | skip + 1, _ :: rest => piecesFrom skip rest
  | 0, b :: rest =>
    if b.toNat < 0x80 then .char (Char.ofNat b.toNat) :: piecesFrom 0 rest
    else
      match leading? b.toNat with
      | none => .broken :: piecesFrom 0 rest
      | some (n, lo, hi) =>
        let bits := if n = 1 then b.toNat % 32 else if n = 2 then b.toNat % 16 else b.toNat % 8
        let (p, used) := continuation bits n lo hi rest
        p :: piecesFrom used rest

/-- The text of well-formed bytes; nothing for ill-formed ones. -/
def decode? (bytes : List UInt8) : Option (List Char) :=
  (piecesFrom 0 bytes).mapM fun
    | .char c => some c
    | .broken => none

/-- The text of any bytes, with a replacement character for each ill-formed piece. -/
def decodeLossy (bytes : List UInt8) : List Char :=
  (piecesFrom 0 bytes).map fun
    | .char c => c
    | .broken => Char.ofNat 0xFFFD

end BindingDocs.Text
