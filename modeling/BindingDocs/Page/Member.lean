import BindingDocs.Text.Search

/-!
# Qualified member names

A signature cell reads `type Class::member`.
-/

namespace BindingDocs.Page

open Text

/-- The parts of a qualified member name. -/
structure Member where
  /-- The return type, which may be empty. -/
  returns : List Char
  /-- The class. -/
  owner : List Char
  /-- The name in the class. -/
  name : List Char
deriving DecidableEq, Repr

/-- Reads a qualified name: the last pair of colons divides class and member, the last blank before
it divides return type and class. -/
def Member.parse? (text : List Char) : Option Member :=
  (splitLast? [':', ':'] (trim text)).map fun (qualifier, name) =>
    match splitLastBy? isBlank (trim qualifier) with
    | some (returns, owner) => ⟨trim returns, owner, trim name⟩
    | none => ⟨[], trim qualifier, trim name⟩

end BindingDocs.Page
