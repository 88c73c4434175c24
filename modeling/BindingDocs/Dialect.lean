import BindingDocs.Path

/-!
# Dialects

The comment convention of an input file, chosen by the file's extension.
-/

namespace BindingDocs

/-- How an input file writes its documentation comments. -/
inductive Dialect where
  /-- C and C++ sources: block comments, `Class::method`. -/
  | block
  /-- Lua scripts: bracketed comments, `Class.method` or `Class:method`. -/
  | bracketed
  /-- Static pages, read like C++ sources. -/
  | plain
deriving DecidableEq, Repr, Inhabited

namespace Dialect

/-- The dialect of a file, if it is of a supported kind. -/
def ofPath? (path : List Char) : Option Dialect :=
  match (Path.extension? path).map String.ofList with
  | some "cpp" | some "cc" | some "c" | some "h" | some "hpp" => some block
  | some "lua" => some bracketed
  | some "txt" => some plain
  | _ => none

/-- The text that opens a documentation comment. -/
def opener : Dialect → String
  | bracketed => "--[["
  | block | plain => "/**"

/-- The text that closes a comment. -/
def closer : Dialect → String
  | bracketed => "--]]"
  | block | plain => "*/"

end Dialect

end BindingDocs
