import BindingDocs.Dialect
import BindingDocs.Text.Case
import BindingDocs.Text.Pattern
import BindingDocs.Text.Word

/-!
# Function annotations

An annotation `@luafunc [static] [type] [Class::]method(arguments)` documents one binding.  It is
read into a `Signature`, which knows the texts that stand for the function in the header.

## Main definitions

* `Signature` — the parts of an annotation.
* `Signature.parse?` — reads the leftmost annotation of a line.
* `Signature.target`, `Signature.declaration`, `Signature.sample` — the texts it gives rise to.
-/

namespace BindingDocs

open Text

/-- The parts of a function annotation. -/
structure Signature where
  /-- Whether the function belongs to the class rather than to its objects. -/
  isStatic : Bool
  /-- The return type, if one is written. -/
  returns : Option String
  /-- The class, if the function is not global. -/
  owner : Option String
  /-- The name, without blanks at its ends and never empty. -/
  method : String
  /-- The text between the parentheses. -/
  arguments : String
deriving DecidableEq, Repr, Inhabited

namespace Signature

/-- What stands between a class and its method. -/
def separators : Dialect → List String
  | .bracketed => [".", ":"]
  | .block | .plain => ["::"]

/-- One of the separators of the dialect. -/
def separator {α : Type} (d : Dialect) (k : Reader α) : Reader α :=
  fun s => (separators d).findSome? fun w => lit w k s

/-- The parts of a call: the method name, up to the first parenthesis that leads to a closing one,
and the arguments, up to the last parenthesis of the line. -/
def call : Reader (List Char × List Char) :=
  as (fun (method, arguments, _) => (method, arguments))
    (short1 inLine (lit "(" (run inLine (lit ")" done))))

/-- The owner, if one is written with its separator, and the parts of the call. -/
def ownerAndCall (d : Dialect) : Reader (Option (List Char) × List Char × List Char) :=
  either (as (fun (owner, parts) => (some owner, parts)) (run1 isWord (separator d call)))
    (as (fun parts => (none, parts)) call)

/-- The return type, if one is written, and the rest of the annotation. -/
def typeAndCall (d : Dialect) :
    Reader (Option (List Char) × Option (List Char) × List Char × List Char) :=
  either (as (fun (type, parts) => (some type, parts)) (run1 isWord (blanks1 (ownerAndCall d))))
    (as (fun parts => (none, parts)) (ownerAndCall d))

/-- The parts of an annotation, with the blanks of the method name removed. -/
def ofParts (isStatic : Bool) :
    Option (List Char) × Option (List Char) × List Char × List Char → Signature
  | (type, owner, method, arguments) =>
    { isStatic
      returns := type.map fun t => String.ofList (trim t)
      owner := owner.map String.ofList
      method := String.ofList (trim method)
      arguments := String.ofList arguments }

/-- An annotation at the beginning of a text. -/
def annotation? (d : Dialect) : Reader Signature :=
  lit "@luafunc" (blanks1 (either
    (lit "static" (blanks1 (as (ofParts true) (typeAndCall d))))
    (as (ofParts false) (typeAndCall d))))

/-- The leftmost annotation of a line; nothing if it names no method. -/
def parse? (d : Dialect) (line : List Char) : Option Signature :=
  match anywhere (annotation? d) line with
  | some sig => if sig.method = "" then none else some sig
  | none => none

/-- Whether the function constructs the objects of its class, which it is then named after. -/
def isConstructor (sig : Signature) : Bool := sig.owner == some sig.method

/-- Attaches the comment that follows to this function.  A return type that is not written is left
out. -/
def target (sig : Signature) : String :=
  " \\fn " ++ sig.returns.getD "" ++ " " ++ sig.owner.getD "global" ++ "::" ++ sig.method ++ "(" ++
    sig.arguments ++ ")\n"

/-- The annotation as quoted inside a comment: without blanks at its ends, and with every end of
comment pulled apart. -/
def quoted (source : List Char) : String :=
  String.ofList (replace "*/".toList "* /".toList (trim source))

/-- Declaration of the function, quoting the annotation it comes from. -/
def declaration (sig : Signature) (source : List Char) : String :=
  (if sig.isStatic then "static " else "") ++ sig.returns.getD "void" ++ " " ++ sig.method ++ "(" ++
    sig.arguments ++ ") \x7b /* From '" ++ quoted source ++ "' */ \x7d\n"

/-- Sample code that constructs an object. -/
def sample (sig : Signature) : String :=
  let owner := sig.owner.getD sig.method
  let var := String.ofList (lower owner.toList)
  "\\brief Constructor.\n\nExample:\n@code\n" ++ var ++ " = " ++ owner ++ ".new(" ++ sig.arguments ++
    ")\n...\nlevelgen:addItem(" ++ var ++ ")\n@endcode\n\n"

end Signature

end BindingDocs
