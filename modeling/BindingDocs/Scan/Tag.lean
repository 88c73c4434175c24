import BindingDocs.EnumTable
import BindingDocs.Signature

/-!
# Lines with a meaning

What the scanner recognises on a line: the macros that register classes and list methods, and the
tags of documentation comments.

## Main definitions

* `Registration` — a class registered with the scripting engine.
* `MethodKind` — the two kinds of method tables, with the macros that start, fill and end them.
* `Tag` — the command on a line of a comment, and `Tag.ofLine?` — the one that counts when several
  are recognised.
-/

namespace BindingDocs.Scan

open Text

/-! ### Macros -/

/-- A class registered with the scripting engine, and its parent for a subclass. -/
structure Registration where
  name : String
  parent : Option String
deriving DecidableEq, Repr

/-- The text up to the first `stop` that leads to success, without spaces around it. -/
def argument {α : Type} (stop : String) (k : Reader α) : Reader (String × α) :=
  as (fun (name, a) => (String.ofList name, a)) (spaces (short1 inLine (spaces (lit stop k))))

/-- The registration of a class. -/
def Registration.ofClass : Reader Registration :=
  as (fun (name, _) => ⟨name, none⟩)
    (lit "REGISTER_LUA_CLASS" (spaces (lit "(" (argument ")" done))))

/-- The registration of a subclass. -/
def Registration.ofSubclass : Reader Registration :=
  as (fun (name, parent, _) => ⟨name, some parent⟩)
    (lit "REGISTER_LUA_SUBCLASS" (spaces (lit "(" (argument "," (argument ")" done)))))

/-- The registration on a line, if there is one. -/
def Registration.ofLine? : Reader Registration := either (anywhere ofClass) (anywhere ofSubclass)

/-- Whose methods a table lists: those of the objects, or those of the class itself. -/
inductive MethodKind where
  | ofObjects
  | ofClass
deriving DecidableEq, Repr

namespace MethodKind

/-- The kind of method table that a line starts, if it starts one. -/
def start? (line : List Char) : Option MethodKind :=
  if occurs (lit "define" (spaces1 (lit "LUA_METHODS" (spaces (lit "(CLASS," (spaces
      (lit "METHOD)" done))))))) line then some ofObjects
  else if occurs (lit "define" (spaces1 (lit "LUA_STATIC_METHODS" (spaces (lit "(" (spaces
      (lit "METHOD" (spaces (lit ")" done))))))))) line then some ofClass
  else none

/-- The class for which a line ends the table, if it ends it. -/
def owner? : MethodKind → Reader String
  | ofObjects =>
    anywhere (as Prod.fst (lit "GENERATE_LUA_METHODS_TABLE" (spaces (lit "(" (argument "," done)))))
  | ofClass =>
    anywhere (as Prod.fst
      (lit "GENERATE_LUA_STATIC_METHODS_TABLE" (spaces (lit "(" (argument "," done)))))

/-- The method that a line of the table lists, if it lists one. -/
def row? : MethodKind → Reader String
  | ofObjects =>
    anywhere (as Prod.fst
      (lit "METHOD" (spaces (lit "(" (spaces (lit "CLASS," (argument "," done)))))))
  | ofClass => anywhere (as Prod.fst (lit "METHOD" (spaces (lit "(" (argument "," done)))))

end MethodKind

/-- Whether a line defines a macro. -/
def isDefine (line : List Char) : Bool := occurs (lit "#" (blanks (lit "define" done))) line

/-! ### Tags -/

/-- The command on a line of a documentation comment. -/
inductive Tag where
  /-- The text that follows belongs to the main page. -/
  | page
  /-- A paragraph heading, which only marks the comment as documentation. -/
  | par
  /-- An enum whose table follows the comment. -/
  | enum (spec : EnumSpec)
  /-- A paragraph on geometry. -/
  | geom (body : String)
  /-- Documentation of the listing of a class. -/
  | listing (name : String)
  /-- Documentation of a function. -/
  | func
  /-- Documentation of a class. -/
  | ofClass (name : String)
  /-- Documentation of a class that exists only in the documentation. -/
  | ofVirtualClass (name : String)
  /-- A paragraph of description. -/
  | descr (text : String)
deriving DecidableEq, Repr

namespace Tag

/-- The blanks and the star that a line of a comment may begin with. -/
def margin {α : Type} (k : Reader α) : Reader α := blanks (either (lit "*" (blanks k)) (blanks k))

/-- The rest of a line, which must end the text. -/
def restOfLine : Reader String := as (fun (text, _) => String.ofList text) (run inLine atEnd)

/-- A blank, or the end of the text. -/
def wordEnd : Reader Unit
  | [] => some ()
  | c :: _ => if isBlank c then some () else none

/-- A page command. -/
def isPage (line : List Char) : Bool :=
  occurs (lit "@" (either (lit "mainpage" wordEnd) (lit "page" wordEnd))) line

/-- A paragraph command after the star of the margin. -/
def isPar (line : List Char) : Bool := occurs (lit "*" (blanks1 (lit "\\par" done))) line

/-- The text of a geometry command. -/
def geom? : Reader String := anywhere (lit "@geom" (blanks1 restOfLine))

/-- The class of a listing command, which must stand first on its line. -/
def listing? : Reader String :=
  as (fun (name, _) => String.ofList name) (margin (lit "@luafuncsheader" (blanks1 (run1 isWord done))))

/-- A function command, which must stand first on its line. -/
def isFunc (line : List Char) : Bool := (margin (lit "@luafunc" (blanks1 restOfLine)) line).isSome

/-- The class named by the command `w`, which must be the last word of its line. -/
def lastWord? (w : String) : Reader String :=
  as (fun (name, _) => String.ofList name)
    (anywhere (lit w (blanks1 (run1 isWord (blanks atEnd)))))

/-- The text of a description command. -/
def descr? : Reader String := anywhere (lit "@descr" (blanks1 restOfLine))

/-- The command of a line.  Where several are recognised, the earlier one in this list counts. -/
def ofLine? (line : List Char) : Option Tag :=
  if isPage line then some page
  else if isPar line then some par
  else (EnumSpec.parse? line).map enum <|> (geom? line).map geom <|> (listing? line).map listing <|>
    (if isFunc line then some func else none) <|>
    (lastWord? "@luaclass" line).map ofClass <|> (lastWord? "@luavclass" line).map ofVirtualClass <|>
    (descr? line).map descr

end Tag

end BindingDocs.Scan
