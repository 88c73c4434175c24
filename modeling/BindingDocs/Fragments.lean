import BindingDocs.Declaration
import BindingDocs.Text.Search

/-!
# What an input file contributes

Scanning a file fills a table of classes in the order of their first reference, a list of global
functions and a stream of comments; two further streams, the main page and the enum groups, run
through all files.

## Main definitions

* `ClassFragments` — the opening of a class and the declarations in it.
* `ClassTable` — classes by name, in the order of first reference.
* `FileFragments` — everything one file contributes to its header.
* `Streams` — what all files contribute to the common page.
-/

namespace BindingDocs

/-- The declaration of one class.  The opening has a place of its own, since it may be found after
the members. -/
structure ClassFragments where
  /-- The opening, empty while none is known. -/
  header : String := ""
  /-- The declarations, in order. -/
  body : List String := []
deriving DecidableEq, Repr, Inhabited

namespace ClassFragments

/-- Sets the opening unless there is one. -/
def openIfUnset (c : ClassFragments) (header : String) : ClassFragments :=
  if c.header = "" then { c with header } else c

/-- Adds declarations at the end. -/
def add (c : ClassFragments) (fragments : List String) : ClassFragments :=
  { c with body := c.body ++ fragments }

/-- Removes the first declaration equal to `fragment`, if there is one. -/
def remove (c : ClassFragments) (fragment : String) : ClassFragments :=
  { c with body := c.body.erase fragment }

/-- Whether the body holds the declaration `fragment`. -/
def has (c : ClassFragments) (fragment : String) : Bool := c.body.contains fragment

end ClassFragments

/-- Whether `text` holds a blank, the name and an opening parenthesis. -/
def declaresIn (name : String) : List Char → Bool
  | [] => false
  | c :: s => (Text.isBlank c && Text.beginsWith (name.toList ++ ['(']) s) || declaresIn name s

/-- Whether one of the fragments declares a method of this name. -/
def declares (fragments : List String) (name : String) : Bool :=
  fragments.any fun f => declaresIn name f.toList

/-- Adds a class-level declaration for each name that is not declared yet. -/
def addStatics (body : List String) (names : List String) : List String :=
  names.foldl
    (fun body m => if declares body m then body else body ++ [Declaration.staticStub m]) body

/-- Classes by name, in the order of first reference. -/
abbrev ClassTable := List (String × ClassFragments)

namespace ClassTable

/-- The fragments of a class, if it was referenced. -/
def get? (t : ClassTable) (name : String) : Option ClassFragments := t.lookup name

/-- Changes the fragments of a class, which start out empty at its first reference. -/
def update (name : String) (f : ClassFragments → ClassFragments) : ClassTable → ClassTable
  | [] => [(name, f {})]
  | (n, c) :: rest => if n = name then (n, f c) :: rest else (n, c) :: update name f rest

/-- References a class. -/
def touch (t : ClassTable) (name : String) : ClassTable := update name id t

/-- Sets the fragments of a class, which keeps its place if it was referenced before. -/
def set (t : ClassTable) (name : String) (c : ClassFragments) : ClassTable :=
  update name (fun _ => c) t

end ClassTable

/-- Everything one input file contributes to its header. -/
structure FileFragments where
  /-- Classes in the order of first reference. -/
  classes : ClassTable := []
  /-- Declarations of functions outside every class. -/
  globals : List String := []
  /-- The stream of comments. -/
  comments : List String := []
deriving DecidableEq, Repr, Inhabited

namespace FileFragments

/-- Whether the file contributes nothing. -/
def isEmpty (f : FileFragments) : Bool := f.classes.isEmpty && f.globals.isEmpty && f.comments.isEmpty

/-- Changes the fragments of a class. -/
def updateClass (f : FileFragments) (name : String) (g : ClassFragments → ClassFragments) :
    FileFragments :=
  { f with classes := f.classes.update name g }

end FileFragments

/-- What the files of a run contribute to the common page. -/
structure Streams where
  /-- Text of the main page. -/
  mainPage : List String := []
  /-- The enum groups. -/
  enums : List String := []
deriving DecidableEq, Repr, Inhabited

end BindingDocs
