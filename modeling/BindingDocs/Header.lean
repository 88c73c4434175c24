import BindingDocs.Dialect
import BindingDocs.Fragments

/-!
# Generated headers

The files handed to the renderer: one header for each productive input, and one page for what all
inputs have in common.
-/

namespace BindingDocs.Header

/-- Name of the file with the main page and the enum groups. -/
def mainPageFile : String := "main_page_content.h"

/-- Name of the header of an input file. -/
def outputName (path : List Char) : String :=
  String.ofList (((Path.stem? path).getD []) ++ ['_', '_'] ++ ((Path.extension? path).getD []) ++
    ['.', 'h'])

/-- The first lines of every generated file. -/
def banner (generated : String) : String :=
  "// This file was generated automatically from the C++ source to feed doxygen.  " ++
    "It will be overwritten.\n\n// Generated " ++ generated ++ "\n\n"

/-- One class: its opening, its declarations and its closing. -/
def renderClass (name : String) (c : ClassFragments) : String :=
  c.header ++ String.join c.body ++ Declaration.classClosing name

/-- The header of one input: classes, the global namespace, and the comments. -/
def render (f : FileFragments) (generated : String) : String :=
  banner generated ++ String.join (f.classes.map fun (name, c) => renderClass name c) ++
    "\n\n// What follows is a dump of the globalfunctions list\n\nnamespace global \x7b\n" ++
    "\n".intercalate f.globals ++
    "\x7d\n\n\n// What follows is a dump of the comments list\n\n" ++ String.join f.comments

/-- The page of all inputs: the main page in a comment of its own, then the enum groups. -/
def renderMainPage (s : Streams) (generated : String) : String :=
  banner generated ++ "/**\n" ++ String.join s.mainPage ++ "\n*/\n" ++ String.join s.enums

end BindingDocs.Header
