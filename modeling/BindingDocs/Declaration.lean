/-!
# Texts of the synthetic headers

The renderer reads C++, so every binding is written as a declaration it understands.  A fragment is
one piece of such text; it always ends its line.
-/

namespace BindingDocs.Declaration

/-- Name of the method whose documentation stands for the listing of a class. -/
def markerName : String := "DummyConstructor"

/-- Opening of a class, with the class it inherits from if there is one. -/
def classOpening (name : String) : (parent : Option String) → String
  | some parent => "class " ++ name ++ " : public " ++ parent ++ " \x7b \n public:\n"
  | none => "class " ++ name ++ " \x7b \n public:\n"

/-- Closing of a class. -/
def classClosing (name : String) : String := "\x7d; // " ++ name ++ "\n"

/-- Declaration of a method known only from a method table. -/
def methodStub (name : String) : String := "void " ++ name ++ "() \x7b \x7d\n"

/-- Declaration of a class-level method known only from a method table. -/
def staticStub (name : String) : String := "static void " ++ name ++ "() \x7b \x7d\n"

/-- Declaration of the marker method. -/
def markerStub : String := methodStub markerName

/-- Attaches the comment that follows to the marker method of a class. -/
def markerTarget (name : String) : String := "\\fn " ++ name ++ "::" ++ markerName ++ "\n"

/-- Attaches the comment that follows to a class. -/
def classTarget (name : String) : String := " \\class " ++ name ++ "\n"

/-- Paragraph on the geometry of an object. -/
def geometry (body : String) : String := "\\par Geometry\n" ++ body ++ "\n"

/-- Paragraph of description. -/
def description (text : String) : String := "\n " ++ text ++ "\n"

end BindingDocs.Declaration
