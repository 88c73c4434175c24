/-!
# Messages

What the program tells its user while it works.
-/

namespace BindingDocs

/-- How much a message matters. -/
inductive Level where
  | debug
  | info
  | warn
deriving DecidableEq, Repr

/-- A message of the log. -/
structure Notice where
  level : Level
  text : String
deriving DecidableEq, Repr

namespace Level

/-- The name of the level as it is written. -/
def name : Level → String
  | debug => "DEBUG"
  | info => "INFO"
  | warn => "WARN"

end Level

namespace Notice

/-- A message of interest only when something is being looked into. -/
def debug (text : String) : Notice := ⟨.debug, text⟩

/-- A message about the course of the work. -/
def info (text : String) : Notice := ⟨.info, text⟩

/-- A message that something may be wrong. -/
def warn (text : String) : Notice := ⟨.warn, text⟩

/-- The message with its level. -/
def line (n : Notice) : String := n.level.name ++ " " ++ n.text

end Notice

end BindingDocs
