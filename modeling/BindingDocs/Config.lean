import BindingDocs.Toml.Document

/-!
# Settings

What a run works on: directories, input patterns and the renderer.  Every setting has a default, a
file may change any of them, and unknown settings are refused.

## Main definitions

* `RendererConfig`, `Config` — the settings.
* `Config.ofText?` — the settings of a file.
-/

namespace BindingDocs

open Toml (Value Entries)

/-- How the renderer is run. -/
structure RendererConfig where
  command : String := "doxygen"
  /-- The renderer's own settings, below the documentation directory. -/
  config : List Char := "luadocs.doxygen".toList
  /-- How long the renderer may take, in seconds. -/
  timeout : Nat := 600
deriving DecidableEq, Repr

/-- What a run works on. -/
structure Config where
  /-- The documentation directory, which must exist. -/
  docDir : List Char := "doc".toList
  /-- Where the headers are written. -/
  outputDir : List Char := "doc/temp-doxygen".toList
  /-- Where the rendered pages are. -/
  htmlDir : List Char := "doc/html".toList
  /-- The inputs when none are given on the command line. -/
  inputs : List (List Char) :=
    ["zap/*.cpp", "zap/*.h", "lua/lua-vec/src/*.c", "resource/scripts/*.lua",
      "doc/static/*.txt"].map String.toList
  renderer : RendererConfig := {}
deriving DecidableEq, Repr

/-- The file with the settings of a run when no other is named. -/
def Config.defaultFile : List Char := "luadoc.toml".toList

/-- The text of a value that is a string. -/
def Toml.Value.string? : Value → Option (List Char)
  | .string s => some s
  | _ => none

/-- The number of a value that is a natural number. -/
def Toml.Value.natural? : Value → Option Nat
  | .integer n => if 0 ≤ n then some n.toNat else none
  | _ => none

/-- The texts of a value that is an array of strings. -/
def Toml.Value.strings? : Value → Option (List (List Char))
  | .array items => items.mapM Value.string?
  | _ => none

namespace RendererConfig

/-- The settings with one of them changed. -/
def set (key : String) (v : Value) (r : RendererConfig) : Option RendererConfig :=
  match key with
  | "command" => v.string?.map fun s => { r with command := String.ofList s }
  | "config" => v.string?.map fun s => { r with config := s }
  | "timeout_secs" => v.natural?.map fun n => { r with timeout := n }
  | _ => none

/-- The names of the settings, in order. -/
def keys : List String := ["command", "config", "timeout_secs"]

/-- The settings of a section: a table, or an array with the first settings in order. -/
def ofValue? : Value → Option RendererConfig
  | .table _ t => t.foldlM (fun r (key, v) => r.set key v) {}
  | .array items => (keys.zip items).foldlM (fun r (key, v) => r.set key v) {}
  | .tables items =>
    (keys.zip items).foldlM (fun r (key, t) => r.set key (.table .headed t)) {}
  | _ => none

end RendererConfig

namespace Config

/-- The settings with one of them changed. -/
def set (key : String) (v : Value) (c : Config) : Option Config :=
  match key with
  | "doc_dir" => v.string?.map fun s => { c with docDir := s }
  | "output_dir" => v.string?.map fun s => { c with outputDir := s }
  | "html_dir" => v.string?.map fun s => { c with htmlDir := s }
  | "inputs" => v.strings?.map fun ss => { c with inputs := ss }
  | "doxygen" => (RendererConfig.ofValue? v).map fun r => { c with renderer := r }
  | _ => none

/-- The settings of a table. -/
def ofEntries? (t : Entries) : Option Config := t.foldlM (fun c (key, v) => c.set key v) {}

/-- The settings of a file; nothing if the file is not a table or has a setting that is unknown or
of the wrong kind. -/
def ofText? (text : List Char) : Option Config := (Entries.ofText? text).bind ofEntries?

end Config

end BindingDocs
