import TopicWatch.Config.Server
import TopicWatch.Text.Utf8
import TopicWatch.Toml.Reader

/-!
# Configuration files

A configuration is read from a text, or from a file that contains one. Two of the three
ways to load a file take a missing one for an empty one.
-/

namespace TopicWatch.Config

open Toml

/-- What stands under a path. -/
inductive File where
  | missing
  | directory
  | content (bytes : Bytes)
  deriving DecidableEq, Repr

/-- Why there is no configuration. -/
inductive Cause where
  | missing
  | directory
  | notText
  | notToml
  | unsuitable
  deriving DecidableEq, Repr

/-- A cause in words. -/
def Cause.message : Cause → String
  | missing => "No such file or directory (os error 2)"
  | directory => "Is a directory (os error 21)"
  | notText => "stream did not contain valid UTF-8"
  | notToml => "not a TOML document"
  | unsuitable => "a setting has an unsuitable value"

/-- At what the configuration failed. -/
inductive Stage where
  | read
  | parse
  deriving DecidableEq, Repr

/-- The name of a stage. -/
def Stage.name : Stage → String
  | read => "read"
  | parse => "parse"

/-- The stage of a cause. -/
def Cause.stage : Cause → Stage
  | missing | directory | notText => .read
  | notToml | unsuitable => .parse

/-- Why the configuration under a path cannot be had. -/
structure Error where
  path : String
  cause : Cause
  deriving DecidableEq, Repr

/-- What is wrong with which path. -/
def Error.detail (e : Error) : String := s!"'{e.path}': {e.cause.message}"

/-- An error in words. -/
def Error.message (e : Error) : String := s!"config ({e.cause.stage.name}): {e.detail}"

/-- The path that errors name when a text belongs to no file. -/
def inlinePath : String := "<inline>"

/-- The text of a file. -/
def File.text : File → Except Cause String
  | missing => .error .missing
  | directory => .error .directory
  | content bytes => match Utf8.decode? bytes with
      | some text => .ok text
      | none => .error .notText

variable {α : Type}

/-- Reads a configuration from a text. -/
def ofText (read : Entries → Option α) (text : String) : Except Cause α :=
  match parse? text with
  | none => .error .notToml
  | some entries => match read entries with
      | some a => .ok a
      | none => .error .unsuitable

/-- Reads a configuration from a file. -/
def ofFile (read : Entries → Option α) (path : String) (file : File) : Except Error α :=
  match file.text with
  | .error cause => .error ⟨path, cause⟩
  | .ok text => match ofText read text with
      | .ok a => .ok a
      | .error cause => .error ⟨path, cause⟩

/-- Reads a configuration from a file unless it is missing. -/
def ofFileOr (usual : α) (read : Entries → Option α) (path : String) :
    File → Except Error α
  | .missing => .ok usual
  | file => ofFile read path file

namespace Observer

/-- The configuration that a text contains. -/
def ofText (text : String) : Except Error Observer :=
  match Config.ofText (read .document) text with
  | .ok o => .ok o
  | .error cause => .error ⟨inlinePath, cause⟩

/-- The configuration that a file contains. -/
def load (path : String) (file : File) : Except Error Observer :=
  ofFile (read .document) path file

/-- The configuration that a file contains, or what holds without one. -/
def loadOrUsual (path : String) (file : File) : Except Error Observer :=
  ofFileOr usual (read .document) path file

end Observer

/-- The configuration of the service that a file contains, or what holds without one. -/
def Server.load (path : String) (file : File) : Except Error Server :=
  ofFileOr usual read path file

end TopicWatch.Config
