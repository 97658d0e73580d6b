/-
# Configuration files

A file whose extension is `json`, in any letter case, is read as JSON and
any other as TOML.  Here a file is what reading it gave, so that loading a
configuration is a function of the name and the bytes.
-/
import EmitLint.Config.Json
import EmitLint.Config.Toml
import EmitLint.Text.Path

namespace EmitLint

/-- Why a file gave no text. -/
inductive ReadFailure
  | missing
  | directory
  | notText
deriving DecidableEq, Repr

def ReadFailure.message : ReadFailure → String
  | missing => "No such file or directory (os error 2)"
  | directory => "Is a directory (os error 21)"
  | notText => "stream did not contain valid UTF-8"

/-- Why there is no configuration, or not a sound one. -/
inductive ConfigError
  | unreadable (path : String) (cause : ReadFailure)
  | toml
  | json (fault : Json.Fault)
  | unknownRule (name : String)
deriving DecidableEq, Repr

/-- The sentence on an error; what is wrong with the text of a file is not
told. -/
def ConfigError.message : ConfigError → String
  | unreadable path cause => s!"failed to read config {path}: {cause.message}"
  | toml => "TOML parse error"
  | json _ => "JSON parse error"
  | unknownRule name => s!"unknown rule: {name}"

namespace Config

/-- Read a TOML text. -/
def fromToml (text : String) : Except ConfigError Config :=
  match ofToml? text with
  | some c => .ok c
  | none => .error .toml

/-- Read a JSON text. -/
def fromJson (text : String) : Except ConfigError Config :=
  (ofJson text).mapError .json

/-- The file name asks for JSON. -/
def isJsonName (path : String) : Bool :=
  match Path.extension? path with
  | some ext => ext.toLower == "json"
  | none => false

/-- The configuration of a file of which the bytes, or why there are none,
are given. -/
def load (path : String) (file : Except ReadFailure ByteArray) : Except ConfigError Config :=
  match file with
  | .error cause => .error (.unreadable path cause)
  | .ok bytes =>
      match String.fromUTF8? bytes with
      | none => .error (.unreadable path .notText)
      | some text => if isJsonName path then fromJson text else fromToml text

/-- Every setting is for a rule of the registry. -/
def validate (c : Config) (registry : Registry) : Except ConfigError Unit :=
  match c.unknownRule? registry with
  | some name => .error (.unknownRule name)
  | none => .ok ()

end Config
end EmitLint
