import ScriptPack.Json.Read
import ScriptPack.Text.Blank
import ScriptPack.Text.Split

/-!
The text of a settings file: a module with one export on a line, `export default` and a value or
`export const`, a name and a value. The default export is the configuration; without one it is the
object of all exports. A file without exports configures nothing.
-/

namespace ScriptPack.Config

/-- The name under which the default export is known. -/
def defaultName : String := "default"

/-- A value in front of the semicolon at the end of a line. -/
def readValue? (text : List Char) : Option Json :=
  let text := Text.trim text
  let value := if text.getLast? == some ';' then text.dropLast else text
  Json.parse? (String.ofList value)

def readExport? (line : List Char) : Option (String × Json) :=
  match Text.after? "export default ".toList line with
  | some text => (readValue? text).map fun value => (defaultName, value)
  | none =>
    match Text.after? "export const ".toList line with
    | none => none
    | some text =>
      let name := Text.trim (text.takeWhile (· != '='))
      let value := readValue? ((text.dropWhile (· != '=')).drop 1)
      value.map fun value => (String.ofList name, value)

/-- The exports of a settings file, if every line that is not blank is one. -/
def exports? (text : List Char) : Option (Fields Json) :=
  let lines := ((Text.parts '\n' text).map Text.trim).filter (!·.isEmpty)
  (lines.mapM readExport?).map Fields.ofList

mutual

/-- A value without the fields named `__proto__`; an object that is written out has none. -/
def written : Json → Json
  | .array items => .array (writtenItems items)
  | .object fields => .object (writtenFields fields)
  | value => value

def writtenItems : List Json → List Json
  | [] => []
  | item :: items => written item :: writtenItems items

def writtenFields : List (String × Json) → List (String × Json)
  | [] => []
  | (name, value) :: fields =>
    if name == "__proto__" then writtenFields fields
    else (name, written value) :: writtenFields fields

end

/-- The configuration that a settings file stands for. -/
def ofText? (text : List Char) : Option Json := do
  let exports ← exports? text
  let value := (exports.get? defaultName).getD (.object exports)
  return written value

end ScriptPack.Config
