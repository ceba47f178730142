import ClassImage.Limits.Json
import ClassImage.Toml.Document

/-!
Limits in configuration text: a whole number of 32 bits under the name of each
limit that is set. Other keys and all tables are ignored.
-/

namespace ClassImage

namespace Limits

/-- The setting that a key makes; nothing for a key that names no limit. -/
def setting (name : String) (item : Toml.Item) : Except LimitsFault (Option (String × UInt32)) :=
  if name ∈ names then
    match item with
    | .integer value =>
      if 0 ≤ value ∧ value.toNat < UInt32.size then .ok (some (name, UInt32.ofNat value.toNat))
      else .error .unreadable
    | _ => .error .unreadable
  else .ok none

/-- Reads valid limits from configuration text. -/
def ofToml (text : String) : Except LimitsFault Limits := do
  let some document := Toml.Document.ofText? text | throw .unreadable
  let settings ← document.members.mapM fun (name, item) => setting name item
  let limits := ofSettings (settings.filterMap id)
  limits.validate
  return limits

end Limits

end ClassImage
