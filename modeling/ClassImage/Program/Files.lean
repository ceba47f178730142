import ClassImage.Limits.Toml
import ClassImage.Program.Loading

/-!
Programs and limits from files. A file that cannot be read is none. Files are
loaded in order, and the first that fails ends the load.
-/

namespace ClassImage

/-- Adds all classes of an image file, or changes nothing. -/
def Edit.addFile : Option Bytes → Edit Unit
  | none => throw .unreadableFile
  | some bytes => Edit.addBytes bytes

/-- The program that holds the classes of several image files. -/
def Program.ofFiles (files : List (Option Bytes)) : Except Fault Program :=
  match (files.forM Edit.addFile).run {} with
  | (.ok (), program) => .ok program
  | (.error fault, _) => .error fault

/-- The limits that a configuration file sets. -/
def Limits.ofFile : Option String → Except Fault Limits
  | none => .error (.limits .missing)
  | some text =>
    match Limits.ofToml text with
    | .ok limits => .ok limits
    | .error fault => .error (.limits fault)

end ClassImage
