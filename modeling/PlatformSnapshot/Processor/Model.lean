import PlatformSnapshot.Text.Blank
import PlatformSnapshot.Text.Split
/-!
The processor's model name. The first line that begins with the words `model name` decides: it gives
the model if nothing but blanks stands between these words and a colon, and no model otherwise.
-/
namespace PlatformSnapshot.Processor

open Text

def unknownModel : String := "unknown_cpu_model"

/-- What follows the colon, if the line has one right after its key and blanks. -/
def modelIn? (line : List Char) : Option (List Char) :=
  match after? "model name".toList line with
  | none => none
  | some rest =>
    match trimLeft rest with
    | ':' :: value => some (trim value)
    | _ => none

def model (content : String) : String :=
  match (lines content.toList).find? (startsWith "model name".toList) with
  | none => unknownModel
  | some line =>
    match modelIn? line with
    | none => unknownModel
    | some value => .ofList value

end PlatformSnapshot.Processor
