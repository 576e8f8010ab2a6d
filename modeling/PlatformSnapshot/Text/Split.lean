/-!
Cutting text at a character, and into lines. `splitOn` always yields one piece more than there are
separators; `lines` drops the piece after a final line feed and one carriage return before each
line feed, so a last line without a line feed keeps its carriage return.
-/
namespace PlatformSnapshot.Text

/-- The pieces between the occurrences of `sep`. -/
def splitOn (sep : Char) : List Char → List (List Char)
  | [] => [[]]
  | c :: r =>
    if c = sep then [] :: splitOn sep r
    else match splitOn sep r with
      | [] => [[c]]
      | p :: ps => (c :: p) :: ps

/-- What stands before and after the first `sep`. -/
def splitOnce? (sep : Char) : List Char → Option (List Char × List Char)
  | [] => none
  | c :: r =>
    if c = sep then some ([], r)
    else match splitOnce? sep r with
      | none => none
      | some (a, b) => some (c :: a, b)

/-- What follows `lead`, for a text that starts with it. -/
def after? : List Char → List Char → Option (List Char)
  | [], cs => some cs
  | _ :: _, [] => none
  | l :: ls, c :: cs => if l = c then after? ls cs else none

def startsWith (lead cs : List Char) : Bool := (after? lead cs).isSome

/-- Whether `part` occurs somewhere, as one run. -/
def contains (part : List Char) : List Char → Bool
  | [] => startsWith part []
  | c :: r => startsWith part (c :: r) || contains part r

/-- Removes one carriage return at the end. -/
def dropReturn : List Char → List Char
  | [] => []
  | [c] => if c = '\r' then [] else [c]
  | c :: d :: r => c :: dropReturn (d :: r)

/-- Every piece but the last ended in a line feed; an empty last piece is no line. -/
def closeLines : List (List Char) → List (List Char)
  | [] => []
  | [last] => if last.isEmpty then [] else [last]
  | line :: rest => dropReturn line :: closeLines rest

def lines (cs : List Char) : List (List Char) := closeLines (splitOn '\n' cs)

@[simp] theorem splitOn_nil (sep : Char) : splitOn sep [] = [[]] := rfl

theorem splitOn_ne_nil (sep : Char) (cs : List Char) : splitOn sep cs ≠ [] := by
  cases cs with
  | nil => simp
  | cons c r => unfold splitOn; split <;> (try split) <;> simp

theorem splitOnce?_eq_some {sep : Char} {cs a b : List Char} (h : splitOnce? sep cs = some (a, b)) :
    cs = a ++ sep :: b := by
  induction cs generalizing a with
  | nil => simp [splitOnce?] at h
  | cons c r ih =>
    unfold splitOnce? at h
    split at h
    · simp_all
    · split at h
      · simp at h
      · rename_i p q hr
        simp only [Option.some.injEq, Prod.mk.injEq] at h
        obtain ⟨rfl, rfl⟩ := h
        simp [ih hr]

end PlatformSnapshot.Text
