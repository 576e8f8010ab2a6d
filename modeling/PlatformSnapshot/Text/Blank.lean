/-!
White space, trimming and words. Kernel pseudo-files separate their fields by runs of white space,
and white space means the Unicode property White_Space, not its ASCII part alone: a no-break space
pasted into a file separates words like any other blank.
-/
namespace PlatformSnapshot.Text

/-- The 25 code points with the property White_Space. -/
def isBlank (c : Char) : Bool :=
  let n := c.toNat
  (9 ≤ n && n ≤ 13) || n == 0x20 || n == 0x85 || n == 0xA0 || n == 0x1680 ||
    (0x2000 ≤ n && n ≤ 0x200A) || n == 0x2028 || n == 0x2029 || n == 0x202F || n == 0x205F ||
    n == 0x3000

def trimLeft (cs : List Char) : List Char := cs.dropWhile isBlank

def trimRight (cs : List Char) : List Char := (cs.reverse.dropWhile isBlank).reverse

def trim (cs : List Char) : List Char := trimRight (trimLeft cs)

/-- A line of nothing but blanks. -/
def isBlankLine (cs : List Char) : Bool := cs.all isBlank

/-- The maximal runs of non-blank characters, in order. -/
def words : List Char → List (List Char)
  | [] => []
  | c :: r =>
    if isBlank c then words r
    else match r, words r with
      | d :: _, w :: ws => if isBlank d then [c] :: w :: ws else (c :: w) :: ws
      | _, ws => [c] :: ws

@[simp] theorem words_nil : words [] = [] := rfl

end PlatformSnapshot.Text
