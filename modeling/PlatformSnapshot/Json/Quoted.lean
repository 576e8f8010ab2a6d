import PlatformSnapshot.Text.Numeral
/-!
Strings between quotes. Quote, backslash and the control characters are escaped, all else stands for
itself. Reading is done in two steps: the scan finds the closing quote and checks the form of the
escapes, and decoding gives them their meaning, which fails for half a surrogate pair.
-/
namespace PlatformSnapshot.Json

def hexDigit (n : Nat) : Char := if n < 10 then Char.ofNat (48 + n) else Char.ofNat (87 + n)

def hexValue? (c : Char) : Option Nat :=
  if '0' ≤ c ∧ c ≤ '9' then some (c.toNat - 48)
  else if 'a' ≤ c ∧ c ≤ 'f' then some (c.toNat - 87)
  else if 'A' ≤ c ∧ c ≤ 'F' then some (c.toNat - 55)
  else none

def escapeChar (c : Char) : List Char :=
  if c = '"' then ['\\', '"']
  else if c = '\\' then ['\\', '\\']
  else if c = '\x08' then ['\\', 'b']
  else if c = '\t' then ['\\', 't']
  else if c = '\n' then ['\\', 'n']
  else if c = '\x0c' then ['\\', 'f']
  else if c = '\r' then ['\\', 'r']
  else if c < ' ' then ['\\', 'u', '0', '0', hexDigit (c.toNat / 16), hexDigit (c.toNat % 16)]
  else [c]

def escape (cs : List Char) : List Char := cs.flatMap escapeChar

def quote (cs : List Char) : List Char := '"' :: escape cs ++ ['"']

/-- The unit that four hexadecimal digits spell. -/
def unit? (a b c d : Char) : Option Nat := do
  let a ← hexValue? a
  let b ← hexValue? b
  let c ← hexValue? c
  let d ← hexValue? d
  return ((a * 16 + b) * 16 + c) * 16 + d

/-- What stands for itself after a backslash, or for a control character. -/
def shortEscape? : Char → Option Char
  | '"' => some '"'
  | '\\' => some '\\'
  | '/' => some '/'
  | 'b' => some '\x08'
  | 'f' => some '\x0c'
  | 'n' => some '\n'
  | 'r' => some '\r'
  | 't' => some '\t'
  | _ => none

/-- The contents up to the closing quote, with the escapes as they are, and what follows it. -/
def scan? : List Char → Option (List Char × List Char)
  | [] => none
  | '"' :: r => some ([], r)
  | '\\' :: 'u' :: a :: b :: c :: d :: r =>
    if (unit? a b c d).isSome then
      (scan? r).map fun (s, t) => ('\\' :: 'u' :: a :: b :: c :: d :: s, t)
    else none
  | '\\' :: c :: r =>
    if (shortEscape? c).isSome then (scan? r).map fun (s, t) => ('\\' :: c :: s, t) else none
  | c :: r => if c < ' ' ∨ c = '\\' then none else (scan? r).map fun (s, t) => (c :: s, t)

def isHigh (u : Nat) : Bool := 0xD800 ≤ u && u < 0xDC00

def isLow (u : Nat) : Bool := 0xDC00 ≤ u && u < 0xE000

/-- The text that scanned contents mean. -/
def unescape? : List Char → Option (List Char)
  | [] => some []
  | '\\' :: 'u' :: a :: b :: c :: d :: r =>
    match unit? a b c d with
    | none => none
    | some u =>
      if isHigh u then
        match r with
        | '\\' :: 'u' :: e :: f :: g :: h :: r =>
          match unit? e f g h with
          | none => none
          | some v =>
            if isLow v then
              (unescape? r).map (Char.ofNat (0x10000 + (u - 0xD800) * 0x400 + (v - 0xDC00)) :: ·)
            else none
        | _ => none
      else if isLow u then none
      else (unescape? r).map (Char.ofNat u :: ·)
  | '\\' :: c :: r =>
    match shortEscape? c with
    | none => none
    | some d => (unescape? r).map (d :: ·)
  | c :: r => if c = '\\' then none else (unescape? r).map (c :: ·)

end PlatformSnapshot.Json
