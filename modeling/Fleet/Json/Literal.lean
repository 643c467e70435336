/-! String literals of JSON text: what stands between two quotes, and what it means. -/

namespace Fleet.Json.Literal

/-- A piece of a literal: a character, written as it is or with a short escape, or the 16-bit unit of an
    escape with four hexadecimal digits. -/
inductive Piece where
  | char (c : Char)
  | unit (u : Nat)
  deriving DecidableEq

/-- The value of a hexadecimal digit, in either case. -/
def hexValue? (c : Char) : Option Nat :=
  if '0' ≤ c ∧ c ≤ '9' then some (c.toNat - '0'.toNat)
  else if 'a' ≤ c ∧ c ≤ 'f' then some (c.toNat - 'a'.toNat + 10)
  else if 'A' ≤ c ∧ c ≤ 'F' then some (c.toNat - 'A'.toNat + 10)
  else none

/-- The unit of four hexadecimal digits. -/
def unit? (a b c d : Char) : Option Nat := do
  return (((← hexValue? a) * 16 + (← hexValue? b)) * 16 + (← hexValue? c)) * 16 + (← hexValue? d)

/-- The character a backslash and `c` stand for. -/
def shortEscape? (c : Char) : Option Char :=
  match c with
  | '"' => some '"'
  | '\\' => some '\\'
  | '/' => some '/'
  | 'b' => some '\x08'
  | 'f' => some '\x0c'
  | 'n' => some '\n'
  | 'r' => some '\r'
  | 't' => some '\t'
  | _ => none

/-- Reads a literal up to its closing quote, which is taken too, behind the pieces in `done`, the last one
    first; control characters must be escaped. -/
def scan (done : List Piece) : List Char → Option (List Piece × List Char)
  | [] => none
  | '"' :: rest => some (done.reverse, rest)
  | '\\' :: 'u' :: a :: b :: c :: d :: rest =>
    match unit? a b c d with
    | some u => scan (.unit u :: done) rest
    | none => none
  | '\\' :: e :: rest =>
    match shortEscape? e with
    | some c => scan (.char c :: done) rest
    | none => none
  | c :: rest => if c.toNat < 0x20 then none else scan (.char c :: done) rest

/-- True for the first unit of a pair. -/
def isHigh (u : Nat) : Bool := 0xD800 ≤ u && u < 0xDC00

/-- True for the second unit of a pair. -/
def isLow (u : Nat) : Bool := 0xDC00 ≤ u && u < 0xE000

/-- The characters of a literal, behind those in `done`, the last one first. Units that are halves of a pair
    must come as pairs, first half first and nothing between them. -/
def decode? (done : List Char) : List Piece → Option (List Char)
  | [] => some done.reverse
  | .char c :: pieces => decode? (c :: done) pieces
  | .unit u :: .unit v :: pieces =>
    if isHigh u then
      if isLow v then decode? (Char.ofNat (0x10000 + (u - 0xD800) * 0x400 + (v - 0xDC00)) :: done) pieces
      else none
    else if isLow u then none
    else decode? (Char.ofNat u :: done) (.unit v :: pieces)
  | .unit u :: pieces => if isHigh u || isLow u then none else decode? (Char.ofNat u :: done) pieces

def text? (pieces : List Piece) : Option String := (decode? [] pieces).map String.ofList

/-- The escape of a character, or the character itself: only the quote, the backslash and control
    characters are escaped, these by their short form if they have one. -/
def escape (c : Char) : List Char :=
  match c with
  | '"' => ['\\', '"']
  | '\\' => ['\\', '\\']
  | '\x08' => ['\\', 'b']
  | '\x0c' => ['\\', 'f']
  | '\n' => ['\\', 'n']
  | '\r' => ['\\', 'r']
  | '\t' => ['\\', 't']
  | c =>
    if c.toNat < 0x20 then ['\\', 'u', '0', '0', (c.toNat / 16).digitChar, (c.toNat % 16).digitChar] else [c]

def write (s : List Char) : List Char :=
  '"' :: s.flatMap escape ++ ['"']

end Fleet.Json.Literal
