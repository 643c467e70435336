import Fleet.Json.Form
import Fleet.Json.Literal
import Fleet.Json.Numeral

/-! Reading JSON text by its strict grammar: no marks before it, no comments, no trailing commas. -/

namespace Fleet.Json

def isBlank (c : Char) : Bool := c = ' ' || c = '\t' || c = '\n' || c = '\r'

def skipBlanks : List Char → List Char
  | c :: cs => if isBlank c then skipBlanks cs else c :: cs
  | [] => []

namespace Form

/-- The key of an entry with the colon behind it. -/
def scanKey (cs : List Char) : Option (Option String × List Char) :=
  match skipBlanks cs with
  | '"' :: rest => do
    let (pieces, rest) ← Literal.scan [] rest
    match skipBlanks rest with
    | ':' :: rest => some (Literal.text? pieces, rest)
    | _ => none
  | _ => none

mutual

/-- Reads one form and gives what follows it. Two steps of `fuel` for each character are enough. -/
def scan : Nat → List Char → Option (Form × List Char)
  | 0, _ => none
  | fuel + 1, cs =>
    match skipBlanks cs with
    | 'n' :: 'u' :: 'l' :: 'l' :: rest => some (.null, rest)
    | 't' :: 'r' :: 'u' :: 'e' :: rest => some (.bool true, rest)
    | 'f' :: 'a' :: 'l' :: 's' :: 'e' :: rest => some (.bool false, rest)
    | '"' :: rest => do
      let (pieces, rest) ← Literal.scan [] rest
      return (.string (Literal.text? pieces), rest)
    | '[' :: rest =>
      match skipBlanks rest with
      | ']' :: rest => some (.array [], rest)
      | rest => do
        let (items, rest) ← scanItems fuel rest
        return (.array items, rest)
    | '\x7b' :: rest =>
      match skipBlanks rest with
      | '\x7d' :: rest => some (.object [], rest)
      | rest => do
        let (entries, rest) ← scanEntries fuel rest
        return (.object entries, rest)
    | rest => do
      let (numeral, rest) ← Numeral.scan rest
      return (.number numeral.value?, rest)

/-- Reads items up to the closing bracket. -/
def scanItems : Nat → List Char → Option (List Form × List Char)
  | 0, _ => none
  | fuel + 1, cs => do
    let (item, rest) ← scan fuel cs
    match skipBlanks rest with
    | ',' :: rest => do
      let (items, rest) ← scanItems fuel rest
      return (item :: items, rest)
    | ']' :: rest => return ([item], rest)
    | _ => none

def scanEntries : Nat → List Char → Option (List (Option String × Form) × List Char)
  | 0, _ => none
  | fuel + 1, cs => do
    let (key, rest) ← scanKey cs
    let (form, rest) ← scan fuel rest
    match skipBlanks rest with
    | ',' :: rest => do
      let (entries, rest) ← scanEntries fuel rest
      return ((key, form) :: entries, rest)
    | '\x7d' :: rest => return ([(key, form)], rest)
    | _ => none

end

/-- The first form of a text and what follows it. -/
def first? (cs : List Char) : Option (Form × List Char) :=
  scan (2 * cs.length + 1) cs

/-- The form of a whole text: only blanks may follow it. -/
def parse? (text : String) : Option Form := do
  let (form, rest) ← first? text.toList
  if skipBlanks rest = [] then some form else none

end Form

def Value.parse? (text : String) : Option Value := do
  let form ← Form.parse? text
  form.toValue? Form.maxDepth

end Fleet.Json
