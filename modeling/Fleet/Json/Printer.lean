import Fleet.Decimal.Notation
import Fleet.Json.Literal
import Fleet.Json.Value

/-! Writing JSON data without blanks. -/

namespace Fleet.Json

/-- Doubles are written out from 0.00001 up to below ten to the sixteenth. -/
def doubles : Decimal.Notation := ⟨-4, 16⟩

def writeWhole (n : Int) : List Char :=
  match n with
  | .ofNat n => Nat.toDigits 10 n
  | .negSucc n => '-' :: Nat.toDigits 10 (n + 1)

def Number.write : Number → List Char
  | .whole n _ => writeWhole n
  | .double x _ => doubles.write x

namespace Value

mutual

def write : Value → List Char
  | .null => ['n', 'u', 'l', 'l']
  | .bool true => ['t', 'r', 'u', 'e']
  | .bool false => ['f', 'a', 'l', 's', 'e']
  | .number n => n.write
  | .string s => Literal.write s.toList
  | .array items => '[' :: writeItems items ++ [']']
  | .object entries => '\x7b' :: writeEntries entries ++ ['\x7d']

/-- The items with a comma between each two. -/
def writeItems : List Value → List Char
  | [] => []
  | [item] => item.write
  | item :: items => item.write ++ ',' :: writeItems items

def writeEntries : List (String × Value) → List Char
  | [] => []
  | [(key, value)] => Literal.write key.toList ++ ':' :: value.write
  | (key, value) :: entries => Literal.write key.toList ++ ':' :: value.write ++ ',' :: writeEntries entries

end

def render (value : Value) : String :=
  String.ofList value.write

/-- The text of some data with all keys in ascending order: equal data, equal text. -/
def canonical (value : Value) : String :=
  value.sorted.render

end Value

end Fleet.Json
