/-! Strings, arrays and objects of compact JSON text. -/

namespace TaskNetwork.Text.Json

/-- The digits of a control character in a four-digit escape. -/
def fourDigits (c : Char) : List Char :=
  let digits := Nat.toDigits 16 c.toNat
  List.replicate (4 - digits.length) '0' ++ digits

/-- The characters that stand for `c` inside a string. Only the quotation mark, the backslash and
the characters below the space are escaped. -/
def escape (c : Char) : List Char :=
  match c with
  | '"' => ['\\', '"']
  | '\\' => ['\\', '\\']
  | '\x08' => ['\\', 'b']
  | '\x0c' => ['\\', 'f']
  | '\n' => ['\\', 'n']
  | '\r' => ['\\', 'r']
  | '\t' => ['\\', 't']
  | c => if c.toNat < 0x20 then ['\\', 'u'] ++ fourDigits c else [c]

def string (text : String) : String :=
  String.ofList ('"' :: (text.toList.flatMap escape ++ ['"']))

def array (items : List String) : String := "[" ++ String.intercalate "," items ++ "]"

def object (fields : List (String × String)) : String :=
  let written := fields.map fun (name, value) => string name ++ ":" ++ value
  "\x7b" ++ String.intercalate "," written ++ "\x7d"

end TaskNetwork.Text.Json
