import TaskNetwork.Text.Hidden

/-! Quoted text: a string between quotation marks in which every character can be seen. Five
characters and the quotation mark have short escapes; other hidden characters are written by
their code point. -/

namespace TaskNetwork.Text

/-- A code point in hexadecimal digits without leading zeros. -/
def codePoint (c : Char) : List Char := Nat.toDigits 16 c.toNat

def escape (c : Char) : List Char :=
  match c with
  | '"' => ['\\', '"']
  | '\\' => ['\\', '\\']
  | '\n' => ['\\', 'n']
  | '\t' => ['\\', 't']
  | '\r' => ['\\', 'r']
  | '\x00' => ['\\', '0']
  | c => if isHidden c then ['\\', 'u', '\x7b'] ++ codePoint c ++ ['\x7d'] else [c]

def quoted (text : String) : String :=
  String.ofList ('"' :: (text.toList.flatMap escape ++ ['"']))

end TaskNetwork.Text
