import TaskNetwork.Decimal.Layout
import TaskNetwork.Text.Quoted

/-! The tokens of domain and world text and their places. -/

namespace TaskNetwork.Source

/-- A place in a text: its line, and its column in characters, both counted from 1. -/
structure Position where
  line : Nat
  column : Nat
deriving DecidableEq, Inhabited

namespace Position

def start : Position := ⟨1, 1⟩

def next (p : Position) (c : Char) : Position :=
  if c = '\n' then ⟨p.line + 1, 1⟩ else ⟨p.line, p.column + 1⟩

def after (p : Position) (text : List Char) : Position := text.foldl next p

end Position

inductive Punctuation where
  | openParen
  | closeParen
  | openBrace
  | closeBrace
  | openBracket
  | closeBracket
  | comma
  | semicolon
  | colon
  | dot
  | equals
  | arrow
deriving DecidableEq

namespace Punctuation

def spelling : Punctuation → String
  | openParen => "("
  | closeParen => ")"
  | openBrace => "\x7b"
  | closeBrace => "\x7d"
  | openBracket => "["
  | closeBracket => "]"
  | comma => ","
  | semicolon => ";"
  | colon => ":"
  | dot => "."
  | equals => "="
  | arrow => "=>"

/-- The mark that is one character long and starts no longer mark. -/
def ofChar? : Char → Option Punctuation
  | '(' => some openParen
  | ')' => some closeParen
  | '\x7b' => some openBrace
  | '\x7d' => some closeBrace
  | '[' => some openBracket
  | ']' => some closeBracket
  | ',' => some comma
  | ';' => some semicolon
  | ':' => some colon
  | '.' => some dot
  | _ => none

end Punctuation

inductive Token where
  | word (name : String)
  /-- Spelled `+name`. -/
  | inputVar (name : String)
  /-- Spelled `!name`. -/
  | outputVar (name : String)
  /-- Spelled `?name`. -/
  | inOutVar (name : String)
  | number (x : Float)
  | text (s : String)
  | mark (p : Punctuation)
  | finish
deriving Inhabited

/-- A token as it is shown in an error. -/
def Token.describe : Token → String
  | word name => s!"`{name}`"
  | inputVar name => s!"`+{name}`"
  | outputVar name => s!"`!{name}`"
  | inOutVar name => s!"`?{name}`"
  | number x => s!"`{Decimal.plain.write x}`"
  | text s => Text.quoted s
  | mark p => s!"`{p.spelling}`"
  | finish => "end of input"

structure Placed where
  token : Token
  place : Position
deriving Inhabited

end TaskNetwork.Source
