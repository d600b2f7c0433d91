import ProtoScript.Diagnostic

/-!
# Tokens

The words of the language. A token is a punctuation mark, a keyword, the contents of a quoted text,
a numeral or a name. Marks and keywords are finite enumerations whose spellings are given as lists
of characters, so that the scanner and the printer share one table.
-/

namespace ProtoScript

/-- The punctuation marks. -/
inductive Mark where
  | spaceship | lessEqual | greaterEqual | equalEqual | bangEqual | arrow
  | plusEqual | minusEqual | starEqual | slashEqual | andAnd | orOr
  | openParen | closeParen | openBrace | closeBrace | openBracket | closeBracket
  | comma | semicolon | colon | dot | plus | minus | star | slash | percent
  | less | greater | equal | bang | pipe | ampersand
deriving DecidableEq, Repr, Inhabited

namespace Mark

/-- The characters that a mark is written with. -/
def chars : Mark → List Char
  | spaceship => ['<', '=', '>']
  | lessEqual => ['<', '=']
  | greaterEqual => ['>', '=']
  | equalEqual => ['=', '=']
  | bangEqual => ['!', '=']
  | arrow => ['-', '>']
  | plusEqual => ['+', '=']
  | minusEqual => ['-', '=']
  | starEqual => ['*', '=']
  | slashEqual => ['/', '=']
  | andAnd => ['&', '&']
  | orOr => ['|', '|']
  | openParen => ['(']
  | closeParen => [')']
  | openBrace => ['\x7b']
  | closeBrace => ['\x7d']
  | openBracket => ['[']
  | closeBracket => [']']
  | comma => [',']
  | semicolon => [';']
  | colon => [':']
  | dot => ['.']
  | plus => ['+']
  | minus => ['-']
  | star => ['*']
  | slash => ['/']
  | percent => ['%']
  | less => ['<']
  | greater => ['>']
  | equal => ['=']
  | bang => ['!']
  | pipe => ['|']
  | ampersand => ['&']

/-- All marks, longer spellings first, so that the first one that fits is the longest. -/
def all : List Mark :=
  [spaceship, lessEqual, greaterEqual, equalEqual, bangEqual, arrow, plusEqual, minusEqual,
    starEqual, slashEqual, andAnd, orOr, openParen, closeParen, openBrace, closeBrace, openBracket,
    closeBracket, comma, semicolon, colon, dot, plus, minus, star, slash, percent, less, greater,
    equal, bang, pipe, ampersand]

theorem mem_all (m : Mark) : m ∈ all := by
  cases m <;> decide

theorem chars_ne_nil (m : Mark) : m.chars ≠ [] := by
  cases m <;> simp [chars]

/-- The longest mark that the text starts with. -/
def leading? (cs : List Char) : Option Mark :=
  all.find? fun m => m.chars.isPrefixOf cs

theorem isPrefixOf_of_leading? {cs : List Char} {m : Mark} (h : leading? cs = some m) :
    m.chars.isPrefixOf cs = true := by
  simpa using List.find?_some h

/-- Whether some mark starts with this character. -/
def starts (c : Char) : Bool :=
  all.any fun m => m.chars.head? == some c

end Mark

/-- The words that are reserved. -/
inductive Keyword where
  | letWord | funcWord | ifWord | elifWord | elseWord | whileWord | forWord | inWord | returnWord
  | importWord | macroWord | mixinWord | trueWord | falseWord | nullWord
deriving DecidableEq, Repr, Inhabited

namespace Keyword

/-- The characters that a keyword is written with. -/
def chars : Keyword → List Char
  | letWord => ['l', 'e', 't']
  | funcWord => ['f', 'u', 'n', 'c']
  | ifWord => ['i', 'f']
  | elifWord => ['e', 'l', 'i', 'f']
  | elseWord => ['e', 'l', 's', 'e']
  | whileWord => ['w', 'h', 'i', 'l', 'e']
  | forWord => ['f', 'o', 'r']
  | inWord => ['i', 'n']
  | returnWord => ['r', 'e', 't', 'u', 'r', 'n']
  | importWord => ['i', 'm', 'p', 'o', 'r', 't']
  | macroWord => ['m', 'a', 'c', 'r', 'o']
  | mixinWord => ['m', 'i', 'x', 'i', 'n']
  | trueWord => ['t', 'r', 'u', 'e']
  | falseWord => ['f', 'a', 'l', 's', 'e']
  | nullWord => ['n', 'u', 'l', 'l']

/-- All keywords. -/
def all : List Keyword :=
  [letWord, funcWord, ifWord, elifWord, elseWord, whileWord, forWord, inWord, returnWord,
    importWord, macroWord, mixinWord, trueWord, falseWord, nullWord]

/-- The keyword with this spelling. -/
def ofChars? (cs : List Char) : Option Keyword :=
  all.find? fun k => k.chars == cs

theorem ofChars?_chars (k : Keyword) : ofChars? k.chars = some k := by
  cases k <;> decide

end Keyword

/-- A word of the language. Numerals are kept as written: what number they stand for is decided
where they are used. -/
inductive Token where
  | mark (m : Mark)
  | keyword (k : Keyword)
  | text (contents : String)
  | number (spelling : String)
  | name (spelling : String)
deriving DecidableEq, Repr, Inhabited

/-- A token together with the place of its first character. -/
structure Lexeme where
  token : Token
  pos : Position
deriving DecidableEq, Repr, Inhabited

end ProtoScript
