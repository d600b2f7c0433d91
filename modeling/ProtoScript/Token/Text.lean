import ProtoScript.Token.Basic

/-!
# Tokens as text

How a token is written. Quoted texts escape the quote, the backslash, the line feed and the tab, and
nothing else; a list of tokens is written with single spaces between them, which is enough to keep
neighbours apart when the text is scanned again.
-/

namespace ProtoScript

/-- The characters that stand for one character inside a quoted text. -/
def escapeChar (c : Char) : List Char :=
  if c = '\n' then ['\\', 'n']
  else if c = '\t' then ['\\', 't']
  else if c = '"' then ['\\', '"']
  else if c = '\\' then ['\\', '\\']
  else [c]

/-- A text between quotes, with its special characters escaped. -/
def quoted (cs : List Char) : List Char :=
  '"' :: (cs.flatMap escapeChar ++ ['"'])

namespace Token

/-- The characters that a token is written with. -/
def chars : Token → List Char
  | mark m => m.chars
  | keyword k => k.chars
  | text contents => quoted contents.toList
  | number spelling => spelling.toList
  | name spelling => spelling.toList

/-- A token as it is written in a source text. -/
def spelling (t : Token) : String :=
  String.ofList t.chars

/-- A token as it is named in a message. -/
def shown (t : Token) : String :=
  "'" ++ t.spelling ++ "'"

/-- A text that scans to the given tokens. -/
def render (ts : List Token) : String :=
  " ".intercalate (ts.map spelling)

/-- How a token changes the number of brackets that wait to be closed. -/
def depthChange : Token → Int
  | mark .openParen | mark .openBracket | mark .openBrace => 1
  | mark .closeParen | mark .closeBracket | mark .closeBrace => -1
  | _ => 0

end Token

/-- How many of the brackets that the tokens open are still waiting to be closed; negative when more
are closed than opened. -/
def openBrackets (ts : List Lexeme) : Int :=
  ts.foldl (fun depth t => depth + t.token.depthChange) 0

end ProtoScript
