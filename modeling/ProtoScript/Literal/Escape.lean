/-!
# Escape sequences

A backslash in a character or string literal gives the next character another meaning.
-/

namespace ProtoScript.Literal

/-- The character that a backslash in front of `c` stands for. -/
def escaped : Char → Option Char
  | 'b' => some '\x08'
  | 'n' => some '\n'
  | 'r' => some '\r'
  | 't' => some '\t'
  | '\'' => some '\''
  | '"' => some '"'
  | '\\' => some '\\'
  | _ => none

/-- Replaces escape sequences from left to right. A backslash that starts none stays. -/
def decodeEscapes : List Char → List Char
  | [] => []
  | [c] => [c]
  | c :: d :: rest =>
      if c = '\\' then
        match escaped d with
        | some e => e :: decodeEscapes rest
        | none => c :: d :: decodeEscapes rest
      else c :: decodeEscapes (d :: rest)

/-- The text that a quoted literal denotes: without its first and last character, which are the
quotes, and with its escape sequences replaced. -/
def decode (literal : String) : String :=
  String.ofList (decodeEscapes (literal.toList.drop 1).dropLast)

end ProtoScript.Literal
