import EventPattern.Json.Basic

/-! JSON text.

`compact` writes no blanks, `pretty` one field or item a line with an indent of two;
both write the fields of an object in the order they have. Strings are quoted with the
short escapes where there is one and `\u00xx` for the other control characters, and all
else is written as it is. -/
namespace EventPattern

def lowerHex (n : Nat) : Char := (Nat.toDigits 16 (n % 16)).headD '0'

def escapeChar (c : Char) : List Char :=
  match c with
  | '"' => ['\\', '"']
  | '\\' => ['\\', '\\']
  | '\n' => ['\\', 'n']
  | '\r' => ['\\', 'r']
  | '\t' => ['\\', 't']
  | '\x08' => ['\\', 'b']
  | '\x0c' => ['\\', 'f']
  | c =>
    if c.toNat < 32 then ['\\', 'u', '0', '0', lowerHex (c.toNat / 16), lowerHex c.toNat]
    else [c]

/-- A string between quotes. -/
def quote (text : String) : String :=
  String.ofList ('"' :: text.toList.flatMap escapeChar ++ ['"'])

def Number.text : Number → String
  | int i _ => Int.repr i
  | real x => Layout.json.render x
  | negativeZero => "-0.0"

namespace Json

/-! ### Without blanks -/

mutual

def compact : Json → String
  | .null => "null"
  | .bool true => "true"
  | .bool false => "false"
  | .number n => n.text
  | .string text => quote text
  | .array items => "[" ++ ",".intercalate (compactItems items) ++ "]"
  | .object fields => "\x7b" ++ ",".intercalate (compactFields fields) ++ "\x7d"

def compactItems : List Json → List String
  | [] => []
  | item :: rest => compact item :: compactItems rest

def compactFields : List (String × Json) → List String
  | [] => []
  | (key, value) :: rest => (quote key ++ ":" ++ compact value) :: compactFields rest

end

/-! ### With one field or item a line -/

/-- Lines between brackets, nothing between them when there are none. -/
def bracketed (left right : String) (indent : String) : List String → String
  | [] => left ++ right
  | lines =>
    let inner := indent ++ "  "
    left ++ "\n" ++ ",\n".intercalate (lines.map (inner ++ ·)) ++ "\n" ++ indent ++ right

mutual

def prettyAt (indent : String) : Json → String
  | .array items => bracketed "[" "]" indent (prettyItems (indent ++ "  ") items)
  | .object fields => bracketed "\x7b" "\x7d" indent (prettyFields (indent ++ "  ") fields)
  | scalar => compact scalar

def prettyItems (indent : String) : List Json → List String
  | [] => []
  | item :: rest => prettyAt indent item :: prettyItems indent rest

def prettyFields (indent : String) : List (String × Json) → List String
  | [] => []
  | (key, value) :: rest =>
    (quote key ++ ": " ++ prettyAt indent value) :: prettyFields indent rest

end

def pretty (json : Json) : String := prettyAt "" json

end Json
end EventPattern
