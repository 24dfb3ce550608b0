import EventPattern.Json.Basic

/-! JSON text by its grammar.

A `Tree` is JSON text taken apart and not yet read: numbers and strings are still as they
were written, and an object has its entries in the order of the text, repetitions
included. So a reader that wants only some of the fields never looks at the others.

Text is cut into tokens by one pass over its characters (`Lexer.step`), and the tokens are
put together by one pass over them (`Builder.step`) that keeps the open brackets on a
stack. -/
namespace EventPattern.Json

inductive Tree where
  | null
  | bool (value : Bool)
  | number (lexeme : List Char)
  /-- The characters between the quotes, escapes unread. -/
  | string (raw : List Char)
  | array (items : List Tree)
  | object (entries : List (List Char × Tree))
deriving Inhabited

inductive Token where
  | openArray
  | closeArray
  | openObject
  | closeObject
  | comma
  | colon
  | scalar (tree : Tree)
  | string (raw : List Char)

/-! ### Numbers -/

/-- A number as written: sign, digits before and after the point, exponent. -/
structure Numeral where
  negative : Bool
  whole : List Char
  fraction : Option (List Char)
  exponent : Option (Bool × List Char)

namespace Numeral

def exponent? : List Char → Option (Bool × List Char)
  | '+' :: digits => some (false, digits)
  | '-' :: digits => some (true, digits)
  | digits => some (false, digits)

/-- The grammar of numbers: no leading zero, and a digit wherever digits are due. -/
def ofLexeme? (lexeme : List Char) : Option Numeral := do
  let (negative, rest) := match lexeme with
    | '-' :: rest => (true, rest)
    | rest => (false, rest)
  let (whole, rest) := rest.span Char.isDigit
  guard (whole ≠ [] ∧ (whole = ['0'] ∨ whole.head? ≠ some '0'))
  let (fraction, rest) := match rest with
    | '.' :: rest => let (digits, rest) := rest.span Char.isDigit; (some digits, rest)
    | rest => (none, rest)
  guard (fraction ≠ some [])
  match rest with
  | [] => some { negative, whole, fraction, exponent := none }
  | mark :: rest =>
    guard (mark = 'e' ∨ mark = 'E')
    let (down, digits) ← exponent? rest
    guard (digits ≠ [] ∧ digits.all Char.isDigit)
    some { negative, whole, fraction, exponent := some (down, digits) }

end Numeral

/-! ### Characters to tokens -/

namespace Lexer

inductive Mode where
  | between
  /-- Inside quotes; the characters so far, last first. -/
  | quoted (raw : List Char)
  | escaped (raw : List Char)
  /-- Inside a `\u` escape, with this many digits to come. -/
  | hex (left : Nat) (raw : List Char)
  /-- Inside a number or a word. -/
  | word (chars : List Char)

structure State where
  mode : Mode := .between
  /-- Last first. -/
  tokens : List Token := []

def isBlank (c : Char) : Bool := c = ' ' || c = '\t' || c = '\n' || c = '\r'

def isWordChar (c : Char) : Bool := c.isAlphanum || c = '-' || c = '+' || c = '.'

def isHexDigit (c : Char) : Bool :=
  c.isDigit || ('a' ≤ c && c ≤ 'f') || ('A' ≤ c && c ≤ 'F')

def wordToken? (chars : List Char) : Option Token :=
  if chars = "null".toList then some (.scalar .null)
  else if chars = "true".toList then some (.scalar (.bool true))
  else if chars = "false".toList then some (.scalar (.bool false))
  else (Numeral.ofLexeme? chars).map fun _ => .scalar (.number chars)

def bracket? (c : Char) : Option Token :=
  match c with
  | '[' => some .openArray
  | ']' => some .closeArray
  | '{' => some .openObject
  | '}' => some .closeObject
  | ',' => some .comma
  | ':' => some .colon
  | _ => none

def stepBetween (tokens : List Token) (c : Char) : Option State :=
  if isBlank c then some { tokens }
  else if c = '"' then some { mode := .quoted [], tokens }
  else if isWordChar c then some { mode := .word [c], tokens }
  else (bracket? c).map fun token => { tokens := token :: tokens }

def step (s : State) (c : Char) : Option State :=
  match s.mode with
  | .between => stepBetween s.tokens c
  | .word chars =>
    if isWordChar c then some { s with mode := .word (c :: chars) }
    else (wordToken? chars.reverse).bind fun token => stepBetween (token :: s.tokens) c
  | .quoted raw =>
    if c = '"' then some { tokens := .string raw.reverse :: s.tokens }
    else if c = '\\' then some { s with mode := .escaped (c :: raw) }
    else if c.toNat < 32 then none
    else some { s with mode := .quoted (c :: raw) }
  | .escaped raw =>
    if c = 'u' then some { s with mode := .hex 4 (c :: raw) }
    else if c ∈ "\"\\/bfnrt".toList then some { s with mode := .quoted (c :: raw) }
    else none
  | .hex left raw =>
    if isHexDigit c then
      some { s with mode := if left ≤ 1 then .quoted (c :: raw) else .hex (left - 1) (c :: raw) }
    else none

def finish (s : State) : Option (List Token) :=
  match s.mode with
  | .between => some s.tokens.reverse
  | .word chars => (wordToken? chars.reverse).map fun token => (token :: s.tokens).reverse
  | _ => none

end Lexer

def tokens? (text : List Char) : Option (List Token) :=
  (text.foldlM Lexer.step {}).bind Lexer.finish

/-! ### Tokens to trees -/

namespace Builder

/-- An open bracket with what stands in it so far, last first. -/
inductive Frame where
  | array (items : List Tree)
  | object (entries : List (List Char × Tree))
  /-- An object whose last key still awaits its value. -/
  | entry (key : List Char) (entries : List (List Char × Tree))

/-- What may come next. -/
inductive Phase where
  | value
  | valueOrClose
  | key
  | keyOrClose
  | colon
  /-- A comma or the closing bracket. -/
  | next
  | done (tree : Tree)

structure State where
  stack : List Frame := []
  phase : Phase := .value

/-- A finished value goes into the innermost open bracket. -/
def place (tree : Tree) : List Frame → Option State
  | [] => some { phase := .done tree }
  | .array items :: rest => some { stack := .array (tree :: items) :: rest, phase := .next }
  | .entry key entries :: rest =>
    some { stack := .object ((key, tree) :: entries) :: rest, phase := .next }
  | .object _ :: _ => none

def beginValue (token : Token) (stack : List Frame) : Option State :=
  match token with
  | .scalar tree => place tree stack
  | .string raw => place (.string raw) stack
  | .openArray => some { stack := .array [] :: stack, phase := .valueOrClose }
  | .openObject => some { stack := .object [] :: stack, phase := .keyOrClose }
  | _ => none

def close (token : Token) (stack : List Frame) : Option State :=
  match token, stack with
  | .closeArray, .array items :: rest => place (.array items.reverse) rest
  | .closeObject, .object entries :: rest => place (.object entries.reverse) rest
  | _, _ => none

def takeKey (token : Token) (stack : List Frame) : Option State :=
  match token, stack with
  | .string key, .object entries :: rest =>
    some { stack := .entry key entries :: rest, phase := .colon }
  | _, _ => none

def step (s : State) (token : Token) : Option State :=
  match s.phase, token, s.stack with
  | .value, _, _ => beginValue token s.stack
  | .valueOrClose, .closeArray, _ => close token s.stack
  | .valueOrClose, _, _ => beginValue token s.stack
  | .keyOrClose, .closeObject, _ => close token s.stack
  | .keyOrClose, _, _ => takeKey token s.stack
  | .key, _, _ => takeKey token s.stack
  | .colon, .colon, _ => some { s with phase := .value }
  | .next, .comma, .array _ :: _ => some { s with phase := .value }
  | .next, .comma, .object _ :: _ => some { s with phase := .key }
  | .next, _, _ => close token s.stack
  | _, _, _ => none

def finish (s : State) : Option Tree :=
  match s.phase with
  | .done tree => some tree
  | _ => none

end Builder

/-- The tree of a text, `none` when the text is no JSON. -/
def tree? (text : String) : Option Tree := do
  let tokens ← tokens? text.toList
  let built ← tokens.foldlM Builder.step {}
  Builder.finish built

end EventPattern.Json
