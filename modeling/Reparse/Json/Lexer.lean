import Reparse.Json.Basic
import Reparse.Text.Decimal

/-!
The tokens of a JSON text. The text is read character by character by an automaton that is between
two tokens or inside one; a number or a word ends at the first character that cannot belong to it.
Nothing but space, tab, line feed and carriage return may stand between tokens.
-/

namespace Reparse.Json

/-- A token: a punctuation mark, or a value that is no container. -/
inductive Token where
  | openArray
  | closeArray
  | openObject
  | closeObject
  | comma
  | colon
  | value (v : Json)

/-- A character of a string, written as it is or as the number of a UTF-16 code unit. -/
inductive StringUnit where
  | plain (c : Char)
  | code (n : Nat)

/-- Where the automaton is. What has been read of a token is kept newest first. -/
inductive LexerMode where
  | between
  | word (letters : List Char)
  | number (chars : List Char)
  | string (units : List StringUnit)
  /-- Behind a backslash in a string. -/
  | escape (units : List StringUnit)
  /-- Among the four hexadecimal digits of an escape. -/
  | hex (units : List StringUnit) (missing value : Nat)

/-- The automaton: where it is, and the tokens behind it, newest first. -/
structure Lexer where
  mode : LexerMode
  tokens : List Token

/-- The text of a string, given newest first; none if a surrogate stands without its partner.
`text` is what has been put together so far. -/
def stringText (text : List Char) : List StringUnit → Option String
  | [] => some (String.ofList text)
  | .plain c :: rest => stringText (c :: text) rest
  | .code low :: .code high :: rest =>
    if 0xDC00 ≤ low && low ≤ 0xDFFF && 0xD800 ≤ high && high ≤ 0xDBFF then
      let c := Char.ofNat (0x10000 + (high - 0xD800) * 0x400 + (low - 0xDC00))
      stringText (c :: text) rest
    else if 0xD800 ≤ low && low ≤ 0xDFFF then none
    else stringText (Char.ofNat low :: text) (.code high :: rest)
  | .code n :: rest =>
    if 0xD800 ≤ n && n ≤ 0xDFFF then none else stringText (Char.ofNat n :: text) rest

/-- The value of a word. -/
def wordValue? (letters : List Char) : Option Json :=
  if letters = "null".toList then some .null
  else if letters = "true".toList then some (.bool true)
  else if letters = "false".toList then some (.bool false)
  else none

/-- An integer part: a zero alone, or digits that do not begin with one. -/
def isIntegerPart : List Char → Bool
  | [] => false
  | ['0'] => true
  | c :: cs => c != '0' && (c :: cs).all Char.isDigit

/-- One or more digits. -/
def isDigits (cs : List Char) : Bool :=
  (Text.natural? cs).isSome

/-- Nothing, or an exponent. -/
def isExponent : List Char → Bool
  | [] => true
  | e :: cs =>
    (e == 'e' || e == 'E') && match cs with
      | '+' :: ds => isDigits ds
      | '-' :: ds => isDigits ds
      | ds => isDigits ds

/-- Nothing, or a fraction, an exponent, or both. -/
def isFraction : List Char → Bool
  | '.' :: cs => isDigits (cs.takeWhile Char.isDigit) && isExponent (cs.dropWhile Char.isDigit)
  | cs => isExponent cs

/-- The value of a number as it is written. -/
def numberValue? (chars : List Char) : Option Json :=
  let (negative, magnitude) := match chars with
    | '-' :: cs => (true, cs)
    | cs => (false, cs)
  let whole := magnitude.takeWhile Char.isDigit
  let rest := magnitude.dropWhile Char.isDigit
  if !isIntegerPart whole || !isFraction rest then none
  else if !rest.isEmpty || (negative && whole == ['0']) then some (.numeral (String.ofList chars))
  else
    let n := Int.ofNat (Text.digitsValue whole)
    some (.integer (if negative then -n else n))

/-- The value of a hexadecimal digit. -/
def hexValue? (c : Char) : Option Nat :=
  if c.isDigit then some (c.toNat - '0'.toNat)
  else if 'a' ≤ c && c ≤ 'f' then some (c.toNat - 'a'.toNat + 10)
  else if 'A' ≤ c && c ≤ 'F' then some (c.toNat - 'A'.toNat + 10)
  else none

/-- The character that a short escape stands for. -/
def escapeValue? (c : Char) : Option Char :=
  match c with
  | '"' => some '"'
  | '\\' => some '\\'
  | '/' => some '/'
  | 'b' => some '\x08'
  | 'f' => some '\x0c'
  | 'n' => some '\n'
  | 'r' => some '\r'
  | 't' => some '\t'
  | _ => none

namespace Lexer

/-- Before the first character. -/
def initial : Lexer := ⟨.between, []⟩

/-- Reads a character between two tokens. -/
def begin (tokens : List Token) (c : Char) : Option Lexer :=
  if c == ' ' || c == '\t' || c == '\n' || c == '\r' then some ⟨.between, tokens⟩
  else if c == '[' then some ⟨.between, .openArray :: tokens⟩
  else if c == ']' then some ⟨.between, .closeArray :: tokens⟩
  else if c == '{' then some ⟨.between, .openObject :: tokens⟩
  else if c == '}' then some ⟨.between, .closeObject :: tokens⟩
  else if c == ',' then some ⟨.between, .comma :: tokens⟩
  else if c == ':' then some ⟨.between, .colon :: tokens⟩
  else if c == '"' then some ⟨.string [], tokens⟩
  else if c == '-' || c.isDigit then some ⟨.number [c], tokens⟩
  else if c.isLower then some ⟨.word [c], tokens⟩
  else none

/-- Reads the next character. -/
def step (l : Lexer) (c : Char) : Option Lexer :=
  match l.mode with
  | .between => begin l.tokens c
  | .word letters =>
    if c.isLower then some { l with mode := .word (c :: letters) }
    else (wordValue? letters.reverse).bind fun v => begin (.value v :: l.tokens) c
  | .number chars =>
    if c.isDigit || c == '.' || c == 'e' || c == 'E' || c == '+' || c == '-' then
      some { l with mode := .number (c :: chars) }
    else (numberValue? chars.reverse).bind fun v => begin (.value v :: l.tokens) c
  | .string units =>
    if c == '"' then some ⟨.between, .value (.string (stringText [] units)) :: l.tokens⟩
    else if c == '\\' then some { l with mode := .escape units }
    else if c.toNat < 0x20 then none
    else some { l with mode := .string (.plain c :: units) }
  | .escape units =>
    if c == 'u' then some { l with mode := .hex units 4 0 }
    else (escapeValue? c).map fun d => { l with mode := .string (.plain d :: units) }
  | .hex units missing value =>
    (hexValue? c).map fun d =>
      let value := value * 16 + d
      if missing ≤ 1 then { l with mode := .string (.code value :: units) }
      else { l with mode := .hex units (missing - 1) value }

/-- The tokens when the text ends, newest first. -/
def finish (l : Lexer) : Option (List Token) :=
  match l.mode with
  | .between => some l.tokens
  | .word letters => (wordValue? letters.reverse).map (.value · :: l.tokens)
  | .number chars => (numberValue? chars.reverse).map (.value · :: l.tokens)
  | _ => none

end Lexer

/-- The tokens of a text. -/
def tokens? (cs : List Char) : Option (List Token) :=
  ((cs.foldlM Lexer.step .initial).bind Lexer.finish).map List.reverse

end Reparse.Json
