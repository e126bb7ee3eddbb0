import Reparse.Json.Lexer

/-!
Reading JSON texts. The tokens drive a machine with a stack of open containers, so no nesting is
too deep. The machine knows at each token what may come next; a comma has to be followed by
another item or member, and a text holds exactly one value.
-/

namespace Reparse.Json

/-- An open container, with what it holds so far, newest first. An open object knows the key of
the member that is being read. -/
inductive Frame where
  | array (items : List Json)
  | object (members : List (Option String × Json)) (key : Option String)

/-- What may come next. -/
inductive Expect where
  | value
  /-- Right behind an opening square bracket. -/
  | valueOrClose
  /-- Right behind an opening brace. -/
  | keyOrClose
  | key
  | colon
  /-- Right behind a value. -/
  | commaOrClose

/-- The machine: what may come next, the open containers, innermost first, and the value of the
text. -/
structure Reader where
  expect : Expect
  stack : List Frame
  result : Option Json

namespace Reader

/-- Before the first token. -/
def initial : Reader := ⟨.value, [], none⟩

/-- A value is complete. -/
def put (v : Json) (result : Option Json) : List Frame → Reader
  | [] => ⟨.commaOrClose, [], some v⟩
  | .array items :: rest => ⟨.commaOrClose, .array (v :: items) :: rest, result⟩
  | .object members key :: rest =>
    ⟨.commaOrClose, .object ((key, v) :: members) none :: rest, result⟩

/-- A container is closed by the mark given. -/
def close (r : Reader) (t : Token) : Option Reader :=
  match t, r.stack with
  | .closeArray, .array items :: rest => some (put (.array items.reverse) r.result rest)
  | .closeObject, .object members _ :: rest => some (put (.object members.reverse) r.result rest)
  | _, _ => none

/-- A value begins. -/
def beginValue (r : Reader) (t : Token) : Option Reader :=
  match t with
  | .value v => some (put v r.result r.stack)
  | .openArray => some { r with expect := .valueOrClose, stack := .array [] :: r.stack }
  | .openObject => some { r with expect := .keyOrClose, stack := .object [] none :: r.stack }
  | _ => none

/-- A member begins with its key. -/
def beginMember (r : Reader) (t : Token) : Option Reader :=
  match t, r.stack with
  | .value (.string key), .object members _ :: rest =>
    some { r with expect := .colon, stack := .object members key :: rest }
  | _, _ => none

/-- Reads the next token. -/
def step (r : Reader) (t : Token) : Option Reader :=
  match r.expect, t with
  | .value, t => r.beginValue t
  | .valueOrClose, .closeArray => r.close t
  | .valueOrClose, t => r.beginValue t
  | .keyOrClose, .closeObject => r.close t
  | .keyOrClose, t => r.beginMember t
  | .key, t => r.beginMember t
  | .colon, .colon => some { r with expect := .value }
  | .colon, _ => none
  | .commaOrClose, .comma =>
    match r.stack with
    | .array _ :: _ => some { r with expect := .value }
    | .object _ _ :: _ => some { r with expect := .key }
    | [] => none
  | .commaOrClose, t => r.close t

/-- The value when the text ends. -/
def finish (r : Reader) : Option Json :=
  if r.stack.isEmpty then r.result else none

end Reader

/-- The value of a text. -/
def parse? (cs : List Char) : Option Json :=
  (tokens? cs).bind fun ts => (ts.foldlM Reader.step .initial).bind Reader.finish

end Reparse.Json
