import LoadReplay.Json.Lexer

/-!
# Reading JSON values

The tokens of a text are taken one by one by a machine whose stack holds the lists and records that
are still open, innermost first.  Reading is therefore a fold over the tokens.
-/

namespace LoadReplay.Json

/-- A list or record that is still open.  What it holds so far stands last first. -/
inductive Frame where
  | list (items : List Value)
  /-- A record with the key of the entry being read. -/
  | record (entries : List (Text × Value)) (key : Text)

/-- What has to come next. -/
inductive Want where
  | value
  /-- The first item of a list, or its end. -/
  | itemOrEnd
  /-- The first key of a record, or its end. -/
  | keyOrEnd
  | key
  | colon
  /-- A comma, or the end of the innermost list or record. -/
  | commaOrEnd
  /-- Nothing: the text is over with this value. -/
  | nothing (result : Value)

/-- The state of the machine between two tokens. -/
structure Machine where
  stack : List Frame
  want : Want

/-- Puts a finished value where it belongs. -/
def Machine.finish (v : Value) : List Frame → Machine
  | [] => ⟨[], .nothing v⟩
  | .list items :: stack => ⟨.list (v :: items) :: stack, .commaOrEnd⟩
  | .record entries key :: stack => ⟨.record ((key, v) :: entries) none :: stack, .commaOrEnd⟩

/-- The value that a token begins or is. -/
def Machine.begin (stack : List Frame) : Token → Option Machine
  | .openList => some ⟨.list [] :: stack, .itemOrEnd⟩
  | .openRecord => some ⟨.record [] none :: stack, .keyOrEnd⟩
  | .null => some (finish .null stack)
  | .truth b => some (finish (.truth b) stack)
  | .number n => some (finish (.number n) stack)
  | .text t => some (finish (.text t) stack)
  | _ => none

/-- Ends the innermost list or record. -/
def Machine.close (stack : List Frame) : Token → Option Machine
  | .closeList =>
    match stack with
    | .list items :: stack => some (finish (.list items.reverse) stack)
    | _ => none
  | .closeRecord =>
    match stack with
    | .record entries _ :: stack => some (finish (.record entries.reverse) stack)
    | _ => none
  | _ => none

/-- Takes a key. -/
def Machine.takeKey (stack : List Frame) : Token → Option Machine
  | .text k =>
    match stack with
    | .record entries _ :: stack => some ⟨.record entries k :: stack, .colon⟩
    | _ => none
  | _ => none

/-- What follows a comma: another item or another key. -/
def Machine.afterComma (stack : List Frame) : Machine :=
  match stack with
  | .record _ _ :: _ => ⟨stack, .key⟩
  | _ => ⟨stack, .value⟩

/-- Takes a token. -/
def Machine.step (m : Machine) (t : Token) : Option Machine :=
  match m.want with
  | .value => begin m.stack t
  | .itemOrEnd => (close m.stack t).or (begin m.stack t)
  | .keyOrEnd => (close m.stack t).or (takeKey m.stack t)
  | .key => takeKey m.stack t
  | .colon =>
    match t with
    | .colon => some ⟨m.stack, .value⟩
    | _ => none
  | .commaOrEnd =>
    match t with
    | .comma => some (afterComma m.stack)
    | t => close m.stack t
  | .nothing _ => none

/-- Before the first token. -/
def Machine.start : Machine := ⟨[], .value⟩

/-- The value that some tokens are, if they are exactly one. -/
def Value.ofTokens? (ts : List Token) : Option Value :=
  match ts.foldlM Machine.step Machine.start with
  | some ⟨_, .nothing v⟩ => some v
  | _ => none

/-- Reads a JSON text. -/
def read (s : List Char) : Option Value := (lex s).bind Value.ofTokens?

end LoadReplay.Json
