import NestedRead.Environment
import NestedRead.Text.CharClass

/-!
# Files of variables

A file of variables has an assignment `NAME=value` a line. The value may be quoted, and continues
on the next line while a quote is open; outside single quotes a backslash escapes and a dollar
sign stands for the value of a variable. A hash behind a blank starts a comment.

Both parts are scanners over characters: `Line` finds where a line ends, `Value` reads what stands
behind the equals sign. `Environment.load` adds the variables that are not yet set, and stops at
the first line that is wrong.
-/

set_option autoImplicit false

namespace NestedRead

namespace VariableFile

/-! ## Lines -/

/-- Where the scan of a line stands. -/
inductive LineState where
  | complete
  | blank
  | escape
  | single
  | singleEscape
  | double
  | doubleEscape
  | comment
deriving DecidableEq, Repr

/-- The state behind one more character. -/
def LineState.step (state : LineState) (c : Char) : LineState :=
  let mark (other : LineState) : LineState :=
    if c == '\\' then .escape else if c == '"' then .double
    else if c == '\x27' then .single else other
  match state with
  | .complete =>
    if CharClass.isWhitespace c && c != '\n' && c != '\r' then .blank else mark .complete
  | .blank => if c == '#' then .comment else mark .complete
  | .escape => .complete
  | .single => if c == '\\' then .singleEscape else if c == '\x27' then .complete else .single
  | .singleEscape => .single
  | .double => if c == '\\' then .doubleEscape else if c == '"' then .complete else .double
  | .doubleEscape => .double
  | .comment => .comment

/-- The text up to a comment, and the state at its end. -/
def scan (state : LineState) : List Char → List Char × LineState
  | [] => ([], state)
  | c :: rest =>
    match state.step c with
    | .comment => ([], .comment)
    | next =>
      let (text, last) := scan next rest
      (c :: text, last)

/-- The lines of a text, each with its line end. -/
def rawLines : List Char → List (List Char)
  | [] => []
  | c :: rest =>
    if c = '\n' then [c] :: rawLines rest
    else match rawLines rest with
      | [] => [[c]]
      | line :: more => (c :: line) :: more

def trimStart (text : List Char) : List Char := text.dropWhile CharClass.isWhitespace

def trimEnd (text : List Char) : List Char := (trimStart text.reverse).reverse

/-- Lines put together while a quote or an escape is open; `pending` is what came before, with
its state. A line that stays open at the end of the text is none. -/
def lines (pending : List Char) (state : LineState) : List (List Char) → List (Option (List Char))
  | [] => if state = .complete then [] else [none]
  | line :: rest =>
    if (trimStart (pending ++ line)).head? == some '#' then lines [] .complete rest
    else
      let (text, last) := scan state line
      match last with
      | .complete | .comment => some (pending ++ text) :: lines [] .complete rest
      | open_ => lines (pending ++ text) open_ rest

/-! ## Values -/

/-- Where the scan of a value stands. -/
inductive Mode where
  | text
  | escape
  /-- Inside single quotes. -/
  | single
  /-- Behind a dollar sign, with the name so far. -/
  | name (name : List Char)
  /-- Behind a dollar sign and an opening brace. -/
  | braced (name : List Char)
  /-- Behind the value. -/
  | after
  | comment
deriving DecidableEq, Repr

/-- A value as far as it has been read. -/
structure Value where
  text : List Char := []
  /-- Inside double quotes. -/
  quoted : Bool := false
  mode : Mode := .text

namespace Value

variable (lookup : String → Option String)

def push (v : Value) (c : Char) : Value := { v with text := v.text ++ [c] }

/-- What a variable stands for, put behind the text; nothing where it is not set. -/
def substitute (v : Value) (name : List Char) : Value :=
  { v with text := v.text ++ ((lookup (String.ofList name)).getD "").toList, mode := .text }

/-- The value behind one more character. -/
def step? (v : Value) (c : Char) : Option Value :=
  match v.mode with
  | .after =>
    if c == ' ' || c == '\t' then some v
    else if c == '#' then some { v with mode := .comment }
    else none
  | .comment => some v
  | .escape =>
    if c == '\\' || c == '\x27' || c == '"' || c == '$' || c == ' ' then
      some { v.push c with mode := .text }
    else if c == 'n' then some { v.push '\n' with mode := .text }
    else none
  | .single => some (if c == '\x27' then { v with mode := .text } else v.push c)
  | .name name =>
    if CharClass.isAlphanumeric c then some { v with mode := .name (name ++ [c]) }
    else if c == '\x7b' && name.isEmpty then some { v with mode := .braced [] }
    else if c == '$' then some { v.substitute lookup name with mode := .name [] }
    else some ((v.substitute lookup name).push c)
  | .braced name =>
    if c == '\x7d' then some (v.substitute lookup name)
    else some { v with mode := .braced (name ++ [c]) }
  | .text =>
    if c == '$' then some { v with mode := .name [] }
    else if c == '"' then some { v with quoted := !v.quoted }
    else if c == '\\' then some { v with mode := .escape }
    else if v.quoted then some (v.push c)
    else if c == '\x27' then some { v with mode := .single }
    else if c == ' ' || c == '\t' then some { v with mode := .after }
    else some (v.push c)

/-- The text of a value that has been read to its end, where no quote or brace is open. -/
def finish? (v : Value) : Option String :=
  if v.quoted then none
  else match v.mode with
    | .single | .braced _ => none
    | .name name => some (String.ofList (v.substitute lookup name).text)
    | _ => some (String.ofList v.text)

/-- The value that a text spells. -/
def ofText? (text : List Char) : Option String :=
  text.foldlM (step? lookup) {} >>= finish? lookup

end Value

/-! ## Assignments -/

/-- A name and what stands behind it. -/
def name? (text : List Char) : Option (String × List Char) :=
  match text with
  | c :: _ =>
    if c.isAlpha || c == '_' then
      let (name, rest) := text.span fun c => c.isAlphanum || c == '_' || c == '.'
      some (String.ofList name, trimStart rest)
    else none
  | [] => none

/-- What stands behind an equals sign. -/
def afterEquals? : List Char → Option (List Char)
  | '=' :: rest => some (trimStart rest)
  | _ => none

/-- The assignment in a line that is neither blank nor a comment. The word `export` may stand
before the name. -/
def assignment? (lookup : String → Option String) (line : List Char) :
    Option (String × String) := do
  let (first, rest) ← name? line
  let (name, rest) ← match afterEquals? rest with
    | some value => some (first, value)
    | none =>
      if first = "export" then do
        let (name, rest) ← name? rest
        pure (name, ← afterEquals? rest)
      else none
  if rest.isEmpty || rest.head? == some '#' then return (name, "")
  else return (name, ← Value.ofText? lookup rest)

end VariableFile

namespace Environment

/-- The environment with the variables of lines that are not yet set. The first line that is wrong
ends the file. -/
def loadLines (environment : Environment) : List (Option (List Char)) → Environment
  | [] => environment
  | none :: _ => environment
  | some line :: rest =>
    let line := VariableFile.trimStart (VariableFile.trimEnd line)
    if line.isEmpty || line.head? == some '#' then loadLines environment rest
    else match VariableFile.assignment? environment.text? line with
      | none => environment
      | some (name, value) =>
        if (environment.text? name).isSome then loadLines environment rest
        else loadLines (environment.define name value) rest

/-- The environment with the variables of a file that are not yet set. -/
def load (environment : Environment) (file : String) : Environment :=
  let chars := match file.toList with
    | '\ufeff' :: rest => rest
    | chars => chars
  environment.loadLines (VariableFile.lines [] .complete (VariableFile.rawLines chars))

end Environment
end NestedRead
