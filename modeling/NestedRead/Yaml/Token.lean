/-!
# Tokens of a YAML document

Indentation and keys are made explicit here: a block collection starts where the column of its
first entry is deeper than everything around it and ends where the text comes back to a smaller
column, and a scalar turns out to be a key when its colon follows on the same line. Such a scalar
is remembered as a **candidate**; when the colon comes, the key token goes in before it.

The language is what configuration is written in: block and flow collections, plain and quoted
scalars, comments and document markers. Anchors, tags, directives and block scalars are refused.
-/

set_option autoImplicit false

namespace NestedRead.Yaml

inductive Token where
  | documentStart
  | documentEnd
  | blockSequenceStart
  | blockMappingStart
  | blockEnd
  | flowSequenceStart
  | flowSequenceEnd
  | flowMappingStart
  | flowMappingEnd
  | flowEntry
  | blockEntry
  | key
  | value
  | scalar (text : String) (plain : Bool)
deriving DecidableEq, Repr

/-! ## Characters -/

/-- A character that ends a line. -/
def isBreak (c : Char) : Bool :=
  c == '\n' || c == '\r' || c == '\x85' || c == '\u2028' || c == '\u2029'

def isBlank (c : Char) : Bool := c == ' ' || c == '\t'

/-- Whether a text starts with a blank, a line end or nothing at all. -/
def startsBlank : List Char → Bool
  | [] => true
  | c :: _ => isBlank c || isBreak c

/-- The characters that a document may hold. -/
def isAllowed (c : Char) : Bool :=
  let n := c.toNat
  n == 9 || n == 10 || n == 13 || (32 ≤ n && n ≤ 126) || n == 0x85 || (0xA0 ≤ n && n ≤ 0xFFFD)
    || 0x10000 ≤ n

/-- A place in the text: what is ahead, and where it stands. -/
structure Cursor where
  rest : List Char
  index : Nat := 0
  line : Nat := 0
  column : Nat := 0

namespace Cursor

/-- One character further on the same line. -/
def next (c : Cursor) : Cursor :=
  { c with rest := c.rest.drop 1, index := c.index + 1, column := c.column + 1 }

/-- Several characters further on the same line. -/
def advance (c : Cursor) (n : Nat) : Cursor :=
  { c with rest := c.rest.drop n, index := c.index + n, column := c.column + n }

/-- Behind the line end that is ahead; a carriage return and a line feed are one. -/
def nextLine (c : Cursor) : Cursor :=
  match c.rest with
  | '\r' :: '\n' :: rest => { rest, index := c.index + 2, line := c.line + 1, column := 0 }
  | _ :: rest => { rest, index := c.index + 1, line := c.line + 1, column := 0 }
  | [] => c

/-- What the line end that is ahead adds to a scalar. -/
def breakChars (c : Cursor) : List Char :=
  match c.rest with
  | '\u2028' :: _ => ['\u2028']
  | '\u2029' :: _ => ['\u2029']
  | _ => ['\n']

/-- Whether a line starts with a document marker here. -/
def atMarker (c : Cursor) : Bool :=
  c.column == 0 && match c.rest with
    | '-' :: '-' :: '-' :: rest => startsBlank rest
    | '.' :: '.' :: '.' :: rest => startsBlank rest
    | _ => false

end Cursor

/-! ## Blanks inside scalars -/

/-- The blanks and line ends between two words of a scalar. -/
structure Gap where
  /-- The blanks before a line end. -/
  blanks : List Char := []
  /-- The first line end, once there is one. -/
  firstBreak : Option (List Char) := none
  /-- The further ones. -/
  moreBreaks : List Char := []

namespace Gap

def isEmpty (g : Gap) : Bool :=
  g.blanks.isEmpty && g.firstBreak.isNone && g.moreBreaks.isEmpty

def addBlank (g : Gap) (c : Char) : Gap :=
  if g.firstBreak.isNone then { g with blanks := g.blanks ++ [c] } else g

def addBreak (g : Gap) (chars : List Char) : Gap :=
  match g.firstBreak with
  | none => { g with blanks := [], firstBreak := some chars }
  | some _ => { g with moreBreaks := g.moreBreaks ++ chars }

/-- What the gap stands for: blanks are kept within a line, a single line end is a space, and of
several the first is dropped. -/
def text (g : Gap) : List Char :=
  match g.firstBreak with
  | none => g.blanks
  | some ['\n'] => if g.moreBreaks.isEmpty then [' '] else g.moreBreaks
  | some chars => chars ++ g.moreBreaks

end Gap

/-! ## Plain scalars -/

/-- A scalar as far as it has been read: its text and the gap after it. -/
structure Piece where
  text : List Char := []
  gap : Gap := {}

/-- Whether a plain scalar ends before a character that is ahead. -/
def endsPlain (flow : Bool) : List Char → Bool
  | ':' :: rest => startsBlank rest
  | c :: _ => flow && (c == ',' || c == '[' || c == ']' || c == '\x7b' || c == '\x7d')
  | [] => true

/-- A colon that a flow collection does not allow inside a plain scalar. -/
def badColon (flow : Bool) : List Char → Bool
  | ':' :: c :: _ =>
    flow && (c == ',' || c == '?' || c == '[' || c == ']' || c == '\x7b' || c == '\x7d')
  | _ => false

/-- The rest of a plain scalar, which continues on lines indented by at least `indent`. The
answer has the cursor behind the blanks that follow. -/
def plainScalar? (flow : Bool) (indent : Int) : Nat → Piece → Cursor → Option (Piece × Cursor)
  | 0, _, _ => none
  | fuel + 1, piece, c =>
    match c.rest with
    | [] => some (piece, c)
    | ch :: _ =>
      if isBreak ch then
        plainScalar? flow indent fuel { piece with gap := piece.gap.addBreak c.breakChars } c.nextLine
      else if isBlank ch then
        if ch == '\t' && piece.gap.firstBreak.isSome && (c.column : Int) < indent then none
        else plainScalar? flow indent fuel { piece with gap := piece.gap.addBlank ch } c.next
      else if !piece.gap.isEmpty
          && ((!flow && piece.gap.firstBreak.isSome && (c.column : Int) < indent)
            || c.atMarker || ch == '#') then some (piece, c)
      else if badColon flow c.rest then none
      else if endsPlain flow c.rest then some (piece, c)
      else plainScalar? flow indent fuel
        { text := piece.text ++ piece.gap.text ++ [ch], gap := {} } c.next

/-! ## Quoted scalars -/

/-- The character that a one-letter escape stands for. -/
def escaped? : Char → Option Char
  | '0' => some '\x00'
  | 'a' => some '\x07'
  | 'b' => some '\x08'
  | 't' => some '\t'
  | '\t' => some '\t'
  | 'n' => some '\n'
  | 'v' => some '\x0b'
  | 'f' => some '\x0c'
  | 'r' => some '\r'
  | 'e' => some '\x1b'
  | ' ' => some ' '
  | '"' => some '"'
  | '/' => some '/'
  | '\\' => some '\\'
  | 'N' => some '\x85'
  | '_' => some '\u00a0'
  | 'L' => some '\u2028'
  | 'P' => some '\u2029'
  | _ => none

/-- The number of hexadecimal digits behind an escape letter. -/
def escapeWidth? : Char → Option Nat
  | 'x' => some 2
  | 'u' => some 4
  | 'U' => some 8
  | _ => none

/-- The value of a hexadecimal digit. -/
def hexValue? (c : Char) : Option Nat :=
  if c.isDigit then some (c.toNat - '0'.toNat)
  else if 'a' ≤ c ∧ c ≤ 'f' then some (c.toNat - 'a'.toNat + 10)
  else if 'A' ≤ c ∧ c ≤ 'F' then some (c.toNat - 'A'.toNat + 10)
  else none

/-- The character with the code point that exactly `width` digits spell. -/
def codePoint? (width : Nat) (text : List Char) : Option Char := do
  let digits ← (text.take width).mapM hexValue?
  if digits.length < width then none
  else
    let n := digits.foldl (fun n d => n * 16 + d) 0
    if (0xD800 ≤ n ∧ n ≤ 0xDFFF) ∨ 0x10FFFF < n then none else some (Char.ofNat n)

/-- The rest of a scalar in quotes; the cursor ends up behind the closing one. -/
def quotedScalar? (single : Bool) : Nat → Piece → Cursor → Option (List Char × Cursor)
  | 0, _, _ => none
  | fuel + 1, piece, c =>
    let word (chars : List Char) : Piece :=
      { text := piece.text ++ piece.gap.text ++ chars, gap := {} }
    if c.atMarker then none
    else match c.rest with
    | [] => none
    | ch :: rest =>
      if isBreak ch then
        quotedScalar? single fuel { piece with gap := piece.gap.addBreak c.breakChars } c.nextLine
      else if isBlank ch then
        quotedScalar? single fuel { piece with gap := piece.gap.addBlank ch } c.next
      else if single then
        match ch, rest with
        | '\x27', '\x27' :: _ => quotedScalar? single fuel (word ['\x27']) (c.advance 2)
        | '\x27', _ => some (piece.text ++ piece.gap.text, c.next)
        | _, _ => quotedScalar? single fuel (word [ch]) c.next
      else
        match ch, rest with
        | '"', _ => some (piece.text ++ piece.gap.text, c.next)
        | '\\', e :: digits =>
          if isBreak e then
            -- A line end behind a backslash leaves nothing, not even the space.
            quotedScalar? single fuel { word [] with gap := { firstBreak := some [] } } c.next.nextLine
          else match escaped? e, escapeWidth? e with
            | some found, _ => quotedScalar? single fuel (word [found]) (c.advance 2)
            | none, some width => do
              let found ← codePoint? width digits
              quotedScalar? single fuel (word [found]) (c.advance (2 + width))
            | none, none => none
        | _, _ => quotedScalar? single fuel (word [ch]) c.next

/-! ## The lexer -/

/-- A scalar or flow collection that becomes a key if a colon follows. -/
structure Candidate where
  /-- The number of tokens before it. -/
  position : Nat
  index : Nat
  line : Nat
  column : Nat
  /-- In a block mapping, where only a key can stand here. -/
  required : Bool

/-- The state of the lexer. -/
structure Lexer where
  cursor : Cursor
  /-- The tokens so far, the newest first. -/
  tokens : List Token := []
  /-- The columns of the open block collections, the innermost first. -/
  indents : List Int := []
  /-- For every open flow collection, and for the block around them, the candidate that is still
  possible, the innermost first. -/
  candidates : List (Option Candidate) := [none]
  /-- Whether a key may start here. -/
  keyAllowed : Bool := true

namespace Lexer

/-- Whether a flow collection is open. -/
def inFlow (l : Lexer) : Bool := l.candidates.length > 1

/-- The column of the innermost block collection. -/
def indent (l : Lexer) : Int := l.indents.headD (-1)

def emit (l : Lexer) (t : Token) : Lexer := { l with tokens := t :: l.tokens }

/-- A token put in before all but the first `position` ones. -/
def insert (l : Lexer) (position : Nat) (t : Token) : Lexer :=
  let newer := l.tokens.length - position
  { l with tokens := l.tokens.take newer ++ t :: l.tokens.drop newer }

/-- Ends the block collections that are deeper than a column. -/
def unroll (l : Lexer) (column : Int) : Lexer :=
  if l.inFlow then l
  else
    let closed := l.indents.takeWhile (column < ·)
    { l with indents := l.indents.dropWhile (column < ·)
             tokens := closed.map (fun _ => Token.blockEnd) ++ l.tokens }

/-- Starts a block collection at a column, if it is deeper than the innermost one. -/
def roll (l : Lexer) (column : Int) (position : Nat) (t : Token) : Lexer :=
  if l.inFlow then l
  else if l.indent < column then { l.insert position t with indents := column :: l.indents }
  else l

/-- The candidate of the innermost collection is one no longer. -/
def dropCandidate? (l : Lexer) : Option Lexer :=
  match l.candidates with
  | some candidate :: outer =>
    if candidate.required then none else some { l with candidates := none :: outer }
  | _ => some l

/-- What starts here may become a key. -/
def saveCandidate? (l : Lexer) : Option Lexer :=
  if l.keyAllowed then do
    let l ← l.dropCandidate?
    let candidate : Candidate :=
      { position := l.tokens.length, index := l.cursor.index, line := l.cursor.line,
        column := l.cursor.column,
        required := !l.inFlow && l.indent == (l.cursor.column : Int) }
    return { l with candidates := some candidate :: l.candidates.drop 1 }
  else some l

/-- Candidates on an earlier line, or too far back, are given up. -/
def expireCandidates? (l : Lexer) : Option Lexer := do
  let candidates ← l.candidates.mapM fun
    | some candidate =>
      if candidate.line < l.cursor.line ∨ candidate.index + 1024 < l.cursor.index then
        if candidate.required then none else some none
      else some (some candidate)
    | none => some none
  return { l with candidates }

/-- Behind blanks, comments and line ends. A tab is a blank only where no key may start. -/
def skip : Nat → Lexer → Lexer
  | 0, l => l
  | fuel + 1, l =>
    match l.cursor.rest with
    | ' ' :: _ => skip fuel { l with cursor := l.cursor.next }
    | '\t' :: _ =>
      if l.inFlow || !l.keyAllowed then skip fuel { l with cursor := l.cursor.next } else l
    | '#' :: rest =>
      let length := (rest.takeWhile (!isBreak ·)).length + 1
      skip fuel { l with cursor := l.cursor.advance length }
    | c :: _ =>
      if isBreak c then
        skip fuel { l with cursor := l.cursor.nextLine, keyAllowed := !l.inFlow || l.keyAllowed }
      else l
    | [] => l

/-- A document marker. -/
def marker? (l : Lexer) (t : Token) : Option Lexer := do
  let l ← (l.unroll (-1)).dropCandidate?
  return { l.emit t with cursor := l.cursor.advance 3, keyAllowed := false }

/-- The start of a flow collection. -/
def openFlow? (l : Lexer) (t : Token) : Option Lexer := do
  let l ← l.saveCandidate?
  return { l.emit t with cursor := l.cursor.next, keyAllowed := true,
                         candidates := none :: l.candidates }

/-- The end of a flow collection. -/
def closeFlow? (l : Lexer) (t : Token) : Option Lexer := do
  let l ← l.dropCandidate?
  let candidates := if l.inFlow then l.candidates.drop 1 else l.candidates
  return { l.emit t with cursor := l.cursor.next, keyAllowed := false, candidates }

def flowEntry? (l : Lexer) : Option Lexer := do
  let l ← l.dropCandidate?
  return { l.emit .flowEntry with cursor := l.cursor.next, keyAllowed := true }

def blockEntry? (l : Lexer) : Option Lexer := do
  if !l.inFlow && !l.keyAllowed then none
  else
    let l := l.roll l.cursor.column l.tokens.length .blockSequenceStart
    let l ← l.dropCandidate?
    return { l.emit .blockEntry with cursor := l.cursor.next, keyAllowed := true }

/-- A key that is marked as one. -/
def key? (l : Lexer) : Option Lexer := do
  if !l.inFlow && !l.keyAllowed then none
  else
    let l := l.roll l.cursor.column l.tokens.length .blockMappingStart
    let l ← l.dropCandidate?
    return { l.emit .key with cursor := l.cursor.next, keyAllowed := !l.inFlow }

/-- The colon before a value, which makes the candidate a key. -/
def value? (l : Lexer) : Option Lexer :=
  match l.candidates with
  | some candidate :: outer =>
    let l := (l.insert candidate.position .key).roll candidate.column candidate.position
      .blockMappingStart
    some { l.emit .value with cursor := l.cursor.next, keyAllowed := false,
                              candidates := none :: outer }
  | _ =>
    if !l.inFlow && !l.keyAllowed then none
    else
      let l := l.roll l.cursor.column l.tokens.length .blockMappingStart
      some { l.emit .value with cursor := l.cursor.next, keyAllowed := !l.inFlow }

/-- A scalar in quotes. -/
def quoted? (l : Lexer) (single : Bool) : Option Lexer := do
  let l ← l.saveCandidate?
  let (text, cursor) ← quotedScalar? single (l.cursor.rest.length + 1) {} l.cursor.next
  return { l.emit (.scalar (String.ofList text) false) with cursor, keyAllowed := false }

/-- A scalar without quotes. -/
def plain? (l : Lexer) : Option Lexer := do
  let l ← l.saveCandidate?
  let (piece, cursor) ← plainScalar? l.inFlow (l.indent + 1) (l.cursor.rest.length + 1) {} l.cursor
  return { l.emit (.scalar (String.ofList piece.text) true) with
           cursor, keyAllowed := piece.gap.firstBreak.isSome }

/-- Whether a plain scalar may start with what is ahead. -/
def startsPlain (flow : Bool) : List Char → Bool
  | [] => false
  | '-' :: rest => !(rest.head?.any isBlank)
  | '?' :: rest => !flow && !startsBlank rest
  | ':' :: rest => !flow && !startsBlank rest
  | c :: _ => !([',', '[', ']', '\x7b', '\x7d', '#', '&', '*', '!', '|', '>', '\x27', '"', '%',
      '@', '\x60'].contains c) && !isBlank c && !isBreak c

/-- The next token. -/
def fetch? (l : Lexer) : Option Lexer :=
  let rest := l.cursor.rest
  let marked : Option Token :=
    if l.cursor.atMarker then
      some (if rest.head? == some '-' then .documentStart else .documentEnd)
    else none
  match marked with
  | some t => l.marker? t
  | none =>
    match rest with
    | [] => some l
    | '[' :: _ => l.openFlow? .flowSequenceStart
    | '\x7b' :: _ => l.openFlow? .flowMappingStart
    | ']' :: _ => l.closeFlow? .flowSequenceEnd
    | '\x7d' :: _ => l.closeFlow? .flowMappingEnd
    | ',' :: _ => l.flowEntry?
    | '"' :: _ => l.quoted? false
    | '\x27' :: _ => l.quoted? true
    | c :: after =>
      if c == '-' && startsBlank after then l.blockEntry?
      else if c == '?' && (l.inFlow || startsBlank after) then l.key?
      else if c == ':' && (l.inFlow || startsBlank after) then l.value?
      else if c == '%' && l.cursor.column == 0 then none
      else if startsPlain l.inFlow rest then l.plain?
      else none

/-- All tokens. Every token takes at least one character, so the length of the text bounds their
number. -/
def run? : Nat → Lexer → Option Lexer
  | 0, _ => none
  | fuel + 1, l => do
    let l ← (skip (l.cursor.rest.length + 1) l).expireCandidates?
    let l := l.unroll l.cursor.column
    if l.cursor.rest.isEmpty then (l.unroll (-1)).dropCandidate?
    else run? fuel (← l.fetch?)

end Lexer

/-- The tokens of a text, or none where it is no YAML of the supported kind. A byte order mark
at the start is no part of the document. -/
def tokens? (text : String) : Option (List Token) := do
  let chars := match text.toList with
    | '\ufeff' :: rest => rest
    | chars => chars
  if !chars.all isAllowed then none
  else
    let last ← Lexer.run? (chars.length + 1) { cursor := { rest := chars } }
    return last.tokens.reverse

end NestedRead.Yaml
