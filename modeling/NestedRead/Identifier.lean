/-!
# Identifiers

The names that a catalog may use. An identifier is a letter and then letters and digits, with
single underscores between two of them; a name with two underscores in a row is left to aggregate
fields. A table name is a word, or two words with a point between a schema and its table.

Only ASCII letters and digits count.
-/

set_option autoImplicit false

namespace NestedRead.Identifier

/-- What may follow inside an identifier; `afterUnderscore` holds right behind an underscore,
where a letter or digit has to come. -/
def continues (afterUnderscore : Bool) : List Char → Bool
  | [] => !afterUnderscore
  | c :: cs =>
    if c.isAlphanum then continues false cs
    else if c = '_' && !afterUnderscore then continues true cs
    else false

/-- A letter, and then runs of letters and digits joined by single underscores. -/
def isPlainChars : List Char → Bool
  | [] => false
  | c :: cs => c.isAlpha && continues false cs

/-- An entity, field or column name. -/
def isPlain (name : String) : Bool :=
  isPlainChars name.toList

/-- A letter or underscore, and then letters, digits and underscores. -/
def isWord : List Char → Bool
  | [] => false
  | c :: cs => (c.isAlpha || c == '_') && cs.all fun c => c.isAlphanum || c == '_'

/-- A table name, with or without a schema before it. -/
def isTable (name : String) : Bool :=
  match name.toList.span (· != '.') with
  | (table, []) => isWord table
  | (schema, _ :: table) => isWord schema && isWord table

end NestedRead.Identifier
