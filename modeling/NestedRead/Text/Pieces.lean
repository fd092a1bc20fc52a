/-!
# Cutting and joining text

The splits and joins that column names, table names and messages are made of, on lists of
characters so that they can be reasoned about, with wrappers on `String`.
-/

set_option autoImplicit false

namespace NestedRead.Text

/-! ## Cutting at a mark -/

/-- What stands before and after the first occurrence of `mark`; an empty mark occurs at the
very start. -/
def cut? (mark : List Char) : List Char → Option (List Char × List Char)
  | [] => if mark.isEmpty then some ([], []) else none
  | c :: cs =>
    if mark.isPrefixOf (c :: cs) then some ([], (c :: cs).drop mark.length)
    else (cut? mark cs).map fun (before, after) => (c :: before, after)

/-- `cut?` on strings. -/
def cutAt? (mark text : String) : Option (String × String) :=
  (cut? mark.toList text.toList).map fun (before, after) =>
    (String.ofList before, String.ofList after)

/-- The pieces between the occurrences of a character, the empty ones included. -/
def pieces (mark : Char) : List Char → List (List Char)
  | [] => [[]]
  | c :: cs =>
    if c = mark then [] :: pieces mark cs
    else match pieces mark cs with
      | [] => [[c]]
      | piece :: rest => (c :: piece) :: rest

/-- `pieces` on strings. -/
def piecesOf (mark : Char) (text : String) : List String :=
  (pieces mark text.toList).map String.ofList

/-! ## Joining -/

/-- The texts in order with `separator` between neighbours. -/
def joined (separator : String) : List String → String
  | [] => ""
  | [text] => text
  | text :: rest => text ++ separator ++ joined separator rest

/-! ## ASCII case -/

/-- Upper-case ASCII letters made lower-case; every other character stays as it is. -/
def lowerAscii (text : String) : String :=
  String.ofList (text.toList.map Char.toLower)

end NestedRead.Text
