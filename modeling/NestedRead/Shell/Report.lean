import NestedRead.Text.Pieces

/-!
# Reports of failures

A report names what failed and below it the causes, the nearest one first. Several causes are
numbered; the further lines of a cause are indented as far as its first one.
-/

set_option autoImplicit false

namespace NestedRead.Shell

structure Failure where
  what : String
  causes : List String := []
deriving DecidableEq, Repr

namespace Failure

/-- The failure of something bigger, of which this one is the cause. -/
def within (failure : Failure) (what : String) : Failure :=
  ⟨what, failure.what :: failure.causes⟩

/-- A text behind a mark, its further lines indented by the width of the mark. -/
def marked (mark text : String) : String :=
  let margin := String.ofList (List.replicate mark.length ' ')
  mark ++ Text.joined ("\n" ++ margin) (Text.piecesOf '\n' text)

/-- The mark of a numbered cause. -/
def mark (n : Nat) : String :=
  let digits := toString n
  String.ofList (List.replicate (5 - digits.length) ' ') ++ digits ++ ": "

/-- The lines below what failed. -/
def causeLines : List String → List String
  | [] => []
  | [cause] => ["", "Caused by:", marked "    " cause]
  | causes => "" :: "Caused by:" :: causes.mapIdx fun n cause => marked (mark n) cause

def report (failure : Failure) : String :=
  Text.joined "\n" (s!"Error: {failure.what}" :: causeLines failure.causes) ++ "\n"

end Failure
end NestedRead.Shell
