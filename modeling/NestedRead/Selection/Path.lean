import NestedRead.Ordered
import NestedRead.Text.Pieces

/-!
# Paths into a selection
-/

set_option autoImplicit false

namespace NestedRead

/-- The relation fields from the root down to a node; the root has none. -/
structure FieldPath where
  segments : List String
deriving DecidableEq, Repr

namespace FieldPath

def root : FieldPath := ⟨[]⟩

/-- One relation field further down. -/
def child (path : FieldPath) (field : String) : FieldPath := ⟨path.segments ++ [field]⟩

def isRoot (path : FieldPath) : Bool := path.segments.isEmpty

/-- How a path is called in messages. -/
def text (path : FieldPath) : String :=
  if path.isRoot then "<root>" else Text.joined "." path.segments

/-- The order of paths, segment by segment. -/
def cmp (a b : FieldPath) : Ordering := Ordered.compareLists compare a.segments b.segments

end FieldPath
end NestedRead
