import NestedRead.Catalog.Basic
import NestedRead.Query.Column
import NestedRead.Selection.Path

/-!
# The layout of rows

What is needed to read flat rows back: for every node of the selection the table alias of its
columns, its entity and unique column and, below the root, the multiplicity of the relation that
leads to it.
-/

set_option autoImplicit false

namespace NestedRead

/-- Where the columns of one node stand in a row. The root has no multiplicity. -/
structure Binding where
  path : FieldPath
  tableAlias : String
  entity : String
  uniqueColumn : String
  multiplicity : Option Multiplicity
deriving DecidableEq, Repr

/-- Where the columns of every node stand in a row. -/
structure Layout where
  separator : String
  bindings : List Binding
deriving DecidableEq, Repr

namespace Layout

def byAlias? (layout : Layout) (tableAlias : String) : Option Binding :=
  layout.bindings.find? (·.tableAlias == tableAlias)

def byPath? (layout : Layout) (path : FieldPath) : Option Binding :=
  layout.bindings.find? (·.path == path)

def root? (layout : Layout) : Option Binding :=
  layout.bindings.find? (·.path.isRoot)

/-- The alias and the field of a key, which is cut at the first separator. -/
def split? (layout : Layout) (key : String) : Option (String × String) :=
  Text.cutAt? layout.separator key

def key (layout : Layout) (tableAlias field : String) : String :=
  columnKey tableAlias layout.separator field

end Layout
end NestedRead
