import NestedRead.Rows.EntityId
import NestedRead.Selection.Path
import NestedRead.Statement.Basic

/-!
# Notices

What the library reports on the way to a result: things that it ignores, decisions that a caller
may want to see, and rows that contradict each other. A notice never changes a result.
-/

set_option autoImplicit false

namespace NestedRead

/-- How much a notice matters. -/
inductive Level where
  | error
  | warn
  | info
  | debug
deriving DecidableEq, Repr

/-- Something worth reporting. -/
inductive Notice where
  | catalogReady (entities : Nat)
  | catalogLoaded (entities : Nat) (path : String)
  | rootArgumentIgnored (name : String)
  | relationArgumentIgnored (name : String)
  | paginationIgnored (path : FieldPath)
  | joined (path : FieldPath) (tableAlias : String) (kind : JoinKind)
  | limitClamped (limit max : Nat)
  | compiled (entity : String) (projections joins : Nat)
  | readFailed (entity reason : String)
  | rowsFetched (rows : Nat) (entity : String)
  | columnUnplaced (column : String)
  | uniqueColumnMissing (column : String) (row : Nat)
  | rowsDisagree (tableAlias field : String) (id : EntityId) (kept ignored : Json)
  | severalMatches (path : FieldPath) (id : EntityId) (matchCount : Nat)
  | nested (rows roots : Nat) (entity : String)

def JoinKind.name : JoinKind → String
  | .inner => "Inner"
  | .left => "Left"
  | .right => "Right"
  | .fullOuter => "FullOuter"
  | .cross => "Cross"

namespace Notice

def level : Notice → Level
  | .readFailed .. | .columnUnplaced .. | .uniqueColumnMissing .. => .error
  | .rowsDisagree .. | .severalMatches .. => .warn
  | .catalogLoaded .. | .compiled .. => .info
  | .catalogReady .. | .rootArgumentIgnored .. | .relationArgumentIgnored ..
  | .paginationIgnored .. | .joined .. | .limitClamped .. | .rowsFetched .. | .nested .. => .debug

/-- The message of a notice. -/
def text : Notice → String
  | .catalogReady entities => s!"Entity catalog ready with {entities} entities"
  | .catalogLoaded entities path => s!"Loaded {entities} entities from {path}"
  | .rootArgumentIgnored name => s!"Ignoring unrecognised root argument `{name}`"
  | .relationArgumentIgnored name => s!"Ignoring unrecognised relation argument `{name}`"
  | .paginationIgnored path =>
    s!"Ignoring orderBy/limit/offset on relation `{path.text}`; pagination applies to the root only"
  | .joined path tableAlias kind => s!"Joined `{path.text}` as \"{tableAlias}\" ({kind.name})"
  | .limitClamped limit max => s!"Clamping limit {limit} to max_limit {max}"
  | .compiled entity projections joins =>
    s!"Compiled read of `{entity}`: {projections} projection(s), {joins} join(s)"
  | .readFailed entity reason => s!"Read of `{entity}` failed: {reason}"
  | .rowsFetched rows entity => s!"Fetched {rows} row(s) for `{entity}`"
  | .columnUnplaced column => s!"Row column `{column}` does not belong to any compiled alias"
  | .uniqueColumnMissing column row => s!"Unique column `{column}` missing from row {row}"
  | .rowsDisagree tableAlias field id kept ignored =>
    s!"Rows disagree on {tableAlias}.{field} for id {id.display}: keeping {kept.compact}, ignoring {ignored.compact}"
  | .severalMatches path id matchCount =>
    s!"`{path.text}` is a single-valued relation but id {id.display} has {matchCount} matches; using the first"
  | .nested rows roots entity =>
    s!"Denormalized {rows} row(s) into {roots} `{entity}` object(s)"

end Notice
end NestedRead
