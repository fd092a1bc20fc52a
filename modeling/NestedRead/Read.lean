import NestedRead.Query.Compile
import NestedRead.Rows.Nested

/-!
# Reading nested results

A request is compiled, its one statement is executed, and the rows are read back. How a statement
is executed is left to the caller, who answers it with rows or with a failure.
-/

set_option autoImplicit false

namespace NestedRead

/-- Why a statement gave no rows. -/
inductive ExecutionError where
  | failed (reason : String)
  | rowFormat (reason : String)
deriving DecidableEq, Repr

def ExecutionError.message : ExecutionError → String
  | .failed reason => s!"Statement execution failed: {reason}"
  | .rowFormat reason => s!"Unexpected row format: {reason}"

/-- Why a read gave no result. -/
inductive ReadError where
  | compile (error : CompileError)
  | execution (error : ExecutionError)
  | rows (error : RowError)

def ReadError.message : ReadError → String
  | .compile error => error.message
  | .execution error => error.message
  | .rows error => error.message

/-- What a read does on the way. -/
inductive ReadEvent where
  | notice (notice : Notice)
  | executed (statement : Statement)

namespace ReadEvent

def notice? : ReadEvent → Option Notice
  | .notice n => some n
  | .executed _ => none

def statement? : ReadEvent → Option Statement
  | .notice _ => none
  | .executed s => some s

end ReadEvent

/-- Something that executes a statement. -/
abbrev Executor := Statement → Except ExecutionError (List Json)

def Executor.run (execute : Executor) (entity : String) (statement : Statement) :
    Traced ReadEvent ReadError (List Json) := do
  Traced.emit (.executed statement)
  match execute statement with
  | .ok rows =>
    Traced.emit (.notice (.rowsFetched rows.length entity))
    return rows
  | .error e =>
    Traced.emit (.notice (.readFailed entity e.message))
    Traced.fail (.execution e)

/-- The nested result of a request. -/
def Request.read (request : Request) (catalog : Catalog) (config : Config) (execute : Executor) :
    Traced ReadEvent ReadError (List Json) := do
  let tree ← (SelectionTree.ofRequest catalog request).bimap .notice .compile
  let compiled ← (tree.compile catalog config).bimap .notice .compile
  let rows ← execute.run request.entity compiled.statement
  (tree.nest compiled.layout rows).bimap .notice .rows

end NestedRead
