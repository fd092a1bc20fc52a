import NestedRead.Shell.Run

/-!
# The program

Reads what a run may need, runs it and prints what it leaves behind.
-/

set_option autoImplicit false

namespace NestedRead.Shell

/-- Why the system refuses to read a file. -/
def fileError : IO.Error → FileError
  | .noFileOrDirectory .. => .missing
  | .inappropriateType _ code _ => if code == 21 then .directory else .notADirectory
  | e => .other e.toString

/-- The contents of a file. -/
def readFile (path : String) : IO (Except FileError String) := do
  try
    let bytes ← IO.FS.readBinFile path
    match Text.Utf8.text? bytes.toList with
    | some text => return .ok text
    | none => return .error .notText
  catch e => return .error (fileError e)

/-- The variables that the program was started with. -/
def readEnvironment : IO Environment := do
  try return Environment.ofBlock (← IO.FS.readBinFile "/proc/self/environ").toList
  catch _ => return ⟨[]⟩

/-- The nearest file of variables, in the current directory or in one around it. -/
def findVariableFile : Nat → String → IO (Option String)
  | 0, _ => return none
  | levels + 1, directory => do
    match ← readFile (directory ++ ".env") with
    | .ok text => return some text
    | .error .missing => findVariableFile levels (directory ++ "../")
    | .error _ => return none

end NestedRead.Shell

open NestedRead NestedRead.Shell in
/-- Runs the program on its arguments. -/
def main (arguments : List String) : IO UInt32 := do
  let environment ← readEnvironment
  let variableFile ← findVariableFile 64 ""
  let paths := match Action.ofArguments arguments with
    | .ok (.run invocation) => invocation.paths
    | _ => []
  let contents ← paths.mapM fun path => do return (path, ← readFile path)
  let outcome := run arguments environment variableFile fun path =>
    (contents.lookup path).getD (.error .missing)
  (← IO.getStdout).putStr outcome.stdout
  (← IO.getStderr).putStr outcome.stderr
  return outcome.exitCode
