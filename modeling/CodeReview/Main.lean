import CodeReview.Command.Serve

/-!
The programs as they are run. This is all that they do outside of the library: they read variables,
files and the standard input, and print. There is no connection to the network, so each call to the
model fails to be sent, and the gateway stops where it would listen.
-/

open CodeReview

namespace CodeReview.Main

/-- What the operating system calls a failure to read. -/
def failureText : IO.Error → String
  | .noFileOrDirectory .. => GatewayError.noSuchFile
  | .inappropriateType .. => GatewayError.isDirectory
  | e => toString e

def readFile (path : String) : IO (Except String Json.Bytes) := do
  try
    return .ok (← IO.FS.readBinFile path).toList
  catch e => return .error (failureText e)

def readFiles (paths : List String) : IO (List (String × Except String Json.Bytes)) :=
  paths.mapM fun path => return (path, ← readFile path)

def readVariables (names : List String) : IO (List (String × String)) := do
  let values ← names.mapM fun name => return (name, ← IO.getEnv name)
  return values.filterMap fun v => v.2.map fun value => (v.1, value)

/-- The world, with the files and the part of the environment that a run asks for. -/
def world (args files : List String) (readsInput : Bool) : IO World := do
  let directory := (← IO.currentDir).toString
  let places := Command.environmentPaths directory
  let files ← readFiles (places ++ files)
  let mentioned := places.flatMap fun path =>
    match files.lookup path with
    | some (.ok bytes) => EnvironmentFile.namesIn bytes
    | _ => []
  let found ← readVariables (Command.variableNames ++ mentioned)
  let input ← if readsInput then (← IO.getStdin).readBinToEnd else pure ByteArray.empty
  return {
    args
    «variables» := found
    file := fun path => (files.lookup path).getD (.error GatewayError.noSuchFile)
    input := input.toList
    directory
    terminal := ← (← IO.getStdout).isTty }

def finish (f : Finish) : IO UInt32 := do
  (← IO.getStdout).putStr f.output
  (← IO.getStderr).putStr f.errors
  return f.exit.toUInt32

def review (args : List String) : IO UInt32 := do
  let plan := (Command.plan args).toOption
  let readsInput := (plan.map Command.Plan.task) = some .invoke
  let w ← world args ((plan.map Command.Plan.files).getD []) readsInput
  finish ((Command.review w).run fun _ => ⟨.closed, 0⟩)

def serve (args : List String) : IO UInt32 := do
  let given := (Arguments.read Command.serveGrammar args).toOption
  let w ← world args (given.bind fun g => g.value? "config").toList false
  match Command.serve w with
  | .stopped f => finish f
  | .serving output _ a =>
    finish
      { Finish.failed (.ofGateway (.internal ("cannot listen at " ++ a.render))) with output }

end CodeReview.Main

/-- Runs the gateway if the program is called so, and reviews otherwise. -/
def main (args : List String) : IO UInt32 := do
  let name := (← IO.appPath).fileName.getD ""
  if name = "codelens-gateway" then CodeReview.Main.serve args else CodeReview.Main.review args
