import CodeReview.Command.Arguments
import CodeReview.Command.EnvironmentFile
import CodeReview.Command.ReportText
import CodeReview.Command.World

/-!
The program for reviews on the command line. It reviews a file, measures a file, or handles one
event from its standard input.
-/

namespace CodeReview.Command

open Arguments (Grammar Switch Given Halt)

/-- A path is not empty. -/
def isPath (s : String) : Bool := s ≠ ""

/-- Switches that every program and command has. -/
def helpSwitch : Switch := ⟨"help", some 'h', .help, fun _ => true⟩

def configSwitch : Switch := ⟨"config", some 'c', .single, isPath⟩

def verboseSwitch : Switch := ⟨"verbose", some 'v', .flag, fun _ => true⟩

def versionSwitch : Switch := ⟨"version", some 'V', .version, fun _ => true⟩

/-- Switches that may stand before and after the name of a command. -/
def commonSwitches : List Switch := [configSwitch, verboseSwitch, helpSwitch]

def mainGrammar : Grammar :=
  ⟨versionSwitch :: commonSwitches, 0, ["analyze", "metrics", "invoke"]⟩

def jsonSwitch : Switch := ⟨"json", none, .flag, fun _ => true⟩

def analyzeGrammar : Grammar :=
  ⟨[⟨"language", some 'l', .single, fun _ => true⟩, ⟨"type", some 't', .repeated, fun _ => true⟩,
    jsonSwitch] ++ commonSwitches, 1, []⟩

def metricsGrammar : Grammar := ⟨jsonSwitch :: commonSwitches, 1, []⟩

def invokeGrammar : Grammar := ⟨commonSwitches, 0, []⟩

/-- What a command line asks for. -/
inductive Task where
  | analyze (file : String) (language : Option String) (focus : List String) (json : Bool)
  | metrics (file : String) (json : Bool)
  | invoke
deriving DecidableEq, Repr

structure Plan where
  task : Task
  /-- The settings file. -/
  config : Option String
deriving DecidableEq, Repr

/-- A switch after the name of a command goes over the same one before it. -/
def planOf (outer inner : Given) (task : Task) : Plan :=
  ⟨task, (inner.value? "config").or (outer.value? "config")⟩

def plan (args : List String) : Except Halt Plan := do
  let outer ← Arguments.read mainGrammar args
  match outer.command with
  | some ("analyze", rest) =>
    let g ← Arguments.read analyzeGrammar rest
    .ok (planOf outer g
      (.analyze (g.operands.headD "") (g.value? "language") (g.values "type") (g.has "json")))
  | some ("metrics", rest) =>
    let g ← Arguments.read metricsGrammar rest
    .ok (planOf outer g (.metrics (g.operands.headD "") (g.has "json")))
  | some (_, rest) =>
    let g ← Arguments.read invokeGrammar rest
    .ok (planOf outer g .invoke)
  | none => .error .invalid

/-- The files that a plan reads. -/
def Plan.files (p : Plan) : List String :=
  (match p.task with
   | .analyze file .. => [file]
   | .metrics file _ => [file]
   | .invoke => []) ++ p.config.toList

abbrev Run := Course Client.Call (Timed Client.Response) Finish

/-- A run that has ended, well or not. -/
def Run.ofExcept : Except Failure Run → Run
  | .ok run => run
  | .error f => .done (.failed f)

/-- The text of a file of code. -/
def source (w : World) (path : String) : Except Failure String :=
  (w.text path).mapError fun e => ⟨"failed to read " ++ Text.quotedPath path, some e⟩

def settings (w : World) (config : Option String) : Except Failure GatewaySettings :=
  (w.settings config).mapError Failure.ofGateway

/-- The text for people is in colours. -/
def wantsColours (w : World) : Bool :=
  ReportText.wantsColours w.variables w.terminal

/-- A value as indented JSON on lines of its own. -/
def jsonLines (v : Json) : String :=
  Json.indented v ++ "\n"

def reportOutcome (colours json : Bool) (file : String) : Outcome → Finish
  | .report r =>
    .done (if json then jsonLines r.toJson else ReportText.render colours file r)
  | .refused e => .failed ⟨e.message, none⟩
  | .crashed => .failed ⟨(AnalysisError.internal "the analysis broke down").message, none⟩

def analyze (w : World) (config : Option String) (file : String) (language : Option String)
    (focus : List String) (json : Bool) : Except Failure Run := do
  let code ← source w file
  let language ← match language.or (Path.language? file) with
    | some l => .ok l
    | none =>
      .error ⟨"cannot infer language for " ++ Text.quotedPath file ++ "; pass --language", none⟩
  let s ← settings w config
  let request : Request :=
    { code := some code
      language := some language
      filename := Path.fileName? file
      focus := if focus = [] then none else some focus }
  let course := ((Client.reviewer s.model).analyze request).via (Client.ask s.model)
  .ok (course.map (reportOutcome (wantsColours w) json file))

def metrics (w : World) (file : String) (json : Bool) : Except Failure Run := do
  let m := Metrics.ofCode (← source w file)
  .ok (.done (.done
    (if json then jsonLines m.toJson
     else ReportText.metricsText (wantsColours w) m)))

/-- The event on the standard input. -/
def eventOf (input : Json.Bytes) : Except Failure Invocation.Event := do
  let text ← match Text.ofBytes? input with
    | some text => .ok text
    | none => .error ⟨"failed to read event from stdin", some GatewayError.notUtf8⟩
  (Json.readText Invocation.Event.shape.reader text).mapError fun refusal =>
    ⟨"stdin is not an invocation event", some refusal.message⟩

def invoke (w : World) (config : Option String) : Except Failure Run := do
  let event ← eventOf w.input
  let s ← settings w config
  let course := (Invocation.handle (Client.reviewer s.model) event).via (Client.ask s.model)
  .ok (course.map fun r => .done (jsonLines r.toJson))

/-- The variables that a run looks at. -/
def variableNames : List String :=
  ModelSettings.apiKeyVariables ++
    ["CODELENS_MODEL", "CODELENS_MODEL_BASE_URL", "CODELENS_HOST", "CODELENS_PORT",
     "CODELENS_CORS_ORIGINS", "CLICOLOR_FORCE", "NO_COLOR", "CLICOLOR"]

def usage : String :=
  "Usage: codelens [OPTIONS] <analyze|metrics|invoke>\n"

def versionText : String := "codelens-cli 0.1.0\n"

/-- How a program ends that does not come to its task. -/
def halted (usage version : String) : Halt → Finish
  | .help => .done usage
  | .version => .done version
  | .invalid => .misused usage

/-! ### The environment file -/

/-- The paths under which the environment file may stand: in a directory, or in one of those that it
is in, the nearest one first. -/
def environmentPaths (directory : String) : List String :=
  let names := Text.split (· = '/') directory
  ((List.range names.length).map fun n =>
    "/".intercalate (names.take (n + 1)) ++ "/.env").reverse

/-- The first file that there is under some paths. The search ends where it cannot go on. -/
def firstFile? (w : World) : List String → Option Json.Bytes
  | [] => none
  | path :: paths =>
    match w.file path with
    | .ok bytes => some bytes
    | .error e =>
      if e = GatewayError.noSuchFile ∨ e = GatewayError.isDirectory then firstFile? w paths
      else none

/-- The world with the variables of its environment file. What is wrong with the file does not
matter, except for a value that cannot be set. -/
def withEnvironmentFile (w : World) : Except EnvironmentFile.Unsettable World :=
  match firstFile? w (environmentPaths w.directory) with
  | some bytes =>
    (EnvironmentFile.overlay bytes w.variables).map fun found => { w with «variables» := found }
  | none => .ok w

/-- How a program ends at a variable that cannot be set. -/
def unset (e : EnvironmentFile.Unsettable) : Finish :=
  .crashed
    ("failed to set environment variable \x60" ++ Text.quotedPath e.name ++ "\x60 to \x60" ++
      Text.quotedPath e.value ++ "\x60: file name contained an unexpected NUL byte")

/-- The run for a command line. -/
def runOf (w : World) (p : Plan) : Run :=
  .ofExcept
    (match p.task with
     | .analyze file language focus json => analyze w p.config file language focus json
     | .metrics file json => metrics w file json
     | .invoke => invoke w p.config)

/-- The run of the program. -/
def review (w : World) : Run :=
  match withEnvironmentFile w with
  | .error e => .done (unset e)
  | .ok w =>
    match plan w.args with
    | .error h => .done (halted usage versionText h)
    | .ok p => runOf w p

end CodeReview.Command
