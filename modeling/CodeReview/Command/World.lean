import CodeReview.Gateway.Settings

/-!
What a program finds when it is started, and what it leaves behind. A program is a function between
the two, apart from the one call that it may make on its way.
-/

namespace CodeReview

structure World where
  args : List String
  «variables» : List (String × String)
  /-- The bytes of a file, or why they cannot be read. -/
  file : String → Except String Json.Bytes
  /-- The bytes of the standard input. -/
  input : Json.Bytes
  /-- The path of the directory that the program is started in, with a slash before each name. -/
  directory : String := ""
  /-- What is printed goes to a terminal. -/
  terminal : Bool := false

structure Finish where
  exit : Nat
  output : String
  errors : String
deriving DecidableEq, Repr

/-- Why a program failed, and what was behind it. -/
structure Failure where
  message : String
  cause : Option String := none
deriving DecidableEq, Repr

namespace Failure

/-- The failure as it is told. A cause stands on lines of its own. -/
def render (f : Failure) : String :=
  "Error: " ++ f.message ++ "\n" ++
    match f.cause with
    | some c => "\nCaused by:\n    " ++ Text.replace "\n" "\n    " c ++ "\n"
    | none => ""

def ofGateway : GatewayError → Failure
  | .io m => ⟨(GatewayError.io m).message, some m⟩
  | e => ⟨e.message, none⟩

end Failure

namespace Finish

/-- A success with the text that it prints. -/
def done (output : String) : Finish := ⟨0, output, ""⟩

def failed (f : Failure) : Finish := ⟨1, "", f.render⟩

/-- The arguments were not understood. -/
def misused (usage : String) : Finish := ⟨2, "", usage⟩

/-- The program broke down with a message. -/
def crashed (message : String) : Finish := ⟨101, "", message ++ "\n"⟩

end Finish

namespace World

def environment (w : World) : Environment := fun key => w.variables.lookup key

/-- The text of a file. -/
def text (w : World) (path : String) : Except String String := do
  match Text.ofBytes? (← w.file path) with
  | some text => .ok text
  | none => .error GatewayError.notUtf8

/-- The settings of a file, or the defaults, with those of the environment. -/
def settings (w : World) (path : Option String) : Except GatewayError GatewaySettings := do
  let s ← match path with
    | some path => GatewaySettings.ofFile path (w.file path)
    | none => .ok .default
  s.overlay w.environment

end World

end CodeReview
