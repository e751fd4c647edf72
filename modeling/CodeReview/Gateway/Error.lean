import CodeReview.Invocation

/-!
Errors of the gateway. Whoever sent a bad request is told what is wrong with it; all other errors
are reported without their details.
-/

namespace CodeReview

inductive GatewayError where
  | badRequest (message : String)
  | invalidConfig (message : String)
  /-- A failure of the operating system. -/
  | io (message : String)
  | serialization (message : String)
  | internal (message : String)
deriving DecidableEq, Repr

namespace GatewayError

def message : GatewayError → String
  | .badRequest m => m
  | .invalidConfig m => "Invalid configuration: " ++ m
  | .io m => "IO error: " ++ m
  | .serialization m => "Serialization error: " ++ m
  | .internal m => "Internal error: " ++ m

def ofAnalysis : AnalysisError → GatewayError
  | .invalidRequest m => .badRequest m
  | e => .internal e.message

def ofRefusal (r : Json.Refusal) : GatewayError :=
  .serialization r.message

/-- What is told about errors whose details are kept back. -/
def internalMessage : String := "Analysis failed"

def status : GatewayError → UInt16
  | .badRequest _ => 400
  | _ => 500

/-- The error in the words in which it is sent. -/
def publicMessage : GatewayError → String
  | .badRequest m => m
  | _ => internalMessage

def body (e : GatewayError) : String :=
  errorBody e.publicMessage

/-- The texts of the failures of the operating system that are known. -/
def noSuchFile : String := "No such file or directory (os error 2)"

def isDirectory : String := "Is a directory (os error 21)"

def notUtf8 : String := "stream did not contain valid UTF-8"

end GatewayError

end CodeReview
