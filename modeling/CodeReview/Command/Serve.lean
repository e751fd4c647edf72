import CodeReview.Command.Review

/-!
The program that starts the gateway. It shows where the gateway listens and what it offers, and then
either fails or has an address to listen at.
-/

namespace CodeReview.Command

open Arguments (Grammar Given Halt)

/-- The port that a text writes: digits with an optional sign. A negative zero is zero. -/
def portOf? (s : String) : Option UInt16 :=
  let s := match s.toList with
    | '-' :: ds => if ds.all (· = '0') then String.ofList ds else ""
    | _ => s
  (Decimal.parseNat? (UInt16.size - 1) s).map Nat.toUInt16

def serveGrammar : Grammar :=
  ⟨[configSwitch, ⟨"port", some 'p', .single, fun s => (portOf? s).isSome⟩,
    ⟨"host", none, .single, fun _ => true⟩, verboseSwitch, helpSwitch, versionSwitch], 0, []⟩

/-- The settings with those of the command line. -/
def withSwitches (g : Given) (s : GatewaySettings) : GatewaySettings :=
  let s := match g.value? "host" with
    | some host => s.withHost host
    | none => s
  match (g.value? "port").bind portOf? with
  | some port => s.withPort port
  | none => s

/-- The settings of the command line, the environment and the settings file, in this order of
rank. -/
def serveSettings (w : World) (g : Given) : Except GatewayError GatewaySettings :=
  (w.settings (g.value? "config")).map (withSwitches g)

def banner (s : GatewaySettings) : String :=
  String.join
    ["\n",
     "╔═══════════════════════════════════════════════════════════════╗\n",
     "║                    CODELENS GATEWAY                           ║\n",
     "║              AI code review over HTTP                         ║\n",
     "╚═══════════════════════════════════════════════════════════════╝\n",
     "\n",
     "📡 HTTP Server\n",
     "   └─ http://" ++ s.addressText ++ "\n",
     "\n",
     "🔗 Endpoints\n",
     "   ├─ GET  /health        — Health check\n",
     "   └─ POST /api/analyze   — Analyze a snippet\n",
     "\n",
     "🤖 Model: " ++ s.model.model ++ "\n",
     "🌐 CORS:  " ++ ", ".intercalate s.origins ++ "\n",
     "\n",
     "─────────────────────────────────────────────────────────────────\n",
     "Press Ctrl+C to stop the gateway\n",
     "\n"]

def serveUsage : String :=
  "Usage: codelens-gateway [OPTIONS]\n"

def serveVersion : String := "codelens-gateway 0.1.0\n"

/-- How the start of the gateway ends: with a failure, or with the text that is shown and the
settings and the address that it then serves with. -/
inductive Start where
  | stopped (f : Finish)
  | serving (output : String) (s : GatewaySettings) (a : Net.SocketAddress)

/-- The start of the gateway, once the environment is complete. -/
def start (w : World) : Start :=
  match Arguments.read serveGrammar w.args with
  | .error h => .stopped (halted serveUsage serveVersion h)
  | .ok g =>
    match serveSettings w g with
    | .error e => .stopped (.failed (.ofGateway e))
    | .ok s =>
      match s.start with
      | .error e => .stopped { Finish.failed (.ofGateway e) with output := banner s }
      | .ok a => .serving (banner s) s a

def serve (w : World) : Start :=
  match withEnvironmentFile w with
  | .error e => .stopped (unset e)
  | .ok w => start w

end CodeReview.Command
