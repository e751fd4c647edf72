/-!
Arguments of a program: switches with long and short names, operands, and the name of a command with
arguments of its own. What cannot be understood is invalid, and some switches end the reading of
arguments at once.
-/

namespace CodeReview.Arguments

/-- Whether a switch has a value, and what becomes of it. -/
inductive Use where
  /-- It has no value. -/
  | flag
  /-- It has a value, and is given once. -/
  | single
  /-- It has a value, and may be given again. -/
  | repeated
  /-- It asks for help. -/
  | help
  /-- It asks for the version. -/
  | version
deriving DecidableEq, Repr

structure Switch where
  long : String
  short : Option Char
  use : Use
  /-- The values that are understood. -/
  accepts : String → Bool := fun _ => true

def Switch.hasValue (s : Switch) : Bool :=
  s.use = .single || s.use = .repeated

/-- What a program or a command understands. -/
structure Grammar where
  switches : List Switch
  /-- The operands, which are all required. None of them is empty. -/
  operands : Nat
  /-- The names of the commands, one of which is required if there are any. -/
  commands : List String

/-- Why reading ended early. -/
inductive Halt where
  | help
  | version
  | invalid
deriving DecidableEq, Repr

/-- What was given: switches by their long names with values, operands, and a command with the
arguments after it. -/
structure Given where
  switches : List (String × String)
  operands : List String
  command : Option (String × List String)
deriving DecidableEq, Repr

def Given.empty : Given := ⟨[], [], none⟩

def Given.value? (g : Given) (long : String) : Option String :=
  g.switches.lookup long

def Given.has (g : Given) (long : String) : Bool :=
  (g.value? long).isSome

/-- All values of a switch, in order. -/
def Given.values (g : Given) (long : String) : List String :=
  (g.switches.filter fun s => s.1 = long).map Prod.snd

/-- Takes a switch with its value, which is empty for switches without one. -/
def Given.takeSwitch (s : Switch) (value : String) (g : Given) : Except Halt Given :=
  match s.use with
  | .help => .error .help
  | .version => .error .version
  | use =>
    if !s.accepts value || (use ≠ .repeated && g.has s.long) then .error .invalid
    else .ok { g with switches := g.switches ++ [(s.long, value)] }

def Given.takeOperand (grammar : Grammar) (value : String) (g : Given) : Except Halt Given :=
  if value = "" ∨ grammar.operands ≤ g.operands.length then .error .invalid
  else .ok { g with operands := g.operands ++ [value] }

/-- Takes switches by their short names, one after the other. A switch with a value has the rest as
its value, after an equals sign if there is one; without a rest it is still to come. -/
def takeShort (grammar : Grammar) (g : Given) : List Char → Except Halt (Given × Option Switch)
  | [] => .ok (g, none)
  | c :: rest =>
    match grammar.switches.find? fun s => s.short = some c with
    | none => .error .invalid
    | some s =>
      if s.hasValue then
        match rest with
        | [] => .ok (g, some s)
        | '=' :: value => (g.takeSwitch s (String.ofList value)).map fun g => (g, none)
        | value => (g.takeSwitch s (String.ofList value)).map fun g => (g, none)
      else
        match g.takeSwitch s "" with
        | .error h => .error h
        | .ok g => takeShort grammar g rest

/-- Takes a switch by its long name, with its value after an equals sign, or still to come. -/
def takeLong (grammar : Grammar) (g : Given) (cs : List Char) :
    Except Halt (Given × Option Switch) :=
  let name := String.ofList (cs.takeWhile (· ≠ '='))
  match grammar.switches.find? fun s => s.long = name with
  | none => .error .invalid
  | some s =>
    match s.hasValue, cs.dropWhile (· ≠ '=') with
    | true, [] => .ok (g, some s)
    | true, _ :: value => (g.takeSwitch s (String.ofList value)).map fun g => (g, none)
    | false, [] => (g.takeSwitch s "").map fun g => (g, none)
    | false, _ :: _ => .error .invalid

/-- The end of a grammar: what is required is there. -/
def Given.complete (grammar : Grammar) (g : Given) : Except Halt Given :=
  if g.operands.length < grammar.operands ∨ (grammar.commands ≠ [] ∧ g.command = none) then
    .error .invalid
  else .ok g

/-- What is asked by the arguments after `help`. -/
def helpOn (grammar : Grammar) : List String → Halt
  | [] => .help
  | [name] => if name ∈ grammar.commands ∨ name = "help" then .help else .invalid
  | _ => .invalid

/-- Arguments from some place on. `pending` is a switch whose value comes next, and `plain` says
that no switches follow. -/
def readFrom (grammar : Grammar) (g : Given) (pending : Option Switch) (plain : Bool) :
    List String → Except Halt Given
  | [] => if pending.isSome then .error .invalid else g.complete grammar
  | arg :: rest =>
    if plain then
      if pending.isSome then .error .invalid
      else
        match g.takeOperand grammar arg with
        | .error h => .error h
        | .ok g => readFrom grammar g none true rest
    else
      match arg.toList, pending with
      | ['-', '-'], _ => readFrom grammar g pending true rest
      | '-' :: '-' :: _, some _ => .error .invalid
      | '-' :: _ :: _, some _ => .error .invalid
      | _, some s =>
        match g.takeSwitch s arg with
        | .error h => .error h
        | .ok g => readFrom grammar g none false rest
      | '-' :: '-' :: name, none =>
        match takeLong grammar g name with
        | .error h => .error h
        | .ok (g, pending) => readFrom grammar g pending false rest
      | '-' :: c :: names, none =>
        match takeShort grammar g (c :: names) with
        | .error h => .error h
        | .ok (g, pending) => readFrom grammar g pending false rest
      | _, none =>
        if arg ∈ grammar.commands then .ok { g with command := some (arg, rest) }
        else if arg = "help" ∧ grammar.commands ≠ [] then .error (helpOn grammar rest)
        else
          match g.takeOperand grammar arg with
          | .error h => .error h
          | .ok g => readFrom grammar g none false rest

/-- What the arguments give, read by a grammar. -/
def read (grammar : Grammar) (args : List String) : Except Halt Given :=
  readFrom grammar .empty none false args

end CodeReview.Arguments
