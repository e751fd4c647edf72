import CodeReview.Assoc
import CodeReview.Text.Blank
import CodeReview.Text.Split
import CodeReview.Text.Utf8

/-!
Files that add variables to an environment. A line has a name, an equals sign and a value; the value
may be quoted, and then may go over several lines, and may take in the values of other variables.
Variables that are there already keep their values, and reading ends at the first line that breaks
the rules. It breaks off, and the program with it, at a value that no variable can have.
-/

namespace CodeReview.EnvironmentFile

abbrev Variables := List (String × String)

/-! ### Lines -/

/-- Where in a value a character stands. -/
inductive Mark where
  | plain
  | afterBlank
  | escaped
  | weak
  | weakEscaped
  | strong
  | strongEscaped
deriving DecidableEq, Repr

/-- Goes on by one character; there is no mark after the start of a comment. -/
def Mark.next? : Mark → Char → Option Mark
  | .afterBlank, '#' => none
  | .afterBlank, '\\' => some .escaped
  | .afterBlank, '"' => some .weak
  | .afterBlank, '\x27' => some .strong
  | .afterBlank, _ => some .plain
  | .plain, '\\' => some .escaped
  | .plain, '"' => some .weak
  | .plain, '\x27' => some .strong
  | .plain, c =>
    if Text.isBlank c && c != '\n' && c != '\r' then some .afterBlank else some .plain
  | .escaped, _ => some .plain
  | .weak, '\\' => some .weakEscaped
  | .weak, '"' => some .plain
  | .weak, _ => some .weak
  | .weakEscaped, _ => some .weak
  | .strong, '\\' => some .strongEscaped
  | .strong, '\x27' => some .plain
  | .strong, _ => some .strong
  | .strongEscaped, _ => some .strong

/-- The mark after a piece of text, or the length of the piece up to the start of a comment. -/
def scan (mark : Mark) (n : Nat) : List Char → Except Nat Mark
  | [] => .ok mark
  | c :: rest =>
    match mark.next? c with
    | some mark => scan mark (n + 1) rest
    | none => .error n

def withoutNewline (line : List Char) : List Char :=
  match line.reverse with
  | '\n' :: '\r' :: rest => rest.reverse
  | '\n' :: rest => rest.reverse
  | _ => line

/-- The lines that belong together, joined. `before` is the start of such a line. A line that cannot
be read or that does not end is the last one, and is nothing. -/
def joinLines (before : List Char) (mark : Mark) : List (Option (List Char)) →
    List (Option (List Char))
  | [] => if mark = .plain then [] else [none]
  | none :: _ => [none]
  | some line :: rest =>
    let all := before ++ line
    if (all.dropWhile Text.isBlank).head? = some '#' then some [] :: joinLines [] .plain rest
    else
      match scan mark 0 line with
      | .error n => some (before ++ line.take n) :: joinLines [] .plain rest
      | .ok .plain => some (withoutNewline all) :: joinLines [] .plain rest
      | .ok mark => joinLines all mark rest

/-- The lines of a file, with their ends. -/
def rawLines (b : List UInt8) : List (List UInt8) :=
  let parts := b.foldr
    (fun x (parts : List UInt8 × List (List UInt8)) =>
      if x = 10 then ([x], if parts.1 = [] then parts.2 else parts.1 :: parts.2)
      else (x :: parts.1, parts.2)) ([], [])
  if parts.1 = [] then parts.2 else parts.1 :: parts.2

/-! ### Values -/

/-- What the next character of a value means. -/
inductive Mode where
  | plain
  | escaped
  /-- The name of a variable goes on, in reverse. -/
  | variable (name : List Char)
  /-- The name of a variable goes on to a closing brace. -/
  | braced (name : List Char)
  /-- The value is over; blanks and a comment may follow. -/
  | over

inductive Quote where
  | none
  | weak
  | strong
deriving DecidableEq, Repr

/-- The value that a text writes. `done` is the value so far in reverse, and `get` knows the values
of other variables. -/
def value (get : String → String) (quote : Quote) (mode : Mode) (done : List Char) :
    List Char → Option String
  | [] =>
    match quote, mode with
    | .none, .variable name => some (finish (take name done))
    | .none, .braced _ => none
    | .none, _ => some (finish done)
    | _, _ => none
  | c :: rest =>
    match mode, quote with
    | .over, _ =>
      if c = ' ' ∨ c = '\t' then value get quote .over done rest
      else if c = '#' then some (finish done)
      else none
    | .escaped, _ =>
      if c = 'n' then value get quote .plain ('\n' :: done) rest
      else if ['\\', '\x27', '"', '$', ' '].contains c then value get quote .plain (c :: done) rest
      else none
    | .plain, .strong =>
      if c = '\x27' then value get .none .plain done rest
      else value get .strong .plain (c :: done) rest
    | .variable name, _ =>
      if c.isAlphanum then value get quote (.variable (c :: name)) done rest
      else if c = '{' ∧ name = [] then value get quote (.braced []) done rest
      else if c = '$' then value get quote (.variable []) (take name done) rest
      else value get quote .plain (c :: take name done) rest
    | .braced name, _ =>
      if c = '}' then value get quote .plain (take name done) rest
      else value get quote (.braced (c :: name)) done rest
    | .plain, .weak =>
      if c = '$' then value get .weak (.variable []) done rest
      else if c = '"' then value get .none .plain done rest
      else if c = '\\' then value get .weak .escaped done rest
      else value get .weak .plain (c :: done) rest
    | .plain, .none =>
      if c = '$' then value get .none (.variable []) done rest
      else if c = '\x27' then value get .strong .plain done rest
      else if c = '"' then value get .weak .plain done rest
      else if c = '\\' then value get .none .escaped done rest
      else if c = ' ' ∨ c = '\t' then value get .none .over done rest
      else value get .none .plain (c :: done) rest
where
  finish (done : List Char) : String := String.ofList done.reverse
  /-- The value so far with that of a variable at its end. -/
  take (name done : List Char) : List Char :=
    (get (String.ofList name.reverse)).toList.reverse ++ done

/-! ### Entries -/

def skipBlanks (cs : List Char) : List Char :=
  cs.dropWhile Text.isBlank

/-- The name at the start of a text, and the text after it and the blanks behind it. -/
def key? (cs : List Char) : Option (List Char × List Char) :=
  match cs with
  | c :: _ =>
    if c.isAlpha ∨ c = '_' then
      let isPart (c : Char) : Bool := c.isAlphanum || c = '_' || c = '.'
      some (cs.takeWhile isPart, skipBlanks (cs.dropWhile isPart))
    else none
  | [] => none

def equals? : List Char → Option (List Char)
  | '=' :: rest => some rest
  | _ => none

/-- The name and the text after the equals sign; `export` may stand before the name. -/
def assignment? (cs : List Char) : Option (String × List Char) := do
  let (name, rest) ← key? cs
  match equals? rest with
  | some rest => some (String.ofList name, rest)
  | none =>
    if String.ofList name = "export" then
      let (name, rest) ← key? rest
      let rest ← equals? rest
      some (String.ofList name, rest)
    else none

/-- The variable that a line sets, if it sets one; or nothing if the line breaks the rules. -/
def entry? (get : String → String) (line : List Char) : Option (Option (String × String)) :=
  let cs := skipBlanks (line.reverse.dropWhile Text.isBlank).reverse
  match cs with
  | [] => some none
  | '#' :: _ => some none
  | cs => do
    let (name, rest) ← assignment? cs
    match skipBlanks rest with
    | [] => some (some (name, ""))
    | '#' :: _ => some (some (name, ""))
    | rest => (value get .none .plain [] rest).map fun v => some (name, v)

/-- A variable and a value that it cannot have: the system takes no value with a NUL in it. -/
structure Unsettable where
  name : String
  value : String
deriving DecidableEq, Repr

/-- The variables with one more, unless it is there already. -/
def set (env : Variables) (name v : String) : Except Unsettable Variables :=
  if (env.lookup name).isSome then .ok env
  else if v.toList.contains '\x00' then .error ⟨name, v⟩
  else .ok (env ++ [(name, v)])

/-- The variables with those of the lines. `stored` are the values as the file has them. -/
def load (env stored : Variables) : List (Option (List Char)) → Except Unsettable Variables
  | [] => .ok env
  | none :: _ => .ok env
  | some line :: rest =>
    let get (name : String) : String := ((env.lookup name).or (stored.lookup name)).getD ""
    match entry? get line with
    | none => .ok env
    | some none => load env stored rest
    | some (some (name, v)) =>
      match set env name v with
      | .error e => .error e
      | .ok env => load env (Assoc.put name v stored) rest

/-- The variables with those of a file. A byte order mark may stand before the first line. -/
def overlay (file : List UInt8) (env : Variables) : Except Unsettable Variables :=
  let body := match file with
    | 0xEF :: 0xBB :: 0xBF :: rest => rest
    | all => all
  let lines := (rawLines body).map fun line => (Text.ofBytes? line).map String.toList
  load env [] (joinLines [] .plain lines)

/-- All words of a file that could be names of variables. -/
def namesIn (file : List UInt8) : List String :=
  (Text.split (fun c => !(c.isAlphanum || c = '_' || c = '.')) (Text.ofBytesLossy file)).filter
    (· ≠ "")

end CodeReview.EnvironmentFile
