import CodeReview.Text.Blank
import CodeReview.Text.Split

/-!
File paths as text: names between slashes. The name of a file is the last of them, and the
extension is what follows the last dot of the name, unless the name starts with that dot.
-/

namespace CodeReview.Path

/-- The names between the slashes that mean something, the last one first. -/
def namesFromLast (path : String) : List String :=
  ((Text.split (· = '/') path).reverse).filter fun n => n ≠ "" ∧ n ≠ "."

/-- The name of the file. A path that ends in a step up has none. -/
def fileName? (path : String) : Option String :=
  match namesFromLast path with
  | [] => none
  | name :: _ => if name = ".." then none else some name

/-- The part of a name before its last dot, and the part after it. -/
def splitDot? (name : String) : Option (String × String) :=
  let fromLast := name.toList.reverse
  match fromLast.dropWhile (· ≠ '.') with
  | [] => none
  | _ :: before =>
    some (String.ofList before.reverse, String.ofList (fromLast.takeWhile (· ≠ '.')).reverse)

def extension? (path : String) : Option String := do
  let name ← fileName? path
  let (stem, ext) ← splitDot? name
  if stem = "" then none else some ext

/-- The languages that go with the extensions of files. -/
def languages : List (String × String) :=
  [("js", "javascript"), ("mjs", "javascript"), ("cjs", "javascript"), ("jsx", "javascript"),
   ("ts", "typescript"), ("tsx", "typescript"), ("py", "python"), ("rs", "rust"), ("go", "go"),
   ("java", "java"), ("kt", "kotlin"), ("rb", "ruby"), ("php", "php"), ("cs", "csharp"),
   ("c", "c"), ("h", "c"), ("cpp", "cpp"), ("cc", "cpp"), ("hpp", "cpp"), ("swift", "swift"),
   ("sh", "shell")]

/-- The language of a file of code, by its extension in any case. -/
def language? (path : String) : Option String :=
  (extension? path).bind fun ext => languages.lookup (Text.lowerAscii ext)

end CodeReview.Path
