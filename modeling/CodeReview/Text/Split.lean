/-!
Texts cut into the parts between marks, of which there is always one more than there are marks, and
texts with something else in the place of a part.
-/

namespace CodeReview.Text

/-- The parts between the characters with the property. -/
def splitChars (isMark : Char → Bool) (cs : List Char) : List (List Char) :=
  let parts := cs.foldr
    (fun c (parts : List Char × List (List Char)) =>
      if isMark c then ([], parts.1 :: parts.2) else (c :: parts.1, parts.2)) ([], [])
  parts.1 :: parts.2

/-- The parts of a text between the marks. -/
def split (isMark : Char → Bool) (s : String) : List String :=
  (splitChars isMark s.toList).map String.ofList

/-- The characters after the first `skip` ones, with `new` in the place of each occurrence of `old`.
Occurrences are looked for from the front and do not overlap; `old` is not empty. -/
def replaceChars (old new : List Char) : Nat → List Char → List Char
  | _, [] => []
  | skip + 1, _ :: rest => replaceChars old new skip rest
  | 0, c :: rest =>
    if old.isPrefixOf (c :: rest) then new ++ replaceChars old new (old.length - 1) rest
    else c :: replaceChars old new 0 rest

/-- The text with `new` in the place of `old`. -/
def replace (old new s : String) : String :=
  String.ofList (replaceChars old.toList new.toList 0 s.toList)

end CodeReview.Text
