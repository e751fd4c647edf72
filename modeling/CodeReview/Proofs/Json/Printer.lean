import CodeReview.Json.Printer
import CodeReview.Proofs.Json.Reader

/-!
What is written is read as it was: the text of a value leads back to the value, in either layout,
as long as its numbers can be read, its names are all different and it is not too deep. How numbers
are read is a parameter here.
-/

namespace CodeReview.Json

/-! ### Numbers inside of values -/

mutual

/-- The value with another value in the place of each number. -/
def mapNumbers (f : Number → Json) : Json → Json
  | .null => .null
  | .bool b => .bool b
  | .number n => f n
  | .text s => .text s
  | .list vs => .list (mapItems f vs)
  | .object ms => .object (mapMembers f ms)

def mapItems (f : Number → Json) : List Json → List Json
  | [] => []
  | v :: vs => mapNumbers f v :: mapItems f vs

def mapMembers (f : Number → Json) : List (String × Json) → List (String × Json)
  | [] => []
  | (k, v) :: ms => (k, mapNumbers f v) :: mapMembers f ms

end

mutual

/-- The value can be read when so many containers may be opened: each of its numbers has the
property, and no object has a name twice. -/
def Readable (P : Number → Prop) (depth : Nat) : Json → Prop
  | .number n => P n
  | .list vs => 0 < depth ∧ ReadableItems P (depth - 1) vs
  | .object ms =>
    0 < depth ∧ (ms.map Prod.fst).Nodup ∧ ReadableMembers P (depth - 1) ms
  | _ => True

def ReadableItems (P : Number → Prop) (depth : Nat) : List Json → Prop
  | [] => True
  | v :: vs => Readable P depth v ∧ ReadableItems P depth vs

def ReadableMembers (P : Number → Prop) (depth : Nat) : List (String × Json) → Prop
  | [] => True
  | (_, v) :: ms => Readable P depth v ∧ ReadableMembers P depth ms

end

theorem mapItems_eq (f : Number → Json) (vs : List Json) :
    mapItems f vs = vs.map (mapNumbers f) := by
  induction vs with
  | nil => rfl
  | cons v vs ih => rw [mapItems, ih, List.map_cons]

theorem mapMembers_eq (f : Number → Json) (ms : List (String × Json)) :
    mapMembers f ms = ms.map fun m => (m.1, mapNumbers f m.2) := by
  induction ms with
  | nil => rfl
  | cons m ms ih => rw [mapMembers, ih, List.map_cons]

theorem readableItems_iff {P : Number → Prop} {depth : Nat} {vs : List Json} :
    ReadableItems P depth vs ↔ ∀ v ∈ vs, Readable P depth v := by
  induction vs with
  | nil => simp [ReadableItems]
  | cons v vs ih => simp [ReadableItems, ih]

theorem readableMembers_iff {P : Number → Prop} {depth : Nat} {ms : List (String × Json)} :
    ReadableMembers P depth ms ↔ ∀ m ∈ ms, Readable P depth m.2 := by
  induction ms with
  | nil => simp [ReadableMembers]
  | cons m ms ih => simp [ReadableMembers, ih]

theorem readable_object_iff {P : Number → Prop} {depth : Nat} {ms : List (String × Json)} :
    Readable P (depth + 1) (.object ms) ↔
      (ms.map Prod.fst).Nodup ∧ ∀ m ∈ ms, Readable P depth m.2 := by
  rw [Readable, readableMembers_iff]
  simp

theorem readable_list_iff {P : Number → Prop} {depth : Nat} {vs : List Json} :
    Readable P (depth + 1) (.list vs) ↔ ∀ v ∈ vs, Readable P depth v := by
  rw [Readable, readableItems_iff]
  simp

theorem readable_text {P : Number → Prop} {depth : Nat} (s : String) :
    Readable P depth (.text s) := by
  rw [Readable] <;> simp

theorem readable_number {P : Number → Prop} {depth : Nat} {n : Number} (h : P n) :
    Readable P depth (.number n) := by
  rw [Readable]
  exact h

theorem forall_mem_member? {key : String} {value : Option α} {f : α → Json}
    {Q : String × Json → Prop} :
    (∀ m ∈ member? key (value.map f), Q m) ↔ ∀ a, value = some a → Q (key, f a) := by
  cases value <;> simp [member?]

theorem readable_texts {P : Number → Prop} {depth : Nat} (key : String) (text : Option String) :
    ∀ m ∈ member? key (text.map .text), Readable P depth m.2 :=
  forall_mem_member?.mpr fun s _ => readable_text s

mutual

theorem Readable.mono {P Q : Number → Prop} (hPQ : ∀ n, P n → Q n) :
    ∀ {v : Json} {depth : Nat}, Readable P depth v → Readable Q depth v
  | .null, _, h => h
  | .bool _, _, h => h
  | .text _, _, h => h
  | .number n, _, h => by
      rw [Readable] at h ⊢
      exact hPQ n h
  | .list vs, _, h => by
      rw [Readable] at h ⊢
      exact ⟨h.1, ReadableItems.mono hPQ h.2⟩
  | .object ms, _, h => by
      rw [Readable] at h ⊢
      exact ⟨h.1, h.2.1, ReadableMembers.mono hPQ h.2.2⟩

theorem ReadableItems.mono {P Q : Number → Prop} (hPQ : ∀ n, P n → Q n) :
    ∀ {vs : List Json} {depth : Nat}, ReadableItems P depth vs → ReadableItems Q depth vs
  | [], _, h => h
  | v :: vs, _, h => by
      rw [ReadableItems] at h ⊢
      exact ⟨Readable.mono hPQ h.1, ReadableItems.mono hPQ h.2⟩

theorem ReadableMembers.mono {P Q : Number → Prop} (hPQ : ∀ n, P n → Q n) :
    ∀ {ms : List (String × Json)} {depth : Nat}, ReadableMembers P depth ms →
      ReadableMembers Q depth ms
  | [], _, h => h
  | (_, v) :: ms, _, h => by
      rw [ReadableMembers] at h ⊢
      exact ⟨Readable.mono hPQ h.1, ReadableMembers.mono hPQ h.2⟩

end

section Kept

variable {f : Number → Json}

mutual

/-- A value whose numbers are all kept is kept itself. -/
theorem mapNumbers_eq_self : ∀ {v : Json} {depth : Nat},
    Readable (fun n => f n = .number n) depth v → mapNumbers f v = v
  | .null, _, _ => by rw [mapNumbers]
  | .bool b, _, _ => by rw [mapNumbers]
  | .text s, _, _ => by rw [mapNumbers]
  | .number n, depth, h => by
      rw [Readable] at h
      rw [mapNumbers, h]
  | .list vs, depth, h => by
      rw [Readable] at h
      rw [mapNumbers, mapItems_eq_self h.2]
  | .object ms, depth, h => by
      rw [Readable] at h
      rw [mapNumbers, mapMembers_eq_self h.2.2]

theorem mapItems_eq_self : ∀ {vs : List Json} {depth : Nat},
    ReadableItems (fun n => f n = .number n) depth vs → mapItems f vs = vs
  | [], _, _ => by rw [mapItems]
  | v :: vs, depth, h => by
      rw [ReadableItems] at h
      rw [mapItems, mapNumbers_eq_self h.1, mapItems_eq_self h.2]

theorem mapMembers_eq_self : ∀ {ms : List (String × Json)} {depth : Nat},
    ReadableMembers (fun n => f n = .number n) depth ms → mapMembers f ms = ms
  | [], _, _ => by rw [mapMembers]
  | (k, v) :: ms, depth, h => by
      rw [ReadableMembers] at h
      rw [mapMembers, mapNumbers_eq_self h.1, mapMembers_eq_self h.2]

end

end Kept

/-! ### Text that is already there -/

mutual

theorem write_append (layout : Layout) (depth : Nat) (out : String) :
    ∀ v, write layout depth out v = out ++ write layout depth "" v
  | .null => by simp [write]
  | .bool true => by simp [write]
  | .bool false => by simp [write]
  | .number n => by simp [write]
  | .text s => by simp [write]
  | .list [] => by simp [write]
  | .list (v :: vs) => by
      have hitem := fun out => write_append layout (depth + 1) out v
      have hitems := fun out => writeItems_append layout (depth + 1) out vs
      have hlist (out : String) : write layout depth out (.list (v :: vs)) =
          out ++ ("[" ++ (layout.line (depth + 1) ++ (write layout (depth + 1) "" v ++
            (writeItems layout (depth + 1) "" vs ++ (layout.line depth ++ "]"))))) := by
        rw [write, hitems, hitem]
        simp only [String.append_assoc]
      rw [hlist out, hlist "", String.empty_append]
  | .object [] => by simp [write]
  | .object ((k, v) :: ms) => by
      have hvalue := fun out => write_append layout (depth + 1) out v
      have hmembers := fun out => writeMembers_append layout (depth + 1) out ms
      have hobject (out : String) : write layout depth out (.object ((k, v) :: ms)) =
          out ++ ("\x7b" ++ (layout.line (depth + 1) ++ (quote k ++ (layout.colon ++
            (write layout (depth + 1) "" v ++ (writeMembers layout (depth + 1) "" ms ++
              (layout.line depth ++ "\x7d"))))))) := by
        rw [write, hmembers, hvalue]
        simp only [String.append_assoc]
      rw [hobject out, hobject "", String.empty_append]

theorem writeItems_append (layout : Layout) (depth : Nat) (out : String) :
    ∀ vs, writeItems layout depth out vs = out ++ writeItems layout depth "" vs
  | [] => by simp [writeItems]
  | v :: vs => by
      have hitem := fun out => write_append layout depth out v
      have hitems := fun out => writeItems_append layout depth out vs
      have hmore (out : String) : writeItems layout depth out (v :: vs) =
          out ++ ("," ++ (layout.line depth ++ (write layout depth "" v ++
            writeItems layout depth "" vs))) := by
        rw [writeItems, hitems, hitem]
        simp only [String.append_assoc]
      rw [hmore out, hmore "", String.empty_append]

theorem writeMembers_append (layout : Layout) (depth : Nat) (out : String) :
    ∀ ms, writeMembers layout depth out ms = out ++ writeMembers layout depth "" ms
  | [] => by simp [writeMembers]
  | (k, v) :: ms => by
      have hvalue := fun out => write_append layout depth out v
      have hmembers := fun out => writeMembers_append layout depth out ms
      have hmore (out : String) : writeMembers layout depth out ((k, v) :: ms) =
          out ++ ("," ++ (layout.line depth ++ (quote k ++ (layout.colon ++
            (write layout depth "" v ++ writeMembers layout depth "" ms))))) := by
        rw [writeMembers, hmembers, hvalue]
        simp only [String.append_assoc]
      rw [hmore out, hmore "", String.empty_append]

end

/-! ### Bytes -/

/-- The bytes of a value as it is written. -/
def textOf (layout : Layout) (depth : Nat) (v : Json) : Bytes :=
  Text.bytes (write layout depth "" v)

/-- The bytes of the items after the first one. -/
def itemsTextOf (layout : Layout) (depth : Nat) (vs : List Json) : Bytes :=
  Text.bytes (writeItems layout depth "" vs)

/-- The bytes of the members after the first one. -/
def membersTextOf (layout : Layout) (depth : Nat) (ms : List (String × Json)) : Bytes :=
  Text.bytes (writeMembers layout depth "" ms)

def Layout.lineBytes (layout : Layout) (depth : Nat) : Bytes :=
  Text.bytes (layout.line depth)

theorem textOf_list (layout : Layout) (depth : Nat) (v : Json) (vs : List Json) :
    textOf layout depth (.list (v :: vs)) =
      byte '[' :: (layout.lineBytes (depth + 1) ++ (textOf layout (depth + 1) v ++
        (itemsTextOf layout (depth + 1) vs ++ (layout.lineBytes depth ++ [byte ']'])))) := by
  have hopen : Text.bytes "[" = [byte '['] := Text.bytes_eq _
  have hclose : Text.bytes "]" = [byte ']'] := Text.bytes_eq _
  rw [textOf, write, writeItems_append, write_append]
  simp only [Text.bytes_append, String.empty_append, hopen, hclose, List.append_assoc]
  rfl

theorem itemsTextOf_cons (layout : Layout) (depth : Nat) (v : Json) (vs : List Json) :
    itemsTextOf layout depth (v :: vs) =
      byte ',' :: (layout.lineBytes depth ++ (textOf layout depth v ++
        itemsTextOf layout depth vs)) := by
  have hcomma : Text.bytes "," = [byte ','] := Text.bytes_eq _
  rw [itemsTextOf, writeItems, writeItems_append, write_append]
  simp only [Text.bytes_append, String.empty_append, hcomma, List.append_assoc]
  rfl

theorem textOf_object (layout : Layout) (depth : Nat) (k : String) (v : Json)
    (ms : List (String × Json)) :
    textOf layout depth (.object ((k, v) :: ms)) =
      byte '{' :: (layout.lineBytes (depth + 1) ++ byte '"' :: (quoteTail k ++
        (Text.bytes layout.colon ++ (textOf layout (depth + 1) v ++
          (membersTextOf layout (depth + 1) ms ++ (layout.lineBytes depth ++ [byte '}'])))))) := by
  have hopen : Text.bytes "\x7b" = [byte '{'] := Text.bytes_eq _
  have hclose : Text.bytes "\x7d" = [byte '}'] := Text.bytes_eq _
  rw [textOf, write, writeMembers_append, write_append]
  simp only [Text.bytes_append, String.empty_append, hopen, hclose, bytes_quote, List.append_assoc,
    List.cons_append]
  rfl

theorem membersTextOf_cons (layout : Layout) (depth : Nat) (k : String) (v : Json)
    (ms : List (String × Json)) :
    membersTextOf layout depth ((k, v) :: ms) =
      byte ',' :: (layout.lineBytes depth ++ byte '"' :: (quoteTail k ++
        (Text.bytes layout.colon ++ (textOf layout depth v ++
          membersTextOf layout depth ms)))) := by
  have hcomma : Text.bytes "," = [byte ','] := Text.bytes_eq _
  rw [membersTextOf, writeMembers, writeMembers_append, write_append]
  simp only [Text.bytes_append, String.empty_append, hcomma, bytes_quote, List.append_assoc,
    List.cons_append]
  rfl

/-! ### Reading -/

/-- Only blanks stand between the parts of a value. -/
structure Layout.IsBlank (layout : Layout) : Prop where
  colon : ∃ w₁ w₂, Spaces w₁ ∧ Spaces w₂ ∧ Text.bytes layout.colon = w₁ ++ byte ':' :: w₂
  line : ∀ depth, Spaces (layout.lineBytes depth)

theorem Layout.isBlank_compact : Layout.compact.IsBlank where
  colon := ⟨[], [], spaces_nil, spaces_nil, Text.bytes_eq _⟩
  line := by
    intro depth
    rw [lineBytes, show Text.bytes (Layout.compact.line depth) = [] from Text.bytes_eq _]
    exact spaces_nil

theorem Layout.isBlank_indented : Layout.indented.IsBlank where
  colon := ⟨[], [byte ' '], spaces_nil, by simp [Spaces, isSpace], Text.bytes_eq _⟩
  line := by
    intro depth b hb
    rw [lineBytes, show Layout.indented.line depth =
      String.ofList ('\n' :: List.replicate (2 * depth) ' ') from rfl, Text.bytes_ofList,
      List.mem_flatMap] at hb
    obtain ⟨c, hc, hb⟩ := hb
    rcases List.mem_cons.mp hc with rfl | hc
    · rw [Text.utf8EncodeChar_of_lt (by decide), List.mem_singleton] at hb
      subst hb
      decide
    · obtain rfl := List.eq_of_mem_replicate hc
      rw [Text.utf8EncodeChar_of_lt (by decide), List.mem_singleton] at hb
      subst hb
      decide

/-- The layout adds nothing but blanks, and the texts of the numbers with the property stand for
what the function says. -/
structure Renders (layout : Layout) (P : Number → Prop) (number : Bytes → Json → Prop)
    (f : Number → Json) : Prop where
  blank : layout.IsBlank
  number : ∀ n, P n → number (Text.bytes n.render) (f n)

/-- The numbers with the property are read as the function says, and the layout adds nothing but
blanks. -/
abbrev ReadsBack (layout : Layout) (P : Number → Prop) (f : Number → Json) : Prop :=
  Renders layout P (fun t v => ∀ depth, Takes (Reader.value depth) t v ∧ Starts t) f

section Written

variable {layout : Layout} {P : Number → Prop} {f : Number → Json} {number : Bytes → Json → Prop}
  (hrenders : Renders layout P number f)
include hrenders

-- The three of them follow the recursion of the printer, which writes the first item and the first
-- member of a container together with its opening bracket.
mutual

/-- What is written for a value stands for it. -/
theorem derives_write : ∀ (v : Json) {depth : Nat} (level : Nat), Readable P depth v →
    (Grammar.meant number).Derives depth (textOf layout level v) (mapNumbers f v)
  | .null, depth, level, _ => by
      rw [textOf, write, String.empty_append, mapNumbers]
      exact Grammar.derives_scalar .null
  | .bool b, depth, level, _ => by
      have htext : textOf layout level (.bool b) = Text.bytes (if b then "true" else "false") := by
        cases b <;> rw [textOf, write, String.empty_append] <;> rfl
      rw [htext, mapNumbers]
      exact Grammar.derives_scalar (.bool b)
  | .number n, depth, level, h => by
      rw [textOf, write, String.empty_append, mapNumbers]
      rw [Readable] at h
      exact Grammar.derives_scalar (.number (hrenders.number n h))
  | .text s, depth, level, _ => by
      rw [textOf, write, String.empty_append, mapNumbers, bytes_quote]
      exact Grammar.derives_scalar (.text (spells_quoteTail s))
  | .list [], depth, level, h => by
      rw [Readable] at h
      obtain ⟨depth, rfl⟩ : ∃ d, depth = d + 1 := ⟨depth - 1, by omega⟩
      have htext : textOf layout level (.list []) = byte '[' :: ([] ++ [byte ']']) := by
        rw [textOf, write, String.empty_append]
        exact Text.bytes_eq _
      rw [htext, mapNumbers, mapItems]
      exact Grammar.derives_list (.empty spaces_nil)
  | .list (v :: vs), depth, level, h => by
      rw [Readable, ReadableItems] at h
      obtain ⟨hdepth, hv, hvs⟩ := h
      obtain ⟨depth, rfl⟩ : ∃ d, depth = d + 1 := ⟨depth - 1, by omega⟩
      rw [textOf_list, mapNumbers]
      have hitems := listText_write vs (level + 1) hvs (hrenders.blank.line (level + 1))
        (derives_write v (level + 1) hv) (hrenders.blank.line level)
      exact Grammar.derives_list (.items hitems)
  | .object [], depth, level, h => by
      rw [Readable] at h
      obtain ⟨depth, rfl⟩ : ∃ d, depth = d + 1 := ⟨depth - 1, by omega⟩
      have htext : textOf layout level (.object []) = byte '{' :: ([] ++ [byte '}']) := by
        rw [textOf, write, String.empty_append]
        exact Text.bytes_eq _
      rw [htext, mapNumbers, mapMembers]
      exact Grammar.derives_object (.empty spaces_nil) ⟨List.nodup_nil, rfl⟩
  | .object ((k, v) :: ms), depth, level, h => by
      rw [Readable, ReadableMembers] at h
      obtain ⟨hdepth, hnames, hv, hms⟩ := h
      obtain ⟨depth, rfl⟩ : ∃ d, depth = d + 1 := ⟨depth - 1, by omega⟩
      rw [textOf_object, mapNumbers]
      have hmembers := membersText_write ms (level + 1) hms k (derives_write v (level + 1) hv)
        (hrenders.blank.line level)
      have hnames' : (((k, mapNumbers f v) :: mapMembers f ms).map Prod.fst).Nodup := by
        rw [mapMembers_eq, List.map_cons, List.map_map]
        exact hnames
      exact Grammar.derives_object (.members (hrenders.blank.line (level + 1)) hmembers)
        ⟨hnames', rfl⟩

theorem listText_write : ∀ (vs : List Json) {depth : Nat} (level : Nat),
    ReadableItems P depth vs → ∀ {w w' t : Bytes} {a : Json}, Spaces w →
      (Grammar.meant number).Derives depth t a → Spaces w' →
      ListText ((Grammar.meant number).Derives depth)
        (w ++ (t ++ (itemsTextOf layout level vs ++ (w' ++ [byte ']'])))) (a :: mapItems f vs)
  | [], depth, level, _, w, w', t, a, hw, ht, hw' => by
      have htext : itemsTextOf layout level [] = [] := by
        rw [itemsTextOf, writeItems]
        exact Text.bytes_eq _
      rw [htext, mapItems, List.nil_append]
      exact .last hw ht hw'
  | v :: vs, depth, level, h, w, w', t, a, hw, ht, hw' => by
      rw [ReadableItems] at h
      rw [itemsTextOf_cons, mapItems]
      have hrest :=
        listText_write vs level h.2 (hrenders.blank.line level) (derives_write v level h.1) hw'
      have hmore := ListText.more hw ht spaces_nil hrest
      simpa only [List.append_assoc, List.cons_append, List.nil_append] using hmore

theorem membersText_write : ∀ (ms : List (String × Json)) {depth : Nat} (level : Nat),
    ReadableMembers P depth ms → ∀ (k : String) {w' t : Bytes} {a : Json},
      (Grammar.meant number).Derives depth t a → Spaces w' →
      MembersText Spells (fun _ => (Grammar.meant number).Derives depth)
        (quoteTail k ++ (Text.bytes layout.colon ++ (t ++
          (membersTextOf layout level ms ++ (w' ++ [byte '}']))))) ((k, a) :: mapMembers f ms)
  | [], depth, level, _, k, w', t, a, ht, hw' => by
      obtain ⟨w₁, w₂, h₁, h₂, hcolon⟩ := hrenders.blank.colon
      have htext : membersTextOf layout level [] = [] := by
        rw [membersTextOf, writeMembers]
        exact Text.bytes_eq _
      rw [htext, mapMembers, List.nil_append, hcolon, List.append_assoc, List.cons_append]
      exact .last (spells_quoteTail k) h₁ h₂ ht hw'
  | (l, v) :: ms, depth, level, h, k, w', t, a, ht, hw' => by
      obtain ⟨w₁, w₂, h₁, h₂, hcolon⟩ := hrenders.blank.colon
      rw [ReadableMembers] at h
      rw [membersTextOf_cons, mapMembers, hcolon]
      have hrest := membersText_write ms level h.2 l (derives_write v level h.1) hw'
      rw [hcolon] at hrest
      have hmore :=
        MembersText.more (spells_quoteTail k) h₁ h₂ ht spaces_nil (hrenders.blank.line level) hrest
      simpa only [List.append_assoc, List.cons_append, List.nil_append] using hmore

end

end Written

/-- A value is read back from the text that was written for it. -/
theorem takes_write {layout : Layout} {P : Number → Prop} {f : Number → Json}
    (hback : ReadsBack layout P f) (v : Json) {depth : Nat} (level : Nat)
    (h : Readable P depth v) :
    Takes (Reader.value depth) (textOf layout level v) (mapNumbers f v) ∧
      Starts (textOf layout level v) :=
  takes_meant (fun _ _ h => h) (derives_write hback v level h)

end CodeReview.Json
