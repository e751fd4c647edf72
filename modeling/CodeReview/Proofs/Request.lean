import CodeReview.Proofs.Invocation
import CodeReview.Proofs.Json.Demand

/-!
Requests as JSON text. A request is read from an object by what stands under its five names, and
from nothing else: neither the order of the members matters, nor how they are spelled, nor what
stands under other names, and null counts as nothing. An object in which one of the names comes
twice, or in which something else stands under it, is no request.
-/

namespace CodeReview.Request

open Json (Bytes byte Spaces Gives Quoted Nullable Listed Chosen Form RawObject)

/-- After blanks the text starts with an object. These are its members, each with a value of any
kind and any depth under a name that is a text, and this comes after the object. -/
def StartsWithObject (body : String) (ms : List (String × Bytes)) (rest : Bytes) : Prop :=
  ∃ w t, Spaces w ∧ RawObject t ms ∧ (∀ m ∈ ms, ∃ depth, Form depth m.2) ∧
    Text.bytes body = w ++ (t ++ rest)

/-- How the provider is written: by its name, or by an object with this name and null. -/
abbrev ProviderText : Bytes → Provider → Prop :=
  Chosen Vocabulary.ofName?

/-- The text is null or of the kind that belongs under the name. -/
inductive Typed : String → Bytes → Prop where
  | text {key : String} {t : Bytes} {o : Option String}
    (name : key ∈ ["code", "language", "filename"]) (h : Nullable Quoted t o) : Typed key t
  | provider {t : Bytes} {o : Option Provider} (h : Nullable ProviderText t o) :
    Typed "modelProvider" t
  | focus {t : Bytes} {o : Option (List String)} (h : Nullable (Listed Quoted) t o) :
    Typed "analysisType" t

/-- What the members tell about a request. A member that is absent or null tells nothing. -/
structure Tells (ms : List (String × Bytes)) (r : Request) : Prop where
  code : Gives ms "code" (Nullable Quoted) none r.code
  language : Gives ms "language" (Nullable Quoted) none r.language
  filename : Gives ms "filename" (Nullable Quoted) none r.filename
  provider : Gives ms "modelProvider" (Nullable ProviderText) none r.provider
  focus : Gives ms "analysisType" (Nullable (Listed Quoted)) none r.focus

/-! ### What is demanded -/

theorem distinct_focus : Json.Distinct (Listed Quoted) :=
  Json.distinct_listed fun h => h.form 0

theorem demands_typed (depth : Nat) : ∀ m ∈ shape.members,
    Json.Demands (m.read depth) fun t _ => Typed m.key t := by
  have htext {key : String} (hkey : key ∈ ["code", "language", "filename"])
      {set : Option String → Request → Request} : Json.Demands
        ((Json.member key .optional (.optional .text) set).read depth) fun t _ => Typed key t :=
    Json.Shape.demands_member (Json.Reader.accepts_optional Json.Reader.accepts_text)
      (Json.distinct_nullable Json.distinct_quoted) fun _ _ => .text hkey
  simp only [shape, List.forall_mem_cons]
  refine ⟨htext (by decide), htext (by decide), htext (by decide), ?_, ?_, List.forall_mem_nil _⟩
  · exact Json.Shape.demands_member
      (Json.Reader.accepts_optional (Json.Reader.accepts_choice _ _))
      (Json.distinct_nullable (Json.distinct_chosen _)) fun _ _ => .provider
  · exact Json.Shape.demands_member
      (Json.Reader.accepts_optional (Json.Reader.accepts_list fun _ => Json.Reader.accepts_text))
      (Json.distinct_nullable distinct_focus) fun _ _ => .focus

theorem Typed.exists_text {key : String} {t : Bytes} (h : Typed key t)
    (hkey : key ∈ ["code", "language", "filename"]) : ∃ o, Nullable Quoted t o := by
  cases h with
  | text _ h => exact ⟨_, h⟩
  | provider => exact absurd hkey (by decide)
  | focus => exact absurd hkey (by decide)

theorem Typed.exists_provider {key : String} {t : Bytes} (h : Typed key t)
    (hkey : key = "modelProvider") : ∃ o, Nullable ProviderText t o := by
  cases h with
  | text name => exact absurd (hkey ▸ name) (by decide)
  | provider h => exact ⟨_, h⟩
  | focus => exact absurd hkey (by decide)

theorem Typed.exists_focus {key : String} {t : Bytes} (h : Typed key t)
    (hkey : key = "analysisType") : ∃ o, Nullable (Listed Quoted) t o := by
  cases h with
  | text name => exact absurd (hkey ▸ name) (by decide)
  | provider => exact absurd hkey (by decide)
  | focus h => exact ⟨_, h⟩

section Members

variable {ms : List (String × Bytes)}

/-- Members of the right kinds tell something. -/
theorem exists_tells (h : ∀ m ∈ ms, m.1 ∈ shape.keys → Typed m.1 m.2) : ∃ r, Tells ms r := by
  have htext (key : String) (hkey : key ∈ ["code", "language", "filename"])
      (hknown : key ∈ shape.keys) : ∃ o, Gives ms key (Nullable Quoted) none o :=
    Json.exists_gives fun _ ht => (h _ ht hknown).exists_text hkey
  have hprovider : "modelProvider" ∈ shape.keys := by decide
  have hfocus : "analysisType" ∈ shape.keys := by decide
  obtain ⟨code, hcode⟩ := htext "code" (by decide) (by decide)
  obtain ⟨language, hlanguage⟩ := htext "language" (by decide) (by decide)
  obtain ⟨filename, hfilename⟩ := htext "filename" (by decide) (by decide)
  obtain ⟨provider, hchosen⟩ :
      ∃ o, Gives ms "modelProvider" (Nullable ProviderText) none o :=
    Json.exists_gives fun _ ht => (h _ ht hprovider).exists_provider rfl
  obtain ⟨focus, hlisted⟩ : ∃ o, Gives ms "analysisType" (Nullable (Listed Quoted)) none o :=
    Json.exists_gives fun _ ht => (h _ ht hfocus).exists_focus rfl
  exact ⟨⟨code, language, filename, provider, focus⟩, hcode, hlanguage, hfilename, hchosen,
    hlisted⟩

/-- What is told does not depend on the order. -/
theorem Tells.of_perm {ms' : List (String × Bytes)} {r : Request} (h : Tells ms r)
    (honce : shape.Once (ms.map Prod.fst)) (htold : (shape.told ms).Perm (shape.told ms')) :
    Tells ms' r where
  code := Json.Shape.gives_of_perm honce htold (by decide) Quoted.starts h.code
  language := Json.Shape.gives_of_perm honce htold (by decide) Quoted.starts h.language
  filename := Json.Shape.gives_of_perm honce htold (by decide) Quoted.starts h.filename
  provider := Json.Shape.gives_of_perm honce htold (by decide) Chosen.starts h.provider
  focus := Json.Shape.gives_of_perm honce htold (by decide) Listed.starts h.focus

/-- What the members tell is read, if none of the names comes twice. -/
theorem takes_of_tells {t : Bytes} {r : Request} (hobject : RawObject t ms)
    (hadmits : shape.Admits ms) (h : Tells ms r) (depth : Nat) :
    Json.Takes (shape.reader (depth + 2)) t r := by
  have hprovider {t : Bytes} {o : Option Provider} (h : Nullable ProviderText t o) :
      Json.Takes (Json.Reader.optional Vocabulary.reader (depth + 1)) t o :=
    Json.Reader.takes_nullable Json.Reader.takes_chosen Chosen.starts h
  have hlist {t : Bytes} {ts : List String} (h : Listed Quoted t ts) :
      Json.Takes (Json.Reader.list .text (depth + 1)) t ts := by
    obtain ⟨us, hlist, hquoted⟩ := h
    refine Json.Reader.takes_rawList (fun h => ⟨Json.Reader.takes_quoted h, ?_⟩) hlist hquoted
    exact (Json.distinct_quoted h).2
  have hfocus {t : Bytes} {o : Option (List String)} (h : Nullable (Listed Quoted) t o) :
      Json.Takes (Json.Reader.optional (.list .text) (depth + 1)) t o :=
    Json.Reader.takes_nullable hlist Listed.starts h
  exact Json.Shape.takes_rawObject hobject hadmits (by decide)
    (.cons (Json.Shape.supplies_of_gives h.code (by decide) rfl Json.Reader.takes_nullableText) <|
      .cons (Json.Shape.supplies_of_gives h.language (by decide) rfl
        Json.Reader.takes_nullableText) <|
      .cons (Json.Shape.supplies_of_gives h.filename (by decide) rfl
        Json.Reader.takes_nullableText) <|
      .cons (Json.Shape.supplies_of_gives h.provider (by decide) rfl hprovider) <|
      .cons (Json.Shape.supplies_of_gives h.focus (by decide) rfl hfocus) .nil) (by simp)

end Members

/-! ### Documents -/

section Documents

variable {body : String} {ms : List (String × Bytes)} {rest : Bytes}

theorem readText_of_tells (h : StartsWithObject body ms rest) (hrest : Spaces rest)
    (honce : shape.Once (ms.map Prod.fst)) {r : Request} (htells : Tells ms r) :
    Json.readText shape.reader body = .ok r := by
  obtain ⟨w, t, hw, hobject, hforms, hbody⟩ := h
  have hread := takes_of_tells hobject ⟨honce, fun m hm _ => hforms m hm⟩ htells 125 w rest hw
    (List.append_nil rest ▸ Json.ends_append hrest Json.ends_nil)
  rw [Json.readText, hbody]
  exact Json.read_eq_ok_iff.mpr ⟨rest, hread, hrest⟩

/-- What is read comes from members of the right kinds, with nothing but blanks after them. -/
theorem typed_of_readText (h : StartsWithObject body ms rest) {r : Request}
    (hread : Json.readText shape.reader body = .ok r) :
    Spaces rest ∧ shape.Once (ms.map Prod.fst) ∧ ∀ m ∈ ms, m.1 ∈ shape.keys → Typed m.1 m.2 := by
  obtain ⟨w, t, hw, hobject, hforms, hbody⟩ := h
  rw [Json.readText, hbody] at hread
  obtain ⟨left, ⟨hshort, hyields⟩, hleft⟩ := Json.read_eq_ok_iff.mp hread
  obtain ⟨hmeets, hrest⟩ :=
    Json.Shape.meets_of_reader (demands_typed _) hobject hforms hw hyields
  exact ⟨hrest ▸ hleft, hmeets.once, hmeets.texts⟩

theorem readText_eq_ok_iff (h : StartsWithObject body ms rest) {r : Request} :
    Json.readText shape.reader body = .ok r ↔
      Spaces rest ∧ shape.Once (ms.map Prod.fst) ∧ Tells ms r := by
  constructor
  · intro hread
    obtain ⟨hrest, honce, htyped⟩ := typed_of_readText h hread
    obtain ⟨r', htells⟩ := exists_tells htyped
    obtain rfl := Except.ok.inj ((readText_of_tells h hrest honce htells).symm.trans hread)
    exact ⟨hrest, honce, htells⟩
  · rintro ⟨hrest, honce, htells⟩
    exact readText_of_tells h hrest honce htells

theorem handle_congr {body' : String} {r : Request}
    (h : Json.readText shape.reader body = .ok r) (h' : Json.readText shape.reader body' = .ok r)
    (reviewer : Reviewer) (method : String) :
    Invocation.handle reviewer ⟨method, some body⟩ =
      Invocation.handle reviewer ⟨method, some body'⟩ := by
  have hbody : Invocation.handleBody reviewer body = Invocation.handleBody reviewer body' := by
    rw [Invocation.handleBody, Invocation.handleBody, h, h']
  rw [Invocation.handle, Invocation.handle, Option.getD_some, Option.getD_some, hbody]

end Documents

/-- A text that starts with an object is read as a request exactly if nothing but blanks follows,
none of the five names comes twice, and under each of them stands null or what belongs there. Then
the request has what stands there and nothing else. Every other text that tells the same is read as
the same request and gets the same response: members may come in another order, be null instead of
absent, and have any others between them. -/
theorem readText_told {body : String} {ms : List (String × Bytes)} {rest : Bytes}
    (h : StartsWithObject body ms rest) :
    (∀ r, Json.readText shape.reader body = .ok r ↔
      Spaces rest ∧ shape.Once (ms.map Prod.fst) ∧ Tells ms r) ∧
    ((∃ r, Json.readText shape.reader body = .ok r) ↔
      Spaces rest ∧ shape.Once (ms.map Prod.fst) ∧
        ∀ m ∈ ms, m.1 ∈ shape.keys → Typed m.1 m.2) ∧
    ∀ r, Json.readText shape.reader body = .ok r → ∀ body' ms' rest',
      StartsWithObject body' ms' rest' → Spaces rest' → shape.Once (ms'.map Prod.fst) →
      (shape.told ms).Perm (shape.told ms') →
        Json.readText shape.reader body' = .ok r ∧ ∀ reviewer method,
          Invocation.handle reviewer ⟨method, some body⟩ =
            Invocation.handle reviewer ⟨method, some body'⟩ := by
  refine ⟨fun r => readText_eq_ok_iff h, ⟨?_, ?_⟩, ?_⟩
  · rintro ⟨r, hread⟩
    exact typed_of_readText h hread
  · rintro ⟨hrest, honce, htyped⟩
    obtain ⟨r, htells⟩ := exists_tells htyped
    exact ⟨r, readText_of_tells h hrest honce htells⟩
  · intro r hread body' ms' rest' h' hrest' honce' htold
    obtain ⟨-, honce, htells⟩ := (readText_eq_ok_iff h).mp hread
    have hread' := readText_of_tells h' hrest' honce' (htells.of_perm honce htold)
    exact ⟨hread', handle_congr hread hread'⟩

/-- A request between blanks and among other members. -/
def spreadBody : String :=
  " \x7b\"x\":[\x7b\x7d],\"analysisType\":[\"a\"],\"modelProvider\":\x7b\"gemini\":null\x7d," ++
    "\"code\":\"f\",\"language\":null\x7d\n"

/-- The same request by itself. -/
def plainBody : String :=
  "\x7b\"code\":\"f\",\"modelProvider\":\x7b\"gemini\":null\x7d,\"analysisType\":[\"a\"]\x7d"

/-- Each body is read, and one may stand for the other. -/
theorem readText_told_spread :
    let r : Request := ⟨some "f", none, none, some .gemini, some ["a"]⟩
    Json.readText shape.reader spreadBody = .ok r ∧ Json.readText shape.reader plainBody = .ok r ∧
      ∀ reviewer, Invocation.handle reviewer ⟨"POST", some spreadBody⟩ =
        Invocation.handle reviewer ⟨"POST", some plainBody⟩ := by
  intro r
  let x : Bytes := [byte '[', byte '{', byte '}', byte ']']
  let f : Bytes := byte '"' :: Json.quoteTail "f"
  let a : Bytes := byte '[' :: (byte '"' :: Json.quoteTail "a" ++ [byte ']'])
  let g : Bytes := byte '{' :: byte '"' :: Json.rawMembers "gemini" (Text.bytes "null") []
  have hempty : Form 1 [byte '{', byte '}'] :=
    .inr (.inr ⟨_, [], rfl, .empty Json.spaces_nil, trivial⟩)
  have hx : Form 2 x :=
    .inr (.inl ⟨_, [()], rfl, .items (.last Json.spaces_nil hempty Json.spaces_nil), rfl⟩)
  have hquoted (s : String) : Quoted (byte '"' :: Json.quoteTail s) s :=
    ⟨_, rfl, Json.spells_quoteTail s⟩
  have ha : Form 1 a := .inr (.inl ⟨_, [()], rfl,
    .items (.last Json.spaces_nil ((hquoted "a").form 0) Json.spaces_nil), rfl⟩)
  have hg : Form 1 g := .inr (.inr ⟨_, [((), ())], rfl, .members Json.spaces_nil
    (.last (Json.spells_quoteTail "gemini").form Json.spaces_nil Json.spaces_nil .null
      Json.spaces_nil), trivial⟩)
  have hlist : Json.RawList a [byte '"' :: Json.quoteTail "a"] :=
    ⟨_, rfl, .items (.last (t := byte '"' :: Json.quoteTail "a") Json.spaces_nil rfl
      Json.spaces_nil)⟩
  have hfocus : Listed Quoted a ["a"] := ⟨_, hlist, .cons (hquoted "a") .nil⟩
  have hprovider : ProviderText g .gemini :=
    .object (Json.rawObject_member "gemini" _) (by decide)
  have hspread : StartsWithObject spreadBody [("x", x), ("analysisType", a), ("modelProvider", g),
      ("code", f), ("language", Text.bytes "null")] [byte '\n'] := by
    refine ⟨[byte ' '], _, by decide, Json.rawObject_members _ _ _, ?_, by decide +kernel⟩
    simp only [List.forall_mem_cons]
    exact ⟨⟨2, hx⟩, ⟨1, ha⟩, ⟨1, hg⟩, ⟨0, (hquoted "f").form 0⟩, ⟨0, .null⟩,
      List.forall_mem_nil _⟩
  have hplain : StartsWithObject plainBody [("code", f), ("modelProvider", g),
      ("analysisType", a)] [] := by
    refine ⟨[], _, Json.spaces_nil, Json.rawObject_members _ _ _, ?_, by decide +kernel⟩
    simp only [List.forall_mem_cons]
    exact ⟨⟨0, (hquoted "f").form 0⟩, ⟨1, hg⟩, ⟨1, ha⟩, List.forall_mem_nil _⟩
  obtain ⟨hread, -, hsame⟩ := readText_told hspread
  have htells : Tells [("x", x), ("analysisType", a), ("modelProvider", g), ("code", f),
      ("language", Text.bytes "null")] r :=
    ⟨.inr ⟨f, by simp, .value (hquoted "f")⟩, .inr ⟨_, by simp, .null⟩, .inl ⟨by decide, rfl⟩,
      .inr ⟨g, by simp, .value hprovider⟩, .inr ⟨a, by simp, .value hfocus⟩⟩
  have hspreadRead := (hread r).mpr ⟨by decide, by decide, htells⟩
  obtain ⟨hplainRead, hhandle⟩ := hsame r hspreadRead plainBody _ [] hplain Json.spaces_nil
    (by decide) (by decide +kernel)
  exact ⟨hspreadRead, hplainRead, fun reviewer => hhandle reviewer "POST"⟩

end CodeReview.Request
