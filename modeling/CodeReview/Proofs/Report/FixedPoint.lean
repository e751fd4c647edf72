import CodeReview.Proofs.Json.Float
import CodeReview.Proofs.Reply
import CodeReview.Proofs.Report.Coordinates
import CodeReview.Proofs.Report.Measure
import CodeReview.Proofs.Report.Schema
import CodeReview.Proofs.Report.Wire
import CodeReview.Proofs.Review
import CodeReview.Proofs.Vocabulary

/-!
A report is its own normal form: when its text comes back as the reply of a model, the findings are
the same again.
-/

namespace CodeReview

open Json (Readable mapNumbers)

/-! ### Members -/

namespace Json

variable {key : String} {entry : Json}

theorem looseText?_of_field {s : String} (h : entry.field? key = some (.text s))
    (hs : Text.Trimmed s) : entry.looseText? key = some s := by
  rw [looseText?, h]
  exact hs.nonBlank?_eq

theorem looseText?_of_optional {text : Option String} (h : entry.field? key = text.map .text)
    (htext : ∀ s, text = some s → Text.Trimmed s) : entry.looseText? key = text := by
  cases text with
  | none =>
      rw [looseText?, h]
      rfl
  | some s => exact looseText?_of_field h (htext s rfl)

theorem looseWord_of_field {α : Type} [Vocabulary α] [Vocabulary.Lawful α] [Inhabited α] {a : α}
    (h : entry.field? key = some (Vocabulary.toJson a)) : entry.looseWord key = a := by
  rw [looseWord, looseText?_of_field h (Vocabulary.Lawful.trimmed a), Option.bind_some,
    Vocabulary.Lawful.ofLoose?_name, Option.getD_some]

theorem codeText_of_field {s : String} (h : entry.field? key = some (.text s)) :
    entry.codeText key = s := by
  rw [codeText, h]
  rfl

end Json

/-! ### Coordinates -/

namespace Location

/-- Locations are written with their parts only in their own object. -/
theorem coordinate_of_location {entry : Json} {key : String} {l : Location} {n : UInt32}
    (htop : entry.field? key = none) (hlocation : entry.field? "location" = some l.toJson)
    (hpart : l.toJson.field? key = some (.ofNat n.toNat)) (h : 1 ≤ n.toNat) :
    coordinate entry key = n := by
  have hsize : n.toNat < 2 ^ 32 := n.toNat_lt
  have hflat : Json.Says (entry.field? key) none := by
    rw [htop]
    exact .absent
  have hnested : Json.Says ((entry.field? "location").bind (Json.field? key)) (some n.toNat) := by
    rw [hlocation, Option.bind_some, hpart]
    exact .usable (.number h (by omega))
  apply UInt32.toNat_inj.mp
  calc (coordinate entry key).toNat
      = min n.toNat (2 ^ 32 - 1) := toNat_coordinate hflat fun _ => hnested
    _ = n.toNat := by omega

theorem ofEntry_of_location {entry : Json} {l : Location} (h : l.Conforms)
    (htop : ∀ key ∈ parts, entry.field? key = none)
    (hlocation : entry.field? "location" = some l.toJson) : ofEntry entry = l := by
  have hpart (key : String) {n : UInt32} (hkey : key ∈ parts)
      (hn : l.toJson.field? key = some (.ofNat n.toNat)) (h : 1 ≤ n.toNat) :
      coordinate entry key = n :=
    coordinate_of_location (htop key hkey) hlocation hn h
  rw [ofEntry, hpart "startLine" (by decide) rfl h.startLine.1,
    hpart "startColumn" (by decide) rfl h.startColumn.1,
    hpart "endLine" (by decide) rfl h.endLine.1,
    hpart "endColumn" (by decide) rfl h.endColumn.1]

end Location

/-! ### Entries -/

/-- The members of an issue that come after one that may be left out. -/
theorem Issue.field?_toJson (i : Issue) :
    i.toJson.field? "description" = i.description.map .text ∧
      i.toJson.field? "location" = some i.location.toJson ∧
      i.toJson.field? "suggestedFix" = i.suggestedFix.map .text ∧
      i.toJson.field? "ruleId" = i.ruleId.map .text ∧
      ∀ key ∈ Location.parts, i.toJson.field? key = none := by
  obtain ⟨id, kind, severity, message, description, location, fix, rule⟩ := i
  simp only [Location.parts, List.forall_mem_cons]
  cases description <;> cases fix <;> cases rule <;>
    exact ⟨rfl, rfl, rfl, rfl, rfl, rfl, rfl, rfl, List.forall_mem_nil _⟩

theorem Issue.ofEntry_toJson {i : Issue} {n : Nat} (h : i.Conforms)
    (hid : i.id = "issue-" ++ toString n) : ofEntry n i.toJson = i := by
  obtain ⟨hdescription, hlocation, hfix, hrule, hparts⟩ := i.field?_toJson
  have hkind : i.toJson.looseWord "type" = i.kind := Json.looseWord_of_field rfl
  have hseverity : i.toJson.looseWord "severity" = i.severity := Json.looseWord_of_field rfl
  rw [ofEntry, hkind, hseverity, Json.looseText?_of_field rfl h.message,
    Json.looseText?_of_optional hdescription h.description,
    Json.looseText?_of_optional hfix h.suggestedFix, Json.looseText?_of_optional hrule h.ruleId,
    Location.ofEntry_of_location h.location hparts hlocation, ← hid]
  rfl

theorem Suggestion.ofEntry_toJson {s : Suggestion} {n : Nat} (h : s.Conforms)
    (hid : s.id = "suggestion-" ++ toString n) : ofEntry n s.toJson = s := by
  have hkind : s.toJson.looseWord "type" = s.kind := Json.looseWord_of_field rfl
  have himpact : s.toJson.looseWord "impact" = s.impact := Json.looseWord_of_field rfl
  have hparts : ∀ key ∈ Location.parts, s.toJson.field? key = none := by
    simp only [Location.parts, List.forall_mem_cons]
    exact ⟨rfl, rfl, rfl, rfl, List.forall_mem_nil _⟩
  have hconfidence : confidenceOf s.toJson = s.confidence := by
    obtain ⟨hfinite, hlow, hhigh⟩ := h.confidence
    have hnumber : (s.toJson.field? "confidence").bind Json.looseNumber? = some s.confidence := rfl
    rw [confidenceOf, hnumber]
    simp only [hfinite, hlow, hhigh, decide_true, Bool.and_self, if_true]
  rw [ofEntry, hkind, himpact, hconfidence, Json.looseText?_of_field rfl h.title,
    Json.looseText?_of_field rfl h.description, Json.codeText_of_field rfl,
    Json.codeText_of_field rfl, Location.ofEntry_of_location h.location hparts rfl, ← hid]
  rfl

/-! ### Reading the report -/

/-- What is read of an object in the place of its entries, wherever its text stands. -/
theorem Reply.entries_write {layout : Json.Layout} (hblank : layout.IsBlank)
    {ms : List (String × Json)}
    (hreadable : Readable Json.Number.Legible Json.maxDepth (.object ms))
    (before after : String) (hbefore : '{' ∉ before.toList) (hafter : '}' ∉ after.toList) :
    entries (before ++ Json.write layout 0 "" (.object ms) ++ after) =
      ⟨itemsOf "issues" (mapNumbers Json.Number.reread (.object ms)),
       itemsOf "suggestions" (mapNumbers Json.Number.reread (.object ms))⟩ := by
  have htakes := (Json.takes_write (Json.Number.readsBack hblank) _ 0 hreadable).1
  have hread := Json.readText_of_takes (r := .value) htakes
  have hobject := (Json.encodes_write hblank hreadable).isObject
  exact entries_of_read hbefore hafter hobject.inBraces hread

namespace Findings

/-- Findings are read back as they are from the entries that they are written as. -/
theorem ofEntries_toJson (e : Reply.Entries) :
    ofEntries ⟨(ofEntries e).issues.map Issue.toJson,
      (ofEntries e).suggestions.map Suggestion.toJson⟩ = ofEntries e := by
  have hissues : ((e.issues.mapIdx Issue.ofEntry).map Issue.toJson).mapIdx Issue.ofEntry =
      e.issues.mapIdx Issue.ofEntry := by
    apply List.ext_getElem
    · simp
    · intro n h₁ h₂
      rw [List.getElem_mapIdx, List.getElem_map, List.getElem_mapIdx]
      exact Issue.ofEntry_toJson (Issue.conforms_ofEntry n _) rfl
  have hsuggestions : ((e.suggestions.mapIdx Suggestion.ofEntry).map Suggestion.toJson).mapIdx
      Suggestion.ofEntry = e.suggestions.mapIdx Suggestion.ofEntry := by
    apply List.ext_getElem
    · simp
    · intro n h₁ h₂
      rw [List.getElem_mapIdx, List.getElem_map, List.getElem_mapIdx]
      exact Suggestion.ofEntry_toJson (Suggestion.conforms_ofEntry n _) rfl
  simp only [ofEntries, hissues, hsuggestions]

/-- The entries in the text of a report are its issues and its suggestions. -/
theorem entries_toJson {r : Report} {layout : Json.Layout} (hblank : layout.IsBlank)
    (hconfidence : ∀ s ∈ r.suggestions, (Json.Number.real s.confidence).Kept)
    (hdebt : (Json.Number.real r.metrics.technicalDebt).Legible)
    (hcoverage : ∀ x, r.metrics.testCoverage = some x → (Json.Number.real x).Legible)
    {before after : String} (hbefore : '{' ∉ before.toList) (hafter : '}' ∉ after.toList) :
    Reply.entries (before ++ Json.write layout 0 "" r.toJson ++ after) =
      ⟨r.issues.map Issue.toJson, r.suggestions.map Suggestion.toJson⟩ := by
  have hreadable : Readable Json.Number.Legible Json.maxDepth r.toJson :=
    r.readable (fun n h => (Json.Number.kept_word n h).legible)
      (fun s hs => (hconfidence s hs).legible) hdebt hcoverage
  have hissue (i : Issue) : mapNumbers Json.Number.reread i.toJson = i.toJson := by
    have hsame : Readable (fun n => n.reread = .number n) 2 i.toJson :=
      i.readable fun n h => (Json.Number.kept_word n h).same
    exact Json.mapNumbers_eq_self hsame
  have hsuggestion {s : Suggestion} (hs : s ∈ r.suggestions) :
      mapNumbers Json.Number.reread s.toJson = s.toJson := by
    have hsame : Readable (fun n => n.reread = .number n) 2 s.toJson :=
      s.readable (fun n h => (Json.Number.kept_word n h).same) (hconfidence s hs).same
    exact Json.mapNumbers_eq_self hsame
  have hissues : mapNumbers Json.Number.reread (.list (r.issues.map Issue.toJson)) =
      .list (r.issues.map Issue.toJson) := by
    rw [mapNumbers, Json.mapItems_eq, List.map_map]
    exact congrArg Json.list (List.map_congr_left fun i _ => hissue i)
  have hsuggestions : mapNumbers Json.Number.reread (.list (r.suggestions.map Suggestion.toJson)) =
      .list (r.suggestions.map Suggestion.toJson) := by
    rw [mapNumbers, Json.mapItems_eq, List.map_map]
    exact congrArg Json.list (List.map_congr_left fun s hs => hsuggestion hs)
  rw [Report.toJson] at hreadable ⊢
  rw [Reply.entries_write hblank hreadable before after hbefore hafter, mapNumbers, Json.mapMembers,
    Json.mapMembers, hissues, hsuggestions]
  rfl

end Findings

/-- What a report of a reply says is its own normal form. The text of the report, compact or with a
line for each part, and with anything around it that has no brace of the wrong kind, is a reply in
which the same issues and the same suggestions are found. It is only asked of the confidences that
their texts are read back as they are. -/
theorem Reviewer.ofReply_toJson (reviewer : Reviewer) (job : Job) (reply : String)
    (elapsed : UInt64) (r : Report)
    (hreport : reviewer.conclude job ⟨.reply reply, elapsed⟩ = .report r)
    (hconfidence : ∀ s ∈ r.suggestions,
      Json.readText .value (Json.compact (.ofFloat s.confidence)) = .ok (.ofFloat s.confidence))
    (before after : String) (hbefore : '{' ∉ before.toList) (hafter : '}' ∉ after.toList) :
    Findings.ofReply (before ++ Json.compact r.toJson ++ after) = ⟨r.issues, r.suggestions⟩ ∧
      Findings.ofReply (before ++ Json.indented r.toJson ++ after) = ⟨r.issues, r.suggestions⟩ := by
  cases hreport
  have hkept (s : Suggestion) (hs : s ∈ (Findings.ofReply reply).suggestions) :
      (Json.Number.real s.confidence).Kept :=
    Json.Number.kept_real (hconfidence s hs)
  have hdebt : (Json.Number.real (Metrics.ofCode job.code).technicalDebt).Legible :=
    Json.Number.legible_small ((Metrics.small_debt _ _).mono (by decide))
  have hfound {layout : Json.Layout} (hblank : layout.IsBlank) :=
    Findings.entries_toJson (r := ⟨(Findings.ofReply reply).issues,
      (Findings.ofReply reply).suggestions, Metrics.ofCode job.code, elapsed, reviewer.model⟩)
      hblank hkept hdebt nofun hbefore hafter
  constructor
  · rw [Findings.ofReply, Json.compact, hfound Json.Layout.isBlank_compact]
    exact Findings.ofEntries_toJson (Reply.entries reply)
  · rw [Findings.ofReply, Json.indented, hfound Json.Layout.isBlank_indented]
    exact Findings.ofEntries_toJson (Reply.entries reply)

/-- A suggestion of a confidence of one half, in a reply with words around it. -/
theorem Reviewer.ofReply_toJson_half :
    let reviewer : Reviewer := ⟨"gemini-pro", 30000⟩
    let job : Job :=
      { code := "x = 1", language := "python", filename := none, provider := default, focus := [] }
    let entry : Json := .object [("title", .text " Rename x "), ("confidence", .ofFloat 0.5)]
    let reply := "See: " ++ Json.compact (.object [("suggestions", .list [entry])]) ++ "!"
    ∃ r, reviewer.conclude job ⟨.reply reply, 7⟩ = .report r ∧
      r.suggestions = [Suggestion.ofEntry 0 entry] ∧
      (∀ s ∈ r.suggestions, Json.readText .value (Json.compact (.ofFloat s.confidence)) =
        .ok (.ofFloat s.confidence)) ∧
      Findings.ofReply ("Once more: " ++ Json.compact r.toJson ++ ".") =
        ⟨r.issues, r.suggestions⟩ := by
  intro reviewer job entry reply
  have hkept : (Json.Number.real 0.5).Kept := Json.Number.kept_real Json.survives_half
  have hreadable : Readable Json.Number.Legible Json.maxDepth
      (.object [("suggestions", .list [entry])]) := by
    simp only [entry, Json.maxDepth, Json.ofFloat, Readable, Json.ReadableMembers,
      Json.ReadableItems]
    simp [hkept.legible]
  have hentries : Reply.entries reply = ⟨[], [entry]⟩ := by
    refine (Reply.entries_write Json.Layout.isBlank_compact hreadable "See: " "!" (by decide)
      (by decide)).trans ?_
    simp only [entry, mapNumbers, Json.mapMembers, Json.mapItems, Json.ofFloat, hkept.same]
    rfl
  have hconfidence : (Suggestion.ofEntry 0 entry).confidence = 0.5 := by
    have hfield : (entry.field? "confidence").bind Json.looseNumber? = some 0.5 := rfl
    change Suggestion.confidenceOf entry = 0.5
    rw [Suggestion.confidenceOf, hfield]
    exact if_pos (by decide +kernel)
  have hfound : (Findings.ofReply reply).suggestions = [Suggestion.ofEntry 0 entry] := by
    rw [Findings.ofReply, hentries]
    rfl
  have hback : ∀ s ∈ (Findings.ofReply reply).suggestions,
      Json.readText .value (Json.compact (.ofFloat s.confidence)) =
        .ok (.ofFloat s.confidence) := by
    rw [hfound, List.forall_mem_singleton, hconfidence]
    exact Json.survives_half
  have halive : (⟨.reply reply, 7⟩ : Reaction).value ≠ .crash := by
    intro h
    cases h
  obtain ⟨r, hreport, -, -, hsuggestions, -⟩ := reviewer.conclude_report job halive
  rw [← hsuggestions] at hback hfound
  exact ⟨r, hreport, hfound, hback, (reviewer.ofReply_toJson job reply 7 r hreport hback
    "Once more: " "." (by decide) (by decide)).1⟩

end CodeReview
