import CodeReview.Command.Review
import CodeReview.Proofs.Command.ReportText
import CodeReview.Proofs.Invocation
import CodeReview.Proofs.Messages
import CodeReview.Proofs.Report.Wire

/-!
What the program prints as JSON, read again. The floats of a report are small, so that there is
always a number where one was written, if perhaps one next to it. The metrics of a report are read
as the same value as the metrics alone.
-/

namespace CodeReview

open Json (Readable)
open Json.Number (Legible reread)

/-! ### Floats -/

theorem Findings.small_confidence (e : Reply.Entries) :
    ∀ s ∈ (ofEntries e).suggestions, Decimal.Small 1 s.confidence := by
  intro s hs
  obtain ⟨hfinite, hzero, hone⟩ := ((conforms_ofEntries e).eachSuggestion s hs).confidence
  exact Decimal.small_of_le_one hfinite hzero hone

/-- The metrics of code are written with numbers that can be read. -/
theorem Metrics.readable_ofCode (code : String) :
    Readable Legible Json.maxDepth (ofCode code).toJson := by
  refine (ofCode code).readable (fun n hn => ?_) ?_ nofun
  · exact Json.Number.legible_integer (by omega) (by omega)
  · exact Json.Number.legible_small ((small_debt _ _).mono (by decide))

namespace Report

variable {reviewer : Reviewer} {answer : Answer} {r : Report} {code : String}

/-- The floats of a report can be read. -/
theorem Follows.legible_floats (h : r.Follows reviewer answer)
    (hmetrics : r.metrics = Metrics.ofCode code) : ∀ x ∈ r.floats, Legible (.real x) := by
  have hconfidence : ∀ s ∈ r.suggestions, Decimal.Small 1 s.confidence := by
    cases answer with
    | reply text =>
        rw [h.2.1]
        exact Findings.small_confidence (Reply.entries text)
    | failure chain => simp [h.2.1]
    | silence => simp [h.2.1]
    | crash => simp [h.2.1]
  have hsmall {k : Nat} {x : Float} (hk : k ≤ 90) (hx : Decimal.Small k x) : Legible (.real x) :=
    Json.Number.legible_small (hx.mono hk)
  rw [floats, hmetrics, List.forall_mem_append, List.forall_mem_map, List.forall_mem_cons]
  exact ⟨fun s hs => hsmall (by decide) (hconfidence s hs),
    hsmall (by decide) (Metrics.small_debt _ _), List.forall_mem_nil _⟩

/-- A report is written with numbers that can be read. -/
theorem Follows.readable (h : r.Follows reviewer answer)
    (hmetrics : r.metrics = Metrics.ofCode code) :
    Readable Legible Json.maxDepth r.toJson := by
  have hword (n : Nat) (hn : n < 2 ^ 64) : Legible (.integer n) :=
    Json.Number.legible_integer (by omega) (by omega)
  have hlegible := h.legible_floats hmetrics
  simp only [floats, List.forall_mem_append, List.forall_mem_map, List.forall_mem_cons,
    Option.mem_toList] at hlegible
  obtain ⟨hconfidence, hdebt, hcoverage⟩ := hlegible
  exact r.readable hword hconfidence hdebt hcoverage

end Report

namespace Command

/-- What is read of a text is read of it with the end of a line behind it. -/
theorem readText_line {α : Type} {r : Json.Reader α} {t : String} {a : α}
    (h : Json.Takes (r Json.maxDepth) (Text.bytes t) a) : Json.readText r (t ++ "\n") = .ok a := by
  have hline : Text.bytes "\n" = [10] := by decide +kernel
  have hspace : Json.isSpace 10 = true := by decide
  refine Json.read_eq_ok_iff.mpr ⟨[10], ?_, List.forall_mem_singleton.mpr hspace⟩
  rw [Text.bytes_append, hline]
  exact h [] [10] Json.spaces_nil (Json.ends_of_isSpace hspace)

/-- The text is this value as JSON on lines of its own. It is read as one value, which is this one
with each number as its text is read. -/
structure IsDocument (v : Json) (text : String) : Prop where
  written : text = Json.indented v ++ "\n"
  back : Json.readText .value text = .ok (Json.mapNumbers reread v)

theorem isDocument_jsonLines {v : Json} (h : Readable Legible Json.maxDepth v) :
    IsDocument v (jsonLines v) where
  written := rfl
  back := readText_line
    (Json.takes_write (Json.Number.readsBack Json.Layout.isBlank_indented) v 0 h).1

/-- A response that is printed is read as this response. -/
theorem readText_response {r : Invocation.Response} (h : r.Told) :
    Json.readText Invocation.Response.shape.reader (jsonLines r.toJson) = .ok r := by
  have hsorted : r.headers.Pairwise fun h h' => h.1 < h'.1 := by
    rw [h.headers]
    decide +kernel
  have hv : Readable Json.Number.Kept Json.maxDepth r.toJson :=
    r.readable Json.Number.kept_word hsorted
  obtain ⟨_, hderives⟩ := Json.encodes_indented hv
  exact readText_line (r.reads (fun _ => id) hsorted _ _ (Json.derives_of_readable hderives hv))

/-! ### Texts for people and for programs -/

/-- The text shows the report on a file: as one value, or in words that tell each issue, each
suggestion and the metrics. -/
structure ShowsReport (w : World) (json : Bool) (file : String) (r : Report) (text : String) :
    Prop where
  value : json = true → IsDocument r.toJson text
  words : json = false → text = ReportText.render (wantsColours w) file r ∧
    ReportText.Tells text (ReportText.reportParts file r)

/-- The text shows the metrics: as one value, or in words. -/
structure ShowsMetrics (w : World) (json : Bool) (m : Metrics) (text : String) : Prop where
  value : json = true → IsDocument m.toJson text
  words : json = false → text = ReportText.metricsText (wantsColours w) m ∧
    ReportText.Tells text (ReportText.metricsLines m)

/-- One text is a report as a value, the other one the metrics as a value, and of the first one the
second one is read as a member. -/
def HasMetrics (whole part : String) : Prop :=
  ∃ (r : Report) (report metrics : Json),
    whole = Json.indented r.toJson ++ "\n" ∧ part = Json.indented r.metrics.toJson ++ "\n" ∧
    Json.readText .value whole = .ok report ∧ Json.readText .value part = .ok metrics ∧
    report.field? "metrics" = some metrics

/-- The metrics of a printed report are read as what the metrics alone are read as. -/
theorem hasMetrics_of_printed {reviewer : Reviewer} {answer : Answer} {r : Report}
    {code : String} (h : r.Follows reviewer answer) (hmetrics : r.metrics = Metrics.ofCode code) :
    HasMetrics (jsonLines r.toJson) (jsonLines (Metrics.ofCode code).toJson) := by
  have hreport := (isDocument_jsonLines (h.readable hmetrics)).back
  have hpart := (isDocument_jsonLines (Metrics.readable_ofCode code)).back
  rw [← hmetrics] at hpart ⊢
  exact ⟨r, _, _, rfl, rfl, hreport, hpart, rfl⟩

end Command

end CodeReview
