import CodeReview.Proofs.Report.Lines
import CodeReview.Proofs.Review

/-!
Code that measures as empty. A request is refused when each character of its code is blank, and a
line counts when it has a character that is neither blank nor a byte order mark. So the two agree
about all code but one kind: byte order marks with nothing but blanks around them are sent to the
model, and the report on them has no line of code.
-/

namespace CodeReview

namespace Metrics

/-- There are byte order marks in the code, and everything else is blank. -/
structure OnlyMarks (code : String) : Prop where
  mark : '\uFEFF' ∈ code.toList
  blank : ∀ c ∈ code.toList, Text.isBlank c = true ∨ c = '\uFEFF'

theorem shows_eq_false_iff {c : Char} :
    shows c = false ↔ Text.isBlank c = true ∨ c = '\uFEFF' := by
  simp [shows, Classical.or_iff_not_imp_left]

/-- Code has no line that counts when it is blank, but for byte order marks. -/
theorem countLines_eq_zero_iff_blank {code : String} :
    countLines code = 0 ↔ Text.allBlank code = true ∨ OnlyMarks code := by
  simp only [countLines_eq_zero_iff, shows_eq_false_iff, Text.allBlank_iff]
  constructor
  · intro h
    by_cases hmark : '\uFEFF' ∈ code.toList
    · exact .inr ⟨hmark, h⟩
    · refine .inl fun c hc => (h c hc).resolve_right ?_
      rintro rfl
      exact hmark hc
  · rintro (h | h) c hc
    · exact .inl (h c hc)
    · exact h.blank c hc

/-- A byte order mark is not blank. -/
theorem OnlyMarks.allBlank_eq {code : String} (h : OnlyMarks code) :
    Text.allBlank code = false := by
  apply Bool.eq_false_iff.mpr
  intro hblank
  have hmark := Text.allBlank_iff.mp hblank _ h.mark
  exact absurd hmark (by decide)

/-- Code shows something when it has a line that counts, or byte order marks only. -/
theorem allBlank_eq_false_iff {code : String} :
    Text.allBlank code = false ↔ 1 ≤ countLines code ∨ OnlyMarks code := by
  have hzero : countLines code = 0 ↔ _ := countLines_eq_zero_iff_blank
  constructor
  · intro hshows
    rcases Nat.eq_zero_or_pos (countLines code) with h | h
    · exact .inr ((hzero.mp h).resolve_left (by simp [hshows]))
    · exact .inl h
  · rintro (h | h)
    · exact Bool.eq_false_iff.mpr fun hblank => Nat.ne_of_gt h (hzero.mpr (.inl hblank))
    · exact h.allBlank_eq

theorem OnlyMarks.countLines_eq {code : String} (h : OnlyMarks code) : countLines code = 0 :=
  countLines_eq_zero_iff_blank.mpr (.inr h)

/-- The lines of code that fits into a memory of 64 bits are reported as they are. -/
theorem linesOfCode_ofCode {code : String} (h : code.length < 2 ^ 64) :
    (ofCode code).linesOfCode.toNat = countLines code := by
  have hle := countLines_le_length code
  change (countLines code).toUInt64.toNat = countLines code
  rw [Nat.toUInt64, UInt64.toNat_ofNat', Nat.mod_eq_of_lt (by omega)]

end Metrics

namespace Request

variable {request : Request} {code language : String}

/-- A request with a language is refused for its code only. -/
theorem incomplete_iff (hcode : request.code = some code)
    (hlanguage : request.language = some language)
    (hname : ∃ c ∈ language.toList, Text.isBlank c = false) :
    request.Incomplete ↔ Text.allBlank code = true := by
  rw [Incomplete, or_iff_left (not_lacking hlanguage hname), hcode, lacking_some_iff]

theorem validate_ok_iff : (∃ job, request.validate = .ok job) ↔ ¬ request.Incomplete := by
  constructor
  · rintro ⟨job, hjob⟩ hincomplete
    rw [validate_of_incomplete hincomplete] at hjob
    cases hjob
  · intro hcomplete
    obtain ⟨code, language, -, -, hvalidate⟩ := validate_of_complete hcomplete
    exact ⟨_, hvalidate⟩

end Request

/-- Whenever there is a report on a job, it has the metrics of the code of the job. -/
theorem Reviewer.metrics_of_conclude {reviewer : Reviewer} {job : Job} {reaction : Reaction}
    {report : Report} (h : reviewer.conclude job reaction = .report report) :
    report.metrics = Metrics.ofCode job.code := by
  have alive : reaction.value ≠ .crash := by
    intro hcrash
    rw [conclude, hcrash] at h
    cases h
  obtain ⟨r, hr, hmetrics, -⟩ := reviewer.conclude_report job alive
  rw [hr] at h
  cases h
  exact hmetrics

open Metrics

/-- A request with a language is accepted when its code has a line that counts, or is made of byte
order marks and blanks. So validation and metrics agree about all code but the latter: for that
code, and for no other, the model is asked about code without a line, and the report has none. -/
theorem Request.accepts_iff_counts {request : Request} {code language : String}
    (hcode : request.code = some code) (hlanguage : request.language = some language)
    (hname : ∃ c ∈ language.toList, Text.isBlank c = false) :
    ((∃ job, request.validate = .ok job) ↔ 1 ≤ countLines code ∨ OnlyMarks code) ∧
    (((∃ job, request.validate = .ok job) ↔ 1 ≤ countLines code) ↔ ¬ OnlyMarks code) ∧
    ∀ (reviewer : Reviewer) (model : String → Reaction),
      ((reviewer.analyze request).questions model ≠ [] ∧ countLines code = 0 ↔ OnlyMarks code) ∧
      ∀ report, (reviewer.analyze request).run model = .report report → code.length < 2 ^ 64 →
        (report.metrics.linesOfCode = 0 ↔ OnlyMarks code) := by
  have hincomplete := incomplete_iff hcode hlanguage hname
  have haccepts : (∃ job, request.validate = .ok job) ↔ 1 ≤ countLines code ∨ OnlyMarks code := by
    rw [validate_ok_iff, hincomplete, Bool.not_eq_true, allBlank_eq_false_iff]
  refine ⟨haccepts, ⟨fun hagree hmarks => ?_, fun hmarks => ?_⟩, fun reviewer model => ?_⟩
  · have hcounts := hagree.mp (haccepts.mpr (.inr hmarks))
    rw [hmarks.countLines_eq] at hcounts
    exact absurd hcounts (by decide)
  · rw [haccepts, or_iff_left hmarks]
  · by_cases h : request.Incomplete
    -- Nothing in the code can be seen: there is no question and no report.
    · have hblank := hincomplete.mp h
      have hmarks : ¬ OnlyMarks code := fun hmarks => by simp [hmarks.allBlank_eq] at hblank
      rw [reviewer.analyze_of_incomplete h]
      refine ⟨iff_of_false (fun hasked => hasked.1 rfl) hmarks, fun report hreport => ?_⟩
      cases hreport
    · have hshows : ¬ Text.allBlank code = true := fun hblank => h (hincomplete.mpr hblank)
      have hzero : countLines code = 0 ↔ OnlyMarks code := by
        rw [countLines_eq_zero_iff_blank, or_iff_right hshows]
      obtain ⟨code', language', hcode', -, hcourse⟩ := reviewer.analyze_of_complete h
      obtain rfl : code' = code := Option.some.inj (hcode'.symm.trans hcode)
      rw [hcourse, Course.questions_once, Course.run_once, and_iff_right (List.cons_ne_nil _ _)]
      refine ⟨hzero, fun report hreport hfits => ?_⟩
      rw [← hzero, Reviewer.metrics_of_conclude hreport, ← UInt64.toNat_inj, UInt64.toNat_zero]
      exact iff_of_eq (congrArg (· = 0) (linesOfCode_ofCode hfits))

/-- One byte order mark as code: the request is accepted, the model is asked, and the report on its
reply has no line. -/
theorem Request.accepts_iff_counts_mark :
    let request : Request := { code := some "\uFEFF", language := some "go" }
    let reviewer : Reviewer := ⟨"gemini-pro", 30000⟩
    let model : String → Reaction := fun _ => ⟨.reply "", 7⟩
    (∃ c ∈ "go".toList, Text.isBlank c = false) ∧ (∃ job, request.validate = .ok job) ∧
      countLines "\uFEFF" = 0 ∧ (reviewer.analyze request).questions model ≠ [] ∧
      ∃ report, (reviewer.analyze request).run model = .report report ∧
        report.metrics.linesOfCode = 0 := by
  intro request reviewer model
  have hname : ∃ c ∈ "go".toList, Text.isBlank c = false := ⟨'g', by decide, by decide⟩
  have hmarks : OnlyMarks "\uFEFF" := ⟨by decide, fun c hc => .inr (List.mem_singleton.mp hc)⟩
  have hcode : request.code = some "\uFEFF" := rfl
  have hlanguage : request.language = some "go" := rfl
  obtain ⟨haccepts, -, hends⟩ := Request.accepts_iff_counts hcode hlanguage hname
  obtain ⟨hasked, hlines⟩ := hends reviewer model
  obtain ⟨hquestions, hzero⟩ := hasked.mpr hmarks
  refine ⟨hname, haccepts.mpr (.inr hmarks), hzero, hquestions, _, rfl, ?_⟩
  exact (hlines _ rfl (by decide)).mpr hmarks

end CodeReview
