import CodeReview.Analysis
import CodeReview.Proofs.Text.Trim

/-!
How every review ends. A request that lacks its code or its language is refused before the model is
asked. Every other request is answered with a report: the model is asked once, and what it does,
short of a crash, decides about the findings only, never about the metrics.
-/

namespace CodeReview

/-! ### Courses

What is asked and what comes out of it, for each way to make a course of others. -/

namespace Course

variable {κ κ' α α' ρ σ τ : Type} (c : Course κ α ρ) (answer : κ → α)

@[simp] theorem map_map (f : ρ → σ) (g : σ → τ) : (c.map f).map g = c.map fun r => g (f r) := by
  induction c with
  | done r => rfl
  | ask q resume ih => exact congrArg (ask q) (funext ih)

@[simp] theorem run_map (f : ρ → σ) : (c.map f).run answer = f (c.run answer) := by
  induction c with
  | done r => rfl
  | ask q resume ih => exact ih (answer q)

@[simp] theorem questions_map (f : ρ → σ) : (c.map f).questions answer = c.questions answer := by
  induction c with
  | done r => rfl
  | ask q resume ih => exact congrArg (List.cons q) (ih (answer q))

@[simp] theorem run_bind (next : ρ → Course κ α σ) :
    (c.bind next).run answer = (next (c.run answer)).run answer := by
  induction c with
  | done r => rfl
  | ask q resume ih => exact ih (answer q)

/-- Nothing is asked but by the first course, and then by the one that goes on from its result. -/
@[simp] theorem questions_bind (next : ρ → Course κ α σ) :
    (c.bind next).questions answer =
      c.questions answer ++ (next (c.run answer)).questions answer := by
  induction c with
  | done r => rfl
  | ask q resume ih => exact congrArg (List.cons q) (ih (answer q))

/-- Whoever finds the answers is what the course is run with. -/
@[simp] theorem run_via (who : κ → Course κ' α' α) (answer : κ' → α') :
    (c.via who).run answer = c.run fun q => (who q).run answer := by
  induction c with
  | done r => rfl
  | ask q resume ih => exact (run_bind (who q) answer _).trans (ih _)

/-- For each question of the course, in order, all questions are asked that lead to its answer. -/
@[simp] theorem questions_via (who : κ → Course κ' α' α) (answer : κ' → α') :
    (c.via who).questions answer =
      (c.questions fun q => (who q).run answer).flatMap fun q => (who q).questions answer := by
  induction c with
  | done r => rfl
  | ask q resume ih =>
      exact (questions_bind (who q) answer _).trans (congrArg (_ ++ ·) (ih _))

variable (q : κ) (resume : α → ρ)

@[simp] theorem map_once (f : ρ → σ) : (once q resume).map f = once q fun a => f (resume a) := rfl

@[simp] theorem run_once : (once q resume).run answer = resume (answer q) := rfl

@[simp] theorem questions_once : (once q resume).questions answer = [q] := rfl

end Course

/-! ### Requests -/

namespace Request

/-- The text is absent, or nothing in it can be seen. -/
def Lacking (text : Option String) : Prop :=
  ∀ s, text = some s → ∀ c ∈ s.toList, Text.isBlank c = true

/-- The request cannot be answered: its code or its language is lacking. -/
def Incomplete (r : Request) : Prop :=
  Lacking r.code ∨ Lacking r.language

theorem lacking_some_iff {s : String} : Lacking (some s) ↔ Text.allBlank s = true := by
  rw [Text.allBlank_iff]
  constructor
  · intro h
    exact h s rfl
  · rintro h _ ⟨⟩
    exact h

theorem not_lacking_iff {text : Option String} :
    ¬ Lacking text ↔ ∃ s, text = some s ∧ Text.allBlank s = false := by
  cases text with
  | none => simp [Lacking]
  | some s => simp [lacking_some_iff]

theorem not_lacking {text : Option String} {s : String} (h : text = some s)
    (hshows : ∃ c ∈ s.toList, Text.isBlank c = false) : ¬ Lacking text := by
  intro hlacking
  obtain ⟨c, hc, hblank⟩ := hshows
  rw [hlacking s h c hc] at hblank
  cases hblank

/-- The job of a request that has both texts: the code as it is, the language without the blanks
around it. -/
def job (r : Request) (code language : String) : Job where
  code := code
  language := Text.trim language
  filename := r.filename
  provider := r.provider.getD default
  focus := r.focus.getD ["syntax", "best-practices"]

theorem validate_of_incomplete {r : Request} (h : r.Incomplete) :
    r.validate = .error (.invalidRequest missingFields) := by
  have code (hcode : Lacking r.code) : r.code.filter (fun c => !Text.allBlank c) = none := by
    cases hr : r.code with
    | none => rfl
    | some s =>
        rw [hr, lacking_some_iff] at hcode
        simp [hcode]
  have language (hlanguage : Lacking r.language) : r.language.bind Text.nonBlank? = none := by
    cases hr : r.language with
    | none => rfl
    | some s =>
        rw [hr, lacking_some_iff] at hlanguage
        exact Text.nonBlank?_eq_none_iff.mpr hlanguage
  unfold validate
  rcases h with h | h
  · rw [code h]
  · rw [language h]
    cases r.code.filter fun c => !Text.allBlank c <;> rfl

theorem validate_of_complete {r : Request} (h : ¬ r.Incomplete) :
    ∃ code language, r.code = some code ∧ r.language = some language ∧
      r.validate = .ok (r.job code language) := by
  rw [Incomplete, not_or, not_lacking_iff, not_lacking_iff] at h
  obtain ⟨⟨code, hcode, hshows⟩, language, hlanguage, hnamed⟩ := h
  refine ⟨code, language, hcode, hlanguage, ?_⟩
  have hname : Text.nonBlank? language = some (Text.trim language) :=
    Text.nonBlank?_eq_some_iff.mpr ⟨hnamed, rfl⟩
  have hkept : (some code).filter (fun c => !Text.allBlank c) = some code := by
    simp [hshows]
  rw [validate, hcode, hlanguage, hkept, Option.bind_some, hname]
  rfl

end Request

/-! ### Answers of the model -/

namespace Report

/-- The findings of the report and the name of its model are what the answer of a model leads to:
its reply is read, and without a reply there is one issue, which says that there was none. -/
def Follows (reviewer : Reviewer) : Answer → Report → Prop
  | .reply text, r =>
    r.issues = (Findings.ofReply text).issues ∧
      r.suggestions = (Findings.ofReply text).suggestions ∧ r.modelUsed = reviewer.model
  | _, r =>
    r.issues =
      [{ id := "fallback-1"
         kind := .codeSmell
         severity := .info
         message := "AI analysis temporarily unavailable - showing basic metrics only"
         description := none
         location := ⟨1, 1, 1, 1⟩
         suggestedFix := none
         ruleId := none }] ∧
      r.suggestions = [] ∧ r.modelUsed = "fallback-analyzer"

/-- A model that is not named like the fallback is named in exactly the reports that it took part
in. -/
theorem Follows.isFallback_iff {reviewer : Reviewer} {answer : Answer} {r : Report}
    (h : r.Follows reviewer answer) (hname : reviewer.model ≠ fallbackModel) :
    r.isFallback = true ↔ ∀ text, answer ≠ .reply text := by
  rw [isFallback, decide_eq_true_iff]
  cases answer with
  | reply text =>
      rw [h.2.2]
      simp [hname]
  | failure chain => simp [h.2.2, fallbackModel]
  | silence => simp [h.2.2, fallbackModel]
  | crash => simp [h.2.2, fallbackModel]

end Report

namespace Reviewer

/-- Whatever the model does, short of a crash, a job ends in a report with the metrics of its
code. -/
theorem conclude_report (reviewer : Reviewer) (job : Job) {reaction : Reaction}
    (alive : reaction.value ≠ .crash) :
    ∃ r, reviewer.conclude job reaction = .report r ∧ r.metrics = Metrics.ofCode job.code ∧
      r.Follows reviewer reaction.value := by
  obtain ⟨answer, elapsed⟩ := reaction
  cases answer with
  | reply text => exact ⟨_, rfl, rfl, rfl, rfl, rfl⟩
  | failure chain => exact ⟨_, rfl, rfl, rfl, rfl, rfl⟩
  | silence => exact ⟨_, rfl, rfl, rfl, rfl, rfl⟩
  | crash => exact absurd rfl alive

theorem analyze_of_incomplete (reviewer : Reviewer) {request : Request} (h : request.Incomplete) :
    reviewer.analyze request = .done (.refused (.invalidRequest Request.missingFields)) := by
  rw [analyze, Request.validate_of_incomplete h]

theorem analyze_of_complete (reviewer : Reviewer) {request : Request} (h : ¬ request.Incomplete) :
    ∃ code language, request.code = some code ∧ request.language = some language ∧
      reviewer.analyze request =
        .once (prompt (request.job code language))
          (reviewer.conclude (request.job code language)) := by
  obtain ⟨code, language, hcode, hlanguage, hvalidate⟩ := Request.validate_of_complete h
  refine ⟨code, language, hcode, hlanguage, ?_⟩
  rw [analyze, hvalidate]

/-- A review is refused exactly for an incomplete request, always with the same words and without a
question to the model. Every other review asks the model once, with the prompt for the code as it
is, and ends in a report with the metrics of that code. The rest of the report follows from the
answer; when the model is not named like the fallback, the report says whether there was a reply. -/
theorem analyze_ends (reviewer : Reviewer) (request : Request) (model : String → Reaction)
    (alive : ∀ prompt, (model prompt).value ≠ .crash) :
    let course := reviewer.analyze request
    ((∃ e, course.run model = .refused e) ↔ request.Incomplete) ∧
    (∀ e, course.run model = .refused e →
      e = .invalidRequest "Code and language are required" ∧ course.questions model = []) ∧
    (¬ request.Incomplete →
      ∃ code language prompt report,
        request.code = some code ∧ request.language = some language ∧
        prompt = Prompt.build (Text.trim language) code
          (request.focus.getD ["syntax", "best-practices"]) ∧
        course.questions model = [prompt] ∧ course.run model = .report report ∧
        report.metrics = Metrics.ofCode code ∧ report.Follows reviewer (model prompt).value ∧
        (reviewer.model ≠ "fallback-analyzer" →
          (report.isFallback = true ↔ ∀ text, (model prompt).value ≠ .reply text))) := by
  dsimp only
  by_cases h : request.Incomplete
  · rw [analyze_of_incomplete reviewer h]
    refine ⟨⟨fun _ => h, fun _ => ⟨_, rfl⟩⟩, ?_, fun hcomplete => absurd h hcomplete⟩
    rintro e ⟨⟩
    exact ⟨rfl, rfl⟩
  · obtain ⟨code, language, hcode, hlanguage, hcourse⟩ := analyze_of_complete reviewer h
    rw [hcourse]
    obtain ⟨report, hreport, hmetrics, hfollows⟩ :=
      reviewer.conclude_report (request.job code language)
        (alive (prompt (request.job code language)))
    simp only [Course.run_once, Course.questions_once]
    have hnever : ∀ e, reviewer.conclude (request.job code language)
        (model (prompt (request.job code language))) ≠ .refused e := by
      rw [hreport]
      exact fun _ => nofun
    refine ⟨⟨fun ⟨e, he⟩ => absurd he (hnever e), fun hi => absurd hi h⟩,
      fun e he => absurd he (hnever e), fun _ => ?_⟩
    exact ⟨code, language, _, report, hcode, hlanguage, rfl, rfl, hreport, hmetrics, hfollows,
      hfollows.isFallback_iff⟩

/-- A line of code in a language with blanks around its name, and a model that stays silent. -/
theorem analyze_ends_silent :
    let reviewer : Reviewer := ⟨"gemini-pro", 30000⟩
    let request : Request := { code := some "x = 1\n", language := some " python\t" }
    let model : String → Reaction := fun _ => ⟨.silence, 30000⟩
    let course := reviewer.analyze request
    (∀ prompt, (model prompt).value ≠ .crash) ∧ ¬ request.Incomplete ∧
      course.questions model = [Prompt.build "python" "x = 1\n" ["syntax", "best-practices"]] ∧
      ∃ report, course.run model = .report report ∧ report.isFallback = true := by
  intro reviewer request model course
  have alive : ∀ prompt, (model prompt).value ≠ .crash := fun _ => nofun
  have hcomplete : ¬ request.Incomplete := by
    rw [Request.Incomplete, not_or, Request.not_lacking_iff, Request.not_lacking_iff]
    exact ⟨⟨_, rfl, by decide⟩, _, rfl, by decide⟩
  obtain ⟨code, language, prompt, report, hcode, hlanguage, hprompt, hasked, hreport, -, -,
    hname⟩ := (reviewer.analyze_ends request model alive).2.2 hcomplete
  cases hcode
  cases hlanguage
  have htrim : Text.trim " python\t" = "python" := by decide
  refine ⟨alive, hcomplete, ?_, report, hreport, (hname (by decide)).mpr fun _ => nofun⟩
  rw [hasked, hprompt, htrim]
  rfl

end Reviewer

end CodeReview
