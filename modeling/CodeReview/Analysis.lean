import CodeReview.Prompt
import CodeReview.Report.Findings
import CodeReview.Report.Measure
import CodeReview.Request

/-!
The course of one review. A request that cannot be answered ends it at once. Otherwise the model is
asked one time, and whatever it does, short of a crash, ends in a report: with its findings, or with
the metrics alone.
-/

namespace CodeReview

/-- A computation that may ask questions on its way, and goes on with the answers. -/
inductive Course (κ α ρ : Type) where
  | done (r : ρ)
  | ask (question : κ) (resume : α → Course κ α ρ)

namespace Course

/-- The course with one question. -/
def once (question : κ) (resume : α → ρ) : Course κ α ρ :=
  ask question fun a => done (resume a)

def map (f : ρ → σ) : Course κ α ρ → Course κ α σ
  | done r => done (f r)
  | ask q resume => ask q fun a => (resume a).map f

/-- One course after the other. -/
def bind : Course κ α ρ → (ρ → Course κ α σ) → Course κ α σ
  | done r, next => next r
  | ask q resume, next => ask q fun a => (resume a).bind next

/-- The course in which someone else finds the answers, with questions of their own. -/
def via (who : κ → Course κ' α' α) : Course κ α ρ → Course κ' α' ρ
  | done r => done r
  | ask q resume => (who q).bind fun a => (resume a).via who

/-- The questions that are asked of a function that answers, in order. -/
def questions (answer : κ → α) : Course κ α ρ → List κ
  | done _ => []
  | ask q resume => q :: (resume (answer q)).questions answer

/-- The result, with a function that answers. -/
def run (answer : κ → α) : Course κ α ρ → ρ
  | done r => r
  | ask q resume => (resume (answer q)).run answer

end Course

/-- What a model does when it is given a prompt. -/
inductive Answer where
  | reply (text : String)
  /-- A failure and those that it caused in turn, the last one first. -/
  | failure (chain : List String)
  /-- The client of the model breaks down and takes the analysis with it. -/
  | crash
  /-- Nothing within the time that is given. -/
  | silence
deriving DecidableEq, Repr

/-- Something, and the milliseconds from the start of an analysis until it was there. -/
structure Timed (α : Type) where
  value : α
  elapsed : UInt64

def Timed.map (f : α → β) (t : Timed α) : Timed β :=
  ⟨f t.value, t.elapsed⟩

/-- What a model does, and when. -/
abbrev Reaction := Timed Answer

/-- The stages of an analysis, as they are named in a log. -/
inductive Stage where
  | validating
  | prompting
  | invoking
  | parsing
  | normalizing
  | success
  | fallback
deriving DecidableEq, Repr

instance : Vocabulary Stage where
  all := [.validating, .prompting, .invoking, .parsing, .normalizing, .success, .fallback]
  name
    | .validating => "validating"
    | .prompting => "prompting"
    | .invoking => "invoking"
    | .parsing => "parsing"
    | .normalizing => "normalizing"
    | .success => "success"
    | .fallback => "fallback"

/-- How an analysis ends. -/
inductive Outcome where
  | report (r : Report)
  | refused (e : AnalysisError)
  | crashed

/-- A model under its name, and the milliseconds that it has for an answer. -/
structure Reviewer where
  model : String
  patience : Nat
deriving DecidableEq, Repr

namespace Reviewer

def defaultPatience : Nat := 30000

/-- What is heard of a reaction. Waiting ends when the time is over, so one that comes later is the
same as none. -/
def heard (reviewer : Reviewer) (reaction : Reaction) : Reaction :=
  if reaction.value ≠ .silence ∧ reaction.elapsed.toNat ≤ reviewer.patience then reaction
  else ⟨.silence, reviewer.patience.toUInt64⟩

/-- The findings in an answer, or why there are none. -/
def findings (reviewer : Reviewer) : Answer → Except AnalysisError Findings
  | .reply text => .ok (.ofReply text)
  | .failure chain => .error (.ofFailure chain)
  | .silence => .error (.timeout reviewer.patience)
  | .crash => .error (.internal "the model client broke down")

/-- The end of the analysis of a job, once the model has done something. -/
def conclude (reviewer : Reviewer) (job : Job) (reaction : Reaction) : Outcome :=
  let metrics := Metrics.ofCode job.code
  match reaction.value with
  | .crash => .crashed
  | answer =>
    match reviewer.findings answer with
    | .ok found =>
      .report
        { issues := found.issues
          suggestions := found.suggestions
          metrics
          processingTime := reaction.elapsed
          modelUsed := reviewer.model }
    | .error _ => .report (.fallback metrics reaction.elapsed)

/-- The prompt for a job. -/
def prompt (job : Job) : String :=
  Prompt.build job.language job.code job.focus

def analyze (reviewer : Reviewer) (request : Request) : Course String Reaction Outcome :=
  match request.validate with
  | .error e => .done (.refused e)
  | .ok job => .once (prompt job) (reviewer.conclude job)

end Reviewer

end CodeReview
