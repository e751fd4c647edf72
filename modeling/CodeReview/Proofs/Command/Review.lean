import CodeReview.Proofs.Command.EnvironmentFile
import CodeReview.Proofs.Command.Output
import CodeReview.Proofs.Command.World
import CodeReview.Proofs.Provider.Completion

/-!
How every run of the program ends. What a task needs decides whether it is done: without it the run
fails at once, and prints and asks nothing. With it the run prints one result, whatever comes back
from the service, and asks for at most one thing. Before that, one kind of environment file ends
every run.
-/

namespace CodeReview

theorem mapError_eq_ok_iff {ε ε' α : Type} {x : Except ε α} {f : ε → ε'} {a : α} :
    x.mapError f = .ok a ↔ x = .ok a := by
  cases x <;> simp [Except.mapError]

/-- What goes with a success does not hold at an error. -/
theorem not_of_error {ε α : Type} {x : Except ε α} {e : ε} {P : Prop} (h : x = .error e)
    (hok : P → ∃ a, x = .ok a) : ¬ P := by
  intro hP
  obtain ⟨a, ha⟩ := hok hP
  rw [h] at ha
  cases ha

/-! ### Questions -/

/-- Nothing is asked, or one question. -/
def Course.AsksOnce {κ α ρ : Type} (c : Course κ α ρ) : Prop :=
  ∀ answer, (c.questions answer).length ≤ 1

namespace Course

variable {κ κ' α α' ρ σ : Type}

theorem asksOnce_done (r : ρ) : (done r : Course κ α ρ).AsksOnce := fun _ => Nat.zero_le 1

theorem asksOnce_once (q : κ) (resume : α → ρ) : (once q resume).AsksOnce := fun _ => Nat.le_refl 1

theorem AsksOnce.map {c : Course κ α ρ} (h : c.AsksOnce) (f : ρ → σ) : (c.map f).AsksOnce := by
  intro answer
  rw [questions_map]
  exact h answer

/-- One question is answered with the help of one question. -/
theorem AsksOnce.via {c : Course κ α ρ} (h : c.AsksOnce) {who : κ → Course κ' α' α}
    (hwho : ∀ q, (who q).AsksOnce) : (c.via who).AsksOnce := by
  intro answer
  have hasked := h fun q => (who q).run answer
  rw [questions_via]
  cases hquestions : c.questions fun q => (who q).run answer with
  | nil => exact Nat.zero_le 1
  | cons q more =>
      rw [hquestions, List.length_cons] at hasked
      obtain rfl : more = [] := List.length_eq_zero_iff.mp (by omega)
      rw [List.flatMap_singleton]
      exact hwho q answer

end Course

theorem Reviewer.asksOnce_analyze (reviewer : Reviewer) (request : Request) :
    (reviewer.analyze request).AsksOnce := by
  rw [analyze]
  split
  · exact Course.asksOnce_done _
  · exact Course.asksOnce_once _ _

theorem Invocation.asksOnce_handle (reviewer : Reviewer) (event : Event) :
    (handle reviewer event).AsksOnce := by
  rw [handle]
  split
  · exact Course.asksOnce_done _
  · rw [handleBody]
    split
    · exact Course.asksOnce_done _
    · exact (reviewer.asksOnce_analyze _).map _
  · exact Course.asksOnce_done _

/-! ### The service -/

namespace Client

theorem asksOnce_ask (s : ModelSettings) (prompt : String) : (ask s prompt).AsksOnce := by
  rw [ask]
  split
  · exact Course.asksOnce_once _ _
  · exact Course.asksOnce_done _

/-- Whatever comes back from the service, the client does not break down. -/
theorem understand_ne_crash (response : Response) : understand response ≠ .crash := by
  intro hcrash
  cases response with
  | silent => cases hcrash
  | closed => cases hcrash
  | answered status body =>
      rcases understand_cases status body with ⟨t, ht⟩ | ⟨chain, hchain⟩
      · rw [understand_of_delivers ht] at hcrash
        cases hcrash
      · rw [hchain] at hcrash
        cases hcrash

/-- The model behind a client, when the service answers like this. -/
def model (s : ModelSettings) (network : Call → Timed Response) (prompt : String) : Reaction :=
  (ask s prompt).run network

theorem model_ne_crash (s : ModelSettings) (network : Call → Timed Response) (prompt : String) :
    (model s network prompt).value ≠ .crash := by
  rw [model, ask]
  split
  · rw [Course.run_once, Reviewer.heard]
    split
    · exact understand_ne_crash _
    · exact fun hcrash => by cases hcrash
  · exact fun hcrash => by cases hcrash

end Client

namespace Command

/-! ### Needs of a task -/

/-- The text shows something. -/
def Shows (text : String) : Prop :=
  ∃ c ∈ text.toList, Text.isBlank c = false

/-- What a task needs: files that can be read as text, a language, an event, and settings that
load. -/
def Ready (w : World) (config : Option String) : Task → Prop
  | .analyze file language _ _ =>
    (∃ code, w.Holds file code ∧ Shows code) ∧
    ((∃ name, language = some name ∧ Shows name) ∨
      (language = none ∧ ∃ name, Path.language? file = some name)) ∧
    ∃ s, w.Loads config s
  | .metrics file _ => ∃ code, w.Holds file code
  | .invoke =>
    (∃ text event, w.input = Text.bytes text ∧
      Json.readText Invocation.Event.shape.reader text = .ok event) ∧
    ∃ s, w.Loads config s

theorem shows_iff {text : String} : Shows text ↔ Text.allBlank text = false := by
  rw [Shows, ← Bool.not_eq_true, Text.allBlank_iff]
  simp

/-- Every language that goes with an extension has a name. -/
theorem shows_of_language? {file name : String} (h : Path.language? file = some name) :
    Shows name := by
  have hall : ∀ e ∈ Path.languages, Text.allBlank e.2 = false := by decide +kernel
  obtain ⟨ext, -, hlookup⟩ := Option.bind_eq_some_iff.mp h
  obtain ⟨before, after, hlanguages, -⟩ := List.lookup_eq_some_iff.mp hlookup
  have hmem : (Text.lowerAscii ext, name) ∈ Path.languages := by
    rw [hlanguages]
    exact List.mem_append_right _ List.mem_cons_self
  exact shows_iff.mpr (hall _ hmem)

theorem ready_analyze_iff {w : World} {config : Option String} {file : String}
    {language : Option String} {focus : List String} {json : Bool} :
    Ready w config (.analyze file language focus json) ↔
      ∃ code name s, w.Holds file code ∧ language.or (Path.language? file) = some name ∧
        w.Loads config s ∧ Shows code ∧ Shows name := by
  constructor
  · rintro ⟨⟨code, hcode, hshows⟩, ⟨name, rfl, hname⟩ | ⟨rfl, name, hfile⟩, s, hs⟩
    · exact ⟨code, name, s, hcode, rfl, hs, hshows, hname⟩
    · exact ⟨code, name, s, hcode, hfile, hs, hshows, shows_of_language? hfile⟩
  · rintro ⟨code, name, s, hcode, hname, hs, hshows, hnamed⟩
    refine ⟨⟨code, hcode, hshows⟩, ?_, s, hs⟩
    cases language with
    | none => exact .inr ⟨rfl, name, hname⟩
    | some given =>
        obtain rfl := Option.some.inj hname
        exact .inl ⟨given, rfl, hnamed⟩

/-! ### Reviews -/

/-- The request for a review of a file. -/
def requestOf (file code name : String) (focus : List String) : Request where
  code := some code
  language := some name
  filename := Path.fileName? file
  focus := if focus = [] then none else some focus

/-- The review of a file. -/
def reviewOf (s : GatewaySettings) (file code name : String) (focus : List String) :
    Course Client.Call (Timed Client.Response) Outcome :=
  ((Client.reviewer s.model).analyze (requestOf file code name focus)).via (Client.ask s.model)

theorem incomplete_requestOf_iff {file code name : String} {focus : List String} :
    (requestOf file code name focus).Incomplete ↔ ¬ (Shows code ∧ Shows name) := by
  rw [Request.Incomplete, requestOf, Request.lacking_some_iff, Request.lacking_some_iff, shows_iff,
    shows_iff]
  cases Text.allBlank code <;> cases Text.allBlank name <;> decide

section Reviews

variable (s : GatewaySettings) (file : String) {code name : String} (focus : List String)

theorem reviewOf_of_not_shows (h : ¬ (Shows code ∧ Shows name)) :
    ∃ e, reviewOf s file code name focus = .done (.refused e) := by
  rw [reviewOf, Reviewer.analyze_of_incomplete _ (incomplete_requestOf_iff.mpr h)]
  exact ⟨_, rfl⟩

theorem asksOnce_reviewOf (code name : String) : (reviewOf s file code name focus).AsksOnce :=
  ((Client.reviewer s.model).asksOnce_analyze _).via (Client.asksOnce_ask s.model)

/-- The prompt for a file. -/
def promptOf (code name : String) : String :=
  Prompt.build (Text.trim name) code (if focus = [] then ["syntax", "best-practices"] else focus)

/-- Whatever comes back from the service, the review of a whole file ends in a report with the
metrics of the file. The rest of it follows from what is heard of the model. -/
theorem run_reviewOf (h : Shows code ∧ Shows name)
    (network : Client.Call → Timed Client.Response) :
    ∃ r, (reviewOf s file code name focus).run network = .report r ∧
      r.metrics = Metrics.ofCode code ∧
      r.Follows (Client.reviewer s.model)
        (Client.model s.model network (promptOf focus code name)).value := by
  have hcomplete : ¬ (requestOf file code name focus).Incomplete :=
    fun hi => incomplete_requestOf_iff.mp hi h
  obtain ⟨_, _, hcode, hname, hcourse⟩ :=
    (Client.reviewer s.model).analyze_of_complete hcomplete
  obtain rfl := Option.some.inj hcode
  obtain rfl := Option.some.inj hname
  let job : Job := (requestOf file code name focus).job code name
  have hprompt : Reviewer.prompt job = promptOf focus code name := by
    have hfocus : job.focus = if focus = [] then ["syntax", "best-practices"] else focus := by
      simp only [job, Request.job, requestOf]
      split <;> rfl
    rw [Reviewer.prompt, hfocus]
    rfl
  obtain ⟨r, hr, hmetrics, hfollows⟩ := (Client.reviewer s.model).conclude_report job
    (Client.model_ne_crash s.model network (Reviewer.prompt job))
  rw [hprompt] at hfollows
  refine ⟨r, ?_, hmetrics, hfollows⟩
  rw [reviewOf, Course.run_via, hcourse]
  exact hr

end Reviews

/-! ### Tasks -/

/-- What is printed for a task when the service answers like this: one report with the metrics of
the file, which follows from what is heard of the model, or the metrics of a file, or the one
response to the event. -/
inductive Prints (w : World) (config : Option String)
    (network : Client.Call → Timed Client.Response) : Task → String → Prop where
  | report {file code name text : String} {language : Option String} {focus : List String}
    {json : Bool} {s : GatewaySettings} {r : Report} (holds : w.Holds file code)
    (named : language.or (Path.language? file) = some name) (loads : w.Loads config s)
    (metrics : r.metrics = Metrics.ofCode code)
    (follows : r.Follows (Client.reviewer s.model)
      (Client.model s.model network (promptOf focus code name)).value)
    (shows : ShowsReport w json file r text) :
    Prints w config network (.analyze file language focus json) text
  | metrics {file code text : String} {json : Bool} (holds : w.Holds file code)
    (shows : ShowsMetrics w json (Metrics.ofCode code) text) :
    Prints w config network (.metrics file json) text
  | response {input text : String} {event : Invocation.Event} {s : GatewaySettings}
    {r : Invocation.Response} (holds : w.input = Text.bytes input)
    (reads : Json.readText Invocation.Event.shape.reader input = .ok event)
    (loads : w.Loads config s)
    (answers : r =
      (Invocation.handle (Client.reviewer s.model) event).run (Client.model s.model network))
    (written : text = Json.indented r.toJson ++ "\n")
    (back : Json.readText Invocation.Response.shape.reader text = .ok r) :
    Prints w config network .invoke text

/-- How the run of a task ends. -/
inductive Ends (w : World) (config : Option String) (task : Task) : Run → Prop where
  | done {run : Run} (ready : Ready w config task) (once : run.AsksOnce)
    (prints : ∀ network, ∃ text, run.run network = .done text ∧
      Prints w config network task text) : Ends w config task run
  | failed (f : Failure) (missing : ¬ Ready w config task) :
    Ends w config task (.done (.failed f))

section Runs

variable {w : World} {config : Option String} {file : String} {language : Option String}
  {focus : List String} {json : Bool} {run : Run}

theorem analyze_eq_ok_iff :
    analyze w config file language focus json = .ok run ↔
      ∃ code name s, w.Holds file code ∧ language.or (Path.language? file) = some name ∧
        w.Loads config s ∧
        run = (reviewOf s file code name focus).map (reportOutcome (wantsColours w) json file) := by
  simp only [analyze, source, settings, bind_eq_ok_iff, mapError_eq_ok_iff, World.text_eq_ok_iff]
  cases language.or (Path.language? file) with
  | none => simp [bind, Except.bind]
  | some name =>
      simp only [bind_eq_ok_iff, mapError_eq_ok_iff, World.settings_eq_ok_iff, Except.ok.injEq,
        Option.some.injEq]
      constructor
      · rintro ⟨code, hcode, name, rfl, s, hs, rfl⟩
        exact ⟨code, name, s, hcode, rfl, hs, rfl⟩
      · rintro ⟨code, _, s, hcode, rfl, hs, rfl⟩
        exact ⟨code, hcode, name, rfl, s, hs, rfl⟩

theorem metrics_eq_ok_iff :
    metrics w file json = .ok run ↔
      ∃ code, w.Holds file code ∧
        run = .done (.done (if json then jsonLines (Metrics.ofCode code).toJson
          else ReportText.metricsText (wantsColours w) (Metrics.ofCode code))) := by
  simp only [metrics, source, bind_eq_ok_iff, mapError_eq_ok_iff, World.text_eq_ok_iff,
    Except.ok.injEq]
  exact exists_congr fun code => and_congr_right fun _ => eq_comm

theorem eventOf_eq_ok_iff {input : Json.Bytes} {event : Invocation.Event} :
    eventOf input = .ok event ↔
      ∃ text, input = Text.bytes text ∧
        Json.readText Invocation.Event.shape.reader text = .ok event := by
  simp only [eventOf, ← World.ofBytes?_eq_some_iff]
  cases Text.ofBytes? input with
  | none => simp [bind, Except.bind]
  | some text => simp [bind, Except.bind, mapError_eq_ok_iff]

theorem invoke_eq_ok_iff :
    invoke w config = .ok run ↔
      ∃ event s, eventOf w.input = .ok event ∧ w.Loads config s ∧
        run = ((Invocation.handle (Client.reviewer s.model) event).via (Client.ask s.model)).map
          fun r => .done (jsonLines r.toJson) := by
  simp only [invoke, settings, bind_eq_ok_iff, mapError_eq_ok_iff, World.settings_eq_ok_iff,
    Except.ok.injEq]
  constructor
  · rintro ⟨event, hevent, s, hs, rfl⟩
    exact ⟨event, s, hevent, hs, rfl⟩
  · rintro ⟨event, s, hevent, hs, rfl⟩
    exact ⟨event, hevent, s, hs, rfl⟩

variable (w config file language focus json)

/-- A report on a file is shown as it is asked for. -/
theorem showsReport {reviewer : Reviewer} {answer : Answer} {r : Report} {code : String}
    (h : r.Follows reviewer answer) (hmetrics : r.metrics = Metrics.ofCode code) :
    ShowsReport w json file r
      (if json then jsonLines r.toJson else ReportText.render (wantsColours w) file r) where
  value := by
    rintro rfl
    exact isDocument_jsonLines (h.readable hmetrics)
  words := by
    rintro rfl
    exact ⟨rfl, ReportText.tells_render (wantsColours w) file r⟩

theorem showsMetrics (code : String) :
    ShowsMetrics w json (Metrics.ofCode code)
      (if json then jsonLines (Metrics.ofCode code).toJson
        else ReportText.metricsText (wantsColours w) (Metrics.ofCode code)) where
  value := by
    rintro rfl
    exact isDocument_jsonLines (Metrics.readable_ofCode code)
  words := by
    rintro rfl
    exact ⟨rfl, ReportText.tells_metricsText (wantsColours w) _⟩

theorem ends_analyze :
    Ends w config (.analyze file language focus json)
      (.ofExcept (analyze w config file language focus json)) := by
  cases h : analyze w config file language focus json with
  | error f =>
      refine .failed f (not_of_error h fun hready => ?_)
      obtain ⟨code, name, s, hcode, hname, hs, -⟩ := ready_analyze_iff.mp hready
      exact ⟨_, analyze_eq_ok_iff.mpr ⟨code, name, s, hcode, hname, hs, rfl⟩⟩
  | ok run =>
      obtain ⟨code, name, s, hcode, hname, hs, rfl⟩ := analyze_eq_ok_iff.mp h
      by_cases hshows : Shows code ∧ Shows name
      · refine .done (ready_analyze_iff.mpr ⟨code, name, s, hcode, hname, hs, hshows⟩)
          ((asksOnce_reviewOf s file focus code name).map _) fun network => ?_
        obtain ⟨r, hr, hmetrics, hfollows⟩ := run_reviewOf s file focus hshows network
        refine ⟨_, ?_, .report hcode hname hs hmetrics hfollows
          (showsReport w file json hfollows hmetrics)⟩
        rw [Run.ofExcept, Course.run_map, hr]
        rfl
      · obtain ⟨e, he⟩ := reviewOf_of_not_shows s file focus hshows
        rw [Run.ofExcept, he]
        refine .failed ⟨e.message, none⟩ fun hready => hshows ?_
        obtain ⟨code', name', _, hcode', hname', -, hshows'⟩ := ready_analyze_iff.mp hready
        obtain rfl := hcode.unique hcode'
        rw [hname] at hname'
        cases hname'
        exact hshows'

theorem ends_metrics :
    Ends w config (.metrics file json) (.ofExcept (metrics w file json)) := by
  cases h : metrics w file json with
  | error f =>
      refine .failed f (not_of_error h ?_)
      rintro ⟨code, hcode⟩
      exact ⟨_, metrics_eq_ok_iff.mpr ⟨code, hcode, rfl⟩⟩
  | ok run =>
      obtain ⟨code, hcode, rfl⟩ := metrics_eq_ok_iff.mp h
      exact .done ⟨code, hcode⟩ (Course.asksOnce_done _) fun network =>
        ⟨_, rfl, .metrics hcode (showsMetrics w json code)⟩

theorem ends_invoke : Ends w config .invoke (.ofExcept (invoke w config)) := by
  cases h : invoke w config with
  | error f =>
      refine .failed f (not_of_error h ?_)
      rintro ⟨⟨text, event, htext, hevent⟩, s, hs⟩
      have hread := eventOf_eq_ok_iff.mpr ⟨text, htext, hevent⟩
      exact ⟨_, invoke_eq_ok_iff.mpr ⟨event, s, hread, hs, rfl⟩⟩
  | ok run =>
      obtain ⟨event, s, hevent, hs, rfl⟩ := invoke_eq_ok_iff.mp h
      obtain ⟨text, htext, hread⟩ := eventOf_eq_ok_iff.mp hevent
      refine .done ⟨⟨text, event, htext, hread⟩, s, hs⟩
        (((Invocation.asksOnce_handle _ event).via (Client.asksOnce_ask s.model)).map _)
        fun network => ?_
      have htold := Invocation.told_run (Client.reviewer s.model) event
        (Client.model s.model network)
      refine ⟨_, ?_, .response htext hread hs rfl rfl (readText_response htold)⟩
      rw [Run.ofExcept, Course.run_map, Course.run_via]
      rfl

theorem ends_runOf (p : Plan) : Ends w p.config p.task (runOf w p) := by
  obtain ⟨task, config⟩ := p
  cases task with
  | analyze file language focus json => exact ends_analyze w config file language focus json
  | metrics file json => exact ends_metrics w config file json
  | invoke => exact ends_invoke w config

end Runs

/-! ### Ends -/

section Ends

variable {w : World} {config : Option String} {task : Task} {run : Run}
  (network : Client.Call → Timed Client.Response)

theorem Ends.exit_eq_zero_iff (h : Ends w config task run) :
    (run.run network).exit = 0 ↔ Ready w config task := by
  cases h with
  | done ready once prints =>
      obtain ⟨text, htext, -⟩ := prints network
      rw [htext]
      exact iff_of_true rfl ready
  | failed f missing => exact iff_of_false Nat.one_ne_zero missing

theorem Ends.prints (h : Ends w config task run) (hready : Ready w config task) :
    Prints w config network task (run.run network).output := by
  cases h with
  | done _ _ prints =>
      obtain ⟨text, htext, hprints⟩ := prints network
      rw [htext]
      exact hprints
  | failed f missing => exact absurd hready missing

theorem Ends.asksOnce (h : Ends w config task run) : run.AsksOnce := by
  cases h with
  | done _ once _ => exact once
  | failed f _ => exact Course.asksOnce_done _

theorem Ends.failed_of_not_ready (h : Ends w config task run) (hready : ¬ Ready w config task) :
    ∃ f, run = .done (.failed f) := by
  cases h with
  | done ready _ _ => exact absurd ready hready
  | failed f _ => exact ⟨f, rfl⟩

/-- Runs of tasks that both have what they need, or both lack it, end alike. -/
theorem Ends.exit_congr {w' : World} {config' : Option String} {task' : Task} {run' : Run}
    {network' : Client.Call → Timed Client.Response} (h : Ends w config task run)
    (h' : Ends w' config' task' run') (hready : Ready w' config' task' ↔ Ready w config task) :
    (run'.run network').exit = (run.run network).exit := by
  by_cases hr : Ready w config task
  · rw [(h.exit_eq_zero_iff network).mpr hr, (h'.exit_eq_zero_iff network').mpr (hready.mpr hr)]
  · obtain ⟨f, rfl⟩ := h.failed_of_not_ready hr
    obtain ⟨f', rfl⟩ := h'.failed_of_not_ready (mt hready.mp hr)
    rfl

/-- A run that is not done prints and asks nothing. -/
theorem Ends.nothing_of_exit_ne_zero (h : Ends w config task run)
    (hexit : (run.run network).exit ≠ 0) :
    (run.run network).output = "" ∧ run.questions network = [] := by
  obtain ⟨f, rfl⟩ := h.failed_of_not_ready (mt (h.exit_eq_zero_iff network).mpr hexit)
  exact ⟨rfl, rfl⟩

end Ends

/-! ### Metrics -/

section Metrics

variable {w w' : World} {config config' : Option String} {file : String}

theorem questions_metrics (w : World) (config : Option String) (file : String) (json : Bool)
    (network : Client.Call → Timed Client.Response) :
    (runOf w ⟨.metrics file json, config⟩).questions network = [] := by
  simp only [runOf]
  cases h : metrics w file json with
  | error f => rfl
  | ok run =>
      obtain ⟨code, -, rfl⟩ := metrics_eq_ok_iff.mp h
      rfl

/-- The metrics as JSON depend on the file alone. -/
theorem runOf_metrics_congr (h : w'.file file = w.file file) :
    runOf w' ⟨.metrics file true, config'⟩ = runOf w ⟨.metrics file true, config⟩ := by
  simp only [runOf, metrics, source, World.text_congr h, if_true]

theorem ready_metrics_congr {json : Bool} (h : w'.file file = w.file file) :
    Ready w' config' (.metrics file json) ↔ Ready w config (.metrics file json) := by
  simp only [Ready, World.Holds, h]

/-- The metrics of a printed report are those that are printed for its file alone. -/
theorem hasMetrics_of_ready {language : Option String} {focus : List String}
    (hready : Ready w config (.analyze file language focus true)) (h : w'.file file = w.file file)
    (network network' : Client.Call → Timed Client.Response) :
    HasMetrics
      ((runOf w ⟨.analyze file language focus true, config⟩).run network).output
      ((runOf w' ⟨.metrics file true, config'⟩).run network').output := by
  obtain ⟨code, name, s, hcode, hname, hs, hshows⟩ := ready_analyze_iff.mp hready
  obtain ⟨r, hr, hmetrics, hfollows⟩ := run_reviewOf s file focus hshows network
  have hwhole : (runOf w ⟨.analyze file language focus true, config⟩).run network =
      .done (jsonLines r.toJson) := by
    simp only [runOf, analyze_eq_ok_iff.mpr ⟨code, name, s, hcode, hname, hs, rfl⟩,
      Run.ofExcept, Course.run_map, hr, reportOutcome, if_true]
  have hpart : runOf w ⟨.metrics file true, config⟩ =
      .done (.done (jsonLines (Metrics.ofCode code).toJson)) := by
    simp only [runOf, metrics_eq_ok_iff.mpr ⟨code, hcode, rfl⟩, Run.ofExcept, if_true]
  have hsame : runOf w' ⟨.metrics file true, config'⟩ = runOf w ⟨.metrics file true, config⟩ :=
    runOf_metrics_congr h
  rw [hwhole, hsame, hpart]
  exact hasMetrics_of_printed hfollows hmetrics

end Metrics

/-! ### Runs of the program -/

section Review

variable {w v : World} {p : Plan}

theorem review_eq (hplan : plan w.args = .ok p) (hv : withEnvironmentFile w = .ok v) :
    review w = runOf v p := by
  have hargs : v.args = w.args := by rw [(withEnvironmentFile_ok hv).2]
  rw [review, hv]
  dsimp only
  rw [hargs, hplan]

theorem review_of_unsettable {e : EnvironmentFile.Unsettable}
    (h : withEnvironmentFile w = .error e) : review w = .done (unset e) := by
  rw [review, h]

theorem ends_review (hplan : plan w.args = .ok p) (hv : withEnvironmentFile w = .ok v) :
    Ends v p.config p.task (review w) := by
  rw [review_eq hplan hv]
  exact ends_runOf v p

/-- A run of the program breaks off at its environment file, or ends like its task. -/
theorem review_cases (hplan : plan w.args = .ok p) :
    (∃ e, review w = .done (unset e)) ∨ ∃ v, Ends v p.config p.task (review w) := by
  cases h : withEnvironmentFile w with
  | error e => exact .inl ⟨e, review_of_unsettable h⟩
  | ok v => exact .inr ⟨v, ends_review hplan h⟩

theorem asksOnce_review (hplan : plan w.args = .ok p) : (review w).AsksOnce := by
  obtain ⟨e, he⟩ | ⟨v, hends⟩ := review_cases hplan
  · rw [he]
    exact Course.asksOnce_done _
  · exact hends.asksOnce

section Networks

variable (network network' : Client.Call → Timed Client.Response)

/-- What comes back from the service does not change how a run exits. -/
theorem exit_review_eq (hplan : plan w.args = .ok p) :
    ((review w).run network').exit = ((review w).run network).exit := by
  obtain ⟨e, he⟩ | ⟨v, hends⟩ := review_cases hplan
  · rw [he]
    rfl
  · exact hends.exit_congr network hends Iff.rfl

/-- A run of the program that is not done prints and asks nothing. -/
theorem review_nothing_of_exit_ne_zero (hplan : plan w.args = .ok p)
    (hexit : ((review w).run network).exit ≠ 0) :
    ((review w).run network).output = "" ∧ (review w).questions network = [] := by
  obtain ⟨e, he⟩ | ⟨v, hends⟩ := review_cases hplan
  · rw [he]
    exact ⟨rfl, rfl⟩
  · exact hends.nothing_of_exit_ne_zero network hexit

end Networks

/-! ### Two runs on the same file -/

section Same

variable {w' v' : World} {p' : Plan} {file : String}
  (network network' : Client.Call → Timed Client.Response)

theorem file_eq (hv : withEnvironmentFile w = .ok v) (hv' : withEnvironmentFile w' = .ok v')
    (h : w'.file file = w.file file) : v'.file file = v.file file := by
  rw [(withEnvironmentFile_ok hv).2, (withEnvironmentFile_ok hv').2]
  exact h

theorem questions_review_metrics {json : Bool} (hplan : plan w.args = .ok p)
    (hv : withEnvironmentFile w = .ok v) (htask : p.task = .metrics file json) :
    (review w).questions network = [] := by
  obtain ⟨_, config⟩ := p
  obtain rfl := htask
  rw [review_eq hplan hv]
  exact questions_metrics v config file json network

/-- Runs for the metrics of the same file exit alike. -/
theorem exit_review_metrics {json : Bool} (hplan : plan w.args = .ok p)
    (hplan' : plan w'.args = .ok p') (hv : withEnvironmentFile w = .ok v)
    (hv' : withEnvironmentFile w' = .ok v') (htask : p.task = .metrics file json)
    (hsame : p'.task = p.task) (h : w'.file file = w.file file) :
    ((review w').run network').exit = ((review w).run network).exit := by
  refine (ends_review hplan hv).exit_congr network (ends_review hplan' hv') ?_
  rw [hsame, htask]
  exact ready_metrics_congr (file_eq hv hv' h)

/-- Runs for the metrics of the same file as JSON are the same run. -/
theorem review_metrics_congr (hplan : plan w.args = .ok p) (hplan' : plan w'.args = .ok p')
    (hv : withEnvironmentFile w = .ok v) (hv' : withEnvironmentFile w' = .ok v')
    (htask : p.task = .metrics file true) (hsame : p'.task = p.task)
    (h : w'.file file = w.file file) : review w' = review w := by
  obtain ⟨_, config⟩ := p
  obtain rfl := htask
  obtain ⟨_, config'⟩ := p'
  obtain rfl := hsame
  rw [review_eq hplan hv, review_eq hplan' hv']
  exact runOf_metrics_congr (file_eq hv hv' h)

/-- The report on a file has the metrics in it that are printed for the file alone. -/
theorem hasMetrics_review {language : Option String} {focus : List String}
    (hplan : plan w.args = .ok p) (hplan' : plan w'.args = .ok p')
    (hv : withEnvironmentFile w = .ok v) (hv' : withEnvironmentFile w' = .ok v')
    (htask : p.task = .analyze file language focus true) (htask' : p'.task = .metrics file true)
    (hready : Ready v p.config p.task) (h : w'.file file = w.file file) :
    HasMetrics ((review w).run network).output ((review w').run network').output := by
  obtain ⟨_, config⟩ := p
  obtain rfl := htask
  obtain ⟨_, config'⟩ := p'
  obtain rfl := htask'
  rw [review_eq hplan hv, review_eq hplan' hv']
  exact hasMetrics_of_ready hready (file_eq hv hv' h) network network'

end Same

/-! ### All runs -/

/-- How a run of the program ends, for every command line that is understood, every world, and
everything that comes back from the service, or does not. A value with a NUL in the environment file
ends every run, and nothing else there does. Of the other runs each is done exactly when the task
has what it needs, and then it prints one result. A run that is not done prints and asks nothing,
and no run asks more than once. What comes back from the service decides nothing of this. A run for
metrics asks nothing and depends on its file alone, and its metrics are those in the report on this
file. -/
theorem review_ends (hplan : plan w.args = .ok p)
    (network : Client.Call → Timed Client.Response) :
    let run : Run := review w
    let finish : Finish := run.run network
    (∀ e, withEnvironmentFile w = .error e →
      '\x00' ∈ e.value.toList ∧ w.variables.lookup e.name = none ∧ finish.exit = 101) ∧
    (EnvironmentFile.Clean w.variables →
      (∀ path ∈ environmentPaths w.directory, ∀ bytes, w.file path = .ok bytes → 0 ∉ bytes) →
      ∃ v, withEnvironmentFile w = .ok v) ∧
    (finish.exit ≠ 0 → finish.output = "" ∧ run.questions network = []) ∧
    (run.questions network).length ≤ 1 ∧
    (∀ network', (run.run network').exit = finish.exit) ∧
    ∀ v, withEnvironmentFile w = .ok v →
      v = { w with «variables» := v.variables } ∧
      (finish.exit = 0 ↔ Ready v p.config p.task) ∧
      (finish.exit = 0 → Prints v p.config network p.task finish.output) ∧
      (∀ file json, p.task = .metrics file json → run.questions network = [] ∧
        ∀ w' v' p', plan w'.args = .ok p' → withEnvironmentFile w' = .ok v' → p'.task = p.task →
          w'.file file = w.file file →
          (∀ network', ((review w').run network').exit = finish.exit) ∧
          (json = true → review w' = run)) ∧
      ∀ file language focus, p.task = .analyze file language focus true → finish.exit = 0 →
        ∀ w' v' p', plan w'.args = .ok p' → withEnvironmentFile w' = .ok v' →
          p'.task = .metrics file true → w'.file file = w.file file →
          ∀ network', HasMetrics finish.output ((review w').run network').output := by
  intro run finish
  refine ⟨fun e he => ?broken, exists_withEnvironmentFile,
    review_nothing_of_exit_ne_zero network hplan, asksOnce_review hplan network,
    fun network' => exit_review_eq network network' hplan,
    fun v hv => ⟨(withEnvironmentFile_ok hv).2, ?done⟩⟩
  case broken =>
    obtain ⟨hnul, habsent⟩ := withEnvironmentFile_error he
    refine ⟨hnul, habsent, ?_⟩
    simp only [finish, run, review_of_unsettable he]
    rfl
  case done =>
    have hends : Ends v p.config p.task run := ends_review hplan hv
    have hexit : finish.exit = 0 ↔ Ready v p.config p.task := hends.exit_eq_zero_iff network
    refine ⟨hexit, fun hzero => hends.prints network (hexit.mp hzero), ?metrics, ?part⟩
    case metrics =>
      intro file json htask
      refine ⟨questions_review_metrics network hplan hv htask,
        fun w' v' p' hplan' hv' hsame h => ⟨fun network' => ?_, ?_⟩⟩
      · exact exit_review_metrics network network' hplan hplan' hv hv' htask hsame h
      · rintro rfl
        exact review_metrics_congr hplan hplan' hv hv' htask hsame h
    case part =>
      intro file language focus htask hzero w' v' p' hplan' hv' htask' h network'
      exact hasMetrics_review network network' hplan hplan' hv hv' htask htask' (hexit.mp hzero) h

/-- A directory with a file of code and an environment file, and an event on the standard input. -/
def smallWorld (environment : String) (args : List String) : World where
  args
  «variables» := []
  file := fun path =>
    if path = "a.rs" then .ok (Text.bytes "x = 1")
    else if path = "/.env" then .ok (Text.bytes environment)
    else .error GatewayError.noSuchFile
  input := Text.bytes "\x7b\"httpMethod\":\"GET\"\x7d"

theorem withEnvironmentFile_smallWorld (environment : String) (args : List String) :
    withEnvironmentFile (smallWorld environment args) =
      (EnvironmentFile.overlay (Text.bytes environment) []).map fun found =>
        { smallWorld environment args with «variables» := found } := by
  have hpaths : environmentPaths "" = ["/.env"] := by decide +kernel
  have hfirst : firstFile? (smallWorld environment args)
      (environmentPaths (smallWorld environment args).directory) =
        some (Text.bytes environment) := by
    change firstFile? (smallWorld environment args) (environmentPaths "") = _
    rw [hpaths]
    rfl
  rw [withEnvironmentFile, hfirst]
  rfl

/-- An environment file that is empty changes nothing. -/
theorem withEnvironmentFile_smallWorld_empty (args : List String) :
    withEnvironmentFile (smallWorld "" args) = .ok (smallWorld "" args) := by
  have hempty : EnvironmentFile.overlay (Text.bytes "") [] = .ok [] := by decide +kernel
  rw [withEnvironmentFile_smallWorld, hempty]
  rfl

theorem loads_smallWorld (environment : String) (args : List String) :
    (smallWorld environment args).Loads none
      (GatewaySettings.default.merged (smallWorld environment args).environment) where
  supplied := ⟨_, .defaults, rfl⟩
  port := by
    rintro text ⟨⟨⟩, -⟩

/-- A service that stays silent: a review and the metrics of the same file, in words and as JSON, an
event with a method that is not allowed, a file that is missing, and a NUL in the environment
file. -/
theorem review_ends_unanswered :
    let network (_ : Client.Call) : Timed Client.Response := ⟨.silent, 0⟩
    let finish (environment : String) (args : List String) : Finish :=
      (review (smallWorld environment args)).run network
    let whole : Finish := finish "" ["analyze", "a.rs", "--json"]
    let part : Finish := finish "" ["metrics", "--json", "a.rs"]
    let words : Finish := finish "" ["metrics", "a.rs"]
    let event : Finish := finish "" ["invoke"]
    let missing : Finish := finish "" ["metrics", "b.rs"]
    let broken : Finish := finish "A=\x00" ["metrics", "--json", "a.rs"]
    (whole.exit = 0 ∧ HasMetrics whole.output part.output) ∧
      (words.exit = 0 ∧
        ReportText.Tells words.output (ReportText.metricsLines (Metrics.ofCode "x = 1"))) ∧
      (event.exit = 0 ∧ ∃ r : Invocation.Response,
        event.output = Json.indented r.toJson ++ "\n" ∧ r.status = 405) ∧
      (missing.exit ≠ 0 ∧ missing.output = "") ∧ broken.exit = 101 ∧ broken.output = "" := by
  intro network finish whole part words event missing broken
  have hplan : plan ["analyze", "a.rs", "--json"] = .ok ⟨.analyze "a.rs" none [] true, none⟩ := by
    decide +kernel
  have hjson : plan ["metrics", "--json", "a.rs"] = .ok ⟨.metrics "a.rs" true, none⟩ := by
    decide +kernel
  have hwords : plan ["metrics", "a.rs"] = .ok ⟨.metrics "a.rs" false, none⟩ := by decide +kernel
  have hmissing : plan ["metrics", "b.rs"] = .ok ⟨.metrics "b.rs" false, none⟩ := by
    decide +kernel
  have hinvoke : plan ["invoke"] = .ok ⟨.invoke, none⟩ := by decide +kernel
  have hempty := withEnvironmentFile_smallWorld_empty
  have hholds (args : List String) : (smallWorld "" args).Holds "a.rs" "x = 1" := rfl
  refine ⟨?whole, ?words, ?event, ?missing, ?broken⟩
  case whole =>
    obtain ⟨-, -, -, -, -, hruns⟩ := review_ends (w := smallWorld "" _) hplan network
    obtain ⟨-, hexit, -, -, hmember⟩ := hruns _ (hempty _)
    have hzero : whole.exit = 0 := hexit.mpr
      ⟨⟨"x = 1", hholds _, 'x', by decide, by decide +kernel⟩,
        .inr ⟨rfl, "rust", by decide +kernel⟩, _, loads_smallWorld "" _⟩
    exact ⟨hzero, hmember "a.rs" none [] rfl hzero (smallWorld "" _) _ _ hjson (hempty _) rfl rfl
      network⟩
  case words =>
    obtain ⟨-, -, -, -, -, hruns⟩ := review_ends (w := smallWorld "" _) hwords network
    obtain ⟨-, hexit, hprints, -⟩ := hruns _ (hempty _)
    have hzero : words.exit = 0 := hexit.mpr ⟨"x = 1", hholds _⟩
    obtain _ | ⟨holds, shows⟩ | _ := hprints hzero
    obtain rfl := (hholds _).unique holds
    exact ⟨hzero, (shows.words rfl).2⟩
  case event =>
    obtain ⟨-, -, -, -, -, hruns⟩ := review_ends (w := smallWorld "" _) hinvoke network
    obtain ⟨-, hexit, hprints, -⟩ := hruns _ (hempty _)
    let text := "\x7b\"httpMethod\":\"GET\"\x7d"
    have hread : Json.readText Invocation.Event.shape.reader text = .ok ⟨"GET", none⟩ := by
      have hsome : (Json.readText Invocation.Event.shape.reader text).toOption =
          some ⟨"GET", none⟩ := by
        decide +kernel
      exact Json.ok_of_toOption hsome
    have hzero : event.exit = 0 := hexit.mpr ⟨⟨text, _, rfl, hread⟩, _, loads_smallWorld "" _⟩
    obtain _ | _ | ⟨holds, reads, -, answers, written, -⟩ := hprints hzero
    obtain rfl := Text.bytes_injective holds
    rw [hread] at reads
    cases reads
    refine ⟨hzero, _, written, ?_⟩
    rw [answers, Invocation.handle_other _
      (mt Invocation.upperAscii_eq_options_iff.mpr (by decide +kernel))
      (mt Invocation.upperAscii_eq_post_iff.mpr (by decide +kernel))]
    rfl
  case missing =>
    obtain ⟨-, -, hnothing, -, -, hruns⟩ := review_ends (w := smallWorld "" _) hmissing network
    obtain ⟨-, hexit, -⟩ := hruns _ (hempty _)
    have hfails : missing.exit ≠ 0 := by
      intro hzero
      obtain ⟨code, hcode⟩ := hexit.mp hzero
      cases hcode
    exact ⟨hfails, (hnothing hfails).1⟩
  case broken =>
    have hnul : EnvironmentFile.overlay (Text.bytes "A=\x00") [] = .error ⟨"A", "\x00"⟩ := by
      decide +kernel
    have hstops := withEnvironmentFile_smallWorld "A=\x00" ["metrics", "--json", "a.rs"]
    rw [hnul] at hstops
    obtain ⟨hends, -, hnothing, -⟩ := review_ends (w := smallWorld "A=\x00" _) hjson network
    have hcrashed : broken.exit = 101 := (hends _ hstops).2.2
    exact ⟨hcrashed, (hnothing (hcrashed ▸ by decide)).1⟩

end Review

end Command

end CodeReview
