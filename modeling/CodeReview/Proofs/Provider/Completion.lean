import CodeReview.Proofs.Json.Members
import CodeReview.Proofs.Review
import CodeReview.Provider.Client

/-!
What the responses of a hosted model amount to. A response delivers one text, the joined parts of
its first candidate, or it is a failure. A review depends on the response through this text alone,
if the response is there in time.
The grammar of completions shows which bodies deliver the same text: it does not matter into which
parts the text is cut, and what else is written around them.
-/

namespace CodeReview.Client

open Json (Spaces Takes RawList RawObject Gives Quoted Nullable)

/-! ### Texts that are delivered -/

/-- The text consists of these pieces, one after the other. Missing ones add nothing. -/
def Joins (t : String) (pieces : List (Option String)) : Prop :=
  t.toList = pieces.flatMap fun piece => (piece.getD "").toList

/-- The response says that all is well, its body is a completion with a candidate, the first
candidate has a content, and the text consists of the parts of this content. -/
structure Delivers (status : Nat) (body : Json.Bytes) (t : String) : Prop where
  success : 200 ≤ status ∧ status < 300
  content : ∃ completion first more content,
    Json.read Completion.shape.reader body = .ok completion ∧
      completion.candidates = first :: more ∧ first.content = some content ∧
      Joins t (content.parts.map Part.text)

theorem joins_iff {t : String} {parts : List Part} :
    Joins t (parts.map Part.text) ↔ String.join (parts.filterMap Part.text) = t := by
  have hjoin : (String.join (parts.filterMap Part.text)).toList =
      (parts.map Part.text).flatMap fun piece => (piece.getD "").toList := by
    induction parts with
    | nil => rfl
    | cons part parts ih =>
        cases htext : part.text with
        | none => simpa [htext] using ih
        | some text => simp [htext, String.join_cons, ih]
  rw [Joins, ← hjoin, String.toList_inj, eq_comm]

theorem Completion.text?_eq_some_iff {c : Completion} {t : String} :
    c.text? = some t ↔ ∃ first more content, c.candidates = first :: more ∧
      first.content = some content ∧ Joins t (content.parts.map Part.text) := by
  obtain ⟨candidates⟩ := c
  cases candidates with
  | nil => simp [text?]
  | cons first more =>
      obtain ⟨content⟩ := first
      cases content with
      | none => simp [text?]
      | some content => simp [text?, joins_iff]

theorem isSuccess_iff {status : Nat} :
    Net.isSuccess status = true ↔ 200 ≤ status ∧ status < 300 := by
  simp [Net.isSuccess]

theorem understand_of_delivers {status : Nat} {body : Json.Bytes} {t : String}
    (h : Delivers status body t) : understand (.answered status body) = .reply t := by
  obtain ⟨hsuccess, completion, first, more, content, hread, hcontent⟩ := h
  have htext : completion.text? = some t :=
    Completion.text?_eq_some_iff.mpr ⟨first, more, content, hcontent⟩
  rw [understand, if_pos (isSuccess_iff.mpr hsuccess), hread]
  simp only [htext]

/-- What delivers nothing is a failure. -/
theorem understand_cases (status : Nat) (body : Json.Bytes) :
    (∃ t, Delivers status body t) ∨
      ∃ chain, understand (.answered status body) = .failure chain := by
  rw [understand]
  by_cases hsuccess : Net.isSuccess status = true
  · rw [if_pos hsuccess]
    cases hread : Json.read Completion.shape.reader body with
    | error refusal => exact .inr ⟨_, rfl⟩
    | ok completion =>
        cases htext : completion.text? with
        | none => exact .inr ⟨["Gemini returned no candidates"], by simp only [htext]⟩
        | some t =>
            obtain ⟨first, more, content, hcontent⟩ := Completion.text?_eq_some_iff.mp htext
            exact .inl ⟨t, isSuccess_iff.mp hsuccess, completion, first, more, content, hread,
              hcontent⟩
  · rw [if_neg hsuccess]
    exact .inr ⟨_, rfl⟩

theorem understand_eq_reply_iff {status : Nat} {body : Json.Bytes} {t : String} :
    understand (.answered status body) = .reply t ↔ Delivers status body t := by
  constructor
  · intro h
    rcases understand_cases status body with ⟨t', ht'⟩ | ⟨chain, hchain⟩
    · have hsame := (understand_of_delivers ht').symm.trans h
      cases hsame
      exact ht'
    · rw [hchain] at h
      cases h
  · exact understand_of_delivers

/-! ### Bodies that deliver -/

/-- A part is written as an object in which its text is under its name. -/
inductive PartText : Json.Bytes → Part → Prop where
  | object {t : Json.Bytes} {p : Part} {ms : List (String × Json.Bytes)} (members : RawObject t ms)
    (admits : Part.shape.Admits ms) (text : Gives ms "text" (Nullable Quoted) none p.text) :
    PartText t p

/-- Parts are written as a list. -/
def PartsText (t : Json.Bytes) (ps : List Part) : Prop :=
  ∃ us, RawList t us ∧ List.Forall₂ PartText us ps

inductive ContentText : Json.Bytes → Content → Prop where
  | object {t : Json.Bytes} {c : Content} {ms : List (String × Json.Bytes)}
    (members : RawObject t ms) (admits : Content.shape.Admits ms)
    (role : Gives ms "role" (Nullable Quoted) none c.role)
    (parts : Gives ms "parts" PartsText [] c.parts) : ContentText t c

inductive CandidateText : Json.Bytes → Candidate → Prop where
  | object {t : Json.Bytes} {a : Candidate} {ms : List (String × Json.Bytes)}
    (members : RawObject t ms) (admits : Candidate.shape.Admits ms)
    (content : Gives ms "content" (Nullable ContentText) none a.content) : CandidateText t a

/-- The text is read as a candidate where it stands in a completion. -/
def Decodable (t : Json.Bytes) : Prop :=
  Json.Starts t ∧ ∃ a, Takes (Candidate.shape.reader (Json.maxDepth - 2)) t a

/-- A completion, between blanks. Of its candidates only the first one is said to be written in a
certain way; the others are just read. -/
inductive CompletionText : Json.Bytes → Content → Prop where
  | object {w t w' u v : Json.Bytes} {ms : List (String × Json.Bytes)} {more : List Json.Bytes}
    {a : Candidate} {c : Content} (before : Spaces w) (after : Spaces w') (members : RawObject t ms)
    (admits : Completion.shape.Admits ms) (candidates : ("candidates", u) ∈ ms)
    (list : RawList u (v :: more)) (first : CandidateText v a) (content : a.content = some c)
    (others : ∀ v ∈ more, Decodable v) : CompletionText (w ++ (t ++ w')) c

section Reading

variable {t : Json.Bytes} (depth : Nat)

theorem takes_part {p : Part} (h : PartText t p) : Takes (Part.shape.reader (depth + 1)) t p := by
  obtain ⟨hmembers, hadmits, htext⟩ := h
  refine Json.Shape.takes_rawObject hmembers hadmits (by decide)
    (.cons (Json.Shape.supplies_of_gives htext (by decide) rfl Json.Reader.takes_nullableText)
      .nil) ?_
  simp

theorem takes_parts {ps : List Part} (h : PartsText t ps) :
    Takes (Json.Reader.list Part.shape.reader (depth + 2)) t ps := by
  obtain ⟨us, hlist, hparts⟩ := h
  refine Json.Reader.takes_rawList (fun hpart => ⟨takes_part depth hpart, ?_⟩) hlist hparts
  obtain ⟨hmembers, -, -⟩ := hpart
  exact hmembers.shows

theorem takes_content {c : Content} (h : ContentText t c) :
    Takes (Content.shape.reader (depth + 3)) t c := by
  obtain ⟨hmembers, hadmits, hrole, hparts⟩ := h
  refine Json.Shape.takes_rawObject hmembers hadmits (by decide)
    (.cons (Json.Shape.supplies_of_gives hrole (by decide) rfl Json.Reader.takes_nullableText)
      (.cons (Json.Shape.supplies_of_gives hparts (by decide) rfl (takes_parts depth)) .nil)) ?_
  simp

theorem takes_candidate {a : Candidate} (h : CandidateText t a) :
    Takes (Candidate.shape.reader (depth + 4)) t a := by
  obtain ⟨hmembers, hadmits, hcontent⟩ := h
  have hstarts {t c} (h : ContentText t c) :
      ∃ b bs, t = b :: bs ∧ Json.isSpace b = false ∧ b ≠ Json.byte 'n' := by
    obtain ⟨hmembers, -, -, -⟩ := h
    exact hmembers.starts
  refine Json.Shape.takes_rawObject hmembers hadmits (by decide)
    (.cons (Json.Shape.supplies_of_gives hcontent (by decide) rfl
      (Json.Reader.takes_nullable (takes_content depth) hstarts)) .nil) ?_
  simp

/-- The candidates of a completion are read, the first one as it is written. -/
theorem takes_candidates {v : Json.Bytes} {more : List Json.Bytes} {a : Candidate}
    (hlist : RawList t (v :: more)) (hfirst : CandidateText v a)
    (hothers : ∀ v ∈ more, Decodable v) :
    ∃ as, Takes (Json.Reader.list Candidate.shape.reader (Json.maxDepth - 1)) t (a :: as) := by
  have : Nonempty Candidate := ⟨⟨none⟩⟩
  choose! reading htakes using fun v hv => (hothers v hv).2
  have hshows : Json.Starts v := by
    obtain ⟨hmembers, -, -⟩ := hfirst
    exact hmembers.shows
  have hmore : List.Forall₂ (fun v a =>
      Takes (Candidate.shape.reader (Json.maxDepth - 2)) v a ∧ Json.Starts v) more
      (more.map reading) :=
    List.forall₂_map_right_iff.mpr (List.forall₂_same.mpr fun v hv =>
      ⟨htakes v hv, (hothers v hv).1⟩)
  exact ⟨_, Json.Reader.takes_rawList id hlist (.cons ⟨takes_candidate 121 hfirst, hshows⟩ hmore)⟩

theorem read_of_completionText {c : Content} (h : CompletionText t c) :
    ∃ completion first more, Json.read Completion.shape.reader t = .ok completion ∧
      completion.candidates = first :: more ∧ first.content = some c := by
  obtain ⟨hbefore, hafter, hmembers, hadmits, hcandidates, hlist, hfirst, hcontent, hothers⟩ := h
  obtain ⟨as, htakes⟩ := takes_candidates hlist hfirst hothers
  have hread := Json.Shape.takes_rawObject hmembers hadmits (by decide)
    (.cons (.written hcandidates (htakes.map _)) .nil) (by simp)
  have hwhole := hread _ _ hbefore (Json.ends_append hafter Json.ends_nil)
  rw [List.append_nil] at hwhole
  exact ⟨_, _, as, Json.read_eq_ok_iff.mpr ⟨_, hwhole, hafter⟩, rfl, hcontent⟩

/-- Completions deliver the text that the parts of their first candidate make up. -/
theorem delivers_of_completionText {status : Nat} (hsuccess : 200 ≤ status ∧ status < 300)
    {c : Content} (h : CompletionText t c) {text : String}
    (htext : Joins text (c.parts.map Part.text)) : Delivers status t text where
  success := hsuccess
  content := by
    obtain ⟨completion, first, more, hread, hcandidates, hcontent⟩ := read_of_completionText h
    exact ⟨completion, first, more, c, hread, hcandidates, hcontent, htext⟩

end Reading

/-! ### Time -/

/-- Something is there before the time of the settings is over. -/
structure InTime (s : ModelSettings) (response : Timed Response) : Prop where
  comes : response.value ≠ .silent
  soon : response.elapsed.toNat ≤ s.patience

theorem understand_eq_silence_iff {response : Response} :
    understand response = .silence ↔ response = .silent := by
  cases response with
  | silent => simp [understand]
  | closed => simp [understand]
  | answered status body =>
      rcases understand_cases status body with ⟨t, ht⟩ | ⟨chain, hchain⟩
      · simp [understand_of_delivers ht]
      · simp [hchain]

theorem inTime_iff {s : ModelSettings} {response : Timed Response} :
    InTime s response ↔
      (response.map understand).value ≠ .silence ∧
        (response.map understand).elapsed.toNat ≤ (reviewer s).patience := by
  rw [Timed.map, ne_eq, understand_eq_silence_iff]
  exact ⟨fun h => ⟨h.comes, h.soon⟩, fun h => ⟨h.1, h.2⟩⟩

section Time

variable {s : ModelSettings} {response : Timed Response}

theorem heard_of_inTime (h : InTime s response) :
    (reviewer s).heard (response.map understand) = response.map understand :=
  if_pos (inTime_iff.mp h)

/-- What comes too late is not told from nothing. -/
theorem heard_of_not_inTime (h : ¬ InTime s response) :
    (reviewer s).heard (response.map understand) = ⟨.silence, s.patience.toUInt64⟩ :=
  if_neg (mt inTime_iff.mpr h)

end Time

/-! ### Reviews -/

section Reviews

variable (s : ModelSettings) {request : Request}

/-- A whole request becomes one call, and what comes back is heard before it is looked at. -/
theorem review_of_complete (hrequest : ¬ request.Incomplete) (hsend : canSend s = true) :
    ∃ code language, request.code = some code ∧ request.language = some language ∧
      ((reviewer s).analyze request).via (ask s) =
        .once (call s (Reviewer.prompt (request.job code language))) fun response =>
          (reviewer s).conclude (request.job code language)
            ((reviewer s).heard (response.map understand)) := by
  obtain ⟨code, language, hcode, hlanguage, hcourse⟩ :=
    (reviewer s).analyze_of_complete hrequest
  refine ⟨code, language, hcode, hlanguage, ?_⟩
  rw [hcourse, Course.once, Course.via, ask, if_pos hsend]
  rfl

/-- What a response leads to that delivers this text. -/
def reportOf (code t : String) (elapsed : UInt64) : Report where
  issues := (Findings.ofReply t).issues
  suggestions := (Findings.ofReply t).suggestions
  metrics := Metrics.ofCode code
  processingTime := elapsed
  modelUsed := s.model

variable (job : Job) {response : Timed Response}

theorem conclude_delivered {status : Nat} {body : Json.Bytes} {t : String}
    (hresponse : response.value = .answered status body) (h : Delivers status body t) :
    (reviewer s).conclude job (response.map understand) =
      .report (reportOf s job.code t response.elapsed) := by
  rw [Reviewer.conclude, Timed.map, hresponse]
  simp only [understand_of_delivers h]
  rfl

/-- Without a delivered text there is always the same report. -/
theorem conclude_undelivered (hcomes : response.value ≠ .silent)
    (h : ∀ status body t, response.value = .answered status body → ¬ Delivers status body t) :
    (reviewer s).conclude job (response.map understand) =
      .report (.fallback (Metrics.ofCode job.code) response.elapsed) := by
  have hfailure : ∃ chain, understand response.value = .failure chain := by
    cases hvalue : response.value with
    | silent => exact absurd hvalue hcomes
    | closed => exact ⟨_, rfl⟩
    | answered status body =>
        exact (understand_cases status body).resolve_left fun ⟨t, ht⟩ => h status body t hvalue ht
  obtain ⟨chain, hchain⟩ := hfailure
  rw [Reviewer.conclude, Timed.map]
  simp only [hchain]
  rfl

end Reviews

/-- A response is a reply exactly when it delivers a text, and a failure otherwise. Of the many
bodies that deliver the same text each leads to the same report; so do all that deliver none. A
response that comes too late, or never, leads to the report that there is without one. -/
theorem review_of_completion (s : ModelSettings) :
    (∀ status body t, understand (.answered status body) = .reply t ↔ Delivers status body t) ∧
    (∀ status body, (∀ t, ¬ Delivers status body t) →
      ∃ chain, understand (.answered status body) = .failure chain) ∧
    (∀ status body content t, 200 ≤ status ∧ status < 300 → CompletionText body content →
      Joins t (content.parts.map Part.text) → Delivers status body t) ∧
    ∀ request : Request, ¬ request.Incomplete → canSend s = true →
      let course := ((reviewer s).analyze request).via (ask s)
      ∃ code call, request.code = some code ∧
        ∀ network : Call → Timed Response,
          course.questions network = [call] ∧
          (InTime s (network call) →
            (∀ status body t, (network call).value = .answered status body →
              Delivers status body t →
                course.run network = .report (reportOf s code t (network call).elapsed)) ∧
            ((∀ status body t, (network call).value = .answered status body →
              ¬ Delivers status body t) →
                course.run network =
                  .report (.fallback (Metrics.ofCode code) (network call).elapsed))) ∧
          (¬ InTime s (network call) →
            course.run network =
              .report (.fallback (Metrics.ofCode code) s.patience.toUInt64)) := by
  refine ⟨fun _ _ _ => understand_eq_reply_iff, ?_, ?_, ?_⟩
  · intro status body hnone
    exact (understand_cases status body).resolve_left fun ⟨t, ht⟩ => hnone t ht
  · intro status body content t hsuccess hbody hjoins
    exact delivers_of_completionText hsuccess hbody hjoins
  · intro request hrequest hsend
    obtain ⟨code, language, hcode, -, hcourse⟩ := review_of_complete s hrequest hsend
    dsimp only
    rw [hcourse]
    refine ⟨code, _, hcode, fun network => ⟨rfl, fun htime => ?_, fun hlate => ?_⟩⟩
    · rw [Course.run_once, heard_of_inTime htime]
      refine ⟨fun status body t hresponse hdelivers => ?_, fun hnone => ?_⟩
      · exact conclude_delivered s _ hresponse hdelivers
      · exact conclude_undelivered s _ htime.comes hnone
    · rw [Course.run_once, heard_of_not_inTime hlate]
      rfl

/-- A completion whose text is cut in two, with a part between that has no text, and a candidate
behind that has no content. -/
def cutBody : Json.Bytes :=
  Text.bytes ("\x7b\"candidates\":[\x7b\"content\":\x7b\"parts\":[" ++
    "\x7b\"text\":\"\x7b\"\x7d,\x7b\"thought\":true\x7d,\x7b\"text\":\"\x7d\"\x7d" ++
    "]\x7d\x7d,\x7b\"finishReason\":\"STOP\"\x7d]\x7d")

theorem completionText_cutBody :
    CompletionText cutBody ⟨none, [⟨some "\x7b"⟩, ⟨none⟩, ⟨some "\x7d"⟩]⟩ := by
  have hpart (t : String) : PartText _ ⟨some t⟩ :=
    .object (Json.rawObject_member "text" _)
      (Json.Shape.admits_member fun h => absurd (by decide) h)
      (.inr ⟨_, List.mem_singleton_self _, .value ⟨_, rfl, Json.spells_quoteTail t⟩⟩)
  have hthought : PartText _ ⟨none⟩ :=
    .object (Json.rawObject_member "thought" _)
      (Json.Shape.admits_member fun _ => ⟨0, .bool true⟩) (.inl ⟨by decide, rfl⟩)
  have hparts : PartsText _ [⟨some "\x7b"⟩, ⟨none⟩, ⟨some "\x7d"⟩] :=
    ⟨_, ⟨_, rfl, .items (.more Json.spaces_nil rfl Json.spaces_nil
      (.more Json.spaces_nil rfl Json.spaces_nil
        (.last Json.spaces_nil rfl Json.spaces_nil)))⟩,
      .cons (hpart "\x7b") (.cons hthought (.cons (hpart "\x7d") .nil))⟩
  have hcontent : ContentText _ ⟨none, [⟨some "\x7b"⟩, ⟨none⟩, ⟨some "\x7d"⟩]⟩ :=
    .object (Json.rawObject_member "parts" _)
      (Json.Shape.admits_member fun h => absurd (by decide) h) (.inl ⟨by decide, rfl⟩)
      (.inr ⟨_, List.mem_singleton_self _, hparts⟩)
  have hfirst : CandidateText _ ⟨some _⟩ :=
    .object (Json.rawObject_member "content" _)
      (Json.Shape.admits_member fun h => absurd (by decide) h)
      (.inr ⟨_, List.mem_singleton_self _, .value hcontent⟩)
  have hother : CandidateText _ ⟨none⟩ :=
    .object (Json.rawObject_member "finishReason" _)
      (Json.Shape.admits_member fun _ => ⟨0, .text (Json.spells_quoteTail "STOP").form⟩)
      (.inl ⟨by decide, rfl⟩)
  have hdecodable : Decodable _ :=
    ⟨(Json.rawObject_member "finishReason" _).shows, _, takes_candidate 121 hother⟩
  have h := CompletionText.object Json.spaces_nil Json.spaces_nil
    (Json.rawObject_member "candidates" _)
    (Json.Shape.admits_member fun h => absurd (by decide) h) (List.mem_singleton_self _)
    ⟨_, rfl, .items (.more Json.spaces_nil rfl Json.spaces_nil
      (.last Json.spaces_nil rfl Json.spaces_nil))⟩
    hfirst rfl (List.forall_mem_singleton.mpr hdecodable)
  convert h using 1
  decide +kernel

/-- The completion amounts to the same as its text in one piece. With another status it amounts to
nothing, and so it does when it comes after more than half a minute. -/
theorem review_of_completion_cut :
    let s := ModelSettings.default
    let request : Request := { code := some "x = 1", language := some "python" }
    let course := ((reviewer s).analyze request).via (ask s)
    ¬ request.Incomplete ∧ canSend s = true ∧
      course.run (fun _ => ⟨.answered 200 cutBody, 12⟩) =
        .report (reportOf s "x = 1" "\x7b\x7d" 12) ∧
      course.run (fun _ => ⟨.answered 404 cutBody, 12⟩) =
        .report (.fallback (Metrics.ofCode "x = 1") 12) ∧
      course.run (fun _ => ⟨.answered 200 cutBody, 30001⟩) =
        .report (.fallback (Metrics.ofCode "x = 1") 30000) := by
  intro s request course
  have hcomplete : ¬ request.Incomplete := by
    rw [Request.Incomplete, not_or, Request.not_lacking_iff, Request.not_lacking_iff]
    exact ⟨⟨_, rfl, by decide⟩, _, rfl, by decide⟩
  have hsend : canSend s = true := by decide +kernel
  obtain ⟨-, -, hdelivers, hreview⟩ := review_of_completion s
  have hpatience : (12 : UInt64).toNat ≤ s.patience ∧ s.patience < (30001 : UInt64).toNat := by
    decide +kernel
  have hsoon {status : Nat} : InTime s ⟨.answered status cutBody, 12⟩ :=
    ⟨by simp, hpatience.1⟩
  obtain ⟨code, call, hcode, hruns⟩ := hreview request hcomplete hsend
  cases hcode
  refine ⟨hcomplete, hsend, ?_, ?_, ?_⟩
  · have hjoins : Joins "\x7b\x7d" [some "\x7b", none, some "\x7d"] := by
      simp [Joins]
    exact ((hruns _).2.1 hsoon).1 200 cutBody _ rfl
      (hdelivers 200 cutBody _ _ (by decide) completionText_cutBody hjoins)
  · refine ((hruns _).2.1 hsoon).2 fun status _ _ hresponse hdelivers => ?_
    cases hresponse
    exact absurd hdelivers.success (by decide)
  · have hlate : ¬ InTime s ⟨.answered 200 cutBody, 30001⟩ := fun h =>
      absurd h.soon (Nat.not_le.mpr hpatience.2)
    have hwaited : s.patience.toUInt64 = 30000 := by decide +kernel
    exact hwaited ▸ (hruns fun _ => ⟨.answered 200 cutBody, 30001⟩).2.2 hlate

end CodeReview.Client
