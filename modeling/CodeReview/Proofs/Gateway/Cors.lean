import CodeReview.Proofs.Gateway

/-!
Which web sites are let in. Every list of sites has a policy, whatever is in it. A response names
everyone when the list does, the site of the request when the list holds that site, and no site
otherwise. Entries that cannot stand in a header let nobody in and keep nobody out.
-/

namespace CodeReview

/-! ### Headers -/

namespace Http

/-- The values of the headers with a name, in their order. -/
def valuesOf (name : String) (headers : List (String × String)) : List String :=
  (headers.filter fun h => h.1 = name).map Prod.snd

/-- The sites that a response lets in. -/
def Response.letsIn (r : Response) : List String :=
  valuesOf "access-control-allow-origin" r.headers

@[simp] theorem valuesOf_nil (name : String) : valuesOf name [] = [] := rfl

@[simp] theorem valuesOf_cons (name : String) (h : String × String)
    (headers : List (String × String)) :
    valuesOf name (h :: headers) = (if h.1 = name then [h.2] else []) ++ valuesOf name headers := by
  simp only [valuesOf, List.filter_cons, decide_eq_true_eq]
  split <;> rfl

@[simp] theorem valuesOf_append (name : String) (hs hs' : List (String × String)) :
    valuesOf name (hs ++ hs') = valuesOf name hs ++ valuesOf name hs' := by
  simp [valuesOf]

theorem valuesOf_eq_nil {name : String} {headers : List (String × String)}
    (h : ∀ header ∈ headers, header.1 ≠ name) : valuesOf name headers = [] := by
  simpa [valuesOf] using h

theorem Response.letsIn_withHeaders (hs : List (String × String)) (r : Response) :
    (r.withHeaders hs).letsIn = r.letsIn ++ valuesOf "access-control-allow-origin" hs :=
  valuesOf_append _ _ _

end Http

/-! ### Policies -/

namespace Cors

open Net (isHeaderValue)

theorem Policy.ofOrigins?_eq (origins : List String) :
    ofOrigins? origins = some (ofOrigins origins) :=
  (Option.some_get _).symm

theorem Policy.ofOrigins_of_mem {origins : List String} (h : "*" ∈ origins) :
    ofOrigins origins = .anyone := by
  have hpolicy := ofOrigins?_eq origins
  rw [ofOrigins?, if_pos h] at hpolicy
  exact (Option.some.inj hpolicy).symm

theorem Policy.ofOrigins_of_notMem {origins : List String} (h : "*" ∉ origins) :
    ofOrigins origins = .only (origins.filter isHeaderValue) := by
  have hpolicy := ofOrigins?_eq origins
  rw [ofOrigins?, if_neg h, list?, if_neg fun hmem => h (List.mem_filter.mp hmem).1] at hpolicy
  exact (Option.some.inj hpolicy).symm

/-- A policy depends only on the entries that can stand in a header. -/
theorem Policy.ofOrigins_congr {origins origins' : List String}
    (h : origins'.filter isHeaderValue = origins.filter isHeaderValue) :
    ofOrigins origins' = ofOrigins origins := by
  have hstar : isHeaderValue "*" = true := by decide +kernel
  have hmem : "*" ∈ origins' ↔ "*" ∈ origins := by
    have hvalid (l : List String) : "*" ∈ l.filter isHeaderValue ↔ "*" ∈ l := by
      simp [hstar]
    rw [← hvalid, h, hvalid]
  by_cases hanyone : "*" ∈ origins
  · rw [ofOrigins_of_mem hanyone, ofOrigins_of_mem (hmem.mpr hanyone)]
  · rw [ofOrigins_of_notMem hanyone, ofOrigins_of_notMem (hanyone ∘ hmem.mp), h]

theorem Policy.allowOrigin?_ofOrigins (origins : List String) {o : String}
    (h : isHeaderValue o = true) :
    (ofOrigins origins).allowOrigin? (some o) =
      if "*" ∈ origins then some "*" else if o ∈ origins then some o else none := by
  by_cases hanyone : "*" ∈ origins
  · rw [ofOrigins_of_mem hanyone, if_pos hanyone]
    rfl
  · rw [ofOrigins_of_notMem hanyone, if_neg hanyone, allowOrigin?]
    simp [Option.filter, h]

/-- A policy adds one header that lets a site in, or none. -/
theorem Policy.valuesOf_headers (policy : Policy) (r : Http.Request) :
    Http.valuesOf "access-control-allow-origin" (policy.headers r) =
      (policy.allowOrigin? (r.header? "origin")).toList := by
  have hdetails : Http.valuesOf "access-control-allow-origin"
      (policy.details (r.method = "OPTIONS") ++ [vary]) = [] := by
    refine Http.valuesOf_eq_nil ?_
    cases policy <;> cases decide (r.method = "OPTIONS") <;> simp [details, vary]
  rw [headers, List.append_assoc, Http.valuesOf_append, hdetails, List.append_nil]
  cases policy.allowOrigin? (r.header? "origin") with
  | none => rfl
  | some value => rfl

/-- The characters are those of ASCII that can be seen, and blanks. -/
def Visible (s : String) : Prop :=
  ∀ c ∈ s.toList, 0x20 ≤ c.toNat ∧ c.toNat ≤ 0x7E

theorem Visible.isHeaderValue {s : String} (h : Visible s) : isHeaderValue s = true := by
  have hascii : ∀ c ∈ s.toList, c.toNat < 128 := fun c hc => Nat.lt_succ_of_le
    (Nat.le_succ_of_le (h c hc).2)
  have hbytes := Text.bytes_ascii hascii
  rw [String.ofList_toList] at hbytes
  rw [Net.isHeaderValue, hbytes, List.all_map, List.all_eq_true]
  intro c hc
  have hbyte := Text.toNat_toUInt8 (hascii c hc)
  obtain ⟨hlow, hhigh⟩ := h c hc
  have hle : (32 : UInt8) ≤ c.toUInt8 := by
    rw [UInt8.le_iff_toNat_le, hbyte]
    exact hlow
  have hne : c.toUInt8 ≠ 127 := by
    intro heq
    rw [heq] at hbyte
    have hdelete : (127 : UInt8).toNat = 127 := rfl
    omega
  simp [hle, hne]

end Cors

/-! ### Responses -/

namespace Gateway

/-- Nothing is said about web sites: there are no headers but those of the content and of the
methods. -/
def Plain (r : Http.Response) : Prop :=
  ∀ h ∈ r.headers, h.1 = "content-type" ∨ h.1 = "allow"

theorem Plain.letsIn_eq {r : Http.Response} (h : Plain r) : r.letsIn = [] := by
  refine Http.valuesOf_eq_nil fun header hmem heq => ?_
  rcases h header hmem with hname | hname <;> rw [hname] at heq <;> exact absurd heq (by decide)

theorem plain_bare (status : UInt16) : Plain (.bare status) :=
  fun _ h => absurd h List.not_mem_nil

theorem plain_json (status : UInt16) (body : String) : Plain (.json status body) := by
  intro h hmem
  rw [List.mem_singleton.mp hmem]
  exact .inl rfl

theorem plain_notAllowed (route : Route) : Plain (notAllowed route) := by
  intro h hmem
  rw [List.mem_singleton.mp hmem]
  exact .inr rfl

theorem plain_ofOutcome (outcome : Outcome) : Plain (ofOutcome outcome) := by
  cases outcome <;> exact plain_json _ _

theorem plain_analyze (reviewer : Reviewer) (r : Http.Request) (model : String → Reaction) :
    Plain ((analyze reviewer r).run model) := by
  rw [analyze]
  cases extract r with
  | error reason => exact plain_json _ _
  | ok request =>
      dsimp only
      rw [Course.run_map]
      exact plain_ofOutcome _

/-- Without the policy no response says anything about web sites. -/
theorem plain_answer (reviewer : Reviewer) (now : String) (r : Http.Request)
    (model : String → Reaction) : Plain ((answer reviewer now r).run model) := by
  rw [answer]
  cases Route.ofPath? r.path with
  | none =>
      dsimp only
      split <;> exact plain_bare _
  | some route =>
      dsimp only
      split
      · intro h hmem
        rw [List.mem_singleton.mp hmem]
        exact .inr rfl
      cases route with
      | health =>
          dsimp only
          split
          · exact plain_json _ _
          split
          · exact plain_json 200 (healthBody now)
          · exact plain_notAllowed .health
      | analyze =>
          dsimp only
          split
          · exact plain_analyze reviewer r model
          · exact plain_notAllowed .analyze

theorem letsIn_handle (origins : List String) (reviewer : Reviewer) (now : String)
    (r : Http.Request) (model : String → Reaction) :
    ((handle origins reviewer now r).run model).letsIn =
      ((Cors.Policy.ofOrigins origins).allowOrigin? (r.header? "origin")).toList := by
  rw [handle, Course.run_map, Http.Response.letsIn_withHeaders,
    (plain_answer reviewer now r model).letsIn_eq, List.nil_append, Cors.Policy.valuesOf_headers]

/-- Every list of sites has a policy: no `*` comes as far as the list of those that are let in.
Every request with the name of a site, one that only asks or any other, is answered with `*` when
the list holds a `*`, with this very site when the list holds it, and without the header otherwise.
Entries that cannot stand in a header change no response. -/
theorem handle_letsIn (origins : List String) :
    Cors.Policy.ofOrigins? origins = some (Cors.Policy.ofOrigins origins) ∧
    (∀ (reviewer : Reviewer) (now : String) (r : Http.Request) (model : String → Reaction)
      (o : String), r.header? "origin" = some o → Cors.Visible o →
      ((handle origins reviewer now r).run model).letsIn =
        if "*" ∈ origins then ["*"] else if o ∈ origins then [o] else []) ∧
    ∀ origins', origins'.filter Net.isHeaderValue = origins.filter Net.isHeaderValue →
      ∀ (reviewer : Reviewer) (now : String) (r : Http.Request),
        handle origins' reviewer now r = handle origins reviewer now r := by
  refine ⟨Cors.Policy.ofOrigins?_eq origins, fun reviewer now r model o horigin ho => ?_,
    fun origins' h reviewer now r => ?_⟩
  · rw [letsIn_handle, horigin, Cors.Policy.allowOrigin?_ofOrigins origins ho.isHeaderValue]
    split
    · rfl
    · split <;> rfl
  · rw [handle, handle, Cors.Policy.ofOrigins_congr h]

/-- A site that is listed between entries of other kinds, and one that differs from it by a slash.
With a `*` behind an entry that cannot stand in a header, both are let in. -/
theorem handle_letsIn_slash :
    let reviewer : Reviewer := ⟨"gemini-pro", 30000⟩
    let origins := ["", " *", "http://a\n", "http://a", "http://a"]
    let asks (o : String) : Http.Request := ⟨"OPTIONS", "/api/analyze", [("Origin", o)], []⟩
    let lets (origins : List String) (o : String) : List String :=
      ((handle origins reviewer "" (asks o)).run fun _ => ⟨.silence, 0⟩).letsIn
    lets origins "http://a" = ["http://a"] ∧ lets origins "http://a/" = [] ∧
      lets ["http://a\n", "*"] "http://a/" = ["*"] ∧
      lets ["http://a"] "http://a" = lets ["\n", "http://a"] "http://a" := by
  intro reviewer origins asks lets
  have hsite : Cors.Visible "http://a" := by
    simp [Cors.Visible]
  have hother : Cors.Visible "http://a/" := by
    simp [Cors.Visible]
  have hheader (o : String) : (asks o).header? "origin" = some o := by
    have hname : Text.lowerAscii "Origin" = "origin" := by decide +kernel
    simp [asks, Http.Request.header?, hname]
  obtain ⟨-, hlets, -⟩ := handle_letsIn origins
  obtain ⟨-, hstar, -⟩ := handle_letsIn ["http://a\n", "*"]
  obtain ⟨-, -, hsame⟩ := handle_letsIn ["\n", "http://a"]
  have hfilter : ["http://a"].filter Net.isHeaderValue =
      ["\n", "http://a"].filter Net.isHeaderValue := by
    decide +kernel
  refine ⟨?_, ?_, ?_, ?_⟩
  · exact (hlets reviewer "" (asks "http://a") _ "http://a" (hheader _) hsite).trans (by decide)
  · exact (hlets reviewer "" (asks "http://a/") _ "http://a/" (hheader _) hother).trans (by decide)
  · exact (hstar reviewer "" (asks "http://a/") _ "http://a/" (hheader _) hother).trans (by decide)
  · exact congrArg (fun course => (course.run fun _ => ⟨.silence, 0⟩).letsIn)
      (hsame ["http://a"] hfilter reviewer "" (asks "http://a"))

end Gateway

end CodeReview
