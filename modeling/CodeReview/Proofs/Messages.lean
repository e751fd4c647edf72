import CodeReview.Invocation
import CodeReview.Proofs.Report.Wire

/-!
Messages on the wire. Requests, reports, events and the responses to them are read back from what
they are written as, whatever is absent in them and whatever characters are in their texts.
-/

namespace CodeReview

open Json (Readable Reads)
open Json.Shape (fills_member fills_member?)

/-! ### Tables -/

namespace Assoc

variable {α : Type}

/-- An entry behind all others is put at the end. -/
theorem putSorted_of_forall_lt {key : String} {value : α} {entries : List (String × α)}
    (h : ∀ e ∈ entries, e.1 < key) : putSorted key value entries = entries ++ [(key, value)] := by
  induction entries with
  | nil => rfl
  | cons entry entries ih =>
      obtain ⟨hlt, hrest⟩ := List.forall_mem_cons.mp h
      rw [putSorted, if_neg (ne_of_lt hlt), if_neg (lt_asymm hlt), ih hrest]
      rfl

/-- Entries in their order stay as they come. -/
theorem foldl_putSorted {entries more : List (String × α)}
    (h : (entries ++ more).Pairwise fun e e' => e.1 < e'.1) :
    more.foldl (fun es e => putSorted e.1 e.2 es) entries = entries ++ more := by
  induction more generalizing entries with
  | nil => exact (List.append_nil entries).symm
  | cons entry more ih =>
      have hlast : ∀ e ∈ entries, e.1 < entry.1 := fun e he =>
        (List.pairwise_append.mp h).2.2 e he entry List.mem_cons_self
      rw [List.foldl_cons, putSorted_of_forall_lt hlast, ih]
      · rw [List.append_assoc]
        rfl
      · rw [List.append_assoc]
        exact h

end Assoc

namespace Json

variable {P : Number → Prop}

/-- A table is read as its entries, when they are in order. -/
theorem reads_table {entries : List (String × String)}
    (h : entries.Pairwise fun e e' => e.1 < e'.1) :
    Reads P .table (.object (entries.map fun e => (e.1, .text e.2))) entries := by
  intro depth t ht w rest hw _
  obtain ⟨d, ts, rfl, rfl, -, hbody⟩ := object_of_derives ht
  have htexts : ObjectBody Spells (fun _ => Takes (Reader.text d)) ts entries := by
    refine hbody.imp (List.forall₂_map_left_iff.mpr (List.forall₂_same.mpr fun e _ =>
      ⟨fun _ hn => hn, fun t ht => ?_⟩))
    exact reads_text e.2 d t ht
  obtain ⟨hopen, hhead⟩ := scalarLeaves.head_object hw (ts ++ rest)
  obtain ⟨hshort, hread⟩ := membersFrom_body htexts
    (Reader.membersRun_gather Assoc.putSorted [] entries) hopen
  rw [Assoc.foldl_putSorted (show ([] ++ entries).Pairwise _ from h)] at hread
  rw [List.cons_append]
  refine ⟨hshort, ?_⟩
  simp only [Reader.table, head, hhead, bind, Except.bind]
  exact hread

theorem reads_orNull (text : Option String) :
    Reads P (.optional .text) (orNull (text.map .text)) text := by
  cases text with
  | none => exact reads_none .text
  | some s => exact reads_optionalText s

theorem readable_orNull {depth : Nat} (text : Option String) :
    Readable P depth (orNull (text.map .text)) := by
  cases text with
  | none => simp [orNull, Readable]
  | some s => exact readable_text s

end Json

/-! ### What is written -/

section Readable

variable {P : Json.Number → Prop} {depth : Nat}

theorem Request.readable (r : Request) : Readable P (depth + 2) r.toJson := by
  rw [toJson, Json.readable_object_iff]
  constructor
  · cases r.filename <;> cases r.provider <;> cases r.focus <;> simp [Json.member?]
  · simp only [List.forall_mem_append, List.forall_mem_cons, Json.forall_mem_member?]
    exact ⟨⟨⟨⟨Json.readable_orNull _, Json.readable_orNull _, List.forall_mem_nil _⟩,
      fun s _ => Json.readable_text s⟩, fun p _ => Json.readable_text _⟩,
      fun ts _ => Json.readable_list_iff.mpr
        (List.forall_mem_map.mpr fun s _ => Json.readable_text s)⟩

namespace Invocation

theorem Event.readable (e : Event) : Readable P (depth + 1) e.toJson := by
  rw [toJson, Json.readable_object_iff]
  refine ⟨by simp, ?_⟩
  simp only [List.forall_mem_cons]
  exact ⟨Json.readable_text _, Json.readable_orNull _, List.forall_mem_nil _⟩

theorem Response.readable (hword : ∀ n : Nat, n < 2 ^ 64 → P (.integer n)) (r : Response)
    (hsorted : r.headers.Pairwise fun h h' => h.1 < h'.1) :
    Readable P (depth + 2) r.toJson := by
  have hnames : ((r.headers.map fun h => (h.1, Json.text h.2)).map Prod.fst).Nodup := by
    rw [List.map_map, List.Nodup, List.pairwise_map]
    exact hsorted.imp ne_of_lt
  rw [toJson, Json.readable_object_iff]
  refine ⟨by simp, ?_⟩
  simp only [List.forall_mem_cons]
  exact ⟨Json.readable_number (hword _ (Nat.lt_trans r.status.toNat_lt (by decide))),
    Json.readable_object_iff.mpr
      ⟨hnames, List.forall_mem_map.mpr fun h _ => Json.readable_text h.2⟩,
    Json.readable_text _, List.forall_mem_nil _⟩

end Invocation

end Readable

/-! ### What is read -/

section Reads

variable {P : Json.Number → Prop}

namespace Invocation

theorem Event.reads (e : Event) : Reads P Event.shape.reader e.toJson e := by
  refine Json.Shape.reads_record (.cons (fills_member rfl (Json.reads_text _)) <|
    .cons (fills_member rfl (Json.reads_orNull _)) .nil) ?_ ?_
  · simp [Json.Shape.Complete, shape, Json.member]
  · rfl

end Invocation

variable (hkept : ∀ n, P n → n.Kept)
include hkept

theorem Request.reads (r : Request) : Reads P Request.shape.reader r.toJson r := by
  have texts (ts : List String) : Reads P (.optional (.list .text)) (Json.ofTexts ts) (some ts) :=
    Json.reads_some hkept Json.noConfusion (Json.reads_list (List.forall₂_map_left_iff.mpr
      (List.forall₂_same.mpr fun s _ => Json.reads_text s)))
  have provider (p : Provider) :
      Reads P (.optional Vocabulary.reader) (Vocabulary.toJson p) (some p) :=
    Json.reads_some hkept Json.noConfusion (reads_name p)
  refine Json.Shape.reads_record (List.rel_append (List.rel_append (List.rel_append
    (.cons (fills_member rfl (Json.reads_orNull _)) <|
      .cons (fills_member rfl (Json.reads_orNull _)) .nil)
    (fills_member? fun _ => fills_member rfl (reads_optionalText _)))
    (fills_member? fun _ => fills_member rfl (provider _)))
    (fills_member? fun _ => fills_member rfl (texts _))) ?_ ?_
  · simp [Json.Shape.Complete, shape, Json.member]
  · obtain ⟨code, language, filename, provider, focus⟩ := r
    cases filename <;> cases provider <;> cases focus <;> rfl

namespace Invocation

theorem Response.reads (r : Response) (hsorted : r.headers.Pairwise fun h h' => h.1 < h'.1) :
    Reads P Response.shape.reader r.toJson r := by
  have status : Reads P .port (.ofNat r.status.toNat) r.status.toNat :=
    Json.reads_natural hkept _ (Nat.le_of_lt_succ r.status.toNat_lt)
  refine Json.Shape.reads_record (.cons (fills_member rfl status) <|
    .cons (fills_member rfl (Json.reads_table hsorted)) <|
    .cons (fills_member rfl (Json.reads_text _)) .nil) ?_ ?_
  · simp [Json.Shape.Complete, shape, Json.member]
  · simp [shape]

end Invocation

end Reads

/-! ### Whole messages -/

/-- A request is read back from every encoding of it. -/
theorem Request.readText_encoded (r : Request) {t : String}
    (ht : Json.Encodes Json.Number.Kept t r.toJson) : Json.readText shape.reader t = .ok r :=
  (r.reads fun _ => id).readText ht r.readable

/-- What is written as this value is read back, from one line and from many lines. -/
structure ReadBack {α : Type} (r : Json.Reader α) (v : Json) (a : α) : Prop where
  compact : Json.readText r (Json.compact v) = .ok a
  indented : Json.readText r (Json.indented v) = .ok a

theorem readBack_of_reads {α : Type} {r : Json.Reader α} {v : Json} {a : α}
    (h : Reads Json.Number.Kept r v a) (hv : Readable Json.Number.Kept Json.maxDepth v) :
    ReadBack r v a where
  compact := h.readText (Json.encodes_compact hv) hv
  indented := h.readText (Json.encodes_indented hv) hv

/-- All messages are read back: every request and every event, every report with floats whose texts
are read back, which only those of finite floats are, and every response with headers that are
sorted by name. -/
theorem readBack_messages :
    (∀ r : Request, ReadBack Request.shape.reader r.toJson r) ∧
    (∀ r : Report, (∀ x ∈ r.floats, Json.Survives x) → ReadBack Report.shape.reader r.toJson r) ∧
    (∀ e : Invocation.Event, ReadBack Invocation.Event.shape.reader e.toJson e) ∧
    ∀ r : Invocation.Response, (r.headers.Pairwise fun h h' => h.1 < h'.1) →
      ReadBack Invocation.Response.shape.reader r.toJson r := by
  have hkept : ∀ n : Json.Number, n.Kept → n.Kept := fun _ => id
  refine ⟨fun r => ?_, fun r hfloats => ?_, fun e => ?_, fun r hsorted => ?_⟩
  · exact readBack_of_reads (r.reads hkept) r.readable
  · exact readBack_of_reads (r.reads hkept) (r.readable_kept hfloats)
  · exact readBack_of_reads e.reads e.readable
  · exact readBack_of_reads (r.reads hkept hsorted) (r.readable Json.Number.kept_word hsorted)

/-- A report and a response with empty texts, with escapes, control characters and a line separator
in their texts, and with the largest numbers that they can hold. -/
theorem readBack_messages_half :
    let suggestion : Suggestion :=
      { id := "s", title := "\u0000\"", description := "", kind := .renameVariable,
        location := ⟨1, 0, 4294967295, 7⟩, originalCode := "\\u0041", refactoredCode := "\x7f😀",
        confidence := 0.5, impact := .low }
    let report : Report :=
      { issues := [], suggestions := [suggestion], metrics := ⟨3, 1, 98, 0.5, none⟩,
        processingTime := 18446744073709551615, modelUsed := "" }
    let response : Invocation.Response :=
      ⟨65535, [("", "x"), ("Allow", ""), ("allow", "\t"), ("é", "y")], "\u2028\x7b"⟩
    (∀ x ∈ report.floats, Json.Survives x) ∧
      (response.headers.Pairwise fun h h' => h.1 < h'.1) ∧
      Json.readText Report.shape.reader (Json.indented report.toJson) = .ok report ∧
      Json.readText Invocation.Response.shape.reader (Json.compact response.toJson) =
        .ok response := by
  intro suggestion report response
  have hfloats : ∀ x ∈ report.floats, Json.Survives x := by
    have h : report.floats = [0.5, 0.5] := rfl
    rw [h]
    simp [Json.survives_half]
  have hsorted : response.headers.Pairwise fun h h' => h.1 < h'.1 := by decide
  obtain ⟨-, hreport, -, hresponse⟩ := readBack_messages
  exact ⟨hfloats, hsorted, (hreport report hfloats).indented, (hresponse response hsorted).compact⟩

end CodeReview
