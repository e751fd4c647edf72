import CodeReview.Proofs.Json.Reader

/-!
What is passed over is exactly one value of the syntax, as deep as it may be. Since passing over is
a function of the text, a text starts with at most one value that shows its own end.
-/

namespace CodeReview.Json

/-- The value is passed over, after blanks and before anything that ends it. -/
def Passes (t : Bytes) : Prop :=
  ∀ start outer w rest h, Spaces w → Ends rest →
    ∃ h', skipFrom start .value outer (w ++ (t ++ rest)) h = skipFrom start .closed outer rest h'

/-! ### Scalars -/

theorem finds_scalarForm {t : Bytes} (h : ScalarForm t) {w rest : Bytes} (hw : Spaces w)
    (hrest : Ends rest) : Finds (skippedLeaves.head (w ++ (t ++ rest))) () rest := by
  cases h with
  | null => exact skippedLeaves.head_null hw
  | bool b => exact skippedLeaves.head_bool hw b
  | number valid exponent =>
      exact skippedLeaves.head_numeral hw valid
        ((Numeral.scanNumeral_form .badNumber valid exponent hrest).map fun _ => ())
  | text h => exact skippedLeaves.head_text hw (skipText_form h (Nat.le_refl _))

theorem skipFrom_scalar {start s rest : Bytes} (h : Finds (skippedLeaves.head s) () rest)
    (outer : List Container) (hlong) :
    ∃ h', skipFrom start .value outer s hlong = skipFrom start .closed outer rest h' := by
  obtain ⟨hshort, hhead⟩ := h
  refine ⟨by omega, ?_⟩
  rw [skipFrom]
  simp only [hhead, bind, Except.bind]

theorem passes_scalar {t : Bytes} (h : ScalarForm t) : Passes t :=
  fun _ outer _ _ hlong hw hrest => skipFrom_scalar (finds_scalarForm h hw hrest) outer hlong

/-! ### Lists -/

/-- An opening bracket is put on top of the open containers. -/
theorem skipFrom_container {start s : Bytes} {c : Container} {p : Parsed Unit s}
    (hhead : skippedLeaves.head s = .ok (.container c p)) (outer : List Container) (hlong) :
    ∃ h', skipFrom start .value outer s hlong = skipFrom start .opened (c :: outer) p.rest h' := by
  refine ⟨by have := p.shorter; omega, ?_⟩
  rw [skipFrom]
  simp only [hhead, bind, Except.bind]

section Lists

variable {α : Type} {item : Bytes → α → Prop} (hpasses : ∀ {t a}, item t a → Passes t)
include hpasses

/-- The items of a list are passed over together with its closing bracket. -/
theorem skipFrom_items {ts : Bytes} {as : List α} (h : ListText item ts as) (start : Bytes)
    (outer : List Container) (rest s : Bytes) (hs : s = ts ++ rest) (hlong) :
    ∃ h', skipFrom start .value (.list :: outer) s hlong =
      skipFrom start .closed outer rest h' := by
  induction h generalizing s with
  | @last w t w' a before value after =>
      obtain rfl : s = w ++ (t ++ (w' ++ byte ']' :: rest)) := by simp [hs]
      obtain ⟨h₁, hitem⟩ := hpasses value start (.list :: outer) w (w' ++ byte ']' :: rest) hlong
        before (ends_append after ends_listEnd)
      obtain ⟨h₂, hnext⟩ := next_append rest after (show isSpace (byte ']') = false by decide)
      refine ⟨by simp at h₁; omega, ?_⟩
      have hcomma : byte ']' ≠ byte ',' := by decide
      rw [hitem, skipFrom]
      simp only [hnext, hcomma, Container.closing, if_false, if_true]
  | @more w t w' ts a as before value after hts ih =>
      obtain rfl : s = w ++ (t ++ (w' ++ byte ',' :: (ts ++ rest))) := by simp [hs]
      obtain ⟨h₁, hitem⟩ := hpasses value start (.list :: outer) w (w' ++ byte ',' :: (ts ++ rest))
        hlong before (ends_append after ends_comma)
      obtain ⟨h₂, hnext⟩ := next_append (ts ++ rest) after
        (show isSpace (byte ',') = false by decide)
      obtain ⟨h₃, hloop⟩ := ih (ts ++ rest) rfl (by simp at h₁; omega)
      refine ⟨h₃, ?_⟩
      rw [hitem, skipFrom]
      simp only [hnext, if_true, hloop]

theorem skipFrom_list (hstarts : ∀ {t a}, item t a → Starts t) {ts : Bytes} {as : List α}
    (h : ListBody item ts as) (start : Bytes) (outer : List Container) (rest s : Bytes)
    (hs : s = ts ++ rest) (hlong : s.length < start.length) :
    ∃ h', skipFrom start .opened (.list :: outer) s (.inl hlong) =
      skipFrom start .closed outer rest h' := by
  rw [skipFrom.eq_def]
  dsimp only
  cases h with
  | @empty w blank =>
      obtain rfl : s = w ++ byte ']' :: rest := by simp [hs]
      obtain ⟨h₁, hnext⟩ := next_append rest blank (show isSpace (byte ']') = false by decide)
      refine ⟨by omega, ?_⟩
      simp only [hnext, Container.closing, if_true]
  | items h =>
      subst hs
      obtain ⟨b, us, h₁, hnext, hend⟩ := h.next hstarts rest
      obtain ⟨h₂, hitems⟩ := skipFrom_items hpasses h start outer rest _ rfl (.inl hlong)
      refine ⟨h₂, ?_⟩
      simp only [hnext, Container.closing, hend, if_false, hitems]

/-- A complete list is passed over, whatever follows it. -/
theorem skipFrom_brackets (hstarts : ∀ {t a}, item t a → Starts t) {ts : Bytes} {as : List α}
    (h : ListBody item ts as) {w : Bytes} (hw : Spaces w) (start : Bytes) (outer : List Container)
    (rest : Bytes) (hlong) :
    ∃ h', skipFrom start .value outer (w ++ byte '[' :: (ts ++ rest)) hlong =
      skipFrom start .closed outer rest h' := by
  obtain ⟨hopen, hhead⟩ := skippedLeaves.head_list hw (ts ++ rest)
  obtain ⟨h₁, hvalue⟩ := skipFrom_container hhead outer hlong
  obtain ⟨h₂, hbody⟩ :=
    skipFrom_list hpasses hstarts h start outer rest (ts ++ rest) rfl (by simpa using h₁)
  exact ⟨h₂, hvalue.trans hbody⟩

end Lists

/-! ### Objects -/

theorem skipKey_append {w n w₁ : Bytes} (hw : Spaces w) (hn : TextForm n) (h₁ : Spaces w₁)
    (rest : Bytes) :
    Yields (skipKey (w ++ byte '"' :: (n ++ (w₁ ++ byte ':' :: rest)))) () rest := by
  obtain ⟨hshort, hnext⟩ := next_append (n ++ (w₁ ++ byte ':' :: rest)) hw
    (show isSpace (byte '"') = false by decide)
  obtain ⟨hname, hskip⟩ := skipText_form hn (Nat.le_refl (n ++ (w₁ ++ byte ':' :: rest)).length)
  obtain ⟨hcolon, hc⟩ := colon_append h₁ rest
  refine ⟨by omega, ?_⟩
  simp only [skipKey, hnext, if_true, hskip, hc, bind, Except.bind]

section Objects

variable {κ α : Type} {name : Bytes → κ → Prop} {value : κ → Bytes → α → Prop}
  (hname : ∀ {t k}, name t k → TextForm t) (hpasses : ∀ {k t a}, value k t a → Passes t)
include hname hpasses

/-- The members of an object are passed over together with its closing bracket. The name of the
first of them is passed over before. -/
theorem skipFrom_members {ts : Bytes} {ms : List (κ × α)} (h : MembersText name value ts ms)
    {w : Bytes} (hw : Spaces w) (start : Bytes) (outer : List Container) (rest s : Bytes)
    (hs : s = w ++ byte '"' :: (ts ++ rest)) :
    ∃ us, Yields (skipKey s) () us ∧
      ∀ hlong, ∃ h', skipFrom start .value (.object :: outer) us hlong =
        skipFrom start .closed outer rest h' := by
  -- After a comma the loop passes over the next name at once and goes on with a value, so the
  -- hypothesis has to speak of the names and of the values apart.
  induction h generalizing w s with
  | @last k n t w₁ w₂ w₃ a named colon before written after =>
      obtain rfl : s = w ++ byte '"' ::
          (n ++ (w₁ ++ byte ':' :: (w₂ ++ (t ++ (w₃ ++ byte '}' :: rest))))) := by
        simp [hs]
      refine ⟨_, skipKey_append hw (hname named) colon _, fun hlong => ?_⟩
      obtain ⟨h₁, hvalue⟩ := hpasses written start (.object :: outer) w₂ (w₃ ++ byte '}' :: rest)
        hlong before (ends_append after ends_objectEnd)
      obtain ⟨h₂, hnext⟩ := next_append rest after (show isSpace (byte '}') = false by decide)
      refine ⟨by simp at h₁; omega, ?_⟩
      have hcomma : byte '}' ≠ byte ',' := by decide
      rw [hvalue, skipFrom]
      simp only [hnext, hcomma, Container.closing, if_false, if_true]
  | @more k n t w₁ w₂ w₃ w₄ ts a ms named colon before written after mark hts ih =>
      obtain rfl : s = w ++ byte '"' :: (n ++ (w₁ ++ byte ':' ::
          (w₂ ++ (t ++ (w₃ ++ byte ',' :: (w₄ ++ byte '"' :: (ts ++ rest))))))) := by
        simp [hs]
      obtain ⟨us, ⟨hshort, hkey⟩, hloop⟩ := ih mark _ rfl
      refine ⟨_, skipKey_append hw (hname named) colon _, fun hlong => ?_⟩
      obtain ⟨h₁, hvalue⟩ := hpasses written start (.object :: outer) w₂
        (w₃ ++ byte ',' :: (w₄ ++ byte '"' :: (ts ++ rest))) hlong before
        (ends_append after ends_comma)
      obtain ⟨h₂, hnext⟩ := next_append (w₄ ++ byte '"' :: (ts ++ rest)) after
        (show isSpace (byte ',') = false by decide)
      obtain ⟨h₃, hrest⟩ := hloop (by simp at h₁; omega)
      refine ⟨h₃, ?_⟩
      rw [hvalue, skipFrom]
      simp only [hnext, if_true, hkey, bind, Except.bind, hrest]

theorem skipFrom_object {ts : Bytes} {ms : List (κ × α)} (h : ObjectBody name value ts ms)
    (start : Bytes) (outer : List Container) (rest s : Bytes) (hs : s = ts ++ rest)
    (hlong : s.length < start.length) :
    ∃ h', skipFrom start .opened (.object :: outer) s (.inl hlong) =
      skipFrom start .closed outer rest h' := by
  rw [skipFrom.eq_def]
  dsimp only
  cases h with
  | @empty w blank =>
      obtain rfl : s = w ++ byte '}' :: rest := by simp [hs]
      obtain ⟨h₁, hnext⟩ := next_append rest blank (show isSpace (byte '}') = false by decide)
      refine ⟨by omega, ?_⟩
      simp only [hnext, Container.closing, if_true]
  | @members w ts ms blank h =>
      obtain rfl : s = w ++ byte '"' :: (ts ++ rest) := by simp [hs]
      obtain ⟨h₁, hnext⟩ := next_append (ts ++ rest) blank
        (show isSpace (byte '"') = false by decide)
      obtain ⟨us, ⟨h₂, hkey⟩, hloop⟩ :=
        skipFrom_members hname hpasses h blank start outer rest _ rfl
      obtain ⟨h₃, hrest⟩ := hloop (by omega)
      refine ⟨h₃, ?_⟩
      have hmark : byte '"' ≠ byte '}' := by decide
      simp only [hnext, Container.closing, hmark, if_false, hkey, hrest, bind, Except.bind]

/-- A complete object is passed over, whatever follows it. -/
theorem skipFrom_braces {ts : Bytes} {ms : List (κ × α)} (h : ObjectBody name value ts ms)
    {w : Bytes} (hw : Spaces w) (start : Bytes) (outer : List Container) (rest : Bytes) (hlong) :
    ∃ h', skipFrom start .value outer (w ++ byte '{' :: (ts ++ rest)) hlong =
      skipFrom start .closed outer rest h' := by
  obtain ⟨hopen, hhead⟩ := skippedLeaves.head_object hw (ts ++ rest)
  obtain ⟨h₁, hvalue⟩ := skipFrom_container hhead outer hlong
  obtain ⟨h₂, hbody⟩ :=
    skipFrom_object hname hpasses h start outer rest (ts ++ rest) rfl (by simpa using h₁)
  exact ⟨h₂, hvalue.trans hbody⟩

end Objects

/-! ### Values -/

theorem starts_form {depth : Nat} {t : Bytes} (h : Form depth t) : Starts t := by
  cases depth with
  | zero => exact starts_scalarForm h
  | succ depth =>
      obtain h | ⟨ts, vs, rfl, -, -⟩ | ⟨ts, ms, rfl, -, -⟩ := h
      · exact starts_scalarForm h
      · exact starts_cons (by decide)
      · exact starts_cons (by decide)

/-- Every value of the syntax is passed over. -/
theorem passes_form {depth : Nat} {t : Bytes} (h : Form depth t) : Passes t := by
  induction depth generalizing t with
  | zero => exact passes_scalar h
  | succ depth ih =>
      obtain h | ⟨ts, vs, rfl, hbody, -⟩ | ⟨ts, ms, rfl, hbody, -⟩ := h
      · exact passes_scalar h
      · intro start outer w rest hlong hw _
        exact skipFrom_brackets ih starts_form hbody hw start outer rest hlong
      · intro start outer w rest hlong hw _
        exact skipFrom_braces id ih hbody hw start outer rest hlong

/-- When the outermost value is closed, it has been passed over. -/
theorem skip_of_closed {s rest : Bytes}
    (h : ∃ h', skipFrom s .value [] s (.inr ⟨rfl, Nat.le_refl _⟩) =
      skipFrom s .closed [] rest h') : Yields (skip s) () rest := by
  obtain ⟨hclosed, hskip⟩ := h
  refine ⟨by simpa using hclosed, ?_⟩
  rw [skip]
  refine hskip.trans ?_
  rw [skipFrom]

theorem takes_skip {t : Bytes} (h : Passes t) : Takes skip t () :=
  fun w rest hw hrest => skip_of_closed (h _ [] w rest _ hw hrest)

/-! ### Where a value ends -/

/-- The text shows its own end: it is passed over, whatever follows it. -/
def Delimited (t : Bytes) : Prop :=
  ∀ w rest, Spaces w → Yields (skip (w ++ (t ++ rest))) () rest

theorem delimited_of_finds {t : Bytes}
    (h : ∀ w rest, Spaces w → Finds (skippedLeaves.head (w ++ (t ++ rest))) () rest) :
    Delimited t :=
  fun w rest hw => skip_of_closed (skipFrom_scalar (h w rest hw) [] _)

theorem delimited_null : Delimited (Text.bytes "null") :=
  delimited_of_finds fun _ _ hw => skippedLeaves.head_null hw

theorem delimited_text {t : Bytes} (h : TextForm t) : Delimited (byte '"' :: t) :=
  delimited_of_finds fun _ _ hw => skippedLeaves.head_text hw (skipText_form h (Nat.le_refl _))

theorem delimited_list {depth : Nat} {α : Type} {ts : Bytes} {as : List α}
    (h : ListBody (fun t _ => Form depth t) ts as) : Delimited (byte '[' :: ts) :=
  fun _ rest hw => skip_of_closed (skipFrom_brackets passes_form starts_form h hw _ [] rest _)

theorem delimited_object {depth : Nat} {ts : Bytes} (h : ObjectForm depth ts) :
    Delimited (byte '{' :: ts) := by
  obtain ⟨ms, hbody⟩ := h
  exact fun _ rest hw => skip_of_closed (skipFrom_braces id passes_form hbody hw _ [] rest _)

theorem append_left_cancel_of_starts {w w' t t' : Bytes} (hw : Spaces w) (hw' : Spaces w')
    (ht : Starts t) (ht' : Starts t') (h : w ++ t = w' ++ t') : t = t' := by
  have hdrop {w t : Bytes} (hw : Spaces w) (ht : Starts t) : (w ++ t).dropWhile isSpace = t := by
    obtain ⟨b, bs, rfl, hb, -⟩ := ht
    rw [List.dropWhile_append_of_pos hw, List.dropWhile_cons_of_neg (by simp [hb])]
  rw [← hdrop hw ht, h, hdrop hw' ht']

/-- Where a value stands, there is no other value that shows its own end. -/
theorem Delimited.unique {depth : Nat} {t t' w w' rest rest' : Bytes} (h' : Delimited t')
    (ht' : Starts t') (hw' : Spaces w') (h : Form depth t) (hw : Spaces w) (hrest : Ends rest)
    (heq : w ++ (t ++ rest) = w' ++ (t' ++ rest')) : t = t' ∧ rest = rest' := by
  have hskip := takes_skip (passes_form h) w rest hw hrest
  rw [heq] at hskip
  obtain ⟨-, rfl⟩ := hskip.unique (h' w' rest' hw')
  rw [← List.append_assoc, ← List.append_assoc] at heq
  exact ⟨append_left_cancel_of_starts hw hw' (starts_form h) ht' (List.append_cancel_right heq),
    rfl⟩

/-- A text starts with at most one complete object. -/
theorem ObjectForm.unique {depth depth' : Nat} {ts ts' rest rest' : Bytes}
    (h : ObjectForm depth ts) (h' : ObjectForm depth' ts') (heq : ts ++ rest = ts' ++ rest') :
    ts = ts' ∧ rest = rest' := by
  have hskip := delimited_object h [] rest spaces_nil
  rw [List.nil_append, List.cons_append, heq] at hskip
  obtain ⟨-, rfl⟩ := hskip.unique (delimited_object h' [] rest' spaces_nil)
  exact ⟨List.append_cancel_right heq, rfl⟩

end CodeReview.Json
