import CodeReview.Proofs.Json.Record

/-!
Lists and objects of which only the outermost layer is looked at: the texts of the items, and the
texts of the members under their names. A record is read from an object by what stands under the
names of the record. The order of the members does not matter, nor does what else is there.
-/

namespace CodeReview.Json

/-- The text is a list, and these are the texts of its items. -/
def RawList (t : Bytes) (us : List Bytes) : Prop :=
  ∃ ts, t = byte '[' :: ts ∧ ListBody (fun u v => u = v) ts us

/-- The text is an object, and these are the names of its members with the texts of their values. -/
def RawObject (t : Bytes) (ms : List (String × Bytes)) : Prop :=
  ∃ ts, t = byte '{' :: ts ∧ ObjectBody Spells (fun _ u v => u = v) ts ms

theorem RawObject.starts {t : Bytes} {ms : List (String × Bytes)} (h : RawObject t ms) :
    ∃ b bs, t = b :: bs ∧ isSpace b = false ∧ b ≠ byte 'n' := by
  obtain ⟨ts, rfl, -⟩ := h
  exact ⟨_, ts, rfl, by decide⟩

theorem RawObject.shows {t : Bytes} {ms : List (String × Bytes)} (h : RawObject t ms) :
    Starts t := by
  obtain ⟨ts, rfl, -⟩ := h
  exact starts_cons (by decide)

/-- Members without blanks, up to the closing bracket. The opening mark of the first name is not
part of the text. -/
def rawMembers (k : String) (u : Bytes) : List (String × Bytes) → Bytes
  | [] => quoteTail k ++ byte ':' :: (u ++ [byte '}'])
  | m :: ms => quoteTail k ++ byte ':' :: (u ++ byte ',' :: byte '"' :: rawMembers m.1 m.2 ms)

theorem rawObject_members (k : String) (u : Bytes) (ms : List (String × Bytes)) :
    RawObject (byte '{' :: byte '"' :: rawMembers k u ms) ((k, u) :: ms) := by
  refine ⟨_, rfl, .members spaces_nil ?_⟩
  induction ms generalizing k u with
  | nil => exact .last (spells_quoteTail k) spaces_nil spaces_nil rfl spaces_nil
  | cons m ms ih =>
      exact .more (spells_quoteTail k) spaces_nil spaces_nil rfl spaces_nil spaces_nil
        (ih m.1 m.2)

/-- An object with one member and without blanks. -/
theorem rawObject_member (k : String) (u : Bytes) :
    RawObject (byte '{' :: byte '"' :: (quoteTail k ++ byte ':' :: (u ++ [byte '}']))) [(k, u)] :=
  rawObject_members k u []

theorem RawObject.exists_member {t u : Bytes} {k : String} (h : RawObject t [(k, u)]) :
    ∃ w n w₁ w₂ w₃, Spaces w ∧ Spells n k ∧ Spaces w₁ ∧ Spaces w₂ ∧ Spaces w₃ ∧
      t = byte '{' :: (w ++ byte '"' ::
        (n ++ (w₁ ++ byte ':' :: (w₂ ++ (u ++ (w₃ ++ [byte '}'])))))) := by
  obtain ⟨ts, rfl, hbody⟩ := h
  cases hbody with
  | @members w _ _ blank h =>
      cases h with
      | more _ _ _ _ _ _ rest => cases rest
      | @last _ n t w₁ w₂ w₃ _ named colon before written after =>
          subst written
          exact ⟨w, n, w₁, w₂, w₃, blank, named, colon, before, after, rfl⟩

/-! ### What stands under a name -/

/-- What stands under the name is written for the value. Without the name, the value is the default
one. -/
def Gives {α : Type} (ms : List (String × Bytes)) (key : String) (written : Bytes → α → Prop)
    (default a : α) : Prop :=
  (key ∉ ms.map Prod.fst ∧ a = default) ∨ ∃ u, (key, u) ∈ ms ∧ written u a

theorem exists_gives {α : Type} {ms : List (String × Bytes)} {key : String}
    {written : Bytes → α → Prop} {default : α} (h : ∀ t, (key, t) ∈ ms → ∃ a, written t a) :
    ∃ a, Gives ms key written default a := by
  by_cases hkey : key ∈ ms.map Prod.fst
  · obtain ⟨⟨_, t⟩, ht, rfl⟩ := List.mem_map.mp hkey
    obtain ⟨a, ha⟩ := h t ht
    exact ⟨a, .inr ⟨t, ht, ha⟩⟩
  · exact ⟨default, .inl ⟨hkey, rfl⟩⟩

/-- The text stands between quotation marks. -/
def Quoted (t : Bytes) (s : String) : Prop :=
  ∃ u, t = byte '"' :: u ∧ Spells u s

theorem Quoted.starts {t : Bytes} {s : String} (h : Quoted t s) :
    ∃ b bs, t = b :: bs ∧ isSpace b = false ∧ b ≠ byte 'n' := by
  obtain ⟨u, rfl, -⟩ := h
  exact ⟨_, u, rfl, by decide⟩

/-- What may be missing is written as itself, or as null. -/
inductive Nullable {α : Type} (written : Bytes → α → Prop) : Bytes → Option α → Prop where
  | null : Nullable written (Text.bytes "null") none
  | value {t : Bytes} {a : α} (h : written t a) : Nullable written t (some a)

theorem gives_null {α : Type} {ms : List (String × Bytes)} {key : String}
    {written : Bytes → α → Prop} (h : ∀ t, (key, t) ∈ ms → t = Text.bytes "null") :
    Gives ms key (Nullable written) none none := by
  by_cases hkey : key ∈ ms.map Prod.fst
  · obtain ⟨⟨_, t⟩, ht, rfl⟩ := List.mem_map.mp hkey
    exact .inr ⟨t, ht, h t ht ▸ .null⟩
  · exact .inl ⟨hkey, rfl⟩

namespace Reader

variable {α : Type} {depth : Nat}

theorem takes_quoted {t : Bytes} {s : String} (h : Quoted t s) : Takes (text depth) t s := by
  obtain ⟨u, rfl, hu⟩ := h
  exact takes_spelled hu

theorem takes_nullable {written : Bytes → α → Prop} {r : Reader α}
    (htakes : ∀ {t a}, written t a → Takes (r depth) t a)
    (hstarts : ∀ {t a}, written t a → ∃ b bs, t = b :: bs ∧ isSpace b = false ∧ b ≠ byte 'n')
    {t : Bytes} {o : Option α} (h : Nullable written t o) : Takes (optional r depth) t o := by
  cases h with
  | null => exact takes_none r
  | value h =>
      obtain ⟨b, bs, rfl, hb⟩ := hstarts h
      exact takes_some hb (htakes h)

theorem takes_nullableText {t : Bytes} {o : Option String} (h : Nullable Quoted t o) :
    Takes (optional text depth) t o :=
  takes_nullable takes_quoted Quoted.starts h

theorem takes_rawList {written : Bytes → α → Prop} {r : Reader α}
    (hitem : ∀ {t a}, written t a → Takes (r depth) t a ∧ Starts t) {t : Bytes} {us : List Bytes}
    {as : List α} (h : RawList t us) (hwritten : List.Forall₂ written us as) :
    Takes (list r (depth + 1)) t as := by
  obtain ⟨ts, rfl, hbody⟩ := h
  refine takes_items (hbody.imp (hwritten.imp fun u a h t ht => ?_))
  rw [ht]
  exact hitem h

theorem takes_unit (depth : Nat) : Takes (unit depth) (Text.bytes "null") () := by
  intro w rest hw _
  obtain ⟨hshort, hhead⟩ :
      Finds (scalarLeaves.head (w ++ (Text.bytes "null" ++ rest))) .null rest :=
    scalarLeaves.head_null hw
  refine ⟨hshort, ?_⟩
  simp only [unit, head, hhead, bind, Except.bind]

/-- A name of a choice is taken as the only one of an object, with null under it. -/
theorem takes_nameObject {ofName? : String → Option α} {names : List String} {t : Bytes}
    {s : String} {a : α} (h : RawObject t [(s, Text.bytes "null")]) (hname : ofName? s = some a) :
    Takes (choice ofName? names (depth + 1)) t a := by
  obtain ⟨w₀, n, w₁, w₂, w₃, h₀, hn, h₁, h₂, h₃, rfl⟩ := h.exists_member
  intro w rest hw _
  generalize hu : w ++ (byte '{' :: (w₀ ++ byte '"' :: (n ++ (w₁ ++ byte ':' ::
    (w₂ ++ (Text.bytes "null" ++ (w₃ ++ [byte '}'])))))) ++ rest) = u
  obtain rfl : u = w ++ byte '{' :: (w₀ ++ byte '"' :: (n ++ (w₁ ++ byte ':' ::
      (w₂ ++ (Text.bytes "null" ++ (w₃ ++ byte '}' :: rest)))))) := by
    simp [← hu]
  obtain ⟨hopen, hbrace⟩ := next_append (w₀ ++ byte '"' :: (n ++ (w₁ ++ byte ':' ::
    (w₂ ++ (Text.bytes "null" ++ (w₃ ++ byte '}' :: rest)))))) hw
    (show isSpace (byte '{') = false by decide)
  obtain ⟨hfirst, hmark⟩ := next_append (n ++ (w₁ ++ byte ':' ::
    (w₂ ++ (Text.bytes "null" ++ (w₃ ++ byte '}' :: rest))))) h₀
    (show isSpace (byte '"') = false by decide)
  obtain ⟨hshort, hread⟩ := scanText_spelled hn (w₁ ++ byte ':' ::
    (w₂ ++ (Text.bytes "null" ++ (w₃ ++ byte '}' :: rest))))
  obtain ⟨hvalue, hunit⟩ := memberValue_text (takes_unit depth) s h₁ h₂
    (show Ends (w₃ ++ byte '}' :: rest) from ends_append h₃ ends_objectEnd)
  obtain ⟨hlast, hend⟩ := next_append rest h₃ (show isSpace (byte '}') = false by decide)
  have hquote : byte '{' ≠ byte '"' := by decide
  refine ⟨by omega, ?_⟩
  rw [choice]
  simp only [hbrace, hquote, hmark, hread, known, hname, hunit, hend, if_true, if_false, bind,
    Except.bind]

end Reader

/-! ### Records -/

namespace Shape

variable {ρ α : Type} {shape : Shape ρ} {depth : Nat} {ms : List (String × Bytes)}

/-- No name of the record comes twice, and under all other names there are values of any kind. -/
structure Admits (shape : Shape ρ) (ms : List (String × Bytes)) : Prop where
  once : shape.Once (ms.map Prod.fst)
  others : ∀ m ∈ ms, m.1 ∉ shape.keys → ∃ depth, Form depth m.2

theorem admits_member {key : String} {u : Bytes}
    (h : key ∉ shape.keys → ∃ depth, Form depth u) : shape.Admits [(key, u)] where
  once := (List.nodup_singleton key).filter _
  others := by simpa using h

theorem Once.eq_of_mem (h : shape.Once (ms.map Prod.fst)) {key : String}
    (hkey : key ∈ shape.keys) {u v : Bytes} (hu : (key, u) ∈ ms) (hv : (key, v) ∈ ms) : u = v := by
  rw [Once, List.filter_map] at h
  have hmem {w : Bytes} (hw : (key, w) ∈ ms) :
      (key, w) ∈ ms.filter ((fun k => decide (k ∈ shape.keys)) ∘ Prod.fst) :=
    List.mem_filter.mpr ⟨hw, decide_eq_true hkey⟩
  exact congrArg Prod.snd (List.inj_on_of_nodup_map h (hmem hu) (hmem hv) rfl)

/-- The members of the record that are not null. -/
def told (shape : Shape ρ) (ms : List (String × Bytes)) : List (String × Bytes) :=
  ms.filter fun m => m.1 ∈ shape.keys ∧ m.2 ≠ Text.bytes "null"

theorem mem_told {m : String × Bytes} :
    m ∈ shape.told ms ↔ m ∈ ms ∧ m.1 ∈ shape.keys ∧ m.2 ≠ Text.bytes "null" := by
  rw [told, List.mem_filter, decide_eq_true_iff]

/-- What may be missing is given by what is told, in any order. -/
theorem gives_of_perm {ms' : List (String × Bytes)} (honce : shape.Once (ms.map Prod.fst))
    (htold : (shape.told ms).Perm (shape.told ms')) {key : String} (hkey : key ∈ shape.keys)
    {written : Bytes → α → Prop}
    (hstarts : ∀ {t a}, written t a → ∃ b bs, t = b :: bs ∧ isSpace b = false ∧ b ≠ byte 'n')
    {o : Option α} (h : Gives ms key (Nullable written) none o) :
    Gives ms' key (Nullable written) none o := by
  have hvalue {t : Bytes} {a : α} (ht : written t a) : t ≠ Text.bytes "null" := by
    obtain ⟨b, bs, rfl, -, hb⟩ := hstarts ht
    rw [Text.bytes_eq]
    exact fun heq => hb (List.cons.inj heq).1
  have htold' {t : Bytes} (ht : (key, t) ∈ ms') (hnull : t ≠ Text.bytes "null") : (key, t) ∈ ms :=
    (mem_told.mp (htold.mem_iff.mpr (mem_told.mpr ⟨ht, hkey, hnull⟩))).1
  rcases h with ⟨habsent, rfl⟩ | ⟨u, hu, _ | hwritten⟩
  · refine gives_null fun t ht => by_contra fun hnull => habsent ?_
    exact List.mem_map.mpr ⟨_, htold' ht hnull, rfl⟩
  · exact gives_null fun t ht => by_contra fun hnull =>
      hnull (honce.eq_of_mem hkey (htold' ht hnull) hu)
  · have hmem := htold.mem_iff.mp (mem_told.mpr ⟨hu, hkey, hvalue hwritten⟩)
    exact .inr ⟨u, (mem_told.mp hmem).1, .value hwritten⟩

/-- What the members of an object say about one member of the record: what stands under its name is
read as this change of the record, or it is absent, may be, and nothing changes. -/
inductive Supplies (shape : Shape ρ) (depth : Nat) (ms : List (String × Bytes)) :
    Member ρ → (ρ → ρ) → Prop where
  | absent {m : Member ρ} {f : ρ → ρ} (unnamed : m.key ∉ ms.map Prod.fst)
    (dispensable : m.presence ≠ .required) (unchanged : f shape.blank = shape.blank) :
    Supplies shape depth ms m f
  | written {m : Member ρ} {f : ρ → ρ} {u : Bytes} (named : (m.key, u) ∈ ms)
    (takes : Takes (m.read depth) u f) : Supplies shape depth ms m f

theorem supplies_of_gives {key : String} {presence : Presence} {r : Reader α} {set : α → ρ → ρ}
    {written : Bytes → α → Prop} {default a : α} (h : Gives ms key written default a)
    (hpresence : presence ≠ .required) (hdefault : set default shape.blank = shape.blank)
    (htakes : ∀ {u}, written u a → Takes (r depth) u a) :
    shape.Supplies depth ms (member key presence r set) (set a) := by
  rcases h with ⟨habsent, rfl⟩ | ⟨u, hu, hwritten⟩
  · exact .absent habsent hpresence hdefault
  · exact .written hu ((htakes hwritten).map set)

section Changes

variable {f : String → ρ → ρ} {names keys : List String}

/-- Each of different keys can be told by its own change. -/
theorem exists_eq_map {fs : List (ρ → ρ)} (hkeys : keys.Nodup) (hlength : keys.length = fs.length) :
    ∃ f : String → ρ → ρ, fs = keys.map f := by
  induction keys generalizing fs with
  | nil => exact ⟨fun _ => id, by simpa using hlength.symm⟩
  | cons key keys ih =>
      obtain ⟨hnew, hkeys⟩ := List.nodup_cons.mp hkeys
      cases fs with
      | nil => cases hlength
      | cons g fs =>
          obtain ⟨f, rfl⟩ := ih hkeys (Nat.succ.inj hlength)
          refine ⟨Function.update f key g, ?_⟩
          rw [List.map_cons, Function.update_self]
          congr 1
          refine List.map_congr_left fun k hk => (Function.update_of_ne ?_ g f).symm
          rintro rfl
          exact hnew hk

variable (hcomm : ∀ k ∈ keys, ∀ k' ∈ keys, ∀ r, f k (f k' r) = f k' (f k r))
include hcomm

/-- Changes that do not get into each other's way can be made in the order of the keys. -/
theorem foldl_names (hnames : (names.filter (· ∈ keys)).Nodup) (hkeys : keys.Nodup) (r : ρ) :
    names.foldl (fun r k => if k ∈ keys then f k r else r) r =
      keys.foldl (fun r k => if k ∈ names then f k r else r) r := by
  have hfilter (l l' : List String) :
      l.foldl (fun r k => if k ∈ l' then f k r else r) r =
        (l.filter (· ∈ l')).foldl (fun r k => f k r) r := by
    simp [List.foldl_filter]
  have hperm : (names.filter (· ∈ keys)).Perm (keys.filter (· ∈ names)) := by
    rw [List.perm_ext_iff_of_nodup hnames (hkeys.filter _)]
    intro k
    simp [and_comm]
  rw [hfilter, hfilter]
  refine hperm.foldl_eq' (fun k hk k' hk' r => ?_) r
  have hmem {k : String} (hk : k ∈ names.filter (· ∈ keys)) : k ∈ keys :=
    of_decide_eq_true (List.mem_filter.mp hk).2
  exact hcomm k' (hmem hk') k (hmem hk) r

/-- Changes that change nothing at first need not be made. -/
theorem foldl_absent {r : ρ} (habsent : ∀ k ∈ keys, k ∉ names → f k r = r) :
    keys.foldl (fun r k => if k ∈ names then f k r else r) r =
      keys.foldl (fun r k => f k r) r := by
  induction keys generalizing r with
  | nil => rfl
  | cons key keys ih =>
      rw [List.forall_mem_cons] at habsent
      have hcomm' : ∀ k ∈ keys, ∀ k' ∈ keys, ∀ r, f k (f k' r) = f k' (f k r) := fun k hk k' hk' =>
        hcomm k (List.mem_cons_of_mem _ hk) k' (List.mem_cons_of_mem _ hk')
      rw [List.foldl_cons, List.foldl_cons]
      split
      · refine ih hcomm' fun k hk hname => ?_
        rw [hcomm k (List.mem_cons_of_mem _ hk) key List.mem_cons_self, habsent.2 k hk hname]
      · rename_i hname
        rw [habsent.1 hname]
        exact ih hcomm' habsent.2

end Changes

/-- A record is read from an object by what stands under its names. -/
theorem takes_rawObject {t : Bytes} {fs : List (ρ → ρ)} (hobject : RawObject t ms)
    (hadmits : shape.Admits ms) (hkeys : shape.keys.Nodup)
    (hsupplies : List.Forall₂ (shape.Supplies depth ms) shape.members fs)
    (hcomm : ∀ f ∈ fs, ∀ g ∈ fs, ∀ r, f (g r) = g (f r)) :
    Takes (shape.reader (depth + 1)) t (fs.foldl (fun r f => f r) shape.blank) := by
  obtain ⟨ts, rfl, hbody⟩ := hobject
  obtain ⟨f, rfl⟩ := exists_eq_map hkeys (by simpa [keys] using hsupplies.length_eq)
  have hmember : ∀ m ∈ shape.members, shape.Supplies depth ms m (f m.key) := by
    rw [keys, List.map_map] at hsupplies
    exact List.forall₂_same.mp (List.forall₂_map_right_iff.mp hsupplies)
  have hsets : List.Forall₂ (shape.Sets depth fun _ u v => u = v) ms
      (ms.map fun m r => if m.1 ∈ shape.keys then f m.1 r else r) := by
    refine List.forall₂_map_right_iff.mpr (List.forall₂_same.mpr fun ⟨k, u⟩ hu => ?_)
    cases hfind : shape.members.find? fun m => m.key = k with
    | some m =>
        obtain ⟨hm, rfl⟩ := mem_of_find? hfind
        have hkey : m.key ∈ shape.keys := List.mem_map_of_mem hm
        simp only [if_pos hkey]
        refine .known hfind ?_
        rintro _ rfl
        cases hmember m hm with
        | absent unnamed => exact absurd (List.mem_map.mpr ⟨_, hu, rfl⟩) unnamed
        | written named takes => exact hadmits.once.eq_of_mem hkey named hu ▸ takes
    | none =>
        have hkey := notMem_keys_of_find? hfind
        simp only [if_neg hkey]
        refine .unknown hfind ?_
        rintro _ rfl
        obtain ⟨depth, hform⟩ := hadmits.others _ hu hkey
        exact passes_form hform
  have hcomplete : shape.Complete (ms.map Prod.fst) := by
    intro m hm hrequired
    cases hmember m hm with
    | absent _ dispensable => exact absurd hrequired dispensable
    | written named => exact List.mem_map.mpr ⟨_, named, rfl⟩
  have habsent : ∀ k ∈ shape.keys, k ∉ ms.map Prod.fst → f k shape.blank = shape.blank := by
    intro k hk hname
    obtain ⟨m, hm, rfl⟩ := List.mem_map.mp hk
    cases hmember m hm with
    | absent _ _ unchanged => exact unchanged
    | written named => exact absurd (List.mem_map.mpr ⟨_, named, rfl⟩) hname
  have hcomm' : ∀ k ∈ shape.keys, ∀ k' ∈ shape.keys, ∀ r, f k (f k' r) = f k' (f k r) :=
    fun k hk k' hk' => hcomm _ (List.mem_map_of_mem hk) _ (List.mem_map_of_mem hk')
  have htakes := takes_record hbody hadmits.once hsets hcomplete
  have hnames : ms.foldl (fun r m => if m.1 ∈ shape.keys then f m.1 r else r) shape.blank =
      shape.keys.foldl (fun r k => f k r) shape.blank := by
    rw [← foldl_absent hcomm' habsent, ← foldl_names hcomm' hadmits.once hkeys, List.foldl_map]
  rw [List.foldl_map, hnames] at htakes
  rwa [List.foldl_map]

end Shape

end CodeReview.Json
