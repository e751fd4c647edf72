import CodeReview.Decimal.Numeral
import Mathlib

/-!
Which texts write a number, and which one. Numbers up to a limit are written with digits alone; a
float is also read from a text with a point, with an exponent, or from a name. A text of digits is
the float nearest to their value, however many zeros it begins with.
-/

namespace CodeReview.Decimal

/-! ### Natural numbers -/

/-- The text writes the number: an optional plus sign, and digits. -/
def Writes (s : String) (n : Nat) : Prop :=
  ∃ sign ds, (sign = [] ∨ sign = ['+']) ∧ s.toList = sign ++ ds ∧ ds ≠ [] ∧
    (∀ c ∈ ds, isDigit c = true) ∧ n = valueOf ds

theorem parseNat?_eq_some_iff {limit n : Nat} {s : String} :
    parseNat? limit s = some n ↔ Writes s n ∧ n ≤ limit := by
  have hdigits (ds : List Char) :
      (if ds ≠ [] ∧ ds.all isDigit ∧ valueOf ds ≤ limit then some (valueOf ds) else none) = some n ↔
        (ds ≠ [] ∧ (∀ c ∈ ds, isDigit c = true) ∧ n = valueOf ds) ∧ n ≤ limit := by
    simp only [Option.ite_none_right_eq_some, Option.some.injEq, List.all_eq_true]
    constructor
    · rintro ⟨⟨hsome, hall, hle⟩, rfl⟩
      exact ⟨⟨hsome, hall, rfl⟩, hle⟩
    · rintro ⟨⟨hsome, hall, rfl⟩, hle⟩
      exact ⟨⟨hsome, hall, hle⟩, rfl⟩
  rw [parseNat?, hdigits]
  refine and_congr_left' ?_
  constructor
  · intro h
    split at h
    · rename_i ds hs
      exact ⟨['+'], ds, .inr rfl, hs, h⟩
    · exact ⟨[], s.toList, .inl rfl, rfl, h⟩
  · rintro ⟨sign, ds, rfl | rfl, hs, h⟩
    · rw [hs, List.nil_append]
      split
      · exact absurd (h.2.1 '+' List.mem_cons_self) (by decide)
      · exact h
    · rwa [hs]

/-! ### The grammar of floats -/

/-- Digits, and nothing else. -/
def Digits (ds : List Char) : Prop :=
  ∀ c ∈ ds, isDigit c = true

/-- The end of a number: nothing, or an exponent. -/
inductive ExponentText : List Char → Prop where
  | plain : ExponentText []
  | power {mark : Char} {sign ds : List Char} (marked : mark = 'e' ∨ mark = 'E')
    (signed : sign ∈ [[], ['+'], ['-']]) (shown : ds ≠ []) (digits : Digits ds) :
    ExponentText (mark :: (sign ++ ds))

/-- A number without its sign: a whole one, one with a point and a digit before or after it, or a
name in any mix of cases. -/
inductive UnsignedText : List Char → Prop where
  | whole {ds exponent : List Char} (digits : Digits ds) (shown : ds ≠ [])
    (ends : ExponentText exponent) : UnsignedText (ds ++ exponent)
  | point {ds es exponent : List Char} (digits : Digits ds) (fraction : Digits es)
    (shown : ds ++ es ≠ []) (ends : ExponentText exponent) :
    UnsignedText (ds ++ '.' :: (es ++ exponent))
  | name {cs : List Char} (h : String.ofList (cs.map Char.toLower) ∈ ["inf", "infinity", "nan"]) :
    UnsignedText cs

/-- The text writes a float. -/
def IsLiteral (s : String) : Prop :=
  ∃ sign cs, sign ∈ [[], ['+'], ['-']] ∧ s.toList = sign ++ cs ∧ UnsignedText cs

/-! ### Digits at the front -/

section Front

variable {ds rest : List Char}

theorem takeWhile_front (h : Digits ds) (hstop : rest.takeWhile isDigit = []) :
    (ds ++ rest).takeWhile isDigit = ds := by
  rw [List.takeWhile_append_of_pos h, hstop, List.append_nil]

theorem dropWhile_of_takeWhile_eq_nil (hstop : rest.takeWhile isDigit = []) :
    rest.dropWhile isDigit = rest := by
  have hall := List.takeWhile_append_dropWhile (p := isDigit) (l := rest)
  rwa [hstop] at hall

theorem dropWhile_front (h : Digits ds) (hstop : rest.takeWhile isDigit = []) :
    (ds ++ rest).dropWhile isDigit = rest := by
  rw [List.dropWhile_append_of_pos h, dropWhile_of_takeWhile_eq_nil hstop]

theorem exists_front (cs : List Char) :
    ∃ ds rest, cs = ds ++ rest ∧ Digits ds ∧ rest.takeWhile isDigit = [] := by
  refine ⟨cs.takeWhile isDigit, cs.dropWhile isDigit, List.takeWhile_append_dropWhile.symm,
    fun _ => List.mem_takeWhile_imp, ?_⟩
  cases hrest : cs.dropWhile isDigit with
  | nil => rfl
  | cons c rest =>
      have hc := List.head?_dropWhile_not isDigit cs
      rw [hrest] at hc
      exact List.takeWhile_cons_of_neg (by simpa using hc)

end Front

/-! ### Exponents -/

theorem natural?_eq {ds : List Char} (hsome : ds ≠ []) (h : Digits ds) :
    exponentPart?.natural? ds = some (valueOf ds) :=
  if_pos ⟨hsome, List.all_eq_true.mpr h⟩

theorem digits_of_natural? {ds : List Char} {n : Nat} (h : exponentPart?.natural? ds = some n) :
    ds ≠ [] ∧ Digits ds := by
  rw [exponentPart?.natural?, Option.ite_none_right_eq_some, List.all_eq_true] at h
  exact h.1

theorem exponentText_of_exponentPart? {cs : List Char} {e : Int} (h : exponentPart? cs = some e) :
    ExponentText cs := by
  unfold exponentPart? at h
  split at h
  · exact .plain
  · split at h
    · rename_i marked
      split at h <;> simp only [Option.map_eq_some_iff, Option.bind_eq_bind,
        Option.bind_eq_some_iff] at h
      · obtain ⟨_, ⟨_, hn, _⟩, _⟩ := h
        obtain ⟨hsome, hds⟩ := digits_of_natural? hn
        exact @ExponentText.power _ ['-'] _ marked (by decide) hsome hds
      · obtain ⟨_, hn, _⟩ := h
        obtain ⟨hsome, hds⟩ := digits_of_natural? hn
        exact @ExponentText.power _ ['+'] _ marked (by decide) hsome hds
      · obtain ⟨_, hn, _⟩ := h
        obtain ⟨hsome, hds⟩ := digits_of_natural? hn
        exact @ExponentText.power _ [] _ marked (by decide) hsome hds
    · cases h

theorem ExponentText.exists_exponentPart? {cs : List Char} (h : ExponentText cs) :
    ∃ e, exponentPart? cs = some e := by
  cases h with
  | plain => exact ⟨0, rfl⟩
  | @power mark sign ds marked signed hsome hds =>
      have hnatural := natural?_eq hsome hds
      unfold exponentPart?
      dsimp only
      rw [if_pos marked]
      simp only [List.mem_cons, List.not_mem_nil, or_false] at signed
      obtain rfl | rfl | rfl := signed
      · rw [List.nil_append]
        split
        · exact absurd (hds '-' List.mem_cons_self) (by decide)
        · exact absurd (hds '+' List.mem_cons_self) (by decide)
        · exact ⟨_, congrArg (Option.map Int.ofNat) hnatural⟩
      · exact ⟨_, congrArg (Option.map Int.ofNat) hnatural⟩
      · exact ⟨-(valueOf ds : Int), by
          simp only [List.cons_append, List.nil_append, hnatural, Option.bind_eq_bind,
            Option.bind_some, Option.pure_def, Option.map_some]⟩

/-- No digit and no point comes before an exponent. -/
theorem ExponentText.stops {cs : List Char} (h : ExponentText cs) :
    cs.takeWhile isDigit = [] ∧ ∀ r, cs ≠ '.' :: r := by
  cases h with
  | plain => exact ⟨rfl, nofun⟩
  | power marked =>
      obtain rfl | rfl := marked <;>
        exact ⟨List.takeWhile_cons_of_neg (by decide), fun r hr => by simp at hr⟩

/-! ### Numbers without a sign -/

section Unsigned

variable {ds es rest : List Char}

theorem unsigned?_whole (h : Digits ds) (hsome : ds ≠ []) (hstop : rest.takeWhile isDigit = [])
    (hpoint : ∀ r, rest ≠ '.' :: r) :
    unsigned? (ds ++ rest) = (exponentPart? rest).map (nearest (valueOf ds)) := by
  unfold unsigned?
  rw [takeWhile_front h hstop, dropWhile_front h hstop]
  dsimp only
  split
  · exact absurd rfl (hpoint _)
  · rw [if_neg fun hnone => hsome hnone.1, List.append_nil]
    simp only [List.length_nil, Int.natCast_zero, Int.sub_zero]

theorem unsigned?_point (h : Digits ds) (hfraction : Digits es) (hsome : ds ++ es ≠ [])
    (hstop : rest.takeWhile isDigit = []) :
    unsigned? (ds ++ '.' :: (es ++ rest)) =
      (exponentPart? rest).map fun e => nearest (valueOf (ds ++ es)) (e - es.length) := by
  have hpoint : ('.' :: (es ++ rest)).takeWhile isDigit = [] :=
    List.takeWhile_cons_of_neg (by decide)
  unfold unsigned?
  rw [takeWhile_front h hpoint, dropWhile_front h hpoint]
  change (if ds = [] ∧ (es ++ rest).takeWhile isDigit = [] then _ else
    (exponentPart? ((es ++ rest).dropWhile isDigit)).map fun e =>
      nearest (valueOf (ds ++ (es ++ rest).takeWhile isDigit))
        (e - ((es ++ rest).takeWhile isDigit).length)) = _
  rw [takeWhile_front hfraction hstop, dropWhile_front hfraction hstop,
    if_neg fun hnone => hsome (List.append_eq_nil_iff.mpr hnone)]

/-- What begins with no digit, and with no point before a digit, is a number by its name. -/
theorem unsigned?_isSome_iff_of_no_digit {cs : List Char} (hstop : cs.takeWhile isDigit = [])
    (hfraction : ∀ r, cs = '.' :: r → r.takeWhile isDigit = []) :
    (unsigned? cs).isSome = true ↔
      String.ofList (cs.map Char.toLower) ∈ ["inf", "infinity", "nan"] := by
  unfold unsigned?
  rw [hstop, dropWhile_of_takeWhile_eq_nil hstop]
  dsimp only
  rw [if_pos]
  · simp only [List.mem_cons, List.not_mem_nil, or_false]
    split
    · rename_i hinf
      exact ⟨fun _ => .inl hinf, fun _ => rfl⟩
    · rename_i hinfinity
      exact ⟨fun _ => .inr (.inl hinfinity), fun _ => rfl⟩
    · rename_i hnan
      exact ⟨fun _ => .inr (.inr hnan), fun _ => rfl⟩
    · rename_i hinf hinfinity hnan
      exact ⟨nofun, fun h => (h.elim hinf fun h => h.elim hinfinity hnan).elim⟩
  · refine ⟨rfl, ?_⟩
    split
    · exact hfraction _ rfl
    · rfl

theorem unsignedText_of_unsigned? {cs : List Char} (h : (unsigned? cs).isSome = true) :
    UnsignedText cs := by
  obtain ⟨ds, rest, rfl, hds, hstop⟩ := exists_front cs
  by_cases hpoint : ∃ r, rest = '.' :: r
  · obtain ⟨r, rfl⟩ := hpoint
    obtain ⟨es, rest, rfl, hes, hstop'⟩ := exists_front r
    by_cases hnone : ds ++ es = []
    · obtain ⟨rfl, rfl⟩ := List.append_eq_nil_iff.mp hnone
      refine .name ((unsigned?_isSome_iff_of_no_digit hstop fun r hr => ?_).mp h)
      rwa [← (List.cons.inj hr).2]
    · rw [unsigned?_point hds hes hnone hstop', Option.isSome_map, Option.isSome_iff_exists] at h
      obtain ⟨e, he⟩ := h
      exact .point hds hes hnone (exponentText_of_exponentPart? he)
  · rw [not_exists] at hpoint
    by_cases hnone : ds = []
    · subst hnone
      exact .name ((unsigned?_isSome_iff_of_no_digit hstop fun r hr => absurd hr (hpoint r)).mp h)
    · rw [unsigned?_whole hds hnone hstop hpoint, Option.isSome_map, Option.isSome_iff_exists] at h
      obtain ⟨e, he⟩ := h
      exact .whole hds hnone (exponentText_of_exponentPart? he)

/-- Names begin with a letter. -/
theorem front_of_name {cs : List Char}
    (h : String.ofList (cs.map Char.toLower) ∈ ["inf", "infinity", "nan"]) :
    ∃ c r, cs = c :: r ∧ (c.toLower = 'i' ∨ c.toLower = 'n') := by
  have hfirst : ((String.ofList (cs.map Char.toLower)).toList).head? ∈ [some 'i', some 'n'] := by
    simp only [List.mem_cons, List.not_mem_nil, or_false] at h
    obtain h | h | h := h <;> rw [h] <;> decide
  rw [String.toList_ofList] at hfirst
  cases cs with
  | nil => exact absurd hfirst (by decide)
  | cons c r =>
      refine ⟨c, r, rfl, ?_⟩
      simpa using hfirst

theorem toLower_of_isDigit {c : Char} (h : isDigit c = true) : c.toLower = c := by
  rw [isDigit, Bool.and_eq_true, decide_eq_true_iff, decide_eq_true_iff] at h
  rw [Char.toLower, dif_neg]
  rintro ⟨hupper, -⟩
  exact absurd (Char.le_trans hupper h.2) (by decide)

theorem unsigned?_isSome_iff {cs : List Char} : (unsigned? cs).isSome = true ↔ UnsignedText cs := by
  constructor
  · exact unsignedText_of_unsigned?
  · intro h
    cases h with
    | whole digits shown ends =>
        obtain ⟨hstop, hpoint⟩ := ends.stops
        obtain ⟨e, he⟩ := ends.exists_exponentPart?
        rw [unsigned?_whole digits shown hstop hpoint, he]
        rfl
    | point digits fraction shown ends =>
        obtain ⟨e, he⟩ := ends.exists_exponentPart?
        rw [unsigned?_point digits fraction shown ends.stops.1, he]
        rfl
    | name h =>
        obtain ⟨c, r, rfl, hc⟩ := front_of_name h
        refine (unsigned?_isSome_iff_of_no_digit ?_ ?_).mpr h
        · refine List.takeWhile_cons_of_neg fun hdigit => ?_
          rw [toLower_of_isDigit hdigit] at hc
          obtain rfl | rfl := hc <;> exact absurd hdigit (by decide)
        · intro r' hr
          obtain rfl := (List.cons.inj hr).1
          exact absurd hc (by decide)

/-- A second sign is part of no number. -/
theorem unsigned?_sign {sign : Char} (h : sign = '-' ∨ sign = '+') (r : List Char) :
    unsigned? (sign :: r) = none := by
  rw [Option.eq_none_iff_forall_ne_some]
  intro x hx
  have hname : String.ofList ((sign :: r).map Char.toLower) ∈ ["inf", "infinity", "nan"] := by
    refine (unsigned?_isSome_iff_of_no_digit ?_ fun r' hr => ?_).mp (Option.isSome_of_eq_some hx)
    · obtain rfl | rfl := h <;> exact List.takeWhile_cons_of_neg (by decide)
    · obtain rfl := (List.cons.inj hr).1
      exact absurd h (by decide)
  obtain ⟨c, r', hr, hc⟩ := front_of_name hname
  obtain rfl := (List.cons.inj hr).1
  obtain rfl | rfl := h <;> exact absurd hc (by decide)

end Unsigned

/-! ### Texts -/

theorem parseFloat?_unsigned {s : String} {x : Float} (h : unsigned? s.toList = some x) :
    parseFloat? s = some x := by
  unfold parseFloat?
  split
  · rename_i hs
    rw [hs, unsigned?_sign (.inl rfl)] at h
    cases h
  · rename_i hs
    rw [hs, unsigned?_sign (.inr rfl)] at h
    cases h
  · exact h

theorem parseFloat?_plus {s : String} {cs : List Char} (hs : s.toList = '+' :: cs) :
    parseFloat? s = unsigned? cs := by
  unfold parseFloat?
  rw [hs]
  rfl

theorem parseFloat?_minus {s : String} {cs : List Char} (hs : s.toList = '-' :: cs) :
    parseFloat? s = (unsigned? cs).map fun x => -x := by
  unfold parseFloat?
  rw [hs]
  rfl

/-- The texts that are read as floats are those of the grammar. -/
theorem parseFloat?_isSome_iff {s : String} : (parseFloat? s).isSome = true ↔ IsLiteral s := by
  constructor
  · intro h
    unfold parseFloat? at h
    split at h
    · rename_i r hs
      rw [Option.isSome_map, unsigned?_isSome_iff] at h
      exact ⟨['-'], r, by decide, hs, h⟩
    · rename_i r hs
      exact ⟨['+'], r, by decide, hs, unsigned?_isSome_iff.mp h⟩
    · exact ⟨[], s.toList, by decide, rfl, unsigned?_isSome_iff.mp h⟩
  · rintro ⟨sign, cs, hsign, hs, hcs⟩
    have hsome := unsigned?_isSome_iff.mpr hcs
    simp only [List.mem_cons, List.not_mem_nil, or_false] at hsign
    obtain rfl | rfl | rfl := hsign
    · obtain ⟨x, hx⟩ := Option.isSome_iff_exists.mp hsome
      rw [List.nil_append] at hs
      rw [← hs] at hx
      rw [parseFloat?_unsigned hx, Option.isSome_some]
    · rwa [parseFloat?_plus hs]
    · rwa [parseFloat?_minus hs, Option.isSome_map]

instance (s : String) : Decidable (IsLiteral s) :=
  decidable_of_iff _ parseFloat?_isSome_iff

example : IsLiteral "+.5E-3" ∧ IsLiteral "Infinity" ∧ ¬ IsLiteral "." ∧ ¬ IsLiteral "1e" := by
  decide +kernel

theorem unsigned?_digits {ds : List Char} (h : Digits ds) (hsome : ds ≠ []) :
    unsigned? ds = some (nearest (valueOf ds) 0) := by
  have hwhole := @unsigned?_whole ds [] h hsome rfl nofun
  rwa [List.append_nil] at hwhole

/-- A text of digits is the float nearest to their value. -/
theorem parseFloat?_of_writes {s : String} {n : Nat} (h : Writes s n) :
    parseFloat? s = some (nearest n 0) := by
  obtain ⟨sign, ds, rfl | rfl, hs, hsome, hds, rfl⟩ := h
  · rw [List.nil_append] at hs
    exact parseFloat?_unsigned (by rw [hs, unsigned?_digits hds hsome])
  · have hplus : parseFloat? s = unsigned? ds := parseFloat?_plus hs
    rw [hplus, unsigned?_digits hds hsome]

/-- Digits after a minus sign are the float nearest to their value, negated. -/
theorem parseFloat?_of_minus {s : String} {ds : List Char} (hs : s.toList = '-' :: ds)
    (h : Digits ds) (hsome : ds ≠ []) : parseFloat? s = some (-(nearest (valueOf ds) 0)) := by
  rw [parseFloat?_minus hs, unsigned?_digits h hsome, Option.map_some]

end CodeReview.Decimal
