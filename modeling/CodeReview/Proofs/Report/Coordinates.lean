import CodeReview.Proofs.Decimal.Literal
import CodeReview.Proofs.Decimal.Whole
import CodeReview.Report.Findings

/-!
The lines and columns of a finding. A model may write them as numbers or as texts, in the entry or
in a `location` of its own, and each is read on its way through a float. Whole numbers come out as
they were written, cut to 32 bits; what is no number from one on makes way for the next source.
-/

namespace CodeReview

open Decimal (FromOne IsLiteral StandsFor Writes)

/-! ### What a value says -/

namespace Json

/-- The value is the number, which is from one on and fits into 64 bits, or a text of its digits. -/
inductive Usable : Json → Nat → Prop where
  | number {n : Nat} (one_le : 1 ≤ n) (fits : n < 2 ^ 64) : Usable (.number (.integer n)) n
  | text {s : String} {n : Nat} (one_le : 1 ≤ n) (fits : n < 2 ^ 64)
    (written : Writes (Text.trim s) n) : Usable (.text s) n

/-- The value is no number from one on. A minus zero and the integers below those of 64 bits are
read as floats, so floats up to zero are among them. -/
inductive Unusable : Json → Prop where
  | null : Unusable .null
  | bool (b : Bool) : Unusable (.bool b)
  | list (items : List Json) : Unusable (.list items)
  | object (members : List (String × Json)) : Unusable (.object members)
  | integer {i : Int} (h : i ≤ 0) : Unusable (.number (.integer i))
  | real {x : Float} (h : x ≤ 0.0) : Unusable (.number (.real x))
  | other {s : String} (h : ¬ IsLiteral (Text.trim s)) : Unusable (.text s)
  | zero {s : String} (h : Writes (Text.trim s) 0) : Unusable (.text s)
  | negative {s : String} {ds : List Char} (h : (Text.trim s).toList = '-' :: ds) (shown : ds ≠ [])
    (digits : Decimal.Digits ds) : Unusable (.text s)

/-- A member that may be absent says a number, or nothing. -/
inductive Says : Option Json → Option Nat → Prop where
  | absent : Says none none
  | usable {v : Json} {n : Nat} (h : v.Usable n) : Says (some v) (some n)
  | unusable {v : Json} (h : v.Unusable) : Says (some v) none

theorem Usable.exists_looseNumber? {v : Json} {n : Nat} (h : v.Usable n) :
    ∃ x, v.looseNumber? = some x ∧ StandsFor x n := by
  cases h with
  | number one_le fits =>
      exact ⟨_, congrArg some (Decimal.floatOfInt_natCast n),
        Decimal.standsFor_toFloat one_le fits⟩
  | text one_le fits written =>
      exact ⟨_, Decimal.parseFloat?_of_writes written, Decimal.standsFor_nearest one_le fits⟩

theorem Unusable.not_fromOne {v : Json} {x : Float} (h : v.Unusable)
    (hx : v.looseNumber? = some x) : ¬ FromOne x := by
  cases h with
  | null => cases hx
  | bool b => cases hx
  | list items => cases hx
  | object members => cases hx
  | integer h =>
      cases hx
      exact Decimal.not_fromOne_floatOfInt h
  | real h =>
      cases hx
      exact Decimal.not_fromOne_of_le_zero h
  | other h => exact absurd (Decimal.parseFloat?_isSome_iff.mp (Option.isSome_of_eq_some hx)) h
  | zero h =>
      rw [looseNumber?, Decimal.parseFloat?_of_writes h] at hx
      cases hx
      exact Decimal.not_fromOne_of_le_zero (by decide +kernel)
  | negative h shown digits =>
      rw [looseNumber?, Decimal.parseFloat?_of_minus h digits shown] at hx
      cases hx
      exact (Decimal.notNegative_nearest _).not_fromOne_neg

end Json

/-! ### Coordinates -/

namespace Location

open Json (Says)

theorem coordinate?_of_fromOne {v : Json} {x : Float} (h : v.looseNumber? = some x)
    (hx : FromOne x) : coordinate? v = some x.toUInt32 := by
  rw [coordinate?, h]
  simp only [hx.1, hx.2, decide_true, Bool.and_self, if_true]

theorem coordinate?_eq_none {v : Json} (h : ∀ x, v.looseNumber? = some x → ¬ FromOne x) :
    coordinate? v = none := by
  unfold coordinate?
  split
  · rename_i x hx
    refine if_neg fun hone => h x hx ?_
    rwa [Bool.and_eq_true, decide_eq_true_iff] at hone
  · rfl

/-- The coordinate of a source is what it says, cut to 32 bits. -/
theorem map_coordinate?_of_says {source : Option Json} {said : Option Nat}
    (h : Says source said) :
    (source.bind coordinate?).map UInt32.toNat = said.map fun n => min n (2 ^ 32 - 1) := by
  cases h with
  | absent => rfl
  | usable h =>
      obtain ⟨x, hx, hstands⟩ := h.exists_looseNumber?
      rw [Option.bind_some, coordinate?_of_fromOne hx hstands.fromOne, Option.map_some,
        Option.map_some, hstands.cut]
  | unusable h =>
      rw [Option.bind_some, coordinate?_eq_none fun x => h.not_fromOne]
      rfl

variable {entry : Json} {key : String} {flat nested : Option Nat}

theorem toNat_coordinate (hflat : Says (entry.field? key) flat)
    (hnested : flat = none → Says ((entry.field? "location").bind (Json.field? key)) nested) :
    (coordinate entry key).toNat = min ((flat.or nested).getD 1) (2 ^ 32 - 1) := by
  have htop := map_coordinate?_of_says hflat
  rw [coordinate]
  cases flat with
  | some n =>
      obtain ⟨c, hc, hn⟩ := Option.map_eq_some_iff.mp htop
      rw [hc]
      exact hn
  | none =>
      have hinner := map_coordinate?_of_says (hnested rfl)
      rw [Option.map_eq_none_iff.mp htop, Option.none_or]
      cases nested with
      | some n =>
          obtain ⟨c, hc, hn⟩ := Option.map_eq_some_iff.mp hinner
          rw [hc]
          exact hn
      | none =>
          rw [Option.map_eq_none_iff.mp hinner]
          rfl

/-- The names of the parts of a location. -/
def parts : List String :=
  ["startLine", "startColumn", "endLine", "endColumn"]

/-- Each part of a location is the first number that is said of it, cut to 32 bits: by the entry
itself, and only if that says nothing, by the `location` of the entry. It is one if neither says a
number. -/
theorem field?_toJson_ofEntry (hkey : key ∈ parts) (hflat : Says (entry.field? key) flat)
    (hnested : flat = none → Says ((entry.field? "location").bind (Json.field? key)) nested) :
    (ofEntry entry).toJson.field? key =
      some (.ofNat (min ((flat.or nested).getD 1) (2 ^ 32 - 1))) := by
  have hcoordinate : (ofEntry entry).toJson.field? key =
      some (.ofNat (coordinate entry key).toNat) := by
    simp only [parts, List.mem_cons, List.not_mem_nil, or_false] at hkey
    obtain rfl | rfl | rfl | rfl := hkey <;> rfl
  rw [hcoordinate, toNat_coordinate hflat hnested]

/-- A text that is no number makes way for the largest number of 64 bits. -/
theorem field?_toJson_ofEntry_endLine :
    (ofEntry (.object [("endLine", .text "line 3"),
      ("location", .object [("endLine", .text " +0018446744073709551615")])])).toJson.field?
        "endLine" = some (.ofNat (2 ^ 32 - 1)) := by
  have hflat : Json.Unusable (.text "line 3") := .other (by decide +kernel)
  have hdigits : Decimal.Digits "0018446744073709551615".toList :=
    List.all_eq_true.mp (by decide +kernel)
  have hnested : Json.Usable (.text " +0018446744073709551615") (2 ^ 64 - 1) :=
    .text (by decide) (by decide)
      ⟨['+'], _, .inr rfl, by decide +kernel, by decide +kernel, hdigits, by decide +kernel⟩
  have hcut : min ((Option.or none (some (2 ^ 64 - 1))).getD 1) (2 ^ 32 - 1) = 2 ^ 32 - 1 := by
    decide
  rw [← hcut]
  apply field?_toJson_ofEntry
  · decide
  · exact .unusable hflat
  · exact fun _ => .usable hnested

end Location

end CodeReview
