import CodeReview.Net.Address
import CodeReview.Proofs.Decimal.Literal
import CodeReview.Proofs.Json.Numeral
import Mathlib

/-!
Socket addresses are read back from the texts that show them, with the run of zero groups that a
text leaves out, with octets at the end, with the number of a link. A text with a colon in its
address is read only if the address stands in brackets.
-/

namespace CodeReview.Net

open Decimal (isDigit digitIn? valueOf valueIn)

/-! ### Digits -/

theorem digits_toDigits (n : Nat) : Decimal.Digits (Nat.toDigits 10 n) := by
  intro c hc
  have h := Nat.isDigit_of_mem_toDigits (by decide) (by decide) hc
  simpa [isDigit, Char.isDigit, Char.le_def] using h

theorem valueOf_toDigits (n : Nat) : valueOf (Nat.toDigits 10 n) = n := by
  have h : Nat.ofDigitChars 10 (Nat.toDigits 10 n) 0 = n := Nat.ofDigitChars_ten_toDigits
  rwa [Nat.ofDigitChars_eq_foldl] at h

/-- A digit in base sixteen, in either case. -/
def isHex (c : Char) : Bool :=
  (digitIn? 16 c).isSome

theorem isHex_eq : (fun c => (digitIn? 16 c).isSome) = isHex := rfl

theorem isHex_of_isDigit {c : Char} (h : isDigit c = true) : isHex c = true := by
  have hle : c.toNat ≤ 57 := by
    rw [isDigit, Bool.and_eq_true, decide_eq_true_iff, decide_eq_true_iff] at h
    exact h.2
  have hlt : c.toNat - 48 < 16 := by omega
  simp [isHex, digitIn?, h, hlt]

theorem digitIn?_digitChar {d : Nat} (h : d < 16) : digitIn? 16 d.digitChar = some d := by
  have hall : ∀ d : Fin 16, digitIn? 16 (Nat.digitChar d) = some d.1 := by decide
  exact hall ⟨d, h⟩

theorem isHex_of_mem_toDigits {n : Nat} : ∀ c ∈ Nat.toDigits 16 n, isHex c = true := by
  induction n using Nat.strongRecOn with
  | ind n ih =>
      have hdigit (d : Nat) (h : d < 16) : isHex d.digitChar = true := by
        rw [isHex, digitIn?_digitChar h, Option.isSome_some]
      rw [Nat.toDigits_eq_if (by decide)]
      split
      · rename_i h
        exact List.forall_mem_singleton.mpr (hdigit n h)
      · rename_i h
        intro c hc
        rcases List.mem_append.mp hc with hc | hc
        · exact ih (n / 16) (by omega) c hc
        · rw [List.mem_singleton.mp hc]
          exact hdigit _ (Nat.mod_lt n (by decide))

theorem valueIn_toDigits (n : Nat) : valueIn 16 (Nat.toDigits 16 n) = n := by
  induction n using Nat.strongRecOn with
  | ind n ih =>
      rw [Nat.toDigits_eq_if (by decide)]
      split
      · rename_i h
        simp [valueIn, digitIn?_digitChar h]
      · rename_i h
        have hrest := ih (n / 16) (by omega)
        rw [valueIn] at hrest
        rw [valueIn, List.filterMap_append, List.foldl_append, hrest]
        simp only [List.filterMap_cons, List.filterMap_nil,
          digitIn?_digitChar (Nat.mod_lt n (by decide : 16 > 0)), List.foldl_cons, List.foldl_nil]
        omega

/-! ### Numbers -/

theorem decimal_append {limit n : Nat} {rest : List Char} (hn : n ≤ limit)
    (hrest : rest.takeWhile isDigit = []) :
    decimal limit (Nat.toDigits 10 n ++ rest) = some (n, rest) := by
  simp only [decimal]
  rw [Decimal.takeWhile_front (digits_toDigits n) hrest,
    Decimal.dropWhile_front (digits_toDigits n) hrest, valueOf_toDigits,
    if_pos ⟨Nat.toDigits_ne_nil, hn⟩]

theorem octet_append {a : UInt8} {rest : List Char} (hrest : rest.takeWhile isDigit = []) :
    octet ((toString a).toList ++ rest) = some (a, rest) := by
  have hlt : a.toNat < 256 := a.toNat_lt
  have htext : (toString a).toList = Nat.toDigits 10 a.toNat := Nat.toList_repr
  have hlength : (Nat.toDigits 10 a.toNat).length ≤ 3 :=
    (Nat.length_toDigits_le_iff (by decide) (by decide)).mpr (by omega)
  have hzero : (Nat.toDigits 10 a.toNat).head? ≠ some '0' ∨
      (Nat.toDigits 10 a.toNat).length = 1 := by
    by_cases h : (Nat.toDigits 10 a.toNat).head? = some '0'
    · rw [Json.eq_zero_of_head_toDigits h]
      exact .inr rfl
    · exact .inl h
  simp only [octet]
  rw [htext, Decimal.takeWhile_front (digits_toDigits _) hrest, if_pos ⟨hlength, hzero⟩,
    decimal_append (by omega) hrest]
  simp

@[simp] theorem char_cons (c : Char) (rest : List Char) : char c (c :: rest) = some ((), rest) := by
  simp [char]

theorem octets_append {o : Octets} {rest : List Char} (hrest : rest.takeWhile isDigit = []) :
    octets (o.render.toList ++ rest) = some (o, rest) := by
  have htext : o.render.toList ++ rest = (toString o.a).toList ++ '.' :: ((toString o.b).toList ++
      '.' :: ((toString o.c).toList ++ '.' :: ((toString o.d).toList ++ rest))) := by
    simp [Octets.render]
  have hpoint (cs : List Char) : ('.' :: cs).takeWhile isDigit = [] := rfl
  rw [htext]
  simp [octets, octet_append, hpoint, hrest]

/-- The digits of a group. -/
def hexOf (g : UInt16) : List Char :=
  Nat.toDigits 16 g.toNat

theorem group_append {g : UInt16} {rest : List Char} (hrest : rest.takeWhile isHex = []) :
    group (hexOf g ++ rest) = some (g, rest) := by
  have hlt : g.toNat < 16 ^ 4 := g.toNat_lt
  have hlength : (hexOf g).length ≤ 4 :=
    (Nat.length_toDigits_le_iff (by decide) (by decide)).mpr hlt
  have hshows : hexOf g ≠ [] := Nat.toDigits_ne_nil
  have hvalue : valueIn 16 (hexOf g) = g.toNat := valueIn_toDigits g.toNat
  have hdigits : ∀ c ∈ hexOf g, isHex c = true := isHex_of_mem_toDigits
  have hfront : (hexOf g ++ rest).takeWhile isHex = hexOf g := by
    rw [List.takeWhile_append_of_pos hdigits, hrest, List.append_nil]
  simp only [group]
  rw [isHex_eq, hfront, if_pos ⟨hshows, hlength⟩, hvalue]
  simp

/-! ### Refusals -/

/-- After the digits at its start, a text of four octets goes on with a point. -/
theorem octets_eq_none {cs : List Char} (h : (cs.dropWhile isDigit).head? ≠ some '.') :
    octets cs = none := by
  have hoctet {a : UInt8} {rest : List Char} (ha : octet cs = some (a, rest)) :
      char '.' rest = none := by
    obtain rfl : cs.dropWhile isDigit = rest := by
      simp only [octet, decimal] at ha
      grind
    cases hrest : cs.dropWhile isDigit with
    | nil => rfl
    | cons c rest =>
        rw [hrest] at h
        exact if_neg fun hc => h (congrArg some hc)
  cases ha : octet cs with
  | none => simp [octets, ha]
  | some p =>
      obtain ⟨a, rest⟩ := p
      simp [octets, ha, hoctet ha]

theorem takeWhile_isDigit_eq_nil {cs : List Char} (h : cs.takeWhile isHex = []) :
    cs.takeWhile isDigit = [] := by
  cases cs with
  | nil => rfl
  | cons c cs =>
      have hc : isHex c = false := by simpa [List.takeWhile_cons] using h
      refine List.takeWhile_cons_of_neg fun hdigit => ?_
      rw [isHex_of_isDigit hdigit] at hc
      cases hc

/-- Four octets begin with a digit. -/
theorem octets_eq_none_of_isHex {cs : List Char} (h : cs.takeWhile isHex = []) :
    octets cs = none := by
  have hoctet : octet cs = none := by
    simp [octet, decimal, takeWhile_isDigit_eq_nil h]
  simp [octets, hoctet]

theorem group_eq_none {cs : List Char} (h : cs.takeWhile isHex = []) : group cs = none := by
  simp only [group]
  rw [isHex_eq, h, if_neg fun h => h.1 rfl]

/-- The text of a group is no beginning of four octets. -/
theorem octets_hex_eq_none {ds rest : List Char} (hds : ∀ c ∈ ds, isHex c = true)
    (hrest : rest.takeWhile isHex = []) (hpoint : rest.head? ≠ some '.') :
    octets (ds ++ rest) = none := by
  apply octets_eq_none
  cases hfront : ds.dropWhile isDigit with
  | nil =>
      rw [List.dropWhile_append, hfront, List.isEmpty_nil, if_pos rfl,
        Decimal.dropWhile_of_takeWhile_eq_nil (takeWhile_isDigit_eq_nil hrest)]
      exact hpoint
  | cons c cs =>
      rw [List.dropWhile_append, hfront, if_neg (by simp)]
      rintro ⟨⟩
      have hmem : '.' ∈ ds := (List.dropWhile_sublist isDigit).subset (by rw [hfront]; simp)
      exact absurd (hds '.' hmem) (by decide)

/-- No group follows: neither a digit nor a point comes next, nor a digit after a colon. -/
structure Closed (rest : List Char) : Prop where
  digit : rest.takeWhile isHex = []
  point : rest.head? ≠ some '.'
  colon : ∀ r, rest = ':' :: r → r.takeWhile isHex = []

/-! ### Groups -/

/-- Groups with a colon before each of them. -/
def colonGroups (gs : List UInt16) : List Char :=
  gs.flatMap fun g => ':' :: hexOf g

theorem toList_showGroups_cons (g : UInt16) (gs : List UInt16) :
    (showGroups (g :: gs)).toList = hexOf g ++ colonGroups gs := by
  induction gs generalizing g with
  | nil => simp [showGroups, colonGroups, hexOf, Text.hexDigits]
  | cons h gs ih =>
      have hnext := ih h
      rw [showGroups, List.map_cons] at hnext ⊢
      rw [List.map_cons, String.intercalate_cons_cons, String.toList_append, String.toList_append,
        hnext]
      simp [colonGroups, hexOf, Text.hexDigits]

variable {rest : List Char}

theorem Closed.colonGroups (h : Closed rest) (gs : List UInt16) :
    (Net.colonGroups gs ++ rest).takeWhile isHex = [] ∧
      (Net.colonGroups gs ++ rest).head? ≠ some '.' := by
  cases gs with
  | nil => exact ⟨h.digit, h.point⟩
  | cons g gs => exact ⟨rfl, by rintro ⟨⟩⟩

/-- One group is read off the front, unless four octets may stand there. -/
theorem groupsUpTo_cons {first : Bool} {g : UInt16} {cs after : List Char} {n : Nat}
    (hstart : (if first then some ((), cs) else char ':' cs) = some ((), hexOf g ++ after))
    (hhex : after.takeWhile isHex = []) (hpoint : after.head? ≠ some '.') :
    groupsUpTo first cs (n + 1) =
      (g :: (groupsUpTo false after n).1, (groupsUpTo false after n).2) := by
  have hoctets : octets (hexOf g ++ after) = none :=
    octets_hex_eq_none isHex_of_mem_toDigits hhex hpoint
  rw [groupsUpTo, hstart]
  simp only [hoctets, ite_self, group_append hhex]

theorem Closed.groupsUpTo_eq (h : Closed rest) (first : Bool) (n : Nat) :
    groupsUpTo first rest n = ([], false, rest) := by
  cases n with
  | zero => rfl
  | succ n =>
      -- Without a colon in front of it there is nothing to read; after one there is no digit.
      have hstart : (if first then some ((), rest) else char ':' rest) = none ∨
          ∃ after, (if first then some ((), rest) else char ':' rest) = some ((), after) ∧
            after.takeWhile isHex = [] := by
        cases first with
        | true => exact .inr ⟨rest, rfl, h.digit⟩
        | false =>
            cases rest with
            | nil => exact .inl rfl
            | cons c after =>
                by_cases hc : c = ':'
                · subst hc
                  exact .inr ⟨after, by simp, h.colon after rfl⟩
                · exact .inl (by simp [char, hc])
      rw [groupsUpTo]
      rcases hstart with hnone | ⟨after, hsome, hafter⟩
      · rw [hnone]
      · rw [hsome]
        simp only [octets_eq_none_of_isHex hafter, ite_self, group_eq_none hafter]

theorem groupsUpTo_colonGroups (h : Closed rest) {gs : List UInt16} {n : Nat}
    (hn : gs.length ≤ n) : groupsUpTo false (colonGroups gs ++ rest) n = (gs, false, rest) := by
  induction gs generalizing n with
  | nil => exact h.groupsUpTo_eq false n
  | cons g gs ih =>
      obtain ⟨n, rfl⟩ : ∃ k, n = k + 1 := ⟨n - 1, by simp at hn; omega⟩
      obtain ⟨hhex, hpoint⟩ := h.colonGroups gs
      rw [groupsUpTo_cons (g := g) (by simp [colonGroups]) hhex hpoint, ih (by simpa using hn)]

theorem groupsUpTo_showGroups (h : Closed rest) {gs : List UInt16} {n : Nat}
    (hn : gs.length ≤ n) :
    groupsUpTo true ((showGroups gs).toList ++ rest) n = (gs, false, rest) := by
  cases gs with
  | nil => exact h.groupsUpTo_eq true n
  | cons g gs =>
      obtain ⟨n, rfl⟩ : ∃ k, n = k + 1 := ⟨n - 1, by simp at hn; omega⟩
      obtain ⟨hhex, hpoint⟩ := h.colonGroups gs
      rw [groupsUpTo_cons (g := g) (by simp [toList_showGroups_cons]) hhex hpoint,
        groupsUpTo_colonGroups h (by simpa using hn)]

/-! ### Runs of zero groups -/

theorem head_zeroRuns {gs : List UInt16} {k : Nat} (h : (zeroRuns gs).head? = some k) :
    gs = List.replicate k 0 ++ gs.drop k := by
  induction gs generalizing k with
  | nil => cases h
  | cons g gs ih =>
      obtain rfl := Option.some.inj h
      split
      · rename_i hg
        subst hg
        cases hruns : (zeroRuns gs).head? with
        | none => rfl
        | some n => simpa [List.replicate_succ] using ih hruns
      · rfl

theorem drop_zeroRuns (gs : List UInt16) (i : Nat) :
    (zeroRuns gs).drop i = zeroRuns (gs.drop i) := by
  induction gs generalizing i with
  | nil => simp [zeroRuns]
  | cons g gs ih =>
      cases i with
      | zero => rfl
      | succ i => exact ih i

theorem foldl_max_mem (ns : List Nat) (n : Nat) : ns.foldl max n = n ∨ ns.foldl max n ∈ ns := by
  induction ns generalizing n with
  | nil => exact .inl rfl
  | cons m ns ih =>
      rw [List.foldl_cons]
      rcases ih (max n m) with h | h
      · rcases Nat.le_total n m with hle | hle
        · rw [h, Nat.max_eq_right hle]
          exact .inr List.mem_cons_self
        · rw [h, Nat.max_eq_left hle]
          exact .inl rfl
      · exact .inr (List.mem_cons_of_mem _ h)

/-- What is left out of a text are zero groups. -/
theorem eq_of_zeroRun {gs : List UInt16} {longest : Nat} (h : longest ∈ zeroRuns gs) :
    let start := (zeroRuns gs).findIdx fun n => n = longest
    gs = gs.take start ++ List.replicate longest 0 ++ gs.drop (start + longest) := by
  intro start
  have hlt : start < (zeroRuns gs).length :=
    List.findIdx_lt_length_of_exists ⟨longest, h, decide_eq_true rfl⟩
  have hstart : (zeroRuns gs)[start] = longest :=
    of_decide_eq_true (List.findIdx_getElem (w := hlt))
  have hhead : (zeroRuns (gs.drop start)).head? = some longest := by
    rw [← drop_zeroRuns, List.head?_drop, List.getElem?_eq_getElem hlt, hstart]
  have hrun := head_zeroRuns hhead
  rw [List.drop_drop] at hrun
  rw [List.append_assoc, ← hrun, List.take_append_drop]

/-! ### Eight groups -/

theorem asGroups_lastOctets (gs : List UInt16) :
    (lastOctets gs).asGroups = [gs[6]?.getD 0, gs[7]?.getD 0] := by
  have hword (w : UInt16) : (w / 256).toUInt8.toUInt16 * 256 + w.toUInt8.toUInt16 = w := by
    apply UInt16.toNat_inj.mp
    have := w.toNat_lt
    simp
    omega
  simp only [lastOctets, Octets.asGroups, hword]

/-- The text of a group and the octets after it, where an address of version 4 stands at the end. -/
theorem groupsUpTo_mapped {o : Octets} (hrest : rest.takeWhile isDigit = []) :
    groupsUpTo true ("ffff:".toList ++ (o.render.toList ++ rest)) 7 =
      (0xFFFF :: o.asGroups, true, rest) := by
  have hdigits : hexOf 0xFFFF = ['f', 'f', 'f', 'f'] := by decide +kernel
  have hgroup : "ffff:".toList ++ (o.render.toList ++ rest) =
      hexOf 0xFFFF ++ ':' :: (o.render.toList ++ rest) := by
    rw [hdigits]
    simp
  have hhex : (':' :: (o.render.toList ++ rest)).takeWhile isHex = [] := rfl
  rw [hgroup, groupsUpTo_cons (g := 0xFFFF) rfl hhex (by rintro ⟨⟩), groupsUpTo]
  simp [octets_append hrest]

/-- The groups on both sides of a double colon. -/
theorem eightGroups_of_gap {front back : List UInt16} {cs after : List Char} {four : Bool}
    (hfront : groupsUpTo true cs 8 = (front, false, ':' :: ':' :: after))
    (hback : groupsUpTo true after (7 - front.length) = (back, four, rest))
    {gs : List UInt16} (hgs : gs.length = 8) (hshort : front.length ≠ 8)
    (hall : front ++ List.replicate (8 - front.length - back.length) 0 ++ back = gs) :
    eightGroups cs = some (⟨gs, hgs⟩, rest) := by
  subst hall
  simp only [eightGroups, hfront, bind, Option.bind, dif_neg hshort, char_cons, hback]
  simp only [Bool.false_eq_true, if_false]
  rw [dif_pos hgs]

theorem closed_gap (after : List Char) : Closed (':' :: ':' :: after) where
  digit := rfl
  point := by rintro ⟨⟩
  colon := by
    rintro r ⟨⟩
    rfl

theorem eightGroups_mapped (hrest : rest.takeWhile isDigit = []) {gs : List UInt16}
    (hgs : gs.length = 8) (hmapped : gs.take 6 = [0, 0, 0, 0, 0, 0xFFFF]) :
    eightGroups (("::ffff:" ++ (lastOctets gs).render).toList ++ rest) =
      some (⟨gs, hgs⟩, rest) := by
  have htext : ("::ffff:" ++ (lastOctets gs).render).toList ++ rest =
      ':' :: ':' :: ("ffff:".toList ++ ((lastOctets gs).render.toList ++ rest)) := by simp
  rw [htext]
  refine eightGroups_of_gap ((closed_gap _).groupsUpTo_eq true 8) (groupsUpTo_mapped hrest) hgs
    (by decide) ?_
  have hlast : gs.drop 6 = (lastOctets gs).asGroups := by
    have h6 : 6 < gs.length := by omega
    have h7 : 7 < gs.length := by omega
    rw [asGroups_lastOctets, List.drop_eq_getElem_cons h6, List.drop_eq_getElem_cons h7,
      List.drop_eq_nil_of_le (Nat.le_of_eq hgs), List.getElem?_eq_getElem h6,
      List.getElem?_eq_getElem h7, Option.getD_some, Option.getD_some]
  rw [← hlast]
  conv_rhs => rw [← List.take_append_drop 6 gs, hmapped]
  simp [hgs]

theorem eightGroups_compressed (h : Closed rest) {gs : List UInt16} (hgs : gs.length = 8)
    {longest : Nat} (hlongest : longest ∈ zeroRuns gs) (hlong : 2 ≤ longest) :
    let start := (zeroRuns gs).findIdx fun n => n = longest
    eightGroups ((showGroups (gs.take start) ++ "::" ++
      showGroups (gs.drop (start + longest))).toList ++ rest) = some (⟨gs, hgs⟩, rest) := by
  intro start
  have hrun : gs = gs.take start ++ List.replicate longest 0 ++ gs.drop (start + longest) :=
    eq_of_zeroRun hlongest
  have hlength := congrArg List.length hrun
  simp only [List.length_append, List.length_take, List.length_replicate, List.length_drop,
    hgs] at hlength
  have hfront : (gs.take start).length = start := by
    rw [List.length_take, hgs]
    omega
  have hback : (gs.drop (start + longest)).length = 8 - (start + longest) := by
    rw [List.length_drop, hgs]
  have htext : (showGroups (gs.take start) ++ "::" ++
      showGroups (gs.drop (start + longest))).toList ++ rest =
        (showGroups (gs.take start)).toList ++
          ':' :: ':' :: ((showGroups (gs.drop (start + longest))).toList ++ rest) := by
    simp
  rw [htext]
  refine eightGroups_of_gap (groupsUpTo_showGroups (closed_gap _) (by omega))
    (groupsUpTo_showGroups h (by omega)) hgs (by omega) ?_
  rw [hfront, hback, show 8 - start - (8 - (start + longest)) = longest by omega]
  exact hrun.symm

theorem eightGroups_showEight (h : Closed rest) {gs : List UInt16} (hgs : gs.length = 8) :
    eightGroups ((showEight gs).toList ++ rest) = some (⟨gs, hgs⟩, rest) := by
  rw [showEight]
  split
  · rename_i hmapped
    exact eightGroups_mapped (takeWhile_isDigit_eq_nil h.digit) hgs hmapped
  · dsimp only
    split
    · have hread := groupsUpTo_showGroups h (Nat.le_of_eq hgs)
      simp only [eightGroups, hread, bind, dif_pos hgs]
    · rename_i hlong
      have hmem : (zeroRuns gs).foldl max 0 ∈ zeroRuns gs :=
        (foldl_max_mem (zeroRuns gs) 0).resolve_left (by omega)
      exact eightGroups_compressed h hgs hmem (by omega)

/-- Eight groups are shown with a colon, and with nothing but digits before the first one. -/
theorem exists_showEight {gs : List UInt16} (hgs : gs.length = 8) :
    ∃ front after, (showEight gs).toList = front ++ ':' :: after ∧ ∀ c ∈ front, isHex c = true := by
  rw [showEight]
  split
  · refine ⟨[], ":ffff:".toList ++ (lastOctets gs).render.toList, ?_, by simp⟩
    rw [String.toList_append]
    rfl
  · dsimp only
    split
    · obtain ⟨g, h, gs, rfl⟩ : ∃ g h tail, gs = g :: h :: tail := by
        match gs, hgs with
        | g :: h :: tail, _ => exact ⟨g, h, tail, rfl⟩
      refine ⟨hexOf g, hexOf h ++ colonGroups gs, ?_, isHex_of_mem_toDigits⟩
      simp [toList_showGroups_cons, colonGroups]
    · generalize gs.take _ = front
      generalize showGroups (gs.drop _) = back
      cases front with
      | nil => exact ⟨[], ':' :: back.toList, by simp [showGroups], by simp⟩
      | cons g front =>
          cases front with
          | nil =>
              refine ⟨hexOf g, ':' :: back.toList, ?_, isHex_of_mem_toDigits⟩
              simp [toList_showGroups_cons, colonGroups]
          | cons h front =>
              refine ⟨hexOf g, hexOf h ++ colonGroups front ++ ':' :: ':' :: back.toList, ?_,
                isHex_of_mem_toDigits⟩
              simp [toList_showGroups_cons, colonGroups]

/-! ### Addresses -/

theorem scope_append {n : UInt32} (hrest : rest.takeWhile isDigit = []) :
    scope ('%' :: ((toString n).toList ++ rest)) = some (n, rest) := by
  have htext : (toString n).toList = Nat.toDigits 10 n.toNat := Nat.toList_repr
  have hle : n.toNat ≤ UInt32.size - 1 := Nat.le_of_lt_succ n.toNat_lt
  rw [htext]
  simp only [scope, bind, Option.bind, char_cons, decimal_append hle hrest]
  simp

theorem bracketed_render (g : Groups) (rest : List Char) :
    bracketed ((IpAddress.v6 g).render.toList ++ rest) = some (g, rest) := by
  obtain ⟨groups, n, hgroups⟩ := g
  have htext : (IpAddress.v6 ⟨groups, n, hgroups⟩).render.toList ++ rest =
      '[' :: ((showEight groups).toList ++
        ((if n = 0 then "" else "%" ++ toString n).toList ++ ']' :: rest)) := by
    simp [IpAddress.render, Groups.render]
  rw [htext]
  by_cases hn : n = 0
  · have hclosed : Closed (']' :: rest) := ⟨rfl, by rintro ⟨⟩, by rintro r ⟨⟩⟩
    subst hn
    simp [bracketed, eightGroups_showEight hclosed hgroups, scope, char]
  · have hclosed : Closed ('%' :: ((toString n).toList ++ ']' :: rest)) :=
      ⟨rfl, by rintro ⟨⟩, by rintro r ⟨⟩⟩
    have hscope : scope ('%' :: ((toString n).toList ++ ']' :: rest)) = some (n, ']' :: rest) :=
      scope_append rfl
    simp [hn, bracketed, eightGroups_showEight hclosed hgroups, hscope]

theorem ipAddress_render (ip : IpAddress) {rest : List Char} (hrest : rest.takeWhile isDigit = []) :
    ipAddress (ip.render.toList ++ rest) = some (ip, rest) := by
  cases ip with
  | v4 o =>
      rw [ipAddress, IpAddress.render, octets_append hrest]
  | v6 g =>
      have hoctets : octets ((IpAddress.v6 g).render.toList ++ rest) = none := by
        apply octets_eq_none_of_isHex
        simp [IpAddress.render, isHex, digitIn?, isDigit]
      rw [ipAddress, hoctets, bracketed_render]
      rfl

/-- A socket address is read back from the text that shows it. -/
theorem ofText?_render (a : SocketAddress) : SocketAddress.ofText? a.render = some a := by
  obtain ⟨ip, port⟩ := a
  have htext : (SocketAddress.render ⟨ip, port⟩).toList =
      ip.render.toList ++ ':' :: (toString port).toList := by
    simp [SocketAddress.render]
  have hport : (toString port).toList = Nat.toDigits 10 port.toNat := Nat.toList_repr
  have hle : port.toNat ≤ UInt16.size - 1 := Nat.le_of_lt_succ port.toNat_lt
  have hread : decimal (UInt16.size - 1) (toString port).toList = some (port.toNat, []) := by
    rw [hport, ← List.append_nil (Nat.toDigits 10 port.toNat), decimal_append hle rfl]
  rw [SocketAddress.ofText?, htext, ipAddress_render ip rfl]
  simp only [bind, Option.bind, char_cons, hread]
  simp

/-! ### Colons outside of brackets -/

section Colons

variable {cs : List Char}

theorem count_char {c : Char} {u : Unit} (hc : c ≠ ':') (h : char c cs = some (u, rest)) :
    cs.count ':' = rest.count ':' := by
  cases cs with
  | nil => cases h
  | cons d cs =>
      simp only [char, Option.ite_none_right_eq_some, Option.some.injEq, Prod.mk.injEq] at h
      obtain ⟨rfl, -, rfl⟩ := h
      exact List.count_cons_of_ne hc

theorem count_decimal {limit n : Nat} (h : decimal limit cs = some (n, rest)) :
    cs.count ':' = rest.count ':' := by
  simp only [decimal, Option.ite_none_right_eq_some, Option.some.injEq, Prod.mk.injEq] at h
  obtain ⟨-, -, rfl⟩ := h
  have hdigits : ':' ∉ cs.takeWhile isDigit := fun hc => by
    cases List.mem_takeWhile_imp hc
  conv_lhs => rw [← List.takeWhile_append_dropWhile (p := isDigit) (l := cs)]
  rw [List.count_append, List.count_eq_zero_of_not_mem hdigits, Nat.zero_add]

theorem count_octet {a : UInt8} (h : octet cs = some (a, rest)) :
    cs.count ':' = rest.count ':' := by
  simp only [octet, Option.ite_none_right_eq_some, Option.map_eq_some_iff, Prod.mk.injEq] at h
  obtain ⟨-, ⟨n, after⟩, hn, -, rfl⟩ := h
  exact count_decimal hn

/-- Four octets are read without a colon. -/
theorem count_octets {o : Octets} (h : octets cs = some (o, rest)) :
    cs.count ':' = rest.count ':' := by
  simp only [octets, bind, Option.bind_eq_some_iff, Prod.exists] at h
  obtain ⟨a, cs₁, ha, _, cs₂, h₁, b, cs₃, hb, _, cs₄, h₂, c, cs₅, hc, _, cs₆, h₃, d, cs₇, hd, h⟩ :=
    h
  cases h
  calc cs.count ':' = cs₁.count ':' := count_octet ha
    _ = cs₂.count ':' := count_char (by decide) h₁
    _ = cs₃.count ':' := count_octet hb
    _ = cs₄.count ':' := count_char (by decide) h₂
    _ = cs₅.count ':' := count_octet hc
    _ = cs₆.count ':' := count_char (by decide) h₃
    _ = rest.count ':' := count_octet hd

end Colons

/-- Without a bracket at its start a text has one colon only, the one before the port. -/
theorem ofText?_eq_none {s : String} (hopen : s.toList.head? ≠ some '[')
    (hcolons : 2 ≤ s.toList.count ':') : SocketAddress.ofText? s = none := by
  have hbracketed : bracketed s.toList = none := by
    cases hs : s.toList with
    | nil => rfl
    | cons c cs =>
        rw [hs] at hopen
        have hc : c ≠ '[' := fun hc => hopen (congrArg some hc)
        simp [bracketed, char, hc]
  rw [Option.eq_none_iff_forall_ne_some]
  intro a ha
  simp only [SocketAddress.ofText?, ipAddress, hbracketed, bind, Option.bind_eq_some_iff,
    Prod.exists] at ha
  obtain ⟨ip, cs, hip, _, after, hcolon, n, rest, hport, hend⟩ := ha
  have hoctets : s.toList.count ':' = cs.count ':' := by
    cases ho : octets s.toList with
    | none =>
        rw [ho] at hip
        cases hip
    | some p =>
        rw [ho] at hip
        cases hip
        exact count_octets ho
  have hone : cs.count ':' = after.count ':' + 1 := by
    cases cs with
    | nil => cases hcolon
    | cons d cs =>
        simp only [char, Option.ite_none_right_eq_some, Option.some.injEq, Prod.mk.injEq] at hcolon
        obtain ⟨rfl, -, rfl⟩ := hcolon
        exact List.count_cons_self
  have hnone : after.count ':' = 0 := by
    obtain ⟨rfl, -⟩ := Option.ite_none_right_eq_some.mp hend
    exact count_decimal hport
  omega

end CodeReview.Net
