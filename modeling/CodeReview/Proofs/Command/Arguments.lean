import CodeReview.Command.Arguments
import Mathlib.Data.List.Basic

/-!
What reading arguments gives: every switch that was taken is one of the grammar, and its value is
one that the switch understands.
-/

namespace CodeReview.Arguments

/-- The switches are among those of the grammar, with values that these understand. -/
def Given.Conforms (grammar : Grammar) (g : Given) : Prop :=
  ∀ taken ∈ g.switches, ∃ s ∈ grammar.switches, s.long = taken.1 ∧ s.accepts taken.2 = true

/-- A switch whose value is still to come is one of the grammar. -/
def Awaits (grammar : Grammar) (pending : Option Switch) : Prop :=
  ∀ s, pending = some s → s ∈ grammar.switches

variable {grammar : Grammar} {g g' : Given} {pending pending' : Option Switch}

theorem conforms_empty : Given.empty.Conforms grammar := by
  simp [Given.Conforms, Given.empty]

theorem awaits_none : Awaits grammar none := by
  intro s h
  cases h

theorem awaits_some {s : Switch} (hs : s ∈ grammar.switches) : Awaits grammar (some s) := by
  rintro _ ⟨⟩
  exact hs

/-! ### Steps -/

/-- A switch is taken with a value that it understands, behind those that were taken before. -/
theorem takeSwitch_ok {s : Switch} {value : String} (h : g.takeSwitch s value = .ok g') :
    s.accepts value = true ∧ g' = { g with switches := g.switches ++ [(s.long, value)] } := by
  rw [Given.takeSwitch] at h
  split at h
  · cases h
  · cases h
  · split at h
    · cases h
    · rename_i hfree
      simp only [Bool.or_eq_true, not_or, Bool.not_eq_true', Bool.not_eq_false] at hfree
      exact ⟨hfree.1, (Except.ok.inj h).symm⟩

theorem takeOperand_ok {value : String} (h : g.takeOperand grammar value = .ok g') :
    g' = { g with operands := g.operands ++ [value] } := by
  rw [Given.takeOperand] at h
  split at h
  · cases h
  · exact (Except.ok.inj h).symm

theorem conforms_takeSwitch {s : Switch} {value : String} (hs : s ∈ grammar.switches)
    (hg : g.Conforms grammar) (h : g.takeSwitch s value = .ok g') : g'.Conforms grammar := by
  obtain ⟨haccepts, rfl⟩ := takeSwitch_ok h
  rw [Given.Conforms, List.forall_mem_append, List.forall_mem_singleton]
  exact ⟨hg, s, hs, rfl, haccepts⟩

theorem conforms_takeOperand {value : String} (hg : g.Conforms grammar)
    (h : g.takeOperand grammar value = .ok g') : g'.Conforms grammar := by
  rw [takeOperand_ok h]
  exact hg

/-- The same where the value stands in the argument of the switch. -/
theorem conforms_map_takeSwitch {s : Switch} {value : String} (hs : s ∈ grammar.switches)
    (hg : g.Conforms grammar)
    (h : (g.takeSwitch s value).map (fun g => (g, none)) = .ok (g', pending)) :
    g'.Conforms grammar ∧ Awaits grammar pending := by
  cases htake : g.takeSwitch s value with
  | error e =>
      rw [htake] at h
      cases h
  | ok g =>
      rw [htake] at h
      cases h
      exact ⟨conforms_takeSwitch hs hg htake, awaits_none⟩

theorem conforms_takeShort {cs : List Char} (hg : g.Conforms grammar)
    (h : takeShort grammar g cs = .ok (g', pending)) :
    g'.Conforms grammar ∧ Awaits grammar pending := by
  fun_induction takeShort grammar g cs with
  | case1 g =>
      cases h
      exact ⟨hg, awaits_none⟩
  | case2 | case6 => cases h
  | case3 g c s hfind =>
      cases h
      exact ⟨hg, awaits_some (List.mem_of_find?_eq_some hfind)⟩
  | case4 g c s hfind | case5 g c s hfind =>
      exact conforms_map_takeSwitch (List.mem_of_find?_eq_some hfind) hg h
  | case7 g c rest s hfind hvalue g₁ htake ih =>
      exact ih (conforms_takeSwitch (List.mem_of_find?_eq_some hfind) hg htake) h

theorem conforms_takeLong {cs : List Char} (hg : g.Conforms grammar)
    (h : takeLong grammar g cs = .ok (g', pending)) :
    g'.Conforms grammar ∧ Awaits grammar pending := by
  rw [takeLong] at h
  split at h
  · cases h
  · rename_i s hfind
    have hs : s ∈ grammar.switches := List.mem_of_find?_eq_some hfind
    split at h
    · cases h
      exact ⟨hg, awaits_some hs⟩
    · exact conforms_map_takeSwitch hs hg h
    · exact conforms_map_takeSwitch hs hg h
    · cases h

/-! ### Runs -/

theorem conforms_readFrom {args : List String} {plain : Bool} (hg : g.Conforms grammar)
    (hpending : Awaits grammar pending) (h : readFrom grammar g pending plain args = .ok g') :
    g'.Conforms grammar := by
  -- The invariant is carried by each way in which one argument is taken; the other cases fail.
  fun_induction readFrom grammar g pending plain args with
  | case1 | case3 | case4 | case7 | case8 | case9 | case11 | case13 | case16 | case17 => cases h
  | case2 g =>
      rw [Given.complete] at h
      split at h
      · cases h
      · cases h
        exact hg
  | case5 g pending arg rest hnone g₁ htake ih =>
      exact ih (conforms_takeOperand hg htake) awaits_none h
  | case6 g pending plain arg rest hplain hdashes ih => exact ih hg hpending h
  | case10 g plain arg rest hplain s g₁ htake =>
      rename_i ih
      exact ih (conforms_takeSwitch (hpending s rfl) hg htake) awaits_none h
  | case12 g plain arg rest hplain name hname harg g₁ pending htake ih =>
      obtain ⟨hg₁, hpending₁⟩ := conforms_takeLong hg htake
      exact ih hg₁ hpending₁ h
  | case14 g plain arg rest hplain c names hdash hc harg g₁ pending htake ih =>
      obtain ⟨hg₁, hpending₁⟩ := conforms_takeShort hg htake
      exact ih hg₁ hpending₁ h
  | case15 g =>
      cases h
      exact hg
  | case18 g plain arg rest hplain hcommand hhelp g₁ htake =>
      rename_i ih
      exact ih (conforms_takeOperand hg htake) awaits_none h

theorem conforms_read {args : List String} (h : read grammar args = .ok g) : g.Conforms grammar :=
  conforms_readFrom conforms_empty awaits_none h

/-- The value of a switch is one that a switch of this name understands. -/
theorem Given.Conforms.accepts (hg : g.Conforms grammar) {long value : String}
    (h : g.value? long = some value) :
    ∃ s ∈ grammar.switches, s.long = long ∧ s.accepts value = true := by
  obtain ⟨before, after, hswitches, -⟩ := List.lookup_eq_some_iff.mp h
  have hmem : (long, value) ∈ g.switches := by
    rw [hswitches]
    exact List.mem_append_right _ List.mem_cons_self
  exact hg _ hmem

end CodeReview.Arguments
