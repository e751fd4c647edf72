import CodeReview.Json.Record
import Mathlib.Data.List.Forall2

/-!
Records of two types that are written in the same way. When each member does to one record what the
other one does to its image under a function, then a text is read as the image of what it is read as
first, with the same faults.
-/

namespace CodeReview.Json

section Loops
variable {σ τ : Type} {f : σ → τ}

theorem within_map (place : Place) {s : Bytes} (r : Except Fault (Parsed σ s)) :
    within place (r.map (Parsed.map f)) = (within place r).map (Parsed.map f) := by
  cases r <;> rfl

theorem memberValue_map (name : String) (read : (s : Bytes) → Except Fault (Parsed σ s))
    (s : Bytes) :
    memberValue name (fun s => (read s).map (Parsed.map f)) s =
      (memberValue name read s).map (Parsed.map f) := by
  unfold memberValue
  cases colon s with
  | error fault => rfl
  | ok c =>
      simp only [bind, Except.bind, within_map]
      cases within (.key name) (read c.rest) <;> rfl

variable {member : String → σ → (s : Bytes) → Except Fault (Parsed σ s)}
    {member' : String → τ → (s : Bytes) → Except Fault (Parsed τ s)}
    (hmember : ∀ name state s, member' name (f state) s = (member name state s).map (Parsed.map f))
include hmember

theorem members_map (start s : Bytes) (h : s.length < start.length) (state : σ) :
    members member' start s h (f state) = (members member start s h state).map (Parsed.map f) := by
  fun_induction members member start s h state with
  | case1 s h state ih =>
      rw [members]
      cases scanText s with
      | error fault => rfl
      | ok name =>
          simp only [bind, Except.bind, hmember]
          cases member name.value state name.rest with
          | error fault => rfl
          | ok p =>
              simp only [Except.map, Parsed.map]
              cases next p.rest with
              | none => rfl
              | some q =>
                  dsimp only
                  split
                  · rfl
                  · split
                    · cases next q.rest with
                      | none => rfl
                      | some r =>
                          dsimp only
                          split
                          · exact ih name p q r
                          · split <;> rfl
                    · rfl

theorem membersFrom_map {s : Bytes} (state : σ) (p : Parsed Unit s) :
    membersFrom member' (f state) p = (membersFrom member state p).map (Parsed.map f) := by
  unfold membersFrom
  cases next p.rest with
  | none => rfl
  | some q =>
      dsimp only
      split
      · rfl
      · split
        · exact members_map hmember ..
        · rfl

end Loops

namespace Reader

theorem map_map {α β γ : Type} (r : Reader α) (f : α → β) (g : β → γ) :
    (r.map f).map g = r.map fun a => g (f a) := by
  funext depth s
  simp only [Reader.map]
  cases r depth s <;> rfl

end Reader

namespace Shape

variable {ρ σ : Type} {f : ρ → σ}

/-- The members have the same name and are read by the same reader, and what they do to a record and
to its image goes along with the function. -/
inductive Corresponds (f : ρ → σ) : Member ρ → Member σ → Prop where
  | member {α : Type} {key : String} {presence : Presence} {r : Reader α} {set : α → ρ → ρ}
      {set' : α → σ → σ} (image : ∀ a x, f (set a x) = set' a (f x)) :
      Corresponds f (member key presence r set) (member key presence r set')

theorem Corresponds.key {m : Member ρ} {m' : Member σ} (h : Corresponds f m m') :
    m'.key = m.key := by
  cases h
  rfl

theorem Corresponds.presence {m : Member ρ} {m' : Member σ} (h : Corresponds f m m') :
    m'.presence = m.presence := by
  cases h
  rfl

theorem find?_corresponds {ms : List (Member ρ)} {ms' : List (Member σ)}
    (h : List.Forall₂ (Corresponds f) ms ms') (p : Member ρ → Bool) (p' : Member σ → Bool)
    (hp : ∀ m m', Corresponds f m m' → p' m' = p m) :
    (ms.find? p = none ∧ ms'.find? p' = none) ∨
      ∃ m m', ms.find? p = some m ∧ ms'.find? p' = some m' ∧ Corresponds f m m' := by
  induction h with
  | nil => exact .inl ⟨rfl, rfl⟩
  | @cons m m' ms ms' hm _ ih =>
      rw [List.find?_cons, List.find?_cons, hp m m' hm]
      cases p m with
      | true => exact .inr ⟨m, m', rfl, rfl, hm⟩
      | false => exact ih

/-- What was read so far of the image. -/
def Partial.map (f : ρ → σ) (state : Partial ρ) : Partial σ :=
  ⟨state.seen, f state.record⟩

theorem itemsAfter_map {shape : Shape ρ} {shape' : Shape σ} (hname : shape'.name = shape.name)
    (hlength : shape'.members.length = shape.members.length) (depth : Nat)
    {ms : List (Member ρ)} {ms' : List (Member σ)} (h : List.Forall₂ (Corresponds f) ms ms')
    (n : Nat) (record : ρ) (s : Bytes) :
    shape'.itemsAfter depth n (f record) s ms' =
      (shape.itemsAfter depth n record s ms).map (Parsed.map f) := by
  induction h generalizing n record s with
  | nil =>
      simp only [itemsAfter]
      cases listEnd s <;> rfl
  | @cons m m' ms ms' hm _ ih =>
      simp only [itemsAfter, hm.presence, hname, hlength]
      cases nextItem n s with
      | error fault => rfl
      | ok item =>
          cases item with
          | none =>
              simp only [bind, Except.bind]
              split
              · exact ih ..
              · rfl
          | some t =>
              cases hm with
              | @member α key presence r set set' image =>
                  simp only [bind, Except.bind, member, Reader.map, within_map]
                  cases within (.index n) (r depth t.1) with
                  | error fault => rfl
                  | ok p =>
                      simp only [Except.map, Parsed.map, ← image, ih]
                      cases shape.itemsAfter depth (n + 1) (set p.value record) p.rest ms <;> rfl

section Members

variable {shape : Shape ρ} {shape' : Shape σ}
  (hmembers : List.Forall₂ (Corresponds f) shape.members shape'.members)
include hmembers

theorem memberAfter_map (depth : Nat) (name : String) (state : Partial ρ) (s : Bytes) :
    shape'.memberAfter depth name (Partial.map f state) s =
      (shape.memberAfter depth name state s).map (Parsed.map (Partial.map f)) := by
  unfold memberAfter
  obtain ⟨hm, hm'⟩ | ⟨m, m', hm, hm', hcorr⟩ := find?_corresponds hmembers
    (fun m => m.key = name) (fun m => m.key = name) fun m m' h => by rw [h.key]
  · rw [hm, hm']
    dsimp only
    cases memberValue name skip s <;> rfl
  · rw [hm, hm']
    cases hcorr with
    | @member α key presence r set set' image =>
        dsimp only
        by_cases hseen : key ∈ state.seen
        · rw [if_pos (show (member key presence r set').key ∈ (Partial.map f state).seen from hseen),
            if_pos (show (member key presence r set).key ∈ state.seen from hseen)]
          rfl
        · rw [if_neg (show (member key presence r set').key ∉ (Partial.map f state).seen from hseen),
            if_neg (show (member key presence r set).key ∉ state.seen from hseen)]
          have hread {β : Type} (g : α → β) : memberValue name (r.map g depth) s =
              (memberValue name (r depth) s).map (Parsed.map g) :=
            memberValue_map name (r depth) s
          simp only [member, hread]
          cases memberValue name (r depth) s with
          | error fault => rfl
          | ok p => simp only [Except.map, Parsed.map, image, Partial.map]

theorem missing?_corresponds (seen : List String) : shape'.missing? seen = shape.missing? seen := by
  unfold missing?
  obtain ⟨hm, hm'⟩ | ⟨m, m', hm, hm', hcorr⟩ := find?_corresponds hmembers
    (fun m => m.presence = .required ∧ m.key ∉ seen)
    (fun m => m.presence = .required ∧ m.key ∉ seen)
    fun m m' h => by rw [h.key, h.presence]
  · rw [hm, hm']
    rfl
  · rw [hm, hm', Option.map_some, Option.map_some, hcorr.key]

theorem ofObject_map (hblank : shape'.blank = f shape.blank) {s : Bytes} (depth : Nat)
    (p : Parsed Unit s) :
    shape'.ofObject depth p = (shape.ofObject depth p).map (Parsed.map f) := by
  have hread := membersFrom_map (memberAfter_map hmembers depth)
    (⟨[], shape.blank⟩ : Partial ρ) p
  unfold ofObject
  rw [hblank]
  change (membersFrom (shape'.memberAfter depth) (Partial.map f ⟨[], shape.blank⟩) p >>= _) = _
  rw [hread]
  cases membersFrom (shape.memberAfter depth) (⟨[], shape.blank⟩ : Partial ρ) p with
  | error fault => rfl
  | ok q =>
      simp only [Except.map, bind, Except.bind, Parsed.map, Partial.map,
        missing?_corresponds hmembers]
      cases shape.missing? q.value.seen <;> rfl

/-- A text is read as the image of the record that it is read as. -/
theorem reader_map (hname : shape'.name = shape.name) (hblank : shape'.blank = f shape.blank) :
    shape'.reader = shape.reader.map f := by
  funext depth s
  simp only [reader, Reader.map]
  cases head s with
  | error fault => rfl
  | ok r =>
      cases r with
      | scalar p => simp only [bind, Except.bind, hname]; rfl
      | container c p =>
          cases depth with
          | zero => rfl
          | succ depth =>
              cases c with
              | list =>
                  have hlength := hmembers.length_eq
                  simp only [bind, Except.bind, hblank,
                    itemsAfter_map hname hlength.symm depth hmembers]
                  cases shape.itemsAfter depth 0 shape.blank p.rest shape.members <;> rfl
              | object => exact ofObject_map hmembers hblank depth p

end Members

end Shape

/-- What a document is read as, and with which faults, goes along with the function. -/
theorem readText_map {α β : Type} (r : Reader α) (f : α → β) (t : String) :
    readText (r.map f) t = (readText r t).map f := by
  simp only [readText, read, Reader.map]
  cases r maxDepth (Text.bytes t) with
  | error fault => rfl
  | ok p =>
      simp only [Except.map, bind, Except.bind, Parsed.map]
      cases next p.rest <;> rfl

end CodeReview.Json
