import CodeReview.Command.Review
import CodeReview.Proofs.Text.Bytes
import CodeReview.Proofs.Text.Split

/-!
What an environment file does to a program. It adds variables and changes none. Almost nothing that
is wrong with it stops the program: only a value with a NUL in it does, and such a value is there
only if there is a NUL in the file or in the environment.
-/

namespace CodeReview

namespace EnvironmentFile

/-! ### Values

What holds of all characters of a line and of the variables, and of a line break, holds of all
characters of the value that the line writes. -/

section Values

variable {P : Char → Prop} {get : String → String}

theorem all_take (hget : ∀ name, ∀ c ∈ (get name).toList, P c) {name done : List Char}
    (hdone : ∀ c ∈ done, P c) : ∀ c ∈ value.take get name done, P c := by
  intro c hc
  rcases List.mem_append.mp hc with h | h
  · exact hget _ c (List.mem_reverse.mp h)
  · exact hdone c h

theorem all_finish {done : List Char} (hdone : ∀ c ∈ done, P c) :
    ∀ c ∈ (value.finish done).toList, P c := by
  intro c hc
  rw [value.finish, String.toList_ofList, List.mem_reverse] at hc
  exact hdone c hc

theorem all_value (hnewline : P '\n') (hget : ∀ name, ∀ c ∈ (get name).toList, P c)
    {quote : Quote} {mode : Mode} {done cs : List Char} {v : String}
    (h : value get quote mode done cs = some v) (hdone : ∀ c ∈ done, P c)
    (hcs : ∀ c ∈ cs, P c) : ∀ c ∈ v.toList, P c := by
  fun_induction value get quote mode done cs
  -- The value ends here,
  case case1 => cases h; exact all_finish (all_take hget hdone)
  case case3 | case6 => cases h; exact all_finish hdone
  -- or it is none,
  case case2 | case4 | case7 | case10 => cases h
  -- or it goes on: with a character, with the value of a variable, with both, or with nothing yet.
  all_goals rename_i ih; obtain ⟨hc, hrest⟩ := List.forall_mem_cons.mp hcs
  case case8 => exact ih h (List.forall_mem_cons.mpr ⟨hnewline, hdone⟩) hrest
  case case9 | case12 => exact ih h (List.forall_mem_cons.mpr ⟨hc, hdone⟩) hrest
  case case15 | case17 => exact ih h (all_take hget hdone) hrest
  case case16 => exact ih h (List.forall_mem_cons.mpr ⟨hc, all_take hget hdone⟩) hrest
  all_goals first
    | exact ih h hdone hrest
    | exact ih h (List.forall_mem_cons.mpr ⟨hc, hdone⟩) hrest

theorem skipBlanks_suffix (cs : List Char) : skipBlanks cs <:+ cs :=
  List.dropWhile_suffix _

theorem key?_suffix {cs name rest : List Char} (h : key? cs = some (name, rest)) : rest <:+ cs := by
  cases cs with
  | nil => cases h
  | cons c cs =>
      rw [key?] at h
      split at h
      · cases h
        exact (skipBlanks_suffix _).trans (List.dropWhile_suffix _)
      · cases h

theorem equals?_suffix {cs rest : List Char} (h : equals? cs = some rest) : rest <:+ cs := by
  rw [equals?.eq_def] at h
  split at h
  · cases h
    exact List.suffix_cons _ _
  · cases h

theorem assignment?_suffix {cs : List Char} {name : String} {rest : List Char}
    (h : assignment? cs = some (name, rest)) : rest <:+ cs := by
  simp only [assignment?, Option.bind_eq_bind, Option.bind_eq_some_iff] at h
  obtain ⟨⟨key, behind⟩, hkey, h⟩ := h
  have hbehind := key?_suffix hkey
  dsimp only at h
  cases hequals : equals? behind with
  | some found =>
      rw [hequals] at h
      cases h
      exact (equals?_suffix hequals).trans hbehind
  | none =>
      rw [hequals] at h
      dsimp only at h
      split at h
      · simp only [Option.bind_eq_some_iff] at h
        obtain ⟨⟨key', behind'⟩, hkey', found, hfound, h⟩ := h
        cases h
        exact (equals?_suffix hfound).trans ((key?_suffix hkey').trans hbehind)
      · cases h

theorem all_entry (hnewline : P '\n') (hget : ∀ name, ∀ c ∈ (get name).toList, P c)
    {line : List Char} {name v : String} (h : entry? get line = some (some (name, v)))
    (hline : ∀ c ∈ line, P c) : ∀ c ∈ v.toList, P c := by
  have hshort : ∀ c ∈ skipBlanks (line.reverse.dropWhile Text.isBlank).reverse, P c := by
    intro c hc
    have hkept := (skipBlanks_suffix _).subset hc
    rw [List.mem_reverse] at hkept
    exact hline c (List.mem_reverse.mp ((List.dropWhile_suffix _).subset hkept))
  unfold entry? at h
  dsimp only at h
  split at h
  · cases h
  · cases h
  · simp only [Option.bind_eq_bind, Option.bind_eq_some_iff] at h
    obtain ⟨⟨name', rest⟩, hassigns, h⟩ := h
    have hrest : ∀ c ∈ skipBlanks rest, P c := fun c hc =>
      hshort c ((assignment?_suffix hassigns).subset ((skipBlanks_suffix rest).subset hc))
    dsimp only at h
    split at h
    · cases h
      exact nofun
    · cases h
      exact nofun
    · obtain ⟨v', hvalue, hv⟩ := Option.map_eq_some_iff.mp h
      cases hv
      exact all_value hnewline hget hvalue (List.forall_mem_nil P) hrest

end Values

/-! ### Lines -/

section Lines

variable {P : Char → Prop}

/-- This holds of all characters of the lines that can be read. -/
def AllLines (P : Char → Prop) (lines : List (Option (List Char))) : Prop :=
  ∀ line, some line ∈ lines → ∀ c ∈ line, P c

theorem allLines_cons {line : List Char} {rest : List (Option (List Char))} :
    AllLines P (some line :: rest) ↔ (∀ c ∈ line, P c) ∧ AllLines P rest := by
  constructor
  · exact fun h => ⟨h line List.mem_cons_self, fun l hl => h l (List.mem_cons_of_mem _ hl)⟩
  · rintro ⟨hline, hrest⟩ l hl
    rcases List.mem_cons.mp hl with h | h
    · cases h
      exact hline
    · exact hrest l h

theorem withoutNewline_subset (line : List Char) : withoutNewline line ⊆ line := by
  intro c hc
  rw [← List.mem_reverse]
  rw [withoutNewline] at hc
  split at hc <;> simp_all

theorem allLines_joinLines {before : List Char} {mark : Mark} {lines : List (Option (List Char))}
    (hbefore : ∀ c ∈ before, P c) (hlines : AllLines P lines) :
    AllLines P (joinLines before mark lines) := by
  have hnil : ∀ c ∈ [], P c := List.forall_mem_nil P
  fun_induction joinLines before mark lines
  case case1 => exact nofun
  case case2 | case3 => intro line hline; simp at hline
  all_goals
    rename_i ih
    obtain ⟨hline, hrest⟩ := allLines_cons.mp hlines
    have hall := List.forall_mem_append.mpr ⟨hbefore, hline⟩
  case case4 => exact allLines_cons.mpr ⟨hnil, ih hnil hrest⟩
  case case5 =>
    refine allLines_cons.mpr ⟨List.forall_mem_append.mpr ⟨hbefore, fun c hc => ?_⟩, ih hnil hrest⟩
    exact hline c (List.mem_of_mem_take hc)
  case case6 =>
    exact allLines_cons.mpr ⟨fun c hc => hall c (withoutNewline_subset _ hc), ih hnil hrest⟩
  case case7 => exact ih hall hrest

/-- The lines of a file make up the file. -/
theorem flatten_rawLines (b : List UInt8) : (rawLines b).flatten = b := by
  have hparts : ∀ parts : List UInt8 × List (List UInt8),
      (if parts.1 = [] then parts.2 else parts.1 :: parts.2).flatten =
        parts.1 ++ parts.2.flatten := by
    intro parts
    split
    · rename_i h
      rw [h, List.nil_append]
    · rfl
  rw [rawLines, hparts]
  induction b with
  | nil => rfl
  | cons x b ih =>
      rw [List.foldr_cons]
      split
      · rename_i h
        rw [hparts, ih, h]
        rfl
      · rw [List.cons_append, ih]

end Lines

/-! ### Variables -/

/-- There is no NUL in the values. -/
def Clean (env : Variables) : Prop :=
  ∀ x ∈ env, '\x00' ∉ x.2.toList

theorem Clean.lookup {env : Variables} (h : Clean env) {name v : String}
    (hname : env.lookup name = some v) : '\x00' ∉ v.toList := by
  obtain ⟨before, after, henv, -⟩ := List.lookup_eq_some_iff.mp hname
  exact h (name, v) (henv ▸ List.mem_append_right _ List.mem_cons_self)

theorem clean_put {env : Variables} (h : Clean env) {name v : String} (hv : '\x00' ∉ v.toList) :
    Clean (Assoc.put name v env) := by
  induction env with
  | nil => exact List.forall_mem_singleton.mpr hv
  | cons x env ih =>
      obtain ⟨hx, henv⟩ := List.forall_mem_cons.mp h
      rw [Assoc.put]
      split
      · exact List.forall_mem_cons.mpr ⟨hv, henv⟩
      · exact List.forall_mem_cons.mpr ⟨hx, ih henv⟩

section Set

variable {env env' : Variables} {name v : String}

theorem prefix_of_set (h : set env name v = .ok env') : env <+: env' := by
  rw [set] at h
  split at h
  · cases h
    exact List.prefix_rfl
  · split at h
    · cases h
    · cases h
      exact List.prefix_append _ _

theorem set_error {e : Unsettable} (h : set env name v = .error e) :
    '\x00' ∈ e.value.toList ∧ env.lookup e.name = none := by
  rw [set] at h
  split at h
  · cases h
  · rename_i habsent
    split at h
    · rename_i hnul
      cases h
      exact ⟨List.contains_iff_mem.mp hnul, Option.not_isSome_iff_eq_none.mp habsent⟩
    · cases h

theorem exists_set (henv : Clean env) (name : String) (hv : '\x00' ∉ v.toList) :
    ∃ env', set env name v = .ok env' ∧ Clean env' := by
  rw [set]
  split
  · exact ⟨env, rfl, henv⟩
  · rw [if_neg (mt List.contains_iff_mem.mp hv)]
    exact ⟨_, rfl, List.forall_mem_append.mpr ⟨henv, List.forall_mem_singleton.mpr hv⟩⟩

end Set

section Load

variable {env env' stored : Variables} {lines : List (Option (List Char))}

/-- Variables that are there already keep their values, and come first. -/
theorem prefix_of_load (h : load env stored lines = .ok env') : env <+: env' := by
  fun_induction load env stored lines
  case case1 | case2 | case3 => cases h; exact List.prefix_rfl
  case case4 ih => exact ih h
  case case5 => cases h
  case case6 hset ih => exact (prefix_of_set hset).trans (ih h)

/-- What stops the reading is a value with a NUL for a variable that is not there. -/
theorem load_error {e : Unsettable} (h : load env stored lines = .error e) :
    '\x00' ∈ e.value.toList ∧ env.lookup e.name = none := by
  fun_induction load env stored lines
  case case1 | case2 | case3 => cases h
  case case4 ih => exact ih h
  case case5 hset => cases h; exact set_error hset
  case case6 hset ih =>
    obtain ⟨hnul, habsent⟩ := ih h
    rw [List.lookup_eq_none_iff] at habsent ⊢
    exact ⟨hnul, fun x hx => habsent x ((prefix_of_set hset).subset hx)⟩

/-- Without a NUL nothing stops the reading of lines. -/
theorem exists_load (henv : Clean env) (hstored : Clean stored)
    (hlines : AllLines (· ≠ '\x00') lines) : ∃ env', load env stored lines = .ok env' := by
  induction lines generalizing env stored with
  | nil => exact ⟨env, rfl⟩
  | cons line rest ih =>
      cases line with
      | none => exact ⟨env, rfl⟩
      | some line =>
          obtain ⟨hline, hrest⟩ := allLines_cons.mp hlines
          have hget (name : String) : ∀ c ∈
              (((env.lookup name).or (stored.lookup name)).getD "").toList, c ≠ '\x00' := by
            rintro _ hc rfl
            cases hknown : env.lookup name with
            | some v =>
                rw [hknown] at hc
                exact henv.lookup hknown hc
            | none =>
                rw [hknown, Option.none_or] at hc
                cases hfile : stored.lookup name with
                | some v =>
                    rw [hfile] at hc
                    exact hstored.lookup hfile hc
                | none =>
                    rw [hfile] at hc
                    cases hc
          rw [load]
          split
          · exact ⟨env, rfl⟩
          · exact ih henv hstored hrest
          · rename_i name v hentry
            have hv : '\x00' ∉ v.toList := fun hnul =>
              all_entry (by decide) hget hentry hline '\x00' hnul rfl
            obtain ⟨env', hset, henv'⟩ := exists_set henv name hv
            rw [hset]
            exact ih henv' (clean_put hstored hv) hrest

end Load

section Overlay

variable {file : List UInt8} {env env' : Variables}

theorem prefix_of_overlay (h : overlay file env = .ok env') : env <+: env' :=
  prefix_of_load h

theorem overlay_error {e : Unsettable} (h : overlay file env = .error e) :
    '\x00' ∈ e.value.toList ∧ env.lookup e.name = none :=
  load_error h

/-- A NUL in a text is one in its bytes. -/
theorem nul_notMem_of_bytes {b : List UInt8} (hb : 0 ∉ b) {s : String}
    (h : Text.ofBytes? b = some s) : '\x00' ∉ s.toList := by
  intro hnul
  rw [← Text.bytes_of_ofBytes? h, Text.bytes_eq] at hb
  exact hb (List.mem_flatMap.mpr ⟨_, hnul, (Text.mem_utf8EncodeChar_iff (by decide)).mpr rfl⟩)

/-- Without a NUL the whole file is taken. -/
theorem exists_overlay (hfile : 0 ∉ file) (henv : Clean env) :
    ∃ env', overlay file env = .ok env' := by
  -- A byte order mark at the start makes no difference here.
  have hbody {body : List UInt8} (h : body <:+ file) :
      AllLines (· ≠ '\x00')
        ((rawLines body).map fun line => (Text.ofBytes? line).map String.toList) := by
    intro line hline
    obtain ⟨raw, hraw, hread⟩ := List.mem_map.mp hline
    obtain ⟨text, htext, rfl⟩ := Option.map_eq_some_iff.mp hread
    rintro _ hc rfl
    refine nul_notMem_of_bytes (fun hzero => ?_) htext hc
    have hmem := List.mem_flatten.mpr ⟨raw, hraw, hzero⟩
    rw [flatten_rawLines] at hmem
    exact hfile (h.subset hmem)
  unfold overlay
  refine exists_load henv (List.forall_mem_nil _)
    (allLines_joinLines (List.forall_mem_nil _) (hbody ?_))
  split
  · exact ⟨[0xEF, 0xBB, 0xBF], rfl⟩
  · exact List.suffix_rfl

end Overlay

end EnvironmentFile

/-! ### Programs -/

namespace Command

open EnvironmentFile (Clean Unsettable)

variable {w v : World}

/-- The search goes on in the directory above. -/
theorem environmentPaths_append (directory : String) {name : String} (h : '/' ∉ name.toList) :
    environmentPaths (directory ++ "/" ++ name) =
      (directory ++ "/" ++ name ++ "/.env") :: environmentPaths directory := by
  have hnames : Text.split (· = '/') (directory ++ "/" ++ name) =
      Text.split (· = '/') directory ++ [name] := Text.split_append directory h
  have hwhole : "/".intercalate (Text.split (· = '/') directory ++ [name]) =
      directory ++ "/" ++ name := by
    rw [← hnames]
    exact Text.intercalate_split '/' _
  rw [environmentPaths, environmentPaths, hnames]
  generalize Text.split (· = '/') directory = names at hwhole
  rw [List.length_append, List.length_singleton, List.range_succ, List.map_append,
    List.reverse_append, List.map_singleton, List.reverse_singleton, List.singleton_append,
    List.take_of_length_le (by simp), hwhole]
  congr 2
  refine List.map_congr_left fun n hn => ?_
  rw [List.take_append_of_le_length (List.mem_range.mp hn)]

example : environmentPaths "/a/b" = ["/a/b/.env", "/a/.env", "/.env"] := by decide +kernel

/-- What is found stands under one of the paths. -/
theorem firstFile?_eq_some {paths : List String} {bytes : Json.Bytes}
    (h : firstFile? w paths = some bytes) : ∃ path ∈ paths, w.file path = .ok bytes := by
  fun_induction firstFile? w paths
  case case1 | case4 => cases h
  case case2 path paths bytes hfile =>
    cases h
    exact ⟨path, List.mem_cons_self, hfile⟩
  case case3 ih =>
    obtain ⟨path, hpath, hfile⟩ := ih h
    exact ⟨path, List.mem_cons_of_mem _ hpath, hfile⟩

/-- The environment file changes nothing but the variables, and of these it changes none. -/
theorem withEnvironmentFile_ok (h : withEnvironmentFile w = .ok v) :
    w.variables <+: v.variables ∧ v = { w with «variables» := v.variables } := by
  rw [withEnvironmentFile] at h
  split at h
  · rename_i bytes _
    cases hfound : EnvironmentFile.overlay bytes w.variables with
    | error e =>
        rw [hfound] at h
        cases h
    | ok found =>
        rw [hfound] at h
        cases h
        exact ⟨EnvironmentFile.prefix_of_overlay hfound, rfl⟩
  · cases h
    exact ⟨List.prefix_rfl, rfl⟩

theorem withEnvironmentFile_error {e : Unsettable} (h : withEnvironmentFile w = .error e) :
    '\x00' ∈ e.value.toList ∧ w.variables.lookup e.name = none := by
  rw [withEnvironmentFile] at h
  split at h
  · rename_i bytes _
    cases hfound : EnvironmentFile.overlay bytes w.variables with
    | error e' =>
        rw [hfound] at h
        cases h
        exact EnvironmentFile.overlay_error hfound
    | ok found =>
        rw [hfound] at h
        cases h
  · cases h

/-- Without a NUL in an environment file, and in the environment, there is nothing that stops the
program. -/
theorem exists_withEnvironmentFile (hvariables : Clean w.variables)
    (hfiles : ∀ path ∈ environmentPaths w.directory, ∀ bytes, w.file path = .ok bytes →
      0 ∉ bytes) : ∃ v, withEnvironmentFile w = .ok v := by
  rw [withEnvironmentFile]
  split
  · rename_i bytes hbytes
    obtain ⟨path, hpath, hfile⟩ := firstFile?_eq_some hbytes
    obtain ⟨found, hfound⟩ :=
      EnvironmentFile.exists_overlay (hfiles path hpath bytes hfile) hvariables
    rw [hfound]
    exact ⟨_, rfl⟩
  · exact ⟨w, rfl⟩

end Command

end CodeReview
