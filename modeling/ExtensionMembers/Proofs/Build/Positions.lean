import ExtensionMembers.Proofs.Build.Completion
import ExtensionMembers.Proofs.Build.Places

/-!
# Positions in files

If files have distinct numbers, a scope is known by its file and by its position in the file, and
the scopes of each file start at one place.

* `ScopeTable.place?`: the file and the position of a scope, with `ScopeTable.place?_inj`.
* `Outline.start`: where the scopes of a file start.
* `declaredFrom_eq_flatMap`: the declarations of all files, file by file.
* `Registry.Holds.place?_of_startsAt`, `Registry.Holds.exists_startsAt_of_place?`: the places of a
  finished registry.
-/

namespace ExtensionMembers

/-- The file of a scope in the `ScopeTable`, and the position of the scope among those of the
file. -/
def ScopeTable.place? (table : ScopeTable) (id : ScopeId) : Option (FileId × Nat) :=
  (table.get? id).map fun scope =>
    (scope.file, (table.scopes.take id.index).countP (·.file = scope.file))

theorem ScopeTable.isSome_place? {table : ScopeTable} {id : ScopeId} :
    (table.place? id).isSome = (table.get? id).isSome :=
  Option.isSome_map

/-- No two scopes have the same `ScopeTable.place?`. -/
theorem ScopeTable.place?_inj {table : ScopeTable} {id other : ScopeId} {place : FileId × Nat}
    (h : table.place? id = some place) (hother : table.place? other = some place) : id = other := by
  have hlt : ∀ {id other : ScopeId}, table.place? id = some place →
      table.place? other = some place → ¬ id.index < other.index := by
    intro id other h hother hlt
    obtain ⟨scope, hscope, rfl⟩ := Option.map_eq_some_iff.1 h
    obtain ⟨scope', hscope', heq⟩ := Option.map_eq_some_iff.1 hother
    obtain ⟨hfile, hcount⟩ := Prod.mk.inj heq
    -- The later scope counts the earlier one as well.
    obtain ⟨hindex, hget⟩ := List.getElem?_eq_some_iff.1 hscope
    have hsplit : table.scopes.take (id.index + 1) <+: table.scopes.take other.index :=
      List.take_prefix_take_left hlt
    have hle := hsplit.sublist.countP_le (p := fun next : Scope => decide (next.file = scope.file))
    rw [List.take_succ_eq_append_getElem hindex, List.countP_append] at hle
    simp only [hfile] at hcount
    simp [hget] at hle
    omega
  have hle := hlt h hother
  have hge := hlt hother h
  cases id
  cases other
  simp only at hle hge
  congr 1
  omega

theorem countP_scopesFrom_eq_zero {outlines : List Outline} {file : FileId}
    (h : file ∉ outlines.map (·.file)) (first : Nat) :
    (scopesFrom first outlines).countP (·.file = file) = 0 := by
  refine List.countP_eq_zero.2 fun placed hplaced hfile => h ?_
  rw [← of_decide_eq_true hfile]
  exact file_mem_of_mem_scopesFrom hplaced

theorem Registry.Holds.place?_eq {registry : Registry} {scopes : List PlacedScope}
    {declared : List Declared} (h : registry.Holds scopes declared) (id : ScopeId) :
    registry.scopes.place? id = (scopes[id.index]?).map fun placed =>
      (placed.file, (scopes.take id.index).countP (·.file = placed.file)) := by
  rw [ScopeTable.place?, h.get?_scopes, h.scopes_eq, Option.map_map]
  refine Option.map_congr fun placed _ => ?_
  rw [Function.comp_apply, ← List.map_take, List.countP_map]
  rfl

/-- Where the scopes of a file start in `scopesFrom`, if no other file has its number. -/
def Outline.start (outlines : List Outline) (outline : Outline) : Nat :=
  (scopesFrom 0 (outlines.takeWhile fun other => other.file ≠ outline.file)).length

section Start

variable {outlines : List Outline} (hfiles : (outlines.map (·.file)).Nodup)

include hfiles

theorem Outline.StartsAt.eq_start {outline : Outline} {first : Nat}
    (h : outline.StartsAt outlines first) : first = outline.start outlines := by
  obtain ⟨before, after, rfl, rfl⟩ := h
  have hbefore : ∀ other ∈ before, decide (other.file ≠ outline.file) = true := by
    intro other hother
    rw [List.map_append, List.map_cons, List.nodup_append] at hfiles
    exact decide_eq_true (hfiles.2.2 _ (List.mem_map_of_mem hother) _ List.mem_cons_self)
  rw [Outline.start, List.takeWhile_append_of_pos hbefore, List.takeWhile_cons_of_neg (by simp),
    List.append_nil]

theorem Outline.startsAt_start {outline : Outline} (h : outline ∈ outlines) :
    outline.StartsAt outlines (outline.start outlines) := by
  obtain ⟨first, hstarts⟩ := Outline.exists_startsAt h
  exact hstarts.eq_start hfiles ▸ hstarts

/-- `declaredFrom` of the files that come last, each with its scopes counted from its
`Outline.start`. -/
theorem declaredFrom_eq_flatMap_of_append {before rest : List Outline}
    (heq : outlines = before ++ rest) :
    declaredFrom (scopesFrom 0 before).length rest = rest.flatMap fun outline =>
      outline.declared (outline.start outlines) := by
  -- The files before say where the next one starts, so the induction keeps them.
  induction rest generalizing before with
  | nil => rfl
  | cons outline rest ih =>
    have hstart := Outline.StartsAt.eq_start hfiles ⟨before, rest, heq, rfl⟩
    have hlater := @ih (before ++ [outline]) (by simp [heq])
    rw [scopesFrom_append, List.length_append, scopesFrom, scopesFrom, List.append_nil] at hlater
    rw [declaredFrom, List.flatMap_cons, ← hstart, ← hlater]
    simp [Outline.placedScopes]

/-- `declaredFrom` of all files, each with its scopes counted from its `Outline.start`. -/
theorem declaredFrom_eq_flatMap :
    declaredFrom 0 outlines = outlines.flatMap fun outline =>
      outline.declared (outline.start outlines) := by
  exact declaredFrom_eq_flatMap_of_append hfiles (List.nil_append outlines).symm

namespace Registry.Holds

variable {registry : Registry} {declared : List Declared}
  (h : registry.Holds (scopesFrom 0 outlines) declared)

include h

theorem place?_of_startsAt {outline : Outline} {first position : Nat}
    (hstarts : outline.StartsAt outlines first) (hlt : position < outline.scopes.length) :
    registry.scopes.place? ⟨first + position⟩ = some (outline.file, position) := by
  have hlength : position < (outline.placedScopes first).length := by
    simpa [Outline.placedScopes] using hlt
  have hplaced := List.getElem?_eq_getElem hlength
  rw [h.place?_eq, getElem?_scopesFrom hstarts hplaced, Option.map_some,
    Outline.file_of_placed hplaced]
  obtain ⟨before, after, rfl, rfl⟩ := hstarts
  have hbefore : outline.file ∉ before.map (·.file) := by
    rw [List.map_append, List.map_cons, List.nodup_append] at hfiles
    exact fun hin => hfiles.2.2 _ hin _ List.mem_cons_self rfl
  -- Scopes before those of the file lie in other files, and those of the file are all counted.
  rw [scopesFrom_append, scopesFrom, List.take_length_add_append, List.countP_append,
    countP_scopesFrom_eq_zero hbefore, List.take_append_of_le_length (by simpa using hlength.le),
    List.countP_eq_length.2 fun placed hin => ?_]
  · simp [Outline.placedScopes]
    omega
  · obtain ⟨index, hindex⟩ := List.mem_iff_getElem?.1 (List.mem_of_mem_take hin)
    exact decide_eq_true (Outline.file_of_placed hindex)

theorem exists_startsAt_of_place? {id : ScopeId} {file : FileId} {position : Nat}
    (hplace : registry.scopes.place? id = some (file, position)) :
    ∃ (outline : Outline) (first : Nat), outline.StartsAt outlines first ∧ outline.file = file ∧
      position < outline.scopes.length ∧ id = ⟨first + position⟩ := by
  have hplace' := hplace
  rw [h.place?_eq] at hplace
  obtain ⟨placed, hplaced, _⟩ := Option.map_eq_some_iff.1 hplace
  obtain ⟨outline, first, index, hstarts, hindex, hscope⟩ := exists_startsAt_of_scope hplaced
  have hlt : index < outline.scopes.length := by
    simpa [Outline.placedScopes] using (List.getElem?_eq_some_iff.1 hscope).1
  obtain rfl : id = ⟨first + index⟩ := congrArg ScopeId.mk hindex
  have heq := (h.place?_of_startsAt hfiles hstarts hlt).symm.trans hplace'
  obtain ⟨rfl, rfl⟩ := Prod.mk.inj (Option.some.inj heq)
  exact ⟨outline, first, hstarts, rfl, hlt, rfl⟩

end Registry.Holds

end Start

end ExtensionMembers
