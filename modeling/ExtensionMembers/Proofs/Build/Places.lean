import ExtensionMembers.Proofs.Build.Declaration

/-!
# Places in the program

The scopes of a file stand together among the scopes of all files, so a place in the program is a
file with a position in it. Declarations lie in scopes of their file, scopes in scopes of the same
file further up, and of several declarations of one name the first is registered.

* `Outline.StartsAt`: where the scopes of a file start.
* `getElem?_scopesFrom`, `exists_startsAt_of_scope`: from positions in files to places and back.
* `exists_startsAt_of_declared`, `wellPlaced_declaredOf`: declarations and the scopes around scopes.
* `find?_name_of_enlisted`: the declaration of a name that is registered.
-/

namespace ExtensionMembers

/-! ## Where files start -/

/-- An outline is one of `outlines`, and the scopes of its file start at position `first`. -/
def Outline.StartsAt (outline : Outline) (outlines : List Outline) (first : Nat) : Prop :=
  ∃ before after, outlines = before ++ outline :: after ∧ first = (scopesFrom 0 before).length

theorem Outline.StartsAt.mem {outline : Outline} {outlines : List Outline} {first : Nat}
    (h : outline.StartsAt outlines first) : outline ∈ outlines := by
  obtain ⟨before, after, rfl, _⟩ := h
  simp

theorem Outline.exists_startsAt {outline : Outline} {outlines : List Outline}
    (h : outline ∈ outlines) : ∃ first, outline.StartsAt outlines first := by
  obtain ⟨before, after, rfl⟩ := List.append_of_mem h
  exact ⟨_, before, after, rfl, rfl⟩

theorem length_scopesFrom (first : Nat) (outlines : List Outline) :
    (scopesFrom first outlines).length = (scopesFrom 0 outlines).length := by
  induction outlines generalizing first with
  | nil => rfl
  | cons outline rest ih =>
    rw [scopesFrom, scopesFrom, List.length_append, List.length_append, ih, ih (0 + _)]
    simp [Outline.placedScopes]

theorem scopesFrom_append (first : Nat) (before after : List Outline) :
    scopesFrom first (before ++ after) =
      scopesFrom first before ++ scopesFrom (first + (scopesFrom 0 before).length) after := by
  induction before generalizing first with
  | nil => simp [scopesFrom]
  | cons outline rest ih =>
    rw [List.cons_append, scopesFrom, ih, scopesFrom, scopesFrom, List.append_assoc,
      List.length_append, length_scopesFrom (0 + _)]
    simp [Outline.placedScopes, Nat.add_assoc]

theorem declaredFrom_append (first : Nat) (before after : List Outline) :
    declaredFrom first (before ++ after) =
      declaredFrom first before ++ declaredFrom (first + (scopesFrom 0 before).length) after := by
  induction before generalizing first with
  | nil => simp [scopesFrom, declaredFrom]
  | cons outline rest ih =>
    rw [List.cons_append, declaredFrom, ih, declaredFrom, scopesFrom, List.append_assoc,
      List.length_append, length_scopesFrom (0 + _)]
    simp [Outline.placedScopes, Nat.add_assoc]

/-- The scopes of a file stand together among `scopesFrom`, from where they start. -/
theorem getElem?_scopesFrom {outline : Outline} {outlines : List Outline} {first : Nat}
    (h : outline.StartsAt outlines first) {position : Nat} {placed : PlacedScope}
    (hplaced : (outline.placedScopes first)[position]? = some placed) :
    (scopesFrom 0 outlines)[first + position]? = some placed := by
  obtain ⟨before, after, rfl, rfl⟩ := h
  rw [scopesFrom_append, scopesFrom, List.getElem?_append_right (Nat.le_add_right _ _),
    Nat.add_sub_cancel_left, Nat.zero_add,
    List.getElem?_append_left (List.getElem?_eq_some_iff.1 hplaced).1, hplaced]

/-- Every scope of `scopesFrom` is of a file whose outline is listed. -/
theorem file_mem_of_mem_scopesFrom {first : Nat} {outlines : List Outline} {placed : PlacedScope}
    (h : placed ∈ scopesFrom first outlines) : placed.file ∈ outlines.map (·.file) := by
  induction outlines generalizing first with
  | nil => cases h
  | cons outline rest ih =>
    rw [scopesFrom, List.mem_append] at h
    rw [List.map_cons, List.mem_cons]
    rcases h with h | h
    · obtain ⟨scope, _, rfl⟩ := List.mem_map.1 h
      exact .inl rfl
    · exact .inr (ih h)

/-- Every scope of `scopesFrom` is one of a file. -/
theorem exists_startsAt_of_scope {outlines : List Outline} {index : Nat} {placed : PlacedScope}
    (h : (scopesFrom 0 outlines)[index]? = some placed) :
    ∃ (outline : Outline) (first position : Nat), outline.StartsAt outlines first ∧
      index = first + position ∧ (outline.placedScopes first)[position]? = some placed := by
  induction outlines using List.reverseRecOn with
  | nil => simp [scopesFrom] at h
  | append_singleton before last ih =>
    rw [scopesFrom_append, List.getElem?_append] at h
    split at h
    next hlt =>
      obtain ⟨outline, first, position, ⟨earlier, later, rfl, rfl⟩, hindex, hplaced⟩ := ih h
      exact ⟨outline, _, position, ⟨earlier, later ++ [last], by simp, rfl⟩, hindex, hplaced⟩
    next hle =>
      refine ⟨last, _, index - (scopesFrom 0 before).length, ⟨before, [], rfl, rfl⟩, by omega, ?_⟩
      simpa [scopesFrom] using h

/-- Every declaration of `declaredFrom` is one of a file. -/
theorem exists_startsAt_of_declared {outlines : List Outline} {declared : Declared}
    (h : declared ∈ declaredFrom 0 outlines) :
    ∃ (outline : Outline) (first : Nat), outline.StartsAt outlines first ∧
      declared ∈ outline.declared first := by
  induction outlines using List.reverseRecOn with
  | nil => cases h
  | append_singleton before last ih =>
    rw [declaredFrom_append, List.mem_append] at h
    rcases h with h | h
    · obtain ⟨outline, first, ⟨earlier, later, rfl, rfl⟩, hdeclared⟩ := ih h
      exact ⟨outline, _, ⟨earlier, later ++ [last], by simp, rfl⟩, hdeclared⟩
    · exact ⟨last, _, ⟨before, [], rfl, rfl⟩, by simpa [declaredFrom] using h⟩

theorem mem_declaredFrom {outline : Outline} {outlines : List Outline} {first : Nat}
    (h : outline.StartsAt outlines first) {declared : Declared}
    (hdeclared : declared ∈ outline.declared first) : declared ∈ declaredFrom 0 outlines := by
  obtain ⟨before, after, rfl, rfl⟩ := h
  rw [declaredFrom_append, declaredFrom, Nat.zero_add]
  exact List.mem_append_right _ (List.mem_append_left _ hdeclared)

/-! ## Scopes of declarations and scopes around scopes -/

theorem Outline.getElem?_placedScopes {outline : Outline} (first : Nat) {position : Nat}
    {scope : OutlineScope} (hscope : outline.scopes[position]? = some scope) :
    (outline.placedScopes first)[position]? = some ⟨outline.file,
      scope.parent.map fun index => ⟨first + index⟩, scope.path, scope.usings⟩ := by
  rw [placedScopes, List.getElem?_map, hscope]
  rfl

theorem Outline.file_of_placed {outline : Outline} {first position : Nat} {placed : PlacedScope}
    (h : (outline.placedScopes first)[position]? = some placed) : placed.file = outline.file := by
  rw [placedScopes, List.getElem?_map] at h
  obtain ⟨scope, _, rfl⟩ := Option.map_eq_some_iff.1 h
  rfl

/-- A declaration of a `Sound` outline lies in a scope of its file that opens the namespace of its
name. -/
theorem Outline.Sound.exists_scope {outline : Outline} (hsound : outline.Sound) {first : Nat}
    {declared : Declared} (h : declared ∈ outline.declared first) :
    ∃ (position : Nat) (placed : PlacedScope), declared.scope = ⟨first + position⟩ ∧
      (outline.placedScopes first)[position]? = some placed ∧
      placed.path = declared.name.path := by
  have hplaced : ∀ {position : Nat} {path : NamespacePath},
      (outline.scopes[position]?).map (·.path) = some path → ∃ placed : PlacedScope,
        (outline.placedScopes first)[position]? = some placed ∧ placed.path = path := by
    intro position path hpath
    obtain ⟨scope, hscope, rfl⟩ := Option.map_eq_some_iff.1 hpath
    exact ⟨_, Outline.getElem?_placedScopes first hscope, rfl⟩
  -- Types and extensions lie in the scope that their outline names.
  rcases List.mem_append.1 h with h | h
  · obtain ⟨type, htype, rfl⟩ := List.mem_map.1 h
    obtain ⟨placed, hscope, hpath⟩ := hplaced (hsound.types_within type htype)
    exact ⟨_, placed, rfl, hscope, hpath⟩
  · obtain ⟨extension, hextension, rfl⟩ := List.mem_map.1 h
    obtain ⟨placed, hscope, hpath⟩ := hplaced (hsound.extensions_within extension hextension)
    exact ⟨_, placed, rfl, hscope, hpath⟩

/-- The scope around a scope of a `Sound` outline is a scope of the same file further up. -/
theorem Outline.Sound.exists_parent {outline : Outline} (hsound : outline.Sound)
    {first position : Nat} {placed : PlacedScope}
    (h : (outline.placedScopes first)[position]? = some placed) {parent : ScopeId}
    (hparent : placed.parent = some parent) :
    ∃ (outer : Nat) (around : PlacedScope), parent = ⟨first + outer⟩ ∧ outer < position ∧
      (outline.placedScopes first)[outer]? = some around := by
  rw [placedScopes, List.getElem?_map] at h
  obtain ⟨scope, hscope, rfl⟩ := Option.map_eq_some_iff.1 h
  obtain ⟨outer, houter, rfl⟩ := Option.map_eq_some_iff.1 hparent
  have hlt := hsound.parent_lt hscope houter
  have hlength := (List.getElem?_eq_some_iff.1 hscope).1
  have hin : outer < (outline.placedScopes first).length := by
    rw [placedScopes, List.length_map]
    omega
  exact ⟨outer, _, rfl, hlt, List.getElem?_eq_getElem hin⟩

theorem Outline.Sound.file_of_id? {outline : Outline} (hsound : outline.Sound) {first : Nat}
    {declared : Declared} (h : declared ∈ outline.declared first) {id : ExtensionId}
    (hid : declared.id? = some id) : id.file = outline.file := by
  have hin : id ∈ (outline.declared first).filterMap (·.id?) :=
    List.mem_filterMap.2 ⟨declared, h, hid⟩
  rw [filterMap_id?_declared, hsound.ids] at hin
  obtain ⟨index, _, rfl⟩ := List.mem_map.1 hin
  rfl

/-- Each `PlacedScope` lies in scopes of the same file, and each declaration in a scope of its file
that opens the namespace of its name. -/
structure WellPlaced (scopes : List PlacedScope) (declared : List Declared) : Prop where
  parent : ∀ {index : Nat} {placed : PlacedScope} {parent : ScopeId},
    scopes[index]? = some placed → placed.parent = some parent →
      ∃ outer, scopes[parent.index]? = some outer ∧ outer.file = placed.file
  within : ∀ next ∈ declared, ∃ placed, scopes[next.scope.index]? = some placed ∧
    placed.path = next.name.path ∧ ∀ id, next.id? = some id → id.file = placed.file

/-- A declaration lies in a scope of `scopesOf` that is of the file that declares it. -/
theorem exists_scope_of_startsAt {files : List SourceFile} {outline : Outline} {first : Nat}
    (hstarts : outline.StartsAt (outlinesOf files) first) {declared : Declared}
    (h : declared ∈ outline.declared first) :
    ∃ placed, (scopesOf files)[declared.scope.index]? = some placed ∧
      placed.file = outline.file ∧ placed.path = declared.name.path := by
  obtain ⟨position, placed, hscope, hplaced, hpath⟩ :=
    (sound_of_mem_outlinesOf hstarts.mem).exists_scope h
  refine ⟨placed, ?_, Outline.file_of_placed hplaced, hpath⟩
  rw [hscope]
  exact getElem?_scopesFrom hstarts hplaced

theorem mem_of_mem_foldl_enlist {all : List Declared} {declared : Declared}
    (h : declared ∈ all.foldl enlist []) : declared ∈ all :=
  (foldl_enlist_sublist [] all).subset h

theorem wellPlaced_declaredOf (files : List SourceFile) :
    WellPlaced (scopesOf files) (declaredOf files) := by
  constructor
  · intro index placed parent hplaced hparent
    obtain ⟨outline, first, position, hstarts, rfl, hscope⟩ := exists_startsAt_of_scope hplaced
    have hsound := sound_of_mem_outlinesOf hstarts.mem
    obtain ⟨outer, around, rfl, _, hany⟩ := hsound.exists_parent hscope hparent
    refine ⟨around, getElem?_scopesFrom hstarts hany, ?_⟩
    rw [Outline.file_of_placed hany, Outline.file_of_placed hscope]
  · intro next hnext
    obtain ⟨outline, first, hstarts, hin⟩ :=
      exists_startsAt_of_declared (mem_of_mem_foldl_enlist hnext)
    obtain ⟨placed, hplaced, hfile, hpath⟩ := exists_scope_of_startsAt hstarts hin
    refine ⟨placed, hplaced, hpath, fun id hid => ?_⟩
    rw [(sound_of_mem_outlinesOf hstarts.mem).file_of_id? hin hid, hfile]

/-- A `PendingType` that is left to complete is declared. -/
theorem mem_of_find?_pendingType {declared : List Declared} {test : PendingType → Bool}
    {last : PendingType}
    (h : (declared.filterMap (·.pendingType?)).reverse.find? test = some last) :
    ∃ name, last.hash = name.hash ∧ .type name last.scope last.declaration ∈ declared := by
  obtain ⟨next, hnext, hlast⟩ := List.mem_filterMap.1
    (List.mem_reverse.1 (List.mem_of_find?_eq_some h))
  cases next with
  | extension => cases hlast
  | type name scope declaration =>
    obtain rfl := Option.some.inj hlast
    exact ⟨name, rfl, hnext⟩

/-! ## Names that are declared several times -/

/-- After `enlist` over some declarations their names are taken. -/
theorem name_taken_of_mem {all : List Declared} {declared : Declared} (h : declared ∈ all) :
    declared.name ∈ (registeredTypes (all.foldl enlist [])).map (·.name) := by
  induction all using List.reverseRecOn with
  | nil => cases h
  | append_singleton before last ih =>
    rw [List.foldl_concat]
    unfold enlist
    -- A declaration is passed over only if its name is taken already.
    split
    next htaken =>
      rcases List.mem_append.1 h with h | h
      · exact ih h
      · rwa [List.mem_singleton.1 h]
    next =>
      rw [registeredTypes_concat, List.map_append, List.mem_append]
      rcases List.mem_append.1 h with h | h
      · exact .inl (ih h)
      · rw [List.mem_singleton.1 h]
        exact .inr (List.mem_singleton_self _)

/-- Of several declarations of one name `enlist` registers the first. -/
theorem find?_name_of_enlisted {all : List Declared} {declared : Declared}
    (h : declared ∈ all.foldl enlist []) :
    all.find? (·.name = declared.name) = some declared := by
  induction all using List.reverseRecOn with
  | nil => cases h
  | append_singleton before last ih =>
    rw [List.foldl_concat] at h
    rw [List.find?_append]
    unfold enlist at h
    split at h
    next => rw [ih h, Option.some_or]
    next hfree =>
      rcases List.mem_append.1 h with h | h
      · rw [ih h, Option.some_or]
      · -- The name was free until now, so no declaration before has it.
        obtain rfl := List.mem_singleton.1 h
        have hnone : before.find? (·.name = declared.name) = none := by
          refine List.find?_eq_none.2 fun other hother heq => hfree ?_
          rw [← of_decide_eq_true heq]
          exact name_taken_of_mem hother
        simp [hnone]

end ExtensionMembers
