import ExtensionMembers.Build.Assembly
import ExtensionMembers.Proofs.Collection.Correspondence
import ExtensionMembers.Proofs.Namespace.Paths

/-!
# Two trees of the same namespaces

Two trees may number the same namespaces differently. Whatever leads from namespace to namespace by
paths then leads to namespaces of the same paths, so scopes that correspond have chains that
correspond, level by level; and where both trees hold the same types for some simple names, written
types that end in these names mean the same at places that correspond.

## Main definitions

* `NamespaceTree.SamePaths`, `NamespaceTree.Matches`: two trees of the same namespaces, and a
  namespace of each with the same path.
* `ScopeTable.Linked`: two tables with scopes that correspond.
* `NamespaceTree.AgreeOn`: two trees with the same types for some names.
* `TypeExpr.name?`, `WrittenMember.typeNames`: the simple names that written types refer to.

## Main results

* `ScopeTable.Linked.chain`: the chains of scopes that correspond.
* `NamespaceTree.SamePaths.depthOf?_eq`: levels that correspond reach the same namespaces.
* `NamespaceTree.AgreeOn.typeRef_eq`, `NamespaceTree.AgreeOn.member_eq`: written types and members
  mean the same.
-/

namespace ExtensionMembers

namespace NamespaceTree

/-- A namespace of one tree and a namespace of another one have the same path (`path?`). -/
def Matches (tree other : NamespaceTree) (id id' : NamespaceId) : Prop :=
  ∃ path, tree.path? id = some path ∧ other.path? id' = some path

/-- Two `Proper` trees with the same paths. -/
structure SamePaths (tree other : NamespaceTree) : Prop where
  proper : tree.Proper
  other_proper : other.Proper
  mem_iff : ∀ path, path ∈ tree.paths ↔ path ∈ other.paths

namespace SamePaths

variable {tree other : NamespaceTree}

theorem matches_unique (h : tree.SamePaths other) {id id' another another' : NamespaceId}
    (hid : tree.Matches other id id') (hanother : tree.Matches other another another') :
    id = another ↔ id' = another' := by
  obtain ⟨path, hpath, hpath'⟩ := hid
  obtain ⟨path₂, hpath₂, hpath₂'⟩ := hanother
  constructor
  · rintro rfl
    obtain rfl := Option.some.inj (hpath.symm.trans hpath₂)
    exact path?_inj h.other_proper.nodup hpath' hpath₂'
  · rintro rfl
    obtain rfl := Option.some.inj (hpath'.symm.trans hpath₂')
    exact path?_inj h.proper.nodup hpath hpath₂

theorem root (h : tree.SamePaths other) : tree.Matches other root root :=
  ⟨[], h.proper.root, h.other_proper.root⟩

theorem idOf? (h : tree.SamePaths other) (path : NamespacePath) :
    Option.Rel (tree.Matches other) (tree.idOf? path) (other.idOf? path) := by
  cases hid : tree.idOf? path with
  | none =>
    rw [idOf?_eq_none_iff, h.mem_iff, ← idOf?_eq_none_iff] at hid
    rw [hid]
    exact .none
  | some id =>
    cases hid' : other.idOf? path with
    | none =>
      rw [idOf?_eq_none_iff, ← h.mem_iff, ← idOf?_eq_none_iff, hid] at hid'
      cases hid'
    | some id' => exact .some ⟨path, path?_of_idOf? hid, path?_of_idOf? hid'⟩

/-- `idOf?` gives a path the same meaning in both trees, be it the path of no namespace. -/
theorem matches_idOf? (h : tree.SamePaths other) (path : NamespacePath) :
    tree.Matches other ((tree.idOf? path).getD NamespaceTree.root)
      ((other.idOf? path).getD NamespaceTree.root) := by
  have hrel := h.idOf? path
  generalize tree.idOf? path = id at hrel
  generalize other.idOf? path = id' at hrel
  cases hrel with
  | none => exact h.root
  | some hid => exact hid

theorem follow? (h : tree.SamePaths other) {start start' : NamespaceId}
    (hstart : tree.Matches other start start') (path : NamespacePath) :
    Option.Rel (tree.Matches other) (tree.follow? start path) (other.follow? start' path) := by
  have ⟨base, hbase, hbase'⟩ := hstart
  unfold NamespaceTree.follow?
  split
  · exact .some hstart
  · rw [hbase, hbase']
    exact h.idOf? (base ++ path)

theorem enclosing (h : tree.SamePaths other) {id id' : NamespaceId}
    (hid : tree.Matches other id id') :
    List.Forall₂ (tree.Matches other) (tree.enclosing id) (other.enclosing id') := by
  obtain ⟨path, hpath, hpath'⟩ := hid
  simp only [NamespaceTree.enclosing, NamespaceTree.path, hpath, hpath', Option.getD_some]
  refine List.rel_filterMap ?_ (List.forall₂_same.2 fun count _ => Eq.refl count)
  rintro count _ rfl
  exact h.idOf? (path.take count)

theorem resolveImport? (h : tree.SamePaths other) {start start' : NamespaceId}
    (hstart : tree.Matches other start start') (path : NamespacePath) :
    Option.Rel (tree.Matches other) (tree.resolveImport? start path)
      (other.resolveImport? start' path) :=
  rel_findSome? (R := tree.Matches other) (fun _ _ hid => h.follow? hid path)
    (.cons hstart (h.enclosing hstart))

/-- Two levels of namespaces and imports with the same paths (`Matches`). -/
def LevelMatches (tree other : NamespaceTree) (level level' : ScopeLevel) : Prop :=
  tree.Matches other level.namespaceId level'.namespaceId ∧
    List.Forall₂ (tree.Matches other) level.imports level'.imports

/-- A namespace is among some if the one that `Matches` it is among those that match them. -/
theorem mem_iff_of_matches (h : tree.SamePaths other) {ids ids' : List NamespaceId}
    (hids : List.Forall₂ (tree.Matches other) ids ids') {id id' : NamespaceId}
    (hid : tree.Matches other id id') : id ∈ ids ↔ id' ∈ ids' := by
  induction hids with
  | nil => simp
  | cons hfirst _ ih => rw [List.mem_cons, List.mem_cons, ih, h.matches_unique hid hfirst]

theorem reaches_eq (h : tree.SamePaths other) {level level' : ScopeLevel}
    (hlevel : LevelMatches tree other level level') {id id' : NamespaceId}
    (hid : tree.Matches other id id') : level.reaches id = level'.reaches id' := by
  obtain ⟨hnamespace, himports⟩ := hlevel
  have hcontains : level.imports.contains id = level'.imports.contains id' := by
    rw [Bool.eq_iff_iff, List.contains_iff_mem, List.contains_iff_mem]
    exact h.mem_iff_of_matches himports hid
  simp only [ScopeLevel.reaches, hcontains, h.matches_unique hnamespace hid]

/-- `ScopeChain.depthOf?` is the same along chains that correspond (`LevelMatches`). -/
theorem depthOf?_eq (h : tree.SamePaths other) {chain chain' : ScopeChain}
    (hchain : List.Forall₂ (LevelMatches tree other) chain.levels chain'.levels)
    {id id' : NamespaceId} (hid : tree.Matches other id id') :
    chain.depthOf? id = chain'.depthOf? id' :=
  findIdx?_eq_of_forall₂ (R := LevelMatches tree other)
    (fun _ _ hlevel => h.reaches_eq hlevel hid) hchain

end SamePaths

end NamespaceTree

/-! ## Scopes -/

/-- Two scopes that open namespaces of the same path, import the same ones, and lie in scopes
related by `link`. -/
structure Scope.Matches (tree other : NamespaceTree) (link : ScopeId → ScopeId → Prop)
    (scope scope' : Scope) : Prop where
  namespaces : tree.Matches other scope.namespaceId scope'.namespaceId
  imports : List.Forall₂ (tree.Matches other) scope.imports scope'.imports
  parent : Option.Rel link scope.parent scope'.parent

/-- `Scope.resolveImports` gives imports that are written alike namespaces of the same path. -/
theorem Scope.forall₂_resolveImports {tree other : NamespaceTree} (h : tree.SamePaths other)
    {scope scope' : Scope} (hnamespace : tree.Matches other scope.namespaceId scope'.namespaceId)
    (husings : scope.usings = scope'.usings) :
    List.Forall₂ (tree.Matches other) (scope.resolveImports tree).imports
      (scope'.resolveImports other).imports := by
  simp only [Scope.resolveImports, husings]
  refine List.rel_filterMap ?_ (List.forall₂_same.2 fun path _ => Eq.refl path)
  rintro path _ rfl
  exact h.resolveImport? hnamespace path

/-- Scopes of two tables are related by `link`, each with at most one scope of the other table. -/
structure ScopeTable.Linked (tree other : NamespaceTree) (table table' : ScopeTable)
    (link : ScopeId → ScopeId → Prop) : Prop where
  unique : ∀ id id' another another', link id id' → link another another' →
    (id = another ↔ id' = another')
  scopes : ∀ id id', link id id' → ∃ scope scope', table.get? id = some scope ∧
    table'.get? id' = some scope' ∧ scope.Matches tree other link scope'

namespace ScopeTable

theorem mem_ids_iff {table : ScopeTable} {id : ScopeId} :
    id ∈ table.ids ↔ (table.get? id).isSome := by
  rw [get?, Option.isSome_iff_exists]
  simp only [ids, size, List.mem_map, List.mem_range, List.getElem?_eq_some_iff]
  constructor
  · rintro ⟨index, hlt, rfl⟩
    exact ⟨_, hlt, rfl⟩
  · rintro ⟨_, hlt, _⟩
    exact ⟨id.index, hlt, rfl⟩

theorem outward_eq_nil {table : ScopeTable} {id : ScopeId} (h : table.get? id = none) :
    table.outward id = [] := by
  have hout : id ∉ table.ids := by simp [mem_ids_iff, h]
  rw [outward, trail, dif_neg hout]

/-- `ScopeTable.chain` has no levels from a scope that does not exist. -/
theorem chain_eq_nil {table : ScopeTable} {id : ScopeId} (h : table.get? id = none)
    (tree : NamespaceTree) : table.chain tree id = ⟨[]⟩ := by
  rw [chain, outward_eq_nil h, List.flatMap_nil]

namespace Linked

variable {tree other : NamespaceTree} {table table' : ScopeTable}
  {link : ScopeId → ScopeId → Prop}

theorem outward (hlinked : Linked tree other table table' link) {id id' : ScopeId}
    (hid : link id id') : List.Forall₂ link (table.outward id) (table'.outward id') := by
  refine trail_forall₂ hlinked.unique (fun id id' hid => ?_) (fun id id' hid => ?_) hid
  · obtain ⟨scope, scope', hscope, hscope', hmatches⟩ := hlinked.scopes id id' hid
    simp only [parent?, hscope, hscope', Option.bind_some]
    exact hmatches.parent
  · obtain ⟨scope, scope', hscope, hscope', _⟩ := hlinked.scopes id id' hid
    simp [mem_ids_iff, hscope, hscope']

theorem levelsAt (hlinked : Linked tree other table table' link) (h : tree.SamePaths other)
    {id id' : ScopeId} (hid : link id id') :
    List.Forall₂ (NamespaceTree.SamePaths.LevelMatches tree other) (table.levelsAt tree id)
      (table'.levelsAt other id') := by
  obtain ⟨scope, scope', hscope, hscope', hmatches⟩ := hlinked.scopes id id' hid
  have houter : Option.Rel (tree.Matches other)
      ((scope.parent.bind table.get?).map (·.namespaceId))
      ((scope'.parent.bind table'.get?).map (·.namespaceId)) := by
    refine rel_map (R := Scope.Matches tree other link) (fun _ _ hscope => hscope.namespaces) ?_
    refine rel_bind (fun id id' hid => ?_) hmatches.parent
    obtain ⟨_, _, hget, hget', houter⟩ := hlinked.scopes id id' hid
    rw [hget, hget']
    exact .some houter
  simp only [ScopeTable.levelsAt, hscope, hscope']
  -- The level of the scope itself, then those of the namespaces between it and the one around.
  refine .cons ⟨hmatches.namespaces, hmatches.imports⟩ ?_
  refine List.rel_map (R := tree.Matches other) (fun _ _ hid => ⟨hid, .nil⟩)
    (forall₂_takeWhile (fun id id' hid => ?_) (h.enclosing hmatches.namespaces))
  -- The levels between end at the namespaces of the scopes around, which correspond as well.
  generalize (scope.parent.bind table.get?).map (·.namespaceId) = outer at houter
  generalize (scope'.parent.bind table'.get?).map (·.namespaceId) = outer' at houter
  cases houter with
  | none => rfl
  | some houter => simp [bne, h.matches_unique hid houter]

/-- `ScopeTable.chain` gives scopes that are `Linked` chains that correspond, level by level
(`LevelMatches`). -/
theorem chain (hlinked : Linked tree other table table' link) (h : tree.SamePaths other)
    {id id' : ScopeId} (hid : link id id') :
    List.Forall₂ (NamespaceTree.SamePaths.LevelMatches tree other) (table.chain tree id).levels
      (table'.chain other id').levels :=
  List.rel_flatMap (hlinked.outward hid) fun _ _ hid => hlinked.levelsAt h hid

end Linked

end ScopeTable

/-! ## Written types -/

namespace TypeExpr

/-- The simple name of the type that a `TypeExpr` is built from. -/
def name? : TypeExpr → Option String
  | named pieces _ => pieces.getLast?
  | pointer target _ => target.name?
  | array element _ => element.name?
  | dynamic _ => none

end TypeExpr

/-- The simple names (`TypeExpr.name?`) of the types of a written member. -/
def WrittenMember.typeNames (written : WrittenMember) : List String :=
  (written.params.map (·.type) ++ written.result.toList).filterMap TypeExpr.name?

/-- Two meanings of which `NameMeaning.typeRef` makes the same reference, whatever the name. -/
inductive NameMeaning.Alike : NameMeaning → NameMeaning → Prop
  | found (hash : TypeHash) : Alike (found hash) (found hash)
  | ambiguous (candidates candidates' : List (NamespaceId × TypeHash)) :
    Alike (ambiguous candidates) (ambiguous candidates')
  | notFound : Alike NameMeaning.notFound NameMeaning.notFound

namespace NameMeaning

theorem Alike.typeRef_eq {meaning meaning' : NameMeaning} (h : meaning.Alike meaning')
    (pieces : List String) : meaning.typeRef pieces = meaning'.typeRef pieces := by
  cases h <;> rfl

theorem ne_notFound_iff {meaning meaning' : NameMeaning} (h : meaning.Alike meaning') :
    meaning ≠ notFound ↔ meaning' ≠ notFound := by
  cases h <;> simp

theorem alike_ofCandidates {candidates candidates' : List (NamespaceId × TypeHash)}
    (h : List.Forall₂ (fun candidate candidate' => candidate.2 = candidate'.2) candidates
      candidates') : Alike (ofCandidates candidates) (ofCandidates candidates') := by
  match h with
  | .nil => exact .notFound
  | .cons heq .nil =>
    rw [ofCandidates, ofCandidates, heq]
    exact .found _
  | .cons _ (.cons _ _) => exact .ambiguous _ _

end NameMeaning

theorem forall₂_firstPerType {candidates candidates' : List (NamespaceId × TypeHash)}
    (h : List.Forall₂ (fun candidate candidate' => candidate.2 = candidate'.2) candidates
      candidates') :
    List.Forall₂ (fun candidate candidate' => candidate.2 = candidate'.2)
      (firstPerType candidates) (firstPerType candidates') := by
  induction h with
  | nil => exact .nil
  | cons heq _ ih =>
    refine .cons heq (List.rel_filter (fun candidate candidate' hcandidate => ?_) ih)
    simp [heq, hcandidate]

namespace NamespaceTree

section Congruence

variable {tree other : NamespaceTree} {chain chain' : ScopeChain}

/-- `resolveSimple` gives meanings that are related if `meaningAt` gives such at each level, and
none of these makes it go on to the next level in one chain alone. -/
theorem rel_resolveSimple {Rel : NameMeaning → NameMeaning → Prop}
    (hfound : ∀ meaning meaning', Rel meaning meaning' →
      (meaning ≠ .notFound ↔ meaning' ≠ .notFound))
    (hnone : Rel .notFound .notFound) {name : String}
    (hlevels : List.Forall₂ Rel (chain.levels.map (tree.meaningAt name))
      (chain'.levels.map (other.meaningAt name))) :
    Rel (tree.resolveSimple name chain) (other.resolveSimple name chain') := by
  have hrel : Option.Rel Rel ((chain.levels.map (tree.meaningAt name)).find? (· ≠ .notFound))
      ((chain'.levels.map (other.meaningAt name)).find? (· ≠ .notFound)) :=
    rel_find? (fun _ _ hmeaning => decide_eq_decide.2 (hfound _ _ hmeaning)) hlevels
  unfold resolveSimple
  generalize (chain.levels.map (tree.meaningAt name)).find? _ = first at hrel
  generalize (chain'.levels.map (other.meaningAt name)).find? _ = first' at hrel
  cases hrel with
  | none => exact hnone
  | some hmeaning => exact hmeaning

/-- `typeRef` is the same at two places if `resolveType` gives the name meanings that are
`Alike`. -/
theorem typeRef_congr (parameters : List String) {type : TypeExpr}
    (h : ∀ pieces : List String, pieces.getLast? = type.name? →
      (tree.resolveType pieces chain).Alike (other.resolveType pieces chain')) :
    tree.typeRef chain parameters type = other.typeRef chain' parameters type := by
  -- Only the name inside matters; pointers and arrays are built on it.
  induction type with
  | named pieces span =>
    have hmeaning := (h pieces rfl).typeRef_eq pieces
    unfold typeRef namedRef
    split
    · split
      · rfl
      · exact hmeaning
    · exact hmeaning
  | pointer target span ih => rw [typeRef, typeRef, ih h]
  | array element span ih => rw [typeRef, typeRef, ih h]
  | dynamic span => rfl

/-- `NamespaceTree.member` is the same at two places if the types of the member mean the same. -/
theorem member_congr (parameters : List String) {written : WrittenMember}
    (h : ∀ type ∈ written.params.map (·.type) ++ written.result.toList,
      tree.typeRef chain parameters type = other.typeRef chain' parameters type) :
    tree.member chain parameters written = other.member chain' parameters written := by
  have hparams : written.params.map (tree.param chain parameters) =
      written.params.map (other.param chain' parameters) := by
    refine List.map_congr_left fun written hin => ?_
    rw [param, param, h written.type (List.mem_append_left _ (List.mem_map_of_mem hin))]
  have hresult : written.result.map (tree.typeRef chain parameters) =
      written.result.map (other.typeRef chain' parameters) :=
    Option.map_congr fun type hin => h type (by simp [hin])
  rw [member, member, hparams, hresult]

end Congruence

/-- Two trees with the same paths (`SamePaths`) that hold, for the simple names of `names`, the same
types in namespaces of the same path. -/
structure AgreeOn (tree other : NamespaceTree) (names : String → Prop) : Prop
    extends SamePaths tree other where
  typeIn?_eq : ∀ {id id'}, tree.Matches other id id' → ∀ {name}, names name →
    tree.typeIn? id name = other.typeIn? id' name

namespace AgreeOn

variable {tree other : NamespaceTree} {names : String → Prop} (h : AgreeOn tree other names)
  {chain chain' : ScopeChain}
  (hchain : List.Forall₂ (SamePaths.LevelMatches tree other) chain.levels chain'.levels)

include h

theorem alike_meaningAt {name : String} (hname : names name) {level level' : ScopeLevel}
    (hlevel : SamePaths.LevelMatches tree other level level') :
    (tree.meaningAt name level).Alike (other.meaningAt name level') := by
  obtain ⟨hnamespace, himports⟩ := hlevel
  unfold meaningAt
  rw [h.typeIn?_eq hnamespace hname]
  split
  · exact .found _
  · refine NameMeaning.alike_ofCandidates (forall₂_firstPerType (List.rel_filterMap ?_ himports))
    intro id id' hid
    dsimp only
    rw [h.typeIn?_eq hid hname]
    cases other.typeIn? id' name with
    | none => exact .none
    | some hash => exact .some rfl

include hchain

theorem alike_resolveSimple {name : String} (hname : names name) :
    (tree.resolveSimple name chain).Alike (other.resolveSimple name chain') :=
  rel_resolveSimple (fun _ _ => NameMeaning.ne_notFound_iff) .notFound
    (List.rel_map (R := SamePaths.LevelMatches tree other)
      (fun _ _ hlevel => h.alike_meaningAt hname hlevel) hchain)

theorem resolveWithin_eq (path : NamespacePath) {name : String} (hname : names name) :
    tree.resolveWithin path name chain = other.resolveWithin path name chain' := by
  have hstarts : List.Forall₂ (tree.Matches other)
      (chain.levels.map (·.namespaceId) ++ [NamespaceTree.root])
      (chain'.levels.map (·.namespaceId) ++ [NamespaceTree.root]) :=
    List.rel_append (List.rel_map (fun _ _ hlevel => hlevel.1) hchain) (.cons h.root .nil)
  have hfound : Option.Rel (· = ·)
      ((chain.levels.map (·.namespaceId) ++ [NamespaceTree.root]).findSome? fun start =>
        (tree.follow? start path).bind fun id => tree.typeIn? id name)
      ((chain'.levels.map (·.namespaceId) ++ [NamespaceTree.root]).findSome? fun start =>
        (other.follow? start path).bind fun id => other.typeIn? id name) := by
    refine rel_findSome? (fun start start' hstart => ?_) hstarts
    refine rel_bind (fun id id' hid => ?_) (h.follow? hstart path)
    exact option_rel_eq_iff.2 (h.typeIn?_eq hid hname)
  simp only [resolveWithin, option_rel_eq_iff.1 hfound]

theorem alike_resolveType {pieces : List String}
    (hname : ∀ name, pieces.getLast? = some name → names name) :
    (tree.resolveType pieces chain).Alike (other.resolveType pieces chain') := by
  unfold resolveType
  cases hlast : pieces.getLast? with
  | none => exact .notFound
  | some name =>
    dsimp only
    split
    · exact h.alike_resolveSimple hchain (hname name hlast)
    · rw [h.resolveWithin_eq hchain _ (hname name hlast)]
      cases other.resolveWithin pieces.dropLast name chain' with
      | found hash => exact .found hash
      | ambiguous candidates => exact .ambiguous _ _
      | notFound => exact .notFound

/-- `typeRef` is the same at places that correspond, if the trees agree on the name (`AgreeOn`). -/
theorem typeRef_eq (parameters : List String) {type : TypeExpr}
    (hname : ∀ name, type.name? = some name → names name) :
    tree.typeRef chain parameters type = other.typeRef chain' parameters type := by
  refine typeRef_congr parameters fun pieces hlast => ?_
  exact h.alike_resolveType hchain fun name heq => hname name (hlast ▸ heq)

/-- `NamespaceTree.member` is the same at places that correspond, if the trees agree on the names of
its types (`AgreeOn`). -/
theorem member_eq (parameters : List String) {written : WrittenMember}
    (hnames : ∀ name ∈ written.typeNames, names name) :
    tree.member chain parameters written = other.member chain' parameters written := by
  refine member_congr parameters fun type hin => ?_
  refine h.typeRef_eq hchain parameters fun name hname => hnames name ?_
  exact List.mem_filterMap.2 ⟨type, hin, hname⟩

theorem map_member_eq (parameters : List String) {members : List WrittenMember}
    (hnames : ∀ name ∈ members.flatMap WrittenMember.typeNames, names name) :
    members.map (tree.member chain parameters) = members.map (other.member chain' parameters) :=
  List.map_congr_left fun written hwritten => h.member_eq hchain parameters fun name hname =>
    hnames name (List.mem_flatMap.2 ⟨written, hwritten, hname⟩)

end AgreeOn

end NamespaceTree

end ExtensionMembers
