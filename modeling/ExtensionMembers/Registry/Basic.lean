import ExtensionMembers.Member.Extension
import ExtensionMembers.Namespace.TypeName

/-!
# The registry

The registry holds everything declared: the namespaces, the scopes, the types by hash and the
extensions in order of registration, together with an index from extended types to the extensions
that were valid when the index was made.

* `Registry.registerType`, `Registry.registerExtension`: declarations, which may fail.
* `Registry.extension?`, `Registry.extensionOfType?`: extensions by identity and by own type.
* `Registry.bases`: a type with its bases, derived first.
* `Registry.reindex`, `Registry.extensionsOf`: the index and what it holds for a type.
* `Registry.chain`, `Registry.scopeOf?`: what is seen from a scope, and the scope of a block.

## References

- Specification, §4.1, Augmentation Registry (`register`, `lookup`), and §3.1, Real types
-/

namespace ExtensionMembers

/-- Everything declared, the engine's `SymbolRegistry`. -/
structure Registry where
  /-- The namespaces. -/
  namespaces : NamespaceTree
  /-- The scopes. -/
  scopes : ScopeTable
  /-- The types, those of extensions included, by hash. -/
  types : Table TypeHash NamedType
  /-- The extensions in order of registration. -/
  extensions : List Extension
  /-- The extended types, each with one extension, in declaration order of the extensions. -/
  index : List (TypeHash × ExtensionId)
deriving Inhabited

namespace Registry

/-- The registry in which nothing is declared. -/
def empty : Registry := ⟨.empty, .empty, .empty, [], []⟩

/-! ## Types -/

/-- The engine's `get`: the type with a hash. -/
def type? (registry : Registry) (hash : TypeHash) : Option NamedType := registry.types.find? hash

/-- Whether a hash is that of a type. -/
def containsType (registry : Registry) (hash : TypeHash) : Bool := registry.types.contains hash

/-- The engine's `type_name`: the name of the type with a hash. -/
def typeName? (registry : Registry) (hash : TypeHash) : Option QualifiedName :=
  (registry.type? hash).map (·.name)

/-- The registry with one type changed. -/
def modifyType (registry : Registry) (hash : TypeHash) (change : NamedType → NamedType) :
    Registry :=
  { registry with types := registry.types.modify hash change }

/-- `modifyType` reaches the type with its hash and no other. -/
theorem type?_modifyType (registry : Registry) (hash other : TypeHash)
    (change : NamedType → NamedType) :
    (registry.modifyType hash change).type? other =
      if hash = other then (registry.type? other).map change else registry.type? other :=
  registry.types.find?_modify hash other change

/-- The outcome of a declaration: the registry after it, and the fault if it failed. -/
abbrev Outcome := Except DeclarationFault Unit × Registry

/-- The engine's `register_type`: declares a type in the namespace of its qualified name, which is
made if it is missing (`NamespaceTree.makePath`). -/
def registerType (registry : Registry) (type : NamedType) : Outcome :=
  let made := registry.namespaces.makePath NamespaceTree.root type.name.path
  match made.1.declareType made.2 type.name.name type.hash with
  | .error fault => (.error (fault.placedAt type.span), { registry with namespaces := made.1 })
  | .ok tree =>
    (.ok (), { registry with namespaces := tree, types := registry.types.insert type.hash type })

/-- The engine's `register_all_primitives`: declares those of `BuiltIn.names` that are missing. -/
def registerBuiltIns (registry : Registry) : Registry :=
  BuiltIn.names.foldl (fun registry name =>
    let type := NamedType.bare (.global name) .builtIn .unplaced
    -- One that is missing while its name is taken is left out.
    if registry.containsType type.hash then registry else (registry.registerType type).2) registry

/-- The engine's `with_primitives`: the registry of the built-in types alone. -/
def withBuiltIns : Registry := empty.registerBuiltIns

/-- The engine's `base_chain`: a type with its bases, derived first, up to the first that is unknown
or comes again. -/
def bases (registry : Registry) (hash : TypeHash) : List NamedType :=
  (trail (fun hash => (registry.type? hash).bind (·.base)) registry.types.keys hash).filterMap
    registry.type?

/-! ## Extensions -/

/-- The engine's `unit`: the extension with an identity; of several, the one registered last. -/
def extension? (registry : Registry) (id : ExtensionId) : Option Extension :=
  registry.extensions.reverse.find? (·.id = id)

/-- The engine's `unit_by_type`: the extension whose own type (`Extension.hash`) has a hash. -/
def extensionOfType? (registry : Registry) (hash : TypeHash) : Option Extension :=
  (registry.extensions.reverse.find? (·.hash = hash)).bind fun extension =>
    registry.extension? extension.id

/-- The engine's `unit_namespace`: the namespace of the scope in which an extension is declared. -/
def namespaceOf? (registry : Registry) (extension : Extension) : Option NamespaceId :=
  (registry.scopes.get? extension.scope).map (·.namespaceId)

/-- The first extension with an identity changed; `Registry.modifyExtension` reads the list from the
end. -/
def modifyFirst (id : ExtensionId) (change : Extension → Extension) :
    List Extension → List Extension
  | [] => []
  | extension :: rest =>
    if extension.id = id then change extension :: rest
    else extension :: modifyFirst id change rest

/-- The registry with one extension changed, as through the engine's `unit_mut`; of several with its
identity, the last. -/
def modifyExtension (registry : Registry) (id : ExtensionId)
    (change : Extension → Extension) : Registry :=
  { registry with
    extensions := (modifyFirst id change registry.extensions.reverse).reverse }

/-- The engine's `register_unit`: declares an extension. Its own type is declared first
(`registerType`), and stays declared if there is no scope for the extension itself. -/
def registerExtension (registry : Registry) (extension : Extension) : Outcome :=
  match registry.registerType extension.ownType with
  | (.error fault, registry) => (.error fault, registry)
  | (.ok _, registry) =>
    match registry.namespaceOf? extension with
    -- Nothing is taken back here.
    | none => (.error .unknownNamespace, registry)
    | some id =>
      match registry.namespaces.declareExtension id extension.id with
      | .error fault => (.error fault, registry)
      | .ok tree =>
        (.ok (), { registry with
          namespaces := tree, extensions := registry.extensions ++ [extension] })

/-! ## The index -/

/-- What an extension adds to the index: its extended type (`Extension.extendedHash?`), if it is
valid. -/
def indexEntry? (extension : Extension) : Option (TypeHash × ExtensionId) :=
  if extension.isValid then extension.extendedHash?.map (·, extension.id) else none

/-- The engine's `index_augmentations`: the registry with the index made anew, in declaration order
(`ExtensionId.key`). -/
def reindex (registry : Registry) : Registry :=
  { registry with
    index := (stableSort (·.id.key) registry.extensions).filterMap indexEntry? }

/-- The engine's `lookup` (specification, §4.1): the extensions that the index holds for a type, in
declaration order. -/
def extensionsOf (registry : Registry) (hash : TypeHash) : List Extension :=
  (registry.index.filter (·.1 = hash)).filterMap fun entry => registry.extension? entry.2

/-! ## Scopes -/

/-- The engine's `scope_chain`: the `ScopeTable.chain` of a scope. -/
def chain (registry : Registry) (id : ScopeId) : ScopeChain :=
  registry.scopes.chain registry.namespaces id

/-- The first scope of a file that opens the namespace with an absolute path: `ScopeTable.find?` for
what `NamespaceTree.idOf?` gives. -/
def scopeOf? (registry : Registry) (file : FileId) (path : NamespacePath) : Option ScopeId :=
  (registry.namespaces.follow? NamespaceTree.root path).bind (registry.scopes.find? file)

end Registry

end ExtensionMembers
