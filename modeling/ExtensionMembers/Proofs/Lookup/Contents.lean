import ExtensionMembers.Proofs.Lookup.Agreement
import ExtensionMembers.Protocol.Plan

/-!
# Registries with the same contents

A look-up reads the types and the extensions of a registry, and of the scopes no more than the level
at which a chain reaches each namespace. So uses are lowered alike in registries that hold the same
types and extensions, where the chains reach the same.

## Main definitions

* `ScopeChain.SameReach`: chains that reach the same namespaces at the same levels.
* `Registry.SameContents`: registries with the same types and extensions.

## Main results

* `Registry.SameContents.resolve_eq`: queries have the same answers.
* `Registry.SameContents.lowerSite_congr`, `Registry.SameContents.lowerProtocol_congr`: uses are
  lowered alike.
-/

namespace ExtensionMembers

/-- Two chains with the same number of levels, which reach each namespace at the same level
(`ScopeChain.depthOf?`). -/
structure ScopeChain.SameReach (chain other : ScopeChain) : Prop where
  length_eq : chain.levels.length = other.levels.length
  depthOf?_eq : ∀ id, chain.depthOf? id = other.depthOf? id

theorem ScopeChain.SameReach.of_eq {chain other : ScopeChain} (h : chain = other) :
    chain.SameReach other :=
  h ▸ ⟨rfl, fun _ => rfl⟩

namespace Registry

/-- Two registries with the same types and extensions, declared in the same namespaces
(`namespaceOf?`). -/
structure SameContents (registry other : Registry) : Prop where
  type?_eq : ∀ hash, registry.type? hash = other.type? hash
  extensions_eq : registry.extensions = other.extensions
  index_eq : registry.index = other.index
  namespaceOf?_eq : ∀ extension, registry.namespaceOf? extension = other.namespaceOf? extension

namespace SameContents

variable {registry other : Registry} (h : registry.SameContents other)

include h

theorem resolve_eq (query : MemberQuery) {chain chain' : ScopeChain}
    (hchain : chain.SameReach chain') :
    registry.resolve query chain = other.resolve query chain' := by
  have hextension : ∀ id, registry.extension? id = other.extension? id := by
    intro id
    rw [extension?, h.extensions_eq, extension?]
  have hqualifying : registry.qualifyingExtension? query = other.qualifyingExtension? query := by
    simp only [qualifyingExtension?, extensionOfType?, h.extensions_eq, hextension]
  have hbases : registry.bases query.receiver = other.bases query.receiver :=
    bases_congr (fun hash _ => h.type?_eq hash) (fun _ _ _ _ _ _ => trivial) trivial
  have htiers : registry.tiers query.receiver chain = other.tiers query.receiver chain' := by
    have hdepth : chain.depthOf? = chain'.depthOf? := funext hchain.depthOf?_eq
    have htier : registry.tierAt query.receiver chain = other.tierAt query.receiver chain' := by
      funext depth
      simp only [tierAt, extensionsOf, depthOf?, h.index_eq, h.namespaceOf?_eq, hextension, hdepth]
    rw [tiers, htier, hchain.length_eq, tiers]
  simp only [resolve, hqualifying, declared?, hbases, htiers]

theorem typeName?_eq (hash : TypeHash) : registry.typeName? hash = other.typeName? hash := by
  rw [typeName?, h.type?_eq, typeName?]

theorem lookupFault?_eq (query : MemberQuery) (span : Span) (resolution : Resolution) :
    registry.lookupFault? query span resolution = other.lookupFault? query span resolution := by
  cases resolution <;> simp only [lookupFault?, h.typeName?_eq]

/-- Under `SameContents`, `lowerSite` is the same where the chains have the `SameReach`. -/
theorem lowerSite_congr {site : AccessSite}
    (hchain : (registry.chain site.scope).SameReach (other.chain site.scope)) :
    registry.lowerSite site = other.lowerSite site := by
  have hfault : ∀ resolution, registry.siteFault site resolution =
      other.siteFault site resolution := by
    intro resolution
    rw [siteFault, h.lookupFault?_eq, siteFault]
  simp only [lowerSite, lowerAccess, formOf, h.resolve_eq _ hchain, hfault]

/-- Under `SameContents`, `lowerSite` is the same where the chains are the same. -/
theorem lowerSite_eq {site : AccessSite}
    (hchain : registry.chain site.scope = other.chain site.scope) :
    registry.lowerSite site = other.lowerSite site :=
  h.lowerSite_congr (.of_eq hchain)

theorem discoverFrom_eq {chain chain' : ScopeChain} (hchain : chain.SameReach chain') (span : Span)
    (types : SlotTypes) (steps : List ProtocolStep) :
    registry.discoverFrom chain span types steps =
      other.discoverFrom chain' span types steps := by
  induction steps generalizing types with
  | nil => rfl
  | cons step rest ih =>
    simp only [discoverFrom, h.resolve_eq _ hchain, h.lookupFault?_eq, ih]

/-- Under `SameContents`, `lowerProtocol` is the same where the chains have the `SameReach`. -/
theorem lowerProtocol_congr {site : ProtocolSite}
    (hchain : (registry.chain site.scope).SameReach (other.chain site.scope)) :
    registry.lowerProtocol site = other.lowerProtocol site := by
  have hadd : registry.lowerAdd site = other.lowerAdd site := by
    funext element
    simp only [lowerAdd, addForm, h.resolve_eq _ hchain, h.lookupFault?_eq]
  have hsteps : registry.lowerSteps site = other.lowerSteps site := by
    funext protocol
    simp only [lowerSteps, discover, h.discoverFrom_eq hchain]
  have hplan : registry.planOf site = other.planOf site := by
    rw [planOf, hsteps, hadd, planOf]
  rw [lowerProtocol, hplan, lowerProtocol]

/-- Under `SameContents`, `lowerProtocol` is the same where the chains are the same. -/
theorem lowerProtocol_eq {site : ProtocolSite}
    (hchain : registry.chain site.scope = other.chain site.scope) :
    registry.lowerProtocol site = other.lowerProtocol site :=
  h.lowerProtocol_congr (.of_eq hchain)

end SameContents

end Registry

end ExtensionMembers
