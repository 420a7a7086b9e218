import ExtensionMembers.Proofs.Build.Nesting
import ExtensionMembers.Proofs.Namespace.Order

/-!
# Which chains lead from the inside out

Depths are compared on the understanding that an inner level comes before an outer one. In a
finished registry this holds of a chain exactly if no block on the way outward opens the namespace
of the scope around it once more, other than the global namespace. A block does so if it has no
path. Then all namespaces around it come before the scope that it lies in.

## Main results

* `Registry.chain_innerFirst_iff`: the chains of a finished registry that lead from the inside out.
* `Registry.chain_turns_back`: one that does not.
-/

namespace ExtensionMembers

namespace Registry

/-- `Registry.chain` leads from the inside out (`InnerFirst`) if and only if neither the scope nor
one around it opens the namespace of the scope around that once more, unless this is the global
namespace. -/
theorem chain_innerFirst_iff (files : List SourceFile) (options : Options) :
    let registry := (assemble files options).registry
    ∀ id : ScopeId, (registry.chain id).InnerFirst registry.namespaces ↔
      ∀ block ∈ registry.scopes.outward id, ∀ space,
        registry.scopes.Reopens block space → space = NamespaceTree.root := by
  intro registry id
  cases hscope : registry.scopes.get? id with
  | none =>
    rw [chain, ScopeTable.chain_eq_nil hscope, ScopeTable.outward_eq_nil hscope]
    exact iff_of_true .nil nofun
  | some scope =>
    obtain ⟨blocks, path, hblocks, houtward, hpath⟩ :=
      exists_lexicalPath_assemble files options hscope
    rw [houtward]
    -- Any path may continue that of the scope around a block, the empty one included.
    exact (nested_assemble files options).innerFirst_iff (opened_assemble files options).proper
      hblocks hscope hpath

end Registry

/-- A block without a path within a namespace block. -/
def reopenedFile : SourceFile := ⟨⟨0⟩, "shop", [.block ["Shop"] [.block [] []]]⟩

/-- From the inner block of `reopenedFile` the chain leads up to the global namespace, and then
turns back to the namespace of the outer block, around which that lies. -/
theorem Registry.chain_turns_back :
    let registry := (assemble [reopenedFile] .standard).registry
    (registry.chain ⟨2⟩).levels.map (fun level => registry.namespaces.path level.namespaceId) =
        [["Shop"], [], ["Shop"], []] ∧
      ¬ (registry.chain ⟨2⟩).InnerFirst registry.namespaces := by
  intro registry
  have hlevels : (registry.chain ⟨2⟩).levels = [⟨⟨1⟩, []⟩, ⟨⟨0⟩, []⟩, ⟨⟨1⟩, []⟩, ⟨⟨0⟩, []⟩] := by
    decide +kernel
  refine ⟨by decide +kernel, fun h => ?_⟩
  rw [ScopeChain.InnerFirst, hlevels, List.pairwise_cons, List.pairwise_cons] at h
  exact h.2.1 ⟨⟨1⟩, []⟩ List.mem_cons_self
    ⟨[], ["Shop"], by decide, by decide +kernel, by decide +kernel⟩

end ExtensionMembers
