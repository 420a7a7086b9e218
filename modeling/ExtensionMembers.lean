import ExtensionMembers.Compilation
import ExtensionMembers.Proofs.Build.Accounting
import ExtensionMembers.Proofs.Build.Conservation
import ExtensionMembers.Proofs.Build.Directives
import ExtensionMembers.Proofs.Build.FileOrder
import ExtensionMembers.Proofs.Build.Imports
import ExtensionMembers.Proofs.Build.Levels
import ExtensionMembers.Proofs.Build.Nesting
import ExtensionMembers.Proofs.Build.Phases
import ExtensionMembers.Proofs.Build.References
import ExtensionMembers.Proofs.Build.Renumbering
import ExtensionMembers.Proofs.Build.Storage
import ExtensionMembers.Proofs.Build.TypeHashes
import ExtensionMembers.Proofs.Build.TypeNames
import ExtensionMembers.Proofs.Build.UsingSets
import ExtensionMembers.Proofs.Call.Acceptance
import ExtensionMembers.Proofs.Call.Arity
import ExtensionMembers.Proofs.Call.Evaluation
import ExtensionMembers.Proofs.Call.Faults
import ExtensionMembers.Proofs.Call.Legality
import ExtensionMembers.Proofs.Call.Placement
import ExtensionMembers.Proofs.Call.Signature
import ExtensionMembers.Proofs.Collection.Traversal
import ExtensionMembers.Proofs.Lookup.Declared
import ExtensionMembers.Proofs.Lookup.Priority
import ExtensionMembers.Proofs.Lookup.Ranking
import ExtensionMembers.Proofs.Lookup.Slots
import ExtensionMembers.Proofs.Namespace.Links
import ExtensionMembers.Proofs.Protocol.Completeness
import ExtensionMembers.Proofs.Protocol.Elements
import ExtensionMembers.Proofs.Protocol.NoValue
import ExtensionMembers.Proofs.Protocol.Optional
import ExtensionMembers.Proofs.Protocol.Slots
import ExtensionMembers.Proofs.Registry.Rejection
import ExtensionMembers.Proofs.Registry.Replacement
import ExtensionMembers.Proofs.Build.BlockScopes
import ExtensionMembers.Proofs.Call.Batches
import ExtensionMembers.Proofs.Registry.Index
import ExtensionMembers.Proofs.Registry.Bases
import ExtensionMembers.Proofs.Program.Flattening
import ExtensionMembers.Proofs.Name.MemberHashes
