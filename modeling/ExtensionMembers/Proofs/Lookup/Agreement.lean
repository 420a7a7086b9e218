import ExtensionMembers.Call.Lowering
import ExtensionMembers.Proofs.Collection.Correspondence
import ExtensionMembers.Proofs.Lookup.Priority

/-!
# Look-ups in two registries

Two registries may know the same extensions by different identities. If, seen from two places, the
bases of a type are the same and its extensions correspond, tier by tier, then so do the answers to
a query; and what a use is lowered to depends on the answer, not on identities.

## Main definitions

* `Extension.Twin`: extensions that differ in their identity and scope at most.
* `SameOffer`: the same member, of extensions that correspond.
* `Resolution.Alike`: answers whose extensions correspond.

## Main results

* `Registry.bases_congr`: where the types are the same, so are the bases.
* `Registry.resolve_alike`: the answers to a query.
* `Registry.lowerAccess_eq_of_alike`: uses that resolve alike are lowered alike.
-/

namespace ExtensionMembers

/-- Two extensions that differ in their `id` and their `scope` at most. -/
structure Extension.Twin (extension other : Extension) : Prop where
  name_eq : extension.name = other.name
  extended_eq : extension.extended = other.extended
  members_eq : extension.members = other.members
  isStaticOnly_eq : extension.isStaticOnly = other.isStaticOnly
  isValid_eq : extension.isValid = other.isValid
  span_eq : extension.span = other.span

namespace Extension.Twin

variable {extension other : Extension} (h : extension.Twin other)

include h

theorem hash_eq : extension.hash = other.hash := by
  rw [hash, h.name_eq, hash]

theorem extendedHash?_eq : extension.extendedHash? = other.extendedHash? := by
  rw [extendedHash?, h.extended_eq, extendedHash?]

/-- Both extensions of a `Twin` are listed for a type, or neither is. -/
theorem isListed_eq (hash : TypeHash) :
    (extension.isValid && decide (extension.extendedHash? = some hash)) =
      (other.isValid && decide (other.extendedHash? = some hash)) := by
  rw [h.isValid_eq, h.extendedHash?_eq]

end Extension.Twin

/-- The same member, offered by extensions that are related by `twin`. -/
def SameOffer (twin : Extension → Extension → Prop) (offer other : Extension × Member) : Prop :=
  twin offer.1 other.1 ∧ offer.2 = other.2

/-- The same declared member, members of extensions whose offers are related by `Rel`, or
nothing. -/
inductive Resolution.Alike (Rel : List (Extension × Member) → List (Extension × Member) → Prop) :
    Resolution → Resolution → Prop
  | declared (owner : NamedType) (member : Member) :
    Alike Rel (declared owner member) (declared owner member)
  | supplied {extension other : Extension} {member otherMember : Member} :
    Rel [(extension, member)] [(other, otherMember)] →
    Alike Rel (supplied extension member) (supplied other otherMember)
  | ambiguous {candidates others : List (Extension × Member)} :
    Rel candidates others → Alike Rel (ambiguous candidates) (ambiguous others)
  | notFound : Alike Rel Resolution.notFound Resolution.notFound

theorem Resolution.Alike.imp
    {Rel Rel' : List (Extension × Member) → List (Extension × Member) → Prop}
    (himp : ∀ offers others, Rel offers others → Rel' offers others) {resolution other : Resolution}
    (h : resolution.Alike Rel other) : resolution.Alike Rel' other := by
  cases h with
  | declared owner member => exact .declared owner member
  | supplied hrel => exact .supplied (himp _ _ hrel)
  | ambiguous hrel => exact .ambiguous (himp _ _ hrel)
  | notFound => exact .notFound

namespace Registry

/-! ## Bases -/

/-- A type that is not registered has no `bases`, not even itself. -/
theorem bases_eq_nil {registry : Registry} {hash : TypeHash}
    (h : registry.containsType hash = false) : registry.bases hash = [] := by
  have hout : hash ∉ registry.types.keys := by
    rw [Table.mem_keys_iff]
    simpa [containsType] using h
  rw [bases, trail, dif_neg hout, List.filterMap_nil]

/-- The `bases` of a type are the same if the types are, among those that the bases lead to. -/
theorem bases_congr {registry other : Registry} {among : TypeHash → Prop}
    (htypes : ∀ hash, among hash → registry.type? hash = other.type? hash)
    (hbases : ∀ hash type base, among hash → registry.type? hash = some type →
      type.base = some base → among base) {hash : TypeHash} (hhash : among hash) :
    registry.bases hash = other.bases hash := by
  have htrail : List.Forall₂ (fun hash hash' => hash = hash' ∧ among hash)
      (trail (fun hash => (registry.type? hash).bind (·.base)) registry.types.keys hash)
      (trail (fun hash => (other.type? hash).bind (·.base)) other.types.keys hash) := by
    -- The walk stays among types that are the same, so it takes the same steps.
    refine trail_forall₂ ?_ ?_ ?_ ⟨rfl, hhash⟩
    · rintro hash _ another _ ⟨rfl, _⟩ ⟨rfl, _⟩
      exact Iff.rfl
    · rintro hash _ ⟨rfl, hamong⟩
      rw [← htypes hash hamong]
      cases htype : registry.type? hash with
      | none => exact .none
      | some type =>
        cases hbase : type.base with
        | none => simp [hbase]
        | some base => simp [hbase, hbases hash type base hamong htype hbase]
    · rintro hash _ ⟨rfl, hamong⟩
      have hcontains : registry.types.contains hash = other.types.contains hash :=
        congrArg Option.isSome (htypes hash hamong)
      rw [Table.mem_keys_iff, Table.mem_keys_iff, hcontains]
  rw [bases, bases, ← List.forall₂_eq_eq_eq]
  refine List.rel_filterMap (fun hash hash' hrel => ?_) htrail
  obtain ⟨rfl, hamong⟩ := hrel
  exact option_rel_eq_iff.2 (htypes hash hamong)

/-! ## Tiers -/

section Tiers

variable {twin : Extension → Extension → Prop}
  (htwin : ∀ extension other, twin extension other → extension.Twin other)

include htwin

theorem rel_offer (query : MemberQuery) {extension other : Extension} (h : twin extension other) :
    Option.Rel (SameOffer twin) ((extension.member? query).map (extension, ·))
      ((other.member? query).map (other, ·)) := by
  have hmember : extension.member? query = other.member? query := by
    rw [Extension.member?, (htwin _ _ h).members_eq, Extension.member?]
  rw [hmember]
  cases other.member? query with
  | none => exact .none
  | some member => exact .some ⟨h, rfl⟩

theorem forall₂_offers (query : MemberQuery) {extensions others : List Extension}
    (h : List.Forall₂ twin extensions others) :
    List.Forall₂ (SameOffer twin) (offers query extensions) (offers query others) :=
  List.rel_filterMap (R := twin) (fun _ _ hrel => rel_offer htwin query hrel) h

theorem rearranged_offers (query : MemberQuery) {extensions others : List Extension}
    (h : Rearranged twin extensions others) :
    Rearranged (SameOffer twin) (offers query extensions) (offers query others) :=
  h.filterMap fun _ _ hrel => rel_offer htwin query hrel

section Depth

variable {registry other : Registry} {hash : TypeHash} {chain chain' : ScopeChain}
  (hdepth : ∀ extension extension', twin extension extension' →
    registry.depthOf? chain extension = other.depthOf? chain' extension')

include hdepth

theorem inTier_eq (depth : Nat) {extension extension' : Extension}
    (h : twin extension extension') :
    (extension.isValid && registry.depthOf? chain extension == some depth) =
      (extension'.isValid && other.depthOf? chain' extension' == some depth) := by
  rw [(htwin _ _ h).isValid_eq, hdepth _ _ h]

/-- Where the extensions of a type correspond and are reached at the same levels, so does each
`tierAt`. -/
theorem forall₂_tierAt
    (h : List.Forall₂ twin (registry.extensionsOf hash) (other.extensionsOf hash)) (depth : Nat) :
    List.Forall₂ twin (registry.tierAt hash chain depth) (other.tierAt hash chain' depth) :=
  List.rel_filter (fun _ _ hrel => Bool.eq_iff_iff.1 (inTier_eq htwin hdepth depth hrel)) h

theorem rearranged_tierAt
    (h : Rearranged twin (registry.extensionsOf hash) (other.extensionsOf hash)) (depth : Nat) :
    Rearranged twin (registry.tierAt hash chain depth) (other.tierAt hash chain' depth) :=
  h.filter fun _ _ hrel => inTier_eq htwin hdepth depth hrel

end Depth

end Tiers

/-! ## Answers -/

section Answers

variable {Rel : List (Extension × Member) → List (Extension × Member) → Prop}
  (hlength : ∀ candidates others, Rel candidates others → candidates.length = others.length)

include hlength

theorem alike_ofCandidates {candidates others : List (Extension × Member)}
    (h : Rel candidates others) :
    (Resolution.ofCandidates candidates).Alike Rel (.ofCandidates others) := by
  have heq := hlength _ _ h
  rcases candidates with _ | ⟨first, _ | ⟨second, rest⟩⟩ <;>
    rcases others with _ | ⟨first', _ | ⟨second', rest'⟩⟩ <;> simp at heq
  · exact .notFound
  · exact .supplied h
  · exact .ambiguous h

/-- `resolveInTiers` gives answers that are `Alike` for tiers with offers that are related. -/
theorem alike_resolveInTiers {query : MemberQuery} {tiers others : List (List Extension)}
    (h : List.Forall₂ (fun tier other => Rel (offers query tier) (offers query other)) tiers
      others) :
    (resolveInTiers query tiers).Alike Rel (resolveInTiers query others) := by
  induction h with
  | nil => exact .notFound
  | @cons tier other _ _ hrel _ ih =>
    have heq : offers query tier = [] ↔ offers query other = [] := by
      rw [← List.length_eq_zero_iff, ← List.length_eq_zero_iff, hlength _ _ hrel]
    rw [resolveInTiers, resolveInTiers]
    by_cases hempty : offers query tier = []
    · rw [if_pos hempty, if_pos (heq.1 hempty)]
      exact ih
    · rw [if_neg hempty, if_neg (mt heq.2 hempty)]
      exact alike_ofCandidates hlength hrel

/-- Where the type asked has the same bases and its extensions correspond, tier by tier, `resolve`
gives answers that are `Alike`. -/
theorem resolve_alike {registry other : Registry} {query : MemberQuery}
    {chain chain' : ScopeChain} {twin : Extension → Extension → Prop}
    (htwin : ∀ extension extension', twin extension extension' → extension.Twin extension')
    (hrel : ∀ extension extension' member, twin extension extension' →
      Rel [(extension, member)] [(extension', member)])
    (hqualifying : Option.Rel twin (registry.qualifyingExtension? query)
      (other.qualifyingExtension? query))
    (hbases : registry.bases query.receiver = other.bases query.receiver)
    (hlevels : chain.levels.length = chain'.levels.length)
    (htiers : ∀ depth, Rel (offers query (registry.tierAt query.receiver chain depth))
      (offers query (other.tierAt query.receiver chain' depth))) :
    (registry.resolve query chain).Alike Rel (other.resolve query chain') := by
  unfold resolve
  generalize registry.qualifyingExtension? query = qualifying at hqualifying
  generalize other.qualifyingExtension? query = qualifying' at hqualifying
  -- The own type of an extension first, then declared members, then the tiers.
  cases hqualifying with
  | some hsome =>
    dsimp only
    obtain ⟨_, _, hmembers, _, hvalid, _⟩ := htwin _ _ hsome
    unfold resolveWithin Extension.member?
    rw [hvalid, hmembers]
    split
    · split
      · exact .supplied (hrel _ _ _ hsome)
      · exact .notFound
    · exact .notFound
  | none =>
    have hdeclared : registry.declared? query = other.declared? query := by
      rw [declared?, hbases, declared?]
    dsimp only
    rw [hdeclared]
    split
    · exact .declared _ _
    · rw [tiers, tiers, resolveInTiers_filter, resolveInTiers_filter, hlevels]
      refine alike_resolveInTiers hlength (List.forall₂_map_left_iff.2
        (List.forall₂_map_right_iff.2 (List.forall₂_same.2 fun depth _ => htiers depth)))

end Answers

/-! ## Lowering -/

/-- `CallForm.ofSupplied` is the same for extensions that are `Twin`. -/
theorem ofSupplied_eq_of_twin {extension other : Extension} (h : extension.Twin other)
    (member : Member) (kind : AccessKind) (receiver : Option Operand) (args : List Operand) :
    CallForm.ofSupplied extension member kind receiver args =
      .ofSupplied other member kind receiver args := by
  have htarget : CallTarget.ofMember extension member kind = .ofMember other member kind := by
    simp only [CallTarget.ofMember, Extension.hash, h.name_eq, h.extended_eq]
  rw [CallForm.ofSupplied, htarget, CallForm.ofSupplied]

/-- `lowerAccess` gives the same for answers that are `Alike`, if the type asked has the same
name. -/
theorem lowerAccess_eq_of_alike {registry other : Registry} {site : AccessSite}
    {resolution resolution' : Resolution}
    (h : resolution.Alike (List.Forall₂ (SameOffer Extension.Twin)) resolution')
    (hname : resolution = .notFound →
      registry.typeName? site.access.target = other.typeName? site.access.target) :
    registry.lowerAccess site resolution = other.lowerAccess site resolution' := by
  have hform : registry.formOf site resolution = other.formOf site resolution' := by
    -- What is lowered shows names of extensions, never their identities.
    cases h with
    | declared owner member => rfl
    | @supplied _ _ member _ hrel =>
      obtain ⟨⟨htwin, rfl⟩, _⟩ := List.forall₂_cons.1 hrel
      unfold formOf Resolution.member?
      simp only [CallForm.ofResolution, ofSupplied_eq_of_twin htwin]
    | ambiguous hrel =>
      have hnames := map_eq_of_forall₂ (f := fun candidate : Extension × Member => candidate.1.name)
        (fun _ _ hoffer => hoffer.1.name_eq) hrel
      unfold formOf Resolution.member? siteFault lookupFault?
      simp only [hnames]
    | notFound =>
      unfold formOf Resolution.member? siteFault lookupFault? MemberQuery.ofSite
      simp only [hname rfl]
  rw [lowerAccess, hform, lowerAccess]

end Registry

end ExtensionMembers
