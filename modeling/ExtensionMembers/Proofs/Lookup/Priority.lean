import ExtensionMembers.Lookup.Resolution
import ExtensionMembers.Proofs.Registry.Reachable

/-!
# The priority rule

Which member a use means is laid down here without the steps of the search: a member that the type
asked or a base declares goes first, whatever its category; failing that, the innermost level from
which any extension offers a match decides, and it has to be one extension alone.

## Main definitions

* `IsFirst`: an element is the first of a list that satisfies a condition.
* `MemberQuery.Names`, `MemberQuery.Wants`: what a declared member and what a member of an
  extension has to satisfy.
* `Registry.DeclaresFirst`, `Registry.DeclaresNone`: declared members, derived types first.
* `Registry.OffersAt`, `Registry.IsNearest`: what extensions offer from a level of a chain.
* `Registry.ListsOffers`: a list of the offers of one level, in declaration order.

## Main results

* `Registry.resolve_iff_priority`: the answer of a query is the one that the rule names.
* `Registry.resolveInTiers_cases`: the search stops at the nearest level with an offer.
* `Registry.names_of_resolve`, `Registry.wants_of_resolve_supplied`: what any member found
  satisfies.
-/

namespace ExtensionMembers

/-- The element satisfies the `condition` and nothing before it in the list does. -/
def IsFirst {α : Type} (condition : α → Prop) (list : List α) (element : α) : Prop :=
  ∃ before after, list = before ++ element :: after ∧ condition element ∧
    ∀ other ∈ before, ¬ condition other

/-- `find?` gives the first element that satisfies the condition. -/
theorem find?_eq_some_iff_isFirst {α : Type} {test : α → Bool} {condition : α → Prop}
    (htest : ∀ element, test element = true ↔ condition element) {list : List α} {element : α} :
    list.find? test = some element ↔ IsFirst condition list element := by
  rw [List.find?_eq_some_iff_append, htest]
  simp only [IsFirst, ← htest, Bool.not_eq_true', Bool.not_eq_true]
  constructor
  · rintro ⟨helement, before, after, hlist, hbefore⟩
    exact ⟨before, after, hlist, helement, hbefore⟩
  · rintro ⟨before, after, hlist, helement, hbefore⟩
    exact ⟨helement, before, after, hlist, hbefore⟩

/-- Some element `IsFirst` if any element satisfies the condition. -/
theorem exists_isFirst {α : Type} {condition : α → Prop} {list : List α}
    (h : ∃ element ∈ list, condition element) : ∃ element, IsFirst condition list element := by
  classical
  obtain ⟨element, hin, helement⟩ := h
  have hfound : (list.find? (decide <| condition ·)).isSome = true :=
    List.find?_isSome.2 ⟨element, hin, decide_eq_true helement⟩
  obtain ⟨first, hfirst⟩ := Option.isSome_iff_exists.1 hfound
  exact ⟨first, (find?_eq_some_iff_isFirst fun _ => decide_eq_true_iff).1 hfirst⟩

/-- `IsFirst` in a list with a first element: that element, or one among the others. -/
theorem isFirst_cons_iff {α : Type} {condition : α → Prop} {first element : α} {rest : List α} :
    IsFirst condition (first :: rest) element ↔
      condition first ∧ element = first ∨
        ¬ condition first ∧ IsFirst condition rest element := by
  constructor
  · rintro ⟨before, after, hlist, helement, hbefore⟩
    cases before with
    | nil =>
      obtain ⟨rfl, rfl⟩ := List.cons.inj hlist
      exact .inl ⟨helement, rfl⟩
    | cons other before =>
      obtain ⟨rfl, rfl⟩ := List.cons.inj hlist
      obtain ⟨hother, hbefore⟩ := List.forall_mem_cons.1 hbefore
      exact .inr ⟨hother, before, after, rfl, helement, hbefore⟩
  · rintro (⟨hfirst, rfl⟩ | ⟨hfirst, before, after, rfl, helement, hbefore⟩)
    · exact ⟨[], rest, rfl, hfirst, by simp⟩
    · exact ⟨first :: before, after, rfl, helement, List.forall_mem_cons.2 ⟨hfirst, hbefore⟩⟩

/-- `findSome?` gives the result of the first element that has one. -/
theorem findSome?_eq_some_iff_isFirst {α β : Type} {result? : α → Option β} {list : List α}
    {result : β} :
    list.findSome? result? = some result ↔
      ∃ element, IsFirst (fun element => ∃ result, result? element = some result) list element ∧
        result? element = some result := by
  rw [List.findSome?_eq_some_iff]
  simp only [IsFirst, not_exists, ← Option.eq_none_iff_forall_ne_some]
  constructor
  · rintro ⟨before, element, after, hlist, helement, hbefore⟩
    exact ⟨element, ⟨before, after, hlist, ⟨result, helement⟩, hbefore⟩, helement⟩
  · rintro ⟨element, ⟨before, after, hlist, _, hbefore⟩, helement⟩
    exact ⟨before, element, after, hlist, helement, hbefore⟩

/-- A sublist of a list without repetitions is told by its elements, which `filter` picks. -/
theorem eq_filter_of_sublist {α : Type} [DecidableEq α] {part whole : List α}
    (hsub : part.Sublist whole) (hnodup : whole.Nodup) :
    part = whole.filter (· ∈ part) := by
  induction hsub with
  | slnil => rfl
  | @cons part whole first hsub ih =>
    obtain ⟨hfirst, hnodup⟩ := List.nodup_cons.1 hnodup
    have hout : first ∉ part := fun hin => hfirst (hsub.subset hin)
    rw [List.filter_cons_of_neg (by simpa using hout)]
    exact ih hnodup
  | @cons_cons part whole first hsub ih =>
    obtain ⟨hfirst, hnodup⟩ := List.nodup_cons.1 hnodup
    rw [List.filter_cons_of_pos (by simp)]
    congr 1
    refine (ih hnodup).trans (List.filter_congr fun other hother => ?_)
    have hne : other ≠ first := fun heq => hfirst (heq ▸ hother)
    simp [hne]

/-! ## What a query asks for -/

namespace MemberQuery

/-- The member has the name asked for and accepts the number of arguments, if one is given: what
`collides` tests. -/
def Names (query : MemberQuery) (member : Member) : Prop :=
  member.name = query.name ∧
    ∀ count, query.arity = some count → member.acceptsArity count = true

/-- The member has the category and static-ness asked for as well: what `Extension.member?`
tests. -/
def Wants (query : MemberQuery) (member : Member) : Prop :=
  query.Names member ∧ member.category = query.category ∧ member.isStatic = query.isStatic

/-- `collides` is having the name and accepting the arity (`Names`). -/
theorem collides_iff (query : MemberQuery) (member : Member) :
    query.collides member = true ↔ query.Names member := by
  cases harity : query.arity <;> simp [collides, Names, harity]

/-- The test by which `Extension.member?` picks members is `Wants`. -/
theorem selects_iff (query : MemberQuery) (member : Member) :
    (member.isStatic == query.isStatic && query.selects member) = true ↔ query.Wants member := by
  simp only [selects, Wants, ← collides_iff, Bool.and_eq_true, beq_iff_eq, decide_eq_true_eq]
  tauto

end MemberQuery

/-- `Extension.member?` is the first member that the query `Wants`. -/
theorem Extension.member?_eq_some_iff {extension : Extension} {query : MemberQuery}
    {member : Member} :
    extension.member? query = some member ↔ IsFirst query.Wants extension.members member :=
  find?_eq_some_iff_isFirst query.selects_iff

/-! ## Answers -/

namespace Resolution

/-- `Resolution.member?` is declared by a type or supplied by an extension. -/
theorem cases_of_member? {resolution : Resolution} {member : Member}
    (h : resolution.member? = some member) :
    (∃ owner, resolution = declared owner member) ∨
      ∃ extension, resolution = supplied extension member := by
  cases resolution with
  | declared owner found =>
    obtain rfl := Option.some.inj h
    exact .inl ⟨owner, rfl⟩
  | supplied extension found =>
    obtain rfl := Option.some.inj h
    exact .inr ⟨extension, rfl⟩
  | ambiguous candidates => cases h
  | notFound => cases h

/-- `ofCandidates` of one candidate alone is `supplied`. -/
theorem ofCandidates_eq_supplied_iff {candidates : List (Extension × Member)}
    {extension : Extension} {member : Member} :
    ofCandidates candidates = supplied extension member ↔ candidates = [(extension, member)] := by
  match candidates with
  | [] => simp [ofCandidates]
  | [(_, _)] => simp [ofCandidates]
  | _ :: _ :: _ => simp [ofCandidates]

/-- `ofCandidates` of two or more candidates is `ambiguous`. -/
theorem ofCandidates_eq_ambiguous_iff {candidates named : List (Extension × Member)} :
    ofCandidates candidates = ambiguous named ↔ candidates = named ∧ 2 ≤ named.length := by
  match candidates with
  | [] => simp [ofCandidates]; rintro rfl; simp
  | [_] => simp [ofCandidates]; rintro rfl; simp
  | _ :: _ :: _ => simp [ofCandidates]; rintro rfl; simp

/-- `ofCandidates` of no candidate is `notFound`. -/
theorem ofCandidates_eq_notFound_iff {candidates : List (Extension × Member)} :
    ofCandidates candidates = notFound ↔ candidates = [] := by
  match candidates with
  | [] => simp [ofCandidates]
  | [_] => simp [ofCandidates]
  | _ :: _ :: _ => simp [ofCandidates]

/-- `ofCandidates` is never `declared`: candidates come from extensions. -/
theorem ofCandidates_ne_declared {candidates : List (Extension × Member)} {owner : NamedType}
    {member : Member} : ofCandidates candidates ≠ declared owner member := by
  match candidates with
  | [] => simp [ofCandidates]
  | [_] => simp [ofCandidates]
  | _ :: _ :: _ => simp [ofCandidates]

end Resolution

/-! ## What is declared and what is offered -/

namespace Registry

/-- The type `owner` is the first, derived before base, that declares a member with the name and
arity asked for (`Names`), and the member is the first such member of it. -/
def DeclaresFirst (registry : Registry) (query : MemberQuery) (owner : NamedType)
    (member : Member) : Prop :=
  IsFirst (fun type => ∃ other ∈ type.members, query.Names other)
      (registry.bases query.receiver) owner ∧
    IsFirst query.Names owner.members member

/-- Neither the type asked nor one of its `bases` declares a member with the name and arity asked
for. -/
def DeclaresNone (registry : Registry) (query : MemberQuery) : Prop :=
  ∀ type ∈ registry.bases query.receiver, ∀ member ∈ type.members, ¬ query.Names member

/-- A valid extension of the type asked offers the first member that the query `Wants`, seen from a
level of the chain: the one that is the first to reach the namespace of the extension. -/
structure OffersAt (registry : Registry) (query : MemberQuery) (chain : ScopeChain) (depth : Nat)
    (extension : Extension) (member : Member) : Prop where
  isValid : extension.isValid = true
  extends_receiver : extension ∈ registry.extensionsOf query.receiver
  reached : ∃ id, registry.namespaceOf? extension = some id ∧ chain.depthOf? id = some depth
  first : IsFirst query.Wants extension.members member

/-- Some extension offers a match at this level (`OffersAt`), and none does at a level further
in. -/
def IsNearest (registry : Registry) (query : MemberQuery) (chain : ScopeChain)
    (depth : Nat) : Prop :=
  (∃ extension member, registry.OffersAt query chain depth extension member) ∧
    ∀ nearer < depth, ∀ extension member,
      ¬ registry.OffersAt query chain nearer extension member

/-- The `candidates` are the offers of one level, each extension once and in declaration order. -/
structure ListsOffers (registry : Registry) (query : MemberQuery) (chain : ScopeChain)
    (depth : Nat) (candidates : List (Extension × Member)) : Prop where
  mem_iff : ∀ extension member, (extension, member) ∈ candidates ↔
    registry.OffersAt query chain depth extension member
  nodup : (candidates.map (·.1)).Nodup
  sublist : (candidates.map (·.1)).Sublist (registry.extensionsOf query.receiver)

/-- `declared?` finds the member of `DeclaresFirst`. -/
theorem declared?_eq_some_iff {registry : Registry} {query : MemberQuery} {owner : NamedType}
    {member : Member} :
    registry.declared? query = some (owner, member) ↔
      registry.DeclaresFirst query owner member := by
  have hnone : ∀ type : NamedType,
      (type.members.find? query.collides).map (type, ·) = none ↔
        ¬ ∃ other ∈ type.members, query.Names other := by
    intro type
    simp [List.find?_eq_none, query.collides_iff]
  have hsome : ∀ type : NamedType,
      (type.members.find? query.collides).map (type, ·) = some (owner, member) ↔
        type = owner ∧ IsFirst query.Names owner.members member := by
    intro type
    rw [← find?_eq_some_iff_isFirst query.collides_iff, Option.map_eq_some_iff]
    constructor
    · rintro ⟨found, hfound, heq⟩
      obtain ⟨rfl, rfl⟩ := Prod.mk.inj heq
      exact ⟨rfl, hfound⟩
    · rintro ⟨rfl, hfound⟩
      exact ⟨member, hfound, rfl⟩
  rw [declared?, List.findSome?_eq_some_iff]
  simp only [hnone, hsome]
  -- The type found declares such a member, namely the first one.
  constructor
  · rintro ⟨before, type, after, hbases, ⟨rfl, hfirst⟩, hbefore⟩
    have ⟨_, _, hmembers, hnames, _⟩ := hfirst
    have hdeclares : ∃ other ∈ type.members, query.Names other :=
      ⟨member, by simp [hmembers], hnames⟩
    exact ⟨⟨before, after, hbases, hdeclares, hbefore⟩, hfirst⟩
  · rintro ⟨⟨before, after, hbases, _, hbefore⟩, hfirst⟩
    exact ⟨before, owner, after, hbases, ⟨rfl, hfirst⟩, hbefore⟩

/-- `declared?` finds nothing if there is no declared member (`DeclaresNone`). -/
theorem declared?_eq_none_iff {registry : Registry} {query : MemberQuery} :
    registry.declared? query = none ↔ registry.DeclaresNone query := by
  simp [declared?, DeclaresNone, List.findSome?_eq_none_iff, List.find?_eq_none,
    query.collides_iff]

/-- The `offers` of a tier are those at its level (`OffersAt`). -/
theorem mem_offers_tierAt {registry : Registry} {query : MemberQuery} {chain : ScopeChain}
    {depth : Nat} {extension : Extension} {member : Member} :
    (extension, member) ∈ offers query (registry.tierAt query.receiver chain depth) ↔
      registry.OffersAt query chain depth extension member := by
  have hmem : (extension, member) ∈ offers query (registry.tierAt query.receiver chain depth) ↔
      extension ∈ registry.tierAt query.receiver chain depth ∧
        extension.member? query = some member := by
    simp only [offers, List.mem_filterMap, Option.map_eq_some_iff, Prod.mk.injEq]
    constructor
    · rintro ⟨_, hin, _, hfound, rfl, rfl⟩
      exact ⟨hin, hfound⟩
    · rintro ⟨hin, hfound⟩
      exact ⟨extension, hin, member, hfound, rfl, rfl⟩
  rw [hmem, Extension.member?_eq_some_iff]
  simp only [tierAt, List.mem_filter, Bool.and_eq_true, beq_iff_eq, depthOf?,
    Option.bind_eq_some_iff]
  constructor
  · rintro ⟨⟨hlisted, hvalid, hreached⟩, hfirst⟩
    exact ⟨hvalid, hlisted, hreached, hfirst⟩
  · rintro ⟨hvalid, hlisted, hreached, hfirst⟩
    exact ⟨⟨hlisted, hvalid, hreached⟩, hfirst⟩

/-- The level of an offer (`OffersAt`) is a level of the chain. -/
theorem OffersAt.depth_lt {registry : Registry} {query : MemberQuery} {chain : ScopeChain}
    {depth : Nat} {extension : Extension} {member : Member}
    (h : registry.OffersAt query chain depth extension member) : depth < chain.levels.length := by
  obtain ⟨id, _, hdepth⟩ := h.reached
  exact (List.findIdx?_eq_some_iff_findIdx_eq.1 hdepth).1

/-- The `offers` of a tier list those at its level (`ListsOffers`). -/
theorem listsOffers_tierAt {registry : Registry} {query : MemberQuery}
    (hlisted : (registry.extensionsOf query.receiver).Nodup) (chain : ScopeChain) (depth : Nat) :
    registry.ListsOffers query chain depth
      (offers query (registry.tierAt query.receiver chain depth)) := by
  have hsub : ∀ extensions : List Extension,
      ((offers query extensions).map (·.1)).Sublist extensions := by
    intro extensions
    have hpick : ∀ (extension : Extension) (offer : Extension × Member),
        (extension.member? query).map (extension, ·) = some offer → offer.1 = id extension := by
      intro extension offer hoffer
      obtain ⟨member, _, rfl⟩ := Option.map_eq_some_iff.1 hoffer
      rfl
    have hpicked := map_filterMap_sublist hpick extensions
    rwa [List.map_id] at hpicked
  have hsublist := (hsub (registry.tierAt query.receiver chain depth)).trans List.filter_sublist
  exact ⟨fun _ _ => mem_offers_tierAt, hlisted.sublist hsublist, hsublist⟩

/-- A list of offers (`ListsOffers`) is what its extensions offer. -/
theorem ListsOffers.offers_map_fst {registry : Registry} {query : MemberQuery}
    {chain : ScopeChain} {depth : Nat} {candidates : List (Extension × Member)}
    (h : registry.ListsOffers query chain depth candidates) :
    offers query (candidates.map (·.1)) = candidates := by
  have hfound : ∀ candidate ∈ candidates, candidate.1.member? query = some candidate.2 := by
    intro candidate hin
    exact Extension.member?_eq_some_iff.2 ((h.mem_iff _ _).1 hin).first
  clear h
  induction candidates with
  | nil => rfl
  | cons first rest ih =>
    have hfirst := hfound first List.mem_cons_self
    have hrest := ih fun candidate hin => hfound candidate (List.mem_cons_of_mem _ hin)
    rw [offers] at hrest ⊢
    simp [hfirst, hrest]

/-- `ListsOffers` lists one offer if its extension alone has offers at the level. -/
theorem ListsOffers.eq_singleton_iff {registry : Registry} {query : MemberQuery}
    {chain : ScopeChain} {depth : Nat} {candidates : List (Extension × Member)}
    (h : registry.ListsOffers query chain depth candidates) {extension : Extension}
    {member : Member} :
    candidates = [(extension, member)] ↔ registry.OffersAt query chain depth extension member ∧
      ∀ other otherMember, registry.OffersAt query chain depth other otherMember →
        other = extension := by
  constructor
  · rintro rfl
    refine ⟨(h.mem_iff _ _).1 (List.mem_singleton_self _), fun other otherMember hoffer => ?_⟩
    exact congrArg (·.1) (List.mem_singleton.1 ((h.mem_iff _ _).2 hoffer))
  · rintro ⟨hoffer, honly⟩
    -- Every candidate is of the same extension, and no extension comes twice.
    have hsame : ∀ other ∈ candidates.map (·.1), other = extension := by
      intro other hin
      obtain ⟨⟨_, otherMember⟩, hcandidate, rfl⟩ := List.mem_map.1 hin
      exact honly _ otherMember ((h.mem_iff _ _).1 hcandidate)
    have hin := (h.mem_iff _ _).2 hoffer
    match candidates, h.nodup, hsame, hin with
    | [], _, _, hin => cases hin
    | [candidate], _, _, hin => rw [List.mem_singleton.1 hin]
    | first :: second :: rest, hnodup, hsame, _ =>
      have heq : first.1 = second.1 :=
        (hsame first.1 (by simp)).trans (hsame second.1 (by simp)).symm
      simp [heq] at hnodup

/-- `ListsOffers` lists several offers if two extensions have offers at the level. -/
theorem ListsOffers.two_le_length_iff {registry : Registry} {query : MemberQuery}
    {chain : ScopeChain} {depth : Nat} {candidates : List (Extension × Member)}
    (h : registry.ListsOffers query chain depth candidates) :
    2 ≤ candidates.length ↔ ∃ extension member other otherMember, extension ≠ other ∧
      registry.OffersAt query chain depth extension member ∧
      registry.OffersAt query chain depth other otherMember := by
  constructor
  · intro hmany
    match candidates, hmany, h with
    | first :: second :: rest, _, h =>
      have hne : first.1 ≠ second.1 := by
        have hnodup := h.nodup
        simp only [List.map_cons, List.nodup_cons, List.mem_cons, not_or] at hnodup
        exact hnodup.1.1
      exact ⟨first.1, first.2, second.1, second.2, hne, (h.mem_iff _ _).1 (by simp),
        (h.mem_iff _ _).1 (by simp)⟩
  · rintro ⟨extension, member, other, otherMember, hne, hoffer, hother⟩
    have hin := (h.mem_iff _ _).2 hoffer
    have hotherIn := (h.mem_iff _ _).2 hother
    match candidates, hin, hotherIn with
    | [], hin, _ => cases hin
    | [candidate], hin, hotherIn =>
      have heq := (List.mem_singleton.1 hin).trans (List.mem_singleton.1 hotherIn).symm
      exact absurd (congrArg (·.1) heq) hne
    | first :: second :: rest, _, _ => simp

/-- There is one list of the offers of a level (`ListsOffers`). -/
theorem ListsOffers.unique {registry : Registry} {query : MemberQuery} {chain : ScopeChain}
    {depth : Nat} {candidates others : List (Extension × Member)}
    (h : registry.ListsOffers query chain depth candidates)
    (hothers : registry.ListsOffers query chain depth others)
    (hlisted : (registry.extensionsOf query.receiver).Nodup) : candidates = others := by
  have hsame : ∀ extension,
      extension ∈ candidates.map (·.1) ↔ extension ∈ others.map (·.1) := by
    intro extension
    simp [h.mem_iff, hothers.mem_iff]
  -- Both lists keep the order in which the extensions of the type are listed.
  have hmap : candidates.map (·.1) = others.map (·.1) := by
    rw [eq_filter_of_sublist h.sublist hlisted, eq_filter_of_sublist hothers.sublist hlisted]
    exact List.filter_congr fun extension _ => decide_eq_decide.2 (hsame extension)
  rw [← h.offers_map_fst, hmap, hothers.offers_map_fst]

/-- There is one level that `IsNearest`. -/
theorem IsNearest.unique {registry : Registry} {query : MemberQuery} {chain : ScopeChain}
    {depth other : Nat} (h : registry.IsNearest query chain depth)
    (hother : registry.IsNearest query chain other) : depth = other := by
  obtain ⟨⟨extension, member, hoffer⟩, hbefore⟩ := h
  obtain ⟨⟨extension', member', hoffer'⟩, hbefore'⟩ := hother
  rcases Nat.lt_trichotomy depth other with hlt | heq | hgt
  · exact absurd hoffer (hbefore' depth hlt extension member)
  · exact heq
  · exact absurd hoffer' (hbefore other hgt extension' member')

/-! ## Searching the tiers -/

/-- `resolveInTiers` passes over tiers without extensions. -/
theorem resolveInTiers_filter (query : MemberQuery) (tiers : List (List Extension)) :
    resolveInTiers query (tiers.filter (· ≠ [])) = resolveInTiers query tiers := by
  induction tiers with
  | nil => rfl
  | cons tier outer ih =>
    by_cases hempty : tier = []
    · simpa [hempty, resolveInTiers, offers] using ih
    · rw [List.filter_cons_of_pos (by simpa using hempty), resolveInTiers, resolveInTiers, ih]

/-- `resolveInTiers` of tiers that are numbered from `start` on answers with the first that has a
candidate. -/
theorem resolveInTiers_range' (query : MemberQuery) (tierOf : Nat → List Extension)
    (start count : Nat) :
    (∃ depth < start + count, offers query (tierOf depth) ≠ [] ∧
        (∀ nearer < depth, start ≤ nearer → offers query (tierOf nearer) = []) ∧
        resolveInTiers query ((List.range' start count).map tierOf) =
          .ofCandidates (offers query (tierOf depth))) ∨
      (∀ depth < start + count, start ≤ depth → offers query (tierOf depth) = []) ∧
        resolveInTiers query ((List.range' start count).map tierOf) = .notFound := by
  -- What comes after the first tier is again numbered, from the next number on.
  induction count generalizing start with
  | zero => exact .inr ⟨fun depth hlt hle => by omega, rfl⟩
  | succ count ih =>
    rw [List.range'_succ, List.map_cons, resolveInTiers]
    by_cases hempty : offers query (tierOf start) = []
    · rw [if_pos hempty]
      have hstart : ∀ depth, start ≤ depth →
          (start + 1 ≤ depth → offers query (tierOf depth) = []) →
          offers query (tierOf depth) = [] := by
        intro depth hle hlater
        rcases Nat.eq_or_lt_of_le hle with rfl | hlt
        · exact hempty
        · exact hlater hlt
      rcases ih (start + 1) with ⟨depth, hlt, hoffers, hbefore, hanswer⟩ | ⟨hnone, hanswer⟩
      · exact .inl ⟨depth, by omega, hoffers,
          fun nearer hnearer hle => hstart nearer hle (hbefore nearer hnearer), hanswer⟩
      · exact .inr ⟨fun depth hlt hle => hstart depth hle (hnone depth (by omega)), hanswer⟩
    · rw [if_neg hempty]
      exact .inl ⟨start, by omega, hempty, fun nearer hlt hle => by omega, rfl⟩

/-- `resolveInTiers` stops at the level that `IsNearest`, or finds nothing if there is none. -/
theorem resolveInTiers_cases (registry : Registry) (query : MemberQuery) (chain : ScopeChain) :
    (∃ depth, registry.IsNearest query chain depth ∧
        resolveInTiers query (registry.tiers query.receiver chain) =
          .ofCandidates (offers query (registry.tierAt query.receiver chain depth))) ∨
      (∀ depth extension member, ¬ registry.OffersAt query chain depth extension member) ∧
        resolveInTiers query (registry.tiers query.receiver chain) = .notFound := by
  have hempty : ∀ depth, offers query (registry.tierAt query.receiver chain depth) = [] →
      ∀ extension member, ¬ registry.OffersAt query chain depth extension member := by
    intro depth hnil extension member hoffer
    have hin := mem_offers_tierAt.2 hoffer
    rw [hnil] at hin
    exact List.not_mem_nil hin
  rw [tiers, resolveInTiers_filter, List.range_eq_range']
  rcases resolveInTiers_range' query (registry.tierAt query.receiver chain) 0
    chain.levels.length with ⟨depth, _, hoffers, hbefore, hanswer⟩ | ⟨hnone, hanswer⟩
  · -- A tier with candidates is a level with an offer, and those before it have none.
    obtain ⟨⟨extension, member⟩, hin⟩ := List.exists_mem_of_ne_nil _ hoffers
    refine .inl ⟨depth, ⟨⟨extension, member, mem_offers_tierAt.1 hin⟩, ?_⟩, hanswer⟩
    exact fun nearer hlt => hempty nearer (hbefore nearer hlt (Nat.zero_le _))
  · refine .inr ⟨fun depth extension member hoffer => ?_, hanswer⟩
    have hlt := hoffer.depth_lt
    exact hempty depth (hnone depth (by omega) (Nat.zero_le _)) extension member hoffer

/-! ## What is found -/

/-- A member that `resolveInTiers` supplies is the one that its extension has for the query
(`Extension.member?`). -/
theorem member?_of_resolveInTiers {query : MemberQuery} {tiers : List (List Extension)}
    {extension : Extension} {member : Member}
    (h : resolveInTiers query tiers = .supplied extension member) :
    extension.member? query = some member := by
  induction tiers with
  | nil => cases h
  | cons tier outer ih =>
    rw [resolveInTiers] at h
    split at h
    · exact ih h
    · rw [Resolution.ofCandidates_eq_supplied_iff] at h
      have hin : (extension, member) ∈ offers query tier := by simp [h]
      obtain ⟨_, _, hfound⟩ := List.mem_filterMap.1 hin
      obtain ⟨_, hmember, heq⟩ := Option.map_eq_some_iff.1 hfound
      obtain ⟨rfl, rfl⟩ := Prod.mk.inj heq
      exact hmember

/-- A member that `resolve` takes from an extension is the one that the extension has for the query
(`Extension.member?`), whether the query asks for the own type of the extension or not. -/
theorem member?_of_resolve_supplied {registry : Registry} {query : MemberQuery}
    {chain : ScopeChain} {extension : Extension} {member : Member}
    (h : registry.resolve query chain = .supplied extension member) :
    extension.member? query = some member := by
  unfold resolve at h
  split at h
  next qualifying _ =>
    unfold resolveWithin at h
    split at h
    · split at h
      next found hfound =>
        obtain ⟨rfl, rfl⟩ := Resolution.supplied.inj h
        exact hfound
      · cases h
    · cases h
  · split at h
    · cases h
    · exact member?_of_resolveInTiers h

/-- A member that `resolve` takes from an extension is one that the query `Wants`. -/
theorem wants_of_resolve_supplied {registry : Registry} {query : MemberQuery}
    {chain : ScopeChain} {extension : Extension} {member : Member}
    (h : registry.resolve query chain = .supplied extension member) : query.Wants member := by
  obtain ⟨_, _, _, hwants, _⟩ := Extension.member?_eq_some_iff.1 (member?_of_resolve_supplied h)
  exact hwants

/-- `resolveInTiers` answers with no declared member. -/
theorem resolveInTiers_ne_declared (query : MemberQuery) (tiers : List (List Extension))
    (owner : NamedType) (member : Member) :
    resolveInTiers query tiers ≠ .declared owner member := by
  induction tiers with
  | nil => simp [resolveInTiers]
  | cons tier outer ih =>
    rw [resolveInTiers]
    split
    · exact ih
    · exact Resolution.ofCandidates_ne_declared

/-- A declared member that `resolve` finds is that of `DeclaresFirst`. -/
theorem declaresFirst_of_resolve {registry : Registry} {query : MemberQuery}
    {chain : ScopeChain} {owner : NamedType} {member : Member}
    (h : registry.resolve query chain = .declared owner member) :
    registry.DeclaresFirst query owner member := by
  unfold resolve at h
  split at h
  · unfold resolveWithin at h
    split at h
    · split at h <;> cases h
    · cases h
  · split at h
    next hdeclared =>
      obtain ⟨rfl, rfl⟩ := Resolution.declared.inj h
      exact declared?_eq_some_iff.1 hdeclared
    · exact absurd h (resolveInTiers_ne_declared query _ owner member)

/-- Any member that `resolve` finds has the name asked for and accepts the arity (`Names`), be it
declared or supplied. -/
theorem names_of_resolve {registry : Registry} {query : MemberQuery} {chain : ScopeChain}
    {member : Member} (h : (registry.resolve query chain).member? = some member) :
    query.Names member := by
  rcases Resolution.cases_of_member? h with ⟨owner, hanswer⟩ | ⟨extension, hanswer⟩
  · obtain ⟨_, _, _, hnames, _⟩ := (declaresFirst_of_resolve hanswer).2
    exact hnames
  · exact (wants_of_resolve_supplied hanswer).1

/-! ## The rule -/

/-- `DeclaresFirst` and `DeclaresNone` exclude each other. -/
theorem DeclaresFirst.not_declaresNone {registry : Registry} {query : MemberQuery}
    {owner : NamedType} {member : Member} (h : registry.DeclaresFirst query owner member) :
    ¬ registry.DeclaresNone query := by
  intro hnone
  rw [← declared?_eq_none_iff, declared?_eq_some_iff.2 h] at hnone
  cases hnone

/-- `qualifyingExtension?` leaves a query to one extension exactly if it asks for static members of
the own type of an extension. -/
theorem qualifyingExtension?_eq_none_iff {registry : Registry} {query : MemberQuery} :
    registry.qualifyingExtension? query = none ↔
      (query.isStatic = true → ∀ extension ∈ registry.extensions,
        extension.hash ≠ query.receiver) := by
  unfold qualifyingExtension?
  cases query.isStatic with
  | false => simp
  | true =>
    rw [if_pos rfl, extensionOfType?, Option.bind_eq_none_iff]
    constructor
    · intro h _ extension hin heq
      -- The last such extension has an identity, under which some extension is found.
      cases hfound : registry.extensions.reverse.find? (·.hash = query.receiver) with
      | none => simpa [heq] using List.find?_eq_none.1 hfound extension (List.mem_reverse.2 hin)
      | some last =>
        have hnone := List.find?_eq_none.1 (h last hfound) last (List.mem_of_find?_eq_some hfound)
        simp at hnone
    · intro h found hfound
      have hin := List.mem_reverse.1 (List.mem_of_find?_eq_some hfound)
      have hhash := List.find?_some hfound
      exact absurd (of_decide_eq_true hhash) (h rfl found hin)

/-- Unless a query asks for static members of the own type of an extension, `resolve` answers with a
declared member, with what the nearest level offers, or with nothing. -/
theorem resolve_cases {registry : Registry} {query : MemberQuery}
    (hown : query.isStatic = true → ∀ extension ∈ registry.extensions,
      extension.hash ≠ query.receiver) (chain : ScopeChain) :
    (∃ owner member, registry.DeclaresFirst query owner member ∧
        registry.resolve query chain = .declared owner member) ∨
      registry.DeclaresNone query ∧
        ((∃ depth, registry.IsNearest query chain depth ∧ registry.resolve query chain =
            .ofCandidates (offers query (registry.tierAt query.receiver chain depth))) ∨
          (∀ depth extension member, ¬ registry.OffersAt query chain depth extension member) ∧
            registry.resolve query chain = .notFound) := by
  have hqualifying := qualifyingExtension?_eq_none_iff.2 hown
  simp only [resolve, hqualifying]
  cases hdeclared : registry.declared? query with
  | some found => exact .inl ⟨found.1, found.2, declared?_eq_some_iff.1 hdeclared, rfl⟩
  | none =>
    exact .inr ⟨declared?_eq_none_iff.1 hdeclared, resolveInTiers_cases registry query chain⟩

section Rule

variable {registry : Registry} {query : MemberQuery}
  (hown : query.isStatic = true → ∀ extension ∈ registry.extensions,
    extension.hash ≠ query.receiver) (chain : ScopeChain)

include hown

/-- `resolve` answers with a declared member exactly if it is that of `DeclaresFirst`. -/
theorem resolve_eq_declared_iff {owner : NamedType} {member : Member} :
    registry.resolve query chain = .declared owner member ↔
      registry.DeclaresFirst query owner member := by
  rcases resolve_cases hown chain with
    ⟨found, foundMember, hfirst, hanswer⟩ | ⟨hnone, ⟨depth, _, hanswer⟩ | ⟨_, hanswer⟩⟩
  · rw [hanswer, ← declared?_eq_some_iff, declared?_eq_some_iff.2 hfirst]
    simp
  · rw [hanswer]
    exact iff_of_false Resolution.ofCandidates_ne_declared fun h => h.not_declaresNone hnone
  · rw [hanswer]
    exact iff_of_false (by simp) fun h => h.not_declaresNone hnone

/-- `resolve` finds nothing exactly if nothing is declared (`DeclaresNone`) and no level offers
anything (`OffersAt`). -/
theorem resolve_eq_notFound_iff :
    registry.resolve query chain = .notFound ↔ registry.DeclaresNone query ∧
      ∀ depth extension member, ¬ registry.OffersAt query chain depth extension member := by
  rcases resolve_cases hown chain with
    ⟨owner, member, hfirst, hanswer⟩ | ⟨hnone, ⟨depth, hnearest, hanswer⟩ | ⟨hempty, hanswer⟩⟩
  · rw [hanswer]
    exact iff_of_false (by simp) fun h => hfirst.not_declaresNone h.1
  · obtain ⟨extension, member, hoffer⟩ := hnearest.1
    rw [hanswer, Resolution.ofCandidates_eq_notFound_iff]
    refine iff_of_false (fun hnil => ?_) fun h => h.2 depth extension member hoffer
    have hin := mem_offers_tierAt.2 hoffer
    rw [hnil] at hin
    exact List.not_mem_nil hin
  · exact iff_of_true hanswer ⟨hnone, hempty⟩

/-- Where extensions answer, `resolve` makes the answer of the offers at the level that
`IsNearest`. -/
theorem resolve_eq_ofCandidates (hnone : registry.DeclaresNone query) {depth : Nat}
    (hnearest : registry.IsNearest query chain depth) :
    registry.resolve query chain =
      .ofCandidates (offers query (registry.tierAt query.receiver chain depth)) := by
  rcases resolve_cases hown chain with
    ⟨owner, member, hfirst, _⟩ | ⟨_, ⟨found, hfound, hanswer⟩ | ⟨hempty, _⟩⟩
  · exact absurd hnone hfirst.not_declaresNone
  · rw [hanswer, hnearest.unique hfound]
  · obtain ⟨extension, member, hoffer⟩ := hnearest.1
    exact absurd hoffer (hempty depth extension member)

/-- A member that is not declared but found comes from the level that `IsNearest`, where it is
offered. -/
theorem exists_nearest_of_resolve {answer : Resolution}
    (hanswer : registry.resolve query chain = answer)
    (hdeclared : ∀ owner member, answer ≠ .declared owner member) (hfound : answer ≠ .notFound) :
    registry.DeclaresNone query ∧ ∃ depth, registry.IsNearest query chain depth := by
  subst hanswer
  rcases resolve_cases hown chain with
    ⟨owner, member, _, hanswer⟩ | ⟨hnone, ⟨depth, hnearest, _⟩ | ⟨_, hanswer⟩⟩
  · exact absurd hanswer (hdeclared owner member)
  · exact ⟨hnone, depth, hnearest⟩
  · exact absurd hanswer hfound

variable (hlisted : (registry.extensionsOf query.receiver).Nodup)

include hlisted

/-- `resolve` answers with a member of an extension exactly if this alone has an offer at the level
that `IsNearest`. -/
theorem resolve_eq_supplied_iff {extension : Extension} {member : Member} :
    registry.resolve query chain = .supplied extension member ↔
      registry.DeclaresNone query ∧ ∃ depth, registry.IsNearest query chain depth ∧
        registry.OffersAt query chain depth extension member ∧
        ∀ other otherMember, registry.OffersAt query chain depth other otherMember →
          other = extension := by
  constructor
  · intro hanswer
    obtain ⟨hnone, depth, hnearest⟩ :=
      exists_nearest_of_resolve hown chain hanswer (by simp) (by simp)
    rw [resolve_eq_ofCandidates hown chain hnone hnearest,
      Resolution.ofCandidates_eq_supplied_iff,
      (listsOffers_tierAt hlisted chain depth).eq_singleton_iff] at hanswer
    exact ⟨hnone, depth, hnearest, hanswer⟩
  · rintro ⟨hnone, depth, hnearest, honly⟩
    rw [resolve_eq_ofCandidates hown chain hnone hnearest,
      Resolution.ofCandidates_eq_supplied_iff,
      (listsOffers_tierAt hlisted chain depth).eq_singleton_iff]
    exact honly

/-- `resolve` is ambiguous exactly if two extensions have offers at the level that `IsNearest`, and
then it lists the offers there (`ListsOffers`). -/
theorem resolve_eq_ambiguous_iff {candidates : List (Extension × Member)} :
    registry.resolve query chain = .ambiguous candidates ↔
      registry.DeclaresNone query ∧ ∃ depth, registry.IsNearest query chain depth ∧
        (∃ extension member other otherMember, extension ≠ other ∧
          registry.OffersAt query chain depth extension member ∧
          registry.OffersAt query chain depth other otherMember) ∧
        registry.ListsOffers query chain depth candidates := by
  constructor
  · intro hanswer
    obtain ⟨hnone, depth, hnearest⟩ :=
      exists_nearest_of_resolve hown chain hanswer (by simp) (by simp)
    rw [resolve_eq_ofCandidates hown chain hnone hnearest,
      Resolution.ofCandidates_eq_ambiguous_iff] at hanswer
    obtain ⟨hcandidates, hmany⟩ := hanswer
    have hlists := listsOffers_tierAt hlisted chain depth
    rw [hcandidates] at hlists
    exact ⟨hnone, depth, hnearest, hlists.two_le_length_iff.1 hmany, hlists⟩
  · rintro ⟨hnone, depth, hnearest, htwo, hlists⟩
    rw [resolve_eq_ofCandidates hown chain hnone hnearest,
      Resolution.ofCandidates_eq_ambiguous_iff]
    exact ⟨(listsOffers_tierAt hlisted chain depth).unique hlists hlisted,
      hlists.two_le_length_iff.2 htwo⟩

end Rule

/-- `resolve` answers a query as the priority rule says (`DeclaresFirst`, `OffersAt`, `IsNearest`,
`ListsOffers`), unless the query asks for static members of the own type of an extension. -/
theorem resolve_iff_priority {registry : Registry} (hreach : registry.Reachable)
    (hids : (registry.extensions.map (·.id)).Nodup) (query : MemberQuery)
    (hown : query.isStatic = true → ∀ extension ∈ registry.extensions,
      extension.hash ≠ query.receiver) (chain : ScopeChain) :
    (∀ owner member, registry.resolve query chain = .declared owner member ↔
        registry.DeclaresFirst query owner member) ∧
      ((∃ owner member, registry.resolve query chain = .declared owner member) ↔
        ∃ type ∈ registry.bases query.receiver, ∃ member ∈ type.members, query.Names member) ∧
      (∀ extension member, registry.resolve query chain = .supplied extension member ↔
        registry.DeclaresNone query ∧ ∃ depth, registry.IsNearest query chain depth ∧
          registry.OffersAt query chain depth extension member ∧
          ∀ other otherMember, registry.OffersAt query chain depth other otherMember →
            other = extension) ∧
      (∀ candidates, registry.resolve query chain = .ambiguous candidates ↔
        registry.DeclaresNone query ∧ ∃ depth, registry.IsNearest query chain depth ∧
          (∃ extension member other otherMember, extension ≠ other ∧
            registry.OffersAt query chain depth extension member ∧
            registry.OffersAt query chain depth other otherMember) ∧
          registry.ListsOffers query chain depth candidates) ∧
      (registry.resolve query chain = .notFound ↔
        registry.DeclaresNone query ∧
          ∀ depth extension member, ¬ registry.OffersAt query chain depth extension member) := by
  have hlisted := nodup_extensionsOf hreach hids query.receiver
  refine ⟨fun _ _ => resolve_eq_declared_iff hown chain, ?_,
    fun _ _ => resolve_eq_supplied_iff hown chain hlisted,
    fun _ => resolve_eq_ambiguous_iff hown chain hlisted, resolve_eq_notFound_iff hown chain⟩
  constructor
  · rintro ⟨owner, member, hanswer⟩
    obtain ⟨_, _, hbases, hdeclares, _⟩ := ((resolve_eq_declared_iff hown chain).1 hanswer).1
    exact ⟨owner, by simp [hbases], hdeclares⟩
  · rintro ⟨type, htype, member, hmember, hnames⟩
    rcases resolve_cases hown chain with ⟨owner, found, _, hanswer⟩ | ⟨hnone, _⟩
    · exact ⟨owner, found, hanswer⟩
    · exact absurd hnames (hnone type htype member hmember)

/-- Two classes that are bases of each other, three extensions of one of them. The extension of the
inner block wants an argument that the two outer ones do not want. -/
def overlappingExtensions : SourceFile where
  id := ⟨0⟩
  name := "shapes"
  items :=
    [.type ⟨.plainClass, "Point", some (.named ["Shape"] .unplaced), [], .unplaced⟩,
      .type ⟨.plainClass, "Shape", some (.named ["Point"] .unplaced), [], .unplaced⟩,
      .extension ⟨"Solid", some (.named ["Point"] .unplaced), [], [area []], .unplaced⟩,
      .extension ⟨"Flat", some (.named ["Point"] .unplaced), [], [area []], .unplaced⟩,
      .block ["Inner"] [.extension ⟨"Scaled", some (.named ["Point"] .unplaced), [],
        [area [{ (default : WrittenParam) with name := "factor" }]], .unplaced⟩]]
where
  area (params : List WrittenParam) : WrittenMember :=
    { (default : WrittenMember) with name := "Area", params }

/-- In `overlappingExtensions` the inner extension does not accept the call, so the two outer ones
are candidates. -/
theorem resolve_iff_priority_overlap :
    let registry := (assemble [overlappingExtensions] .standard).registry
    let query : MemberQuery := ⟨(QualifiedName.global "Point").hash, false, "Area", .method, some 0⟩
    let chain := registry.chain ⟨1⟩
    let candidates := (registry.extensions.take 2).flatMap fun extension =>
      extension.members.map (extension, ·)
    (registry.Reachable ∧ (registry.extensions.map (·.id)).Nodup ∧
      (query.isStatic = true → ∀ extension ∈ registry.extensions,
        extension.hash ≠ query.receiver)) ∧
    registry.resolve query chain = .ambiguous candidates ∧ registry.DeclaresNone query ∧
      ∃ depth, registry.IsNearest query chain depth ∧
        (∃ extension member other otherMember, extension ≠ other ∧
          registry.OffersAt query chain depth extension member ∧
          registry.OffersAt query chain depth other otherMember) ∧
        registry.ListsOffers query chain depth candidates := by
  intro registry query chain candidates
  have hreach : registry.Reachable := reachable_assemble _ _
  have hids : (registry.extensions.map (·.id)).Nodup := by decide +kernel
  have hown : query.isStatic = true → ∀ extension ∈ registry.extensions,
      extension.hash ≠ query.receiver := by decide
  have hanswer : registry.resolve query chain = .ambiguous candidates := by decide +kernel
  exact ⟨⟨hreach, hids, hown⟩, hanswer,
    ((resolve_iff_priority hreach hids query hown chain).2.2.2.1 candidates).1 hanswer⟩

end Registry

end ExtensionMembers
