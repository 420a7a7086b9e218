import ExtensionMembers.Proofs.Protocol.Failures

/-!
# Elements as calls of their own

An object with initial elements adds each of them as if its call of `Add` stood alone. All calls
share the temporary of the subject, and each has a block of temporaries for its arguments, so the
call for an element and the call that stands alone are the same up to the names of temporaries.

## Main definitions

* `CallForm.rename`: a call with other temporaries.
* `intoBlock`: from the temporaries of a call that stands alone to those of an element.
* `AddedElement`, `Registry.AddedAs`: what is made of an element, and what it has to be.

## Main results

* `Registry.formOf_addSite`: a call that stands alone is bound like that of an element.
* `Registry.addForm_rename`: the number of the first argument is a matter of naming.
* `Registry.addElements_are_calls`: the elements of an object are added by ordinary calls.
-/

namespace ExtensionMembers

/-! ## Renaming temporaries -/

/-- The operand with other temporaries, those that `rename` gives. -/
def Operand.rename (rename : TempId → TempId) : Operand → Operand
  | temp id => temp (rename id)
  | default value => default value
  | sequence ids => sequence (ids.map rename)
  | slot value => slot value

/-- The temporary under another number, that of `rename`. -/
def Temp.rename (rename : TempId → TempId) (temp : Temp) : Temp :=
  { temp with id := rename temp.id }

namespace CallForm

/-- The call with other temporaries, those that `rename` gives. -/
def rename (rename : TempId → TempId) : CallForm → CallForm
  | declared owner member kind receiver args =>
    declared owner member kind (receiver.map (·.rename rename)) (args.map (·.rename rename))
  | static target args => static target (args.map (·.rename rename))
  | foreign target entry args => foreign target entry (args.map (·.rename rename))
  | delegate target receiver => delegate target (receiver.map (·.rename rename))
  | error => error

/-- `CallForm.ofResolution` passes the operands on as they are; which call is made depends on what
was found. -/
theorem rename_ofResolution (rename : TempId → TempId) (kind : AccessKind)
    (receiver : Option Operand) (args : List Operand) (resolution : Resolution) :
    (ofResolution kind receiver args resolution).rename rename =
      ofResolution kind (receiver.map (·.rename rename)) (args.map (·.rename rename))
        resolution := by
  cases resolution with
  | declared owner member => rfl
  | ambiguous candidates => rfl
  | notFound => rfl
  | supplied extension member =>
    have hreceiver : (if member.isStatic then none else receiver).map (·.rename rename) =
        if member.isStatic then none else receiver.map (·.rename rename) := by
      split <;> rfl
    simp only [ofResolution, ofSupplied, ← hreceiver]
    -- A delegate keeps the receiver apart; the other calls put it in front of the arguments.
    by_cases hkind : kind = .methodGroup
    · simp only [hkind, if_true, CallForm.rename]
    · cases hforeign : member.foreign <;>
        simp only [hkind, if_false, CallForm.rename, List.map_append, Option.toList_map]

end CallForm

/-! ## The temporaries of an element -/

/-- From the temporaries of a call that stands alone, whose receiver is followed by its arguments,
to those of an element: the receiver is the shared subject, and the arguments are in the `block`. -/
def intoBlock (block : List Temp) (id : TempId) : TempId :=
  ((⟨0⟩ :: block.map (·.id))[id.index]?).getD id

theorem getElem?_tempsFrom (first : Nat) (sources : List TempSource) (index : Nat) :
    (tempsFrom first sources)[index]? = sources[index]?.map fun source =>
      ⟨⟨first + index⟩, source⟩ := by
  rw [tempsFrom, List.getElem?_map, List.getElem?_zipIdx, Option.map_map]
  rfl

/-- `intoBlock` takes the argument at some position to the temporary of the block at that
position. -/
theorem intoBlock_argument {sources : List TempSource} {index : Nat}
    (hindex : index < sources.length) (first : Nat) :
    intoBlock (tempsFrom first sources) ⟨1 + index⟩ = ⟨first + index⟩ := by
  rw [intoBlock, Nat.add_comm 1 index, List.getElem?_cons_succ, List.getElem?_map,
    getElem?_tempsFrom, List.getElem?_eq_getElem hindex]
  rfl

/-- `intoBlock` takes the `prelude` of a call that stands alone to the subject and the block. -/
theorem map_rename_prelude (subject : TempSource) (first : Nat) (sources : List TempSource) :
    (prelude (subject :: sources)).map (·.rename (intoBlock (tempsFrom first sources))) =
      ⟨⟨0⟩, subject⟩ :: tempsFrom first sources := by
  have hprelude : prelude (subject :: sources) = ⟨⟨0⟩, subject⟩ :: tempsFrom 1 sources := rfl
  rw [hprelude, List.map_cons]
  -- The receiver keeps its number; the arguments are compared position by position.
  refine congrArg₂ _ rfl (List.ext_getElem? fun index => ?_)
  rw [List.getElem?_map, getElem?_tempsFrom, getElem?_tempsFrom, Option.map_map]
  refine Option.map_congr fun source hsource => ?_
  have hindex : index < sources.length := (List.getElem?_eq_some_iff.1 hsource).1
  rw [Function.comp_apply, Temp.rename, intoBlock_argument hindex]

/-- `BoundSlot.operand` refers to arguments by position, so their numbers can be exchanged
(`intoBlock`). -/
theorem rename_operand {slot : BoundSlot} {sources : List TempSource}
    (hwithin : ∀ index ∈ slot.indices, index < sources.length) (first : Nat) :
    (slot.operand 1).rename (intoBlock (tempsFrom first sources)) = slot.operand first := by
  cases slot with
  | default value => rfl
  | argument index =>
    have hindex := hwithin index List.mem_cons_self
    exact congrArg Operand.temp (intoBlock_argument hindex first)
  | gathered indices =>
    refine congrArg Operand.sequence ?_
    rw [List.map_map]
    exact List.map_congr_left fun index hindex => intoBlock_argument (hwithin index hindex) first

/-! ## One element -/

/-- What `lowerAdd` makes of an initial element, with the temporaries of its arguments. -/
structure AddedElement where
  /-- The temporaries of its arguments. -/
  temps : List Temp
  /-- The call that adds it. -/
  form : CallForm
  /-- What is noted on it. -/
  report : Report

namespace Registry

/-- What the member that adds an element with these arguments (`addSite`) resolves to. -/
def addResolution (registry : Registry) (site : ProtocolSite) (args : List Argument) :
    Resolution :=
  registry.resolve (.ofSite (site.addSite args)) (registry.chain site.scope)

/-- An element with these arguments is added by an ordinary call: the temporaries are those of the
call that stands alone, whose receiver is the subject, and so are the call and what is noted,
unless `Add` is a property that a type declares. -/
structure AddedAs (registry : Registry) (site : ProtocolSite) (args : List Argument)
    (added : AddedElement) : Prop where
  sources : added.temps.map (·.source) = argumentSources args
  prelude : (registry.lowerSite (site.addSite args)).1.prelude.map
    (·.rename (intoBlock added.temps)) = ⟨⟨0⟩, .receiver site.subject⟩ :: added.temps
  within : ∀ id ∈ added.form.temps, id = ⟨0⟩ ∨ id ∈ added.temps.map (·.id)
  same : (∀ owner member, registry.addResolution site args = .declared owner member →
      member.category ≠ .property) →
    added.form =
        (registry.lowerSite (site.addSite args)).1.form.rename (intoBlock added.temps) ∧
      added.report = (registry.lowerSite (site.addSite args)).2

variable {registry : Registry} {site : ProtocolSite} {args : List Argument}

/-- Only a property that a type declares turns up by `addResolution` in place of a method. -/
theorem category_ne_property {member : Member}
    (hdeclared : ∀ owner member, registry.addResolution site args = .declared owner member →
      member.category ≠ .property)
    (hfound : (registry.addResolution site args).member? = some member) :
    member.category ≠ .property := by
  rcases Resolution.cases_of_member? hfound with ⟨owner, hanswer⟩ | ⟨extension, hanswer⟩
  · exact hdeclared owner member hanswer
  · -- What an extension supplies is of the category that a call asks for.
    have hmethod : member.category = .method := (wants_of_resolve_supplied hanswer).2.1
    simp [hmethod]

/-- `Member.operands` of a call that stands alone (`addSite`) numbers the arguments from 1 on, after
the receiver. -/
theorem operands_addSite {member : Member} (hproperty : member.category ≠ .property) :
    member.operands (site.addSite args) =
      (bind member.params args site.span).map fun slots => slots.map (·.operand 1) := by
  -- Only a method used as a delegate and a property take no arguments.
  have hbound : ¬((site.addSite args).shape.kind = .methodGroup ∨
      member.category = .property) := by
    rintro (hkind | hcategory)
    · cases hkind
    · exact hproperty hcategory
  rw [Member.operands, if_neg (by simpa using hbound)]
  show (bind member.params args site.span).bind _ = _
  cases bind member.params args site.span <;> rfl

/-- A call (`addSite`) needs no accessor. -/
theorem missingAccessor?_addSite (member : Member) :
    member.missingAccessor? (site.addSite args).shape.kind = none := by
  unfold Member.missingAccessor?
  split <;> rfl

/-- A call that stands alone (`addSite`) is bound like the call for an element whose arguments are
numbered from 1 on, and what is wrong with it is what `addForm` notes on the element. -/
theorem formOf_addSite
    (hdeclared : ∀ owner member, registry.addResolution site args = .declared owner member →
      member.category ≠ .property) :
    (registry.formOf (site.addSite args) (registry.addResolution site args)).mapError
        (fun fault => (⟨[fault.diagnostic]⟩ : Report)) =
      registry.addForm (site.addSite args) (registry.addResolution site args) 1 := by
  have hproperty : ∀ member, (registry.addResolution site args).member? = some member →
      member.category ≠ .property := fun _ => category_ne_property hdeclared
  generalize registry.addResolution site args = resolution at hproperty ⊢
  unfold formOf addForm
  cases hfound : resolution.member? with
  | none =>
    -- A call alone has a fault to fall back on, an element has none; both note the look-up's own.
    obtain ⟨fault, hfault⟩ :=
      registry.exists_lookupFault? (.ofSite (site.addSite args)) (site.addSite args).span hfound
    simp only [siteFault, hfault]
    rfl
  | some member =>
    have hargs : (site.addSite args).shape.args = args := rfl
    have hspan : (site.addSite args).span = site.span := rfl
    simp only [missingAccessor?_addSite, operands_addSite (hproperty member hfound), hargs, hspan]
    cases bind member.params args site.span with
    | error fault => rfl
    | ok slots =>
      -- Nothing is assigned, so the operands of the parameters are all there are.
      have hassigned : (site.addSite args).assignedOperand?.toList = [] := rfl
      simp only [Except.map, hassigned, List.append_nil]
      rfl

/-- For `addForm`, where the temporaries of the arguments start is a matter of naming
(`CallForm.rename`), and whether the arguments can be bound does not depend on it. -/
theorem addForm_rename (registry : Registry) (site : ProtocolSite) (args : List Argument)
    (resolution : Resolution) (first : Nat) :
    registry.addForm (site.addSite args) resolution first =
      (registry.addForm (site.addSite args) resolution 1).map
        (·.rename (intoBlock (tempsFrom first (argumentSources args)))) := by
  unfold addForm
  cases resolution.member? with
  | none => rfl
  | some member =>
    dsimp only
    cases hslots : bind member.params (site.addSite args).shape.args (site.addSite args).span with
    | error fault => rfl
    | ok slots =>
      have hoperands : (slots.map (·.operand 1)).map
          (·.rename (intoBlock (tempsFrom first (argumentSources args)))) =
            slots.map (·.operand first) := by
        rw [List.map_map]
        refine List.map_congr_left fun slot hslot => rename_operand (fun index hindex => ?_) first
        rw [argumentSources, List.length_map]
        exact lt_length_of_mem_indices hslots hslot hindex
      -- The receiver is the subject on both sides.
      have hreceiver : (some (Operand.temp ⟨0⟩)).map
          (·.rename (intoBlock (tempsFrom first (argumentSources args)))) =
            some (.temp ⟨0⟩) := rfl
      simp only [Except.map, CallForm.rename_ofResolution, hreceiver, hoperands]

/-- `lowerAdd` adds an element by an ordinary call (`AddedAs`). -/
theorem addedAs_lowerAdd (registry : Registry) (site : ProtocolSite)
    (element : List Argument × Nat) :
    registry.AddedAs site element.1 ⟨tempsFrom element.2 (argumentSources element.1),
      (registry.lowerAdd site element).1, (registry.lowerAdd site element).2⟩ := by
  refine ⟨map_source_tempsFrom element.2 (argumentSources element.1), ?_, fun id hid => ?_,
    fun hdeclared => ?_⟩
  · rw [lowerSite, prelude_lowerAccess]
    -- A call on a value evaluates the receiver, then the arguments, and assigns nothing.
    have hsources : (site.addSite element.1).sources =
        .receiver site.subject :: argumentSources element.1 := List.append_nil _
    rw [hsources]
    exact map_rename_prelude _ element.2 _
  · -- A call that was reported has no temporaries, and any other refers to the numbered ones.
    have hform : (registry.lowerAdd site element).1 ≠ .error := by
      intro herror
      rw [herror] at hid
      cases hid
    exact List.mem_cons.1 (((registry.lowerAdd_spec site element).2 hform).perm.subset hid)
  · let add := site.addSite element.1
    have halone : (registry.formOf add (registry.resolve (.ofSite add)
        (registry.chain add.scope))).mapError (fun fault => (⟨[fault.diagnostic]⟩ : Report)) =
          registry.addForm add (registry.addResolution site element.1) 1 :=
      formOf_addSite hdeclared
    have hnumbered := registry.addForm_rename site element.1
      (registry.resolve (.ofSite add) (registry.chain site.scope)) element.2
    unfold lowerSite lowerAccess lowerAdd
    dsimp only
    rw [hnumbered]
    -- Both calls are bound, or neither is and the same is noted.
    rw [addResolution] at halone
    rw [← halone]
    cases registry.formOf add (registry.resolve (.ofSite add) (registry.chain add.scope)) with
    | error fault => exact ⟨rfl, rfl⟩
    | ok form => exact ⟨rfl, rfl⟩

/-! ## The whole -/

/-- An object with initial elements is the sequence of its calls of `Add`, each as if it stood
alone. The prelude evaluates the subject, then the arguments of the elements in order; it is
numbered in order, so that no temporary belongs to two elements. -/
theorem addElements_are_calls (registry : Registry) (site : ProtocolSite)
    (elements : List (List Argument)) (helements : site.construct = .addElements elements) :
    let lowered := registry.lowerProtocol site
    ∃ adds : List AddedElement,
      lowered.1.plan = .addElements (adds.map (·.form)) ∧
      lowered.2 = .concat (adds.map (·.report)) ∧
      lowered.1.prelude = ⟨⟨0⟩, .receiver site.subject⟩ :: adds.flatMap (·.temps) ∧
      lowered.1.prelude.map (·.id.index) = List.range lowered.1.prelude.length ∧
      (adds.Pairwise fun add later =>
        (add.temps.map (·.id)).Disjoint (later.temps.map (·.id))) ∧
      List.Forall₂ (registry.AddedAs site) elements adds := by
  intro lowered
  let made : List Argument × Nat → AddedElement := fun element =>
    ⟨tempsFrom element.2 (argumentSources element.1), (registry.lowerAdd site element).1,
      (registry.lowerAdd site element).2⟩
  have hplan : registry.planOf site =
      (.addElements (((withStarts 1 elements).map made).map (·.form)),
        .concat (((withStarts 1 elements).map made).map (·.report))) := by
    rw [planOf, helements]
    simp only [List.map_map]
    rfl
  have hsources : site.sources = .receiver site.subject :: elements.flatMap argumentSources := by
    rw [ProtocolSite.sources, ProtocolSite.elements, helements]
  have hprelude : lowered.1.prelude = ExtensionMembers.prelude site.sources := rfl
  have hblocks : lowered.1.prelude =
      ⟨⟨0⟩, .receiver site.subject⟩ :: ((withStarts 1 elements).map made).flatMap (·.temps) := by
    rw [hprelude, hsources, List.flatMap_map, ← tempsFrom_flatMap]
    rfl
  refine ⟨(withStarts 1 elements).map made, congrArg (·.1) hplan, congrArg (·.2) hplan, hblocks,
    ?_, ?_, ?_⟩
  · rw [hprelude, map_id_prelude]
    simp [ExtensionMembers.prelude]
  · -- The numbers of the prelude are distinct, and its blocks are apart for that reason.
    have hdistinct : (lowered.1.prelude.map (·.id)).Nodup := by
      rw [hprelude, ids_prelude]
      exact List.nodup_range.map fun first second heq => by simpa using heq
    rw [hblocks, List.map_cons, List.map_flatMap] at hdistinct
    exact (List.nodup_flatMap.1 hdistinct.of_cons).2
  · -- The elements are those that are numbered.
    have hadded : List.Forall₂ (registry.AddedAs site) ((withStarts 1 elements).map (·.1))
        ((withStarts 1 elements).map made) := by
      rw [List.forall₂_map_left_iff, List.forall₂_map_right_iff, List.forall₂_same]
      exact fun element _ => registry.addedAs_lowerAdd site element
    rwa [map_fst_withStarts] at hadded

/-- A class that an extension lets take tasks, with a priority that can be left out and with tags
that are gathered. -/
def boardFile : SourceFile where
  id := ⟨0⟩
  name := "board"
  items :=
    [.type ⟨.plainClass, "Board", none, [], .unplaced⟩,
      .extension ⟨"BoardTasks", some (.parse "Board"), [], [add], .unplaced⟩]
where
  add : WrittenMember :=
    { (default : WrittenMember) with
      name := "Add"
      params := [⟨"task", .parse "string", none, false, false⟩,
        ⟨"priority", .parse "int", some (.int 1), false, false⟩,
        WrittenParam.gathering ⟨"tags", .parse "string", none, false, false⟩] }

/-- A board with tasks: one alone, one after its priority, one with tags, and one without a
name. -/
def boardElements : List (List Argument) :=
  [[⟨none, ⟨1⟩, .unplaced⟩], [⟨some "priority", ⟨2⟩, .unplaced⟩, ⟨some "task", ⟨3⟩, .unplaced⟩],
    [⟨none, ⟨4⟩, .unplaced⟩, ⟨none, ⟨5⟩, .unplaced⟩, ⟨none, ⟨6⟩, .unplaced⟩,
      ⟨none, ⟨7⟩, .unplaced⟩],
    [⟨some "priority", ⟨8⟩, .unplaced⟩]]

/-- The use of a board that adds `boardElements`. -/
def boardUse : ProtocolSite where
  id := ⟨0⟩
  span := .unplaced
  scope := ⟨0⟩
  subject := ⟨0⟩
  type := (QualifiedName.global "Board").hash
  construct := .addElements boardElements

/-- The calls of `boardUse` are those of four uses of `Add`, the last of which fails. -/
theorem addElements_are_calls_board :
    let registry := (assemble [boardFile] .standard).registry
    let lowered := registry.lowerProtocol boardUse
    lowered.1.plan.forms.map (·.temps.map (·.index)) =
        [[0, 1], [0, 3, 2], [0, 4, 5, 6, 7], []] ∧
      lowered.2.size = 1 ∧
      ∃ adds : List AddedElement,
        lowered.1.plan = .addElements (adds.map (·.form)) ∧
          lowered.2 = .concat (adds.map (·.report)) ∧
          List.Forall₂ (fun args add => add.form = (registry.lowerSite
              (boardUse.addSite args)).1.form.rename (intoBlock add.temps) ∧
            add.report = (registry.lowerSite (boardUse.addSite args)).2) boardElements adds := by
  intro registry lowered
  obtain ⟨adds, hplan, hreport, _, _, _, hadded⟩ :=
    addElements_are_calls registry boardUse boardElements rfl
  have hmethod : ∀ args ∈ boardElements,
      (registry.addResolution boardUse args).member?.map (·.category) = some .method := by
    decide +kernel
  refine ⟨by decide +kernel, by decide +kernel, adds, hplan, hreport, ?_⟩
  refine ((List.forall₂_and_left _ _).2 ⟨hmethod, hadded⟩).imp fun args add h => ?_
  refine h.2.same fun owner member hanswer hproperty => ?_
  have hcategory := h.1
  rw [hanswer] at hcategory
  exact absurd (hproperty.symm.trans (Option.some.inj hcategory)) (by decide)

end Registry

end ExtensionMembers
