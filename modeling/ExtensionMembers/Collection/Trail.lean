/-!
# Trails of links

Where things link to things of the same kind (a type to its base, a scope to the scope around
it), a trail follows the links from a start. It stops at the first thing that is unknown or that
it has met before, so it ends on every finite collection, cyclic or not.

* `trail`: the things met along the links.
* `mem_of_mem_trail`, `nodup_trail`: they are known, and each is met once.
-/

namespace ExtensionMembers

variable {α : Type} [DecidableEq α]

/-- The list less every occurrence of one thing. -/
def without (things : List α) (thing : α) : List α := things.filter (· ≠ thing)

theorem length_without_lt (things : List α) (thing : α) (member : thing ∈ things) :
    (without things thing).length < things.length :=
  List.length_filter_lt_length_iff_exists.2 ⟨thing, member, by simp⟩

/-- The things met along the links from `start`, as long as they are `known` and new: the loop of
the engine's `base_chain`, and the outer loop of its `chain`. -/
def trail (next : α → Option α) (known : List α) (start : α) : List α :=
  if _ : start ∈ known then
    match next start with
    | some following => start :: trail next (without known start) following
    | none => [start]
  else []
termination_by known.length
decreasing_by exact length_without_lt known start ‹start ∈ known›

/-- Everything on a `trail` is known. -/
theorem mem_of_mem_trail (next : α → Option α) (known : List α) (start thing : α)
    (member : thing ∈ trail next known start) : thing ∈ known := by
  fun_induction trail next known start with
  | case1 known start starts following link ih =>
    rcases List.mem_cons.1 member with rfl | member
    · exact starts
    · exact (List.mem_filter.1 (ih member)).1
  | case2 known start starts link => simp_all
  | case3 => simp at member

/-- A `trail` meets nothing twice. -/
theorem nodup_trail (next : α → Option α) (known : List α) (start : α) :
    (trail next known start).Nodup := by
  fun_induction trail next known start with
  | case1 known start starts following link ih =>
    refine List.nodup_cons.2 ⟨fun again => ?_, ih⟩
    have kept := (List.mem_filter.1 (mem_of_mem_trail _ _ _ _ again)).2
    simp at kept
  | case2 known start starts link => simp
  | case3 => simp

end ExtensionMembers
