import ExtensionMembers.Name.Qualified
import Mathlib.Data.List.Infix

/-!
# Names read from text

A qualified name is written as its segments with a pair of colons between any two, and read by
cutting a text at each pair of colons, leftmost first, without the empty pieces. Three colons in a
row are cut after the second one, so a segment may start with a colon, and the last one may end with
one, but no other.

## Main definitions

* `Uncut`: cutting goes on behind a piece.
* `ArePieces`: the lists of pieces that texts are cut into.
* `QualifiedName.WellFormed`: the names that can be read back.

## Main results

* `arePieces_splitPieces`, `splitPieces_intercalate`: cutting and joining.
* `QualifiedName.wellFormed_parse`: what is read is well formed, unless nothing is read.
* `QualifiedName.parse_text_iff`: which names are read back from their texts.
-/

namespace ExtensionMembers

/-! ## Cutting and joining -/

/-- No pair of colons starts within `piece`, be it one with the first character of `text`, which
follows. -/
def Uncut (piece text : List Char) : Prop := ¬ [':', ':'] <:+: piece ++ text.take 1

/-- Pieces as they stand between pairs of colons, as `splitPieces` cuts them. -/
structure ArePieces (pieces : List (List Char)) : Prop where
  /-- A piece is not empty and holds no pair of colons. -/
  isPiece : ∀ piece ∈ pieces, piece ≠ [] ∧ ¬ [':', ':'] <:+: piece
  /-- A piece that another one follows does not end with a colon. -/
  end_ne : ∀ piece ∈ pieces.dropLast, piece.getLast? ≠ some ':'

variable {piece text : List Char} {pieces : List (List Char)}

/-- A character makes a pair with the one before it. -/
theorem pair_infix_concat_iff {char : Char} : [':', ':'] <:+: piece ++ [char] ↔
    (piece.getLast? = some ':' ∧ char = ':') ∨ [':', ':'] <:+: piece := by
  rw [List.infix_concat_iff]
  refine or_congr_left ?_
  -- A pair at the end is made of the last character of the piece and the new one.
  rcases List.eq_nil_or_concat' piece with rfl | ⟨before, last, rfl⟩
  · simp [List.suffix_cons_iff]
  · rw [List.getLast?_concat, Option.some.injEq]
    constructor
    · rintro ⟨front, hfront⟩
      rw [show front ++ [':', ':'] = front ++ [':'] ++ [':'] by simp] at hfront
      obtain ⟨hbefore, hchar⟩ := List.append_inj' hfront rfl
      obtain ⟨-, hlast⟩ := List.append_inj' hbefore rfl
      exact ⟨(List.singleton_inj.1 hlast).symm, (List.singleton_inj.1 hchar).symm⟩
    · rintro ⟨rfl, rfl⟩
      exact ⟨before, by simp⟩

/-- Before a pair of colons a piece is `Uncut` if it holds no pair of colons and does not end with a
colon. -/
theorem uncut_separator_iff :
    Uncut piece (':' :: text) ↔ ¬ [':', ':'] <:+: piece ∧ piece.getLast? ≠ some ':' := by
  rw [Uncut, List.take_succ_cons, List.take_zero, pair_infix_concat_iff, not_or, and_comm]
  simp

/-- Before the end of the text a piece is `Uncut` if it holds no pair of colons. -/
theorem uncut_nil_iff : Uncut piece [] ↔ ¬ [':', ':'] <:+: piece := by
  rw [Uncut, List.take_nil, List.append_nil]

/-- What is read is `Uncut` while nothing is read. -/
theorem uncut_start (text : List Char) : Uncut [] text := by
  intro hpair
  -- One character is too short for a pair.
  have hlength := hpair.length_le
  rw [List.nil_append, List.length_take] at hlength
  exact absurd (hlength.trans (Nat.min_le_left _ _)) (by decide)

/-- `splitPieces` adds a character that is not the first of a pair of colons to the piece. -/
theorem splitPieces_cons {char : Char} (h : ¬ [':', ':'] <+: char :: text.take 1)
    (start : List Char) :
    splitPieces start (char :: text) = splitPieces (start ++ [char]) text := by
  rw [splitPieces]
  rintro rest rfl rfl
  exact h (List.prefix_refl _)

/-- `splitPieces` goes on behind a piece that is `Uncut`. -/
theorem splitPieces_append (h : Uncut piece text) (start : List Char) :
    splitPieces start (piece ++ text) = splitPieces (start ++ piece) text := by
  induction piece generalizing start with
  | nil => rw [List.nil_append, List.append_nil]
  | cons char rest ih =>
    rw [Uncut, List.cons_append, List.infix_cons_iff, not_or] at h
    have hhead : (rest ++ text).take 1 <+: rest ++ text.take 1 := by
      cases rest <;> simp
    rw [List.cons_append, splitPieces_cons, ih h.2, List.append_assoc, List.singleton_append]
    exact fun hpair => h.1 (hpair.trans ((List.prefix_cons_inj char).2 hhead))

/-- `ArePieces` with one more piece in front, which must not end with a colon. -/
theorem ArePieces.cons (h : ArePieces pieces) (hne : piece ≠ [])
    (hpair : ¬ [':', ':'] <:+: piece) (hend : piece.getLast? ≠ some ':') :
    ArePieces (piece :: pieces) := by
  refine ⟨List.forall_mem_cons.2 ⟨⟨hne, hpair⟩, h.isPiece⟩, fun other hother => ?_⟩
  cases pieces with
  | nil => cases hother
  | cons next rest =>
    rw [List.dropLast_cons_cons] at hother
    rcases List.mem_cons.1 hother with rfl | hother
    · exact hend
    · exact h.end_ne other hother

/-- `ArePieces` without the first piece. -/
theorem ArePieces.tail (h : ArePieces (piece :: pieces)) : ArePieces pieces := by
  refine ⟨fun other hother => h.isPiece other (List.mem_cons_of_mem _ hother),
    fun other hother => h.end_ne other ?_⟩
  rw [List.dropLast_cons_of_ne_nil (by rintro rfl; cases hother)]
  exact List.mem_cons_of_mem _ hother

/-- `splitPieces` cuts joined pieces into the same pieces again. -/
theorem splitPieces_intercalate (h : ArePieces pieces) :
    splitPieces [] ([':', ':'].intercalate pieces) = pieces := by
  induction pieces with
  | nil => rfl
  | cons piece rest ih =>
    obtain ⟨hne, hpair⟩ := h.isPiece piece List.mem_cons_self
    cases rest with
    | nil =>
      have hsplit := splitPieces_append (uncut_nil_iff.2 hpair) []
      rw [List.append_nil, List.nil_append] at hsplit
      rw [List.intercalate_singleton, hsplit, splitPieces, keepPiece, if_neg hne]
    | cons next rest =>
      -- The separator is met right behind the first piece, and cutting starts anew after it.
      have hend : piece.getLast? ≠ some ':' := h.end_ne piece (by simp)
      rw [List.intercalate_cons_cons, List.append_assoc, List.cons_append, List.singleton_append,
        splitPieces_append (uncut_separator_iff.2 ⟨hpair, hend⟩), List.nil_append, splitPieces,
        ih h.tail, keepPiece, if_neg hne]

/-- What `splitPieces` gives are pieces (`ArePieces`). -/
theorem arePieces_splitPieces (h : Uncut piece text) : ArePieces (splitPieces piece text) := by
  -- The piece read so far holds no pair of colons, nor makes one with what comes next.
  fun_induction splitPieces piece text with
  | case1 piece =>
    rw [uncut_nil_iff] at h
    unfold keepPiece
    split
    next => exact ⟨by simp, by simp⟩
    next hne => exact ⟨by simpa using ⟨hne, h⟩, by simp⟩
  | case2 piece rest ih =>
    obtain ⟨hpair, hend⟩ := uncut_separator_iff.1 h
    have hrest := ih (uncut_start rest)
    unfold keepPiece
    split
    next => exact hrest
    next hne => exact hrest.cons hne hpair hend
  | case3 piece char rest hpair ih =>
    refine ih ?_
    rw [Uncut, List.take_succ_cons, List.take_zero] at h
    -- Only the character read last could be the first of a pair with the one after it.
    cases rest with
    | nil => exact uncut_nil_iff.2 h
    | cons next rest =>
      rw [Uncut, List.take_succ_cons, List.take_zero, pair_infix_concat_iff, List.getLast?_concat]
      rintro (⟨hchar, rfl⟩ | hinfix)
      · exact hpair rest (Option.some.inj hchar) rfl
      · exact h hinfix

/-! ## Names -/

namespace QualifiedName

/-- The segments of a `QualifiedName`: those of the path, and the simple name. -/
def segments (name : QualifiedName) : List String := name.path ++ [name.name]

/-- A name that can be told from its text: none of its `segments` is empty or holds a pair of
colons, and none but the last one ends with a colon. -/
structure WellFormed (name : QualifiedName) : Prop where
  /-- A segment is not empty and holds no pair of colons. -/
  segment : ∀ segment ∈ name.segments, segment ≠ "" ∧ ¬ "::".toList <:+: segment.toList
  /-- A segment of the path does not end with a colon. -/
  end_ne : ∀ segment ∈ name.path, segment.toList.getLast? ≠ some ':'

variable {name : QualifiedName}

/-- `QualifiedName.text` is made of the `segments` of the name. -/
theorem toList_text (name : QualifiedName) :
    name.text.toList = [':', ':'].intercalate (name.segments.map String.toList) := by
  have hjoined : name.text = "::".intercalate name.segments := by
    unfold text textWithin segments
    split
    next hpath => rw [hpath, List.nil_append, String.intercalate_singleton]
    next hpath =>
      rw [String.intercalate_append_of_ne_nil hpath (List.cons_ne_nil _ _),
        String.intercalate_singleton]
      rfl
  rw [hjoined, String.toList_intercalate]
  rfl

/-- A name is `WellFormed` exactly if its segments are pieces (`ArePieces`). -/
theorem wellFormed_iff_arePieces :
    name.WellFormed ↔ ArePieces (name.segments.map String.toList) := by
  have hpath : (name.segments.map String.toList).dropLast = name.path.map String.toList := by
    rw [segments, List.map_append, List.map_singleton, List.dropLast_concat]
  constructor
  · intro h
    refine ⟨List.forall_mem_map.2 fun segment hsegment => ?_, ?_⟩
    · exact (h.segment segment hsegment).imp_left (mt String.toList_eq_nil_iff.1)
    · rw [hpath]
      exact List.forall_mem_map.2 h.end_ne
  · intro h
    refine ⟨fun segment hsegment => ?_, fun segment hsegment => ?_⟩
    · exact (h.isPiece _ (List.mem_map_of_mem hsegment)).imp_left (mt String.toList_eq_nil_iff.2)
    · exact h.end_ne _ (hpath ▸ List.mem_map_of_mem hsegment)

/-- `parse` reads a name from the pieces that `splitPath` gives. -/
theorem segments_parse {text : String} (h : splitPath text ≠ []) :
    (parse text).segments = splitPath text := by
  have hlast : (splitPath text).getLast? = some ((splitPath text).getLast h) :=
    List.getLast?_eq_some_getLast h
  rw [segments, parse, hlast, Option.getD_some]
  exact List.dropLast_concat_getLast h

/-- What `parse` reads is `WellFormed`, unless the text has no pieces. -/
theorem wellFormed_parse (text : String) : parse text = global "" ∨ (parse text).WellFormed := by
  by_cases hpieces : splitPath text = []
  · left
    rw [parse, hpieces]
    rfl
  · right
    have hmap : (splitPath text).map String.toList = splitPieces [] text.toList := by
      simp [splitPath, Function.comp_def]
    rw [wellFormed_iff_arePieces, segments_parse hpieces, hmap]
    exact arePieces_splitPieces (uncut_start text.toList)

/-- `parse` reads back from their texts the names that are `WellFormed` and the empty global
name. -/
theorem parse_text_iff : parse name.text = name ↔ name = global "" ∨ name.WellFormed := by
  constructor
  · intro h
    rw [← h]
    exact wellFormed_parse name.text
  · rintro (rfl | hname)
    · rfl
    · have hpieces : splitPath name.text = name.segments := by
        rw [splitPath, toList_text, splitPieces_intercalate (wellFormed_iff_arePieces.1 hname)]
        simp [Function.comp_def]
      rw [parse, hpieces, segments, List.dropLast_concat, List.getLast?_concat]
      rfl

/-- Reading by `parse`, writing and reading again gives what reading once gives. -/
theorem parse_text_parse (text : String) : parse (parse text).text = parse text :=
  parse_text_iff.2 (wellFormed_parse text)

end QualifiedName

end ExtensionMembers
