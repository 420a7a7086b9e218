import ExtensionMembers.Source.Identity

/-!
# Source spans

A span is a stretch of source text: the file, the line and column where it starts, and its length.

* `Span.key` orders spans by file, line and column.
* `Span.merge` is the stretch that starts with one span and covers another as well.

## References

- Specification, §3, Data Model, and §7.1, Error stack (the order of diagnostics)
-/

namespace ExtensionMembers

/-- A stretch of source text, the engine's `Span`. -/
structure Span where
  /-- The file that holds the text. -/
  file : FileId
  /-- The line of the first character, counted from 1. -/
  line : Nat
  /-- The column of the first character, counted from 1. -/
  column : Nat
  /-- The number of bytes covered. -/
  length : Nat
deriving DecidableEq

namespace Span

/-- The span of a thing that has no place in a source text. -/
def unplaced : Span := ⟨⟨0⟩, 0, 0, 0⟩

instance : Inhabited Span := ⟨unplaced⟩

/-- The empty span at a position. -/
def point (file : FileId) (line column : Nat) : Span := ⟨file, line, column, 0⟩

/-- Whether the span covers nothing. -/
def isEmpty (span : Span) : Bool := span.length == 0

/-- The column just after the span: `column` and `length` together. -/
def stop (span : Span) : Nat := span.column + span.length

/-- The engine's `sort_key`, by which spans are ordered: file, line, column. -/
def key (span : Span) : List Nat := [span.file.index, span.line, span.column]

/-- The engine's `merge`: the span that starts with `first` and covers both. On one line it is the
stretch between the outer ends; across lines it keeps the place of `first` and adds up the
lengths. -/
def merge (first second : Span) : Span :=
  if first.line = second.line then
    let column := min first.column second.column
    { first with column, length := max second.stop first.stop - column }
  else
    { first with length := first.length + second.length }

/-- The place within its file, as line and column. -/
def text (span : Span) : String := toString span.line ++ ":" ++ toString span.column

/-- The place with the file in front. -/
def placed (span : Span) : String := span.file.text ++ ":" ++ span.text

end Span

end ExtensionMembers
