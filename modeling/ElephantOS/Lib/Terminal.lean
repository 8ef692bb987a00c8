import Mathlib.Logic.Function.Basic

/-!
# A terminal of rows and columns

* `Terminal rows cols α` : the cells and the cursor, which is always on the screen;
* `newline`, `put` : go to the next row, scrolling at the last one; write a cell and advance;
* `feed` : a byte, where some bytes stand for `newline`.
-/

structure Terminal (rows cols : Nat) (α : Type*) where
  cell : Fin rows → Fin cols → α
  row : Fin rows
  col : Fin cols

namespace Terminal
variable {rows cols : Nat} {α β : Type*}

/-- The start of a row. -/
def start (t : Terminal rows cols α) : Fin cols := ⟨0, Nat.zero_lt_of_lt t.col.isLt⟩

/-- The rows move up by one, and the last one is blank. -/
def scroll (blank : α) (t : Terminal rows cols α) : Terminal rows cols α :=
  { t with cell := fun r c => if h : r + 1 < rows then t.cell ⟨r + 1, h⟩ c else blank }

/-- The cursor goes to the start of the next row; past the last row the screen scrolls. -/
def newline (blank : α) (t : Terminal rows cols α) : Terminal rows cols α :=
  if h : t.row + 1 < rows then { t with row := ⟨t.row + 1, h⟩, col := t.start }
  else { t.scroll blank with col := t.start }

/-- Change the cell under the cursor. -/
def write (a : α) (t : Terminal rows cols α) : Terminal rows cols α :=
  { t with cell := fun r c => if r = t.row ∧ c = t.col then a else t.cell r c }

/-- The cursor goes to the next cell, at the end of a row to the next row. -/
def advance (blank : α) (t : Terminal rows cols α) : Terminal rows cols α :=
  if h : t.col + 1 < cols then { t with col := ⟨t.col + 1, h⟩ } else t.newline blank

/-- A byte `b`: a line feed when `isNewline b`, else the cell `glyph b`. -/
def feed (blank : α) (isNewline : β → Bool) (glyph : β → α) (t : Terminal rows cols α) (b : β) :
    Terminal rows cols α :=
  if isNewline b then t.newline blank else (t.write (glyph b)).advance blank

end Terminal
