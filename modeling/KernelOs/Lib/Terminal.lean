import Mathlib.Logic.Basic

/-!
# Terminals

A terminal with rows without end. The cursor never goes up, so the rows down to its own
are those opened so far; a window of a given height shows the last of them.
-/

namespace Lib

structure Terminal (α : Type*) where
  cells : Nat → Nat → α
  row : Nat
  column : Nat

namespace Terminal

variable {α : Type*}

def empty (blank : α) : Terminal α := ⟨fun _ _ => blank, 0, 0⟩

def lineFeed (t : Terminal α) : Terminal α := { t with row := t.row + 1, column := 0 }

def carriageReturn (t : Terminal α) : Terminal α := { t with column := 0 }

/-- Changes the cell under the cursor. -/
def set (t : Terminal α) (a : α) : Terminal α :=
  { t with cells := fun r c => if r = t.row ∧ c = t.column then a else t.cells r c }

/-- Erases the cell before the cursor, within the row. -/
def backspace (blank : α) (t : Terminal α) : Terminal α :=
  if 0 < t.column then { t with column := t.column - 1 }.set blank else t

/-- Prints in rows of `width` cells. -/
def put (width : Nat) (t : Terminal α) (a : α) : Terminal α :=
  if t.column + 1 = width then (t.set a).lineFeed else { t.set a with column := t.column + 1 }

def opened (t : Terminal α) : Nat := t.row + 1

/-- The first row of the window. -/
def windowStart (height : Nat) (t : Terminal α) : Nat := if height < t.opened then t.opened - height else 0

/-- The cursor is inside a row, and the rows below it are blank. -/
structure Ok (width : Nat) (blank : α) (t : Terminal α) : Prop where
  column_lt : t.column < width
  below : ∀ r, t.row < r → ∀ c, t.cells r c = blank

variable {width : Nat} {blank a : α} {t : Terminal α}

theorem windowStart_eq (height : Nat) (t : Terminal α) : t.windowStart height = t.row + 1 - height := by
  unfold windowStart opened
  split
  · rfl
  · omega

theorem Ok.empty (hwidth : 0 < width) : Ok width blank (empty blank) := ⟨hwidth, fun _ _ _ => rfl⟩

theorem Ok.lineFeed (h : Ok width blank t) : Ok width blank t.lineFeed where
  column_lt := Nat.zero_lt_of_lt h.column_lt
  below r hr c := h.below r (Nat.lt_of_succ_lt hr) c

theorem Ok.carriageReturn (h : Ok width blank t) : Ok width blank t.carriageReturn where
  column_lt := Nat.zero_lt_of_lt h.column_lt
  below := h.below

theorem set_of_ne {t : Terminal α} {r : Nat} (hr : r ≠ t.row) (c : Nat) : (t.set a).cells r c = t.cells r c :=
  if_neg fun h => hr h.1

theorem Ok.set (h : Ok width blank t) (a : α) : Ok width blank (t.set a) where
  column_lt := h.column_lt
  below r hr c := by
    have hne : r ≠ t.row := Nat.ne_of_gt hr
    rw [set_of_ne hne]
    exact h.below r hr c

theorem Ok.move (h : Ok width blank t) {column : Nat} (hc : column < width) :
    Ok width blank { t with column } := ⟨hc, h.below⟩

theorem Ok.backspace (h : Ok width blank t) : Ok width blank (t.backspace blank) := by
  unfold Terminal.backspace
  split
  · exact (h.move (Nat.lt_of_le_of_lt (Nat.sub_le ..) h.column_lt)).set blank
  · exact h

theorem Ok.put (h : Ok width blank t) (a : α) : Ok width blank (t.put width a) := by
  unfold Terminal.put
  split
  · exact (h.set a).lineFeed
  · next hne => exact (h.set a).move (Nat.lt_of_le_of_ne h.column_lt hne)

theorem row_backspace (blank : α) (t : Terminal α) : (t.backspace blank).row = t.row := by
  unfold Terminal.backspace
  split
  · rfl
  · rfl

theorem row_put (width : Nat) (t : Terminal α) (a : α) :
    (t.put width a).row = t.row ∨ (t.put width a).row = t.row + 1 := by
  unfold Terminal.put
  split
  · exact Or.inr rfl
  · exact Or.inl rfl

theorem backspace_of_ne {t : Terminal α} {r : Nat} (hr : r ≠ t.row) (c : Nat) :
    (t.backspace blank).cells r c = t.cells r c := by
  unfold Terminal.backspace
  split
  · exact if_neg fun h => hr h.1
  · rfl

theorem put_of_ne {t : Terminal α} {r : Nat} (hr : r ≠ t.row) (c : Nat) :
    (t.put width a).cells r c = t.cells r c := by
  unfold Terminal.put
  split
  · exact set_of_ne hr c
  · exact set_of_ne hr c

end Terminal

end Lib
