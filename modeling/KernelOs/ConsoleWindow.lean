import KernelOs.Console
import KernelOs.Lib.Terminal

/-!
# The console is a window of a terminal

A terminal of 80 columns that never scrolls is written to alongside the console. The VGA
buffer shows its rows from a first row on; `scroll_if_needed` moves that first row when the
cursor has left the window.
-/

namespace KernelOs
open Lib

/-- What a character does to the reference terminal. -/
def putTerminal (t : Terminal UInt8) (character : UInt8) : Terminal UInt8 :=
  if character = '\n'.toUInt8 then t.lineFeed
  else if character = '\r'.toUInt8 then t.carriageReturn
  else if character = '\x08'.toUInt8 then t.backspace ' '.toUInt8
  else t.put 80 character

def blankTerminal : Terminal UInt8 := Terminal.empty ' '.toUInt8

/-- Every index is inside the VGA buffer. -/
def ConsoleEvent.InScreen : ConsoleEvent → Prop
  | .read index => 0 ≤ index ∧ index < 2000
  | .write index => 0 ≤ index ∧ index < 2000
  | .serial _ => True

/-- The screen shows the rows of `t` from `first` on, and the cursor. -/
structure ShowsFrom (first : Nat) (t : Terminal UInt8) (c : Console) : Prop where
  cells : ∀ r < 25, ∀ column < 80, c.vga ((r * 80 + column : Nat) : Int) =
    vgaCell defaultColor (t.cells (first + r) column)
  row : c.cursorRow + first = t.row
  column : c.cursorColumn = t.column

section
variable {c : Console} {t : Terminal UInt8} {first : Nat}

/-! ## Loops over cells -/

@[simp] theorem vgaWidth_toNat : vgaWidth.toNat = 80 := rfl

@[simp] theorem vgaHeight_toNat : vgaHeight.toNat = 25 := rfl

@[simp] theorem vgaHeight_pred_toNat : (vgaHeight - 1).toNat = 24 := rfl

/-- `c'` is `c` with the cells redrawn. -/
structure Redrawn (cells : Int → UInt16) (c c' : Console) : Prop where
  vga : ∀ i, c'.vga i = cells i
  row : c'.cursorRow = c.cursorRow
  column : c'.cursorColumn = c.cursorColumn

theorem yields_read {index : Int} (h : 0 ≤ index ∧ index < 2000) :
    Traced.Yields ConsoleEvent.InScreen (fun cell => cell = c.vga index) (readVga c index) := .event h rfl

theorem yields_write {cells cells' : Int → UInt16} {c' : Console} {index : Int} {cell : UInt16}
    (hindex : 0 ≤ index ∧ index < 2000) (h : Redrawn cells c c')
    (hcells : ∀ i, cells' i = if i = index then cell else cells i) :
    Traced.Yields ConsoleEvent.InScreen (Redrawn cells' c) (writeVga c' index cell) := by
  refine .event hindex ⟨fun i => ?_, h.row, h.column⟩
  rw [hcells]
  split
  · next hi => exact if_pos hi
  · next hi => exact (if_neg hi).trans (h.vga i)

/-- The first `n` cells hold what was a row below. -/
def ShiftedUp (n : Nat) (c : Console) : Console → Prop :=
  Redrawn (fun i => if 0 ≤ i ∧ i < n then c.vga (i + 80) else c.vga i) c

theorem yields_copyCell {c' : Console} {row column : Nat} (hrow : row < 24) (hcolumn : column < 80)
    (h : ShiftedUp (row * 80 + column) c c') :
    Traced.Yields ConsoleEvent.InScreen (ShiftedUp (row * 80 + (column + 1)) c) (copyCell (row + 1) column c') := by
  unfold copyCell vgaWidth
  refine (yields_read ⟨by omega, by omega⟩).bind fun cell hcell => yields_write ⟨by omega, by omega⟩ h fun i => ?_
  -- the cell that is read has not been overwritten
  have hbelow : cell = c.vga ((row + 1) * 80 + column) := by
    rw [hcell, h.vga]
    exact if_neg (by omega)
  by_cases hi : i = (row + 1 - 1 : Int) * 80 + column
  · rw [if_pos hi, if_pos (by omega), hbelow]
    congr 1
    omega
  · rw [if_neg hi]
    by_cases hlt : 0 ≤ i ∧ i < (row * 80 + column : Nat)
    · rw [if_pos hlt, if_pos (by omega)]
    · rw [if_neg hlt, if_neg (by omega)]

theorem yields_copyRow {c' : Console} {row : Nat} (hrow : row < 24) (h : ShiftedUp (row * 80) c c') :
    Traced.Yields ConsoleEvent.InScreen (ShiftedUp ((row + 1) * 80) c)
    (Traced.forRange (fun column => copyCell (row + 1) column) 80 c') := by
  rw [Nat.succ_mul]
  exact Traced.yields_forRange (I := fun column => ShiftedUp (row * 80 + column) c) h fun _ hcolumn _ h' =>
    yields_copyCell hrow hcolumn h'

theorem yields_copyRows (c : Console) : Traced.Yields ConsoleEvent.InScreen (ShiftedUp 1920 c)
    (Traced.forRange (fun i => Traced.forRange (fun column => copyCell (i + 1) column) vgaWidth.toNat)
      (vgaHeight - 1).toNat c) := by
  simp only [vgaWidth_toNat, vgaHeight_pred_toNat]
  refine Traced.yields_forRange (I := fun row => ShiftedUp (row * 80) c) (n := 24) ⟨fun i => ?_, rfl,
    rfl⟩ fun _ hrow _ h => yields_copyRow hrow h
  rw [if_neg (by omega)]

/-- The `n` cells from `first` on are blank. -/
def Blanked (first n : Nat) (c : Console) : Console → Prop :=
  Redrawn (fun i => if first ≤ i ∧ i < (first + n : Nat) then blankCell else c.vga i) c

theorem Blanked.nil (first : Nat) (c : Console) : Blanked first 0 c c :=
  ⟨fun i => by rw [if_neg (by omega)], rfl, rfl⟩

theorem Blanked.append {c₁ c₂ : Console} {first m n : Nat} (h₁ : Blanked first m c c₁)
    (h₂ : Blanked (first + m) n c₁ c₂) :
    Blanked first (m + n) c c₂ := by
  refine ⟨fun i => ?_, h₂.row.trans h₁.row, h₂.column.trans h₁.column⟩
  rw [h₂.vga, h₁.vga]
  by_cases hi : (first + m : Nat) ≤ i ∧ i < (first + m + n : Nat)
  · rw [if_pos hi, if_pos (by omega)]
  · rw [if_neg hi]
    by_cases hlt : (first : Nat) ≤ i ∧ i < (first + m : Nat)
    · rw [if_pos hlt, if_pos (by omega)]
    · rw [if_neg hlt, if_neg (by omega)]

theorem yields_blankCell (c : Console) {index : Nat} (h : index < 2000) :
    Traced.Yields ConsoleEvent.InScreen (Blanked index 1 c) (writeVga c index blankCell) := by
  refine yields_write ⟨by omega, by omega⟩ (Blanked.nil index c) fun i => ?_
  by_cases hi : i = index
  · rw [if_pos hi, if_pos (by omega)]
  · rw [if_neg hi, if_neg (by omega), if_neg (by omega)]

theorem yields_blankRow (c : Console) (row : Nat) (hrow : row < 25) :
    Traced.Yields ConsoleEvent.InScreen (Blanked (row * 80) 80 c)
    (Traced.forRange (fun column c => writeVga c (row * vgaWidth + column) blankCell) vgaWidth.toNat c) := by
  simp only [vgaWidth_toNat]
  refine Traced.yields_forRange (I := fun column => Blanked (row * 80) column c) (n := 80)
    (.nil _ _) fun column hcolumn c' h => ?_
  have hindex : (row : Int) * vgaWidth + column = (row * 80 + column : Nat) := by
    unfold vgaWidth
    omega
  rw [hindex]
  exact (yields_blankCell c' (by omega)).mono fun c'' h' => h.append h'

/-! ## Scrolling -/

theorem yields_scroll (h : ShowsFrom first t c) (hrow : t.row ≤ first + 25)
    (hfirst : t.row < first + 25 → t.windowStart 25 = first)
    (hblank : ∀ r, first + 25 ≤ r → ∀ column, t.cells r column = ' '.toUInt8) :
    Traced.Yields ConsoleEvent.InScreen (ShowsFrom (t.windowStart 25) t) (scrollIfNeeded c) := by
  have hcursor := h.row
  unfold scrollIfNeeded
  by_cases hin : c.cursorRow < vgaHeight
  · rw [if_pos hin]
    unfold vgaHeight at hin
    rw [hfirst (by omega)]
    exact .pure h
  · rw [if_neg hin]
    unfold vgaHeight at hin
    have hlast : t.row = first + 25 := by omega
    have hstart : t.windowStart 25 = first + 1 := by
      rw [Terminal.windowStart_eq]
      omega
    refine (yields_copyRows c).bind fun c₁ h₁ => (yields_blankRow c₁ 24 (by decide)).bind fun c₂ h₂ =>
      .pure ⟨fun r hr column hc => ?_, ?_, ?_⟩
    · rw [hstart]
      show c₂.vga _ = _
      rw [h₂.vga]
      by_cases hr24 : r = 24
      · -- the row that has come into view is blank
        rw [if_pos (by omega), hblank _ (by omega)]
        rfl
      · rw [if_neg (by omega), h₁.vga, if_pos (by omega)]
        have hcell := h.cells (r + 1) (by omega) column hc
        rw [show first + (r + 1) = first + 1 + r by omega] at hcell
        rw [← hcell]
        congr 1
        omega
    · rw [hstart, hlast]
      show vgaHeight - 1 + ((first + 1 : Nat) : Int) = ((first + 25 : Nat) : Int)
      unfold vgaHeight
      omega
    · show c₂.cursorColumn = t.column
      rw [h₂.column, h₁.column, h.column]

/-! ## Characters -/

theorem yields_set (h : ShowsFrom first t c) (hrow : first ≤ t.row ∧ t.row < first + 25)
    (hcolumn : t.column < 80) (character : UInt8) :
    Traced.Yields ConsoleEvent.InScreen (ShowsFrom first (t.set character))
      (writeVga c (c.cursorRow * vgaWidth + c.cursorColumn) (vgaCell defaultColor character)) := by
  have hr := h.row
  have hc := h.column
  unfold vgaWidth
  refine .event ⟨by omega, by omega⟩ ⟨fun r hr25 column hc80 => ?_, h.row, h.column⟩
  show (if _ then _ else _) = vgaCell defaultColor (if _ then _ else _)
  by_cases hcell : first + r = t.row ∧ column = t.column
  · rw [if_pos hcell, if_pos (by omega)]
  · rw [if_neg hcell, if_neg (by omega)]
    exact h.cells r hr25 column hc80

theorem ShowsFrom.moved (h : ShowsFrom first t c) {c' : Console} {t' : Terminal UInt8} (hvga : c'.vga = c.vga)
    (hcells : t'.cells = t.cells) (hrow : c'.cursorRow + first = t'.row)
    (hcolumn : c'.cursorColumn = t'.column) : ShowsFrom first t' c' where
  cells r hr column hc := by
    rw [hvga, hcells]
    exact h.cells r hr column hc
  row := hrow
  column := hcolumn

theorem yields_placeChar (h : ShowsFrom first t c) (hrow : first ≤ t.row ∧ t.row < first + 25)
    (hcolumn : t.column < 80) (character : UInt8) :
    Traced.Yields ConsoleEvent.InScreen (ShowsFrom first (putTerminal t character)) (placeChar c character) := by
  have hcursorRow := h.row
  have hcursorColumn := h.column
  have hserial (b : UInt8) : Traced.Yields ConsoleEvent.InScreen (fun _ => True) (serialWriteChar b) :=
    .event trivial trivial
  unfold placeChar putTerminal
  by_cases hlf : character = '\n'.toUInt8
  · rw [if_pos hlf, if_pos hlf]
    refine (hserial _).bind fun _ _ => (hserial _).bind fun _ _ => .pure (h.moved rfl rfl ?_ rfl)
    show c.cursorRow + 1 + (first : Int) = ((t.row + 1 : Nat) : Int)
    omega
  rw [if_neg hlf, if_neg hlf]
  by_cases hcr : character = '\r'.toUInt8
  · rw [if_pos hcr, if_pos hcr]
    exact .pure (h.moved rfl rfl hcursorRow rfl)
  rw [if_neg hcr, if_neg hcr]
  by_cases hbs : character = '\x08'.toUInt8
  · rw [if_pos hbs, if_pos hbs, Terminal.backspace]
    by_cases hpos : 0 < t.column
    · rw [if_pos hpos, if_pos (show c.cursorColumn > 0 by omega)]
      have hleft : ShowsFrom first { t with column := t.column - 1 }
          { c with cursorColumn := c.cursorColumn - 1 } :=
        h.moved rfl rfl hcursorRow (show c.cursorColumn - 1 = ((t.column - 1 : Nat) : Int) by omega)
      exact (yields_set hleft hrow (show t.column - 1 < 80 by omega) _).bind fun c' h' =>
        (hserial _).bind fun _ _ => .pure h'
    · rw [if_neg hpos, if_neg (show ¬ c.cursorColumn > 0 by omega)]
      exact (hserial _).bind fun _ _ => .pure h
  rw [if_neg hbs, if_neg hbs, Terminal.put]
  refine (yields_set h hrow hcolumn character).bind fun c' h' => (hserial _).bind fun _ _ => ?_
  have hrow' : c'.cursorRow + first = t.row := h'.row
  have hcolumn' : c'.cursorColumn = t.column := h'.column
  dsimp only
  unfold vgaWidth
  by_cases hlast : t.column + 1 = 80
  · rw [if_pos hlast, if_pos (by omega)]
    refine .pure (h'.moved rfl rfl ?_ rfl)
    show c'.cursorRow + 1 + (first : Int) = ((t.row + 1 : Nat) : Int)
    omega
  · rw [if_neg hlast, if_neg (by omega)]
    exact .pure (h'.moved rfl rfl hrow' (show c'.cursorColumn + 1 = ((t.column + 1 : Nat) : Int) by omega))

theorem Ok.putTerminal (h : t.Ok 80 ' '.toUInt8) (character : UInt8) :
    (putTerminal t character).Ok 80 ' '.toUInt8 := by
  unfold KernelOs.putTerminal
  split
  · exact h.lineFeed
  split
  · exact h.carriageReturn
  split
  · exact h.backspace
  · exact h.put character

theorem putTerminal_row (t : Terminal UInt8) (character : UInt8) :
    (putTerminal t character).row = t.row ∨ (putTerminal t character).row = t.row + 1 := by
  unfold putTerminal
  split
  · exact Or.inr rfl
  split
  · exact Or.inl rfl
  split
  · exact Or.inl (Terminal.row_backspace _ t)
  · exact Terminal.row_put 80 t character

theorem putTerminal_below (h : t.Ok 80 ' '.toUInt8) (character : UInt8) {r : Nat} (hr : t.row < r) (column : Nat) :
    (putTerminal t character).cells r column = ' '.toUInt8 := by
  have hne : r ≠ t.row := Nat.ne_of_gt hr
  rw [← h.below r hr column]
  unfold putTerminal
  split
  · rfl
  split
  · rfl
  split
  · exact Terminal.backspace_of_ne hne column
  · exact Terminal.put_of_ne hne column

theorem yields_putChar (h : ShowsFrom (t.windowStart 25) t c) (hok : t.Ok 80 ' '.toUInt8) (character : UInt8) :
    Traced.Yields ConsoleEvent.InScreen
      (ShowsFrom ((putTerminal t character).windowStart 25) (putTerminal t character))
    (consolePutChar c character) := by
  have hstart := Terminal.windowStart_eq 25 t
  have hstart' := Terminal.windowStart_eq 25 (putTerminal t character)
  have hrow := putTerminal_row t character
  refine (yields_placeChar h (by omega) hok.column_lt character).bind fun c' h' =>
    yields_scroll h' (by omega) (fun hin => ?_) fun r hr column => ?_
  · omega
  · exact putTerminal_below hok character (by omega) column

/-! ## Runs -/

theorem yields_init (c : Console) :
    Traced.Yields ConsoleEvent.InScreen (ShowsFrom 0 blankTerminal) (consoleInit c) := by
  unfold consoleInit
  rw [vgaHeight_toNat]
  have hrows : Traced.Yields ConsoleEvent.InScreen
    (Blanked 0 (25 * 80) { c with cursorRow := 0, cursorColumn := 0 })
      (Traced.forRange
        (fun row =>
        Traced.forRange (fun column c => writeVga c (row * vgaWidth + column) blankCell) vgaWidth.toNat) 25
        { c with cursorRow := 0, cursorColumn := 0 }) := by
    refine Traced.yields_forRange
      (I := fun row => Blanked 0 (row * 80) { c with cursorRow := 0, cursorColumn := 0 }) (.nil _ _)
      fun row hrow c₁ h₁ => (yields_blankRow c₁ row hrow).mono fun c₂ h₂ => ?_
    rw [Nat.succ_mul]
    rw [← Nat.zero_add (row * 80)] at h₂
    exact h₁.append h₂
  refine hrows.mono fun c' h => ⟨fun r hr column hc => ?_, ?_, h.column⟩
  · rw [h.vga, if_pos (by omega)]
    rfl
  · rw [h.row]
    rfl

end

/-- **The console shows the end of the terminal**, and touches nothing but its 2000 cells. -/
theorem console_shows_window (c : Console) (characters : List UInt8) :
    let run := consoleInit c >>= fun c => characters.foldlM consolePutChar c
    let screen := run.val
    let t := characters.foldl putTerminal blankTerminal
    let first := t.windowStart 25
    (∀ r < 25, ∀ column < 80, screen.vga ((r * 80 + column : Nat) : Int) =
      vgaCell defaultColor (t.cells (first + r) column)) ∧
      screen.cursorRow + first = t.row ∧ screen.cursorColumn = t.column ∧
      0 ≤ screen.cursorRow ∧ screen.cursorRow < 25 ∧ 0 ≤ screen.cursorColumn ∧ screen.cursorColumn < 80 ∧
      ∀ e ∈ run.trace, e.InScreen := by
  intro run screen t first
  have hrun : Traced.Yields ConsoleEvent.InScreen (fun c => ShowsFrom first t c ∧ t.Ok 80 ' '.toUInt8) run :=
    (yields_init c).bind fun c₀ h₀ =>
      Traced.yields_foldlM (R := fun t c => ShowsFrom (t.windowStart 25) t c ∧ t.Ok 80 ' '.toUInt8)
        (fun _ _ character h => (yields_putChar h.1 h.2 character).mono fun _ h' => ⟨h',
          Ok.putTerminal h.2 character⟩)
        characters ⟨h₀, Terminal.Ok.empty (by decide)⟩
  obtain ⟨hshows, hok⟩ := hrun.val
  have hrow : screen.cursorRow + first = t.row := hshows.row
  have hcolumn : screen.cursorColumn = t.column := hshows.column
  have hfirst : first = t.row + 1 - 25 := Terminal.windowStart_eq 25 t
  have hlt := hok.column_lt
  exact ⟨hshows.cells, hrow, hcolumn, by omega, by omega, by omega, by omega, hrun.within⟩

end KernelOs
