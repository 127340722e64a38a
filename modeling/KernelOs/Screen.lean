import KernelOs.ConsoleWindow
import KernelOs.PrintkText
import KernelOs.Lib.Numeral

/-!
# The screen that tasks share

What the boot code, the two threads, system calls, the keyboard loop and a fatal exception write to
the text screen. Against the VGA buffer stands a picture: the endless terminal of the console and,
over it, the marks that others have made.
-/

namespace KernelOs
open Lib

/-- What code of the kernel does to a screen. -/
class Screen (σ : Type) where
  putChar : σ → UInt8 → σ
  putAt : σ → Int → Int → UInt8 → UInt8 → σ
  /-- `vga[index] = (0x4F << 8) | character` -/
  putRed : σ → Nat → UInt8 → σ

def consolePutAt (c : Console) (row column : Int) (character color : UInt8) : ConsoleTrace Console :=
  if row < 0 ∨ row ≥ vgaHeight ∨ column < 0 ∨ column ≥ vgaWidth then pure c
  else writeVga c (row * vgaWidth + column) (vgaCell color character)

instance : Screen Console where
  putChar c character := (consolePutChar c character).val
  putAt c row column character color := (consolePutAt c row column character color).val
  putRed c index character := (writeVga c index (vgaCell 0x4F character)).val

/-! ## The parties -/

section
variable {σ : Type} [Screen σ]

/-- A thread of the demo, before one of its two writes. -/
structure DemoThread where
  counter : UInt8
  labelled : Bool
  deriving DecidableEq

/-- One write. The loop counts behind the second. -/
def threadEntry (row : Int) (label color : UInt8) (t : DemoThread) (s : σ) : DemoThread × σ :=
  if t.labelled then
    let digit := '0'.toUInt8 + t.counter % 10
    (⟨t.counter + 1, false⟩, Screen.putAt s row 2 digit color)
  else ({ t with labelled := true }, Screen.putAt s row 0 label color)

def threadAEntry (t : DemoThread) (s : σ) : DemoThread × σ := threadEntry 3 'A'.toUInt8 0x0A t s

def threadBEntry (t : DemoThread) (s : σ) : DemoThread × σ := threadEntry 4 'B'.toUInt8 0x0C t s

def keyboardRow : Int := 6

def vgaShowKeyboardInput (keyboardColumn : Int) (character : UInt8) (s : σ) : Int × σ :=
  if character = '\x08'.toUInt8 then
    if keyboardColumn > 0 then
      (keyboardColumn - 1, Screen.putAt s keyboardRow (keyboardColumn - 1) ' '.toUInt8 0x0F)
    else (keyboardColumn, s)
  else if character = '\n'.toUInt8 then (0, s)
  else ((keyboardColumn + 1).tmod vgaWidth, Screen.putAt s keyboardRow keyboardColumn character 0x0F)

def exceptionNames : List String := [
  "Divide by Zero", "Debug", "NMI", "Breakpoint",
  "Overflow", "Bound Range", "Invalid Opcode", "Device N/A",
  "Double Fault", "Coproc Segment", "Invalid TSS", "Segment Not Present",
  "Stack Fault", "General Protection", "Page Fault", "Reserved",
  "x87 FP Exception", "Alignment Check", "Machine Check", "SIMD FP",
  "Virtualization", "Control Protection", "Reserved", "Reserved",
  "Reserved", "Reserved", "Reserved", "Reserved",
  "Hypervisor Injection", "VMM Communication", "Security Exception", "Reserved"]

def exceptionName (num : Fin 32) : List UInt8 := ((exceptionNames.getD num "").toList).map Char.toUInt8

/-- `vga[col++]` -/
def panicPut (p : Nat × σ) (character : UInt8) : Nat × σ := (p.1 + 1, Screen.putRed p.2 p.1 character)

def nibbleChar (code : UInt64) (shift : UInt64) : UInt8 :=
  let nibble := (code >>> shift &&& 0xF).toUInt8
  if nibble < 10 then '0'.toUInt8 + nibble else 'A'.toUInt8 + nibble - 10

def panicPrint (str : List UInt8) (code : UInt64) (s : σ) : σ :=
  let p := str.foldl panicPut (80, s)
  let p := panicPut p ' '.toUInt8
  (([60, 56, 52, 48, 44, 40, 36, 32, 28, 24, 20, 16, 12, 8, 4, 0].map (nibbleChar code)).foldl panicPut p).2

/-- Up to the loop in which it halts. -/
def exceptionHandler (num : Fin 32) (errorCode : UInt64) (s : σ) : σ := panicPrint (exceptionName num) errorCode s

/-! ## Runs -/

structure Demo (σ : Type) where
  screen : σ
  threadA : DemoThread
  threadB : DemoThread
  keyboardColumn : Int
  halted : Bool

inductive DemoEvent where
  | threadA
  | threadB
  | systemCall (character : UInt8)
  | keyboard (character : UInt8)
  | exception (num : Fin 32) (errorCode : UInt64)

def Demo.act (d : Demo σ) : DemoEvent → Demo σ
  | .threadA =>
    let (threadA, screen) := threadAEntry d.threadA d.screen
    { d with threadA, screen }
  | .threadB =>
    let (threadB, screen) := threadBEntry d.threadB d.screen
    { d with threadB, screen }
  | .systemCall character => { d with screen := Screen.putChar d.screen character }
  | .keyboard character =>
    let (keyboardColumn, screen) := vgaShowKeyboardInput d.keyboardColumn character d.screen
    { d with keyboardColumn, screen }
  | .exception num errorCode => { d with screen := exceptionHandler num errorCode d.screen, halted := true }

/-- NMI and machine check, which get through `cli` and wake `hlt`. -/
def DemoEvent.unmaskable : DemoEvent → Bool
  | .exception num _ => num.val == 2 || num.val == 18
  | _ => false

def Demo.step (d : Demo σ) (e : DemoEvent) : Demo σ := if d.halted && !e.unmaskable then d else d.act e

/-- The prompt, behind the two lines. -/
def Demo.start (s : σ) : Demo σ where
  screen := Screen.putAt (Screen.putAt s keyboardRow 0 '>'.toUInt8 0x0F) keyboardRow 1 ' '.toUInt8 0x0F
  threadA := ⟨0, false⟩
  threadB := ⟨0, false⟩
  keyboardColumn := 2
  halted := false

end

def bootLines : List (List UInt8) :=
  ["Kernel gestartet - Long Mode aktiv!\n", "GDT+IDT+PIC+PIT+Keyboard initialisiert.\n"].map fun line =>
    line.toList.map Char.toUInt8

/-- `kernel_main` up to the second line that it prints. -/
def kernelMainLines (arguments : Arguments) (garbage : Nat → UInt8) (c : Console) : Option Console :=
  bootLines.foldlM (fun c line => (printk (fun i => line.getD i 0) arguments garbage 64 c).val.map Prod.snd)
    (consoleInit c).val

/-! ## Pictures -/

/-- `marks` are over the terminal, in its own rows. -/
structure Picture where
  text : Terminal UInt8
  marks : Nat → Nat → Option UInt16

namespace Picture

def first (p : Picture) : Nat := p.text.windowStart 25

/-- What is seen in row `r` of the window. -/
def cell (p : Picture) (r column : Nat) : UInt16 :=
  (p.marks (p.first + r) column).getD (vgaCell defaultColor (p.text.cells (p.first + r) column))

def mark (p : Picture) (r column : Nat) (cell : UInt16) : Picture :=
  { p with
    marks := fun r' column' => if r' = p.first + r ∧ column' = column then some cell else p.marks r' column' }

/-- The column of the cursor's row that `character` changes. -/
def typed (t : Terminal UInt8) (character : UInt8) : Option Nat :=
  if character = '\n'.toUInt8 then none
  else if character = '\r'.toUInt8 then none
  else if character = '\x08'.toUInt8 then (if 0 < t.column then some (t.column - 1) else none)
  else some t.column

/-- A mark that is typed over is gone. The others scroll with the terminal. -/
def putChar (p : Picture) (character : UInt8) : Picture where
  text := putTerminal p.text character
  marks r column := if r = p.text.row ∧ typed p.text character = some column then none else p.marks r column

instance : Screen Picture where
  putChar := putChar
  putAt p row column character color :=
    if row < 0 ∨ row ≥ 25 ∨ column < 0 ∨ column ≥ 80 then p
    else p.mark row.toNat column.toNat (vgaCell color character)
  putRed p index character := p.mark (index / 80) (index % 80) (vgaCell 0x4F character)

def blank : Picture := ⟨blankTerminal, fun _ _ => none⟩

end Picture

/-- The buffer holds the picture, and beyond its 2000 cells what it held in `c₀`. -/
structure Shows (c₀ : Console) (p : Picture) (c : Console) : Prop where
  cells : ∀ r < 25, ∀ column < 80, c.vga ((r * 80 + column : Nat) : Int) = p.cell r column
  row : c.cursorRow + p.first = p.text.row
  column : c.cursorColumn = p.text.column
  ok : p.text.Ok 80 ' '.toUInt8
  clear : ∀ r ≥ p.first + 25, ∀ column, p.marks r column = none
  outside : ∀ i, i < 0 ∨ 2000 ≤ i → c.vga i = c₀.vga i

section
variable {c₀ c : Console} {p : Picture}

theorem Shows.mark (h : Shows c₀ p c) {r column : Nat} (hr : r < 25) (hcolumn : column < 80)
    (cell : UInt16) {index : Int} (hindex : index = (r * 80 + column : Nat)) :
    Shows c₀ (p.mark r column cell) (writeVga c index cell).val := by
  refine ⟨fun r' hr' column' hcolumn' => ?_, h.row, h.column, h.ok, fun r' hr' column' => ?_, fun i hi => ?_⟩
  · change (if _ then _ else _) = Option.getD (if _ then _ else _) _
    by_cases heq : r' = r ∧ column' = column
    · rw [if_pos (by omega), if_pos (by obtain ⟨rfl, rfl⟩ := heq; exact ⟨rfl, rfl⟩), Option.getD_some]
    · have hne : ¬ (p.first + r' = p.first + r ∧ column' = column) := by omega
      have hindex' : ((r' * 80 + column' : Nat) : Int) ≠ index := by omega
      change ¬ ((p.mark r column cell).first + r' = p.first + r ∧ column' = column) at hne
      rw [if_neg hindex', if_neg hne]
      exact h.cells r' hr' column' hcolumn'
  · have hne : ¬ (r' = p.first + r ∧ column' = column) := by
      change r' ≥ p.first + 25 at hr'
      omega
    exact (if_neg hne).trans (h.clear r' hr' column')
  · change (if i = index then _ else _) = _
    rw [if_neg (by omega)]
    exact h.outside i hi

theorem Shows.putAt (h : Shows c₀ p c) (row column : Int) (character color : UInt8) :
    Shows c₀ (Screen.putAt p row column character color) (Screen.putAt c row column character color) := by
  change Shows c₀ (if row < 0 ∨ row ≥ 25 ∨ column < 0 ∨ column ≥ 80 then p else _)
    (consolePutAt c row column character color).val
  unfold consolePutAt vgaHeight vgaWidth
  by_cases hout : row < 0 ∨ row ≥ 25 ∨ column < 0 ∨ column ≥ 80
  · rw [if_pos hout, if_pos hout]
    exact h
  · rw [if_neg hout, if_neg hout]
    exact h.mark (by omega) (by omega) _ (by omega)

theorem Shows.putRed (h : Shows c₀ p c) {index : Nat} (hindex : index < 2000) (character : UInt8) :
    Shows c₀ (Screen.putRed p index character) (Screen.putRed c index character) :=
  h.mark (by omega) (by omega) _ (by omega)

/-! ## Typing -/

/-- The rows from `first` on are in the buffer. -/
def Draws (first : Nat) (p : Picture) (vga : Int → UInt16) : Prop :=
  ∀ r < 25, ∀ column < 80, vga ((r * 80 + column : Nat) : Int) =
    (p.marks (first + r) column).getD (vgaCell defaultColor (p.text.cells (first + r) column))

theorem Draws.type {first column : Nat} (h : Draws first p c.vga) (hrow : c.cursorRow + first = p.text.row)
    (hcolumn : column < 80) {p' : Picture} {character : UInt8} {index : Int}
    (hindex : index = c.cursorRow * 80 + column)
    (hcells : ∀ r column', p'.text.cells r column' =
      if r = p.text.row ∧ column' = column then character else p.text.cells r column')
    (hmarks : ∀ r column', p'.marks r column' =
      if r = p.text.row ∧ column' = column then none else p.marks r column') :
    Draws first p' (writeVga c index (vgaCell defaultColor character)).val.vga := by
  intro r hr column' hcolumn'
  change (if _ then _ else _) = _
  rw [hcells, hmarks]
  by_cases hat : first + r = p.text.row ∧ column' = column
  · rw [if_pos hat, if_pos hat, if_pos (by omega)]
    rfl
  · rw [if_neg hat, if_neg hat, if_neg (by omega)]
    exact h r hr column' hcolumn'

theorem Draws.congr {first : Nat} {vga : Int → UInt16} {p' : Picture} (h : Draws first p vga)
    (hcells : p'.text.cells = p.text.cells) (hmarks : p'.marks = p.marks) : Draws first p' vga := by
  intro r hr column hcolumn
  rw [hcells, hmarks]
  exact h r hr column hcolumn

/-- The console follows the picture, before it scrolls. -/
structure Follows (first : Nat) (c₀ : Console) (p : Picture) (c : Console) : Prop where
  draws : Draws first p c.vga
  row : c.cursorRow + first = p.text.row
  column : c.cursorColumn = p.text.column
  outside : ∀ i, i < 0 ∨ 2000 ≤ i → c.vga i = c₀.vga i

theorem marks_putChar_none {character : UInt8} (h : Picture.typed p.text character = none) :
    (p.putChar character).marks = p.marks := by
  funext r column
  change (if _ then _ else _) = _
  rw [h, if_neg (by simp)]

theorem marks_putChar_some {character : UInt8} {column : Nat} (h : Picture.typed p.text character = some column)
    (r column' : Nat) :
    (p.putChar character).marks r column' =
      if r = p.text.row ∧ column' = column then none else p.marks r column' := by
  refine if_congr (and_congr_right fun _ => ?_) rfl rfl
  rw [h, Option.some.injEq]
  exact eq_comm

theorem follows_placeChar {first : Nat} (h : Follows first c₀ p c)
    (hrow : first ≤ p.text.row ∧ p.text.row < first + 25) (hcolumn : p.text.column < 80) (character : UInt8) :
    Follows first c₀ (p.putChar character) (placeChar c character).val := by
  have hcursorRow := h.row
  have hcursorColumn := h.column
  have houtside {index : Int} (hindex : 0 ≤ index ∧ index < 2000) (cell : UInt16) (i : Int)
    (hi : i < 0 ∨ 2000 ≤ i) :
      (writeVga c index cell).val.vga i = c₀.vga i := by
    change (if i = index then _ else _) = _
    rw [if_neg (by omega)]
    exact h.outside i hi
  unfold placeChar
  by_cases hlf : character = '\n'.toUInt8
  · rw [if_pos hlf]
    have htext : (p.putChar character).text = p.text.lineFeed := if_pos hlf
    have hmarks := marks_putChar_none (p := p) (if_pos hlf)
    refine ⟨h.draws.congr (congrArg Terminal.cells htext :) hmarks, ?_, ?_, h.outside⟩
    · rw [htext]
      change c.cursorRow + 1 + (first : Int) = ((p.text.row + 1 : Nat) : Int)
      omega
    · rw [htext]
      rfl
  rw [if_neg hlf]
  by_cases hcr : character = '\r'.toUInt8
  · rw [if_pos hcr]
    have htext : (p.putChar character).text = p.text.carriageReturn := (if_neg hlf).trans (if_pos hcr)
    have hmarks := marks_putChar_none (p := p) ((if_neg hlf).trans (if_pos hcr))
    refine ⟨h.draws.congr (congrArg Terminal.cells htext :) hmarks, ?_, ?_, h.outside⟩
    · rw [htext]
      exact hcursorRow
    · rw [htext]
      rfl
  rw [if_neg hcr]
  by_cases hbs : character = '\x08'.toUInt8
  · rw [if_pos hbs]
    have htext : (p.putChar character).text = p.text.backspace ' '.toUInt8 :=
      ((if_neg hlf).trans (if_neg hcr)).trans (if_pos hbs)
    have htyped : Picture.typed p.text character = if 0 < p.text.column then some (p.text.column - 1) else none :=
      ((if_neg hlf).trans (if_neg hcr)).trans (if_pos hbs)
    rw [Terminal.backspace] at htext
    by_cases hpos : 0 < p.text.column
    · rw [if_pos hpos] at htext htyped
      rw [if_pos (show c.cursorColumn > 0 by omega)]
      have hindex : c.cursorRow * vgaWidth + (c.cursorColumn - 1) =
          c.cursorRow * 80 + (p.text.column - 1 : Nat) := by
        unfold vgaWidth
        omega
      have hbounds : 0 ≤ c.cursorRow * vgaWidth + (c.cursorColumn - 1) ∧
        c.cursorRow * vgaWidth + (c.cursorColumn - 1) < 2000 := by omega
      refine ⟨h.draws.type hcursorRow (by omega) hindex (fun r column' => ?_) (marks_putChar_some htyped), ?_,
        ?_, houtside hbounds _⟩
      · rw [htext]
        rfl
      · rw [htext]
        exact hcursorRow
      · rw [htext]
        change c.cursorColumn - 1 = ((p.text.column - 1 : Nat) : Int)
        omega
    · rw [if_neg hpos] at htext htyped
      rw [if_neg (show ¬ c.cursorColumn > 0 by omega)]
      refine ⟨h.draws.congr (congrArg Terminal.cells htext) (marks_putChar_none htyped), ?_, ?_, h.outside⟩
      · rw [htext]
        exact hcursorRow
      · rw [htext]
        exact hcursorColumn
  rw [if_neg hbs]
  have htext : (p.putChar character).text = p.text.put 80 character :=
    ((if_neg hlf).trans (if_neg hcr)).trans (if_neg hbs)
  have htyped : Picture.typed p.text character = some p.text.column :=
    ((if_neg hlf).trans (if_neg hcr)).trans (if_neg hbs)
  have hindex : c.cursorRow * vgaWidth + c.cursorColumn = c.cursorRow * 80 + p.text.column := by
    unfold vgaWidth
    omega
  rw [Terminal.put] at htext
  have hcells (r column' : Nat) : (p.putChar character).text.cells r column' =
      if r = p.text.row ∧ column' = p.text.column then character else p.text.cells r column' := by
    rw [htext]
    split <;> rfl
  have hdraws := h.draws.type hcursorRow hcolumn hindex hcells (marks_putChar_some htyped)
  have hbounds : 0 ≤ c.cursorRow * vgaWidth + c.cursorColumn ∧
    c.cursorRow * vgaWidth + c.cursorColumn < 2000 := by omega
  have houtside' := houtside hbounds (vgaCell defaultColor character)
  by_cases hlast : p.text.column + 1 = 80
  · have hlast' : c.cursorColumn + 1 = vgaWidth := by
      unfold vgaWidth
      omega
    rw [if_pos hlast] at htext
    change Follows first c₀ _ (ite (c.cursorColumn + 1 = vgaWidth) _ _ : ConsoleTrace Console).val
    rw [if_pos hlast']
    refine ⟨hdraws, ?_, ?_, houtside'⟩
    · rw [htext]
      change c.cursorRow + 1 + (first : Int) = ((p.text.row + 1 : Nat) : Int)
      omega
    · rw [htext]
      rfl
  · have hlast' : ¬ c.cursorColumn + 1 = vgaWidth := by
      unfold vgaWidth
      omega
    rw [if_neg hlast] at htext
    change Follows first c₀ _ (ite (c.cursorColumn + 1 = vgaWidth) _ _ : ConsoleTrace Console).val
    rw [if_neg hlast']
    refine ⟨hdraws, ?_, ?_, houtside'⟩
    · rw [htext]
      exact hcursorRow
    · rw [htext]
      change c.cursorColumn + 1 = ((p.text.column + 1 : Nat) : Int)
      omega

/-! ## Scrolling with marks -/

theorem scrollIfNeeded_val (h : ¬ c.cursorRow < vgaHeight) :
    (∀ i, (scrollIfNeeded c).val.vga i = if 1920 ≤ i ∧ i < 2000 then blankCell else if 0 ≤ i ∧
      i < 1920 then c.vga (i + 80) else c.vga i) ∧
      (scrollIfNeeded c).val.cursorRow = 24 ∧ (scrollIfNeeded c).val.cursorColumn = c.cursorColumn := by
  have hrows := (yields_copyRows c).val
  unfold scrollIfNeeded
  rw [if_neg h]
  generalize Traced.forRange (fun i => Traced.forRange (fun column => copyCell (i + 1) column) vgaWidth.toNat)
    (vgaHeight - 1).toNat c = x at hrows ⊢
  have hblank := (yields_blankRow x.val 24 (by decide)).val
  have hlast : ((24 : Nat) : Int) * vgaWidth = (vgaHeight - 1) * vgaWidth := rfl
  rw [hlast] at hblank
  change (∀ i,
    (Traced.forRange (fun column c => writeVga c ((vgaHeight - 1) * vgaWidth + column) blankCell) vgaWidth.toNat
    x.val).val.vga i = _) ∧
    vgaHeight - 1 = 24 ∧
    (Traced.forRange (fun column c => writeVga c ((vgaHeight - 1) * vgaWidth + column) blankCell) vgaWidth.toNat
    x.val).val.cursorColumn = _
  generalize Traced.forRange (fun column c => writeVga c ((vgaHeight - 1) * vgaWidth + column) blankCell)
    vgaWidth.toNat x.val = y at hblank ⊢
  refine ⟨fun i => ?_, rfl, hblank.column.trans hrows.column⟩
  rw [hblank.vga, hrows.vga]
  rfl

theorem follows_scrollIfNeeded {first : Nat} (h : Follows first c₀ p c) (hrow : p.text.row ≤ first + 25)
    (hfirst : p.text.row < first + 25 → p.first = first)
    (hblank : ∀ r ≥ first + 25, ∀ column, p.text.cells r column = ' '.toUInt8)
    (hclear : ∀ r ≥ first + 25, ∀ column, p.marks r column = none) :
    Follows p.first c₀ p (scrollIfNeeded c).val := by
  have hcursor := h.row
  by_cases hin : c.cursorRow < vgaHeight
  · rw [scrollIfNeeded, if_pos hin]
    unfold vgaHeight at hin
    rw [hfirst (by omega)]
    exact h
  · obtain ⟨hvga, hr, hc⟩ := scrollIfNeeded_val hin
    unfold vgaHeight at hin
    have hstart : p.first = first + 1 := by
      rw [Picture.first, Terminal.windowStart_eq]
      omega
    rw [hstart]
    refine ⟨fun r hr25 column hcolumn => ?_, ?_, hc.trans h.column, fun i hi => ?_⟩
    · rw [hvga]
      by_cases hlast : r = 24
      · rw [if_pos (by omega), hclear _ (by omega), hblank _ (by omega)]
        rfl
      · rw [if_neg (by omega), if_pos (by omega)]
        have hcell := h.draws (r + 1) (by omega) column hcolumn
        rw [show first + (r + 1) = first + 1 + r by omega] at hcell
        rw [← hcell]
        congr 1
        omega
    · rw [hr]
      omega
    · rw [hvga, if_neg (by omega), if_neg (by omega)]
      exact h.outside i hi

theorem Shows.putChar (h : Shows c₀ p c) (character : UInt8) :
    Shows c₀ (Screen.putChar p character) (Screen.putChar c character) := by
  have hstart : p.first = p.text.row + 1 - 25 := Terminal.windowStart_eq 25 p.text
  have hstart' : (p.putChar character).first = (putTerminal p.text character).row + 1 - 25 :=
    Terminal.windowStart_eq 25 _
  have hrow := putTerminal_row p.text character
  have hfollows : Follows p.first c₀ (p.putChar character) (placeChar c character).val :=
    follows_placeChar ⟨h.cells, h.row, h.column, h.outside⟩ (by omega) h.ok.column_lt character
  have hclear : ∀ r ≥ p.first + 25, ∀ column, (p.putChar character).marks r column = none := by
    intro r hr column
    change (if _ then _ else _) = _
    split
    · rfl
    · exact h.clear r hr column
  have hscrolled :=
    follows_scrollIfNeeded hfollows (show (putTerminal p.text character).row ≤ _ by omega) (fun hin => ?_)
    (fun r hr column => putTerminal_below h.ok character (by omega) column) hclear
  · refine ⟨hscrolled.draws, hscrolled.row, hscrolled.column, Ok.putTerminal h.ok character,
      fun r hr => hclear r ?_, hscrolled.outside⟩
    change r ≥ (p.putChar character).first + 25 at hr
    omega
  · change (putTerminal p.text character).row < _ at hin
    omega

/-! ## Every interleaving -/

theorem Shows.panicPut : ∀ (characters : List UInt8) (column : Nat) {p : Picture} {c : Console}, Shows c₀ p c →
    column + characters.length ≤ 2000 → Shows c₀ (characters.foldl panicPut (column, p)).2
    (characters.foldl panicPut (column, c)).2
  | [], _, _, _, h, _ => h
  | character :: characters, column, p, c, h, hlen => by
    rw [List.length_cons] at hlen
    exact Shows.panicPut characters (column + 1) (h.putRed (by omega) character) (by omega)

/-- The line of a fatal exception. -/
def panicLine (str : List UInt8) (code : UInt64) : List UInt8 :=
  str ++ ' '.toUInt8 :: [60, 56, 52, 48, 44, 40, 36, 32, 28, 24, 20, 16, 12, 8, 4, 0].map (nibbleChar code)

theorem panicPrint_eq {σ : Type} [Screen σ] (str : List UInt8) (code : UInt64) (s : σ) :
    panicPrint str code s = ((panicLine str code).foldl panicPut (80, s)).2 := by
  rw [panicLine, List.foldl_append, List.foldl_cons, panicPrint]

theorem length_exceptionName (num : Fin 32) : (exceptionName num).length ≤ 20 := by
  revert num
  decide +kernel

theorem length_panicLine (str : List UInt8) (code : UInt64) : (panicLine str code).length = str.length + 17 := by
  rw [panicLine, List.length_append]
  rfl

theorem Shows.exceptionHandler (h : Shows c₀ p c) (num : Fin 32) (errorCode : UInt64) :
    Shows c₀ (exceptionHandler num errorCode p) (exceptionHandler num errorCode c) := by
  have hlen := length_exceptionName num
  have hline := length_panicLine (exceptionName num) errorCode
  rw [KernelOs.exceptionHandler, KernelOs.exceptionHandler, panicPrint_eq, panicPrint_eq]
  exact h.panicPut _ _ (by omega)

/-- The demo on the buffer and the one on the picture. -/
structure DemoShows (c₀ : Console) (q : Demo Picture) (d : Demo Console) : Prop where
  screen : Shows c₀ q.screen d.screen
  threadA : d.threadA = q.threadA
  threadB : d.threadB = q.threadB
  keyboardColumn : d.keyboardColumn = q.keyboardColumn
  halted : d.halted = q.halted

theorem DemoShows.step {q : Demo Picture} {d : Demo Console} (h : DemoShows c₀ q d) (e : DemoEvent) :
    DemoShows c₀ (q.step e) (d.step e) := by
  unfold Demo.step
  rw [h.halted]
  split
  · exact h
  · cases e with
    | threadA =>
      dsimp only [Demo.act, threadAEntry, threadEntry]
      rw [h.threadA]
      split
      · exact ⟨h.screen.putAt .., rfl, h.threadB, h.keyboardColumn, h.halted⟩
      · exact ⟨h.screen.putAt .., rfl, h.threadB, h.keyboardColumn, h.halted⟩
    | threadB =>
      dsimp only [Demo.act, threadBEntry, threadEntry]
      rw [h.threadB]
      split
      · exact ⟨h.screen.putAt .., h.threadA, rfl, h.keyboardColumn, h.halted⟩
      · exact ⟨h.screen.putAt .., h.threadA, rfl, h.keyboardColumn, h.halted⟩
    | systemCall character => exact ⟨h.screen.putChar character, h.threadA, h.threadB, h.keyboardColumn, h.halted⟩
    | keyboard character =>
      dsimp only [Demo.act, vgaShowKeyboardInput]
      rw [h.keyboardColumn]
      split
      · split
        · exact ⟨h.screen.putAt .., h.threadA, h.threadB, rfl, h.halted⟩
        · exact ⟨h.screen, h.threadA, h.threadB, rfl, h.halted⟩
      · split
        · exact ⟨h.screen, h.threadA, h.threadB, rfl, h.halted⟩
        · exact ⟨h.screen.putAt .., h.threadA, h.threadB, rfl, h.halted⟩
    | exception num errorCode =>
      exact ⟨h.screen.exceptionHandler num errorCode, h.threadA, h.threadB, h.keyboardColumn, rfl⟩

theorem DemoShows.start (h : Shows c₀ p c) : DemoShows c₀ (Demo.start p) (Demo.start c) :=
  ⟨(h.putAt ..).putAt .., rfl, rfl, rfl, rfl⟩

theorem DemoShows.run : ∀ (events : List DemoEvent) {q : Demo Picture} {d : Demo Console}, DemoShows c₀ q d →
    DemoShows c₀ (events.foldl Demo.step q) (events.foldl Demo.step d)
  | [], _, _, h => h
  | e :: events, _, _, h => DemoShows.run events (h.step e)

end

/-- The terminal behind the two lines. -/
def Picture.boot : Picture := bootLines.flatten.foldl Picture.putChar Picture.blank

theorem Shows.consoleWrite {c₀ : Console} : ∀ (string : List UInt8) {p : Picture} {c : Console}, Shows c₀ p c →
    Shows c₀ (string.foldl Picture.putChar p) (consoleWrite c string).val
  | [], _, _, h => h
  | character :: string, _, _, h => Shows.consoleWrite string (h.putChar character)

theorem blanked_consoleInit (c : Console) :
    Blanked 0 (25 * 80) { c with cursorRow := 0, cursorColumn := 0 } (consoleInit c).val := by
  unfold consoleInit
  rw [vgaHeight_toNat]
  refine (Traced.yields_forRange (P := ConsoleEvent.InScreen)
    (I := fun row => Blanked 0 (row * 80) { c with cursorRow := 0, cursorColumn := 0 })
    (.nil _ _) fun row hrow c₁ h₁ => (yields_blankRow c₁ row hrow).mono fun c₂ h₂ => ?_).val
  rw [Nat.succ_mul]
  rw [← Nat.zero_add (row * 80)] at h₂
  exact h₁.append h₂

theorem shows_consoleInit (c₀ : Console) : Shows c₀ .blank (consoleInit c₀).val := by
  have hinit := (yields_init c₀).val
  refine ⟨hinit.cells, hinit.row, hinit.column, Terminal.Ok.empty (by decide), fun _ _ _ => rfl, fun i hi => ?_⟩
  rw [(blanked_consoleInit c₀).vga, if_neg (by omega)]

theorem foldlM_lines (arguments : Arguments) (garbage : Nat → UInt8) : ∀ {lines : List (List UInt8)} (c : Console),
    (∀ line ∈ lines, '%'.toUInt8 ∉ line ∧ 0 ∉ line ∧ line.length < 64) →
    lines.foldlM (fun c line => (printk (fun i => line.getD i 0) arguments garbage 64 c).val.map Prod.snd) c =
      some (consoleWrite c lines.flatten).val
  | [], _, _ => rfl
  | line :: lines, c, h => by
    obtain ⟨hpercent, h0, hlen⟩ := h line (List.mem_cons_self ..)
    rw [List.foldlM_cons, printk_plain hpercent h0 arguments garbage hlen, List.flatten_cons,
      (consoleWrite_append c line lines.flatten).1]
    exact foldlM_lines arguments garbage _ fun l hl => h l (List.mem_cons_of_mem _ hl)

theorem kernelMainLines_eq (arguments : Arguments) (garbage : Nat → UInt8) (c : Console) :
    kernelMainLines arguments garbage c = some (consoleWrite (consoleInit c).val bootLines.flatten).val := by
  have hline : ∀ line ∈ bootLines, '%'.toUInt8 ∉ line ∧ 0 ∉ line ∧ line.length < 64 := by decide +kernel
  exact foldlM_lines arguments garbage _ hline

/-! ## What is printed -/

/-- By system calls, up to an exception. -/
def printedBy : List DemoEvent → List UInt8
  | [] => []
  | .systemCall character :: events => character :: printedBy events
  | .exception _ _ :: _ => []
  | _ :: events => printedBy events

section
variable {σ : Type} [Screen σ]

theorem Demo.step_running {d : Demo σ} (h : d.halted = false) (e : DemoEvent) : d.step e = d.act e := by
  rw [Demo.step, h, Bool.false_and]
  rfl

theorem Demo.step_halted {d : Demo σ} {e : DemoEvent} (h : d.halted = true) (he : e.unmaskable = false) :
    d.step e = d := by
  rw [Demo.step, h, he]
  rfl

theorem Demo.run_halted : ∀ {events : List DemoEvent} {d : Demo σ}, (∀ e ∈ events, e.unmaskable = false) →
    d.halted = true →
    events.foldl Demo.step d = d
  | [], _, _, _ => rfl
  | e :: events, d, hevents, h => by
    rw [List.foldl_cons, Demo.step_halted h (hevents e (List.mem_cons_self ..))]
    exact Demo.run_halted (fun e' he' => hevents e' (List.mem_cons_of_mem _ he')) h

end

/-- Marks do not change the text below them. -/
theorem text_putAt (p : Picture) (row column : Int) (character color : UInt8) :
    (Screen.putAt p row column character color).text = p.text := by
  change (ite _ p _ : Picture).text = _
  split <;> rfl

theorem text_panicPut :
    ∀ (characters : List UInt8) (column : Nat)
    (p : Picture), (characters.foldl panicPut (column, p)).2.text = p.text
  | [], _, _ => rfl
  | character :: characters, column, p =>
    (text_panicPut characters (column + 1) (Screen.putRed p column character)).trans rfl

theorem text_threadEntry (row : Int) (label color : UInt8) (t : DemoThread) (p : Picture) :
    (threadEntry row label color t p).2.text = p.text := by
  unfold threadEntry
  split <;> exact text_putAt ..

theorem text_vgaShowKeyboardInput (keyboardColumn : Int) (character : UInt8) (p : Picture) :
    (vgaShowKeyboardInput keyboardColumn character p).2.text = p.text := by
  unfold vgaShowKeyboardInput
  split
  · split
    · exact text_putAt ..
    · rfl
  · split
    · rfl
    · exact text_putAt ..

theorem text_exception (q : Demo Picture) (num : Fin 32) (errorCode : UInt64) :
    (q.act (.exception num errorCode)).screen.text = q.screen.text := by
  rw [Demo.act, exceptionHandler, panicPrint_eq]
  exact text_panicPut ..

/-- After the halt there are exceptions at most. -/
theorem text_halted : ∀ (events : List DemoEvent) {q : Demo Picture}, q.halted = true →
    (events.foldl Demo.step q).screen.text = q.screen.text
  | [], _, _ => rfl
  | e :: events, q, h => by
    rw [List.foldl_cons]
    by_cases he : e.unmaskable = false
    · rw [Demo.step_halted h he]
      exact text_halted events h
    · cases e with
      | threadA | threadB | systemCall | keyboard => exact absurd rfl he
      | exception num errorCode =>
        have hstep : q.step (.exception num errorCode) = q.act (.exception num errorCode) := by
          rw [Demo.step, h, Bool.eq_true_of_not_eq_false he]
          rfl
        rw [hstep, text_halted events rfl]
        exact text_exception q num errorCode

theorem text_run : ∀ (events : List DemoEvent) {q : Demo Picture}, q.halted = false →
    (events.foldl Demo.step q).screen.text = (printedBy events).foldl putTerminal q.screen.text
  | [], _, _ => rfl
  | e :: events, q, h => by
    rw [List.foldl_cons, Demo.step_running h]
    cases e with
    | threadA =>
      have htext : (q.act .threadA).screen.text = q.screen.text := text_threadEntry ..
      rw [text_run events (show (q.act .threadA).halted = false from h), htext]
      rfl
    | threadB =>
      have htext : (q.act .threadB).screen.text = q.screen.text := text_threadEntry ..
      rw [text_run events (show (q.act .threadB).halted = false from h), htext]
      rfl
    | systemCall character => exact text_run events h
    | keyboard character =>
      have htext : (q.act (.keyboard character)).screen.text = q.screen.text := text_vgaShowKeyboardInput ..
      rw [text_run events (show (q.act (.keyboard character)).halted = false from h), htext]
      rfl
    | exception num errorCode =>
      rw [text_halted events rfl]
      exact text_exception q num errorCode

theorem text_start (p : Picture) : (Demo.start p).screen.text = p.text := (text_putAt ..).trans (text_putAt ..)

theorem text_boot : ∀ (characters : List UInt8) (p : Picture), (characters.foldl Picture.putChar p).text =
    characters.foldl putTerminal p.text
  | [], _ => rfl
  | character :: characters, p => text_boot characters (p.putChar character)

/-- The column of the keyboard loop stays in its row. -/
theorem keyboardColumn_step {σ : Type} [Screen σ] {d : Demo σ}
    (h : 0 ≤ d.keyboardColumn ∧ d.keyboardColumn < 80) (e : DemoEvent) :
    0 ≤ (d.step e).keyboardColumn ∧ (d.step e).keyboardColumn < 80 := by
  unfold Demo.step
  split
  · exact h
  · cases e with
    | threadA | threadB | systemCall | exception => exact h
    | keyboard character =>
      dsimp only [Demo.act, vgaShowKeyboardInput]
      split
      · split
        · dsimp only
          omega
        · exact h
      · split
        · exact ⟨Int.le_refl 0, (by decide : (0 : Int) < 80)⟩
        · have hmod : (d.keyboardColumn + 1).tmod 80 = (d.keyboardColumn + 1) % 80 :=
            Int.tmod_eq_emod_of_nonneg (by omega)
          change 0 ≤ (d.keyboardColumn + 1).tmod 80 ∧ (d.keyboardColumn + 1).tmod 80 < 80
          rw [hmod]
          omega

theorem keyboardColumn_run {σ : Type} [Screen σ] :
    ∀ (events : List DemoEvent) {d : Demo σ}, 0 ≤ d.keyboardColumn ∧ d.keyboardColumn < 80 →
    0 ≤ (events.foldl Demo.step d).keyboardColumn ∧ (events.foldl Demo.step d).keyboardColumn < 80
  | [], _, h => h
  | e :: events, _, h => keyboardColumn_run events (keyboardColumn_step h e)

/-- **The shared screen.** Whatever the boot code, the threads, system calls, the keyboard loop and an
exception write in whatever order, the buffer shows the picture that they make: the window of a terminal
with all printed text, under the marks of the others, which scroll with it and go when they are typed over. -/
theorem shared_screen (c₀ : Console) (arguments : Arguments) (garbage : Nat → UInt8) (events : List DemoEvent) :
    ∃ c, kernelMainLines arguments garbage c₀ = some c ∧
      let d := events.foldl Demo.step (Demo.start c)
      let q := events.foldl Demo.step (Demo.start Picture.boot)
      (∀ r < 25, ∀ column < 80, d.screen.vga ((r * 80 + column : Nat) : Int) = q.screen.cell r column) ∧
        d.screen.cursorRow + q.screen.first = q.screen.text.row ∧ d.screen.cursorColumn = q.screen.text.column ∧
        q.screen.text = (bootLines.flatten ++ printedBy events).foldl putTerminal blankTerminal ∧
        d.threadA = q.threadA ∧ d.threadB = q.threadB ∧ d.halted = q.halted ∧
        0 ≤ d.keyboardColumn ∧ d.keyboardColumn < 80 ∧ ∀ i, i < 0 ∨ 2000 ≤ i → d.screen.vga i = c₀.vga i := by
  refine ⟨_, kernelMainLines_eq arguments garbage c₀, ?_⟩
  dsimp only
  have hlines : Shows c₀ Picture.boot _ := (shows_consoleInit c₀).consoleWrite bootLines.flatten
  have hrun := (DemoShows.start hlines).run events
  have htext : (Demo.start Picture.boot).screen.text = bootLines.flatten.foldl putTerminal blankTerminal :=
    (text_start _).trans (text_boot ..)
  obtain ⟨hlow, hhigh⟩ :=
    keyboardColumn_run events (d := Demo.start (consoleWrite (consoleInit c₀).val bootLines.flatten).val)
    (show (0 : Int) ≤ 2 ∧ (2 : Int) < 80 from by decide)
  have hprinted := text_run events (show (Demo.start Picture.boot).halted = false from rfl)
  rw [htext, ← List.foldl_append] at hprinted
  generalize events.foldl Demo.step (Demo.start Picture.boot) = q at *
  exact ⟨hrun.screen.cells, hrun.screen.row, hrun.screen.column, hprinted, hrun.threadA, hrun.threadB,
    hrun.halted, hlow, hhigh, hrun.screen.outside⟩

/-! ## The line of an exception -/

/-- Upper case, as `panic_print` writes them. -/
def panicDigit (character : UInt8) : Option Nat :=
  if '0'.toUInt8 ≤ character ∧ character ≤ '9'.toUInt8 then some (character.toNat - '0'.toNat)
  else if 'A'.toUInt8 ≤ character ∧ character ≤ 'F'.toUInt8 then some (character.toNat - 'A'.toNat + 10)
  else none

def panicSymbol (nibble : Nat) : UInt8 := nibbleChar (UInt64.ofNat nibble) 0

theorem panicDigit_panicSymbol : ∀ nibble < 16, panicDigit (panicSymbol nibble) = some nibble := by decide

theorem nibbleChar_eq (code : UInt64) {i : Nat} (hi : i < 16) :
    nibbleChar code (UInt64.ofNat (4 * i)) = panicSymbol (code.toNat / 16 ^ i % 16) := by
  have hnibble : code >>> UInt64.ofNat (4 * i) &&& (0xF : UInt64) =
      UInt64.ofNat (code.toNat / 16 ^ i % 16) >>> 0 &&& 0xF := by
    refine UInt64.toNat_inj.mp ?_
    have hshift : (UInt64.ofNat (4 * i)).toNat % 64 = 4 * i := by
      rw [UInt64.toNat_ofNat_of_lt' (by change 4 * i < 2 ^ 64; omega)]
      omega
    have hpow : 2 ^ (4 * i) = 16 ^ i := by rw [Nat.pow_mul]
    have hmask (n : Nat) : n &&& 15 = n % 16 := Nat.and_two_pow_sub_one_eq_mod n 4
    rw [UInt64.toNat_and, UInt64.toNat_and, UInt64.toNat_shiftRight, UInt64.toNat_shiftRight, hshift,
      Nat.shiftRight_eq_div_pow, hpow]
    change code.toNat / 16 ^ i &&& 15 = (UInt64.ofNat (code.toNat / 16 ^ i % 16)).toNat >>> 0 &&& 15
    rw [UInt64.toNat_ofNat_of_lt' (by change _ < 2 ^ 64; omega), Nat.shiftRight_zero, hmask, hmask, Nat.mod_mod]
  rw [panicSymbol, nibbleChar, nibbleChar, hnibble]

theorem nibbles_eq (code : UInt64) :
    [60, 56, 52, 48, 44, 40, 36, 32, 28, 24, 20, 16, 12, 8, 4, 0].map (nibbleChar code) =
      fixedNumeral panicSymbol 16 code.toNat 16 := by
  have hshifts : ([60, 56, 52, 48, 44, 40, 36, 32, 28, 24, 20, 16, 12, 8, 4, 0] : List UInt64) =
      ((List.range 16).map fun i => UInt64.ofNat (4 * i)).reverse := by decide
  rw [hshifts, List.map_reverse, List.map_map, fixedNumeral, List.map_map]
  exact congrArg List.reverse (List.map_congr_left fun i hi => nibbleChar_eq code (List.mem_range.mp hi))

theorem read_nibbles (code : UInt64) :
    readNumeral panicDigit 16 (fixedNumeral panicSymbol 16 code.toNat 16) = some code.toNat := by
  rw [readNumeral_fixedNumeral (by decide) (by decide) panicDigit_panicSymbol,
    Nat.mod_eq_of_lt (show code.toNat < 16 ^ 16 from code.toNat_lt)]

theorem vga_panicPut : ∀ (characters : List UInt8) (column : Nat) (c : Console) (i : Int),
    (characters.foldl panicPut (column, c)).2.vga i =
      if column ≤ i ∧ i < column + characters.length then vgaCell 0x4F (characters.getD (i - column).toNat 0)
      else c.vga i
  | [], column, c, i => by
    rw [if_neg (by simp only [List.length_nil]; omega)]
    rfl
  | character :: characters, column, c, i => by
    have hwrite : (panicPut (column, c) character).2.vga i =
      if i = (column : Int) then vgaCell 0x4F character else c.vga i := rfl
    have hnext := vga_panicPut characters (column + 1) (panicPut (column, c) character).2 i
    rw [hwrite] at hnext
    rw [List.foldl_cons]
    refine hnext.trans ?_
    simp only [List.length_cons]
    by_cases hin : ((column + 1 : Nat) : Int) ≤ i ∧ i < ((column + 1 : Nat) : Int) + characters.length
    · have hindex : (i - column).toNat = (i - ((column + 1 : Nat) : Int)).toNat + 1 := by omega
      rw [if_pos hin, if_pos (by omega), hindex]
      rfl
    · rw [if_neg hin]
      by_cases hat : i = (column : Int)
      · rw [if_pos hat, if_pos (by omega), hat, Int.sub_self]
        rfl
      · rw [if_neg hat, if_neg (by omega)]

theorem cursor_panicPut : ∀ (characters : List UInt8) (column : Nat) (c : Console),
    (characters.foldl panicPut (column, c)).2.cursorRow = c.cursorRow ∧
    (characters.foldl panicPut (column, c)).2.cursorColumn = c.cursorColumn
  | [], _, _ => ⟨rfl, rfl⟩
  | character :: characters, column, c => cursor_panicPut characters (column + 1) (panicPut (column, c) character).2

theorem Demo.running {σ : Type} [Screen σ] :
    ∀ {events : List DemoEvent} {d : Demo σ}, (∀ num code, .exception num code ∉ events) → d.halted = false →
    (events.foldl Demo.step d).halted = false
  | [], _, _, h => h
  | e :: events, d, hevents, h => by
    rw [List.foldl_cons, Demo.step_running h]
    refine Demo.running (fun num code hmem => hevents num code (List.mem_cons_of_mem _ hmem)) ?_
    cases e with
    | threadA | threadB | systemCall | keyboard => exact h
    | exception num code => exact absurd (List.mem_cons_self ..) (hevents num code)

/-- What an exception that stops `d` leaves in the second row. -/
structure PanicLine (num : Fin 32) (errorCode : UInt64) (d stopped : Demo Console) : Prop where
  line : ∃ digits, digits.length = 16 ∧ readNumeral panicDigit 16 digits = some errorCode.toNat ∧
    (exceptionName num ++ ' '.toUInt8 :: digits).length ≤ 80 ∧
    ∀ i, stopped.screen.vga i = if 80 ≤ i ∧ i < 80 + (exceptionName num ++ ' '.toUInt8 :: digits).length then
      vgaCell 0x4F ((exceptionName num ++ ' '.toUInt8 :: digits).getD (i - 80).toNat 0) else d.screen.vga i
  cursorRow : stopped.screen.cursorRow = d.screen.cursorRow
  cursorColumn : stopped.screen.cursorColumn = d.screen.cursorColumn
  halted : stopped.halted = true

theorem panicLine_act (d : Demo Console) (num : Fin 32) (errorCode : UInt64) :
    PanicLine num errorCode d (d.act (.exception num errorCode)) := by
  have hscreen : (d.act (.exception num errorCode)).screen =
      ((panicLine (exceptionName num) errorCode).foldl panicPut (80, d.screen)).2 :=
    panicPrint_eq ..
  have hcursor := cursor_panicPut (panicLine (exceptionName num) errorCode) 80 d.screen
  have hvga := vga_panicPut (panicLine (exceptionName num) errorCode) 80 d.screen
  have hlen := length_panicLine (exceptionName num) errorCode
  have hname := length_exceptionName num
  rw [← hscreen] at hcursor hvga
  rw [panicLine, nibbles_eq] at hvga hlen
  refine ⟨⟨_, ?_, read_nibbles errorCode, ?_, hvga⟩, hcursor.1, hcursor.2, rfl⟩
  · rw [fixedNumeral, List.length_reverse, List.length_map, List.length_map, List.length_range]
  · omega

/-- **The line of a fatal exception.** Whatever ran before, the first exception leaves its name, a blank and
sixteen digits that read back as its error code in the second row and changes nothing else on the screen,
and of what comes later only another NMI or machine check changes it. -/
theorem panic_line (c₀ : Console) (arguments : Arguments) (garbage : Nat → UInt8)
    (before after : List DemoEvent) (num : Fin 32) (errorCode : UInt64)
    (hbefore : ∀ num errorCode, .exception num errorCode ∉ before) (hafter : ∀ e ∈ after, e.unmaskable = false) :
    ∃ c, kernelMainLines arguments garbage c₀ = some c ∧
      PanicLine num errorCode (before.foldl Demo.step (Demo.start c))
        ((before ++ .exception num errorCode :: after).foldl Demo.step (Demo.start c)) := by
  refine ⟨_, kernelMainLines_eq arguments garbage c₀, ?_⟩
  rw [List.foldl_append, List.foldl_cons]
  rw [Demo.step_running (Demo.running hbefore rfl), Demo.run_halted hafter rfl]
  exact panicLine_act ..

theorem panic_line_page_fault :
    ∃ c, kernelMainLines ⟨fun _ => 0, fun _ => ⟨[], by decide⟩⟩ (fun _ => 0) ⟨fun _ => 0, 0, 0⟩ = some c ∧
      PanicLine 14 7 ([DemoEvent.threadA, .systemCall 'U'.toUInt8].foldl Demo.step (Demo.start c))
        (([DemoEvent.threadA, .systemCall 'U'.toUInt8] ++ .exception 14 7 :: [DemoEvent.threadB,
          .exception 13 0]).foldl
          Demo.step (Demo.start c)) :=
  panic_line ⟨fun _ => 0, 0, 0⟩ _ _ [.threadA, .systemCall 'U'.toUInt8] [.threadB,
    .exception 13 0] 14 7 (by simp) (by decide)

end KernelOs
