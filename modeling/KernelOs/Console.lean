import KernelOs.Lib.Traced

/-!
# The console

`console.cpp` without the formatting of `printk`. Accesses to the VGA buffer and bytes for
the serial port are recorded, with the index the source computes for each access.
-/

namespace KernelOs
open Lib

def vgaWidth : Int := 80
def vgaHeight : Int := 25
def defaultColor : UInt8 := 0x0F

/-- `vga` is the memory from 0xB8000 on, as an array. -/
structure Console where
  vga : Int → UInt16
  cursorRow : Int
  cursorColumn : Int

inductive ConsoleEvent where
  | read (index : Int)
  | write (index : Int)
  | serial (character : UInt8)
  deriving DecidableEq

abbrev ConsoleTrace := Traced ConsoleEvent

def vgaCell (color character : UInt8) : UInt16 := color.toUInt16 <<< 8 ||| character.toUInt16

def blankCell : UInt16 := vgaCell defaultColor ' '.toUInt8

def readVga (c : Console) (index : Int) : ConsoleTrace UInt16 := ⟨c.vga index, [.read index]⟩

def writeVga (c : Console) (index : Int) (cell : UInt16) : ConsoleTrace Console :=
  ⟨{ c with vga := fun i => if i = index then cell else c.vga i }, [.write index]⟩

def serialWriteChar (character : UInt8) : ConsoleTrace Unit := ⟨(), [.serial character]⟩

/-- One round of the copying loop of `scroll_if_needed`. -/
def copyCell (row column : Int) (c : Console) : ConsoleTrace Console := do
  let cell ← readVga c (row * vgaWidth + column)
  writeVga c ((row - 1) * vgaWidth + column) cell

def scrollIfNeeded (c : Console) : ConsoleTrace Console :=
  if c.cursorRow < vgaHeight then pure c
  else do
    -- the rows are counted from 1
    let c ← Traced.forRange (fun i => Traced.forRange (fun column => copyCell (i + 1) column) vgaWidth.toNat)
      (vgaHeight - 1).toNat c
    let c ← Traced.forRange (fun column c => writeVga c ((vgaHeight - 1) * vgaWidth + column) blankCell)
      vgaWidth.toNat c
    pure { c with cursorRow := vgaHeight - 1 }

/-- `serial_init` is left out: it changes neither the screen nor the cursor. -/
def consoleInit (c : Console) : ConsoleTrace Console :=
  Traced.forRange
    (fun row => Traced.forRange (fun column c => writeVga c (row * vgaWidth + column) blankCell) vgaWidth.toNat)
    vgaHeight.toNat
    { c with cursorRow := 0, cursorColumn := 0 }

/-- The branches of `console_put_char`. -/
def placeChar (c : Console) (character : UInt8) : ConsoleTrace Console :=
  if character = '\n'.toUInt8 then do
    serialWriteChar '\r'.toUInt8
    serialWriteChar '\n'.toUInt8
    pure { c with cursorColumn := 0, cursorRow := c.cursorRow + 1 }
  else if character = '\r'.toUInt8 then pure { c with cursorColumn := 0 }
  else if character = '\x08'.toUInt8 then
    if c.cursorColumn > 0 then do
      let c := { c with cursorColumn := c.cursorColumn - 1 }
      let c ← writeVga c (c.cursorRow * vgaWidth + c.cursorColumn) blankCell
      serialWriteChar '\x08'.toUInt8
      pure c
    else do
      serialWriteChar '\x08'.toUInt8
      pure c
  else do
    let c ← writeVga c (c.cursorRow * vgaWidth + c.cursorColumn) (vgaCell defaultColor character)
    serialWriteChar character
    let c := { c with cursorColumn := c.cursorColumn + 1 }
    if c.cursorColumn = vgaWidth then pure { c with cursorColumn := 0, cursorRow := c.cursorRow + 1 } else pure c

def consolePutChar (c : Console) (character : UInt8) : ConsoleTrace Console := do
  let c ← placeChar c character
  scrollIfNeeded c

/-- The bytes of `string` are those before its NUL. -/
def consoleWrite (c : Console) (string : List UInt8) : ConsoleTrace Console := string.foldlM consolePutChar c

end KernelOs
