import Mathlib.Logic.Function.Basic

/-!
# The keyboard driver

`keyboard.cpp`: the interrupt handler translates a scan code and stores the character
in a ring buffer. What the handler reads from the two PS/2 ports is an argument.
`keyboard_read_char` is cut where an interrupt can fall.
-/

namespace KernelOs

def ps2StatusOutputFull : UInt8 := 1
def ps2StatusSecondPort : UInt8 := 0x20

def keyboardBufferSize : UInt8 := 64

/-- `keyboardBuffer` is the memory from the array on. -/
structure Keyboard where
  bufferHead : UInt8
  bufferTail : UInt8
  keyboardBuffer : Nat → UInt8
  leftShiftPressed : Bool
  rightShiftPressed : Bool
  capsLockActive : Bool
  extendedScancode : Bool

/-- The static initial values. -/
def Keyboard.initial : Keyboard := ⟨0, 0, fun _ => 0, false, false, false, false⟩

def pushChar (k : Keyboard) (character : UInt8) : Keyboard :=
  let nextHead := (k.bufferHead + 1) % keyboardBufferSize
  if nextHead = k.bufferTail then k
  else
    { k with
      keyboardBuffer := Function.update k.keyboardBuffer k.bufferHead.toNat character
      bufferHead := nextHead }

/-- The entries of `normal_map` that are written out; the others are 0. -/
def normalMap : List Char := [
  '\x00', '\x00', '1', '2', '3', '4', '5', '6', '7', '8',
  '9', '0', '-', '=', '\x08', '\t', 'q', 'w', 'e', 'r',
  't', 'y', 'u', 'i', 'o', 'p', '[', ']', '\n', '\x00',
  'a', 's', 'd', 'f', 'g', 'h', 'j', 'k', 'l', ';',
  '\x27', '\x60', '\x00', '\x5C', 'z', 'x', 'c', 'v', 'b', 'n',
  'm', ',', '.', '/', '\x00', '*', '\x00', ' ', '\x00', '\x00']

def shiftedMap : List Char := [
  '\x00', '\x00', '!', '@', '#', '$', '%', '^', '&', '*',
  '(', ')', '_', '+', '\x08', '\t', 'Q', 'W', 'E', 'R',
  'T', 'Y', 'U', 'I', 'O', 'P', '\x7B', '\x7D', '\n', '\x00',
  'A', 'S', 'D', 'F', 'G', 'H', 'J', 'K', 'L', ':',
  '\x22', '~', '\x00', '|', 'Z', 'X', 'C', 'V', 'B', 'N',
  'M', '<', '>', '?', '\x00', '*', '\x00', ' ', '\x00', '\x00']

def translateScancode (k : Keyboard) (scancode : UInt8) : UInt8 :=
  let shiftActive := k.leftShiftPressed || k.rightShiftPressed
  let character := ((if shiftActive then shiftedMap else normalMap).getD scancode.toNat '\x00').toUInt8
  if 'a'.toUInt8 ≤ character ∧ character ≤ 'z'.toUInt8 ∧ k.capsLockActive then
    character - 'a'.toUInt8 + 'A'.toUInt8
  else if 'A'.toUInt8 ≤ character ∧ character ≤ 'Z'.toUInt8 ∧ k.capsLockActive then
    character - 'A'.toUInt8 + 'a'.toUInt8
  else character

/-- `status` and `data` are what the status and the data port hold. -/
def keyboardHandleIrq (k : Keyboard) (status data : UInt8) : Keyboard :=
  if status &&& ps2StatusOutputFull = 0 then k
  else if status &&& ps2StatusSecondPort ≠ 0 then k
  else if data = 0xE0 then { k with extendedScancode := true }
  else
    let released : Bool := data &&& 0x80 != 0
    let scancode := data &&& 0x7F
    let k :=
      if scancode = 0x2A then { k with leftShiftPressed := !released }
      else if scancode = 0x36 then { k with rightShiftPressed := !released }
      else if scancode = 0x3A ∧ !released then { k with capsLockActive := !k.capsLockActive }
      else if !released && !k.extendedScancode then
        let character := translateScancode k scancode
        if character ≠ 0 then pushChar k character else k
      else k
    { k with extendedScancode := false }

def keyboardCharAvailable (k : Keyboard) : Bool := k.bufferHead != k.bufferTail

/-! ## The steps of `keyboard_read_char` -/

/-- Where the reader is: before the test, before the load, before the advance of `buffer_tail`. -/
inductive ReadPoint where
  | test
  | load
  | advance (character : UInt8)
  deriving DecidableEq

/-- One step of the reader: the state after it, where it is next, and what the call returns if it ends. -/
def keyboardReadChar (k : Keyboard) : ReadPoint → Keyboard × ReadPoint × Option UInt8
  | .test => if !keyboardCharAvailable k then (k, .test, some 0) else (k, .load, none)
  | .load => (k, .advance (k.keyboardBuffer k.bufferTail.toNat), none)
  | .advance character => ({ k with bufferTail := (k.bufferTail + 1) % keyboardBufferSize }, .test, some character)

end KernelOs
