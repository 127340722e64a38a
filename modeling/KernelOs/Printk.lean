import KernelOs.Console
import KernelOs.Lib.Memory
import Mathlib.Logic.Function.Basic

/-!
# Formatted output

`printk` of `console.cpp` and the functions it calls. Recorded are the characters of the format
string that are read, every call of `console_put_char` and every access to the array `digits`.
-/

namespace KernelOs
open Lib

inductive PrintEvent where
  /-- `format[index]` is read. -/
  | read (index : Nat)
  /-- `console_put_char(format[index])` -/
  | copy (index : Nat)
  /-- `console_put_char(character)`, the character not being one of the format string. -/
  | put (character : UInt8)
  /-- `digits[index]` is written or read. -/
  | digit (index : Nat)
  | console (e : ConsoleEvent)
  deriving DecidableEq

abbrev PrintTrace := Traced PrintEvent

/-- What the calls of `console_put_char` print. -/
def printed (format : Nat → UInt8) (trace : List PrintEvent) : List UInt8 :=
  trace.filterMap fun
    | .copy index => some (format index)
    | .put character => some character
    | _ => none

/-- The word of each argument, and the string at each pointer among them. -/
structure Arguments where
  word : Nat → UInt64
  string : UInt64 → CString

namespace Arguments

/-- `va_arg` for the argument in position `arg`. -/
def int (arguments : Arguments) (arg : Nat) : Int32 := (arguments.word arg).toUInt32.toInt32

def unsigned (arguments : Arguments) (arg : Nat) : UInt32 := (arguments.word arg).toUInt32

def pointer (arguments : Arguments) (arg : Nat) : UInt64 := arguments.word arg

end Arguments

def callPutChar (event : PrintEvent) (c : Console) (character : UInt8) : PrintTrace Console :=
  ⟨(consolePutChar c character).val, event :: (consolePutChar c character).trace.map .console⟩

def putChar (c : Console) (character : UInt8) : PrintTrace Console := callPutChar (.put character) c character

/-- `console_write`, with its calls of `console_put_char`. -/
def writeString (c : Console) (string : List UInt8) : PrintTrace Console := string.foldlM putChar c

theorem val_writeString :
    ∀ (string : List UInt8) (c : Console), (writeString c string).val = (consoleWrite c string).val
  | [], _ => rfl
  | character :: string, c => by
    rw [writeString, consoleWrite, List.foldlM_cons, List.foldlM_cons]
    exact val_writeString string (consolePutChar c character).val

def digitChar (digit : UInt64) : UInt8 :=
  if digit < 10 then (UInt64.ofNat '0'.toNat + digit).toUInt8 else (UInt64.ofNat 'a'.toNat + digit - 10).toUInt8

def storeDigit (digits : Nat → UInt8) (index : Nat) (character : UInt8) : PrintTrace (Nat → UInt8) :=
  ⟨Function.update digits index character, [.digit index]⟩

def loadDigit (digits : Nat → UInt8) (index : Nat) : PrintTrace UInt8 := ⟨digits index, [.digit index]⟩

/-- The first loop of `write_unsigned`, at most `n` rounds of it. -/
def digitLoop (base : UInt32) : Nat → UInt64 → Nat → (Nat → UInt8) → PrintTrace (Option (Nat × (Nat → UInt8)))
  | 0, _, _, _ => pure none
  | n + 1, value, count, digits => do
    let digit := value % base.toUInt64
    let digits ← storeDigit digits count (digitChar digit)
    let value := value / base.toUInt64
    if value ≠ 0 then digitLoop base n value (count + 1) digits else pure (some (count + 1, digits))

/-- The second one, with `count` digits left. -/
def putDigits (digits : Nat → UInt8) : Nat → Console → PrintTrace Console
  | 0, c => pure c
  | count + 1, c => do
    let character ← loadDigit digits count
    let c ← putChar c character
    putDigits digits count c

/-- A 64-bit value has at most 64 digits. The array is not initialised: `garbage` is what it holds. -/
def writeUnsigned (garbage : Nat → UInt8) (c : Console) (value : UInt64) (base : UInt32) :
    PrintTrace (Option Console) := do
  match ← digitLoop base 64 value 0 garbage with
  | none => pure none
  | some (count, digits) => do
    let c ← putDigits digits count c
    pure (some c)

def nullString : List UInt8 := "(null)".toList.map Char.toUInt8

section
variable (format : Nat → UInt8) (arguments : Arguments) (garbage : Nat → UInt8)

def readFormat (index : Nat) : PrintTrace UInt8 := ⟨format index, [.read index]⟩

def copyChar (c : Console) (index : Nat) : PrintTrace Console := callPutChar (.copy index) c (format index)

/-- The `switch` of `printk`, at the character behind the '%', with the argument that is next. -/
def conversion (index arg : Nat) (c : Console) : PrintTrace (Option (Nat × Console)) := do
  let character ← readFormat format index
  if character = '%'.toUInt8 then do
    let c ← putChar c '%'.toUInt8
    pure (some (arg, c))
  else if character = 'c'.toUInt8 then do
    let c ← putChar c (arguments.int arg).toUInt32.toUInt8
    pure (some (arg + 1, c))
  else if character = 's'.toUInt8 then do
    let string := arguments.pointer arg
    let c ← writeString c (if string ≠ 0 then (arguments.string string).val else nullString)
    pure (some (arg + 1, c))
  else if character = 'd'.toUInt8 then do
    let value := arguments.int arg
    if value < 0 then do
      let c ← putChar c '-'.toUInt8
      let c ← writeUnsigned garbage c ((-(value + 1)).toUInt32 + 1).toUInt64 10
      pure (c.map fun c => (arg + 1, c))
    else do
      let c ← writeUnsigned garbage c value.toUInt32.toUInt64 10
      pure (c.map fun c => (arg + 1, c))
  else if character = 'u'.toUInt8 then do
    let c ← writeUnsigned garbage c (arguments.unsigned arg).toUInt64 10
    pure (c.map fun c => (arg + 1, c))
  else if character = 'x'.toUInt8 then do
    let c ← writeUnsigned garbage c (arguments.unsigned arg).toUInt64 16
    pure (c.map fun c => (arg + 1, c))
  else do
    let c ← putChar c '%'.toUInt8
    let c ← copyChar format c index
    pure (some (arg, c))

/-- The loop of `printk`, at most `n` rounds of it. The result has the index at which it stops. -/
def printkLoop : Nat → Nat → Nat → Console → PrintTrace (Option (Nat × Console))
  | 0, _, _, _ => pure none
  | n + 1, index, arg, c => do
    let character ← readFormat format index
    if character = 0 then pure (some (index, c))
    else if character ≠ '%'.toUInt8 then do
      let c ← copyChar format c index
      printkLoop n (index + 1) arg c
    else
      match ← conversion format arguments garbage (index + 1) arg c with
      | none => pure none
      | some (arg, c) => printkLoop n (index + 1 + 1) arg c

def printk (n : Nat) (c : Console) : PrintTrace (Option (Nat × Console)) :=
  printkLoop format arguments garbage n 0 0 c

end

end KernelOs
