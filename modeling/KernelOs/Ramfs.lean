import KernelOs.Lib.Memory
import Mathlib.Data.List.FinRange
import Mathlib.Logic.Function.Basic

/-!
# The in-memory file system

`ramfs.cpp`: sixteen entries with a name buffer each. A name passed in is the list
of its bytes before the NUL, `none` for a null pointer.
-/

namespace KernelOs
open Lib

/-- A read-only file: the bytes from `data` on, of which `size` belong to it. -/
structure RamfsFile where
  data : Memory
  size : UInt64

structure RamfsEntry where
  name : Nat → UInt8
  file : RamfsFile
  used : Bool

def maxRamfsFiles : Nat := 16
def maxRamfsNameLength : Nat := 32

abbrev Ramfs := Fin maxRamfsFiles → RamfsEntry

/-- `names_equal`, from position `index` on. -/
def namesEqual (first : Nat → UInt8) : Nat → List UInt8 → Bool
  | index, [] => first index == 0
  | index, c :: second => first index == c && namesEqual first (index + 1) second

/-- `copy_name`, from position `index` on. The buffer is left half written where the name is too long. -/
def copyName (destination : Nat → UInt8) : Nat → List UInt8 → Bool × (Nat → UInt8)
  | index, [] => (true, Function.update destination index 0)
  | index, c :: source =>
    if index + 1 ≥ maxRamfsNameLength then (false, destination)
    else copyName (Function.update destination index c) (index + 1) source

def ramfsInit (entries : Ramfs) : Ramfs := fun index => { entries index with used := false }

/-- The second loop of `ramfs_register_file`, over the entries that are left. -/
def registerLoop (name : List UInt8) (file : RamfsFile) : List (Fin maxRamfsFiles) → Ramfs → Bool × Ramfs
  | [], entries => (false, entries)
  | index :: rest, entries =>
    if (entries index).used then registerLoop name file rest entries
    else
      let (copied, buffer) := copyName (entries index).name 0 name
      if copied then (true, Function.update entries index ⟨buffer, file, true⟩)
      else registerLoop name file rest (Function.update entries index { entries index with name := buffer })

def ramfsRegisterFile (entries : Ramfs) (name : Option (List UInt8)) (data : Option Memory) (size : UInt64) :
    Bool × Ramfs :=
  match name, data with
  | some name, some data =>
    if size = 0 then (false, entries)
    else if (List.finRange maxRamfsFiles).any
        fun index => (entries index).used && namesEqual (entries index).name 0 name then
      (false, entries)
    else registerLoop name ⟨data, size⟩ (List.finRange maxRamfsFiles) entries
  | _, _ => (false, entries)

def ramfsOpen (entries : Ramfs) (name : Option (List UInt8)) : Option RamfsFile :=
  name.bind fun name =>
    ((List.finRange maxRamfsFiles).find? fun index =>
      (entries index).used && namesEqual (entries index).name 0 name).map fun index => (entries index).file

end KernelOs
