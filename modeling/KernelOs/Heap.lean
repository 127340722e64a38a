import KernelOs.Lib.Memory

/-!
# The kernel heap

`heap.cpp`: a 64 KiB array of the kernel image, cut into blocks that each start
with a header. Headers live in the array's own bytes (`size` at 0, `free` at 8,
`next` at 16), so that a wrong offset would overwrite a neighbour here as it
does in the source. The list walks take fuel; running out of it is `none`.
-/

namespace KernelOs
open Lib

def heapSize : UInt64 := 65536
def heapAlignment : UInt64 := 8
def blockHeaderSize : UInt64 := 24

/-- Where the linker put `heap_area`: eight-byte aligned, not at address 0, inside the address space. -/
structure HeapArea where
  base : UInt64
  aligned : base.toNat % 8 = 0
  pos : 0 < base.toNat
  fits : base.toNat + 65536 < 2 ^ 64

/-- `first_block` and `heap_initialized`, with the memory that holds `heap_area`. -/
structure Heap where
  mem : Memory
  firstBlock : UInt64
  initialized : Bool

namespace Heap

def size (h : Heap) (block : UInt64) : UInt64 := h.mem.load64 block.toNat
def free (h : Heap) (block : UInt64) : Bool := h.mem (block.toNat + 8) != 0
def next (h : Heap) (block : UInt64) : UInt64 := h.mem.load64 (block.toNat + 16)

def setSize (h : Heap) (block size : UInt64) : Heap := { h with mem := h.mem.store64 block.toNat size }
def setFree (h : Heap) (block : UInt64) (free : Bool) : Heap :=
  { h with mem := h.mem.store8 (block.toNat + 8) (if free then 1 else 0) }
def setNext (h : Heap) (block next : UInt64) : Heap := { h with mem := h.mem.store64 (block.toNat + 16) next }

end Heap

def heapAlignUp (value : UInt64) : UInt64 := (value + heapAlignment - 1) &&& ~~~(heapAlignment - 1)

def blocksAreAdjacent (h : Heap) (first second : UInt64) : Bool := first + blockHeaderSize + h.size first == second

def splitBlock (h : Heap) (block size : UInt64) : Heap :=
  if h.size block < size + blockHeaderSize + heapAlignment then h
  else
    let newBlock := block + blockHeaderSize + size
    let h := h.setSize newBlock (h.size block - size - blockHeaderSize)
    let h := h.setFree newBlock true
    let h := h.setNext newBlock (h.next block)
    let h := h.setSize block size
    h.setNext block newBlock

/-- The loop of `coalesce_free_blocks`, at `block`. -/
def coalesceLoop : Nat → UInt64 → Heap → Option Heap
  | 0, _, _ => none
  | n + 1, block, h =>
    if block = 0 ∨ h.next block = 0 then some h
    else
      let next := h.next block
      if h.free block && h.free next && blocksAreAdjacent h block next then
        let h := h.setSize block (h.size block + (blockHeaderSize + h.size next))
        coalesceLoop n block (h.setNext block (h.next next))
      else coalesceLoop n next h

/-- More rounds than `heap_area` can hold blocks. -/
def heapFuel : Nat := 65536

def coalesceFreeBlocks (h : Heap) : Option Heap := coalesceLoop heapFuel h.firstBlock h

def heapInit (area : HeapArea) (h : Heap) : Heap :=
  let h := { h with firstBlock := area.base }
  let h := h.setSize h.firstBlock (heapSize - blockHeaderSize)
  let h := h.setFree h.firstBlock true
  let h := h.setNext h.firstBlock 0
  { h with initialized := true }

/-- The first-fit walk of `kmalloc`, at `block`. -/
def kmallocLoop (size : UInt64) : Nat → UInt64 → Heap → Option (UInt64 × Heap)
  | 0, _, _ => none
  | n + 1, block, h =>
    if block = 0 then some (0, h)
    else if h.free block && h.size block ≥ size then
      some (block + blockHeaderSize, (splitBlock h block size).setFree block false)
    else kmallocLoop size n (h.next block) h

def kmalloc (area : HeapArea) (h : Heap) (size : UInt64) : Option (UInt64 × Heap) :=
  if size = 0 ∨ size > heapSize - blockHeaderSize then some (0, h)
  else
    let h := if h.initialized then h else heapInit area h
    kmallocLoop (heapAlignUp size) heapFuel h.firstBlock h

/-- The search of `kfree`, at `block`. -/
def kfreeLoop (address : UInt64) : Nat → UInt64 → Heap → Option Heap
  | 0, _, _ => none
  | n + 1, block, h =>
    if block = 0 then some h
    else if block + blockHeaderSize = address then coalesceFreeBlocks (h.setFree block true)
    else kfreeLoop address n (h.next block) h

def kfree (h : Heap) (pointer : UInt64) : Option Heap :=
  if pointer = 0 then some h else kfreeLoop pointer heapFuel h.firstBlock h

end KernelOs
