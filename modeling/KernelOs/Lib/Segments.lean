import KernelOs.Lib.StackWords

/-!
# Segments and privilege levels

Segment descriptors as an x86 processor in long mode reads them, the selectors that it takes
at each privilege level, and what code of a level can do about its own.
-/

namespace Lib

structure Descriptor where
  base : Nat
  limit : Nat
  access : Nat
  flags : Nat
  deriving DecidableEq

namespace Descriptor

/-- The fields of a descriptor lie in parts. -/
def decode (raw : UInt64) : Descriptor where
  base := raw.toNat / 2 ^ 16 % 2 ^ 24 + 2 ^ 24 * (raw.toNat / 2 ^ 56)
  limit := raw.toNat % 2 ^ 16 + 2 ^ 16 * (raw.toNat / 2 ^ 48 % 2 ^ 4)
  access := raw.toNat / 2 ^ 40 % 2 ^ 8
  flags := raw.toNat / 2 ^ 52 % 2 ^ 4

variable (d : Descriptor)

def present : Bool := d.access.testBit 7

def dpl : Nat := d.access / 32 % 4

/-- Code or data, not a system descriptor. -/
def segment : Bool := d.access.testBit 4

def code : Bool := d.segment && d.access.testBit 3

def data : Bool := d.segment && !d.access.testBit 3

def conforming : Bool := d.code && d.access.testBit 2

def writable : Bool := d.data && d.access.testBit 1

def readable : Bool := d.data || d.code && d.access.testBit 1

/-- Code is not both 64-bit and 32-bit. -/
def sized : Bool := !(d.flags.testBit 1 && d.flags.testBit 2)

def callGate : Bool := !d.segment && d.access % 16 == 12

/-- What a far jump or call at level `cpl` finds, with a selector that asks for level `r`. -/
inductive Far where
  | fault
  | code
  | gate
  deriving DecidableEq

def far (cpl r : Nat) : Far :=
  if d.code then
    if d.present && d.sized && (if d.conforming then d.dpl ≤ cpl else r ≤ cpl && d.dpl == cpl) then .code
    else .fault
  else if d.callGate then .gate
  else .fault

/-- The code segment of a far return or `iretq`, which cannot lead further inside. -/
def returns (cpl r : Nat) : Bool :=
  d.present && d.code && d.sized && decide (cpl ≤ r) && (if d.conforming then decide (d.dpl ≤ r) else d.dpl == r)

/-- A segment for `ss` of level `cpl`. -/
def stack (cpl r : Nat) : Bool := d.present && d.writable && d.dpl == cpl && r == cpl

/-- A segment for `ds`, `es`, `fs` and `gs`. -/
def loads (cpl r : Nat) : Bool := d.present && d.readable && (d.conforming || decide (max cpl r ≤ d.dpl))

/-- The code segment of an interrupt gate that leads to ring 0. -/
def gateCode : Bool := d.present && d.code && d.sized && !d.conforming && d.dpl == 0

end Descriptor

/-- With no local table. -/
structure SegmentTable where
  limit : Nat
  slot : Nat → UInt64

/-- The privilege level that a selector asks for. -/
def rpl (sel : UInt16) : Nat := sel.toNat % 4

namespace SegmentTable

variable (t : SegmentTable)

def lookup (sel : UInt16) : Option Descriptor :=
  if sel.toNat / 4 = 0 then none
  else if sel.toNat / 4 % 2 = 1 then none
  else if t.limit < sel.toNat / 8 * 8 + 7 then none
  else some (.decode (t.slot (sel.toNat / 8)))

def far (cpl : Nat) (sel : UInt16) : Descriptor.Far := ((t.lookup sel).map fun d => d.far cpl (rpl sel)).getD .fault

def returns (cpl : Nat) (sel : UInt16) : Bool := (t.lookup sel).any fun d => d.returns cpl (rpl sel)

/-- Outside of ring 3 64-bit code may do without a stack segment. -/
def stack (cpl : Nat) (sel : UInt16) : Bool :=
  if sel.toNat / 4 = 0 then cpl != 3 && rpl sel == cpl else (t.lookup sel).any fun d => d.stack cpl (rpl sel)

/-- The other data segments may be missing. -/
def loads (cpl : Nat) (sel : UInt16) : Bool :=
  if sel.toNat / 4 = 0 then true else (t.lookup sel).any fun d => d.loads cpl (rpl sel)

def gateCode (sel : UInt16) : Bool := (t.lookup sel).any Descriptor.gateCode

/-- The processor sets the accessed bit of a descriptor that it loads. No check looks at it. -/
def touch (sel : UInt16) : SegmentTable :=
  if sel.toNat / 4 = 0 then t
  else { t with slot := Function.update t.slot (sel.toNat / 8) (t.slot (sel.toNat / 8) ||| 0x10000000000) }

variable {t} {sel sel' : UInt16}

end SegmentTable

/-- The part of a task state segment that decides about ports, and how long the segment is. -/
structure PortMap where
  limit : Nat
  base : Nat
  denied : Nat → Bool

/-- The bits of all ports must lie inside of the segment, with one byte behind them. -/
def PortMap.allows (m : PortMap) (cpl iopl port : Nat) : Bool :=
  decide (cpl ≤ iopl) || (decide (m.base + port / 8 + 1 ≤ m.limit) && !m.denied port)

/-! ## Code at its level -/

inductive DataReg where
  | ds
  | es
  | fs
  | gs
  deriving DecidableEq

/-- A processor with the segment registers that `Cpu` leaves out. -/
structure Core where
  cpu : Cpu
  data : DataReg → UInt16

namespace Core

def cpl (s : Core) : Nat := s.cpu.cs.toNat % 4

/-- Interrupt flag and I/O privilege level. -/
def guarded (s : Core) : UInt64 := s.cpu.rflags &&& 0x3200

def iopl (s : Core) : Nat := s.cpu.rflags.toNat / 2 ^ 12 % 4

/-- What is left of a data segment for level `cpl`. -/
def kept (t : SegmentTable) (cpl : Nat) (sel : UInt16) : UInt16 :=
  if (t.lookup sel).any fun d => d.conforming || decide (cpl ≤ d.dpl) then sel else 0

/-- `iretq` in ring 0. It faults on a nested task, on an address that is not canonical and on segments that it
may not load, and takes those away that an outer ring may not have. -/
def iretq (t : SegmentTable) (s : Core) : Option Core :=
  let c := s.cpu.iretq
  let level := rpl c.cs.toUInt16
  if s.cpu.nestedTask then none
  else if ¬ CanonicalAddress c.rip then none
  else if t.returns 0 c.cs.toUInt16 && t.stack level c.ss.toUInt16 then
    some { cpu := c, data := if level = 0 then s.data else fun r => kept t level (s.data r) }
  else none

/-- One instruction of code further out than its I/O privilege level, if it does not fault. The guarded
flags stay. -/
inductive UserStep (t : SegmentTable) (ports : PortMap) (s : Core) : Core → Prop
  | plain (s' : Core) : s'.cpu.cs = s.cpu.cs → s'.cpu.ss = s.cpu.ss → s'.data = s.data →
      s'.guarded = s.guarded → UserStep t ports s s'
  | loadData (r : DataReg) (sel : UInt16) : t.loads s.cpl sel →
      UserStep t ports s { s with data := Function.update s.data r sel }
  | loadStack (sel : UInt16) : t.stack s.cpl sel →
      UserStep t ports s { s with cpu := { s.cpu with ss := sel.toUInt64 } }
  | far (sel : UInt16) (s' : Core) : t.far s.cpl sel = .code → s'.cpu.cs.toNat = sel.toNat / 4 * 4 + s.cpl →
      s'.cpu.ss = s.cpu.ss → s'.guarded = s.guarded → UserStep t ports s s'
  /-- Through a call gate, to wherever it leads. -/
  | gate (sel : UInt16) (s' : Core) : t.far s.cpl sel = .gate → UserStep t ports s s'
  | ret (cs : UInt16) (s' : Core) : t.returns s.cpl cs → s'.cpu.cs = cs.toUInt64 →
      (s'.cpu.ss = s.cpu.ss ∧ rpl cs = s.cpl ∨ ∃ ss, t.stack (rpl cs) ss ∧ s'.cpu.ss = ss.toUInt64) →
      s'.guarded = s.guarded → UserStep t ports s s'
  /-- `in` and `out`, with whatever a device does then. -/
  | port (port : Nat) (s' : Core) : ports.allows s.cpl s.iopl port → UserStep t ports s s'

end Core

end Lib
