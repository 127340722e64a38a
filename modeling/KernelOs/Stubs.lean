import KernelOs.Interrupts
import KernelOs.Printk

/-!
# Interrupt stubs

`isr_stubs.S` and `syscall_stub.S` instruction by instruction, with the table of `idt.cpp` that leads
to them, and `syscall.cpp`. A state of the CPU in which an interrupt is taken has in `rip` the
address that it returns to: behind `int 0x80` for a system call.
-/

namespace KernelOs
open Lib

/-! ## `idt.cpp` -/

structure IdtEntry where
  offsetLow : UInt16
  selector : UInt16
  ist : UInt8
  typeAttr : UInt8
  offsetMid : UInt16
  offsetHigh : UInt32
  reserved : UInt32

abbrev Idt := UInt8 → IdtEntry

def idtSetEntry (idt : Idt) (vector : UInt8) (handler : UInt64) (typeAttr : UInt8) : Idt :=
  Function.update idt vector
    { offsetLow := (handler &&& 0xFFFF).toUInt16
      selector := 0x08
      ist := 0
      typeAttr
      offsetMid := ((handler >>> 16) &&& 0xFFFF).toUInt16
      offsetHigh := ((handler >>> 32) &&& 0xFFFFFFFF).toUInt32
      reserved := 0 }

inductive Stub where
  | isr (num : Fin 32)
  | irq0
  | irq1
  | syscallStub
  deriving DecidableEq

/-- Where the linker puts the stubs and the handlers, and where the stubs go on behind their calls. -/
structure StubAddresses where
  entry : Stub → UInt64
  exceptionHandler : UInt64
  irqHandler : UInt64
  syscallHandler : UInt64
  isrReturn : UInt64
  irqReturn : UInt64
  syscallReturn : UInt64

section
variable (k : StubAddresses)

def idtInit (idt : Idt) : Idt :=
  let idt :=
    (List.finRange 32).foldl (fun idt (i : Fin 32) => idtSetEntry idt (UInt8.ofNat i) (k.entry (.isr i)) 0x8E) idt
  let idt := idtSetEntry idt 0x20 (k.entry .irq0) 0x8E
  idtSetEntry idt 0x21 (k.entry .irq1) 0x8E

def syscallInit (idt : Idt) : Idt := idtSetEntry idt 0x80 (k.entry .syscallStub) 0xEE

end

/-! ## The CPU's part -/

/-- The address that the CPU puts together from the three parts. -/
def IdtEntry.offset (e : IdtEntry) : UInt64 :=
  e.offsetHigh.toUInt64 <<< 32 ||| e.offsetMid.toUInt64 <<< 16 ||| e.offsetLow.toUInt64

/-- The outermost ring that may come through the gate with `int`. -/
def IdtEntry.dpl (e : IdtEntry) : UInt8 := e.typeAttr >>> 5 &&& 3

def deliver (idt : Idt) (rsp0 : UInt64) (vector : UInt8) (errorCode : Option UInt64) (rf : Bool) (c : Cpu) : Cpu :=
  let c := c.interruptGate rf rsp0 (idt vector).selector.toUInt64 (idt vector).offset
  match errorCode with
  | none => c
  | some errorCode => c.push errorCode

/-! ## `isr_stubs.S` and `syscall_stub.S` -/

/-- The vectors that `isr_stubs.S` has an `ISR_ERR` for. -/
def isrErrVectors : List UInt8 := [8, 10, 11, 12, 13, 14, 17, 30]

/-- What the three stubs do with the number and the error code on the stack, up to the first instruction of
`handler`. -/
def saveRegs (handler returnAddr : UInt64) (c : Cpu) : Cpu :=
  let c := c.pushRegs [.rax, .rbx, .rcx, .rdx, .rsi, .rdi, .rbp, .r8, .r9, .r10, .r11, .r12, .r13, .r14, .r15]
  let c := { c with gpr := Function.update c.gpr .rdi c.rsp }
  c.call handler returnAddr

section
variable (k : StubAddresses)

def isrCommonStub (c : Cpu) : Cpu := saveRegs k.exceptionHandler k.isrReturn c

def irqCommonStub (c : Cpu) : Cpu := saveRegs k.irqHandler k.irqReturn c

def isrNoerr (num : UInt64) (c : Cpu) : Cpu := isrCommonStub k ((c.push 0).push num)

def isrErr (num : UInt64) (c : Cpu) : Cpu := isrCommonStub k (c.push num)

def isr (num : Fin 32) (c : Cpu) : Cpu :=
  if UInt8.ofNat num ∈ isrErrVectors then isrErr k (UInt64.ofNat num) c else isrNoerr k (UInt64.ofNat num) c

def irq (vector : UInt64) (c : Cpu) : Cpu := irqCommonStub k ((c.push 0).push vector)

def syscallStub (c : Cpu) : Cpu := saveRegs k.syscallHandler k.syscallReturn ((c.push 0).push 0x80)

end

/-- `isr_common_stub` behind its call, which is `irq_common_stub` behind its own. -/
def isrExit (c : Cpu) : Cpu := irqExit c

def syscallExit (c : Cpu) : Cpu := irqExit c

namespace Stub

def vector : Stub → UInt8
  | isr num => UInt8.ofNat num
  | irq0 => 0x20
  | irq1 => 0x21
  | syscallStub => 0x80

variable (k : StubAddresses)

def run : Stub → Cpu → Cpu
  | isr num, c => KernelOs.isr k num c
  | irq0, c => irq k 32 c
  | irq1, c => irq k 33 c
  | syscallStub, c => KernelOs.syscallStub k c

def handler : Stub → UInt64
  | isr _ => k.exceptionHandler
  | irq0 | irq1 => k.irqHandler
  | syscallStub => k.syscallHandler

def returnAddr : Stub → UInt64
  | isr _ => k.isrReturn
  | irq0 | irq1 => k.irqReturn
  | syscallStub => k.syscallReturn

def exit : Stub → Cpu → Cpu
  | isr _, c => isrExit c
  | irq0, c | irq1, c => irqExit c
  | syscallStub, c => syscallExit c

/-- From the interrupted code in `c` to the first instruction of the handler. -/
def enter (idt : Idt) (rsp0 : UInt64) (errorCode : Option UInt64) (rf : Bool) (stub : Stub) (c : Cpu) : Cpu :=
  stub.run k (deliver idt rsp0 stub.vector errorCode rf c)

/-- A handler that has returned in `c` returns to the stub that called it. -/
def resume (stub : Stub) (c : Cpu) : Cpu := if c.rip = stub.returnAddr k then stub.exit c else c

end Stub

/-! ## `idt.h` and `syscall.cpp` -/

structure InterruptFrame where
  r15 : UInt64
  r14 : UInt64
  r13 : UInt64
  r12 : UInt64
  r11 : UInt64
  r10 : UInt64
  r9 : UInt64
  r8 : UInt64
  rbp : UInt64
  rdi : UInt64
  rsi : UInt64
  rdx : UInt64
  rcx : UInt64
  rbx : UInt64
  rax : UInt64
  interruptNumber : UInt64
  errorCode : UInt64
  rip : UInt64
  cs : UInt64
  rflags : UInt64
  rsp : UInt64
  ss : UInt64

namespace InterruptFrame

/-- The frame at `a`. -/
def load (m : Memory) (a : UInt64) : InterruptFrame where
  r15 := m.load64 a.toNat
  r14 := m.load64 (a + 8).toNat
  r13 := m.load64 (a + 16).toNat
  r12 := m.load64 (a + 24).toNat
  r11 := m.load64 (a + 32).toNat
  r10 := m.load64 (a + 40).toNat
  r9 := m.load64 (a + 48).toNat
  r8 := m.load64 (a + 56).toNat
  rbp := m.load64 (a + 64).toNat
  rdi := m.load64 (a + 72).toNat
  rsi := m.load64 (a + 80).toNat
  rdx := m.load64 (a + 88).toNat
  rcx := m.load64 (a + 96).toNat
  rbx := m.load64 (a + 104).toNat
  rax := m.load64 (a + 112).toNat
  interruptNumber := m.load64 (a + 120).toNat
  errorCode := m.load64 (a + 128).toNat
  rip := m.load64 (a + 136).toNat
  cs := m.load64 (a + 144).toNat
  rflags := m.load64 (a + 152).toNat
  rsp := m.load64 (a + 160).toNat
  ss := m.load64 (a + 168).toNat

/-- The field that is named like the register. -/
def gpr (frame : InterruptFrame) : Reg → UInt64
  | .r15 => frame.r15
  | .r14 => frame.r14
  | .r13 => frame.r13
  | .r12 => frame.r12
  | .r11 => frame.r11
  | .r10 => frame.r10
  | .r9 => frame.r9
  | .r8 => frame.r8
  | .rbp => frame.rbp
  | .rdi => frame.rdi
  | .rsi => frame.rsi
  | .rdx => frame.rdx
  | .rcx => frame.rcx
  | .rbx => frame.rbx
  | .rax => frame.rax

def withGpr (frame : InterruptFrame) (g : Reg → UInt64) : InterruptFrame :=
  { frame with
    r15 := g .r15
    r14 := g .r14
    r13 := g .r13
    r12 := g .r12
    r11 := g .r11
    r10 := g .r10
    r9 := g .r9
    r8 := g .r8
    rbp := g .rbp
    rdi := g .rdi
    rsi := g .rsi
    rdx := g .rdx
    rcx := g .rcx
    rbx := g .rbx
    rax := g .rax }

end InterruptFrame

/-- What every field of the frame is named after, for an interrupt that saves `c`. -/
def frameOf (c : Cpu) (vector : UInt8) (errorCode : Option UInt64) : InterruptFrame where
  r15 := c.gpr .r15
  r14 := c.gpr .r14
  r13 := c.gpr .r13
  r12 := c.gpr .r12
  r11 := c.gpr .r11
  r10 := c.gpr .r10
  r9 := c.gpr .r9
  r8 := c.gpr .r8
  rbp := c.gpr .rbp
  rdi := c.gpr .rdi
  rsi := c.gpr .rsi
  rdx := c.gpr .rdx
  rcx := c.gpr .rcx
  rbx := c.gpr .rbx
  rax := c.gpr .rax
  interruptNumber := vector.toUInt64
  errorCode := errorCode.getD 0
  rip := c.rip
  cs := c.cs
  rflags := c.rflags
  rsp := c.rsp
  ss := c.ss

def syscallWriteChar : UInt64 := 0

def syscallHandler (frame : InterruptFrame) (console : Console) : PrintTrace (InterruptFrame × Console) :=
  if frame.rax = syscallWriteChar then do
    let console ← putChar console frame.rdi.toUInt8
    pure ({ frame with rax := 0 }, console)
  else pure ({ frame with rax := -1 }, console)

/-- `int 0x80` up to the instruction behind it. Of the C++ code it has the effect on CPU and console: `handler`. -/
def int80 (k : StubAddresses) (handler : Cpu → Console → PrintTrace (Cpu × Console)) (idt : Idt)
    (rsp0 : UInt64) (c : Cpu) (console : Console) : PrintTrace (Cpu × Console) := do
  let (c, console) ← handler (Stub.syscallStub.enter k idt rsp0 none false c) console
  pure (Stub.syscallStub.resume k c, console)

/-! ## The System V ABI -/

/-- A function is entered in `c` with a frame for its argument that lies right above its return address. -/
structure AtHandler (c : Cpu) : Prop where
  aligned : c.rsp.toNat % 16 = 8
  rdi : c.gpr .rdi = c.rsp + 8

/-- A handler entered in `c` has returned in `c'`, with `g` for the general-purpose fields of its frame. -/
structure HandlerReturned (c c' : Cpu) (g : Reg → UInt64) : Prop where
  rsp : c'.rsp = c.rsp + 8
  rip : c'.rip = c.mem.load64 c.rsp.toNat
  frame : InterruptFrame.load c'.mem (c.gpr .rdi) = (InterruptFrame.load c.mem (c.gpr .rdi)).withGpr g

/-- What the compiler promises of `syscall_handler`. -/
structure CompiledHandler (handler : Cpu → Console → PrintTrace (Cpu × Console)) : Prop where
  rsp : ∀ c console, AtHandler c → (handler c console).val.1.rsp = c.rsp + 8
  rip : ∀ c console, AtHandler c → (handler c console).val.1.rip = c.mem.load64 c.rsp.toNat
  frame : ∀ c console, AtHandler c → InterruptFrame.load (handler c console).val.1.mem (c.gpr .rdi) =
    (syscallHandler (InterruptFrame.load c.mem (c.gpr .rdi)) console).val.1
  console : ∀ c console, AtHandler c →
    (handler c console).val.2 = (syscallHandler (InterruptFrame.load c.mem (c.gpr .rdi)) console).val.2
  trace : ∀ c console, AtHandler c →
    (handler c console).trace = (syscallHandler (InterruptFrame.load c.mem (c.gpr .rdi)) console).trace

end KernelOs
