import KernelOs.Lib.Cpu
import KernelOs.Pmm
import KernelOs.Scheduler

/-!
# Interrupts and context switches

`isr_stubs.S` and `context_switch.S` instruction by instruction, `task.cpp`, and the
code that the CPU runs between. What the compiler makes of `irq_handler`,
`scheduler_tick` and `scheduler_start` is a parameter. Memory is that of the stacks,
which lie in the identity mapped part of every address space.
-/

namespace KernelOs
open Lib

/-- The kernel's binary. Of the C++ code it has the effect on the CPU: of `irq_handler` up to the call of
`context_switch` (`toSwitch`), from there on (`fromSwitch`) and without one (`noSwitch`), and of
`scheduler_start` up to its call (`startSwitch`). -/
structure Binary where
  irq0 : UInt64
  irqHandler : UInt64
  stubReturn : UInt64
  tickReturn : UInt64
  taskPool : UInt64
  stackBottom : Nat
  stackTop : Nat
  frameBytes : Nat
  toSwitch : Scheduler → Cpu → Cpu
  fromSwitch : Cpu → Cpu
  noSwitch : Scheduler → Cpu → Cpu
  startSwitch : Scheduler → Cpu → Cpu

/-! ## `isr_stubs.S` -/

/-- The CPU's part, `irq0`, and `irq_common_stub` up to the first instruction of `irq_handler`. -/
def irqEntry (k : Binary) (rsp0 : UInt64) (c : Cpu) : Cpu :=
  let c := c.interruptGate false rsp0 0x08 k.irq0
  let c := (c.push 0).push 32
  let c := c.pushRegs [.rax, .rbx, .rcx, .rdx, .rsi, .rdi, .rbp, .r8, .r9, .r10, .r11, .r12, .r13, .r14, .r15]
  let c := { c with gpr := Function.update c.gpr .rdi c.rsp }
  c.call k.irqHandler k.stubReturn

/-- Behind the call, up to the `iretq`. -/
def irqPop (c : Cpu) : Cpu :=
  let c := c.popRegs [.r15, .r14, .r13, .r12, .r11, .r10, .r9, .r8, .rbp, .rdi, .rsi, .rdx, .rcx, .rbx, .rax]
  { c with rsp := c.rsp + 16 }

def irqExit (c : Cpu) : Cpu := (irqPop c).iretq

/-! ## `context_switch.S` -/

def contextSwitch (s : Scheduler) (c : Cpu) : Scheduler × Cpu :=
  let c := c.pushRegs [.rbp, .rbx, .r12, .r13, .r14, .r15]
  let oldTask := c.gpr .rdi
  let c := c.test oldTask
  let s := if oldTask = 0 then s else s.setTask oldTask fun t => { t with savedRsp := c.rsp }
  let c := { c with rsp := (s.tasks (c.gpr .rsi)).savedRsp }
  let c := c.popRegs [.r15, .r14, .r13, .r12, .rbx, .rbp]
  (s, c.ret)

/-! ## Timer interrupts and `scheduler_start` -/

namespace Binary

def afterHandler (k : Binary) (c : Cpu) : Cpu := if c.rip = k.stubReturn then irqExit c else c

/-- Where `context_switch` has returned to: `scheduler_tick`, or code of the new task's own. -/
def afterSwitch (k : Binary) (c : Cpu) : Cpu := if c.rip = k.tickReturn then k.afterHandler (k.fromSwitch c) else c

def timerInterrupt (k : Binary) (s : Scheduler) (c : Cpu) : Scheduler × Cpu :=
  let c := irqEntry k s.rsp0 c
  match s.schedulerTick.2 with
  | none => (s.schedulerTick.1, k.afterHandler (k.noSwitch s c))
  | some _ =>
    let (s, c) := contextSwitch s.schedulerTick.1 (k.toSwitch s c)
    (s, k.afterSwitch c)

/-- Where nothing is switched to, the boot code goes on. -/
def schedulerStart (k : Binary) (s : Scheduler) (c : Cpu) : Scheduler × Cpu :=
  match s.schedulerStart.2 with
  | none => (s.schedulerStart.1, c)
  | some _ =>
    let (s, c) := contextSwitch s.schedulerStart.1 (k.startSwitch s c)
    (s, k.afterSwitch c)

end Binary

/-! ## The System V ABI -/

def pointer : Option TaskPtr → UInt64
  | none => 0
  | some task => task

/-- A function entered in `c` is about to run the first instruction of `context_switch`. -/
structure AtSwitch (k : Binary) (c c' : Cpu) (switch : ContextSwitch) : Prop where
  rdi : c'.gpr .rdi = pointer switch.oldTask
  rsi : c'.gpr .rsi = switch.newTask
  bottom : c.rsp.toNat ≤ c'.rsp.toNat + k.frameBytes
  top : c'.rsp.toNat + 8 ≤ c.rsp.toNat
  mem : Memory.ChangedIn c.mem c'.mem (c.rsp.toNat - k.frameBytes) c.rsp.toNat
  cs : c'.cs = c.cs
  flag : c'.interruptFlag = c.interruptFlag

/-- A call of `context_switch` in `c` has returned in `c'`. -/
structure BackFromSwitch (c c' : Cpu) : Prop where
  rsp : c'.rsp = c.rsp + 8
  rip : c'.rip = c.mem.load64 c.rsp.toNat
  saved : ∀ r ∈ [Reg.rbx, .rbp, .r12, .r13, .r14, .r15], c'.gpr r = c.gpr r

/-- A function entered in `c` that went on in `c'` has returned in `c''`. -/
structure Returned (k : Binary) (c c' c'' : Cpu) : Prop where
  rsp : c''.rsp = c.rsp + 8
  rip : c''.rip = c.mem.load64 c.rsp.toNat
  mem : Memory.ChangedIn c'.mem c''.mem (c.rsp.toNat - k.frameBytes) c.rsp.toNat

/-- What the compiler promises and the linker provides. An interrupt needs 247 bytes for what the CPU,
the stub and `context_switch` push, and for alignment. -/
structure SystemV (k : Binary) : Prop where
  frameBytes_le : k.frameBytes + 247 ≤ 16384
  taskPool_pos : 0 < k.taskPool.toNat
  taskPool_lt : k.taskPool.toNat + 64 * 80 ≤ 2 ^ 64
  toSwitch : ∀ s c switch, s.schedulerTick.2 = some switch → k.frameBytes ≤ c.rsp.toNat →
    AtSwitch k c (k.toSwitch s c) switch
  tickReturn : ∀ s c switch, s.schedulerTick.2 = some switch → k.frameBytes ≤ c.rsp.toNat →
    (k.toSwitch s c).mem.load64 (k.toSwitch s c).rsp.toNat = k.tickReturn
  fromSwitch : ∀ s c c' switch, s.schedulerTick.2 = some switch → k.frameBytes ≤ c.rsp.toNat →
    BackFromSwitch (k.toSwitch s c) c' →
    Memory.AgreeOn (k.toSwitch s c).mem c'.mem ((k.toSwitch s c).rsp.toNat + 8) (c.rsp.toNat + 8) →
    Returned k c c' (k.fromSwitch c')
  noSwitch : ∀ s c, s.schedulerTick.2 = none → k.frameBytes ≤ c.rsp.toNat → Returned k c c (k.noSwitch s c)
  startSwitch : ∀ s c switch, s.schedulerStart.2 = some switch → k.frameBytes ≤ c.rsp.toNat →
    AtSwitch k c (k.startSwitch s c) switch

/-! ## `task.cpp` -/

structure CpuContext where
  r15 : UInt64
  r14 : UInt64
  r13 : UInt64
  r12 : UInt64
  rbx : UInt64
  rbp : UInt64
  rip : UInt64

def CpuContext.words (ctx : CpuContext) : List UInt64 :=
  [ctx.r15, ctx.r14, ctx.r13, ctx.r12, ctx.rbx, ctx.rbp, ctx.rip]

/-- The kernel, with the task whose context the CPU is in, if it is not the boot code's. -/
structure Machine where
  cpu : Cpu
  scheduler : Scheduler
  pmm : Pmm
  taskSlotUsed : Nat → Bool
  context : Option TaskPtr

namespace Machine

def maxTasks : Nat := 64

def kernelStackPages : UInt64 := 4

/-- The first free slot, taken. -/
def allocateTaskSlot (m : Machine) : Option Nat × Machine :=
  match (List.range maxTasks).find? fun i => !m.taskSlotUsed i with
  | none => (none, m)
  | some i => (some i, { m with taskSlotUsed := Function.update m.taskSlotUsed i true })

def taskCreateKernelThread (k : Binary) (m : Machine) (entryPoint : UInt64) : Option TaskPtr × Machine :=
  match m.allocateTaskSlot with
  | (none, m) => (none, m)
  | (some i, m) =>
    let task := k.taskPool + 80 * UInt64.ofNat i
    let (stackBase, pmm) := pmmAllocPages m.pmm kernelStackPages
    let m := { m with pmm }
    if stackBase = 0 then (none, m)
    else
      let stackTop := stackBase + kernelStackPages * pageSize
      let sp := stackTop - 56
      let ctx : CpuContext := { r15 := 0, r14 := 0, r13 := 0, r12 := 0, rbx := 0, rbp := 0, rip := entryPoint }
      let mem := m.cpu.mem.storeWords sp.toNat ctx.words
      let scheduler := m.scheduler.setTask task fun _ =>
        { state := .ready, kernelStackBase := stackBase, kernelStackTop := stackTop, savedRsp := sp,
          pml4Phys := 0, next := none }
      (some task, { m with cpu := { m.cpu with mem }, scheduler })

/-- A new kernel thread is queued, with an address space of its own if `pml4Phys` is not 0. -/
def spawn (k : Binary) (m : Machine) (entryPoint pml4Phys : UInt64) : Machine :=
  let (task, m) := m.taskCreateKernelThread k entryPoint
  let scheduler := match task with
    | none => m.scheduler
    | some task => m.scheduler.setTask task fun t => { t with pml4Phys }
  { m with scheduler := scheduler.schedulerAddTask task }

def schedulerStart (k : Binary) (m : Machine) : Machine :=
  let (scheduler, cpu) := k.schedulerStart m.scheduler m.cpu
  { m with scheduler, cpu, context := (m.scheduler.schedulerStart.2.map ContextSwitch.newTask).or m.context }

def timerInterrupt (k : Binary) (m : Machine) : Machine :=
  let (scheduler, cpu) := k.timerInterrupt m.scheduler m.cpu
  { m with scheduler, cpu, context := (m.scheduler.schedulerTick.2.map ContextSwitch.newTask).or m.context }

def stack (k : Binary) (m : Machine) : Option TaskPtr → Nat × Nat
  | none => (k.stackBottom, k.stackTop)
  | some t => ((m.scheduler.tasks t).kernelStackBase.toNat, (m.scheduler.tasks t).kernelStackTop.toNat)

end Machine

/-- Room for an interrupt on the stack `[lo, hi)`. One from another ring starts at its end. -/
def Binary.Fits (k : Binary) (lo hi : Nat) (c : Cpu) : Prop :=
  c.ring = 0 → lo + k.frameBytes + 247 ≤ c.rsp.toNat ∧ c.rsp.toNat ≤ hi

/-- The code on the CPU gets from one point of its own to another and writes to its own stack only. -/
structure OwnCode (k : Binary) (m : Machine) (c : Cpu) : Prop where
  mem : Memory.ChangedIn m.cpu.mem c.mem (m.stack k m.context).1 (m.stack k m.context).2
  fits : k.Fits (m.stack k m.context).1 (m.stack k m.context).2 c
  boot : m.context = none → c.ring = 0

inductive MachineEvent where
  | spawn (entryPoint pml4Phys : UInt64)
  | sti
  | start
  | own (c : Cpu)
  | tick

/-- Only the boot code spawns and starts. An entry point is no address inside of `scheduler_tick`. -/
inductive MachineStep (k : Binary) (m : Machine) : MachineEvent → Machine → Prop
  | spawn (entryPoint pml4Phys : UInt64) : m.context = none → entryPoint ≠ k.tickReturn →
      MachineStep k m (.spawn entryPoint pml4Phys) (m.spawn k entryPoint pml4Phys)
  | sti : m.context = none → MachineStep k m .sti { m with cpu := m.cpu.sti }
  | start : m.context = none → MachineStep k m .start (m.schedulerStart k)
  | own (c : Cpu) : OwnCode k m c → MachineStep k m (.own c) { m with cpu := c }
  | tick : MachineStep k m .tick (m.timerInterrupt k)

end KernelOs
