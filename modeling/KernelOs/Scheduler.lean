import Mathlib.Logic.Function.Basic

/-!
# The scheduler

`scheduler.cpp` and the part of `task.h` it works on. Tasks are known by their
addresses, `none` stands for a null pointer. `context_switch`, the last thing that
`scheduler_start` and `scheduler_tick` do, is returned and not carried out here.
-/

namespace KernelOs

inductive TaskState where
  | new
  | ready
  | running
  | blocked
  | terminated
  deriving DecidableEq

abbrev TaskPtr := UInt64

structure Task where
  state : TaskState
  kernelStackBase : UInt64
  kernelStackTop : UInt64
  savedRsp : UInt64
  pml4Phys : UInt64
  next : Option TaskPtr
  deriving DecidableEq

/-- The scheduler's variables, with `tss.rsp0`, CR3 and the tasks in memory. -/
structure Scheduler where
  tasks : TaskPtr → Task
  currentTask : Option TaskPtr
  readyHead : Option TaskPtr
  readyTail : Option TaskPtr
  kernelPml4Phys : UInt64
  rsp0 : UInt64
  cr3 : UInt64

structure ContextSwitch where
  oldTask : Option TaskPtr
  newTask : TaskPtr
  deriving DecidableEq

namespace Scheduler

def setTask (s : Scheduler) (task : TaskPtr) (f : Task → Task) : Scheduler :=
  { s with tasks := Function.update s.tasks task (f (s.tasks task)) }

def schedulerInit (s : Scheduler) : Scheduler :=
  { s with currentTask := none, readyHead := none, readyTail := none, kernelPml4Phys := s.cr3 }

def linkTail (s : Scheduler) (task : TaskPtr) : Scheduler :=
  match s.readyTail with
  | none => s
  | some tail => s.setTask tail fun t => { t with next := some task }

def appendReady (s : Scheduler) (task : TaskPtr) : Scheduler :=
  if s.readyHead = none then { s with readyHead := some task, readyTail := some task }
  else { s.linkTail task with readyTail := some task }

/-- `if (!ready_head) ready_tail = nullptr`. -/
def clearTail (s : Scheduler) : Scheduler := if s.readyHead = none then { s with readyTail := none } else s

/-- `ready_head = ready_head->next`, with the first task `head`, and the tail after it. -/
def popReady (s : Scheduler) (head : TaskPtr) : Scheduler := clearTail { s with readyHead := (s.tasks head).next }

def setState (s : Scheduler) (task : TaskPtr) (state : TaskState) : Scheduler :=
  s.setTask task fun t => { t with state }

def setNext (s : Scheduler) (task : TaskPtr) (next : Option TaskPtr) : Scheduler :=
  s.setTask task fun t => { t with next }

def tssSetKernelStack (s : Scheduler) (rsp0 : UInt64) : Scheduler := { s with rsp0 }

def vmmSwitchAddressSpace (s : Scheduler) (pml4Phys : UInt64) : Scheduler := { s with cr3 := pml4Phys }

def schedulerAddTask (s : Scheduler) : Option TaskPtr → Scheduler
  | none => s
  | some task => ((s.setState task .ready).setNext task none).appendReady task

/-- The queue and the tasks after `scheduler_start` has taken `nextTask`. -/
def startTask (s : Scheduler) (nextTask : TaskPtr) : Scheduler :=
  { ((s.popReady nextTask).setNext nextTask none).setState nextTask .running with currentTask := some nextTask }

def schedulerStart (s : Scheduler) : Scheduler × Option ContextSwitch :=
  match s.currentTask, s.readyHead with
  | none, some nextTask =>
    let s := s.startTask nextTask
    let s := s.tssSetKernelStack (s.tasks nextTask).kernelStackTop
    let pml4Phys := (s.tasks nextTask).pml4Phys
    let s := if pml4Phys ≠ 0 then s.vmmSwitchAddressSpace pml4Phys else s
    (s, some ⟨none, nextTask⟩)
  | _, _ => (s, none)

/-- The same for the branch of `scheduler_tick` that runs before any task is current. -/
def enterTask (s : Scheduler) (task : TaskPtr) : Scheduler :=
  ({ s with currentTask := some task }.popReady task).setState task .running

def firstEntry (s : Scheduler) : Scheduler × Option ContextSwitch :=
  match s.readyHead with
  | none => (s, none)
  | some task =>
    let s := s.enterTask task
    (s.tssSetKernelStack (s.tasks task).kernelStackTop, none)

/-- The current task goes to the end of the queue. -/
def requeue (s : Scheduler) (prevTask : TaskPtr) : Scheduler :=
  if (s.tasks prevTask).state = .running then
    ((s.setState prevTask .ready).setNext prevTask none).appendReady prevTask
  else s

def takeTask (s : Scheduler) (nextTask : TaskPtr) : Scheduler :=
  { (s.popReady nextTask).setState nextTask .running with currentTask := some nextTask }

def schedulerTick (s : Scheduler) : Scheduler × Option ContextSwitch :=
  match s.currentTask, s.readyHead with
  | none, _ => s.firstEntry
  | some _, none => (s, none)
  | some prevTask, some _ =>
    let s := s.requeue prevTask
    match s.readyHead with
    | none => (s, none)
    | some nextTask =>
      let s := s.takeTask nextTask
      let s := s.tssSetKernelStack (s.tasks nextTask).kernelStackTop
      let pml4Phys := (s.tasks nextTask).pml4Phys
      let s := s.vmmSwitchAddressSpace (if pml4Phys ≠ 0 then pml4Phys else s.kernelPml4Phys)
      (s, some ⟨some prevTask, nextTask⟩)

def taskYield (s : Scheduler) : Scheduler × Option ContextSwitch := s.schedulerTick

end Scheduler

end KernelOs
