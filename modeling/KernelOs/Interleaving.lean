import KernelOs.ReadyQueue
import Mathlib.Logic.Relation

/-!
# Timer interrupts inside the scheduler

`scheduler_start` and the `scheduler_tick` that `task_yield` runs, one statement at a
time, with interrupts on. The tick of a timer interrupt runs with interrupts off and
is one step. A task that is switched away from goes on, when it is switched to
again, with the rest of the path that it was on.
-/

namespace KernelOs
open Lib

/-- What the CPU does next: nothing of the scheduler's, or a statement of `scheduler_start`
(`start..`), of the first branch of `scheduler_tick` (`entry..`) or of the rest of it (`tick..`). -/
inductive Path where
  | idle
  | startTest
  | startReadHead
  | startPop (nextTask : TaskPtr)
  | startClearTail (nextTask : TaskPtr)
  | startUnlink (nextTask : TaskPtr)
  | startSetRunning (nextTask : TaskPtr)
  | startSetCurrent (nextTask : TaskPtr)
  | startSetStack (nextTask : TaskPtr)
  | startSwitchSpace (nextTask : TaskPtr)
  | startSwitch (nextTask : TaskPtr)
  | tickTestCurrent
  | entryTestHead
  | entrySetCurrent
  | entryPop
  | entryClearTail
  | entrySetRunning
  | entrySetStack
  | tickTestHead
  | tickReadCurrent
  | tickTestRunning (prevTask : TaskPtr)
  | tickSetReady (prevTask : TaskPtr)
  | tickUnlink (prevTask : TaskPtr)
  | tickTestEmpty (prevTask : TaskPtr)
  | tickSetHead (prevTask : TaskPtr)
  | tickLinkTail (prevTask : TaskPtr)
  | tickSetTail (prevTask : TaskPtr)
  | tickReadHead (prevTask : TaskPtr)
  | tickPop (prevTask nextTask : TaskPtr)
  | tickClearTail (prevTask nextTask : TaskPtr)
  | tickSetRunning (prevTask nextTask : TaskPtr)
  | tickSetCurrent (prevTask nextTask : TaskPtr)
  | tickSetStack (prevTask nextTask : TaskPtr)
  | tickSwitchSpace (prevTask nextTask : TaskPtr)
  | tickSwitch (prevTask nextTask : TaskPtr)
  deriving DecidableEq

namespace Path
open Scheduler

/-- `ready_head = ready_head->next`, undefined without a head. -/
def pop (s : Scheduler) : Option Scheduler :=
  s.readyHead.map fun head => { s with readyHead := (s.tasks head).next }

/-- One statement, with where the path goes on. Reading a null head into `next_task` is undefined
here, although only the statement after it dereferences the pointer. -/
def step (s : Scheduler) : Path → Option (Scheduler × Path)
  | idle => none
  | startTest => some (s, if s.currentTask ≠ none ∨ s.readyHead = none then idle else startReadHead)
  | startReadHead => s.readyHead.map fun nextTask => (s, startPop nextTask)
  | startPop nextTask => (pop s).map fun s => (s, startClearTail nextTask)
  | startClearTail nextTask => some (s.clearTail, startUnlink nextTask)
  | startUnlink nextTask => some (s.setNext nextTask none, startSetRunning nextTask)
  | startSetRunning nextTask => some (s.setState nextTask .running, startSetCurrent nextTask)
  | startSetCurrent nextTask => some ({ s with currentTask := some nextTask }, startSetStack nextTask)
  | startSetStack nextTask =>
    some (s.tssSetKernelStack (s.tasks nextTask).kernelStackTop, startSwitchSpace nextTask)
  | startSwitchSpace nextTask =>
    let pml4Phys := (s.tasks nextTask).pml4Phys
    some (if pml4Phys ≠ 0 then s.vmmSwitchAddressSpace pml4Phys else s, startSwitch nextTask)
  | startSwitch _ => none
  | tickTestCurrent => some (s, if s.currentTask = none then entryTestHead else tickTestHead)
  | entryTestHead => some (s, if s.readyHead = none then idle else entrySetCurrent)
  | entrySetCurrent => some ({ s with currentTask := s.readyHead }, entryPop)
  | entryPop => (pop s).map fun s => (s, entryClearTail)
  | entryClearTail => some (s.clearTail, entrySetRunning)
  | entrySetRunning => s.currentTask.map fun task => (s.setState task .running, entrySetStack)
  | entrySetStack => s.currentTask.map fun task => (s.tssSetKernelStack (s.tasks task).kernelStackTop, idle)
  | tickTestHead => some (s, if s.readyHead = none then idle else tickReadCurrent)
  | tickReadCurrent => s.currentTask.map fun prevTask => (s, tickTestRunning prevTask)
  | tickTestRunning prevTask =>
    some (s, if (s.tasks prevTask).state = .running then tickSetReady prevTask else tickReadHead prevTask)
  | tickSetReady prevTask => some (s.setState prevTask .ready, tickUnlink prevTask)
  | tickUnlink prevTask => some (s.setNext prevTask none, tickTestEmpty prevTask)
  | tickTestEmpty prevTask => some (s, if s.readyHead = none then tickSetHead prevTask else tickLinkTail prevTask)
  | tickSetHead prevTask => some ({ s with readyHead := some prevTask }, tickSetTail prevTask)
  | tickLinkTail prevTask => s.readyTail.map fun tail => (s.setNext tail (some prevTask), tickSetTail prevTask)
  | tickSetTail prevTask => some ({ s with readyTail := some prevTask }, tickReadHead prevTask)
  | tickReadHead prevTask => s.readyHead.map fun nextTask => (s, tickPop prevTask nextTask)
  | tickPop prevTask nextTask => (pop s).map fun s => (s, tickClearTail prevTask nextTask)
  | tickClearTail prevTask nextTask => some (s.clearTail, tickSetRunning prevTask nextTask)
  | tickSetRunning prevTask nextTask => some (s.setState nextTask .running, tickSetCurrent prevTask nextTask)
  | tickSetCurrent prevTask nextTask =>
    some ({ s with currentTask := some nextTask }, tickSetStack prevTask nextTask)
  | tickSetStack prevTask nextTask =>
    some (s.tssSetKernelStack (s.tasks nextTask).kernelStackTop, tickSwitchSpace prevTask nextTask)
  | tickSwitchSpace prevTask nextTask =>
    let pml4Phys := (s.tasks nextTask).pml4Phys
    some (s.vmmSwitchAddressSpace (if pml4Phys ≠ 0 then pml4Phys else s.kernelPml4Phys),
      tickSwitch prevTask nextTask)
  | tickSwitch _ _ => none

def switch : Path → Option ContextSwitch
  | startSwitch nextTask => some ⟨none, nextTask⟩
  | tickSwitch prevTask nextTask => some ⟨some prevTask, nextTask⟩
  | _ => none

/-- Between the first statement of a call that changes a variable or a task's state, and the last
that changes the queue, a state or `current_task`. -/
def midway : Path → Bool
  | startReadHead | startPop _ | startClearTail _ | startUnlink _ | startSetRunning _ | startSetCurrent _ => true
  | entrySetCurrent | entryPop | entryClearTail | entrySetRunning => true
  | tickUnlink _ | tickTestEmpty _ | tickSetHead _ | tickLinkTail _ | tickSetTail _ | tickReadHead _ => true
  | tickPop _ _ | tickClearTail _ _ | tickSetRunning _ _ | tickSetCurrent _ _ => true
  | _ => false

end Path

/-! ## Runs -/

/-- The scheduler, the path that the CPU is on, the paths that the tasks' saved contexts go on
with, and the tasks added so far. -/
structure Interleaving where
  scheduler : Scheduler
  path : Path
  saved : TaskPtr → Path
  added : List TaskPtr

inductive InterleavingEvent where
  | addTask (task : TaskPtr)
  | callStart
  | callYield
  | statement
  | interrupt

namespace Interleaving

/-- `context_switch` by a path of which `rest` is left. -/
def contextSwitch (w : Interleaving) (rest : Path) : Option ContextSwitch → Interleaving
  | none => { w with path := rest }
  | some ⟨oldTask, newTask⟩ =>
    let saved := match oldTask with
      | none => w.saved
      | some oldTask => Function.update w.saved oldTask rest
    { w with path := saved newTask, saved }

/-- The next state, if the event is possible. -/
def next (w : Interleaving) : InterleavingEvent → Option Interleaving
  | .addTask task =>
    if w.path = .idle then
      some { w with scheduler := w.scheduler.schedulerAddTask (some task), added := w.added ++ [task] }
    else none
  | .callStart => if w.path = .idle then some { w with path := .startTest } else none
  | .callYield => if w.path = .idle then some { w with path := .tickTestCurrent } else none
  | .statement =>
    if w.path.switch ≠ none then some (w.contextSwitch .idle w.path.switch)
    else (w.path.step w.scheduler).map fun (scheduler, path) => { w with scheduler, path }
  | .interrupt =>
    let (scheduler, switch) := w.scheduler.schedulerTick
    some ({ w with scheduler }.contextSwitch w.path switch)

def init (s : Scheduler) : Interleaving := ⟨s.schedulerInit, .idle, fun _ => .idle, []⟩

end Interleaving

/-- Only tasks that are neither queued nor current are added. -/
def InterleavingStep (w : Interleaving) (e : InterleavingEvent) (w' : Interleaving) : Prop :=
  w.next e = some w' ∧ ∀ t, e = .addTask t → w.scheduler.currentTask ≠ some t ∧ ¬ w.scheduler.IsQueued t

/-- A tick here meets half-updated variables. The second test of the first branch counts as well when
two tasks wait: the tick makes one of them current, and the path goes on to make the other one so. -/
def Interleaving.Exposed (w : Interleaving) : Prop :=
  w.scheduler.readyHead ≠ none ∧ (w.path.midway ∨
    w.path = .entryTestHead ∧ w.scheduler.readyHead.bind (fun head => (w.scheduler.tasks head).next) ≠ none)

/-- Every call that was started has done its bookkeeping. -/
def Interleaving.Settled (w : Interleaving) : Prop := w.path.midway = false ∧ ∀ t, (w.saved t).midway = false

/-- Every task added is current or queued, once. -/
def Interleaving.KeepsTasks (w : Interleaving) : Prop :=
  ∃ q, Seg (fun t => (w.scheduler.tasks t).next) w.scheduler.readyHead q none ∧
    (w.scheduler.currentTask.toList ++ q).Perm w.added ∧ w.added.Nodup

/-- A step at which no timer interrupt meets half-updated variables. -/
def ShieldedStep (w : Interleaving) (e : InterleavingEvent) (w' : Interleaving) : Prop :=
  InterleavingStep w e w' ∧ (e = .interrupt → ¬ w.Exposed)

/-! ## What holds on every path -/

namespace Path
open Scheduler

/-- A point at which `task`, if it is current, may be switched away from. -/
def Rests (task : TaskPtr) : Path → Prop
  | idle | startTest | tickTestCurrent | tickTestHead | tickReadCurrent | entrySetStack => True
  | tickTestRunning t | tickSetReady t => t = task
  | startSetStack t | startSwitchSpace t | startSwitch t => t = task
  | tickSetStack _ t | tickSwitchSpace _ t | tickSwitch _ t => t = task
  | _ => False

/-- The path has seen a task waiting and relies on it. -/
def ExpectsTask : Path → Prop
  | tickReadCurrent | tickTestRunning _ | tickSetReady _ => True
  | _ => False

/-- Where a path can be while no task is current and the variables are in order. -/
def Early : Path → Prop
  | idle | startTest | tickTestCurrent | entryTestHead => True
  | _ => False

/-- Undisturbed, a path goes on to the end of its bookkeeping. -/
inductive Finishes : Scheduler → Path → Scheduler → Path → Prop
  | done {s : Scheduler} {p : Path} : p.midway = false → Finishes s p s p
  | step {s s' : Scheduler} {p p' : Path} (s₁ : Scheduler) (p₁ : Path) : p.midway = true →
      p.step s = some (s₁, p₁) →
      Finishes s₁ p₁ s' p' → Finishes s p s' p'

variable {s s₁ s' : Scheduler} {p p₁ p' : Path} {t c : TaskPtr} {l : List TaskPtr}

theorem Finishes.next (h : Finishes s p s' p') (hmid : p.midway = true) (hs : p.step s = some (s₁, p₁)) :
    Finishes s₁ p₁ s' p' := by
  cases h with
  | done hp => rw [hmid] at hp; cases hp
  | step _ _ _ hs' h =>
    obtain ⟨rfl, rfl⟩ := Prod.mk.inj (Option.some.inj (hs.symm.trans hs'))
    exact h

theorem pop_eq (hhead : s.readyHead = some t) : pop s = some { s with readyHead := (s.tasks t).next } := by
  rw [pop, hhead]
  rfl

theorem finishes_start (h : s.Queued (t :: l)) : Finishes s startReadHead (s.startTask t) (startSetStack t) := by
  have hhead : s.readyHead = some t := h.seg.1
  refine .step s (startPop t) rfl (congrArg (Option.map _) hhead) ?_
  refine .step { s with readyHead := (s.tasks t).next }
    (startClearTail t) rfl (congrArg (Option.map _) (pop_eq hhead)) ?_
  exact .step _ _ rfl rfl (.step _ _ rfl rfl (.step _ _ rfl rfl (.step _ _ rfl rfl (.done rfl))))

theorem finishes_entry (h : s.Queued (t :: l)) : Finishes s entrySetCurrent (s.enterTask t) entrySetStack := by
  have hhead : s.readyHead = some t := h.seg.1
  have hcur := (popReady_rest { s with currentTask := some t } t).2.1
  refine .step { s with currentTask := some t } entryPop rfl (by rw [step, hhead]) ?_
  refine .step { s with currentTask := some t, readyHead := (s.tasks t).next } entryClearTail rfl ?_ ?_
  · exact congrArg (Option.map _) (pop_eq (s := { s with currentTask := some t }) hhead)
  refine .step _ _ rfl rfl (.step _ _ rfl (congrArg (Option.map _) hcur) (.done rfl))

theorem requeue_eq (h : s.Represents ⟨some c, t :: l⟩) : ∃ tail, s.readyTail = some tail ∧
    s.requeue c = { ((s.setState c .ready).setNext c none).setNext tail (some c) with readyTail := some c } := by
  have htail : s.readyTail = some ((t :: l).getLast (List.cons_ne_nil t l)) := by
    rw [h.queued.tail, List.getLast?_eq_some_getLast]
  refine ⟨_, htail, ?_⟩
  have hhead : ((s.setState c .ready).setNext c none).readyHead ≠ none := by
    rw [show ((s.setState c .ready).setNext c none).readyHead = some t from h.queued.seg.1]
    exact Option.some_ne_none t
  rw [requeue, if_pos (h.running c rfl), appendReady, if_neg hhead, linkTail,
    show ((s.setState c .ready).setNext c none).readyTail = _ from htail]
  rfl

theorem finishes_tick (h : s.Represents ⟨some c, t :: l⟩) :
    Finishes (s.setState c .ready) (tickUnlink c) ((s.requeue c).takeTask t) (tickSetStack c t) := by
  have hhead : s.readyHead = some t := h.queued.seg.1
  have hhead' : (s.requeue c).readyHead = some t := (h.requeue rfl).seg.1
  obtain ⟨tail, htail, he⟩ := requeue_eq h
  rw [he] at hhead' ⊢
  let s₂ := (s.setState c .ready).setNext c none
  have hhead₂ : s₂.readyHead ≠ none := by
    rw [show s₂.readyHead = some t from hhead]
    exact Option.some_ne_none t
  let s₃ := s₂.setNext tail (some c)
  refine .step s₂ (tickTestEmpty c) rfl rfl (.step s₂ (tickLinkTail c) rfl ?_ (.step s₃ (tickSetTail c) rfl ?_ ?_))
  · exact congrArg (fun p => some (s₂, p)) (if_neg hhead₂)
  · exact congrArg (Option.map _) htail
  refine .step { s₃ with readyTail := some c } (tickReadHead c) rfl rfl ?_
  refine .step _ (tickPop c t) rfl (congrArg (Option.map _) hhead') ?_
  refine .step _ (tickClearTail c t) rfl (congrArg (Option.map _) (pop_eq hhead')) ?_
  exact .step _ _ rfl rfl (.step _ _ rfl rfl (.step _ _ rfl rfl (.done rfl)))

theorem Finishes.of_rest (h : Finishes s p s' p') (hp : p.midway = false) : s' = s ∧ p' = p := by
  cases h with
  | done => exact ⟨rfl, rfl⟩
  | step _ _ hmid => rw [hp] at hmid; cases hmid

def Steps : Scheduler × Path → Scheduler × Path → Prop := Relation.ReflTransGen fun a b => a.2.step a.1 = some b

theorem Steps.head {a b c : Scheduler × Path} (h : a.2.step a.1 = some b) (hs : Steps b c) : Steps a c :=
  Relation.ReflTransGen.head h hs

theorem Finishes.steps (h : Finishes s p s' p') : Steps (s, p) (s', p') := by
  induction h with
  | done => exact Relation.ReflTransGen.refl
  | step _ _ _ hs _ ih => exact Steps.head hs ih

/-- Its statements without an interrupt are `scheduler_start`. -/
theorem start_steps {r : RoundRobin TaskPtr} (h : s.Represents r) :
    ∃ p, Steps (s, startTest) (s.schedulerStart.1, p) ∧ p.switch = s.schedulerStart.2 ∧ ∀ s', p.step s' = none := by
  unfold schedulerStart
  cases hcur : s.currentTask with
  | some c =>
    exact ⟨idle, Steps.head (congrArg (fun p => some (s, p)) (if_pos (Or.inl (by simp [hcur])))) .refl,
      rfl, fun _ => rfl⟩
  | none =>
  cases hhead : s.readyHead with
  | none =>
    exact ⟨idle, Steps.head (congrArg (fun p => some (s, p)) (if_pos (Or.inr hhead))) .refl, rfl, fun _ => rfl⟩
  | some t =>
    obtain ⟨l, hready⟩ := h.queued.eq_cons hhead
    refine ⟨startSwitch t, Steps.head (congrArg (fun p => some (s, p)) (if_neg (by simp [hcur, hhead]))) ?_,
      rfl, fun _ => rfl⟩
    refine Relation.ReflTransGen.trans (finishes_start (hready ▸ h.queued)).steps ?_
    exact Steps.head rfl (Steps.head rfl .refl)

/-- And those of `task_yield`. -/
theorem yield_steps {r : RoundRobin TaskPtr} (h : s.Represents r) :
    ∃ p, Steps (s, tickTestCurrent) (s.taskYield.1, p) ∧ p.switch = s.taskYield.2 ∧ ∀ s', p.step s' = none := by
  unfold taskYield schedulerTick
  cases hcur : s.currentTask with
  | none =>
    refine ⟨idle, Steps.head (congrArg (fun p => some (s, p)) (if_pos hcur)) ?_, ?_, fun _ => rfl⟩
    · unfold firstEntry
      cases hhead : s.readyHead with
      | none => exact Steps.head (congrArg (fun p => some (s, p)) (if_pos hhead)) .refl
      | some t =>
        obtain ⟨l, hready⟩ := h.queued.eq_cons hhead
        refine Steps.head (congrArg (fun p => some (s, p)) (if_neg (by simp [hhead]))) ?_
        refine Relation.ReflTransGen.trans (finishes_entry (hready ▸ h.queued)).steps (Steps.head ?_ .refl)
        exact congrArg (Option.map _) (popReady_rest { s with currentTask := some t } t).2.1
    · exact (h.firstEntry (h.current.symm.trans hcur)).2.symm
  | some c =>
  cases hhead : s.readyHead with
  | none =>
    refine ⟨idle, Steps.head (congrArg (fun p => some (s, p)) (if_neg (by simp [hcur]))) ?_, rfl, fun _ => rfl⟩
    exact Steps.head (congrArg (fun p => some (s, p)) (if_pos hhead)) .refl
  | some t =>
    obtain ⟨l, hready⟩ := h.queued.eq_cons hhead
    have hc : r.current = some c := h.current.symm.trans hcur
    have hr : s.Represents ⟨some c, t :: l⟩ := by
      rw [← hc, ← hready]
      exact h
    simp only [(hr.requeue rfl).seg.1]
    refine ⟨tickSwitch c t, Steps.head (congrArg (fun p => some (s, p)) (if_neg (by simp [hcur]))) ?_,
      rfl, fun _ => rfl⟩
    refine Steps.head (congrArg (fun p => some (s, p)) (if_neg (by simp [hhead]))) ?_
    refine Steps.head (congrArg (Option.map _) hcur) ?_
    refine Steps.head (congrArg (fun p => some (s, p)) (if_pos (hr.running c rfl))) (Steps.head rfl ?_)
    refine Relation.ReflTransGen.trans (finishes_tick hr).steps ?_
    exact Steps.head rfl (Steps.head rfl .refl)

def At (p : Path) (r : RoundRobin TaskPtr) : Prop :=
  match r.current with
  | none => p.Early
  | some c => p.Rests c ∧ (p.ExpectsTask → r.ready ≠ []) ∨ p = .entryTestHead ∧ r.ready = []

theorem at_of_rests {r : RoundRobin TaskPtr} (hcur : r.current = some c) (h : p.Rests c)
    (hq : p.ExpectsTask → r.ready ≠ []) :
    p.At r := by
  unfold At
  rw [hcur]
  exact Or.inl ⟨h, hq⟩

theorem Rests.midway_eq (h : p.Rests t) : p.midway = false := by
  cases p <;> first | rfl | exact h.elim

theorem at_idle (r : RoundRobin TaskPtr) : idle.At r := by
  unfold At
  split
  · trivial
  · exact Or.inl ⟨trivial, fun h => h.elim⟩

variable {r : RoundRobin TaskPtr}

theorem At.early (h : p.At r) (hcur : r.current = none) : p.Early := by
  unfold At at h
  rwa [hcur] at h

theorem At.rests (h : p.At r) (hcur : r.current = some c) (hp : p ≠ entryTestHead ∨ r.ready ≠ []) :
    p.Rests c ∧ (p.ExpectsTask → r.ready ≠ []) := by
  unfold At at h
  rw [hcur] at h
  rcases h with h | ⟨hp', hr⟩
  · exact h
  · exact (hp.elim (fun hp => hp hp') fun hp => hp hr).elim

theorem At.exists_current (h : p.At r) (hp : ¬ p.Early) :
    ∃ c, r.current = some c ∧ p.Rests c ∧ (p.ExpectsTask → r.ready ≠ []) := by
  cases hcur : r.current with
  | none => exact (hp (h.early hcur)).elim
  | some c => exact ⟨c, rfl, h.rests hcur (Or.inl fun hc => hp (hc ▸ trivial))⟩

theorem Early.at_dispatch (h : p.Early) (hl : p = entryTestHead → l = []) : p.At ⟨some t, l⟩ := by
  cases p with
  | idle => exact at_idle _
  | startTest => exact Or.inl ⟨trivial, fun h => h.elim⟩
  | tickTestCurrent => exact Or.inl ⟨trivial, fun h => h.elim⟩
  | entryTestHead => exact Or.inr ⟨rfl, hl rfl⟩
  | _ => exact h.elim

def Ends (s : Scheduler) (p : Path) (r : RoundRobin TaskPtr) : Prop :=
  ∃ s' p', p.Finishes s s' p' ∧ s'.Represents r ∧ p'.At r

theorem Ends.of_rests (hr : s.Represents r) (hcur : r.current = some c) (h : p.Rests c)
    (hq : p.ExpectsTask → r.ready ≠ []) :
    Ends s p r :=
  ⟨s, p, .done h.midway_eq, hr, at_of_rests hcur h hq⟩

theorem Ends.idle (hr : s.Represents r) : Ends s idle r := ⟨s, .idle, .done rfl, hr, at_idle r⟩

end Path

namespace Interleaving
open KernelOs.Path Scheduler

structure SavedPaths (saved : TaskPtr → Path) (r : RoundRobin TaskPtr) : Prop where
  rests : ∀ t, (saved t).Rests t
  expects : ∀ t, (saved t).ExpectsTask → r.ready ≠ []
  fresh : r.current = none → ∀ t, saved t = .idle

/-- With no further interrupt, the call in progress leads to `r`. -/
structure Heads (w : Interleaving) (r : RoundRobin TaskPtr) : Prop where
  members : r.members.Perm w.added
  saved : SavedPaths w.saved r
  ends : Ends w.scheduler w.path r

variable {w w' : Interleaving} {r r' : RoundRobin TaskPtr} {s' : Scheduler} {p : Path} {c t : TaskPtr}
  {l : List TaskPtr}

theorem Heads.rest (h : w.Heads r) (hp : w.path.midway = false) : w.scheduler.Represents r ∧ w.path.At r := by
  obtain ⟨s', p', hf, hr, hat⟩ := h.ends
  obtain ⟨rfl, rfl⟩ := hf.of_rest hp
  exact ⟨hr, hat⟩

theorem SavedPaths.dispatch {saved : TaskPtr → Path} (h : SavedPaths saved r) (hcur : r.current = none) :
    SavedPaths saved ⟨some t, l⟩ where
  rests := h.rests
  expects u hu := by
    rw [h.fresh hcur u] at hu
    cases hu
  fresh hc := by cases hc

theorem dispatch_eq (hcur : r.current = none) (hready : r.ready = t :: l) : r.dispatch = ⟨some t, l⟩ := by
  rw [RoundRobin.dispatch, hcur, hready]

theorem rotate_eq (hcur : r.current = some c) (hready : r.ready = t :: l) : r.rotate = ⟨some t, l ++ [c]⟩ := by
  rw [RoundRobin.rotate, hcur, hready]
  rfl

/-- A statement between the calls' bookkeeping, or the first of it. -/
theorem rest_step {s : Scheduler} {q : Path} (hr : s.Represents r) (hat : q.At r) (hmid : q.midway = false)
    (hs : q.step s = some (s', p)) :
    Ends s' p r ∨ Ends s' p r.dispatch ∨ r.current ≠ none ∧ Ends s' p r.rotate := by
  cases q with
  | idle => cases hs
  | startTest =>
    obtain ⟨rfl, rfl⟩ := Prod.mk.inj (Option.some.inj hs)
    split
    · exact Or.inl (Ends.idle hr)
    · next hcond =>
      obtain ⟨hnone, hhead⟩ := not_or.mp hcond
      obtain ⟨t, ht⟩ := Option.ne_none_iff_exists'.mp hhead
      obtain ⟨l, hready⟩ := hr.queued.eq_cons ht
      have hq : s.Queued (t :: l) := hready ▸ hr.queued
      rw [dispatch_eq (hr.current.symm.trans (not_not.mp hnone)) hready]
      exact Or.inr (Or.inl ⟨_, _, finishes_start hq, hq.startTask, at_of_rests rfl rfl fun h => h.elim⟩)
  | startSetStack t =>
    obtain ⟨rfl, rfl⟩ := Prod.mk.inj (Option.some.inj hs)
    obtain ⟨c, hcur, rfl, -⟩ := hat.exists_current id
    exact Or.inl (Ends.of_rests (hr.congr rfl rfl rfl rfl) hcur rfl fun h => h.elim)
  | startSwitchSpace t =>
    obtain ⟨rfl, rfl⟩ := Prod.mk.inj (Option.some.inj hs)
    obtain ⟨c, hcur, rfl, -⟩ := hat.exists_current id
    refine Or.inl (Ends.of_rests ?_ hcur rfl fun h => h.elim)
    split <;> exact hr.congr rfl rfl rfl rfl
  | startSwitch t => cases hs
  | tickTestCurrent =>
    obtain ⟨rfl, rfl⟩ := Prod.mk.inj (Option.some.inj hs)
    split
    · next hnone =>
      refine Or.inl ⟨_, _, .done rfl, hr, ?_⟩
      unfold At
      rw [hr.current.symm.trans hnone]
      trivial
    · next hsome =>
      obtain ⟨c, hcur⟩ := Option.ne_none_iff_exists'.mp hsome
      exact Or.inl (Ends.of_rests hr (hr.current.symm.trans hcur) trivial fun h => h.elim)
  | entryTestHead =>
    obtain ⟨rfl, rfl⟩ := Prod.mk.inj (Option.some.inj hs)
    split
    · exact Or.inl (Ends.idle hr)
    · next hhead =>
      obtain ⟨t, ht⟩ := Option.ne_none_iff_exists'.mp hhead
      obtain ⟨l, hready⟩ := hr.queued.eq_cons ht
      have hq : s.Queued (t :: l) := hready ▸ hr.queued
      have hnone : r.current = none := by
        by_contra hsome
        obtain ⟨c, hcur⟩ := Option.ne_none_iff_exists'.mp hsome
        exact (hat.rests hcur (Or.inr (by simp [hready]))).1
      rw [dispatch_eq hnone hready]
      exact Or.inr (Or.inl ⟨_, _, finishes_entry hq, hq.enterTask, at_of_rests rfl trivial fun h => h.elim⟩)
  | entrySetStack =>
    obtain ⟨c, -, he⟩ := Option.map_eq_some_iff.mp hs
    obtain ⟨rfl, rfl⟩ := Prod.mk.inj he
    exact Or.inl (Ends.idle (hr.congr rfl rfl rfl rfl))
  | tickTestHead =>
    obtain ⟨rfl, rfl⟩ := Prod.mk.inj (Option.some.inj hs)
    obtain ⟨c, hcur, -⟩ := hat.exists_current id
    split
    · exact Or.inl (Ends.idle hr)
    · next hhead =>
        exact Or.inl (Ends.of_rests hr hcur trivial fun _ hc => hhead (hr.queued.head_eq_none_iff.mpr hc))
  | tickReadCurrent =>
    obtain ⟨c, hcur, -, hexp⟩ := hat.exists_current id
    obtain ⟨u, hu, he⟩ := Option.map_eq_some_iff.mp hs
    obtain ⟨rfl, rfl⟩ := Prod.mk.inj he
    exact Or.inl (Ends.of_rests hr (hr.current.symm.trans hu) rfl fun _ => hexp trivial)
  | tickTestRunning t =>
    obtain ⟨rfl, rfl⟩ := Prod.mk.inj (Option.some.inj hs)
    obtain ⟨c, hcur, rfl, hexp⟩ := hat.exists_current id
    rw [if_pos (hr.running t hcur)]
    exact Or.inl (Ends.of_rests hr hcur rfl fun _ => hexp trivial)
  | tickSetReady t =>
    obtain ⟨rfl, rfl⟩ := Prod.mk.inj (Option.some.inj hs)
    obtain ⟨c, hcur, rfl, hexp⟩ := hat.exists_current id
    obtain ⟨u, l, hready⟩ := List.exists_cons_of_ne_nil (hexp trivial)
    have hq : (s.requeue t).Queued (u :: (l ++ [t])) := by
      rw [← List.cons_append, ← hready]
      exact hr.requeue hcur
    have hr' : s.Represents ⟨some t, u :: l⟩ := by
      rw [← hcur, ← hready]
      exact hr
    refine Or.inr (Or.inr ⟨by simp [hcur], ?_⟩)
    rw [rotate_eq hcur hready]
    exact ⟨_, _, finishes_tick hr', hq.takeTask, at_of_rests rfl rfl fun h => h.elim⟩
  | tickSetStack u t =>
    obtain ⟨rfl, rfl⟩ := Prod.mk.inj (Option.some.inj hs)
    obtain ⟨c, hcur, rfl, -⟩ := hat.exists_current id
    exact Or.inl (Ends.of_rests (hr.congr rfl rfl rfl rfl) hcur rfl fun h => h.elim)
  | tickSwitchSpace u t =>
    obtain ⟨rfl, rfl⟩ := Prod.mk.inj (Option.some.inj hs)
    obtain ⟨c, hcur, rfl, -⟩ := hat.exists_current id
    exact Or.inl (Ends.of_rests (hr.congr rfl rfl rfl rfl) hcur rfl fun h => h.elim)
  | tickSwitch u t => cases hs
  | _ => exact Bool.noConfusion hmid

theorem SavedPaths.dispatch_self {saved : TaskPtr → Path} (h : SavedPaths saved r) :
    SavedPaths saved r.dispatch := by
  unfold RoundRobin.dispatch
  split
  · next hcur _ => exact h.dispatch hcur
  · exact h

theorem SavedPaths.rotate {saved : TaskPtr → Path} (h : SavedPaths saved r) (hcur : r.current = some c) :
    SavedPaths saved r.rotate := by
  cases hready : r.ready with
  | nil =>
    unfold RoundRobin.rotate
    rw [hready]
    exact h
  | cons t l =>
    rw [rotate_eq hcur hready]
    exact ⟨h.rests, fun _ _ => by simp, fun hc => by cases hc⟩

theorem SavedPaths.save {saved : TaskPtr → Path} (h : SavedPaths saved r) (hp : p.Rests c)
    (hcur : r'.current ≠ none) (hr : r'.ready ≠ []) : SavedPaths (Function.update saved c p) r' where
  rests u := by
    by_cases hu : u = c
    · subst hu
      rwa [Function.update_self]
    · rw [Function.update_of_ne hu]
      exact h.rests u
  expects _ _ := hr
  fresh hc := absurd hc hcur

theorem SavedPaths.save_idle {saved : TaskPtr → Path} (h : SavedPaths saved r) (c : TaskPtr) :
    SavedPaths (Function.update saved c .idle) r := by
  refine ⟨fun u => ?_, fun u hu => ?_, fun hcur u => ?_⟩ <;> by_cases huc : u = c
  · rw [huc, Function.update_self]
    trivial
  · rw [Function.update_of_ne huc]
    exact h.rests u
  · rw [huc, Function.update_self] at hu
    exact hu.elim
  · rw [Function.update_of_ne huc] at hu
    exact h.expects u hu
  · rw [huc, Function.update_self]
  · rw [Function.update_of_ne huc]
    exact h.fresh hcur u

theorem not_exposed_entry (hq : w.scheduler.Queued (t :: l)) (hsafe : ¬ w.Exposed)
    (hp : w.path = .entryTestHead) : l = [] := by
  have hhead : w.scheduler.readyHead = some t := hq.seg.1
  have hnext : (w.scheduler.tasks t).next = none := by
    by_contra hc
    exact hsafe ⟨by simp [hhead], Or.inr ⟨hp, by rwa [hhead]⟩⟩
  exact hq.seg.2.eq_none_iff.mp hnext

/-- A tick between the calls of the scheduler, or while nothing waits. -/
theorem Heads.interrupt (h : w.Heads r) (hsafe : ¬ w.Exposed) (hs : w.next .interrupt = some w') :
    ∃ r', w'.Heads r' := by
  have hw : w' = Interleaving.contextSwitch
      { w with scheduler := w.scheduler.schedulerTick.1 } w.path w.scheduler.schedulerTick.2 :=
    (Option.some.inj hs).symm
  by_cases hhead : w.scheduler.readyHead = none
  · -- nothing waits and nothing happens
    rw [hw, schedulerTick_of_none hhead]
    exact ⟨r, h⟩
  have hmid : w.path.midway = false := by
    by_contra hc
    exact hsafe ⟨hhead, Or.inl (by simpa using hc)⟩
  obtain ⟨hr, hat⟩ := h.rest hmid
  obtain ⟨htick, hswitch⟩ := hr.tick
  rw [hw, hswitch]
  obtain ⟨t, ht⟩ := Option.ne_none_iff_exists'.mp hhead
  obtain ⟨l, hready⟩ := hr.queued.eq_cons ht
  cases hcur : r.current with
  | none =>
    rw [RoundRobin.rotate_eq_dispatch hcur, dispatch_eq hcur hready] at htick
    refine ⟨⟨some t, l⟩, ?_, h.saved.dispatch hcur, _, w.path, .done hmid, htick, ?_⟩
    · rw [← dispatch_eq hcur hready, RoundRobin.members_dispatch]
      exact h.members
    · exact (hat.early hcur).at_dispatch (not_exposed_entry (hready ▸ hr.queued) hsafe)
  | some c =>
    rw [rotate_eq hcur hready] at htick
    rw [hready]
    have hperm : RoundRobin.members ⟨some t, l ++ [c]⟩ |>.Perm w.added := by
      rw [← rotate_eq hcur hready]
      exact RoundRobin.members_rotate.trans h.members
    have hne : t ≠ c := by
      rintro rfl
      exact hr.current_notMem hcur (by simp [hready])
    have hpath : Function.update w.saved c w.path t = w.saved t := Function.update_of_ne hne ..
    obtain ⟨hrests, -⟩ := hat.rests hcur (by simp [hready])
    have hsaved : SavedPaths _ ⟨some t, l ++ [c]⟩ := h.saved.save hrests (by simp) (by simp)
    refine ⟨⟨some t, l ++ [c]⟩, hperm, hsaved, _, _, .done ?_, htick, ?_⟩
    · exact (hsaved.rests t).midway_eq
    · exact at_of_rests rfl (hsaved.rests t) (hsaved.expects t)

theorem SavedPaths.add {saved : TaskPtr → Path} (h : SavedPaths saved r) (t : TaskPtr) :
    SavedPaths saved (r.add t) where
  rests := h.rests
  expects _ _ := by simp [RoundRobin.add]
  fresh := h.fresh

theorem Heads.add (h : w.Heads r) (hidle : w.path = .idle) (hcur : w.scheduler.currentTask ≠ some t)
    (hq : ¬ w.scheduler.IsQueued t) :
    Heads { w with scheduler := w.scheduler.schedulerAddTask (some t), added := w.added ++ [t] } (r.add t) := by
  obtain ⟨hr, -⟩ := h.rest (hidle ▸ rfl)
  have ht : t ∉ r.members := by
    rw [RoundRobin.members, List.mem_append, not_or]
    refine ⟨fun hc => hcur ?_, fun hc => hq (hr.queued.isQueued_iff.mpr hc)⟩
    rw [hr.current, Option.mem_toList.mp hc]
  refine ⟨?_, h.saved.add t, ?_⟩
  · rw [RoundRobin.members_add]
    exact h.members.append_right [t]
  · rw [hidle]
    exact Ends.idle (hr.add ht)

theorem Heads.call (h : w.Heads r) (hidle : w.path = .idle) (hp : p = .startTest ∨ p = .tickTestCurrent) :
    Heads { w with path := p } r := by
  obtain ⟨hr, -⟩ := h.rest (hidle ▸ rfl)
  refine ⟨h.members, h.saved, w.scheduler, p, .done ?_, hr, ?_⟩
  · rcases hp with rfl | rfl <;> rfl
  · unfold At
    split
    · rcases hp with rfl | rfl <;> trivial
    · rcases hp with rfl | rfl <;> exact Or.inl ⟨trivial, fun h => h.elim⟩

theorem Heads.contextSwitch (h : w.Heads r) (hp : w.path.switch ≠ none) :
    (w.contextSwitch .idle w.path.switch).Heads r := by
  have hmid : w.path.midway = false := by
    cases he : w.path <;> rw [he] at hp <;> first | rfl | exact absurd rfl hp
  obtain ⟨hr, hat⟩ := h.rest hmid
  have hresume : ∀ {c : TaskPtr} {saved : TaskPtr → Path}, r.current = some c → SavedPaths saved r →
      Heads { w with path := saved c, saved } r := fun hcur hsaved =>
    ⟨h.members, hsaved, Ends.of_rests hr hcur (hsaved.rests _) (hsaved.expects _)⟩
  cases he : w.path with
  | startSwitch t =>
    rw [he] at hat
    obtain ⟨c, hcur, rfl, -⟩ := hat.exists_current id
    exact hresume hcur h.saved
  | tickSwitch u t =>
    rw [he] at hat
    obtain ⟨c, hcur, rfl, -⟩ := hat.exists_current id
    exact hresume hcur (h.saved.save_idle u)
  | _ => rw [he] at hp; exact absurd rfl hp

theorem Heads.statement (h : w.Heads r) (hs : w.path.step w.scheduler = some (s', p)) :
    ∃ r', Heads { w with scheduler := s', path := p } r' := by
  cases hmid : w.path.midway with
  | true =>
    obtain ⟨s₁, p₁, hf, hr, hat⟩ := h.ends
    exact ⟨r, h.members, h.saved, s₁, p₁, hf.next hmid hs, hr, hat⟩
  | false =>
    obtain ⟨hr, hat⟩ := h.rest hmid
    obtain hends | hends | ⟨hcur, hends⟩ := rest_step hr hat hmid hs
    · exact ⟨r, h.members, h.saved, hends⟩
    · refine ⟨r.dispatch, ?_, h.saved.dispatch_self, hends⟩
      rw [RoundRobin.members_dispatch]
      exact h.members
    · obtain ⟨c, hc⟩ := Option.ne_none_iff_exists'.mp hcur
      exact ⟨r.rotate, RoundRobin.members_rotate.trans h.members, h.saved.rotate hc, hends⟩

theorem Heads.step {e : InterleavingEvent} (h : w.Heads r) (hs : InterleavingStep w e w')
    (hsafe : e = .interrupt → ¬ w.Exposed) :
    ∃ r', w'.Heads r' := by
  obtain ⟨hs, hadd⟩ := hs
  cases e with
  | addTask t =>
    obtain ⟨hidle, he⟩ := Option.ite_none_right_eq_some.mp hs
    obtain rfl := Option.some.inj he
    exact ⟨r.add t, h.add hidle (hadd t rfl).1 (hadd t rfl).2⟩
  | callStart =>
    obtain ⟨hidle, he⟩ := Option.ite_none_right_eq_some.mp hs
    obtain rfl := Option.some.inj he
    exact ⟨r, h.call hidle (Or.inl rfl)⟩
  | callYield =>
    obtain ⟨hidle, he⟩ := Option.ite_none_right_eq_some.mp hs
    obtain rfl := Option.some.inj he
    exact ⟨r, h.call hidle (Or.inr rfl)⟩
  | statement =>
    unfold next at hs
    simp only at hs
    split at hs
    · next hp =>
      obtain rfl := Option.some.inj hs
      exact ⟨r, h.contextSwitch hp⟩
    · obtain ⟨⟨s', p⟩, hstep, rfl⟩ := Option.map_eq_some_iff.mp hs
      exact h.statement hstep
  | interrupt => exact h.interrupt (hsafe rfl) hs

theorem heads_init (s : Scheduler) : (init s).Heads RoundRobin.empty where
  members := List.Perm.refl _
  saved := ⟨fun _ => trivial, fun _ h => h.elim, fun _ _ => rfl⟩
  ends := Ends.idle (represents_init s)

theorem Heads.keepsTasks (h : w.Heads r) (hp : w.path.midway = false) : w.KeepsTasks := by
  obtain ⟨hr, -⟩ := h.rest hp
  refine ⟨r.ready, hr.queued.seg, ?_, h.members.nodup_iff.mp hr.nodup⟩
  rw [hr.current]
  exact h.members

end Interleaving

/-- **No task is lost to an interrupt inside the scheduler** that does not meet half-updated variables. -/
theorem no_task_lost {s : Scheduler} {events : List InterleavingEvent} {w : Interleaving}
    (h : Run ShieldedStep (Interleaving.init s) events w) (hw : w.Settled) : w.KeepsTasks := by
  obtain ⟨r, hr⟩ : ∃ r, w.Heads r := by
    refine Run.invariant (I := fun w => ∃ r, w.Heads r) (fun w e w' hw hs => ?_) h ⟨_, Interleaving.heads_init s⟩
    obtain ⟨r, hr⟩ := hw
    exact hr.step hs.1 hs.2
  exact hr.keepsTasks hw.1

theorem ShieldedStep.of_next {w w' : Interleaving} {e : InterleavingEvent} (h : w.next e = some w')
    (he : ∀ t, e ≠ .addTask t) (hw : ¬ w.Exposed) : ShieldedStep w e w' :=
  ⟨⟨h, fun t ht => absurd ht (he t)⟩, fun _ => hw⟩

def twoTasks : Interleaving :=
  ⟨(noTasks.schedulerInit.schedulerAddTask (some 0x110000)).schedulerAddTask (some 0x110050), .idle, fun _ => .idle,
    [0x110000, 0x110050]⟩

theorem run_twoTasks :
    Run ShieldedStep (Interleaving.init noTasks) [.addTask 0x110000, .addTask 0x110050] twoTasks := by
  have h0 := Scheduler.represents_init noTasks
  have h1 := h0.add (t := 0x110000) (by simp)
  let one : Interleaving :=
    ⟨noTasks.schedulerInit.schedulerAddTask (some 0x110000), .idle, fun _ => .idle, [0x110000]⟩
  have hs1 : ShieldedStep (Interleaving.init noTasks) (.addTask 0x110000) one := by
    refine ⟨⟨rfl, fun t ht => ?_⟩, fun h => by cases h⟩
    cases ht
    exact ⟨by simp [Interleaving.init, h0.current, RoundRobin.empty], by
      simp [Interleaving.init, h0.queued.isQueued_iff, RoundRobin.empty]⟩
  have hs2 : ShieldedStep one (.addTask 0x110050) twoTasks := by
    refine ⟨⟨rfl, fun t ht => ?_⟩, fun h => by cases h⟩
    cases ht
    exact ⟨by simp [one, h1.current, RoundRobin.empty, RoundRobin.add], by
      simp [one, h1.queued.isQueued_iff, RoundRobin.empty, RoundRobin.add]⟩
  exact (Run.single hs1).snoc hs2

theorem no_task_lost_early_tick : ∃ w, Run ShieldedStep (Interleaving.init noTasks)
    [.addTask 0x110000, .addTask 0x110050, .callStart, .interrupt, .statement] w ∧ w.KeepsTasks := by
  have hrun := ((run_twoTasks.snoc (i := .callStart) (.of_next rfl (by simp) fun h => ?_)).snoc (i := .interrupt)
    (.of_next rfl (by simp) fun h => ?_)).snoc (i := .statement) (.of_next rfl (by simp) fun h => ?_)
  · exact ⟨_, hrun, no_task_lost hrun ⟨rfl, fun _ => rfl⟩⟩
  all_goals
    obtain ⟨-, h | ⟨h, -⟩⟩ := h <;> cases h

/-- The tick comes after the test, and `scheduler_start` goes on to take another task. -/
theorem interrupted_start_loses_task : ¬ ∀ (s : Scheduler) (events : List InterleavingEvent) (w : Interleaving),
    Run InterleavingStep (Interleaving.init s) events w → w.Settled → w.KeepsTasks := by
  intro h
  have hrun : ∃ w, Run InterleavingStep (Interleaving.init noTasks)
      ([.addTask 0x110000, .addTask 0x110050, .callStart, .statement,
        .interrupt] ++ List.replicate 9 .statement) w ∧
      w.path = .idle ∧ w.saved = (fun _ => .idle) ∧ w.scheduler.currentTask = some 0x110050 ∧
      w.scheduler.readyHead = none ∧
        w.added = [0x110000, 0x110050] := by
    have hstep : ∀ {w w' : Interleaving} {e : InterleavingEvent}, w.next e = some w' → (∀ t, e ≠ .addTask t) →
        InterleavingStep w e w' := fun h he => ⟨h, fun t ht => absurd ht (he t)⟩
    have h₀ := (run_twoTasks.mono fun _ _ _ h => h.1).snoc (i := .callStart) (hstep rfl (by simp))
    have h₁ := (h₀.snoc (i := .statement) (hstep rfl (by simp))).snoc (i := .interrupt) (hstep rfl (by simp))
    have h₂ := ((h₁.snoc (i := .statement) (hstep rfl (by simp))).snoc (i := .statement) (hstep rfl (by simp))).snoc
      (i := .statement) (hstep rfl (by simp))
    have h₃ := ((h₂.snoc (i := .statement) (hstep rfl (by simp))).snoc (i := .statement) (hstep rfl (by simp))).snoc
      (i := .statement) (hstep rfl (by simp))
    have h₄ := ((h₃.snoc (i := .statement) (hstep rfl (by simp))).snoc (i := .statement) (hstep rfl (by simp))).snoc
      (i := .statement) (hstep rfl (by simp))
    exact ⟨_, h₄, rfl, rfl, rfl, rfl, rfl⟩
  obtain ⟨w, hrun, hpath, hsaved, hcur, hhead, hadded⟩ := hrun
  obtain ⟨q, hq, hperm, -⟩ := h noTasks _ w hrun ⟨by rw [hpath]; rfl, fun t => by rw [hsaved]; rfl⟩
  rw [hhead, hcur, hadded] at *
  obtain rfl := hq.eq_none_iff.mp rfl
  simpa using hperm.length_eq

end KernelOs
