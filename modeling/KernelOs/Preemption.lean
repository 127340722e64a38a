import KernelOs.InterruptLemmas
import KernelOs.Lib.Run
import KernelOs.PmmLemmas

/-!
# Preemption

Kernel threads on their stacks, from their creation through any number of timer
interrupts: what an interrupt takes from the CPU, the switch back gives to it.
-/

namespace KernelOs
open Lib Memory

/-! ## What the scheduler leaves of a task -/

namespace Scheduler

def SameStacks (s s' : Scheduler) : Prop := ∀ t, (s'.tasks t).kernelStackBase = (s.tasks t).kernelStackBase ∧
  (s'.tasks t).kernelStackTop = (s.tasks t).kernelStackTop ∧ (s'.tasks t).savedRsp = (s.tasks t).savedRsp ∧
  (s'.tasks t).pml4Phys = (s.tasks t).pml4Phys

variable {s s' s'' : Scheduler} {t : TaskPtr}

theorem SameStacks.refl (s : Scheduler) : SameStacks s s := fun _ => ⟨rfl, rfl, rfl, rfl⟩

theorem SameStacks.trans (h : SameStacks s s') (h' : SameStacks s' s'') : SameStacks s s'' := by
  intro t
  obtain ⟨h1, h2, h3, h4⟩ := h t
  obtain ⟨k1, k2, k3, k4⟩ := h' t
  exact ⟨k1.trans h1, k2.trans h2, k3.trans h3, k4.trans h4⟩

theorem SameStacks.of_tasks (h : s'.tasks = s.tasks) : SameStacks s s' := by
  intro t
  rw [h]
  exact ⟨rfl, rfl, rfl, rfl⟩

theorem sameStacks_setTask (s : Scheduler) (t : TaskPtr) {f : Task → Task}
    (hf : ∀ a, (f a).kernelStackBase = a.kernelStackBase ∧ (f a).kernelStackTop = a.kernelStackTop ∧
      (f a).savedRsp = a.savedRsp ∧ (f a).pml4Phys = a.pml4Phys) : SameStacks s (s.setTask t f) := by
  intro u
  by_cases hu : u = t
  · rw [hu, setTask_same]
    exact hf _
  · rw [setTask_of_ne hu]
    exact ⟨rfl, rfl, rfl, rfl⟩

theorem sameStacks_setState (s : Scheduler) (t : TaskPtr) (state : TaskState) : SameStacks s (s.setState t state) :=
  sameStacks_setTask s t fun _ => ⟨rfl, rfl, rfl, rfl⟩

theorem sameStacks_setNext (s : Scheduler) (t : TaskPtr) (next : Option TaskPtr) :
    SameStacks s (s.setNext t next) :=
  sameStacks_setTask s t fun _ => ⟨rfl, rfl, rfl, rfl⟩

theorem sameStacks_appendReady (s : Scheduler) (t : TaskPtr) : SameStacks s (s.appendReady t) := by
  intro u
  rw [appendReady_tasks]
  exact ⟨rfl, rfl, rfl, rfl⟩

theorem sameStacks_popReady (s : Scheduler) (t : TaskPtr) : SameStacks s (s.popReady t) :=
  SameStacks.of_tasks (popReady_rest s t).1

theorem sameStacks_add (s : Scheduler) (t : Option TaskPtr) : SameStacks s (s.schedulerAddTask t) := by
  cases t with
  | none => exact SameStacks.refl s
  | some t =>
    exact ((sameStacks_setState s t _).trans (sameStacks_setNext _ t _)).trans (sameStacks_appendReady _ t)

theorem sameStacks_start (s : Scheduler) : SameStacks s s.schedulerStart.1 := by
  unfold schedulerStart
  split
  · next t _ _ =>
    refine SameStacks.trans (?_ : SameStacks s (s.startTask t)) (SameStacks.of_tasks ?_)
    · exact ((sameStacks_popReady s t).trans (sameStacks_setNext _ t _)).trans (sameStacks_setState _ t _)
    · simp only
      split <;> rfl
  · exact SameStacks.refl s

theorem sameStacks_requeue (s : Scheduler) (t : TaskPtr) : SameStacks s (s.requeue t) := by
  unfold requeue
  split
  · exact sameStacks_add s (some t)
  · exact SameStacks.refl s

theorem sameStacks_tick (s : Scheduler) : SameStacks s s.schedulerTick.1 := by
  unfold schedulerTick firstEntry
  split
  · split
    · exact SameStacks.refl s
    · next t _ => exact (sameStacks_popReady { s with currentTask := some t } t).trans (sameStacks_setState _ t _)
  · exact SameStacks.refl s
  · next c _ _ _ =>
    simp only
    split
    · exact sameStacks_requeue s c
    · next t _ => exact (sameStacks_requeue s c).trans ((sameStacks_popReady _ t).trans (sameStacks_setState _ t _))

def SpaceLoaded (s : Scheduler) : Prop := s.cr3 = match s.currentTask with
  | none => s.kernelPml4Phys
  | some t => if (s.tasks t).pml4Phys ≠ 0 then (s.tasks t).pml4Phys else s.kernelPml4Phys

theorem SpaceLoaded.congr (h : s.SpaceLoaded) (hs : SameStacks s s') (hcur : s'.currentTask = s.currentTask)
    (hcr3 : s'.cr3 = s.cr3) (hkernel : s'.kernelPml4Phys = s.kernelPml4Phys) : s'.SpaceLoaded := by
  unfold SpaceLoaded
  rw [hcur, hcr3, hkernel, h]
  cases s.currentTask with
  | none => rfl
  | some t => simp only [(hs t).2.2.2]

theorem SpaceLoaded.setTask (h : s.SpaceLoaded) {f : Task → Task}
    (ht : s.currentTask = some t → ∀ a, (f a).pml4Phys = a.pml4Phys) :
    (s.setTask t f).SpaceLoaded := by
  unfold SpaceLoaded at h ⊢
  change s.cr3 = match s.currentTask with
    | none => s.kernelPml4Phys
    | some u =>
      if ((s.setTask t f).tasks u).pml4Phys ≠ 0 then ((s.setTask t f).tasks u).pml4Phys else s.kernelPml4Phys
  rw [h]
  cases hcur : s.currentTask with
  | none => rfl
  | some u =>
    by_cases hut : u = t
    · subst hut
      simp only [setTask_same, ht hcur]
    · simp only [setTask_of_ne hut]

theorem SpaceLoaded.start (h : s.SpaceLoaded) : s.schedulerStart.1.SpaceLoaded := by
  unfold schedulerStart
  split
  · next t hnone _ =>
    unfold SpaceLoaded at h
    rw [hnone] at h
    obtain ⟨-, -, -, hcr3, hkernel⟩ := popReady_rest s t
    simp only
    split
    · next hne => exact (if_pos hne).symm
    · next heq => exact (hcr3.trans (h.trans hkernel.symm)).trans (if_neg heq).symm
  · exact h

/-- Not so for the tick that makes the first task current. -/
theorem SpaceLoaded.tick (h : s.SpaceLoaded) (hcur : s.currentTask ≠ none) : s.schedulerTick.1.SpaceLoaded := by
  unfold schedulerTick
  split
  · next hnone => exact absurd hnone hcur
  · exact h
  · next c _ _ hhead =>
    simp only
    split
    · next hnone =>
      refine h.congr (sameStacks_requeue s c) ?_ ?_ ?_ <;> unfold requeue <;> split
      · exact (appendReady_rest _ c).1
      · rfl
      · exact (appendReady_rest _ c).2.2.1
      · rfl
      · exact (appendReady_rest _ c).2.2.2
      · rfl
    · rfl

theorem SpaceLoaded.add (h : s.SpaceLoaded) (t : Option TaskPtr) : (s.schedulerAddTask t).SpaceLoaded := by
  cases t with
  | none => exact h
  | some t =>
    obtain ⟨h1, -, h3, h4⟩ := appendReady_rest ((s.setState t .ready).setNext t none) t
    exact h.congr (sameStacks_add s (some t)) h1 h3 h4

/-- A new task is put into the queue: the stacks of the others stay, and its own is as it was made. -/
theorem addNew_stacks (s : Scheduler) (t : TaskPtr) (task : Task) (pml4Phys : UInt64) :
    let s' := ((s.setTask t fun _ => task).setTask t fun a => { a with pml4Phys }).schedulerAddTask (some t)
    (∀ u, u ≠ t → (s'.tasks u).kernelStackBase = (s.tasks u).kernelStackBase ∧ (s'.tasks u).kernelStackTop =
      (s.tasks u).kernelStackTop ∧
      (s'.tasks u).savedRsp = (s.tasks u).savedRsp) ∧
    (s'.tasks t).kernelStackBase = task.kernelStackBase ∧ (s'.tasks t).kernelStackTop = task.kernelStackTop ∧
      (s'.tasks t).savedRsp = task.savedRsp := by
  intro s'
  have hsame : SameStacks ((s.setTask t fun _ => task).setTask t fun a => { a with pml4Phys }) s' :=
    sameStacks_add _ _
  constructor
  · intro u hut
    obtain ⟨h1, h2, h3, -⟩ := hsame u
    rw [setTask_of_ne hut, setTask_of_ne hut] at h1 h2 h3
    exact ⟨h1, h2, h3⟩
  · obtain ⟨h1, h2, h3, -⟩ := hsame t
    rw [setTask_same, setTask_same] at h1 h2 h3
    exact ⟨h1, h2, h3⟩

end Scheduler

/-! ## Runs -/

/-- The machine with a record of the tasks' entry points and of the CPU when they were last interrupted. -/
structure History where
  machine : Machine
  entryPoint : TaskPtr → UInt64
  interrupted : TaskPtr → Option Cpu

namespace History

def start (m : Machine) : History := ⟨m, fun _ => 0, fun _ => none⟩

def record (k : Binary) (h : History) (e : MachineEvent) (machine : Machine) : History :=
  match e with
  | .spawn entryPoint _ =>
    match (h.machine.taskCreateKernelThread k entryPoint).1 with
    | none => { h with machine }
    | some task => { h with machine, entryPoint := Function.update h.entryPoint task entryPoint }
  | .tick =>
    match h.machine.context with
    | none => { h with machine }
    | some task => { h with machine, interrupted := Function.update h.interrupted task (some h.machine.cpu) }
  | _ => { h with machine }

@[simp] theorem record_machine (k : Binary) (h : History) (e : MachineEvent) (m : Machine) :
    (h.record k e m).machine = m := by
  unfold record
  split
  · split <;> rfl
  · split <;> rfl
  · rfl

theorem record_start (k : Binary) (h : History) (m : Machine) : h.record k .start m = { h with machine := m } := rfl

theorem record_tick {k : Binary} {h : History} {t : TaskPtr} (m : Machine) (hcontext : h.machine.context = some t) :
    h.record k .tick m =
      { h with machine := m, interrupted := Function.update h.interrupted t (some h.machine.cpu) } := by
  unfold record
  rw [hcontext]

end History

/-- The interrupts come while tasks execute. -/
def PreemptionStep (k : Binary) (h : History) (e : MachineEvent) (h' : History) : Prop :=
  MachineStep k h.machine e h'.machine ∧ h' = h.record k e h'.machine ∧ (e = .tick → h.machine.context ≠ none)

/-- `kernel_main` has set up the allocator, the boot code's stack apart from its pages, and the scheduler. -/
structure BootState (k : Binary) (m : Machine) : Prop where
  pmm : m.pmm.Ok
  pages : ∀ p ∈ m.pmm.clearPages, p ≠ 0 ∧ ((p + 1) * 4096 ≤ k.stackBottom ∨ k.stackTop ≤ p * 4096)
  slots : ∀ i, m.taskSlotUsed i = false
  scheduler : ∃ s : Scheduler, m.scheduler = s.schedulerInit
  context : m.context = none
  ring : m.cpu.ring = 0
  fits : k.Fits k.stackBottom k.stackTop m.cpu

/-! ## The invariant -/

/-- `t` has a slot of the pool and pages for a stack. -/
structure Kept (k : Binary) (s : Scheduler) (taskSlotUsed : Nat → Bool) (pmm : Pmm) (t : TaskPtr) : Prop where
  slot : ∃ i < 64, taskSlotUsed i = true ∧ t.toNat = k.taskPool.toNat + 80 * i
  size : s.stackBase t + 16384 = s.stackTop t
  boot : s.stackTop t ≤ k.stackBottom ∨ k.stackTop ≤ s.stackBase t
  pages : ∀ p ∈ pmm.clearPages, (p + 1) * 4096 ≤ s.stackBase t ∨ s.stackTop t ≤ p * 4096
  saved : s.stackBase t ≤ (s.tasks t).savedRsp.toNat ∧ (s.tasks t).savedRsp.toNat ≤ s.stackTop t

/-- The machine's tasks are the members of `r`, each with a stack of its own that can be gone on with. -/
structure Preempted (k : Binary) (h : History) (r : RoundRobin TaskPtr) : Prop where
  represents : h.machine.scheduler.Represents r
  tss : h.machine.scheduler.TssLoaded
  space : h.machine.scheduler.SpaceLoaded
  context : h.machine.context = r.current
  ring : r.current = none → h.machine.cpu.ring = 0
  fits : k.Fits (h.machine.stack k r.current).1 (h.machine.stack k r.current).2 h.machine.cpu
  pmm : h.machine.pmm.Ok
  pages : ∀ p ∈ h.machine.pmm.clearPages, p ≠ 0 ∧ ((p + 1) * 4096 ≤ k.stackBottom ∨ k.stackTop ≤ p * 4096)
  kept : ∀ t ∈ r.members, Kept k h.machine.scheduler h.machine.taskSlotUsed h.machine.pmm t
  apart : ∀ t ∈ r.members, ∀ u ∈ r.members, t ≠ u →
    h.machine.scheduler.stackTop t ≤ h.machine.scheduler.stackBase u ∨
    h.machine.scheduler.stackTop u ≤ h.machine.scheduler.stackBase t
  waits : ∀ t ∈ r.ready, Waits k h.machine.scheduler h.machine.cpu.mem t (h.entryPoint t) (h.interrupted t)
  unseen : ∀ t, t ∉ r.members → h.interrupted t = none
  early : r.current = none → ∀ t, h.interrupted t = none

theorem pages_apart {F : Finset Nat} {p lo hi n : Nat} (hsub : Finset.Ico p (p + (n + 1)) ⊆ F) (hlo : lo < hi)
    (hF : ∀ q ∈ F, (q + 1) * 4096 ≤ lo ∨ hi ≤ q * 4096) : (p + (n + 1)) * 4096 ≤ lo ∨ hi ≤ p * 4096 := by
  induction n with
  | zero => exact hF p (hsub (Finset.mem_Ico.mpr ⟨Nat.le_refl p, by omega⟩))
  | succ n ih =>
    have hlast := hF (p + (n + 1)) (hsub (Finset.mem_Ico.mpr ⟨by omega, by omega⟩))
    have hrest := ih ((Finset.Ico_subset_Ico_right (by omega)).trans hsub)
    rcases hrest with hrest | hrest
    · exact Or.inl (hlast.resolve_right (by omega))
    · exact Or.inr hrest

namespace Kept

variable {k : Binary} {s s' : Scheduler} {used used' : Nat → Bool} {pmm pmm' : Pmm} {t : TaskPtr}

/-- The stack stays, slots are only taken, and pages too. -/
theorem mono (h : Kept k s used pmm t) (hbase : s'.stackBase t = s.stackBase t)
    (htop : s'.stackTop t = s.stackTop t)
    (hsaved : s.stackBase t ≤ (s'.tasks t).savedRsp.toNat ∧ (s'.tasks t).savedRsp.toNat ≤ s.stackTop t)
    (hused : ∀ i, used i = true → used' i = true) (hpages : pmm'.clearPages ⊆ pmm.clearPages) :
    Kept k s' used' pmm' t where
  slot := by
    obtain ⟨i, hlt, hi, haddr⟩ := h.slot
    exact ⟨i, hlt, hused i hi, haddr⟩
  size := by rw [hbase, htop, h.size]
  boot := by rw [hbase, htop]; exact h.boot
  pages p hp := by rw [hbase, htop]; exact h.pages p (hpages hp)
  saved := by rw [hbase, htop]; exact hsaved

/-- A new task, in a free slot and with four pages of its own. -/
theorem new {i p : Nat} (hlt : i < 64) (haddr : t.toNat = k.taskPool.toNat + 80 * i)
    (hsub : Finset.Ico p (p + 4) ⊆ pmm.clearPages)
    (hclear : pmm'.clearPages = pmm.clearPages \ Finset.Ico p (p + 4)) (hbase : s.stackBase t = p * 4096)
    (htop : s.stackTop t = (p + 4) * 4096) (hsp : (s.tasks t).savedRsp.toNat + 56 = (p + 4) * 4096)
    (hroom : k.stackBottom < k.stackTop)
    (hboot : ∀ q ∈ pmm.clearPages, (q + 1) * 4096 ≤ k.stackBottom ∨ k.stackTop ≤ q * 4096) :
    Kept k s (Function.update used i true) pmm' t where
  slot := ⟨i, hlt, Function.update_self .., haddr⟩
  size := by rw [hbase, htop]; omega
  boot := by
    rw [hbase, htop]
    exact pages_apart (n := 3) hsub hroom hboot
  pages q hq := by
    rw [hbase, htop]
    rw [hclear, Finset.mem_sdiff, Finset.mem_Ico] at hq
    omega
  saved := by rw [hbase, htop]; omega

end Kept

/-! ## New tasks -/

namespace Machine

variable {k : Binary} {m : Machine} {entryPoint : UInt64}

theorem allocateTaskSlot_spec (m : Machine) : (m.allocateTaskSlot = (none, m) ∧ ∀ i < 64, m.taskSlotUsed i = true) ∨
    ∃ i < 64, m.taskSlotUsed i = false ∧
      m.allocateTaskSlot = (some i, { m with taskSlotUsed := Function.update m.taskSlotUsed i true }) := by
  unfold allocateTaskSlot
  cases h : (List.range maxTasks).find? fun i => !m.taskSlotUsed i with
  | none =>
    refine Or.inl ⟨rfl, fun i hi => ?_⟩
    simpa using List.find?_eq_none.mp h i (List.mem_range.mpr hi)
  | some i =>
    have hi := List.mem_range.mp (List.mem_of_find?_eq_some h)
    exact Or.inr ⟨i, hi, by simpa using List.find?_some h, rfl⟩

theorem slot_toNat (hpool : k.taskPool.toNat + 64 * 80 ≤ 2 ^ 64) {i : Nat} (hi : i < 64) :
    (k.taskPool + 80 * UInt64.ofNat i).toNat = k.taskPool.toNat + 80 * i := by
  have hi64 : (UInt64.ofNat i).toNat = i := UInt64.toNat_ofNat_of_lt' (by simp only [UInt64.size]; omega)
  rw [UInt64.toNat_add, UInt64.toNat_mul, hi64]
  simp only [UInt64.reduceToNat]
  omega

/-- A new thread has four pages that were free, and its first frame at their end. -/
theorem taskCreateKernelThread_spec (hok : m.pmm.Ok) (h0 : 0 ∉ m.pmm.clearPages) (entryPoint : UInt64) :
    (∃ used, m.taskCreateKernelThread k entryPoint = (none, { m with taskSlotUsed := used }) ∧
      ∀ i, m.taskSlotUsed i = true → used i = true) ∨
    ∃ i p pmm task, i < 64 ∧ m.taskSlotUsed i = false ∧ Finset.Ico p (p + 4) ⊆ m.pmm.clearPages ∧ pmm.Ok ∧
      pmm.clearPages = m.pmm.clearPages \ Finset.Ico p (p + 4) ∧ task.kernelStackBase.toNat = p * 4096 ∧
      task.kernelStackTop.toNat = (p + 4) * 4096 ∧ task.savedRsp.toNat + 56 = (p + 4) * 4096 ∧
      m.taskCreateKernelThread k entryPoint = (some (k.taskPool + 80 * UInt64.ofNat i),
        { m with
          cpu := { m.cpu with mem := m.cpu.mem.storeWords task.savedRsp.toNat (switchRegs.map
            (fun _ => 0) ++ [entryPoint]) }
          scheduler := m.scheduler.setTask (k.taskPool + 80 * UInt64.ofNat i) fun _ => task
          pmm
          taskSlotUsed := Function.update m.taskSlotUsed i true }) := by
  unfold taskCreateKernelThread
  obtain ⟨he, -⟩ | ⟨i, hi, hfree, he⟩ := m.allocateTaskSlot_spec
  · rw [he]
    exact Or.inl ⟨m.taskSlotUsed, rfl, fun _ h => h⟩
  rw [he]
  have hused : ∀ j, m.taskSlotUsed j = true → Function.update m.taskSlotUsed i true j = true := by
    intro j hj
    by_cases hji : j = i
    · rw [hji, Function.update_self]
    · rwa [Function.update_of_ne hji]
  obtain ⟨hfail, -⟩ | ⟨p, pmm, halloc, -, hsub, -, hok', -, hclear⟩ := pmmAllocPages_spec hok kernelStackPages
  · refine Or.inl ⟨Function.update m.taskSlotUsed i true, ?_, hused⟩
    simp only [hfail]
    rfl
  · have hp0 : p ≠ 0 := by
      rintro rfl
      exact h0 (hsub (Finset.mem_Ico.mpr ⟨Nat.le_refl _, by decide⟩))
    have hlt : p + 4 < 2 ^ 52 := by
      have := (Pmm.mem_clearPages.mp (hsub (Finset.mem_Ico.mpr ⟨(by omega : p ≤ p + 3), Nat.lt_succ_self _⟩))).1
      have := hok.small
      omega
    have hbase : (UInt64.ofNat (p * 4096)).toNat = p * 4096 := toNat_ofNat_page (by omega)
    have hne : UInt64.ofNat (p * 4096) ≠ 0 := fun hc => by
      rw [hc] at hbase
      simp only [UInt64.reduceToNat] at hbase
      omega
    have htop : (UInt64.ofNat (p * 4096) + kernelStackPages * pageSize).toNat = (p + 4) * 4096 := by
      rw [UInt64.toNat_add, hbase]
      simp only [kernelStackPages, pageSize, UInt64.reduceMul, UInt64.reduceToNat]
      omega
    have hsp : (UInt64.ofNat (p * 4096) + kernelStackPages * pageSize - 56).toNat + 56 = (p + 4) * 4096 := by
      rw [toNat_sub_of_toNat_le (by rw [htop]; simp only [UInt64.reduceToNat]; omega), htop]
      simp only [UInt64.reduceToNat]
      omega
    simp only [halloc, if_neg hne]
    exact Or.inr ⟨i, p, pmm, ⟨.ready, _, _, _, 0, none⟩, hi, hfree, hsub, hok', hclear, hbase, htop, hsp, rfl⟩

def Roomy (m : Machine) : Prop :=
  (∃ i < 64, m.taskSlotUsed i = false) ∧ ∃ p, Finset.Ico p (p + 4) ⊆ m.pmm.clearPages

theorem Roomy.create (hroomy : m.Roomy) (hok : m.pmm.Ok) (h0 : 0 ∉ m.pmm.clearPages) (entryPoint : UInt64) :
    (m.taskCreateKernelThread k entryPoint).1 ≠ none := by
  obtain ⟨⟨i, hi, hfree⟩, q, hq⟩ := hroomy
  unfold taskCreateKernelThread
  obtain ⟨-, hall⟩ | ⟨j, -, -, he⟩ := m.allocateTaskSlot_spec
  · rw [hall i hi] at hfree
    cases hfree
  rw [he]
  obtain ⟨-, hfail⟩ | ⟨p, pmm, halloc, -, hsub, -, -, -, -⟩ := pmmAllocPages_spec hok kernelStackPages
  · obtain hzero | hnone := hfail
    · cases hzero
    · exact absurd hq (hnone q)
  · have hne : UInt64.ofNat (p * 4096) ≠ 0 := fun hc => by
      have hp := (Pmm.mem_clearPages.mp (hsub (Finset.mem_Ico.mpr ⟨Nat.le_refl p, by simp [kernelStackPages]⟩))).1
      have hsmall := hok.small
      have hbase : (UInt64.ofNat (p * 4096)).toNat = p * 4096 := toNat_ofNat_page (by omega)
      rw [hc] at hbase
      obtain rfl : p = 0 := by
        simp only [UInt64.reduceToNat] at hbase
        omega
      exact h0 (hsub (Finset.mem_Ico.mpr ⟨Nat.le_refl _, by decide⟩))
    simp only [halloc, if_neg hne]
    exact Option.some_ne_none _

theorem Roomy.of_free {i j p : Nat} (hij : i ≠ j) (hi : i < 64) (hj : j < 64) (hfi : m.taskSlotUsed i = false)
    (hfj : m.taskSlotUsed j = false) (hp : Finset.Ico p (p + 12) ⊆ m.pmm.clearPages) (hok : m.pmm.Ok)
    (h0 : 0 ∉ m.pmm.clearPages) (pml4Phys : UInt64) : (m.spawn k entryPoint pml4Phys).Roomy := by
  have hroomy : m.Roomy := ⟨⟨i, hi, hfi⟩, p, (Finset.Ico_subset_Ico_right (by omega)).trans hp⟩
  have hcreate := hroomy.create (k := k) hok h0 entryPoint
  obtain ⟨used, he, -⟩ | ⟨n, q, pmm, task, -, hfree, -, -, hclear, -, -, -, he⟩ :=
    m.taskCreateKernelThread_spec (k := k) hok h0 entryPoint
  · rw [he] at hcreate
    exact absurd rfl hcreate
  unfold spawn
  simp only [he]
  refine ⟨?_, ?_⟩
  · by_cases hn : i = n
    · exact ⟨j, hj, (Function.update_of_ne (hn ▸ hij.symm) ..).trans hfj⟩
    · exact ⟨i, hi, (Function.update_of_ne hn ..).trans hfi⟩
  · -- the four pages taken leave the first four or the last four of the twelve
    simp only [hclear]
    by_cases hq : q + 4 ≤ p ∨ p + 4 ≤ q
    · refine ⟨p, fun x hx => Finset.mem_sdiff.mpr ⟨hp ?_, ?_⟩⟩ <;> simp only [Finset.mem_Ico] at hx ⊢ <;> omega
    · refine ⟨p + 8, fun x hx => Finset.mem_sdiff.mpr ⟨hp ?_, ?_⟩⟩ <;> simp only [Finset.mem_Ico] at hx ⊢ <;> omega

end Machine

namespace Preempted
open Scheduler

variable {k : Binary} {h : History} {r : RoundRobin TaskPtr} {t u : TaskPtr}

theorem mem_of_ready (ht : t ∈ r.ready) : t ∈ r.members := List.mem_append_right _ ht

theorem mem_of_current (ht : r.current = some t) : t ∈ r.members := List.mem_append_left _ (by simp [ht])

theorem apart_context (hi : Preempted k h r) (ht : t ∈ r.ready) :
    h.machine.scheduler.stackTop t ≤ (h.machine.stack k r.current).1 ∨
      (h.machine.stack k r.current).2 ≤ h.machine.scheduler.stackBase t := by
  cases hcur : r.current with
  | none => exact (hi.kept t (mem_of_ready ht)).boot
  | some c =>
    refine hi.apart t (mem_of_ready ht) c (mem_of_current hcur) ?_
    rintro rfl
    exact hi.represents.current_notMem hcur ht

theorem own (hi : Preempted k h r) {c : Cpu} (hown : OwnCode k h.machine c) :
    Preempted k { h with machine := { h.machine with cpu := c } } r := by
  obtain ⟨hmem, hfits, hboot⟩ := hown
  rw [hi.context] at hmem hfits hboot
  refine ⟨hi.represents, hi.tss, hi.space, hi.context, hboot, hfits, hi.pmm, hi.pages, hi.kept, hi.apart,
    fun t ht => ?_, hi.unseen, hi.early⟩
  refine (hi.waits t ht).congr rfl rfl rfl (hi.kept t (mem_of_ready ht)).saved.1 (hmem.agreeOn ?_)
  exact hi.apart_context ht

theorem sti (hi : Preempted k h r) :
    Preempted k { h with machine := { h.machine with cpu := h.machine.cpu.sti } } r := by
  refine hi.own ⟨ChangedIn.refl _ _ _, ?_, fun hc => hi.ring (hi.context ▸ hc)⟩
  rw [hi.context]
  exact hi.fits

theorem notMem_of_slot (hk : SystemV k) (hi : Preempted k h r) {i : Nat} (hlt : i < 64)
    (hfree : h.machine.taskSlotUsed i = false) :
    (k.taskPool + 80 * UInt64.ofNat i).toNat = k.taskPool.toNat + 80 * i ∧
      k.taskPool + 80 * UInt64.ofNat i ∉ r.members := by
  have hpool := hk.taskPool_lt
  have haddr := Machine.slot_toNat hpool hlt
  refine ⟨haddr, fun hmem => ?_⟩
  obtain ⟨j, -, hused, hj⟩ := (hi.kept _ hmem).slot
  obtain rfl : i = j := by omega
  rw [hfree] at hused
  cases hused

theorem spawn_none (hi : Preempted k h r) {used : Nat → Bool}
    (hused : ∀ i, h.machine.taskSlotUsed i = true → used i = true) :
    Preempted k { h with machine := { h.machine with taskSlotUsed := used } } r := by
  have hkept : ∀ t ∈ r.members, Kept k h.machine.scheduler used h.machine.pmm t := fun t ht =>
    (hi.kept t ht).mono rfl rfl (hi.kept t ht).saved hused (Finset.Subset.refl _)
  exact ⟨hi.represents, hi.tss, hi.space, hi.context, hi.ring, hi.fits, hi.pmm, hi.pages, hkept, hi.apart,
    hi.waits, hi.unseen, hi.early⟩

theorem spawn_some (hi : Preempted k h r) (hcontext : h.machine.context = none) {entryPoint pml4Phys : UInt64}
    (hentry : entryPoint ≠ k.tickReturn) {i p : Nat} {pmm : Pmm} {task : Task} (hlt : i < 64)
    (haddr : t.toNat = k.taskPool.toNat + 80 * i) (ht : t ∉ r.members)
    (hsub : Finset.Ico p (p + 4) ⊆ h.machine.pmm.clearPages) (hok : pmm.Ok)
    (hclear : pmm.clearPages = h.machine.pmm.clearPages \ Finset.Ico p (p + 4))
    (hbase : task.kernelStackBase.toNat = p * 4096) (htop : task.kernelStackTop.toNat = (p + 4) * 4096)
    (hsp : task.savedRsp.toNat + 56 = (p + 4) * 4096) :
    Preempted k
      ⟨{ h.machine with
          cpu := { h.machine.cpu with
            mem := h.machine.cpu.mem.storeWords task.savedRsp.toNat (switchRegs.map (fun _ => 0) ++ [entryPoint]) }
          scheduler :=
            ((h.machine.scheduler.setTask t fun _ => task).setTask t fun a =>
              { a with pml4Phys }).schedulerAddTask (some t)
          pmm
          taskSlotUsed := Function.update h.machine.taskSlotUsed i true },
        Function.update h.entryPoint t entryPoint, h.interrupted⟩ (r.add t) := by
  have hcur : r.current = none := hi.context.symm.trans hcontext
  have hnot : ∀ {f : Prop}, t ∈ r.members → f := fun hc => absurd hc ht
  have hnot' : ∀ {f : Prop}, h.machine.scheduler.currentTask = some t → f := fun hc =>
    hnot (mem_of_current (hi.represents.current.symm.trans hc))
  have hne : ∀ u ∈ r.members, u ≠ t := fun u hu hut => ht (hut ▸ hu)
  have hmem : ∀ u ∈ (r.add t).members, u ∈ r.members ∨ u = t := fun u hu => by
    rw [RoundRobin.members_add] at hu
    simpa using hu
  have hsubset : pmm.clearPages ⊆ h.machine.pmm.clearPages := hclear ▸ Finset.sdiff_subset
  -- the others' tasks are as before, and the new one as it was made
  obtain ⟨hothers, hbase', htop', hsp'⟩ := addNew_stacks h.machine.scheduler t task pml4Phys
  generalize hs : ((h.machine.scheduler.setTask t fun _ => task).setTask t fun a =>
    { a with pml4Phys }).schedulerAddTask (some t) = s
    at hothers hbase' htop' hsp'
  replace hbase' : s.stackBase t = p * 4096 := (congrArg UInt64.toNat hbase').trans hbase
  replace htop' : s.stackTop t = (p + 4) * 4096 := (congrArg UInt64.toNat htop').trans htop
  have hstack : ∀ u ∈ r.members, s.stackBase u = h.machine.scheduler.stackBase u ∧
      s.stackTop u = h.machine.scheduler.stackTop u := by
    intro u hum
    obtain ⟨h1, h2, -⟩ := hothers u (hne u hum)
    exact ⟨congrArg UInt64.toNat h1, congrArg UInt64.toNat h2⟩
  have hdisjoint : ∀ u ∈ r.members, s.stackTop t ≤ s.stackBase u ∨ s.stackTop u ≤ s.stackBase t := by
    intro u hum
    obtain ⟨h1, h2⟩ := hstack u hum
    have hkept := hi.kept u hum
    have := pages_apart (n := 3) hsub (by have := hkept.size; omega) hkept.pages
    omega
  have hfits := hi.fits
  rw [hcur] at hfits
  have hbound := hfits (hi.ring hcur)
  refine ⟨?_, ?_, ?_, hi.context, hi.ring, ?_, hok, fun q hq => hi.pages q (hsubset hq), fun u hum => ?_,
    fun u hum v hvm huv => ?_, fun u hum => ?_, fun u hum => ?_, hi.early⟩
  · rw [← hs]
    exact ((hi.represents.setTask hnot).setTask hnot).add ht
  · rw [← hs]
    exact ((hi.tss.setTask hnot').setTask hnot').add t
  · rw [← hs]
    exact ((hi.space.setTask hnot').setTask hnot').add (some t)
  · rw [show (r.add t).current = none from hcur]
    exact hfits
  · rcases hmem u hum with hum | rfl
    · obtain ⟨h1, h2⟩ := hstack u hum
      refine (hi.kept u hum).mono h1 h2 ?_ (fun j hused => ?_) hsubset
      · rw [(hothers u (hne u hum)).2.2]
        exact (hi.kept u hum).saved
      · by_cases hji : j = i
        · rw [hji]
          exact Function.update_self ..
        · exact (Function.update_of_ne hji ..).trans hused
    · refine .new hlt haddr hsub hclear hbase' htop' (by rw [hsp', hsp]) ?_ fun q hq => (hi.pages q hq).2
      change k.stackBottom + k.frameBytes + 247 ≤ _ ∧ _ ≤ k.stackTop at hbound
      omega
  · rcases hmem u hum with hum' | hut <;> rcases hmem v hvm with hvm' | hvt
    · change s.stackTop u ≤ s.stackBase v ∨ s.stackTop v ≤ s.stackBase u
      rw [(hstack u hum').1, (hstack u hum').2, (hstack v hvm').1, (hstack v hvm').2]
      exact hi.apart u hum' v hvm' huv
    · rw [hvt]
      exact (hdisjoint u hum').symm
    · rw [hut]
      exact hdisjoint v hvm'
    · exact absurd (hut.trans hvt.symm) huv
  · rcases List.mem_append.mp hum with hum | hum
    · have hum' := mem_of_ready hum
      have hut := hne u hum'
      obtain ⟨k1, k2, k3⟩ := hothers u hut
      change Waits k s _ u (Function.update h.entryPoint t entryPoint u) (h.interrupted u)
      rw [Function.update_of_ne hut]
      refine (hi.waits u hum).congr k1 k2 k3 (hi.kept u hum').saved.1 ((changedIn_storeWords _ _ _).agreeOn ?_)
      have := hdisjoint u hum'
      obtain ⟨h1, h2⟩ := hstack u hum'
      simp only [switchRegs, List.map, List.length_append, List.length_cons, List.length_nil]
      omega
    · obtain rfl := List.mem_singleton.mp hum
      change Waits k s _ u (Function.update h.entryPoint u entryPoint u) (h.interrupted u)
      rw [Function.update_self, hi.unseen u ht]
      refine ⟨hentry, ?_, ?_⟩
      · rw [hsp', htop', hsp]
      · rw [hsp']
        exact holds_storeWords _ _ _
  · refine hi.unseen u fun hc => hum ?_
    rw [RoundRobin.members_add]
    exact List.mem_append_left _ hc

theorem switchTo (hk : SystemV k) (hi : Preempted k h r) {s₁ s₂ : Scheduler} {c₁ c₂ : Cpu} {mem : Memory}
    {l : List TaskPtr} (interrupted : TaskPtr → Option Cpu) (hready : r.ready = t :: l)
    (hs : (contextSwitch s₁ c₁).1 = s₂) (hc : k.afterSwitch (contextSwitch s₁ c₁).2 = c₂)
    (hrsi : c₁.gpr .rsi = t) (hm : (pushed c₁).mem = mem)
    (hmem : ChangedIn h.machine.cpu.mem mem (h.machine.stack k r.current).1 (h.machine.stack k r.current).2)
    (hrep : s₂.Represents ⟨some t, l ++ r.current.toList⟩) (htss : s₂.TssLoaded) (hspace : s₂.SpaceLoaded)
    (hstacks : ∀ u, (s₂.tasks u).kernelStackBase = (h.machine.scheduler.tasks u).kernelStackBase ∧
      (s₂.tasks u).kernelStackTop = (h.machine.scheduler.tasks u).kernelStackTop)
    (hsaved : ∀ u ∈ r.ready, (s₂.tasks u).savedRsp = (h.machine.scheduler.tasks u).savedRsp)
    (hint : ∀ u, r.current ≠ some u → interrupted u = h.interrupted u)
    (hold : ∀ u, r.current = some u → Waits k s₂ mem u (h.entryPoint u) (interrupted u) ∧
      s₂.stackBase u ≤ (s₂.tasks u).savedRsp.toNat ∧ (s₂.tasks u).savedRsp.toNat ≤ s₂.stackTop u) :
    Preempted k ⟨{ h.machine with cpu := c₂, scheduler := s₂, context := some t }, h.entryPoint, interrupted⟩
        ⟨some t, l ++ r.current.toList⟩ ∧
      GoesOn s₂ t (h.entryPoint t) c₂ (h.interrupted t) ∧
      (h.interrupted t = none → c₂.interruptFlag = c₁.interruptFlag) := by
  have hperm : ∀ u, u ∈ RoundRobin.members ⟨some t, l ++ r.current.toList⟩ ↔ u ∈ r.members := fun u => by
    rw [show (⟨some t, l ++ r.current.toList⟩ : RoundRobin TaskPtr) = r.rotate by rw [RoundRobin.rotate, hready]]
    exact RoundRobin.members_rotate.mem_iff
  have hbase : ∀ u, s₂.stackBase u = h.machine.scheduler.stackBase u := fun u => congrArg UInt64.toNat (hstacks u).1
  have htop : ∀ u, s₂.stackTop u = h.machine.scheduler.stackTop u := fun u => congrArg UInt64.toNat (hstacks u).2
  have htr : t ∈ r.ready := by rw [hready]; exact List.mem_cons_self ..
  have hnotcur : ∀ u ∈ r.ready, r.current ≠ some u := fun u hu hcur => hi.represents.current_notMem hcur hu
  have hapart : ∀ u ∈ r.members, u ≠ t →
      s₂.stackTop u ≤ s₂.stackBase t ∨ s₂.stackTop t ≤ s₂.stackBase u := fun u hu hut => by
    rw [hbase, hbase, htop, htop]
    exact hi.apart u hu t (mem_of_ready htr) hut
  -- the switch finds what the others wait for
  have hwaits : ∀ u ∈ r.ready, Waits k s₂ mem u (h.entryPoint u) (h.interrupted u) := fun u hu =>
    (hi.waits u hu).congr (hstacks u).1 (hstacks u).2 (hsaved u hu) (hi.kept u (mem_of_ready hu)).saved.1
      (hmem.agreeOn (hi.apart_context hu))
  have hsize : s₂.stackBase t + 16384 = s₂.stackTop t := by
    rw [hbase, htop]
    exact (hi.kept t (mem_of_ready htr)).size
  obtain ⟨hgoes, hchanged, hfits, hflag⟩ := (hwaits t htr).dispatch hk hs hrsi hm hc hsize
  refine ⟨⟨hrep, htss, hspace, rfl, (fun hcur => by cases hcur), hfits, hi.pmm, hi.pages, fun u hu => ?_,
    fun u hu v hv huv => ?_, fun u hu => ?_, fun u hu => ?_, fun hc => by cases hc⟩, hgoes, hflag⟩
  · have hum := (hperm u).mp hu
    refine (hi.kept u hum).mono (hbase u) (htop u) ?_ (fun _ hused => hused) (Finset.Subset.refl _)
    rcases List.mem_append.mp hum with hcur | hur
    · rw [← hbase, ← htop]
      exact (hold u (by simpa using hcur)).2
    · rw [hsaved u hur]
      exact (hi.kept u hum).saved
  · rw [hbase, hbase, htop, htop]
    exact hi.apart u ((hperm u).mp hu) v ((hperm v).mp hv) huv
  · have hut : u ≠ t := by
      rintro rfl
      exact hrep.current_notMem rfl hu
    have hum := (hperm u).mp (mem_of_ready hu)
    have hframe : AgreeOn mem c₂.mem (s₂.stackBase u) (s₂.stackTop u) := hchanged.agreeOn (hapart u hum hut)
    rcases List.mem_append.mp hum with hcur | hur
    · obtain ⟨hw, hlow, -⟩ := hold u (by simpa using hcur)
      exact hw.congr rfl rfl rfl hlow hframe
    · change Waits k s₂ c₂.mem u (h.entryPoint u) (interrupted u)
      rw [hint u (hnotcur u hur)]
      refine (hwaits u hur).congr rfl rfl rfl ?_ hframe
      rw [hbase, hsaved u hur]
      exact (hi.kept u hum).saved.1
  · change interrupted u = none
    have hum : u ∉ r.members := fun hc => hu ((hperm u).mpr hc)
    rw [hint u fun hcur => hum (mem_of_current hcur)]
    exact hi.unseen u hum

theorem schedulerStart_eq {m : Machine} {old : Option TaskPtr} (hs : m.scheduler.schedulerStart.2 = some ⟨old, t⟩) :
    m.schedulerStart k =
      { m with
        cpu := k.afterSwitch (contextSwitch m.scheduler.schedulerStart.1 (k.startSwitch m.scheduler m.cpu)).2
        scheduler := (contextSwitch m.scheduler.schedulerStart.1 (k.startSwitch m.scheduler m.cpu)).1
        context := some t } := by
  unfold Machine.schedulerStart Binary.schedulerStart
  rw [hs]
  rfl

theorem timerInterrupt_eq {m : Machine} {old : Option TaskPtr} (hs : m.scheduler.schedulerTick.2 = some ⟨old, t⟩) :
    m.timerInterrupt k =
      { m with
        cpu := k.afterSwitch (contextSwitch m.scheduler.schedulerTick.1
          (k.toSwitch m.scheduler (irqEntry k m.scheduler.rsp0 m.cpu))).2
        scheduler :=
          (contextSwitch m.scheduler.schedulerTick.1
            (k.toSwitch m.scheduler (irqEntry k m.scheduler.rsp0 m.cpu))).1
        context := some t } := by
  unfold Machine.timerInterrupt Binary.timerInterrupt
  rw [hs]
  rfl

theorem start (hk : SystemV k) (hi : Preempted k h r) (hcontext : h.machine.context = none) :
    (r.ready = [] ∧ h.machine.schedulerStart k = h.machine) ∨
    ∃ t l, r.ready = t :: l ∧ Preempted k { h with machine := h.machine.schedulerStart k } ⟨some t, l⟩ ∧
      GoesOn (h.machine.schedulerStart k).scheduler t (h.entryPoint t)
    (h.machine.schedulerStart k).cpu (h.interrupted t) ∧
      (h.interrupted t = none → (h.machine.schedulerStart k).cpu.interruptFlag = h.machine.cpu.interruptFlag) := by
  have hcur : r.current = none := hi.context.symm.trans hcontext
  cases hready : r.ready with
  | nil =>
    have hnone : h.machine.scheduler.readyHead = none := hi.represents.queued.head_eq_none_iff.mpr hready
    refine Or.inl ⟨rfl, ?_⟩
    unfold Machine.schedulerStart Binary.schedulerStart
    rw [schedulerStart_of_none hnone]
    rfl
  | cons t l =>
    obtain ⟨hrep, hsw⟩ := hi.represents.start
    rw [hcur, hready] at hsw
    rw [RoundRobin.dispatch, hcur, hready] at hrep
    have hfits := hi.fits
    rw [hcur] at hfits
    have hbound := hfits (hi.ring hcur)
    change k.stackBottom + k.frameBytes + 247 ≤ h.machine.cpu.rsp.toNat ∧
      h.machine.cpu.rsp.toNat ≤ k.stackTop at hbound
    have hat := hk.startSwitch h.machine.scheduler h.machine.cpu _ hsw (by omega)
    obtain ⟨hmem, -, -, -⟩ := hat.pushed_spec k.stackBottom k.stackTop (by omega) hbound.2
    have hsame := sameStacks_start h.machine.scheduler
    have htss := hi.tss.start
    have hspace := hi.space.start
    rw [schedulerStart_eq hsw]
    generalize h.machine.scheduler.schedulerStart.1 = s₁ at hrep hsame htss hspace
    generalize k.startSwitch h.machine.scheduler h.machine.cpu = c₁ at hat hmem
    have hrdi : c₁.gpr .rdi = 0 := hat.rdi
    have hsched : (contextSwitch s₁ c₁).1 = s₁ := by
      rw [contextSwitch_fst, if_pos hrdi]
    rw [hsched]
    generalize hc₂ : k.afterSwitch (contextSwitch s₁ c₁).2 = c₂
    generalize hm : (pushed c₁).mem = mem at hmem
    have hswitch := hi.switchTo hk h.interrupted hready hsched hc₂ hat.rsi hm (by rw [hcur]; exact hmem)
      (by rw [hcur, Option.toList_none, List.append_nil]; exact hrep) htss hspace
      (fun u => ⟨(hsame u).1, (hsame u).2.1⟩) (fun u _ => (hsame u).2.2.1)
        (fun u _ => rfl) (fun u hu => by rw [hcur] at hu; cases hu)
    rw [hcur, Option.toList_none, List.append_nil] at hswitch
    obtain ⟨h1, h2, h3⟩ := hswitch
    exact Or.inr ⟨t, l, rfl, h1, h2, fun hn => (h3 hn).trans hat.flag⟩

theorem interrupt (hi : Preempted k h r) (hcur : r.current = some t) (c : Cpu) :
    Preempted k { h with interrupted := Function.update h.interrupted t (some c) } r := by
  have hne : ∀ u ∈ r.ready, u ≠ t := fun u hu hut => hi.represents.current_notMem hcur (hut ▸ hu)
  refine ⟨hi.represents, hi.tss, hi.space, hi.context, hi.ring, hi.fits, hi.pmm, hi.pages, hi.kept, hi.apart,
    fun u hu => ?_, fun u hu => ?_, fun hc => by rw [hcur] at hc; cases hc⟩
  · change Waits k h.machine.scheduler h.machine.cpu.mem u (h.entryPoint u)
      (Function.update h.interrupted t (some c) u)
    rw [Function.update_of_ne (hne u hu)]
    exact hi.waits u hu
  · change Function.update h.interrupted t (some c) u = none
    have hut : u ≠ t := by
      rintro rfl
      exact hu (mem_of_current hcur)
    rw [Function.update_of_ne hut]
    exact hi.unseen u hu

theorem entered (hk : SystemV k) (hi : Preempted k h r) (hcur : r.current = some t) :
    h.machine.scheduler.rsp0 = (h.machine.scheduler.tasks t).kernelStackTop ∧
      Entered k (h.machine.scheduler.stackBase t) (h.machine.scheduler.stackTop t) h.machine.cpu
        (irqEntry k h.machine.scheduler.rsp0 h.machine.cpu) := by
  have hrsp0 := hi.tss t (hi.represents.current.trans hcur)
  have hfits := hi.fits
  rw [hcur] at hfits
  exact ⟨hrsp0, hfits.entered hk (hi.kept t (mem_of_current hcur)).size fun _ => congrArg UInt64.toNat hrsp0⟩

theorem tick_alone (hk : SystemV k) (hi : Preempted k h r) (hcur : r.current = some t) (hready : r.ready = []) :
    Preempted k { h with machine := h.machine.timerInterrupt k } r ∧
      (h.machine.timerInterrupt k).cpu = { h.machine.cpu with mem := (h.machine.timerInterrupt k).cpu.mem } := by
  have hnone : h.machine.scheduler.readyHead = none := hi.represents.queued.head_eq_none_iff.mpr hready
  have htick := schedulerTick_of_none hnone
  obtain ⟨-, hentered⟩ := hi.entered hk hcur
  have hlow := hentered.low
  have hhigh := hentered.high
  have hret := hk.noSwitch h.machine.scheduler _ (congrArg Prod.snd htick)
    (by omega : k.frameBytes ≤ (irqEntry k h.machine.scheduler.rsp0 h.machine.cpu).rsp.toNat)
  have hm : h.machine.timerInterrupt k = { h.machine with
      cpu := k.afterHandler
          (k.noSwitch h.machine.scheduler (irqEntry k h.machine.scheduler.rsp0 h.machine.cpu)) } := by
    unfold Machine.timerInterrupt Binary.timerInterrupt
    rw [htick]
    rfl
  rw [hm]
  generalize irqEntry k h.machine.scheduler.rsp0 h.machine.cpu = c₁ at *
  generalize k.noSwitch h.machine.scheduler c₁ = c₂ at *
  rw [hentered.exit (h.machine.scheduler.tasks t).kernelStackTop.toNat_lt hret fun _ _ _ => rfl]
  refine ⟨hi.own ⟨?_, ?_, fun hc => ?_⟩, rfl⟩
  · rw [hi.context, hcur]
    exact hentered.mem.trans (hret.mem.mono (by omega) (by omega))
  · have hfits := hi.fits
    rw [hi.context]
    exact hfits
  · rw [hi.context, hcur] at hc
    cases hc

theorem tick_switch (hk : SystemV k) (hi : Preempted k h r) {c : TaskPtr} {l : List TaskPtr}
    (hcur : r.current = some c) (hready : r.ready = t :: l) :
    Preempted k { h with
        machine := h.machine.timerInterrupt k, interrupted :=
  Function.update h.interrupted c (some h.machine.cpu) } ⟨some t, l ++ [c]⟩ ∧
      GoesOn (h.machine.timerInterrupt k).scheduler t (h.entryPoint t) (h.machine.timerInterrupt k).cpu
      (h.interrupted t) ∧
      (h.interrupted t = none → (h.machine.timerInterrupt k).cpu.interruptFlag = false) := by
  obtain ⟨hrep, hsw⟩ := hi.represents.tick
  rw [hcur, hready] at hsw
  rw [RoundRobin.rotate, hready, hcur] at hrep
  obtain ⟨hrsp0, hentered⟩ := hi.entered hk hcur
  have hlow := hentered.low
  have hhigh := hentered.high
  have hat := hk.toSwitch h.machine.scheduler _ _ hsw
    (by omega : k.frameBytes ≤ (irqEntry k h.machine.scheduler.rsp0 h.machine.cpu).rsp.toNat)
  obtain ⟨hmem, hsp, hsp1, hsp2⟩ :=
    hat.pushed_spec (h.machine.scheduler.stackBase c) (h.machine.scheduler.stackTop c) (by omega) (by omega)
  have hsame := sameStacks_tick h.machine.scheduler
  have htss := hi.tss.tick
  have hspace := hi.space.tick (by rw [hi.represents.current, hcur]; exact Option.some_ne_none c)
  have hfits := hi.fits
  rw [hcur] at hfits
  have hsuspended : ∀ s₂ : Scheduler, (∀ u, (s₂.tasks u).kernelStackBase =
    (h.machine.scheduler.tasks u).kernelStackBase ∧
      (s₂.tasks u).kernelStackTop = (h.machine.scheduler.tasks u).kernelStackTop) →
      (s₂.tasks c).savedRsp =
      (pushed (k.toSwitch h.machine.scheduler (irqEntry k h.machine.scheduler.rsp0 h.machine.cpu))).rsp →
      Suspended k s₂
      (pushed (k.toSwitch h.machine.scheduler (irqEntry k h.machine.scheduler.rsp0 h.machine.cpu))).mem c
        h.machine.cpu := by
    intro s₂ hstacks hsaved
    refine ⟨?_, h.machine.scheduler, _, hsw, ?_, ?_⟩
    · unfold stackBase stackTop
      rw [(hstacks c).1, (hstacks c).2]
      exact hfits
    · rw [hsaved, (hstacks c).2, ← hrsp0]
      exact hsp
    · rw [(hstacks c).2, ← hrsp0]
      exact fun _ _ _ => rfl
  have hcpu := hentered.mem.trans hmem
  have hcflag := hat.flag.trans hentered.flag
  rw [timerInterrupt_eq hsw]
  generalize k.toSwitch h.machine.scheduler (irqEntry k h.machine.scheduler.rsp0 h.machine.cpu) = c₁ at *
  generalize h.machine.scheduler.schedulerTick.1 = s₁ at hrep hsame htss hspace
  have hc0 : c ≠ 0 := by
    obtain ⟨i, -, -, hi⟩ := (hi.kept c (mem_of_current hcur)).slot
    have hpool := hk.taskPool_pos
    rintro rfl
    change 0 = k.taskPool.toNat + 80 * i at hi
    omega
  have hrdi : c₁.gpr .rdi = c := hat.rdi
  have hsched : (contextSwitch s₁ c₁).1 = s₁.setTask c fun a => { a with savedRsp := (pushed c₁).rsp } := by
    rw [contextSwitch_fst, hrdi, if_neg hc0]
  have hstacks : ∀ u, ((s₁.setTask c fun a => { a with savedRsp := (pushed c₁).rsp }).tasks u).kernelStackBase =
        (h.machine.scheduler.tasks u).kernelStackBase ∧
      ((s₁.setTask c fun a => { a with savedRsp := (pushed c₁).rsp }).tasks u).kernelStackTop =
        (h.machine.scheduler.tasks u).kernelStackTop := by
    intro u
    by_cases huc : u = c
    · rw [huc, setTask_same]
      exact ⟨(hsame c).1, (hsame c).2.1⟩
    · rw [setTask_of_ne huc]
      exact ⟨(hsame u).1, (hsame u).2.1⟩
  have hsavedc : ((s₁.setTask c fun a => { a with savedRsp := (pushed c₁).rsp }).tasks
      c).savedRsp = (pushed c₁).rsp := by
    rw [setTask_same]
  have hsavedu : ∀ u ∈ r.ready, ((s₁.setTask c fun a => { a with savedRsp := (pushed c₁).rsp }).tasks u).savedRsp =
      (h.machine.scheduler.tasks u).savedRsp := by
    intro u hu
    rw [setTask_of_ne fun huc : u = c => hi.represents.current_notMem hcur (huc ▸ hu)]
    exact (hsame u).2.2.1
  have hrep₂ := hrep.setTask (t := c) (f := fun a => { a with savedRsp := (pushed c₁).rsp }) fun _ _ => ⟨rfl, rfl⟩
  have htss₂ := htss.setTask (t := c) (f := fun a => { a with savedRsp := (pushed c₁).rsp }) fun _ _ => rfl
  have hspace₂ := hspace.setTask (t := c) (f := fun a => { a with savedRsp := (pushed c₁).rsp }) fun _ _ => rfl
  have hsuspended₂ := hsuspended _ hstacks hsavedc
  rw [hsched]
  generalize (s₁.setTask c fun a => { a with savedRsp := (pushed c₁).rsp }) = s₂ at *
  generalize hc₂ : k.afterSwitch (contextSwitch s₁ c₁).2 = c₂
  generalize hm : (pushed c₁).mem = mem at *
  have hswitch := hi.switchTo hk (Function.update h.interrupted c (some h.machine.cpu)) hready hsched hc₂ hat.rsi hm
    (by rw [hcur]; exact hcpu) (by rw [hcur]; exact hrep₂) htss₂ hspace₂ hstacks hsavedu
    (fun u hu => Function.update_of_ne (by rintro rfl; exact hu hcur) ..) (fun u hu => by
      obtain rfl : c = u := Option.some.inj (hcur.symm.trans hu)
      rw [Function.update_self, hsavedc]
      refine ⟨hsuspended₂, ?_, ?_⟩
      · rw [show s₂.stackBase c = h.machine.scheduler.stackBase c from congrArg UInt64.toNat (hstacks c).1]
        exact hsp1
      · rw [show s₂.stackTop c = h.machine.scheduler.stackTop c from congrArg UInt64.toNat (hstacks c).2]
        exact hsp2)
  rw [hcur, Option.toList_some] at hswitch
  obtain ⟨h1, h2, h3⟩ := hswitch
  exact ⟨h1, h2, fun hn => (h3 hn).trans hcflag⟩

/-- `task_create_kernel_thread` and `scheduler_add_task`. A failed creation leaves the queue alone. -/
theorem spawn (hk : SystemV k) (hi : Preempted k h r) (hcontext : h.machine.context = none) {entryPoint : UInt64}
    (hentry : entryPoint ≠ k.tickReturn) (pml4Phys : UInt64) :
    ∃ r', Preempted k (h.record k (.spawn entryPoint pml4Phys) (h.machine.spawn k entryPoint pml4Phys)) r' ∧
      (h.machine.Roomy → ∃ t, r' = r.add t) := by
  have h0 : 0 ∉ h.machine.pmm.clearPages := fun hc => (hi.pages 0 hc).1 rfl
  unfold History.record Machine.spawn
  obtain ⟨used, he, hused⟩ | ⟨i, p, pmm, task, hlt, hfree, hsub, hok, hclear, hbase, htop, hsp, he⟩ :=
    h.machine.taskCreateKernelThread_spec (k := k) hi.pmm h0 entryPoint
  · have hcreate := fun hroomy : h.machine.Roomy => hroomy.create (k := k) hi.pmm h0 entryPoint
    rw [he] at hcreate
    simp only [he]
    exact ⟨r, hi.spawn_none hused, fun hroomy => absurd rfl (hcreate hroomy)⟩
  · obtain ⟨haddr, hnot⟩ := hi.notMem_of_slot hk hlt hfree
    simp only [he]
    exact ⟨_, hi.spawn_some hcontext hentry hlt haddr hnot hsub hok hclear hbase htop hsp, fun _ => ⟨_, rfl⟩⟩

theorem of_boot {m : Machine} (hm : BootState k m) : Preempted k (History.start m) RoundRobin.empty := by
  obtain ⟨s, hs⟩ := hm.scheduler
  have hrep : m.scheduler.Represents RoundRobin.empty := hs ▸ represents_init s
  have hnone : m.scheduler.currentTask = none := hrep.current
  refine ⟨hrep, fun t ht => ?_, ?_, hm.context, fun _ => hm.ring, hm.fits, hm.pmm, hm.pages, fun t ht => ?_,
    fun t ht => ?_, fun t ht => ?_, fun _ _ => rfl, fun _ _ => rfl⟩
  · rw [show (History.start m).machine.scheduler.currentTask = none from hnone] at ht
    cases ht
  · rw [show (History.start m).machine.scheduler = s.schedulerInit from hs]
    rfl
  all_goals cases ht

theorem step (hk : SystemV k) (hi : Preempted k h r) {e : MachineEvent} {h' : History}
    (hs : PreemptionStep k h e h') :
    ∃ r', Preempted k h' r' := by
  obtain ⟨hstep, hrec, htick⟩ := hs
  rw [hrec]
  generalize h'.machine = m' at hstep
  cases hstep with
  | spawn e p hcontext hentry =>
    obtain ⟨r', hr', -⟩ := hi.spawn hk hcontext hentry p
    exact ⟨r', hr'⟩
  | sti => exact ⟨r, hi.sti⟩
  | start hcontext =>
    rw [History.record_start]
    obtain ⟨-, he⟩ | ⟨t, l, -, hr', -⟩ := hi.start hk hcontext
    · rw [he]
      exact ⟨r, hi⟩
    · exact ⟨_, hr'⟩
  | own c hown => exact ⟨r, hi.own hown⟩
  | tick =>
    obtain ⟨c, hc⟩ := Option.ne_none_iff_exists'.mp (htick rfl)
    have hcur : r.current = some c := hi.context.symm.trans hc
    rw [History.record_tick _ hc]
    cases hready : r.ready with
    | nil => exact ⟨r, (hi.tick_alone hk hcur hready).1.interrupt hcur h.machine.cpu⟩
    | cons t l => exact ⟨_, (hi.tick_switch hk hcur hready).1⟩

end Preempted

end KernelOs
