import KernelOs.TaskPool
import KernelOs.PmmExact

/-!
# Failed task creations

`task_create_kernel_thread` takes a slot and then asks for a stack. If there is none the slot
is not given back, and nothing else ever gives one back.
-/

namespace KernelOs
open Lib

/-- `pmm_alloc_pages` has a stack to give: the lowest 4 clear pages in a row are not at address 0. -/
def Pmm.StackAvailable (s : Pmm) : Prop :=
  ∃ start, s.ClearRun start Machine.kernelStackPages ∧
    (∀ lower < start, ¬ s.ClearRun lower Machine.kernelStackPages) ∧ start * pageSize ≠ 0

namespace TaskPool

def usedSlots (s : TaskPool) : Finset Nat := (Finset.range 64).filter fun i => s.machine.taskSlotUsed i = true

/-- No slot is left that the attempt could take, or it finds a stack as well. -/
def Harmless (s : TaskPool) : Prop := (∀ i < 64, s.machine.taskSlotUsed i = true) ∨ s.machine.pmm.StackAvailable

/-- If the attempt returns null, it has changed nothing. -/
def CostsNothing (k : Binary) (s : TaskPool) (entryPoint : UInt64) (name : CString) : Prop :=
  let (task, s') := s.taskCreateKernelThread k entryPoint name
  task = none → s'.machine.taskSlotUsed = s.machine.taskSlotUsed ∧ s'.nextPid = s.nextPid ∧
    s'.machine.pmm = s.machine.pmm

end TaskPool

/-- The pool, the number of tasks created so far and of the attempts that were not harmless. -/
structure PoolHistory where
  pool : TaskPool
  created : Nat
  lost : Nat

inductive PoolEvent where
  | attempt (entryPoint : UInt64) (name : CString)
  | elsewhere

def PoolEvent.isAttempt : PoolEvent → Bool
  | .attempt .. => true
  | .elsewhere => false

def attempts (events : List PoolEvent) : Nat := events.countP PoolEvent.isAttempt

namespace PoolHistory

def initial (s : TaskPool) : PoolHistory where
  pool := { s with machine := { s.machine with taskSlotUsed := fun _ => false }, nextPid := 1 }
  created := 0
  lost := 0

def attempt (k : Binary) (w : PoolHistory) (entryPoint : UInt64) (name : CString) : PoolHistory :=
  let (task, pool) := w.pool.taskCreateKernelThread k entryPoint name
  { w with pool, created := w.created + if task = none then 0 else 1 }

end PoolHistory

/-- The rest of the kernel may do anything, but `task_slot_used` and `next_pid` are private to `task.cpp`. -/
inductive PoolStep (k : Binary) : PoolHistory → PoolEvent → PoolHistory → Prop
  | harmless {w : PoolHistory} {entryPoint : UInt64} {name : CString} : w.pool.Harmless →
      PoolStep k w (.attempt entryPoint name) (w.attempt k entryPoint name)
  | costly {w : PoolHistory} {entryPoint : UInt64} {name : CString} : ¬ w.pool.Harmless →
      PoolStep k w (.attempt entryPoint name) { w.attempt k entryPoint name with lost := w.lost + 1 }
  | elsewhere {w : PoolHistory} {pool : TaskPool} : pool.machine.taskSlotUsed = w.pool.machine.taskSlotUsed →
      pool.nextPid = w.pool.nextPid → PoolStep k w .elsewhere { w with pool }

/-- Steps in which every attempt finds the pages of a stack. -/
def FundedStep (k : Binary) (w : PoolHistory) (e : PoolEvent) (w' : PoolHistory) : Prop :=
  PoolStep k w e w' ∧ (e.isAttempt = true → w.pool.machine.pmm.StackAvailable)

/-! ## One attempt -/

theorem Pmm.stackAvailable_iff {s : Pmm} : s.StackAvailable ↔ (pmmAllocPages s Machine.kernelStackPages).1 ≠ 0 := by
  have hpos : 0 < Machine.kernelStackPages.toNat := by decide
  rcases pmmAllocPages_filled s Machine.kernelStackPages with ⟨he, hnone⟩ | ⟨start, s', he, -, -,
    hsub, hfirst, -, -⟩
  · rw [he]
    refine iff_of_false ?_ fun h => h rfl
    rintro ⟨start, hrun, -, -⟩
    exact hnone.resolve_left (by decide) start.toNat ((clearRun_iff hpos).mp hrun)
  · rw [he]
    constructor
    · rintro ⟨start', hrun, hlowest, haddr⟩
      -- both are the lowest run
      have hle : ¬ start'.toNat < start.toNat := fun hlt => hfirst start'.toNat hlt ((clearRun_iff hpos).mp hrun)
      have hge : ¬ start < start' := fun hlt => hlowest start hlt ((clearRun_iff hpos).mpr hsub)
      rw [UInt64.lt_iff_toNat_lt] at hge
      obtain rfl : start' = start := UInt64.toNat_inj.mp (by omega)
      exact haddr
    · intro haddr
      exact ⟨start, (clearRun_iff hpos).mpr hsub, fun lower hlt hrun =>
        hfirst lower.toNat (UInt64.lt_iff_toNat_lt.mp hlt) ((clearRun_iff hpos).mp hrun), haddr⟩

namespace TaskPool

variable {k : Binary} {s : TaskPool} {entryPoint : UInt64} {name : CString}

/-- An attempt that took slot `i`, the stack being granted or not. -/
structure TookSlot (s : TaskPool) (i : Nat) (task : Option TaskPtr) (s' : TaskPool) : Prop where
  lt : i < 64
  free : s.machine.taskSlotUsed i = false
  slots : s'.machine.taskSlotUsed = Function.update s.machine.taskSlotUsed i true
  null : task = none ↔ ¬ s.machine.pmm.StackAvailable
  nextPid : s'.nextPid = if task = none then s.nextPid else s.nextPid + 1

theorem create_cases (k : Binary) (s : TaskPool) (entryPoint : UInt64) (name : CString) :
    ((∀ i < 64, s.machine.taskSlotUsed i = true) ∧ s.taskCreateKernelThread k entryPoint name = (none, s)) ∨
      ∃ i, s.TookSlot i (s.taskCreateKernelThread k entryPoint name).1
      (s.taskCreateKernelThread k entryPoint name).2 := by
  have hstack := Pmm.stackAvailable_iff (s := s.machine.pmm)
  obtain ⟨he, hall⟩ | ⟨i, hi, hfree, he⟩ := s.machine.allocateTaskSlot_spec
  · refine Or.inl ⟨hall, ?_⟩
    simp [taskCreateKernelThread, Machine.taskCreateKernelThread, he]
  · refine Or.inr ⟨i, ?_⟩
    by_cases h0 : (pmmAllocPages s.machine.pmm Machine.kernelStackPages).1 = 0
    · simp only [taskCreateKernelThread, Machine.taskCreateKernelThread, he, h0, if_true]
      exact ⟨hi, hfree, rfl, by simp [hstack, h0], rfl⟩
    · simp only [taskCreateKernelThread, Machine.taskCreateKernelThread, he, h0, if_false]
      exact ⟨hi, hfree, rfl, by simp [hstack, h0], rfl⟩

theorem costsNothing_iff : s.CostsNothing k entryPoint name ↔ s.Harmless := by
  unfold CostsNothing Harmless
  obtain ⟨hall, he⟩ | ⟨i, ht⟩ := create_cases k s entryPoint name
  · rw [he]
    exact iff_of_true (fun _ => ⟨rfl, rfl, rfl⟩) (Or.inl hall)
  · generalize s.taskCreateKernelThread k entryPoint name = r at ht
    constructor
    · intro h
      refine Or.inr (not_not.mp fun hno => ?_)
      -- the slot that was taken
      have hslots := (h (ht.null.mpr hno)).1
      have hi := congrFun hslots i
      rw [ht.slots, Function.update_self, ht.free] at hi
      cases hi
    · rintro (hall | hstack) hnone
      · have hfree := ht.free
        rw [hall i ht.lt] at hfree
        cases hfree
      · exact absurd hstack (ht.null.mp hnone)

/-- With 3 free pages the first slot is gone for no task. -/
theorem creation_loses_slot :
    let s : TaskPool := ⟨plainMachine (pmmInit (fun _ => 0) 0 4), fun _ => 0, fun _ _ => 0, 1⟩
    ¬ s.CostsNothing plainBinary 0x101000 ⟨[97], by decide⟩ := by
  intro s h
  have hslots := (h (by decide +kernel)).1
  exact absurd (congrFun hslots 0) (by decide +kernel)

end TaskPool

/-! ## Histories -/

namespace PoolHistory

variable {k : Binary} {w w' : PoolHistory} {e : PoolEvent} {events : List PoolEvent} {s : TaskPool} {i : Nat}
  {task : Option TaskPtr} {s' : TaskPool}

theorem mem_usedSlots : i ∈ s.usedSlots ↔ i < 64 ∧ s.machine.taskSlotUsed i = true := by
  rw [TaskPool.usedSlots, Finset.mem_filter, Finset.mem_range]

theorem usedSlots_full (h : ∀ i < 64, s.machine.taskSlotUsed i = true) : s.usedSlots.card = 64 := by
  rw [TaskPool.usedSlots, Finset.filter_true_of_mem fun i hi => h i (Finset.mem_range.mp hi), Finset.card_range]

theorem card_usedSlots_le (s : TaskPool) : s.usedSlots.card ≤ 64 :=
  (Finset.card_filter_le _ _).trans_eq (Finset.card_range 64)

theorem usedSlots_congr (h : s'.machine.taskSlotUsed = s.machine.taskSlotUsed) : s'.usedSlots = s.usedSlots := by
  rw [TaskPool.usedSlots, TaskPool.usedSlots, h]

theorem card_usedSlots_took (h : s.TookSlot i task s') : s'.usedSlots.card = s.usedSlots.card + 1 := by
  have hnew : i ∉ s.usedSlots := fun hi => by
    have := (mem_usedSlots.mp hi).2
    rw [h.free] at this
    cases this
  rw [← Finset.card_insert_of_notMem hnew]
  refine congrArg Finset.card (Finset.ext fun j => ?_)
  rw [Finset.mem_insert, mem_usedSlots, mem_usedSlots, h.slots]
  by_cases hj : j = i
  · rw [hj, Function.update_self]
    exact iff_of_true ⟨h.lt, rfl⟩ (Or.inl rfl)
  · rw [Function.update_of_ne hj]
    exact ⟨Or.inr, fun h => h.resolve_left hj⟩

/-- Every slot in use is that of a task, or was lost by an attempt that was not harmless. -/
structure Inv (w : PoolHistory) : Prop where
  slots : w.pool.usedSlots.card = w.created + w.lost
  nextPid : w.pool.nextPid.toNat = w.created + 1

/-- What an attempt does to the slots and the number of tasks. -/
theorem attempt_cases (k : Binary) (w : PoolHistory) (entryPoint : UInt64) (name : CString) :
    (w.pool.usedSlots.card = 64 ∧ w.attempt k entryPoint name = w) ∨
    (w.pool.usedSlots.card < 64 ∧ (w.attempt k entryPoint name).pool.usedSlots.card = w.pool.usedSlots.card + 1 ∧
      (w.attempt k entryPoint name).lost = w.lost ∧
      ((w.pool.machine.pmm.StackAvailable ∧ (w.attempt k entryPoint name).created = w.created + 1 ∧
          (w.attempt k entryPoint name).pool.nextPid = w.pool.nextPid + 1) ∨
        (¬ w.pool.Harmless ∧ (w.attempt k entryPoint name).created = w.created ∧
          (w.attempt k entryPoint name).pool.nextPid = w.pool.nextPid))) := by
  unfold attempt
  obtain ⟨hall, he⟩ | ⟨i, ht⟩ := TaskPool.create_cases k w.pool entryPoint name
  · rw [he]
    exact Or.inl ⟨usedSlots_full hall, rfl⟩
  · generalize w.pool.taskCreateKernelThread k entryPoint name = r at ht
    have hcard := card_usedSlots_took ht
    have hle := card_usedSlots_le r.2
    refine Or.inr ⟨by omega, hcard, rfl, ?_⟩
    have hpid := ht.nextPid
    by_cases hstack : w.pool.machine.pmm.StackAvailable
    · have hsome : r.1 ≠ none := fun hnone => ht.null.mp hnone hstack
      rw [if_neg hsome] at hpid
      exact Or.inl ⟨hstack, by simp [hsome], hpid⟩
    · have hnone := ht.null.mpr hstack
      rw [if_pos hnone] at hpid
      refine Or.inr ⟨?_, by simp [hnone], hpid⟩
      rintro (hall | h)
      · have hfree := ht.free
        rw [hall i ht.lt] at hfree
        cases hfree
      · exact hstack h

theorem inv_initial (s : TaskPool) : Inv (initial s) where
  slots := by simp [initial, TaskPool.usedSlots]
  nextPid := rfl

theorem inv_step (hi : Inv w) (hs : PoolStep k w e w') : Inv w' := by
  have hslots := hi.slots
  have hpid := hi.nextPid
  cases hs with
  | @harmless entryPoint name hharmless =>
    obtain ⟨-, he⟩ | ⟨hlt, hcard, hlost, ⟨-, hcreated, hnext⟩ | ⟨hcostly, -⟩⟩ := attempt_cases k w entryPoint name
    · rwa [he]
    · refine ⟨by omega, ?_⟩
      rw [hnext, hcreated, UInt32.toNat_add, hpid]
      simp only [UInt32.reduceToNat]
      omega
    · exact absurd hharmless hcostly
  | @costly entryPoint name hcostly =>
    obtain ⟨hfull, -⟩ | ⟨hlt, hcard, hlost, ⟨hstack, -⟩ | ⟨-, hcreated, hnext⟩⟩ := attempt_cases k w entryPoint name
    · refine absurd (Or.inl fun i hi => ?_) hcostly
      have hall : w.pool.usedSlots = Finset.range 64 :=
        Finset.eq_of_subset_of_card_le (Finset.filter_subset _ _) (by rw [hfull, Finset.card_range])
      exact (mem_usedSlots.mp (hall ▸ Finset.mem_range.mpr hi)).2
    · exact absurd (Or.inr hstack) hcostly
    · refine ⟨?_, ?_⟩
      · show (w.attempt k entryPoint name).pool.usedSlots.card =
          (w.attempt k entryPoint name).created + (w.lost + 1)
        omega
      · show (w.attempt k entryPoint name).pool.nextPid.toNat = (w.attempt k entryPoint name).created + 1
        rw [hnext, hcreated, hpid]
  | elsewhere hused hnext =>
    refine ⟨?_, ?_⟩
    · rw [usedSlots_congr hused]
      exact hslots
    · rw [hnext]
      exact hpid

theorem inv_run (hr : Run (PoolStep k) (initial s) events w) : Inv w :=
  hr.invariant (fun _ _ _ => inv_step) (inv_initial s)

/-! ## What can still be created -/

/-- While stacks are available an attempt fails for want of a slot only. -/
theorem funded_step (hs : FundedStep k w e w') :
    w'.pool.usedSlots.card = min 64 (w.pool.usedSlots.card + attempts [e]) ∧ w'.lost = w.lost ∧
      w'.created + w.pool.usedSlots.card = w.created + w'.pool.usedSlots.card := by
  obtain ⟨hs, hfunded⟩ := hs
  have hle := card_usedSlots_le w.pool
  cases hs with
  | @harmless entryPoint name hharmless =>
    show _ = min 64 (w.pool.usedSlots.card + 1) ∧ _
    obtain ⟨hfull, he⟩ | ⟨hlt, hcard, hlost, ⟨-, hcreated, -⟩ | ⟨hcostly, -⟩⟩ := attempt_cases k w entryPoint name
    · rw [he]
      exact ⟨by omega, rfl, rfl⟩
    · exact ⟨by omega, hlost, by omega⟩
    · exact absurd hharmless hcostly
  | costly hcostly => exact absurd (Or.inr (hfunded rfl)) hcostly
  | elsewhere hused hnext =>
    rw [usedSlots_congr hused]
    exact ⟨(Nat.min_eq_right hle).symm, rfl, rfl⟩

theorem attempts_snoc (events : List PoolEvent) (e : PoolEvent) :
    attempts (events ++ [e]) = attempts events + attempts [e] :=
  List.countP_append

theorem funded_run (hr : Run (FundedStep k) w events w') :
    w'.pool.usedSlots.card = min 64 (w.pool.usedSlots.card + attempts events) ∧ w'.lost = w.lost ∧
      w'.created + w.pool.usedSlots.card = w.created + w'.pool.usedSlots.card := by
  induction hr with
  | nil =>
    have hle := card_usedSlots_le w.pool
    refine ⟨?_, rfl, rfl⟩
    show _ = min 64 (w.pool.usedSlots.card + 0)
    omega
  | snoc _ hs ih =>
    obtain ⟨h1, h2, h3⟩ := funded_step hs
    rw [attempts_snoc]
    exact ⟨by omega, by omega, by omega⟩

/-- Stacks can become available again for any number of attempts. -/
theorem exists_funded_run (k : Binary) (w : PoolHistory) (n : Nat) :
    ∃ events w', Run (FundedStep k) w events w' ∧ attempts events = n := by
  induction n with
  | zero => exact ⟨[], w, Run.nil, rfl⟩
  | succ n ih =>
    obtain ⟨events, w', hr, hn⟩ := ih
    let pmm := pmmInit (fun _ => 0) 0 8
    have hstack : pmm.StackAvailable := Pmm.stackAvailable_iff.mpr (by decide)
    let w'' : PoolHistory := { w' with pool := { w'.pool with machine := { w'.pool.machine with pmm } } }
    have hfree : FundedStep k w' .elsewhere w'' := ⟨.elsewhere rfl rfl, fun h => by cases h⟩
    have hattempt : FundedStep k w'' (.attempt 0 ⟨[], List.not_mem_nil⟩) (w''.attempt k 0 ⟨[], List.not_mem_nil⟩) :=
      ⟨.harmless (Or.inr hstack), fun _ => hstack⟩
    refine ⟨_, _, (hr.snoc hfree).snoc hattempt, ?_⟩
    rw [attempts_snoc, attempts_snoc, hn]
    rfl

/-- **When a failed creation costs nothing**: exactly if the attempt was harmless. After any history the
tasks that can still be created, stacks being available, are as many as 64 minus those created so far
exactly if all attempts were. -/
theorem failed_creation_costs (k : Binary) :
    (∀ (s : TaskPool) (entryPoint : UInt64) (name : CString), s.CostsNothing k entryPoint name ↔ s.Harmless) ∧
    ∀ (s : TaskPool) {events : List PoolEvent} {w : PoolHistory}, Run (PoolStep k) (initial s) events w →
      w.pool.usedSlots.card = w.created + w.lost ∧ w.pool.nextPid.toNat = w.created + 1 ∧
      ((∀ events' w', Run (FundedStep k) w events' w' → w'.created = w.created + min (attempts events')
        (64 - w.created)) ↔ w.lost = 0) := by
  refine ⟨fun s entryPoint name => TaskPool.costsNothing_iff, fun s events w hr => ?_⟩
  obtain ⟨hslots, hpid⟩ := inv_run hr
  have hle := card_usedSlots_le w.pool
  refine ⟨hslots, hpid, fun hall => ?_, fun hlost events' w' hr' => ?_⟩
  · -- with 64 attempts the pool is full
    obtain ⟨events', w', hr', hn⟩ := exists_funded_run k w 64
    have hcreated := hall events' w' hr'
    obtain ⟨hused, -, hnew⟩ := funded_run hr'
    rw [hn] at hcreated hused
    omega
  · obtain ⟨hused, -, hnew⟩ := funded_run hr'
    omega

/-- One attempt while 3 pages are free. -/
theorem failed_creation_costs_slot : ∃ w : PoolHistory, w.created = 0 ∧ w.pool.usedSlots.card = 1 ∧
    ¬ ∀ events' w', Run (FundedStep plainBinary) w events' w' → w'.created = w.created + min (attempts events')
    (64 - w.created) := by
  let s : TaskPool := ⟨plainMachine (pmmInit (fun _ => 0) 0 4), fun _ => 0, fun _ _ => 0, 0⟩
  have hcostly : ¬ (initial s).pool.Harmless := by
    rintro (hall | hstack)
    · exact absurd (hall 0 (by decide)) (by decide)
    · exact Pmm.stackAvailable_iff.mp hstack (by decide)
  have hr := Run.single (@PoolStep.costly plainBinary (initial s) 0x101000 ⟨[97], by decide⟩ hcostly)
  obtain ⟨hslots, -, hiff⟩ := (failed_creation_costs plainBinary).2 s hr
  have hcreated : ((initial s).attempt plainBinary 0x101000 ⟨[97], by decide⟩).created = 0 := by decide +kernel
  refine ⟨{ (initial s).attempt plainBinary 0x101000 ⟨[97], by decide⟩ with lost := 1 }, hcreated, hslots.trans ?_,
    fun hall => absurd (hiff.mp hall) (by decide)⟩
  show ((initial s).attempt plainBinary 0x101000 ⟨[97], by decide⟩).created + 1 = 1
  rw [hcreated]

end PoolHistory

end KernelOs
