import KernelOs.KernelThreads
import KernelOs.PmmOwnership

/-!
# The task pool

`task_create_kernel_thread` with the process ids and names that only `task.cpp` uses,
called in turn with other users of the page allocator.
-/

namespace KernelOs
open Lib

/-- The kernel, with the fields `pid` and `name` of every `Task`, and `next_pid`. -/
structure TaskPool where
  machine : Machine
  pid : TaskPtr → UInt32
  name : TaskPtr → Nat → UInt8
  nextPid : UInt32

namespace TaskPool

/-- `copy_name`, from position `i` on. -/
def copyName (maxLen : Nat) (dst : Nat → UInt8) : Nat → List UInt8 → Nat → UInt8
  | i, [] => Function.update dst i 0
  | i, c :: src =>
    if i < maxLen - 1 then copyName maxLen (Function.update dst i c) (i + 1) src else Function.update dst i 0

def taskCreateKernelThread (k : Binary) (s : TaskPool) (entryPoint : UInt64) (name : CString) :
    Option TaskPtr × TaskPool :=
  match s.machine.taskCreateKernelThread k entryPoint with
  | (none, machine) => (none, { s with machine })
  | (some task, machine) =>
    (some task, { machine,
                  pid := Function.update s.pid task s.nextPid
                  name := Function.update s.name task (copyName 32 (s.name task) 0 name.val)
                  nextPid := s.nextPid + 1 })

end TaskPool

/-- The kernel, the tasks created so far with the names asked for, and what the allocator's other users hold. -/
structure TaskWorld where
  pool : TaskPool
  created : List (TaskPtr × CString)
  others : List (Finset Nat)
  reserved : Nat → Prop

namespace TaskWorld

def initial (s : TaskPool) (bytes : Nat → UInt8) (bitmapAddr pageCount : UInt64) : TaskWorld where
  pool := { s with
    machine := { s.machine with pmm := pmmInit bytes bitmapAddr pageCount, taskSlotUsed := fun _ => false }
    nextPid := 1 }
  created := []
  others := []
  reserved := (Ledger.init bytes bitmapAddr pageCount).reserved

def task (w : TaskWorld) (t : TaskPtr) : Task := w.pool.machine.scheduler.tasks t

def stackPages (w : TaskWorld) (t : TaskPtr) : Finset Nat := pagesAt (w.task t).kernelStackBase.toNat 4

/-- What the other users know of the allocator. -/
def othersLedger (w : TaskWorld) : Ledger := ⟨w.pool.machine.pmm, w.others, w.reserved⟩

/-- The stacks of the tasks are held as well. -/
def ledger (w : TaskWorld) : Ledger :=
  ⟨w.pool.machine.pmm, w.created.map (fun e => w.stackPages e.1) ++ w.others, w.reserved⟩

def create (k : Binary) (w : TaskWorld) (entryPoint : UInt64) (name : CString) : TaskWorld :=
  let (task, pool) := w.pool.taskCreateKernelThread k entryPoint name
  { w with pool, created := w.created ++ (task.map fun t => (t, name)).toList }

def useAllocator (w : TaskWorld) (op : PmmOp) : TaskWorld :=
  let l := w.othersLedger.step op
  { w with
    pool := { w.pool with machine := { w.pool.machine with pmm := l.pmm } }
    others := l.held
    reserved := l.reserved }

end TaskWorld

inductive TaskEvent where
  | create (entryPoint : UInt64) (name : CString)
  | useAllocator (op : PmmOp)

/-- The others free only what they hold, and reserve nothing that is held. -/
inductive TaskStep (k : Binary) : TaskWorld → TaskEvent → TaskWorld → Prop
  | create {w : TaskWorld} {entryPoint : UInt64} {name : CString} :
      TaskStep k w (.create entryPoint name) (w.create k entryPoint name)
  | useAllocator {w : TaskWorld} {op : PmmOp} : w.othersLedger.Legal op → w.ledger.Legal op →
      TaskStep k w (.useAllocator op) (w.useAllocator op)

/-! ## Names -/

theorem copyName_spec : ∀ (src : List UInt8) (dst : Nat → UInt8) (i : Nat), i ≤ 31 →
    HoldsString (TaskPool.copyName 32 dst i src) i (src.take (31 - i)) ∧
    ∀ j < i, TaskPool.copyName 32 dst i src j = dst j
  | [], dst, i, _ => by
    rw [List.take_nil]
    exact ⟨Function.update_self .., fun j hj => Function.update_of_ne (Nat.ne_of_lt hj) ..⟩
  | c :: src, dst, i, hi => by
    rw [TaskPool.copyName]
    by_cases hlt : i < 31
    · rw [if_pos hlt, show 31 - i = 31 - (i + 1) + 1 by omega, List.take_succ_cons]
      obtain ⟨hrest, hframe⟩ := copyName_spec src (Function.update dst i c) (i + 1) hlt
      refine ⟨⟨(hframe i (Nat.lt_succ_self i)).trans (Function.update_self ..), hrest⟩, fun j hj => ?_⟩
      rw [hframe j (Nat.lt_succ_of_lt hj), Function.update_of_ne (Nat.ne_of_lt hj)]
    · rw [if_neg hlt, show 31 - i = 0 by omega, List.take_zero]
      exact ⟨Function.update_self .., fun j hj => Function.update_of_ne (Nat.ne_of_lt hj) ..⟩

/-! ## The allocator's other users -/

theorem Machine.taskCreateKernelThread_alloc {k : Binary} {m m' : Machine} {entryPoint : UInt64} {t : TaskPtr}
    (h : m.taskCreateKernelThread k entryPoint = (some t, m')) :
    pmmAllocPages m.pmm kernelStackPages = ((m'.scheduler.tasks t).kernelStackBase, m'.pmm) := by
  unfold taskCreateKernelThread at h
  obtain ⟨he, -⟩ | ⟨i, -, -, he⟩ := m.allocateTaskSlot_spec
  · rw [he] at h
    cases (Prod.mk.inj h).1
  · rw [he] at h
    dsimp only at h
    split at h
    · cases (Prod.mk.inj h).1
    · obtain ⟨ht, rfl⟩ := Prod.mk.inj h
      rw [← Option.some.inj ht]
      simp

namespace TaskWorld

structure Inv (k : Binary) (bitmapAddr pageCount : UInt64) (w : TaskWorld) : Prop where
  ledger : Ledger.Inv bitmapAddr pageCount w.ledger
  slot : ∀ e ∈ w.created, ∃ i < 64, w.pool.machine.taskSlotUsed i = true ∧ e.1.toNat = k.taskPool.toNat + 80 * i
  distinct : (w.created.map Prod.fst).Nodup
  stack : ∀ e ∈ w.created, ∃ p, (w.task e.1).kernelStackBase.toNat = p * 4096 ∧
    (w.task e.1).kernelStackTop.toNat = (p + 4) * 4096 ∧ (w.task e.1).savedRsp.toNat + 56 = (p + 4) * 4096
  pid : ∀ (i : Nat) (h : i < w.created.length), (w.pool.pid w.created[i].1).toNat = i + 1
  nextPid : w.pool.nextPid.toNat = w.created.length + 1
  name : ∀ e ∈ w.created, HoldsString (w.pool.name e.1) 0 (e.2.val.take 31)

variable {k : Binary} {bitmapAddr pageCount : UInt64} {w : TaskWorld}

theorem inv_initial (k : Binary) (s : TaskPool) (bytes : Nat → UInt8) (bitmapAddr : UInt64)
    (h : pageCount.toNat < 2 ^ 52) :
    Inv k bitmapAddr pageCount (initial s bytes bitmapAddr pageCount) where
  ledger := Ledger.inv_init bytes bitmapAddr h
  slot _ he := absurd he List.not_mem_nil
  distinct := List.nodup_nil
  stack _ he := absurd he List.not_mem_nil
  pid _ hi := absurd hi (Nat.not_lt_zero _)
  nextPid := rfl
  name _ he := absurd he List.not_mem_nil

/-- A free of the others takes nothing from a stack. -/
theorem Inv.stacks_kept (hi : Inv k bitmapAddr pageCount w) {op : PmmOp}
    (hop : ∀ p ∈ Ledger.freed op, w.othersLedger.Holds p) :
    (w.created.map fun e => w.stackPages e.1).map (· \ Ledger.freed op) = w.created.map fun e =>
      w.stackPages e.1 := by
  obtain ⟨-, -, hcross⟩ := List.pairwise_append.mp hi.ledger.apart
  refine (List.map_congr_left fun S hS => ?_).trans (List.map_id _)
  refine Finset.sdiff_eq_self_of_disjoint (Finset.disjoint_right.mpr fun p hp => ?_)
  obtain ⟨R, hR, hpR⟩ := hop p hp
  exact Finset.disjoint_right.mp (hcross S hS R hR) hpR

theorem inv_useAllocator (hi : Inv k bitmapAddr pageCount w) {op : PmmOp} (hothers : w.othersLedger.Legal op)
    (hlegal : w.ledger.Legal op) :
    Inv k bitmapAddr pageCount (w.useAllocator op) := by
  refine ⟨(Ledger.inv_step hi.ledger hlegal).of_perm rfl ?_ rfl, hi.slot, hi.distinct,
    hi.stack, hi.pid, hi.nextPid, hi.name⟩
  show ((w.created.map fun e => w.stackPages e.1) ++ (w.othersLedger.step op).held).Perm (w.ledger.step op).held
  have hfree (h : ∀ p ∈ Ledger.freed op, w.othersLedger.Holds p) :
      ((w.created.map fun e => w.stackPages e.1) ++ w.others.map (· \ Ledger.freed op)).Perm
          (w.ledger.held.map (· \ Ledger.freed op)) := by
    rw [ledger, List.map_append, hi.stacks_kept h]
  cases op with
  | allocPage => exact List.perm_middle
  | allocPages count => exact List.perm_middle
  | markReserved baseAddr lengthBytes => exact hfree fun p hp => absurd hp (Finset.notMem_empty p)
  | freePage physAddr => exact hfree hothers.2
  | freePages physAddr count => exact hfree hothers.2

/-! ## New tasks -/

/-- A creation has succeeded: `t` is slot `i`, and its stack the pages from `p` on, which were free. -/
structure NewTask (k : Binary) (w : TaskWorld) (name : CString) (t : TaskPtr) (i p : Nat)
    (pool : TaskPool) : Prop where
  slot_lt : i < 64
  slot_free : w.pool.machine.taskSlotUsed i = false
  slot_used : pool.machine.taskSlotUsed = Function.update w.pool.machine.taskSlotUsed i true
  addr : t.toNat = k.taskPool.toNat + 80 * i
  pages : Finset.Ico p (p + 4) ⊆ w.pool.machine.pmm.clearPages
  base : (pool.machine.scheduler.tasks t).kernelStackBase.toNat = p * 4096
  top : (pool.machine.scheduler.tasks t).kernelStackTop.toNat = (p + 4) * 4096
  sp : (pool.machine.scheduler.tasks t).savedRsp.toNat + 56 = (p + 4) * 4096
  alloc : pmmAllocPages w.pool.machine.pmm Machine.kernelStackPages =
    ((pool.machine.scheduler.tasks t).kernelStackBase, pool.machine.pmm)
  others : ∀ u, u ≠ t → pool.machine.scheduler.tasks u = w.task u
  mem : Memory.ChangedIn w.pool.machine.cpu.mem pool.machine.cpu.mem
    (pool.machine.scheduler.tasks t).savedRsp.toNat ((p + 4) * 4096)
  pid : pool.pid = Function.update w.pool.pid t w.pool.nextPid
  name : pool.name = Function.update w.pool.name t (TaskPool.copyName 32 (w.pool.name t) 0 name.val)
  nextPid : pool.nextPid = w.pool.nextPid + 1

/-- A creation that fails takes a slot at most. -/
theorem create_spec (hi : Inv k bitmapAddr pageCount w) (hpool : k.taskPool.toNat + 64 * 80 ≤ 2 ^ 64)
    (entryPoint : UInt64) (name : CString) :
    (∃ used, w.create k entryPoint name =
      { w with pool := { w.pool with machine := { w.pool.machine with taskSlotUsed := used } } } ∧
      ∀ i, w.pool.machine.taskSlotUsed i = true → used i = true) ∨
    ∃ t i p pool, NewTask k w name t i p pool ∧
    w.create k entryPoint name = { w with pool, created := w.created ++ [(t, name)] } := by
  have h0 : 0 ∉ w.pool.machine.pmm.clearPages := hi.ledger.kept 0 hi.ledger.zero
  obtain ⟨used, he, hused⟩ | ⟨i, p, pmm, task, hlt, hfree, hsub, -, -, hbase, htop, hsp, he⟩ :=
    w.pool.machine.taskCreateKernelThread_spec (k := k) hi.ledger.ok h0 entryPoint
  · refine Or.inl ⟨used, ?_, hused⟩
    simp [create, TaskPool.taskCreateKernelThread, he]
  · have halloc := Machine.taskCreateKernelThread_alloc he
    refine Or.inr ⟨k.taskPool + 80 * UInt64.ofNat i, i, p,
      (w.pool.taskCreateKernelThread k entryPoint name).2, ?_, ?_⟩
    · have htask : (w.pool.machine.scheduler.setTask (k.taskPool + 80 * UInt64.ofNat i) fun _ => task).tasks
          (k.taskPool + 80 * UInt64.ofNat i) = task := Scheduler.setTask_same
      have hmem :=
        Memory.changedIn_storeWords w.pool.machine.cpu.mem task.savedRsp.toNat
          (switchRegs.map (fun _ => 0) ++ [entryPoint])
      simp only [TaskPool.taskCreateKernelThread, he]
      refine ⟨hlt, hfree, rfl, Machine.slot_toNat hpool hlt, hsub, ?_, ?_, ?_, halloc, fun u hu => ?_, ?_,
        rfl, rfl, rfl⟩
      · rw [htask, hbase]
      · rw [htask, htop]
      · rw [htask, hsp]
      · show (w.pool.machine.scheduler.setTask (k.taskPool + 80 * UInt64.ofNat i) fun _ => task).tasks u =
          w.pool.machine.scheduler.tasks u
        exact Scheduler.setTask_of_ne hu
      · rw [htask, ← hsp]
        exact hmem
    · simp [create, TaskPool.taskCreateKernelThread, he]

/-- Nothing of the task `t` has changed, nor a byte of its stack. -/
structure Untouched (w w' : TaskWorld) (t : TaskPtr) : Prop where
  task : w'.task t = w.task t
  pid : w'.pool.pid t = w.pool.pid t
  name : w'.pool.name t = w.pool.name t
  stack : ∀ x, (w.task t).kernelStackBase.toNat ≤ x → x < (w.task t).kernelStackTop.toNat →
    w'.pool.machine.cpu.mem x = w.pool.machine.cpu.mem x

/-- All pages of a stack are taken. -/
theorem Inv.stack_taken (hi : Inv k bitmapAddr pageCount w) {e : TaskPtr × CString} (he : e ∈ w.created)
    {p : Nat} (hp : p ∈ w.stackPages e.1) :
    p ∉ w.pool.machine.pmm.clearPages :=
  (hi.ledger.owned p ⟨_, List.mem_append_left _ (List.mem_map_of_mem he), hp⟩).2.1

theorem Inv.length_le (hi : Inv k bitmapAddr pageCount w) : w.created.length ≤ 64 := by
  have hsub : (w.created.map Prod.fst).toFinset ⊆ (Finset.range 64).image fun i =>
      UInt64.ofNat (k.taskPool.toNat + 80 * i) := by
    intro t ht
    obtain ⟨e, he, rfl⟩ := List.mem_map.mp (List.mem_toFinset.mp ht)
    obtain ⟨i, hlt, -, haddr⟩ := hi.slot e he
    exact Finset.mem_image.mpr ⟨i, Finset.mem_range.mpr hlt, by rw [← haddr, UInt64.ofNat_toNat]⟩
  calc w.created.length =
    (w.created.map Prod.fst).toFinset.card := by rw [List.toFinset_card_of_nodup hi.distinct, List.length_map]
    _ ≤ ((Finset.range 64).image fun i => UInt64.ofNat (k.taskPool.toNat + 80 * i)).card := Finset.card_le_card hsub
    _ ≤ (Finset.range 64).card := Finset.card_image_le
    _ = 64 := Finset.card_range 64

namespace NewTask

variable {name : CString} {t : TaskPtr} {i p : Nat} {pool : TaskPool}

theorem fresh (hn : NewTask k w name t i p pool) (hi : Inv k bitmapAddr pageCount w) :
    ∀ e ∈ w.created, e.1 ≠ t := by
  intro e he heq
  obtain ⟨j, -, hused, hj⟩ := hi.slot e he
  rw [heq, hn.addr] at hj
  obtain rfl : i = j := by omega
  rw [hn.slot_free] at hused
  cases hused

theorem untouched (hn : NewTask k w name t i p pool) (hi : Inv k bitmapAddr pageCount w) {e : TaskPtr × CString}
    (he : e ∈ w.created) :
    Untouched w { w with pool, created := w.created ++ [(t, name)] } e.1 := by
  have hne := hn.fresh hi e he
  refine ⟨hn.others e.1 hne, ?_, ?_, fun x h1 h2 => hn.mem x ?_⟩
  · show pool.pid e.1 = _
    rw [hn.pid, Function.update_of_ne hne]
  · show pool.name e.1 = _
    rw [hn.name, Function.update_of_ne hne]
  · -- the page of `x` is taken, those of the new stack were free
    obtain ⟨q, hq1, hq2, -⟩ := hi.stack e he
    have hpage : x / 4096 ∉ w.pool.machine.pmm.clearPages := by
      refine hi.stack_taken he (Finset.mem_Ico.mpr ?_)
      omega
    have hout : x / 4096 ∉ Finset.Ico p (p + 4) := fun hc => hpage (hn.pages hc)
    rw [Finset.mem_Ico] at hout
    have hsp := hn.sp
    omega

theorem base_ne_zero (hn : NewTask k w name t i p pool) (hi : Inv k bitmapAddr pageCount w) :
    (pool.machine.scheduler.tasks t).kernelStackBase ≠ 0 := by
  intro h0
  have hbase := hn.base
  rw [h0] at hbase
  obtain rfl : p = 0 := by
    simp only [UInt64.reduceToNat] at hbase
    omega
  exact hi.ledger.kept 0 hi.ledger.zero (hn.pages (Finset.mem_Ico.mpr ⟨Nat.le_refl 0, by decide⟩))

/-- The new stack is what the allocator grants. -/
theorem ledger (hn : NewTask k w name t i p pool) (hi : Inv k bitmapAddr pageCount w) :
    Ledger.Inv bitmapAddr pageCount ({ w with pool, created := w.created ++ [(t, name)] } : TaskWorld).ledger := by
  have hgranted : w.ledger.granted (.allocPages Machine.kernelStackPages) =
      pagesAt (pool.machine.scheduler.tasks t).kernelStackBase.toNat 4 := by
    have hresult : pmmAllocPages w.ledger.pmm Machine.kernelStackPages = _ := hn.alloc
    simp only [Ledger.granted, PmmOp.apply, hresult, if_neg (hn.base_ne_zero hi)]
    rfl
  have hstacks : (w.created.map fun e => pagesAt (pool.machine.scheduler.tasks e.1).kernelStackBase.toNat 4) =
      w.created.map fun e => w.stackPages e.1 := List.map_congr_left fun e he => by
        rw [stackPages, hn.others e.1 (hn.fresh hi e he)]
  have hstep : Ledger.Inv bitmapAddr pageCount (w.ledger.step (.allocPages Machine.kernelStackPages)) :=
    Ledger.inv_step hi.ledger trivial
  refine hstep.of_perm ?_ ?_ rfl
  · exact (Prod.mk.inj hn.alloc).2.symm
  · show ((w.created ++ [(t, name)]).map _ ++ w.others).Perm
      (w.ledger.granted (.allocPages Machine.kernelStackPages) :: w.ledger.held)
    rw [hgranted, List.map_append, List.append_assoc]
    show ((w.created.map fun e => pagesAt (pool.machine.scheduler.tasks e.1).kernelStackBase.toNat 4) ++ _ ::
      w.others).Perm _
    rw [hstacks]
    exact List.perm_middle

theorem slots (hn : NewTask k w name t i p pool) (hi : Inv k bitmapAddr pageCount w) :
    ∀ e ∈ w.created ++ [(t, name)],
    ∃ j < 64, pool.machine.taskSlotUsed j = true ∧ e.1.toNat = k.taskPool.toNat + 80 * j := by
  rw [hn.slot_used]
  intro e he
  rcases List.mem_append.mp he with he | he
  · obtain ⟨j, hj, hslot, hjaddr⟩ := hi.slot e he
    refine ⟨j, hj, ?_, hjaddr⟩
    by_cases hji : j = i
    · rw [hji, Function.update_self]
    · rwa [Function.update_of_ne hji]
  · rw [List.mem_singleton.mp he]
    exact ⟨i, hn.slot_lt, Function.update_self .., hn.addr⟩

theorem distinct (hn : NewTask k w name t i p pool) (hi : Inv k bitmapAddr pageCount w) :
    ((w.created ++ [(t, name)]).map Prod.fst).Nodup := by
  rw [List.map_append, List.nodup_append]
  refine ⟨hi.distinct, List.nodup_singleton _, fun a ha b hb hab => ?_⟩
  obtain ⟨e, he, rfl⟩ := List.mem_map.mp ha
  exact hn.fresh hi e he (hab.trans (List.mem_singleton.mp hb))

theorem pids (hn : NewTask k w name t i p pool) (hi : Inv k bitmapAddr pageCount w) (j : Nat)
    (hj : j < (w.created ++ [(t, name)]).length) :
    (pool.pid (w.created ++ [(t, name)])[j].1).toNat = j + 1 := by
  by_cases hold : j < w.created.length
  · rw [List.getElem_append_left hold]
    exact (congrArg UInt32.toNat (hn.untouched hi (List.getElem_mem hold)).pid).trans (hi.pid j hold)
  · have hj' : j < w.created.length + 1 := by simpa using hj
    obtain rfl : j = w.created.length := by omega
    rw [List.getElem_concat_length rfl, hn.pid, Function.update_self]
    exact hi.nextPid

theorem inv (hn : NewTask k w name t i p pool) (hi : Inv k bitmapAddr pageCount w) :
    Inv k bitmapAddr pageCount { w with pool, created := w.created ++ [(t, name)] } := by
  have hlen := hi.length_le
  refine ⟨hn.ledger hi, hn.slots hi, hn.distinct hi, fun e he => ?_, hn.pids hi, ?_, fun e he => ?_⟩
  · rcases List.mem_append.mp he with he | he
    · rw [(hn.untouched hi he).task]
      exact hi.stack e he
    · rw [List.mem_singleton.mp he]
      exact ⟨p, hn.base, hn.top, hn.sp⟩
  · -- at most 64 tasks were created, so the counter has not wrapped
    show pool.nextPid.toNat = (w.created ++ [(t, name)]).length + 1
    rw [hn.nextPid, UInt32.toNat_add, hi.nextPid, List.length_append, List.length_singleton]
    simp only [UInt32.reduceToNat]
    omega
  · rcases List.mem_append.mp he with he | he
    · rw [(hn.untouched hi he).name]
      exact hi.name e he
    · rw [List.mem_singleton.mp he]
      show HoldsString (pool.name t) 0 _
      rw [hn.name, Function.update_self]
      exact (copyName_spec name.val _ 0 (Nat.zero_le _)).1

end NewTask

theorem untouched_create (hi : Inv k bitmapAddr pageCount w) (hpool : k.taskPool.toNat + 64 * 80 ≤ 2 ^ 64)
    (entryPoint : UInt64) (name : CString) {e : TaskPtr × CString} (he : e ∈ w.created) :
    Untouched w (w.create k entryPoint name) e.1 := by
  obtain ⟨used, hw, -⟩ | ⟨t, i, p, pool, hn, hw⟩ := create_spec hi hpool entryPoint name
  · rw [hw]
    exact ⟨rfl, rfl, rfl, fun _ _ _ => rfl⟩
  · rw [hw]
    exact hn.untouched hi he

theorem inv_create (hi : Inv k bitmapAddr pageCount w) (hpool : k.taskPool.toNat + 64 * 80 ≤ 2 ^ 64)
    (entryPoint : UInt64) (name : CString) :
    Inv k bitmapAddr pageCount (w.create k entryPoint name) := by
  obtain ⟨used, hw, hused⟩ | ⟨t, i, p, pool, hn, hw⟩ := create_spec hi hpool entryPoint name
  · rw [hw]
    refine ⟨hi.ledger, fun e he => ?_, hi.distinct, hi.stack, hi.pid, hi.nextPid, hi.name⟩
    obtain ⟨i, hlt, hslot, haddr⟩ := hi.slot e he
    exact ⟨i, hlt, hused i hslot, haddr⟩
  · rw [hw]
    exact hn.inv hi

theorem inv_run {s : TaskPool} {bytes : Nat → UInt8} (hsmall : pageCount.toNat < 2 ^ 52)
    (hpool : k.taskPool.toNat + 64 * 80 ≤ 2 ^ 64) {events : List TaskEvent}
    (hr : Run (TaskStep k) (initial s bytes bitmapAddr pageCount) events w) : Inv k bitmapAddr pageCount w := by
  refine hr.invariant (I := Inv k bitmapAddr pageCount) (fun w e w' hi hs => ?_)
    (inv_initial k s bytes bitmapAddr hsmall)
  cases hs with
  | create => exact inv_create hi hpool _ _
  | useAllocator hothers hlegal => exact inv_useAllocator hi hothers hlegal

/-! ## Identities and stacks -/

/-- The bytes of a stack and those of a page outside its pages. -/
theorem Inv.apart_page (hi : Inv k bitmapAddr pageCount w) {e : TaskPtr × CString} (he : e ∈ w.created)
    {p : Nat} (hp : p ∉ w.stackPages e.1) :
    (p + 1) * 4096 ≤ (w.task e.1).kernelStackBase.toNat ∨ (w.task e.1).kernelStackTop.toNat ≤ p * 4096 := by
  obtain ⟨q, hbase, htop, -⟩ := hi.stack e he
  rw [stackPages, pagesAt, hbase, Nat.mul_div_cancel _ (by decide), Finset.mem_Ico] at hp
  omega

theorem Inv.apart_stack (hi : Inv k bitmapAddr pageCount w) {e e' : TaskPtr × CString} (he : e ∈ w.created)
    (he' : e' ∈ w.created) (hdisj : Disjoint (w.stackPages e.1) (w.stackPages e'.1)) :
    (w.task e.1).kernelStackTop.toNat ≤ (w.task e'.1).kernelStackBase.toNat ∨
      (w.task e'.1).kernelStackTop.toNat ≤ (w.task e.1).kernelStackBase.toNat := by
  obtain ⟨q, hbase, htop, -⟩ := hi.stack e he
  obtain ⟨q', hbase', htop', -⟩ := hi.stack e' he'
  rw [stackPages, stackPages, pagesAt, pagesAt, hbase, hbase', Nat.mul_div_cancel _ (by decide),
    Nat.mul_div_cancel _ (by decide), Finset.disjoint_left] at hdisj
  by_contra hcontra
  refine hdisj (Finset.mem_Ico.mpr (show q ≤ max q q' ∧ max q q' < q + 4 by omega)) (Finset.mem_Ico.mpr ?_)
  omega

/-- **Tasks never share identity or stack.** The tasks are in the order of their creation. -/
theorem task_identity {k : Binary} {pageCount : UInt64} (hsmall : pageCount.toNat < 2 ^ 52)
    (hpos : 0 < k.taskPool.toNat) (hpool : k.taskPool.toNat + 64 * 80 ≤ 2 ^ 64) (s : TaskPool)
    (bytes : Nat → UInt8) (bitmapAddr : UInt64) {events : List TaskEvent} {w : TaskWorld}
    (hr : Run (TaskStep k) (initial s bytes bitmapAddr pageCount) events w) :
    (∀ e ∈ w.created, e.1 ≠ 0 ∧ ∃ i < 64, e.1.toNat = k.taskPool.toNat + 80 * i) ∧ (w.created.map Prod.fst).Nodup ∧
    (w.created.Pairwise fun e e' => w.pool.pid e.1 < w.pool.pid e'.1) ∧
    (∀ e ∈ w.created, (w.task e.1).kernelStackTop.toNat = (w.task e.1).kernelStackBase.toNat + 16384 ∧
      (w.task e.1).savedRsp.toNat + 56 = (w.task e.1).kernelStackTop.toNat ∧
      HoldsString (w.pool.name e.1) 0 (e.2.val.take 31)) ∧
    (w.created.Pairwise fun e e' => (w.task e.1).kernelStackTop.toNat ≤ (w.task e'.1).kernelStackBase.toNat ∨
      (w.task e'.1).kernelStackTop.toNat ≤ (w.task e.1).kernelStackBase.toNat) ∧
    (∀ e ∈ w.created, ∀ p, (∃ R ∈ w.others, p ∈ R) ∨ w.reserved p →
      (p + 1) * 4096 ≤ (w.task e.1).kernelStackBase.toNat ∨ (w.task e.1).kernelStackTop.toNat ≤ p * 4096) ∧
    ∀ (entryPoint : UInt64) (name : CString), ∀ e ∈ w.created, Untouched w (w.create k entryPoint name) e.1 := by
  have hi : Inv k bitmapAddr pageCount w := inv_run hsmall hpool hr
  obtain ⟨hstacks, -, hcross⟩ := List.pairwise_append.mp hi.ledger.apart
  refine ⟨fun e he => ?_, hi.distinct, ?_, fun e he => ?_, ?_, fun e he p hp => hi.apart_page he fun hmem => ?_,
    fun entryPoint name e he => untouched_create hi hpool entryPoint name he⟩
  · obtain ⟨i, hlt, -, haddr⟩ := hi.slot e he
    refine ⟨fun h0 => ?_, i, hlt, haddr⟩
    rw [h0] at haddr
    simp only [UInt64.reduceToNat] at haddr
    omega
  · refine List.pairwise_iff_getElem.mpr fun i j hilt hjlt hij => ?_
    rw [UInt32.lt_iff_toNat_lt, hi.pid i hilt, hi.pid j hjlt]
    exact Nat.succ_lt_succ hij
  · obtain ⟨p, hbase, htop, hsp⟩ := hi.stack e he
    exact ⟨by omega, hsp.trans htop.symm, hi.name e he⟩
  · exact (List.pairwise_map.mp hstacks).imp_of_mem fun he he' hdisj => hi.apart_stack he he' hdisj
  · have hmine : w.stackPages e.1 ∈ w.created.map fun e => w.stackPages e.1 := List.mem_map_of_mem he
    rcases hp with ⟨R, hR, hpR⟩ | hres
    · exact Finset.disjoint_left.mp (hcross _ hmine R hR) hmem hpR
    · exact (hi.ledger.owned p ⟨_, List.mem_append_left _ hmine, hmem⟩).2.2 hres

/-- Two threads, with an allocation of someone else's in between. -/
theorem task_identity_two_threads : ∃ w :
    TaskWorld, w.created.map Prod.fst = [0x110000, 0x110050] ∧ w.others = [{6}] ∧
    w.created.Pairwise fun e e' => w.pool.pid e.1 < w.pool.pid e'.1 := by
  let s : TaskPool := ⟨plainMachine (pmmInit (fun _ => 0) 0x1000 64), fun _ => 0, fun _ _ => 0, 0⟩
  let w₀ := initial s (fun _ => 0) 0x1000 64
  have hr := ((Run.single (s := w₀) (@TaskStep.create plainBinary w₀ 0x101000 ⟨[97], by decide⟩)).snoc
    (@TaskStep.useAllocator plainBinary _ .allocPage trivial trivial)).snoc
        (@TaskStep.create plainBinary _ 0x102000 ⟨[98], by decide⟩)
  obtain ⟨-, -, hpid, -⟩ := task_identity (by decide) (by decide) (by decide) s (fun _ => 0) 0x1000 hr
  exact ⟨_, by decide +kernel, by decide +kernel, hpid⟩

end TaskWorld

end KernelOs
