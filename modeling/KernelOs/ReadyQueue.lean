import KernelOs.Lib.Chain
import KernelOs.Lib.RoundRobin
import KernelOs.Lib.Run
import KernelOs.Scheduler

/-!
# The ready queue

The links of the tasks are a list of those that wait, and the scheduler's operations
are those of round robin on it.
-/

namespace KernelOs
open Lib

namespace Scheduler

structure Queued (s : Scheduler) (q : List TaskPtr) : Prop where
  seg : Seg (fun t => (s.tasks t).next) s.readyHead q none
  tail : s.readyTail = q.getLast?
  ready : ∀ t ∈ q, (s.tasks t).state = .ready

variable {s : Scheduler} {q : List TaskPtr} {t u : TaskPtr} {f : Task → Task}

@[simp] theorem setTask_same : (s.setTask t f).tasks t = f (s.tasks t) := Function.update_self ..

@[simp] theorem setTask_rsp0 : (s.setTask t f).rsp0 = s.rsp0 := rfl

theorem setTask_of_ne (h : u ≠ t) : (s.setTask t f).tasks u = s.tasks u := Function.update_of_ne h ..

theorem Queued.head_eq_none_iff (h : s.Queued q) : s.readyHead = none ↔ q = [] := h.seg.eq_none_iff

theorem Queued.eq_cons (h : s.Queued q) (hhead : s.readyHead = some t) : ∃ l, q = t :: l := by
  cases q with
  | nil =>
    rw [h.head_eq_none_iff.mpr rfl] at hhead
    cases hhead
  | cons u l =>
    obtain rfl := Option.some.inj (h.seg.1.symm.trans hhead)
    exact ⟨l, rfl⟩

theorem Queued.nodup (h : s.Queued q) : q.Nodup := h.seg.nodup

theorem Queued.congr (h : s.Queued q) {s' : Scheduler} (hhead : s'.readyHead = s.readyHead)
    (htail : s'.readyTail = s.readyTail)
    (hq : ∀ t ∈ q, (s'.tasks t).next = (s.tasks t).next ∧ (s'.tasks t).state = (s.tasks t).state) :
    s'.Queued q where
  seg := by
    rw [hhead]
    exact h.seg.congr fun t ht => (hq t ht).1
  tail := htail.trans h.tail
  ready t ht := (hq t ht).2.trans (h.ready t ht)

theorem Queued.setTask (h : s.Queued q) (ht : t ∉ q) (f : Task → Task) : (s.setTask t f).Queued q := by
  refine h.congr rfl rfl fun u hu => ?_
  have hne : u ≠ t := by rintro rfl; exact ht hu
  rw [setTask_of_ne hne]
  exact ⟨rfl, rfl⟩

theorem Queued.popReady (h : s.Queued (t :: q)) : (s.popReady t).Queued q := by
  unfold Scheduler.popReady clearTail
  have hseg := h.seg.2
  have hready : ∀ u ∈ q, (s.tasks u).state = .ready := fun u hu => h.ready u (List.mem_cons_of_mem _ hu)
  split
  · next hnone =>
    obtain rfl := hseg.eq_none_iff.mp hnone
    exact ⟨hnone, rfl, hready⟩
  · next hsome =>
    refine ⟨hseg, ?_, hready⟩
    rw [show s.readyTail = _ from h.tail, List.getLast?_cons]
    cases q with
    | nil => exact absurd hseg hsome
    | cons u q => simp [List.getLast?_cons]

theorem linkTail_tasks (s : Scheduler) (t u : TaskPtr) :
    (s.linkTail t).tasks u = { s.tasks u with next := ((s.linkTail t).tasks u).next } := by
  unfold linkTail
  split
  · rfl
  · next tail _ =>
    by_cases h : u = tail
    · rw [h, setTask_same]
    · rw [setTask_of_ne h]

theorem appendReady_tasks (s : Scheduler) (t u : TaskPtr) :
    (s.appendReady t).tasks u = { s.tasks u with next := ((s.appendReady t).tasks u).next } := by
  unfold Scheduler.appendReady
  split
  · rfl
  · exact linkTail_tasks s t u

theorem appendReady_rest (s : Scheduler) (t : TaskPtr) : (s.appendReady t).currentTask = s.currentTask ∧
    (s.appendReady t).rsp0 = s.rsp0 ∧ (s.appendReady t).cr3 = s.cr3 ∧
    (s.appendReady t).kernelPml4Phys = s.kernelPml4Phys := by
  unfold Scheduler.appendReady linkTail
  split
  · exact ⟨rfl, rfl, rfl, rfl⟩
  · split <;> exact ⟨rfl, rfl, rfl, rfl⟩

theorem popReady_rest (s : Scheduler) (t : TaskPtr) : (s.popReady t).tasks = s.tasks ∧
    (s.popReady t).currentTask = s.currentTask ∧ (s.popReady t).rsp0 = s.rsp0 ∧ (s.popReady t).cr3 = s.cr3 ∧
      (s.popReady t).kernelPml4Phys = s.kernelPml4Phys := by
  unfold Scheduler.popReady clearTail
  split <;> exact ⟨rfl, rfl, rfl, rfl, rfl⟩

theorem Queued.appendReady (h : s.Queued q) (ht : t ∉ q) (hnext : (s.tasks t).next = none)
    (hstate : (s.tasks t).state = .ready) :
    (s.appendReady t).Queued (q ++ [t]) := by
  unfold Scheduler.appendReady
  split
  · next hnone =>
    obtain rfl := h.head_eq_none_iff.mp hnone
    exact ⟨⟨rfl, hnext⟩, rfl, fun u hu => by rwa [List.mem_singleton.mp hu]⟩
  · next hsome =>
    cases List.eq_nil_or_concat q with
    | inl hq => exact absurd (h.head_eq_none_iff.mpr hq) hsome
    | inr hq =>
      obtain ⟨l, v, rfl⟩ := hq
      rw [List.concat_eq_append] at h ht ⊢
      have htail : s.readyTail = some v := by rw [h.tail, List.getLast?_concat]
      have htv : t ≠ v := fun hc => ht (by simp [hc])
      have hnodup := List.nodup_append.mp h.nodup
      obtain ⟨hseg, -⟩ := Seg.snoc_iff.mp h.seg
      refine ⟨?_, ?_, fun u hu => ?_⟩
      · simp only [linkTail, htail]
        rw [Seg.snoc_iff, Seg.snoc_iff, setTask_same, setTask_of_ne htv]
        refine ⟨⟨hseg.congr fun u hu => ?_, rfl⟩, hnext⟩
        rw [setTask_of_ne fun hc => hnodup.2.2 u hu v (List.mem_singleton_self v) hc]
      · simp
      · simp only
        rw [linkTail_tasks]
        rcases List.mem_append.mp hu with hu | hu
        · exact h.ready u hu
        · rwa [List.mem_singleton.mp hu]

structure Represents (s : Scheduler) (r : RoundRobin TaskPtr) : Prop where
  queued : s.Queued r.ready
  current : s.currentTask = r.current
  nodup : r.members.Nodup
  running : ∀ t, r.current = some t → (s.tasks t).state = .running

def TssLoaded (s : Scheduler) : Prop := ∀ t, s.currentTask = some t → s.rsp0 = (s.tasks t).kernelStackTop

theorem represents_init (s : Scheduler) : s.schedulerInit.Represents RoundRobin.empty where
  queued := ⟨rfl, rfl, by simp [RoundRobin.empty]⟩
  current := rfl
  nodup := List.nodup_nil
  running t ht := by cases ht

variable {r : RoundRobin TaskPtr}

theorem Represents.current_notMem (h : s.Represents r) (ht : r.current = some t) : t ∉ r.ready := by
  have := h.nodup
  rw [RoundRobin.members, ht, Option.toList_some, List.singleton_append, List.nodup_cons] at this
  exact this.1

/-- **`scheduler_add_task`** puts a new task at the end of the queue. -/
theorem Represents.add (h : s.Represents r) (ht : t ∉ r.members) :
    (s.schedulerAddTask (some t)).Represents (r.add t) := by
  obtain ⟨hcur, hq⟩ : t ∉ r.current.toList ∧ t ∉ r.ready := by simpa [RoundRobin.members] using ht
  have hq' : ((s.setState t .ready).setNext t none).Queued r.ready := (h.queued.setTask hq _).setTask hq _
  refine ⟨?_, ?_, ?_, fun u hu => ?_⟩
  · exact hq'.appendReady hq (by simp [setNext]) (by simp [setNext, setState])
  · exact (appendReady_rest ((s.setState t .ready).setNext t none) t).1.trans h.current
  · rw [RoundRobin.members_add]
    exact List.Nodup.append h.nodup (List.nodup_singleton t) (by simpa using ht)
  · have hne : u ≠ t := by rintro rfl; exact hcur (by simp [show r.current = some u from hu])
    rw [schedulerAddTask, appendReady_tasks]
    simp only [setNext, setState, setTask_of_ne hne]
    exact h.running u hu

theorem TssLoaded.add (h : s.TssLoaded) (t : TaskPtr) : (s.schedulerAddTask (some t)).TssLoaded := by
  intro u hu
  obtain ⟨k1, k2, -, -⟩ := appendReady_rest ((s.setState t .ready).setNext t none) t
  have hsp := h u (k1.symm.trans hu)
  rw [schedulerAddTask, k2, appendReady_tasks]
  by_cases hut : u = t
  · subst hut
    simpa [setNext, setState] using hsp
  · simpa [setNext, setState, setTask_of_ne hut] using hsp

theorem TssLoaded.setTask (h : s.TssLoaded)
    (ht : s.currentTask = some t → ∀ a, (f a).kernelStackTop = a.kernelStackTop) :
    (s.setTask t f).TssLoaded := by
  intro u hu
  by_cases hut : u = t
  · subst hut
    rw [setTask_same, ht hu]
    exact h u hu
  · rw [setTask_of_ne hut]
    exact h u hu

theorem popReady_current (s : Scheduler) (c : Option TaskPtr) (t : TaskPtr) :
    ({ s with currentTask := c } : Scheduler).popReady t = { s.popReady t with currentTask := c } := by
  unfold Scheduler.popReady clearTail
  split <;> simp_all

theorem Represents.of_same (h : s.Represents r) {s' : Scheduler} (hhead : s'.readyHead = s.readyHead)
    (htail : s'.readyTail = s.readyTail) (hcur : s'.currentTask = s.currentTask)
    (hm : ∀ t ∈ r.members, (s'.tasks t).next = (s.tasks t).next ∧ (s'.tasks t).state = (s.tasks t).state) :
    s'.Represents r where
  queued := h.queued.congr hhead htail fun t ht => hm t (List.mem_append_right _ ht)
  current := hcur.trans h.current
  nodup := h.nodup
  running t ht := (hm t (List.mem_append_left _ (by simp [ht]))).2.trans (h.running t ht)

theorem Represents.congr (h : s.Represents r) {s' : Scheduler} (htasks : s'.tasks = s.tasks)
    (hhead : s'.readyHead = s.readyHead) (htail : s'.readyTail = s.readyTail)
    (hcur : s'.currentTask = s.currentTask) : s'.Represents r :=
  h.of_same hhead htail hcur fun t _ => by rw [htasks]; exact ⟨rfl, rfl⟩

/-- A task outside of the queue may change, and a member in all but its link and state. -/
theorem Represents.setTask (h : s.Represents r)
    (ht : t ∈ r.members → ∀ a, (f a).next = a.next ∧ (f a).state = a.state) :
    (s.setTask t f).Represents r := by
  refine h.of_same rfl rfl rfl fun u hu => ?_
  by_cases hut : u = t
  · subst hut
    rw [setTask_same]
    exact ht hu _
  · rw [setTask_of_ne hut]
    exact ⟨rfl, rfl⟩

theorem Queued.take (h : s.Queued (t :: q)) {s' : Scheduler}
    (htasks : s'.tasks = ((s.popReady t).setTask t f).tasks) (hhead : s'.readyHead = (s.popReady t).readyHead)
    (htail : s'.readyTail = (s.popReady t).readyTail) (hcur : s'.currentTask = some t)
    (hrun : (f (s.tasks t)).state = .running) : s'.Represents ⟨some t, q⟩ := by
  refine ⟨?_, hcur, h.nodup, fun u hu => ?_⟩
  · have := h.popReady.setTask (List.nodup_cons.mp h.nodup).1 f
    exact this.congr hhead htail fun u _ => by rw [htasks]; exact ⟨rfl, rfl⟩
  · obtain rfl := Option.some.inj hu
    rw [htasks, setTask_same, (popReady_rest s t).1, hrun]

theorem Queued.startTask (h : s.Queued (t :: q)) : (s.startTask t).Represents ⟨some t, q⟩ := by
  refine h.take (f := fun t => { t with state := .running, next := none }) ?_ rfl rfl rfl rfl
  simp [Scheduler.startTask, setState, setNext, Scheduler.setTask]

theorem Queued.enterTask (h : s.Queued (t :: q)) : (s.enterTask t).Represents ⟨some t, q⟩ := by
  refine h.take (f := fun t => { t with state := .running }) ?_ ?_ ?_ ?_ rfl <;>
    simp [Scheduler.enterTask, popReady_current, setState, Scheduler.setTask]

theorem Queued.takeTask (h : s.Queued (t :: q)) : (s.takeTask t).Represents ⟨some t, q⟩ :=
  h.take (f := fun t => { t with state := .running }) rfl rfl rfl rfl rfl

theorem Represents.requeue (h : s.Represents r) (hcur : r.current = some t) :
    (s.requeue t).Queued (r.ready ++ [t]) := by
  have ht := h.current_notMem hcur
  unfold Scheduler.requeue
  rw [if_pos (h.running t hcur)]
  exact ((h.queued.setTask ht _).setTask ht _).appendReady ht (by simp) (by simp)

/-- **`scheduler_start`** dispatches the first task, if none is current. -/
theorem Represents.start (h : s.Represents r) : s.schedulerStart.1.Represents r.dispatch ∧
    s.schedulerStart.2 = match r.current, r.ready with
      | none, t :: _ => some ⟨none, t⟩
      | _, _ => none := by
  have hq := h.queued
  unfold RoundRobin.dispatch schedulerStart
  rw [h.current]
  cases hcur : r.current with
  | some c => exact ⟨h, rfl⟩
  | none =>
  cases hready : r.ready with
  | nil =>
    rw [hready] at hq
    rw [hq.head_eq_none_iff.mpr rfl]
    exact ⟨h, rfl⟩
  | cons t l =>
    rw [hready] at hq
    rw [hq.seg.1]
    refine ⟨hq.startTask.congr ?_ ?_ ?_ ?_, rfl⟩ <;> simp only <;> split <;> rfl

theorem TssLoaded.start (h : s.TssLoaded) : s.schedulerStart.1.TssLoaded := by
  unfold schedulerStart
  split
  · next t _ _ =>
    intro u hu
    obtain rfl : t = u := by
      simp only at hu
      split at hu <;> exact Option.some.inj hu
    simp only
    split <;> rfl
  · exact h

theorem Represents.firstEntry (h : s.Represents r) (hcur : r.current = none) :
    s.firstEntry.1.Represents r.dispatch ∧ s.firstEntry.2 = none := by
  have hq := h.queued
  unfold Scheduler.firstEntry
  split
  · next hnone =>
    rw [RoundRobin.dispatch, hcur, hq.head_eq_none_iff.mp hnone]
    exact ⟨h, rfl⟩
  · next t hsome =>
    obtain ⟨l, hready⟩ := hq.eq_cons hsome
    rw [hready] at hq
    rw [RoundRobin.dispatch, hcur, hready]
    exact ⟨hq.enterTask.congr rfl rfl rfl rfl, rfl⟩

/-- **`scheduler_tick`** and `task_yield`: the current task goes to the end of the queue and the first one runs. -/
theorem Represents.tick (h : s.Represents r) : s.schedulerTick.1.Represents r.rotate ∧
    s.schedulerTick.2 = match r.current, r.ready with
      | some c, t :: _ => some ⟨some c, t⟩
      | _, _ => none := by
  unfold schedulerTick
  rw [h.current]
  cases hcur : r.current with
  | none =>
    rw [RoundRobin.rotate_eq_dispatch hcur]
    exact h.firstEntry hcur
  | some c =>
  have hq := h.queued
  cases hready : r.ready with
  | nil =>
    rw [hready] at hq
    rw [hq.head_eq_none_iff.mpr rfl, RoundRobin.rotate, hready]
    exact ⟨h, rfl⟩
  | cons t l =>
    have hq₁ := h.requeue hcur
    rw [hready] at hq hq₁
    simp only [hq.seg.1, hq₁.seg.1]
    rw [RoundRobin.rotate, hready, hcur]
    exact ⟨hq₁.takeTask.congr rfl rfl rfl rfl, trivial⟩

theorem schedulerStart_of_none (h : s.readyHead = none) : s.schedulerStart = (s, none) := by
  unfold schedulerStart
  rw [h]
  cases s.currentTask <;> rfl

theorem schedulerTick_of_none (h : s.readyHead = none) : s.schedulerTick = (s, none) := by
  unfold schedulerTick Scheduler.firstEntry
  rw [h]
  cases s.currentTask <;> rfl

theorem TssLoaded.tick (h : s.TssLoaded) : s.schedulerTick.1.TssLoaded := by
  unfold schedulerTick Scheduler.firstEntry
  split
  · split
    · exact h
    · next t _ =>
      intro u hu
      obtain rfl : t = u := by
        simpa [Scheduler.enterTask, popReady_current, tssSetKernelStack, setState, Scheduler.setTask] using hu
      rfl
  · exact h
  · next c _ _ _ =>
    simp only
    split
    · unfold Scheduler.requeue
      split
      · exact h.add c
      · exact h
    · intro u hu
      obtain rfl := Option.some.inj hu
      rfl

def IsQueued (s : Scheduler) (t : TaskPtr) : Prop := ∃ l, Seg (fun t => (s.tasks t).next) s.readyHead l (some t)

theorem Queued.isQueued_iff (h : s.Queued q) : s.IsQueued t ↔ t ∈ q := by
  constructor
  · rintro ⟨l, hl⟩
    exact Seg.mem_of_seg hl h.seg
  · intro ht
    obtain ⟨l, l', rfl⟩ := List.append_of_mem ht
    obtain ⟨p, hseg, hp, -⟩ := Seg.append_iff.mp h.seg
    exact ⟨l, hp ▸ hseg⟩

end Scheduler

/-! ## Runs -/

inductive SchedulerCall where
  | addTask (task : Option TaskPtr)
  | start
  | tick
  | yield

structure SchedulerHistory where
  scheduler : Scheduler
  added : List TaskPtr

inductive SchedulerStep (w : SchedulerHistory) : SchedulerCall → SchedulerHistory → Prop
  | addNull : SchedulerStep w (.addTask none) { w with scheduler := w.scheduler.schedulerAddTask none }
  | addTask (t : TaskPtr) : w.scheduler.currentTask ≠ some t → ¬ w.scheduler.IsQueued t →
      SchedulerStep w (.addTask (some t)) ⟨w.scheduler.schedulerAddTask (some t), w.added ++ [t]⟩
  | start : SchedulerStep w .start { w with scheduler := w.scheduler.schedulerStart.1 }
  | tick : SchedulerStep w .tick { w with scheduler := w.scheduler.schedulerTick.1 }
  | yield : SchedulerStep w .yield { w with scheduler := w.scheduler.taskYield.1 }

/-- The scheduler goes round robin through the tasks added. -/
structure RoundRobinOf (w : SchedulerHistory) (r : RoundRobin TaskPtr) : Prop where
  represents : w.scheduler.Represents r
  members : r.members.Perm w.added
  tss : w.scheduler.TssLoaded

theorem RoundRobinOf.step {w w' : SchedulerHistory} {r : RoundRobin TaskPtr} {c : SchedulerCall}
    (h : RoundRobinOf w r) (hs : SchedulerStep w c w') : ∃ r', RoundRobinOf w' r' := by
  obtain ⟨hr, hperm, htss⟩ := h
  cases hs with
  | addNull => exact ⟨r, hr, hperm, htss⟩
  | addTask t hcur hq =>
    have ht : t ∉ r.members := by
      rw [RoundRobin.members, List.mem_append, not_or]
      refine ⟨fun hc => hcur ?_, fun hc => hq (hr.queued.isQueued_iff.mpr hc)⟩
      rw [hr.current, Option.mem_toList.mp hc]
    refine ⟨r.add t, hr.add ht, ?_, htss.add t⟩
    rw [RoundRobin.members_add]
    exact hperm.append_right [t]
  | start =>
    refine ⟨r.dispatch, hr.start.1, ?_, htss.start⟩
    rw [RoundRobin.members_dispatch]
    exact hperm
  | tick => exact ⟨r.rotate, hr.tick.1, RoundRobin.members_rotate.trans hperm, htss.tick⟩
  | yield => exact ⟨r.rotate, hr.tick.1, RoundRobin.members_rotate.trans hperm, htss.tick⟩

theorem RoundRobinOf.of_run {s : Scheduler} {calls : List SchedulerCall} {w : SchedulerHistory}
    (h : Run SchedulerStep ⟨s.schedulerInit, []⟩ calls w) : ∃ r, RoundRobinOf w r := by
  refine Run.invariant (I := fun w => ∃ r, RoundRobinOf w r) (fun w c w' hw hs => ?_) h
    ⟨RoundRobin.empty, Scheduler.represents_init s, List.Perm.refl _, fun t ht => by cases ht⟩
  obtain ⟨r, hr⟩ := hw
  exact hr.step hs

/-- **The ready queue over whole runs.** -/
theorem ready_queue_integrity {s : Scheduler} {calls : List SchedulerCall} {w : SchedulerHistory}
    (h : Run SchedulerStep ⟨s.schedulerInit, []⟩ calls w) :
    ∃ q, Seg (fun t => (w.scheduler.tasks t).next) w.scheduler.readyHead q none ∧ q.Nodup ∧
      w.scheduler.readyTail = q.getLast? ∧ (w.scheduler.readyHead = none ↔ w.scheduler.readyTail = none) ∧
      (∀ t ∈ q, (w.scheduler.tasks t).state = .ready) ∧
      (∀ c, w.scheduler.currentTask = some c → (w.scheduler.tasks c).state = .running ∧ c ∉ q ∧
        w.scheduler.rsp0 = (w.scheduler.tasks c).kernelStackTop) ∧
      (w.scheduler.currentTask.toList ++ q).Perm w.added ∧ w.added.Nodup := by
  obtain ⟨r, hr, hperm, htss⟩ := RoundRobinOf.of_run h
  refine ⟨r.ready, hr.queued.seg, hr.queued.nodup, hr.queued.tail, ?_, hr.queued.ready,
    fun c hc => ⟨?_, ?_, htss c hc⟩, ?_, hperm.nodup_iff.mp hr.nodup⟩
  · rw [hr.queued.head_eq_none_iff, hr.queued.tail, List.getLast?_eq_none_iff]
  · exact hr.running c (hr.current ▸ hc)
  · exact hr.current_notMem (hr.current ▸ hc)
  · rw [hr.current]
    exact hperm

def noTasks : Scheduler := ⟨fun _ => ⟨.new, 0, 0, 0, 0, none⟩, none, none, none, 0, 0, 0⟩

theorem ready_queue_integrity_two_tasks : ∃ w, Run SchedulerStep ⟨noTasks.schedulerInit, []⟩
    [.addTask (some 1), .addTask (some 2), .start, .tick] w ∧
      ∃ q, Seg (fun t => (w.scheduler.tasks t).next) w.scheduler.readyHead q none ∧
        (w.scheduler.currentTask.toList ++ q).Perm [1, 2] := by
  have h0 := Scheduler.represents_init noTasks
  have h1 := h0.add (t := 1) (by simp)
  have hrun := ((((@Run.nil _ _ SchedulerStep ⟨noTasks.schedulerInit, []⟩).snoc
    (.addTask 1 (by rw [h0.current]; simp [RoundRobin.empty])
      (by rw [h0.queued.isQueued_iff]; simp [RoundRobin.empty]))).snoc
    (.addTask 2 (by rw [h1.current]; simp [RoundRobin.empty, RoundRobin.add])
      (by rw [h1.queued.isQueued_iff]; simp [RoundRobin.empty, RoundRobin.add]))).snoc .start).snoc .tick
  obtain ⟨q, hseg, -, -, -, -, -, hperm, -⟩ := ready_queue_integrity hrun
  exact ⟨_, hrun, q, hseg, hperm⟩

/-! ## Turns -/

namespace Scheduler

/-- `L` lists the current task, which is RUNNING, and then the queue. -/
def InLine (s : Scheduler) (L : List TaskPtr) : Prop :=
  ∃ c q, s.currentTask = some c ∧ (s.tasks c).state = .running ∧
  Seg (fun t => (s.tasks t).next) s.readyHead q none ∧ L = c :: q

theorem Represents.inLine {s : Scheduler} {r : RoundRobin TaskPtr} (h : s.Represents r) {c : TaskPtr}
    (hc : r.current = some c) :
    s.InLine r.members := by
  refine ⟨c, r.ready, h.current.trans hc, h.running c hc, h.queued.seg, ?_⟩
  rw [RoundRobin.members, hc]
  rfl

theorem InLine.head {s : Scheduler} {L : List TaskPtr} (h : s.InLine L) : L.head? = s.currentTask := by
  obtain ⟨c, q, hc, -, -, rfl⟩ := h
  exact hc.symm

theorem Represents.ticks {s : Scheduler} {r : RoundRobin TaskPtr} (h : s.Represents r) (k : Nat) :
    ((fun s => s.schedulerTick.1)^[k] s).Represents (RoundRobin.rotate^[k] r) := by
  induction k with
  | zero => exact h
  | succ k ih =>
    rw [Function.iterate_succ_apply', Function.iterate_succ_apply']
    exact ih.tick.1

end Scheduler

/-- **Exact round robin.** Ticks rotate the line, so in as many ticks as there are tasks each gets its turn
once; a new task goes to the end of it. -/
theorem exact_round_robin {s : Scheduler} {calls : List SchedulerCall} {w : SchedulerHistory}
    (h : Run SchedulerStep ⟨s.schedulerInit, []⟩ calls w) {L : List TaskPtr} (hL : w.scheduler.InLine L) :
    let ticks := fun k => (fun s : Scheduler => s.schedulerTick.1)^[k] w.scheduler
    (∀ k, (ticks k).InLine (L.rotate (k % L.length))) ∧ (ticks L.length).InLine L ∧
    (∀ k, ∀ t ∈ L, ∃! i, i < L.length ∧ (ticks (k + 1 + i)).currentTask = some t) ∧
    ∀ k, ∀ t ∉ L, ((ticks k).schedulerAddTask (some t)).InLine (L.rotate (k % L.length) ++ [t]) := by
  intro ticks
  obtain ⟨r, hr, -, -⟩ := RoundRobinOf.of_run h
  obtain ⟨c, q, hc, -, hseg, rfl⟩ := hL
  have hcur : r.current = some c := hr.current.symm.trans hc
  have hq : q = r.ready := hseg.unique hr.queued.seg
  have hmembers : r.members = c :: q := by
    rw [RoundRobin.members, hcur, hq]
    rfl
  generalize c :: q = L at hmembers
  have hticks : ∀ k, (ticks k).InLine (L.rotate k) := fun k => by
    obtain ⟨⟨a, ha⟩, hm⟩ := RoundRobin.members_iterate hcur k
    rw [← hmembers, ← hm]
    exact (hr.ticks k).inLine ha
  refine ⟨fun k => ?_, ?_, fun k t ht => ?_, fun k t ht => ?_⟩
  · rw [List.rotate_mod]
    exact hticks k
  · have := hticks L.length
    rwa [List.rotate_length] at this
  · have hturn := RoundRobin.turn (hmembers ▸ hr.nodup) ht (k + 1)
    simp only [(hticks _).head] at hturn
    exact hturn
  · obtain ⟨⟨a, ha⟩, hm⟩ := RoundRobin.members_iterate hcur k
    rw [hmembers] at hm
    have hadd := (hr.ticks k).add (t := t) (by rw [hm, List.mem_rotate]; exact ht)
    rw [List.rotate_mod, ← hm, ← RoundRobin.members_add]
    exact hadd.inLine ha

theorem exact_round_robin_two_tasks : ∃ w, Run SchedulerStep ⟨noTasks.schedulerInit, []⟩
    [.addTask (some 1), .addTask (some 2), .start] w ∧
      ((fun s : Scheduler => s.schedulerTick.1)^[2] w.scheduler).InLine [1, 2] := by
  have h0 := Scheduler.represents_init noTasks
  have h1 := h0.add (t := 1) (by simp)
  have h2 := h1.add (t := 2) (by simp [RoundRobin.members_add])
  have hrun := (((@Run.nil _ _ SchedulerStep ⟨noTasks.schedulerInit, []⟩).snoc
    (.addTask 1 (by rw [h0.current]; simp [RoundRobin.empty])
      (by rw [h0.queued.isQueued_iff]; simp [RoundRobin.empty]))).snoc
    (.addTask 2 (by rw [h1.current]; simp [RoundRobin.empty, RoundRobin.add])
      (by rw [h1.queued.isQueued_iff]; simp [RoundRobin.empty, RoundRobin.add]))).snoc .start
  exact ⟨_, hrun, (exact_round_robin hrun (h2.start.1.inLine rfl)).2.1⟩

end KernelOs
