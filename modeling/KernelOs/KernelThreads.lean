import KernelOs.KernelSpaces
import KernelOs.Preemption

/-!
# Kernel threads

Runs of the machine from the boot code's start on: what the interrupted code finds when
it goes on, whether interrupts stay enabled, and whose context the CPU is in.
-/

namespace KernelOs
open Lib

variable {k : Binary} {m : Machine} {h h₁ h' : History} {r : RoundRobin TaskPtr} {e : MachineEvent}

/-! ## What can happen next -/

theorem Preempted.exists_spawn (hk : SystemV k) (hi : Preempted k h r) (hcur : r.current = none)
    {entryPoint : UInt64} (hentry : entryPoint ≠ k.tickReturn) (hroomy : h.machine.Roomy) :
    ∃ h' t, PreemptionStep k h (.spawn entryPoint 0) h' ∧ Preempted k h' (r.add t) ∧
      h'.machine = h.machine.spawn k entryPoint 0 := by
  have hcontext := hi.context.trans hcur
  obtain ⟨r', hi', hr'⟩ := hi.spawn hk hcontext hentry 0
  obtain ⟨t, rfl⟩ := hr' hroomy
  refine ⟨_, t, ⟨?_, ?_, fun he => by cases he⟩, hi', History.record_machine ..⟩
  · rw [History.record_machine]
    exact .spawn _ _ hcontext hentry
  · rw [History.record_machine]

theorem Preempted.exists_sti (hi : Preempted k h r) (hcur : r.current = none) :
    ∃ h', PreemptionStep k h .sti h' ∧ Preempted k h' r ∧ h'.machine.cpu = h.machine.cpu.sti :=
  ⟨_, ⟨.sti (hi.context.trans hcur), rfl, fun he => by cases he⟩, hi.sti, rfl⟩

theorem Preempted.exists_start (hk : SystemV k) {t : TaskPtr} {l : List TaskPtr}
    (hi : Preempted k h ⟨none, t :: l⟩) :
    ∃ h', PreemptionStep k h .start h' ∧ Preempted k h' ⟨some t, l⟩ ∧ h'.interrupted = h.interrupted := by
  obtain ⟨hnil, -⟩ | ⟨u, l', hready, hi', -⟩ := hi.start hk hi.context
  · cases hnil
  · cases hready
    exact ⟨_, ⟨.start hi.context, rfl, fun he => by cases he⟩, hi', rfl⟩

theorem Preempted.exists_tick (hk : SystemV k) {c t : TaskPtr} {l : List TaskPtr}
    (hi : Preempted k h ⟨some c, t :: l⟩) :
    ∃ h', PreemptionStep k h .tick h' ∧ Preempted k h' ⟨some t, l ++ [c]⟩ ∧
      h'.interrupted = Function.update h.interrupted c (some h.machine.cpu) := by
  refine ⟨_, ⟨.tick, (History.record_tick _ hi.context).symm, fun _ => ?_⟩, (hi.tick_switch hk rfl rfl).1, rfl⟩
  rw [hi.context]
  exact Option.some_ne_none c

/-! ## A machine -/

def plainBinary : Binary where
  irq0 := 0x101000
  irqHandler := 0x102000
  stubReturn := 0x101040
  tickReturn := 0x103080
  taskPool := 0x110000
  stackBottom := 0x120000
  stackTop := 0x124000
  frameBytes := 8
  toSwitch s c := match s.schedulerTick.2 with
    | none => c
    | some switch => { c.push 0x103080 with
        gpr := Function.update (Function.update c.gpr .rdi (pointer switch.oldTask)) .rsi switch.newTask }
  fromSwitch := Cpu.ret
  noSwitch _ := Cpu.ret
  startSwitch s c := match s.schedulerStart.2 with
    | none => c
    | some switch => { c.push 0x104040 with
        gpr := Function.update (Function.update c.gpr .rdi (pointer switch.oldTask)) .rsi switch.newTask }

theorem atSwitch_push (c : Cpu) (v : UInt64) (switch : ContextSwitch) (hroom : 8 ≤ c.rsp.toNat) :
    AtSwitch plainBinary c { c.push v with
      gpr := Function.update (Function.update c.gpr .rdi (pointer switch.oldTask)) .rsi switch.newTask }
        switch := by
  have hrsp : (c.push v).rsp.toNat = c.rsp.toNat - 8 := Cpu.toNat_sub_eight hroom
  refine ⟨?_, ?_, ?_, ?_, ?_, rfl, rfl⟩
  · dsimp only
    rw [Function.update_of_ne (by decide), Function.update_self]
  · dsimp only
    rw [Function.update_self]
  · change c.rsp.toNat ≤ (c.push v).rsp.toNat + 8
    omega
  · change (c.push v).rsp.toNat + 8 ≤ c.rsp.toNat
    omega
  · exact Memory.ChangedIn.store64 (a := (c.push v).rsp.toNat) c.mem v (Nat.le_of_eq hrsp.symm) (by omega)

theorem systemV_plainBinary : SystemV plainBinary where
  frameBytes_le := by decide
  taskPool_pos := by decide
  taskPool_lt := by decide
  toSwitch s c switch hs hroom := by
    change AtSwitch plainBinary c (match s.schedulerTick.2 with | none => c | some switch => _) switch
    rw [hs]
    exact atSwitch_push c _ switch hroom
  tickReturn s c switch hs hroom := by
    simp only [plainBinary, hs]
    exact Memory.load64_store64 c.mem _ _
  fromSwitch s c c' switch hs hroom hback hframe := by
    have hto : plainBinary.toSwitch s c = { c.push 0x103080 with
        gpr := Function.update (Function.update c.gpr .rdi (pointer switch.oldTask)) .rsi switch.newTask } := by
      simp only [plainBinary, hs]
    rw [hto] at hback hframe
    have hpush : (c.push 0x103080).rsp.toNat = c.rsp.toNat - 8 := Cpu.toNat_sub_eight hroom
    change 8 ≤ c.rsp.toNat at hroom
    have hrsp : c'.rsp = c.rsp := by
      rw [hback.rsp]
      exact UInt64.sub_add_cancel c.rsp 8
    have hlo : (c.push 0x103080).rsp.toNat + 8 = c.rsp.toNat := by omega
    have hpop : c'.mem.load64 c'.rsp.toNat = c.mem.load64 c.rsp.toNat := by
      rw [hrsp]
      refine (Memory.AgreeOn.load64 (hframe.symm.trans ?_) (Nat.le_of_eq hlo) (Nat.le_refl _))
      rw [hlo]
      exact fun x hx _ =>
        Memory.store64_of_lt c.mem _ (Or.inr (by change (c.push 0x103080).rsp.toNat + 8 ≤ x; omega))
    exact ⟨congrArg (· + 8) hrsp, hpop, Memory.ChangedIn.refl _ _ _⟩
  noSwitch s c _ _ := ⟨rfl, rfl, Memory.ChangedIn.refl _ _ _⟩
  startSwitch s c switch hs hroom := by
    change AtSwitch plainBinary c (match s.schedulerStart.2 with | none => c | some switch => _) switch
    rw [hs]
    exact atSwitch_push c _ switch hroom

/-- In `kernel_main`, before the first task is created. -/
def plainMachine (pmm : Pmm) : Machine where
  cpu :=
    { gpr := fun _ => 0, rsp := 0x123FF0, rip := 0x105000, rflags := 0x2, cs := 0x08, ss := 0x10
      mem := fun _ => 0 }
  scheduler := { noTasks with rsp0 := 0x124000 }.schedulerInit
  pmm
  taskSlotUsed _ := false
  context := none

theorem bootState_plainMachine {pmm : Pmm} (hok : pmm.Ok)
    (hpages : ∀ p ∈ pmm.clearPages, 0 < p ∧ ¬ (256 ≤ p ∧ p < 768)) :
    BootState plainBinary (plainMachine pmm) where
  pmm := hok
  pages p hp := by
    have := hpages p hp
    change p ≠ 0 ∧ ((p + 1) * 4096 ≤ 0x120000 ∨ 0x124000 ≤ p * 4096)
    omega
  slots _ := rfl
  scheduler := ⟨_, rfl⟩
  context := rfl
  ring := by
    change (0x08 : UInt64) &&& 3 = 0
    decide
  fits _ := by
    change 0x120000 + 8 + 247 ≤ 0x123FF0 ∧ 0x123FF0 ≤ 0x124000
    decide

theorem entryPoint_ne (entryPoint : UInt64) (h : entryPoint ≠ 0x103080) : entryPoint ≠ plainBinary.tickReturn := h

theorem exists_two_tasks {pmm : Pmm} (hok : pmm.Ok) (hpages : ∀ p ∈ pmm.clearPages, 0 < p ∧ ¬ (256 ≤ p ∧ p < 768))
    (hclear : Finset.Ico 768 (768 + 12) ⊆ pmm.clearPages) :
    ∃ h t u, Run (PreemptionStep plainBinary) (History.start (plainMachine pmm)) [.spawn 0x106000 0,
      .spawn 0x107000 0, .sti] h ∧
      Preempted plainBinary h ⟨none, [t, u]⟩ ∧ h.machine.cpu.interruptFlag = true := by
  have hk := systemV_plainBinary
  have h0 : 0 ∉ pmm.clearPages := fun hc => absurd (hpages 0 hc).1 (Nat.lt_irrefl 0)
  have hi₀ := Preempted.of_boot (bootState_plainMachine hok hpages)
  have hroomy₀ : (plainMachine pmm).Roomy :=
    ⟨⟨0, by decide, rfl⟩, 768, (Finset.Ico_subset_Ico_right (by decide : 768 + 4 ≤ 768 + 12)).trans hclear⟩
  have hroomy₁ : ((plainMachine pmm).spawn plainBinary 0x106000 0).Roomy := by
    have hfree : ∀ i, (plainMachine pmm).taskSlotUsed i = false := fun _ => rfl
    have hclear' : Finset.Ico 768 (768 + 12) ⊆ (plainMachine pmm).pmm.clearPages := hclear
    exact Machine.Roomy.of_free (Nat.zero_ne_one) (by decide) (by decide) (hfree 0) (hfree 1) hclear' hok h0 0
  obtain ⟨h₁, t, hs₁, hi₁, hm₁⟩ := hi₀.exists_spawn hk rfl (entryPoint_ne 0x106000 (by decide)) hroomy₀
  obtain ⟨h₂, u, hs₂, hi₂, -⟩ := hi₁.exists_spawn hk rfl (entryPoint_ne 0x107000 (by decide)) (hm₁ ▸ hroomy₁)
  obtain ⟨h₃, hs₃, hi₃, hcpu⟩ := hi₂.exists_sti rfl
  have hrun := ((Run.single hs₁).snoc hs₂).snoc hs₃
  have hflag : h₃.machine.cpu.interruptFlag = true := by
    rw [hcpu]
    exact Cpu.interruptFlag_sti
  exact ⟨h₃, t, u, hrun, hi₃, hflag⟩

/-! ## Preemption -/

theorem Preempted.of_run (hk : SystemV k) (hm : BootState k m) {events : List MachineEvent}
    (hrun : Run (PreemptionStep k) (History.start m) events h) : ∃ r, Preempted k h r := by
  refine Run.invariant (I := fun h => ∃ r, Preempted k h r) (fun h e h' hi hs => ?_) hrun ⟨_, Preempted.of_boot hm⟩
  obtain ⟨r, hi⟩ := hi
  exact hi.step hk hs

/-- `scheduler_start` or a tick puts the CPU in the current task's context. -/
theorem Preempted.goesOn (hk : SystemV k) (hi : Preempted k h r) (hs : PreemptionStep k h e h')
    (he : e = .start ∨ e = .tick) :
    ∃ r', Preempted k h' r' ∧ ∀ t, r'.current = some t →
      GoesOn h'.machine.scheduler t (h'.entryPoint t) h'.machine.cpu (h'.interrupted t) := by
  obtain ⟨hstep, hrec, htick⟩ := hs
  rw [hrec]
  generalize h'.machine = m' at hstep
  rcases he with rfl | rfl
  · cases hstep with
    | start hcontext =>
      rw [History.record_start]
      obtain ⟨-, he⟩ | ⟨t, l, -, hr', hgoes, -⟩ := hi.start hk hcontext
      · rw [he]
        refine ⟨r, hi, fun t ht => ?_⟩
        rw [hi.context.symm.trans hcontext] at ht
        cases ht
      · refine ⟨_, hr', fun u hu => ?_⟩
        obtain rfl := Option.some.inj hu
        exact hgoes
  · cases hstep with
    | tick =>
      obtain ⟨c, hc⟩ := Option.ne_none_iff_exists'.mp (htick rfl)
      have hcur : r.current = some c := hi.context.symm.trans hc
      rw [History.record_tick _ hc]
      cases hready : r.ready with
      | nil =>
        obtain ⟨hr', hcpu⟩ := hi.tick_alone hk hcur hready
        refine ⟨r, hr'.interrupt hcur h.machine.cpu, fun t ht => ?_⟩
        obtain rfl := Option.some.inj (hcur.symm.trans ht)
        change GoesOn _ c (h.entryPoint c) (h.machine.timerInterrupt k).cpu
          (Function.update h.interrupted c (some h.machine.cpu) c)
        rw [Function.update_self]
        exact hcpu
      | cons t l =>
        obtain ⟨hr', hgoes, -⟩ := hi.tick_switch hk hcur hready
        refine ⟨_, hr', fun u hu => ?_⟩
        obtain rfl := Option.some.inj hu
        have hne : t ≠ c := by
          rintro rfl
          exact hi.represents.current_notMem hcur (by simp [hready])
        change GoesOn _ t (h.entryPoint t) (h.machine.timerInterrupt k).cpu
          (Function.update h.interrupted c (some h.machine.cpu) t)
        rw [Function.update_of_ne hne]
        exact hgoes

/-- **Preemption is transparent.** A task that was interrupted goes on with all its registers, and one that
was not begins at its entry point on an empty stack. -/
theorem preemption_transparent (hk : SystemV k) (hm : BootState k m) {events : List MachineEvent}
    (hrun : Run (PreemptionStep k) (History.start m) events h) (hs : PreemptionStep k h e h')
    (he : e = .start ∨ e = .tick) {t : TaskPtr} (ht : h'.machine.scheduler.currentTask = some t) :
    h'.machine.context = some t ∧
    (∀ c, h'.interrupted t = some c → h'.machine.cpu.gpr = c.gpr ∧ h'.machine.cpu.rsp = c.rsp ∧
      h'.machine.cpu.rip = c.rip ∧
      h'.machine.cpu.rflags = c.rflags ∧ h'.machine.cpu.cs = c.cs ∧ h'.machine.cpu.ss = c.ss) ∧
    (h'.interrupted t = none → h'.machine.cpu.rip = h'.entryPoint t ∧
      h'.machine.cpu.rsp = (h'.machine.scheduler.tasks t).kernelStackTop ∧
      ∀ r ∈ [Reg.rbx, .rbp, .r12, .r13, .r14, .r15], h'.machine.cpu.gpr r = 0) := by
  obtain ⟨r, hi⟩ := Preempted.of_run hk hm hrun
  obtain ⟨r', hi', hgoes⟩ := hi.goesOn hk hs he
  have hcur : r'.current = some t := hi'.represents.current.symm.trans ht
  have hgoes := hgoes t hcur
  refine ⟨hi'.context.trans hcur, fun c hc => ?_, fun hn => ?_⟩
  · rw [hc] at hgoes
    rw [show h'.machine.cpu = { c with mem := h'.machine.cpu.mem } from hgoes]
    exact ⟨rfl, rfl, rfl, rfl, rfl, rfl⟩
  · rw [hn] at hgoes
    obtain ⟨h1, h2, h3⟩ := hgoes
    refine ⟨h1, h2, fun r hr => h3 r ?_⟩
    cases r <;> first | decide | exact absurd hr (by decide)

theorem kernelPmm_clear : (kernelPmm (fun _ => 0) 0).Ok ∧
    (∀ p ∈ (kernelPmm (fun _ => 0) 0).clearPages, 0 < p ∧ ¬ (256 ≤ p ∧ p < 768)) ∧
    Finset.Ico 768 (768 + 12) ⊆ (kernelPmm (fun _ => 0) 0).clearPages := by
  refine ⟨(kernelPmm_spec _ 0).1, fun p hp => ?_, fun p hp => ?_⟩
  · have := (mem_kernelPmm_zero _ p).mp hp
    omega
  · rw [Finset.mem_Ico] at hp
    apply (mem_kernelPmm_zero _ p).mpr
    omega

theorem preemption_transparent_two_tasks : ∃ h h' t c,
    Run (PreemptionStep plainBinary) (History.start (plainMachine (kernelPmm (fun _ => 0) 0)))
      [.spawn 0x106000 0, .spawn 0x107000 0, .sti, .start, .tick] h ∧ PreemptionStep plainBinary h .tick h' ∧
      h'.machine.scheduler.currentTask = some t ∧ h'.interrupted t = some c ∧ h'.machine.cpu.gpr = c.gpr ∧
      h'.machine.cpu.rip = c.rip := by
  obtain ⟨hok, hpages, hclear⟩ := kernelPmm_clear
  generalize kernelPmm (fun _ => 0) 0 = pmm at *
  have hk := systemV_plainBinary
  obtain ⟨h₀, t, u, hrun, hi, -⟩ := exists_two_tasks hok hpages hclear
  have hne : t ≠ u := by
    have := hi.represents.nodup
    rw [RoundRobin.members, Option.toList_none, List.nil_append] at this
    exact List.ne_of_not_mem_cons (List.nodup_cons.mp this).1
  obtain ⟨h₁, hs₁, hi₁, -⟩ := hi.exists_start hk
  obtain ⟨h₂, hs₂, hi₂, hint₂⟩ := hi₁.exists_tick hk
  obtain ⟨h₃, hs₃, hi₃, hint₃⟩ := hi₂.exists_tick hk
  have hrun₂ := (hrun.snoc hs₁).snoc hs₂
  have ht : h₃.machine.scheduler.currentTask = some t := hi₃.represents.current
  have hint : h₃.interrupted t = some h₁.machine.cpu := by
    rw [hint₃, Function.update_of_ne hne, hint₂, Function.update_self]
  obtain ⟨-, hgoes, -⟩ := preemption_transparent hk (bootState_plainMachine hok hpages) hrun₂ hs₃ (Or.inr rfl) ht
  obtain ⟨hgpr, -, hrip, -⟩ := hgoes _ hint
  exact ⟨h₂, h₃, t, _, hrun₂, hs₃, ht, hint, hgpr, hrip⟩

/-! ## The interrupt flag -/

/-- A task's own code leaves the flag alone, and a timer interrupt comes only while it is set. -/
def TimerStep (k : Binary) (h : History) (e : MachineEvent) (h' : History) : Prop :=
  PreemptionStep k h e h' ∧ match e with
    | .own c => c.interruptFlag = h.machine.cpu.interruptFlag
    | .tick => h.machine.cpu.interruptFlag = true
    | _ => False

/-- From `scheduler_start` in `h` on, own code always has the flag set. -/
def Preemptible (k : Binary) (h : History) : Prop :=
  ∀ h₁ events h', PreemptionStep k h .start h₁ → Run (TimerStep k) h₁ events h' →
  h'.machine.context ≠ none → h'.machine.cpu.interruptFlag = true

def QueuesOne (h : History) : Prop :=
  ∀ t, h.machine.scheduler.readyHead = some t → (h.machine.scheduler.tasks t).next = none

theorem Preempted.timer_alone (hk : SystemV k) {t : TaskPtr} (hi : Preempted k h ⟨some t, []⟩)
    (hflag : h.machine.cpu.interruptFlag = true) (hs : TimerStep k h e h') :
    Preempted k h' ⟨some t, []⟩ ∧ h'.machine.cpu.interruptFlag = true := by
  obtain ⟨⟨hstep, hrec, htick⟩, he⟩ := hs
  rw [hrec]
  generalize h'.machine = m' at hstep
  cases hstep with
  | own c hown => exact ⟨hi.own hown, he.trans hflag⟩
  | tick =>
    rw [History.record_tick _ hi.context]
    obtain ⟨hr', hcpu⟩ := hi.tick_alone hk rfl rfl
    refine ⟨hr'.interrupt rfl h.machine.cpu, ?_⟩
    change (h.machine.timerInterrupt k).cpu.interruptFlag = true
    rw [hcpu]
    exact hflag
  | spawn => exact he.elim
  | sti => exact he.elim
  | start => exact he.elim

theorem TimerStep.context (hs : TimerStep k h e h') (hcontext : h.machine.context = none) :
    h'.machine.context = none := by
  obtain ⟨⟨hstep, -, htick⟩, he⟩ := hs
  generalize h'.machine = m' at hstep ⊢
  cases hstep with
  | own => exact hcontext
  | tick => exact absurd hcontext (htick rfl)
  | spawn => exact he.elim
  | sti => exact he.elim
  | start => exact he.elim

theorem Preempted.preemptible (hk : SystemV k) (hi : Preempted k h r) (hcontext : h.machine.context = none)
    (hflag : h.machine.cpu.interruptFlag = true) (hone : QueuesOne h) : Preemptible k h := by
  rintro h₁ events h' ⟨hstep, hrec, -⟩ hrun hrunning
  have hcur : r.current = none := hi.context.symm.trans hcontext
  generalize hm : h₁.machine = m' at hstep hrec
  cases hstep
  obtain ⟨-, he⟩ | ⟨t, l, hready, hr', -, hfl⟩ := hi.start hk hcontext
  · have hnone : h'.machine.context = none := by
      refine Run.invariant (I := fun h => h.machine.context = none) (fun _ _ _ hw hs => hs.context hw) hrun ?_
      rw [hm, he]
      exact hcontext
    exact absurd hnone hrunning
  · have hq := hi.represents.queued
    rw [hready] at hq
    have hl : l = [] := hq.seg.2.eq_none_iff.mp (hone t hq.seg.1)
    subst hl
    rw [History.record_start] at hrec
    rw [← hrec] at hr'
    have hflag₁ : h₁.machine.cpu.interruptFlag = true := by
      rw [hm]
      exact (hfl (hi.early hcur t)).trans hflag
    exact (Run.invariant (I := fun h => Preempted k h ⟨some t, []⟩ ∧ h.machine.cpu.interruptFlag = true)
      (fun _ _ _ hw hs => hw.1.timer_alone hk hw.2 hs) hrun ⟨hr', hflag₁⟩).2

/-- The second task is dispatched in a tick and runs with the flag clear. -/
theorem Preempted.not_preemptible (hk : SystemV k) (hi : Preempted k h r) (hcontext : h.machine.context = none)
    (hflag : h.machine.cpu.interruptFlag = true) {t u : TaskPtr} {l : List TaskPtr}
    (hready : r.ready = t :: u :: l) :
    ¬ Preemptible k h := by
  intro hp
  have hcur : r.current = none := hi.context.symm.trans hcontext
  obtain ⟨hnil, -⟩ | ⟨v, l', hready', hr', -, hfl⟩ := hi.start hk hcontext
  · rw [hready] at hnil
    cases hnil
  obtain ⟨rfl, rfl⟩ := List.cons.inj (hready'.symm.trans hready)
  let h₁ : History := { h with machine := h.machine.schedulerStart k }
  have hflag₁ : h₁.machine.cpu.interruptFlag = true := (hfl (hi.early hcur v)).trans hflag
  have hcontext₁ : h₁.machine.context = some v := hr'.context
  obtain ⟨hr'', -, hclear⟩ := hr'.tick_switch hk rfl rfl
  let h₂ : History := { h₁ with
    machine := h₁.machine.timerInterrupt k, interrupted := Function.update h₁.interrupted v (some h₁.machine.cpu) }
  have hstart : PreemptionStep k h .start h₁ := ⟨.start hcontext, rfl, fun he => by cases he⟩
  have htick : TimerStep k h₁ .tick h₂ := by
    refine ⟨⟨.tick, (History.record_tick _ hcontext₁).symm, fun _ => ?_⟩, hflag₁⟩
    rw [hcontext₁]
    exact Option.some_ne_none v
  have hset := hp h₁ [.tick] h₂ hstart (Run.single htick) (by
    rw [show h₂.machine.context = some u from hr''.context]
    exact Option.some_ne_none u)
  have hclear' : h₂.machine.cpu.interruptFlag = false := hclear (hi.early hcur u)
  rw [hset] at hclear'
  cases hclear'

/-- **Every dispatched task is preemptible** exactly if there is at most one. -/
theorem dispatched_tasks_preemptible (hk : SystemV k) (hm : BootState k m) {events : List MachineEvent}
    (hrun : Run (PreemptionStep k) (History.start m) events h) (hcontext : h.machine.context = none)
    (hflag : h.machine.cpu.interruptFlag = true) : Preemptible k h ↔ QueuesOne h := by
  obtain ⟨r, hi⟩ := Preempted.of_run hk hm hrun
  refine ⟨fun hp t ht => ?_, hi.preemptible hk hcontext hflag⟩
  by_contra hnext
  obtain ⟨l, hready⟩ := hi.represents.queued.eq_cons ht
  have hq := hi.represents.queued
  rw [hready] at hq
  obtain ⟨u, hu⟩ := Option.ne_none_iff_exists'.mp hnext
  cases l with
  | nil => exact hnext hq.seg.2
  | cons v l => exact hi.not_preemptible hk hcontext hflag hready hp

theorem dispatched_tasks_preemptible_two_tasks : ∃ h,
    Run (PreemptionStep plainBinary) (History.start (plainMachine (kernelPmm (fun _ => 0) 0)))
      [.spawn 0x106000 0, .spawn 0x107000 0, .sti] h ∧ (Preemptible plainBinary h ↔ QueuesOne h) := by
  obtain ⟨hok, hpages, hclear⟩ := kernelPmm_clear
  generalize kernelPmm (fun _ => 0) 0 = pmm at *
  obtain ⟨h, t, u, hrun, hi, hflag⟩ := exists_two_tasks hok hpages hclear
  exact ⟨h, hrun,
    dispatched_tasks_preemptible systemV_plainBinary (bootState_plainMachine hok hpages) hrun hi.context hflag⟩

theorem second_task_not_preemptible : ∃ h,
    Run (PreemptionStep plainBinary) (History.start (plainMachine (kernelPmm (fun _ => 0) 0)))
      [.spawn 0x106000 0, .spawn 0x107000 0, .sti] h ∧ ¬ Preemptible plainBinary h := by
  obtain ⟨hok, hpages, hclear⟩ := kernelPmm_clear
  generalize kernelPmm (fun _ => 0) 0 = pmm at *
  obtain ⟨h, t, u, hrun, hi, hflag⟩ := exists_two_tasks hok hpages hclear
  exact ⟨h, hrun, hi.not_preemptible systemV_plainBinary hi.context hflag rfl⟩

/-! ## Whose context -/

/-- The current task's own stack and address space are in use, and the saved stack pointers of all tasks are
in their stacks. -/
def Machine.InContext (m : Machine) : Prop :=
  (∀ t, m.scheduler.currentTask = some t →
    (m.cpu.ring = 0 → m.scheduler.stackBase t ≤ m.cpu.rsp.toNat ∧ m.cpu.rsp.toNat ≤ m.scheduler.stackTop t) ∧
    (m.cpu.ring ≠ 0 → m.scheduler.rsp0 = (m.scheduler.tasks t).kernelStackTop) ∧
    m.scheduler.cr3 =
      if (m.scheduler.tasks t).pml4Phys ≠ 0 then (m.scheduler.tasks t).pml4Phys else m.scheduler.kernelPml4Phys) ∧
  ∀ t, m.scheduler.currentTask = some t ∨ m.scheduler.IsQueued t →
    m.scheduler.stackBase t ≤ (m.scheduler.tasks t).savedRsp.toNat ∧
    (m.scheduler.tasks t).savedRsp.toNat ≤ m.scheduler.stackTop t

/-- **The machine context belongs to the current task** in runs in which no tick comes before `scheduler_start`. -/
theorem context_of_current_task (hk : SystemV k) (hm : BootState k m) {events : List MachineEvent}
    (hrun : Run (PreemptionStep k) (History.start m) events h) : h.machine.InContext := by
  obtain ⟨r, hi⟩ := Preempted.of_run hk hm hrun
  refine ⟨fun t ht => ⟨fun hring => ?_, fun _ => hi.tss t ht, ?_⟩, fun t ht => (hi.kept t ?_).saved⟩
  · have hfits := hi.fits
    rw [hi.represents.current.symm.trans ht] at hfits
    have hbound := hfits hring
    change h.machine.scheduler.stackBase t + k.frameBytes + 247 ≤ _ ∧ _ ≤ h.machine.scheduler.stackTop t at hbound
    omega
  · have hspace := hi.space
    unfold Scheduler.SpaceLoaded at hspace
    rw [ht] at hspace
    exact hspace
  · rcases ht with ht | ht
    · exact Preempted.mem_of_current (hi.represents.current.symm.trans ht)
    · exact Preempted.mem_of_ready (hi.represents.queued.isQueued_iff.mp ht)

theorem context_of_current_task_two_tasks : ∃ h,
    Run (PreemptionStep plainBinary) (History.start (plainMachine (kernelPmm (fun _ => 0) 0)))
      [.spawn 0x106000 0, .spawn 0x107000 0, .sti, .start, .tick] h ∧ h.machine.InContext := by
  obtain ⟨hok, hpages, hclear⟩ := kernelPmm_clear
  generalize kernelPmm (fun _ => 0) 0 = pmm at *
  have hk := systemV_plainBinary
  obtain ⟨h₀, t, u, hrun, hi, -⟩ := exists_two_tasks hok hpages hclear
  obtain ⟨h₁, hs₁, hi₁, -⟩ := hi.exists_start hk
  obtain ⟨h₂, hs₂, -⟩ := hi₁.exists_tick hk
  have hrun₂ := (hrun.snoc hs₁).snoc hs₂
  exact ⟨h₂, hrun₂, context_of_current_task hk (bootState_plainMachine hok hpages) hrun₂⟩

/-- A tick before `scheduler_start` makes the first task current, and goes on in the boot code. -/
theorem Preempted.tick_early (hk : SystemV k) {t : TaskPtr} {l : List TaskPtr} (hi : Preempted k h ⟨none, t :: l⟩)
    (hsize : k.stackBottom + 16384 = k.stackTop) (htop : k.stackTop < 2 ^ 64) :
    (h.machine.timerInterrupt k).scheduler.currentTask = some t ∧
      (h.machine.timerInterrupt k).cpu = { h.machine.cpu with mem := (h.machine.timerInterrupt k).cpu.mem } ∧
      (h.machine.timerInterrupt k).scheduler.stackBase t = h.machine.scheduler.stackBase t ∧
      (h.machine.timerInterrupt k).scheduler.stackTop t = h.machine.scheduler.stackTop t ∧
      (h.machine.timerInterrupt k).context = none := by
  obtain ⟨hrep, hsw⟩ := hi.represents.tick
  have hring := hi.ring rfl
  have hentered : Entered k k.stackBottom k.stackTop h.machine.cpu
      (irqEntry k h.machine.scheduler.rsp0 h.machine.cpu) :=
    hi.fits.entered hk hsize fun hc => absurd hring hc
  have hlow := hentered.low
  have hret := hk.noSwitch h.machine.scheduler _ hsw
    (by omega : k.frameBytes ≤ (irqEntry k h.machine.scheduler.rsp0 h.machine.cpu).rsp.toNat)
  have hexit := hentered.exit htop hret fun _ _ _ => rfl
  have hsame := Scheduler.sameStacks_tick h.machine.scheduler t
  unfold Machine.timerInterrupt Binary.timerInterrupt
  rw [hsw]
  refine ⟨hrep.current, ?_, congrArg UInt64.toNat hsame.1, congrArg UInt64.toNat hsame.2.1, hi.context⟩
  dsimp only
  rw [hexit]

theorem Machine.spawn_rsp (m : Machine) (entryPoint pml4Phys : UInt64) :
    (m.spawn k entryPoint pml4Phys).cpu.rsp = m.cpu.rsp := by
  unfold spawn taskCreateKernelThread allocateTaskSlot
  cases (List.range maxTasks).find? fun i => !m.taskSlotUsed i with
  | none => rfl
  | some i =>
    dsimp only
    split <;> rfl

/-- A tick before `scheduler_start`: the first task is current, and the boot code stays on its own stack. -/
theorem early_tick_out_of_context : ∃ m,
    Run (MachineStep plainBinary) (plainMachine (kernelPmm (fun _ => 0) 0)) [.spawn 0x106000 0, .sti,
      .tick, .start] m ∧
      ¬ m.InContext := by
  obtain ⟨hok, hpages, hclear⟩ := kernelPmm_clear
  generalize kernelPmm (fun _ => 0) 0 = pmm at *
  have hk := systemV_plainBinary
  have hi₀ := Preempted.of_boot (bootState_plainMachine hok hpages)
  have hroomy : (plainMachine pmm).Roomy :=
    ⟨⟨0, by decide, rfl⟩, 768, (Finset.Ico_subset_Ico_right (by decide : 768 + 4 ≤ 768 + 12)).trans hclear⟩
  obtain ⟨h₁, t, ⟨hs₁, -⟩, hi₁, hm₁⟩ := hi₀.exists_spawn hk rfl (entryPoint_ne 0x106000 (by decide)) hroomy
  obtain ⟨h₂, ⟨hs₂, -⟩, hi₂, hcpu₂⟩ := hi₁.exists_sti rfl
  obtain ⟨hcur, hcpu, hbase, htop, hcontext⟩ := hi₂.tick_early hk (by simp [plainBinary]) (by simp [plainBinary])
  have hrsp : h₂.machine.cpu.rsp = 0x123FF0 := by
    rw [hcpu₂, hm₁, Cpu.rsp_sti, Machine.spawn_rsp]
    rfl
  have hring : h₂.machine.cpu.ring = 0 := hi₂.ring rfl
  have hboot := (hi₂.kept t (Preempted.mem_of_ready (List.mem_singleton_self t))).boot
  have hstart : MachineStep plainBinary (h₂.machine.timerInterrupt plainBinary) .start
      (h₂.machine.timerInterrupt plainBinary) := by
    have he : (h₂.machine.timerInterrupt plainBinary).schedulerStart plainBinary =
        h₂.machine.timerInterrupt plainBinary := by
      unfold Machine.schedulerStart Binary.schedulerStart Scheduler.schedulerStart
      rw [hcur]
      rfl
    have hs := MachineStep.start (k := plainBinary) hcontext
    rwa [he] at hs
  have hrun := ((Run.single hs₁).snoc hs₂).snoc MachineStep.tick
  refine ⟨_, hrun.snoc hstart, fun hin => ?_⟩
  have hon := (hin.1 t hcur).1 (by rw [hcpu]; exact hring)
  rw [hcpu, hbase, htop, hrsp] at hon
  simp only [plainBinary, UInt64.reduceToNat] at hboot hon
  omega

end KernelOs
