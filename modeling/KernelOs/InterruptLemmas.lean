import KernelOs.Interrupts
import KernelOs.ReadyQueue

/-!
# One interrupt, one switch

What `irq_common_stub` and `context_switch` leave on a stack, and what they find there
when they go on with it.
-/

namespace KernelOs
open Lib Memory

variable {k : Binary} {c c₁ c₂ : Cpu} {s : Scheduler}

/-! ## The stub -/

/-- In the order that `irq_common_stub` pops them. -/
def stubRegs : List Reg := [.r15, .r14, .r13, .r12, .r11, .r10, .r9, .r8, .rbp, .rdi, .rsi, .rdx, .rcx, .rbx, .rax]

theorem mem_stubRegs (r : Reg) : r ∈ stubRegs := by
  cases r <;> decide

/-- `struct InterruptFrame` of a timer interrupt in `c`. -/
def stubFrame (c : Cpu) : List UInt64 := stubRegs.map c.gpr ++ ([32, 0] ++ c.interruptFrame)

theorem stubRegs_reverse :
    [Reg.rax, .rbx, .rcx, .rdx, .rsi, .rdi, .rbp, .r8, .r9, .r10, .r11, .r12, .r13, .r14, .r15] =
    stubRegs.reverse := rfl

theorem irqEntry_eq (k : Binary) (rsp0 : UInt64) (c : Cpu) :
    ∃ gpr, irqEntry k rsp0 c =
      { (c.interruptGate false rsp0 0x08 k.irq0).pushAll
        ([0, 32] ++ stubRegs.reverse.map c.gpr ++ [k.stubReturn]) with
        gpr, rip := k.irqHandler } := by
  have hgpr : (c.interruptGate false rsp0 0x08 k.irq0).gpr = c.gpr := (Cpu.sameButStack_pushAll _ _).gpr
  unfold irqEntry
  generalize c.interruptGate false rsp0 0x08 k.irq0 = g at hgpr
  have hpush : ((g.push 0).push 32).pushRegs stubRegs.reverse =
      g.pushAll ([0, 32] ++ stubRegs.reverse.map c.gpr) := by
    rw [Cpu.pushRegs_eq, show ((g.push 0).push 32).gpr = c.gpr from hgpr, Cpu.pushAll_append]
    rfl
  rw [stubRegs_reverse, Cpu.pushAll_append, ← hpush]
  dsimp only
  generalize ((g.push 0).push 32).pushRegs stubRegs.reverse = g'
  exact ⟨Function.update g'.gpr .rdi g'.rsp, rfl⟩

theorem irqEntry_spec (k : Binary) (rsp0 : UInt64) (c : Cpu) (h : 239 ≤ c.interruptStack rsp0) :
    (irqEntry k rsp0 c).rsp.toNat = c.interruptStack rsp0 / 16 * 16 - 184 ∧
      ChangedIn c.mem (irqEntry k rsp0 c).mem (c.interruptStack rsp0 / 16 * 16 - 184) (c.interruptStack rsp0) ∧
      (irqEntry k rsp0 c).mem.Holds (irqEntry k rsp0 c).rsp.toNat (k.stubReturn :: stubFrame c) ∧
      (irqEntry k rsp0 c).cs = 8 ∧ (irqEntry k rsp0 c).interruptFlag = false := by
  obtain ⟨hgpr, hrsp, hmem, hframe⟩ := c.interruptGate_spec false rsp0 0x08 k.irq0 (by omega)
  have hflag := c.interruptFlag_interruptGate false rsp0 0x08 k.irq0
  have hcs : (c.interruptGate false rsp0 0x08 k.irq0).cs = 8 := rfl
  obtain ⟨gpr, he⟩ := irqEntry_eq k rsp0 c
  rw [he]
  generalize c.interruptGate false rsp0 0x08 k.irq0 = g at hgpr hrsp hmem hframe hflag hcs
  have hlen : ([0, 32] ++ stubRegs.reverse.map c.gpr ++ [k.stubReturn]).length = 18 := by
    simp [stubRegs]
  have hrev : ([0, 32] ++ stubRegs.reverse.map c.gpr ++ [k.stubReturn]).reverse ++ c.interruptFrame =
      k.stubReturn :: stubFrame c := by
    simp [stubFrame]
  generalize [0, 32] ++ stubRegs.reverse.map c.gpr ++ [k.stubReturn] = vs at hlen hrev
  obtain ⟨h1, h2, h3⟩ := g.pushAll_spec vs (by omega)
  obtain ⟨-, -, hflags', hcs', -⟩ := Cpu.sameButStack_pushAll g vs
  refine ⟨by simp only; omega, (hmem.mono ?_ (Nat.le_refl _)).trans (h2.mono ?_ ?_), ?_, hcs'.trans hcs, ?_⟩
  · omega
  · omega
  · omega
  · rw [← hrev]
    exact h3 c.interruptFrame hframe
  · exact (congrArg (fun f : UInt64 => f.toNat.testBit 9) hflags').trans hflag

theorem irqExit_eq (h : c₁.mem.Holds c₁.rsp.toNat (stubFrame c)) (hrsp : c₁.rsp.toNat + 176 ≤ 2 ^ 64) :
    irqExit c₁ = { c with mem := c₁.mem } := by
  obtain ⟨hregs, hrest⟩ := holds_append.mp h
  obtain ⟨h1, h2⟩ := c₁.popRegs_spec hregs (by simp only [stubRegs, List.length_cons, List.length_nil]; omega)
  have hsame := c₁.sameButPopped_popRegs stubRegs
  have hgpr : (c₁.popRegs stubRegs).gpr = c.gpr := funext fun r => h2 r (mem_stubRegs r)
  have hmem := hsame.mem
  change Cpu.iretq { c₁.popRegs stubRegs with rsp := (c₁.popRegs stubRegs).rsp + 16 } = _
  generalize c₁.popRegs stubRegs = c₂ at h1 hgpr hmem
  have hsp : (c₂.rsp + 16).toNat = c₁.rsp.toNat + 136 := by
    rw [UInt64.toNat_add, h1]
    simp only [stubRegs, List.length_cons, List.length_nil, UInt64.reduceToNat]
    omega
  obtain ⟨-, -, hframe⟩ := hrest
  have hframe' : Holds c₂.mem (c₂.rsp + 16).toNat c.interruptFrame := by
    rw [hsp, hmem]
    exact hframe
  rw [Cpu.iretq_eq (c := { c₂ with rsp := c₂.rsp + 16 }) hframe' (by rw [hsp]; omega)]
  simp only [hgpr, hmem]

/-! ## `context_switch` -/

def switchRegs : List Reg := [.r15, .r14, .r13, .r12, .rbx, .rbp]

def pushed (c : Cpu) : Cpu := c.pushRegs switchRegs.reverse

theorem sameButStack_pushed (c : Cpu) : Cpu.SameButStack c (pushed c) := by
  unfold pushed
  rw [Cpu.pushRegs_eq]
  exact Cpu.sameButStack_pushAll c _

theorem pushed_spec {ret : UInt64} (h : 48 ≤ c.rsp.toNat) (hret : c.mem.load64 c.rsp.toNat = ret) :
    (pushed c).rsp.toNat = c.rsp.toNat - 48 ∧ ChangedIn c.mem (pushed c).mem (c.rsp.toNat - 48) c.rsp.toNat ∧
      (pushed c).mem.Holds (pushed c).rsp.toNat (switchRegs.map c.gpr ++ [ret]) := by
  obtain ⟨h1, h2, h3⟩ := c.pushAll_spec (switchRegs.reverse.map c.gpr) (by simpa [switchRegs] using h)
  have hlen : (switchRegs.reverse.map c.gpr).length = 6 := by simp [switchRegs]
  have hrev : (switchRegs.reverse.map c.gpr).reverse = switchRegs.map c.gpr := by simp
  rw [hlen] at h1 h2
  rw [hrev] at h3
  unfold pushed
  rw [Cpu.pushRegs_eq]
  exact ⟨h1, h2, h3 [ret] ⟨hret, trivial⟩⟩

theorem contextSwitch_fst (s : Scheduler) (c : Cpu) : (contextSwitch s c).1 =
    if c.gpr .rdi = 0 then s else s.setTask (c.gpr .rdi) fun t => { t with savedRsp := (pushed c).rsp } := by
  have hgpr := (sameButStack_pushed c).gpr
  change (if (pushed c).gpr .rdi = 0 then s else s.setTask ((pushed c).gpr .rdi) fun t =>
    { t with savedRsp := (pushed c).rsp }) = _
  rw [hgpr]

theorem contextSwitch_snd (s : Scheduler) (c : Cpu) : (contextSwitch s c).2 =
    (Cpu.popRegs
      { (pushed c).test (c.gpr .rdi) with rsp := ((contextSwitch s c).1.tasks (c.gpr .rsi)).savedRsp }
      switchRegs).ret := by
  have hgpr := (sameButStack_pushed c).gpr
  have he : (contextSwitch s c).2 = (Cpu.popRegs { (pushed c).test ((pushed c).gpr .rdi) with
    rsp := ((contextSwitch s c).1.tasks ((pushed c).gpr .rsi)).savedRsp } switchRegs).ret := rfl
  rw [he, hgpr]

theorem contextSwitch_load {g : Reg → UInt64} {ret sp : UInt64}
    (hsp : ((contextSwitch s c).1.tasks (c.gpr .rsi)).savedRsp = sp)
    (h : (pushed c).mem.Holds sp.toNat (switchRegs.map g ++ [ret])) (hlt : sp.toNat + 56 < 2 ^ 64) :
    (contextSwitch s c).2.rip = ret ∧ (contextSwitch s c).2.rsp.toNat = sp.toNat + 56 ∧
      (contextSwitch s c).2.mem = (pushed c).mem ∧ (∀ r ∈ switchRegs, (contextSwitch s c).2.gpr r = g r) ∧
      (contextSwitch s c).2.cs = c.cs ∧ (contextSwitch s c).2.interruptFlag = c.interruptFlag := by
  have hsame := sameButStack_pushed c
  have hcs := hsame.cs
  have hflag : ((pushed c).test (c.gpr .rdi)).interruptFlag = c.interruptFlag := by
    rw [Cpu.interruptFlag_test]
    exact congrArg (fun f : UInt64 => f.toNat.testBit 9) hsame.rflags
  rw [contextSwitch_snd, hsp]
  obtain ⟨hregs, hret, -⟩ := holds_append.mp h
  have hlen : (switchRegs.map g).length = 6 := by simp [switchRegs]
  rw [hlen] at hret
  generalize hc : ({ (pushed c).test (c.gpr .rdi) with rsp := sp } : Cpu) = c'
  have hc1 : c'.rsp = sp := by rw [← hc]
  have hc2 : c'.mem = (pushed c).mem := by rw [← hc]; rfl
  have hc3 : c'.cs = c.cs := by rw [← hc]; exact hcs
  have hc4 : c'.interruptFlag = c.interruptFlag := by rw [← hc]; exact hflag
  rw [← hc1] at hregs hret hlt ⊢
  rw [← hc2] at hregs hret ⊢
  obtain ⟨h1, h2⟩ := c'.popRegs_spec hregs (by simp only [switchRegs, List.length_cons, List.length_nil]; omega)
  obtain ⟨-, k2, k3, -, k5⟩ := c'.sameButPopped_popRegs switchRegs
  have h1' : (c'.popRegs switchRegs).rsp.toNat = c'.rsp.toNat + 48 := h1
  generalize c'.popRegs switchRegs = d at h1' h2 k2 k3 k5
  refine ⟨?_, ?_, k5, h2, k3.trans hc3, ?_⟩
  · unfold Cpu.ret
    rw [← hret, h1', k5]
  · exact (Cpu.toNat_add_eight (by omega)).trans (by omega)
  · exact (congrArg (fun f : UInt64 => f.toNat.testBit 9) k2).trans hc4

theorem AtSwitch.pushed_spec {switch : ContextSwitch} (h : AtSwitch k c c₁ switch) (lo hi : Nat)
    (hlo : lo + k.frameBytes + 48 ≤ c.rsp.toNat) (hhi : c.rsp.toNat ≤ hi) : ChangedIn c.mem (pushed c₁).mem lo hi ∧
      (pushed c₁).rsp.toNat + 48 = c₁.rsp.toNat ∧ lo ≤ (pushed c₁).rsp.toNat ∧ (pushed c₁).rsp.toNat ≤ hi := by
  have hbottom := h.bottom
  have htop := h.top
  obtain ⟨h1, h2, -⟩ := KernelOs.pushed_spec (c := c₁) (by omega) rfl
  refine ⟨(h.mem.mono (by omega) hhi).trans (h2.mono (by omega) (by omega)), by omega, by omega, by omega⟩

/-! ## Entry and exit -/

variable {lo hi : Nat} {rsp0 : UInt64}

/-- `irq_handler` is entered in `c₁` after an interrupt in `c` on the stack `[lo, hi)`. -/
structure Entered (k : Binary) (lo hi : Nat) (c c₁ : Cpu) : Prop where
  low : lo + k.frameBytes + 48 ≤ c₁.rsp.toNat
  high : c₁.rsp.toNat + 184 ≤ hi
  mem : ChangedIn c.mem c₁.mem lo hi
  frame : c₁.mem.Holds c₁.rsp.toNat (k.stubReturn :: stubFrame c)
  cs : c₁.cs = 8
  flag : c₁.interruptFlag = false

theorem Binary.Fits.entered (h : k.Fits lo hi c) (hk : SystemV k) (hlo : lo + 16384 = hi)
    (hrsp0 : c.ring ≠ 0 → rsp0.toNat = hi) :
    Entered k lo hi c (irqEntry k rsp0 c) := by
  have hroom := hk.frameBytes_le
  have hstack : lo + k.frameBytes + 247 ≤ c.interruptStack rsp0 ∧ c.interruptStack rsp0 ≤ hi := by
    unfold Cpu.interruptStack
    split
    · next hring => exact h hring
    · next hring =>
      have := hrsp0 hring
      omega
  obtain ⟨h1, h2, h3, h4, h5⟩ := irqEntry_spec k rsp0 c (by omega)
  exact ⟨by omega, by omega, h2.mono (by omega) hstack.2, h3, h4, h5⟩

theorem length_stubFrame (c : Cpu) : (stubFrame c).length = 22 := by
  simp [stubFrame, stubRegs, Cpu.interruptFrame]

/-- With its frame untouched, `irq_handler` returns to the stub, and the stub to the interrupted code. -/
theorem Entered.exit (h : Entered k lo hi c c₁) (hhi : hi < 2 ^ 64) {c₃ : Cpu} (hret : Returned k c₁ c₂ c₃)
    (hframe : AgreeOn c₁.mem c₂.mem c₁.rsp.toNat (c₁.rsp.toNat + 184)) :
    k.afterHandler c₃ = { c with mem := c₃.mem } := by
  have hhigh := h.high
  have hrip : c₃.rip = k.stubReturn := hret.rip.trans h.frame.1
  have hrsp : c₃.rsp.toNat = c₁.rsp.toNat + 8 := by
    rw [hret.rsp]
    exact Cpu.toNat_add_eight (by omega)
  have hagree : AgreeOn c₁.mem c₃.mem c₁.rsp.toNat (c₁.rsp.toNat + 184) :=
    hframe.trans (hret.mem.agreeOn (Or.inr (Nat.le_refl _)))
  have hholds : c₃.mem.Holds c₃.rsp.toNat (stubFrame c) := by
    rw [hrsp]
    exact h.frame.2.congr (hagree.mono (by omega) (by rw [length_stubFrame]))
  unfold Binary.afterHandler
  rw [if_pos hrip]
  exact irqExit_eq hholds (by omega)

/-! ## Waiting tasks -/

section
variable (k : Binary) (s : Scheduler) (mem : Memory) (t : TaskPtr)

def Scheduler.stackBase (s : Scheduler) (t : TaskPtr) : Nat := (s.tasks t).kernelStackBase.toNat

def Scheduler.stackTop (s : Scheduler) (t : TaskPtr) : Nat := (s.tasks t).kernelStackTop.toNat

/-- The task has not run, and begins at `entryPoint`. -/
structure Fresh (entryPoint : UInt64) : Prop where
  entry : entryPoint ≠ k.tickReturn
  saved : (s.tasks t).savedRsp.toNat + 56 = s.stackTop t
  frame : mem.Holds (s.tasks t).savedRsp.toNat (switchRegs.map (fun _ => 0) ++ [entryPoint])

/-- The task was interrupted in `c` and switched away from by the tick. From its saved stack pointer
on the stack is as it was then. -/
structure Suspended (c : Cpu) : Prop where
  fits : k.Fits (s.stackBase t) (s.stackTop t) c
  switched : ∃ s' switch, s'.schedulerTick.2 = some switch ∧
    (s.tasks t).savedRsp.toNat + 48 = (k.toSwitch s' (irqEntry k (s.tasks t).kernelStackTop c)).rsp.toNat ∧
    AgreeOn (pushed (k.toSwitch s' (irqEntry k (s.tasks t).kernelStackTop c))).mem mem
    (s.tasks t).savedRsp.toNat (s.stackTop t)

/-- What a context switch to `t` finds, if it has run up to `interrupted`. -/
def Waits (entryPoint : UInt64) : Option Cpu → Prop
  | none => Fresh k s mem t entryPoint
  | some c => Suspended k s mem t c

def GoesOn (entryPoint : UInt64) (c : Cpu) : Option Cpu → Prop
  | none => c.rip = entryPoint ∧ c.rsp = (s.tasks t).kernelStackTop ∧ ∀ r ∈ switchRegs, c.gpr r = 0
  | some c' => c = { c' with mem := c.mem }

end

variable {mem : Memory} {t : TaskPtr} {entryPoint : UInt64} {interrupted : Option Cpu}

theorem Waits.congr (h : Waits k s mem t entryPoint interrupted) {s' : Scheduler} {mem' : Memory}
    (hbase : (s'.tasks t).kernelStackBase = (s.tasks t).kernelStackBase)
    (htop : (s'.tasks t).kernelStackTop = (s.tasks t).kernelStackTop)
    (hsaved : (s'.tasks t).savedRsp = (s.tasks t).savedRsp) (hlow : s.stackBase t ≤ (s.tasks t).savedRsp.toNat)
    (hmem : AgreeOn mem mem' (s.stackBase t) (s.stackTop t)) : Waits k s' mem' t entryPoint interrupted := by
  have hlo : s'.stackBase t = s.stackBase t := congrArg UInt64.toNat hbase
  have hhi : s'.stackTop t = s.stackTop t := congrArg UInt64.toNat htop
  cases interrupted with
  | none =>
    obtain ⟨h1, h2, h3⟩ := h
    refine ⟨h1, by rw [hsaved, hhi, h2], ?_⟩
    rw [hsaved]
    exact h3.congr
      (hmem.mono hlow
      (by simp only [switchRegs, List.map, List.length_append, List.length_cons, List.length_nil]; omega))
  | some c =>
    obtain ⟨h1, s₀, switch, h2, h3, h4⟩ := h
    refine ⟨by rw [hlo, hhi]; exact h1, s₀, switch, h2, by rw [hsaved, htop]; exact h3, ?_⟩
    rw [hsaved, htop, hhi]
    exact h4.trans (hmem.mono hlow (Nat.le_refl _))

/-- The first dispatch returns to the entry point, and not to `scheduler_tick`. -/
theorem Fresh.dispatch {s₀ : Scheduler} {c' : Cpu} (hs : (contextSwitch s₀ c).1 = s) (hrsi : c.gpr .rsi = t)
    (hm : (pushed c).mem = mem) (hc : k.afterSwitch (contextSwitch s₀ c).2 = c') (h : Fresh k s mem t entryPoint) :
    GoesOn s t entryPoint c' none ∧ c'.mem = mem ∧ c'.interruptFlag = c.interruptFlag := by
  have htop : s.stackTop t < 2 ^ 64 := (s.tasks t).kernelStackTop.toNat_lt
  obtain ⟨hentry, hsaved, hframe⟩ := h
  subst hs hrsi hm
  obtain ⟨h1, h2, h3, h4, -, h6⟩ := contextSwitch_load rfl hframe (by rw [hsaved]; exact htop)
  have hafter : k.afterSwitch (contextSwitch s₀ c).2 = (contextSwitch s₀ c).2 := by
    unfold Binary.afterSwitch
    rw [if_neg (h1 ▸ hentry)]
  rw [← hc, hafter]
  refine ⟨⟨h1, ?_, h4⟩, h3, h6⟩
  apply UInt64.toNat_inj.mp
  rw [h2, hsaved]
  rfl

theorem Suspended.dispatch (hk : SystemV k) {s₀ : Scheduler} {c' c₃ : Cpu} (hs : (contextSwitch s₀ c).1 = s)
    (hrsi : c.gpr .rsi = t) (hm : (pushed c).mem = mem) (hc : k.afterSwitch (contextSwitch s₀ c).2 = c₃)
    (hlo : s.stackBase t + 16384 = s.stackTop t) (h : Suspended k s mem t c') :
    c₃ = { c' with mem := c₃.mem } ∧ ChangedIn mem c₃.mem (s.stackBase t) (s.stackTop t) := by
  have htop : s.stackTop t < 2 ^ 64 := (s.tasks t).kernelStackTop.toNat_lt
  obtain ⟨hfits, s', switch, hswitch, hsaved, hagree⟩ := h
  have hentered : Entered k _ _ c' (irqEntry k (s.tasks t).kernelStackTop c') := hfits.entered hk hlo fun _ => rfl
  have hroom : k.frameBytes ≤ (irqEntry k (s.tasks t).kernelStackTop c').rsp.toNat := by
    have := hentered.low
    omega
  have hat := hk.toSwitch s' _ switch hswitch hroom
  have hret := hk.tickReturn s' _ switch hswitch hroom
  have hfrom := hk.fromSwitch s' _ (contextSwitch s₀ c).2 switch hswitch hroom
  generalize irqEntry k (s.tasks t).kernelStackTop c' = c₀ at *
  generalize k.toSwitch s' c₀ = c₁ at *
  have hlow := hentered.low
  have hhigh := hentered.high
  have hbottom := hat.bottom
  have htop' := hat.top
  obtain ⟨hp1, hp2, hp3⟩ := pushed_spec (c := c₁) (by omega) hret
  have hframe : mem.Holds (s.tasks t).savedRsp.toNat (switchRegs.map c₁.gpr ++ [k.tickReturn]) := by
    rw [show (pushed c₁).rsp.toNat = (s.tasks t).savedRsp.toNat by omega] at hp3
    refine hp3.congr (hagree.mono (Nat.le_refl _) ?_)
    simp only [switchRegs, List.map, List.length_append, List.length_cons, List.length_nil]
    omega
  -- above the words that `context_switch` pops, the stack is that of the call
  have hrest : AgreeOn c₁.mem mem c₁.rsp.toNat (s.stackTop t) :=
    (hp2.agreeOn (Or.inr (Nat.le_refl _))).trans (hagree.mono (by omega) (Nat.le_refl _))
  subst hs hrsi hm
  obtain ⟨h1, h2, h3, h4, -, -⟩ := contextSwitch_load rfl hframe (by omega)
  have hback : BackFromSwitch c₁ (contextSwitch s₀ c).2 := by
    refine ⟨?_, h1.trans hret.symm, fun r hr => h4 r ?_⟩
    · apply UInt64.toNat_inj.mp
      rw [h2, Cpu.toNat_add_eight (by omega)]
      omega
    · cases r <;> first | decide | exact absurd hr (by decide)
  have hreturned := hfrom hback (by rw [h3]; exact hrest.mono (by omega) (by omega))
  have hexit := hentered.exit htop hreturned (by
    rw [h3]
    exact (hat.mem.agreeOn (Or.inr (Nat.le_refl _))).trans (hrest.mono (by omega) (by omega)))
  have hafter : k.afterSwitch (contextSwitch s₀ c).2 =
      { c' with mem := (k.fromSwitch (contextSwitch s₀ c).2).mem } := by
    unfold Binary.afterSwitch
    rw [if_pos h1, hexit]
  rw [← hc, hafter]
  refine ⟨rfl, ?_⟩
  have hmem := hreturned.mem
  rw [h3] at hmem
  exact hmem.mono (by omega) (by omega)

theorem Waits.dispatch (hk : SystemV k) {s₀ : Scheduler} {c' : Cpu} (hs : (contextSwitch s₀ c).1 = s)
    (hrsi : c.gpr .rsi = t) (hm : (pushed c).mem = mem) (hc : k.afterSwitch (contextSwitch s₀ c).2 = c')
    (hlo : s.stackBase t + 16384 = s.stackTop t) (h : Waits k s mem t entryPoint interrupted) :
    GoesOn s t entryPoint c' interrupted ∧ ChangedIn mem c'.mem (s.stackBase t) (s.stackTop t) ∧
      k.Fits (s.stackBase t) (s.stackTop t) c' ∧ (interrupted = none → c'.interruptFlag = c.interruptFlag) := by
  have hroom := hk.frameBytes_le
  cases interrupted with
  | none =>
    obtain ⟨h1, h2, h3⟩ := Fresh.dispatch hs hrsi hm hc h
    refine ⟨h1, ?_, fun _ => ?_, fun _ => h3⟩
    · rw [h2]
      exact ChangedIn.refl mem _ _
    · rw [h1.2.1]
      change s.stackBase t + k.frameBytes + 247 ≤ s.stackTop t ∧ s.stackTop t ≤ s.stackTop t
      omega
  | some d =>
    obtain ⟨h1, h2⟩ := Suspended.dispatch hk hs hrsi hm hc hlo h
    refine ⟨h1, h2, ?_, fun hc => by cases hc⟩
    rw [h1]
    exact h.fits

end KernelOs
