import KernelOs.Gdt
import KernelOs.Irq

/-!
# User mode

`enter_user_mode` of `user_mode.S`, and what code that runs in ring 3 behind it can reach: its own
ring, and the interrupt stubs on the stack that the TSS names.
-/

namespace KernelOs
open Lib

/-- From the first push to the `iretq`. The flags that `or` sets are popped from the frame again. -/
def pushUserFrame (c : Cpu) : Cpu :=
  let c := (c.push 0x1B).push (c.gpr .rsi)
  let c := (c.push c.rflags).pop .rax
  let c := { c with gpr := Function.update c.gpr .rax (c.gpr .rax ||| 0x200) }
  let c := c.push (c.gpr .rax)
  (c.push 0x23).push (c.gpr .rdi)

/-- Faults where a segment cannot be loaded. -/
def enterUserMode (t : SegmentTable) (s : Core) : Option Core :=
  let c := { s.cpu with gpr := Function.update s.cpu.gpr .rax (s.cpu.gpr .rax &&& 0xFFFFFFFFFFFF0000 ||| 0x1B) }
  if t.loads s.cpl 0x1B then
    let data := Function.update (Function.update s.data .ds 0x1B) .es 0x1B
    { cpu := pushUserFrame c, data : Core }.iretq t
  else none

/-! ## Gates -/

def errorVectors : List UInt8 := [8, 10, 11, 12, 13, 14, 17, 30]

/-- Where an interrupt in code of level `cpl` goes on, and with which error code. Without a gate, or with
`int` through one that is not open to the level, it is a general protection fault. -/
def gateFor (k : StubAddresses) (cpl : Nat) (vector : UInt8) (software : Bool) (errorCode : Option UInt64) :
    Stub × Option UInt64 :=
  let fault : Stub × Option UInt64 := (.isr 13, some (8 * vector.toUInt64 + if software then 2 else 3))
  match (kernelIdt k vector).stub? k with
  | none => fault
  | some stub => if software && decide ((kernelIdt k vector).dpl.toNat < cpl) then fault else (stub, errorCode)

inductive UserMachine where
  | user (s : Core)
  /-- A handler is entered in `cpu` behind its stub, for code whose state has been saved as `s`. -/
  | kernel (stub : Stub) (errorCode : Option UInt64) (s : Core) (cpu : Cpu)
  /-- The `iretq` to `s` has faulted in `cpu`. The handler of this exception never returns. -/
  | panic (s : Core) (cpu : Cpu)

inductive UserEvent where
  | code
  | int (vector : UInt8)
  | exception (num : Fin 32) (errorCode : Option UInt64)
  | irq (line : Fin 16)
  | back

section
variable (k : StubAddresses) (t : SegmentTable) (ports : PortMap) (rsp0 : UInt64)

def interruptUser (vector : UInt8) (software : Bool) (errorCode : Option UInt64) (rf : Bool) (s : Core) :
    UserMachine :=
  let (stub, errorCode) := gateFor k s.cpl vector software errorCode
  .kernel stub errorCode { s with cpu := s.cpu.imaged rf } (stub.enter k (kernelIdt k) rsp0 errorCode rf s.cpu)

/-- Behind the call of a handler that has returned in `cpu`: the registers are popped, then comes the `iretq`. -/
def returnToUser (s : Core) (cpu : Cpu) : UserMachine :=
  match Core.iretq t { s with cpu := irqPop cpu } with
  | some s' => .user s'
  | none => .panic s cpu

/-- The handlers of the exceptions never return, the others do with the frame but for its general-purpose
registers. -/
inductive UserMachineStep : UserMachine → UserEvent → UserMachine → Prop
  | code (s s' : Core) : s.UserStep t ports s' → UserMachineStep (.user s) .code (.user s')
  | int (vector : UInt8) (rf : Bool) (s : Core) :
      UserMachineStep (.user s) (.int vector) (interruptUser k rsp0 vector true none rf s)
  | exception (num : Fin 32) (errorCode : Option UInt64) (rf : Bool) (s : Core) :
      (errorCode.isSome ↔ UInt8.ofNat num ∈ errorVectors) →
      UserMachineStep (.user s) (.exception num errorCode)
        (interruptUser k rsp0 (UInt8.ofNat num) false errorCode rf s)
  | irq (line : Fin 16) (rf : Bool) (s : Core) :
      UserMachineStep (.user s) (.irq line) (interruptUser k rsp0 (UInt8.ofNat (32 + line)) false none rf s)
  | back (stub : Stub) (errorCode : Option UInt64) (s : Core) (cpu cpu' : Cpu) (g : Reg → UInt64) :
      (∀ num, stub ≠ .isr num) → HandlerReturned cpu cpu' g →
      UserMachineStep (.kernel stub errorCode s cpu) .back (returnToUser t s cpu')

end

/-! ## Entry -/

/-- Ring 3 on the user's segments, with interrupts on and no access to ports. -/
structure InUserMode (s : Core) : Prop where
  cs : s.cpu.cs = 0x23
  ss : s.cpu.ss = 0x1B
  guarded : s.guarded = 0x200

/-- `iretq` gets to an address that is not canonical, or it finds the flag of a nested task. -/
def FaultyReturn (s : Core) (cpu : Cpu) : Prop := cpu.nestedTask = true ∨ ¬ CanonicalAddress s.cpu.rip

section
variable {gdtAddr tssAddr : UInt64} {s₀ : GdtState} {s s' : Core}

open Memory in
/-- The frame that `iretq` finds. -/
theorem words_pushUserFrame (c : Cpu) (hrsp : c.rsp.toNat % 8 = 0) :
    (pushUserFrame c).mem.Words (pushUserFrame c).rsp [c.gpr .rdi, 0x23, c.rflags ||| 0x200, c.gpr .rsi, 0x1B] := by
  have hnil : c.mem.Words c.rsp [] := trivial
  unfold pushUserFrame
  dsimp only
  have h1 := Cpu.words_push 0x1B hrsp hnil (by simp)
  have a1 : (c.push 0x1B).rsp.toNat % 8 = 0 := aligned_sub_eight hrsp
  have hrsi : (c.push 0x1B).gpr .rsi = c.gpr .rsi := rfl
  have h2 := Cpu.words_push (c.gpr .rsi) a1 h1 (by simp)
  have a2 : ((c.push 0x1B).push (c.gpr .rsi)).rsp.toNat % 8 = 0 := aligned_sub_eight a1
  have hflags : ((c.push 0x1B).push (c.gpr .rsi)).rflags = c.rflags := rfl
  have hrdi : ((c.push 0x1B).push (c.gpr .rsi)).gpr .rdi = c.gpr .rdi := rfl
  generalize (c.push 0x1B).push (c.gpr .rsi) = c₁ at h2 a2 hflags hrdi ⊢
  have h3 := Cpu.words_push c₁.rflags a2 h2 (by simp)
  have a3 : (c₁.push c₁.rflags).rsp.toNat % 8 = 0 := aligned_sub_eight a2
  have hrax : ((c₁.push c₁.rflags).pop .rax).gpr .rax = c.rflags := ((Cpu.gpr_pop _ _).trans h3.1).trans hflags
  have hrdi' : ((c₁.push c₁.rflags).pop .rax).gpr .rdi = c.gpr .rdi := hrdi
  have h4 : ((c₁.push c₁.rflags).pop .rax).mem.Words ((c₁.push c₁.rflags).pop .rax).rsp [c.gpr .rsi, 0x1B] := h3.2
  have a4 : ((c₁.push c₁.rflags).pop .rax).rsp.toNat % 8 = 0 := aligned_add a3 rfl
  generalize (c₁.push c₁.rflags).pop .rax = c₂ at hrax hrdi' h4 a4 ⊢
  have hor : Function.update c₂.gpr .rax (c₂.gpr .rax ||| 0x200) .rax = c.rflags ||| 0x200 := by
    rw [Function.update_self, hrax]
  have hrdi'' : Function.update c₂.gpr .rax (c₂.gpr .rax ||| 0x200) .rdi = c.gpr .rdi := by
    rw [Function.update_of_ne (by decide)]
    exact hrdi'
  have h5 :=
    Cpu.words_push (c := { c₂ with gpr := Function.update c₂.gpr .rax (c₂.gpr .rax ||| 0x200) })
      (c.rflags ||| 0x200) a4 h4 (by simp)
  have a5 := aligned_sub_eight a4
  have h6 := Cpu.words_push 0x23 a5 h5 (by simp)
  have a6 := aligned_sub_eight a5
  have h7 := Cpu.words_push (c.gpr .rdi) a6 h6 (by simp)
  have hpushed : (Cpu.push { c₂ with gpr := Function.update c₂.gpr .rax (c₂.gpr .rax ||| 0x200) }
    (c.rflags ||| 0x200)).gpr .rdi =
      c.gpr .rdi := hrdi''
  rw [hor, hpushed]
  exact h7

theorem iretq_user {c r : Cpu} (h : c.iretq = r) (hcs : r.cs = 0x23) (hss : r.ss = 0x1B) (data : DataReg → UInt16) :
    ∃ kept, Core.iretq (gdtInit gdtAddr tssAddr s₀).table ⟨c, data⟩ =
      if c.nestedTask = true ∨ ¬ CanonicalAddress r.rip then none else some ⟨r, kept⟩ := by
  have hreturns : (gdtInit gdtAddr tssAddr s₀).table.returns 0 0x23 = true :=
    (returns_gdtInit gdtAddr tssAddr s₀ (by decide) 0x23).trans (by decide)
  have hstack : (gdtInit gdtAddr tssAddr s₀).table.stack 3 0x1B = true :=
    (stack_gdtInit gdtAddr tssAddr s₀ (by decide) 0x1B).trans (by decide)
  have hrpl : rpl (0x23 : UInt64).toUInt16 = 3 := by decide
  have hcs' : (0x23 : UInt64).toUInt16 = 0x23 := by decide
  have hss' : (0x1B : UInt64).toUInt16 = 0x1B := by decide
  unfold Core.iretq
  dsimp only
  rw [h, hcs, hss, hrpl, hcs', hss', hreturns, hstack]
  refine ⟨fun r => Core.kept (gdtInit gdtAddr tssAddr s₀).table 3 (data r), ?_⟩
  by_cases hnested : c.nestedTask = true
  · rw [if_pos hnested, if_pos (Or.inl hnested)]
  rw [if_neg hnested]
  by_cases hrip : CanonicalAddress r.rip
  · have hf : ¬ (c.nestedTask = true ∨ ¬ CanonicalAddress r.rip) := fun hf => hf.elim hnested (not_not_intro hrip)
    rw [if_neg (not_not_intro hrip), if_neg hf]
    rfl
  · rw [if_pos hrip, if_pos (Or.inr hrip)]

theorem enterUserMode_eq (hcs : s.cpu.cs.toNat % 4 = 0) (hrsp : s.cpu.rsp.toNat % 8 = 0)
    (hnested : s.cpu.nestedTask = false) (hrip : CanonicalAddress (s.cpu.gpr .rdi)) :
    ∃ gpr mem data, enterUserMode (gdtInit gdtAddr tssAddr s₀).table s = some
      { cpu :=
          { gpr, rsp := s.cpu.gpr .rsi, rip := s.cpu.gpr .rdi, rflags := s.cpu.rflags ||| 0x200
            cs := 0x23, ss := 0x1B, mem }
        data } := by
  have hwords :=
    words_pushUserFrame
      { s.cpu with gpr := Function.update s.cpu.gpr .rax (s.cpu.gpr .rax &&& 0xFFFFFFFFFFFF0000 ||| 0x1B) } hrsp
  have hloads : (gdtInit gdtAddr tssAddr s₀).table.loads 0 0x1B = true :=
    (loads_gdtInit gdtAddr tssAddr s₀ (by decide) 0x1B).trans (by decide)
  have hflags : (pushUserFrame { s.cpu with
      gpr := Function.update s.cpu.gpr .rax (s.cpu.gpr .rax &&& 0xFFFFFFFFFFFF0000 ||| 0x1B) }).nestedTask =
        false := hnested
  unfold enterUserMode Core.cpl
  dsimp only at hwords hflags ⊢
  rw [hcs, if_pos hloads]
  generalize pushUserFrame _ = c at hwords hflags ⊢
  rw [Function.update_of_ne (by decide), Function.update_of_ne (by decide)] at hwords
  have hiretq : c.iretq = ⟨c.gpr, s.cpu.gpr .rsi, s.cpu.gpr .rdi, s.cpu.rflags ||| 0x200, 0x23, 0x1B, c.mem⟩ :=
    @Cpu.iretq_words c ⟨c.gpr, s.cpu.gpr .rsi, s.cpu.gpr .rdi, s.cpu.rflags ||| 0x200, 0x23, 0x1B, c.mem⟩ hwords
  obtain ⟨data, hdata⟩ := @iretq_user gdtAddr tssAddr s₀ c _ hiretq rfl rfl
    (Function.update (Function.update s.data .ds 0x1B) .es 0x1B)
  refine ⟨c.gpr, c.mem, data, ?_⟩
  rw [hdata, if_neg fun hf => hf.elim (by rw [hflags]; exact Bool.false_ne_true) (not_not_intro hrip)]

theorem guarded_or {f : UInt64} (h : f &&& 0x3000 = 0) : (f ||| 0x200) &&& 0x3200 = 0x200 := by
  apply UInt64.toNat_inj.mp
  refine Nat.eq_of_testBit_eq fun i => ?_
  have hbit : (f.toNat.testBit i && (0x3000 : UInt64).toNat.testBit i) = false := by
    rw [← Nat.testBit_and, ← UInt64.toNat_and, h]
    exact Nat.zero_testBit i
  rw [show (0x3200 : UInt64) = 0x3000 ||| 0x200 from rfl, UInt64.toNat_and, UInt64.toNat_or, UInt64.toNat_or,
    Nat.testBit_and, Nat.testBit_or, Nat.testBit_or, Bool.and_or_distrib_left, Bool.and_or_distrib_right, hbit]
  cases (0x200 : UInt64).toNat.testBit i with
  | true => simp
  | false => simp

namespace InUserMode

theorem cpl (h : InUserMode s) : s.cpl = 3 := by
  rw [Core.cpl, h.cs]
  rfl

theorem testBit (h : InUserMode s) (i : Nat) :
    (s.cpu.rflags.toNat.testBit i && (0x3200 : UInt64).toNat.testBit i) = (0x200 : UInt64).toNat.testBit i := by
  rw [← Nat.testBit_and, ← UInt64.toNat_and]
  exact congrArg (fun f : UInt64 => f.toNat.testBit i) h.guarded

theorem interruptFlag (h : InUserMode s) : s.cpu.interruptFlag = true := by
  have h9 := h.testBit 9
  rwa [show (0x3200 : UInt64).toNat.testBit 9 = true from by decide,
    show (0x200 : UInt64).toNat.testBit 9 = true from by decide,
    Bool.and_true] at h9

theorem iopl (h : InUserMode s) : s.iopl = 0 := by
  have h12 := h.testBit 12
  have h13 := h.testBit 13
  rw [show (0x3200 : UInt64).toNat.testBit 12 = true from by decide,
    show (0x200 : UInt64).toNat.testBit 12 = false from by decide,
    Bool.and_true, Nat.testBit_eq_decide_div_mod_eq, decide_eq_false_iff_not] at h12
  rw [show (0x3200 : UInt64).toNat.testBit 13 = true from by decide,
    show (0x200 : UInt64).toNat.testBit 13 = false from by decide,
    Bool.and_true, Nat.testBit_eq_decide_div_mod_eq, decide_eq_false_iff_not] at h13
  rw [Core.iopl]
  omega

/-- The bitmap for ports would begin behind the segment's end. -/
theorem ports (h : InUserMode s) (denied : Nat → Bool) (port : Nat) :
    ((gdtInit gdtAddr tssAddr s₀).ports denied).allows s.cpl s.iopl port = false := by
  obtain ⟨-, -, -, -, htss, -⟩ := decode_gdtInit gdtAddr tssAddr s₀
  have hlimit : ((gdtInit gdtAddr tssAddr s₀).ports denied).limit = 103 := congrArg Descriptor.limit htss
  have hbase : ((gdtInit gdtAddr tssAddr s₀).ports denied).base = 104 := rfl
  rw [PortMap.allows, h.cpl, h.iopl, hlimit, hbase, decide_eq_false (by omega), Bool.false_or,
    decide_eq_false (by omega), Bool.false_and]

/-- User code stays what it is, whatever it executes. -/
theorem step (h : InUserMode s) {denied : Nat → Bool}
    (hstep : s.UserStep (gdtInit gdtAddr tssAddr s₀).table ((gdtInit gdtAddr tssAddr s₀).ports denied) s') :
    InUserMode s' := by
  have hcpl := h.cpl
  cases hstep with
  | plain _ hcs hss _ hflags => exact ⟨hcs.trans h.cs, hss.trans h.ss, hflags.trans h.guarded⟩
  | loadData r sel _ => exact ⟨h.cs, h.ss, h.guarded⟩
  | loadStack sel hsel =>
    rw [hcpl, stack_gdtInit gdtAddr tssAddr s₀ (by decide)] at hsel
    have hsel' : sel.toNat = 0x1B := by
      have := of_decide_eq_true hsel
      omega
    exact ⟨h.cs, UInt64.toNat_inj.mp hsel', h.guarded⟩
  | far sel _ hfar hcs hss hflags =>
    rw [hcpl, far_gdtInit gdtAddr tssAddr s₀ (by decide)] at hfar
    rw [hcpl] at hcs
    by_cases hsel : (3 = 0 ∧ sel.toNat = 0x08) ∨ (3 = 3 ∧ sel.toNat / 4 = 8)
    · have hcs' : s'.cpu.cs.toNat = 0x23 := by omega
      exact ⟨UInt64.toNat_inj.mp hcs', hss.trans h.ss, hflags.trans h.guarded⟩
    · rw [if_neg hsel] at hfar
      cases hfar
  | gate sel _ hgate =>
    rw [hcpl, far_gdtInit gdtAddr tssAddr s₀ (by decide)] at hgate
    split at hgate <;> cases hgate
  | ret cs _ hret hcs hss hflags =>
    rw [hcpl, returns_gdtInit gdtAddr tssAddr s₀ (by decide)] at hret
    have hcs' : cs.toNat = 0x23 := by
      have := of_decide_eq_true hret
      omega
    have hrpl : rpl cs = 3 := by
      rw [rpl, hcs']
    refine ⟨hcs.trans (UInt64.toNat_inj.mp hcs'), ?_, hflags.trans h.guarded⟩
    rcases hss with ⟨hss, -⟩ | ⟨ss, hss, heq⟩
    · exact hss.trans h.ss
    · rw [hrpl, stack_gdtInit gdtAddr tssAddr s₀ (by decide)] at hss
      have hss' : ss.toNat = 0x1B := by
        have := of_decide_eq_true hss
        omega
      exact heq.trans (UInt64.toNat_inj.mp hss')
  | port port _ hport =>
    rw [h.ports] at hport
    cases hport

end InUserMode

end

/-! ## Through the gates -/

section
variable {k : StubAddresses} {rsp0 : UInt64} {c : Cpu} {stub : Stub} {errorCode : Option UInt64} {rf : Bool}

/-- The only gate that is open to `int` in user mode is that of system calls. -/
theorem gateFor_int (hk : Function.Injective k.entry) (vector : UInt8) : gateFor k 3 vector true none =
    if vector = 0x80 then (.syscallStub, none) else (.isr 13, some (8 * vector.toUInt64 + 2)) := by
  unfold gateFor
  by_cases h : ∃ stub : Stub, vector = stub.vector
  · obtain ⟨stub, rfl⟩ := h
    have hdpl : (kernelIdt k stub.vector).dpl = if stub = .syscallStub then 3 else 0 := (idt_leads k _ stub).2.2
    rw [stub?_kernelIdt hk, hdpl]
    dsimp only
    cases stub with
    | isr num =>
      have hne : ∀ num : Fin 32, (Stub.isr num).vector ≠ 0x80 := by decide +kernel
      rw [if_neg (hne num)]
      rfl
    | irq0 => rfl
    | irq1 => rfl
    | syscallStub => rfl
  · have hne : vector ≠ 0x80 := fun he => h ⟨.syscallStub, he⟩
    rw [stub?_absent fun stub he => h ⟨stub, he⟩, if_neg hne]
    rfl

/-- An interrupt that the processor or a device raises. -/
theorem gateFor_raised (hk : Function.Injective k.entry) (cpl : Nat) (vector : UInt8) (errorCode : Option UInt64) :
    (∃ stub : Stub, vector = stub.vector ∧ gateFor k cpl vector false errorCode = (stub, errorCode)) ∨
      gateFor k cpl vector false errorCode = (.isr 13, some (8 * vector.toUInt64 + 3)) := by
  unfold gateFor
  by_cases h : ∃ stub : Stub, vector = stub.vector
  · obtain ⟨stub, rfl⟩ := h
    rw [stub?_kernelIdt hk]
    exact Or.inl ⟨stub, rfl, rfl⟩
  · rw [stub?_absent fun stub he => h ⟨stub, he⟩]
    exact Or.inr rfl

theorem enter_saveRegs (idt : Idt) (herror : errorCode.isSome ↔ stub.vector ∈ errorVectors) :
    stub.enter k idt rsp0 errorCode rf c =
    saveRegs (stub.handler k) (stub.returnAddr k)
      (((c.interruptGate rf rsp0 (idt stub.vector).selector.toUInt64 (idt stub.vector).offset).push
        (errorCode.getD 0)).push stub.vector.toUInt64) := by
  unfold Stub.enter deliver
  cases errorCode with
  | none =>
    have hnot : stub.vector ∉ errorVectors := fun hmem => by simpa using herror.mpr hmem
    cases stub with
    | isr num => exact isr_noerr _ hnot
    | irq0 => rfl
    | irq1 => rfl
    | syscallStub => rfl
  | some code =>
    have hmem := herror.mp rfl
    cases stub with
    | isr num => exact isr_err _ hmem
    | irq0 => exact absurd hmem (by decide)
    | irq1 => exact absurd hmem (by decide)
    | syscallStub => exact absurd hmem (by decide)

/-- The registers and the return address take 128 bytes. -/
theorem saveRegs_stack (handler returnAddr : UInt64) (h : 128 ≤ c.rsp.toNat) :
    (saveRegs handler returnAddr c).cs = c.cs ∧ (saveRegs handler returnAddr c).rflags = c.rflags ∧
      (saveRegs handler returnAddr c).rsp.toNat = c.rsp.toNat - 128 ∧
      Memory.ChangedIn c.mem (saveRegs handler returnAddr c).mem (c.rsp.toNat - 128) c.rsp.toNat := by
  have hlen : (stubRegs.reverse.map c.gpr).length = 15 := by simp [stubRegs]
  obtain ⟨h1, h2, -⟩ := Cpu.pushAll_spec c (stubRegs.reverse.map c.gpr) (by omega)
  have hsame := Cpu.sameButStack_pushAll c (stubRegs.reverse.map c.gpr)
  rw [hlen] at h1 h2
  unfold saveRegs
  rw [stubRegs_reverse, Cpu.pushRegs_eq]
  generalize c.pushAll (stubRegs.reverse.map c.gpr) = c₁ at h1 h2 hsame
  have hrsp : (c₁.rsp - 8).toNat = c₁.rsp.toNat - 8 := Cpu.toNat_sub_eight (by omega)
  have hstore : Memory.ChangedIn c₁.mem (c₁.mem.store64 (c₁.rsp - 8).toNat returnAddr)
      (c.rsp.toNat - 128) c.rsp.toNat :=
    Memory.ChangedIn.store64 c₁.mem returnAddr (by omega) (by omega)
  exact ⟨hsame.cs, hsame.rflags, by change (c₁.rsp - 8).toNat = _; omega,
    (h2.mono (by omega) (by omega)).trans hstore⟩

/-- A handler entered from user mode runs in ring 0 with interrupts off, and all that has been written
lies right below the stack of the TSS. -/
structure EnteredKernel (k : StubAddresses) (rsp0 : UInt64) (stub : Stub) (errorCode : Option UInt64)
    (c c' : Cpu) : Prop where
  rip : c'.rip = stub.handler k
  cs : c'.cs = 0x08
  flag : c'.interruptFlag = false
  rsp : c'.rsp.toNat = rsp0.toNat / 16 * 16 - 184
  mem : Memory.ChangedIn c.mem c'.mem (rsp0.toNat / 16 * 16 - 184) rsp0.toNat
  returns : c'.mem.load64 c'.rsp.toNat = stub.returnAddr k
  frame : InterruptFrame.load c'.mem (c'.gpr .rdi) = frameOf c stub.vector errorCode

theorem enteredKernel (rf : Bool) (hring : c.ring ≠ 0) (hrsp0 : 199 ≤ rsp0.toNat)
    (herror : errorCode.isSome ↔ stub.vector ∈ errorVectors) :
    EnteredKernel k rsp0 stub errorCode (c.imaged rf) (stub.enter k (kernelIdt k) rsp0 errorCode rf c) := by
  obtain ⟨-, hrip, hret, hframe⟩ := enter_spec k (kernelIdt k) rsp0 rf c herror
  have hselector : (kernelIdt k stub.vector).selector = 0x08 := (idt_leads k _ stub).2.1
  have hstack : c.interruptStack rsp0 = rsp0.toNat := if_neg hring
  obtain ⟨-, h1, h2, -⟩ :=
    c.interruptGate_spec rf rsp0 (kernelIdt k stub.vector).selector.toUInt64 (kernelIdt k stub.vector).offset
    (by rw [hstack]; omega)
  have hflag :=
    c.interruptFlag_interruptGate rf rsp0 (kernelIdt k stub.vector).selector.toUInt64
      (kernelIdt k stub.vector).offset
  have hcs : (c.interruptGate rf rsp0 (kernelIdt k stub.vector).selector.toUInt64
      (kernelIdt k stub.vector).offset).cs = 0x08 := by
    rw [Cpu.interruptGate, hselector]
    rfl
  rw [hstack] at h1 h2
  rw [enter_saveRegs (kernelIdt k) herror] at hrip hret hframe ⊢
  generalize c.interruptGate rf rsp0 (kernelIdt k stub.vector).selector.toUInt64
    (kernelIdt k stub.vector).offset = g at *
  obtain ⟨h3, h4, -⟩ :=
    Cpu.pushAll_spec g [errorCode.getD 0,
      stub.vector.toUInt64] (by simp only [List.length_cons, List.length_nil]; omega)
  have hsame := Cpu.sameButStack_pushAll g [errorCode.getD 0, stub.vector.toUInt64]
  simp only [List.length_cons, List.length_nil, Cpu.pushAll_cons, Cpu.pushAll_nil] at h3 h4 hsame
  generalize (g.push (errorCode.getD 0)).push stub.vector.toUInt64 = c₀ at *
  obtain ⟨h5, h6, h7, h8⟩ := saveRegs_stack (c := c₀) (stub.handler k) (stub.returnAddr k) (by omega)
  refine ⟨hrip, h5.trans (hsame.cs.trans hcs), ?_, by omega, ?_, hret, hframe⟩
  · rw [Cpu.interruptFlag, h6, hsame.rflags]
    exact hflag
  · rw [Cpu.mem_imaged]
    exact (h2.mono (by omega) (by omega)).trans
      ((h4.mono (by omega) (by omega)).trans (h8.mono (by omega) (by omega)))

theorem gateFor_consistent (hk : Function.Injective k.entry) {cpl : Nat} {vector : UInt8}
    (herror : errorCode.isSome ↔ vector ∈ errorVectors) :
    (gateFor k cpl vector false errorCode).2.isSome ↔
      (gateFor k cpl vector false errorCode).1.vector ∈ errorVectors := by
  rcases gateFor_raised hk cpl vector errorCode with ⟨stub, rfl, hgate⟩ | hgate
  · rw [hgate]
    exact herror
  · rw [hgate]
    exact ⟨fun _ => List.mem_of_elem_eq_true rfl, fun _ => rfl⟩

theorem gateFor_int_consistent (hk : Function.Injective k.entry) (vector : UInt8) :
    (gateFor k 3 vector true none).2.isSome ↔ (gateFor k 3 vector true none).1.vector ∈ errorVectors := by
  rw [gateFor_int hk]
  split
  · exact ⟨fun h => (nomatch h), fun h => absurd h (by decide)⟩
  · exact ⟨fun _ => List.mem_of_elem_eq_true rfl, fun _ => rfl⟩

end

/-- In the kernel, a handler has been entered for user code. -/
def UserMachine.Confined (k : StubAddresses) (rsp0 : UInt64) : UserMachine → Prop
  | .user s => InUserMode s
  | .kernel stub errorCode s cpu => InUserMode s ∧ (errorCode.isSome ↔ stub.vector ∈ errorVectors) ∧
      cpu = stub.enter k (kernelIdt k) rsp0 errorCode false s.cpu
  | .panic s cpu => InUserMode s ∧ FaultyReturn s cpu

section
variable {k : StubAddresses} {rsp0 gdtAddr tssAddr : UInt64} {s₀ : GdtState} {denied : Nat → Bool}
  {m m' : UserMachine} {e : UserEvent} {s : Core}

theorem InUserMode.imaged (h : InUserMode s) (rf : Bool) : InUserMode { s with cpu := s.cpu.imaged rf } := by
  cases rf with
  | false => exact h
  | true =>
    refine ⟨h.cs, h.ss, Eq.trans ?_ h.guarded⟩
    change (s.cpu.rflags ||| 0x10000) &&& 0x3200 = s.cpu.rflags &&& 0x3200
    apply UInt64.toNat_inj.mp
    rw [UInt64.toNat_and, UInt64.toNat_and, UInt64.toNat_or, Nat.and_or_distrib_right]
    exact Nat.or_zero _

theorem confined_interruptUser {vector : UInt8} {software : Bool} {errorCode : Option UInt64}
    (h : InUserMode s) (rf : Bool) (hgate : (gateFor k s.cpl vector software errorCode).2.isSome ↔
      (gateFor k s.cpl vector software errorCode).1.vector ∈ errorVectors) :
    (interruptUser k rsp0 vector software errorCode rf s).Confined k rsp0 := ⟨h.imaged rf, hgate, rfl⟩

/-- A handler returns to the code that it was entered for, or the `iretq` faults. -/
theorem confined_returnToUser {stub : Stub} {errorCode : Option UInt64} {cpu : Cpu} {g : Reg → UInt64}
    (h : InUserMode s) (herror : errorCode.isSome ↔ stub.vector ∈ errorVectors)
    (hret : HandlerReturned (stub.enter k (kernelIdt k) rsp0 errorCode false s.cpu) cpu g) :
    (returnToUser (gdtInit gdtAddr tssAddr s₀).table s cpu).Confined k rsp0 := by
  obtain ⟨kept, hkept⟩ := @iretq_user gdtAddr tssAddr s₀ (irqPop cpu) { s.cpu with gpr := g, mem := cpu.mem }
    (irqExit_returned herror hret) h.cs h.ss s.data
  have hflags : (irqPop cpu).nestedTask = cpu.nestedTask :=
    congrArg (fun f : UInt64 => f.toNat.testBit 14) (Cpu.sameButPopped_popRegs cpu stubRegs).rflags
  rw [hflags] at hkept
  unfold returnToUser
  rw [hkept]
  dsimp only
  by_cases hf : cpu.nestedTask = true ∨ ¬ CanonicalAddress s.cpu.rip
  · rw [if_pos hf]
    exact ⟨h, hf⟩
  · rw [if_neg hf]
    exact ⟨h.cs, h.ss, h.guarded⟩

theorem UserMachine.Confined.step (hk : Function.Injective k.entry) (h : m.Confined k rsp0)
    (hstep : UserMachineStep k (gdtInit gdtAddr tssAddr s₀).table
      ((gdtInit gdtAddr tssAddr s₀).ports denied) rsp0 m e m') :
    m'.Confined k rsp0 := by
  cases hstep with
  | code s s' hcode => exact InUserMode.step h hcode
  | int vector rf s => exact confined_interruptUser h rf (InUserMode.cpl h ▸ gateFor_int_consistent hk vector)
  | exception num errorCode rf s herror => exact confined_interruptUser h rf (gateFor_consistent hk herror)
  | irq line rf s =>
    have hline : ∀ line : Fin 16, (none : Option UInt64).isSome ↔ UInt8.ofNat (32 + line) ∈ errorVectors := by
      decide
    exact confined_interruptUser h rf (gateFor_consistent hk (hline line))
  | back stub errorCode s cpu cpu' g hstub hret =>
    obtain ⟨huser, herror, rfl⟩ := h
    exact confined_returnToUser huser herror hret

end

/-- Behind `enter_user_mode` code stays in ring 3 with interrupts on, or it is in a handler: in ring 0, on
the stack of the TSS, and with its state in the frame. With `int` it gets to the system calls only, and the
way back fails at most for an address that is not canonical or for a handler that has set the flag of a
nested task. -/
theorem user_mode_confined (k : StubAddresses) (hk : Function.Injective k.entry) (gdtAddr tssAddr : UInt64)
    (s₀ : GdtState) (denied : Nat → Bool) (rsp0 : UInt64) (hrsp0 : 199 ≤ rsp0.toNat) (s : Core)
    (hcs : s.cpu.cs.toNat % 4 = 0) (hiopl : s.cpu.rflags &&& 0x3000 = 0) (hnested : s.cpu.nestedTask = false)
    (hrsp : s.cpu.rsp.toNat % 8 = 0) (hrip : CanonicalAddress (s.cpu.gpr .rdi)) :
    (∀ vector, gateFor k 3 vector true none =
        if vector = 0x80 then (.syscallStub, none) else (.isr 13, some (8 * vector.toUInt64 + 2))) ∧
      (∀ stub : Stub, (gdtInit gdtAddr tssAddr s₀).table.gateCode (kernelIdt k stub.vector).selector = true) ∧
      ∃ u, enterUserMode (gdtInit gdtAddr tssAddr s₀).table s = some u ∧
        u.cpu.rip = s.cpu.gpr .rdi ∧ u.cpu.rsp = s.cpu.gpr .rsi ∧
        ∀ events m,
          Run (UserMachineStep k (gdtInit gdtAddr tssAddr s₀).table ((gdtInit gdtAddr tssAddr s₀).ports denied) rsp0)
            (.user u) events m →
          match m with
          | .user s => InUserMode s
          | .kernel stub errorCode s cpu => InUserMode s ∧ EnteredKernel k rsp0 stub errorCode s.cpu cpu
          | .panic s cpu => InUserMode s ∧ FaultyReturn s cpu := by
  obtain ⟨gpr, mem, data, henter⟩ := @enterUserMode_eq gdtAddr tssAddr s₀ s hcs hrsp hnested hrip
  refine ⟨gateFor_int hk, fun stub => ?_, _, henter, rfl, rfl, fun events m hrun => ?_⟩
  · have hselector : (kernelIdt k stub.vector).selector = 0x08 := (idt_leads k _ stub).2.1
    rw [gateCode_gdtInit, hselector]
    rfl
  · have hconfined : m.Confined k rsp0 :=
      hrun.invariant (I := UserMachine.Confined k rsp0) (fun _ _ _ h hstep => h.step hk hstep) ⟨rfl, rfl,
        guarded_or hiopl⟩
    cases m with
    | user s => exact hconfined
    | kernel stub errorCode s cpu =>
      obtain ⟨huser, herror, rfl⟩ := hconfined
      have hring : s.cpu.ring ≠ 0 := by
        rw [Cpu.ring, huser.cs]
        decide
      exact ⟨huser, enteredKernel false hring hrsp0 herror⟩
    | panic s cpu => exact hconfined

/-- The timer interrupts the first instruction. -/
theorem user_mode_confined_demo :
    ∃ u, enterUserMode (gdtInit 0x105000 0x106000 ⟨fun _ => 0, ⟨0, 0⟩, ⟨0, 0, 0, fun _ => 0, 0⟩⟩).table
        ⟨{ demoUser with
            gpr r := if r = .rdi then 0x400000 else 0x8000
            cs := 0x08
            ss := 0x10
            rflags := 0x6 },
          fun _ => 0x10⟩ = some u ∧
      InUserMode u ∧ u.cpu.rip = 0x400000 ∧ u.cpu.rsp = 0x8000 ∧
      gateFor demoEntries 3 14 true none = (.isr 13, some 0x72) ∧
      ∃ cpu, interruptUser demoEntries 0x9000 32 false none false u = .kernel .irq0 none u cpu ∧
        EnteredKernel demoEntries 0x9000 .irq0 none u.cpu cpu := by
  obtain ⟨hgate, -, u, henter, hrip, hrsp, hrun⟩ :=
    user_mode_confined demoEntries demoEntries_injective 0x105000 0x106000
    ⟨fun _ => 0, ⟨0, 0⟩, ⟨0, 0, 0, fun _ => 0, 0⟩⟩ (fun _ => false) 0x9000 (by decide)
    ⟨{ demoUser with gpr r := if r = .rdi then 0x400000 else 0x8000, cs := 0x08, ss := 0x10, rflags := 0x6 },
      fun _ => 0x10⟩
    rfl rfl rfl rfl (by decide)
  obtain ⟨huser, hkernel⟩ :=
    hrun [.irq 0] (interruptUser demoEntries 0x9000 32 false none false u) (.snoc .nil (.irq 0 false u))
  exact ⟨u, henter, huser, hrip, hrsp, hgate 14, _, rfl, hkernel⟩

end KernelOs
