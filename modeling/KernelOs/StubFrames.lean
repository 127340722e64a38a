import KernelOs.InterruptLemmas
import KernelOs.Lib.StackWords
import KernelOs.Stubs

/-!
# Interrupt frames

What a handler sees of the interrupted code, and what the interrupted code sees of a handler.
-/

namespace KernelOs
open Lib Memory

variable {k : StubAddresses} {idt : Idt} {rsp0 : UInt64} {c c₁ c₂ : Cpu} {ws : List UInt64} {stub : Stub}
  {errorCode : Option UInt64} {rf : Bool}

/-! ## The table -/

/-- The parts of an address make the address. -/
theorem offset_parts (handler : UInt64) :
    ((handler >>> 32) &&& 0xFFFFFFFF).toUInt32.toUInt64 <<< 32 |||
      ((handler >>> 16) &&& 0xFFFF).toUInt16.toUInt64 <<< 16 |||
      (handler &&& 0xFFFF).toUInt16.toUInt64 = handler := by
  have hlt := handler.toNat_lt
  have hand : ∀ n, n % 65536 &&& 65535 = n % 65536 :=
    fun n => (Nat.and_two_pow_sub_one_eq_mod _ 16).trans (Nat.mod_mod ..)
  have hand' : ∀ n, n % 4294967296 &&& 4294967295 = n % 4294967296 :=
    fun n => (Nat.and_two_pow_sub_one_eq_mod _ 32).trans (Nat.mod_mod ..)
  have hlow : (handler &&& 0xFFFF).toUInt16.toUInt64.toNat = handler.toNat % 2 ^ 16 := by simp [hand]
  have hmid : ((handler >>> 16) &&& 0xFFFF).toUInt16.toUInt64.toNat = handler.toNat / 2 ^ 16 % 2 ^ 16 := by
    simp [hand, Nat.shiftRight_eq_div_pow]
  have hhigh : ((handler >>> 32) &&& 0xFFFFFFFF).toUInt32.toUInt64.toNat = handler.toNat / 2 ^ 32 % 2 ^ 32 := by
    simp [hand', Nat.shiftRight_eq_div_pow]
  generalize (handler &&& 0xFFFF).toUInt16.toUInt64 = low at hlow
  generalize ((handler >>> 16) &&& 0xFFFF).toUInt16.toUInt64 = mid at hmid
  generalize ((handler >>> 32) &&& 0xFFFFFFFF).toUInt32.toUInt64 = high at hhigh
  have h1 : (high <<< 32).toNat = 2 ^ 32 * high.toNat := by
    rw [UInt64.toNat_shiftLeft, Nat.shiftLeft_eq, Nat.mul_comm]
    exact Nat.mod_eq_of_lt (by change 2 ^ 32 * high.toNat < 2 ^ 64; omega)
  have h2 : (mid <<< 16).toNat = 2 ^ 16 * mid.toNat := by
    rw [UInt64.toNat_shiftLeft, Nat.shiftLeft_eq, Nat.mul_comm]
    exact Nat.mod_eq_of_lt (by change 2 ^ 16 * mid.toNat < 2 ^ 64; omega)
  have hupper := Nat.two_pow_add_eq_or_of_lt (i := 32) (b := 2 ^ 16 * mid.toNat) (by omega) high.toNat
  have hlower := Nat.two_pow_add_eq_or_of_lt (i := 16) (b := low.toNat) (by omega) (2 ^ 16 * high.toNat + mid.toNat)
  have hsum : 2 ^ 32 * high.toNat + 2 ^ 16 * mid.toNat = 2 ^ 16 * (2 ^ 16 * high.toNat + mid.toNat) := by omega
  apply UInt64.toNat_inj.mp
  rw [UInt64.toNat_or, UInt64.toNat_or, h1, h2, ← hupper, hsum, ← hlower]
  omega

/-- What the CPU finds at `vector`. -/
def IdtEntry.Leads (e : IdtEntry) (stub : Stub) (k : StubAddresses) : Prop :=
  e.offset = k.entry stub ∧ e.selector = 0x08 ∧ e.dpl = if stub = .syscallStub then 3 else 0

theorem leads_idtSetEntry (k : StubAddresses) (idt : Idt) (vector typeAttr : UInt8)
    (h : typeAttr >>> 5 &&& 3 = if stub = .syscallStub then 3 else 0) :
    (idtSetEntry idt vector (k.entry stub) typeAttr vector).Leads stub k := by
  unfold idtSetEntry
  rw [Function.update_self]
  exact ⟨offset_parts _, rfl, h⟩

theorem idtSetEntry_of_ne {vector vector' : UInt8} (h : vector' ≠ vector) (idt : Idt) (handler : UInt64)
    (typeAttr : UInt8) :
    idtSetEntry idt vector handler typeAttr vector' = idt vector' := Function.update_of_ne h ..

theorem leads_isr (idt : Idt) (num : Fin 32) (nums : List (Fin 32))
    (h : num ∈ nums ∨ (idt (UInt8.ofNat num)).Leads (.isr num) k) :
    ((nums.foldl (fun idt (i : Fin 32) => idtSetEntry idt (UInt8.ofNat i) (k.entry (.isr i)) 0x8E) idt)
      (UInt8.ofNat num)).Leads
      (.isr num) k := by
  have hinj : ∀ i j : Fin 32, UInt8.ofNat i = UInt8.ofNat j → i = j := by decide +kernel
  induction nums generalizing idt with
  | nil => exact h.resolve_left List.not_mem_nil
  | cons i nums ih =>
    apply ih
    dsimp only
    by_cases hi : num = i
    · right
      subst hi
      exact leads_idtSetEntry k idt (UInt8.ofNat num) 0x8E rfl
    · refine h.imp (fun hmem => (List.mem_cons.mp hmem).resolve_left hi) fun hleads => ?_
      rwa [idtSetEntry_of_ne fun he => hi (hinj _ _ he)]

/-- Each vector leads to the stub that pushes its number, and only that of `int 0x80` is open to user mode. -/
theorem idt_leads (k : StubAddresses) (idt : Idt) (stub : Stub) :
    (syscallInit k (idtInit k idt) stub.vector).Leads stub k := by
  cases stub with
  | isr num =>
    have hne : ∀ num : Fin 32, UInt8.ofNat num ≠ 0x20 ∧ UInt8.ofNat num ≠ 0x21 ∧ UInt8.ofNat num ≠ 0x80 := by
      decide +kernel
    obtain ⟨h1, h2, h3⟩ := hne num
    unfold syscallInit idtInit Stub.vector
    dsimp only
    rw [idtSetEntry_of_ne h3, idtSetEntry_of_ne h2, idtSetEntry_of_ne h1]
    exact leads_isr idt num _ (Or.inl (List.mem_finRange num))
  | irq0 =>
    unfold syscallInit idtInit Stub.vector
    dsimp only
    rw [idtSetEntry_of_ne (by decide), idtSetEntry_of_ne (by decide)]
    exact leads_idtSetEntry k _ 0x20 0x8E rfl
  | irq1 =>
    unfold syscallInit idtInit Stub.vector
    dsimp only
    rw [idtSetEntry_of_ne (by decide)]
    exact leads_idtSetEntry k _ 0x21 0x8E rfl
  | syscallStub => exact leads_idtSetEntry k _ 0x80 0xEE rfl

/-! ## The frame in memory -/

namespace InterruptFrame

def words (frame : InterruptFrame) : List UInt64 :=
  stubRegs.map frame.gpr ++
    ([frame.interruptNumber, frame.errorCode] ++ [frame.rip, frame.cs, frame.rflags, frame.rsp, frame.ss])

theorem words_load (m : Memory) (a : UInt64) : m.Words a (load m a).words := by
  simp [words, stubRegs, gpr, load, Words, UInt64.add_assoc]

theorem load_eq {m : Memory} {a : UInt64} {frame : InterruptFrame} (h : m.Words a frame.words) :
    load m a = frame := by
  cases frame
  simp only [words, stubRegs, gpr, List.map_cons, List.map_nil, List.cons_append, List.nil_append, Words,
    UInt64.add_assoc, UInt64.reduceAdd, and_true] at h
  simp only [load, h]

@[simp] theorem gpr_withGpr (frame : InterruptFrame) (g : Reg → UInt64) : (frame.withGpr g).gpr = g := by
  funext r
  cases r <;> rfl

end InterruptFrame

theorem words_frameOf (c : Cpu) (vector : UInt8) (errorCode : Option UInt64) :
    (frameOf c vector errorCode).words =
      stubRegs.map c.gpr ++ ([vector.toUInt64, errorCode.getD 0] ++ c.interruptFrame) := rfl

/-! ## Entry -/

theorem saveRegs_spec (handler returnAddr : UInt64) (hmod : c.rsp.toNat % 16 = 8) (hw : c.mem.Words c.rsp ws)
    (hlen : ws.length < 2 ^ 32) :
    AtHandler (saveRegs handler returnAddr c) ∧ (saveRegs handler returnAddr c).rip = handler ∧
      (saveRegs handler returnAddr c).mem.Words (saveRegs handler returnAddr c).rsp
      (returnAddr :: (stubRegs.map c.gpr ++ ws)) := by
  have hregs : (stubRegs.reverse.map c.gpr).length = 15 := by simp [stubRegs]
  have hrev : (stubRegs.reverse.map c.gpr).reverse = stubRegs.map c.gpr := by simp
  obtain ⟨h1, h2, h3⟩ := Cpu.words_pushAll (stubRegs.reverse.map c.gpr) (by omega) hw (by omega)
  rw [hregs] at h1
  rw [hrev] at h3
  unfold saveRegs
  rw [stubRegs_reverse, Cpu.pushRegs_eq]
  generalize c.pushAll (stubRegs.reverse.map c.gpr) = c₁ at h1 h2 h3
  have hrsp : c₁.rsp.toNat % 16 = 0 := by
    have := congrArg UInt64.toNat h1
    rw [UInt64.toNat_add, show (8 * UInt64.ofNat 15).toNat = 120 from rfl] at this
    omega
  refine ⟨⟨?_, ?_⟩, rfl, ?_⟩
  · change (c₁.rsp - 8).toNat % 16 = 8
    rw [UInt64.toNat_sub]
    simp only [UInt64.reduceToNat]
    omega
  · change Function.update c₁.gpr .rdi c₁.rsp .rdi = c₁.rsp - 8 + 8
    rw [Function.update_self, UInt64.sub_add_cancel]
  · refine Cpu.words_push (c := { c₁ with gpr := Function.update c₁.gpr .rdi c₁.rsp }) returnAddr h2 h3 ?_
    simp only [stubRegs, List.length_append, List.length_map, List.length_cons, List.length_nil]
    omega

/-- The CPU's error code and what a stub pushes, in front of the five words of the CPU. -/
theorem words_number {g : Cpu} (code number : UInt64) (hmod : g.rsp.toNat % 16 = 0)
    (hw : g.mem.Words g.rsp (code :: c.interruptFrame)) :
    (g.push number).rsp.toNat % 16 = 8 ∧ (g.push number).mem.Words (g.push number).rsp
      ([number, code] ++ c.interruptFrame) := by
  refine ⟨?_, Cpu.words_push number (by omega) hw (by simp [Cpu.interruptFrame])⟩
  change (g.rsp - 8).toNat % 16 = 8
  rw [UInt64.toNat_sub]
  simp only [UInt64.reduceToNat]
  omega

theorem words_code {g : Cpu} (code : UInt64) (hmod : g.rsp.toNat % 16 = 8)
    (hw : g.mem.Words g.rsp c.interruptFrame) :
    (g.push code).rsp.toNat % 16 = 0 ∧ (g.push code).mem.Words (g.push code).rsp (code :: c.interruptFrame) := by
  refine ⟨?_, Cpu.words_push code (by omega) hw (by simp [Cpu.interruptFrame])⟩
  change (g.rsp - 8).toNat % 16 = 0
  rw [UInt64.toNat_sub]
  simp only [UInt64.reduceToNat]
  omega

theorem toUInt64_num : ∀ num : Fin 32, (UInt8.ofNat num).toUInt64 = UInt64.ofNat num := by
  decide +kernel

theorem isr_err (c : Cpu) {num : Fin 32} (h : UInt8.ofNat num ∈ isrErrVectors) :
    isr k num c = saveRegs k.exceptionHandler k.isrReturn (c.push (UInt8.ofNat num).toUInt64) := by
  unfold isr
  rw [if_pos h, toUInt64_num]
  rfl

theorem isr_noerr (c : Cpu) {num : Fin 32} (h : UInt8.ofNat num ∉ isrErrVectors) :
    isr k num c = saveRegs k.exceptionHandler k.isrReturn ((c.push 0).push (UInt8.ofNat num).toUInt64) := by
  unfold isr
  rw [if_neg h, toUInt64_num]
  rfl

/-- Up to the call of the handler a stub has pushed the vector and, where the CPU has not, an error code. -/
theorem enter_eq (k : StubAddresses) (idt : Idt) (rsp0 : UInt64) (rf : Bool) (c : Cpu)
    (herror : errorCode.isSome ↔ stub.vector ∈ [8, 10, 11, 12, 13, 14, 17, 30]) :
    ∃ c₀, stub.enter k idt rsp0 errorCode rf c = saveRegs (stub.handler k) (stub.returnAddr k) c₀ ∧ c₀.gpr = c.gpr ∧
      c₀.rsp.toNat % 16 = 8 ∧
      c₀.mem.Words c₀.rsp ([stub.vector.toUInt64, errorCode.getD 0] ++ (c.imaged rf).interruptFrame) := by
  obtain ⟨hgpr, hmod, hw⟩ :=
    c.interruptGate_words rf rsp0 (idt stub.vector).selector.toUInt64 (idt stub.vector).offset
  unfold Stub.enter deliver
  generalize c.interruptGate rf rsp0 (idt stub.vector).selector.toUInt64 (idt stub.vector).offset =
    g at hgpr hmod hw
  cases errorCode with
  | none =>
    have hnot : stub.vector ∉ [8, 10, 11, 12, 13, 14, 17, 30] := fun hmem => by simpa using herror.mpr hmem
    obtain ⟨hmod', hw'⟩ := words_code 0 hmod hw
    obtain ⟨hmod'', hw''⟩ := words_number 0 stub.vector.toUInt64 hmod' hw'
    refine ⟨(g.push 0).push stub.vector.toUInt64, ?_, hgpr, hmod'', hw''⟩
    cases stub with
    | isr num => exact isr_noerr g hnot
    | irq0 => rfl
    | irq1 => rfl
    | syscallStub => rfl
  | some code =>
    have hmem := herror.mp rfl
    obtain ⟨hmod', hw'⟩ := words_code code hmod hw
    obtain ⟨hmod'', hw''⟩ := words_number code stub.vector.toUInt64 hmod' hw'
    refine ⟨(g.push code).push stub.vector.toUInt64, ?_, hgpr, hmod'', hw''⟩
    cases stub with
    | isr num => exact isr_err (g.push code) hmem
    | irq0 => exact absurd hmem (by decide)
    | irq1 => exact absurd hmem (by decide)
    | syscallStub => exact absurd hmem (by decide)

theorem enter_spec (k : StubAddresses) (idt : Idt) (rsp0 : UInt64) (rf : Bool) (c : Cpu)
    (herror : errorCode.isSome ↔ stub.vector ∈ [8, 10, 11, 12, 13, 14, 17, 30]) :
    AtHandler (stub.enter k idt rsp0 errorCode rf c) ∧ (stub.enter k idt rsp0 errorCode rf c).rip = stub.handler k ∧
      (stub.enter k idt rsp0 errorCode rf c).mem.load64 (stub.enter k idt rsp0 errorCode rf c).rsp.toNat =
      stub.returnAddr k ∧
      InterruptFrame.load (stub.enter k idt rsp0 errorCode rf c).mem
      ((stub.enter k idt rsp0 errorCode rf c).gpr .rdi) =
        frameOf (c.imaged rf) stub.vector errorCode := by
  obtain ⟨c₀, he, hgpr, hmod, hw⟩ := enter_eq k idt rsp0 rf c herror
  rw [he]
  obtain ⟨h1, h2, h3, h4⟩ :=
    saveRegs_spec (stub.handler k) (stub.returnAddr k) hmod hw (by simp [Cpu.interruptFrame])
  refine ⟨h1, h2, h3, ?_⟩
  rw [h1.rdi]
  apply InterruptFrame.load_eq
  rw [words_frameOf, Cpu.gpr_imaged, ← hgpr]
  exact h4

/-! ## Exit -/

theorem irqExit_frame {frame : InterruptFrame} (h : c₁.mem.Words c₁.rsp frame.words) (hrip : frame.rip = c.rip)
    (hcs : frame.cs = c.cs) (hrflags : frame.rflags = c.rflags) (hrsp : frame.rsp = c.rsp) (hss : frame.ss = c.ss) :
    irqExit c₁ = { c with gpr := frame.gpr, mem := c₁.mem } := by
  obtain ⟨hregs, hrest⟩ := words_append.mp h
  obtain ⟨h1, h2⟩ := Cpu.popRegs_words hregs
  obtain ⟨-, -, hframe⟩ := hrest
  have hgpr : (c₁.popRegs stubRegs).gpr = frame.gpr := funext fun r => h2 r (mem_stubRegs r)
  have hmem := (c₁.sameButPopped_popRegs stubRegs).mem
  change Cpu.iretq { c₁.popRegs stubRegs with rsp := (c₁.popRegs stubRegs).rsp + 16 } = _
  generalize c₁.popRegs stubRegs = c₂ at h1 hgpr hmem
  have hframe' : Words c₂.mem (c₂.rsp + 16) c.interruptFrame := by
    rw [List.length_map, ← h1, UInt64.add_assoc, hrip, hcs, hrflags, hrsp, hss, ← hmem] at hframe
    exact hframe
  rw [Cpu.iretq_words (c := { c₂ with rsp := c₂.rsp + 16 }) hframe', hgpr, hmem]

/-- The interrupted code goes on with the general-purpose registers of the frame. -/
theorem irqExit_returned {g : Reg → UInt64}
    (herror : errorCode.isSome ↔ stub.vector ∈ [8, 10, 11, 12, 13, 14, 17, 30])
    (h : HandlerReturned (stub.enter k idt rsp0 errorCode rf c) c₁ g) :
    irqExit c₁ = { c.imaged rf with gpr := g, mem := c₁.mem } := by
  obtain ⟨hat, -, -, hframe⟩ := enter_spec k idt rsp0 rf c herror
  have hload := h.frame
  rw [hframe, hat.rdi, ← h.rsp] at hload
  have hwords := InterruptFrame.words_load c₁.mem c₁.rsp
  rw [hload] at hwords
  rw [irqExit_frame (c := c.imaged rf) hwords rfl rfl rfl rfl rfl, InterruptFrame.gpr_withGpr]

theorem resume_eq {g : Reg → UInt64} (herror : errorCode.isSome ↔ stub.vector ∈ [8, 10, 11, 12, 13, 14, 17, 30])
    (h : HandlerReturned (stub.enter k idt rsp0 errorCode rf c) c₁ g) :
    stub.resume k c₁ = { c.imaged rf with gpr := g, mem := c₁.mem } := by
  obtain ⟨-, -, hret, -⟩ := enter_spec k idt rsp0 rf c herror
  have hexit : stub.exit c₁ = irqExit c₁ := by cases stub <;> rfl
  unfold Stub.resume
  rw [if_pos (h.rip.trans hret), hexit, irqExit_returned herror h]

/-! ## System calls -/

theorem syscallHandler_write {frame : InterruptFrame} (h : frame.rax = syscallWriteChar) (console : Console) :
    syscallHandler frame console = ⟨({ frame with rax := 0 }, (consolePutChar console frame.rdi.toUInt8).val),
      .put frame.rdi.toUInt8 :: (consolePutChar console frame.rdi.toUInt8).trace.map .console⟩ := by
  unfold syscallHandler
  rw [if_pos h]
  change (⟨_, _ ++ []⟩ : PrintTrace (InterruptFrame × Console)) = _
  rw [List.append_nil]
  rfl

theorem syscallHandler_other {frame : InterruptFrame} (h : frame.rax ≠ syscallWriteChar) (console : Console) :
    syscallHandler frame console = ⟨({ frame with rax := -1 }, console), []⟩ := by
  unfold syscallHandler
  rw [if_neg h]
  rfl

theorem syscallHandler_rax (frame : InterruptFrame) (console : Console) :
    (syscallHandler frame console).val.1 = { frame with rax := (syscallHandler frame console).val.1.rax } := by
  by_cases h : frame.rax = syscallWriteChar
  · rw [syscallHandler_write h]
  · rw [syscallHandler_other h]

theorem syscallHandler_frame (frame : InterruptFrame) (console : Console) :
    (syscallHandler frame console).val.1 = frame.withGpr (syscallHandler frame console).val.1.gpr := by
  rw [syscallHandler_rax]
  rfl

theorem gpr_frameOf (c : Cpu) (vector : UInt8) (errorCode : Option UInt64) :
    (frameOf c vector errorCode).gpr = c.gpr := by
  funext r
  cases r <;> rfl

theorem gpr_frameOf_rax (c : Cpu) (vector : UInt8) (v : UInt64) :
    { frameOf c vector none with rax := v }.gpr = Function.update c.gpr .rax v := by
  funext r
  cases r <;> rfl

/-- A system call is what the source makes of the interrupted registers. -/
theorem int80_eq {handler : Cpu → Console → PrintTrace (Cpu × Console)} (h : CompiledHandler handler)
    (k : StubAddresses) (idt : Idt) (rsp0 : UInt64) (c : Cpu) (console : Console) :
    ∃ mem, int80 k handler idt rsp0 c console =
      ⟨({ c with gpr := (syscallHandler (frameOf c 0x80 none) console).val.1.gpr, mem },
        (syscallHandler (frameOf c 0x80 none) console).val.2),
        (syscallHandler (frameOf c 0x80 none) console).trace⟩ := by
  have herror : (none : Option UInt64).isSome ↔
    Stub.syscallStub.vector ∈ [8, 10, 11, 12, 13, 14, 17, 30] := by decide
  obtain ⟨hat, -, -, hframe⟩ := enter_spec k idt rsp0 false c herror
  have hresume : ∀ c₁ g, HandlerReturned (Stub.syscallStub.enter k idt rsp0 none false c) c₁ g →
      Stub.syscallStub.resume k c₁ = { c with gpr := g, mem := c₁.mem } := fun c₁ g => resume_eq herror
  unfold int80
  generalize Stub.syscallStub.enter k idt rsp0 none false c = e at hat hframe hresume
  have h1 := h.rsp e console hat
  have h2 := h.rip e console hat
  have h3 := h.frame e console hat
  have h4 := h.console e console hat
  have h5 := h.trace e console hat
  have hret : HandlerReturned e (handler e console).val.1
      (syscallHandler (frameOf c 0x80 none) console).val.1.gpr := by
    refine ⟨h1, h2, ?_⟩
    rw [h3, hframe]
    exact syscallHandler_frame _ console
  rw [hframe] at h4 h5
  refine ⟨(handler e console).val.1.mem, ?_⟩
  change (⟨(Stub.syscallStub.resume k (handler e console).val.1, (handler e console).val.2),
    (handler e console).trace ++ []⟩ :
    PrintTrace (Cpu × Console)) = _
  rw [hresume _ _ hret, h4, h5, List.append_nil]
  rfl

/-- What a compiler may make of `syscall_handler`, with no stack frame of its own. -/
def plainHandler (c : Cpu) (console : Console) : PrintTrace (Cpu × Console) := do
  let (frame, console) ← syscallHandler (InterruptFrame.load c.mem (c.gpr .rdi)) console
  pure
    ({ c with
        mem := c.mem.store64 (c.gpr .rdi + 112).toNat frame.rax
        rsp := c.rsp + 8
        rip := c.mem.load64 c.rsp.toNat },
      console)

theorem load_store_rax (m : Memory) {a : UInt64} (ha : a.toNat % 8 = 0) (v : UInt64) :
    InterruptFrame.load (m.store64 (a + 112).toNat v) a = { InterruptFrame.load m a with rax := v } := by
  have hne : ∀ d : UInt64, d.toNat % 8 = 0 → d ≠ 112 →
      (m.store64 (a + 112).toNat v).load64 (a + d).toNat = m.load64 (a + d).toNat := by
    intro d hd hd'
    exact load64_store64_of_ne m (aligned_add ha hd) (aligned_add ha rfl) fun he =>
      hd' ((UInt64.add_right_inj a).mp he)
  have h0 := hne 0 rfl (by decide)
  rw [UInt64.add_zero] at h0
  simp (disch := decide) only [InterruptFrame.load, h0, hne, load64_store64]

theorem handlerReturned_ret (c : Cpu) : HandlerReturned c c.ret (InterruptFrame.load c.mem (c.gpr .rdi)).gpr :=
  ⟨rfl, rfl, rfl⟩

theorem plainHandler_eq (c : Cpu) (console : Console) {r : PrintTrace (InterruptFrame × Console)}
    (h : syscallHandler (InterruptFrame.load c.mem (c.gpr .rdi)) console = r) : plainHandler c console =
      ⟨({ c with
            mem := c.mem.store64 (c.gpr .rdi + 112).toNat r.val.1.rax
            rsp := c.rsp + 8
            rip := c.mem.load64 c.rsp.toNat },
          r.val.2),
        r.trace⟩ := by
  unfold plainHandler
  rw [h]
  change (⟨_, r.trace ++ []⟩ : PrintTrace (Cpu × Console)) = _
  rw [List.append_nil]
  rfl

theorem compiled_plainHandler : CompiledHandler plainHandler where
  rsp c console _ := by rw [plainHandler_eq c console rfl]
  rip c console _ := by rw [plainHandler_eq c console rfl]
  frame c console hat := by
    have ha : (c.gpr .rdi).toNat % 8 = 0 := by
      rw [hat.rdi]
      have := hat.aligned
      exact aligned_add (by omega) rfl
    have hrax := syscallHandler_rax (InterruptFrame.load c.mem (c.gpr .rdi)) console
    rw [plainHandler_eq c console rfl]
    exact (load_store_rax c.mem ha _).trans hrax.symm
  console c console _ := by rw [plainHandler_eq c console rfl]
  trace c console _ := by rw [plainHandler_eq c console rfl]

/-! ## The handler's view and the interrupted code's -/

theorem interrupt_frames_agree (k : StubAddresses) (idt : Idt) (rsp0 : UInt64) (c : Cpu) :
    (∀ (stub : Stub) (errorCode : Option UInt64) (rf : Bool), (errorCode.isSome ↔ stub.vector ∈ [8, 10, 11, 12,
      13, 14, 17, 30]) →
      (stub.enter k idt rsp0 errorCode rf c).rip = stub.handler k ∧
        InterruptFrame.load (stub.enter k idt rsp0 errorCode rf c).mem
        ((stub.enter k idt rsp0 errorCode rf c).gpr .rdi) =
          frameOf (c.imaged rf) stub.vector errorCode ∧
        ∀ c' g, HandlerReturned (stub.enter k idt rsp0 errorCode rf c) c' g →
          stub.resume k c' = { c.imaged rf with gpr := g, mem := c'.mem }) ∧
    ∀ handler, CompiledHandler handler → ∀ console, ∃ mem, int80 k handler idt rsp0 c console =
      if c.gpr .rax = 0 then
        ⟨({ c with gpr := Function.update c.gpr .rax 0, mem }, (consolePutChar console (c.gpr .rdi).toUInt8).val),
          .put (c.gpr .rdi).toUInt8 :: (consolePutChar console (c.gpr .rdi).toUInt8).trace.map .console⟩
      else ⟨({ c with gpr := Function.update c.gpr .rax (UInt64.ofNat (2 ^ 64 - 1)), mem }, console), []⟩ := by
  refine ⟨fun stub errorCode rf herror => ?_, fun handler hhandler console => ?_⟩
  · obtain ⟨-, hrip, -, hframe⟩ := enter_spec k idt rsp0 rf c herror
    exact ⟨hrip, hframe, fun c' g hret => resume_eq herror hret⟩
  · obtain ⟨mem, hmem⟩ := int80_eq hhandler k idt rsp0 c console
    refine ⟨mem, ?_⟩
    rw [hmem]
    by_cases hrax : c.gpr .rax = 0
    · have hwrite : (frameOf c 0x80 none).rax = syscallWriteChar := hrax
      have hrdi : (frameOf c 0x80 none).rdi = c.gpr .rdi := rfl
      rw [if_pos hrax, syscallHandler_write hwrite, gpr_frameOf_rax, hrdi]
    · have hother : (frameOf c 0x80 none).rax ≠ syscallWriteChar := hrax
      have hminus : UInt64.ofNat (2 ^ 64 - 1) = -1 := rfl
      rw [if_neg hrax, syscallHandler_other hother, gpr_frameOf_rax, hminus]

def demoStubs : StubAddresses where
  entry _ := 0x101000
  exceptionHandler := 0x102000
  irqHandler := 0x103000
  syscallHandler := 0x104000
  isrReturn := 0x101100
  irqReturn := 0x101200
  syscallReturn := 0x101300

def demoUser : Cpu where
  gpr r := if r = .rdi then 65 else 0
  rsp := 0x7FF0
  rip := 0x400002
  rflags := 0x202
  cs := 0x1B
  ss := 0x23
  mem _ := 0

def demoIdt : Idt := syscallInit demoStubs (idtInit demoStubs fun _ => ⟨0, 0, 0, 0, 0, 0, 0⟩)

/-- A page fault in user mode, which saves the resume flag, and a system call that prints 'A'. -/
theorem interrupt_frames_agree_user :
    InterruptFrame.load ((Stub.isr 14).enter demoStubs demoIdt 0x9000 (some 6) true demoUser).mem
        (((Stub.isr 14).enter demoStubs demoIdt 0x9000 (some 6) true demoUser).gpr .rdi) =
          frameOf { demoUser with rflags := 0x10202 } 14 (some 6) ∧
      (Stub.isr 14).resume demoStubs ((Stub.isr 14).enter demoStubs demoIdt 0x9000 (some 6) true demoUser).ret =
        { demoUser with
          rflags := 0x10202
          mem := ((Stub.isr 14).enter demoStubs demoIdt 0x9000 (some 6) true demoUser).mem } ∧
      ∃ mem, int80 demoStubs plainHandler demoIdt 0x9000 demoUser ⟨fun _ => 0, 0, 0⟩ =
        ⟨({ demoUser with gpr := Function.update demoUser.gpr .rax 0, mem },
        (consolePutChar ⟨fun _ => 0, 0, 0⟩ 65).val),
          .put 65 :: (consolePutChar ⟨fun _ => 0, 0, 0⟩ 65).trace.map .console⟩ := by
  obtain ⟨h1, h2⟩ := interrupt_frames_agree demoStubs demoIdt 0x9000 demoUser
  obtain ⟨-, h3, h4⟩ := h1 (.isr 14) (some 6) true (by decide)
  obtain ⟨mem, h5⟩ := h2 plainHandler compiled_plainHandler ⟨fun _ => 0, 0, 0⟩
  have h6 := h4 _ _ (handlerReturned_ret _)
  have himage : demoUser.imaged true = { demoUser with rflags := 0x10202 } := rfl
  have hrax : demoUser.gpr .rax = 0 := rfl
  have hrdi : (demoUser.gpr .rdi).toUInt8 = 65 := rfl
  rw [himage] at h3 h6
  rw [h3, gpr_frameOf] at h6
  rw [if_pos hrax, hrdi] at h5
  exact ⟨h3, h6, mem, h5⟩

end KernelOs
