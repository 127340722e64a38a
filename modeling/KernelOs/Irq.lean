import KernelOs.Keyboard
import KernelOs.Pic
import KernelOs.StubFrames

/-!
# Hardware interrupts

`irq_handler` behind the gates of the interrupt table and the two chips, over runs in which devices
raise and withdraw requests. Against it stands what it is for: a set of requests with priorities.
-/

namespace KernelOs
open Lib

/-- What a hardware interrupt works on, with `chips` for the requests. `halted` stands for the loop of
`exception_handler`. -/
structure IrqWorld (χ : Type) where
  chips : χ
  keyboard : Keyboard
  scheduler : Scheduler
  halted : Bool

/-- `status` and `data` are for the keyboard driver. The switch that `scheduler_tick` asks for is returned. -/
def irqHandler (w : IrqWorld Cascade) (interruptNumber : UInt64) (status data : UInt8) :
    IrqWorld Cascade × Option ContextSwitch :=
  if interruptNumber = 32 then
    let w := { w with chips := picSendEoi w.chips 0 }
    let (scheduler, switch) := w.scheduler.schedulerTick
    ({ w with scheduler }, switch)
  else if interruptNumber = 33 then
    let w := { w with keyboard := keyboardHandleIrq w.keyboard status data }
    ({ w with chips := picSendEoi w.chips 1 }, none)
  else ({ w with chips := picSendEoi w.chips (interruptNumber - 32).toUInt8 }, none)

/-! ## The gates -/

/-- Present, a 64-bit interrupt gate. -/
def IdtEntry.present (e : IdtEntry) : Bool := e.typeAttr &&& 0x8F = 0x8E

def Stub.all : List Stub := (List.finRange 32).map .isr ++ [.irq0, .irq1, .syscallStub]

/-- The table of a kernel that has run `idt_init` and `syscall_init`. It is zero before. -/
def kernelIdt (k : StubAddresses) : Idt := syscallInit k (idtInit k fun _ => ⟨0, 0, 0, 0, 0, 0, 0⟩)

/-- The stub that the gate leads to. -/
def IdtEntry.stub? (k : StubAddresses) (e : IdtEntry) : Option Stub :=
  if e.present then Stub.all.find? fun stub => k.entry stub = e.offset else none

/-! ## Events -/

/-- Line 2 is the slave's. -/
abbrev IrqLine := { n : Fin 16 // n ≠ 2 }

inductive IrqEvent where
  | raise (line : IrqLine)
  | withdraw (line : IrqLine)
  | setMask (irq : Fin 16)
  | clearMask (irq : Fin 16)
  /-- Other code of the kernel has run. -/
  | own (keyboard : Keyboard) (scheduler : Scheduler)
  | interrupt (stale : Bool) (status data : UInt8)

/-- The vector of an interrupt and the task switch it ends with. -/
abbrev IrqAnswer := Option UInt8 × Option ContextSwitch

namespace IrqWorld

/-- Without a gate there is a general protection fault instead, and its handler halts. The other stubs belong to
vectors of no line. -/
def interrupt (k : StubAddresses) (w : IrqWorld Cascade) (stale : Bool) (status data : UInt8) :
    IrqAnswer × IrqWorld Cascade :=
  let (vector, chips) := w.chips.acknowledge stale
  let w := { w with chips }
  match (kernelIdt k vector).stub? k with
  | some .irq0 =>
    let (w, switch) := irqHandler w Stub.irq0.vector.toUInt64 status data
    ((some vector, switch), w)
  | some .irq1 =>
    let (w, switch) := irqHandler w Stub.irq1.vector.toUInt64 status data
    ((some vector, switch), w)
  | _ => ((some vector, none), { w with halted := true })

/-- A halted kernel runs no code and takes no interrupt. -/
def step (k : StubAddresses) (w : IrqWorld Cascade) : IrqEvent → IrqAnswer × IrqWorld Cascade
  | .raise line => ((none, none), { w with chips := w.chips.request line.val true })
  | .withdraw line => ((none, none), { w with chips := w.chips.request line.val false })
  | .setMask irq => ((none, none), if w.halted then w else { w with chips := picSetMask w.chips (UInt8.ofNat irq) })
  | .clearMask irq =>
    ((none, none), if w.halted then w else { w with chips := picClearMask w.chips (UInt8.ofNat irq) })
  | .own keyboard scheduler => ((none, none), if w.halted then w else { w with keyboard, scheduler })
  | .interrupt stale status data => if w.halted then ((none, none), w) else w.interrupt k stale status data

/-! ## Requests -/

/-- What is done for `served`: a tick, a key, or the end of everything. -/
def serve (w : IrqWorld Requests) (served : Requests.Served) (status data : UInt8) :
    IrqWorld Requests × Option ContextSwitch :=
  match served with
  | .line 0 => ({ w with scheduler := w.scheduler.schedulerTick.1 }, w.scheduler.schedulerTick.2)
  | .line 1 => ({ w with keyboard := keyboardHandleIrq w.keyboard status data }, none)
  | _ => ({ w with halted := true }, none)

def requestsStep (w : IrqWorld Requests) : IrqEvent → IrqAnswer × IrqWorld Requests
  | .raise line => ((none, none), { w with chips := w.chips.request line.val true })
  | .withdraw line => ((none, none), { w with chips := w.chips.request line.val false })
  | .setMask irq => ((none, none), if w.halted then w else { w with chips := w.chips.mask irq true })
  | .clearMask irq => ((none, none), if w.halted then w else { w with chips := w.chips.mask irq false })
  | .own keyboard scheduler => ((none, none), if w.halted then w else { w with keyboard, scheduler })
  | .interrupt stale status data =>
    if w.halted then ((none, none), w)
    else
      let (served, chips) := w.chips.serve stale
      let (w, switch) := { w with chips }.serve served status data
      ((some (UInt8.ofNat (32 + served.number)), switch), w)

end IrqWorld

/-! ## The gates lead to the handlers of two lines -/

section
variable {k : StubAddresses} {vector : UInt8}

theorem isr_gates_of_ne (idt : Idt) (nums : List (Fin 32)) (h : ∀ num ∈ nums, vector ≠ UInt8.ofNat num) :
    nums.foldl (fun idt (i : Fin 32) => idtSetEntry idt (UInt8.ofNat i) (k.entry (.isr i)) 0x8E) idt vector =
      idt vector := by
  induction nums generalizing idt with
  | nil => rfl
  | cons num nums ih =>
    rw [List.foldl_cons, ih _ fun i hi => h i (List.mem_cons_of_mem _ hi)]
    exact idtSetEntry_of_ne (h num (List.mem_cons_self ..)) idt _ _

theorem present_isr (idt : Idt) (num : Fin 32) (nums : List (Fin 32))
    (h : num ∈ nums ∨ (idt (UInt8.ofNat num)).present = true) :
    (nums.foldl (fun idt (i : Fin 32) => idtSetEntry idt (UInt8.ofNat i) (k.entry (.isr i)) 0x8E) idt
      (UInt8.ofNat num)).present = true := by
  have hinj : ∀ i j : Fin 32, UInt8.ofNat i = UInt8.ofNat j → i = j := by decide +kernel
  induction nums generalizing idt with
  | nil => exact h.resolve_left List.not_mem_nil
  | cons i nums ih =>
    apply ih
    dsimp only
    by_cases hi : num = i
    · right
      rw [hi, idtSetEntry, Function.update_self]
      exact (by decide : decide ((0x8E : UInt8) &&& 0x8F = 0x8E) = true)
    · refine h.imp (fun hmem => (List.mem_cons.mp hmem).resolve_left hi) fun hpresent => ?_
      rwa [idtSetEntry_of_ne fun he => hi (hinj _ _ he)]

theorem present_kernelIdt (k : StubAddresses) (stub : Stub) : (kernelIdt k stub.vector).present = true := by
  unfold kernelIdt syscallInit idtInit Stub.vector
  dsimp only
  cases stub with
  | isr num =>
    have hne : ∀ num : Fin 32, UInt8.ofNat num ≠ 0x20 ∧ UInt8.ofNat num ≠ 0x21 ∧ UInt8.ofNat num ≠ 0x80 := by
      decide +kernel
    obtain ⟨h1, h2, h3⟩ := hne num
    dsimp only
    rw [idtSetEntry_of_ne h3, idtSetEntry_of_ne h2, idtSetEntry_of_ne h1]
    exact present_isr _ num _ (Or.inl (List.mem_finRange num))
  | irq0 =>
    dsimp only
    rw [idtSetEntry_of_ne (by decide), idtSetEntry_of_ne (by decide), idtSetEntry, Function.update_self]
    exact (by decide : decide ((0x8E : UInt8) &&& 0x8F = 0x8E) = true)
  | irq1 =>
    dsimp only
    rw [idtSetEntry_of_ne (by decide), idtSetEntry, Function.update_self]
    exact (by decide : decide ((0x8E : UInt8) &&& 0x8F = 0x8E) = true)
  | syscallStub =>
    dsimp only
    rw [idtSetEntry, Function.update_self]
    exact (by decide : decide ((0xEE : UInt8) &&& 0x8F = 0x8E) = true)

/-- No gate has been set for another vector. -/
theorem absent_kernelIdt (k : StubAddresses) (h : ∀ stub : Stub, vector ≠ stub.vector) :
    (kernelIdt k vector).present = false := by
  have h1 : vector ≠ 0x80 := h .syscallStub
  have h2 : vector ≠ 0x21 := h .irq1
  have h3 : vector ≠ 0x20 := h .irq0
  unfold kernelIdt syscallInit idtInit
  dsimp only
  rw [idtSetEntry_of_ne h1, idtSetEntry_of_ne h2, idtSetEntry_of_ne h3,
    isr_gates_of_ne _ _ fun num _ => h (.isr num)]
  rfl

theorem mem_all (stub : Stub) : stub ∈ Stub.all := by
  cases stub with
  | isr num => exact List.mem_append_left _ (List.mem_map_of_mem (List.mem_finRange num))
  | irq0 => exact List.mem_append_right _ (by decide)
  | irq1 => exact List.mem_append_right _ (by decide)
  | syscallStub => exact List.mem_append_right _ (by decide)

/-- A gate leads to the stub of its vector. -/
theorem stub?_kernelIdt (hk : Function.Injective k.entry) (stub : Stub) :
    (kernelIdt k stub.vector).stub? k = some stub := by
  have hoffset : (kernelIdt k stub.vector).offset = k.entry stub := (idt_leads k _ stub).1
  unfold IdtEntry.stub?
  rw [if_pos (present_kernelIdt k stub), hoffset]
  cases hfind : Stub.all.find? fun s => k.entry s = k.entry stub with
  | none => exact absurd (List.find?_eq_none.mp hfind stub (mem_all stub)) (by simp)
  | some s =>
    have heq := List.find?_some hfind
    rw [hk (of_decide_eq_true heq)]

theorem stub?_absent (h : ∀ stub : Stub, vector ≠ stub.vector) : (kernelIdt k vector).stub? k = none := by
  unfold IdtEntry.stub?
  rw [absent_kernelIdt k h]
  rfl

/-- The interrupt that is served goes on at its stub, if it has one. -/
theorem stub?_served (hk : Function.Injective k.entry) {n : Nat} (hn : n < 16) :
    (kernelIdt k (UInt8.ofNat (32 + n))).stub? k =
      if n = 0 then some .irq0 else if n = 1 then some .irq1 else none := by
  match n, hn with
  | 0, _ => exact stub?_kernelIdt hk .irq0
  | 1, _ => exact stub?_kernelIdt hk .irq1
  | n + 2, hn =>
    have hne : ∀ n < 16, 2 ≤ n →
      UInt8.ofNat (32 + n) ≠ 0x80 ∧ UInt8.ofNat (32 + n) ≠ 0x21 ∧ UInt8.ofNat (32 + n) ≠ 0x20 ∧
        ∀ num : Fin 32, UInt8.ofNat (32 + n) ≠ UInt8.ofNat num := by decide +kernel
    obtain ⟨h1, h2, h3, h4⟩ := hne (n + 2) hn (by omega)
    rw [if_neg (by omega), if_neg (by omega)]
    refine stub?_absent fun stub => ?_
    cases stub with
    | isr num => exact h4 num
    | irq0 => exact h3
    | irq1 => exact h2
    | syscallStub => exact h1

end

/-! ## The chips serve the requests -/

/-- The handler of `irq0`, of `irq1`, and what happens without a gate. -/
theorem interrupt_eq {k : StubAddresses} {w : IrqWorld Cascade} (hk : Function.Injective k.entry)
    {chips : Cascade} {vector : UInt8} {s : Requests.Served} {r : Requests} {stale : Bool}
    (hack : w.chips.acknowledge stale = (vector, chips)) (hans : Cascade.Answered w.chips chips vector s r)
    (hlt : s.number < 16) (status data : UInt8) : w.interrupt k stale status data =
      if s.number = 0 then
        ((some vector, w.scheduler.schedulerTick.2),
          { w with chips := picSendEoi chips 0, scheduler := w.scheduler.schedulerTick.1 })
      else if s.number = 1 then
        ((some vector, none),
          { w with chips := picSendEoi chips 1, keyboard := keyboardHandleIrq w.keyboard status data })
      else ((some vector, none), { w with chips, halted := true }) := by
  have hstub := stub?_served hk hlt
  rw [← hans.vector] at hstub
  unfold IrqWorld.interrupt
  rw [hack]
  dsimp only
  rw [hstub]
  by_cases h0 : s.number = 0
  · rw [if_pos h0, if_pos h0]
    rfl
  · rw [if_neg h0, if_neg h0]
    by_cases h1 : s.number = 1
    · rw [if_pos h1, if_pos h1]
      rfl
    · rw [if_neg h1, if_neg h1]

/-- The chips of `w` hold the requests of `a`. As long as the kernel runs nothing is in service. -/
structure Holds (w : IrqWorld Cascade) (a : IrqWorld Requests) : Prop where
  chips : w.chips.requests = a.chips
  wired : w.chips.Wired
  idle : w.halted = false → w.chips.master.Idle ∧ w.chips.slave.Idle
  keyboard : w.keyboard = a.keyboard
  scheduler : w.scheduler = a.scheduler
  halted : w.halted = a.halted

namespace Holds

variable {k : StubAddresses} {w : IrqWorld Cascade} {a : IrqWorld Requests}

theorem ofNat_lt (irq : Fin 16) : UInt8.ofNat irq < 16 := by
  revert irq
  decide

theorem masks (h : Holds w a) (hrun : w.halted = false) {chips : Cascade} {irq : Fin 16} {b : Bool}
    (hmask : Masks w.chips chips (UInt8.ofNat irq) b) :
    Holds { w with chips } { a with chips := a.chips.mask irq b } := by
  have hirq : (UInt8.ofNat irq).toNat = irq := by
    rw [UInt8.toNat_ofNat']
    exact Nat.mod_eq_of_lt (Nat.lt_of_lt_of_le irq.isLt (by decide))
  refine ⟨?_, hmask.wired, fun _ => ?_, h.keyboard, h.scheduler, h.halted⟩
  · rw [hmask.requests, h.chips, hirq]
  · obtain ⟨h1, h2⟩ := h.idle hrun
    exact ⟨hmask.master.trans h1, hmask.slave.trans h2⟩

/-- The handler of a request that was served has put nothing in service. -/
theorem ended (h : Holds w a) {chips : Cascade} {vector irq : UInt8} {s : Requests.Served} {r : Requests}
    (hans : Cascade.Answered w.chips chips vector s r) (hirq : irq.toNat = s.number) (hlt : s.number < 16) :
    Holds { w with chips := picSendEoi chips irq } { a with chips := r } := by
  rw [picSendEoi_serving hans.serving hirq hlt]
  exact ⟨hans.requests, ⟨hans.wired.master, hans.wired.slave⟩, fun _ => ⟨rfl, rfl⟩, h.keyboard,
    h.scheduler, h.halted⟩

theorem interrupt (h : Holds w a) (hk : Function.Injective k.entry) (hrun : w.halted = false) (stale : Bool)
    (status data : UInt8) :
    (w.interrupt k stale status data).1 =
        (some (UInt8.ofNat (32 + (a.chips.next stale).number)),
          ({ a with chips := (a.chips.serve stale).2 }.serve (a.chips.next stale) status data).2) ∧
      Holds (w.interrupt k stale status data).2
        ({ a with chips := (a.chips.serve stale).2 }.serve (a.chips.next stale) status data).1 := by
  obtain ⟨hm, hs⟩ := h.idle hrun
  have hans := Cascade.answered h.wired hm hs stale
  have hlt := Requests.number_next a.chips stale
  rw [h.chips] at hans
  have hack : w.chips.acknowledge stale = ((w.chips.acknowledge stale).1, (w.chips.acknowledge stale).2) := rfl
  rw [interrupt_eq hk hack hans hlt, ← hans.vector]
  have hother : Holds { w with chips := (w.chips.acknowledge stale).2, halted := true }
      { a with chips := (a.chips.serve stale).2, halted := true } :=
    ⟨hans.requests, hans.wired, nofun, h.keyboard, h.scheduler, rfl⟩
  cases hserved : a.chips.next stale with
  | line n =>
    rw [hserved] at hans hlt
    match n, hlt with
    | 0, hlt =>
      have hirq : (0 : UInt8).toNat = (Requests.Served.line 0).number := rfl
      have hend := h.ended hans hirq hlt
      have h0 : (Requests.Served.line 0).number = 0 := rfl
      rw [if_pos h0, h.scheduler]
      exact ⟨rfl, hend.chips, hend.wired, hend.idle, h.keyboard, rfl, h.halted⟩
    | 1, hlt =>
      have hirq : (1 : UInt8).toNat = (Requests.Served.line 1).number := rfl
      have hend := h.ended hans hirq hlt
      have h1 : (Requests.Served.line 1).number = 1 := rfl
      rw [if_neg (by decide), if_pos h1, h.keyboard]
      exact ⟨rfl, hend.chips, hend.wired, hend.idle, rfl, h.scheduler, h.halted⟩
    | n + 2, _ =>
      have hn : (Requests.Served.line (n + 2)).number ≠ 0 ∧ (Requests.Served.line (n + 2)).number ≠ 1 := by
        dsimp only [Requests.Served.number]
        omega
      rw [if_neg hn.1, if_neg hn.2]
      exact ⟨rfl, hother⟩
  | spurious n =>
    have hn : (Requests.Served.spurious n).number ≠ 0 ∧ (Requests.Served.spurious n).number ≠ 1 := by
      have := Requests.number_of_spurious hserved
      dsimp only [Requests.Served.number]
      omega
    rw [if_neg hn.1, if_neg hn.2]
    exact ⟨rfl, hother⟩

theorem request (h : Holds w a) (line : IrqLine) (b : Bool) :
    Holds { w with chips := w.chips.request line.val b } { a with chips := a.chips.request line.val b } := by
  have h2 : line.val.val ≠ 2 := fun he => line.property (Fin.ext he)
  obtain ⟨irr, irr', heq⟩ := Cascade.same_request w.chips line.val b
  refine ⟨?_, ?_, ?_, h.keyboard, h.scheduler, h.halted⟩
  · rw [← h.chips]
    exact Cascade.requests_request h2 b
  · dsimp only
    rw [heq]
    exact ⟨h.wired.master, h.wired.slave⟩
  · dsimp only
    rw [heq]
    exact h.idle

theorem step (h : Holds w a) (hk : Function.Injective k.entry) (e : IrqEvent) :
    (w.step k e).1 = (a.requestsStep e).1 ∧ Holds (w.step k e).2 (a.requestsStep e).2 := by
  unfold IrqWorld.step IrqWorld.requestsStep
  by_cases hrun : w.halted = true
  · have hrun' : a.halted = true := h.halted ▸ hrun
    cases e with
    | raise line => exact ⟨rfl, h.request line true⟩
    | withdraw line => exact ⟨rfl, h.request line false⟩
    | setMask irq | clearMask irq | own keyboard scheduler | interrupt stale status data =>
      dsimp only
      rw [if_pos hrun, if_pos hrun']
      exact ⟨rfl, h⟩
  · have hrun' : ¬a.halted = true := h.halted ▸ hrun
    have hfalse : w.halted = false := Bool.eq_false_of_not_eq_true hrun
    cases e with
    | raise line => exact ⟨rfl, h.request line true⟩
    | withdraw line => exact ⟨rfl, h.request line false⟩
    | setMask irq =>
      dsimp only
      rw [if_neg hrun, if_neg hrun']
      exact ⟨rfl, h.masks hfalse (masks_picSetMask h.wired (ofNat_lt irq))⟩
    | clearMask irq =>
      dsimp only
      rw [if_neg hrun, if_neg hrun']
      exact ⟨rfl, h.masks hfalse (masks_picClearMask h.wired (ofNat_lt irq))⟩
    | own keyboard scheduler =>
      dsimp only
      rw [if_neg hrun, if_neg hrun']
      exact ⟨rfl, h.chips, h.wired, h.idle, rfl, rfl, h.halted⟩
    | interrupt stale status data =>
      dsimp only
      rw [if_neg hrun, if_neg hrun', Requests.serve_fst]
      exact h.interrupt hk hfalse stale status data

end Holds

/-- After `pic_remap`, and whatever devices did in between, every run of interrupts is one of the requests
behind them. -/
theorem irqs_refine_requests (k : StubAddresses) (hk : Function.Injective k.entry) (boot : PicRemap)
    (l : List PicEvent) (hl : l.filterMap PicEvent.code? = picRemap) (hmaster : boot.chips.master.Idle)
    (hslave : boot.chips.slave.Idle) (keyboard : Keyboard) (scheduler : Scheduler) (events : List IrqEvent) :
    let chips := (l.foldl PicEvent.apply boot).chips
    let w : IrqWorld Cascade := ⟨chips, keyboard, scheduler, false⟩
    let a : IrqWorld Requests := ⟨chips.requests, keyboard, scheduler, false⟩
    a.chips.masked = boot.chips.requests.masked ∧
      outputs (IrqWorld.step k) w events = outputs IrqWorld.requestsStep a events ∧
      Holds (final (IrqWorld.step k) w events) (final IrqWorld.requestsStep a events) := by
  intro chips w a
  obtain ⟨hwired, hmasked, hm, hs⟩ := PicRemap.wired_interleaved hl boot
  have hstart : Holds w a := ⟨rfl, hwired, fun _ => ⟨hm.trans hmaster, hs.trans hslave⟩, rfl, rfl, rfl⟩
  exact ⟨hmasked, outputs_eq_of_simulation (fun w a e h => h.step hk e) events hstart⟩

/-- The stubs one behind the other. -/
def demoEntries : StubAddresses := { demoStubs with entry stub := 0x101000 + 64 * stub.vector.toUInt64 }

theorem demoEntries_injective : Function.Injective demoEntries.entry := by
  have hvector : ∀ v w : UInt8, (0x101000 + 64 * v.toUInt64 : UInt64) = 0x101000 + 64 * w.toUInt64 → v = w := by
    intro v w h
    have hv := v.toNat_lt
    have hw := w.toNat_lt
    have h' := congrArg UInt64.toNat h
    simp only [UInt64.toNat_add, UInt64.toNat_mul, UInt8.toNat_toUInt64, UInt64.reduceToNat] at h'
    exact UInt8.toNat_inj.mp (by omega)
  have hisr : ∀ i j : Fin 32, (Stub.isr i).vector = (Stub.isr j).vector → i = j := by decide +kernel
  have hother : ∀ i : Fin 32, ∀ v ∈ [Stub.irq0, .irq1, .syscallStub].map Stub.vector, (Stub.isr i).vector ≠
    v := by decide +kernel
  intro a b h
  have hab : a.vector = b.vector := hvector _ _ h
  cases a with
  | isr i =>
    cases b with
    | isr j => rw [hisr i j hab]
    | irq0 | irq1 | syscallStub => exact absurd hab (hother i _ (by decide))
  | irq0 | irq1 | syscallStub =>
    cases b with
    | isr j => exact absurd hab.symm (hother j _ (by decide))
    | irq0 | irq1 | syscallStub => first | rfl | exact absurd hab (by decide)

def demoChip : Pic8259 := ⟨fun _ => false, fun _ => false, 0xFB, 0x11, 8, 4, 1, .ocw1⟩

/-- A key while the chips are set up is lost. The next one reaches the driver, and line 9 halts the kernel. -/
theorem irqs_refine_requests_demo :
    let boot : PicRemap := ⟨⟨demoChip, { demoChip with imr := 0xFF, icw2 := 0x70, icw3 := 2 }⟩, 0, 0⟩
    let chips := ((PicEvent.raise 1 :: picRemap.map .code).foldl PicEvent.apply boot).chips
    let w : IrqWorld Cascade :=
      ⟨chips, .initial, ⟨fun _ => ⟨.ready, 0, 0, 0, 0, none⟩, none, none, none, 0, 0, 0⟩, false⟩
    let events : List IrqEvent :=
      [.clearMask 1, .raise ⟨1, by decide⟩, .interrupt false 1 0x1E, .clearMask 9, .raise ⟨9, by decide⟩,
      .interrupt false 0 0, .raise ⟨1, by decide⟩, .interrupt false 1 0x1E]
    (outputs (IrqWorld.step demoEntries) w events).map Prod.fst =
      [none, none, some 33, none, none, some 41, none, none] ∧
      (final (IrqWorld.step demoEntries) w events).keyboard.keyboardBuffer 0 = 97 ∧
      (final (IrqWorld.step demoEntries) w events).halted = true := by
  intro boot chips w events
  obtain ⟨-, hout, h⟩ :=
    irqs_refine_requests demoEntries demoEntries_injective boot
      (PicEvent.raise 1 :: picRemap.map .code) rfl rfl rfl
    w.keyboard w.scheduler events
  refine ⟨(congrArg (List.map Prod.fst) hout).trans ?_, ?_, h.halted.trans ?_⟩
  · decide +kernel
  · rw [h.keyboard]
    decide +kernel
  · decide +kernel

end KernelOs
