import KernelOs.ConsoleWindow
import KernelOs.Lib.Uart

/-!
# The serial port

`serial.cpp` on a chip whose transmitter needs time, and what arrives at the other end of what the
console prints.
-/

namespace KernelOs
open Lib

/-- The chip at COM1 and the number of accesses so far. -/
structure Com1 where
  serial : SerialLine
  accesses : Nat

def com1Data : Nat := 0
def com1InterruptEnable : Nat := 1
def com1FifoControl : Nat := 2
def com1LineControl : Nat := 3
def com1ModemControl : Nat := 4

section
variable (passes : Nat → Nat)

namespace Com1

/-- `passes` says how many bit times go by before each access. -/
def wait (s : Com1) : Com1 := ⟨s.serial.elapse (passes s.accesses), s.accesses + 1⟩

def outb (port : Nat) (value : UInt8) (s : Com1) : Com1 :=
  let s := s.wait passes
  { s with serial.chip := s.serial.chip.write value port }

/-- The only register that is read. -/
def lineStatus (s : Com1) : UInt8 × Com1 := ((s.wait passes).serial.chip.lineStatus, s.wait passes)

def transmitterEmpty (s : Com1) : Bool × Com1 :=
  let (status, s) := s.lineStatus passes
  (status &&& 0x20 != 0, s)

end Com1

def serialInit (s : Com1) : Com1 :=
  let s := s.outb passes com1InterruptEnable 0x00
  let s := s.outb passes com1LineControl 0x80
  let s := s.outb passes com1Data 0x03
  let s := s.outb passes com1InterruptEnable 0x00
  let s := s.outb passes com1LineControl 0x03
  let s := s.outb passes com1FifoControl 0xC7
  s.outb passes com1ModemControl 0x0B

/-- `none` when the transmitter has not become empty in so many rounds. -/
def Com1.serialWriteChar (character : UInt8) : Nat → Com1 → Option Com1
  | 0, _ => none
  | rounds + 1, s =>
    match s.transmitterEmpty passes with
    | (true, s) => some (s.outb passes com1Data character)
    | (false, s) => Com1.serialWriteChar character rounds s

def serialWrite (rounds : Nat) : List UInt8 → Com1 → Option Com1
  | [], s => some s
  | character :: string, s => do
    let s ← if character = '\n'.toUInt8 then Com1.serialWriteChar passes '\r'.toUInt8 rounds s else some s
    let s ← Com1.serialWriteChar passes character rounds s
    serialWrite rounds string s

/-- One call after the other. -/
def sendAll (rounds : Nat) (bytes : List UInt8) (s : Com1) : Option Com1 :=
  bytes.foldlM (fun s character => Com1.serialWriteChar passes character rounds s) s

end

/-! ## What the console sends -/

def ConsoleEvent.serial? : ConsoleEvent → Option UInt8
  | .serial character => some character
  | _ => none

/-- The bytes for one character of the console. -/
def serialBytes (character : UInt8) : List UInt8 :=
  if character = '\n'.toUInt8 then ['\r'.toUInt8, '\n'.toUInt8]
  else if character = '\r'.toUInt8 then []
  else [character]

/-- The bytes for one character of `serial_write`. -/
def crlf (character : UInt8) : List UInt8 :=
  if character = '\n'.toUInt8 then ['\r'.toUInt8, '\n'.toUInt8] else [character]

section
variable {c : Console} {α : Type}

theorem filterMap_bind {β : Type} (x : ConsoleTrace α) (f : α → ConsoleTrace β) :
    (x >>= f).trace.filterMap ConsoleEvent.serial? =
      x.trace.filterMap ConsoleEvent.serial? ++ (f x.val).trace.filterMap ConsoleEvent.serial? :=
  List.filterMap_append

theorem silent_forRange {body : Nat → α → ConsoleTrace α}
    (h : ∀ i a, (body i a).trace.filterMap ConsoleEvent.serial? = []) :
    ∀ (n : Nat) (a : α), (Traced.forRange body n a).trace.filterMap ConsoleEvent.serial? = []
  | 0, _ => rfl
  | n + 1, a => by
    rw [Traced.forRange, filterMap_bind, silent_forRange h n a, h]
    rfl

theorem silent_scrollIfNeeded (c : Console) : (scrollIfNeeded c).trace.filterMap ConsoleEvent.serial? = [] := by
  unfold scrollIfNeeded
  split
  · rfl
  · rw [filterMap_bind, filterMap_bind, silent_forRange fun i a => silent_forRange (fun _ _ => rfl) _ a,
      silent_forRange fun _ _ => rfl]
    rfl

theorem silent_consoleInit (c : Console) : (consoleInit c).trace.filterMap ConsoleEvent.serial? = [] :=
  silent_forRange (fun _ _ => silent_forRange (fun _ _ => rfl) _ _) _ _

theorem serial_placeChar (c : Console) (character : UInt8) :
    (placeChar c character).trace.filterMap ConsoleEvent.serial? = serialBytes character := by
  unfold placeChar serialBytes
  by_cases hn : character = '\n'.toUInt8
  · rw [if_pos hn, if_pos hn]
    rfl
  · rw [if_neg hn, if_neg hn]
    by_cases hr : character = '\r'.toUInt8
    · rw [if_pos hr, if_pos hr]
      rfl
    · rw [if_neg hr, if_neg hr]
      by_cases hb : character = '\x08'.toUInt8
      · rw [if_pos hb, hb]
        split <;> rfl
      · rw [if_neg hb, filterMap_bind, filterMap_bind]
        dsimp only
        split <;> rfl

theorem serial_consolePutChar (c : Console) (character : UInt8) :
    (consolePutChar c character).trace.filterMap ConsoleEvent.serial? = serialBytes character := by
  rw [consolePutChar, filterMap_bind, serial_placeChar, silent_scrollIfNeeded, List.append_nil]

theorem serial_foldlM : ∀ (characters : List UInt8) (c : Console),
    (characters.foldlM consolePutChar c).trace.filterMap ConsoleEvent.serial? = characters.flatMap serialBytes
  | [], _ => rfl
  | character :: characters, c => by
    rw [List.foldlM_cons, filterMap_bind, serial_consolePutChar, serial_foldlM characters, List.flatMap_cons]

end

theorem serialWrite_eq (passes : Nat → Nat) (rounds : Nat) : ∀ (string : List UInt8) (s : Com1),
    serialWrite passes rounds string s = sendAll passes rounds (string.flatMap crlf) s
  | [], _ => rfl
  | character :: string, s => by
    have ih := serialWrite_eq passes rounds string
    unfold sendAll at ih ⊢
    rw [List.flatMap_cons, serialWrite, crlf]
    by_cases hn : character = '\n'.toUInt8
    · rw [if_pos hn, if_pos hn, hn]
      simp only [ih, List.cons_append, List.nil_append, List.foldlM_cons]
    · rw [if_neg hn, if_neg hn]
      simp only [ih, List.cons_append, List.nil_append, List.foldlM_cons, Option.bind_eq_bind, Option.bind_some]

/-! ## Sending -/

section
variable {passes : Nat → Nat} {divisor : Nat} {s : Com1} {bytes : List UInt8}

theorem transmitterEmpty_eq (s : Com1) :
    s.transmitterEmpty passes = (decide ((s.wait passes).serial.chip.fifo = []), s.wait passes) := by
  have hempty : (((s.wait passes).serial.chip.lineStatus &&& 0x20) != 0) =
      decide ((s.wait passes).serial.chip.fifo = []) := by
    rw [Bool.eq_iff_iff, bne_iff_ne, decide_eq_true_iff]
    exact Uart.lineStatus_empty
  exact congrArg (·, s.wait passes) hempty

theorem Com1.serialWriteChar_empty (character : UInt8) (rounds : Nat) (h : (s.wait passes).serial.chip.fifo = []) :
    Com1.serialWriteChar passes character (rounds + 1) s =
      some ((s.wait passes).outb passes com1Data character) := by
  rw [Com1.serialWriteChar, transmitterEmpty_eq, decide_eq_true h]

theorem Com1.serialWriteChar_full (character : UInt8) (rounds : Nat) (h : (s.wait passes).serial.chip.fifo ≠ []) :
    Com1.serialWriteChar passes character (rounds + 1) s = Com1.serialWriteChar passes character rounds
      (s.wait passes) := by
  rw [Com1.serialWriteChar, transmitterEmpty_eq, decide_eq_false h]

theorem carries_outb (h : s.serial.Carries divisor bytes) (hfifo : s.serial.chip.fifo = []) (character : UInt8) :
    (s.outb passes com1Data character).serial.Carries divisor (bytes ++ [character]) :=
  (h.elapse _).1.write (SerialLine.Carries.fifo_elapse _ hfifo) character

/-- With the bit times that pass the loop comes closer to its end. The next of them passes at the access
after `d` others. -/
theorem Com1.serialWriteChar_spec (hpasses : ∀ n, ∃ m ≥ n, 0 < passes m) (character : UInt8)
    (left d : Nat) {s : Com1} (hleft : s.serial.chip.pending ≤ left) (hd : 0 < passes (s.accesses + d))
    (h : s.serial.Carries divisor bytes) :
    ∃ rounds s', (∀ r ≥ rounds, Com1.serialWriteChar passes character r s = some s') ∧
      s'.serial.Carries divisor (bytes ++ [character]) := by
  obtain ⟨hwait, hpending⟩ := h.elapse (passes s.accesses)
  by_cases hfifo : (s.wait passes).serial.chip.fifo = []
  · refine ⟨1, (s.wait passes).outb passes com1Data character, fun r hr => ?_, carries_outb hwait hfifo character⟩
    obtain ⟨r, rfl⟩ := Nat.exists_eq_add_of_le' hr
    exact Com1.serialWriteChar_empty character r hfifo
  · have hpos : (s.wait passes).serial.chip.pending ≠ 0 := fun hzero => hfifo (Uart.pending_eq_zero.mp hzero).2
    have hnext : ∃ rounds s', (∀ r ≥ rounds, Com1.serialWriteChar passes character r (s.wait passes) = some s') ∧
        s'.serial.Carries divisor (bytes ++ [character]) := by
      cases d with
      | zero =>
        obtain ⟨m, hm, hmpos⟩ := hpasses (s.accesses + 1)
        have hd' : 0 < passes ((s.wait passes).accesses + (m - (s.accesses + 1))) := by
          change 0 < passes (s.accesses + 1 + (m - (s.accesses + 1)))
          rwa [Nat.add_sub_cancel' hm]
        rw [Nat.add_zero] at hd
        have hless : (s.wait passes).serial.chip.pending < left := by
          change (s.serial.elapse (passes s.accesses)).chip.pending < left
          change (s.serial.elapse (passes s.accesses)).chip.pending ≠ 0 at hpos
          omega
        exact Com1.serialWriteChar_spec hpasses character _ _ (Nat.le_refl _) hd' hwait
      | succ d =>
        have hd' : 0 < passes ((s.wait passes).accesses + d) := by
          change 0 < passes (s.accesses + 1 + d)
          rwa [Nat.add_assoc, Nat.add_comm 1]
        have hle : (s.wait passes).serial.chip.pending ≤ left := by
          change (s.serial.elapse (passes s.accesses)).chip.pending ≤ left
          omega
        exact Com1.serialWriteChar_spec hpasses character left d hle hd' hwait
    obtain ⟨rounds, s', hrun, hcarries⟩ := hnext
    refine ⟨rounds + 1, s', fun r hr => ?_, hcarries⟩
    obtain ⟨r, rfl⟩ := Nat.exists_eq_add_of_le' hr
    rw [← Nat.add_assoc, Com1.serialWriteChar_full character _ hfifo]
    exact hrun _ (by omega)
termination_by (left, d)

theorem sendAll_spec (hpasses : ∀ n, ∃ m ≥ n, 0 < passes m) : ∀ (more : List UInt8) {s : Com1} {bytes : List UInt8},
    s.serial.Carries divisor bytes →
    ∃ rounds s', (∀ r ≥ rounds, sendAll passes r more s = some s') ∧ s'.serial.Carries divisor (bytes ++ more)
  | [], s, bytes, h => ⟨0, s, fun _ _ => rfl, by rwa [List.append_nil]⟩
  | character :: more, s, bytes, h => by
    obtain ⟨m, hm, hpos⟩ := hpasses s.accesses
    obtain ⟨rounds₁, s₁, hrun₁, hcarries₁⟩ :=
      Com1.serialWriteChar_spec hpasses character _ (m - s.accesses) (Nat.le_refl _)
      (by rwa [Nat.add_sub_cancel' hm]) h
    obtain ⟨rounds₂, s₂, hrun₂, hcarries₂⟩ := sendAll_spec hpasses more hcarries₁
    refine ⟨max rounds₁ rounds₂, s₂, fun r hr => ?_, by rwa [List.append_assoc] at hcarries₂⟩
    rw [sendAll, List.foldlM_cons, hrun₁ r (by omega)]
    exact hrun₂ r (by omega)

/-- A write that sends nothing, to a line at rest. -/
theorem rests_outb (passes : Nat → Nat) (h : s.serial.Rests divisor) (port : Nat) (value : UInt8)
    (hlatch : port = 0 → s.serial.chip.latch = true) (hbreak : port = 3 → value.toNat.testBit 6 = false) :
    (s.outb passes port value).serial.Rests divisor ∧
      (s.outb passes port value).serial.chip = s.serial.chip.write value port := by
  obtain ⟨hrests, hchip⟩ := h.elapse (passes s.accesses)
  have hchip' : (s.outb passes port value).serial.chip = s.serial.chip.write value port :=
    congrArg (Uart.write · value port) hchip
  exact ⟨⟨hchip' ▸ h.idle.write hlatch hbreak, hrests.silent⟩, hchip'⟩

theorem serialInit_spec (passes : Nat → Nat) (h : s.serial.Rests 3) :
    (serialInit passes s).serial.Carries 3 [] := by
  have hno : ∀ {port : Nat} {chip : Uart}, port ≠ 0 → port = 0 → chip.latch = true := fun h h' => absurd h' h
  unfold serialInit
  dsimp only
  obtain ⟨h₁, -⟩ := rests_outb passes h com1InterruptEnable 0x00 (hno (by decide)) (by decide)
  generalize s.outb passes com1InterruptEnable 0x00 = s₁ at *
  obtain ⟨h₂, c₂⟩ := rests_outb passes h₁ com1LineControl 0x80 (hno (by decide)) (by decide)
  generalize s₁.outb passes com1LineControl 0x80 = s₂ at *
  have l₂ : s₂.serial.chip.latch = true := by
    rw [c₂]
    change (0x80 : UInt8).toNat.testBit 7 = true
    decide
  obtain ⟨h₃, c₃⟩ := rests_outb passes h₂ com1Data 0x03 (fun _ => l₂) (by decide)
  generalize s₂.outb passes com1Data 0x03 = s₃ at *
  have l₃ : s₃.serial.chip.latch = true := by
    rw [c₃, com1Data, Uart.write_zero l₂]
    exact l₂
  have d₃ : s₃.serial.chip.divisorLow = 3 := by
    rw [c₃, com1Data, Uart.write_zero l₂]
  obtain ⟨h₄, c₄⟩ := rests_outb passes h₃ com1InterruptEnable 0x00 (hno (by decide)) (by decide)
  generalize s₃.outb passes com1InterruptEnable 0x00 = s₄ at *
  have d₄ : s₄.serial.chip.divisor = 3 := by
    rw [c₄, com1InterruptEnable, Uart.write_one l₃, Uart.divisor]
    dsimp only
    rw [d₃]
    rfl
  obtain ⟨h₅, c₅⟩ := rests_outb passes h₄ com1LineControl 0x03 (hno (by decide)) (by decide)
  generalize s₄.outb passes com1LineControl 0x03 = s₅ at *
  obtain ⟨h₆, c₆⟩ := rests_outb passes h₅ com1FifoControl 0xC7 (hno (by decide)) (by decide)
  generalize s₅.outb passes com1FifoControl 0xC7 = s₆ at *
  obtain ⟨h₇, c₇⟩ := rests_outb passes h₆ com1ModemControl 0x0B (hno (by decide)) (by decide)
  refine h₇.carries ⟨?_, ?_, ?_⟩
  · rw [c₇, c₆, c₅]
    rfl
  · rw [c₇, c₆, c₅]
    exact d₄
  · rw [c₇]
    change (0x0B : UInt8).toNat.testBit 4 = false
    decide

/-- The receiver never has anything but a part of `bytes`, and in the end all of it. -/
structure Arrives (divisor : Nat) (s : SerialLine) (bytes : List UInt8) : Prop where
  part : ∀ n, (Receiver.hearing divisor (s.elapse n).line).received <+: bytes
  all : ∃ n₀, ∀ n ≥ n₀, Receiver.hearing divisor (s.elapse n).line = ⟨.idle, bytes⟩

theorem Arrives.of_carries {s : SerialLine} (h : s.Carries divisor bytes) : Arrives divisor s bytes := by
  refine ⟨fun n => (h.elapse n).1.received, s.chip.pending, fun n hn => ?_⟩
  obtain ⟨hcarries, hpending⟩ := h.elapse n
  exact hcarries.done (by omega)

theorem arrives_sendAll (hpasses : ∀ n, ∃ m ≥ n, 0 < passes m) {u : Uart} (hidle : u.Idle) (bytes : List UInt8) :
    ∃ rounds s, (∀ r ≥ rounds, sendAll passes r bytes (serialInit passes ⟨⟨u, []⟩, 0⟩) = some s) ∧
      Arrives 3 s.serial bytes := by
  have hrests : SerialLine.Rests 3 (⟨⟨u, []⟩, 0⟩ : Com1).serial := ⟨hidle, rfl⟩
  obtain ⟨rounds, s, hrun, hcarries⟩ := sendAll_spec hpasses bytes (serialInit_spec passes hrests)
  exact ⟨rounds, s, hrun, .of_carries hcarries⟩

end

/-- What the console prints arrives at the other end of the line, and so does what `serial_write` sends: the
polling loops end, and no byte is lost, whatever state the chip was in and however its time passes. -/
theorem printed_text_arrives (passes : Nat → Nat) (hpasses : ∀ n, ∃ m ≥ n, 0 < passes m) (u : Uart)
    (hidle : u.Idle) :
    (∀ (c : Console) (characters : List UInt8),
      ∃ rounds s, (∀ r ≥ rounds, sendAll passes r
          ((consoleInit c >>= fun c => characters.foldlM consolePutChar c).trace.filterMap ConsoleEvent.serial?)
          (serialInit passes ⟨⟨u, []⟩, 0⟩) = some s) ∧
        Arrives 3 s.serial (characters.flatMap serialBytes)) ∧
    ∀ string : List UInt8,
      ∃ rounds s, (∀ r ≥ rounds, serialWrite passes r string (serialInit passes ⟨⟨u, []⟩, 0⟩) = some s) ∧
        Arrives 3 s.serial (string.flatMap crlf) := by
  refine ⟨fun c characters => ?_, fun string => ?_⟩
  · rw [filterMap_bind, silent_consoleInit, serial_foldlM, List.nil_append]
    exact arrives_sendAll hpasses hidle _
  · simp only [serialWrite_eq]
    exact arrives_sendAll hpasses hidle _

/-- A chip in loopback at another speed, and a bit time for each access. -/
theorem printed_text_arrives_demo :
    ∃ rounds s, (∀ r ≥ rounds, serialWrite (fun _ => 1) r [72, 105,
      10] (serialInit (fun _ => 1) ⟨⟨⟨1, 0, 0, 0, 0x9B, 0x10, [], []⟩, []⟩, 0⟩) = some s) ∧
      Arrives 3 s.serial [72, 105, 13, 10] :=
  (printed_text_arrives (fun _ => 1) (fun n => ⟨n, Nat.le_refl n, Nat.one_pos⟩) ⟨1, 0, 0, 0, 0x9B, 0x10, [],
    []⟩ ⟨rfl, rfl, rfl⟩).2 [72, 105, 10]

end KernelOs
