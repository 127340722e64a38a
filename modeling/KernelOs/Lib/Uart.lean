import Mathlib.Data.List.Basic

/-!
# The 16550 UART

A transmitter that puts bytes on a line bit by bit, and a receiver at the other end. Time is
counted in bits.
-/

namespace Lib

/-- One bit time on a line, which is as long as the divisor says. -/
structure LineBit where
  divisor : Nat
  level : Bool

/-- The registers that can be written, and the transmitter. -/
structure Uart where
  divisorLow : UInt8
  divisorHigh : UInt8
  interruptEnable : UInt8
  fifoControl : UInt8
  lineControl : UInt8
  modemControl : UInt8
  fifo : List UInt8
  /-- What is left to send of a byte. -/
  shift : List Bool

namespace Uart

def latch (u : Uart) : Bool := u.lineControl.toNat.testBit 7

def divisor (u : Uart) : Nat := u.divisorLow.toNat + 256 * u.divisorHigh.toNat

def loopback (u : Uart) : Bool := u.modemControl.toNat.testBit 4

def breaks (u : Uart) : Bool := u.lineControl.toNat.testBit 6

def capacity (u : Uart) : Nat := if u.fifoControl &&& 1 = 0 then 1 else 16

/-- A byte too many is lost. -/
def write (u : Uart) (v : UInt8) : Nat → Uart
  | 0 =>
    if u.latch then { u with divisorLow := v }
    else if u.fifo.length < u.capacity then { u with fifo := u.fifo ++ [v] }
    else u
  | 1 => if u.latch then { u with divisorHigh := v } else { u with interruptEnable := v }
  | 2 =>
    let clear := v &&& 1 ≠ u.fifoControl &&& 1 ∨ v &&& 5 = 5
    { u with fifoControl := v, fifo := if clear then [] else u.fifo }
  | 3 => { u with lineControl := v }
  | 4 => { u with modemControl := v }
  | _ => u

/-- Bit 5 says that the next byte can be written, bit 6 that the last one has left. -/
def lineStatus (u : Uart) : UInt8 := if u.fifo = [] then (if u.shift = [] then 0x60 else 0x20) else 0

def dataBits (lineControl byte : UInt8) : List Bool :=
  (List.range (5 + (lineControl &&& 3).toNat)).map byte.toNat.testBit

/-- What follows the start bit. One and a half stop bits are taken for two. -/
def frameBits (lineControl byte : UInt8) : List Bool :=
  let set := lineControl.toNat.testBit
  let data := dataBits lineControl byte
  let odd := data.foldl xor false
  let parity := if set 5 then !set 4 else if set 4 then odd else !odd
  data ++ (if set 3 then [parity] else []) ++ (if set 2 then [true, true] else [true])

/-- In loopback the line rests, a break pulls it down. -/
def drive (u : Uart) (level : Bool) : LineBit := ⟨u.divisor, u.loopback || level && !u.breaks⟩

/-- One bit time. -/
def tick (u : Uart) : LineBit × Uart :=
  match u.shift, u.fifo with
  | level :: shift, _ => (u.drive level, { u with shift })
  | [], byte :: fifo => (u.drive false, { u with fifo, shift := frameBits u.lineControl byte })
  | [], [] => (u.drive true, u)

/-- Nothing is being sent. -/
structure Idle (u : Uart) : Prop where
  shift : u.shift = []
  fifo : u.fifo = []
  breaks : u.breaks = false

variable {u : Uart} {v : UInt8}

theorem write_zero (h : u.latch = true) : u.write v 0 = { u with divisorLow := v } := if_pos h

theorem write_one (h : u.latch = true) : u.write v 1 = { u with divisorHigh := v } := if_pos h

theorem write_one_off (h : u.latch = false) : u.write v 1 = { u with interruptEnable := v } :=
  if_neg (Bool.not_eq_true _ ▸ h)

theorem Idle.write (h : u.Idle) :
    ∀ {port : Nat}, (port = 0 → u.latch = true) → (port = 3 → v.toNat.testBit 6 = false) → (u.write v port).Idle
  | 0, hlatch, _ => by
    rw [write_zero (hlatch rfl)]
    exact ⟨h.shift, h.fifo, h.breaks⟩
  | 1, _, _ => by
    cases hlatch : u.latch with
    | true =>
      rw [write_one hlatch]
      exact ⟨h.shift, h.fifo, h.breaks⟩
    | false =>
      rw [write_one_off hlatch]
      exact ⟨h.shift, h.fifo, h.breaks⟩
  | 2, _, _ => ⟨h.shift, (congrArg (ite _ []) h.fifo).trans (ite_self []), h.breaks⟩
  | 3, _, hbreak => ⟨h.shift, h.fifo, hbreak rfl⟩
  | 4, _, _ => ⟨h.shift, h.fifo, h.breaks⟩
  | _ + 5, _, _ => h

end Uart

/-- A chip, and all that has been on its line. -/
structure SerialLine where
  chip : Uart
  line : List LineBit

namespace SerialLine

def tick (s : SerialLine) : SerialLine := ⟨s.chip.tick.2, s.line ++ [s.chip.tick.1]⟩

def elapse : Nat → SerialLine → SerialLine
  | 0, s => s
  | n + 1, s => elapse n s.tick

end SerialLine

/-! ## The other end -/

inductive Receiver.Phase where
  | idle
  | data (bits : List Bool)
  /-- The speed is not its own, or there is no stop bit. -/
  | failed
  deriving DecidableEq

structure Receiver where
  phase : Receiver.Phase
  received : List UInt8
  deriving DecidableEq

namespace Receiver

def byteOf (bits : List Bool) : UInt8 := UInt8.ofNat (bits.foldr (fun bit n => bit.toNat + 2 * n) 0)

/-- For eight data bits, no parity and one stop bit. -/
def hear (divisor : Nat) (r : Receiver) (b : LineBit) : Receiver :=
  match r.phase with
  | .failed => r
  | .idle =>
    if b.level then r
    else if b.divisor = divisor then { r with phase := .data [] }
    else { r with phase := .failed }
  | .data bits =>
    if b.divisor ≠ divisor then { r with phase := .failed }
    else if bits.length < 8 then { r with phase := .data (bits ++ [b.level]) }
    else if b.level then ⟨.idle, r.received ++ [byteOf bits]⟩
    else { r with phase := .failed }

/-- From the first bit on. -/
def hearing (divisor : Nat) (line : List LineBit) : Receiver := line.foldl (hear divisor) ⟨.idle, []⟩

section
variable {divisor : Nat} {r : Receiver} {bits : List Bool} {received : List UInt8}

theorem hear_idle (d : Nat) : hear divisor ⟨.idle, received⟩ ⟨d, true⟩ = ⟨.idle, received⟩ := rfl

theorem hear_start : hear divisor ⟨.idle, received⟩ ⟨divisor, false⟩ = ⟨.data [], received⟩ := by
  simp [hear]

theorem hear_data (level : Bool) (h : bits.length < 8) :
    hear divisor ⟨.data bits, received⟩ ⟨divisor, level⟩ = ⟨.data (bits ++ [level]), received⟩ := by
  simp [hear, h]

theorem hear_stop (h : bits.length = 8) :
    hear divisor ⟨.data bits, received⟩ ⟨divisor, true⟩ = ⟨.idle, received ++ [byteOf bits]⟩ := by
  simp [hear, h]

theorem foldl_data : ∀ {more bits : List Bool}, bits.length + more.length ≤ 8 →
    (more.map (LineBit.mk divisor)).foldl (hear divisor) ⟨.data bits, received⟩ = ⟨.data (bits ++ more), received⟩
  | [], bits, _ => by simp
  | level :: more, bits, h => by
    rw [List.length_cons] at h
    rw [List.map_cons, List.foldl_cons, hear_data level (by omega),
      foldl_data (by simp only [List.length_append, List.length_singleton]; omega),
      List.append_assoc]
    rfl

theorem received_hear (r : Receiver) (b : LineBit) : r.received <+: (hear divisor r b).received := by
  unfold hear
  split
  · exact List.prefix_rfl
  · split
    · exact List.prefix_rfl
    · split <;> exact List.prefix_rfl
  · split
    · exact List.prefix_rfl
    · split
      · exact List.prefix_rfl
      · split
        · exact List.prefix_append ..
        · exact List.prefix_rfl

/-- What has been received stays. -/
theorem received_foldl :
    ∀ (line : List LineBit) (r : Receiver), r.received <+: (line.foldl (hear divisor) r).received
  | [], _ => List.prefix_rfl
  | b :: line, r => (received_hear r b).trans (received_foldl line _)

end

end Receiver

/-! ## Both ends -/

namespace Uart

theorem byteOf_dataBits (byte : UInt8) : Receiver.byteOf (dataBits 3 byte) = byte := by
  have hall : ∀ n < 256, (dataBits 3 (UInt8.ofNat n)).foldr (fun bit n => bit.toNat + 2 * n) 0 = n := by
    decide +kernel
  have hbyte := hall byte.toNat byte.toNat_lt
  rw [UInt8.ofNat_toNat] at hbyte
  rw [Receiver.byteOf, hbyte, UInt8.ofNat_toNat]

theorem frameBits_three (byte : UInt8) : frameBits 3 byte = dataBits 3 byte ++ [true] := rfl

theorem length_dataBits (byte : UInt8) : (dataBits 3 byte).length = 8 := rfl

/-- A byte that has been sent is received. -/
theorem hear_frameBits (divisor : Nat) (byte : UInt8) (received : List UInt8) :
    ((frameBits 3 byte).map (LineBit.mk divisor)).foldl (Receiver.hear divisor) ⟨.data [], received⟩ =
      ⟨.idle, received ++ [byte]⟩ := by
  have hdata : (dataBits 3 byte).length = 8 := length_dataBits byte
  rw [frameBits_three, List.map_append, List.foldl_append, Receiver.foldl_data (by rw [hdata]; decide)]
  rw [List.nil_append, List.map_singleton, List.foldl_cons, List.foldl_nil, Receiver.hear_stop hdata,
    byteOf_dataBits]

/-- The chip is set up as the receiver expects. -/
structure Ready (divisor : Nat) (u : Uart) : Prop where
  lineControl : u.lineControl = 3
  divisor : u.divisor = divisor
  loopback : u.loopback = false

variable {u : Uart} {divisor : Nat}

theorem Ready.drive (h : Ready divisor u) (level : Bool) : u.drive level = ⟨divisor, level⟩ := by
  have hbreaks : u.breaks = false := by
    rw [breaks, h.lineControl]
    rfl
  rw [Uart.drive, h.divisor, h.loopback, hbreaks]
  cases level <;> rfl

/-- The bit times until nothing is left to send. -/
def pending (u : Uart) : Nat := u.shift.length + 10 * u.fifo.length

theorem pending_eq_zero : u.pending = 0 ↔ u.shift = [] ∧ u.fifo = [] := by
  rw [pending, ← List.length_eq_zero_iff, ← List.length_eq_zero_iff]
  omega

theorem lineStatus_empty : u.lineStatus &&& 0x20 ≠ 0 ↔ u.fifo = [] := by
  unfold lineStatus
  split
  · split <;> simp +decide [*]
  · simp +decide [*]

end Uart

namespace SerialLine
open Uart Receiver

/-- When all that is under way has arrived, the receiver will have `bytes`. -/
structure Carries (divisor : Nat) (s : SerialLine) (bytes : List UInt8) : Prop where
  ready : Ready divisor s.chip
  arrives : ∃ done, (s.chip.shift.map (LineBit.mk divisor)).foldl (hear divisor) (hearing divisor s.line) =
    ⟨.idle, done⟩ ∧
    bytes = done ++ s.chip.fifo

variable {divisor : Nat} {s : SerialLine} {bytes : List UInt8}

theorem hearing_append (line : List LineBit) (b : LineBit) :
    hearing divisor (line ++ [b]) = hear divisor (hearing divisor line) b :=
  List.foldl_concat ..

namespace Carries

theorem tick (h : s.Carries divisor bytes) :
    s.tick.Carries divisor bytes ∧ s.tick.chip.pending = s.chip.pending - 1 := by
  obtain ⟨hready, done, harrives, hbytes⟩ := h
  obtain ⟨u, line⟩ := s
  dsimp only at hready harrives hbytes
  unfold SerialLine.tick Uart.tick
  dsimp only
  split
  · rename_i level shift hshift
    rw [hshift, List.map_cons, List.foldl_cons] at harrives
    refine ⟨⟨⟨hready.lineControl, hready.divisor, hready.loopback⟩, done, ?_, hbytes⟩, ?_⟩
    · dsimp only
      rw [hready.drive, hearing_append]
      exact harrives
    · rw [pending, pending, hshift, List.length_cons]
      dsimp only
      omega
  · rename_i byte fifo hshift hfifo
    rw [hshift, List.map_nil, List.foldl_nil] at harrives
    refine ⟨⟨⟨hready.lineControl, hready.divisor, hready.loopback⟩, done ++ [byte], ?_, ?_⟩, ?_⟩
    · dsimp only
      rw [hready.drive, hearing_append, harrives, hready.lineControl, hear_start]
      exact hear_frameBits divisor byte done
    · rw [hbytes, hfifo, List.append_assoc]
      rfl
    · have hlen : (frameBits 3 byte).length = 9 := rfl
      rw [pending, pending, hshift, hfifo, List.length_cons]
      dsimp only
      rw [hready.lineControl, hlen, List.length_nil]
      omega
  · rename_i hshift hfifo
    rw [hshift, List.map_nil, List.foldl_nil] at harrives
    refine ⟨⟨hready, done, ?_, hbytes⟩, ?_⟩
    · dsimp only
      rw [hready.drive, hearing_append, hshift, harrives]
      rfl
    · rw [pending, hshift, hfifo]
      rfl

theorem elapse : ∀ (n : Nat) {s : SerialLine}, s.Carries divisor bytes →
    (s.elapse n).Carries divisor bytes ∧ (s.elapse n).chip.pending = s.chip.pending - n
  | 0, _, h => ⟨h, rfl⟩
  | n + 1, s, h => by
    obtain ⟨htick, hpending⟩ := h.tick
    obtain ⟨helapse, hpending'⟩ := htick.elapse n
    exact ⟨helapse, by rw [SerialLine.elapse, hpending', hpending]; omega⟩

theorem fifo_elapse : ∀ (n : Nat) {s : SerialLine}, s.chip.fifo = [] → (s.elapse n).chip.fifo = []
  | 0, _, h => h
  | n + 1, s, h => by
    have htick : s.tick.chip.fifo = [] := by
      unfold SerialLine.tick Uart.tick
      rw [h]
      cases s.chip.shift with
      | nil => exact h
      | cons level shift => rfl
    exact fifo_elapse n htick

/-- A byte that is written when the chip asks for one is not lost. -/
theorem write (h : s.Carries divisor bytes) (hfifo : s.chip.fifo = []) (byte : UInt8) :
    Carries divisor { s with chip := s.chip.write byte 0 } (bytes ++ [byte]) := by
  obtain ⟨hready, done, harrives, hbytes⟩ := h
  have hlatch : s.chip.latch = false := by
    rw [latch, hready.lineControl]
    rfl
  have hcapacity : 0 < s.chip.capacity := by
    unfold capacity
    split <;> decide
  have hwrite : s.chip.write byte 0 = { s.chip with fifo := [byte] } := by
    rw [Uart.write, hlatch, if_neg Bool.false_ne_true, hfifo, List.length_nil, if_pos hcapacity, List.nil_append]
  rw [hfifo, List.append_nil] at hbytes
  rw [hwrite]
  exact ⟨⟨hready.lineControl, hready.divisor, hready.loopback⟩, done, harrives, by rw [hbytes]⟩

theorem received (h : s.Carries divisor bytes) : (hearing divisor s.line).received <+: bytes := by
  obtain ⟨-, done, harrives, hbytes⟩ := h
  have hpart : (hearing divisor s.line).received <+:
      ((s.chip.shift.map (LineBit.mk divisor)).foldl (hear divisor) (hearing divisor s.line)).received :=
    received_foldl _ _
  rw [harrives] at hpart
  rw [hbytes]
  exact hpart.trans (List.prefix_append ..)

theorem done (h : s.Carries divisor bytes) (hpending : s.chip.pending = 0) :
    hearing divisor s.line = ⟨.idle, bytes⟩ := by
  obtain ⟨-, done, harrives, hbytes⟩ := h
  obtain ⟨hshift, hfifo⟩ := pending_eq_zero.mp hpending
  rw [hshift, List.map_nil, List.foldl_nil] at harrives
  rw [hfifo, List.append_nil] at hbytes
  rw [harrives, hbytes]

end Carries

/-! ## A line at rest -/

/-- Nothing is sent, and nothing has been heard. -/
structure Rests (divisor : Nat) (s : SerialLine) : Prop where
  idle : s.chip.Idle
  silent : hearing divisor s.line = ⟨.idle, []⟩

theorem Rests.elapse : ∀ (n : Nat) {s : SerialLine}, s.Rests divisor →
    (s.elapse n).Rests divisor ∧ (s.elapse n).chip = s.chip
  | 0, _, h => ⟨h, rfl⟩
  | n + 1, s, h => by
    have htick : s.chip.tick = (s.chip.drive true, s.chip) := by
      rw [Uart.tick, h.idle.shift, h.idle.fifo]
    have hchip : s.tick.chip = s.chip := congrArg Prod.snd htick
    have hrests : s.tick.Rests divisor := by
      refine ⟨hchip.symm ▸ h.idle, ?_⟩
      rw [SerialLine.tick, htick, hearing_append, h.silent, drive, h.idle.breaks]
      cases s.chip.loopback <;> rfl
    obtain ⟨h1, h2⟩ := hrests.elapse n
    exact ⟨h1, h2.trans hchip⟩

theorem Rests.carries (h : s.Rests divisor) (hready : Ready divisor s.chip) : s.Carries divisor [] := by
  refine ⟨hready, [], ?_, ?_⟩
  · rw [h.idle.shift, h.silent]
    rfl
  · rw [h.idle.fifo]
    rfl

end SerialLine

end Lib
