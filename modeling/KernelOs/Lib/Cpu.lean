import Mathlib.Logic.Function.Basic
import KernelOs.Lib.Stack

/-!
# A 64-bit x86 processor

Its registers and the stack that it works on, in long mode, and what pushing and
popping several registers amounts to.
-/

namespace Lib

inductive Reg where
  | rax | rbx | rcx | rdx | rsi | rdi | rbp | r8 | r9 | r10 | r11 | r12 | r13 | r14 | r15
  deriving DecidableEq

structure Cpu where
  gpr : Reg → UInt64
  rsp : UInt64
  rip : UInt64
  rflags : UInt64
  cs : UInt64
  ss : UInt64
  mem : Memory

namespace Cpu

def push (c : Cpu) (v : UInt64) : Cpu :=
  { c with rsp := c.rsp - 8, mem := c.mem.store64 (c.rsp - 8).toNat v }

def pop (c : Cpu) (r : Reg) : Cpu :=
  { c with gpr := Function.update c.gpr r (c.mem.load64 c.rsp.toNat), rsp := c.rsp + 8 }

def pushAll (c : Cpu) (vs : List UInt64) : Cpu := vs.foldl push c

def pushRegs (c : Cpu) (rs : List Reg) : Cpu := rs.foldl (fun c r => c.push (c.gpr r)) c

def popRegs (c : Cpu) (rs : List Reg) : Cpu := rs.foldl pop c

def call (c : Cpu) (target returnAddr : UInt64) : Cpu := { c.push returnAddr with rip := target }

def ret (c : Cpu) : Cpu := { c with rip := c.mem.load64 c.rsp.toNat, rsp := c.rsp + 8 }

/-- Set parity, zero and sign flag by `v`, clear carry, overflow and adjust flag. -/
def test (c : Cpu) (v : UInt64) : Cpu :=
  let even := (List.range 8).foldl (fun even i => xor even (v.toNat.testBit i)) true
  { c with rflags := c.rflags &&& 0xFFFFFFFFFFFFF72A |||
      ((if even then 0x4 else 0) ||| (if v = 0 then 0x40 else 0) ||| (if v.toNat.testBit 63 then 0x80 else 0)) }

def sti (c : Cpu) : Cpu := { c with rflags := c.rflags ||| 0x200 }

/-- Bit 9 of `rflags` lets interrupts through. -/
def interruptFlag (c : Cpu) : Bool := c.rflags.toNat.testBit 9

/-- Bit 14 of `rflags`, with which `iretq` faults. -/
def nestedTask (c : Cpu) : Bool := c.rflags.toNat.testBit 14

def ring (c : Cpu) : UInt64 := c.cs &&& 3

/-- The state that an interrupt saves. The resume flag is set in it where an instruction is to be taken up
again: for every fault, and inside of a repeated string instruction. -/
def imaged (c : Cpu) : Bool → Cpu
  | false => c
  | true => { c with rflags := c.rflags ||| 0x10000 }

/-- Through an interrupt gate to a handler in ring 0, with the stack `rsp0` from an outer ring. -/
def interruptGate (c : Cpu) (rf : Bool) (rsp0 selector handler : UInt64) : Cpu :=
  let c := c.imaged rf
  let sp := if c.ring = 0 then c.rsp else rsp0
  { { c with rsp := sp / 16 * 16 }.pushAll [c.ss, c.rsp, c.rflags, c.cs, c.rip] with
    rip := handler
    cs := selector
    ss := if c.ring = 0 then c.ss else 0
    -- IF, TF, NT, RF and VM
    rflags := c.rflags &&& 0xFFFFFFFFFFFCBCFF }

def iretq (c : Cpu) : Cpu :=
  { c with
    rip := c.mem.load64 c.rsp.toNat
    cs := c.mem.load64 (c.rsp + 8).toNat
    rflags := c.mem.load64 (c.rsp + 16).toNat
    rsp := c.mem.load64 (c.rsp + 24).toNat
    ss := c.mem.load64 (c.rsp + 32).toNat }

variable {c : Cpu} {v : UInt64} {vs ws : List UInt64} {rs : List Reg} {r : Reg} {n : Nat}

@[simp] theorem interruptFlag_test : (c.test v).interruptFlag = c.interruptFlag := by
  have hmask : (0xFFFFFFFFFFFFF72A : UInt64).toNat.testBit 9 = true := by decide
  have hflag : ∀ (p : Prop) [Decidable p] (x : UInt64), x.toNat.testBit 9 = false →
      (if p then x else 0).toNat.testBit 9 = false := by
    intro p _ x hx
    split
    · exact hx
    · decide
  simp only [test, interruptFlag, UInt64.toNat_or, UInt64.toNat_and, Nat.testBit_or, Nat.testBit_and, hmask,
    hflag _ 0x4 (by decide), hflag _ 0x40 (by decide), hflag _ 0x80 (by decide), Bool.and_true, Bool.or_false]

@[simp] theorem gpr_imaged (c : Cpu) (rf : Bool) : (c.imaged rf).gpr = c.gpr := by cases rf <;> rfl

@[simp] theorem rsp_imaged (c : Cpu) (rf : Bool) : (c.imaged rf).rsp = c.rsp := by cases rf <;> rfl

@[simp] theorem rip_imaged (c : Cpu) (rf : Bool) : (c.imaged rf).rip = c.rip := by cases rf <;> rfl

@[simp] theorem cs_imaged (c : Cpu) (rf : Bool) : (c.imaged rf).cs = c.cs := by cases rf <;> rfl

@[simp] theorem ss_imaged (c : Cpu) (rf : Bool) : (c.imaged rf).ss = c.ss := by cases rf <;> rfl

@[simp] theorem mem_imaged (c : Cpu) (rf : Bool) : (c.imaged rf).mem = c.mem := by cases rf <;> rfl

@[simp] theorem interruptFlag_interruptGate (c : Cpu) (rf : Bool) (rsp0 selector handler : UInt64) :
    (c.interruptGate rf rsp0 selector handler).interruptFlag = false := by
  simp only [interruptGate, interruptFlag, UInt64.toNat_and, Nat.testBit_and]
  simp +decide

@[simp] theorem rsp_sti : c.sti.rsp = c.rsp := rfl

@[simp] theorem interruptFlag_sti : c.sti.interruptFlag = true := by
  simp only [sti, interruptFlag, UInt64.toNat_or, Nat.testBit_or]
  simp +decide

theorem toNat_sub_eight {a : UInt64} (h : 8 ≤ a.toNat) : (a - 8).toNat = a.toNat - 8 :=
  UInt64.toNat_sub_of_le a 8 (UInt64.le_iff_toNat_le.mpr h)

theorem toNat_add_eight {a : UInt64} (h : a.toNat + 8 < 2 ^ 64) : (a + 8).toNat = a.toNat + 8 := by
  rw [UInt64.toNat_add]
  exact Nat.mod_eq_of_lt h

/-! ## Pushing -/

@[simp] theorem pushAll_nil : c.pushAll [] = c := rfl

@[simp] theorem pushAll_cons : c.pushAll (v :: vs) = (c.push v).pushAll vs := rfl

theorem pushAll_append : c.pushAll (vs ++ ws) = (c.pushAll vs).pushAll ws := List.foldl_append ..

structure SameButStack (c c' : Cpu) : Prop where
  gpr : c'.gpr = c.gpr
  rip : c'.rip = c.rip
  rflags : c'.rflags = c.rflags
  cs : c'.cs = c.cs
  ss : c'.ss = c.ss

theorem sameButStack_pushAll (c : Cpu) (vs : List UInt64) : SameButStack c (c.pushAll vs) := by
  induction vs generalizing c with
  | nil => exact ⟨rfl, rfl, rfl, rfl, rfl⟩
  | cons v vs ih =>
    obtain ⟨h1, h2, h3, h4, h5⟩ := ih (c.push v)
    exact ⟨h1, h2, h3, h4, h5⟩

theorem pushAll_spec (c : Cpu) (vs : List UInt64) (h : 8 * vs.length ≤ c.rsp.toNat) :
    (c.pushAll vs).rsp.toNat = c.rsp.toNat - 8 * vs.length ∧
      Memory.ChangedIn c.mem (c.pushAll vs).mem (c.rsp.toNat - 8 * vs.length) c.rsp.toNat ∧
      ∀ ws, c.mem.Holds c.rsp.toNat ws → (c.pushAll vs).mem.Holds (c.pushAll vs).rsp.toNat (vs.reverse ++ ws) := by
  induction vs generalizing c with
  | nil => exact ⟨rfl, Memory.ChangedIn.refl _ _ _, fun ws hws => hws⟩
  | cons v vs ih =>
    rw [List.length_cons] at h ⊢
    have hrsp : (c.push v).rsp.toNat = c.rsp.toNat - 8 := toNat_sub_eight (by omega)
    obtain ⟨h1, h2, h3⟩ := ih (c.push v) (by omega)
    rw [hrsp] at h1 h2 h3
    refine ⟨?_, ?_, fun ws hws => ?_⟩
    · change ((c.push v).pushAll vs).rsp.toNat = _
      omega
    · have hstore : Memory.ChangedIn c.mem (c.push v).mem (c.rsp.toNat - 8 * (vs.length + 1)) c.rsp.toNat :=
        Memory.ChangedIn.store64 (a := (c.push v).rsp.toNat) c.mem v (by omega) (by omega)
      exact hstore.trans (h2.mono (by omega) (by omega))
    · rw [List.reverse_cons, List.append_assoc]
      refine h3 (v :: ws) ?_
      rw [← hrsp]
      have := hws.store64 (v := v) (by omega)
      rwa [← hrsp] at this

theorem pushRegs_eq (c : Cpu) (rs : List Reg) : c.pushRegs rs = c.pushAll (rs.map c.gpr) := by
  have key : ∀ c' : Cpu, c'.gpr = c.gpr → c'.pushRegs rs = c'.pushAll (rs.map c.gpr) := by
    induction rs with
    | nil => intro c' _; rfl
    | cons r rs ih =>
      intro c' hc
      change (c'.push (c'.gpr r)).pushRegs rs = (c'.push (c.gpr r)).pushAll (rs.map c.gpr)
      rw [hc]
      exact ih _ hc
  exact key c rfl

/-! ## Popping -/

/-- The registers that a return from an interrupt restores itself are the same, and so is memory. -/
structure SameButPopped (c c' : Cpu) : Prop where
  rip : c'.rip = c.rip
  rflags : c'.rflags = c.rflags
  cs : c'.cs = c.cs
  ss : c'.ss = c.ss
  mem : c'.mem = c.mem

theorem sameButPopped_popRegs (c : Cpu) (rs : List Reg) : SameButPopped c (c.popRegs rs) := by
  induction rs generalizing c with
  | nil => exact ⟨rfl, rfl, rfl, rfl, rfl⟩
  | cons r rs ih =>
    obtain ⟨h1, h2, h3, h4, h5⟩ := ih (c.pop r)
    exact ⟨h1, h2, h3, h4, h5⟩

theorem popRegs_gpr_of_notMem (c : Cpu) (h : r ∉ rs) : (c.popRegs rs).gpr r = c.gpr r := by
  induction rs generalizing c with
  | nil => rfl
  | cons u rs ih =>
    rw [List.mem_cons, not_or] at h
    exact (ih (c.pop u) h.2).trans (Function.update_of_ne h.1 ..)

theorem popRegs_spec {g : Reg → UInt64} (c : Cpu) (h : c.mem.Holds c.rsp.toNat (rs.map g))
    (hrsp : c.rsp.toNat + 8 * rs.length < 2 ^ 64) :
    (c.popRegs rs).rsp.toNat = c.rsp.toNat + 8 * rs.length ∧ ∀ r ∈ rs, (c.popRegs rs).gpr r = g r := by
  induction rs generalizing c with
  | nil => exact ⟨rfl, fun r hr => by cases hr⟩
  | cons u rs ih =>
    rw [List.length_cons] at hrsp ⊢
    have hsp : (c.pop u).rsp.toNat = c.rsp.toNat + 8 := toNat_add_eight (by omega)
    obtain ⟨h1, h2⟩ := ih (c.pop u) (by rw [hsp]; exact h.2) (by omega)
    refine ⟨?_, fun r hr => ?_⟩
    · change ((c.pop u).popRegs rs).rsp.toNat = _
      omega
    · by_cases hrs : r ∈ rs
      · exact h2 r hrs
      · obtain rfl : r = u := (List.mem_cons.mp hr).resolve_right hrs
        refine (popRegs_gpr_of_notMem (c.pop r) hrs).trans ?_
        exact (Function.update_self ..).trans h.1

/-! ## Interrupts -/

/-- The stack that an interrupt is taken on, before alignment. -/
def interruptStack (c : Cpu) (rsp0 : UInt64) : Nat := if c.ring = 0 then c.rsp.toNat else rsp0.toNat

/-- What an interrupt leaves for `iretq`. -/
def interruptFrame (c : Cpu) : List UInt64 := [c.rip, c.cs, c.rflags, c.rsp, c.ss]

theorem toNat_align (a : UInt64) : (a / 16 * 16).toNat = a.toNat / 16 * 16 := by
  have ha := a.toNat_lt
  rw [UInt64.toNat_mul, UInt64.toNat_div]
  exact Nat.mod_eq_of_lt (by simp only [UInt64.reduceToNat]; omega)

@[simp] theorem interruptStack_imaged (c : Cpu) (rf : Bool) (rsp0 : UInt64) :
    (c.imaged rf).interruptStack rsp0 = c.interruptStack rsp0 := by cases rf <;> rfl

theorem interruptGate_spec (c : Cpu) (rf : Bool) (rsp0 selector handler : UInt64) (h : 55 ≤ c.interruptStack rsp0) :
    (c.interruptGate rf rsp0 selector handler).gpr = c.gpr ∧
      (c.interruptGate rf rsp0 selector handler).rsp.toNat = c.interruptStack rsp0 / 16 * 16 - 40 ∧
      Memory.ChangedIn c.mem (c.interruptGate rf rsp0 selector handler).mem
        (c.interruptStack rsp0 / 16 * 16 - 40) (c.interruptStack rsp0) ∧
      (c.interruptGate rf rsp0 selector handler).mem.Holds (c.interruptGate rf rsp0 selector handler).rsp.toNat
        (c.imaged rf).interruptFrame := by
  unfold interruptGate
  rw [← interruptStack_imaged c rf, ← gpr_imaged c rf, ← mem_imaged c rf]
  rw [← interruptStack_imaged c rf] at h
  generalize c.imaged rf = c at *
  have hsp : ((if c.ring = 0 then c.rsp else rsp0) / 16 * 16).toNat = c.interruptStack rsp0 / 16 * 16 := by
    rw [toNat_align, interruptStack, apply_ite UInt64.toNat]
  have hpush := pushAll_spec { c with rsp := (if c.ring = 0 then c.rsp else rsp0) / 16 * 16 } [c.ss, c.rsp,
    c.rflags, c.cs, c.rip]
    (by simp only [hsp, List.length_cons, List.length_nil]; omega)
  simp only [hsp, List.length_cons, List.length_nil] at hpush
  obtain ⟨h1, h2, h3⟩ := hpush
  refine ⟨(sameButStack_pushAll _ _).gpr, h1, h2.mono (Nat.le_refl _) (by omega), h3 [] trivial⟩

theorem iretq_eq {frame : Cpu} (h : c.mem.Holds c.rsp.toNat frame.interruptFrame)
    (hrsp : c.rsp.toNat + 40 ≤ 2 ^ 64) :
    c.iretq = { frame with gpr := c.gpr, mem := c.mem } := by
  have hadd : ∀ n : UInt64, n.toNat < 40 → (c.rsp + n).toNat = c.rsp.toNat + n.toNat := by
    intro n hn
    rw [UInt64.toNat_add]
    exact Nat.mod_eq_of_lt (by omega)
  obtain ⟨h1, h2, h3, h4, h5, -⟩ := h
  simp only [iretq, hadd 8 (by decide), hadd 16 (by decide), hadd 24 (by decide), hadd 32 (by decide),
    UInt64.reduceToNat, h1, h2, h3, h4, h5]

end Cpu

end Lib
