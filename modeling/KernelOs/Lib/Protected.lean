import KernelOs.Lib.Segments

/-!
# An x86 processor on its way to long mode

Instructions of flat 32-bit code in ring 0, up to the far jump that leads to 64-bit code, and what
a machine that takes step after step comes to.
-/

namespace Lib

/-! ## What a machine comes to -/

inductive Outcome (σ ε : Type*) where
  | next (s : σ)
  | stop (e : ε)

section
variable {σ ε : Type*} {step : σ → Outcome σ ε} {P : ε → Prop} {s s' : σ}

/-- How it stops, if that takes at most `n` steps. -/
def stopsIn (step : σ → Outcome σ ε) : Nat → σ → Option ε
  | 0, _ => none
  | n + 1, s =>
    match step s with
    | .next s' => stopsIn step n s'
    | .stop e => some e

inductive Eventually (step : σ → Outcome σ ε) (P : ε → Prop) : σ → Prop
  | stop {s : σ} {e : ε} : step s = .stop e → P e → Eventually step P s
  | next {s s' : σ} : step s = .next s' → Eventually step P s' → Eventually step P s

theorem Eventually.stopsIn : ∀ {s : σ}, Eventually step P s → ∃ n e, P e ∧ ∀ m ≥ n, stopsIn step m s = some e
  | _, .stop (e := e) hstep he => ⟨1, e, he, fun
    | 0, hm => absurd hm (by decide)
    | m + 1, _ => by rw [Lib.stopsIn, hstep]⟩
  | _, .next hstep hrest => by
    obtain ⟨n, e, he, h⟩ := hrest.stopsIn
    refine ⟨n + 1, e, he, fun
      | 0, hm => absurd hm (by omega)
      | m + 1, hm => ?_⟩
    rw [Lib.stopsIn, hstep]
    exact h m (by omega)

end

/-! ## Words of 32 bits -/

namespace Memory

def load32 (m : Memory) (a : Nat) : UInt32 := UInt32.ofNat (m.loadLe a 4)

def store32 (m : Memory) (a : Nat) (v : UInt32) : Memory := m.storeLe a 4 v.toNat

variable {m m' : Memory} {a b : Nat} {v : UInt32}

theorem load32_congr (h : ∀ i < 4, m (a + i) = m' (a + i)) : m.load32 a = m'.load32 a := by
  rw [load32, load32, loadLe_congr h]

@[simp] theorem load32_store32 (m : Memory) (a : Nat) (v : UInt32) : (m.store32 a v).load32 a = v := by
  rw [load32, store32, loadLe_storeLe, Nat.mod_eq_of_lt (by simpa using v.toNat_lt)]
  exact UInt32.ofNat_toNat

theorem store32_of_lt (m : Memory) (v : UInt32) {x : Nat} (h : x < a ∨ a + 4 ≤ x) : m.store32 a v x = m x :=
  storeLe_of_lt m h

theorem load32_store32_of_disjoint (m : Memory) (v : UInt32) (h : b + 4 ≤ a ∨ a + 4 ≤ b) :
    (m.store32 a v).load32 b = m.load32 b :=
  load32_congr fun i hi => store32_of_lt m v (by omega)

theorem loadLe_lt (m : Memory) : ∀ a n, m.loadLe a n < 256 ^ n
  | _, 0 => Nat.one_pos
  | a, n + 1 => by
    have h := loadLe_lt m (a + 1) n
    have hbyte := (m a).toNat_lt
    rw [loadLe, Nat.pow_succ]
    omega

theorem eq_zero_of_loadLe : ∀ {a n : Nat}, m.loadLe a n = 0 → ∀ i < n, m (a + i) = 0
  | _, 0, _, _, hi => absurd hi (Nat.not_lt_zero _)
  | a, n + 1, h, i, hi => by
    rw [loadLe] at h
    cases i with
    | zero => exact UInt8.toNat_inj.mp (by change (m a).toNat = 0; omega)
    | succ i =>
      have hrest : m.loadLe (a + 1) n = 0 := by omega
      rw [show a + (i + 1) = a + 1 + i by omega]
      exact eq_zero_of_loadLe hrest i (by omega)

/-- Bits that are set in the lowest byte. -/
theorem load64_or_low {bits : UInt8} (h0 : m' a = m a ||| bits) (h : ∀ i < 7, m' (a + 1 + i) = m (a + 1 + i)) :
    m'.load64 a = m.load64 a ||| bits.toUInt64 := by
  have hlow := (m a).toNat_lt
  have hbits := bits.toNat_lt
  have hor : (m a).toNat ||| bits.toNat < 2 ^ 8 := Nat.or_lt_two_pow hlow hbits
  have hlt := loadLe_lt m (a + 1) 7
  have hrest : m'.loadLe (a + 1) 7 = m.loadLe (a + 1) 7 := loadLe_congr h
  have hload : m'.loadLe a 8 = ((m a).toNat ||| bits.toNat) + 2 ^ 8 * m.loadLe (a + 1) 7 := by
    rw [loadLe, h0, hrest, UInt8.toNat_or]
    rfl
  refine UInt64.toNat_inj.mp ?_
  rw [UInt64.toNat_or, load64, load64, UInt64.toNat_ofNat_of_lt' (loadLe_lt m' a 8),
    UInt64.toNat_ofNat_of_lt' (loadLe_lt m a 8)]
  have hold : m.loadLe a 8 = (m a).toNat + 2 ^ 8 * m.loadLe (a + 1) 7 := rfl
  rw [hload, hold, UInt8.toNat_toUInt64, Nat.add_comm, Nat.add_comm (m a).toNat, Nat.two_pow_add_eq_or_of_lt hor,
    Nat.two_pow_add_eq_or_of_lt hlow, Nat.or_assoc]

theorem load64_eq_zero (h : ∀ i < 8, m (a + i) = 0) : m.load64 a = 0 := by
  have hzero : m.load64 a = load64 (fun _ => 0) a := load64_congr h
  exact hzero

/-- Half a word is enough where the other half is zero. -/
theorem load64_store32 (v : UInt32) (h : m.load64 a = 0) : (m.store32 a v).load64 a = v.toUInt64 := by
  have hload : m.loadLe a 8 = 0 := by
    have hlt := loadLe_lt m a 8
    have hzero := congrArg UInt64.toNat h
    rw [load64, UInt64.toNat_ofNat_of_lt' hlt] at hzero
    exact hzero
  have hv := v.toNat_lt
  have hbytes : ∀ i < 8, (m.store32 a v (a + i)).toNat = v.toNat / 256 ^ i % 256 := by
    intro i hi
    by_cases h4 : i < 4
    · exact storeLe_at m h4
    · rw [store32_of_lt m v (by omega), eq_zero_of_loadLe hload i hi, Nat.div_eq_of_lt]
      · rfl
      · calc v.toNat < 256 ^ 4 := hv
          _ ≤ 256 ^ i := Nat.pow_le_pow_right (by decide) (by omega)
  have hmod : v.toNat % 256 ^ 8 = v.toUInt64.toNat := by
    rw [UInt32.toNat_toUInt64]
    omega
  rw [load64, loadLe_eq_mod hbytes, hmod, UInt64.ofNat_toNat]

end Memory

/-! ## The processor -/

inductive Reg32 where
  | eax | ecx | edx | ebx | esp | ebp | esi | edi
  deriving DecidableEq

inductive ControlReg where
  | cr0 | cr3 | cr4
  deriving DecidableEq

structure Cpu32 where
  gpr : Reg32 → UInt32
  eip : UInt32
  eflags : UInt32
  cr0 : UInt32
  cr3 : UInt32
  cr4 : UInt32
  efer : UInt64
  gdtLimit : UInt16
  gdtBase : UInt32
  cs : UInt16
  ss : UInt16
  data : DataReg → UInt16
  mem : Memory

/-- In what one processor differs from another. -/
structure Processor where
  /-- The flags, beside those of arithmetic, that `popfl` can change. -/
  writable : UInt32
  /-- By leaf. Those with more parts are left out. -/
  cpuid : UInt32 → Reg32 → UInt32
  /-- What an operation leaves in the flags that only show its result otherwise. -/
  other : UInt32 → UInt32 → UInt32
  /-- What 64-bit code finds where 32-bit code cannot reach. -/
  high : Reg → UInt64
  /-- Paging in long mode. -/
  walk : Memory → UInt64 → UInt64 → Option Nat
  /-- Memory with what walks leave in the tables, those that the next instruction needs and those made ahead. -/
  touch : Cpu32 → Memory

inductive Condition where
  | equal
  | notEqual
  | below
  deriving DecidableEq

/-- The operands are in the order of the assembler: what is written comes last. -/
inductive Instr where
  | mov (source dest : Reg32)
  | movImm (imm : UInt32) (dest : Reg32)
  | movAl (imm : UInt8)
  | store (source : Reg32) (address : UInt32)
  | storeScaled (source : Reg32) (base : UInt32) (index : Reg32)
  | storeImm (imm address : UInt32)
  | storeAl (address : UInt32)
  | push (source : Reg32)
  | pop (dest : Reg32)
  | pushfl
  | popfl
  | orImm (imm : UInt32) (dest : Reg32)
  | xorImm (imm : UInt32) (dest : Reg32)
  | testImm (imm : UInt32) (left : Reg32)
  | cmp (right left : Reg32)
  | cmpImm (imm : UInt32) (left : Reg32)
  | inc (dest : Reg32)
  | mul (source : Reg32)
  | jump (target : UInt32)
  | jumpIf (condition : Condition) (target : UInt32)
  | call (target : UInt32)
  | ret
  | cpuid
  | rdmsr
  | wrmsr
  | readControl (source : ControlReg) (dest : Reg32)
  | writeControl (source : Reg32) (dest : ControlReg)
  | lgdt (address : UInt32)
  | ljmp (selector : UInt16) (target : UInt32)
  | hlt

/-- 64-bit code goes on with the control registers of `c`. -/
inductive End where
  | long (s : Core) (c : Cpu32)
  | halted (c : Cpu32)
  | fault

namespace Cpu32

variable (x : Processor) (c : Cpu32)

def set (r : Reg32) (v : UInt32) : Cpu32 := { c with gpr := Function.update c.gpr r v }

def goTo (a : UInt32) : Cpu32 := { c with eip := a }

def withMem (m : Memory) : Cpu32 := { c with mem := m }

def withCr0 (v : UInt32) : Cpu32 := { c with cr0 := v }

def withCr3 (v : UInt32) : Cpu32 := { c with cr3 := v }

def withCr4 (v : UInt32) : Cpu32 := { c with cr4 := v }

def withEfer (v : UInt64) : Cpu32 := { c with efer := v }

def withGdt (limit : UInt16) (base : UInt32) : Cpu32 := { c with gdtLimit := limit, gdtBase := base }

def paging : Bool := c.cr0.toNat.testBit 31

def longMode : Bool := c.efer.toNat.testBit 10

/-- Without long mode there is no paging here. -/
def translate (a : UInt32) : Option Nat :=
  if c.paging then if c.longMode then x.walk c.mem c.cr3.toUInt64 a.toUInt64 else none
  else some a.toNat

/-- Where the `n` bytes at `a` lie. Bytes that lie apart are left out. -/
def physical (a : UInt32) (n : Nat) : Option Nat :=
  (c.translate x a).filter fun p => (List.range n).all fun i => c.translate x (a + UInt32.ofNat i) == some (p + i)

def write32 (a v : UInt32) : Option Cpu32 := (c.physical x a 4).map fun p => c.withMem (c.mem.store32 p v)

def write8 (a : UInt32) (v : UInt8) : Option Cpu32 := (c.physical x a 1).map fun p => c.withMem (c.mem.store8 p v)

def read32 (a : UInt32) : Option UInt32 := (c.physical x a 4).map c.mem.load32

def push (v : UInt32) : Option Cpu32 := (c.write32 x (c.gpr .esp - 4) v).map fun c' => c'.set .esp (c.gpr .esp - 4)

def pop : Option (UInt32 × Cpu32) := (c.read32 x (c.gpr .esp)).map fun v => (v, c.set .esp (c.gpr .esp + 4))

/-- Carry, parity, adjust, zero, sign and overflow. -/
def arithmetic (zero carry : Bool) (a b : UInt32) : Cpu32 :=
  { c with
    eflags := c.eflags &&& 0xFFFFF72A ||| x.other a b &&& 0x894 |||
      (if zero then 0x40 else 0) ||| (if carry then 1 else 0) }

def setFlags (v : UInt32) : Cpu32 :=
  { c with eflags := c.eflags &&& ~~~(x.writable ||| 0x8D5) ||| v &&& (x.writable ||| 0x8D5) }

def holds : Condition → Bool
  | .equal => c.eflags.toNat.testBit 6
  | .notEqual => !c.eflags.toNat.testBit 6
  | .below => c.eflags.toNat.testBit 0

/-- What `lgdt` has loaded. -/
def segments : SegmentTable where
  limit := c.gdtLimit.toNat
  slot i := ((c.physical x (c.gdtBase + UInt32.ofNat (8 * i)) 8).map c.mem.load64).getD 0

/-- The accessed bit of the descriptor is set. -/
def markSegment (selector : UInt16) : Cpu32 :=
  match c.physical x (c.gdtBase + UInt32.ofNat (selector.toNat / 8 * 8 + 5)) 1 with
  | some p => c.withMem (c.mem.store8 p (c.mem p ||| 1))
  | none => c

def touched : Cpu32 := if c.paging then c.withMem (x.touch c) else c

def efer32 : UInt32 := 0xC0000080

def writeEfer (v : UInt64) : Option Cpu32 :=
  if c.paging && (v.toNat.testBit 8 != c.efer.toNat.testBit 8) then none
  else some (c.withEfer (v &&& 0xFFFFFFFFFFFFFBFF ||| c.efer &&& 0x400))

def writeControl (v : UInt32) : ControlReg → Option Cpu32
  | .cr3 => some (c.withCr3 v)
  | .cr4 => if c.longMode && !v.toNat.testBit 5 then none else some (c.withCr4 v)
  | .cr0 =>
    if v.toNat.testBit 31 then
      if !v.toNat.testBit 0 then none
      else if c.paging then some (c.withCr0 v)
      else if c.efer.toNat.testBit 8 && c.cr4.toNat.testBit 5 then some ((c.withCr0 v).withEfer (c.efer ||| 0x400))
      else none
    else some ((c.withCr0 v).withEfer (c.efer &&& 0xFFFFFFFFFFFFFBFF))

def readControl : ControlReg → UInt32
  | .cr0 => c.cr0
  | .cr3 => c.cr3
  | .cr4 => c.cr4

/-- The lower halves. -/
def low : Reg → Option Reg32
  | .rax => some .eax
  | .rcx => some .ecx
  | .rdx => some .edx
  | .rbx => some .ebx
  | .rbp => some .ebp
  | .rsi => some .esi
  | .rdi => some .edi
  | _ => none

/-- In 64-bit code. -/
def enter64 (selector : UInt16) (target : UInt32) : Core where
  cpu := {
    gpr := fun r => match low r with
      | some r32 => x.high r &&& 0xFFFFFFFF00000000 ||| (c.gpr r32).toUInt64
      | none => x.high r
    rsp := (c.gpr .esp).toUInt64
    rip := target.toUInt64
    rflags := c.eflags.toUInt64
    cs := (selector &&& 0xFFFC).toUInt64
    ss := c.ss.toUInt64
    mem := c.mem }
  data := c.data

def ljmp (selector : UInt16) (target : UInt32) : Outcome Cpu32 End :=
  match (c.segments x).far 0 selector, (c.segments x).lookup selector with
  | .code, some d =>
    let c := c.markSegment x selector
    if c.longMode && d.flags.testBit 1 then .stop (.long (c.enter64 x selector target) c)
    else .next { c with cs := selector &&& 0xFFFC, eip := target }
  | _, _ => .stop .fault

end Cpu32

def ofOption : Option Cpu32 → Outcome Cpu32 End
  | some c => .next c
  | none => .stop .fault

/-- Behind the fetch, with `eip` on the next instruction. -/
def exec (x : Processor) (c : Cpu32) : Instr → Outcome Cpu32 End
  | .mov source dest => .next (c.set dest (c.gpr source))
  | .movImm imm dest => .next (c.set dest imm)
  | .movAl imm => .next (c.set .eax (c.gpr .eax &&& 0xFFFFFF00 ||| imm.toUInt32))
  | .store source address => ofOption (c.write32 x address (c.gpr source))
  | .storeScaled source base index => ofOption (c.write32 x (base + 8 * c.gpr index) (c.gpr source))
  | .storeImm imm address => ofOption (c.write32 x address imm)
  | .storeAl address => ofOption (c.write8 x address (c.gpr .eax).toUInt8)
  | .push source => ofOption (c.push x (c.gpr source))
  | .pop dest => ofOption ((c.pop x).map fun (v, c) => c.set dest v)
  | .pushfl => ofOption (c.push x (c.eflags &&& 0xFCFFFF))
  | .popfl => ofOption ((c.pop x).map fun (v, c) => c.setFlags x v)
  | .orImm imm dest =>
    .next ((c.set dest (c.gpr dest ||| imm)).arithmetic x (c.gpr dest ||| imm == 0) false (c.gpr dest) imm)
  | .xorImm imm dest =>
    .next ((c.set dest (c.gpr dest ^^^ imm)).arithmetic x (c.gpr dest ^^^ imm == 0) false (c.gpr dest) imm)
  | .testImm imm left => .next (c.arithmetic x (c.gpr left &&& imm == 0) false (c.gpr left) imm)
  | .cmp right left =>
    .next (c.arithmetic x (c.gpr left == c.gpr right) (decide (c.gpr left < c.gpr right)) (c.gpr left)
      (c.gpr right))
  | .cmpImm imm left => .next (c.arithmetic x (c.gpr left == imm) (decide (c.gpr left < imm)) (c.gpr left) imm)
  | .inc dest =>
    .next ((c.set dest (c.gpr dest + 1)).arithmetic x (c.gpr dest + 1 == 0) (c.eflags.toNat.testBit 0)
      (c.gpr dest) 1)
  | .mul source =>
    let product := (c.gpr .eax).toNat * (c.gpr source).toNat
    let c' := (c.set .eax (UInt32.ofNat product)).set .edx (UInt32.ofNat (product / 2 ^ 32))
    -- the zero flag is undefined
    .next (c'.arithmetic x ((x.other (c.gpr .eax) (c.gpr source)).toNat.testBit 6) (decide (2 ^ 32 ≤ product))
      (c.gpr .eax) (c.gpr source))
  | .jump target => .next (c.goTo target)
  | .jumpIf condition target => .next (if c.holds condition then c.goTo target else c)
  | .call target => ofOption ((c.push x c.eip).map fun c => c.goTo target)
  | .ret => ofOption ((c.pop x).map fun (v, c) => c.goTo v)
  | .cpuid =>
    let out := x.cpuid (c.gpr .eax)
    .next ((((c.set .eax (out .eax)).set .ebx (out .ebx)).set .ecx (out .ecx)).set .edx (out .edx))
  | .rdmsr =>
    if c.gpr .ecx = Cpu32.efer32 then .next ((c.set .eax c.efer.toUInt32).set .edx (c.efer >>> 32).toUInt32)
    else .stop .fault
  | .wrmsr =>
    if c.gpr .ecx = Cpu32.efer32 then
      ofOption (c.writeEfer ((c.gpr .edx).toUInt64 <<< 32 ||| (c.gpr .eax).toUInt64))
    else .stop .fault
  | .readControl source dest => .next (c.set dest (c.readControl source))
  | .writeControl source dest => ofOption (c.writeControl (c.gpr source) dest)
  | .lgdt address => ofOption ((c.physical x address 6).map fun p =>
      c.withGdt (UInt16.ofNat (c.mem.loadLe p 2)) (c.mem.load32 (p + 2)))
  | .ljmp selector target => c.ljmp x selector target
  | .hlt => .stop (.halted c)

/-- `fetch` knows the instruction at an address and how long it is. -/
def step32 (x : Processor) (fetch : Nat → Option (Instr × UInt32)) (c : Cpu32) : Outcome Cpu32 End :=
  let c := c.touched x
  match (c.translate x c.eip).bind fetch with
  | some (i, length) => exec x (c.goTo (c.eip + length)) i
  | none => .stop .fault

/-! ## One step -/

namespace Cpu32

variable {x : Processor} {fetch : Nat → Option (Instr × UInt32)} {c : Cpu32} {a v : UInt32}
  {n bound : Nat} {r : Reg32}

@[simp] theorem gpr_set_self (c : Cpu32) (r : Reg32) (v : UInt32) : (c.set r v).gpr r = v := Function.update_self ..

@[simp] theorem gpr_set_of_ne (c : Cpu32) {r r' : Reg32} (v : UInt32) (h : r' ≠ r) :
    (c.set r v).gpr r' = c.gpr r' := Function.update_of_ne h ..

@[simp] theorem mem_withMem (c : Cpu32) (m : Memory) : (c.withMem m).mem = m := rfl

theorem touched_of_not_paging (h : c.paging = false) : c.touched x = c := by
  rw [touched, h]
  rfl

theorem touched_of_paging (h : c.paging = true) : c.touched x = c.withMem (x.touch c) := if_pos h

@[simp] theorem eip_touched : (c.touched x).eip = c.eip := by
  unfold touched
  split <;> rfl

/-- The addresses below `bound` are physical ones. -/
def Flat (x : Processor) (c : Cpu32) (bound : Nat) : Prop :=
  ∀ a : UInt32, a.toNat < bound → c.translate x a = some a.toNat

theorem flat_of_not_paging (h : c.paging = false) : c.Flat x (2 ^ 32) := fun a _ => by
  rw [translate, h]
  rfl

namespace Flat

variable (h : c.Flat x bound) (hbound : bound ≤ 2 ^ 32)
include h hbound

theorem physical (hn : 0 < n) (ha : a.toNat + n ≤ bound) : c.physical x a n = some a.toNat := by
  have hadd {i : Nat} (hi : i < n) : (a + UInt32.ofNat i).toNat = a.toNat + i := by
    rw [UInt32.toNat_add, UInt32.toNat_ofNat_of_lt' (by change i < 2 ^ 32; omega), Nat.mod_eq_of_lt (by omega)]
  rw [Cpu32.physical, h a (by omega), Option.filter_some, if_pos]
  refine List.all_eq_true.mpr fun i hi => ?_
  have hi' := List.mem_range.mp hi
  rw [h _ (by rw [hadd hi']; omega), hadd hi', beq_self_eq_true]

theorem write32 (v : UInt32) (ha : a.toNat + 4 ≤ bound) :
    c.write32 x a v = some (c.withMem (c.mem.store32 a.toNat v)) := by
  rw [Cpu32.write32, h.physical hbound (by decide) ha]
  rfl

theorem write8 (v : UInt8) (ha : a.toNat + 1 ≤ bound) :
    c.write8 x a v = some (c.withMem (c.mem.store8 a.toNat v)) := by
  rw [Cpu32.write8, h.physical hbound (by decide) ha]
  rfl

theorem push (v : UInt32) (ha : (c.gpr .esp - 4).toNat + 4 ≤ bound) :
    c.push x v = some ((c.withMem (c.mem.store32 (c.gpr .esp - 4).toNat v)).set .esp (c.gpr .esp - 4)) := by
  rw [Cpu32.push, h.write32 hbound v ha]
  rfl

theorem pop (ha : (c.gpr .esp).toNat + 4 ≤ bound) :
    c.pop x = some (c.mem.load32 (c.gpr .esp).toNat, c.set .esp (c.gpr .esp + 4)) := by
  rw [Cpu32.pop, read32, h.physical hbound (by decide) ha]
  rfl

end Flat

/-! ## Flags -/

section
variable (x) (c) (zero carry : Bool) (a b : UInt32)

theorem testBit_arithmetic (i : Nat) : (c.arithmetic x zero carry a b).eflags.toNat.testBit i =
    (c.eflags.toNat.testBit i && (0xFFFFF72A : Nat).testBit i || (x.other a b).toNat.testBit i &&
      (0x894 : Nat).testBit i ||
      zero && (0x40 : Nat).testBit i || carry && (1 : Nat).testBit i) := by
  have hif (p : Bool) (m : UInt32) : (if p then m else 0).toNat.testBit i = (p && m.toNat.testBit i) := by
    cases p
    · exact Nat.zero_testBit i
    · rfl
  simp only [arithmetic, UInt32.toNat_or, UInt32.toNat_and, Nat.testBit_or, Nat.testBit_and, hif]
  rfl

theorem holds_arithmetic : (c.arithmetic x zero carry a b).holds .equal = zero ∧
    (c.arithmetic x zero carry a b).holds .notEqual = !zero ∧
    (c.arithmetic x zero carry a b).holds .below = carry := by
  have h6 := testBit_arithmetic x c zero carry a b 6
  have h0 := testBit_arithmetic x c zero carry a b 0
  have hzero : (c.arithmetic x zero carry a b).eflags.toNat.testBit 6 = zero := by
    rw [h6, show (0xFFFFF72A : Nat).testBit 6 = false by decide, show (0x894 : Nat).testBit 6 = false by decide,
      show (0x40 : Nat).testBit 6 = true by decide, show (1 : Nat).testBit 6 = false by decide]
    simp
  have hcarry : (c.arithmetic x zero carry a b).eflags.toNat.testBit 0 = carry := by
    rw [h0, show (0xFFFFF72A : Nat).testBit 0 = false by decide, show (0x894 : Nat).testBit 0 = false by decide,
      show (0x40 : Nat).testBit 0 = false by decide, show (1 : Nat).testBit 0 = true by decide]
    simp
  exact ⟨hzero, congrArg not hzero, hcarry⟩

/-- The interrupt flag stays. -/
theorem interrupts_arithmetic :
    (c.arithmetic x zero carry a b).eflags.toNat.testBit 9 = c.eflags.toNat.testBit 9 := by
  rw [testBit_arithmetic, show (0xFFFFF72A : Nat).testBit 9 = true by decide,
    show (0x894 : Nat).testBit 9 = false by
      decide, show (0x40 : Nat).testBit 9 = false by decide, show (1 : Nat).testBit 9 = false by decide]
  simp

theorem testBit_setFlags (v : UInt32) {i : Nat} (hi : i < 32) : (c.setFlags x v).eflags.toNat.testBit i =
    if x.writable.toNat.testBit i || (0x8D5 : Nat).testBit i then v.toNat.testBit i
    else c.eflags.toNat.testBit i := by
  have hmask : (x.writable ||| 0x8D5).toNat.testBit i =
      (x.writable.toNat.testBit i || (0x8D5 : Nat).testBit i) := by
    rw [UInt32.toNat_or, Nat.testBit_or]
    rfl
  have hnot : (~~~(x.writable ||| 0x8D5)).toNat.testBit i =
      !(x.writable.toNat.testBit i || (0x8D5 : Nat).testBit i) := by
    rw [← hmask]
    change (~~~(x.writable ||| 0x8D5).toBitVec).getLsbD i = !(x.writable ||| 0x8D5).toBitVec.getLsbD i
    rw [BitVec.getLsbD_not, decide_eq_true hi, Bool.true_and]
  rw [setFlags, UInt32.toNat_or, UInt32.toNat_and, UInt32.toNat_and, Nat.testBit_or, Nat.testBit_and,
    Nat.testBit_and, hmask, hnot]
  cases x.writable.toNat.testBit i || (0x8D5 : Nat).testBit i <;> simp

theorem testBit_pushed (v : UInt32) {i : Nat} (hi : (0xFCFFFF : Nat).testBit i = true) :
    (v &&& 0xFCFFFF).toNat.testBit i = v.toNat.testBit i := by
  rw [UInt32.toNat_and, Nat.testBit_and, show (0xFCFFFF : UInt32).toNat = 0xFCFFFF from rfl, hi, Bool.and_true]

/-- Whether a flag that is turned over shows in what `pushfl` pushes next. -/
theorem pushed_flipped :
    ((c.arithmetic x zero carry a b).setFlags x ((c.eflags &&& 0xFCFFFF) ^^^ 0x200000)).eflags &&& 0xFCFFFF =
    c.eflags &&& 0xFCFFFF ↔ x.writable.toNat.testBit 21 = false := by
  have hpushed (v : UInt32) (i : Nat) : (v &&& 0xFCFFFF).toNat.testBit i =
      (v.toNat.testBit i && (0xFCFFFF : Nat).testBit i) := by
    rw [UInt32.toNat_and, Nat.testBit_and]
    rfl
  have hflip (i : Nat) : ((c.eflags &&& 0xFCFFFF) ^^^ 0x200000).toNat.testBit i =
      xor (c.eflags.toNat.testBit i && (0xFCFFFF : Nat).testBit i) ((2 ^ 21 : Nat).testBit i) := by
    rw [UInt32.toNat_xor, Nat.testBit_xor, hpushed]
    rfl
  constructor
  · intro heq
    have hbit := congrArg (fun v : UInt32 => v.toNat.testBit 21) heq
    rw [hpushed, hpushed, testBit_setFlags x _ _ (by decide), hflip, Nat.testBit_two_pow_self,
      show (0xFCFFFF : Nat).testBit 21 = true by decide] at hbit
    cases hw : x.writable.toNat.testBit 21
    · rfl
    · rw [hw, Bool.true_or, if_pos rfl] at hbit
      cases c.eflags.toNat.testBit 21 <;> simp at hbit
  · intro hw
    refine UInt32.toNat_inj.mp (Nat.eq_of_testBit_eq fun i => ?_)
    rw [hpushed, hpushed]
    by_cases hi : i < 32
    · rw [testBit_setFlags x _ _ hi, hflip, testBit_arithmetic, Nat.testBit_two_pow]
      by_cases h21 : 21 = i
      · subst h21
        rw [hw, show (0x8D5 : Nat).testBit 21 = false by decide,
          show (0xFFFFF72A : Nat).testBit 21 = true by
            decide, show (0x894 : Nat).testBit 21 = false by
              decide, show (0x40 : Nat).testBit 21 = false by decide,
          show (1 : Nat).testBit 21 = false by decide]
        simp
      · have hmasks : ∀ i < 32, (0x8D5 : Nat).testBit i = false →
          (0xFFFFF72A : Nat).testBit i = true ∧ (0x894 : Nat).testBit i = false ∧
            (0x40 : Nat).testBit i = false ∧ (1 : Nat).testBit i = false := by decide
        rw [decide_eq_false h21]
        cases h8 : x.writable.toNat.testBit i || (0x8D5 : Nat).testBit i
        · obtain ⟨h1, h2, h3, h4⟩ := hmasks i hi (Bool.or_eq_false_iff.mp h8).2
          simp [h1, h2, h3, h4]
        · simp
    · have hhigh : (0xFCFFFF : Nat).testBit i = false :=
        Nat.testBit_lt_two_pow
          (Nat.lt_of_lt_of_le (by decide : 0xFCFFFF < 2 ^ 32) (Nat.pow_le_pow_right (by decide) (by omega)))
      rw [hhigh, Bool.and_false, Bool.and_false]

end

end Cpu32

theorem step32_of_fetch {x : Processor} {fetch : Nat → Option (Instr × UInt32)} {c : Cpu32} {i : Instr}
    {length : UInt32} (h : (c.touched x).translate x c.eip = some c.eip.toNat)
    (hfetch : fetch c.eip.toNat = some (i, length)) :
    step32 x fetch c = exec x ((c.touched x).goTo (c.eip + length)) i := by
  unfold step32
  dsimp only
  rw [Cpu32.eip_touched, h, Option.bind_some, hfetch]

end Lib
