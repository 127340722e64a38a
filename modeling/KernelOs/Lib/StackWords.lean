import KernelOs.Lib.Cpu

/-!
# Stacks anywhere in memory

Words at 64-bit addresses, which wrap around. An aligned word never crosses the end of the address
space, so that pushing and popping work at every aligned stack pointer.
-/

namespace Lib

namespace Memory

variable {m : Memory} {a b v : UInt64} {vs ws : List UInt64}

def Words (m : Memory) : UInt64 → List UInt64 → Prop
  | _, [] => True
  | a, v :: vs => m.load64 a.toNat = v ∧ Words m (a + 8) vs

theorem aligned_add (ha : a.toNat % 8 = 0) (hb : b.toNat % 8 = 0) : (a + b).toNat % 8 = 0 := by
  rw [UInt64.toNat_add]
  omega

theorem aligned_sub_eight (ha : a.toNat % 8 = 0) : (a - 8).toNat % 8 = 0 := by
  rw [UInt64.toNat_sub]
  simp only [UInt64.reduceToNat]
  omega

/-- Different aligned words do not overlap. -/
theorem load64_store64_of_ne (m : Memory) (ha : a.toNat % 8 = 0) (hb : b.toNat % 8 = 0) (h : a ≠ b) :
    (m.store64 b.toNat v).load64 a.toNat = m.load64 a.toNat := by
  apply load64_store64_of_disjoint
  have hne : a.toNat ≠ b.toNat := fun he => h (UInt64.toNat_inj.mp he)
  omega

theorem Words.store64 (hb : b.toNat % 8 = 0) (h : m.Words a vs) (ha : a.toNat % 8 = 0)
    (hne : ∀ i < vs.length, a + 8 * UInt64.ofNat i ≠ b) : (m.store64 b.toNat v).Words a vs := by
  induction vs generalizing a with
  | nil => trivial
  | cons w vs ih =>
    refine ⟨?_, ih h.2 (aligned_add ha rfl) fun i hi => ?_⟩
    · rw [load64_store64_of_ne m ha hb, h.1]
      have := hne 0 (Nat.zero_lt_succ _)
      simpa using this
    · have := hne (i + 1) (Nat.succ_lt_succ hi)
      rwa [UInt64.ofNat_add, UInt64.mul_add, UInt64.add_comm (8 * UInt64.ofNat i), ← UInt64.add_assoc] at this

theorem words_append : m.Words a (vs ++ ws) ↔ m.Words a vs ∧ m.Words (a + 8 * UInt64.ofNat vs.length) ws := by
  induction vs generalizing a with
  | nil => simp [Words]
  | cons v vs ih =>
    have hlen : a + 8 * UInt64.ofNat (v :: vs).length = a + 8 + 8 * UInt64.ofNat vs.length := by
      rw [List.length_cons, UInt64.ofNat_add, UInt64.mul_add, UInt64.add_comm (8 * UInt64.ofNat vs.length),
        ← UInt64.add_assoc]
      rfl
    rw [List.cons_append, Words, Words, ih, hlen, and_assoc]

end Memory

namespace Cpu
open Memory

variable {c frame : Cpu} {v rsp0 selector handler : UInt64} {vs ws : List UInt64} {rs : List Reg}

theorem gpr_pop (c : Cpu) (r : Reg) : (c.pop r).gpr r = c.mem.load64 c.rsp.toNat := Function.update_self ..

theorem words_push (v : UInt64) (ha : c.rsp.toNat % 8 = 0) (h : c.mem.Words c.rsp ws) (hlen : ws.length < 2 ^ 60) :
    (c.push v).mem.Words (c.push v).rsp (v :: ws) := by
  have hback : (c.push v).rsp + 8 = c.rsp := UInt64.sub_add_cancel c.rsp 8
  refine ⟨load64_store64 _ _ _, ?_⟩
  rw [hback]
  refine h.store64 (aligned_sub_eight ha) ha fun i hi he => ?_
  have hlt := c.rsp.toNat_lt
  have := congrArg UInt64.toNat he
  rw [UInt64.toNat_add, UInt64.toNat_mul, UInt64.toNat_ofNat', UInt64.toNat_sub] at this
  simp only [UInt64.reduceToNat] at this
  omega

/-- Pushed words are found where the stack pointer is, the last one first. -/
theorem words_pushAll (vs : List UInt64) (ha : c.rsp.toNat % 8 = 0) (h : c.mem.Words c.rsp ws)
    (hlen : vs.length + ws.length < 2 ^ 60) :
    (c.pushAll vs).rsp + 8 * UInt64.ofNat vs.length = c.rsp ∧ (c.pushAll vs).rsp.toNat % 8 = 0 ∧
      (c.pushAll vs).mem.Words (c.pushAll vs).rsp (vs.reverse ++ ws) := by
  induction vs generalizing c ws with
  | nil => exact ⟨by simp, ha, h⟩
  | cons v vs ih =>
    rw [List.length_cons] at hlen
    have hpush : (c.push v).rsp.toNat % 8 = 0 := aligned_sub_eight ha
    have hback : (c.push v).rsp + 8 = c.rsp := UInt64.sub_add_cancel c.rsp 8
    obtain ⟨h1, h2, h3⟩ := ih hpush (words_push v ha h (by omega)) (by rw [List.length_cons]; omega)
    refine ⟨?_, h2, ?_⟩
    · rw [pushAll_cons, List.length_cons, UInt64.ofNat_add, UInt64.mul_add, ← UInt64.add_assoc, h1]
      exact hback
    · rw [List.reverse_cons, List.append_assoc]
      exact h3

theorem popRegs_words {g : Reg → UInt64} (h : c.mem.Words c.rsp (rs.map g)) :
    (c.popRegs rs).rsp = c.rsp + 8 * UInt64.ofNat rs.length ∧ ∀ r ∈ rs, (c.popRegs rs).gpr r = g r := by
  induction rs generalizing c with
  | nil => exact ⟨by simp [popRegs], nofun⟩
  | cons u rs ih =>
    obtain ⟨h1, h2⟩ := ih (c := c.pop u) h.2
    refine ⟨?_, fun r hr => ?_⟩
    · change ((c.pop u).popRegs rs).rsp = _
      rw [h1, List.length_cons, UInt64.ofNat_add, UInt64.mul_add, UInt64.add_comm (8 * UInt64.ofNat rs.length),
        ← UInt64.add_assoc]
      rfl
    · by_cases hrs : r ∈ rs
      · exact h2 r hrs
      · obtain rfl : r = u := (List.mem_cons.mp hr).resolve_right hrs
        refine (popRegs_gpr_of_notMem (c.pop r) hrs).trans ?_
        exact (Function.update_self ..).trans h.1

/-- An interrupt leaves its five words at a stack pointer that is 8 modulo 16. -/
theorem interruptGate_words (c : Cpu) (rf : Bool) (rsp0 selector handler : UInt64) :
    (c.interruptGate rf rsp0 selector handler).gpr = c.gpr ∧
      (c.interruptGate rf rsp0 selector handler).rsp.toNat % 16 = 8 ∧
      (c.interruptGate rf rsp0 selector handler).mem.Words (c.interruptGate rf rsp0 selector handler).rsp
        (c.imaged rf).interruptFrame := by
  rw [← gpr_imaged c rf]
  unfold interruptGate
  generalize c.imaged rf = c
  generalize hsp : (if c.ring = 0 then c.rsp else rsp0) / 16 * 16 = sp
  have hmod : sp.toNat % 16 = 0 := by
    rw [← hsp, toNat_align]
    omega
  have hnil : Words c.mem sp [] := trivial
  obtain ⟨h1, -, h3⟩ := words_pushAll (c := { c with rsp := sp }) [c.ss, c.rsp, c.rflags, c.cs,
    c.rip] (by simp only; omega) hnil (by simp)
  dsimp only
  rw [hsp]
  refine ⟨(sameButStack_pushAll _ _).gpr, ?_, h3⟩
  have hlen : (8 * UInt64.ofNat [c.ss, c.rsp, c.rflags, c.cs, c.rip].length).toNat = 40 := rfl
  have := congrArg UInt64.toNat h1
  rw [UInt64.toNat_add, hlen] at this
  simp only at this
  omega

theorem iretq_words (h : c.mem.Words c.rsp frame.interruptFrame) :
    c.iretq = { frame with gpr := c.gpr, mem := c.mem } := by
  obtain ⟨h1, h2, h3, h4, h5, -⟩ := h
  rw [UInt64.add_assoc] at h3 h4 h5
  rw [UInt64.add_assoc] at h4 h5
  rw [UInt64.add_assoc] at h5
  simp only [UInt64.reduceAdd] at h3 h4 h5
  simp only [iretq, h1, h2, h3, h4, h5]

end Cpu

end Lib
