import KernelOs.BootCode
import KernelOs.IdentityMap

/-!
# The routines of `boot.S`

What each of them comes to on every processor.
-/

namespace KernelOs
open Lib

/-! ## The tables -/

section
variable {mem : Memory} {t t' v : UInt64} {i j : Fin 512} {w : UInt32}

theorem readEntry_store32_of_ne (ht : IsFrame t) (ht' : IsFrame t') (h : ¬ (t' = t ∧ j = i)) :
    readEntry (mem.store32 (t.toNat + 8 * i.val) w) t' j = readEntry mem t' j := by
  rw [isFrame_iff] at ht ht'
  refine Memory.load64_congr fun n hn => Memory.store32_of_lt _ _ ?_
  by_cases htt : t' = t
  · have hij : j.val ≠ i.val := fun he => h ⟨htt, Fin.ext he⟩
    rw [htt]
    omega
  · have hne : t'.toNat ≠ t.toNat := fun he => htt (UInt64.toNat_inj.mp he)
    omega

/-- The bits beside the address. -/
theorem frame_or_and {n bits m : UInt64} (hn : IsFrame n) (hm : pteAddrMask &&& m = 0) :
    (n ||| bits) &&& m = bits &&& m := by
  rw [or_and_distrib, ← show n &&& pteAddrMask = n from hn, UInt64.and_assoc, hm, UInt64.and_zero, UInt64.zero_or]

/-- What the processor finds with the tables of `boot.S`. -/
theorem BootTables.translation {pml4 pdpt pd : UInt64} (h : BootTables mem pml4 pdpt pd) (hpdpt : IsFrame pdpt)
    (hpd : IsFrame pd) (hv : v.toNat < 2 ^ 48) :
    translation mem pml4 v = if v.toNat < 2 ^ 30 then some ⟨v, false, true, false⟩ else none := by
  have hslot4 (i : Fin 512) := slot_bootLink (r := 3) hpdpt (by decide) (h.pml4 i)
  have hslot3 (i : Fin 512) := slot_bootLink (r := 2) hpd (by decide) (h.pdpt i)
  by_cases hlow : v.toNat < 2 ^ 30
  · obtain ⟨hlookup, hwalk⟩ :=
      identity_walk ((hslot4 0).trans (if_pos rfl)) ((hslot3 0).trans (if_pos rfl)) h.pd hlow
    have hrights : effectiveRights (entriesAt mem (walk mem pml4 v)) = ⟨false, true, false⟩ := by
      have hpage : IsFrame (UInt64.ofNat (0x200000 * (splitVaddr v).pdI.val)) := by
        rw [show 0x200000 * (splitVaddr v).pdI.val = 512 * (splitVaddr v).pdI.val * 4096 by omega]
        exact isFrame_page (by omega)
      have hbits {n bits e : UInt64} (hn : IsFrame n) (he : e &&& pteUntouched = n ||| bits) :
          e &&& pteUser = bits &&& pteUser ∧ e &&& pteWritable = bits &&& pteWritable ∧
              e &&& pteNx = bits &&& pteNx :=
        ⟨(and_of_untouched he (by decide)).trans (frame_or_and hn (by decide)),
          (and_of_untouched he (by decide)).trans (frame_or_and hn (by decide)),
          (and_of_untouched he (by decide)).trans (frame_or_and hn (by decide))⟩
      rw [hwalk]
      simp only [entriesAt, List.map_cons, List.map_nil, effectiveRights, List.all_cons, List.all_nil,
        List.any_cons, List.any_nil, hbits hpdpt ((h.pml4 0).trans (if_pos rfl)),
        hbits hpd ((h.pdpt 0).trans (if_pos rfl)), hbits hpage (h.pd (splitVaddr v).pdI)]
      rfl
    rw [KernelOs.translation, vmmTranslate_eq, hlookup, hrights, if_pos hlow]
    exact congrArg (fun phys => some (Translation.mk phys _)) (identityEntry_or (pdI_low hlow))
  · have hindex {shift : UInt64} (hshift : shift.toNat < 64) : (tableIndex v shift).val =
      v.toNat / 2 ^ shift.toNat % 512 := tableIndex_val hshift
    have h4 : (splitVaddr v).pml4I.val = v.toNat / 2 ^ 39 :=
      (hindex (by decide)).trans (by simp only [UInt64.reduceToNat]; omega)
    have h3 : (splitVaddr v).pdptI.val = v.toNat / 2 ^ 30 % 512 := hindex (by decide)
    have hnone : Radix.lookup (slot mem) pml4 (path v) = none := by
      by_cases hfirst : (splitVaddr v).pml4I = 0
      · have hsecond : (splitVaddr v).pdptI ≠ 0 := fun hz => by
          have hz4 := h4.symm.trans (congrArg Fin.val hfirst)
          have hz3 := h3.symm.trans (congrArg Fin.val hz)
          change _ = 0 at hz4
          change _ = 0 at hz3
          omega
        simp only [path, tablePath, List.cons_append, List.nil_append, Radix.lookup_cons, List.length_cons,
          List.length_nil, Nat.zero_add, Nat.reduceAdd, hslot4, hslot3, if_pos hfirst, if_neg hsecond]
      · simp only [path, tablePath, List.cons_append, List.nil_append, Radix.lookup_cons, List.length_cons,
          List.length_nil, Nat.zero_add, Nat.reduceAdd, hslot4, if_neg hfirst]
    rw [KernelOs.translation, hnone, if_neg hlow]
    rfl

theorem BootTables.walk_tables {pml4 pdpt pd : UInt64} (h : BootTables mem pml4 pdpt pd) (hpdpt : IsFrame pdpt)
    (hpd : IsFrame pd) {place : UInt64 × Fin 512} (hplace : place ∈ walk mem pml4 v) :
    place.1 = pml4 ∨ place.1 = pdpt ∨ place.1 = pd := by
  have hslot4 (i : Fin 512) := slot_bootLink (r := 3) hpdpt (by decide) (h.pml4 i)
  have hslot3 (i : Fin 512) := slot_bootLink (r := 2) hpd (by decide) (h.pdpt i)
  have hslot2 (i : Fin 512) (n : UInt64) : slot mem 1 pd i ≠ .node n := by
    obtain ⟨-, hhuge, -⟩ := identityEntry_bits i
    have hentry : readEntry mem pd i &&& pteUntouched = identityEntry i := h.pd i
    rw [← and_of_untouched hentry (show pteUntouched &&& pteHuge = pteHuge by decide)] at hhuge
    intro hnode
    unfold slot at hnode
    simp only [ne_eq, hhuge, not_false_eq_true, if_true] at hnode
    split at hnode <;> simp at hnode
  have hpath : path v = [(splitVaddr v).pml4I, (splitVaddr v).pdptI, (splitVaddr v).pdI, (splitVaddr v).ptI] := rfl
  rw [walk, hpath, Radix.trail, List.mem_cons, hslot4] at hplace
  rcases hplace with rfl | hplace
  · exact Or.inl rfl
  by_cases hfirst : (splitVaddr v).pml4I = 0
  swap
  · rw [if_neg hfirst] at hplace
    cases hplace
  rw [if_pos hfirst] at hplace
  dsimp only [Nat.reduceSub] at hplace
  rw [Radix.trail, List.mem_cons, hslot3] at hplace
  rcases hplace with rfl | hplace
  · exact Or.inr (Or.inl rfl)
  by_cases hsecond : (splitVaddr v).pdptI = 0
  swap
  · rw [if_neg hsecond] at hplace
    cases hplace
  rw [if_pos hsecond] at hplace
  dsimp only [Nat.reduceSub] at hplace
  rw [Radix.trail, List.mem_cons] at hplace
  rcases hplace with rfl | hplace
  · exact Or.inr (Or.inr rfl)
  cases hthird : slot mem 1 pd (splitVaddr v).pdI with
  | empty => rw [hthird] at hplace; cases hplace
  | leaf a => rw [hthird] at hplace; cases hplace
  | node n => exact absurd hthird (hslot2 _ n)

/-- An entry of which a walk has set the two bits at most. -/
theorem readEntry_touched {mem' : Memory}
    (hlow : ∃ bits, mem' (t.toNat + 8 * i.val) = mem (t.toNat + 8 * i.val) ||| bits &&& 0x60)
    (hrest : ∀ n < 7, mem' (t.toNat + 8 * i.val + 1 + n) = mem (t.toNat + 8 * i.val + 1 + n)) :
    readEntry mem' t i &&& pteUntouched = readEntry mem t i &&& pteUntouched := by
  obtain ⟨bits, hbits⟩ := hlow
  have hnone : (bits &&& 0x60).toUInt64 &&& pteUntouched = 0 := by
    rw [UInt8.toUInt64_and, UInt64.and_assoc, show (0x60 : UInt8).toUInt64 &&& pteUntouched = 0 by decide,
      UInt64.and_zero]
  rw [readEntry, readEntry, Memory.load64_or_low hbits hrest, or_and_distrib, hnone, UInt64.or_zero]

end

/-! ## Addresses -/

namespace BootImage.Linked

variable {k : BootImage} (h : k.Linked)
include h

theorem toNat_bss_add (offset : UInt32) (ho : offset.toNat ≤ 0x7000) :
    (k.bss + offset).toNat = k.bss.toNat + offset.toNat := by
  have := h.bss
  rw [UInt32.toNat_add, Nat.mod_eq_of_lt (by omega)]

theorem toNat_pdptTable : k.pdptTable.toNat = k.bss.toNat + 0x1000 := by
  have hadd := h.toNat_bss_add 0x1000 (by decide)
  simp only [UInt32.reduceToNat] at hadd
  unfold pdptTable
  exact hadd

theorem toNat_pdTable : k.pdTable.toNat = k.bss.toNat + 0x2000 := by
  have hadd := h.toNat_bss_add 0x2000 (by decide)
  simp only [UInt32.reduceToNat] at hadd
  unfold pdTable
  exact hadd

theorem toNat_stackTop : k.stackTop.toNat = k.bss.toNat + 0x7000 := by
  have hadd := h.toNat_bss_add 0x7000 (by decide)
  simp only [UInt32.reduceToNat] at hadd
  unfold stackTop
  exact hadd

theorem toNat_gdt64Pointer : k.gdt64Pointer.toNat = k.rodata.toNat + 24 := by
  have h1 := h.rodata
  have h2 := h.bss
  rw [gdt64Pointer, UInt32.toNat_add, Nat.mod_eq_of_lt (by change _ + 24 < _; omega)]
  rfl

theorem toNat_stackTop_sub {n : UInt32} (hn : n.toNat ≤ 0x7000) :
    (k.stackTop - n).toNat = k.bss.toNat + 0x7000 - n.toNat := by
  rw [UInt32.toNat_sub_of_le _ _ (UInt32.le_iff_toNat_le.mpr (by rw [h.toNat_stackTop]; omega)), h.toNat_stackTop]

theorem toNat_stackTop_sub_eight : (k.stackTop.toUInt64 - 8).toNat = k.bss.toNat + 0x7000 - 8 := by
  have htop := h.toNat_stackTop
  rw [UInt64.toNat_sub_of_le _ _
    (UInt64.le_iff_toNat_le.mpr (by rw [UInt32.toNat_toUInt64]; change 8 ≤ _; omega)), UInt32.toNat_toUInt64,
    htop]
  rfl

theorem isFrame_tables :
    IsFrame k.pml4Table.toUInt64 ∧ IsFrame k.pdptTable.toUInt64 ∧ IsFrame k.pdTable.toUInt64 := by
  have h1 := h.aligned
  have h2 := h.bss
  simp only [isFrame_iff, UInt32.toNat_toUInt64, h.toNat_pdptTable, h.toNat_pdTable, pml4Table]
  omega

theorem tables_ne : k.pml4Table.toUInt64 ≠ k.pdptTable.toUInt64 ∧ k.pml4Table.toUInt64 ≠ k.pdTable.toUInt64 ∧
    k.pdptTable.toUInt64 ≠ k.pdTable.toUInt64 := by
  simp only [ne_eq, ← UInt64.toNat_inj, UInt32.toNat_toUInt64, h.toNat_pdptTable, h.toNat_pdTable, pml4Table]
  omega

theorem not_inStack {a : Nat} (ha : k.InTables a) : ¬ k.InStack a := by
  rw [InTables] at ha
  rw [InStack, h.toNat_stackTop]
  omega

theorem not_inBoot {a : Nat} (ha : k.rodata.toNat ≤ a ∧ a < k.rodata.toNat + 34) : ¬ k.InBoot a := by
  have := h.rodata
  rw [InBoot, InStack, InTables, h.toNat_stackTop]
  omega

end BootImage.Linked

/-! ## Routines -/

/-- What the routines keep, beside the bytes that they may change. -/
structure BootKept (changed : Nat → Prop) (c₀ c : Cpu32) : Prop where
  edi : c.gpr .edi = c₀.gpr .edi
  esi : c.gpr .esi = c₀.gpr .esi
  cr0 : c.cr0 = c₀.cr0
  cr3 : c.cr3 = c₀.cr3
  cr4 : c.cr4 = c₀.cr4
  efer : c.efer = c₀.efer
  interrupts : c.eflags.toNat.testBit 9 = c₀.eflags.toNat.testBit 9
  mem : ∀ a, ¬ changed a → c.mem a = c₀.mem a

theorem BootKept.trans {changed : Nat → Prop} {c₀ c₁ c₂ : Cpu32} (h : BootKept changed c₀ c₁)
    (h' : BootKept changed c₁ c₂) : BootKept changed c₀ c₂ :=
  ⟨h'.edi.trans h.edi, h'.esi.trans h.esi, h'.cr0.trans h.cr0, h'.cr3.trans h.cr3, h'.cr4.trans h.cr4,
    h'.efer.trans h.efer, h'.interrupts.trans h.interrupts, fun a ha => (h'.mem a ha).trans (h.mem a ha)⟩

theorem BootKept.mono {changed changed' : Nat → Prop} {c₀ c : Cpu32} (h : BootKept changed c₀ c)
    (hsub : ∀ a, changed a → changed' a) :
    BootKept changed' c₀ c := { h with mem := fun a ha => h.mem a fun h' => ha (hsub a h') }

/-- In a routine that returns to `back`. -/
structure BootCalled (k : BootImage) (back : UInt32) (c : Cpu32) : Prop where
  esp : c.gpr .esp = k.stackTop - 4
  top : c.mem.load32 (k.stackTop - 4).toNat = back
  cr0 : c.cr0.toNat.testBit 31 = false

section
variable {k : BootImage} {x : Processor} {fetch : Nat → Option (Instr × UInt32)} {P : End → Prop} {c c' : Cpu32}
  {l : BootLabel} {n : Nat} {i : Instr} {back : UInt32}

theorem next_place (hk : k.Loaded fetch) (hi : (bootCode k l)[n]? = some i) (heip : c.eip = k.place l n)
    (hflat : (c.touched x).translate x c.eip = some c.eip.toNat) :
    step32 x fetch c = exec x ((c.touched x).goTo (k.place l (n + 1))) i := by
  have hfetch : fetch c.eip.toNat = some (i, k.place l (n + 1) - k.place l n) := by
    rw [heip]
    exact hk l n i hi
  have hnext : c.eip + (k.place l (n + 1) - k.place l n) = k.place l (n + 1) := by
    rw [heip, UInt32.add_comm, UInt32.sub_add_cancel]
  rw [step32_of_fetch hflat hfetch, hnext]

/-- One instruction, before there is paging. -/
theorem eventually_instr (hk : k.Loaded fetch) (heip : c.eip = k.place l n) (hcr0 : c.cr0.toNat.testBit 31 = false)
    (hi : (bootCode k l)[n]? = some i) (hexec : exec x (c.goTo (k.place l (n + 1))) i = .next c')
    (h : Eventually (step32 x fetch) P c') : Eventually (step32 x fetch) P c := by
  have htouched : c.touched x = c := Cpu32.touched_of_not_paging hcr0
  refine .next ((next_place hk hi heip ?_).trans ?_) h
  · rw [htouched]
    exact Cpu32.flat_of_not_paging hcr0 _ c.eip.toNat_lt
  · rw [htouched]
    exact hexec

theorem exec_push (hcr0 : c.cr0.toNat.testBit 31 = false) {v sp : UInt32} (hsp : c.gpr .esp - 4 = sp)
    (hroom : sp.toNat + 4 ≤ 2 ^ 32) :
    ofOption (c.push x v) = .next ((c.withMem (c.mem.store32 sp.toNat v)).set .esp sp) := by
  subst hsp
  rw [(Cpu32.flat_of_not_paging hcr0).push (Nat.le_refl _) v hroom]
  rfl

theorem exec_pop (hcr0 : c.cr0.toNat.testBit 31 = false) {sp : UInt32} (hsp : c.gpr .esp = sp)
    (hroom : sp.toNat + 4 ≤ 2 ^ 32) (f : UInt32 × Cpu32 → Cpu32) :
    ofOption ((c.pop x).map f) = .next (f (c.mem.load32 sp.toNat, c.set .esp (sp + 4))) := by
  subst hsp
  rw [(Cpu32.flat_of_not_paging hcr0).pop (Nat.le_refl _) hroom]
  rfl

/-- At `eip`, with the rest as a routine that has started in `c` leaves it. -/
structure BootLeft (changed : Nat → Prop) (eip : UInt32) (c c' : Cpu32) : Prop extends BootKept changed c c' where
  eip : c'.eip = eip

/-- With paging or without. -/
theorem eventually_ret_flat (hk : k.Loaded fetch) (hlinked : k.Linked) {d : Cpu32} (hd : c.touched x = d)
    (hflat : d.Flat x (2 ^ 30)) (hesp : d.gpr .esp = k.stackTop - 4)
    (htop : d.mem.load32 (k.stackTop - 4).toNat = back) (heip : c.eip = k.place l n)
    (hi : (bootCode k l)[n]? = some .ret)
    (h : Eventually (step32 x fetch) P ((d.set .esp k.stackTop).goTo back)) :
    Eventually (step32 x fetch) P c := by
  have hbss := hlinked.bss
  have hrodata := hlinked.rodata
  have hplace := (hlinked.place l n (List.getElem?_eq_some_iff.mp hi).1).2
  have hsp : (k.stackTop - 4).toNat = k.bss.toNat + 0x7000 - 4 := hlinked.toNat_stackTop_sub (by decide)
  have heip' : (c.touched x).translate x c.eip = some c.eip.toNat := by
    rw [hd]
    refine hflat _ ?_
    rw [heip]
    omega
  have hpop : (d.goTo (k.place l (n + 1))).pop x =
      some (back, (d.goTo (k.place l (n + 1))).set .esp k.stackTop) := by
    have hflat' : (d.goTo (k.place l (n + 1))).Flat x (2 ^ 30) := hflat
    have hesp' : (d.goTo (k.place l (n + 1))).gpr .esp = k.stackTop - 4 := hesp
    have hmem : (d.goTo (k.place l (n + 1))).mem = d.mem := rfl
    have hroom : ((d.goTo (k.place l (n + 1))).gpr .esp).toNat + 4 ≤ 2 ^ 30 := by
      rw [hesp', hsp]
      omega
    rw [hflat'.pop (by decide) hroom, hesp', hmem, htop, UInt32.sub_add_cancel]
  refine .next ((next_place hk hi heip heip').trans ?_) h
  rw [hd, exec, hpop]
  rfl

theorem eventually_ret (hk : k.Loaded fetch) (hlinked : k.Linked) (hc : BootCalled k back c)
    (heip : c.eip = k.place l n) (hi : (bootCode k l)[n]? = some .ret)
    (h : Eventually (step32 x fetch) P ((c.set .esp k.stackTop).goTo back)) : Eventually (step32 x fetch) P c := by
  have hflat : c.Flat x (2 ^ 32) := Cpu32.flat_of_not_paging hc.cr0
  exact eventually_ret_flat hk hlinked (Cpu32.touched_of_not_paging hc.cr0)
    (fun a ha => hflat a (by omega)) hc.esp hc.top heip hi h

theorem eventually_taken (hk : k.Loaded fetch) (heip : c.eip = k.place l n)
    (hcr0 : c.cr0.toNat.testBit 31 = false) {condition : Condition} {target : UInt32}
    (hi : (bootCode k l)[n]? = some (.jumpIf condition target)) (hholds : c.holds condition = true)
    (h : Eventually (step32 x fetch) P (c.goTo target)) : Eventually (step32 x fetch) P c := by
  have hexec : exec x (c.goTo (k.place l (n + 1))) (.jumpIf condition target) = .next (c.goTo target) :=
    congrArg Outcome.next (if_pos hholds)
  exact eventually_instr hk heip hcr0 hi hexec h

theorem eventually_passed (hk : k.Loaded fetch) (heip : c.eip = k.place l n)
    (hcr0 : c.cr0.toNat.testBit 31 = false) {condition : Condition} {target : UInt32}
    (hi : (bootCode k l)[n]? = some (.jumpIf condition target)) (hholds : c.holds condition = false)
    (h : Eventually (step32 x fetch) P (c.goTo (k.place l (n + 1)))) : Eventually (step32 x fetch) P c := by
  have hne : ¬ c.holds condition = true := by rw [hholds]; exact Bool.false_ne_true
  have hexec : exec x (c.goTo (k.place l (n + 1))) (.jumpIf condition target) =
      .next (c.goTo (k.place l (n + 1))) :=
    congrArg Outcome.next (if_neg hne)
  exact eventually_instr hk heip hcr0 hi hexec h

theorem toUInt8_movAl (v : UInt32) (code : UInt8) : (v &&& 0xFFFFFF00 ||| code.toUInt32).toUInt8 = code := by
  have hcode := code.toNat_lt
  refine UInt8.toNat_inj.mp ?_
  rw [UInt32.toNat_toUInt8, UInt32.toNat_or, UInt32.toNat_and, Nat.or_mod_two_pow (n := 8),
    Nat.and_mod_two_pow (n := 8)]
  have hmask : (0xFFFFFF00 : UInt32).toNat % 2 ^ 8 = 0 := by decide
  rw [hmask, Nat.and_zero, Nat.zero_or, UInt8.toNat_toUInt32, Nat.mod_eq_of_lt hcode]

/-- The way to `error_halt`. -/
theorem eventually_failed (hk : k.Loaded fetch) (heip : c.eip = k.entry l)
    (hcr0 : c.cr0.toNat.testBit 31 = false) {code : UInt8}
    (hcode : bootCode k l = [.movAl code, .jump (k.entry .errorHalt)])
    (h : ∀ c', BootLeft (fun _ => False) (k.entry .errorHalt) c c' → (c'.gpr .eax).toUInt8 = code →
      Eventually (step32 x fetch) P c') :
    Eventually (step32 x fetch) P c := by
  have hcode0 : (bootCode k l)[0]? = some (.movAl code) := by rw [hcode]; rfl
  have hcode1 : (bootCode k l)[1]? = some (.jump (k.entry .errorHalt)) := by rw [hcode]; rfl
  refine eventually_instr hk heip hcr0 hcode0 rfl ?_
  refine eventually_instr hk rfl hcr0 hcode1 rfl ?_
  exact h _ ⟨⟨rfl, rfl, rfl, rfl, rfl, rfl, rfl, fun _ _ => rfl⟩, rfl⟩ (toUInt8_movAl ..)

theorem eventually_checkMultiboot (hk : k.Loaded fetch) (hlinked : k.Linked) (hc : BootCalled k back c)
    (heip : c.eip = k.entry .checkMultiboot)
    (hok : c.gpr .eax = 0x36d76289 → ∀ c', BootLeft (fun _ => False) back c c' → c'.gpr .esp = k.stackTop →
      Eventually (step32 x fetch) P c')
    (hfail : c.gpr .eax ≠ 0x36d76289 → ∀ c', BootLeft (fun _ => False) (k.entry .errorHalt) c c' →
      (c'.gpr .eax).toUInt8 = '0'.toUInt8 →
      Eventually (step32 x fetch) P c') : Eventually (step32 x fetch) P c := by
  refine eventually_instr hk heip hc.cr0 rfl rfl ?_
  have hflags :=
    Cpu32.interrupts_arithmetic x (c.goTo (k.place .checkMultiboot 1)) (c.gpr .eax == 0x36d76289)
      (decide (c.gpr .eax < 0x36d76289))
    (c.gpr .eax) 0x36d76289
  have hholds :=
    (Cpu32.holds_arithmetic x (c.goTo (k.place .checkMultiboot 1)) (c.gpr .eax == 0x36d76289)
      (decide (c.gpr .eax < 0x36d76289))
    (c.gpr .eax) 0x36d76289).2.1
  by_cases hmagic : c.gpr .eax = 0x36d76289
  · refine eventually_passed hk rfl hc.cr0 rfl (hholds.trans (by rw [beq_iff_eq.mpr hmagic, Bool.not_true])) ?_
    refine eventually_ret hk hlinked ⟨hc.esp, hc.top, hc.cr0⟩ rfl rfl ?_
    exact hok hmagic _ ⟨⟨rfl, rfl, rfl, rfl, rfl, rfl, hflags, fun _ _ => rfl⟩, rfl⟩ rfl
  · refine eventually_taken hk rfl hc.cr0 rfl (hholds.trans
      (by rw [beq_eq_false_iff_ne.mpr hmagic, Bool.not_false])) ?_
    refine eventually_failed hk rfl hc.cr0 rfl fun c' hleft hcode =>
      hfail hmagic c' ⟨.trans ?_ hleft.toBootKept, hleft.eip⟩ hcode
    exact ⟨rfl, rfl, rfl, rfl, rfl, rfl, hflags, fun _ _ => rfl⟩

/-! ### `check_cpuid` -/

/-- Of memory only the word behind the return address has changed. -/
structure BootScratch (k : BootImage) (c : Cpu32) (m : Memory) : Prop where
  mem : ∀ a, ¬ k.InStack a → m a = c.mem a
  top : m.load32 (k.stackTop - 4).toNat = c.mem.load32 (k.stackTop - 4).toNat

theorem bootScratch_store32 (hlinked : k.Linked) (c : Cpu32) (v : UInt32) :
    BootScratch k c (c.mem.store32 (k.stackTop - 8).toNat v) := by
  have h4 : (k.stackTop - 4).toNat = k.bss.toNat + 0x7000 - 4 := hlinked.toNat_stackTop_sub (by decide)
  have h8 : (k.stackTop - 8).toNat = k.bss.toNat + 0x7000 - 8 := hlinked.toNat_stackTop_sub (by decide)
  constructor
  · intro a ha
    rw [BootImage.InStack, hlinked.toNat_stackTop] at ha
    exact Memory.store32_of_lt c.mem v (by rw [h8]; omega)
  · exact Memory.load32_store32_of_disjoint c.mem v (by rw [h4, h8]; omega)

/-- Nothing but `esp` has moved, and back. -/
theorem set_esp_back {v : UInt32} (h : c.gpr .esp = v) (sp : UInt32) : (c.set .esp sp).set .esp v = c := by
  subst h
  rw [Cpu32.set, Cpu32.set, Function.update_idem, Function.update_eq_self]

section
variable (hk : k.Loaded fetch) (hlinked : k.Linked) (hc : BootCalled k back c) (heip : c.eip = k.place l n)
include hk hlinked hc heip

/-- A word goes to the stack and comes back. -/
theorem eventually_pushPop {v : UInt32} {push pop : Instr} {f : UInt32 × Cpu32 → Cpu32}
    (h0 : (bootCode k l)[n]? = some push) (h1 : (bootCode k l)[n + 1]? = some pop)
    (hpush : exec x (c.goTo (k.place l (n + 1))) push = ofOption ((c.goTo (k.place l (n + 1))).push x v))
    (hpop : ∀ c', exec x c' pop = ofOption ((c'.pop x).map f))
    (h : ∀ m, BootScratch k c m → Eventually (step32 x fetch) P
      (f (v, (c.withMem m).goTo (k.place l (n + 2))))) : Eventually (step32 x fetch) P c := by
  have hbss := hlinked.bss
  have h8 : (k.stackTop - 8).toNat = k.bss.toNat + 0x7000 - 8 := hlinked.toNat_stackTop_sub (by decide)
  have hroom : (k.stackTop - 8).toNat + 4 ≤ 2 ^ 32 := by
    rw [h8]
    omega
  have hsp : c.gpr .esp - 4 = k.stackTop - 8 := by
    rw [hc.esp]
    grind
  have hback : k.stackTop - 8 + 4 = k.stackTop - 4 := by grind
  have hscratch := bootScratch_store32 hlinked c v
  have hload := Memory.load32_store32 c.mem (k.stackTop - 8).toNat v
  generalize k.stackTop - 8 = sp at *
  have hpush' := hpush.trans (exec_push (c := c.goTo (k.place l (n + 1))) hc.cr0 hsp hroom)
  refine eventually_instr hk heip hc.cr0 h0 hpush' ?_
  have hstate := set_esp_back (c := (c.withMem (c.mem.store32 sp.toNat v)).goTo (k.place l (n + 2))) hc.esp sp
  have hpop' : exec x ((((c.goTo (k.place l (n + 1))).withMem (c.mem.store32 sp.toNat v)).set .esp sp).goTo
    (k.place l (n + 2))) pop =
      .next (f (v, (c.withMem (c.mem.store32 sp.toNat v)).goTo (k.place l (n + 2)))) := by
    rw [hpop]
    refine (exec_pop (x := x) ?_ ?_ hroom f).trans ?_
    · exact hc.cr0
    · rfl
    · rw [hback]
      exact congrArg (fun p => Outcome.next (f p)) (Prod.ext hload hstate)
  exact eventually_instr hk rfl hc.cr0 h1 hpop' (h _ hscratch)

end

theorem eventually_checkCpuid (hk : k.Loaded fetch) (hlinked : k.Linked) (hc : BootCalled k back c)
    (heip : c.eip = k.entry .checkCpuid)
    (hok : x.writable.toNat.testBit 21 = true → ∀ c', BootLeft k.InStack back c c' → c'.gpr .esp = k.stackTop →
      Eventually (step32 x fetch) P c')
    (hfail : x.writable.toNat.testBit 21 = false → ∀ c', BootLeft k.InStack (k.entry .errorHalt) c c' →
      (c'.gpr .eax).toUInt8 = '1'.toUInt8 →
      Eventually (step32 x fetch) P c') : Eventually (step32 x fetch) P c := by
  -- what is left to do with the flags in `eax` and `ecx`
  have hcompare : ∀ d, BootCalled k back d → BootLeft k.InStack (k.place .checkCpuid 10) c d →
      (d.gpr .eax = d.gpr .ecx ↔ x.writable.toNat.testBit 21 = false) → Eventually (step32 x fetch) P d := by
    intro d hd hleft hiff
    refine eventually_instr hk hleft.eip hd.cr0 rfl rfl ?_
    have hflags :=
      Cpu32.interrupts_arithmetic x (d.goTo (k.place .checkCpuid 11)) (d.gpr .eax == d.gpr .ecx)
        (decide (d.gpr .eax < d.gpr .ecx))
      (d.gpr .eax) (d.gpr .ecx)
    have hholds :=
      (Cpu32.holds_arithmetic x (d.goTo (k.place .checkCpuid 11)) (d.gpr .eax == d.gpr .ecx)
        (decide (d.gpr .eax < d.gpr .ecx))
      (d.gpr .eax) (d.gpr .ecx)).1
    by_cases hbit : x.writable.toNat.testBit 21 = false
    · refine eventually_taken hk rfl hd.cr0 rfl (hholds.trans (beq_iff_eq.mpr (hiff.mpr hbit))) ?_
      refine eventually_failed hk rfl hd.cr0 rfl fun c' hleft' hcode => hfail hbit c' ⟨?_, hleft'.eip⟩ hcode
      refine .trans (hleft.toBootKept.trans ?_) (hleft'.toBootKept.mono fun _ h => h.elim)
      exact ⟨rfl, rfl, rfl, rfl, rfl, rfl, hflags, fun _ _ => rfl⟩
    · refine eventually_passed hk rfl hd.cr0 rfl (hholds.trans
        (beq_eq_false_iff_ne.mpr fun h => hbit (hiff.mp h))) ?_
      refine eventually_ret hk hlinked ⟨hd.esp, hd.top, hd.cr0⟩ rfl rfl ?_
      refine hok (by simpa using hbit) _ ⟨hleft.toBootKept.trans ?_, rfl⟩ rfl
      exact ⟨rfl, rfl, rfl, rfl, rfl, rfl, hflags, fun _ _ => rfl⟩
  refine eventually_pushPop hk hlinked hc heip rfl rfl rfl (fun _ => rfl) fun m₁ hm₁ => ?_
  refine eventually_instr hk rfl hc.cr0 rfl rfl ?_
  refine eventually_instr hk rfl hc.cr0 rfl rfl ?_
  refine eventually_pushPop hk hlinked ⟨hc.esp, hm₁.top.trans hc.top,
    hc.cr0⟩ rfl rfl rfl rfl (fun _ => rfl) fun m₂ hm₂ => ?_
  refine eventually_pushPop hk hlinked ⟨hc.esp, hm₂.top.trans (hm₁.top.trans hc.top),
    hc.cr0⟩ rfl rfl rfl rfl (fun _ => rfl) fun m₃ hm₃ => ?_
  refine eventually_pushPop hk hlinked ⟨hc.esp, hm₃.top.trans (hm₂.top.trans (hm₁.top.trans hc.top)),
    hc.cr0⟩ rfl rfl rfl rfl (fun _ => rfl)
    fun m₄ hm₄ => ?_
  refine hcompare _ ⟨hc.esp, hm₄.top.trans (hm₃.top.trans (hm₂.top.trans (hm₁.top.trans hc.top))), hc.cr0⟩
    ⟨⟨rfl, rfl, rfl, rfl, rfl, rfl, ?_, fun a ha => ?_⟩, rfl⟩ ?_
  · refine (Cpu32.testBit_setFlags x _ _ (by decide)).trans ?_
    by_cases hwritable : x.writable.toNat.testBit 9 || (0x8D5 : Nat).testBit 9
    · rw [if_pos hwritable]
      exact Cpu32.testBit_pushed _ (by decide)
    · rw [if_neg hwritable]
      refine (Cpu32.testBit_setFlags x _ _ (by decide)).trans ((if_neg hwritable).trans ?_)
      exact Cpu32.interrupts_arithmetic ..
  · exact (hm₄.mem a ha).trans ((hm₃.mem a ha).trans ((hm₂.mem a ha).trans (hm₁.mem a ha)))
  · exact Cpu32.pushed_flipped x c ((c.eflags &&& 0xFCFFFF) ^^^ 0x200000 == 0) false
      (c.eflags &&& 0xFCFFFF) 0x200000

theorem eventually_checkLongMode (hk : k.Loaded fetch) (hlinked : k.Linked) (hc : BootCalled k back c)
    (heip : c.eip = k.entry .checkLongMode)
    (hok : hasLongMode x = true → ∀ c', BootLeft (fun _ => False) back c c' → c'.gpr .esp = k.stackTop →
      Eventually (step32 x fetch) P c')
    (hfail : hasLongMode x = false → ∀ c', BootLeft (fun _ => False) (k.entry .errorHalt) c c' →
      (c'.gpr .eax).toUInt8 = '2'.toUInt8 →
      Eventually (step32 x fetch) P c') : Eventually (step32 x fetch) P c := by
  refine eventually_instr hk heip hc.cr0 rfl rfl ?_
  refine eventually_instr hk rfl hc.cr0 rfl rfl ?_
  refine eventually_instr hk rfl hc.cr0 rfl rfl ?_
  by_cases hleaf : x.cpuid 0x80000000 .eax < 0x80000001
  · refine eventually_taken hk rfl hc.cr0 rfl ((Cpu32.holds_arithmetic ..).2.2.trans (decide_eq_true hleaf)) ?_
    refine eventually_failed hk rfl hc.cr0 rfl fun c' hleft hcode => hfail ?_ c' ⟨.trans ?_ hleft.toBootKept,
      hleft.eip⟩ hcode
    · rw [hasLongMode, decide_eq_false (UInt32.not_le.mpr hleaf), Bool.false_and]
    · exact ⟨rfl, rfl, rfl, rfl, rfl, rfl, Cpu32.interrupts_arithmetic .., fun _ _ => rfl⟩
  refine eventually_passed hk rfl hc.cr0 rfl ((Cpu32.holds_arithmetic ..).2.2.trans (decide_eq_false hleaf)) ?_
  refine eventually_instr hk rfl hc.cr0 rfl rfl ?_
  refine eventually_instr hk rfl hc.cr0 rfl rfl ?_
  refine eventually_instr hk rfl hc.cr0 rfl rfl ?_
  have hmask : (bitAt 29).toUInt32 = 0x20000000 := by decide
  by_cases hbit : x.cpuid 0x80000001 .edx &&& (bitAt 29).toUInt32 = 0
  · refine eventually_taken hk rfl hc.cr0 rfl ((Cpu32.holds_arithmetic ..).1.trans (beq_iff_eq.mpr hbit)) ?_
    refine eventually_failed hk rfl hc.cr0 rfl fun c' hleft hcode => hfail ?_ c' ⟨.trans ?_ hleft.toBootKept,
      hleft.eip⟩ hcode
    · rw [hasLongMode, ← hmask, hbit, bne_self_eq_false, Bool.and_false]
    · exact ⟨rfl, rfl, rfl, rfl, rfl, rfl,
        (Cpu32.interrupts_arithmetic ..).trans (Cpu32.interrupts_arithmetic ..), fun _ _ => rfl⟩
  · refine eventually_passed hk rfl hc.cr0 rfl ((Cpu32.holds_arithmetic ..).1.trans
      (beq_eq_false_iff_ne.mpr hbit)) ?_
    refine eventually_ret hk hlinked ⟨hc.esp, hc.top, hc.cr0⟩ rfl rfl (hok ?_ _ ⟨?_, rfl⟩ rfl)
    · rw [hasLongMode, ← hmask, decide_eq_true (UInt32.not_lt.mp hleaf), Bool.true_and]
      exact bne_iff_ne.mpr hbit
    · exact ⟨rfl, rfl, rfl, rfl, rfl, rfl,
        (Cpu32.interrupts_arithmetic ..).trans (Cpu32.interrupts_arithmetic ..), fun _ _ => rfl⟩

/-! ### `setup_page_tables` -/

/-- The tables behind `n` rounds of the loop. -/
structure BootTablesUpTo (k : BootImage) (n : Nat) (mem : Memory) : Prop where
  pml4 : ∀ i, readEntry mem k.pml4Table.toUInt64 i = if i = 0 then k.pdptTable.toUInt64 ||| 0b11 else 0
  pdpt : ∀ i, readEntry mem k.pdptTable.toUInt64 i = if i = 0 then k.pdTable.toUInt64 ||| 0b11 else 0
  pd : ∀ i : Fin 512, readEntry mem k.pdTable.toUInt64 i = if i.val < n then identityEntry i else 0

theorem BootTablesUpTo.links (hlinked : k.Linked) {mem : Memory} (h : ∀ a, k.InTables a → mem a = 0) :
    BootTablesUpTo k 0 ((mem.store32 k.pml4Table.toNat (k.pdptTable ||| 0b11)).store32 k.pdptTable.toNat
      (k.pdTable ||| 0b11)) := by
  obtain ⟨h1, h2, h3⟩ := hlinked.isFrame_tables
  obtain ⟨h12, h13, h23⟩ := hlinked.tables_ne
  have hzero {t : UInt32} (ht : k.bss.toNat ≤ t.toNat ∧ t.toNat + 4096 ≤ k.bss.toNat + 0x3000)
      (i : Fin 512) : readEntry mem t.toUInt64 i = 0 := by
    refine Memory.load64_eq_zero fun n hn => h _ ?_
    rw [UInt32.toNat_toUInt64, BootImage.InTables]
    omega
  have hz1 := hzero (t := k.pml4Table) (by rw [BootImage.pml4Table]; omega)
  have hz2 := hzero (t := k.pdptTable) (by rw [hlinked.toNat_pdptTable]; omega)
  have hz3 := hzero (t := k.pdTable) (by rw [hlinked.toNat_pdTable]; omega)
  have hstore (m : Memory) (t w : UInt32) : m.store32 t.toNat w =
      m.store32 (t.toUInt64.toNat + 8 * (0 : Fin 512).val) w := by
    rw [UInt32.toNat_toUInt64]
    rfl
  rw [hstore _ k.pml4Table, hstore _ k.pdptTable]
  refine ⟨fun i => ?_, fun i => ?_, fun i => ?_⟩
  · rw [readEntry_store32_of_ne h2 h1 fun hc => h12 hc.1]
    by_cases hi : i = 0
    · rw [hi, if_pos rfl]
      exact Memory.load64_store32 _ (hz1 0)
    · rw [if_neg hi, readEntry_store32_of_ne h1 h1 fun hc => hi hc.2, hz1]
  · by_cases hi : i = 0
    · rw [hi, if_pos rfl]
      refine Memory.load64_store32 _ ?_
      exact (readEntry_store32_of_ne h1 h2 fun hc => h12 hc.1.symm).trans (hz2 0)
    · rw [if_neg hi, readEntry_store32_of_ne h2 h2 fun hc => hi hc.2,
        readEntry_store32_of_ne h1 h2 fun hc => h12 hc.1.symm, hz2]
  · rw [readEntry_store32_of_ne h2 h3 fun hc => h23 hc.1.symm,
      readEntry_store32_of_ne h1 h3 fun hc => h13 hc.1.symm, hz3]
    rfl

theorem BootTablesUpTo.store (hlinked : k.Linked) {mem : Memory} (h : BootTablesUpTo k n mem) (hn : n < 512) :
    BootTablesUpTo k (n + 1)
    (mem.store32 (k.pdTable.toNat + 8 * n) (UInt32.ofNat (0x200000 * n) ||| 0b10000011)) := by
  obtain ⟨h1, h2, h3⟩ := hlinked.isFrame_tables
  obtain ⟨-, h13, h23⟩ := hlinked.tables_ne
  have haddr : k.pdTable.toNat + 8 * n = k.pdTable.toUInt64.toNat + 8 * (⟨n, hn⟩ : Fin 512).val := by
    rw [UInt32.toNat_toUInt64]
  have hentry : (UInt32.ofNat (0x200000 * n) ||| 0b10000011).toUInt64 = identityEntry ⟨n, hn⟩ := by
    have hpage : (UInt32.ofNat (0x200000 * n)).toUInt64 = UInt64.ofNat (0x200000 * n) := by
      refine UInt64.toNat_inj.mp ?_
      rw [UInt32.toNat_toUInt64, UInt32.toNat_ofNat_of_lt' (by change _ < 2 ^ 32; omega),
        UInt64.toNat_ofNat_of_lt' (by change _ < 2 ^ 64; omega)]
    rw [identityEntry, UInt32.toUInt64_or, hpage]
    rfl
  rw [haddr]
  refine ⟨fun i => ?_, fun i => ?_, fun i => ?_⟩
  · rw [readEntry_store32_of_ne h3 h1 fun hc => h13 hc.1, h.pml4]
  · rw [readEntry_store32_of_ne h3 h2 fun hc => h23 hc.1, h.pdpt]
  · by_cases hi : i = ⟨n, hn⟩
    · rw [hi, if_pos (Nat.lt_succ_self n), ← hentry]
      exact Memory.load64_store32 _ ((h.pd ⟨n, hn⟩).trans (if_neg (Nat.lt_irrefl n)))
    · have hne : i.val ≠ n := fun hc => hi (Fin.ext hc)
      rw [readEntry_store32_of_ne h3 h3 fun hc => hi hc.2, h.pd]
      exact if_congr (by omega) rfl rfl

/-- The three tables under which `boot.S` turns paging on. -/
def BootImage.Tables (k : BootImage) (mem : Memory) : Prop :=
  BootTables mem k.pml4Table.toUInt64 k.pdptTable.toUInt64 k.pdTable.toUInt64

theorem BootTablesUpTo.boot (hlinked : k.Linked) {mem : Memory} (h : BootTablesUpTo k 512 mem) : k.Tables mem := by
  obtain ⟨-, h2, h3⟩ := hlinked.isFrame_tables
  refine ⟨fun i => ?_, fun i => ?_, fun i => ?_⟩
  · rw [h.pml4, apply_ite (· &&& pteUntouched), frame_untouched h2 (by decide), UInt64.zero_and]
  · rw [h.pdpt, apply_ite (· &&& pteUntouched), frame_untouched h3 (by decide), UInt64.zero_and]
  · rw [h.pd, if_pos i.isLt, identityEntry, show 0x200000 * i.val = 512 * i.val * 4096 by omega]
    exact frame_untouched (isFrame_page (by omega)) (by decide)

/-- In one of the tables. -/
def BootImage.IsTable (k : BootImage) (t : UInt64) : Prop :=
  t = k.pml4Table.toUInt64 ∨ t = k.pdptTable.toUInt64 ∨ t = k.pdTable.toUInt64

theorem BootImage.Linked.isTable (hlinked : k.Linked) {t : UInt64} (ht : k.IsTable t) :
    k.bss.toNat ≤ t.toNat ∧ t.toNat + 4096 ≤ k.bss.toNat + 0x3000 ∧ t.toNat % 4096 = 0 := by
  have haligned := hlinked.aligned
  have hpdpt := hlinked.toNat_pdptTable
  have hpd := hlinked.toNat_pdTable
  have hpml4 : k.pml4Table.toNat = k.bss.toNat := rfl
  rcases ht with rfl | rfl | rfl <;> rw [UInt32.toNat_toUInt64] <;> omega

theorem tables_of_untouched {mem mem' : Memory} (h : k.Tables mem)
    (hread : ∀ t, k.IsTable t → ∀ i, readEntry mem' t i &&& pteUntouched = readEntry mem t i &&& pteUntouched) :
    k.Tables mem' :=
  ⟨fun i => (hread _ (Or.inl rfl) i).trans (h.pml4 i), fun i => (hread _ (Or.inr (Or.inl rfl)) i).trans (h.pdpt i),
    fun i => (hread _ (Or.inr (Or.inr rfl)) i).trans (h.pd i)⟩

theorem readEntry_inTables (hlinked : k.Linked) {mem mem' : Memory}
    (hmem : ∀ a, k.InTables a → mem' a = mem a) {t : UInt64} (ht : k.IsTable t) (i : Fin 512) :
    readEntry mem' t i = readEntry mem t i := by
  obtain ⟨hlow, hhigh, -⟩ := hlinked.isTable ht
  exact readEntry_congr (fun a h1 h2 => hmem a ⟨by omega, by omega⟩) i

theorem tables_congr (hlinked : k.Linked) {mem mem' : Memory} (h : k.Tables mem)
    (hmem : ∀ a, k.InTables a → mem' a = mem a) :
    k.Tables mem' :=
  tables_of_untouched h fun _ ht i => congrArg (· &&& pteUntouched) (readEntry_inTables hlinked hmem ht i)

theorem BootTablesUpTo.congr (hlinked : k.Linked) {mem mem' : Memory} (h : BootTablesUpTo k n mem)
    (hmem : ∀ a, k.InTables a → mem' a = mem a) :
    BootTablesUpTo k n mem' := by
  refine ⟨fun i => ?_, fun i => ?_, fun i => ?_⟩
  · rw [readEntry_inTables hlinked hmem (Or.inl rfl), h.pml4]
  · rw [readEntry_inTables hlinked hmem (Or.inr (Or.inl rfl)), h.pdpt]
  · rw [readEntry_inTables hlinked hmem (Or.inr (Or.inr rfl)), h.pd]

/-- Walks through the tables mark the tables only, and leave them what they are. -/
theorem touch_tables (hlinked : k.Linked) (hmarks : MarksWalks x) (hcr3 : c.cr3 = k.pml4Table)
    (h : k.Tables c.mem) :
    k.Tables (x.touch c) ∧ ∀ a, ¬ k.InTables a → x.touch c a = c.mem a := by
  obtain ⟨-, h2, h3⟩ := hlinked.isFrame_tables
  have hbyte (a : Nat) : x.touch c a = c.mem a ∨
      k.InTables a ∧ a % 8 = 0 ∧ ∃ bits, x.touch c a = c.mem a ||| bits &&& 0x60 := by
    refine (hmarks c a).imp_right fun hmarked => ?_
    obtain ⟨v, place, hplace, -, ha, hbits⟩ := hmarked
    rw [hcr3] at hplace
    obtain ⟨hlow, hhigh, haligned⟩ := hlinked.isTable (h.walk_tables h2 h3 hplace)
    have hindex := place.2.isLt
    exact ⟨⟨by omega, by omega⟩, by omega, hbits⟩
  refine ⟨tables_of_untouched h fun t ht i => ?_, fun a ha => (hbyte a).resolve_right fun hc => ha hc.1⟩
  obtain ⟨-, -, haligned⟩ := hlinked.isTable ht
  refine readEntry_touched ?_ fun n hn => (hbyte _).resolve_right fun hc => ?_
  · rcases hbyte (t.toNat + 8 * i.val) with hsame | ⟨-, -, hbits⟩
    · refine ⟨0, hsame.trans ?_⟩
      rw [UInt8.zero_and, UInt8.or_zero]
    · exact hbits
  · have := hc.2.1
    omega

theorem eventually_store (hk : k.Loaded fetch) (heip : c.eip = k.place l n) (hcr0 : c.cr0.toNat.testBit 31 = false)
    (hi : (bootCode k l)[n]? = some i) {a v : UInt32}
    (hexec : exec x (c.goTo (k.place l (n + 1))) i = ofOption ((c.goTo (k.place l (n + 1))).write32 x a v))
    (hroom : a.toNat + 4 ≤ 2 ^ 32)
    (h : Eventually (step32 x fetch) P ((c.withMem (c.mem.store32 a.toNat v)).goTo (k.place l (n + 1)))) :
    Eventually (step32 x fetch) P c := by
  have hflat : (c.goTo (k.place l (n + 1))).Flat x (2 ^ 32) := Cpu32.flat_of_not_paging hcr0
  rw [hflat.write32 (Nat.le_refl _) v hroom] at hexec
  exact eventually_instr hk heip hcr0 hi hexec h

theorem load_top (hlinked : k.Linked) {m m' : Memory} (hm : ∀ a, ¬ k.InTables a → m a = m' a) :
    m.load32 (k.stackTop - 4).toNat = m'.load32 (k.stackTop - 4).toNat := by
  have h4 : (k.stackTop - 4).toNat = k.bss.toNat + 0x7000 - 4 := hlinked.toNat_stackTop_sub (by decide)
  refine Memory.load32_congr fun i hi => hm _ ?_
  rw [BootImage.InTables, h4]
  omega

theorem store_tables (m : Memory) {t v : UInt32}
    (ht : k.bss.toNat ≤ t.toNat ∧ t.toNat + 4 ≤ k.bss.toNat + 0x3000) {a : Nat} (ha : ¬ k.InTables a) :
    m.store32 t.toNat v a = m a := by
  rw [BootImage.InTables] at ha
  exact Memory.store32_of_lt m v (by omega)

theorem eventually_mapPdLoop (hk : k.Loaded fetch) (hlinked : k.Linked) :
    ∀ (rounds : Nat) {n : Nat} {c : Cpu32}, n + (rounds + 1) = 512 →
    BootCalled k back c → c.eip = k.entry .mapPdLoop → c.gpr .ecx = UInt32.ofNat n → BootTablesUpTo k n c.mem →
    (∀ c', BootLeft k.InTables back c c' → c'.gpr .esp = k.stackTop → BootTablesUpTo k 512 c'.mem →
      Eventually (step32 x fetch) P c') →
    Eventually (step32 x fetch) P c
  | rounds, n, c, hrounds, hc, heip, hecx, htables, h => by
    have hbss := hlinked.bss
    have hpd := hlinked.toNat_pdTable
    have hecx' : (c.gpr .ecx).toNat = n := by
      rw [hecx]
      exact UInt32.toNat_ofNat_of_lt' (by change n < 2 ^ 32; omega)
    have haddr : (k.pdTable + 8 * c.gpr .ecx).toNat = k.pdTable.toNat + 8 * n := by
      rw [UInt32.toNat_add, UInt32.toNat_mul, hecx', hpd]
      simp only [UInt32.reduceToNat]
      omega
    have hvalue : UInt32.ofNat ((0x200000 : UInt32).toNat * (c.gpr .ecx).toNat) = UInt32.ofNat (0x200000 * n) := by
      rw [hecx']
      rfl
    have hstored := htables.store hlinked (show n < 512 by omega)
    rw [← haddr, ← hvalue] at hstored
    have hrest {a : Nat} (ha : ¬ k.InTables a) : c.mem.store32 (k.pdTable + 8 * c.gpr .ecx).toNat
        (UInt32.ofNat ((0x200000 : UInt32).toNat * (c.gpr .ecx).toNat) ||| 0b10000011) a = c.mem a :=
          store_tables c.mem (by omega) ha
    have hroom : (k.pdTable + 8 * c.gpr .ecx).toNat + 4 ≤ 2 ^ 32 := by omega
    have htop := (load_top hlinked @hrest).trans hc.top
    have hnext : c.gpr .ecx + 1 = UInt32.ofNat (n + 1) := by
      rw [hecx, UInt32.ofNat_add]
      rfl
    refine eventually_instr hk heip hc.cr0 rfl rfl ?_
    refine eventually_instr hk rfl hc.cr0 rfl rfl ?_
    refine eventually_instr hk rfl hc.cr0 rfl rfl ?_
    refine eventually_store (a := k.pdTable + 8 * c.gpr .ecx)
      (v := UInt32.ofNat ((0x200000 : UInt32).toNat * (c.gpr .ecx).toNat) ||| 0b10000011)
        hk rfl hc.cr0 rfl rfl hroom ?_
    refine eventually_instr hk rfl hc.cr0 rfl rfl ?_
    refine eventually_instr hk rfl hc.cr0 rfl rfl ?_
    match rounds, hrounds with
    | 0, hrounds =>
      have hzero : (c.gpr .ecx + 1 == 512) = true := by
        rw [hnext, show n + 1 = 512 by omega]
        rfl
      refine eventually_passed hk rfl hc.cr0 rfl ((Cpu32.holds_arithmetic ..).2.1.trans (congrArg not hzero)) ?_
      refine eventually_ret hk hlinked ⟨hc.esp, htop,
        hc.cr0⟩ rfl rfl (h _ ⟨⟨rfl, rfl, rfl, rfl, rfl, rfl, ?_, fun a ha => hrest ha⟩, rfl⟩ rfl ?_)
      · exact ((Cpu32.interrupts_arithmetic ..).trans (Cpu32.interrupts_arithmetic ..)).trans
          ((Cpu32.interrupts_arithmetic ..).trans (Cpu32.interrupts_arithmetic ..))
      · rw [show n + 1 = 512 by omega] at hstored
        exact hstored
    | rounds + 1, hrounds =>
      have hzero : (c.gpr .ecx + 1 == 512) = false := by
        refine beq_eq_false_iff_ne.mpr fun heq => ?_
        have hval := congrArg UInt32.toNat (hnext.symm.trans heq)
        rw [UInt32.toNat_ofNat_of_lt' (by change n + 1 < 2 ^ 32; omega)] at hval
        change n + 1 = 512 at hval
        omega
      refine eventually_taken hk rfl hc.cr0 rfl ((Cpu32.holds_arithmetic ..).2.1.trans (congrArg not hzero)) ?_
      refine eventually_mapPdLoop hk hlinked rounds (show n + 1 + (rounds + 1) = 512 by omega) ⟨hc.esp, htop,
        hc.cr0⟩ rfl hnext hstored
        fun c' hleft hesp hall => h c' ⟨.trans ?_ hleft.toBootKept, hleft.eip⟩ hesp hall
      refine ⟨rfl, rfl, rfl, rfl, rfl, rfl, ?_, fun a ha => hrest ha⟩
      exact ((Cpu32.interrupts_arithmetic ..).trans (Cpu32.interrupts_arithmetic ..)).trans
        ((Cpu32.interrupts_arithmetic ..).trans (Cpu32.interrupts_arithmetic ..))

theorem eventually_setupPageTables (hk : k.Loaded fetch) (hlinked : k.Linked) (hc : BootCalled k back c)
    (heip : c.eip = k.entry .setupPageTables) (hbss : ∀ a, k.InTables a → c.mem a = 0)
    (h : ∀ c', BootLeft k.InTables back c c' → c'.gpr .esp = k.stackTop → BootTablesUpTo k 512 c'.mem →
      Eventually (step32 x fetch) P c') :
    Eventually (step32 x fetch) P c := by
  have hend := hlinked.bss
  have hpdpt := hlinked.toNat_pdptTable
  have hpml4 : k.pml4Table.toNat = k.bss.toNat := rfl
  have htables := BootTablesUpTo.links hlinked hbss
  have hfirst {a : Nat} (ha : ¬ k.InTables a) : c.mem.store32 k.pml4Table.toNat (k.pdptTable ||| 0b11) a =
      c.mem a :=
    store_tables c.mem (by omega) ha
  have hrest {a : Nat} (ha : ¬ k.InTables a) :
      (c.mem.store32 k.pml4Table.toNat (k.pdptTable ||| 0b11)).store32 k.pdptTable.toNat
          (k.pdTable ||| 0b11) a = c.mem a :=
    (store_tables _ (by omega) ha).trans (hfirst ha)
  have htop := (load_top hlinked @hrest).trans hc.top
  refine eventually_instr hk heip hc.cr0 rfl rfl ?_
  refine eventually_instr hk rfl hc.cr0 rfl rfl ?_
  refine eventually_store (a := k.pml4Table) (v := k.pdptTable ||| 0b11) hk rfl hc.cr0 rfl rfl (by omega) ?_
  refine eventually_instr hk rfl hc.cr0 rfl rfl ?_
  refine eventually_instr hk rfl hc.cr0 rfl rfl ?_
  refine eventually_store (a := k.pdptTable) (v := k.pdTable ||| 0b11) hk rfl hc.cr0 rfl rfl (by omega) ?_
  refine eventually_instr hk rfl hc.cr0 rfl rfl ?_
  refine eventually_mapPdLoop hk hlinked 511 rfl ⟨hc.esp, htop, hc.cr0⟩ hlinked.falls rfl htables
    fun c' hleft hesp hall => h c' ⟨.trans ?_ hleft.toBootKept, hleft.eip⟩ hesp hall
  exact ⟨rfl, rfl, rfl, rfl, rfl, rfl, (Cpu32.interrupts_arithmetic ..).trans (Cpu32.interrupts_arithmetic ..),
    fun a ha => hrest ha⟩

/-! ### `enable_paging` -/

/-- Behind the routine. -/
structure BootPaged (k : BootImage) (back : UInt32) (c c' : Cpu32) : Prop where
  eip : c'.eip = back
  esp : c'.gpr .esp = k.stackTop
  edi : c'.gpr .edi = c.gpr .edi
  esi : c'.gpr .esi = c.gpr .esi
  tables : k.Tables c'.mem
  mem : ∀ a, ¬ k.InTables a → c'.mem a = c.mem a
  interrupts : c'.eflags.toNat.testBit 9 = c.eflags.toNat.testBit 9
  cr0 : c'.cr0 = c.cr0 ||| 0x80000000
  cr3 : c'.cr3 = k.pml4Table
  cr4 : c'.cr4 = c.cr4 ||| 0x20
  efer : c'.efer = c.efer ||| 0x500

/-- What `rdmsr`, `or` and `wrmsr` make of the register. -/
theorem written_efer (e : UInt64) :
    ((e >>> 32).toUInt32.toUInt64 <<< 32 ||| (e.toUInt32 ||| 0x100).toUInt64) &&&
      0xFFFFFFFFFFFFFBFF ||| e &&& 0x400 =
    e ||| 0x100 := by
  have he := e.toNat_lt
  have hhigh : ((e >>> 32).toUInt32.toUInt64 <<< 32).toNat = 2 ^ 32 * (e.toNat / 2 ^ 32) := by
    rw [UInt64.toNat_shiftLeft, UInt32.toNat_toUInt64, UInt64.toNat_toUInt32, UInt64.toNat_shiftRight,
      Nat.shiftLeft_eq, Nat.shiftRight_eq_div_pow]
    simp only [UInt64.reduceToNat, Nat.reduceMod, Nat.reducePow]
    omega
  have hlow : (e.toUInt32 ||| 0x100).toUInt64.toNat = e.toNat % 2 ^ 32 ||| 0x100 := by
    rw [UInt32.toNat_toUInt64, UInt32.toNat_or, UInt64.toNat_toUInt32]
    rfl
  have hwhole : (e >>> 32).toUInt32.toUInt64 <<< 32 ||| (e.toUInt32 ||| 0x100).toUInt64 = e ||| 0x100 := by
    refine UInt64.toNat_inj.mp ?_
    rw [UInt64.toNat_or, hhigh, hlow, ← Nat.or_assoc, ← Nat.two_pow_add_eq_or_of_lt (Nat.mod_lt _ (by decide)),
      Nat.div_add_mod, UInt64.toNat_or]
    rfl
  have hrest : e &&& 0xFFFFFFFFFFFFFBFF ||| e &&& 0x400 = e := by
    rw [UInt64.and_comm e, UInt64.and_comm e, ← or_and_distrib,
      show (0xFFFFFFFFFFFFFBFF : UInt64) ||| 0x400 = -1 by decide, UInt64.neg_one_and]
  rw [hwhole, or_and_distrib, show (0x100 : UInt64) &&& 0xFFFFFFFFFFFFFBFF = 0x100 by decide, UInt64.or_assoc,
    UInt64.or_comm 0x100, ← UInt64.or_assoc, hrest]

/-- In long mode, under the tables. -/
structure BootLong (k : BootImage) (c : Cpu32) : Prop where
  paging : c.paging = true
  longMode : c.longMode = true
  cr3 : c.cr3 = k.pml4Table
  tables : k.Tables c.mem

theorem BootLong.flat (hlinked : k.Linked) (hx : x.walk = bootWalk) (hc : BootLong k c) : c.Flat x (2 ^ 30) := by
  intro a ha
  obtain ⟨h1, h2, h3⟩ := hlinked.isFrame_tables
  have hlow : a.toUInt64.toNat < 2 ^ 30 := by rwa [UInt32.toNat_toUInt64]
  have hwalk := hc.tables.translation h2 h3 (Nat.lt_of_lt_of_le hlow (by decide))
  rw [if_pos hlow] at hwalk
  rw [Cpu32.translate, hc.paging, hc.longMode, if_pos rfl, if_pos rfl, hx, bootWalk, hc.cr3, hwalk,
    Option.map_some, UInt32.toNat_toUInt64]

theorem BootLong.touched (hlinked : k.Linked) (hmarks : MarksWalks x) (hc : BootLong k c) :
    BootLong k (c.touched x) ∧ ∀ a, ¬ k.InTables a → (c.touched x).mem a = c.mem a := by
  obtain ⟨htables, hrest⟩ := touch_tables hlinked hmarks hc.cr3 hc.tables
  rw [Cpu32.touched_of_paging hc.paging]
  exact ⟨⟨hc.paging, hc.longMode, hc.cr3, htables⟩, hrest⟩

theorem eventually_ret_paged (hk : k.Loaded fetch) (hlinked : k.Linked) (hx : x.walk = bootWalk)
    (hmarks : MarksWalks x) (hc : BootLong k c) (hesp : c.gpr .esp = k.stackTop - 4)
    (htop : c.mem.load32 (k.stackTop - 4).toNat = back) (heip : c.eip = k.place l n)
    (hi : (bootCode k l)[n]? = some .ret)
    (h : k.Tables (x.touch c) → (∀ a, ¬ k.InTables a → x.touch c a = c.mem a) →
      Eventually (step32 x fetch) P (((c.withMem (x.touch c)).set .esp k.stackTop).goTo back)) : Eventually
      (step32 x fetch) P c := by
  obtain ⟨htables, hrest⟩ := touch_tables hlinked hmarks hc.cr3 hc.tables
  have htouched : c.touched x = c.withMem (x.touch c) := Cpu32.touched_of_paging hc.paging
  have hflat : (c.withMem (x.touch c)).Flat x (2 ^ 30) := by
    rw [← htouched]
    exact (hc.touched hlinked hmarks).1.flat hlinked hx
  exact eventually_ret_flat hk hlinked htouched hflat hesp ((load_top hlinked hrest).trans htop) heip hi
    (h htables hrest)

theorem testBit_or {v m : UInt32} {i : Nat} (hm : m.toNat.testBit i = true) : (v ||| m).toNat.testBit i = true := by
  rw [UInt32.toNat_or, Nat.testBit_or, hm, Bool.or_true]

theorem exec_cr4 {c : Cpu32} {v : UInt32} (hv : c.gpr .eax = v) (hpae : v.toNat.testBit 5 = true) :
    exec x c (.writeControl .eax .cr4) = .next (c.withCr4 v) := by
  rw [exec, hv, Cpu32.writeControl, hpae, Bool.not_true, Bool.and_false]
  rfl

theorem exec_rdmsr {c : Cpu32} (hecx : c.gpr .ecx = Cpu32.efer32) :
    exec x c .rdmsr = .next ((c.set .eax c.efer.toUInt32).set .edx (c.efer >>> 32).toUInt32) := by
  rw [exec, if_pos hecx]

theorem exec_wrmsr {c : Cpu32} {e : UInt64} (hcr0 : c.cr0.toNat.testBit 31 = false)
    (hecx : c.gpr .ecx = Cpu32.efer32) (hefer : c.efer = e) (heax : c.gpr .eax = e.toUInt32 ||| 0x100)
    (hedx : c.gpr .edx = (e >>> 32).toUInt32) : exec x c .wrmsr = .next (c.withEfer (e ||| 0x100)) := by
  have hpaging : c.paging = false := hcr0
  rw [exec, if_pos hecx, Cpu32.writeEfer, hpaging, Bool.false_and, if_neg Bool.false_ne_true, heax, hedx,
    hefer, written_efer]
  rfl

theorem exec_cr0 {c : Cpu32} {v : UInt32} (hv : c.gpr .eax = v) (hcr0 : c.cr0.toNat.testBit 31 = false)
    (hpaging : v.toNat.testBit 31 = true) (hprotected : v.toNat.testBit 0 = true)
    (hefer : c.efer.toNat.testBit 8 = true) (hpae : c.cr4.toNat.testBit 5 = true) :
    exec x c (.writeControl .eax .cr0) = .next ((c.withCr0 v).withEfer (c.efer ||| 0x400)) := by
  have hnot : c.paging = false := hcr0
  rw [exec, hv, Cpu32.writeControl, if_pos hpaging, hprotected, hnot, hefer, hpae]
  rfl

theorem eventually_enablePaging (hk : k.Loaded fetch) (hlinked : k.Linked) (hx : x.walk = bootWalk)
    (hmarks : MarksWalks x) (hc : BootCalled k back c) (heip : c.eip = k.entry .enablePaging)
    (hprotected : c.cr0.toNat.testBit 0 = true) (htables : BootTablesUpTo k 512 c.mem)
    (h : ∀ c', BootPaged k back c c' → Eventually (step32 x fetch) P c') : Eventually (step32 x fetch) P c := by
  have hpae : (c.cr4 ||| (bitAt 5).toUInt32).toNat.testBit 5 = true := testBit_or (by decide)
  refine eventually_instr hk heip hc.cr0 rfl rfl ?_
  refine eventually_instr hk rfl hc.cr0 rfl rfl ?_
  refine eventually_instr hk rfl hc.cr0 rfl rfl ?_
  refine eventually_instr hk rfl hc.cr0 rfl rfl ?_
  refine eventually_instr hk rfl hc.cr0 rfl (exec_cr4 rfl hpae) ?_
  refine eventually_instr hk rfl hc.cr0 rfl rfl ?_
  refine eventually_instr hk rfl hc.cr0 rfl (exec_rdmsr rfl) ?_
  refine eventually_instr hk rfl hc.cr0 rfl rfl ?_
  refine eventually_instr hk rfl hc.cr0 rfl (exec_wrmsr (e := c.efer) hc.cr0 rfl rfl rfl rfl) ?_
  refine eventually_instr hk rfl hc.cr0 rfl rfl ?_
  refine eventually_instr hk rfl hc.cr0 rfl rfl ?_
  refine eventually_instr hk rfl hc.cr0 rfl (exec_cr0 (v := c.cr0 ||| (bitAt 31).toUInt32) rfl hc.cr0
    (testBit_or (by decide)) ?_ ?_ hpae) ?_
  · rw [UInt32.toNat_or, Nat.testBit_or, hprotected, Bool.true_or]
  · change (c.efer ||| 0x100).toNat.testBit 8 = true
    rw [UInt64.toNat_or, Nat.testBit_or, show (0x100 : UInt64).toNat.testBit 8 = true by decide, Bool.or_true]
  · have hefer : c.efer ||| 0x100 ||| 0x400 = c.efer ||| 0x500 := by
      rw [UInt64.or_assoc]
      rfl
    have hlong : (c.efer ||| 0x100 ||| 0x400).toNat.testBit 10 = true := by
      rw [UInt64.toNat_or, Nat.testBit_or, show (0x400 : UInt64).toNat.testBit 10 = true by decide, Bool.or_true]
    refine eventually_ret_paged hk hlinked hx hmarks ⟨testBit_or (by decide), hlong, rfl,
      htables.boot hlinked⟩ hc.esp hc.top rfl rfl
      fun htouched hrest => h _ ?_
    · refine ⟨rfl, rfl, rfl, rfl, htouched, hrest, ?_, rfl, rfl, rfl, hefer⟩
      exact (Cpu32.interrupts_arithmetic ..).trans
        ((Cpu32.interrupts_arithmetic ..).trans (Cpu32.interrupts_arithmetic ..))

/-! ### `error_halt` -/

/-- "ERR: " and the code, in white on red. -/
def errorCells (code : UInt8) : List UInt8 :=
  ['E'.toUInt8, 'R'.toUInt8, 'R'.toUInt8, ':'.toUInt8, ' '.toUInt8, code].flatMap fun character => [character, 0x4F]

def errorMemory (m : Memory) (code : UInt8) : Memory :=
  (((m.store32 0xB8000 0x4f524f45).store32 0xB8004 0x4f3a4f52).store32 0xB8008 0x4f204f20).store8 0xB800A code

theorem errorMemory_cells (m : Memory) (code : UInt8) :
    ∀ i < 12, errorMemory m code (0xB8000 + i) = (errorCells code).getD i 0
  | 0, _ | 1, _ | 2, _ | 3, _ | 4, _ | 5, _ | 6, _ | 7, _ | 8, _ | 9, _ | 10, _ | 11, _ => rfl
  | i + 12, hi => absurd hi (by omega)

theorem errorMemory_rest (m : Memory) (code : UInt8) {a : Nat} (ha : ¬ (0xB8000 ≤ a ∧ a < 0xB800C)) :
    errorMemory m code a = m a := by
  unfold errorMemory
  rw [Memory.store8_of_ne _ _ (by omega), Memory.store32_of_lt _ _ (by omega), Memory.store32_of_lt _ _ (by omega),
    Memory.store32_of_lt _ _ (by omega)]

theorem eventually_storeAl (hk : k.Loaded fetch) (heip : c.eip = k.place l n)
    (hcr0 : c.cr0.toNat.testBit 31 = false) {a : UInt32} (hi : (bootCode k l)[n]? = some (.storeAl a))
    (ha : a.toNat + 1 ≤ 2 ^ 32)
    (h : Eventually (step32 x fetch) P
      ((c.withMem (c.mem.store8 a.toNat (c.gpr .eax).toUInt8)).goTo (k.place l (n + 1)))) :
    Eventually (step32 x fetch) P c := by
  have hflat : (c.goTo (k.place l (n + 1))).Flat x (2 ^ 32) := Cpu32.flat_of_not_paging hcr0
  have hexec : exec x (c.goTo (k.place l (n + 1))) (.storeAl a) =
      ofOption ((c.goTo (k.place l (n + 1))).write8 x a ((c.goTo (k.place l (n + 1))).gpr .eax).toUInt8) := rfl
  rw [hflat.write8 (Nat.le_refl _) _ ha] at hexec
  exact eventually_instr hk heip hcr0 hi hexec h

theorem eventually_errorHalt (hk : k.Loaded fetch) (heip : c.eip = k.entry .errorHalt)
    (hcr0 : c.cr0.toNat.testBit 31 = false) (h : ∀ c', BootKept (fun a => 0xB8000 ≤ a ∧ a < 0xB800C) c c' →
      (∀ i < 12, c'.mem (0xB8000 + i) = (errorCells (c.gpr .eax).toUInt8).getD i 0) →
      P (.halted c')) : Eventually (step32 x fetch) P c := by
  refine eventually_store (a := 0xb8000) (v := 0x4f524f45) hk heip hcr0 rfl rfl (by decide) ?_
  refine eventually_store (a := 0xb8004) (v := 0x4f3a4f52) hk rfl hcr0 rfl rfl (by decide) ?_
  refine eventually_store (a := 0xb8008) (v := 0x4f204f20) hk rfl hcr0 rfl rfl (by decide) ?_
  refine eventually_storeAl (a := 0xb800a) hk rfl hcr0 rfl (by decide) ?_
  have hlt (d : Cpu32) (hd : d.eip = k.place .errorHalt 4) (hd0 : d.cr0.toNat.testBit 31 = false) :
      step32 x fetch d = .stop (.halted (d.goTo (k.place .errorHalt 5))) := by
    have htouched : d.touched x = d := Cpu32.touched_of_not_paging hd0
    have hnext :=
      next_place (x := x) (i := .hlt) hk rfl hd
        (by rw [htouched]; exact Cpu32.flat_of_not_paging hd0 _ d.eip.toNat_lt)
    rwa [htouched] at hnext
  refine .stop (hlt _ rfl hcr0) (h _ ?_ fun i hi => ?_)
  · exact ⟨rfl, rfl, rfl, rfl, rfl, rfl, rfl, fun a ha => errorMemory_rest c.mem _ ha⟩
  · exact errorMemory_cells c.mem _ i hi

end

end KernelOs
