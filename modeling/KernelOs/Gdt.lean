import KernelOs.Lib.Segments

/-!
# The global descriptor table

`gdt.cpp` and `gdt_flush.S`. The table is seven slots of eight bytes, of which the TSS descriptor
takes two.
-/

namespace KernelOs
open Lib

def gdtTss : UInt16 := 0x28

structure GdtEntry where
  limitLow : UInt16
  baseLow : UInt16
  baseMiddle : UInt8
  access : UInt8
  granularity : UInt8
  baseHigh : UInt8

/-- The eight bytes of the packed structure. -/
def GdtEntry.raw (e : GdtEntry) : UInt64 :=
  e.limitLow.toUInt64 ||| e.baseLow.toUInt64 <<< 16 ||| e.baseMiddle.toUInt64 <<< 32 |||
    e.access.toUInt64 <<< 40 ||| e.granularity.toUInt64 <<< 48 ||| e.baseHigh.toUInt64 <<< 56

structure TssDescriptor where
  limitLow : UInt16
  baseLow : UInt16
  baseMiddle : UInt8
  access : UInt8
  granularity : UInt8
  baseHigh : UInt8
  baseUpper : UInt32
  reserved : UInt32

/-- The sixteen bytes, as two slots. -/
def TssDescriptor.raw (d : TssDescriptor) : UInt64 × UInt64 :=
  (GdtEntry.raw ⟨d.limitLow, d.baseLow, d.baseMiddle, d.access, d.granularity, d.baseHigh⟩,
    d.baseUpper.toUInt64 ||| d.reserved.toUInt64 <<< 32)

/-- Without the fields that are reserved. -/
structure Tss where
  rsp0 : UInt64
  rsp1 : UInt64
  rsp2 : UInt64
  ist : Fin 7 → UInt64
  iomapBase : UInt16

def sizeofTss : UInt32 := 104

structure GdtPointer where
  limit : UInt16
  base : UInt64

structure GdtState where
  gdt : Nat → UInt64
  gdtPtr : GdtPointer
  tss : Tss

def setGdtEntry (gdt : Nat → UInt64) (index : Nat) (base limit : UInt32) (access granularity : UInt8) :
    Nat → UInt64 :=
  Function.update gdt index (GdtEntry.raw
    { limitLow := (limit &&& 0xFFFF).toUInt16
      baseLow := (base &&& 0xFFFF).toUInt16
      baseMiddle := ((base >>> 16) &&& 0xFF).toUInt8
      access
      granularity := (((limit >>> 16) &&& 0x0F) ||| (granularity.toUInt32 &&& 0xF0)).toUInt8
      baseHigh := ((base >>> 24) &&& 0xFF).toUInt8 })

def tssEntry (base : UInt64) (limit : UInt32) : TssDescriptor where
  limitLow := (limit &&& 0xFFFF).toUInt16
  baseLow := (base &&& 0xFFFF).toUInt16
  baseMiddle := ((base >>> 16) &&& 0xFF).toUInt8
  access := 0x89
  granularity := ((limit >>> 16) &&& 0x0F).toUInt8
  baseHigh := ((base >>> 24) &&& 0xFF).toUInt8
  baseUpper := ((base >>> 32) &&& 0xFFFFFFFF).toUInt32
  reserved := 0

def setTssEntry (gdt : Nat → UInt64) (base : UInt64) (limit : UInt32) : Nat → UInt64 :=
  let index := gdtTss.toNat / 8
  let (low, high) := (tssEntry base limit).raw
  Function.update (Function.update gdt index low) (index + 1) high

/-- Up to the call of `gdt_flush`. The linker has put `gdt` and `tss` at `gdtAddr` and `tssAddr`. -/
def gdtInit (gdtAddr tssAddr : UInt64) (s : GdtState) : GdtState :=
  let gdtPtr : GdtPointer := { limit := 7 * 8 - 1, base := gdtAddr }
  let gdt := setGdtEntry s.gdt 0 0 0 0 0
  let gdt := setGdtEntry gdt 1 0 0 0x9A 0x20
  let gdt := setGdtEntry gdt 2 0 0 0x92 0x00
  let gdt := setGdtEntry gdt 3 0 0 0xF2 0x00
  let gdt := setGdtEntry gdt 4 0 0 0xFA 0x20
  let tss : Tss := ⟨0, 0, 0, fun _ => 0, 0⟩
  let tss := { tss with iomapBase := sizeofTss.toUInt16 }
  let gdt := setTssEntry gdt tssAddr (sizeofTss - 1)
  ⟨gdt, gdtPtr, tss⟩

/-- What `lgdt` makes the processor use. -/
def GdtState.table (s : GdtState) : SegmentTable := ⟨s.gdtPtr.limit.toNat, s.gdt⟩

/-- What `ltr` makes the processor use: the limit is that of the descriptor. -/
def GdtState.ports (s : GdtState) (denied : Nat → Bool) : PortMap :=
  ⟨(Descriptor.decode (s.gdt (gdtTss.toNat / 8))).limit, s.tss.iomapBase.toNat, denied⟩

theorem toNat_or_shift {a b : UInt64} {i : Nat} (hi : i < 64) (ha : a.toNat < 2 ^ i) (hb : b.toNat < 2 ^ (64 - i)) :
    (a ||| b <<< UInt64.ofNat i).toNat = a.toNat + 2 ^ i * b.toNat := by
  have hshift : (b <<< UInt64.ofNat i).toNat = 2 ^ i * b.toNat := by
    rw [UInt64.toNat_shiftLeft, Nat.shiftLeft_eq, Nat.mul_comm]
    have hi' : (UInt64.ofNat i).toNat % 64 = i := by
      rw [UInt64.toNat_ofNat', Nat.mod_eq_of_lt (Nat.lt_of_lt_of_le hi (by decide)), Nat.mod_eq_of_lt hi]
    rw [hi']
    apply Nat.mod_eq_of_lt
    calc 2 ^ i * b.toNat < 2 ^ i * 2 ^ (64 - i) := (Nat.mul_lt_mul_left (Nat.two_pow_pos i)).mpr hb
      _ = 2 ^ 64 := by rw [← Nat.pow_add]; congr 1; omega
  rw [UInt64.toNat_or, hshift, Nat.or_comm, ← Nat.two_pow_add_eq_or_of_lt ha, Nat.add_comm]

theorem toNat_raw (e : GdtEntry) :
    e.raw.toNat = e.limitLow.toNat + 2 ^ 16 * e.baseLow.toNat + 2 ^ 32 * e.baseMiddle.toNat +
    2 ^ 40 * e.access.toNat + 2 ^ 48 * e.granularity.toNat + 2 ^ 56 * e.baseHigh.toNat := by
  have h1 := e.limitLow.toNat_lt
  have h2 := e.baseLow.toNat_lt
  have h3 := e.baseMiddle.toNat_lt
  have h4 := e.access.toNat_lt
  have h5 := e.granularity.toNat_lt
  have h6 := e.baseHigh.toNat_lt
  rw [GdtEntry.raw]
  have e1 : (e.limitLow.toUInt64 ||| e.baseLow.toUInt64 <<< 16).toNat =
      e.limitLow.toNat + 2 ^ 16 * e.baseLow.toNat :=
    toNat_or_shift (i := 16) (by decide) h1 (Nat.lt_trans h2 (by decide))
  generalize e.limitLow.toUInt64 ||| e.baseLow.toUInt64 <<< 16 = x at e1
  have e2 : (x ||| e.baseMiddle.toUInt64 <<< 32).toNat = x.toNat + 2 ^ 32 * e.baseMiddle.toNat :=
    toNat_or_shift (i := 32) (by decide) (by omega) (Nat.lt_trans h3 (by decide))
  generalize x ||| e.baseMiddle.toUInt64 <<< 32 = x at e2
  have e3 : (x ||| e.access.toUInt64 <<< 40).toNat = x.toNat + 2 ^ 40 * e.access.toNat :=
    toNat_or_shift (i := 40) (by decide) (by omega) (Nat.lt_trans h4 (by decide))
  generalize x ||| e.access.toUInt64 <<< 40 = x at e3
  have e4 : (x ||| e.granularity.toUInt64 <<< 48).toNat = x.toNat + 2 ^ 48 * e.granularity.toNat :=
    toNat_or_shift (i := 48) (by decide) (by omega) (Nat.lt_trans h5 (by decide))
  generalize x ||| e.granularity.toUInt64 <<< 48 = x at e4
  have e5 : (x ||| e.baseHigh.toUInt64 <<< 56).toNat = x.toNat + 2 ^ 56 * e.baseHigh.toNat :=
    toNat_or_shift (i := 56) (by decide) (by omega) h6
  rw [e5, e4, e3, e2, e1]

/-- The processor finds the fields that the entry was made of. -/
theorem decode_raw (e : GdtEntry) : Descriptor.decode e.raw =
    { base := e.baseLow.toNat + 2 ^ 16 * e.baseMiddle.toNat + 2 ^ 24 * e.baseHigh.toNat
      limit := e.limitLow.toNat + 2 ^ 16 * (e.granularity.toNat % 16)
      access := e.access.toNat
      flags := e.granularity.toNat / 16 } := by
  have h1 := e.limitLow.toNat_lt
  have h2 := e.baseLow.toNat_lt
  have h3 := e.baseMiddle.toNat_lt
  have h4 := e.access.toNat_lt
  have h5 := e.granularity.toNat_lt
  rw [Descriptor.decode, toNat_raw]
  congr 1 <;> omega

theorem toNat_granularity (limit : UInt32) (granularity : UInt8) :
    (((limit >>> 16) &&& 0x0F) ||| (granularity.toUInt32 &&& 0xF0)).toUInt8.toNat =
      limit.toNat / 2 ^ 16 % 16 + 16 * (granularity.toNat / 16) := by
  have hparts : ∀ l < 16, ∀ g < 256, (l ||| (g &&& 0xF0)) % 256 = l + 16 * (g / 16) := by decide +kernel
  have hlow : ((limit >>> 16) &&& 0x0F).toNat = limit.toNat / 2 ^ 16 % 16 := by
    rw [UInt32.toNat_and, UInt32.toNat_shiftRight, Nat.shiftRight_eq_div_pow]
    exact Nat.and_two_pow_sub_one_eq_mod _ 4
  rw [UInt32.toNat_toUInt8, UInt32.toNat_or, hlow, UInt32.toNat_and]
  exact hparts _ (Nat.mod_lt _ (by decide)) _ granularity.toNat_lt

theorem toNat_byte (x : UInt32) (i : Nat) (hi : i < 32) :
    ((x >>> UInt32.ofNat i) &&& 0xFF).toUInt8.toNat = x.toNat / 2 ^ i % 256 := by
  have hi' : (UInt32.ofNat i).toNat % 32 = i := by
    rw [UInt32.toNat_ofNat', Nat.mod_eq_of_lt (Nat.lt_of_lt_of_le hi (by decide)), Nat.mod_eq_of_lt hi]
  have hmask : ∀ n, (n &&& 0xFF) % 256 = n % 256 := fun n => by
    rw [show 0xFF = 2 ^ 8 - 1 from rfl, Nat.and_two_pow_sub_one_eq_mod]
    omega
  rw [UInt32.toNat_toUInt8, UInt32.toNat_and, UInt32.toNat_shiftRight, hi', Nat.shiftRight_eq_div_pow]
  exact hmask _

theorem toNat_low (x : UInt32) : (x &&& 0xFFFF).toUInt16.toNat = x.toNat % 2 ^ 16 := by
  rw [UInt32.toNat_toUInt16, UInt32.toNat_and, show (0xFFFF : UInt32).toNat = 2 ^ 16 - 1 from rfl,
    Nat.and_two_pow_sub_one_eq_mod]
  omega

theorem decode_setGdtEntry (gdt : Nat → UInt64) (index : Nat) (base limit : UInt32) (access granularity : UInt8) :
    Descriptor.decode (setGdtEntry gdt index base limit access granularity index) =
      ⟨base.toNat, limit.toNat % 2 ^ 20, access.toNat, granularity.toNat / 16⟩ := by
  have hbase := base.toNat_lt
  have hgran := granularity.toNat_lt
  have hmiddle : ((base >>> 16) &&& 0xFF).toUInt8.toNat = base.toNat / 2 ^ 16 % 256 :=
    toNat_byte base 16 (by decide)
  have hhigh : ((base >>> 24) &&& 0xFF).toUInt8.toNat = base.toNat / 2 ^ 24 % 256 := toNat_byte base 24 (by decide)
  rw [setGdtEntry, Function.update_self, decode_raw]
  dsimp only
  rw [toNat_granularity, toNat_low, toNat_low, hmiddle, hhigh]
  congr 1 <;> omega

theorem toNat_byte64 (x : UInt64) (i : Nat) (hi : i < 64) :
    ((x >>> UInt64.ofNat i) &&& 0xFF).toUInt8.toNat = x.toNat / 2 ^ i % 256 := by
  have hi' : (UInt64.ofNat i).toNat % 64 = i := by
    rw [UInt64.toNat_ofNat', Nat.mod_eq_of_lt (Nat.lt_of_lt_of_le hi (by decide)), Nat.mod_eq_of_lt hi]
  rw [UInt64.toNat_toUInt8, UInt64.toNat_and, UInt64.toNat_shiftRight, hi', Nat.shiftRight_eq_div_pow,
    show (0xFF : UInt64).toNat = 2 ^ 8 - 1 from rfl, Nat.and_two_pow_sub_one_eq_mod]
  omega

/-- The base of a TSS takes four parts in two slots. The second slot is no descriptor of its own. -/
theorem decode_setTssEntry (gdt : Nat → UInt64) (base : UInt64) (limit : UInt32) :
    Descriptor.decode (setTssEntry gdt base limit 5) = ⟨base.toNat % 2 ^ 32, limit.toNat % 2 ^ 20, 0x89, 0⟩ ∧
      (setTssEntry gdt base limit 6).toNat = base.toNat / 2 ^ 32 := by
  have hbase := base.toNat_lt
  have hlow : (base &&& 0xFFFF).toUInt16.toNat = base.toNat % 2 ^ 16 := by
    rw [UInt64.toNat_toUInt16, UInt64.toNat_and, show (0xFFFF : UInt64).toNat = 2 ^ 16 - 1 from rfl,
      Nat.and_two_pow_sub_one_eq_mod]
    omega
  have hmiddle : ((base >>> 16) &&& 0xFF).toUInt8.toNat = base.toNat / 2 ^ 16 % 256 :=
    toNat_byte64 base 16 (by decide)
  have hhigh : ((base >>> 24) &&& 0xFF).toUInt8.toNat = base.toNat / 2 ^ 24 % 256 :=
    toNat_byte64 base 24 (by decide)
  have hupper : ((base >>> 32) &&& 0xFFFFFFFF).toUInt32.toNat = base.toNat / 2 ^ 32 := by
    rw [UInt64.toNat_toUInt32, UInt64.toNat_and, UInt64.toNat_shiftRight,
      show (0xFFFFFFFF : UInt64).toNat = 2 ^ 32 - 1 from rfl, Nat.and_two_pow_sub_one_eq_mod,
      show (32 : UInt64).toNat % 64 = 32 from rfl, Nat.shiftRight_eq_div_pow]
    omega
  have hlimit : ((limit >>> 16) &&& 0x0F).toUInt8.toNat = limit.toNat / 2 ^ 16 % 16 := by
    have := toNat_granularity limit 0
    rwa [show (0 : UInt8).toUInt32 &&& 0xF0 = 0 from rfl, UInt32.or_zero] at this
  constructor
  · have hslot : setTssEntry gdt base limit 5 = (tssEntry base limit).raw.1 := by
      change Function.update (Function.update gdt 5 _) 6 _ 5 = _
      rw [Function.update_of_ne (by decide), Function.update_self]
      rfl
    rw [hslot, TssDescriptor.raw, decode_raw]
    dsimp only [tssEntry]
    rw [toNat_low, hlow, hmiddle, hhigh, hlimit]
    congr 1 <;> omega
  · have hslot : setTssEntry gdt base limit 6 = (tssEntry base limit).raw.2 := by
      change Function.update (Function.update gdt 5 _) 6 _ 6 = _
      rw [Function.update_self]
      rfl
    rw [hslot, TssDescriptor.raw]
    dsimp only [tssEntry]
    rw [show (0 : UInt32).toUInt64 <<< 32 = 0 from rfl, UInt64.or_zero, UInt32.toNat_toUInt64, hupper]

/-! ## The table of the kernel -/

theorem setGdtEntry_of_ne {index i : Nat} (h : i ≠ index) (gdt : Nat → UInt64) (base limit : UInt32)
    (access granularity : UInt8) :
    setGdtEntry gdt index base limit access granularity i = gdt i := Function.update_of_ne h ..

theorem setTssEntry_of_ne {i : Nat} (h5 : i ≠ 5) (h6 : i ≠ 6) (gdt : Nat → UInt64) (base : UInt64)
    (limit : UInt32) :
    setTssEntry gdt base limit i = gdt i := by
  change Function.update (Function.update gdt 5 _) 6 _ i = gdt i
  rw [Function.update_of_ne h6, Function.update_of_ne h5]

section
variable (gdtAddr tssAddr : UInt64) (s : GdtState)

/-- Every slot of the table, as the processor reads it. -/
theorem decode_gdtInit :
    Descriptor.decode ((gdtInit gdtAddr tssAddr s).gdt 1) = ⟨0, 0, 0x9A, 2⟩ ∧
      Descriptor.decode ((gdtInit gdtAddr tssAddr s).gdt 2) = ⟨0, 0, 0x92, 0⟩ ∧
      Descriptor.decode ((gdtInit gdtAddr tssAddr s).gdt 3) = ⟨0, 0, 0xF2, 0⟩ ∧
      Descriptor.decode ((gdtInit gdtAddr tssAddr s).gdt 4) = ⟨0, 0, 0xFA, 2⟩ ∧
      Descriptor.decode ((gdtInit gdtAddr tssAddr s).gdt 5) = ⟨tssAddr.toNat % 2 ^ 32, 103, 0x89, 0⟩ ∧
      ((gdtInit gdtAddr tssAddr s).gdt 6).toNat = tssAddr.toNat / 2 ^ 32 := by
  have htss :=
    decode_setTssEntry
      (setGdtEntry (setGdtEntry (setGdtEntry (setGdtEntry (setGdtEntry s.gdt 0 0 0 0 0) 1 0 0 0x9A 0x20)
    2 0 0 0x92 0x00) 3 0 0 0xF2 0x00) 4 0 0 0xFA 0x20) tssAddr (sizeofTss - 1)
  unfold gdtInit
  refine ⟨?_, ?_, ?_, ?_, htss.1, htss.2⟩
  · dsimp only
    rw [setTssEntry_of_ne (by decide) (by decide), setGdtEntry_of_ne (by decide), setGdtEntry_of_ne (by decide),
      setGdtEntry_of_ne (by decide), decode_setGdtEntry]
    rfl
  · dsimp only
    rw [setTssEntry_of_ne (by decide) (by decide), setGdtEntry_of_ne (by decide), setGdtEntry_of_ne (by decide),
      decode_setGdtEntry]
    rfl
  · dsimp only
    rw [setTssEntry_of_ne (by decide) (by decide), setGdtEntry_of_ne (by decide), decode_setGdtEntry]
    rfl
  · dsimp only
    rw [setTssEntry_of_ne (by decide) (by decide), decode_setGdtEntry]
    rfl

/-- Access byte and flags by slot. -/
def slotKind : Nat → Nat × Nat
  | 1 => (0x9A, 2)
  | 2 => (0x92, 0)
  | 3 => (0xF2, 0)
  | 4 => (0xFA, 2)
  | 5 => (0x89, 0)
  | _ => (0, 0)

theorem kind_gdtInit {i : Nat} (h0 : 0 < i) (h7 : i < 7) :
    ((Descriptor.decode ((gdtInit gdtAddr tssAddr s).gdt i)).access,
      (Descriptor.decode ((gdtInit gdtAddr tssAddr s).gdt i)).flags) = slotKind i := by
  obtain ⟨h1, h2, h3, h4, h5, h6⟩ := decode_gdtInit gdtAddr tssAddr s
  have htss := tssAddr.toNat_lt
  match i, h0, h7 with
  | 1, _, _ => rw [h1]; rfl
  | 2, _, _ => rw [h2]; rfl
  | 3, _, _ => rw [h3]; rfl
  | 4, _, _ => rw [h4]; rfl
  | 5, _, _ => rw [h5]; rfl
  | 6, _, _ =>
    rw [Descriptor.decode, h6]
    refine Prod.ext ?_ ?_
    · change _ / 2 ^ 40 % 2 ^ 8 = 0
      omega
    · change _ / 2 ^ 52 % 2 ^ 4 = 0
      omega

/-- A selector names slot `i` of the table, or none. -/
theorem lookup_gdtInit (sel : UInt16) :
    (gdtInit gdtAddr tssAddr s).table.lookup sel = none ∧
      (sel.toNat / 4 = 0 ∨ sel.toNat / 4 % 2 = 1 ∨ 56 ≤ sel.toNat) ∨
      ∃ d i r, (gdtInit gdtAddr tssAddr s).table.lookup sel = some d ∧ (d.access, d.flags) = slotKind i ∧
      0 < i ∧ i < 7 ∧ r < 4 ∧
        sel.toNat = 8 * i + r := by
  have hlimit : (gdtInit gdtAddr tssAddr s).table.limit = 55 := rfl
  unfold SegmentTable.lookup
  rw [hlimit]
  by_cases h0 : sel.toNat / 4 = 0
  · rw [if_pos h0]
    exact Or.inl ⟨rfl, Or.inl h0⟩
  · rw [if_neg h0]
    by_cases h1 : sel.toNat / 4 % 2 = 1
    · rw [if_pos h1]
      exact Or.inl ⟨rfl, Or.inr (Or.inl h1)⟩
    · rw [if_neg h1]
      by_cases h2 : 55 < sel.toNat / 8 * 8 + 7
      · rw [if_pos h2]
        exact Or.inl ⟨rfl, Or.inr (Or.inr (by omega))⟩
      · rw [if_neg h2]
        exact Or.inr ⟨_, sel.toNat / 8, sel.toNat % 4, rfl,
          kind_gdtInit gdtAddr tssAddr s (by omega) (by omega), by omega, by omega,
          by omega, by omega⟩

def slotDescriptor (i : Nat) : Descriptor := ⟨0, 0, (slotKind i).1, (slotKind i).2⟩

/-- What a check that looks at the kind of a segment says of the table: `C` for every selector. -/
theorem any_lookup_gdtInit {P : Nat → Descriptor → Bool} {C : Nat → Bool} (sel : UInt16)
    (hkind : ∀ r base limit access flags, P r ⟨base, limit, access, flags⟩ = P r ⟨0, 0, access, flags⟩)
    (hin : ∀ n < 56, (decide (4 ≤ n ∧ n / 4 % 2 = 0) && P (n % 4) (slotDescriptor (n / 8))) = C n)
    (hout : ∀ n, 56 ≤ n → C n = false) :
    ((gdtInit gdtAddr tssAddr s).table.lookup sel).any (P (rpl sel)) = C sel.toNat := by
  rcases lookup_gdtInit gdtAddr tssAddr s sel with ⟨hnone, hsel⟩ | ⟨⟨base, limit, access, flags⟩, i, r, hsome,
    hd, h0, h7, hr, hsel⟩
  · rw [hnone, Option.any_none]
    by_cases hn : sel.toNat < 56
    · rw [← hin _ hn, decide_eq_false (by omega), Bool.false_and]
    · exact (hout _ (by omega)).symm
  · have hi : sel.toNat / 8 = i := by omega
    have hslot : slotDescriptor i = ⟨0, 0, access, flags⟩ := by rw [slotDescriptor, ← hd]
    rw [hsome, Option.any_some, hkind, ← hin _ (by omega), decide_eq_true (by omega), Bool.true_and, hi, hslot]
    rfl

section
variable {cpl : Nat}

theorem returns_gdtInit (hcpl : cpl < 4) (sel : UInt16) : (gdtInit gdtAddr tssAddr s).table.returns cpl sel =
    decide (cpl = 0 ∧ sel.toNat = 0x08 ∨ sel.toNat = 0x23) := by
  have hin : ∀ cpl < 4, ∀ n < 56, (decide (4 ≤ n ∧ n / 4 % 2 = 0) && (slotDescriptor (n / 8)).returns cpl (n % 4)) =
      decide (cpl = 0 ∧ n = 0x08 ∨ n = 0x23) := by decide +kernel
  exact any_lookup_gdtInit gdtAddr tssAddr s (P := fun r d => d.returns cpl r)
    (C := fun n => decide (cpl = 0 ∧ n = 0x08 ∨ n = 0x23)) sel (fun _ _ _ _ _ => rfl) (hin cpl hcpl) fun n hn =>
      decide_eq_false (by omega)

theorem stack_gdtInit (hcpl : cpl < 4) (sel : UInt16) : (gdtInit gdtAddr tssAddr s).table.stack cpl sel =
    decide (cpl ≠ 3 ∧ sel.toNat = cpl ∨ cpl = 0 ∧ sel.toNat = 0x10 ∨ cpl = 3 ∧ sel.toNat = 0x1B) := by
  have hin : ∀ cpl < 4, ∀ n < 56, (decide (4 ≤ n ∧ n / 4 % 2 = 0) && (slotDescriptor (n / 8)).stack cpl (n % 4)) =
      decide (cpl = 0 ∧ n = 0x10 ∨ cpl = 3 ∧ n = 0x1B) := by decide +kernel
  have hsegment := any_lookup_gdtInit gdtAddr tssAddr s (P := fun r d => d.stack cpl r)
    (C := fun n => decide (cpl = 0 ∧ n = 0x10 ∨ cpl = 3 ∧ n = 0x1B)) sel (fun _ _ _ _ _ => rfl) (hin cpl hcpl)
    fun n hn => decide_eq_false (by omega)
  rw [SegmentTable.stack, hsegment]
  by_cases hnull : sel.toNat / 4 = 0
  · have hrpl : rpl sel = sel.toNat := by
      rw [rpl]
      omega
    rw [if_pos hnull, hrpl, Bool.eq_iff_iff]
    simp only [Bool.and_eq_true, bne_iff_ne, beq_iff_eq, decide_eq_true_eq]
    omega
  · rw [if_neg hnull]
    refine decide_eq_decide.mpr ?_
    omega

theorem loads_gdtInit (hcpl : cpl < 4) (sel : UInt16) : (gdtInit gdtAddr tssAddr s).table.loads cpl sel =
    decide (sel.toNat / 4 = 0 ∨ cpl = 0 ∧ (sel.toNat = 0x08 ∨ sel.toNat = 0x10) ∨ sel.toNat / 4 = 6 ∨
      sel.toNat / 4 = 8) := by
  have hin : ∀ cpl < 4, ∀ n < 56, (decide (4 ≤ n ∧ n / 4 % 2 = 0) && (slotDescriptor (n / 8)).loads cpl (n % 4)) =
      decide (cpl = 0 ∧ (n = 0x08 ∨ n = 0x10) ∨ n / 4 = 6 ∨ n / 4 = 8) := by decide +kernel
  have hsegment := any_lookup_gdtInit gdtAddr tssAddr s (P := fun r d => d.loads cpl r)
    (C := fun n => decide (cpl = 0 ∧ (n = 0x08 ∨ n = 0x10) ∨ n / 4 = 6 ∨ n / 4 = 8)) sel
      (fun _ _ _ _ _ => rfl) (hin cpl hcpl)
    fun n hn => decide_eq_false (by omega)
  rw [SegmentTable.loads, hsegment]
  by_cases hnull : sel.toNat / 4 = 0
  · rw [if_pos hnull]
    exact (decide_eq_true (Or.inl hnull)).symm
  · rw [if_neg hnull]
    refine decide_eq_decide.mpr ?_
    omega

theorem far_gdtInit (hcpl : cpl < 4) (sel : UInt16) : (gdtInit gdtAddr tssAddr s).table.far cpl sel =
    if cpl = 0 ∧ sel.toNat = 0x08 ∨ cpl = 3 ∧ sel.toNat / 4 = 8 then .code else .fault := by
  have hin : ∀ cpl < 4, ∀ n <
    56, (decide (4 ≤ n ∧ n / 4 % 2 = 0) && decide ((slotDescriptor (n / 8)).far cpl (n % 4) = .code)) =
      decide (cpl = 0 ∧ n = 0x08 ∨ cpl = 3 ∧ n / 4 = 8) := by decide +kernel
  have hin' : ∀ cpl < 4, ∀ n <
      56, (decide (4 ≤ n ∧ n / 4 % 2 = 0) && decide ((slotDescriptor (n / 8)).far cpl (n % 4) = .gate)) =
      false := by
    decide +kernel
  have hcode := any_lookup_gdtInit gdtAddr tssAddr s (P := fun r d => d.far cpl r = .code)
    (C := fun n => decide (cpl = 0 ∧ n = 0x08 ∨ cpl = 3 ∧ n / 4 = 8)) sel (fun _ _ _ _ _ => rfl) (hin cpl hcpl)
    fun n hn => decide_eq_false (by omega)
  have hgate :=
    any_lookup_gdtInit gdtAddr tssAddr s (P := fun r d => d.far cpl r = .gate) (C := fun _ => false) sel
      (fun _ _ _ _ _ => rfl)
    (hin' cpl hcpl) fun _ _ => rfl
  rw [SegmentTable.far]
  cases hd : (gdtInit gdtAddr tssAddr s).table.lookup sel with
  | none =>
    rw [hd, Option.any_none] at hcode
    rw [if_neg (of_decide_eq_false hcode.symm)]
    rfl
  | some d =>
    rw [hd, Option.any_some] at hcode hgate
    rw [Option.map_some, Option.getD_some]
    cases hfar : d.far cpl (rpl sel) with
    | fault =>
      rw [hfar] at hcode
      rw [if_neg (of_decide_eq_false hcode.symm)]
    | code =>
      rw [hfar] at hcode
      rw [if_pos (of_decide_eq_true hcode.symm)]
    | gate =>
      rw [hfar] at hgate
      exact absurd hgate (by decide)

end

theorem gateCode_gdtInit (sel : UInt16) :
    (gdtInit gdtAddr tssAddr s).table.gateCode sel = decide (sel.toNat / 4 = 2) := by
  have hin : ∀ n < 56, (decide (4 ≤ n ∧ n / 4 % 2 = 0) && (slotDescriptor (n / 8)).gateCode) =
    decide (n / 4 = 2) := by decide +kernel
  exact any_lookup_gdtInit gdtAddr tssAddr s (P := fun _ d => d.gateCode) (C := fun n => decide (n / 4 = 2)) sel
    (fun _ _ _ _ _ => rfl) hin
    fun n hn => decide_eq_false (by omega)

end

end KernelOs
