import KernelOs.Lib.Pic8259
import KernelOs.Lib.Run

/-!
# The interrupt controller's driver

`pic.cpp`, one port access after the other. Devices raise and withdraw requests in between.
-/

namespace KernelOs
open Lib

def pic1Command : UInt16 := 0x20
def pic1Data : UInt16 := 0x21
def pic2Command : UInt16 := 0xA0
def pic2Data : UInt16 := 0xA1

def picIrqOffset1 : UInt8 := 0x20
def picIrqOffset2 : UInt8 := 0x28

namespace Pic

/-- The ports that no chip listens to do nothing. -/
def outb (c : Cascade) (port : UInt16) (val : UInt8) : Cascade :=
  if port = pic1Command then { c with master := c.master.writeCommand val }
  else if port = pic1Data then { c with master := c.master.writeData val }
  else if port = pic2Command then { c with slave := c.slave.writeCommand val }
  else if port = pic2Data then { c with slave := c.slave.writeData val }
  else c

/-- Of the four ports only the data ports are read. -/
def inb (c : Cascade) (port : UInt16) : UInt8 := if port = pic1Data then c.master.readData else c.slave.readData

def ioWait (c : Cascade) : Cascade := outb c 0x80 0

end Pic

/-- The chips, and the local variables of `pic_remap`. -/
structure PicRemap where
  chips : Cascade
  mask1 : UInt8
  mask2 : UInt8

def PicRemap.outb (port : UInt16) (val : UInt8) (s : PicRemap) : PicRemap :=
  { s with chips := Pic.outb s.chips port val }

def PicRemap.ioWait (s : PicRemap) : PicRemap := { s with chips := Pic.ioWait s.chips }

def picRemap : List (PicRemap → PicRemap) := [
  fun s => { s with mask1 := Pic.inb s.chips pic1Data },
  fun s => { s with mask2 := Pic.inb s.chips pic2Data },
  .outb pic1Command 0x11, .ioWait,
  .outb pic2Command 0x11, .ioWait,
  .outb pic1Data picIrqOffset1, .ioWait,
  .outb pic2Data picIrqOffset2, .ioWait,
  .outb pic1Data 0x04, .ioWait,
  .outb pic2Data 0x02, .ioWait,
  .outb pic1Data 0x01, .ioWait,
  .outb pic2Data 0x01, .ioWait,
  fun s => s.outb pic1Data s.mask1,
  fun s => s.outb pic2Data s.mask2]

def picSendEoi (c : Cascade) (irq : UInt8) : Cascade :=
  let c := if irq ≥ 8 then Pic.outb c pic2Command 0x20 else c
  Pic.outb c pic1Command 0x20

/-- `1 << bit`, cut off to a byte. -/
def lineBit (irq : UInt8) : UInt8 := UInt8.ofNat (1 <<< (if irq < 8 then irq else irq - 8).toNat)

def linePort (irq : UInt8) : UInt16 := if irq < 8 then pic1Data else pic2Data

def picSetMask (c : Cascade) (irq : UInt8) : Cascade :=
  Pic.outb c (linePort irq) (Pic.inb c (linePort irq) ||| lineBit irq)

def picClearMask (c : Cascade) (irq : UInt8) : Cascade :=
  Pic.outb c (linePort irq) (Pic.inb c (linePort irq) &&& ~~~lineBit irq)

/-! ## `pic_remap` between requests -/

inductive PicEvent where
  | code (f : PicRemap → PicRemap)
  | raise (n : Nat)
  | withdraw (n : Nat)

namespace PicEvent

def code? : PicEvent → Option (PicRemap → PicRemap)
  | code f => some f
  | raise _ => none
  | withdraw _ => none

def apply (s : PicRemap) : PicEvent → PicRemap
  | code f => f s
  | raise n => { s with chips := s.chips.request n true }
  | withdraw n => { s with chips := s.chips.request n false }

end PicEvent

/-! ## What requests leave alone -/

def quiet (p : Pic8259) : Pic8259 := { p with irr := fun _ => false }

theorem quiet_writeCommand (p : Pic8259) (val : UInt8) :
    quiet (p.writeCommand val) = quiet ((quiet p).writeCommand val) := by
  unfold Pic8259.writeCommand
  by_cases h1 : val &&& 0x10 ≠ 0
  · rw [if_pos h1, if_pos h1]
    rfl
  · rw [if_neg h1, if_neg h1]
    by_cases h2 : val &&& 0x28 = 0x20
    · rw [if_pos h2, if_pos h2]
      have hservice : (quiet p).inService = p.inService := rfl
      rw [hservice]
      cases if val &&& 0x40 ≠ 0 then some (val &&& 7).toNat else p.inService <;> rfl
    · rw [if_neg h2, if_neg h2]
      rfl

theorem quiet_writeData (p : Pic8259) (val : UInt8) :
    quiet (p.writeData val) = quiet ((quiet p).writeData val) := by
  unfold Pic8259.writeData
  dsimp only [quiet]
  cases p.expects <;> rfl

/-- Four words set a chip up again, whatever it was doing, and the fifth is its mask. -/
theorem writes_init (p : Pic8259) (base wiring mask : UInt8) :
    ((((p.writeCommand 0x11).writeData base).writeData wiring).writeData 0x01).writeData mask =
      { p with
        irr := fun _ => false, imr := mask, icw1 := 0x11, icw2 := base, icw3 := wiring, icw4 := 0x01
        expects := .ocw1 } := by
  simp +decide [Pic8259.writeCommand, Pic8259.writeData]

namespace PicRemap

def settings (s : PicRemap) : PicRemap := { s with chips := ⟨quiet s.chips.master, quiet s.chips.slave⟩ }

theorem settings_outb (port : UInt16) (val : UInt8) (s : PicRemap) :
    (s.outb port val).settings = (s.settings.outb port val).settings := by
  unfold PicRemap.outb Pic.outb
  by_cases h1 : port = pic1Command
  · simp only [if_pos h1, settings, quiet_writeCommand s.chips.master val]
    rfl
  · by_cases h2 : port = pic1Data
    · simp only [if_neg h1, if_pos h2, settings, quiet_writeData s.chips.master val]
      rfl
    · by_cases h3 : port = pic2Command
      · simp only [if_neg h1, if_neg h2, if_pos h3, settings, quiet_writeCommand s.chips.slave val]
        rfl
      · by_cases h4 : port = pic2Data
        · simp only [if_neg h1, if_neg h2, if_neg h3, if_pos h4, settings, quiet_writeData s.chips.slave val]
          rfl
        · simp only [if_neg h1, if_neg h2, if_neg h3, if_neg h4]
          rfl

theorem settings_picRemap {f : PicRemap → PicRemap} (hf : f ∈ picRemap) (s : PicRemap) :
    (f s).settings = (f s.settings).settings := by
  have hwait : (PicRemap.ioWait s).settings = (PicRemap.ioWait s.settings).settings := rfl
  simp only [picRemap, List.mem_cons, List.not_mem_nil, or_false] at hf
  rcases hf with rfl | rfl | rfl | rfl | rfl | rfl | rfl | rfl | rfl | rfl |
    rfl | rfl | rfl | rfl | rfl | rfl | rfl | rfl | rfl | rfl
  all_goals first
    | exact hwait
    | exact settings_outb _ _ s
    | rfl

theorem run_picRemap (s : PicRemap) : picRemap.foldl (fun s f => f s) s =
    { chips :=
        ⟨{ s.chips.master with
            irr := fun _ => false, imr := s.chips.master.imr, icw1 := 0x11, icw2 := 0x20, icw3 := 0x04, icw4 := 0x01
            expects := .ocw1 },
          { s.chips.slave with
            irr := fun _ => false, imr := s.chips.slave.imr, icw1 := 0x11, icw2 := 0x28, icw3 := 0x02, icw4 := 0x01
            expects := .ocw1 }⟩
      mask1 := s.chips.master.imr
      mask2 := s.chips.slave.imr } := by
  rw [← writes_init, ← writes_init]
  rfl

theorem settings_interleaved {l : List PicEvent} (h : l.filterMap PicEvent.code? = picRemap) (s : PicRemap) :
    (l.foldl PicEvent.apply s).settings = (picRemap.foldl (fun s f => f s) s).settings := by
  have hmem : ∀ i ∈ l, ∀ f, i.code? = some f → f ∈ picRemap :=
    fun i hi f hf => h ▸ List.mem_filterMap.mpr ⟨i, hi, hf⟩
  have hall := view_foldl (l := l) (s := s) (v := settings) (m := PicEvent.code?) (a := fun s f => (f s).settings)
    (f := PicEvent.apply) (fun i hi f hf s => ?_) fun i _ hi s => ?_
  · have hplain := view_foldl (l := picRemap) (s := s) (v := settings) (m := some) (a := fun s f => (f s).settings)
      (f := fun s f => f s) (fun f hf g hg s => ?_) fun f _ hf => by cases hf
    · rw [List.filterMap_some] at hplain
      rw [hall, h, hplain]
    · cases hg
      exact settings_picRemap hf s
  · cases i with
    | code g =>
      cases hf
      exact settings_picRemap (hmem _ hi _ rfl) s
    | raise n => cases hf
    | withdraw n => cases hf
  · cases i with
    | code g => cases hi
    | raise n =>
      simp only [PicEvent.apply, Cascade.request]
      split <;> rfl
    | withdraw n =>
      simp only [PicEvent.apply, Cascade.request]
      split <;> rfl

end PicRemap

/-- However devices come in between, both chips end up set up, with the masks and the interrupts in service
that they had. -/
theorem PicRemap.wired_interleaved {l : List PicEvent} (h : l.filterMap PicEvent.code? = picRemap) (s : PicRemap) :
    (l.foldl PicEvent.apply s).chips.Wired ∧
      (l.foldl PicEvent.apply s).chips.requests.masked = s.chips.requests.masked ∧
      (l.foldl PicEvent.apply s).chips.master.isr = s.chips.master.isr ∧
      (l.foldl PicEvent.apply s).chips.slave.isr = s.chips.slave.isr := by
  have hsettings := PicRemap.settings_interleaved h s
  rw [PicRemap.run_picRemap] at hsettings
  generalize l.foldl PicEvent.apply s = t at hsettings
  obtain ⟨⟨master, slave⟩, mask1, mask2⟩ := t
  obtain ⟨hchips, -, -⟩ := PicRemap.mk.inj hsettings
  obtain ⟨hmaster, hslave⟩ := Cascade.mk.inj hchips
  obtain ⟨-, hisr, himr, -, h2, h3, h4, he⟩ := Pic8259.mk.inj hmaster
  obtain ⟨-, hisr', himr', -, h2', h3', h4', he'⟩ := Pic8259.mk.inj hslave
  refine ⟨⟨⟨he, h2, h3, h4⟩, ⟨he', h2', h3', h4'⟩⟩, funext fun n => ?_, hisr, hisr'⟩
  simp only [Cascade.requests, Pic8259.masked]
  rw [himr, himr']

/-! ## Masks -/

theorem testBit_or_line {k : Nat} (hk : k < 8) (imr : UInt8) (i : Nat) :
    (imr ||| UInt8.ofNat (1 <<< k)).toNat.testBit i = (imr.toNat.testBit i || decide (i = k)) := by
  have hline : ∀ k < 8, (UInt8.ofNat (1 <<< k)).toNat = 2 ^ k := by decide
  rw [UInt8.toNat_or, Nat.testBit_or, hline k hk, Nat.testBit_two_pow]
  simp only [eq_comm]

theorem testBit_and_line {k : Nat} (hk : k < 8) (imr : UInt8) (i : Nat) :
    (imr &&& ~~~UInt8.ofNat (1 <<< k)).toNat.testBit i = (imr.toNat.testBit i && !decide (i = k)) := by
  have hline : ∀ k < 8, ∀ i < 8, (~~~UInt8.ofNat (1 <<< k)).toNat.testBit i = !decide (i = k) := by decide
  rw [UInt8.toNat_and, Nat.testBit_and]
  by_cases hi : i < 8
  · rw [hline k hk i hi]
  · have hzero : imr.toNat.testBit i = false :=
      Nat.testBit_lt_two_pow (Nat.lt_of_lt_of_le imr.toNat_lt (Nat.pow_le_pow_right (by decide) (by omega)))
    rw [hzero, Bool.false_and, Bool.false_and]

/-- One port access that sets line `irq`'s mask to `b` and nothing else. -/
structure Masks (c c' : Cascade) (irq : UInt8) (b : Bool) : Prop where
  requests : c'.requests = c.requests.mask irq.toNat b
  wired : c'.Wired
  master : c'.master.isr = c.master.isr
  slave : c'.slave.isr = c.slave.isr

theorem masks_outb {c : Cascade} {irq val : UInt8} {b : Bool} (hw : c.Wired) (hirq : irq < 16)
    (hval : ∀ i, val.toNat.testBit i =
      if i = (if irq < 8 then irq else irq - 8).toNat then b else (Pic.inb c (linePort irq)).toNat.testBit i) :
    Masks c (Pic.outb c (linePort irq) val) irq b := by
  have hlt : irq.toNat < 16 := UInt8.lt_iff_toNat_lt.mp hirq
  by_cases h8 : irq < 8
  · have hport : linePort irq = pic1Data := if_pos h8
    have h8' : irq.toNat < 8 := UInt8.lt_iff_toNat_lt.mp h8
    rw [if_pos h8, hport] at hval
    have hout : Pic.outb c pic1Data val = { c with master := { c.master with imr := val } } := by
      rw [← Pic8259.writeData_ocw1 hw.master.1]
      rfl
    rw [hport, hout]
    refine ⟨Requests.ext rfl (funext fun n => ?_), ⟨hw.master, hw.slave⟩, rfl, rfl⟩
    dsimp only [Requests.mask, Cascade.requests, Pic8259.masked]
    rw [Function.update_apply, hval]
    by_cases hn : n = irq.toNat
    · rw [if_pos hn, if_pos hn, if_pos (hn ▸ h8')]
    · rw [if_neg hn, if_neg hn]
      rfl
  · have hport : linePort irq = pic2Data := if_neg h8
    have h8' : 8 ≤ irq.toNat := Nat.le_of_not_lt fun h => h8 (UInt8.lt_iff_toNat_lt.mpr h)
    have hsub : (irq - 8).toNat = irq.toNat - 8 := UInt8.toNat_sub_of_le irq 8 (UInt8.le_iff_toNat_le.mpr h8')
    rw [if_neg h8, hport, hsub] at hval
    have hout : Pic.outb c pic2Data val = { c with slave := { c.slave with imr := val } } := by
      rw [← Pic8259.writeData_ocw1 hw.slave.1]
      rfl
    rw [hport, hout]
    refine ⟨Requests.ext rfl (funext fun n => ?_), ⟨hw.master, hw.slave⟩, rfl, rfl⟩
    dsimp only [Requests.mask, Cascade.requests, Pic8259.masked]
    rw [Function.update_apply, hval]
    by_cases hn : n = irq.toNat
    · have hn8 : ¬n < 8 := by omega
      rw [if_pos hn, if_neg hn8, if_pos (by omega)]
    · rw [if_neg hn]
      by_cases hn8 : n < 8
      · rw [if_pos hn8, if_pos hn8]
      · rw [if_neg hn8, if_neg hn8, if_neg (by omega)]
        rfl

theorem lineBit_lt {irq : UInt8} (hirq : irq < 16) : (if irq < 8 then irq else irq - 8).toNat < 8 := by
  have hlt : irq.toNat < 16 := UInt8.lt_iff_toNat_lt.mp hirq
  by_cases h8 : irq < 8
  · rw [if_pos h8]
    exact UInt8.lt_iff_toNat_lt.mp h8
  · have h8' : 8 ≤ irq.toNat := Nat.le_of_not_lt fun h => h8 (UInt8.lt_iff_toNat_lt.mpr h)
    rw [if_neg h8, UInt8.toNat_sub_of_le irq 8 (UInt8.le_iff_toNat_le.mpr h8')]
    exact Nat.sub_lt_left_of_lt_add h8' hlt

theorem masks_picSetMask {c : Cascade} {irq : UInt8} (hw : c.Wired) (hirq : irq < 16) :
    Masks c (picSetMask c irq) irq true := by
  refine masks_outb hw hirq fun i => ?_
  rw [lineBit, testBit_or_line (lineBit_lt hirq)]
  by_cases hi : i = (if irq < 8 then irq else irq - 8).toNat
  · rw [if_pos hi, decide_eq_true hi, Bool.or_true]
  · rw [if_neg hi, decide_eq_false hi, Bool.or_false]

theorem masks_picClearMask {c : Cascade} {irq : UInt8} (hw : c.Wired) (hirq : irq < 16) :
    Masks c (picClearMask c irq) irq false := by
  refine masks_outb hw hirq fun i => ?_
  rw [lineBit, testBit_and_line (lineBit_lt hirq)]
  by_cases hi : i = (if irq < 8 then irq else irq - 8).toNat
  · rw [if_pos hi, decide_eq_true hi, Bool.not_true, Bool.and_false]
  · rw [if_neg hi, decide_eq_false hi, Bool.not_false, Bool.and_true]

/-! ## The end of an interrupt -/

theorem outb_pic1Command (c : Cascade) (val : UInt8) :
    Pic.outb c pic1Command val = { c with master := c.master.writeCommand val } := rfl

theorem outb_pic2Command (c : Cascade) (val : UInt8) :
    Pic.outb c pic2Command val = { c with slave := c.slave.writeCommand val } := rfl

theorem isr_of_idle {p : Pic8259} (h : p.Idle) : p = { p with isr := fun _ => false } := by
  unfold Pic8259.Idle at h
  rw [← h]

/-- The handler's command ends what is in service for `s`, on the chips that have it in service. -/
theorem picSendEoi_serving {c : Cascade} {s : Requests.Served} {irq : UInt8} (h : c.Serving s)
    (hirq : irq.toNat = s.number) (hlt : s.number < 16) :
    picSendEoi c irq = ⟨{ c.master with isr := fun _ => false }, { c.slave with isr := fun _ => false }⟩ := by
  unfold picSendEoi
  have hslave : ∀ {n : Nat}, irq.toNat = n → n < 8 → ¬irq ≥ 8 := fun he hn hle => by
    have := UInt8.le_iff_toNat_le.mp hle
    change 8 ≤ irq.toNat at this
    omega
  have hslave' : ∀ {n : Nat}, irq.toNat = n → ¬n < 8 → irq ≥ 8 :=
    fun he hn => UInt8.le_iff_toNat_le.mpr (by change 8 ≤ irq.toNat; omega)
  cases s with
  | line n =>
    by_cases hn : n < 8
    · rw [Cascade.Serving, if_pos hn] at h
      rw [if_neg (hslave hirq hn), outb_pic1Command, Pic8259.eoi_of_only h.1 hn, ← isr_of_idle h.2]
    · rw [Cascade.Serving, if_neg hn] at h
      have hn' : n - 8 < 8 := Nat.sub_lt_left_of_lt_add (by omega) hlt
      rw [if_pos (hslave' hirq hn), outb_pic2Command, outb_pic1Command, Pic8259.eoi_of_only h.1 (by decide),
        Pic8259.eoi_of_only h.2 hn']
  | spurious n =>
    by_cases hn : n < 8
    · rw [Cascade.Serving, if_pos hn] at h
      rw [if_neg (hslave hirq hn), outb_pic1Command, Pic8259.eoi_of_idle h.1, ← isr_of_idle h.1, ← isr_of_idle h.2]
    · rw [Cascade.Serving, if_neg hn] at h
      rw [if_pos (hslave' hirq hn), outb_pic2Command, outb_pic1Command, Pic8259.eoi_of_only h.1 (by decide),
        Pic8259.eoi_of_idle h.2, ← isr_of_idle h.2]

end KernelOs
