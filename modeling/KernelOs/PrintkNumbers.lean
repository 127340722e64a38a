import KernelOs.Printk
import KernelOs.Lib.Numeral

/-!
# Numbers in print

What `write_unsigned` prints is the numeral of its value, so each number can be read back from
its text.
-/

namespace KernelOs
open Lib

/-! ## Reading numbers -/

def digitValue (character : UInt8) : Option Nat :=
  if '0'.toUInt8 ≤ character ∧ character ≤ '9'.toUInt8 then some (character.toNat - '0'.toNat)
  else if 'a'.toUInt8 ≤ character ∧ character ≤ 'f'.toUInt8 then some (character.toNat - 'a'.toNat + 10)
  else none

def readUnsigned (base : Nat) (text : List UInt8) : Option Nat :=
  readNumeral (fun character => (digitValue character).filter (· < base)) base text

/-- An optional '-' and digits. -/
def readSigned (base : Nat) : List UInt8 → Option Int
  | [] => none
  | character :: text =>
    if character = '-'.toUInt8 then (readUnsigned base text).map fun n : Nat => -(n : Int)
    else (readUnsigned base (character :: text)).map fun n : Nat => (n : Int)

def digitsOf (text : List UInt8) : List UInt8 := text.filter (· ≠ '-'.toUInt8)

/-- The one text for `value`. -/
structure Canonical (base : Nat) (value : Int) (text : List UInt8) : Prop where
  reads : readSigned base text = some value
  sign : '-'.toUInt8 ∈ text ↔ value < 0
  lead : (digitsOf text).head? = some '0'.toUInt8 → text = ['0'.toUInt8]
  length : (digitsOf text).length ≤ 16

/-- A conversion has used one argument and printed `value`, inside the array. -/
structure PrintsNumber (format : Nat → UInt8) (r : PrintTrace (Option (Nat × Console))) (arg base : Nat)
    (value : Int) : Prop where
  returns : ∃ c, r.val = some (arg + 1, c)
  text : Canonical base value (printed format r.trace)
  inside : ∀ index, .digit index ∈ r.trace → index < 16

theorem PrintsNumber.value_unique {format format' : Nat → UInt8} {r r' : PrintTrace (Option (Nat × Console))}
    {arg arg' base : Nat} {v v' : Int} (h' : PrintsNumber format' r' arg' base v')
    (h : PrintsNumber format r arg base v) (ht : printed format' r'.trace = printed format r.trace) : v' = v := by
  have hreads := h'.text.reads
  rw [ht, h.text.reads] at hreads
  exact (Option.some.inj hreads).symm

/-! ## Digits -/

def digitSymbol (d : Nat) : UInt8 := digitChar (UInt64.ofNat d)

theorem digitValue_digitSymbol : ∀ d < 16, digitValue (digitSymbol d) = some d := by decide

theorem digitSymbol_eq_zero : ∀ d < 16, digitSymbol d = '0'.toUInt8 → d = 0 := by decide

theorem digitSymbol_ne_minus : ∀ d < 16, digitSymbol d ≠ '-'.toUInt8 := by decide

section
variable {base : Nat} (hb : 1 < base) (hb' : base ≤ 16) (n : Nat)
include hb hb'

theorem readUnsigned_numeral : readUnsigned base (numeral digitSymbol base n) = some n := by
  refine readNumeral_numeral hb (fun d hd => ?_) n
  rw [digitValue_digitSymbol d (by omega), Option.filter_some, if_pos (by simpa using hd)]

theorem minus_not_mem_numeral : '-'.toUInt8 ∉ numeral digitSymbol base n := fun hmem => by
  obtain ⟨d, hd, he⟩ := mem_numeral hb hmem
  exact digitSymbol_ne_minus d (by omega) he.symm

theorem digitsOf_numeral : digitsOf (numeral digitSymbol base n) = numeral digitSymbol base n := by
  refine List.filter_eq_self.mpr fun character hmem => ?_
  have hne : character ≠ '-'.toUInt8 := by
    rintro rfl
    exact minus_not_mem_numeral hb hb' n hmem
  simpa using hne

theorem lead_numeral (h : (numeral digitSymbol base n).head? = some '0'.toUInt8) : n = 0 := by
  by_contra hn
  obtain ⟨d, hpos, hd, hhead⟩ := head_numeral digitSymbol hb hn
  rw [hhead] at h
  have := digitSymbol_eq_zero d (by omega) (Option.some.inj h)
  omega

/-- The numeral of a number, behind a '-' if the number is negative. -/
theorem canonical_numeral {value : Int} (hn : value.natAbs < base ^ 16) :
    Canonical base value ((if value < 0 then ['-'.toUInt8] else []) ++ numeral digitSymbol base value.natAbs) := by
  have hread := readUnsigned_numeral hb hb' value.natAbs
  have hminus := minus_not_mem_numeral hb hb' value.natAbs
  have hdigits : digitsOf ((if value < 0 then ['-'.toUInt8] else []) ++ numeral digitSymbol base value.natAbs) =
      numeral digitSymbol base value.natAbs := by
    rw [digitsOf, List.filter_append, ← digitsOf, ← digitsOf, digitsOf_numeral hb hb']
    split <;> rfl
  have hlen := length_numeral_le digitSymbol hb (by decide : 0 < 16) hn
  constructor
  · split
    · next hneg =>
      rw [List.singleton_append, readSigned, if_pos rfl, hread, Option.map_some]
      congr 1
      omega
    · rw [List.nil_append]
      cases htext : numeral digitSymbol base value.natAbs with
      | nil => exact absurd htext (numeral_ne_nil digitSymbol base _)
      | cons character text =>
        rw [htext] at hread hminus
        have hne : character ≠ '-'.toUInt8 := by
          rintro rfl
          exact hminus (List.mem_cons_self ..)
        rw [readSigned, if_neg hne, hread, Option.map_some]
        congr 1
        omega
  · rw [List.mem_append]
    split
    · next hneg => exact iff_of_true (Or.inl (List.mem_singleton_self _)) hneg
    · next hpos => exact iff_of_false (fun h => h.elim List.not_mem_nil hminus) hpos
  · rw [hdigits]
    intro hlead
    have h0 : value = 0 := Int.natAbs_eq_zero.mp (lead_numeral hb hb' _ hlead)
    subst h0
    rfl
  · rwa [hdigits]

end

/-! ## The loops -/

theorem printed_append (format : Nat → UInt8) (xs ys : List PrintEvent) :
    printed format (xs ++ ys) = printed format xs ++ printed format ys :=
  List.filterMap_append ..

@[simp] theorem printed_console (format : Nat → UInt8) (events : List ConsoleEvent) :
    printed format (events.map .console) = [] := by
  simp [printed]

@[simp] theorem printed_putChar (format : Nat → UInt8) (c : Console) (character : UInt8) :
    printed format (putChar c character).trace = [character] := by
  show character :: printed format (_ : List PrintEvent) = _
  rw [printed_console]

/-- The format string is left alone, and of the array the first `k` elements are used. -/
def PrintEvent.Within (k : Nat) : PrintEvent → Prop
  | .read _ | .copy _ => False
  | .put _ | .console _ => True
  | .digit index => index < k

theorem within_putChar (k : Nat) (c : Console) (character : UInt8) :
    (putChar c character).Within (PrintEvent.Within k) := by
  intro e he
  rcases List.mem_cons.mp he with rfl | he
  · trivial
  · obtain ⟨e', -, rfl⟩ := List.mem_map.mp he
    trivial

section
variable {base : UInt32} {n : Nat} {value : UInt64}

theorem digitLoop_last (h : value / base.toUInt64 = 0) (count : Nat) (digits : Nat → UInt8) :
    digitLoop base (n + 1) value count digits =
    ⟨some (count + 1, Function.update digits count (digitChar (value % base.toUInt64))), [.digit count]⟩ := by
  simp [digitLoop, h, storeDigit, bind, pure]

theorem digitLoop_next (h : value / base.toUInt64 ≠ 0) (count : Nat) (digits : Nat → UInt8) :
    digitLoop base (n + 1) value count digits =
    let rest :=
      digitLoop base n (value / base.toUInt64) (count + 1)
        (Function.update digits count (digitChar (value % base.toUInt64)))
    ⟨rest.val, .digit count :: rest.trace⟩ := by
  simp [digitLoop, h, storeDigit, bind]

end

/-- `ds` lies in the array from position `count` on. -/
def Stored (digits : Nat → UInt8) (count : Nat) (ds : List Nat) : Prop :=
  ∀ i d, ds[i]? = some d → digits (count + i) = digitSymbol d

theorem Stored.cons {digits : Nat → UInt8} {count d : Nat} {ds : List Nat} (h : digits count = digitSymbol d)
    (hs : Stored digits (count + 1) ds) :
    Stored digits count (d :: ds) := by
  intro i e he
  cases i with
  | zero =>
    obtain rfl := Option.some.inj he
    exact h
  | succ i =>
    rw [Nat.add_comm i 1, ← Nat.add_assoc]
    exact hs i e he

/-- The first loop stores the digits of `value` from position `count` on. -/
theorem digitLoop_spec {base : UInt32} (hb : 1 < base.toNat) :
    ∀ (n : Nat) (value : UInt64) (count : Nat) (digits : Nat → UInt8), 0 < n →
    value.toNat < base.toNat ^ n → ∃ digits', (digitLoop base n value count digits).val =
        some (count + (numeralDigits base.toNat value.toNat).length, digits') ∧
      Stored digits' count (numeralDigits base.toNat value.toNat) ∧ (∀ i < count, digits' i = digits i) ∧
      ∀ e ∈ (digitLoop base n value count digits).trace, ∃ i <
      count + (numeralDigits base.toNat value.toNat).length, e = .digit i
  | n + 1, value, count, digits, _, hlt => by
    have hbase : base.toUInt64.toNat = base.toNat := UInt32.toNat_toUInt64 base
    have hmod : (value % base.toUInt64).toNat = value.toNat % base.toNat := by rw [UInt64.toNat_mod, hbase]
    have hdiv : (value / base.toUInt64).toNat = value.toNat / base.toNat := by rw [UInt64.toNat_div, hbase]
    have hsymbol : Function.update digits count (digitChar (value % base.toUInt64)) count =
        digitSymbol (value.toNat % base.toNat) := by
      rw [Function.update_self, digitSymbol, ← hmod, UInt64.ofNat_toNat]
    rw [numeralDigits_step hb, ← hdiv]
    by_cases h0 : value / base.toUInt64 = 0
    · rw [digitLoop_last h0, if_pos (by rw [h0, UInt64.toNat_zero])]
      exact ⟨_, rfl, .cons hsymbol fun i d hd => by simp at hd,
        fun i hi => Function.update_of_ne (Nat.ne_of_lt hi) .., fun e he =>
          ⟨count, Nat.lt_succ_self _, List.mem_singleton.mp he⟩⟩
    · have h0' : (value / base.toUInt64).toNat ≠ 0 := fun hz => h0 (UInt64.toNat_inj.mp hz)
      have hn : 0 < n := by
        refine Nat.pos_of_ne_zero fun hn => h0' ?_
        rw [hn, Nat.zero_add, pow_one] at hlt
        rw [hdiv, Nat.div_eq_of_lt hlt]
      have hlt' : (value / base.toUInt64).toNat < base.toNat ^ n := by
        rw [hdiv, Nat.div_lt_iff_lt_mul (by omega), ← pow_succ]
        exact hlt
      obtain ⟨digits', h1, h2, h3, h4⟩ := digitLoop_spec hb n (value / base.toUInt64) (count + 1)
        (Function.update digits count (digitChar (value % base.toUInt64))) hn hlt'
      rw [digitLoop_next h0, if_neg h0', List.length_cons]
      refine ⟨digits', h1.trans (by rw [Nat.add_assoc, Nat.add_comm 1]),
        .cons ((h3 count (Nat.lt_succ_self _)).trans hsymbol) h2, fun i hi =>
          (h3 i (Nat.lt_succ_of_lt hi)).trans (Function.update_of_ne (Nat.ne_of_lt hi) ..), fun e he => ?_⟩
      rcases List.mem_cons.mp he with rfl | he
      · exact ⟨count, by omega, rfl⟩
      · obtain ⟨i, hi, rfl⟩ := h4 e he
        exact ⟨i, by omega, rfl⟩

theorem putDigits_spec (format digits : Nat → UInt8) : ∀ (count : Nat) (c : Console),
    printed format (putDigits digits count c).trace = ((List.range count).map digits).reverse ∧
      (putDigits digits count c).Within (PrintEvent.Within count)
  | 0, c => ⟨rfl, .pure c⟩
  | count + 1, c => by
    obtain ⟨ih, hwithin⟩ := putDigits_spec format digits count (putChar c (digits count)).val
    constructor
    · show printed format
        (.digit count ::
        ((putChar c (digits count)).trace ++ (putDigits digits count (putChar c (digits count)).val).trace)) = _
      rw [← List.singleton_append, printed_append, printed_append, printed_putChar, ih, List.range_succ,
        List.map_append, List.reverse_append]
      rfl
    · refine .bind (fun e he => ?_) (.bind (within_putChar _ c _) fun e he => ?_)
      · rw [List.mem_singleton.mp he]
        exact Nat.lt_succ_self count
      · have := hwithin e he
        cases e with
        | digit index => exact Nat.lt_succ_of_lt this
        | _ => exact this

/-- `write_unsigned` prints the numeral of `value`. -/
theorem writeUnsigned_spec {base : UInt32} (hb : 1 < base.toNat) (format garbage : Nat → UInt8) (c : Console)
    (value : UInt64) :
    (∃ c', (writeUnsigned garbage c value base).val = some c') ∧
      printed format (writeUnsigned garbage c value base).trace = numeral digitSymbol base.toNat value.toNat ∧
      (writeUnsigned garbage c value base).Within
      (PrintEvent.Within (numeral digitSymbol base.toNat value.toNat).length) := by
  have hlt : value.toNat < base.toNat ^ 64 := Nat.lt_of_lt_of_le value.toNat_lt (Nat.pow_le_pow_left hb 64)
  obtain ⟨digits, h1, h2, -, h4⟩ := digitLoop_spec hb 64 value 0 garbage (by decide) hlt
  have hlen : (numeral digitSymbol base.toNat value.toNat).length =
    (numeralDigits base.toNat value.toNat).length := by simp [numeral]
  rw [Nat.zero_add] at h1 h4
  obtain ⟨k1, k2⟩ := putDigits_spec format digits (numeralDigits base.toNat value.toNat).length c
  have he : writeUnsigned garbage c value base =
      ⟨some (putDigits digits (numeralDigits base.toNat value.toNat).length c).val,
        (digitLoop base 64 value 0 garbage).trace ++
        (putDigits digits (numeralDigits base.toNat value.toNat).length c).trace⟩ := by
    simp [writeUnsigned, bind, pure, h1]
  have hsilent : printed format (digitLoop base 64 value 0 garbage).trace = [] := by
    refine List.filterMap_eq_nil_iff.mpr fun e hmem => ?_
    obtain ⟨i, -, rfl⟩ := h4 e hmem
    rfl
  rw [he]
  refine ⟨⟨_, rfl⟩, ?_, fun e hmem => ?_⟩
  · show printed format (_ ++ _) = _
    rw [printed_append, hsilent, List.nil_append, k1, numeral]
    congr 1
    refine List.ext_getElem (by simp) fun i hi hi' => ?_
    rw [List.getElem_map, List.getElem_map, List.getElem_range,
      ← h2 i _ (List.getElem?_eq_getElem (by simpa using hi')), Nat.zero_add]
  · rw [hlen]
    rcases List.mem_append.mp hmem with hmem | hmem
    · obtain ⟨i, hi, rfl⟩ := h4 e hmem
      exact hi
    · exact k2 e hmem

/-! ## The conversions -/

theorem toInt_eq (value : Int32) :
    value.toInt =
      if 2 * value.toUInt32.toNat < 2 ^ 32 then (value.toUInt32.toNat : Int) else value.toUInt32.toNat - 2 ^ 32 :=
  BitVec.toInt_eq_toNat_cond value.toBitVec

theorem natAbs_of_neg {value : Int32} (h : value < 0) :
    ((-(value + 1)).toUInt32 + 1).toNat = value.toInt.natAbs := by
  rw [Int32.lt_iff_toInt_lt] at h
  have hone : (-(value + 1)).toUInt32 + 1 = -value.toUInt32 := by
    rw [Int32.toUInt32_neg, Int32.toUInt32_add]
    show -(value.toUInt32 + 1) + 1 = -value.toUInt32
    grind
  have hlt := value.toUInt32.toNat_lt
  have hint := toInt_eq value
  rw [hone, UInt32.toNat_neg, UInt32.size]
  change value.toInt < 0 at h
  split at hint
  · omega
  · omega

theorem natAbs_of_nonneg {value : Int32} (h : ¬ value < 0) : value.toUInt32.toNat = value.toInt.natAbs := by
  rw [Int32.lt_iff_toInt_lt] at h
  change ¬ value.toInt < 0 at h
  have hlt := value.toUInt32.toNat_lt
  have hint := toInt_eq value
  split at hint
  · omega
  · omega

section
variable {format : Nat → UInt8} {arguments : Arguments} {garbage : Nat → UInt8} {index arg : Nat} {c : Console}

theorem conversion_unsigned (h : format index = 'u'.toUInt8) : conversion format arguments garbage index arg c =
    ⟨(writeUnsigned garbage c (arguments.unsigned arg).toUInt64 10).val.map fun c => (arg + 1, c),
      .read index :: (writeUnsigned garbage c (arguments.unsigned arg).toUInt64 10).trace⟩ := by
  simp only [conversion, readFormat, bind, pure, h, show ¬ 'u'.toUInt8 = '%'.toUInt8 by decide,
    show ¬ 'u'.toUInt8 = 'c'.toUInt8 by
      decide, show ¬ 'u'.toUInt8 = 's'.toUInt8 by
        decide, show ¬ 'u'.toUInt8 = 'd'.toUInt8 by decide, if_true, if_false, List.append_nil,
    List.singleton_append]

theorem conversion_hex (h : format index = 'x'.toUInt8) : conversion format arguments garbage index arg c =
    ⟨(writeUnsigned garbage c (arguments.unsigned arg).toUInt64 16).val.map fun c => (arg + 1, c),
      .read index :: (writeUnsigned garbage c (arguments.unsigned arg).toUInt64 16).trace⟩ := by
  simp only [conversion, readFormat, bind, pure, h, show ¬ 'x'.toUInt8 = '%'.toUInt8 by decide,
    show ¬ 'x'.toUInt8 = 'c'.toUInt8 by
      decide, show ¬ 'x'.toUInt8 = 's'.toUInt8 by
        decide, show ¬ 'x'.toUInt8 = 'd'.toUInt8 by decide, show ¬ 'x'.toUInt8 = 'u'.toUInt8 by decide,
    if_true, if_false, List.append_nil, List.singleton_append]

theorem conversion_neg (h : format index = 'd'.toUInt8) (hneg : arguments.int arg < 0) :
    conversion format arguments garbage index arg c =
    let c' := (putChar c '-'.toUInt8).val
    let r := writeUnsigned garbage c' ((-(arguments.int arg + 1)).toUInt32 + 1).toUInt64 10
    ⟨r.val.map fun c => (arg + 1, c), .read index :: ((putChar c '-'.toUInt8).trace ++ r.trace)⟩ := by
  simp only [conversion, readFormat, bind, pure, h, show ¬ 'd'.toUInt8 = '%'.toUInt8 by decide,
    show ¬ 'd'.toUInt8 = 'c'.toUInt8 by
      decide, show ¬ 'd'.toUInt8 = 's'.toUInt8 by
        decide, hneg, if_true, if_false, List.append_nil, List.singleton_append]

theorem conversion_nonneg (h : format index = 'd'.toUInt8) (hpos : ¬ arguments.int arg < 0) :
    conversion format arguments garbage index arg c =
    ⟨(writeUnsigned garbage c (arguments.int arg).toUInt32.toUInt64 10).val.map fun c => (arg + 1, c),
      .read index :: (writeUnsigned garbage c (arguments.int arg).toUInt32.toUInt64 10).trace⟩ := by
  simp only [conversion, readFormat, bind, pure, h, show ¬ 'd'.toUInt8 = '%'.toUInt8 by decide,
    show ¬ 'd'.toUInt8 = 'c'.toUInt8 by
      decide, show ¬ 'd'.toUInt8 = 's'.toUInt8 by
        decide, hpos, if_true, if_false, List.append_nil, List.singleton_append]

/-- A sign, if any, and then a call of `write_unsigned` print a number. -/
theorem printsNumber_of (base : UInt32) (sign : List PrintEvent) (hb : 1 < base.toNat) (hb' : base.toNat ≤ 16)
    {value : Int} {magnitude : UInt64} {r : PrintTrace (Option (Nat × Console))}
    (hval : r.val = (writeUnsigned garbage c magnitude base).val.map fun c => (arg + 1, c))
    (htrace : r.trace = .read index :: (sign ++ (writeUnsigned garbage c magnitude base).trace))
    (hsign : printed format sign = if value < 0 then ['-'.toUInt8] else []) (hdigit : ∀ i, .digit i ∉ sign)
    (hmag : magnitude.toNat = value.natAbs) (hsmall : value.natAbs < base.toNat ^ 16) :
    PrintsNumber format r arg base.toNat value := by
  obtain ⟨⟨c', h1⟩, h2, h3⟩ := writeUnsigned_spec hb format garbage c magnitude
  rw [hmag] at h2 h3
  have htext : printed format r.trace =
      (if value < 0 then ['-'.toUInt8] else []) ++ numeral digitSymbol base.toNat value.natAbs := by
    rw [htrace, ← List.singleton_append, printed_append, printed_append, hsign, h2]
    rfl
  refine ⟨⟨c', by rw [hval, h1]; rfl⟩, ?_, fun i hi => ?_⟩
  · rw [htext]
    exact canonical_numeral hb hb' hsmall
  · rw [htrace] at hi
    have hmem :=
      (List.mem_append.mp ((List.mem_cons.mp hi).resolve_left fun he => by cases he)).resolve_left (hdigit i)
    exact Nat.lt_of_lt_of_le (h3 _ hmem) (length_numeral_le digitSymbol hb (by decide) hsmall)

theorem prints_signed (h : format index = 'd'.toUInt8) :
    PrintsNumber format (conversion format arguments garbage index arg c) arg 10 (arguments.int arg).toInt := by
  have hint := toInt_eq (arguments.int arg)
  have hlt := (arguments.int arg).toUInt32.toNat_lt
  have hsmall : (arguments.int arg).toInt.natAbs < 10 ^ 16 := by
    split at hint
    · omega
    · omega
  by_cases hneg : arguments.int arg < 0
  · have hneg' : (arguments.int arg).toInt < 0 := Int32.lt_iff_toInt_lt.mp hneg
    rw [conversion_neg h hneg]
    refine printsNumber_of 10 (putChar c '-'.toUInt8).trace (by decide) (by decide) rfl rfl ?_
      (fun i hi => ?_) ?_ hsmall
    · rw [printed_putChar, if_pos hneg']
    · exact absurd (within_putChar 0 c '-'.toUInt8 _ hi) (Nat.not_lt_zero i)
    · rw [UInt32.toNat_toUInt64]
      exact natAbs_of_neg hneg
  · have hpos' : ¬ (arguments.int arg).toInt < 0 := fun hc => hneg (Int32.lt_iff_toInt_lt.mpr hc)
    rw [conversion_nonneg h hneg]
    refine printsNumber_of 10 [] (by decide) (by decide) rfl rfl ?_ (fun i hi => List.not_mem_nil hi) ?_ hsmall
    · rw [if_neg hpos']
      rfl
    · rw [UInt32.toNat_toUInt64]
      exact natAbs_of_nonneg hneg

theorem prints_unsigned (h : format index = 'u'.toUInt8) :
    PrintsNumber format (conversion format arguments garbage index arg c) arg 10
      (arguments.unsigned arg).toNat := by
  have hlt := (arguments.unsigned arg).toNat_lt
  rw [conversion_unsigned h]
  refine printsNumber_of 10 [] (by decide) (by decide) rfl rfl ?_ (fun i hi => List.not_mem_nil hi) ?_ ?_
  · rw [if_neg (by omega)]
    rfl
  · exact UInt32.toNat_toUInt64 _
  · show _ < 10 ^ 16
    omega

theorem prints_hex (h : format index = 'x'.toUInt8) :
    PrintsNumber format (conversion format arguments garbage index arg c) arg 16
      (arguments.unsigned arg).toNat := by
  have hlt := (arguments.unsigned arg).toNat_lt
  rw [conversion_hex h]
  refine printsNumber_of 16 [] (by decide) (by decide) rfl rfl ?_ (fun i hi => List.not_mem_nil hi) ?_ ?_
  · rw [if_neg (by omega)]
    rfl
  · exact UInt32.toNat_toUInt64 _
  · show _ < 16 ^ 16
    omega

end

/-- **Numbers can be read back** from what `%d`, `%u` and `%x` print, wherever they stand in a format string. -/
theorem printk_numbers (format : Nat → UInt8) (arguments : Arguments) (garbage : Nat → UInt8) (index arg : Nat)
    (c : Console) :
    let r := conversion format arguments garbage index arg c
    (format index = 'd'.toUInt8 → PrintsNumber format r arg 10 (arguments.int arg).toInt) ∧
    (format index = 'u'.toUInt8 → PrintsNumber format r arg 10 (arguments.unsigned arg).toNat) ∧
    (format index = 'x'.toUInt8 → PrintsNumber format r arg 16 (arguments.unsigned arg).toNat) ∧
    ∀ (format' : Nat → UInt8) (arguments' : Arguments) (garbage' : Nat → UInt8) (index' arg' : Nat) (c' : Console),
      let r' := conversion format' arguments' garbage' index' arg' c'
      format' index' = format index → printed format' r'.trace = printed format r.trace →
        (format index = 'd'.toUInt8 → arguments'.int arg' = arguments.int arg) ∧
        (format index = 'u'.toUInt8 ∨ format index = 'x'.toUInt8 → arguments'.unsigned arg' =
        arguments.unsigned arg) := by
  refine ⟨prints_signed, prints_unsigned, prints_hex,
    fun format' arguments' garbage' index' arg' c' hletter htext => ⟨fun h => ?_, ?_⟩⟩
  · exact Int32.toInt_inj.mp (PrintsNumber.value_unique (prints_signed (hletter.trans h)) (prints_signed h) htext)
  · rintro (h | h)
    · exact UInt32.toNat_inj.mp
        (Int.ofNat_inj.mp
        (PrintsNumber.value_unique (prints_unsigned (hletter.trans h)) (prints_unsigned h) htext))
    · exact UInt32.toNat_inj.mp
        (Int.ofNat_inj.mp (PrintsNumber.value_unique (prints_hex (hletter.trans h)) (prints_hex h) htext))

theorem printk_numbers_int_min :
    let arguments : Arguments := ⟨fun _ => 0x80000000, fun _ => ⟨[], by decide⟩⟩
    PrintsNumber (fun _ => 'd'.toUInt8)
        (conversion (fun _ => 'd'.toUInt8) arguments (fun _ => 0) 1 0 ⟨fun _ => 0, 0, 0⟩) 0 10 (-2147483648) :=
  (printk_numbers (fun _ => 'd'.toUInt8) _ _ 1 0 _).1 rfl

end KernelOs
