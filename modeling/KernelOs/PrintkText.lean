import KernelOs.PrintkFormat

/-!
# Format strings as texts

A format string is a list of pieces, each of which stands for a text and may use up an argument.
On the screen and the serial line `printk` is `console_write` of all these texts.
-/

namespace KernelOs
open Lib

inductive Piece where
  | plain (character : UInt8)
  | percent
  | char
  | string
  | signed
  | unsigned
  | hex
  /-- '%' and a character that is no conversion. -/
  | other (character : UInt8)
  deriving DecidableEq

namespace Piece

def conversion (character : UInt8) : Piece :=
  if character = '%'.toUInt8 then percent
  else if character = 'c'.toUInt8 then char
  else if character = 's'.toUInt8 then string
  else if character = 'd'.toUInt8 then signed
  else if character = 'u'.toUInt8 then unsigned
  else if character = 'x'.toUInt8 then hex
  else other character

/-- The arguments that the piece uses up. -/
def uses : Piece → Nat
  | char | string | signed | unsigned | hex => 1
  | plain _ | percent | other _ => 0

def signedText (value : Int) : List UInt8 :=
  (if value < 0 then ['-'.toUInt8] else []) ++ numeral digitSymbol 10 value.natAbs

def text (arguments : Arguments) (arg : Nat) : Piece → List UInt8
  | plain character => [character]
  | percent => ['%'.toUInt8]
  | char => [(arguments.word arg).toUInt8]
  | string => if arguments.word arg = 0 then nullString else (arguments.string (arguments.word arg)).val
  | signed => signedText (arguments.int arg).toInt
  | unsigned => numeral digitSymbol 10 (arguments.unsigned arg).toNat
  | hex => numeral digitSymbol 16 (arguments.unsigned arg).toNat
  | other character => ['%'.toUInt8, character]

end Piece

/-- `none` if the string ends within a conversion. -/
def pieces : List UInt8 → Option (List Piece)
  | [] => some []
  | [character] => if character = '%'.toUInt8 then none else some [.plain character]
  | character :: next :: s =>
    if character = '%'.toUInt8 then (pieces s).map (.conversion next :: ·)
    else (pieces (next :: s)).map (.plain character :: ·)

/-- The pieces with their arguments, from position `arg` on. -/
def render (arguments : Arguments) : Nat → List Piece → List UInt8
  | _, [] => []
  | arg, piece :: rest => piece.text arguments arg ++ render arguments (arg + piece.uses) rest

/-! ## What is written -/

def PrintEvent.console? : PrintEvent → Option ConsoleEvent
  | .console e => some e
  | _ => none

/-- On the screen and the serial line this has been `console_write` of `text`. -/
structure Writes (c c' : Console) (text : List UInt8) (trace : List PrintEvent) : Prop where
  console : c' = (consoleWrite c text).val
  trace : trace.filterMap PrintEvent.console? = (consoleWrite c text).trace

theorem consoleWrite_append (c : Console) (text₁ text₂ : List UInt8) :
    (consoleWrite c (text₁ ++ text₂)).val = (consoleWrite (consoleWrite c text₁).val text₂).val ∧
      (consoleWrite c (text₁ ++ text₂)).trace =
      (consoleWrite c text₁).trace ++ (consoleWrite (consoleWrite c text₁).val text₂).trace := by
  induction text₁ generalizing c with
  | nil => exact ⟨rfl, rfl⟩
  | cons character text₁ ih =>
    obtain ⟨h1, h2⟩ := ih (consolePutChar c character).val
    exact ⟨h1, (congrArg ((consolePutChar c character).trace ++ ·) h2).trans (List.append_assoc ..).symm⟩

theorem filterMap_console (events : List ConsoleEvent) :
    (events.map .console).filterMap PrintEvent.console? = events := by
  rw [List.filterMap_map]
  exact List.filterMap_some

namespace Writes

variable {c c₁ c₂ : Console} {text text₁ text₂ : List UInt8} {trace trace₁ trace₂ : List PrintEvent}

theorem nil (h : trace.filterMap PrintEvent.console? = []) : Writes c c [] trace := ⟨rfl, h⟩

theorem append (h₁ : Writes c c₁ text₁ trace₁) (h₂ : Writes c₁ c₂ text₂ trace₂) :
    Writes c c₂ (text₁ ++ text₂) (trace₁ ++ trace₂) := by
  obtain ⟨hval, htrace⟩ := consoleWrite_append c text₁ text₂
  rw [← h₁.console] at hval htrace
  refine ⟨h₂.console.trans hval.symm, ?_⟩
  rw [List.filterMap_append, h₁.trace, h₂.trace, htrace]

theorem call {event : PrintEvent} (hevent : event.console? = none) (c : Console) (character : UInt8) :
    Writes c (callPutChar event c character).val [character] (callPutChar event c character).trace := by
  refine ⟨rfl, ?_⟩
  rw [callPutChar, List.filterMap_cons_none hevent, filterMap_console]
  exact (List.append_nil _).symm

theorem putChar (c : Console) (character : UInt8) :
    Writes c (putChar c character).val [character] (putChar c character).trace :=
  call rfl c character

theorem writeString :
    ∀ (string : List UInt8) (c : Console), Writes c (writeString c string).val string (writeString c string).trace
  | [], _ => nil rfl
  | character :: string, c => (putChar c character).append (writeString string _)

theorem putDigits (digits : Nat → UInt8) : ∀ (count : Nat) (c : Console),
    Writes c (putDigits digits count c).val ((List.range count).map digits).reverse (putDigits digits count c).trace
  | 0, _ => nil rfl
  | count + 1, c => by
    rw [List.range_succ, List.map_append, List.reverse_append]
    exact (nil rfl : Writes c c [] [.digit count]).append
      ((putChar c (digits count)).append (putDigits digits count _))

theorem writeUnsigned {base : UInt32} (hb : 1 < base.toNat) (garbage : Nat → UInt8) (c : Console) (value : UInt64) :
    ∃ c', (writeUnsigned garbage c value base).val = some c' ∧
      Writes c c' (numeral digitSymbol base.toNat value.toNat) (writeUnsigned garbage c value base).trace := by
  have hlt : value.toNat < base.toNat ^ 64 := Nat.lt_of_lt_of_le value.toNat_lt (Nat.pow_le_pow_left hb 64)
  obtain ⟨digits, h1, h2, -, h4⟩ := digitLoop_spec hb 64 value 0 garbage (by decide) hlt
  rw [Nat.zero_add] at h1 h4
  have he : KernelOs.writeUnsigned garbage c value base =
      ⟨some (KernelOs.putDigits digits (numeralDigits base.toNat value.toNat).length c).val,
      (digitLoop base 64 value 0 garbage).trace ++
        (KernelOs.putDigits digits (numeralDigits base.toNat value.toNat).length c).trace⟩ := by
    simp [KernelOs.writeUnsigned, bind, pure, h1]
  have hsilent : (digitLoop base 64 value 0 garbage).trace.filterMap PrintEvent.console? = [] := by
    refine List.filterMap_eq_nil_iff.mpr fun e hmem => ?_
    obtain ⟨i, -, rfl⟩ := h4 e hmem
    rfl
  have htext : ((List.range (numeralDigits base.toNat value.toNat).length).map digits).reverse =
      numeral digitSymbol base.toNat value.toNat := by
    rw [numeral]
    congr 1
    refine List.ext_getElem (by simp) fun i hi hi' => ?_
    rw [List.getElem_map, List.getElem_map, List.getElem_range,
      ← h2 i _ (List.getElem?_eq_getElem (by simpa using hi')), Nat.zero_add]
  rw [he, ← htext]
  exact ⟨_, rfl, (nil hsilent).append (putDigits digits _ c)⟩

end Writes

/-! ## Conversions -/

section
variable {format : Nat → UInt8} {arguments : Arguments} {garbage : Nat → UInt8} {index arg : Nat} {c : Console}

theorem conversion_percent (h : format index = '%'.toUInt8) : conversion format arguments garbage index arg c =
    ⟨some (arg, (putChar c '%'.toUInt8).val), .read index :: (putChar c '%'.toUInt8).trace⟩ := by
  simp only [conversion, readFormat, bind, pure, h, if_true, List.append_nil, List.singleton_append]

theorem conversion_char (h : format index = 'c'.toUInt8) : conversion format arguments garbage index arg c =
    let r := putChar c (arguments.int arg).toUInt32.toUInt8
    ⟨some (arg + 1, r.val), .read index :: r.trace⟩ := by
  simp only [conversion, readFormat, bind, pure, h, show ¬ 'c'.toUInt8 = '%'.toUInt8 by decide, if_true,
    if_false, List.append_nil, List.singleton_append]

theorem conversion_string (h : format index = 's'.toUInt8) : conversion format arguments garbage index arg c =
    let r := writeString c (if arguments.pointer arg ≠ 0 then (arguments.string (arguments.pointer arg)).val
      else nullString)
    ⟨some (arg + 1, r.val), .read index :: r.trace⟩ := by
  simp only [conversion, readFormat, bind, pure, h, show ¬ 's'.toUInt8 = '%'.toUInt8 by decide,
    show ¬ 's'.toUInt8 = 'c'.toUInt8 by decide, if_true, if_false, List.append_nil, List.singleton_append]

theorem conversion_other (h1 : format index ≠ '%'.toUInt8) (h2 : format index ≠ 'c'.toUInt8)
    (h3 : format index ≠ 's'.toUInt8) (h4 : format index ≠ 'd'.toUInt8) (h5 : format index ≠ 'u'.toUInt8)
    (h6 : format index ≠ 'x'.toUInt8) :
    conversion format arguments garbage index arg c =
      let r := putChar c '%'.toUInt8
      let r' := copyChar format r.val index
      ⟨some (arg, r'.val), .read index :: (r.trace ++ r'.trace)⟩ := by
  simp only [conversion, readFormat, bind, pure, h1, h2, h3, h4, h5, h6, if_false, List.append_nil,
    List.singleton_append]

theorem Writes.read {c' : Console} {text : List UInt8} {trace : List PrintEvent} (h : Writes c c' text trace)
    (index : Nat) :
    Writes c c' text (.read index :: trace) := (nil rfl : Writes c c [] [.read index]).append h

theorem writes_number {base : UInt32} (hb : 1 < base.toNat) (value : UInt64) :
    ∃ c', (writeUnsigned garbage c value base).val.map (fun c => (arg + 1, c)) = some (arg + 1, c') ∧
      Writes c c' (numeral digitSymbol base.toNat value.toNat)
    (.read index :: (writeUnsigned garbage c value base).trace) := by
  obtain ⟨c', hval, hwrites⟩ := Writes.writeUnsigned hb garbage c value
  exact ⟨c', by rw [hval]; rfl, hwrites.read index⟩

theorem writes_signed (h : format index = 'd'.toUInt8) :
    ∃ c', (conversion format arguments garbage index arg c).val = some (arg + 1, c') ∧
      Writes c c' (Piece.signedText (arguments.int arg).toInt)
    (conversion format arguments garbage index arg c).trace := by
  by_cases hneg : arguments.int arg < 0
  · have hneg' : (arguments.int arg).toInt < 0 := Int32.lt_iff_toInt_lt.mp hneg
    obtain ⟨c', hval, hwrites⟩ :=
      Writes.writeUnsigned (show 1 < (10 : UInt32).toNat by decide) garbage (putChar c '-'.toUInt8).val
      ((-(arguments.int arg + 1)).toUInt32 + 1).toUInt64
    rw [UInt32.toNat_toUInt64, natAbs_of_neg hneg] at hwrites
    rw [conversion_neg h hneg, Piece.signedText, if_pos hneg']
    exact ⟨c', by dsimp only; rw [hval]; rfl, ((Writes.putChar c '-'.toUInt8).append hwrites).read index⟩
  · have hpos' : ¬ (arguments.int arg).toInt < 0 := fun hc => hneg (Int32.lt_iff_toInt_lt.mpr hc)
    rw [conversion_nonneg h hneg, Piece.signedText, if_neg hpos', List.nil_append, ← natAbs_of_nonneg hneg,
      ← UInt32.toNat_toUInt64]
    exact writes_number (show 1 < (10 : UInt32).toNat by decide) _

theorem writes_conversion (format : Nat → UInt8) (arguments : Arguments) (garbage : Nat → UInt8)
    (index arg : Nat) (c : Console) :
    let piece := Piece.conversion (format index)
    ∃ c', (conversion format arguments garbage index arg c).val = some (arg + piece.uses, c') ∧
      Writes c c' (piece.text arguments arg) (conversion format arguments garbage index arg c).trace := by
  dsimp only
  unfold Piece.conversion
  split
  · next h =>
    rw [conversion_percent h]
    exact ⟨_, rfl, (Writes.putChar c _).read index⟩
  split
  · next h =>
    have hbyte : (arguments.int arg).toUInt32.toUInt8 = (arguments.word arg).toUInt8 := UInt64.toUInt8_toUInt32 _
    rw [conversion_char h, hbyte]
    exact ⟨_, rfl, (Writes.putChar c _).read index⟩
  split
  · next h =>
    have htext : (if arguments.pointer arg ≠ 0 then (arguments.string (arguments.pointer arg)).val
      else nullString) =
        Piece.string.text arguments arg := ite_not ..
    rw [conversion_string h, htext]
    exact ⟨_, rfl, (Writes.writeString _ c).read index⟩
  split
  · next h => exact writes_signed h
  split
  · next h =>
    rw [conversion_unsigned h, Piece.text, ← UInt32.toNat_toUInt64]
    exact writes_number (show 1 < (10 : UInt32).toNat by decide) _
  split
  · next h =>
    rw [conversion_hex h, Piece.text, ← UInt32.toNat_toUInt64]
    exact writes_number (show 1 < (16 : UInt32).toNat by decide) _
  · next h1 h2 h3 h4 h5 h6 =>
    rw [conversion_other h1 h2 h3 h4 h5 h6]
    exact ⟨_, rfl, ((Writes.putChar c _).append (Writes.call rfl _ _)).read index⟩

/-! ## The whole string -/

theorem dangling_eq_false_iff : ∀ s : List UInt8, dangling s = false ↔ (pieces s).isSome
  | [] => by simp [dangling, pieces]
  | [character] => by
    by_cases h : character = '%'.toUInt8
    · simp [dangling, pieces, h]
    · simp [dangling, pieces, h]
  | character :: next :: s => by
    rw [dangling, pieces]
    split
    · rw [dangling_eq_false_iff s, Option.isSome_map]
    · rw [dangling_eq_false_iff (next :: s), Option.isSome_map]

theorem pieces_plain {character : UInt8} (h : character ≠ '%'.toUInt8) (s : List UInt8) :
    pieces (character :: s) = (pieces s).map (.plain character :: ·) := by
  cases s with
  | nil => simp [pieces, h]
  | cons next s => rw [pieces, if_neg h]

/-- After all rounds the loop stands at the NUL, and has written the pieces. -/
theorem printkLoop_writes (arguments : Arguments) (garbage : Nat → UInt8) :
    ∀ (s : List UInt8) (l : List Piece) (index arg : Nat) (c : Console), HoldsString format index s → 0 ∉ s →
      pieces s = some l →
    ∃ c', ∀ n > s.length, (printkLoop format arguments garbage n index arg c).val = some (index + s.length, c') ∧
      Writes c c' (render arguments arg l) (printkLoop format arguments garbage n index arg c).trace
  | [], l, index, arg, c, hs, _, hl => by
    obtain rfl := Option.some.inj hl
    refine ⟨c, fun n hn => ?_⟩
    obtain ⟨n, rfl⟩ := Nat.exists_eq_succ_of_ne_zero (Nat.ne_zero_of_lt hn)
    rw [printkLoop_nul hs]
    exact ⟨rfl, .nil rfl⟩
  | character :: s, l, index, arg, c, ⟨hcharacter, hs⟩, h0, hl => by
    have hne : format index ≠ 0 := fun hz => h0 (by rw [← hz, hcharacter]; exact List.mem_cons_self ..)
    have h0' : 0 ∉ s := fun hmem => h0 (List.mem_cons_of_mem _ hmem)
    by_cases hpercent : character = '%'.toUInt8
    · match s, hs, h0', hl with
      | [], _, _, hl => simp [pieces, hpercent] at hl
      | next :: s, ⟨hnext, hs⟩, h0', hl =>
        rw [pieces, if_pos hpercent] at hl
        obtain ⟨l, hpieces, rfl⟩ := Option.map_eq_some_iff.mp hl
        obtain ⟨c₁, hval, hwrites⟩ := writes_conversion format arguments garbage (index + 1) arg c
        rw [hnext] at hval hwrites
        obtain ⟨c', ih⟩ :=
          printkLoop_writes arguments garbage s l (index + 1 + 1) (arg + (Piece.conversion next).uses) c₁ hs
          (fun hmem => h0' (List.mem_cons_of_mem _ hmem)) hpieces
        refine ⟨c', fun n hn => ?_⟩
        obtain ⟨n, rfl⟩ := Nat.exists_eq_succ_of_ne_zero (Nat.ne_zero_of_lt hn)
        obtain ⟨hrest, hwrites'⟩ := ih n (by simp only [List.length_cons] at hn; omega)
        rw [Nat.succ_eq_add_one, printkLoop_conversion (hcharacter.trans hpercent) hval]
        refine ⟨hrest.trans ?_, ?_⟩
        · simp only [List.length_cons]
          congr 2
          omega
        · exact (hwrites.read index).append hwrites'
    · rw [pieces_plain hpercent] at hl
      obtain ⟨l, hpieces, rfl⟩ := Option.map_eq_some_iff.mp hl
      obtain ⟨c', ih⟩ :=
        printkLoop_writes arguments garbage s l (index + 1) arg (copyChar format c index).val hs h0' hpieces
      refine ⟨c', fun n hn => ?_⟩
      obtain ⟨n, rfl⟩ := Nat.exists_eq_succ_of_ne_zero (Nat.ne_zero_of_lt hn)
      obtain ⟨hrest, hwrites⟩ := ih n (by simp only [List.length_cons] at hn; omega)
      rw [Nat.succ_eq_add_one, printkLoop_copy hne (hcharacter ▸ hpercent)]
      refine ⟨hrest.trans ?_, ?_⟩
      · simp only [List.length_cons]
        congr 2
        omega
      · have hcopy : Writes c (copyChar format c index).val [character] (copyChar format c index).trace :=
          hcharacter ▸ Writes.call rfl c (format index)
        exact (hcopy.read index).append hwrites

end

/-! ## Texts without a conversion -/

theorem holdsString_getD : ∀ (before s : List UInt8), HoldsString (fun i => (before ++ s).getD i 0) before.length s
  | before, [] => by simp [HoldsString]
  | before, character :: s => by
    refine ⟨by simp, ?_⟩
    have h := holdsString_getD (before ++ [character]) s
    rwa [List.append_assoc, List.length_append] at h

theorem pieces_eq_plain : ∀ {s : List UInt8}, '%'.toUInt8 ∉ s → pieces s = some (s.map .plain)
  | [], _ => rfl
  | character :: s, h => by
    have hne : character ≠ '%'.toUInt8 := fun he => h (he ▸ List.mem_cons_self ..)
    rw [pieces_plain hne, pieces_eq_plain fun hmem => h (List.mem_cons_of_mem _ hmem)]
    rfl

theorem render_plain (arguments : Arguments) (arg : Nat) : ∀ s : List UInt8, render arguments arg (s.map .plain) = s
  | [] => rfl
  | character :: s => congrArg (character :: ·) (render_plain arguments arg s)

theorem printk_plain {line : List UInt8} (hpercent : '%'.toUInt8 ∉ line) (h0 : 0 ∉ line) (arguments : Arguments)
    (garbage : Nat → UInt8) {n : Nat} (hn : line.length < n) (c : Console) :
    (printk (fun i => line.getD i 0) arguments garbage n c).val =
      some (line.length, (consoleWrite c line).val) := by
  have hstring : HoldsString (fun i => line.getD i 0) 0 line := holdsString_getD [] line
  obtain ⟨c', hloop⟩ :=
    printkLoop_writes arguments garbage line (line.map .plain) 0 0 c hstring h0 (pieces_eq_plain hpercent)
  obtain ⟨hval, hwrites⟩ := hloop n hn
  rw [render_plain] at hwrites
  rw [Nat.zero_add] at hval
  rw [printk, hval, hwrites.console]

/-- **What `printk` prints.** If its format string does not end within a conversion, `printk` stops at the
NUL, and on the screen and the serial line it is `console_write` of the pieces with their arguments. -/
theorem printk_renders (format : Nat → UInt8) (arguments : Arguments) (garbage : Nat → UInt8)
    (c : Console) (s : CString) (h : HoldsString format 0 s.val) (hd : dangling s.val = false) :
    ∃ l, pieces s.val = some l ∧ ∀ n > s.val.length,
      (printk format arguments garbage n c).val = some (s.val.length, (consoleWrite c (render arguments 0 l)).val) ∧
        (printk format arguments garbage n c).trace.filterMap PrintEvent.console? =
        (consoleWrite c (render arguments 0 l)).trace := by
  obtain ⟨l, hl⟩ := Option.isSome_iff_exists.mp ((dangling_eq_false_iff s.val).mp hd)
  obtain ⟨c', hloop⟩ := printkLoop_writes arguments garbage s.val l 0 0 c h s.property hl
  refine ⟨l, hl, fun n hn => ?_⟩
  obtain ⟨hval, hwrites⟩ := hloop n hn
  rw [Nat.zero_add] at hval
  exact ⟨by rw [printk, hval, hwrites.console], hwrites.trace⟩

/-- Two numbers and a percent sign. -/
theorem printk_renders_numbers :
    let string : List UInt8 :=
      ['%'.toUInt8, 'd'.toUInt8, ' '.toUInt8, '%'.toUInt8, 'x'.toUInt8, '%'.toUInt8, '%'.toUInt8]
    let arguments : Arguments := ⟨fun arg => if arg = 0 then 0xFFFFFFF9 else 0xB8, fun _ => ⟨[], by decide⟩⟩
    (printk (fun i => string.getD i 0) arguments (fun _ => 0) 8 ⟨fun _ => 0, 0,
      0⟩).trace.filterMap PrintEvent.console? =
      (consoleWrite ⟨fun _ => 0, 0, 0⟩ ("-7 b8%".toList.map Char.toUInt8)).trace := by
  intro string arguments
  obtain ⟨l, hl, hprintk⟩ :=
    printk_renders (fun i => string.getD i 0) arguments (fun _ => 0) ⟨fun _ => 0, 0, 0⟩ ⟨string, by decide⟩
    ⟨rfl, rfl, rfl, rfl, rfl, rfl, rfl, rfl⟩ (by decide)
  have hpieces : pieces string = some [.signed, .plain ' '.toUInt8, .hex, .percent] := by decide
  obtain rfl := Option.some.inj (hpieces.symm.trans hl)
  have hrender : render arguments 0 [.signed, .plain ' '.toUInt8, .hex, .percent] =
    "-7 b8%".toList.map Char.toUInt8 := by decide +kernel
  rw [(hprintk 8 (by decide)).2, hrender]

end KernelOs
