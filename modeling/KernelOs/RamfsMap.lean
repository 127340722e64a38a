import KernelOs.Ramfs
import KernelOs.Lib.Run
import KernelOs.Lib.WriteOnce
import Mathlib.Data.List.OfFn
import Mathlib.Data.List.ReduceOption

/-!
# The file system is a bounded write-once map

After any calls the used entries are the first ones, in the order of their
registrations. An over-long name is copied into every unused entry before the
registration fails, but nothing reads the name of an unused entry.
-/

namespace KernelOs
open Lib

abbrev FileMap := WriteOnce CString RamfsFile maxRamfsFiles

inductive RamfsCall where
  | registerFile (name : Option CString) (data : Option Memory) (size : UInt64)
  | openFile (name : Option CString)

inductive RamfsAnswer where
  | registered (accepted : Bool)
  | opened (file : Option RamfsFile)

def ramfsStep (entries : Ramfs) : RamfsCall → RamfsAnswer × Ramfs
  | .registerFile name data size =>
    let (accepted, entries') := ramfsRegisterFile entries (name.map Subtype.val) data size
    (.registered accepted, entries')
  | .openFile name => (.opened (ramfsOpen entries (name.map Subtype.val)), entries)

/-! ## What the calls do to a map -/

namespace FileMap

def register (files : FileMap) (name : Option CString) (data : Option Memory) (size : UInt64) : Bool × FileMap :=
  match name, data with
  | some name, some data =>
    if size ≠ 0 ∧ name.val.length < maxRamfsNameLength then
      match files.add name ⟨data, size⟩ with
      | some files' => (true, files')
      | none => (false, files)
    else (false, files)
  | _, _ => (false, files)

def step (files : FileMap) : RamfsCall → RamfsAnswer × FileMap
  | .registerFile name data size =>
    let (accepted, files') := files.register name data size
    (.registered accepted, files')
  | .openFile name => (.opened (name.bind files.get), files)

end FileMap

/-- The entry that a call added, by its answer. -/
def registered : RamfsCall → RamfsAnswer → Option (CString × RamfsFile)
  | .registerFile (some name) (some data) size, .registered true => some (name, ⟨data, size⟩)
  | _, _ => none

def registrations (calls : List RamfsCall) (answers : List RamfsAnswer) : List (CString × RamfsFile) :=
  (List.zipWith registered calls answers).reduceOption

/-! ## Names -/

theorem namesEqual_unique {buffer : Nat → UInt8} :
    ∀ {index : Nat} {first second : List UInt8}, 0 ∉ first → 0 ∉ second →
    namesEqual buffer index first = true → namesEqual buffer index second = true → first = second
  | _, [], [], _, _, _, _ => rfl
  | index, [], c :: second, _, h, h1, h2 => by
    simp only [namesEqual, beq_iff_eq, Bool.and_eq_true] at h1 h2
    exact absurd (List.mem_cons.mpr (Or.inl (h1.symm.trans h2.1))) h
  | index, c :: first, [], h, _, h1, h2 => by
    simp only [namesEqual, beq_iff_eq, Bool.and_eq_true] at h1 h2
    exact absurd (List.mem_cons.mpr (Or.inl (h2.symm.trans h1.1))) h
  | index, c :: first, d :: second, h, h', h1, h2 => by
    simp only [namesEqual, beq_iff_eq, Bool.and_eq_true] at h1 h2
    rw [List.mem_cons, not_or] at h h'
    rw [← h1.1, ← h2.1, namesEqual_unique h.2 h'.2 h1.2 h2.2]

theorem copyName_short :
    ∀ (name : List UInt8) (buffer : Nat → UInt8) (index : Nat), index + name.length < maxRamfsNameLength →
    ∃ buffer', copyName buffer index name = (true, buffer') ∧ namesEqual buffer' index name = true ∧
    ∀ i < index, buffer' i = buffer i
  | [], buffer, index, _ =>
    ⟨_, rfl, by simp [namesEqual], fun i hi => Function.update_of_ne (Nat.ne_of_lt hi) _ _⟩
  | c :: name, buffer, index, h => by
    rw [List.length_cons] at h
    obtain ⟨buffer', he, hname, hframe⟩ :=
      copyName_short name (Function.update buffer index c) (index + 1) (by omega)
    refine ⟨buffer', by rw [copyName, if_neg (by omega), he], ?_, fun i hi => ?_⟩
    · rw [namesEqual, hframe index (Nat.lt_succ_self index), Function.update_self, hname]
      simp
    · rw [hframe i (by omega), Function.update_of_ne (Nat.ne_of_lt hi)]

theorem copyName_long : ∀ (name : List UInt8) (buffer : Nat → UInt8) (index : Nat), index < maxRamfsNameLength →
    maxRamfsNameLength ≤ index + name.length → (copyName buffer index name).1 = false
  | [], _, index, h, h' => by
    rw [List.length_nil] at h'
    omega
  | c :: name, buffer, index, h, h' => by
    rw [List.length_cons] at h'
    rw [copyName]
    split
    · rfl
    · exact copyName_long name _ (index + 1) (by omega) (by omega)

/-! ## The loop of `ramfs_register_file` -/

section
variable {name : List UInt8} (file : RamfsFile)

/-- A name that fits goes into the first unused entry. -/
theorem registerLoop_short (hname : name.length < maxRamfsNameLength) :
    ∀ (l : List (Fin maxRamfsFiles)) (entries : Ramfs),
    (l.find? (fun index => !(entries index).used) = none ∧ registerLoop name file l entries = (false, entries)) ∨
      ∃ index buffer, l.find? (fun index => !(entries index).used) = some index ∧ namesEqual buffer 0 name = true ∧
        registerLoop name file l entries = (true, Function.update entries index ⟨buffer, file, true⟩)
  | [], _ => Or.inl ⟨rfl, rfl⟩
  | index :: l, entries => by
    cases hused : (entries index).used with
    | true =>
      rw [registerLoop, if_pos hused, List.find?_cons_of_neg (by simp [hused])]
      exact registerLoop_short hname l entries
    | false =>
      obtain ⟨buffer, he, heq, -⟩ := copyName_short name (entries index).name 0 (by rwa [Nat.zero_add])
      refine Or.inr ⟨index, buffer, List.find?_cons_of_pos (by simp [hused]), heq, ?_⟩
      rw [registerLoop, if_neg (by simp [hused]), he]
      rfl

/-- An over-long name fits nowhere, and changes name buffers of unused entries only. -/
theorem registerLoop_long (hname : maxRamfsNameLength ≤ name.length) :
    ∀ (l : List (Fin maxRamfsFiles)) (entries : Ramfs),
    ∃ entries', registerLoop name file l entries = (false, entries') ∧
    ∀ index, (entries' index).used = (entries index).used ∧
      (entries' index).file = (entries index).file ∧
      ((entries index).used = true → (entries' index).name = (entries index).name)
  | [], entries => ⟨entries, rfl, fun _ => ⟨rfl, rfl, fun _ => rfl⟩⟩
  | index :: l, entries => by
    cases hused : (entries index).used with
    | true =>
      rw [registerLoop, if_pos hused]
      exact registerLoop_long hname l entries
    | false =>
      have hcopy := copyName_long name (entries index).name 0 (by decide) (by rwa [Nat.zero_add])
      rw [registerLoop, if_neg (by simp [hused])]
      simp only [hcopy, Bool.false_eq_true, if_false]
      obtain ⟨entries', he, hkeep⟩ := registerLoop_long hname l
        (Function.update entries index { entries index with name := (copyName (entries index).name 0 name).2 })
      refine ⟨entries', he, fun j => ?_⟩
      have hj := hkeep j
      by_cases hji : j = index
      · subst hji
        rw [Function.update_self] at hj
        exact ⟨hj.1, hj.2.1, fun h => by rw [hused] at h; cases h⟩
      · rwa [Function.update_of_ne hji] at hj

end

/-! ## The refinement -/

structure HoldsFiles (entries : Ramfs) (files : FileMap) : Prop where
  used : ∀ index, (entries index).used = decide (index.val < files.entries.length)
  file : ∀ (index : Fin maxRamfsFiles) (h : index.val < files.entries.length),
    namesEqual (entries index).name 0 files.entries[index.val].1.val = true ∧
    (entries index).file = files.entries[index.val].2

namespace HoldsFiles

variable {entries : Ramfs} {files : FileMap} {name : CString}

theorem init (entries : Ramfs) : HoldsFiles (ramfsInit entries) WriteOnce.empty where
  used _ := rfl
  file _ h := absurd h (Nat.not_lt_zero _)

theorem matches_iff (h : HoldsFiles entries files) (index : Fin maxRamfsFiles) :
    ((entries index).used && namesEqual (entries index).name 0 name.val) = true ↔
      ∃ hi : index.val < files.entries.length, files.entries[index.val].1 = name := by
  rw [Bool.and_eq_true, h.used, decide_eq_true_eq]
  constructor
  · rintro ⟨hi, hname⟩
    exact ⟨hi, Subtype.ext (namesEqual_unique files.entries[index.val].1.2 name.2 (h.file index hi).1 hname)⟩
  · rintro ⟨hi, rfl⟩
    exact ⟨hi, (h.file index hi).1⟩

theorem ramfsOpen_eq (h : HoldsFiles entries files) (name : CString) :
    ramfsOpen entries (some name.val) = files.get name := by
  ext file
  rw [WriteOnce.get_eq_some, ramfsOpen, Option.bind_some, Option.map_eq_some_iff]
  constructor
  · rintro ⟨index, hfind, rfl⟩
    have hmatch : ((entries index).used && namesEqual (entries index).name 0 name.val) = true := by
      simpa using List.find?_some hfind
    obtain ⟨hi, rfl⟩ := (h.matches_iff index).mp hmatch
    rw [(h.file index hi).2]
    exact List.getElem_mem hi
  · intro hmem
    obtain ⟨i, hi, he⟩ := List.getElem_of_mem hmem
    let index : Fin maxRamfsFiles := ⟨i, Nat.lt_of_lt_of_le hi files.length_le⟩
    refine ⟨index, ?_, by rw [(h.file index hi).2, show files.entries[index.val] = _ from he]⟩
    refine (List.find?_ofFn_eq_some_of_injective (i := index) fun _ _ => id).mpr ⟨?_, fun j hj hmatch => ?_⟩
    · exact (h.matches_iff index).mpr ⟨hi, by rw [show files.entries[index.val] = _ from he]⟩
    · -- an earlier entry has another name
      obtain ⟨hj', hname⟩ := (h.matches_iff j).mp hmatch
      refine WriteOnce.key_ne hj' hi (Nat.ne_of_lt hj) ?_
      rw [hname, he]

theorem any_matches_iff (h : HoldsFiles entries files) (name : CString) :
    ((List.finRange maxRamfsFiles).any fun index => (entries index).used && namesEqual
      (entries index).name 0 name.val) = true ↔
      name ∈ files.keys := by
  rw [List.any_eq_true, WriteOnce.mem_keys]
  constructor
  · rintro ⟨index, -, hmatch⟩
    obtain ⟨hi, rfl⟩ := (h.matches_iff index).mp hmatch
    exact ⟨_, List.getElem_mem hi⟩
  · rintro ⟨file, hmem⟩
    obtain ⟨i, hi, he⟩ := List.getElem_of_mem hmem
    exact ⟨⟨i, Nat.lt_of_lt_of_le hi files.length_le⟩, List.mem_finRange _, (h.matches_iff _).mpr ⟨hi, by rw [he]⟩⟩

theorem snoc (h : HoldsFiles entries files) {files' : FileMap} {file : RamfsFile} {buffer : Nat → UInt8}
    {index : Fin maxRamfsFiles} (hadd : files'.entries = files.entries ++ [(name, file)])
    (hindex : index.val = files.entries.length) (hname : namesEqual buffer 0 name.val = true) :
    HoldsFiles (Function.update entries index ⟨buffer, file, true⟩) files' where
  used j := by
    rw [hadd, List.length_append, List.length_singleton]
    by_cases hj : j = index
    · subst hj
      simp [hindex]
    · have hne : j.val ≠ files.entries.length := fun he => hj (Fin.ext (he.trans hindex.symm))
      rw [Function.update_of_ne hj, h.used j]
      exact decide_eq_decide.mpr ⟨fun hlt => Nat.lt_succ_of_lt hlt, fun hlt => by omega⟩
  file j hj := by
    simp only [hadd, List.length_append, List.length_singleton] at hj ⊢
    by_cases hji : j = index
    · subst hji
      rw [Function.update_self]
      simp [hindex, hname]
    · have hne : j.val ≠ files.entries.length := fun he => hji (Fin.ext (he.trans hindex.symm))
      rw [Function.update_of_ne hji, List.getElem_append_left (by omega)]
      exact h.file j (by omega)

theorem first_unused (h : HoldsFiles entries files) {index : Fin maxRamfsFiles}
    (hfind : (List.finRange maxRamfsFiles).find? (fun index => !(entries index).used) = some index) :
    index.val = files.entries.length := by
  obtain ⟨hunused, hbefore⟩ := (List.find?_ofFn_eq_some_of_injective (i := index) fun _ _ => id).mp hfind
  have hle : files.entries.length ≤ index.val := by simpa [h.used] using hunused
  by_contra hne
  have := hbefore ⟨files.entries.length, by omega⟩ (show files.entries.length < index.val by omega)
  simp [h.used] at this

theorem all_used (h : HoldsFiles entries files)
    (hfind : (List.finRange maxRamfsFiles).find? (fun index => !(entries index).used) = none) :
    maxRamfsFiles ≤ files.entries.length := by
  by_contra hlt
  have := List.find?_eq_none.mp hfind ⟨files.entries.length, by omega⟩ (List.mem_finRange _)
  simp [h.used] at this

theorem register (h : HoldsFiles entries files) (name : Option CString) (data : Option Memory) (size : UInt64) :
    (ramfsRegisterFile entries (name.map Subtype.val) data size).1 = (files.register name data size).1 ∧
      HoldsFiles (ramfsRegisterFile entries (name.map Subtype.val) data size).2
      (files.register name data size).2 := by
  cases name with
  | none => exact ⟨rfl, h⟩
  | some name =>
  cases data with
  | none => exact ⟨rfl, h⟩
  | some data =>
  simp only [Option.map_some, ramfsRegisterFile, FileMap.register]
  by_cases hsize : size = 0
  · rw [if_pos hsize, if_neg (by simp [hsize])]
    exact ⟨rfl, h⟩
  rw [if_neg hsize]
  by_cases hknown : name ∈ files.keys
  · rw [if_pos ((h.any_matches_iff name).mpr hknown), WriteOnce.add_eq_none.mpr (Or.inl hknown)]
    simp [h]
  rw [if_neg (mt (h.any_matches_iff name).mp hknown)]
  by_cases hname : name.val.length < maxRamfsNameLength
  · rw [if_pos ⟨hsize, hname⟩]
    rcases registerLoop_short ⟨data, size⟩ hname (List.finRange maxRamfsFiles) entries with
      ⟨hfind, he⟩ | ⟨index, buffer, hfind, hbuffer, he⟩
    · rw [he, WriteOnce.add_eq_none.mpr (Or.inr (h.all_used hfind))]
      exact ⟨rfl, h⟩
    · have hindex := h.first_unused hfind
      obtain ⟨files', hadd⟩ := Option.isSome_iff_exists.mp
        ((WriteOnce.add_isSome (b := ⟨data, size⟩)).mpr ⟨hknown, by rw [← hindex]; exact index.2⟩)
      rw [he, hadd]
      exact ⟨rfl, h.snoc (WriteOnce.add_entries hadd) hindex hbuffer⟩
  · rw [if_neg fun hc => hname hc.2]
    obtain ⟨entries', he, hkeep⟩ :=
      registerLoop_long ⟨data, size⟩ (Nat.not_lt.mp hname) (List.finRange maxRamfsFiles) entries
    rw [he]
    refine ⟨rfl, fun index => (hkeep index).1.trans (h.used index), fun index hi => ?_⟩
    have hused : (entries index).used = true := by rw [h.used, decide_eq_true hi]
    rw [(hkeep index).2.1, (hkeep index).2.2 hused]
    exact h.file index hi

theorem step (h : HoldsFiles entries files) (call : RamfsCall) :
    (ramfsStep entries call).1 = (files.step call).1 ∧
      HoldsFiles (ramfsStep entries call).2 (files.step call).2 := by
  cases call with
  | registerFile name data size =>
    obtain ⟨heq, hholds⟩ := h.register name data size
    exact ⟨congrArg RamfsAnswer.registered heq, hholds⟩
  | openFile name =>
    refine ⟨congrArg RamfsAnswer.opened ?_, h⟩
    cases name with
    | none => rfl
    | some name => exact h.ramfsOpen_eq name

end HoldsFiles

/-! ## Runs -/

namespace FileMap

variable {files files' : FileMap} {name : Option CString} {data : Option Memory} {size : UInt64}

theorem register_accepts :
    (files.register name data size).1 = true ↔ ∃ n d, name = some n ∧ data = some d ∧ size ≠ 0 ∧
    n.val.length < maxRamfsNameLength ∧ n ∉ files.keys ∧ files.entries.length < maxRamfsFiles := by
  cases name with
  | none => simp [register]
  | some n =>
  cases data with
  | none => simp [register]
  | some d =>
  rw [register]
  by_cases hfit : size ≠ 0 ∧ n.val.length < maxRamfsNameLength
  · have hsome := WriteOnce.add_isSome (m := files) (k := n) (b := ⟨d, size⟩)
    rw [if_pos hfit]
    cases hadd : files.add n ⟨d, size⟩ with
    | none =>
      rw [hadd] at hsome
      simpa [hfit] using hsome
    | some files' =>
      rw [hadd] at hsome
      simpa [hfit] using hsome
  · rw [if_neg hfit]
    simp only [Bool.false_eq_true, false_iff]
    rintro ⟨n', d', hn, -, hsize, hlen, -⟩
    obtain rfl := Option.some.inj hn
    exact hfit ⟨hsize, hlen⟩

theorem register_refused (h : (files.register name data size).1 = false) :
    (files.register name data size).2 = files := by
  unfold register at h ⊢
  split
  · split
    · split
      · next hadd => simp_all
      · rfl
    · rfl
  · rfl

/-- One call adds the entry that its answer tells. -/
theorem step_entries (files : FileMap) (call : RamfsCall) :
    (files.step call).2.entries = files.entries ++ (registered call (files.step call).1).toList := by
  cases call with
  | openFile name => simp [step, registered]
  | registerFile name data size =>
    cases name with
    | none => simp [step, registered, register]
    | some n =>
    cases data with
    | none => simp [step, registered, register]
    | some d =>
    simp only [step, register]
    split
    · split
      · next hadd => simp [registered, WriteOnce.add_entries hadd]
      · simp [registered]
    · simp [registered]

theorem final_entries : ∀ (calls : List RamfsCall) (files : FileMap),
    (final step files calls).entries = files.entries ++ registrations calls (outputs step files calls)
  | [], files => (List.append_nil _).symm
  | call :: calls, files => by
    rw [final, final_entries calls, step_entries, List.append_assoc, outputs, registrations, registrations,
      List.zipWith_cons_cons]
    cases registered call (files.step call).1 with
    | none => simp
    | some e => simp

end FileMap

theorem HoldsFiles.run {entries : Ramfs} {files : FileMap} (h : HoldsFiles entries files) (calls : List RamfsCall) :
    outputs ramfsStep entries calls = outputs FileMap.step files calls ∧
      HoldsFiles (final ramfsStep entries calls) (final FileMap.step files calls) :=
  outputs_eq_of_simulation (fun _ _ call h => h.step call) calls h

/-- **ramfs is a bounded write-once map.** `files` lists the registrations that succeeded so far. -/
theorem ramfs_write_once (entries : Ramfs) (calls : List RamfsCall) :
    let s := final ramfsStep (ramfsInit entries) calls
    let files := registrations calls (outputs ramfsStep (ramfsInit entries) calls)
    (files.map Prod.fst).Nodup ∧
      (∀ (name : Option CString) (data : Option Memory) (size : UInt64),
        (ramfsRegisterFile s (name.map Subtype.val) data size).1 = true ↔
        ∃ n d, name = some n ∧ data = some d ∧ size ≠ 0 ∧
          n.val.length < maxRamfsNameLength ∧ n ∉ files.map Prod.fst ∧ files.length < maxRamfsFiles) ∧
      (∀ (name : Option CString) (file : RamfsFile),
        ramfsOpen s (name.map Subtype.val) = some file ↔ ∃ n, name = some n ∧ (n, file) ∈ files) ∧
      ∀ (name : Option CString) (data : Option Memory) (size : UInt64),
        (ramfsRegisterFile s (name.map Subtype.val) data size).1 = false →
          let s' := (ramfsRegisterFile s (name.map Subtype.val) data size).2
          (∀ name : Option CString, ramfsOpen s' (name.map Subtype.val) = ramfsOpen s (name.map Subtype.val)) ∧
            ∀ later, outputs ramfsStep s' later = outputs ramfsStep s later := by
  obtain ⟨hout, hs⟩ := (HoldsFiles.init entries).run calls
  intro s files
  have hfiles : files = (final FileMap.step WriteOnce.empty calls).entries := by
    rw [FileMap.final_entries, ← hout]
    rfl
  generalize final FileMap.step WriteOnce.empty calls = map at hs hfiles
  rw [hfiles]
  refine ⟨map.nodup, fun name data size => ?_, fun name file => ?_, fun name data size hrefused => ?_⟩
  · rw [(hs.register name data size).1]
    exact FileMap.register_accepts
  · cases name with
    | none => simp [ramfsOpen]
    | some n =>
      rw [Option.map_some, hs.ramfsOpen_eq n, WriteOnce.get_eq_some]
      simp
  · obtain ⟨heq, hs'⟩ := hs.register name data size
    rw [FileMap.register_refused (heq.symm.trans hrefused)] at hs'
    refine ⟨fun name' => ?_, fun later => (hs'.run later).1.trans (hs.run later).1.symm⟩
    cases name' with
    | none => rfl
    | some n => exact (hs'.ramfsOpen_eq n).trans (hs.ramfsOpen_eq n).symm

end KernelOs
