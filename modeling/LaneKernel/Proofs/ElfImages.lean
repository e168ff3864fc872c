import LaneKernel.Elf
import Mathlib.Algebra.Ring.Nat
import Mathlib.Logic.Basic

/-!
# Executables read back

The headers of a file as a loader reads them, every field at its own position.
An executable is refused for exactly the placements that no loader could map,
and the headers of every other one say where its code is.  The main statement is
`image_well_formed`.
-/

namespace LaneKernel.Elf

/-- The number that bytes stand for, low byte first. -/
def number : List UInt8 → Nat
  | [] => 0
  | byte :: rest => byte.toNat + 256 * number rest

theorem number_littleEndian {count value : Nat} (fits : value < 256 ^ count) :
    number (littleEndian count value) = value := by
  induction count generalizing value with
  | zero => rw [Nat.pow_zero, Nat.lt_one_iff] at fits; rw [fits]; rfl
  | succ count induction =>
      have rest : number (littleEndian count (value / 256)) = value / 256 :=
        induction (Nat.div_lt_of_lt_mul (by rwa [Nat.mul_comm, ← Nat.pow_succ]))
      rw [littleEndian, number, rest, UInt8.toNat_ofNat']
      exact Nat.mod_add_div value 256

/-- The number in `count` bytes of a file. -/
def fieldAt (file : Array UInt8) (position count : Nat) : Nat :=
  number ((file.toList.drop position).take count)

/-- The header at the front of a file. -/
@[ext]
structure FileHeader where
  identification : List UInt8
  kind : Nat
  processor : Nat
  version : Nat
  entry : Nat
  segments : Nat
  sections : Nat
  flags : Nat
  size : Nat
  segmentHeaderSize : Nat
  segmentCount : Nat
  sectionHeaderSize : Nat
  sectionCount : Nat
  namesSection : Nat
deriving DecidableEq, Repr

def FileHeader.read (file : Array UInt8) : FileHeader where
  identification := file.toList.take 16
  kind := fieldAt file 16 2
  processor := fieldAt file 18 2
  version := fieldAt file 20 4
  entry := fieldAt file 24 4
  segments := fieldAt file 28 4
  sections := fieldAt file 32 4
  flags := fieldAt file 36 4
  size := fieldAt file 40 2
  segmentHeaderSize := fieldAt file 42 2
  segmentCount := fieldAt file 44 2
  sectionHeaderSize := fieldAt file 46 2
  sectionCount := fieldAt file 48 2
  namesSection := fieldAt file 50 2

/-- The header of a segment. -/
@[ext]
structure SegmentHeader where
  kind : Nat
  offset : Nat
  virtualAddress : Nat
  physicalAddress : Nat
  fileSize : Nat
  memorySize : Nat
  flags : Nat
  align : Nat
deriving DecidableEq, Repr

def SegmentHeader.read (file : Array UInt8) (position : Nat) :
    SegmentHeader where
  kind := fieldAt file position 4
  offset := fieldAt file (position + 4) 4
  virtualAddress := fieldAt file (position + 8) 4
  physicalAddress := fieldAt file (position + 12) 4
  fileSize := fieldAt file (position + 16) 4
  memorySize := fieldAt file (position + 20) 4
  flags := fieldAt file (position + 24) 4
  align := fieldAt file (position + 28) 4

namespace Config

variable {config : Config}

theorem align_withDefaults : config.withDefaults.align ≠ 0 := by
  change (if config.align = 0 then standard.align else config.align) ≠ 0
  split
  case isTrue => decide
  case isFalse given => exact given

theorem and_pred_eq_zero {align : UInt32} (nonzero : align ≠ 0) :
    align &&& (align - 1) = 0 ↔ align.toNat.isPowerOfTwo := by
  have positive : align.toNat ≠ 0 :=
    fun zero => nonzero (UInt32.toNat_inj.mp zero)
  have bound : (1 : UInt32) ≤ align := by
    rw [UInt32.le_iff_toNat_le]
    exact Nat.one_le_iff_ne_zero.mpr positive
  rw [← UInt32.toNat_inj, UInt32.toNat_and, UInt32.toNat_sub_of_le _ _ bound]
  exact Nat.and_sub_one_eq_zero_iff_isPowerOfTwo positive

theorem mod_eq_zero {value align : UInt32} :
    value % align = 0 ↔ align.toNat ∣ value.toNat := by
  rw [← UInt32.toNat_inj, UInt32.toNat_mod, Nat.dvd_iff_mod_eq_zero]
  rfl

/-- The placements that `check` accepts. -/
theorem check_eq_ok (nonzero : config.align ≠ 0) :
    config.check = .ok () ↔ 84 ≤ config.offset.toNat ∧
      config.align.toNat.isPowerOfTwo ∧
      config.align.toNat ∣ config.offset.toNat ∧
        config.align.toNat ∣ config.base.toNat := by
  rw [← and_pred_eq_zero nonzero, ← mod_eq_zero, ← mod_eq_zero, ← Nat.not_lt]
  unfold check headerSize programHeaderSize
  grind

end Config

variable {code file : Array UInt8} {config : Config}

/-- The counts of bytes of the numbers in the headers, in the order of their
places. -/
def widths : List Nat :=
  [16, 2, 2, 4, 4, 4, 4, 4, 2, 2, 2, 2, 2, 2, 4, 4, 4, 4, 4, 4, 4, 4]

/-- The numbers of the headers, each with the count of its bytes. -/
def fields (placed : Config) (codeSize : Nat) : List (Nat × Nat) :=
  [(16, 0x010101464c457f), (2, 2), (2, 8), (4, 1), (4, placed.base.toNat),
    (4, 52), (4, 0), (4, 0x70001001), (2, 52), (2, 32), (2, 1), (2, 0),
    (2, 0), (2, 0), (4, 1), (4, placed.offset.toNat), (4, placed.base.toNat),
    (4, placed.base.toNat), (4, codeSize), (4, codeSize),
    (4, placed.flags.toNat), (4, placed.align.toNat)]

/-- The bytes of numbers one behind the other. -/
def packed (fields : List (Nat × Nat)) : List UInt8 :=
  fields.flatMap fun (count, value) => littleEndian count value

theorem length_littleEndian (count value : Nat) :
    (littleEndian count value).length = count := by
  induction count generalizing value with
  | zero => rfl
  | succ count induction => rw [littleEndian, List.length_cons, induction]

theorem length_packed (fields : List (Nat × Nat)) :
    (packed fields).length = (fields.map Prod.fst).sum := by
  simp [packed, List.length_flatMap, length_littleEndian]

/-- The headers, zeros up to the place of the code and the code. -/
def laidOut (code : Array UInt8) (placed : Config) : Array UInt8 :=
  (packed (fields placed code.size)).toArray ++
    Array.replicate (placed.offset.toNat - 84) 0 ++ code

theorem toList_laidOut : (laidOut code config).toList =
    packed (fields config code.size) ++
      (List.replicate (config.offset.toNat - 84) 0 ++ code.toList) := by
  simp [laidOut]

/-- Bytes that are written behind a front take the place of zeros. -/
theorem toList_put_behind (bytes : List UInt8) {front : List UInt8}
    {count : Nat} (isText : file.toList =
      front ++ List.replicate (bytes.length + count) 0) :
    (put file front.length bytes).toList =
      front ++ bytes ++ List.replicate count 0 := by
  induction bytes generalizing file front with
  | nil => simpa [put] using isText
  | cons byte rest induction =>
      have isWritten : (file.setIfInBounds front.length byte).toList =
          (front ++ [byte]) ++ List.replicate (rest.length + count) 0 := by
        rw [List.length_cons, Nat.add_right_comm] at isText
        simp [isText, List.replicate_succ]
      have filled := induction isWritten
      rw [List.length_append, List.length_singleton] at filled
      rw [put, filled, List.append_assoc front, List.singleton_append]

/-- The fields that hold numbers one behind the other. -/
def spread (offset : Nat) : List (Nat × Nat) → List Field
  | [] => []
  | (count, value) :: rest =>
      ⟨offset, littleEndian count value⟩ :: spread (offset + count) rest

theorem toList_fill_behind (numbers : List (Nat × Nat)) {front : List UInt8}
    {start offset count : Nat} (isFront : front.length = start + offset)
    (isText : file.toList =
      front ++ List.replicate ((numbers.map Prod.fst).sum + count) 0) :
    (fill file start (spread offset numbers)).toList =
      front ++ packed numbers ++ List.replicate count 0 := by
  induction numbers generalizing file front offset with
  | nil => simpa [spread, fill, packed] using isText
  | cons number rest induction =>
      obtain ⟨width, value⟩ := number
      have isWidth := length_littleEndian width value
      rw [List.map_cons, List.sum_cons, Nat.add_assoc, ← isWidth] at isText
      have isWritten := toList_put_behind _ isText
      have isNext : (front ++ littleEndian width value).length =
          start + (offset + width) := by
        rw [List.length_append, isFront, isWidth, Nat.add_assoc]
      have filled := induction isNext isWritten
      rw [isFront] at filled
      rw [List.append_assoc front] at filled
      exact filled

theorem identification_eq :
    identification = littleEndian 16 0x010101464c457f := by decide

theorem fileHeader_eq (codeSize : Nat) :
    fileHeader config = spread 0 ((fields config codeSize).take 11) := by
  unfold fileHeader
  rw [identification_eq]
  rfl

theorem sum_fields (codeSize : Nat) :
    (((fields config codeSize).take 11).map Prod.fst).sum = 46 ∧
      (((fields config codeSize).drop 14).map Prod.fst).sum = 32 := by
  simp [fields]

theorem packed_fields (codeSize : Nat) :
    packed (fields config codeSize) =
      packed ((fields config codeSize).take 11) ++ List.replicate 6 0 ++
        packed ((fields config codeSize).drop 14) := by
  simp [fields, packed, littleEndian]

theorem programHeader_eq (codeSize : Nat) :
    programHeader config codeSize =
      spread 0 ((fields config codeSize).drop 14) := rfl

theorem toList_headers (codeSize : Nat) {count : Nat} :
    (fill (fill (Array.replicate (84 + count) 0) 0 (fileHeader config))
      headerSize (programHeader config codeSize)).toList =
        packed (fields config codeSize) ++ List.replicate count 0 := by
  obtain ⟨fileSum, programSum⟩ := @sum_fields config codeSize
  rw [fileHeader_eq codeSize, programHeader_eq, packed_fields]
  generalize (fields config codeSize).take 11 = first at *
  generalize (fields config codeSize).drop 14 = second at *
  have isText : (Array.replicate (84 + count) (0 : UInt8)).toList =
      [] ++ List.replicate ((first.map Prod.fst).sum + (38 + count)) 0 := by
    rw [Array.toList_replicate, List.nil_append, fileSum, ← Nat.add_assoc]
  have isStart : ([] : List UInt8).length = 0 + 0 := rfl
  have filled := toList_fill_behind first isStart isText
  have isFront : (packed first ++ List.replicate 6 0).length =
      headerSize + 0 := by
    rw [List.length_append, length_packed, fileSum, List.length_replicate]
    rfl
  have isRest : [] ++ packed first ++ List.replicate (38 + count) 0 =
      packed first ++ List.replicate 6 0 ++
        List.replicate ((second.map Prod.fst).sum + count) 0 := by
    rw [List.nil_append, programSum, List.append_assoc,
      List.replicate_append_replicate, ← Nat.add_assoc]
  exact toList_fill_behind second isFront (filled.trans isRest)

theorem fill_headers (room : 84 ≤ config.offset.toNat) :
    fill (fill (Array.replicate config.offset.toNat 0) 0 (fileHeader config))
      headerSize (programHeader config code.size) ++ code =
        laidOut code config := by
  obtain ⟨count, isOffset⟩ := Nat.exists_eq_add_of_le room
  apply Array.toList_inj.mp
  rw [Array.toList_append, toList_laidOut, isOffset, toList_headers,
    List.append_assoc, Nat.add_sub_cancel_left]

theorem image_eq : image code config =
    config.withDefaults.check.map fun _ =>
      laidOut code config.withDefaults := by
  have accepts := config.withDefaults.check_eq_ok Config.align_withDefaults
  change (config.withDefaults.check >>= fun _ => pure (fill (fill _ _ _) _ _ ++
    code)) = _
  cases checked : config.withDefaults.check with
  | error cause => rfl
  | ok accepted =>
      exact congrArg Except.ok (fill_headers (accepts.mp checked).1)

theorem bytes_field (index : Nat) {position count value : Nat}
    (isField : (fields config code.size)[index]? = some (count, value))
    (isPosition : (widths.take index).sum = position) :
    ((laidOut code config).toList.drop position).take count =
      littleEndian count value := by
  obtain ⟨inside, isField⟩ := List.getElem?_eq_some_iff.mp isField
  have split : packed (fields config code.size) =
      packed ((fields config code.size).take index) ++
        (littleEndian count value ++
          packed ((fields config code.size).drop (index + 1))) := by
    conv => lhs; rw [← List.take_append_drop index (fields config code.size),
      List.drop_eq_getElem_cons inside, isField]
    simp only [packed, List.flatMap_append, List.flatMap_cons]
  have isFront :
      (packed ((fields config code.size).take index)).length = position := by
    rw [length_packed, List.map_take, ← isPosition]
    rfl
  rw [toList_laidOut, split, List.append_assoc, List.drop_left' isFront,
    List.append_assoc]
  exact List.take_left' (length_littleEndian count value)

theorem fields_fit (small : code.size < 2 ^ 32) {count value : Nat}
    (isField : (count, value) ∈ fields config code.size) :
    value < 256 ^ count := by
  have base := config.base.toNat_lt
  have offset := config.offset.toNat_lt
  have flags := config.flags.toNat_lt
  have align := config.align.toNat_lt
  have all : ∀ field ∈ fields config code.size, field.2 < 256 ^ field.1 := by
    simp only [fields, List.forall_mem_cons, List.not_mem_nil, false_imp_iff,
      implies_true, and_true, Nat.reducePow]
    omega
  exact all _ isField

theorem fieldAt_laidOut (small : code.size < 2 ^ 32) (index : Nat)
    {position count value : Nat}
    (isField : (fields config code.size)[index]? = some (count, value))
    (isPosition : (widths.take index).sum = position) :
    fieldAt (laidOut code config) position count = value := by
  rw [fieldAt, bytes_field index isField isPosition,
    number_littleEndian (fields_fit small (List.mem_of_getElem? isField))]

theorem fileHeader_read (small : code.size < 2 ^ 32) :
    FileHeader.read (laidOut code config) =
    { identification := [0x7f, 0x45, 0x4c, 0x46, 1, 1, 1, 0, 0, 0, 0, 0, 0,
        0, 0, 0]
      kind := 2
      processor := 8
      version := 1
      entry := config.base.toNat
      segments := 52
      sections := 0
      flags := 0x70001001
      size := 52
      segmentHeaderSize := 32
      segmentCount := 1
      sectionHeaderSize := 0
      sectionCount := 0
      namesSection := 0 } := by
  have field := @fieldAt_laidOut code config small
  have isIdentification :
      ((laidOut code config).toList.drop 0).take 16 = identification :=
    (bytes_field 0 rfl (by decide)).trans identification_eq.symm
  apply FileHeader.ext
  case identification => exact isIdentification
  case kind => exact field 1 rfl (by decide)
  case processor => exact field 2 rfl (by decide)
  case version => exact field 3 rfl (by decide)
  case entry => exact field 4 rfl (by decide)
  case segments => exact field 5 rfl (by decide)
  case sections => exact field 6 rfl (by decide)
  case flags => exact field 7 rfl (by decide)
  case size => exact field 8 rfl (by decide)
  case segmentHeaderSize => exact field 9 rfl (by decide)
  case segmentCount => exact field 10 rfl (by decide)
  case sectionHeaderSize => exact field 11 rfl (by decide)
  case sectionCount => exact field 12 rfl (by decide)
  case namesSection => exact field 13 rfl (by decide)

theorem segmentHeader_read (small : code.size < 2 ^ 32) :
    SegmentHeader.read (laidOut code config) 52 =
      { kind := 1
        offset := config.offset.toNat
        virtualAddress := config.base.toNat
        physicalAddress := config.base.toNat
        fileSize := code.size
        memorySize := code.size
        flags := config.flags.toNat
        align := config.align.toNat } := by
  have field := @fieldAt_laidOut code config small
  apply SegmentHeader.ext
  case kind => exact field 14 rfl (by decide)
  case offset => exact field 15 rfl (by decide)
  case virtualAddress => exact field 16 rfl (by decide)
  case physicalAddress => exact field 17 rfl (by decide)
  case fileSize => exact field 18 rfl (by decide)
  case memorySize => exact field 19 rfl (by decide)
  case flags => exact field 20 rfl (by decide)
  case align => exact field 21 rfl (by decide)

theorem bytes_behind_headers (room : 84 ≤ config.offset.toNat) :
    (laidOut code config).size = config.offset.toNat + code.size ∧
      (laidOut code config).extract config.offset.toNat
        (laidOut code config).size = code ∧
      ∀ position, 84 ≤ position → position < config.offset.toNat →
        (laidOut code config)[position]? = some 0 := by
  have headers : (packed (fields config code.size)).length = 84 :=
    (length_packed _).trans (show widths.sum = 84 by decide)
  have zeros : (List.replicate (config.offset.toNat - 84) (0 : UInt8)).length =
      config.offset.toNat - 84 := List.length_replicate
  have size : (laidOut code config).size = config.offset.toNat + code.size := by
    rw [← Array.length_toList, toList_laidOut, List.length_append,
      List.length_append, headers, zeros, Array.length_toList]
    omega
  refine ⟨size, ?_, fun position behind before => ?_⟩
  · have isFront : config.offset.toNat = (packed (fields config code.size) ++
        List.replicate (config.offset.toNat - 84) 0).length := by
      rw [List.length_append, headers, zeros]
      omega
    have isBack : (laidOut code config).toList.drop config.offset.toNat =
        code.toList := by
      rw [toList_laidOut, ← List.append_assoc]
      exact List.drop_left' isFront.symm
    apply Array.toList_inj.mp
    rw [Array.toList_extract, List.extract_eq_take_drop, isBack, size,
      Nat.add_sub_cancel_left]
    exact List.take_length
  · rw [← Array.getElem?_toList, toList_laidOut,
      List.getElem?_append_right (by omega),
      List.getElem?_append_left (by omega),
      List.getElem?_replicate_of_lt (by omega)]

/-- Zero fields take their defaults.  An executable is refused exactly when its
headers do not fit below the code, when its alignment is no power of two or when
its code or its addresses are not aligned.  Otherwise its headers lead to the
code. -/
theorem image_well_formed (code : Array UInt8) (config : Config)
    (small : code.size < 2 ^ 32) : let placed : Config :=
      { base := if config.base = 0 then 0x400000 else config.base
        offset := if config.offset = 0 then 0x1000 else config.offset
        align := if config.align = 0 then 0x1000 else config.align
        flags := if config.flags = 0 then 5 else config.flags }
    ((∃ cause, image code config = .error cause) ↔
      placed.offset.toNat < 84 ∨ ¬ placed.align.toNat.isPowerOfTwo ∨
        ¬ placed.align.toNat ∣ placed.offset.toNat ∨
          ¬ placed.align.toNat ∣ placed.base.toNat) ∧
    ∀ file, image code config = .ok file →
      file.size = placed.offset.toNat + code.size ∧
      file.extract placed.offset.toNat file.size = code ∧
      (∀ position, 84 ≤ position → position < placed.offset.toNat →
        file[position]? = some 0) ∧
      FileHeader.read file =
        { identification := [0x7f, 0x45, 0x4c, 0x46, 1, 1, 1, 0, 0, 0, 0, 0, 0,
            0, 0, 0]
          kind := 2
          processor := 8
          version := 1
          entry := placed.base.toNat
          segments := 52
          sections := 0
          flags := 0x70001001
          size := 52
          segmentHeaderSize := 32
          segmentCount := 1
          sectionHeaderSize := 0
          sectionCount := 0
          namesSection := 0 } ∧
      SegmentHeader.read file (FileHeader.read file).segments =
        { kind := 1
          offset := placed.offset.toNat
          virtualAddress := placed.base.toNat
          physicalAddress := placed.base.toNat
          fileSize := code.size
          memorySize := code.size
          flags := placed.flags.toNat
          align := placed.align.toNat } ∧
      placed.offset.toNat % placed.align.toNat =
        placed.base.toNat % placed.align.toNat := by
  intro placed
  have isPlaced : config.withDefaults = placed := rfl
  have accepts := config.withDefaults.check_eq_ok Config.align_withDefaults
  have made : image code config = config.withDefaults.check.map fun _ =>
      laidOut code _ := image_eq
  rw [isPlaced] at accepts made
  cases checked : placed.check with
  | error cause =>
      have refused := mt accepts.mpr (by rw [checked]; nofun)
      rw [made, checked]
      refine ⟨⟨fun _ => ?_, fun _ => ⟨cause, rfl⟩⟩, nofun⟩
      simpa only [not_and_or, Nat.not_le] using refused
  | ok _ =>
      obtain ⟨room, isPower, offsetAligned, baseAligned⟩ := accepts.mp checked
      rw [made, checked]
      refine ⟨⟨nofun, fun refused => ?_⟩, fun file isFile => ?_⟩
      · simp only [Nat.not_lt.mpr room, isPower, offsetAligned, baseAligned,
          not_true_eq_false, or_self] at refused
      · cases isFile
        obtain ⟨size, isCode, zeros⟩ := @bytes_behind_headers code placed room
        refine ⟨size, isCode, zeros, fileHeader_read small, ?_, ?_⟩
        · rw [fileHeader_read small]
          exact segmentHeader_read small
        · rw [Nat.mod_eq_zero_of_dvd offsetAligned,
            Nat.mod_eq_zero_of_dvd baseAligned]

/-- Only the base and the flags are given; the image of three words has the
defaults elsewhere. -/
theorem three_words_well_formed :
    let code : Array UInt8 := #[8, 0, 0xe0, 3, 0, 0, 0, 0, 0, 0, 0, 0]
    let config : Config := { base := 0x10000, flags := 7 }
    code.size < 2 ^ 32 ∧
      ∃ file, image code config = .ok file ∧ file.size = 0x100c ∧
        (FileHeader.read file).entry = 0x10000 ∧
        SegmentHeader.read file 52 =
          ⟨1, 0x1000, 0x10000, 0x10000, 12, 12, 7, 0x1000⟩ := by
  intro code config
  have small : code.size < 2 ^ 32 := by decide
  obtain ⟨refused, wellFormed⟩ := image_well_formed code config small
  have isPower : (0x1000 : UInt32).toNat.isPowerOfTwo := ⟨12, by decide⟩
  refine ⟨small, ?_⟩
  cases made : image code config with
  | error cause =>
      rcases refused.mp ⟨cause, made⟩ with low | noPower | offsetOdd | baseOdd
      · exact absurd low (by decide)
      · exact absurd isPower noPower
      · exact absurd (by decide) offsetOdd
      · exact absurd (by decide) baseOdd
  | ok file =>
      obtain ⟨size, -, -, header, segment, -⟩ := wellFormed file made
      rw [header] at segment
      exact ⟨file, rfl, size, congrArg FileHeader.entry header, segment⟩

end LaneKernel.Elf
