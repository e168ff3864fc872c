import LaneKernel.Proofs.CallSites
import LaneKernel.Proofs.FlatBytes

/-!
# Arrangements of a call

A caller puts code, record, data and frame beside each other into the memory of
the machine.  If the interpreter completes on the data, every row that the
kernel touches is inside the data, so that the kernel runs without a trap and
out of reach of its own code.
-/

namespace LaneKernel

open Compiler Reference

namespace FlatMemory

variable {memory : FlatMemory} {address : UInt32} {width count : Nat}

/-- The addresses of a memory. -/
def region (memory : FlatMemory) : Region := ⟨memory.base, memory.data.size⟩

theorem covers_run (below : memory.base.toNat + memory.data.size ≤ 2 ^ 32)
    (small : memory.data.size < 2 ^ 32) (positive : 0 < count)
    (each : ∀ number < count,
      memory.Covers (address + UInt32.ofNat (number * width)) width) :
    memory.Covers address (count * width) := by
  induction count with
  | zero => cases positive
  | succ count induction =>
      rcases Nat.eq_zero_or_pos count with rfl | some
      · have first := each 0 (by omega)
        rw [Nat.zero_mul, show UInt32.ofNat 0 = 0 from rfl, UInt32.add_zero]
          at first
        rwa [Nat.zero_add, Nat.one_mul]
      · obtain ⟨above, inside⟩ :=
          induction some fun number isNumber => each number (by omega)
        obtain ⟨lastAbove, lastInside⟩ := each count (Nat.lt_succ_self _)
        refine ⟨above, ?_⟩
        rw [Nat.succ_mul]
        rw [UInt32.toNat_add, UInt32.toNat_ofNat', Nat.add_mod_mod]
          at lastAbove lastInside
        generalize count * width = front at *
        -- The last access does not go round to the first address.
        by_cases round : address.toNat + front = 2 ^ 32
        · rw [round, Nat.mod_self] at lastAbove
          omega
        · rw [Nat.mod_eq_of_lt (by omega)] at lastInside
          omega

theorem Covers.serves {ram : Ram} (covers : memory.Covers address count)
    (serves : ram.Serves memory.region) : ram.Serves ⟨address, count⟩ := by
  obtain ⟨above, inside⟩ := covers
  have part := serves.part
    (show address.toNat - memory.base.toNat + count ≤ memory.data.size by omega)
  have isStart :
      memory.base + UInt32.ofNat (address.toNat - memory.base.toNat) =
        address := by
    rw [← UInt32.toNat_inj, UInt32.toNat_add, UInt32.toNat_ofNat']
    have bound := address.toNat_lt
    omega
  rwa [isStart] at part

theorem Covers.mem_region (covers : memory.Covers address count)
    {other : UInt32} (inside : other ∈ (⟨address, count⟩ : Region)) :
    other ∈ memory.region := by
  obtain ⟨index, below, rfl⟩ := Region.mem_iff_exists.mp inside
  obtain ⟨above, upTo⟩ := covers
  change index < count at below
  refine Region.mem_iff_exists.mpr
    ⟨address.toNat + index - memory.base.toNat,
      (show _ < memory.data.size by omega), ?_⟩
  change address + _ = memory.base + _
  rw [← UInt32.toNat_inj, UInt32.toNat_add, UInt32.toNat_add,
    UInt32.toNat_ofNat', UInt32.toNat_ofNat']
  omega

theorem mem_region_of_place {place : Nat} (above : memory.base.toNat ≤ place)
    (inside : place < memory.base.toNat + memory.data.size) :
    UInt32.ofNat place ∈ memory.region := by
  refine Region.mem_iff_exists.mpr
    ⟨place - memory.base.toNat, (show _ < memory.data.size by omega), ?_⟩
  change _ = memory.base + _
  rw [← UInt32.toNat_inj, UInt32.toNat_add, UInt32.toNat_ofNat',
    UInt32.toNat_ofNat']
  omega

end FlatMemory

theorem Ram.available_le (ram : Ram) (address : UInt32) :
    ram.available address ≤ ram.size := by
  unfold Ram.available
  split <;> omega

/-- A memory of the machine shows the bytes of a flat memory at their places. -/
def Ram.Shows (ram : Ram) (memory : FlatMemory) : Prop :=
  ∀ place, memory.base.toNat ≤ place →
    place < memory.base.toNat + memory.data.size →
    ram.peek (UInt32.ofNat place) = memory.byteAt place

section Shown

variable {ram : Ram} {memory final : FlatMemory}

theorem Ram.Holds.shows (holds : ram.Holds memory.base memory.data) :
    ram.Shows memory := by
  intro place above inside
  have bound : place - memory.base.toNat < memory.data.size := by omega
  have isPlace : UInt32.ofNat place =
      memory.base + UInt32.ofNat (place - memory.base.toNat) := by
    rw [← UInt32.toNat_inj, UInt32.toNat_add, UInt32.toNat_ofNat',
      UInt32.toNat_ofNat']
    omega
  rw [isPlace, holds.peek _ bound]
  unfold FlatMemory.byteAt
  rw [Array.getD_eq_getD_getElem?, Array.getElem?_eq_getElem bound]
  rfl

theorem Ram.Shows.holds (shows : ram.Shows final)
    (shape : memory.SameShape final) (serves : ram.Serves memory.region) :
    ram.Holds memory.base final.data := by
  refine ⟨?_, fun index bound => ?_⟩
  · rw [shape.size]
    exact serves
  · have isByte := shows (memory.base.toNat + index) (by rw [shape.base]; omega)
      (by rw [shape.base]; omega)
    rw [UInt32.ofNat_add, UInt32.ofNat_toNat] at isByte
    rw [isByte]
    unfold FlatMemory.byteAt
    rw [shape.base, Nat.add_sub_cancel_left, Array.getD_eq_getD_getElem?,
      Array.getElem?_eq_getElem bound]
    rfl

end Shown

/-- A word that is written behind a front takes the place of four zeros. -/
theorem Word.toList_write_behind {bytes : Array UInt8} {front : List UInt8}
    {count : Nat} (isText : bytes.toList =
      front ++ List.replicate (4 + count) 0)
    (word : UInt32) :
    (Word.write bytes front.length word).toList =
      front ++ ((Word.bytes word).toList ++ List.replicate count 0) := by
  rw [Nat.add_comm] at isText
  simp [Word.write, Word.bytes, isText, List.replicate_succ]

namespace Executor

theorem tableSlots_cons (start : Nat) (word : UInt32) (rest : List UInt32) :
    tableSlots start (word :: rest) =
      (start, word) :: tableSlots (start + 4) rest := by
  unfold tableSlots
  rw [List.zipIdx_cons', List.map_cons, List.map_map]
  refine congrArg₂ List.cons rfl (List.map_congr_left fun slot _ => ?_)
  exact congrArg (·, slot.1) (by simp only; omega)

theorem tableSlots_append (start : Nat) (front back : List UInt32) :
    tableSlots start (front ++ back) =
      tableSlots start front ++ tableSlots (start + 4 * front.length) back := by
  induction front generalizing start with
  | nil => rfl
  | cons word rest induction =>
      rw [List.cons_append, tableSlots_cons, tableSlots_cons, induction,
        List.cons_append, List.length_cons]
      congr 3
      omega

theorem toList_fill (words : List UInt32) {bytes : Array UInt8}
    {front : List UInt8}
    (isText : bytes.toList = front ++ List.replicate (4 * words.length) 0) :
    ((tableSlots front.length words).foldl
      (fun bytes (offset, word) => Word.write bytes offset word) bytes).toList =
        front ++ Word.flatten words := by
  induction words generalizing bytes front with
  | nil => simpa [tableSlots] using isText
  | cons word rest induction =>
      have isLength : (Word.bytes word).toList.length = 4 := rfl
      rw [List.length_cons, Nat.mul_add, Nat.add_comm] at isText
      have isWritten := Word.toList_write_behind isText word
      rw [← List.append_assoc] at isWritten
      have filled := induction isWritten
      rw [List.length_append, isLength] at filled
      rw [tableSlots_cons, List.foldl_cons, filled, Word.flatten_cons,
        List.append_assoc]

theorem slots_eq (executor : Executor) :
    executor.slots = tableSlots 0 executor.words := by
  unfold slots words
  rw [tableSlots_cons, tableSlots_cons, tableSlots_append, tableSlots_append,
    tableSlots_append]
  simp [programOffset, countOffset, countersOffset, arraysOffset, paramsOffset,
    accumsOffset, Var.count]

/-- The bytes of a record are the words of the executor. -/
theorem toList_toBytes (executor : Executor) :
    executor.toBytes.toList = Word.flatten executor.words := by
  have isText : (Array.replicate recordSize (0 : UInt8)).toList =
      [] ++ List.replicate (4 * executor.words.length) 0 := by
    rw [executor.length_words]
    rfl
  have filled := toList_fill executor.words isText
  rw [List.length_nil, List.nil_append, ← executor.slots_eq] at filled
  exact filled

end Executor

theorem Executor.size_toBytes (executor : Executor) :
    executor.toBytes.size = Executor.recordSize := by
  rw [← Array.length_toList, executor.toList_toBytes, Word.length_flatten,
    executor.length_words]
  rfl

/-- The word of every slot, read from the record. -/
theorem Executor.word_toBytes (executor : Executor) {index : Nat}
    {word : UInt32} (isWord : executor.words[index]? = some word) :
    Word.ofBytes executor.toBytes (4 * index) = word := by
  obtain ⟨inside, rfl⟩ := List.getElem?_eq_some_iff.mp isWord
  have isWords : executor.words = executor.words.take index ++
      executor.words[index] :: executor.words.drop (index + 1) := by
    rw [List.getElem_cons_drop, List.take_append_drop]
  have isLength : (executor.words.take index).length = index :=
    List.length_take_of_le inside.le
  have isText := executor.toList_toBytes.trans (congrArg Word.flatten isWords)
  nth_rewrite 1 [← isLength]
  exact Word.ofBytes_flatten isText

theorem Ram.Holds.heldAt {executor : Executor} {ram : Ram} {start : UInt32}
    (holds : ram.Holds start executor.toBytes) (small : ram.size < 2 ^ 32)
    (aligned : start.toNat % 4 = 0) : executor.HeldAt ram start := by
  intro index word isWord
  have bound : 4 * index + 4 ≤ executor.toBytes.size := by
    have inside : index < executor.words.length :=
      (List.getElem?_eq_some_iff.mp isWord).1
    rw [executor.length_words] at inside
    rw [Executor.size_toBytes]
    change _ ≤ 548
    omega
  rw [(holds.codeAt small aligned).word bound]
  exact executor.word_toBytes isWord

namespace CallSite

variable (site : CallSite)

/-- Code, record, data and frame stand in the memory of the machine,
word-aligned and apart from each other. -/
structure Arranged (memory : FlatMemory) (ram : Ram) : Prop where
  small : ram.size < 2 ^ 32
  entryAligned : site.entry.toNat % 4 = 0
  argumentAligned : site.argument.toNat % 4 = 0
  stackAligned : site.stack.toNat % 4 = 0
  code : ram.Holds site.entry site.kernel.code.bytes
  record : ram.Holds site.argument site.executor.toBytes
  data : ram.Holds memory.base memory.data
  frame : ram.Serves site.frame
  codeRecord : site.code.Apart site.record
  codeFrame : site.code.Apart site.frame
  recordFrame : site.record.Apart site.frame
  dataCode : memory.region.Apart site.code
  dataRecord : memory.region.Apart site.record
  dataFrame : memory.region.Apart site.frame

/-- The rows that a program accesses are inside a memory. -/
def RowsInside (program : Program) (memory : FlatMemory) : Prop :=
  ∀ row < rowCount program site.executor, ∀ write index distance,
    Accesses ⟨program, site.executor, row, 0⟩ write index distance →
      0 < site.executor.n.toInt →
      memory.Covers (site.row program index distance row).start
        (site.row program index distance row).length

theorem row_length {program : Program} {index : VarIndex} {distance : Int}
    {row : Nat} (none : ¬ 0 < site.executor.n.toInt) :
    (site.row program index distance row).length = 0 := by
  change site.executor.n.toInt.toNat * _ = 0
  rw [show site.executor.n.toInt.toNat = 0 by omega, Nat.zero_mul]

theorem row_empty {program : Program} {index : VarIndex} {distance : Int}
    {row : Nat} (none : ¬ 0 < site.executor.n.toInt) (address : UInt32) :
    address ∉ site.row program index distance row := by
  rw [Region.mem_iff, site.row_length none]
  exact Nat.not_lt_zero _

namespace Arranged

variable {site} {memory : FlatMemory} {ram : Ram}
  (arranged : site.Arranged memory ram)

include arranged

theorem below : memory.base.toNat + memory.data.size ≤ 2 ^ 32 :=
  arranged.data.serves.below

theorem data_small : memory.data.size < 2 ^ 32 :=
  Nat.lt_of_le_of_lt (arranged.data.serves.inside.trans (ram.available_le _))
    arranged.small

theorem recordServed : ram.Serves site.record := by
  have serves := arranged.record.serves
  rwa [Executor.size_toBytes] at serves

theorem held : site.executor.HeldAt ram site.argument :=
  arranged.record.heldAt arranged.small arranged.argumentAligned

theorem loaded : site.Loaded ram :=
  ⟨arranged.small, arranged.code, arranged.held⟩

variable {program : Program} (inside : site.RowsInside program memory)

include inside

theorem separate : site.Separate program := by
  refine ⟨arranged.codeRecord, arranged.codeFrame, arranged.recordFrame, ?_⟩
  intro row inRows index writes
  have inData : ∀ address ∈ site.row program index 0 row,
      address ∈ memory.region := by
    intro address inRow
    by_cases positive : 0 < site.executor.n.toInt
    · exact (inside row inRows true index 0 ⟨writes, rfl⟩ positive).mem_region
        inRow
    · exact absurd inRow (site.row_empty positive address)
  exact ⟨fun address inRow => arranged.dataCode address (inData address inRow),
    fun address inRow => arranged.dataRecord address (inData address inRow),
    fun address inRow => arranged.dataFrame address (inData address inRow)⟩

theorem served (arraysAligned : checkAligned program site.executor = .ok ()) :
    site.Served program ram where
  entryAligned := arranged.entryAligned
  argumentAligned := arranged.argumentAligned
  stackAligned := arranged.stackAligned
  arraysAligned := arraysAligned
  record := arranged.recordServed
  frame := arranged.frame
  rows row inRows write index distance accesses := by
    by_cases positive : 0 < site.executor.n.toInt
    · exact (inside row inRows write index distance accesses positive).serves
        arranged.data.serves
    · refine ⟨?_, ?_⟩ <;> rw [site.row_length positive]
      · exact (UInt32.toNat_lt _).le
      · exact Nat.zero_le _

end Arranged

end CallSite

/-- Regions one behind the other are apart. -/
theorem Region.apart_of_le {first second : Region}
    (before : first.start.toNat + first.length ≤ second.start.toNat)
    (below : second.start.toNat + second.length ≤ 2 ^ 32) :
    first.Apart second := by
  intro address inFirst inSecond
  obtain ⟨index, inside, rfl⟩ := Region.mem_iff_exists.mp inFirst
  obtain ⟨other, otherInside, same⟩ := Region.mem_iff_exists.mp inSecond
  have sameNat := congrArg UInt32.toNat same
  rw [UInt32.toNat_add, UInt32.toNat_add, UInt32.toNat_ofNat',
    UInt32.toNat_ofNat'] at sameNat
  omega

theorem Ram.holds_part {base : UInt32} {front bytes back : Array UInt8}
    (small : front.size + bytes.size + back.size < 2 ^ 32)
    (below : base.toNat + (front.size + bytes.size + back.size) ≤ 2 ^ 32) :
    (⟨base, front ++ bytes ++ back⟩ : Ram).Holds
      (base + UInt32.ofNat front.size) bytes := by
  have distance : ∀ offset < 2 ^ 32, (base + UInt32.ofNat offset - base).toNat =
      offset := by
    intro offset isOffset
    rw [UInt32.add_comm, UInt32.add_sub_cancel, UInt32.toNat_ofNat',
      Nat.mod_eq_of_lt isOffset]
  have isStart : (base + UInt32.ofNat front.size).toNat =
      (base.toNat + front.size) % 2 ^ 32 := by
    rw [UInt32.toNat_add, UInt32.toNat_ofNat', Nat.add_mod_mod]
  refine ⟨⟨?_, ?_⟩, fun index bound => ?_⟩
  · change (base + UInt32.ofNat front.size).toNat + bytes.size ≤ 2 ^ 32
    omega
  · change bytes.size ≤ _
    unfold Ram.available Ram.size
    rw [distance _ (by omega), Array.size_append, Array.size_append]
    split
    case isTrue => omega
    case isFalse notAbove =>
      rw [UInt32.le_iff_toNat_le, isStart] at notAbove
      change ¬ base.toNat ≤ _ at notAbove
      omega
  · unfold Ram.peek
    change (front ++ bytes ++ back).getD (_ - base).toNat 0 = _
    rw [UInt32.add_assoc, ← UInt32.ofNat_add, distance _ (by omega),
      Array.getD_eq_getD_getElem?,
      Array.getElem?_append_left (by rw [Array.size_append]; omega),
      Array.getElem?_append_right (by omega), Nat.add_sub_cancel_left,
      Array.getElem?_eq_getElem bound]
    rfl

namespace CallSite

/-- A call with data, record, frame and code one behind the other. -/
def packed (kernel : CompiledKernel) (executor : Executor)
    (memory : FlatMemory) : CallSite where
  kernel := kernel
  executor := executor
  argument := memory.base + UInt32.ofNat memory.data.size
  stack := memory.base +
    UInt32.ofNat (memory.data.size + Executor.recordSize + kernel.frameSize)
  entry := memory.base +
    UInt32.ofNat (memory.data.size + Executor.recordSize + kernel.frameSize)

/-- The memory of the machine for a packed call. -/
def packedRam (kernel : CompiledKernel) (executor : Executor)
    (memory : FlatMemory) : Ram :=
  ⟨memory.base, memory.data ++ executor.toBytes
    ++ Array.replicate kernel.frameSize 0
    ++ kernel.code.bytes⟩

variable {kernel : CompiledKernel} {executor : Executor} {memory : FlatMemory}

section Packed

variable (small : memory.data.size + Executor.recordSize + kernel.frameSize +
    kernel.code.bytes.size < 2 ^ 32)
  (below : memory.base.toNat +
    (memory.data.size + Executor.recordSize + kernel.frameSize +
    kernel.code.bytes.size) ≤ 2 ^ 32)

include small below

/-- What stands in the memory of a packed call. -/
theorem holds_packed :
    (packedRam kernel executor memory).Holds memory.base memory.data ∧
    (packedRam kernel executor memory).Holds
      (packed kernel executor memory).argument executor.toBytes ∧
    (packedRam kernel executor memory).Serves
      (packed kernel executor memory).frame ∧
    (packedRam kernel executor memory).Holds
      (packed kernel executor memory).entry kernel.code.bytes := by
  have isRecord := executor.size_toBytes
  have isFrame : (packed kernel executor memory).frame =
      ⟨memory.base + UInt32.ofNat (memory.data ++ executor.toBytes).size,
        (Array.replicate kernel.frameSize (0 : UInt8)).size⟩ := by
    rw [Array.size_append, Array.size_replicate, isRecord]
    unfold frame packed
    rw [UInt32.ofNat_add _ kernel.frameSize, ← UInt32.add_assoc,
      UInt32.add_sub_cancel]
  refine ⟨?_, ?_, ?_, ?_⟩
  · have holds := @Ram.holds_part memory.base #[] memory.data
      (executor.toBytes ++ Array.replicate kernel.frameSize 0 ++
        kernel.code.bytes)
      (by simp; omega) (by simp; omega)
    rw [Array.empty_append, ← Array.append_assoc, ← Array.append_assoc] at holds
    rwa [show UInt32.ofNat (#[] : Array UInt8).size = 0 from rfl,
      UInt32.add_zero] at holds
  · have holds := @Ram.holds_part memory.base memory.data executor.toBytes
      (Array.replicate kernel.frameSize 0 ++ kernel.code.bytes) (by simp; omega)
      (by simp; omega)
    rwa [← Array.append_assoc] at holds
  · rw [isFrame]
    exact (@Ram.holds_part memory.base (memory.data ++ executor.toBytes)
      (Array.replicate kernel.frameSize 0) kernel.code.bytes (by simp; omega)
      (by simp; omega)).serves
  · have holds := @Ram.holds_part memory.base
      (memory.data ++ executor.toBytes ++ Array.replicate kernel.frameSize 0)
      kernel.code.bytes #[]
      (by simp; omega) (by simp; omega)
    rw [Array.append_empty, Array.size_append, Array.size_append,
      Array.size_replicate, isRecord] at holds
    exact holds

theorem arranged_packed (wordBase : memory.base.toNat % 4 = 0)
    (wordData : memory.data.size % 4 = 0) (wordFrame : kernel.frameSize % 4 = 0)
    (nonempty : 0 < kernel.code.bytes.size) :
    (packed kernel executor memory).Arranged memory
      (packedRam kernel executor memory) := by
  obtain ⟨data, record, frame, code⟩ :=
    @holds_packed kernel executor memory small below
  have place : ∀ offset, memory.base.toNat + offset < 2 ^ 32 →
      (memory.base + UInt32.ofNat offset).toNat =
        memory.base.toNat + offset := by
    intro offset inside
    rw [UInt32.toNat_add, UInt32.toNat_ofNat']
    omega
  have isArgument : (packed kernel executor memory).argument.toNat =
      memory.base.toNat + memory.data.size := place _ (by omega)
  have isStack : (packed kernel executor memory).stack.toNat =
      memory.base.toNat +
        (memory.data.size + Executor.recordSize + kernel.frameSize) :=
    place _ (by omega)
  have isFrame : (packed kernel executor memory).frame.start.toNat =
      memory.base.toNat + (memory.data.size + Executor.recordSize) := by
    change (memory.base + UInt32.ofNat (_ + kernel.frameSize) -
      UInt32.ofNat kernel.frameSize).toNat = _
    rw [UInt32.ofNat_add _ kernel.frameSize, ← UInt32.add_assoc,
      UInt32.add_sub_cancel]
    exact place _ (by omega)
  have isEntry : (packed kernel executor memory).code.start.toNat =
      memory.base.toNat +
        (memory.data.size + Executor.recordSize + kernel.frameSize) := isStack
  have isBase : memory.region.start.toNat = memory.base.toNat := rfl
  have isRecord : (packed kernel executor memory).record.start.toNat =
      memory.base.toNat + memory.data.size := isArgument
  have lengths : memory.region.length = memory.data.size ∧
      (packed kernel executor memory).record.length = Executor.recordSize ∧
      (packed kernel executor memory).frame.length = kernel.frameSize ∧
      (packed kernel executor memory).code.length = kernel.code.bytes.size :=
    ⟨rfl, rfl, rfl, rfl⟩
  have isSize : (packedRam kernel executor memory).size =
      memory.data.size + Executor.recordSize + kernel.frameSize +
        kernel.code.bytes.size := by
    unfold packedRam Ram.size
    rw [Array.size_append, Array.size_append, Array.size_append,
      Array.size_replicate, executor.size_toBytes]
  have whole : Executor.recordSize % 4 = 0 := by decide
  exact {
    small := by omega
    entryAligned := by
      change (packed kernel executor memory).stack.toNat % 4 = 0
      omega
    argumentAligned := by omega
    stackAligned := by omega
    code := code
    record := record
    data := data
    frame := frame
    codeRecord := (Region.apart_of_le (by omega) (by omega)).symm
    codeFrame := (Region.apart_of_le (by omega) (by omega)).symm
    recordFrame := Region.apart_of_le (by omega) (by omega)
    dataCode := Region.apart_of_le (by omega) (by omega)
    dataRecord := Region.apart_of_le (by omega) (by omega)
    dataFrame := Region.apart_of_le (by omega) (by omega) }

end Packed

end CallSite

theorem Program.unmarked_increment : increment.Unmarked := by
  unfold Program.Unmarked
  decide +kernel

theorem Program.increment_kernel : ∃ kernel, increment.compile {} = .ok kernel ∧
    kernel.frameSize = 32 ∧ kernel.code.bytes.size = 436 := by
  have isSome : (increment.compile {}).toOption.map
      (fun kernel => (kernel.frameSize, kernel.code.bytes.size)) =
        some (32, 436) := by
    decide +kernel
  obtain ⟨kernel, compiled, sizes⟩ := Option.map_eq_some_iff.mp isSome
  obtain ⟨isFrame, isSize⟩ := Prod.mk.inj sizes
  exact ⟨kernel, Outcome.toOption_eq_some.mp compiled, isFrame, isSize⟩

namespace Reference

/-- The data of `pair`: two bytes to read and two bytes to write. -/
def pairMemory : FlatMemory := ⟨0x100, #[5, 6, 0, 0]⟩

variable {kernel : CompiledKernel} (isFrame : kernel.frameSize = 32)
  (isSize : kernel.code.bytes.size = 436)

include isFrame isSize in
theorem arranged_pairMemory (executor : Executor) :
    (CallSite.packed kernel executor pairMemory).Arranged pairMemory
      (CallSite.packedRam kernel executor pairMemory) :=
  CallSite.arranged_packed (by rw [isFrame, isSize]; decide)
    (by rw [isFrame, isSize]; decide) (by decide) (by decide) (by rw [isFrame])
    (by rw [isSize]; decide)

theorem inside_pair :
    (CallSite.packed kernel pair pairMemory).RowsInside Program.increment
      pairMemory := by
  intro row inRows write index distance accesses _
  obtain ⟨rfl, rfl⟩ := accesses_increment accesses
  have all : ∀ row < rowCount Program.increment pair, ∀ write : Bool,
      pairMemory.base.toNat ≤
        (pair.rowStart Program.increment.twoD (if write then 0 else 4) row +
        Core.distance (0 *
          (Program.increment.var (if write then 0 else 4)).size)).toNat ∧
      (pair.rowStart Program.increment.twoD (if write then 0 else 4) row +
        Core.distance (0 *
          (Program.increment.var (if write then 0 else 4)).size)).toNat +
        pair.n.toInt.toNat *
          (Program.increment.var (if write then 0 else 4)).size.toNat ≤
        pairMemory.base.toNat + pairMemory.data.size := by decide +kernel
  exact all row inRows write

end Reference

end LaneKernel
