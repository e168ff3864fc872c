import LaneKernel.Proofs.Assembling

/-!
# Instructions with a word

`Insn.encodable` asks of every operand that it fits its field: registers of the
right bank, immediates and offsets in range.  Such an instruction has a word.
Code of such instructions does not stop the assembler, and it is assembled as
soon as its branches reach their labels and the labels are in the table.
-/

namespace LaneKernel

namespace Insn

/-- Whether a byte offset counts elements that the field of a vector load can
count. -/
def countable (df : DataFormat) (offset : Int) : Bool :=
  decide (df.Named ∧ offset % df.size = 0 ∧ -512 * df.size ≤ offset ∧
    offset ≤ 511 * df.size)

/-- Whether a lane exists. -/
def hasLane (df : DataFormat) (lane : Int) : Bool :=
  decide (df.Named ∧ 0 ≤ lane ∧ lane * df.size < 16)

/-- Whether every operand fits its field. -/
def encodable : Insn → Bool
  | nop => true
  | alu _ rd rs rt => rd.isGeneral && rs.isGeneral && rt.isGeneral
  | move rd rs => rd.isGeneral && rs.isGeneral
  | shift _ rd rt amount =>
      rd.isGeneral && rt.isGeneral && decide (0 ≤ amount ∧ amount ≤ 31)
  | jr rs => rs.isGeneral
  | signedImm _ rt rs imm =>
      rt.isGeneral && rs.isGeneral && decide (-0x8000 ≤ imm ∧ imm ≤ 0x7fff)
  | unsignedImm _ rt rs imm =>
      rt.isGeneral && rs.isGeneral && decide (0 ≤ imm ∧ imm ≤ 0xffff)
  | lui rt imm => rt.isGeneral && decide (0 ≤ imm ∧ imm ≤ 0xffff)
  | mem _ rt base offset =>
      rt.isGeneral && base.isGeneral &&
        decide (-0x8000 ≤ offset ∧ offset ≤ 0x7fff)
  | lanes _ _ wd ws wt | float _ _ wd ws wt | bits _ wd ws wt =>
      wd.isVector && ws.isVector && wt.isVector
  | byteImm _ wd ws _ | moveV wd ws => wd.isVector && ws.isVector
  | ldi _ wd imm => wd.isVector && decide (-512 ≤ imm ∧ imm ≤ 511)
  | fill _ wd rs => wd.isVector && rs.isGeneral
  | ld df wd base offset | st df wd base offset =>
      wd.isVector && base.isGeneral && countable df offset
  | copyS df rd ws lane | copyU df rd ws lane =>
      rd.isGeneral && ws.isVector && hasLane df lane
  | insert df wd lane rs => wd.isVector && rs.isGeneral && hasLane df lane
  | shf df wd ws _ =>
      wd.isVector && ws.isVector && decide (df.Named ∧ df ≠ .double)

end Insn

theorem Reg.eq_gp_of_isGeneral {register : Reg}
    (general : register.isGeneral = true) :
    ∃ number, register = .gp number := by
  cases register with
  | gp number => exact ⟨number, rfl⟩
  | vec number | unknown tag => cases general

theorem Reg.eq_vec_of_isVector {register : Reg}
    (vector : register.isVector = true) : ∃ number, register = .vec number := by
  cases register with
  | vec number => exact ⟨number, rfl⟩
  | gp number | unknown tag => cases vector

/-- A register has a number in the bank that it is in. -/
def Reg.isIn (bank : Bank) (register : Reg) : Bool :=
  match bank with
  | .general => register.isGeneral
  | .vector => register.isVector

theorem Reg.field_of_isIn {bank : Bank} {register : Reg}
    (inBank : register.isIn bank = true) :
    ∃ number, register.field bank = .ok number := by
  cases bank with
  | general =>
      obtain ⟨number, rfl⟩ := Reg.eq_gp_of_isGeneral inBank
      exact ⟨_, rfl⟩
  | vector =>
      obtain ⟨number, rfl⟩ := Reg.eq_vec_of_isVector inBank
      exact ⟨_, rfl⟩

theorem Reg.generalField_of_isGeneral {register : Reg}
    (general : register.isGeneral = true) :
    ∃ number, register.generalField = .ok number :=
  @field_of_isIn .general register general

theorem Reg.vectorField_of_isVector {register : Reg}
    (vector : register.isVector = true) :
    ∃ number, register.vectorField = .ok number :=
  @field_of_isIn .vector register vector

namespace Word

theorem signed16_of_bounds {value : Int}
    (bounds : -0x8000 ≤ value ∧ value ≤ 0x7fff) :
    signed16 value = .ok (UInt32.ofNat (value % 0x10000).toNat) :=
  if_neg (by omega)

theorem unsigned16_of_bounds {value : Int}
    (bounds : 0 ≤ value ∧ value ≤ 0xffff) :
    unsigned16 value = .ok (UInt32.ofNat value.toNat) :=
  if_neg (by omega)

theorem signed10Field_of_bounds {value : Int}
    (bounds : -512 ≤ value ∧ value ≤ 511) :
    signed10Field value = .ok (UInt32.ofNat (value % 1024).toNat) :=
  if_neg (by omega)

theorem checkField_of_lt {name : String} {value : UInt32} {bits : Nat}
    (small : value.toNat < 2 ^ bits) : checkField name value bits = .ok () :=
  if_neg (by rw [Nat.one_shiftLeft]; omega)

section Formats

variable {rs rt rd ws wt wd src dst : Reg} {op minor funct shamt imm : UInt32}
variable {df : DataFormat} {srcBank dstBank : Bank} {s10 lane : Int}

theorem RType.encodes (isRs : rs.isGeneral = true) (isRt : rt.isGeneral = true)
    (isRd : rd.isGeneral = true) (short : ¬ shamt > 31)
    (known : ¬ funct > 0x3f) :
    ∃ word, RType.encode ⟨rs, rt, rd, shamt, funct⟩ = .ok word := by
  obtain ⟨_, isRs⟩ := Reg.generalField_of_isGeneral isRs
  obtain ⟨_, isRt⟩ := Reg.generalField_of_isGeneral isRt
  obtain ⟨_, isRd⟩ := Reg.generalField_of_isGeneral isRd
  simp only [encode, if_neg short, if_neg known, isRs, isRt, isRd]
  exact ⟨_, rfl⟩

theorem IType.encodes (known : ¬ op > 0x3f) (isRs : rs.isGeneral = true)
    (isRt : rt.isGeneral = true) :
    ∃ word, IType.encode ⟨op, rs, rt, imm⟩ = .ok word := by
  obtain ⟨_, isRs⟩ := Reg.generalField_of_isGeneral isRs
  obtain ⟨_, isRt⟩ := Reg.generalField_of_isGeneral isRt
  simp only [encode, if_neg known, isRs, isRt]
  exact ⟨_, rfl⟩

theorem ThreeR.encodes (isWt : wt.isVector = true) (isWs : ws.isVector = true)
    (isWd : wd.isVector = true) (isOp : op.toNat < 2 ^ 3)
    (isMinor : minor.toNat < 2 ^ 6) :
    ∃ word, ThreeR.encode ⟨op, df, wt, ws, wd, minor⟩ = .ok word := by
  obtain ⟨_, isWt⟩ := Reg.vectorField_of_isVector isWt
  obtain ⟨_, isWs⟩ := Reg.vectorField_of_isVector isWs
  obtain ⟨_, isWd⟩ := Reg.vectorField_of_isVector isWd
  simp only [encode, checkField_of_lt isOp, checkField_of_lt isMinor,
    isWt, isWs, isWd]
  exact ⟨_, rfl⟩

theorem ThreeRF.encodes {double : Bool} (isWt : wt.isVector = true)
    (isWs : ws.isVector = true) (isWd : wd.isVector = true)
    (isOp : op.toNat < 2 ^ 4) (isMinor : minor.toNat < 2 ^ 6) :
    ∃ word, ThreeRF.encode ⟨op, double, wt, ws, wd, minor⟩ = .ok word := by
  obtain ⟨_, isWt⟩ := Reg.vectorField_of_isVector isWt
  obtain ⟨_, isWs⟩ := Reg.vectorField_of_isVector isWs
  obtain ⟨_, isWd⟩ := Reg.vectorField_of_isVector isWd
  simp only [encode, checkField_of_lt isOp, checkField_of_lt isMinor,
    isWt, isWs, isWd]
  exact ⟨_, rfl⟩

theorem VEC.encodes (isWt : wt.isVector = true) (isWs : ws.isVector = true)
    (isWd : wd.isVector = true) (isOp : op.toNat < 2 ^ 5) :
    ∃ word, VEC.encode ⟨op, wt, ws, wd⟩ = .ok word := by
  obtain ⟨_, isWt⟩ := Reg.vectorField_of_isVector isWt
  obtain ⟨_, isWs⟩ := Reg.vectorField_of_isVector isWs
  obtain ⟨_, isWd⟩ := Reg.vectorField_of_isVector isWd
  simp only [encode, checkField_of_lt isOp, isWt, isWs, isWd]
  exact ⟨_, rfl⟩

theorem I8.encodes {byte : UInt8} (isWs : ws.isVector = true)
    (isWd : wd.isVector = true) (isOp : op.toNat < 2 ^ 2)
    (isMinor : minor.toNat < 2 ^ 6) :
    ∃ word, I8.encode ⟨op, byte, ws, wd, minor⟩ = .ok word := by
  obtain ⟨_, isWs⟩ := Reg.vectorField_of_isVector isWs
  obtain ⟨_, isWd⟩ := Reg.vectorField_of_isVector isWd
  simp only [encode, checkField_of_lt isOp, checkField_of_lt isMinor,
    isWs, isWd]
  exact ⟨_, rfl⟩

theorem I10.encodes (bounds : -512 ≤ s10 ∧ s10 ≤ 511)
    (isWd : wd.isVector = true) (isOp : op.toNat < 2 ^ 3)
    (isMinor : minor.toNat < 2 ^ 6) :
    ∃ word, I10.encode ⟨op, df, s10, wd, minor⟩ = .ok word := by
  obtain ⟨_, isWd⟩ := Reg.vectorField_of_isVector isWd
  simp only [encode, checkField_of_lt isOp, checkField_of_lt isMinor,
    signed10Field_of_bounds bounds, isWd]
  exact ⟨_, rfl⟩

theorem MI10.encodes (bounds : -512 ≤ s10 ∧ s10 ≤ 511)
    (isRs : rs.isGeneral = true) (isWd : wd.isVector = true)
    (isMinor : minor.toNat < 2 ^ 4) :
    ∃ word, MI10.encode ⟨s10, rs, wd, minor, df⟩ = .ok word := by
  obtain ⟨_, isRs⟩ := Reg.generalField_of_isGeneral isRs
  obtain ⟨_, isWd⟩ := Reg.vectorField_of_isVector isWd
  simp only [encode, checkField_of_lt isMinor, signed10Field_of_bounds bounds,
    isRs, isWd]
  exact ⟨_, rfl⟩

theorem TwoR.encodes (isSrc : src.isIn srcBank = true)
    (isWd : wd.isVector = true) (isOp : op.toNat < 2 ^ 8) :
    ∃ word, TwoR.encode ⟨op, df, src, srcBank, wd⟩ = .ok word := by
  obtain ⟨_, isSrc⟩ := Reg.field_of_isIn isSrc
  obtain ⟨_, isWd⟩ := Reg.vectorField_of_isVector isWd
  simp only [encode, checkField_of_lt isOp, isSrc, isWd]
  exact ⟨_, rfl⟩

theorem ELM.encodes (isLane : ∃ index, elementIndex df lane = .ok index)
    (isSrc : src.isIn srcBank = true) (isDst : dst.isIn dstBank = true)
    (isOp : op.toNat < 2 ^ 4) :
    ∃ word, ELM.encode ⟨op, df, lane, src, srcBank, dst, dstBank⟩ =
      .ok word := by
  obtain ⟨_, isIndex⟩ := isLane
  obtain ⟨_, isSrc⟩ := Reg.field_of_isIn isSrc
  obtain ⟨_, isDst⟩ := Reg.field_of_isIn isDst
  simp only [encode, checkField_of_lt isOp, isIndex, isSrc, isDst]
  exact ⟨_, rfl⟩

end Formats

theorem encodeMove_encodes {wd ws : Reg} (isWd : wd.isVector = true)
    (isWs : ws.isVector = true) : ∃ word, encodeMove wd ws = .ok word := by
  obtain ⟨_, source⟩ := Reg.vectorField_of_isVector isWs
  obtain ⟨_, target⟩ := Reg.vectorField_of_isVector isWd
  simp only [encodeMove, source, target]
  exact ⟨_, rfl⟩

end Word

namespace Insn

open Word

theorem named_encodes {outcome : Except AsmError UInt32} (text : String)
    (encodes : ∃ word, outcome = .ok word) :
    ∃ word, named text outcome = .ok word := by
  obtain ⟨word, rfl⟩ := encodes
  exact ⟨word, rfl⟩

/-- Vector loads and stores with a countable offset have a word. -/
theorem encodeVectorMem_of_countable {name text : String} {minor : UInt32}
    {df : DataFormat} {wd base : Reg} {offset : Int}
    (isMinor : minor = minorLoad ∨ minor = minorStore)
    (isWd : wd.isVector = true) (isBase : base.isGeneral = true)
    (counts : countable df offset = true) :
    ∃ word, encodeVectorMem name minor text df wd base offset = .ok word := by
  obtain ⟨named, whole, above, below⟩ := of_decide_eq_true counts
  obtain ⟨elements, rfl⟩ := Int.dvd_of_emod_eq_zero whole
  have positive : 0 < df.size := by
    rcases named.cases with rfl | rfl | rfl | rfl <;> decide
  have bounds : -512 ≤ elements ∧ elements ≤ 511 := by
    rw [Int.mul_comm (-512)] at above
    rw [Int.mul_comm 511] at below
    exact ⟨Int.le_of_mul_le_mul_left above positive,
      Int.le_of_mul_le_mul_left below positive⟩
  have isCount : Int.tdiv (df.size * elements) df.size = elements :=
    Int.mul_tdiv_cancel_left elements (by omega)
  unfold encodeVectorMem memWord
  rw [if_neg (by omega),
    if_neg (by rw [Int.mul_tmod_right]; exact not_not.mpr rfl), isCount]
  refine named_encodes _ (MI10.encodes bounds isBase isWd ?_)
  rcases isMinor with rfl | rfl <;> decide

theorem elementIndex_of_hasLane {df : DataFormat} {lane : Int}
    (has : hasLane df lane = true) :
    ∃ index, Word.elementIndex df lane = .ok index := by
  obtain ⟨named, above, below⟩ := of_decide_eq_true has
  have counts : df.size = 1 ∧ Int.tdiv 16 df.size = 16 ∨ df.size = 2 ∧
      Int.tdiv 16 df.size = 8 ∨
      df.size = 4 ∧ Int.tdiv 16 df.size = 4 ∨ df.size = 8 ∧
        Int.tdiv 16 df.size = 2 := by
    rcases named.cases with rfl | rfl | rfl | rfl <;> decide
  have inside : ¬ (lane < 0 ∨ lane ≥ Int.tdiv 16 df.size) := by
    rcases counts with ⟨isSize, isCount⟩ | ⟨isSize, isCount⟩ |
      ⟨isSize, isCount⟩ | ⟨isSize, isCount⟩
    all_goals
      rw [isSize] at below
      omega
  unfold Word.elementIndex
  rw [if_neg (by omega), if_neg inside]
  exact ⟨_, rfl⟩

/-- An instruction whose operands fit has a word. -/
theorem encode_of_encodable {instruction : Insn}
    (fits : instruction.encodable = true) :
    ∃ word, instruction.encode = .ok word := by
  unfold encodable at fits
  cases instruction <;>
    simp only [Bool.and_eq_true, decide_eq_true_eq, and_assoc] at fits
  case nop => exact ⟨_, rfl⟩
  case alu op rd rs rt =>
    exact named_encodes _ (RType.encodes fits.2.1 fits.2.2 fits.1 (by decide)
      (by cases op <;> decide))
  case move rd rs =>
    exact named_encodes _ (RType.encodes fits.2 rfl fits.1 (by decide)
      (by decide))
  case shift op rd rt amount =>
    have inField : ¬ UInt32.ofInt amount > 31 := by
      rw [gt_iff_lt, UInt32.lt_iff_toNat_lt, Word.toNat_ofInt]
      change ¬ 31 < _
      omega
    exact named_encodes _ (RType.encodes rfl fits.2.1 fits.1 inField
      (by cases op <;> decide))
  case jr rs =>
    exact named_encodes _ (RType.encodes fits rfl rfl (by decide) (by decide))
  case signedImm op rt rs imm =>
    simp only [encode, signed16_of_bounds fits.2.2]
    exact named_encodes _
      (IType.encodes (by cases op <;> decide) fits.2.1 fits.1)
  case unsignedImm op rt rs imm =>
    simp only [encode, unsigned16_of_bounds fits.2.2]
    exact named_encodes _
      (IType.encodes (by cases op <;> decide) fits.2.1 fits.1)
  case lui rt imm =>
    simp only [encode, unsigned16_of_bounds fits.2]
    exact named_encodes _ (IType.encodes (by decide) rfl fits.1)
  case mem op rt base offset =>
    simp only [encode, signed16_of_bounds fits.2.2]
    exact named_encodes _
      (IType.encodes (by cases op <;> decide) fits.2.1 fits.1)
  case lanes op df wd ws wt =>
    exact named_encodes _ (ThreeR.encodes fits.2.2 fits.2.1 fits.1
      (by cases op <;> decide) (by cases op <;> decide))
  case float op double wd ws wt =>
    exact named_encodes _ (ThreeRF.encodes fits.2.2 fits.2.1 fits.1
      (by cases op <;> decide) (by decide))
  case bits op wd ws wt =>
    exact named_encodes _ (VEC.encodes fits.2.2 fits.2.1 fits.1
      (by cases op <;> decide))
  case byteImm op wd ws imm =>
    exact named_encodes _ (I8.encodes fits.2 fits.1 (by cases op <;> decide)
      (by decide))
  case moveV wd ws => exact named_encodes _ (encodeMove_encodes fits.1 fits.2)
  case ldi df wd imm =>
    exact named_encodes _ (I10.encodes fits.2 fits.1 (by decide) (by decide))
  case fill df wd rs =>
    exact named_encodes _ (TwoR.encodes fits.2 fits.1 (by decide))
  case ld df wd base offset =>
    exact encodeVectorMem_of_countable (.inl rfl) fits.1 fits.2.1 fits.2.2
  case st df wd base offset =>
    exact encodeVectorMem_of_countable (.inr rfl) fits.1 fits.2.1 fits.2.2
  case copyS df rd ws lane | copyU df rd ws lane =>
    exact named_encodes _ (ELM.encodes (elementIndex_of_hasLane fits.2.2)
      fits.2.1 fits.1 (by decide))
  case insert df wd lane rs =>
    exact named_encodes _ (ELM.encodes (elementIndex_of_hasLane fits.2.2)
      fits.2.1 fits.1 (by decide))
  case shf df wd ws pattern =>
    obtain ⟨isWd, isWs, isNamed, narrow⟩ := fits
    simp only [encode, if_neg narrow]
    refine named_encodes _ (I8.encodes isWs isWd ?_ (by decide))
    rcases isNamed.cases with rfl | rfl | rfl | rfl <;> decide

end Insn

theorem Asm.wrap64_add_three {offset : Int} (low : -0x8000 ≤ offset)
    (high : offset ≤ 0x7fff) : wrap64 (offset + 3) = offset + 3 :=
  Int.bmod_eq_of_le (by omega) (by omega)

/-- What an item needs among code with the given marks, apart from room in the
table of labels. -/
def Item.Fits (marks : List Label) : Item → Prop
  | insn instruction => instruction.encodable = true
  | branch condition left right label =>
      (∃ word, branchWord condition left right = .ok word) ∧ label ∈ marks
  | mark _ => True

theorem Item.Fits.mono {item : Item} {marks more : List Label}
    (fits : item.Fits marks) (subset : marks ⊆ more) : item.Fits more := by
  cases item with
  | insn instruction => exact fits
  | branch condition left right label => exact ⟨fits.1, subset fits.2⟩
  | mark label => trivial

namespace Fragment

@[simp] theorem marks_nil : marks [] = [] := rfl

@[simp] theorem marks_insn (instruction : Insn) :
    (Asm.insn instruction).marks = [] := rfl

@[simp] theorem marks_mark (label : Label) :
    (Asm.mark label).marks = [label] := rfl

@[simp] theorem marks_branch (condition : Condition) (left right : Reg)
    (label : Label) :
    (Asm.branch condition left right label).marks = [] := rfl

theorem marks_insns (instructions : List Insn) :
    marks (instructions.map .insn) = [] := by
  simp [marks]

theorem words_insns (instructions : List Insn) :
    words (instructions.map .insn) = instructions.length := by
  simp [words, Function.comp_def, Item.words, List.map_const']

/-- Every item fits among the given marks. -/
def AllFit (labels : List Label) (code : Fragment) :
    Prop := ∀ item ∈ code, item.Fits labels

section AllFit

variable {labels more : List Label} {code : Fragment}

theorem AllFit.mono (fits : code.AllFit labels) (subset : labels ⊆ more) :
    code.AllFit more :=
  fun item isItem => (fits item isItem).mono subset

@[simp] theorem allFit_nil : AllFit labels [] := fun _ isItem => by cases isItem

@[simp] theorem allFit_append {front back : Fragment} :
    AllFit labels (front ++ back) ↔ AllFit labels front ∧ AllFit labels back :=
  List.forall_mem_append

@[simp] theorem allFit_insn {instruction : Insn} :
    AllFit labels (Asm.insn instruction) ↔ instruction.encodable = true := by
  simp [AllFit, Asm.insn, Item.Fits]

@[simp] theorem allFit_mark {label : Label} :
    AllFit labels (Asm.mark label) := by
  simp [AllFit, Asm.mark, Item.Fits]

theorem allFit_insns {instructions : List Insn} :
    AllFit labels (instructions.map .insn) ↔
      ∀ instruction ∈ instructions, instruction.encodable = true :=
  List.forall_mem_map

theorem allFit_branch_zero {register : Reg}
    (general : register.isGeneral = true) {condition : Condition}
    {label : Label}
    (isKnown : condition = .eq ∨ condition = .ne ∨ condition = .lez) :
    AllFit labels (Asm.branch condition register .zero label) ↔
      label ∈ labels := by
  obtain ⟨number, rfl⟩ := Reg.eq_gp_of_isGeneral general
  have hasWord :
      ∃ word, Item.branchWord condition (.gp number) .zero = .ok word := by
    rcases isKnown with rfl | rfl | rfl <;> exact ⟨_, rfl⟩
  simp [AllFit, Asm.branch, Item.Fits, hasWord]

end AllFit

@[simp] theorem words_insn (instruction : Insn) :
    (Asm.insn instruction).words = 1 := rfl

@[simp] theorem words_mark (label : Label) : (Asm.mark label).words = 0 := rfl

@[simp] theorem words_branch (condition : Condition) (left right : Reg)
    (label : Label) :
    (Asm.branch condition left right label).words = 2 := rfl

/-- Code of at most `room` words with certain marks, which fits among the given
labels. -/
structure Shaped (labels marks : List Label) (room : Nat) (code : Fragment) :
    Prop where
  isMarks : code.marks = marks
  fits : code.AllFit labels
  short : code.words ≤ room

namespace Shaped

variable {labels marks others : List Label} {room more : Nat}
  {front back : Fragment}

theorem weaken (shaped : Shaped labels marks room front)
    (larger : room ≤ more) : Shaped labels marks more front :=
  { shaped with short := shaped.short.trans larger }

theorem append (shapedFront : Shaped labels marks room front)
    (shapedBack : Shaped labels others more back) :
    Shaped labels (marks ++ others) (room + more) (front ++ back) where
  isMarks := by rw [marks_append, shapedFront.isMarks, shapedBack.isMarks]
  fits := allFit_append.mpr ⟨shapedFront.fits, shapedBack.fits⟩
  short := by
    rw [words_append]
    exact Nat.add_le_add shapedFront.short shapedBack.short

theorem mark (label : Label) : Shaped labels [label] 0 (Asm.mark label) :=
  ⟨rfl, allFit_mark, Nat.le_refl 0⟩

theorem branch_zero {register : Reg} (general : register.isGeneral = true)
    {condition : Condition}
    (isKnown : condition = .eq ∨ condition = .ne ∨ condition = .lez)
    {label : Label} (isMarked : label ∈ labels) :
    Shaped labels [] 2 (Asm.branch condition register .zero label) :=
  ⟨rfl, (allFit_branch_zero general isKnown).mpr isMarked, Nat.le_refl 2⟩

end Shaped

/-- Code without marks and branches, of at most `room` words. -/
structure Plain (room : Nat) (code : Fragment) : Prop where
  noMarks : code.marks = []
  fits : ∀ labels, code.AllFit labels
  short : code.words ≤ room

namespace Plain

variable {room more : Nat} {front back : Fragment}

theorem nil (room : Nat) : Plain room [] :=
  ⟨rfl, fun _ => allFit_nil, Nat.zero_le room⟩

theorem insn {instruction : Insn} (fits : instruction.encodable = true) :
    Plain 1 (Asm.insn instruction) :=
  ⟨rfl, fun _ => allFit_insn.mpr fits, Nat.le_refl 1⟩

theorem insns {instructions : List Insn}
    (fits : ∀ instruction ∈ instructions, instruction.encodable = true) :
    Plain instructions.length (instructions.map .insn) :=
  ⟨marks_insns _, fun _ => allFit_insns.mpr fits, (words_insns _).le⟩

theorem weaken (plain : Plain room front) (larger : room ≤ more) :
    Plain more front :=
  { plain with short := plain.short.trans larger }

theorem append (plainFront : Plain room front) (plainBack : Plain more back) :
    Plain (room + more) (front ++ back) where
  noMarks := by rw [marks_append, plainFront.noMarks, plainBack.noMarks,
    List.nil_append]
  fits labels :=
    allFit_append.mpr ⟨plainFront.fits labels, plainBack.fits labels⟩
  short := by
    rw [words_append]
    exact Nat.add_le_add plainFront.short plainBack.short

theorem shaped (plain : Plain room front) (labels : List Label) :
    Shaped labels [] room front :=
  ⟨plain.noMarks, plain.fits labels, plain.short⟩

theorem flatMap {α : Type} {items : List α} {code : α → Fragment}
    (plain : ∀ item ∈ items, Plain room (code item)) :
    Plain (room * items.length) (items.flatMap code) := by
  induction items with
  | nil => exact .nil _
  | cons item rest induction =>
      obtain ⟨plainFirst, plainRest⟩ := List.forall_mem_cons.mp plain
      rw [List.flatMap_cons, List.length_cons, Nat.mul_succ, Nat.add_comm]
      exact plainFirst.append (induction plainRest)

end Plain

/-- Code of at most `room` words that marks every label from the first to the
one before the last once, and branches to nothing else. -/
structure Closed (first last : Int) (room : Nat) (code : Fragment) : Prop where
  fits : code.AllFit code.marks
  nodup : code.marks.Nodup
  marks : ∀ label : Int, label ∈ code.marks ↔ first ≤ label ∧ label < last
  short : code.words ≤ room

namespace Closed

variable {first middle last : Int} {room more : Nat} {front back : Fragment}

theorem weaken (closed : Closed first last room front) (larger : room ≤ more) :
    Closed first last more front :=
  { closed with short := closed.short.trans larger }

theorem append (closedFront : Closed first middle room front)
    (closedBack : Closed middle last more back) (below : first ≤ middle)
    (above : middle ≤ last) :
    Closed first last (room + more) (front ++ back) where
  fits := by
    rw [marks_append, allFit_append]
    exact ⟨closedFront.fits.mono (List.subset_append_left _ _),
      closedBack.fits.mono (List.subset_append_right _ _)⟩
  nodup := by
    rw [marks_append, List.nodup_append]
    refine ⟨closedFront.nodup, closedBack.nodup,
      fun label inFront other inBack => ?_⟩
    have isBelow := ((closedFront.marks label).mp inFront).2
    have isAbove := ((closedBack.marks other).mp inBack).1
    exact (Int.lt_of_lt_of_le isBelow isAbove).ne
  marks label := by
    rw [marks_append, List.mem_append, closedFront.marks, closedBack.marks]
    omega
  short := by
    rw [words_append]
    exact Nat.add_le_add closedFront.short closedBack.short

theorem of_plain (plain : Plain room front) (label : Int) :
    Closed label label room front where
  fits := plain.fits _
  nodup := by
    rw [plain.noMarks]
    exact .nil
  marks other := by
    rw [plain.noMarks]
    simp only [List.not_mem_nil, false_iff]
    omega
  short := plain.short

theorem marks_eq_nil {label : Int} (closed : Closed label label room front) :
    front.marks = [] := by
  rw [List.eq_nil_iff_forall_not_mem]
  intro other isMark
  have bounds := (closed.marks other).mp isMark
  omega

end Closed

variable {code : Fragment}

/-- Code that fits is complete once its labels are in the table and it is short
enough. -/
theorem complete_of_fits (fits : code.AllFit code.marks)
    (nodup : code.marks.Nodup)
    (valid : ∀ label ∈ code.marks, Label.valid label = true)
    (short : code.words + 16 ≤ 2 ^ 15) :
    code.Complete where
  nodup := nodup
  short := short
  encodes item isItem := by
    have itemFits := fits item isItem
    cases item with
    | insn instruction => exact Insn.encode_of_encodable itemFits
    | branch condition left right label =>
        exact ⟨itemFits.1, itemFits.2, valid label itemFits.2⟩
    | mark label => exact valid label (mem_marks.mpr isItem)

theorem crashes_of_fits {labels : List Label} (fits : code.AllFit labels) :
    code.crashes = false := by
  rw [crashes, List.any_eq_false]
  intro item isItem
  have itemFits := fits item isItem
  cases item with
  | insn instruction =>
      obtain ⟨word, encoded⟩ := Insn.encode_of_encodable itemFits
      rw [Item.crashes, Insn.crashes, encoded]
      exact Bool.false_ne_true
  | branch condition left right label => exact Bool.false_ne_true
  | mark label => exact Bool.false_ne_true

end Fragment

namespace CodeBuffer

/-- Emitted code marks labels of the table. -/
theorem valid_of_emitItems {code : Fragment} {buffer after : CodeBuffer}
    (emitted : buffer.emitItems code = (after, none)) :
    ∀ label, Item.mark label ∈ code → Label.valid label = true := by
  induction code generalizing buffer with
  | nil => intro label isMark; cases isMark
  | cons item rest induction =>
      obtain ⟨next, adds, emitted⟩ := emitItems_cons.mp emitted
      intro label isMark
      rcases List.mem_cons.mp isMark with rfl | isLater
      · cases adds with
        | mark _ isValid _ => exact isValid
      · exact induction emitted label isLater

end CodeBuffer

open Outcome

/-- The assembler reports the error. -/
def AsmError.Plain (cause : AsmError) : Prop := cause.isCrash = false

namespace Word

theorem branchOffset_plain (position target : Nat) :
    FailsOnly AsmError.Plain (branchOffset position target) := by
  unfold branchOffset
  simp only
  split
  · exact failsOnly_error rfl
  · split
    · exact failsOnly_error rfl
    · exact failsOnly_ok _

theorem generalField_plain (register : Reg) :
    FailsOnly AsmError.Plain register.generalField := by
  cases register with
  | gp number => exact failsOnly_ok _
  | vec number | unknown tag => exact failsOnly_error rfl

theorem IType.encode_plain (fields : IType) :
    FailsOnly AsmError.Plain fields.encode := by
  unfold encode
  exact failsOnly_refuse (fun _ => rfl) fun _ =>
    (generalField_plain _).bind fun _ _ =>
    (generalField_plain _).bind fun _ _ => failsOnly_ok _

end Word

theorem Item.branchWord_plain (condition : Condition) (left right : Reg) :
    FailsOnly AsmError.Plain (branchWord condition left right) := by
  cases condition with
  | unknown tag => exact failsOnly_error rfl
  | eq | ne | lez | gtz | ltz | gez =>
      unfold branchWord
      exact Word.IType.encode_plain _

namespace CodeBuffer

theorem branchWord_plain (buffer : CodeBuffer) (condition : Condition)
    (left right : Reg) (label : Label) :
    FailsOnly AsmError.Plain
      (buffer.branchWord condition left right label) := by
  unfold branchWord
  refine (Item.branchWord_plain condition left right).bind fun word _ => ?_
  refine failsOnly_refuse (fun _ => rfl) fun _ =>
    failsOnly_refuse (fun _ => rfl) fun _ => ?_
  split
  · exact (Word.branchOffset_plain _ _).bind fun _ _ => failsOnly_ok _
  · exact failsOnly_ok _

theorem emitItem_plain {buffer next : CodeBuffer} {item : Item}
    {cause : AsmError} (emitted : buffer.emitItem item = (next, some cause))
    (noCrash : item.crashes = false) : cause.Plain := by
  cases item with
  | insn instruction =>
      unfold emitItem at emitted
      simp only at emitted
      cases encoded : instruction.encode with
      | ok word =>
          rw [encoded] at emitted
          cases emitted
      | error reason =>
          rw [encoded] at emitted
          cases emitted
          rwa [Item.crashes, Insn.crashes, encoded] at noCrash
  | branch condition left right label =>
      unfold emitItem at emitted
      simp only at emitted
      cases isBranch : buffer.branchWord condition left right label with
      | ok written =>
          rw [isBranch] at emitted
          cases emitted
      | error reason =>
          rw [isBranch] at emitted
          cases emitted
          exact branchWord_plain _ _ _ _ _ _ isBranch
  | mark label =>
      unfold emitItem at emitted
      simp only at emitted
      split at emitted
      · cases emitted
        rfl
      · split at emitted
        · cases emitted
          rfl
        · unfold bind bindError? at emitted
          split at emitted
          case h_1 reason isReason =>
            cases emitted
            split at isReason
            · cases isReason
              rfl
            · cases isReason
          case h_2 => cases emitted

theorem emitItems_plain {code : Fragment} {buffer after : CodeBuffer}
    {cause : AsmError} (emitted : buffer.emitItems code = (after, some cause))
    (noCrash : code.crashes = false) : cause.Plain := by
  induction code generalizing buffer with
  | nil => cases emitted
  | cons item rest induction =>
      rw [Fragment.crashes, List.any_cons, Bool.or_eq_false_iff] at noCrash
      unfold emitItems at emitted
      split at emitted
      case h_1 next isNext => exact induction emitted noCrash.2
      case h_2 next reason isNext =>
        cases emitted
        exact emitItem_plain isNext noCrash.1

theorem patchAll_plain {labels : List (Label × Nat)} {fixups : List Fixup}
    {text last : Array UInt8} {cause : AsmError}
    (patched : patchAll labels text fixups = (last, some cause)) :
    cause.Plain := by
  induction fixups generalizing text with
  | nil => cases patched
  | cons fixup rest induction =>
      have isPlain :
          FailsOnly AsmError.Plain (patchedWord text labels fixup) := by
        unfold patchedWord
        split
        · exact failsOnly_error rfl
        · exact (Word.branchOffset_plain _ _).bind fun _ _ => failsOnly_ok _
      unfold patchAll at patched
      split at patched
      case h_1 => exact induction patched
      case h_2 reason isError =>
        cases patched
        exact isPlain _ isError

theorem resolve_plain {buffer resolved : CodeBuffer} {cause : AsmError}
    (isResolved : buffer.resolve = (resolved, some cause)) : cause.Plain := by
  unfold resolve at isResolved
  split at isResolved
  · cases isResolved
    rfl
  · split at isResolved
    case h_1 => cases isResolved
    case h_2 text reason isPatched =>
      cases isResolved
      exact patchAll_plain isPatched

theorem finish_plain (buffer : CodeBuffer) :
    FailsOnly AsmError.Plain buffer.finish := by
  unfold finish
  split
  · exact failsOnly_ok _
  · exact failsOnly_error rfl

end CodeBuffer

/-- The assembler reports why it refuses code that does not stop it. -/
theorem Compiler.assemble_plain {code : Fragment}
    (noCrash : code.crashes = false) (options : CompileOptions) :
    FailsOnly AsmError.Plain (assemble code options) := by
  intro cause isError
  unfold assemble at isError
  split at isError
  case h_1 buffer reason emitted =>
    cases isError
    rw [CodeBuffer.emit, noCrash] at emitted
    exact CodeBuffer.emitItems_plain emitted noCrash
  case h_2 buffer emitted =>
    simp only at isError
    split at isError
    case h_1 resolved reason isResolved =>
      cases isError
      exact CodeBuffer.resolve_plain isResolved
    case h_2 resolved isResolved => exact CodeBuffer.finish_plain _ _ isError

theorem Compiler.valid_of_assemble {code : Fragment} {options : CompileOptions}
    {result : MachineCode} (assembled : assemble code options = .ok result) :
    ∀ label ∈ code.marks, Label.valid label = true := by
  unfold assemble at assembled
  split at assembled
  case h_1 => cases assembled
  case h_2 buffer emitted =>
    unfold CodeBuffer.emit at emitted
    split at emitted
    case isTrue => cases emitted
    case isFalse =>
      exact fun label isMark =>
        CodeBuffer.valid_of_emitItems emitted label
          (Fragment.mem_marks.mp isMark)

end LaneKernel
