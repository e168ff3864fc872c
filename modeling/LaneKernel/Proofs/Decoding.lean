import LaneKernel.Machine.Core
import LaneKernel.Proofs.Encoding

/-!
# Decoding undoes encoding

`Insn.operation?` says what the machine should do for an instruction: the named
operation on the numbers of the named registers, with the immediates extended as
their range check implies.  It is missing for the few element moves that exist
in the instruction format but not on a 32-bit core.  The main statement,
`Insn.decode?_encode`, is that decoding the word of an instruction gives exactly
this operation.
-/

namespace LaneKernel

open Word

/-- The number of a register operand in its bank. -/
def Reg.index : Reg → RegNum
  | gp index => index
  | vec index => index
  | unknown _ => 0

@[simp] theorem Reg.index_gp (index : RegNum) :
    (Reg.gp index).index = index := rfl

@[simp] theorem Reg.index_vec (index : RegNum) :
    (Reg.vec index).index = index := rfl

/-- The machine's name of an arithmetic operation. -/
def AluOp.registerFn : AluOp → RegisterFn
  | addu => .addu | subu => .subu | and => .and | or => .or | xor => .xor

/-- The element size of a format in bytes. -/
def DataFormat.bytes (df : DataFormat) : Nat := 2 ^ df.tag.toNat

namespace Insn

/-- The instruction uses one of the four named formats, if it has a format at
all. -/
def NamedFormat : Insn → Prop
  | lanes _ df _ _ _ | ldi df _ _ | fill df _ _ | ld df _ _ _ | st df _ _ _
  | copyS df _ _ _
  | copyU df _ _ _ | insert df _ _ _ | shf df _ _ _ => df.Named
  | _ => True

instance (instruction : Insn) : Decidable instruction.NamedFormat := by
  cases instruction <;> simp only [NamedFormat] <;> infer_instance

/-- The operation that an instruction stands for, unless a 32-bit core does not
have it. -/
def operation? : Insn → Option Operation
  | nop => some (.shift .sll 0 0 0)
  | alu op rd rs rt => some (.alu op.registerFn rd.index rs.index rt.index)
  | move rd rs => some (.alu .addu rd.index rs.index 0)
  | shift op rd rt amount =>
      some (.shift op rd.index rt.index (UInt32.ofInt amount))
  | jr rs => some (.jump rs.index)
  | signedImm op rt rs imm =>
      some (.signedImm op rt.index rs.index (Core.distance imm))
  | unsignedImm op rt rs imm =>
      some (.unsignedImm op rt.index rs.index (UInt32.ofNat imm.toNat))
  | lui rt imm => some (.lui rt.index (UInt32.ofNat imm.toNat))
  | mem op rt base offset =>
      some (.mem op rt.index base.index (Core.distance offset))
  | lanes op df wd ws wt => some (.lanes op df.bytes wd.index ws.index wt.index)
  | float op double wd ws wt =>
      some (.float op double wd.index ws.index wt.index)
  | bits op wd ws wt => some (.bits op wd.index ws.index wt.index)
  | byteImm op wd ws imm => some (.byteImm op wd.index ws.index imm)
  | moveV wd ws => some (.moveV wd.index ws.index)
  | ldi df wd imm => some (.broadcast df.bytes wd.index imm)
  | fill df wd rs =>
      if df = .double then none else some (.fill df.bytes wd.index rs.index)
  | ld _ wd base offset => some (.loadV wd.index base.index offset)
  | st _ wd base offset => some (.storeV wd.index base.index offset)
  | copyS df rd ws lane =>
      if df = .double then none
      else some (.copySigned df.bytes lane.toNat rd.index ws.index)
  | copyU df rd ws lane =>
      if df = .word ∨ df = .double then none
      else some (.copyUnsigned df.bytes lane.toNat rd.index ws.index)
  | insert df wd lane rs =>
      if df = .double then none
      else some (.insert df.bytes lane.toNat wd.index rs.index)
  | shf df wd ws pattern => some (.shuffle df.bytes wd.index ws.index pattern)

end Insn

theorem Int32.toNat_toUInt32 (number : Int32) :
    (number.toUInt32.toNat : Int) = number.toInt % 2 ^ 32 := by
  have bound := number.toBitVec.isLt
  change (number.toBitVec.toNat : Int) = number.toBitVec.toInt % 2 ^ 32
  rw [BitVec.toInt_eq_toNat_cond]
  split <;> omega

theorem signedImmediate_eq {word : UInt32} {value : Int}
    (low : -0x8000 ≤ value) (high : value ≤ 0x7fff)
    (same : ((word.toNat % 2 ^ 16 : Nat) : Int) = value % 0x10000) :
    signedImmediate word = Core.distance value := by
  have narrow : word.toUInt16.toInt16.toInt = value := by
    change word.toUInt16.toBitVec.toInt = value
    rw [BitVec.toInt_eq_toNat_bmod]
    change Int.bmod word.toUInt16.toNat (2 ^ 16) = value
    rw [UInt32.toNat_toUInt16, Int.bmod]
    split <;> omega
  have wide : word.toUInt16.toInt16.toInt32.toInt = value := by
    rw [Int16.toInt_toInt32, narrow]
  apply UInt32.toNat_inj.mp
  have signed := Int32.toNat_toUInt32 word.toUInt16.toInt16.toInt32
  rw [wide] at signed
  unfold signedImmediate Core.distance
  rw [Word.toNat_ofInt]
  omega

theorem unsignedImmediate_eq {word : UInt32} {value : Nat}
    (same : word.toNat % 2 ^ 16 = value) :
    unsignedImmediate word = UInt32.ofNat value := by
  apply UInt32.toNat_inj.mp
  rw [toNat_unsignedImmediate, UInt32.toNat_ofNat']
  omega

theorem signed10_eq {bits : UInt32} {value : Int} (low : -512 ≤ value)
    (high : value ≤ 511)
    (same : ((bits.toNat % 2 ^ 10 : Nat) : Int) = value % 1024) :
    signed10 bits = value := by
  have masked : (bits &&& 0x3ff).toNat = bits.toNat % 2 ^ 10 :=
    toNat_and_mask bits 0x3ff 10 rfl
  unfold signed10
  simp only [masked]
  split <;> omega

/-- The decoder knows every lane operation by the fields it is assembled
with. -/
theorem LaneOp.ofCode?_code (op : LaneOp) :
    ofCode? op.minor op.code = some op := by
  cases op <;> rfl

theorem FloatOp.ofCode?_code (op : FloatOp) : ofCode? op.code = some op := by
  cases op <;> rfl

theorem BitOp.ofCode?_code (op : BitOp) : ofCode? op.code = some op := by
  cases op <;> rfl

namespace Operation

theorem decode?_of_special {word : UInt32} (major : word.toNat / 2 ^ 26 = 0) :
    decode? word = decodeRegister word := by
  simp only [decode?, toNat_opcode, major]

theorem decode?_of_vector {word : UInt32} (major : word.toNat / 2 ^ 26 = 0x1e) :
    decode? word = decodeVector word := by
  simp only [decode?, toNat_opcode, major]

theorem decode?_shift {word : UInt32} {op : ShiftOp} {rt rd : RegNum}
    {shamt : UInt32} (shamtBound : shamt.toNat < 2 ^ 5)
    (value : word.toNat =
      rt.val * 2 ^ 16 + rd.val * 2 ^ 11 + shamt.toNat * 2 ^ 6 +
        op.function.toNat) :
    decode? word = some (.shift op rd rt shamt) := by
  have rtBound := rt.isLt
  have rdBound := rd.isLt
  have functionBound : op.function.toNat < 2 ^ 6 := by cases op <;> decide
  have functionField : (function word).toNat = op.function.toNat := by
    rw [toNat_function]
    omega
  have rtField : register (Word.rt word) = rt :=
    register_eq (by rw [toNat_rt]; omega)
  have rdField : register (Word.rd word) = rd :=
    register_eq (by rw [toNat_rd]; omega)
  have shamtField : shiftAmount word = shamt := by
    apply UInt32.toNat_inj.mp
    rw [toNat_shiftAmount]
    omega
  rw [decode?_of_special (by omega)]
  unfold decodeRegister
  rw [functionField, rtField, rdField, shamtField]
  cases op <;> rfl

theorem general_registers (word : UInt32) (rs rt rd : RegNum) (low : Nat)
    (lowBound : low < 2 ^ 11)
    (packed : word.toNat % 2 ^ 26 =
      rs.val * 2 ^ 21 + rt.val * 2 ^ 16 + rd.val * 2 ^ 11 + low) :
    register (Word.rs word) = rs ∧ register (Word.rt word) = rt ∧
      register (Word.rd word) = rd := by
  have rsBound := rs.isLt
  have rtBound := rt.isLt
  have rdBound := rd.isLt
  refine ⟨register_eq ?_, register_eq ?_, register_eq ?_⟩
  · rw [toNat_rs]
    omega
  · rw [toNat_rt]
    omega
  · rw [toNat_rd]
    omega

theorem decode?_alu {word : UInt32} {op : AluOp} {rs rt rd : RegNum}
    (value : word.toNat =
      rs.val * 2 ^ 21 + rt.val * 2 ^ 16 + rd.val * 2 ^ 11 + op.function.toNat) :
    decode? word = some (.alu op.registerFn rd rs rt) := by
  have rsBound := rs.isLt
  have rtBound := rt.isLt
  have rdBound := rd.isLt
  have functionBound : op.function.toNat < 2 ^ 6 := by cases op <;> decide
  have functionField : function word = op.function := by
    apply UInt32.toNat_inj.mp
    rw [toNat_function]
    omega
  obtain ⟨rsField, rtField, rdField⟩ :=
    general_registers word rs rt rd op.function.toNat (by omega) (by omega)
  rw [decode?_of_special (by omega)]
  unfold decodeRegister
  rw [functionField, rsField, rtField, rdField]
  cases op <;> rfl

theorem decode?_jump {word : UInt32} {rs : RegNum}
    (value : word.toNat = rs.val * 2 ^ 21 + 8) :
    decode? word = some (.jump rs) := by
  have rsBound := rs.isLt
  have functionField : (function word).toNat = 8 := by
    rw [toNat_function]
    omega
  have rsField : register (Word.rs word) = rs :=
    register_eq (by rw [toNat_rs]; omega)
  rw [decode?_of_special (by omega)]
  unfold decodeRegister
  rw [functionField, rsField]
  rfl

section Immediate

variable {word : UInt32} {rs rt : RegNum} {op imm : Nat} {value : Int}

theorem immediate_fields (immBound : imm < 2 ^ 16)
    (packed : word.toNat =
      op * 2 ^ 26 + rs.val * 2 ^ 21 + rt.val * 2 ^ 16 + imm) :
    (opcode word).toNat = op ∧ register (Word.rs word) = rs ∧
      register (Word.rt word) = rt ∧ (Word.rt word).toNat = rt.val ∧
      word.toNat % 2 ^ 16 = imm := by
  have rsBound := rs.isLt
  have rtBound := rt.isLt
  refine ⟨?_, register_eq ?_, register_eq ?_, ?_, ?_⟩
  · rw [toNat_opcode]
    omega
  · rw [toNat_rs]
    omega
  · rw [toNat_rt]
    omega
  · rw [toNat_rt]
    omega
  · omega

variable (low : -0x8000 ≤ value) (high : value ≤ 0x7fff)
  (same : (imm : Int) = value % 0x10000)

include low high same in
theorem decode?_signedImm (operation : SignedImmOp)
    (packed : word.toNat =
      operation.opcode.toNat * 2 ^ 26 + rs.val * 2 ^ 21 +
        rt.val * 2 ^ 16 + imm) :
    decode? word = some (.signedImm operation rt rs (Core.distance value)) := by
  obtain ⟨opField, rsField, rtField, _, immField⟩ :=
    immediate_fields (by omega) packed
  have immediate : signedImmediate word = Core.distance value :=
    signedImmediate_eq low high (by omega)
  unfold decode?
  rw [opField, rsField, rtField, immediate]
  cases operation <;> rfl

include low high same in
theorem decode?_mem (operation : MemOp)
    (packed : word.toNat =
      operation.opcode.toNat * 2 ^ 26 + rs.val * 2 ^ 21 +
        rt.val * 2 ^ 16 + imm) :
    decode? word = some (.mem operation rt rs (Core.distance value)) := by
  obtain ⟨opField, rsField, rtField, _, immField⟩ :=
    immediate_fields (by omega) packed
  have immediate : signedImmediate word = Core.distance value :=
    signedImmediate_eq low high (by omega)
  unfold decode?
  rw [opField, rsField, rtField, immediate]
  cases operation <;> rfl

theorem decode?_unsignedImm (operation : UnsignedImmOp)
    (immBound : imm < 2 ^ 16) (packed : word.toNat =
      operation.opcode.toNat * 2 ^ 26 + rs.val * 2 ^ 21 +
        rt.val * 2 ^ 16 + imm) :
    decode? word = some (.unsignedImm operation rt rs (UInt32.ofNat imm)) := by
  obtain ⟨opField, rsField, rtField, _, immField⟩ :=
    immediate_fields immBound packed
  have immediate := unsignedImmediate_eq immField
  unfold decode?
  rw [opField, rsField, rtField, immediate]
  cases operation <;> rfl

theorem decode?_lui (immBound : imm < 2 ^ 16)
    (packed : word.toNat =
      0x0f * 2 ^ 26 + rs.val * 2 ^ 21 + rt.val * 2 ^ 16 + imm) :
    decode? word = some (.lui rt (UInt32.ofNat imm)) := by
  obtain ⟨opField, rsField, rtField, _, immField⟩ :=
    immediate_fields immBound packed
  have immediate := unsignedImmediate_eq immField
  unfold decode?
  rw [opField, rtField, immediate]
  rfl

end Immediate

theorem vector_registers (word : UInt32) (minorCode : Nat) (wt ws wd : RegNum)
    (minorBound : minorCode < 2 ^ 6)
    (packed : word.toNat % 2 ^ 21 =
      wt.val * 2 ^ 16 + ws.val * 2 ^ 11 + wd.val * 2 ^ 6 + minorCode) :
    (minor word).toNat = minorCode ∧ register (Word.wt word) = wt ∧
      register (Word.ws word) = ws ∧ register (Word.wd word) = wd := by
  have wtBound := wt.isLt
  have wsBound := ws.isLt
  have wdBound := wd.isLt
  refine ⟨?_, register_eq ?_, register_eq ?_, register_eq ?_⟩
  · rw [toNat_minor]
    omega
  · rw [toNat_wt]
    omega
  · rw [toNat_ws]
    omega
  · rw [toNat_wd]
    omega

theorem decode?_lanes {word : UInt32} {op : LaneOp} {tag : Nat}
    {wt ws wd : RegNum} (tagBound : tag < 4)
    (packed : word.toNat =
      0x1e * 2 ^ 26 + op.code.toNat * 2 ^ 23 + tag * 2 ^ 21 +
      wt.val * 2 ^ 16 + ws.val * 2 ^ 11 + wd.val * 2 ^ 6 + op.minor.toNat) :
    decode? word = some (.lanes op (2 ^ tag) wd ws wt) := by
  have wtBound := wt.isLt
  have wsBound := ws.isLt
  have wdBound := wd.isLt
  have codeBound : op.code.toNat < 2 ^ 3 := by cases op <;> decide
  have minorBound : op.minor.toNat < 2 ^ 6 := by cases op <;> decide
  obtain ⟨minorField, wtField, wsField, wdField⟩ :=
    vector_registers word op.minor.toNat wt ws wd minorBound (by omega)
  have formatField : format word = tag := by
    rw [format_eq]
    omega
  have codeField : (word >>> 23) &&& 7 = op.code := by
    apply UInt32.toNat_inj.mp
    rw [toNat_field word 23 7 23 3 rfl (by decide) rfl]
    omega
  have minorWord : minor word = op.minor := UInt32.toNat_inj.mp minorField
  rw [decode?_of_vector (by omega)]
  unfold decodeVector
  rw [minorWord, formatField, codeField, wtField, wsField, wdField,
    op.ofCode?_code, elementSize_eq]
  cases op <;> rfl

theorem decode?_float {word : UInt32} {op : FloatOp} {double : Bool}
    {wt ws wd : RegNum}
    (packed : word.toNat = 0x1e * 2 ^ 26 + op.code.toNat * 2 ^ 22 +
      (if double then 1 else 0) * 2 ^ 21 + wt.val * 2 ^ 16 + ws.val * 2 ^ 11 +
        wd.val * 2 ^ 6 +
      0x1b) :
    decode? word = some (.float op double wd ws wt) := by
  have wtBound := wt.isLt
  have wsBound := ws.isLt
  have wdBound := wd.isLt
  have codeBound : op.code.toNat < 2 ^ 4 := by cases op <;> decide
  have doubleBound : (if double then 1 else 0 : Nat) < 2 := by
    cases double <;> decide
  obtain ⟨minorField, wtField, wsField, wdField⟩ :=
    vector_registers word 0x1b wt ws wd (by decide) (by omega)
  have codeField : (word >>> 22) &&& 0xf = op.code := by
    apply UInt32.toNat_inj.mp
    rw [toNat_field word 22 0xf 22 4 rfl (by decide) rfl]
    omega
  have doubleField : ((word >>> 21) &&& 1 == 1) = double := by
    have number : ((word >>> 21) &&& 1).toNat = if double then 1 else 0 := by
      rw [toNat_field word 21 1 21 1 rfl (by decide) rfl]
      omega
    cases double with
    | true =>
        have one : (word >>> 21) &&& 1 = 1 := UInt32.toNat_inj.mp number
        rw [one]
        rfl
    | false =>
        have zero : (word >>> 21) &&& 1 = 0 := UInt32.toNat_inj.mp number
        rw [zero]
        rfl
  rw [decode?_of_vector (by omega)]
  unfold decodeVector
  rw [minorField, codeField, doubleField, wtField, wsField, wdField,
    op.ofCode?_code]
  rfl

theorem decode?_bits {word : UInt32} {op : BitOp} {wt ws wd : RegNum}
    (packed : word.toNat =
      0x1e * 2 ^ 26 + op.code.toNat * 2 ^ 21 + wt.val * 2 ^ 16 +
      ws.val * 2 ^ 11 + wd.val * 2 ^ 6 + 0x1e) :
    decode? word = some (.bits op wd ws wt) := by
  have wtBound := wt.isLt
  have wsBound := ws.isLt
  have wdBound := wd.isLt
  have codeBound : op.code.toNat < 2 ^ 2 := by cases op <;> decide
  obtain ⟨minorField, wtField, wsField, wdField⟩ :=
    vector_registers word 0x1e wt ws wd (by decide) (by omega)
  have codeField : (word >>> 21) &&& 0x1f = op.code := by
    apply UInt32.toNat_inj.mp
    rw [toNat_field word 21 0x1f 21 5 rfl (by decide) rfl]
    omega
  rw [decode?_of_vector (by omega)]
  unfold decodeVector decodeWhole
  rw [minorField, codeField, wtField, wsField, wdField, op.ofCode?_code]
  rfl

theorem decode?_fill {word : UInt32} {tag : Nat} {rs wd : RegNum}
    (tagBound : tag < 4)
    (packed : word.toNat =
      0x1e * 2 ^ 26 + 0xc0 * 2 ^ 18 + tag * 2 ^ 16 + rs.val * 2 ^ 11 +
      wd.val * 2 ^ 6 + 0x1e) :
    decode? word = if tag = 3 then none else some (.fill (2 ^ tag) wd rs) := by
  have rsBound := rs.isLt
  have wdBound := wd.isLt
  obtain ⟨minorField, _, wsField, wdField⟩ :=
    vector_registers word 0x1e ⟨tag, by omega⟩ rs wd (by decide)
      (by simp only; omega)
  have wholeField : (word >>> 21) &&& 0x1f = 0x18 := by
    apply UInt32.toNat_inj.mp
    rw [toNat_field word 21 0x1f 21 5 rfl (by decide) rfl]
    change _ = 0x18
    omega
  have fillField : (word >>> 18) &&& 0xff = 0xc0 := by
    apply UInt32.toNat_inj.mp
    rw [toNat_field word 18 0xff 18 8 rfl (by decide) rfl]
    change _ = 0xc0
    omega
  have formatField : ((word >>> 16) &&& 3).toNat = tag := by
    rw [toNat_field word 16 3 16 2 rfl (by decide) rfl]
    omega
  rw [decode?_of_vector (by omega)]
  unfold decodeVector decodeWhole
  rw [minorField, wholeField, fillField, formatField, wsField, wdField]
  have tagCases : tag = 0 ∨ tag = 1 ∨ tag = 2 ∨ tag = 3 := by omega
  rcases tagCases with rfl | rfl | rfl | rfl <;> rfl

theorem byteImm_fields {word : UInt32} {code minorCode : Nat} {imm : UInt8}
    {ws wd : RegNum} (codeBound : code < 2 ^ 2) (minorBound : minorCode < 2 ^ 6)
    (packed : word.toNat = 0x1e * 2 ^ 26 + code * 2 ^ 24 + imm.toNat * 2 ^ 16 +
      ws.val * 2 ^ 11 + wd.val * 2 ^ 6 + minorCode) :
    (minor word).toNat = minorCode ∧ register (Word.ws word) = ws ∧
      register (Word.wd word) = wd ∧
      ((word >>> 24) &&& 3).toNat = code ∧ (word >>> 16).toUInt8 = imm := by
  have wsBound := ws.isLt
  have wdBound := wd.isLt
  have immBound := imm.toNat_lt
  refine ⟨?_, register_eq ?_, register_eq ?_, ?_, UInt8.toNat_inj.mp ?_⟩
  · rw [toNat_minor]
    omega
  · rw [toNat_ws]
    omega
  · rw [toNat_wd]
    omega
  · rw [toNat_field word 24 3 24 2 rfl (by decide) rfl]
    omega
  · rw [UInt32.toNat_toUInt8, toNat_shiftRight_place word 16 16 rfl (by decide)]
    omega

theorem decode?_byteImm {word : UInt32} {op : BitOp} {imm : UInt8}
    {ws wd : RegNum}
    (packed : word.toNat =
      0x1e * 2 ^ 26 + op.code.toNat * 2 ^ 24 + imm.toNat * 2 ^ 16 +
      ws.val * 2 ^ 11 + wd.val * 2 ^ 6) :
    decode? word = some (.byteImm op wd ws imm) := by
  have wsBound := ws.isLt
  have wdBound := wd.isLt
  have immBound := imm.toNat_lt
  have codeBound : op.code.toNat < 2 ^ 2 := by cases op <;> decide
  obtain ⟨isMinor, wsField, wdField, isCode, immField⟩ :=
    byteImm_fields codeBound (show 0 < 2 ^ 6 by decide) packed
  have minorField : minor word = 0 := UInt32.toNat_inj.mp isMinor
  have codeField : (word >>> 24) &&& 3 = op.code := UInt32.toNat_inj.mp isCode
  rw [decode?_of_vector (by omega)]
  unfold decodeVector decodeByteImm
  rw [minorField, codeField, immField, wsField, wdField]
  exact congrArg (Option.map _) op.ofCode?_code

theorem decode?_shuffle {word : UInt32} {tag : Nat} {imm : UInt8}
    {ws wd : RegNum} (tagBound : tag < 3)
    (packed : word.toNat = 0x1e * 2 ^ 26 + tag * 2 ^ 24 + imm.toNat * 2 ^ 16 +
      ws.val * 2 ^ 11 + wd.val * 2 ^ 6 + 2) :
    decode? word = some (.shuffle (2 ^ tag) wd ws imm) := by
  have wsBound := ws.isLt
  have wdBound := wd.isLt
  have immBound := imm.toNat_lt
  obtain ⟨isMinor, wsField, wdField, isCode, immField⟩ :=
    byteImm_fields (Nat.lt_trans tagBound (by decide)) (by decide) packed
  have minorField : minor word = 2 := UInt32.toNat_inj.mp isMinor
  have codeField : (word >>> 24) &&& 3 = UInt32.ofNat tag := by
    apply UInt32.toNat_inj.mp
    rw [isCode, UInt32.toNat_ofNat']
    omega
  rw [decode?_of_vector (by omega)]
  unfold decodeVector decodeByteImm
  rw [minorField, codeField, immField, wsField, wdField]
  have tagCases : tag = 0 ∨ tag = 1 ∨ tag = 2 := by omega
  rcases tagCases with rfl | rfl | rfl <;> rfl

theorem decode?_broadcast {word : UInt32} {tag imm : Nat} {value : Int}
    {wd : RegNum} (tagBound : tag < 4) (low : -512 ≤ value) (high : value ≤ 511)
    (same : (imm : Int) = value % 1024)
    (packed : word.toNat =
      0x1e * 2 ^ 26 + 6 * 2 ^ 23 + tag * 2 ^ 21 + imm * 2 ^ 11 +
      wd.val * 2 ^ 6 + 7) :
    decode? word = some (.broadcast (2 ^ tag) wd value) := by
  have wdBound := wd.isLt
  have minorField : (minor word).toNat = 7 := by
    rw [toNat_minor]
    omega
  have wdField : register (Word.wd word) = wd :=
    register_eq (by rw [toNat_wd]; omega)
  have formatField : format word = tag := by
    rw [format_eq]
    omega
  have codeField : (word >>> 23) &&& 7 = 6 := by
    apply UInt32.toNat_inj.mp
    rw [toNat_field word 23 7 23 3 rfl (by decide) rfl]
    change _ = 6
    omega
  have immField : signed10 (word >>> 11) = value := by
    apply signed10_eq low high
    rw [toNat_shiftRight_place word 11 11 rfl (by decide)]
    omega
  rw [decode?_of_vector (by omega)]
  unfold decodeVector
  rw [minorField, formatField, codeField, immField, wdField, elementSize_eq]
  rfl

theorem memory_fields {word : UInt32} {code tag imm : Nat} {value : Int}
    {rs wd : RegNum} (tagBound : tag < 4) (codeBound : code < 2 ^ 4)
    (low : -512 ≤ value) (high : value ≤ 511)
    (same : (imm : Int) = value % 1024)
    (packed : word.toNat =
      0x1e * 2 ^ 26 + imm * 2 ^ 16 + rs.val * 2 ^ 11 + wd.val * 2 ^ 6 +
      code * 2 ^ 2 + tag) :
    (minor word).toNat = code * 2 ^ 2 + tag ∧ (word &&& 3).toNat = tag ∧
      (word &&& 0x3c).toNat = code * 2 ^ 2 ∧ signed10 (word >>> 16) = value ∧
      register (Word.ws word) = rs ∧ register (Word.wd word) = wd := by
  have rsBound := rs.isLt
  have wdBound := wd.isLt
  have lowBits : (word &&& 3).toNat = tag := by
    rw [toNat_and_mask word 3 2 rfl]
    omega
  have middleBits : (word &&& 0x3c).toNat = code * 2 ^ 2 := by
    have everySix : ∀ number < 64, (UInt32.ofNat number &&& 0x3c).toNat =
        number / 4 * 4 := by
      decide
    have lowSix : word &&& 0x3f = UInt32.ofNat (code * 2 ^ 2 + tag) := by
      apply UInt32.toNat_inj.mp
      rw [toNat_and_mask word 0x3f 6 rfl, UInt32.toNat_ofNat']
      omega
    have again : word &&& 0x3c = (word &&& 0x3f) &&& 0x3c := by
      rw [UInt32.and_assoc]
      rfl
    rw [again, lowSix, everySix _ (by omega)]
    omega
  refine ⟨?_, lowBits, middleBits, ?_, register_eq ?_, register_eq ?_⟩
  · rw [toNat_minor]
    omega
  · apply signed10_eq low high
    rw [toNat_shiftRight_place word 16 16 rfl (by decide)]
    omega
  · rw [toNat_ws]
    omega
  · rw [toNat_wd]
    omega

section VectorMemory

variable {word : UInt32} {tag imm : Nat} {value : Int} {rs wd : RegNum}
  (tagBound : tag < 4) (low : -512 ≤ value) (high : value ≤ 511)
  (same : (imm : Int) = value % 1024)

include tagBound low high same

theorem decode?_loadV
    (packed : word.toNat =
      0x1e * 2 ^ 26 + imm * 2 ^ 16 + rs.val * 2 ^ 11 + wd.val * 2 ^ 6 +
      8 * 2 ^ 2 + tag) :
    decode? word = some (.loadV wd rs (value * (2 ^ tag : Nat))) := by
  have rsBound := rs.isLt
  have wdBound := wd.isLt
  obtain ⟨minorField, tagField, codeField, offsetField, rsField, wdField⟩ :=
    memory_fields tagBound (by decide) low high same packed
  have codeWord : word &&& 0x3c = 0x20 := UInt32.toNat_inj.mp codeField
  rw [decode?_of_vector (by omega)]
  unfold decodeVector
  rw [minorField, tagField, codeWord, offsetField, rsField, wdField]
  have tagCases : tag = 0 ∨ tag = 1 ∨ tag = 2 ∨ tag = 3 := by omega
  rcases tagCases with rfl | rfl | rfl | rfl <;> rfl

theorem decode?_storeV
    (packed : word.toNat =
      0x1e * 2 ^ 26 + imm * 2 ^ 16 + rs.val * 2 ^ 11 + wd.val * 2 ^ 6 +
      9 * 2 ^ 2 + tag) :
    decode? word = some (.storeV wd rs (value * (2 ^ tag : Nat))) := by
  have rsBound := rs.isLt
  have wdBound := wd.isLt
  obtain ⟨minorField, tagField, codeField, offsetField, rsField, wdField⟩ :=
    memory_fields tagBound (by decide) low high same packed
  have codeWord : word &&& 0x3c = 0x24 := UInt32.toNat_inj.mp codeField
  rw [decode?_of_vector (by omega)]
  unfold decodeVector
  rw [minorField, tagField, codeWord, offsetField, rsField, wdField]
  have tagCases : tag = 0 ∨ tag = 1 ∨ tag = 2 ∨ tag = 3 := by omega
  rcases tagCases with rfl | rfl | rfl | rfl <;> rfl

end VectorMemory

/-- The fields of the element format; the decoder of the format sees nothing
else of the word. -/
theorem decode?_element {word index : UInt32} {op : Nat} {src dst : RegNum}
    (opBound : op < 2 ^ 4) (indexBound : index.toNat < 2 ^ 6)
    (packed : word.toNat = 0x1e * 2 ^ 26 + op * 2 ^ 22 + index.toNat * 2 ^ 16 +
      src.val * 2 ^ 11 + dst.val * 2 ^ 6 + 0x19) :
    decode? word =
      if op = 2 ∧ index = 0x3e then some (.moveV dst src)
      else
        match splitElementIndex index with
        | none => none
        | some (size, lane) =>
            if size = 8 then none
            else
              match op with
              | 2 => some (.copySigned size lane dst src)
              | 3 =>
                  if size = 4 then none
                    else some (.copyUnsigned size lane dst src)
              | 4 => some (.insert size lane dst src)
              | _ => none := by
  have srcBound := src.isLt
  have dstBound := dst.isLt
  have minorField : (minor word).toNat = 0x19 := by
    rw [toNat_minor]
    omega
  have opField : ((word >>> 22) &&& 0xf).toNat = op := by
    rw [toNat_field word 22 0xf 22 4 rfl (by decide) rfl]
    omega
  have indexField : (word >>> 16) &&& 0x3f = index := by
    apply UInt32.toNat_inj.mp
    rw [toNat_field word 16 0x3f 16 6 rfl (by decide) rfl]
    omega
  have srcField : register (Word.ws word) = src :=
    register_eq (by rw [toNat_ws]; omega)
  have dstField : register (Word.wd word) = dst :=
    register_eq (by rw [toNat_wd]; omega)
  rw [decode?_of_vector (by omega)]
  unfold decodeVector
  rw [minorField]
  unfold decodeElement
  rw [opField, indexField, srcField, dstField]
  rfl

end Operation

theorem splitElementIndex_elementIndex {df : DataFormat} {lane : Int}
    {index : UInt32} (named : df.Named)
    (found : elementIndex df lane = .ok index) :
    splitElementIndex index = some (df.bytes, lane.toNat) ∧ index ≠ 0x3e := by
  obtain ⟨_, laneBound, value⟩ := elementIndex_eq_ok named found
  have isIndex : index = UInt32.ofNat index.toNat := by simp
  rw [isIndex, value]
  rcases named.cases with rfl | rfl | rfl | rfl
  · have everyLane :
        ∀ number < 16, splitElementIndex (UInt32.ofNat (0 + number)) =
            some (1, number) ∧
          UInt32.ofNat (0 + number) ≠ 0x3e := by decide
    exact everyLane lane.toNat (by simpa [DataFormat.byte] using laneBound)
  · have everyLane :
        ∀ number < 8, splitElementIndex (UInt32.ofNat (0x20 + number)) =
            some (2, number) ∧
          UInt32.ofNat (0x20 + number) ≠ 0x3e := by decide
    exact everyLane lane.toNat (by simp [DataFormat.half] at laneBound; omega)
  · have everyLane :
        ∀ number < 4, splitElementIndex (UInt32.ofNat (0x30 + number)) =
            some (4, number) ∧
          UInt32.ofNat (0x30 + number) ≠ 0x3e := by decide
    exact everyLane lane.toNat (by simp [DataFormat.word] at laneBound; omega)
  · have everyLane :
        ∀ number < 2, splitElementIndex (UInt32.ofNat (0x38 + number)) =
            some (8, number) ∧
          UInt32.ofNat (0x38 + number) ≠ 0x3e := by decide
    exact everyLane lane.toNat (by simp [DataFormat.double] at laneBound; omega)

namespace Insn

open Outcome Operation

theorem named_eq_ok {text : String} {outcome : Except AsmError UInt32}
    {word : UInt32} (encoded : named text outcome = .ok word) :
    outcome = .ok word :=
  mapError_eq_ok.mp encoded

/-- The word of a vector load or store counts the offset in elements. -/
theorem encodeVectorMem_eq_ok {name text : String} {minor : UInt32}
    {df : DataFormat} {wd base : Reg} {offset : Int} {word : UInt32}
    (isNamed : df.Named)
    (encoded : encodeVectorMem name minor text df wd base offset = .ok word) :
    ∃ rs vd : RegNum, ∃ imm : Nat, ∃ count : Int,
      base = .gp rs ∧ wd = .vec vd ∧ -512 ≤ count ∧ count ≤ 511 ∧
        (imm : Int) = count % 1024 ∧
      count * (2 ^ df.tag.toNat : Nat) = offset ∧
      word.toNat = 0x1e * 2 ^ 26 + imm * 2 ^ 16 + rs.val * 2 ^ 11 +
        vd.val * 2 ^ 6 +
        minor.toNat * 2 ^ 2 + df.tag.toNat := by
  unfold encodeVectorMem at encoded
  rw [ite_error_eq_ok, ite_error_eq_ok] at encoded
  obtain ⟨_, whole, encoded⟩ := encoded
  obtain ⟨rs, vd, imm, baseReg, wdReg, _, low, high, same, value⟩ :=
    MI10.encode_eq_ok (named_eq_ok encoded)
  have tagBound : df.tag.toNat < 4 := isNamed
  rw [Nat.mod_eq_of_lt tagBound] at value
  refine ⟨rs, vd, imm, Int.tdiv offset df.size, baseReg, wdReg, low, high, same,
    ?_, value⟩
  have sizeEq : df.size = (2 ^ df.tag.toNat : Nat) := by
    rw [DataFormat.size, if_pos (by omega), Nat.one_shiftLeft]
  have divided := Int.mul_tdiv_add_tmod offset df.size
  rw [not_not.mp whole, add_zero, mul_comm] at divided
  rw [← sizeEq, divided]

/-- The machine reads the word of the instruction as the operation that the
instruction stands for. -/
def Decodes (instruction : Insn) : Prop :=
  ∀ {word : UInt32}, instruction.encode = .ok word →
    Operation.decode? word = instruction.operation?

section Formats

variable {df : DataFormat}

theorem decodes_alu (op : AluOp) (rd rs rt : Reg) :
    Decodes (.alu op rd rs rt) := by
  intro word encoded
  obtain ⟨s, t, d, rfl, rfl, rfl, -, -, value⟩ :=
    RType.encode_eq_ok (named_eq_ok encoded)
  exact decode?_alu (by simpa using value)

theorem decodes_move (rd rs : Reg) : Decodes (.move rd rs) := by
  intro word encoded
  obtain ⟨s, t, d, rfl, zero, rfl, -, -, value⟩ :=
    RType.encode_eq_ok (named_eq_ok encoded)
  cases zero
  have packed : word.toNat = s.val * 2 ^ 21 + (0 : RegNum).val * 2 ^ 16 +
      d.val * 2 ^ 11 + AluOp.addu.function.toNat := by simpa using value
  exact decode?_alu packed

theorem decodes_shift (op : ShiftOp) (rd rt : Reg) (amount : Int) :
    Decodes (.shift op rd rt amount) := by
  intro word encoded
  obtain ⟨s, t, d, zero, rfl, rfl, bound, -, value⟩ :=
    RType.encode_eq_ok (named_eq_ok encoded)
  cases zero
  exact decode?_shift bound (by simpa using value)

theorem decodes_jr (rs : Reg) : Decodes (.jr rs) := by
  intro word encoded
  obtain ⟨s, t, d, rfl, zero, zero', -, -, value⟩ :=
    RType.encode_eq_ok (named_eq_ok encoded)
  cases zero
  cases zero'
  exact decode?_jump (by simpa using value)

theorem decodes_signedImm (op : SignedImmOp) (rt rs : Reg) (imm : Int) :
    Decodes (.signedImm op rt rs imm) := by
  intro word encoded
  simp only [encode, bind_eq_ok] at encoded
  obtain ⟨field, fieldFound, encoded⟩ := encoded
  obtain ⟨s, t, rfl, rfl, low, high, same, value⟩ :=
    IType.signed_eq_ok (named_eq_ok fieldFound) (named_eq_ok encoded)
  exact decode?_signedImm low high same op value

theorem decodes_mem (op : MemOp) (rt base : Reg) (offset : Int) :
    Decodes (.mem op rt base offset) := by
  intro word encoded
  simp only [encode, bind_eq_ok] at encoded
  obtain ⟨field, fieldFound, encoded⟩ := encoded
  obtain ⟨s, t, rfl, rfl, low, high, same, value⟩ :=
    IType.signed_eq_ok (named_eq_ok fieldFound) (named_eq_ok encoded)
  exact decode?_mem low high same op value

theorem decodes_unsignedImm (op : UnsignedImmOp) (rt rs : Reg) (imm : Int) :
    Decodes (.unsignedImm op rt rs imm) := by
  intro word encoded
  simp only [encode, bind_eq_ok] at encoded
  obtain ⟨field, fieldFound, encoded⟩ := encoded
  obtain ⟨s, t, rfl, rfl, low, high, value⟩ :=
    IType.unsigned_eq_ok (named_eq_ok fieldFound) (named_eq_ok encoded)
  exact decode?_unsignedImm op (by omega) value

theorem decodes_lui (rt : Reg) (imm : Int) : Decodes (.lui rt imm) := by
  intro word encoded
  simp only [encode, bind_eq_ok] at encoded
  obtain ⟨field, fieldFound, encoded⟩ := encoded
  obtain ⟨s, t, zero, rfl, low, high, value⟩ :=
    IType.unsigned_eq_ok (named_eq_ok fieldFound) (named_eq_ok encoded)
  exact decode?_lui (by omega) value

theorem decodes_lanes (op : LaneOp) (wd ws wt : Reg) (isNamed : df.Named) :
    Decodes (.lanes op df wd ws wt) := by
  intro word encoded
  have tagBound : df.tag.toNat < 4 := isNamed
  obtain ⟨t, s, d, rfl, rfl, rfl, -, -, value⟩ :=
    ThreeR.encode_eq_ok (named_eq_ok encoded)
  rw [Nat.mod_eq_of_lt tagBound] at value
  exact decode?_lanes tagBound value

theorem decodes_float (op : FloatOp) (double : Bool) (wd ws wt : Reg) :
    Decodes (.float op double wd ws wt) := by
  intro word encoded
  obtain ⟨t, s, d, rfl, rfl, rfl, -, -, value⟩ :=
    ThreeRF.encode_eq_ok (named_eq_ok encoded)
  exact decode?_float value

theorem decodes_bits (op : BitOp) (wd ws wt : Reg) :
    Decodes (.bits op wd ws wt) := by
  intro word encoded
  obtain ⟨t, s, d, rfl, rfl, rfl, -, value⟩ :=
    VEC.encode_eq_ok (named_eq_ok encoded)
  exact decode?_bits value

theorem decodes_byteImm (op : BitOp) (wd ws : Reg) (imm : UInt8) :
    Decodes (.byteImm op wd ws imm) := by
  intro word encoded
  obtain ⟨s, d, rfl, rfl, -, -, value⟩ :=
    I8.encode_eq_ok (named_eq_ok encoded)
  exact decode?_byteImm value

theorem decodes_shf (wd ws : Reg) (pattern : UInt8) (isNamed : df.Named) :
    Decodes (.shf df wd ws pattern) := by
  intro word encoded
  unfold encode at encoded
  simp only [ite_error_eq_ok] at encoded
  obtain ⟨notDouble, encoded⟩ := encoded
  obtain ⟨s, d, rfl, rfl, -, -, value⟩ :=
    I8.encode_eq_ok (named_eq_ok encoded)
  have tagBound : df.tag.toNat < 3 := by
    rcases DataFormat.Named.cases isNamed with rfl | rfl | rfl | rfl
    · decide
    · decide
    · decide
    · exact absurd rfl notDouble
  have packed : word.toNat = 0x1e * 2 ^ 26 + df.tag.toNat * 2 ^ 24 +
      pattern.toNat * 2 ^ 16 + s.val * 2 ^ 11 + d.val * 2 ^ 6 + 2 := by
    rw [value, UInt8.toNat_toUInt32]
    rfl
  exact decode?_shuffle tagBound packed

theorem decodes_ldi (wd : Reg) (imm : Int) (isNamed : df.Named) :
    Decodes (.ldi df wd imm) := by
  intro word encoded
  have tagBound : df.tag.toNat < 4 := isNamed
  obtain ⟨d, field, rfl, -, -, low, high, same, value⟩ :=
    I10.encode_eq_ok (named_eq_ok encoded)
  rw [Nat.mod_eq_of_lt tagBound] at value
  exact decode?_broadcast tagBound low high same value

theorem decodes_fill (wd rs : Reg) (isNamed : df.Named) :
    Decodes (.fill df wd rs) := by
  intro word encoded
  have tagBound : df.tag.toNat < 4 := isNamed
  obtain ⟨s, d, rfl, rfl, -, value⟩ :=
    TwoR.encode_eq_ok (named_eq_ok encoded)
  rw [Nat.mod_eq_of_lt tagBound] at value
  rw [decode?_fill tagBound value]
  rcases DataFormat.Named.cases isNamed with rfl | rfl | rfl | rfl <;> rfl

theorem decodes_ld (wd base : Reg) (offset : Int) (isNamed : df.Named) :
    Decodes (.ld df wd base offset) := by
  intro word encoded
  obtain ⟨s, d, imm, count, rfl, rfl, low, high, same, whole, value⟩ :=
    encodeVectorMem_eq_ok isNamed encoded
  rw [decode?_loadV isNamed low high same value, whole]
  rfl

theorem decodes_st (wd base : Reg) (offset : Int) (isNamed : df.Named) :
    Decodes (.st df wd base offset) := by
  intro word encoded
  obtain ⟨s, d, imm, count, rfl, rfl, low, high, same, whole, value⟩ :=
    encodeVectorMem_eq_ok isNamed encoded
  rw [decode?_storeV isNamed low high same value, whole]
  rfl

theorem decodes_moveV (wd ws : Reg) : Decodes (.moveV wd ws) := by
  intro word encoded
  obtain ⟨s, d, rfl, rfl, value⟩ := encodeMove_eq_ok (named_eq_ok encoded)
  have packed : word.toNat = 0x1e * 2 ^ 26 + 2 * 2 ^ 22 +
      (0x3e : UInt32).toNat * 2 ^ 16 + s.val * 2 ^ 11 + d.val * 2 ^ 6 + 0x19 :=
    value
  exact decode?_element (by decide) (by decide) packed

end Formats

/-- Decoding the word of an instruction gives the operation that the instruction
stands for. -/
theorem decode?_encode {instruction : Insn} {word : UInt32}
    (isNamed : instruction.NamedFormat)
    (encoded : instruction.encode = .ok word) :
    Operation.decode? word = instruction.operation? := by
  cases instruction with
  | nop =>
      cases encoded
      rfl
  | alu => exact decodes_alu _ _ _ _ encoded
  | move => exact decodes_move _ _ encoded
  | shift => exact decodes_shift _ _ _ _ encoded
  | jr => exact decodes_jr _ encoded
  | signedImm => exact decodes_signedImm _ _ _ _ encoded
  | unsignedImm => exact decodes_unsignedImm _ _ _ _ encoded
  | lui => exact decodes_lui _ _ encoded
  | mem => exact decodes_mem _ _ _ _ encoded
  | lanes => exact decodes_lanes _ _ _ _ isNamed encoded
  | float => exact decodes_float _ _ _ _ _ encoded
  | bits => exact decodes_bits _ _ _ _ encoded
  | byteImm => exact decodes_byteImm _ _ _ _ encoded
  | moveV => exact decodes_moveV _ _ encoded
  | ldi => exact decodes_ldi _ _ isNamed encoded
  | fill => exact decodes_fill _ _ isNamed encoded
  | ld => exact decodes_ld _ _ _ isNamed encoded
  | st => exact decodes_st _ _ _ isNamed encoded
  | copyS df | copyU df | insert df =>
      obtain ⟨s, d, index, rfl, rfl, found, _, value⟩ :=
        ELM.encode_eq_ok isNamed (named_eq_ok encoded)
      obtain ⟨split, notMove⟩ := splitElementIndex_elementIndex isNamed found
      rw [decode?_element (by decide) (elementIndex_lt isNamed found) value,
        split, if_neg (by simp [notMove])]
      rcases DataFormat.Named.cases isNamed with rfl | rfl | rfl | rfl <;> rfl
  | shf => exact decodes_shf _ _ _ isNamed encoded

end Insn

end LaneKernel
