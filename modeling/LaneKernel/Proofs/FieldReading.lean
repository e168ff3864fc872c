import LaneKernel.Proofs.Decoding

/-!
# Reading instruction fields back

The machine cuts fields out of a word with functions of its own.  For each
format they are put together here to a reader of all its fields.  A reader gives
back exactly what the encoder of the format was given, so that no field reaches
into another one and different fields have different words.

The bank of a register is not part of a word; where a format leaves it open the
reader is told.
-/

namespace LaneKernel

namespace Word

/-- The format with the number of a two bit field. -/
def formatNumbered (number : Nat) : DataFormat := ⟨UInt8.ofNat number⟩

def IType.read (word : UInt32) : IType where
  op := opcode word
  rs := .gp (register (Word.rs word))
  rt := .gp (register (Word.rt word))
  imm := unsignedImmediate word

def RType.read (word : UInt32) : RType where
  rs := .gp (register (Word.rs word))
  rt := .gp (register (Word.rt word))
  rd := .gp (register (Word.rd word))
  shamt := shiftAmount word
  funct := function word

def I10.read (word : UInt32) : I10 where
  op := (word >>> 23) &&& 7
  df := formatNumbered (format word)
  s10 := signed10 (word >>> 11)
  wd := .vec (register (Word.wd word))
  minor := Word.minor word

def MI10.read (word : UInt32) : MI10 where
  s10 := signed10 (word >>> 16)
  rs := .gp (register (ws word))
  wd := .vec (register (Word.wd word))
  minor := (word >>> 2) &&& 0xf
  df := formatNumbered (word &&& 3).toNat

def TwoR.read (srcBank : Bank) (word : UInt32) : TwoR where
  op := (word >>> 18) &&& 0xff
  df := formatNumbered ((word >>> 16) &&& 3).toNat
  src := .inBank srcBank (register (ws word))
  srcBank := srcBank
  wd := .vec (register (Word.wd word))

def ThreeR.read (word : UInt32) : ThreeR where
  op := (word >>> 23) &&& 7
  df := formatNumbered (format word)
  wt := .vec (register (Word.wt word))
  ws := .vec (register (Word.ws word))
  wd := .vec (register (Word.wd word))
  minor := Word.minor word

/-- Only some of the combined format and lane fields stand for an element. -/
def ELM.read (srcBank dstBank : Bank) (word : UInt32) : Option ELM := do
  let (size, lane) ← splitElementIndex ((word >>> 16) &&& 0x3f)
  let df ← DataFormat.ofSize? size
  return {
    op := (word >>> 22) &&& 0xf
    df := df
    lane := lane
    src := .inBank srcBank (register (ws word))
    srcBank := srcBank
    dst := .inBank dstBank (register (wd word))
    dstBank := dstBank }

def I8.read (word : UInt32) : I8 where
  op := (word >>> 24) &&& 3
  imm := (word >>> 16).toUInt8
  ws := .vec (register (Word.ws word))
  wd := .vec (register (Word.wd word))
  minor := Word.minor word

def ThreeRF.read (word : UInt32) : ThreeRF where
  op := (word >>> 22) &&& 0xf
  double := (word >>> 21) &&& 1 == 1
  wt := .vec (register (Word.wt word))
  ws := .vec (register (Word.ws word))
  wd := .vec (register (Word.wd word))
  minor := Word.minor word

def VEC.read (word : UInt32) : VEC where
  op := (word >>> 21) &&& 0x1f
  wt := .vec (register (Word.wt word))
  ws := .vec (register (Word.ws word))
  wd := .vec (register (Word.wd word))

theorem field_eq {word count mask field : UInt32} (place width : Nat)
    (atPlace : count.toNat = place) (inside : place < 32)
    (isMask : mask.toNat = 2 ^ width - 1)
    (same : word.toNat / 2 ^ place % 2 ^ width = field.toNat) :
    (word >>> count) &&& mask = field := by
  apply UInt32.toNat_inj.mp
  rw [toNat_field word count mask place width atPlace inside isMask]
  exact same

theorem formatNumbered_eq {df : DataFormat} {number : Nat}
    (same : number = df.tag.toNat) : formatNumbered number = df := by
  subst same
  simp [formatNumbered]

theorem signed10_shiftRight_eq {word count : UInt32} {value : Int} (place : Nat)
    (atPlace : count.toNat = place) (inside : place < 32) (low : -512 ≤ value)
    (high : value ≤ 511)
    (same : ((word.toNat / 2 ^ place % 2 ^ 10 : Nat) : Int) = value % 1024) :
    signed10 (word >>> count) = value := by
  apply signed10_eq low high
  rw [toNat_shiftRight_place word count place atPlace inside]
  exact same

theorem opcode_eq_vector {word : UInt32} (same : word.toNat / 2 ^ 26 = 0x1e) :
    opcode word = 0x1e := by
  apply UInt32.toNat_inj.mp
  rw [toNat_opcode]
  exact same

theorem minor_eq {word minor : UInt32}
    (same : word.toNat % 2 ^ 6 = minor.toNat) : Word.minor word = minor := by
  apply UInt32.toNat_inj.mp
  rw [toNat_minor]
  exact same

theorem IType.read_encode {fields : IType} {word : UInt32}
    (half : fields.imm.toNat < 2 ^ 16) (encoded : fields.encode = .ok word) :
    IType.read word = fields := by
  obtain ⟨rs, rt, isRs, isRt, opBound, value⟩ := encode_eq_ok encoded
  obtain ⟨op, _, _, imm⟩ := fields
  obtain rfl := isRs
  obtain rfl := isRt
  simp only at half opBound value
  have rsBound := rs.isLt
  have rtBound := rt.isLt
  have opField : opcode word = op := by
    apply UInt32.toNat_inj.mp
    rw [toNat_opcode]
    omega
  have immField : unsignedImmediate word = imm := by
    apply UInt32.toNat_inj.mp
    rw [toNat_unsignedImmediate]
    omega
  have rsField : register (Word.rs word) = rs :=
    register_eq (by rw [toNat_rs]; omega)
  have rtField : register (Word.rt word) = rt :=
    register_eq (by rw [toNat_rt]; omega)
  simp only [IType.read, opField, immField, rsField, rtField]

theorem RType.read_encode {fields : RType} {word : UInt32}
    (encoded : fields.encode = .ok word) :
    RType.read word = fields ∧ opcode word = 0 := by
  obtain ⟨rs, rt, rd, isRs, isRt, isRd, shamtBound, functBound, value⟩ :=
    encode_eq_ok encoded
  obtain ⟨_, _, _, shamt, funct⟩ := fields
  obtain rfl := isRs
  obtain rfl := isRt
  obtain rfl := isRd
  simp only at shamtBound functBound value
  have rsBound := rs.isLt
  have rtBound := rt.isLt
  have rdBound := rd.isLt
  have shamtField : shiftAmount word = shamt := by
    apply UInt32.toNat_inj.mp
    rw [toNat_shiftAmount]
    omega
  have functField : function word = funct := by
    apply UInt32.toNat_inj.mp
    rw [toNat_function]
    omega
  obtain ⟨rsField, rtField, rdField⟩ :=
    Operation.general_registers word rs rt rd
      (shamt.toNat * 2 ^ 6 + funct.toNat) (by omega) (by omega)
  constructor
  · simp only [RType.read, shamtField, functField, rsField, rtField, rdField]
  · apply UInt32.toNat_inj.mp
    rw [toNat_opcode]
    change _ = 0
    omega

theorem I10.read_encode {fields : I10} {word : UInt32} (named : fields.df.Named)
    (encoded : fields.encode = .ok word) :
    I10.read word = fields ∧ opcode word = 0x1e := by
  obtain ⟨wd, imm, isWd, opBound, minorBound, low, high, immValue, value⟩ :=
    encode_eq_ok encoded
  obtain ⟨op, df, s10, _, minor⟩ := fields
  obtain rfl := isWd
  simp only at named opBound minorBound low high immValue value
  have wdBound := wd.isLt
  have tagBound : df.tag.toNat < 4 := named
  have opField : (word >>> 23) &&& 7 = op :=
    field_eq 23 3 rfl (by decide) rfl (by omega)
  have dfField : formatNumbered (format word) = df :=
    formatNumbered_eq (by rw [format_eq]; omega)
  have s10Field : signed10 (word >>> 11) = s10 :=
    signed10_shiftRight_eq 11 rfl (by decide) low high (by omega)
  have wdField : register (Word.wd word) = wd :=
    register_eq (by rw [toNat_wd]; omega)
  have minorField : Word.minor word = minor := minor_eq (by omega)
  constructor
  · simp only [I10.read, opField, dfField, s10Field, wdField, minorField]
  · exact opcode_eq_vector (by omega)

theorem MI10.read_encode {fields : MI10} {word : UInt32}
    (named : fields.df.Named) (encoded : fields.encode = .ok word) :
    MI10.read word = fields ∧ opcode word = 0x1e := by
  obtain ⟨rs, wd, imm, isRs, isWd, minorBound, low, high, immValue, value⟩ :=
    encode_eq_ok encoded
  obtain ⟨s10, _, _, minor, df⟩ := fields
  obtain rfl := isRs
  obtain rfl := isWd
  simp only at named minorBound low high immValue value
  have rsBound := rs.isLt
  have wdBound := wd.isLt
  have tagBound : df.tag.toNat < 4 := named
  have s10Field : signed10 (word >>> 16) = s10 :=
    signed10_shiftRight_eq 16 rfl (by decide) low high (by omega)
  have rsField : register (ws word) = rs :=
    register_eq (by rw [toNat_ws]; omega)
  have wdField : register (Word.wd word) = wd :=
    register_eq (by rw [toNat_wd]; omega)
  have minorField : (word >>> 2) &&& 0xf = minor :=
    field_eq 2 4 rfl (by decide) rfl (by omega)
  have dfField : formatNumbered (word &&& 3).toNat = df :=
    formatNumbered_eq (by rw [toNat_and_mask word 3 2 rfl]; omega)
  constructor
  · simp only [MI10.read, s10Field, rsField, wdField, minorField, dfField]
  · exact opcode_eq_vector (by omega)

theorem TwoR.read_encode {fields : TwoR} {word : UInt32}
    (named : fields.df.Named) (encoded : fields.encode = .ok word) :
    TwoR.read fields.srcBank word = fields ∧ opcode word = 0x1e ∧
      minor word = minorWhole := by
  obtain ⟨op, df, src, srcBank, wd⟩ := fields
  obtain ⟨source, target, rfl, rfl, opBound, value⟩ := encode_eq_ok encoded
  have sourceBound := source.isLt
  have targetBound := target.isLt
  have tagBound : df.tag.toNat < 4 := named
  have opField : (word >>> 18) &&& 0xff = op :=
    field_eq 18 8 rfl (by decide) rfl (by omega)
  have dfField : formatNumbered ((word >>> 16) &&& 3).toNat = df :=
    formatNumbered_eq
      (by rw [toNat_field word 16 3 16 2 rfl (by decide) rfl]; omega)
  have srcField : register (ws word) = source :=
    register_eq (by rw [toNat_ws]; omega)
  have wdField : register (Word.wd word) = target :=
    register_eq (by rw [toNat_wd]; omega)
  have minorValue : minorWhole.toNat = 0x1e := rfl
  refine ⟨?_, ?_, ?_⟩
  · simp only [TwoR.read, opField, dfField, srcField, wdField]
  · exact opcode_eq_vector (by omega)
  · exact minor_eq (by omega)

theorem ThreeR.read_encode {fields : ThreeR} {word : UInt32}
    (named : fields.df.Named) (encoded : fields.encode = .ok word) :
    ThreeR.read word = fields ∧ opcode word = 0x1e := by
  obtain ⟨wt, ws, wd, isWt, isWs, isWd, opBound, minorBound, value⟩ :=
    encode_eq_ok encoded
  obtain ⟨op, df, _, _, _, minor⟩ := fields
  obtain rfl := isWt
  obtain rfl := isWs
  obtain rfl := isWd
  simp only at named opBound minorBound value
  have wtBound := wt.isLt
  have wsBound := ws.isLt
  have wdBound := wd.isLt
  have tagBound : df.tag.toNat < 4 := named
  have opField : (word >>> 23) &&& 7 = op :=
    field_eq 23 3 rfl (by decide) rfl (by omega)
  have dfField : formatNumbered (format word) = df :=
    formatNumbered_eq (by rw [format_eq]; omega)
  obtain ⟨minorNumber, wtField, wsField, wdField⟩ :=
    Operation.vector_registers word minor.toNat wt ws wd minorBound (by omega)
  have minorField : Word.minor word = minor := UInt32.toNat_inj.mp minorNumber
  constructor
  · simp only [ThreeR.read, opField, dfField, wtField, wsField, wdField,
      minorField]
  · exact opcode_eq_vector (by omega)

theorem ofSize?_bytes {df : DataFormat} (named : df.Named) :
    DataFormat.ofSize? df.bytes = some df := by
  rcases named.cases with rfl | rfl | rfl | rfl <;> rfl

theorem ELM.read_encode {fields : ELM} {word : UInt32} (named : fields.df.Named)
    (encoded : fields.encode = .ok word) :
    ELM.read fields.srcBank fields.dstBank word = some fields ∧
      opcode word = 0x1e ∧
      minor word = minorElement := by
  obtain ⟨op, df, lane, src, srcBank, dst, dstBank⟩ := fields
  obtain ⟨source, target, index, rfl, rfl, found, opBound, value⟩ :=
    encode_eq_ok named encoded
  have sourceBound := source.isLt
  have targetBound := target.isLt
  have indexBound := elementIndex_lt named found
  have notNegative := (elementIndex_eq_ok named found).1
  have isSplit := (splitElementIndex_elementIndex named found).1
  have opField : (word >>> 22) &&& 0xf = op :=
    field_eq 22 4 rfl (by decide) rfl (by omega)
  have indexField : (word >>> 16) &&& 0x3f = index :=
    field_eq 16 6 rfl (by decide) rfl (by omega)
  have srcField : register (ws word) = source :=
    register_eq (by rw [toNat_ws]; omega)
  have dstField : register (wd word) = target :=
    register_eq (by rw [toNat_wd]; omega)
  have minorValue : minorElement.toNat = 0x19 := rfl
  refine ⟨?_, ?_, ?_⟩
  · simp [ELM.read, opField, indexField, srcField, dstField, isSplit,
      ofSize?_bytes named, Int.toNat_of_nonneg notNegative]
  · exact opcode_eq_vector (by omega)
  · exact minor_eq (by omega)

theorem I8.read_encode {fields : I8} {word : UInt32}
    (encoded : fields.encode = .ok word) :
    I8.read word = fields ∧ opcode word = 0x1e := by
  obtain ⟨ws, wd, isWs, isWd, opBound, minorBound, value⟩ :=
    encode_eq_ok encoded
  obtain ⟨op, imm, _, _, minor⟩ := fields
  obtain rfl := isWs
  obtain rfl := isWd
  simp only at opBound minorBound value
  have wsBound := ws.isLt
  have wdBound := wd.isLt
  have immBound := imm.toNat_lt
  have opField : (word >>> 24) &&& 3 = op :=
    field_eq 24 2 rfl (by decide) rfl (by omega)
  have immField : (word >>> 16).toUInt8 = imm := by
    apply UInt8.toNat_inj.mp
    rw [UInt32.toNat_toUInt8, toNat_shiftRight_place word 16 16 rfl (by decide)]
    omega
  have wsField : register (Word.ws word) = ws :=
    register_eq (by rw [toNat_ws]; omega)
  have wdField : register (Word.wd word) = wd :=
    register_eq (by rw [toNat_wd]; omega)
  have minorField : Word.minor word = minor := minor_eq (by omega)
  constructor
  · simp only [I8.read, opField, immField, wsField, wdField, minorField]
  · exact opcode_eq_vector (by omega)

theorem ThreeRF.read_encode {fields : ThreeRF} {word : UInt32}
    (encoded : fields.encode = .ok word) :
    ThreeRF.read word = fields ∧ opcode word = 0x1e := by
  obtain ⟨wt, ws, wd, isWt, isWs, isWd, opBound, minorBound, value⟩ :=
    encode_eq_ok encoded
  obtain ⟨op, double, _, _, _, minor⟩ := fields
  obtain rfl := isWt
  obtain rfl := isWs
  obtain rfl := isWd
  simp only at opBound minorBound value
  generalize isBit : (if double = true then 1 else 0) = bit at value
  have bitBound : bit < 2 := by
    rw [← isBit]
    split <;> decide
  have wtBound := wt.isLt
  have wsBound := ws.isLt
  have wdBound := wd.isLt
  have opField : (word >>> 22) &&& 0xf = op :=
    field_eq 22 4 rfl (by decide) rfl (by omega)
  have bitField : ((word >>> 21) &&& 1).toNat = bit := by
    rw [toNat_field word 21 1 21 1 rfl (by decide) rfl]
    omega
  have doubleField : ((word >>> 21) &&& 1 == 1) = double := by
    rw [Bool.eq_iff_iff, beq_iff_eq, ← UInt32.toNat_inj, bitField, ← isBit]
    cases double <;> simp
  obtain ⟨minorNumber, wtField, wsField, wdField⟩ :=
    Operation.vector_registers word minor.toNat wt ws wd minorBound (by omega)
  have minorField : Word.minor word = minor := UInt32.toNat_inj.mp minorNumber
  constructor
  · simp only [ThreeRF.read, opField, doubleField, wtField, wsField, wdField,
      minorField]
  · exact opcode_eq_vector (by omega)

theorem VEC.read_encode {fields : VEC} {word : UInt32}
    (encoded : fields.encode = .ok word) :
    VEC.read word = fields ∧ opcode word = 0x1e ∧ minor word = minorWhole := by
  obtain ⟨wt, ws, wd, isWt, isWs, isWd, opBound, value⟩ := encode_eq_ok encoded
  obtain ⟨op, _, _, _⟩ := fields
  obtain rfl := isWt
  obtain rfl := isWs
  obtain rfl := isWd
  simp only at opBound value
  have wtBound := wt.isLt
  have wsBound := ws.isLt
  have wdBound := wd.isLt
  have opField : (word >>> 21) &&& 0x1f = op :=
    field_eq 21 5 rfl (by decide) rfl (by omega)
  have minorValue : minorWhole.toNat = 0x1e := rfl
  obtain ⟨minorNumber, wtField, wsField, wdField⟩ :=
    Operation.vector_registers word 0x1e wt ws wd (by decide) (by omega)
  refine ⟨?_, ?_, ?_⟩
  · simp only [VEC.read, opField, wtField, wsField, wdField]
  · exact opcode_eq_vector (by omega)
  · exact UInt32.toNat_inj.mp minorNumber

theorem toInt_signedImmediate (word : UInt32) :
    (signedImmediate word).toInt32.toInt =
      Int.bmod (unsignedImmediate word).toNat (2 ^ 16) := by
  have isHalf : (signedImmediate word).toInt32.toInt =
      word.toUInt16.toInt16.toInt :=
    Int16.toInt_toInt32 _
  have isPattern :
      word.toUInt16.toInt16.toInt = Int.bmod word.toUInt16.toNat (2 ^ 16) :=
    BitVec.toInt_eq_toNat_bmod _
  rw [isHalf, isPattern, UInt32.toNat_toUInt16, toNat_unsignedImmediate]

/-- How a reader fits the encoder of a format, for the fields that are
`admitted`.  A word reads back as the fields it was made of, given the `flags`
that stand in no word, and carries the `signature` of the format.  No other
fields with these flags have the same word. -/
structure ReadsBack {Fields Flags : Type}
    (encode : Fields → Except AsmError UInt32) (admitted : Fields → Prop)
    (flags : Fields → Flags) (read : Flags → UInt32 → Option Fields)
    (signature : Fields → UInt32 → Prop) : Prop where
  read_encode : ∀ fields word, admitted fields → encode fields = .ok word →
    read (flags fields) word = some fields
  signature_encode : ∀ fields word, admitted fields → encode fields = .ok word →
    signature fields word
  injective : ∀ first second word, admitted first → admitted second →
    flags first = flags second →
    encode first = .ok word → encode second = .ok word → first = second

theorem ReadsBack.of_read {Fields Flags : Type}
    {encode : Fields → Except AsmError UInt32} {admitted : Fields → Prop}
    {flags : Fields → Flags} {read : Flags → UInt32 → Option Fields}
    {signature : Fields → UInt32 → Prop}
    (reads : ∀ fields word, admitted fields → encode fields = .ok word →
      read (flags fields) word = some fields ∧ signature fields word) :
    ReadsBack encode admitted flags read signature where
  read_encode fields word isAdmitted encoded :=
    (reads fields word isAdmitted encoded).1
  signature_encode fields word isAdmitted encoded :=
    (reads fields word isAdmitted encoded).2
  injective first second word firstAdmitted secondAdmitted same firstEncoded
    secondEncoded := by
    have firstRead := (reads first word firstAdmitted firstEncoded).1
    have secondRead := (reads second word secondAdmitted secondEncoded).1
    rw [same, secondRead] at firstRead
    exact (Option.some.inj firstRead).symm

/-- The reader of every format undoes its encoder.  Immediates of the scalar
format are half words, and formats of vector elements are among the four that
have a name. -/
theorem fields_read_back :
    ReadsBack IType.encode (fun fields => fields.imm.toNat < 2 ^ 16)
      (fun _ => ())
        (fun _ word => some (IType.read word))
        (fun fields word => opcode word = fields.op ∧
          (signedImmediate word).toInt32.toInt =
            Int.bmod fields.imm.toNat (2 ^ 16)) ∧
      ReadsBack RType.encode (fun _ => True) (fun _ => ())
        (fun _ word => some (RType.read word)) (fun _ word => opcode word = 0) ∧
      ReadsBack I10.encode (fun fields => fields.df.Named) (fun _ => ())
        (fun _ word => some (I10.read word))
          (fun _ word => opcode word = 0x1e) ∧
      ReadsBack MI10.encode (fun fields => fields.df.Named) (fun _ => ())
        (fun _ word => some (MI10.read word))
          (fun _ word => opcode word = 0x1e) ∧
      ReadsBack TwoR.encode (fun fields => fields.df.Named) TwoR.srcBank
        (fun bank word => some (TwoR.read bank word))
        (fun _ word => opcode word = 0x1e ∧ minor word = minorWhole) ∧
      ReadsBack ThreeR.encode (fun fields => fields.df.Named) (fun _ => ())
        (fun _ word => some (ThreeR.read word))
          (fun _ word => opcode word = 0x1e) ∧
      ReadsBack ELM.encode (fun fields => fields.df.Named)
        (fun fields => (fields.srcBank, fields.dstBank))
        (fun banks word => ELM.read banks.1 banks.2 word)
        (fun _ word => opcode word = 0x1e ∧ minor word = minorElement) ∧
      ReadsBack I8.encode (fun _ => True) (fun _ => ())
        (fun _ word => some (I8.read word)) (fun _ word => opcode word = 0x1e) ∧
      ReadsBack ThreeRF.encode (fun _ => True) (fun _ => ())
        (fun _ word => some (ThreeRF.read word))
          (fun _ word => opcode word = 0x1e) ∧
      ReadsBack VEC.encode (fun _ => True) (fun _ => ())
        (fun _ word => some (VEC.read word))
        (fun _ word => opcode word = 0x1e ∧ minor word = minorWhole) := by
  refine ⟨.of_read ?itype, .of_read ?rtype, .of_read ?i10, .of_read ?mi10,
    .of_read ?twoR, .of_read ?threeR, .of_read ?elm, .of_read ?i8,
    .of_read ?threeRF, .of_read ?vec⟩
  case itype =>
    intro fields word half encoded
    have isRead := IType.read_encode half encoded
    have immField : unsignedImmediate word = fields.imm :=
      congrArg IType.imm isRead
    refine ⟨congrArg some isRead, congrArg IType.op isRead, ?_⟩
    rw [toInt_signedImmediate, immField]
  case rtype =>
    intro fields word _ encoded
    exact (RType.read_encode encoded).imp_left (congrArg some)
  case i10 =>
    intro fields word named encoded
    exact (I10.read_encode named encoded).imp_left (congrArg some)
  case mi10 =>
    intro fields word named encoded
    exact (MI10.read_encode named encoded).imp_left (congrArg some)
  case twoR =>
    intro fields word named encoded
    exact (TwoR.read_encode named encoded).imp_left (congrArg some)
  case threeR =>
    intro fields word named encoded
    exact (ThreeR.read_encode named encoded).imp_left (congrArg some)
  case elm =>
    intro fields word named encoded
    exact ELM.read_encode named encoded
  case i8 =>
    intro fields word _ encoded
    exact (I8.read_encode encoded).imp_left (congrArg some)
  case threeRF =>
    intro fields word _ encoded
    exact (ThreeRF.read_encode encoded).imp_left (congrArg some)
  case vec =>
    intro fields word _ encoded
    exact (VEC.read_encode encoded).imp_left (congrArg some)

/-- The third word of a vector register set from a general purpose register. -/
example :
    (ELM.encode ⟨4, .word, 2, .gp 8, .general, .vec 31, .vector⟩).toOption.bind
      (ELM.read .general .vector) =
        some ⟨4, .word, 2, .gp 8, .general, .vec 31, .vector⟩ := by
  decide

end Word

end LaneKernel
