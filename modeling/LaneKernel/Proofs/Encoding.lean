import LaneKernel.Proofs.Fields
import LaneKernel.Proofs.Outcome

/-!
# What the encoders accept

For every format: when its encoder gives a word, the operands are registers of
the right bank, the numbers fit their fields, and the word is the sum of the
fields at their places.
-/

namespace LaneKernel

open Outcome

namespace Reg

theorem generalField_eq_ok {register : Reg} {field : UInt32}
    (found : register.generalField = .ok field) :
    ∃ index : RegNum, register = .gp index ∧ field.toNat = index.val := by
  cases register with
  | gp index =>
      cases found
      exact ⟨index, rfl, Word.toNat_ofNat_index index⟩
  | vec index => cases found
  | unknown number => cases found

theorem vectorField_eq_ok {register : Reg} {field : UInt32}
    (found : register.vectorField = .ok field) :
    ∃ index : RegNum, register = .vec index ∧ field.toNat = index.val := by
  cases register with
  | vec index =>
      cases found
      exact ⟨index, rfl, Word.toNat_ofNat_index index⟩
  | gp index => cases found
  | unknown number => cases found

/-- The register with a number in a bank. -/
def inBank : Bank → RegNum → Reg
  | .general, index => .gp index
  | .vector, index => .vec index

theorem field_eq_ok {bank : Bank} {register : Reg} {field : UInt32}
    (found : register.field bank = .ok field) :
    ∃ index : RegNum, register = inBank bank index ∧
      field.toNat = index.val := by
  cases bank with
  | general => exact generalField_eq_ok found
  | vector => exact vectorField_eq_ok found

end Reg

namespace DataFormat

/-- The four formats that have a name; other tags can be written but name no
element size. -/
def Named (df : DataFormat) : Prop := df.tag.toNat < 4

instance (df : DataFormat) : Decidable df.Named :=
  inferInstanceAs (Decidable (_ < _))

theorem Named.cases {df : DataFormat} (named : df.Named) :
    df = .byte ∨ df = .half ∨ df = .word ∨ df = .double := by
  obtain ⟨tag⟩ := df
  have tagBound : tag.toNat < 4 := named
  simp only [byte, half, word, double, DataFormat.mk.injEq, ← UInt8.toNat_inj]
  have values : (0 : UInt8).toNat = 0 ∧ (1 : UInt8).toNat = 1 ∧
      (2 : UInt8).toNat = 2 ∧
      (3 : UInt8).toNat = 3 := by decide
  omega

end DataFormat

namespace Word

theorem elementSize_eq (format : Nat) : elementSize format = 2 ^ format :=
  Nat.one_shiftLeft format

theorem checkField_eq_ok {name : String} {value : UInt32} {bits : Nat}
    {done : Unit} (checked : checkField name value bits = .ok done) :
    value.toNat < 2 ^ bits := by
  unfold checkField at checked
  split at checked
  · cases checked
  · omega

theorem signed16_eq_ok {value : Int} {field : UInt32}
    (fits : signed16 value = .ok field) :
    -0x8000 ≤ value ∧ value ≤ 0x7fff ∧
      (field.toNat : Int) = value % 0x10000 := by
  unfold signed16 at fits
  rw [ite_error_eq_ok] at fits
  obtain ⟨inside, rfl⟩ : _ ∧ _ = _ := ⟨fits.1, Except.ok.inj fits.2⟩
  refine ⟨by omega, by omega, ?_⟩
  rw [UInt32.toNat_ofNat']
  omega

theorem unsigned16_eq_ok {value : Int} {field : UInt32}
    (fits : unsigned16 value = .ok field) :
    0 ≤ value ∧ value ≤ 0xffff ∧ (field.toNat : Int) = value := by
  unfold unsigned16 at fits
  rw [ite_error_eq_ok] at fits
  obtain ⟨inside, rfl⟩ : _ ∧ _ = _ := ⟨fits.1, Except.ok.inj fits.2⟩
  refine ⟨by omega, by omega, ?_⟩
  rw [UInt32.toNat_ofNat']
  omega

theorem signed10Field_eq_ok {value : Int} {field : UInt32}
    (fits : signed10Field value = .ok field) :
    -512 ≤ value ∧ value ≤ 511 ∧ (field.toNat : Int) = value % 1024 := by
  unfold signed10Field at fits
  rw [ite_error_eq_ok] at fits
  obtain ⟨inside, rfl⟩ : _ ∧ _ = _ := ⟨fits.1, Except.ok.inj fits.2⟩
  refine ⟨by omega, by omega, ?_⟩
  rw [UInt32.toNat_ofNat']
  omega

theorem IType.encode_eq_ok {fields : IType} {word : UInt32}
    (encoded : fields.encode = .ok word) :
    ∃ rs rt : RegNum,
      fields.rs = .gp rs ∧ fields.rt = .gp rt ∧ fields.op.toNat < 2 ^ 6 ∧
      word.toNat = fields.op.toNat * 2 ^ 26 + rs.val * 2 ^ 21 +
        rt.val * 2 ^ 16 +
        fields.imm.toNat % 2 ^ 16 := by
  unfold IType.encode at encoded
  simp only [refuse_eq_ok, bind_eq_ok, pure, Except.pure, Except.ok.injEq]
    at encoded
  obtain ⟨opFits, rsField, rsFound, rtField, rtFound, rfl⟩ := encoded
  obtain ⟨rs, rsReg, rsNumber⟩ := Reg.generalField_eq_ok rsFound
  obtain ⟨rt, rtReg, rtNumber⟩ := Reg.generalField_eq_ok rtFound
  have opBound : fields.op.toNat < 2 ^ 6 := by
    rw [gt_iff_lt, UInt32.lt_iff_toNat_lt] at opFits
    exact Nat.lt_of_not_le opFits
  have immediate : (fields.imm &&& 0xffff).toNat = fields.imm.toNat % 2 ^ 16 :=
    toNat_and_mask fields.imm 0xffff 16 rfl
  have packed :=
    ((Packed.first 26 rfl opBound (by decide)).behind 21 rsNumber rs.isLt
    (by decide)).behind 16 rtNumber rt.isLt (by decide)
  exact ⟨rs, rt, rsReg, rtReg, opBound,
    packed.last immediate (Nat.mod_lt _ (by decide))⟩

theorem IType.signed_eq_ok {op field word : UInt32} {rs rt : Reg} {value : Int}
    (fits : signed16 value = .ok field)
    (encoded : IType.encode ⟨op, rs, rt, field⟩ = .ok word) :
    ∃ s t : RegNum, rs = .gp s ∧ rt = .gp t ∧ -0x8000 ≤ value ∧ value ≤ 0x7fff ∧
      (field.toNat : Int) = value % 0x10000 ∧
      word.toNat = op.toNat * 2 ^ 26 + s.val * 2 ^ 21 + t.val * 2 ^ 16 +
        field.toNat := by
  obtain ⟨low, high, same⟩ := signed16_eq_ok fits
  obtain ⟨s, t, isRs, isRt, _, isWord⟩ := IType.encode_eq_ok encoded
  have inField : field.toNat < 2 ^ 16 := by omega
  rw [Nat.mod_eq_of_lt inField] at isWord
  exact ⟨s, t, isRs, isRt, low, high, same, isWord⟩

theorem IType.unsigned_eq_ok {op field word : UInt32} {rs rt : Reg}
    {value : Int} (fits : unsigned16 value = .ok field)
    (encoded : IType.encode ⟨op, rs, rt, field⟩ = .ok word) :
    ∃ s t : RegNum, rs = .gp s ∧ rt = .gp t ∧ 0 ≤ value ∧ value ≤ 0xffff ∧
      word.toNat = op.toNat * 2 ^ 26 + s.val * 2 ^ 21 + t.val * 2 ^ 16 +
        value.toNat := by
  obtain ⟨low, high, same⟩ := unsigned16_eq_ok fits
  obtain ⟨s, t, isRs, isRt, _, isWord⟩ := IType.encode_eq_ok encoded
  have inField : field.toNat < 2 ^ 16 := by omega
  rw [Nat.mod_eq_of_lt inField, show field.toNat = value.toNat by omega]
    at isWord
  exact ⟨s, t, isRs, isRt, low, high, isWord⟩

theorem RType.encode_eq_ok {fields : RType} {word : UInt32}
    (encoded : fields.encode = .ok word) :
    ∃ rs rt rd : RegNum,
      fields.rs = .gp rs ∧ fields.rt = .gp rt ∧ fields.rd = .gp rd ∧
      fields.shamt.toNat < 2 ^ 5 ∧ fields.funct.toNat < 2 ^ 6 ∧
      word.toNat = rs.val * 2 ^ 21 + rt.val * 2 ^ 16 + rd.val * 2 ^ 11 +
        fields.shamt.toNat * 2 ^ 6 + fields.funct.toNat := by
  unfold RType.encode at encoded
  simp only [refuse_eq_ok, bind_eq_ok, pure, Except.pure, Except.ok.injEq]
    at encoded
  obtain ⟨shamtFits, functFits, rsField, rsFound, rtField, rtFound, rdField,
    rdFound, rfl⟩ :=
    encoded
  obtain ⟨rs, rsReg, rsNumber⟩ := Reg.generalField_eq_ok rsFound
  obtain ⟨rt, rtReg, rtNumber⟩ := Reg.generalField_eq_ok rtFound
  obtain ⟨rd, rdReg, rdNumber⟩ := Reg.generalField_eq_ok rdFound
  have shamtBound : fields.shamt.toNat < 2 ^ 5 := by
    rw [gt_iff_lt, UInt32.lt_iff_toNat_lt] at shamtFits
    exact Nat.lt_of_not_le shamtFits
  have functBound : fields.funct.toNat < 2 ^ 6 := by
    rw [gt_iff_lt, UInt32.lt_iff_toNat_lt] at functFits
    exact Nat.lt_of_not_le functFits
  have packed :=
    (((Packed.first 21 rsNumber (Nat.lt_trans rs.isLt (by decide))
      (by decide)).behind 16
    rtNumber rt.isLt (by decide)).behind 11 rdNumber rd.isLt (by decide)).behind
      6 rfl shamtBound
    (by decide)
  exact ⟨rs, rt, rd, rsReg, rtReg, rdReg, shamtBound, functBound,
    packed.last rfl functBound⟩

theorem packed_vectorOpcode :
    Packed vectorOpcode (0x1e * 2 ^ 26) 26 := ⟨rfl, rfl⟩

theorem toNat_bits (df : DataFormat) : df.bits.toNat = df.tag.toNat % 4 := by
  have mask : (df.tag &&& 3).toNat = df.tag.toNat % 2 ^ 2 := by
    rw [UInt8.toNat_and]
    exact Nat.and_two_pow_sub_one_eq_mod df.tag.toNat 2
  simpa [DataFormat.bits] using mask

theorem bits_lt (df : DataFormat) : df.tag.toNat % 4 < 2 ^ 2 :=
  Nat.mod_lt _ (by decide)

theorem I10.encode_eq_ok {fields : I10} {word : UInt32}
    (encoded : fields.encode = .ok word) :
    ∃ wd : RegNum, ∃ imm : Nat,
      fields.wd = .vec wd ∧ fields.op.toNat < 2 ^ 3 ∧
        fields.minor.toNat < 2 ^ 6 ∧
      -512 ≤ fields.s10 ∧ fields.s10 ≤ 511 ∧ (imm : Int) = fields.s10 % 1024 ∧
      word.toNat = 0x1e * 2 ^ 26 + fields.op.toNat * 2 ^ 23 +
        fields.df.tag.toNat % 4 * 2 ^ 21 + imm * 2 ^ 11 + wd.val * 2 ^ 6 +
        fields.minor.toNat := by
  unfold I10.encode at encoded
  simp only [bind_eq_ok, pure, Except.pure, Except.ok.injEq] at encoded
  obtain ⟨_, opChecked, _, minorChecked, imm, immFound, wdField, wdFound,
    rfl⟩ := encoded
  obtain ⟨wd, wdReg, wdNumber⟩ := Reg.vectorField_eq_ok wdFound
  obtain ⟨immLow, immHigh, immValue⟩ := signed10Field_eq_ok immFound
  have opBound := checkField_eq_ok opChecked
  have minorBound := checkField_eq_ok minorChecked
  have packed :=
    (((packed_vectorOpcode.behind 23 rfl opBound (by decide)).behind 21
    (toNat_bits fields.df) (bits_lt fields.df) (by decide)).behind 11 rfl
    (show imm.toNat < 2 ^ 10 by omega) (by decide)).behind 6 wdNumber wd.isLt
      (by decide)
  exact ⟨wd, imm.toNat, wdReg, opBound, minorBound, immLow, immHigh, immValue,
    packed.last rfl minorBound⟩

theorem MI10.encode_eq_ok {fields : MI10} {word : UInt32}
    (encoded : fields.encode = .ok word) :
    ∃ rs wd : RegNum, ∃ imm : Nat,
      fields.rs = .gp rs ∧ fields.wd = .vec wd ∧ fields.minor.toNat < 2 ^ 4 ∧
      -512 ≤ fields.s10 ∧ fields.s10 ≤ 511 ∧ (imm : Int) = fields.s10 % 1024 ∧
      word.toNat = 0x1e * 2 ^ 26 + imm * 2 ^ 16 + rs.val * 2 ^ 11 +
        wd.val * 2 ^ 6 +
        fields.minor.toNat * 2 ^ 2 + fields.df.tag.toNat % 4 := by
  unfold MI10.encode at encoded
  simp only [bind_eq_ok, pure, Except.pure, Except.ok.injEq] at encoded
  obtain ⟨_, minorChecked, imm, immFound, rsField, rsFound, wdField, wdFound,
    rfl⟩ := encoded
  obtain ⟨rs, rsReg, rsNumber⟩ := Reg.generalField_eq_ok rsFound
  obtain ⟨wd, wdReg, wdNumber⟩ := Reg.vectorField_eq_ok wdFound
  obtain ⟨immLow, immHigh, immValue⟩ := signed10Field_eq_ok immFound
  have minorBound := checkField_eq_ok minorChecked
  have packed :=
    (((packed_vectorOpcode.behind 16 rfl (show imm.toNat < 2 ^ 10 by omega)
    (by decide)).behind 11 rsNumber rs.isLt (by decide)).behind 6
      wdNumber wd.isLt
    (by decide)).behind 2 rfl minorBound (by decide)
  exact ⟨rs, wd, imm.toNat, rsReg, wdReg, minorBound, immLow, immHigh, immValue,
    packed.last (toNat_bits fields.df) (bits_lt fields.df)⟩

theorem TwoR.encode_eq_ok {op : UInt32} {df : DataFormat} {src wd : Reg}
    {bank : Bank} {word : UInt32}
    (encoded : TwoR.encode ⟨op, df, src, bank, wd⟩ = .ok word) :
    ∃ source target : RegNum,
      src = .inBank bank source ∧ wd = .vec target ∧ op.toNat < 2 ^ 8 ∧
      word.toNat = 0x1e * 2 ^ 26 + op.toNat * 2 ^ 18 +
        df.tag.toNat % 4 * 2 ^ 16 +
        source.val * 2 ^ 11 + target.val * 2 ^ 6 + 0x1e := by
  unfold TwoR.encode at encoded
  simp only [bind_eq_ok, pure, Except.pure, Except.ok.injEq] at encoded
  obtain ⟨_, opChecked, srcField, srcFound, wdField, wdFound, rfl⟩ := encoded
  obtain ⟨source, srcReg, srcNumber⟩ := Reg.field_eq_ok srcFound
  obtain ⟨target, wdReg, wdNumber⟩ := Reg.vectorField_eq_ok wdFound
  have opBound := checkField_eq_ok opChecked
  have packed :=
    (((packed_vectorOpcode.behind 18 rfl opBound (by decide)).behind 16
    (toNat_bits df) (bits_lt df) (by decide)).behind 11 srcNumber source.isLt
      (by decide)).behind 6
    wdNumber target.isLt (by decide)
  exact ⟨source, target, srcReg, wdReg, opBound,
    packed.last (show minorWhole.toNat = 0x1e from rfl) (by decide)⟩

theorem ThreeR.encode_eq_ok {fields : ThreeR} {word : UInt32}
    (encoded : fields.encode = .ok word) :
    ∃ wt ws wd : RegNum,
      fields.wt = .vec wt ∧ fields.ws = .vec ws ∧ fields.wd = .vec wd ∧
      fields.op.toNat < 2 ^ 3 ∧ fields.minor.toNat < 2 ^ 6 ∧
      word.toNat = 0x1e * 2 ^ 26 + fields.op.toNat * 2 ^ 23 +
        fields.df.tag.toNat % 4 * 2 ^ 21 + wt.val * 2 ^ 16 + ws.val * 2 ^ 11 +
        wd.val * 2 ^ 6 + fields.minor.toNat := by
  unfold ThreeR.encode at encoded
  simp only [bind_eq_ok, pure, Except.pure, Except.ok.injEq] at encoded
  obtain ⟨_, opChecked, _, minorChecked, wtField, wtFound, wsField, wsFound,
    wdField, wdFound, rfl⟩ := encoded
  obtain ⟨wt, wtReg, wtNumber⟩ := Reg.vectorField_eq_ok wtFound
  obtain ⟨ws, wsReg, wsNumber⟩ := Reg.vectorField_eq_ok wsFound
  obtain ⟨wd, wdReg, wdNumber⟩ := Reg.vectorField_eq_ok wdFound
  have opBound := checkField_eq_ok opChecked
  have minorBound := checkField_eq_ok minorChecked
  have packed :=
    ((((packed_vectorOpcode.behind 23 rfl opBound (by decide)).behind 21
    (toNat_bits fields.df) (bits_lt fields.df) (by decide)).behind 16
      wtNumber wt.isLt
    (by decide)).behind 11 wsNumber ws.isLt (by decide)).behind 6 wdNumber
      wd.isLt (by decide)
  exact ⟨wt, ws, wd, wtReg, wsReg, wdReg, opBound, minorBound,
    packed.last rfl minorBound⟩

theorem elementIndex_eq_ok {df : DataFormat} {lane : Int} {index : UInt32}
    (named : df.Named) (found : elementIndex df lane = .ok index) :
    0 ≤ lane ∧ lane.toNat * 2 ^ df.tag.toNat < 16 ∧
      index.toNat =
        (match df.tag.toNat with
          | 0 => 0 | 1 => 0x20 | 2 => 0x30 | _ => 0x38) + lane.toNat := by
  unfold elementIndex at found
  rw [ite_error_eq_ok, ite_error_eq_ok] at found
  obtain ⟨_, laneFits, found⟩ := found
  have laneNumber :
      lane.toNat < 16 → (UInt32.ofNat lane.toNat).toNat = lane.toNat := by
    intro bound
    rw [UInt32.toNat_ofNat']
    omega
  rcases named.cases with rfl | rfl | rfl | rfl
  · rw [show DataFormat.byte.size = 1 from rfl] at laneFits
    cases found
    have bound : 0 ≤ lane ∧ lane < 16 := by simpa using laneFits
    refine ⟨bound.1, by simp [DataFormat.byte]; omega, ?_⟩
    simpa [DataFormat.byte] using laneNumber (by omega)
  · rw [show DataFormat.half.size = 2 from rfl] at laneFits
    cases found
    have bound : 0 ≤ lane ∧ lane < 8 := by simpa using laneFits
    have packed := toNat_or_low 0x20 (UInt32.ofNat lane.toNat) 3 rfl
      (by rw [laneNumber (by omega)]; omega)
    rw [laneNumber (by omega)] at packed
    exact ⟨bound.1, by simp [DataFormat.half]; omega, packed⟩
  · rw [show DataFormat.word.size = 4 from rfl] at laneFits
    cases found
    have bound : 0 ≤ lane ∧ lane < 4 := by simpa using laneFits
    have packed := toNat_or_low 0x30 (UInt32.ofNat lane.toNat) 2 rfl
      (by rw [laneNumber (by omega)]; omega)
    rw [laneNumber (by omega)] at packed
    exact ⟨bound.1, by simp [DataFormat.word]; omega, packed⟩
  · rw [show DataFormat.double.size = 8 from rfl] at laneFits
    cases found
    have bound : 0 ≤ lane ∧ lane < 2 := by simpa using laneFits
    have packed := toNat_or_low 0x38 (UInt32.ofNat lane.toNat) 1 rfl
      (by rw [laneNumber (by omega)]; omega)
    rw [laneNumber (by omega)] at packed
    exact ⟨bound.1, by simp [DataFormat.double]; omega, packed⟩

/-- The places of the element format, whose fields are already known to fit. -/
theorem toNat_element (op index src dst : UInt32)
    (opBound : op.toNat < 2 ^ 4) (indexBound : index.toNat < 2 ^ 6)
    (srcBound : src.toNat < 2 ^ 5) (dstBound : dst.toNat < 2 ^ 5) :
    (vectorOpcode ||| op <<< 22 ||| index <<< 16 ||| src <<< 11 |||
      dst <<< 6 |||
        minorElement).toNat =
      0x1e * 2 ^ 26 + op.toNat * 2 ^ 22 + index.toNat * 2 ^ 16 +
        src.toNat * 2 ^ 11 +
        dst.toNat * 2 ^ 6 + 0x19 := by
  have packed :=
    (((packed_vectorOpcode.behind 22 rfl opBound (by decide)).behind 16 rfl
      indexBound
    (by decide)).behind 11 rfl srcBound (by decide)).behind 6 rfl dstBound
      (by decide)
  exact packed.last (show minorElement.toNat = 0x19 from rfl) (by decide)

theorem elementIndex_lt {df : DataFormat} {lane : Int} {index : UInt32}
    (named : df.Named) (found : elementIndex df lane = .ok index) :
    index.toNat < 2 ^ 6 := by
  obtain ⟨_, laneBound, value⟩ := elementIndex_eq_ok named found
  rcases named.cases with rfl | rfl | rfl | rfl <;>
    simp [DataFormat.byte, DataFormat.half, DataFormat.word, DataFormat.double]
      at laneBound value <;> omega

theorem ELM.encode_eq_ok {op : UInt32} {df : DataFormat} {lane : Int}
    {src dst : Reg} {srcBank dstBank : Bank} {word : UInt32} (named : df.Named)
    (encoded : ELM.encode ⟨op, df, lane, src, srcBank, dst, dstBank⟩ =
      .ok word) :
    ∃ source target : RegNum, ∃ index : UInt32,
      src = .inBank srcBank source ∧ dst = .inBank dstBank target ∧
      elementIndex df lane = .ok index ∧ op.toNat < 2 ^ 4 ∧
      word.toNat = 0x1e * 2 ^ 26 + op.toNat * 2 ^ 22 + index.toNat * 2 ^ 16 +
        source.val * 2 ^ 11 + target.val * 2 ^ 6 + 0x19 := by
  unfold ELM.encode at encoded
  simp only [bind_eq_ok, pure, Except.pure, Except.ok.injEq] at encoded
  obtain ⟨_, opChecked, index, indexFound, srcField, srcFound, dstField,
    dstFound, rfl⟩ := encoded
  obtain ⟨source, srcReg, srcNumber⟩ := Reg.field_eq_ok srcFound
  obtain ⟨target, dstReg, dstNumber⟩ := Reg.field_eq_ok dstFound
  have opBound := checkField_eq_ok opChecked
  have places := toNat_element op index srcField dstField opBound
    (elementIndex_lt named indexFound) (by omega) (by omega)
  rw [srcNumber, dstNumber] at places
  exact ⟨source, target, index, srcReg, dstReg, indexFound, opBound, places⟩

/-- The copy of a register is the element format with operation `2` and the
index `0x3e`. -/
theorem encodeMove_eq_ok {wd ws : Reg} {word : UInt32}
    (encoded : encodeMove wd ws = .ok word) :
    ∃ src dst : RegNum, ws = .vec src ∧ wd = .vec dst ∧
      word.toNat = 0x1e * 2 ^ 26 + 2 * 2 ^ 22 + 0x3e * 2 ^ 16 +
        src.val * 2 ^ 11 +
        dst.val * 2 ^ 6 + 0x19 := by
  unfold encodeMove at encoded
  simp only [bind_eq_ok, pure, Except.pure, Except.ok.injEq] at encoded
  obtain ⟨srcField, srcFound, dstField, dstFound, rfl⟩ := encoded
  obtain ⟨src, srcReg, srcNumber⟩ := Reg.vectorField_eq_ok srcFound
  obtain ⟨dst, dstReg, dstNumber⟩ := Reg.vectorField_eq_ok dstFound
  have places := toNat_element 2 0x3e srcField dstField (by decide) (by decide)
    (by omega) (by omega)
  rw [srcNumber, dstNumber] at places
  exact ⟨src, dst, srcReg, dstReg, places⟩

theorem I8.encode_eq_ok {fields : I8} {word : UInt32}
    (encoded : fields.encode = .ok word) :
    ∃ ws wd : RegNum,
      fields.ws = .vec ws ∧ fields.wd = .vec wd ∧
      fields.op.toNat < 2 ^ 2 ∧ fields.minor.toNat < 2 ^ 6 ∧
      word.toNat = 0x1e * 2 ^ 26 + fields.op.toNat * 2 ^ 24 +
        fields.imm.toNat * 2 ^ 16 +
        ws.val * 2 ^ 11 + wd.val * 2 ^ 6 + fields.minor.toNat := by
  unfold I8.encode at encoded
  simp only [bind_eq_ok, pure, Except.pure, Except.ok.injEq] at encoded
  obtain ⟨_, opChecked, _, minorChecked, wsField, wsFound, wdField, wdFound,
    rfl⟩ := encoded
  obtain ⟨ws, wsReg, wsNumber⟩ := Reg.vectorField_eq_ok wsFound
  obtain ⟨wd, wdReg, wdNumber⟩ := Reg.vectorField_eq_ok wdFound
  have opBound := checkField_eq_ok opChecked
  have minorBound := checkField_eq_ok minorChecked
  have packed :=
    (((packed_vectorOpcode.behind 24 rfl opBound (by decide)).behind 16
    (UInt8.toNat_toUInt32 fields.imm) fields.imm.toNat_lt (by decide)).behind 11
      wsNumber ws.isLt
    (by decide)).behind 6 wdNumber wd.isLt (by decide)
  exact ⟨ws, wd, wsReg, wdReg, opBound, minorBound, packed.last rfl minorBound⟩

theorem ThreeRF.encode_eq_ok {fields : ThreeRF} {word : UInt32}
    (encoded : fields.encode = .ok word) :
    ∃ wt ws wd : RegNum,
      fields.wt = .vec wt ∧ fields.ws = .vec ws ∧ fields.wd = .vec wd ∧
      fields.op.toNat < 2 ^ 4 ∧ fields.minor.toNat < 2 ^ 6 ∧
      word.toNat = 0x1e * 2 ^ 26 + fields.op.toNat * 2 ^ 22 +
        (if fields.double then 1 else 0) * 2 ^ 21 + wt.val * 2 ^ 16 +
          ws.val * 2 ^ 11 +
        wd.val * 2 ^ 6 + fields.minor.toNat := by
  unfold ThreeRF.encode at encoded
  simp only [bind_eq_ok, pure, Except.pure, Except.ok.injEq] at encoded
  obtain ⟨_, opChecked, _, minorChecked, wtField, wtFound, wsField, wsFound,
    wdField, wdFound, rfl⟩ := encoded
  obtain ⟨wt, wtReg, wtNumber⟩ := Reg.vectorField_eq_ok wtFound
  obtain ⟨ws, wsReg, wsNumber⟩ := Reg.vectorField_eq_ok wsFound
  obtain ⟨wd, wdReg, wdNumber⟩ := Reg.vectorField_eq_ok wdFound
  have opBound := checkField_eq_ok opChecked
  have minorBound := checkField_eq_ok minorChecked
  have isDouble : (if fields.double then 1 else 0 : UInt32).toNat =
      if fields.double then 1 else 0 := by split <;> rfl
  have oneBit : (if fields.double then 1 else 0) < 2 ^ 1 := by split <;> decide
  have packed :=
    ((((packed_vectorOpcode.behind 22 rfl opBound (by decide)).behind 21
      isDouble oneBit
    (by decide)).behind 16 wtNumber wt.isLt (by decide)).behind 11
      wsNumber ws.isLt
    (by decide)).behind 6 wdNumber wd.isLt (by decide)
  exact ⟨wt, ws, wd, wtReg, wsReg, wdReg, opBound, minorBound,
    packed.last rfl minorBound⟩

theorem VEC.encode_eq_ok {fields : VEC} {word : UInt32}
    (encoded : fields.encode = .ok word) :
    ∃ wt ws wd : RegNum,
      fields.wt = .vec wt ∧ fields.ws = .vec ws ∧ fields.wd = .vec wd ∧
        fields.op.toNat < 2 ^ 5 ∧
      word.toNat = 0x1e * 2 ^ 26 + fields.op.toNat * 2 ^ 21 + wt.val * 2 ^ 16 +
        ws.val * 2 ^ 11 + wd.val * 2 ^ 6 + 0x1e := by
  unfold VEC.encode at encoded
  simp only [bind_eq_ok, pure, Except.pure, Except.ok.injEq] at encoded
  obtain ⟨_, opChecked, wtField, wtFound, wsField, wsFound, wdField, wdFound,
    rfl⟩ := encoded
  obtain ⟨wt, wtReg, wtNumber⟩ := Reg.vectorField_eq_ok wtFound
  obtain ⟨ws, wsReg, wsNumber⟩ := Reg.vectorField_eq_ok wsFound
  obtain ⟨wd, wdReg, wdNumber⟩ := Reg.vectorField_eq_ok wdFound
  have opBound := checkField_eq_ok opChecked
  have packed :=
    (((packed_vectorOpcode.behind 21 rfl opBound (by decide)).behind 16
      wtNumber wt.isLt
    (by decide)).behind 11 wsNumber ws.isLt (by decide)).behind 6 wdNumber
      wd.isLt (by decide)
  exact ⟨wt, ws, wd, wtReg, wsReg, wdReg, opBound,
    packed.last (show minorWhole.toNat = 0x1e from rfl) (by decide)⟩

end Word

end LaneKernel
