import Mathlib.Data.List.Basic
import LaneKernel.Proofs.Computation
import LaneKernel.Proofs.Encodable
import LaneKernel.Proofs.RegisterLanes

/-!
# Arithmetic rules, lane by lane

The rule of an arithmetic opcode emits the same few instructions whatever the
kernel around them is.  Their words leave in every element of the destination
what the opcode makes of the elements of the sources.  Nothing is assumed about
the registers except that none is the scratch register, so the destination may
be one of the sources.
-/

namespace LaneKernel

open Asm Contract Lane

namespace Lane

theorem fits_of_toNat_lt {word : UInt64} {size : Nat}
    (small : word.toNat < 2 ^ (8 * size)) : Fits word size := by
  intro index beyond
  apply UInt8.toNat_inj.mp
  have power : 2 ^ (8 * size) ≤ 2 ^ (8 * index) :=
    Nat.pow_le_pow_right (by decide) (by omega)
  rw [toNat_byte, Nat.div_eq_of_lt (Nat.lt_of_lt_of_le small power)]
  rfl

theorem fits_of_le {word bound : UInt64} {size : Nat} (fits : Fits bound size)
    (below : word.toNat ≤ bound.toNat) : Fits word size :=
  fits_of_toNat_lt (Nat.lt_of_le_of_lt below (toNat_lt_of_fits fits))

theorem fits_whole (word : UInt64) {size : Nat} (whole : 8 ≤ size) :
    Fits word size :=
  fun _ beyond => byte_of_ge word (Nat.le_trans whole beyond)

theorem fits_zero (size : Nat) : Fits 0 size := fun index _ => byte_zero index

theorem fits_mask (condition : Bool) (size : Nat) :
    Fits (mask condition size) size := by
  unfold mask
  split
  · exact fits_truncate _ size
  · exact fits_zero size

theorem fits_addSaturatingSigned (a b : UInt64) (size : Nat) :
    Fits (addSaturatingSigned a b size) size := by
  by_cases whole : size ≥ 8
  · exact fits_whole _ whole
  · unfold addSaturatingSigned
    simp only
    rw [if_neg whole]
    exact fits_truncate _ size

theorem fits_subSaturatingSigned (a b : UInt64) (size : Nat) :
    Fits (subSaturatingSigned a b size) size := by
  by_cases whole : size ≥ 8
  · exact fits_whole _ whole
  · unfold subSaturatingSigned
    simp only
    rw [if_neg whole]
    exact fits_truncate _ size

theorem fits_addSaturatingUnsigned (a b : UInt64) (size : Nat) :
    Fits (addSaturatingUnsigned a b size) size := by
  unfold addSaturatingUnsigned
  simp only
  split
  case isTrue => exact fits_truncate _ size
  case isFalse within =>
    exact fits_of_le (fits_truncate _ size)
      (UInt64.not_lt.mp (not_or.mp within).2)

theorem fits_subSaturatingUnsigned (a b : UInt64) (size : Nat) :
    Fits (subSaturatingUnsigned a b size) size := by
  unfold subSaturatingUnsigned
  simp only
  split
  case isTrue => exact fits_zero size
  case isFalse above =>
    apply fits_of_le (fits_truncate a size)
    rw [UInt64.toNat_sub_of_le _ _ (UInt64.not_lt.mp above)]
    exact Nat.sub_le _ _

end Lane

namespace ArithOp

theorem fits_eval {op : ArithOp} {size : Nat}
    (isOpcode : ⟨.arith op, size⟩ ∈ Opcode.all) {a b : UInt64}
    (first : Fits a size) (second : Fits b size) :
    Fits (op.eval size a b) size := by
  obtain ⟨_, inKind⟩ := Opcode.sizes_of_mem isOpcode
  obtain ⟨narrow, floats⟩ := inKind op rfl
  cases op with
  | copy => exact first
  | add | sub | mulLow | andNot | avgS => exact fits_truncate _ size
  | addSS => exact fits_addSaturatingSigned a b size
  | subSS => exact fits_subSaturatingSigned a b size
  | addUS => exact fits_addSaturatingUnsigned a b size
  | subUS => exact fits_subSaturatingUnsigned a b size
  | and | or | xor =>
      intro index beyond
      simp only [eval, byte_and, byte_or, byte_xor, first index beyond,
        second index beyond]
      rfl
  | cmpEq | cmpGtS => exact fits_mask _ size
  | maxS | minS =>
      simp only [eval]
      split
      · exact first
      · exact second
  | maxU =>
      change Fits (if a ≤ b then b else a) size
      split
      · exact second
      · exact first
  | minU =>
      change Fits (if a ≤ b then a else b) size
      split
      · exact first
      · exact second
  | avgU =>
      have isNarrow : size ≤ 4 := narrow (by decide)
      have firstBound := toNat_lt_of_fits first
      have secondBound := toNat_lt_of_fits second
      have power : 2 ^ (8 * size) ≤ 2 ^ 32 :=
        Nat.pow_le_pow_right (by decide) (by omega)
      apply fits_of_toNat_lt
      change ((a + b + 1) >>> 1).toNat < _
      have half : ((a + b + 1) >>> 1).toNat = (a + b + 1).toNat / 2 := by
        rw [UInt64.toNat_shiftRight]
        exact Nat.shiftRight_one _
      have sum : (a + b + 1).toNat = (a.toNat + b.toNat + 1) % 2 ^ 64 := by
        rw [UInt64.toNat_add, UInt64.toNat_add]
        exact Nat.mod_add_mod _ _ _
      rw [half, sum]
      omega
  | float float =>
      have isWide : size = 4 ∨ size = 8 := (floats float rfl).2
      rcases isWide with rfl | rfl
      · apply fits_of_toNat_lt
        simp only [eval, if_true]
        rw [UInt32.toNat_toUInt64]
        exact UInt32.toNat_lt _
      · exact fits_whole _ (Nat.le_refl 8)

theorem size_pos {op : ArithOp} {size : Nat}
    (isOpcode : ⟨.arith op, size⟩ ∈ Opcode.all) : 0 < size :=
  (size_of_mem isOpcode).1

/-- The result for several lanes has no bytes above the last one, whatever the
operands have there. -/
theorem fits_several {op : ArithOp} {size lanes : Nat}
    (isOpcode : ⟨.arith op, size⟩ ∈ Opcode.all) (several : 1 < lanes)
    (a b : UInt64) : Fits (op.evalLanes size a b lanes) (size * lanes) := by
  intro index beyond
  rcases Nat.lt_or_ge index 8 with inside | outside
  · rw [op.byte_evalLanes a b (size_pos isOpcode) several inside,
      if_neg (by omega)]
  · exact byte_of_ge _ outside

/-- Packed results have no bytes above their last lane. -/
theorem fits_evalLanes {op : ArithOp} {size lanes : Nat}
    (isOpcode : ⟨.arith op, size⟩ ∈ Opcode.all) (several : 0 < lanes)
    {a b : UInt64} (first : Fits a (size * lanes))
    (second : Fits b (size * lanes)) :
    Fits (op.evalLanes size a b lanes) (size * lanes) := by
  rcases Nat.lt_or_eq_of_le several with many | isOne
  · exact fits_several isOpcode many a b
  · change 1 = lanes at isOne
    subst isOne
    rw [Nat.mul_one] at *
    exact fits_eval isOpcode first second

end ArithOp

/-- Every element of a computed register is what the opcode makes of the
elements. -/
theorem VectorRegister.lane_computed_eq {op : ArithOp} {size lanes number : Nat}
    (isOpcode : ⟨.arith op, size⟩ ∈ Opcode.all) (several : 0 < lanes)
    (small : size * lanes ≤ 8) (inside : (number + 1) * (size * lanes) ≤ 16)
    (first second : VectorRegister) :
    (computed op size first second).lane (size * lanes) number =
      op.evalLanes size (first.lane (size * lanes) number)
        (second.lane (size * lanes) number)
        lanes := by
  rw [lane_computed first second (ArithOp.size_pos isOpcode) several small
    inside op]
  exact (ArithOp.fits_evalLanes isOpcode several (fits_lane first number small)
    (fits_lane second number small)).truncate_eq

/-- Executes words that stand one behind the other from `pc` on, up to the first
that traps. -/
def Core.executeAll (core : Core) (pc : UInt32) :
    List UInt32 → Core × Option Exception
  | [] => (core, none)
  | word :: rest =>
      match core.execute pc word with
      | (next, none) => next.executeAll (pc + 4) rest
      | (next, some trap) => (next, some trap)

/-- The words of instructions. -/
def Insn.Encoded (instructions : List Insn) (words : List UInt32) : Prop :=
  List.Forall₂ (fun instruction word => instruction.encode = .ok word)
    instructions words

theorem Insn.Encoded.of_single {instruction : Insn} {words : List UInt32}
    (encoded : Encoded [instruction] words) :
    ∃ word, instruction.encode = .ok word ∧ words = [word] := by
  cases encoded with
  | cons isWord isRest =>
      cases isRest
      exact ⟨_, isWord, rfl⟩

/-- The words of instructions that compute do what the instructions do. -/
theorem Insn.Computes.executeAll {instructions : List Insn} {core last : Core}
    {words : List UInt32} (computes : Computes instructions core last)
    (encoded : Encoded instructions words) (pc : UInt32) :
    core.executeAll pc words = (last, none) := by
  induction computes generalizing words pc with
  | nil =>
      cases encoded
      rfl
  | @cons _ _ _ _ core _ regular isEffect _ _ induction =>
      cases encoded with
      | cons isWord isRest =>
          rw [Core.executeAll,
            Insn.execute_of_encode core pc regular.1 regular.2 isWord, isEffect]
          exact induction isRest (pc + 4)

namespace ArithOp

theorem length_insns_le (op : ArithOp) (df : DataFormat) (wd ws wt : Reg) :
    (op.insns df wd ws wt).length ≤ 2 := by
  cases op with
  | copy =>
      simp only [insns]
      split <;> simp
  | _ => simp [insns, laneOp?]

theorem insns_encodable (op : ArithOp) (df : DataFormat) (wd ws wt : RegNum) :
    ∀ instruction ∈ op.insns df (.vec wd) (.vec ws) (.vec wt),
      instruction.encodable = true := by
  intro instruction isInstruction
  cases op with
  | copy =>
      simp only [insns] at isInstruction
      split at isInstruction
      · cases isInstruction
      · cases List.mem_singleton.mp isInstruction
        rfl
  | andNot =>
      simp only [insns, List.mem_cons, List.not_mem_nil, or_false]
        at isInstruction
      rcases isInstruction with rfl | rfl <;> rfl
  | _ =>
      cases List.mem_singleton.mp isInstruction
      rfl

end ArithOp

theorem Words.encoded {labels : List (Label × Nat)} {position : Nat}
    {instructions : List Insn} {words : List UInt32}
    (isWords : Words labels position (instructions.map .insn) words) :
    Insn.Encoded instructions words := by
  induction instructions generalizing position words with
  | nil =>
      cases isWords
      exact .nil
  | cons instruction rest induction =>
      cases isWords with
      | insn encoded isRest => exact .cons encoded (induction isRest)

theorem Fragment.assemble_insns {instructions : List Insn}
    (few : instructions.length ≤ 2)
    (fits : ∀ instruction ∈ instructions, instruction.encodable = true)
    (listing : Bool) :
    ∃ result words, Fragment.assemble (some (instructions.map .insn)) listing =
      .ok result ∧
      result.bytes.toList = Word.flatten words ∧
        Insn.Encoded instructions words := by
  have noMarks := Fragment.marks_insns instructions
  have isLength := Fragment.words_insns instructions
  have complete : Fragment.Complete (instructions.map .insn) :=
    Fragment.complete_of_fits (Fragment.allFit_insns.mpr fits)
      (by rw [noMarks]; exact .nil)
      (by rw [noMarks]; exact fun label isMark => by cases isMark)
      (by rw [isLength]; omega)
  obtain ⟨result, assembled⟩ := complete.assembles { listing := listing }
  obtain ⟨labels, placed, unpadded⟩ := Compiler.assemble_placed assembled
  obtain ⟨words, padding, isWords, isBytes⟩ := placed.words
  have noPadding : padding = 0 := by
    have isSize := unpadded rfl
    rw [← Array.length_toList, isBytes, Word.length_flatten, List.length_append,
      List.length_replicate, isWords.length_eq] at isSize
    omega
  rw [noPadding, List.replicate_zero, List.append_nil] at isBytes
  exact ⟨result, words, assembled, isBytes, isWords.encoded⟩

/-- The rule of an arithmetic opcode computes the opcode on every element.  Its
code is the same for every supply of labels, and its words leave all other
registers but the scratch register, and the memory, as they were. -/
theorem Registry.standard_computes {op : ArithOp} {size lanes : Nat}
    (isOpcode : ⟨.arith op, size⟩ ∈ Opcode.all) (isLanes : lanes ∈ [1, 2, 4])
    (packed : size * lanes ≤ 8) {site : EmitSite} {instruction : Instruction}
    {wd ws wt : RegNum}
    (isName : instruction.opcode = Opcode.name ⟨.arith op, size⟩)
    (isCount : instruction.src.length = op.arity)
    (isTarget : site.vectors.lookup instruction.target = some (.vec wd))
    (isFirst : site.vectors.lookup instruction.firstSource = some (.vec ws))
    (isSecond : op.arity = 2 →
      site.vectors.lookup instruction.secondSource = some (.vec wt))
    (noScratch : wd ≠ 15 ∧ ws ≠ 15 ∧ wt ≠ 15) :
    ∃ (rule : Rule Unit) (code : Fragment) (result : MachineCode)
      (words : List UInt32), Registry.standard.lookup? instruction.opcode =
        some rule ∧
      (∀ label, (rule.emit site rule.param instruction).outcome label =
        .ok (code, label)) ∧
      Fragment.assemble (some code) false = .ok result ∧
      result.bytes.toList = Word.flatten words ∧
      ∀ (core : Core) (pc : UInt32), ∃ next,
        core.executeAll pc words = (next, none) ∧
          (∀ number, (number + 1) * (size * lanes) ≤ 16 →
          (next.vector wd).lane (size * lanes) number =
            op.evalLanes size ((core.vector ws).lane (size * lanes) number)
              ((core.vector wt).lane (size * lanes) number) lanes) ∧
        (∀ register, register ≠ wd → register ≠ 15 →
          next.vector register = core.vector register) ∧
        (∀ register, next.reg register = core.reg register) ∧
          next.ram = core.ram := by
  have several : 0 < lanes := by
    simp only [List.mem_cons, List.not_mem_nil, or_false] at isLanes
    omega
  obtain ⟨df, isFormat, -⟩ := Routines.format_of_mem isOpcode
  have hasRule :
      (Registry.standard : Registry Unit).lookup? instruction.opcode =
      some (Opcode.rule ⟨.arith op, size⟩) := by
    rw [isName]
    exact Registry.lookup?_of_mem Registry.nodup_standard
      (Registry.rule_mem_standard isOpcode)
  obtain ⟨result, words, assembled, isBytes, encoded⟩ :=
    Fragment.assemble_insns
      (op.length_insns_le df (.vec wd) (.vec ws) (.vec wt))
      (op.insns_encodable df wd ws wt) false
  refine ⟨_, op.code df (.vec wd) (.vec ws) (.vec wt), result, words, hasRule,
    ?_, assembled, isBytes, ?_⟩
  · intro label
    have emitted :=
      ArithOp.routine_eq_code isOpcode isFormat isCount.trans isTarget isFirst
      isSecond
    exact congrArg (Except.map fun code => (code, label)) emitted
  · intro core pc
    obtain ⟨next, computes, results⟩ :=
      op.computes_insns isOpcode isFormat (.vec wd) (.vec ws)
        (.vec wt) noScratch.2.1 core
    have isValue :
        next.vector wd = .computed op size (core.vector ws) (core.vector wt) :=
      results.value
    have keeps : core.Keeps [] [15, wd] next := results.keeps
    refine ⟨next, computes.executeAll encoded pc, ?_, ?_,
      fun register => keeps.reg register List.not_mem_nil, results.ram⟩
    · intro number inside
      rw [isValue, VectorRegister.lane_computed_eq isOpcode several
        packed inside]
    · intro register notTarget notScratch
      apply keeps.vector
      simp [notTarget, notScratch]

/-- And-not into the register of its first operand, on four lanes of two
bytes. -/
theorem Registry.standard_computes_andnw :
    ∃ (rule : Rule Unit) (code : Fragment) (result : MachineCode)
      (words : List UInt32), Registry.standard.lookup? "andnw" = some rule ∧
      (∀ label, (rule.emit ⟨fun _ => default, [], [(48, .vec 3), (49, .vec 7)],
        false, 0⟩ rule.param ⟨"andnw", Instruction.flagX4, [48],
          [48, 49]⟩).outcome label = .ok (code, label)) ∧
      Fragment.assemble (some code) false = .ok result ∧
      result.bytes.toList = Word.flatten words ∧
      ∀ (core : Core) (pc : UInt32), ∃ next,
        core.executeAll pc words = (next, none) ∧
          (∀ number, (number + 1) * (2 * 4) ≤ 16 →
          (next.vector 3).lane (2 * 4) number =
            ArithOp.andNot.evalLanes 2 ((core.vector 3).lane (2 * 4) number)
              ((core.vector 7).lane (2 * 4) number) (4 : Nat)) ∧
        (∀ register, register ≠ 3 → register ≠ 15 →
          next.vector register = core.vector register) ∧
        (∀ register, next.reg register = core.reg register) ∧
          next.ram = core.ram := by
  exact @standard_computes .andNot 2 4 (by decide) (by decide) (by decide)
    ⟨fun _ => default, [], [(48, .vec 3), (49, .vec 7)], false, 0⟩
    ⟨"andnw", Instruction.flagX4, [48], [48, 49]⟩ 3 3 7 rfl rfl rfl rfl
      (fun _ => rfl) (by decide)

end LaneKernel
