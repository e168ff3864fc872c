import LaneKernel.Proofs.Building
import LaneKernel.Proofs.Memory
import LaneKernel.Proofs.Record
import LaneKernel.Verify
import Mathlib.Data.List.Nodup
import Mathlib.Tactic.Ring

/-!
# Drawn executors

A number drawn under a bound is below it whatever the stream is.  So an executor
drawn for at most `maxN` elements always exists, and where it places the arrays
is known up to the skew in front of an array and the room behind a row.
-/

namespace LaneKernel

namespace Random

variable {σ : Type}

theorem toNat_low_half (word : UInt64) :
    (word &&& 0xffffffff).toNat = word.toNat % 2 ^ 32 := by
  rw [UInt64.toNat_and]
  exact Nat.and_two_pow_sub_one_eq_mod word.toNat 32

theorem toNat_high_half (word : UInt64) :
    (word >>> 32).toNat = word.toNat / 2 ^ 32 := by
  rw [UInt64.toNat_shiftRight]
  exact Nat.shiftRight_eq_div_pow word.toNat 32

/-- The product of two half words fits a word, with room for another half
word. -/
theorem half_product_le {first second : Nat} (left : first < 2 ^ 32)
    (right : second < 2 ^ 32) : first * second ≤ (2 ^ 32 - 1) * (2 ^ 32 - 1) :=
  Nat.mul_le_mul (by omega) (by omega)

theorem toNat_multiplyHigh (a b : UInt64) :
    (multiplyHigh a b).toNat = a.toNat * b.toNat / 2 ^ 64 := by
  have aBound := a.toNat_lt
  have bBound := b.toNat_lt
  obtain ⟨a1, isA1⟩ : ∃ half, half = a.toNat / 2 ^ 32 := ⟨_, rfl⟩
  obtain ⟨a0, isA0⟩ : ∃ half, half = a.toNat % 2 ^ 32 := ⟨_, rfl⟩
  obtain ⟨b1, isB1⟩ : ∃ half, half = b.toNat / 2 ^ 32 := ⟨_, rfl⟩
  obtain ⟨b0, isB0⟩ : ∃ half, half = b.toNat % 2 ^ 32 := ⟨_, rfl⟩
  have low := half_product_le (show a0 < 2 ^ 32 by omega)
    (show b0 < 2 ^ 32 by omega)
  have left := half_product_le (show a1 < 2 ^ 32 by omega)
    (show b0 < 2 ^ 32 by omega)
  have right := half_product_le (show a0 < 2 ^ 32 by omega)
    (show b1 < 2 ^ 32 by omega)
  have high := half_product_le (show a1 < 2 ^ 32 by omega)
    (show b1 < 2 ^ 32 by omega)
  have product : a.toNat * b.toNat =
      a1 * b1 * 2 ^ 64 + (a1 * b0 + a0 * b1) * 2 ^ 32 + a0 * b0 := by
    rw [show a.toNat = a1 * 2 ^ 32 + a0 by omega,
      show b.toNat = b1 * 2 ^ 32 + b0 by omega]
    ring
  unfold multiplyHigh
  simp only [UInt64.toNat_add, UInt64.toNat_mul, toNat_high_half,
    toNat_low_half, ← isA1, ← isA0, ← isB1, ← isB0, product]
  generalize a0 * b0 = lowProduct at *
  generalize a1 * b0 = leftProduct at *
  generalize a0 * b1 = rightProduct at *
  generalize a1 * b1 = highProduct at *
  omega

theorem multiplyHigh_lt (word : UInt64) {bound : UInt64}
    (positive : 0 < bound.toNat) :
    (multiplyHigh word bound).toNat < bound.toNat := by
  rw [toNat_multiplyHigh, Nat.div_lt_iff_lt_mul (by decide),
    Nat.mul_comm bound.toNat]
  exact Nat.mul_lt_mul_of_pos_right word.toNat_lt positive

theorem belowFrom_lt (stream : RandomStream σ) {bound : UInt64}
    (positive : 0 < bound.toNat) (threshold : UInt64) (count : Nat)
    (word : UInt64) (state : σ) :
    (belowFrom stream bound threshold count word state).1.toNat <
      bound.toNat := by
  induction count generalizing word state with
  | zero => exact multiplyHigh_lt word positive
  | succ count induction =>
      unfold belowFrom
      split
      · exact induction _ _
      · exact multiplyHigh_lt word positive

theorem below_lt (stream : RandomStream σ) {bound : UInt64}
    (positive : 0 < bound.toNat) (state : σ) :
    (below stream bound state).1.toNat < bound.toNat := by
  unfold below
  simp only
  split
  · have atLeastOne : (1 : UInt64) ≤ bound :=
      UInt64.le_iff_toNat_le.mpr positive
    have masked : (bound - 1).toNat = bound.toNat - 1 :=
      UInt64.toNat_sub_of_le _ _ atLeastOne
    have below : ((stream state).1 &&& (bound - 1)).toNat ≤
        (bound - 1).toNat := by
      rw [UInt64.toNat_and]
      exact Nat.and_le_right
    change ((stream state).1 &&& (bound - 1)).toNat < _
    omega
  · exact belowFrom_lt stream positive _ _ _ _

end Random

namespace Verify

variable {σ : Type} (stream : RandomStream σ)

theorem drawBelow_eq_ok {bound : Int64} (positive : 0 < bound.toInt)
    (state : σ) :
    ∃ word later, drawBelow stream bound state = .ok (word, later) ∧
      (word.toNat : Int) < bound.toInt := by
  have isWord : (bound.toUInt64.toNat : Int) = bound.toInt := by
    change (bound.toBitVec.toNat : Int) = bound.toBitVec.toInt
    change 0 < bound.toBitVec.toInt at positive
    rw [BitVec.toInt_eq_toNat_cond] at positive ⊢
    split at positive
    · rw [if_pos ‹_›]
    · omega
  have notEmpty : ¬ bound ≤ 0 := by
    rw [Int64.le_iff_toInt_le]
    exact not_le.mpr positive
  refine ⟨(Random.below stream bound.toUInt64 state).1,
    (Random.below stream bound.toUInt64 state).2, ?_, ?_⟩
  · unfold drawBelow Random.below?
    rw [if_neg notEmpty]
  · rw [← isWord]
    exact_mod_cast Random.below_lt stream (by omega) state

theorem toNat_dataAddress : dataAddress.toNat = 0x420000 := rfl

/-- A placement in the slot of a number, with rows that are not far apart. -/
structure Placement.Within (placement : Placement) (array : Variable)
    (slot count : Nat) :
    Prop where
  address : ∃ skew ≤ 15, placement.address.toNat =
    dataAddress.toNat + slot * slotSize + guardSize + skew
  stride : placement.stride.toUInt32.toNat ≤ (count + 7) * array.size.toNat + 3
  aligned : array.aligned = true →
    placement.address.toNat % 4 = 0 ∧ placement.stride.toUInt32.toNat % 4 = 0

theorem toNat_alignStride {stride : Int32}
    (small : stride.toUInt32.toNat + 3 < 2 ^ 32) :
    (alignStride stride).toUInt32.toNat =
      stride.toUInt32.toNat + 3 - (stride.toUInt32.toNat + 3) % 4 := by
  have isSum : (stride + arrayAlignment.toInt32 - 1).toUInt32 =
      stride.toUInt32 + 3 := by
    apply UInt32.toBitVec_inj.mp
    change stride.toBitVec + 4#32 - 1#32 = stride.toBitVec + 3#32
    bv_omega
  have isMasked :
      (alignStride stride).toUInt32 = (stride.toUInt32 + 3) &&& ~~~3 := by
    unfold alignStride
    rw [← isSum]
    rfl
  rw [isMasked, Core.toNat_and_not_three, UInt32.toNat_add]
  change (_ + 3) % 2 ^ 32 - (_ + 3) % 2 ^ 32 % 4 = _
  rw [Nat.mod_eq_of_lt small]

theorem toNat_stride {n extra : Int32} {size : Nat} (narrow : size ≤ 8)
    (few : n.toUInt32.toNat ≤ slotSize) (little : extra.toUInt32.toNat < 8) :
    (n * Int32.ofInt size + Int32.ofInt size * extra).toUInt32.toNat =
      (n.toUInt32.toNat + extra.toUInt32.toNat) * size := by
  have isSize : (Int32.ofInt size).toBitVec.toNat = size := by
    change (BitVec.ofInt 32 size).toNat = size
    rw [BitVec.toNat_ofInt]
    omega
  change n.toBitVec.toNat ≤ 0x20000 at few
  change extra.toBitVec.toNat < 8 at little
  change (n.toBitVec * (Int32.ofInt size).toBitVec
    + (Int32.ofInt size).toBitVec * extra.toBitVec).toNat =
      (n.toBitVec.toNat + extra.toBitVec.toNat) * size
  have rows : n.toBitVec.toNat * size ≤ 0x20000 * 8 := Nat.mul_le_mul few narrow
  have behind : extra.toBitVec.toNat * size ≤ 8 * 8 :=
    Nat.mul_le_mul (by omega) narrow
  rw [BitVec.toNat_add, BitVec.toNat_mul, BitVec.toNat_mul, isSize,
    Nat.mul_comm size, Nat.add_mul]
  omega

/-- The skew in front of an array that asks for it is rounded down to a word. -/
theorem front_bounds {skew : UInt32} (low : skew.toNat < 16) (aligned : Bool) :
    (if aligned then skew &&& ~~~(arrayAlignment - 1) else skew).toNat ≤ 15 ∧
      (aligned = true →
        (if aligned then skew &&& ~~~(arrayAlignment - 1) else skew).toNat % 4 =
          0) := by
  cases aligned with
  | false =>
      exact ⟨Nat.le_of_lt_succ low, fun impossible => by cases impossible⟩
  | true =>
      have isFront : (skew &&& ~~~(arrayAlignment - 1)).toNat =
          skew.toNat - skew.toNat % 4 :=
        Core.toNat_and_not_three skew
      rw [if_pos rfl, isFront]
      omega

/-- The stride of an array that asks for it is rounded up to a word. -/
theorem row_bounds {stride : Int32} (small : stride.toUInt32.toNat + 3 < 2 ^ 32)
    (aligned : Bool) :
    (if aligned then alignStride stride else stride).toUInt32.toNat ≤
      stride.toUInt32.toNat + 3 ∧
      (aligned = true →
        (if aligned then alignStride stride else stride).toUInt32.toNat % 4 =
          0) := by
  cases aligned with
  | false => exact ⟨Nat.le_add_right _ _, fun impossible => by cases impossible⟩
  | true =>
      rw [if_pos rfl, toNat_alignStride small]
      omega

theorem Placement.within_of_front {array : Variable} {slot count : Nat}
    {front : UInt32} {stride : Int32} (inTable : slot < 64)
    (low : front.toNat ≤ 15)
    (short : stride.toUInt32.toNat ≤ (count + 7) * array.size.toNat + 3)
    (whole : array.aligned = true →
      front.toNat % 4 = 0 ∧ stride.toUInt32.toNat % 4 = 0) :
    Placement.Within
      ⟨dataAddress + UInt32.ofNat (slot * slotSize + guardSize) + front, stride⟩
        array slot count := by
  have isPlace :
      (dataAddress + UInt32.ofNat (slot * slotSize + guardSize) + front).toNat =
      dataAddress.toNat + slot * slotSize + guardSize + front.toNat := by
    rw [UInt32.toNat_add, UInt32.toNat_add, UInt32.toNat_ofNat',
      toNat_dataAddress, slotSize, guardSize]
    omega
  refine ⟨⟨front.toNat, low, isPlace⟩, short,
    fun aligned => ⟨?_, (whole aligned).2⟩⟩
  obtain ⟨atWord, _⟩ := whole aligned
  rw [isPlace, toNat_dataAddress, slotSize, guardSize]
  omega

theorem drawPlacement_within {array : Variable} {size slot count : Nat}
    {n : Int32} (isSize : array.size = size) (narrow : size ≤ 8)
    (inTable : slot < 64) (isCount : n.toUInt32.toNat = count)
    (few : count ≤ slotSize) (state : σ) :
    ∃ placement later, drawPlacement stream array slot n state =
      .ok (placement, later) ∧
      placement.Within array slot count := by
  obtain ⟨skew, middle, isSkew, skewBound⟩ :=
    drawBelow_eq_ok stream (show 0 < (16 : Int64).toInt by decide) state
  obtain ⟨extra, later, isExtra, extraBound⟩ :=
    drawBelow_eq_ok stream (show 0 < (8 : Int64).toInt by decide) middle
  change (skew.toNat : Int) < 16 at skewBound
  change (extra.toNat : Int) < 8 at extraBound
  have skewLow : skew.toUInt32.toNat < 16 := by
    rw [UInt64.toNat_toUInt32]
    omega
  have isExtraWord : extra.toUInt32.toInt32.toUInt32.toNat = extra.toNat := by
    rw [UInt32.toUInt32_toInt32, UInt64.toNat_toUInt32]
    omega
  have isStride : (n * Int32.ofInt size
      + Int32.ofInt size * extra.toUInt32.toInt32).toUInt32.toNat =
        (count + extra.toNat) * size := by
    rw [toNat_stride narrow (by rw [isCount]; exact few) (by omega), isCount,
      isExtraWord]
  have strideBound : (count + extra.toNat) * size ≤ (count + 7) * size :=
    Nat.mul_le_mul_right size (by omega)
  change count ≤ 0x20000 at few
  have whole : (count + 7) * size ≤ (0x20000 + 7) * 8 :=
    Nat.mul_le_mul (by omega) narrow
  obtain ⟨low, frontAtWord⟩ := front_bounds skewLow array.aligned
  obtain ⟨short, rowAtWord⟩ := row_bounds (show (n * Int32.ofInt size
    + Int32.ofInt size * extra.toUInt32.toInt32).toUInt32.toNat + 3 < 2 ^ 32 by
      rw [isStride]; omega) array.aligned
  refine ⟨_, later, ?_, Placement.within_of_front inTable low ?_
    fun aligned => ⟨frontAtWord aligned, rowAtWord aligned⟩⟩
  · unfold drawPlacement
    rw [isSkew]
    simp only [bind, Except.bind]
    rw [isExtra, isSize]
    rfl
  · rw [isStride] at short
    rw [isSize, Int.toNat_natCast]
    omega

theorem drawPlacements_within {program : Program} {count : Nat} {n : Int32}
    (isCount : n.toUInt32.toNat = count) (few : count ≤ slotSize)
    {indices : List VarIndex}
    (sizes : ∀ index ∈ indices, ∃ size ≤ 8,
      (program.var index).size = (size : Nat)) {slot : Nat}
    (inTable : slot + indices.length ≤ 64) (state : σ) :
    ∃ placements later, drawPlacements stream program n slot indices state =
      .ok (placements, later) ∧
      placements.map Prod.fst = indices ∧
      ∀ number (entry : VarIndex × Placement),
        placements[number]? = some entry →
          entry.2.Within (program.var entry.1) (slot + number) count := by
  induction indices generalizing slot state with
  | nil =>
      exact ⟨[], state, rfl, rfl, fun number entry isEntry => by cases isEntry⟩
  | cons index rest induction =>
      rw [List.length_cons] at inTable
      obtain ⟨size, narrow, isSize⟩ := sizes index List.mem_cons_self
      obtain ⟨placement, middle, isFirst, within⟩ :=
        drawPlacement_within stream isSize narrow
        (show slot < 64 by omega) isCount few state
      obtain ⟨placements, later, isRest, isIndices, restWithin⟩ := induction
        (fun other isOther => sizes other (List.mem_cons_of_mem _ isOther))
        (show slot + 1 + rest.length ≤ 64 by omega) middle
      refine ⟨(index, placement) :: placements, later, ?_,
        by rw [List.map_cons, isIndices], ?_⟩
      · unfold drawPlacements
        rw [isFirst]
        simp only [bind, Except.bind]
        rw [isRest]
        rfl
      · intro number entry isEntry
        cases number with
        | zero =>
            cases isEntry
            exact within
        | succ number =>
            have behind := restWithin number entry isEntry
            rwa [show slot + 1 + number = slot + (number + 1) by omega]
              at behind

end Verify

namespace Executor

variable {executor : Executor} {index other : Int} {word : UInt32}

/-- An entry of a table of words; zero outside the table. -/
def entry (words : Vector UInt32 64) (index : Int) : UInt32 :=
  match place? 64 index with
  | some place => words.get place
  | none => 0

theorem entry_set {words : Vector UInt32 64}
    (inTable : 0 ≤ index ∧ index < (64 : Nat)) :
    entry (words.set index.toNat word ((Int.toNat_lt inTable.1).2 inTable.2))
      other = if other = index then word else entry words other := by
  unfold entry
  by_cases same : other = index
  · rw [if_pos same, same, place?_of_bounds inTable]
    exact Vector.getElem_set_self _
  · rw [if_neg same]
    by_cases otherInTable : 0 ≤ other ∧ other < (64 : Nat)
    · rw [place?_of_bounds otherInTable]
      have differ : index.toNat ≠ other.toNat := by omega
      exact Vector.getElem_set_ne ((Int.toNat_lt inTable.1).2 inTable.2)
        _ differ
    · rw [show place? 64 other = none from dif_neg otherInTable]

theorem paramWord_setParamWord (inTable : 0 ≤ index ∧ index < (64 : Nat)) :
    (executor.setParamWord index word).paramWord other =
      if other = index then word else executor.paramWord other := by
  unfold setParamWord
  rw [place?_of_bounds inTable]
  exact entry_set inTable

@[simp] theorem array_setParamWord :
    (executor.setParamWord index word).array other =
    executor.array other := by
  unfold setParamWord
  split <;> rfl

@[simp] theorem n_setParamWord :
    (executor.setParamWord index word).n = executor.n := by
  unfold setParamWord
  split <;> rfl

theorem array_set (inTable : 0 ≤ index ∧ index < (64 : Nat)) :
    ((executor.set? .arrays index word).getD executor).array other =
      if other = index then word else executor.array other := by
  unfold set?
  rw [place?_of_bounds inTable]
  exact entry_set inTable

/-- Row strides go to the parameter slots of their arrays. -/
theorem setStrides_spec {strides : List (VarIndex × Int32)}
    (inTable : ∀ entry ∈ strides, 0 ≤ entry.1 ∧ entry.1 < (64 : Nat))
    (nodup : (strides.map Prod.fst).Nodup) :
    (executor.setStrides strides).1.n = executor.n ∧
      (∀ other, (executor.setStrides strides).1.array other =
        executor.array other) ∧
      (∀ entry ∈ strides,
        (executor.setStrides strides).1.paramWord entry.1 = entry.2.toUInt32) ∧
      ∀ other ∉ strides.map Prod.fst,
        (executor.setStrides strides).1.paramWord other =
          executor.paramWord other := by
  induction strides generalizing executor with
  | nil => exact ⟨rfl, fun _ => rfl, nofun, fun _ _ => rfl⟩
  | cons first rest induction =>
      obtain ⟨index, stride⟩ := first
      have here := inTable _ List.mem_cons_self
      rw [List.map_cons, List.nodup_cons] at nodup
      obtain ⟨sameCount, sameArrays, set, kept⟩ := @induction
        (executor.setParamWord index stride.toUInt32)
        (fun entry isEntry => inTable entry (List.mem_cons_of_mem _ isEntry))
          nodup.2
      have isNext : (executor.setStrides ((index, stride) :: rest)) =
          (executor.setParamWord index stride.toUInt32).setStrides rest := by
        rw [setStrides, place?_of_bounds here]
      rw [isNext]
      refine ⟨by rw [sameCount, n_setParamWord],
        fun other => by rw [sameArrays, array_setParamWord], ?_, ?_⟩
      · intro entry isEntry
        rcases List.mem_cons.mp isEntry with rfl | isLater
        · rw [kept _ nodup.1, paramWord_setParamWord here, if_pos rfl]
        · exact set entry isLater
      · intro other isOther
        rw [List.map_cons, List.mem_cons, not_or] at isOther
        rw [kept other isOther.2, paramWord_setParamWord here, if_neg isOther.1]

end Executor

namespace Verify

variable {σ : Type} (stream : RandomStream σ)

/-- Placed arrays are in the record, and nothing else of it changes. -/
theorem placeArrays_spec {executor : Executor}
    {placements : List (VarIndex × Placement)}
    (inTable : ∀ entry ∈ placements, 0 ≤ entry.1 ∧ entry.1 < (64 : Nat))
    (nodup : (placements.map Prod.fst).Nodup) :
    (placeArrays executor placements).n = executor.n ∧
      (∀ entry ∈ placements,
        (placeArrays executor placements).array entry.1 = entry.2.address) ∧
      ∀ other ∉ placements.map Prod.fst,
        (placeArrays executor placements).array other =
          executor.array other := by
  induction placements generalizing executor with
  | nil => exact ⟨rfl, nofun, fun _ _ => rfl⟩
  | cons first rest induction =>
      obtain ⟨index, placement⟩ := first
      have here := inTable _ List.mem_cons_self
      rw [List.map_cons, List.nodup_cons] at nodup
      obtain ⟨sameCount, set, kept⟩ := @induction
        ((executor.set? .arrays index placement.address).getD executor)
        (fun entry isEntry => inTable entry (List.mem_cons_of_mem _ isEntry))
          nodup.2
      have isNext : placeArrays executor ((index, placement) :: rest) =
          placeArrays ((executor.set? .arrays index placement.address).getD
            executor) rest := rfl
      rw [isNext]
      refine ⟨?_, ?_, ?_⟩
      · rw [sameCount, Executor.set?, Executor.place?_of_bounds here]
        rfl
      · intro entry isEntry
        rcases List.mem_cons.mp isEntry with rfl | isLater
        · rw [kept _ nodup.1, Executor.array_set here, if_pos rfl]
        · exact set entry isLater
      · intro other isOther
        rw [List.map_cons, List.mem_cons, not_or] at isOther
        rw [kept other isOther.2, Executor.array_set here, if_neg isOther.1]

/-- Setting a parameter changes slots of parameters and temporaries only. -/
theorem setParam_spec {index : Int} (isParam : Var.roleOf index = .param)
    (executor : Executor) (value : Int64) (size : Int) :
    ∃ next, executor.setParam index value size = .ok next ∧
      next.n = executor.n ∧
      (∀ other, next.array other = executor.array other) ∧
      ∀ other : Int, other < Var.firstParam →
        next.paramWord other = executor.paramWord other := by
  obtain ⟨above, below⟩ :=
    Program.bounds_of_roleOf (show Var.roleOf index ≠ .none by
    rw [isParam]
    decide)
  have all : ∀ number : Fin 64, Var.roleOf (number.val : Int) = .param →
      24 ≤ number.val ∧ number.val < 32 := by
    decide
  have isNumber : (index.toNat : Int) = index := Int.toNat_of_nonneg above
  have bounds : 24 ≤ index.toNat ∧ index.toNat < 32 :=
    all ⟨index.toNat, (Int.toNat_lt above).2 below⟩
      ((congrArg Var.roleOf isNumber).trans isParam)
  have distant : Executor.highWordDistance = 8 := rfl
  have first : Var.firstParam = 24 := rfl
  have inTable : 0 ≤ index ∧ index < (64 : Nat) := ⟨above, below⟩
  have highInTable : 0 ≤ index + Executor.highWordDistance ∧
      index + Executor.highWordDistance < (64 : Nat) := by omega
  unfold Executor.setParam
  rw [if_neg (not_not.mpr isParam)]
  refine ⟨_, rfl, ?_, ?_, ?_⟩
  · split <;> simp
  · intro other
    split <;> simp
  · intro other small
    split
    · rw [Executor.paramWord_setParamWord highInTable, if_neg (by omega),
        Executor.paramWord_setParamWord inTable, if_neg (by omega)]
    · rw [Executor.paramWord_setParamWord inTable, if_neg (by omega)]

/-- Drawn parameters leave the arrays and the slots in front of the parameters
alone. -/
theorem drawParams_spec (program : Program) {indices : List VarIndex}
    (areParams : ∀ index ∈ indices, Var.roleOf index = .param)
    (executor : Executor) (state : σ) :
    ∃ drawn later, drawParams stream program indices executor state =
      .ok (drawn, later) ∧
      drawn.n = executor.n ∧
        (∀ index, drawn.array index = executor.array index) ∧
      ∀ index : Int, index < Var.firstParam →
        drawn.paramWord index = executor.paramWord index := by
  induction indices generalizing executor state with
  | nil => exact ⟨executor, state, rfl, rfl, fun _ => rfl, fun _ _ => rfl⟩
  | cons index rest induction =>
      have isParam := areParams index List.mem_cons_self
      have areLater := fun other isOther =>
        areParams other (List.mem_cons_of_mem index isOther)
      unfold drawParams
      by_cases isDeclared : (program.var index).declared = true
      · simp only [isDeclared, if_true]
        obtain ⟨next, isNext, nextCount, nextArrays, nextWords⟩ :=
          setParam_spec isParam executor (stream state).1.toInt64
            (program.var index).size
        obtain ⟨drawn, later, isDrawn, sameCount, sameArrays, sameWords⟩ :=
          induction areLater next (stream state).2
        refine ⟨drawn, later, ?_, sameCount.trans nextCount,
          fun other => (sameArrays other).trans (nextArrays other),
          fun other below =>
            (sameWords other below).trans (nextWords other below)⟩
        rw [isNext]
        exact isDrawn
      · simp only [isDeclared, Bool.false_eq_true, if_false]
        exact induction areLater executor state

/-- Where an executor for at most `maxN` elements places the arrays of a
program. -/
structure Drawn (program : Program) (maxN : Int64) (executor : Executor) :
    Prop where
  count : 0 ≤ executor.n.toInt ∧ executor.n.toInt ≤ maxN.toInt
  rows : program.twoD = true →
    (executor.paramWord Executor.rowCountSlot).toInt32.toInt ≤ maxRows.toInt
  arrays : ∀ slot index, program.arrays[slot]? = some index → ∃ skew ≤ 15,
    (executor.array index).toNat =
      dataAddress.toNat + slot * slotSize + guardSize + skew
  strides : program.twoD = true → ∀ index ∈ program.arrays,
    (executor.paramWord index).toNat ≤
      (executor.n.toInt.toNat + 7) * (program.var index).size.toNat + 3
  aligned : Reference.checkAligned program executor = .ok ()

/-- An executor that holds a placement in its own slot for every array is a
drawn one. -/
theorem Drawn.of_placed {program : Program} {maxN : Int64} {executor : Executor}
    {count : Nat} (isCount : executor.n.toInt = count)
    (few : (count : Int) ≤ maxN.toInt) (rows : program.twoD = true →
      (executor.paramWord Executor.rowCountSlot).toInt32.toInt ≤ maxRows.toInt)
    (placed : ∀ slot index, program.arrays[slot]? = some index →
      ∃ placement : Placement,
      placement.Within (program.var index) slot count ∧
      executor.array index = placement.address ∧
      (program.twoD = true →
        executor.paramWord index = placement.stride.toUInt32)) :
    Drawn program maxN executor := by
  refine ⟨by omega, rows, ?_, ?_, ?_⟩
  · intro slot index isIndex
    obtain ⟨placement, isWithin, isArray, _⟩ := placed slot index isIndex
    rw [isArray]
    exact isWithin.address
  · intro isTwoD index inArrays
    obtain ⟨slot, isIndex⟩ := List.mem_iff_getElem?.mp inArrays
    obtain ⟨placement, isWithin, _, isStride⟩ := placed slot index isIndex
    rw [isStride isTwoD, isCount, Int.toNat_natCast]
    exact isWithin.stride
  · refine Outcome.forM_eq_ok.mpr fun index inArrays => ?_
    obtain ⟨slot, isIndex⟩ := List.mem_iff_getElem?.mp inArrays
    obtain ⟨placement, isWithin, isArray, isStride⟩ := placed slot index isIndex
    cases isAligned : (program.var index).aligned with
    | false => rfl
    | true =>
        obtain ⟨addressAligned, strideAligned⟩ := isWithin.aligned isAligned
        have startAligned : executor.array index % arrayAlignment = 0 := by
          rw [isArray]
          apply UInt32.toNat_inj.mp
          rw [UInt32.toNat_mod]
          exact addressAligned
        have rowsAligned :
            ¬ (program.twoD = true ∧
              executor.paramWord index % arrayAlignment ≠ 0) := by
          rintro ⟨isTwoD, misaligned⟩
          apply misaligned
          rw [isStride isTwoD]
          apply UInt32.toNat_inj.mp
          rw [UInt32.toNat_mod]
          exact strideAligned
        rw [if_neg (by simp), if_neg (not_not.mpr startAligned),
          if_neg rowsAligned]

theorem array_slots {program : Program} (built : program.Built) {index : Int}
    (isArray : index ∈ program.arrays) :
    (0 ≤ index ∧ index < Var.firstAccumulator) ∧
      ∃ size ≤ 8, (program.var index).size = (size : Nat) := by
  have hasRole : (program.var index).role.isArray = true :=
    (List.mem_filter.mp isArray).2
  have declared : (program.var index).declared = true := by
    rw [Program.declared_eq_true]
    intro isNone
    rw [isNone] at hasRole
    cases hasRole
  have sound := built.slots index
  have isRole := sound.role declared
  obtain ⟨above, below⟩ := Program.bounds_of_declared declared
  have all : ∀ number : Fin 64, (Var.roleOf (number.val : Int)).isArray = true →
      number.val < 12 := by
    decide
  have isNumber : (index.toNat : Int) = index := Int.toNat_of_nonneg above
  have bound : index.toNat < 12 :=
    all ⟨index.toNat, (Int.toNat_lt above).2 below⟩ (by
    change (Var.roleOf (index.toNat : Int)).isArray = true
    rw [isNumber, ← isRole]
    exact hasRole)
  have last : Var.firstAccumulator = 12 := rfl
  refine ⟨⟨above, by omega⟩, (program.var index).size.toNat, ?_, ?_⟩
  all_goals
    have valid := sound.size declared
    simp only [Lane.validSize, Bool.or_eq_true, beq_iff_eq] at valid
    omega

theorem count_of_word {word : UInt64} (small : word.toNat ≤ slotSize) :
    word.toUInt32.toInt32.toUInt32.toNat = word.toNat ∧
      word.toUInt32.toInt32.toInt = word.toNat := by
  change word.toNat ≤ 0x20000 at small
  have isWord : word.toUInt32.toNat = word.toNat := by
    rw [UInt64.toNat_toUInt32]
    omega
  refine ⟨by rw [UInt32.toUInt32_toInt32, isWord], ?_⟩
  change word.toUInt32.toBitVec.toInt = _
  rw [BitVec.toInt_eq_toNat_cond]
  change (if 2 * word.toUInt32.toNat < 2 ^ 32 then (word.toUInt32.toNat : Int)
          else _) = _
  rw [isWord, if_pos (by omega)]

/-- Drawing rows sets the row count and the strides of a run over rows. -/
theorem drawRows_spec (program : Program)
    {placements : List (VarIndex × Placement)}
    (inTable : ∀ entry ∈ placements, (0 : Int) ≤ entry.1 ∧ entry.1 < (12 : Int))
    (nodup : (placements.map Prod.fst).Nodup) (executor : Executor)
    (state : σ) :
    ∃ drawn later, drawRows stream program placements executor state =
      .ok (drawn, later) ∧
      drawn.n = executor.n ∧
        (∀ index, drawn.array index = executor.array index) ∧
      (program.twoD = true →
        (drawn.paramWord Executor.rowCountSlot).toInt32.toInt ≤ maxRows.toInt ∧
        ∀ entry ∈ placements,
          drawn.paramWord entry.1 = entry.2.stride.toUInt32) := by
  unfold drawRows
  cases program.twoD with
  | false => exact ⟨executor, state, rfl, rfl, fun _ => rfl, nofun⟩
  | true =>
      obtain ⟨rows, later, isRows, rowsBound⟩ :=
        drawBelow_eq_ok stream (show 0 < (maxRows + 1).toInt by decide) state
      change (rows.toNat : Int) < 5 at rowsBound
      have keys : (placements.map fun entry => (entry.1, entry.2.stride)).map
          Prod.fst = placements.map Prod.fst := by
        rw [List.map_map]
        rfl
      have slotInTable : (0 : Int) ≤ Executor.rowCountSlot ∧
          Executor.rowCountSlot < ((64 : Nat) : Int) := by decide
      obtain ⟨sameCount, sameArrays, set, kept⟩ := @Executor.setStrides_spec
        (executor.setParamWord Executor.rowCountSlot
          rows.toUInt32.toInt32.toUInt32)
        (placements.map fun entry => (entry.1, entry.2.stride))
        (by
          intro entry isEntry
          obtain ⟨other, isOther, rfl⟩ := List.mem_map.mp isEntry
          have bounds := inTable other isOther
          exact ⟨bounds.1, Int.lt_trans bounds.2 (by decide)⟩)
        (by rw [keys]; exact nodup)
      refine ⟨_, later, by simp only [if_true, isRows]; rfl, ?_, ?_,
        fun _ => ⟨?_, ?_⟩⟩
      · exact sameCount.trans Executor.n_setParamWord
      · exact fun index => (sameArrays index).trans Executor.array_setParamWord
      · have notArray : Executor.rowCountSlot ∉
            (placements.map fun entry => (entry.1, entry.2.stride)).map
            Prod.fst := by
          rw [keys]
          intro isKey
          obtain ⟨entry, isEntry, isSlot⟩ := List.mem_map.mp isKey
          have bounds := inTable entry isEntry
          rw [isSlot] at bounds
          exact absurd bounds.2 (by decide)
        have isCount := count_of_word (show rows.toNat ≤ slotSize by
          change rows.toNat ≤ 0x20000
          omega)
        have isRows := kept _ notArray
        rw [Executor.paramWord_setParamWord slotInTable, if_pos rfl,
          UInt32.toUInt32_toInt32] at isRows
        refine (congrArg (fun word : UInt32 => word.toInt32.toInt)
          isRows).trans_le ?_
        change rows.toUInt32.toInt32.toInt ≤ 4
        omega
      · intro entry isEntry
        exact set _ (List.mem_map_of_mem isEntry)

/-- An executor is drawn for every bound on its elements that is not above the
size of a slot. -/
theorem randomExecutor_drawn {program : Program} (built : program.Built)
    {maxN : Int64} (notNegative : 0 ≤ maxN.toInt) (few : maxN.toInt ≤ slotSize)
    (state : σ) :
    ∃ executor later, randomExecutor stream program maxN state =
      .ok (executor, later) ∧
      Drawn program maxN executor := by
  have isBound : (maxN + 1).toInt = maxN.toInt + 1 := by
    change maxN.toInt ≤ 0x20000 at few
    rw [Int64.toInt_add]
    change Int.bmod (maxN.toInt + 1) (2 ^ 64) = _
    exact Int.bmod_eq_of_le (by omega) (by omega)
  obtain ⟨word, first, isWord, wordBound⟩ :=
    drawBelow_eq_ok stream (show 0 < (maxN + 1).toInt by omega) state
  obtain ⟨isCount, isNumber⟩ :=
    count_of_word (show word.toNat ≤ slotSize by omega)
  have slots := fun index isArray => @array_slots program built index isArray
  have short : 0 + program.arrays.length ≤ 64 := by
    rw [Nat.zero_add]
    exact List.length_filter_le _ _
  obtain ⟨placements, second, isPlaced, isIndices, within⟩ :=
    drawPlacements_within stream isCount
    (show word.toNat ≤ slotSize by omega)
      (fun index isArray => (slots index isArray).2) short first
  have inArrays : ∀ entry ∈ placements, entry.1 ∈ program.arrays := by
    intro entry isEntry
    rw [← isIndices]
    exact List.mem_map_of_mem isEntry
  have nodup : (placements.map Prod.fst).Nodup := by
    rw [isIndices]
    exact program.nodup_arrays
  obtain ⟨countPlaced, placed, _⟩ := @placeArrays_spec
    { program := codeAddress, n := word.toUInt32.toInt32 } placements
    (fun entry isEntry => ⟨(slots _ (inArrays entry isEntry)).1.1,
      Int.lt_trans (slots _ (inArrays entry isEntry)).1.2 (by decide)⟩) nodup
  obtain ⟨rowed, third, isRowed, countRowed, arraysRowed, rowsRowed⟩ :=
    drawRows_spec stream
    program (fun entry isEntry => (slots _ (inArrays entry isEntry)).1) nodup
    (placeArrays { program := codeAddress, n := word.toUInt32.toInt32 }
      placements) second
  obtain ⟨drawn, later, isDrawn, countDrawn, arraysDrawn, wordsDrawn⟩ :=
    drawParams_spec stream
    program (show ∀ index ∈ params, Var.roleOf index = .param by decide)
      rowed third
  have isDrawnCount : drawn.n.toInt = word.toNat := by
    rw [countDrawn, countRowed, countPlaced]
    exact isNumber
  refine ⟨drawn, later, ?_, .of_placed isDrawnCount (by omega) ?_ ?_⟩
  · unfold randomExecutor
    rw [isWord]
    simp only [bind, Except.bind]
    rw [isPlaced]
    simp only
    rw [isRowed]
    exact isDrawn
  · intro isTwoD
    rw [wordsDrawn _ (by decide)]
    exact (rowsRowed isTwoD).1
  · -- Every array has one placement, in the slot of its own number.
    intro slot index isIndex
    rw [← isIndices, List.getElem?_map, Option.map_eq_some_iff] at isIndex
    obtain ⟨⟨_, placement⟩, isPlacement, rfl⟩ := isIndex
    have isWithin := within slot _ isPlacement
    rw [Nat.zero_add] at isWithin
    have isEntry := List.mem_of_getElem? isPlacement
    refine ⟨placement, isWithin, ?_, fun isTwoD => ?_⟩
    · rw [arraysDrawn, arraysRowed]
      exact placed _ isEntry
    · rw [wordsDrawn _
        (Int.lt_trans (slots _ (inArrays _ isEntry)).1.2 (by decide))]
      exact (rowsRowed isTwoD).2 _ isEntry

end Verify

end LaneKernel
