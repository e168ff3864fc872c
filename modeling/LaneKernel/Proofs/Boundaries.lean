import LaneKernel.CodeBuffer
import Mathlib.Data.Int.GCD
import Mathlib.Tactic.LinearCombination

/-!
# Lengths at a boundary

Words behind some code bring its length to a multiple of a boundary exactly if
the greatest common divisor of the boundary and the size of a word divides the
length, and then fewer words than the boundary has remainders do.
`CodeBuffer.padding?` searches no further than that and finds the fewest of
them.
-/

namespace LaneKernel

namespace CodeBuffer

/-- A length that needs no padding. -/
def Aligned (boundary : Int) (length : Nat) :
    Prop := boundary ≤ 0 ∨ boundary ∣ length

/-- The fewest words behind a length that reach a multiple of a boundary. -/
structure FewestWords (boundary : Int) (length count : Nat) : Prop where
  reached : Aligned boundary (length + 4 * count)
  fewest : ∀ fewer < count, ¬ Aligned boundary (length + 4 * fewer)

variable {boundary : Int} {length count : Nat}

theorem aligned_iff_dvd (positive : 0 < boundary) (length : Nat) :
    Aligned boundary length ↔ boundary ∣ length :=
  or_iff_right (Int.not_le.mpr positive)

theorem aligned_iff_mod (positive : 0 < boundary) (length : Nat) :
    Aligned boundary length ↔ length % boundary.toNat = 0 := by
  rw [aligned_iff_dvd positive, ← Nat.dvd_iff_mod_eq_zero,
    ← Int.natCast_dvd_natCast, Int.toNat_of_nonneg positive.le]

/-- The common divisor of the boundary and the size of a word divides every
length that words bring to the boundary. -/
theorem gcd_dvd_of_aligned (positive : 0 < boundary)
    (reached : Aligned boundary (length + 4 * count)) :
    Nat.gcd 4 boundary.toNat ∣ length := by
  have isMultiple : boundary.toNat ∣ length + 4 * count :=
    Nat.dvd_of_mod_eq_zero ((aligned_iff_mod positive _).mp reached)
  have dividesSum := (Nat.gcd_dvd_right 4 boundary.toNat).trans isMultiple
  exact (Nat.dvd_add_left
    ((Nat.gcd_dvd_left 4 boundary.toNat).mul_right count)).mp dividesSum

/-- Conversely, if it divides the length, one of the first counts of words
reaches the boundary. -/
theorem exists_aligned_of_gcd_dvd (positive : 0 < boundary)
    (divides : Nat.gcd 4 boundary.toNat ∣ length) :
    ∃ count < boundary.toNat / Nat.gcd 4 boundary.toNat,
      Aligned boundary (length + 4 * count) := by
  obtain ⟨bound, rfl⟩ := Int.eq_ofNat_of_zero_le positive.le
  rw [Int.toNat_natCast] at divides ⊢
  have isPositive : 0 < bound := Int.natCast_pos.mp positive
  obtain ⟨period, isBound⟩ := Nat.gcd_dvd_right 4 bound
  obtain ⟨factor, isFour⟩ := Nat.gcd_dvd_left 4 bound
  obtain ⟨multiple, rfl⟩ := divides
  have commonPositive : 0 < Nat.gcd 4 bound :=
    Nat.gcd_pos_of_pos_left bound (by decide)
  have isPeriod : bound / Nat.gcd 4 bound = period :=
    Nat.div_eq_of_eq_mul_right commonPositive isBound
  have periodPositive : (0 : Int) < period := by
    refine Int.natCast_pos.mpr (Nat.pos_of_ne_zero ?_)
    rintro rfl
    omega
  have bezout := Nat.gcd_eq_gcd_ab 4 bound
  generalize Nat.gcdA 4 bound = first, Nat.gcdB 4 bound = second at bezout
  generalize Nat.gcd 4 bound = common at *
  -- The count is the one that the linear combination of the divisor suggests,
  -- within one period.
  have notNegative := Int.emod_nonneg (-(multiple * first)) periodPositive.ne'
  have below := Int.emod_lt_of_pos (-(multiple * first)) periodPositive
  have whole := Int.mul_ediv_add_emod (-(multiple * first)) period
  obtain ⟨count, isCount⟩ := Int.eq_ofNat_of_zero_le notNegative
  rw [isCount] at below whole
  refine ⟨count, by omega,
    .inr ⟨multiple * second - factor * (-(multiple * first) / period), ?_⟩⟩
  have isBoundInt : (bound : Int) = common * period := by exact_mod_cast isBound
  have isFourInt : (4 : Int) = common * factor := by exact_mod_cast isFour
  generalize -(multiple * first) / (period : Int) = quotient at *
  push_cast
  linear_combination (multiple : Int) * bezout + 4 * whole -
    period * quotient * isFourInt +
    factor * quotient * isBoundInt

namespace FewestWords

theorem le (words : FewestWords boundary length count) {other : Nat}
    (reached : Aligned boundary (length + 4 * other)) : count ≤ other :=
  Nat.not_lt.mp fun below => words.fewest other below reached

theorem of_aligned (reached : Aligned boundary length) :
    FewestWords boundary length 0 :=
  ⟨reached, fun _ below => absurd below (Nat.not_lt_zero _)⟩

theorem succ_iff (missed : ¬ Aligned boundary length) :
    FewestWords boundary length (count + 1) ↔
      FewestWords boundary (length + 4) count := by
  have shift : ∀ words, length + 4 * (words + 1) = length + 4 + 4 * words :=
    fun words => by omega
  constructor
  · rintro ⟨reached, fewest⟩
    rw [shift] at reached
    refine ⟨reached, fun fewer below => ?_⟩
    rw [← shift]
    exact fewest (fewer + 1) (Nat.succ_lt_succ below)
  · rintro ⟨reached, fewest⟩
    rw [← shift] at reached
    refine ⟨reached, fun fewer below => ?_⟩
    cases fewer with
    | zero => exact missed
    | succ fewer =>
        rw [shift]
        exact fewest fewer (Nat.lt_of_succ_lt_succ below)

theorem lt_period (positive : 0 < boundary)
    (words : FewestWords boundary length count) :
    count < boundary.toNat / Nat.gcd 4 boundary.toNat := by
  obtain ⟨other, below, reached⟩ :=
    exists_aligned_of_gcd_dvd positive
      (gcd_dvd_of_aligned positive words.reached)
  exact (words.le reached).trans_lt below

end FewestWords

theorem exists_fewestWords_iff : (∃ count, FewestWords boundary length count) ↔
    boundary ≤ 0 ∨ Nat.gcd 4 boundary.toNat ∣ length := by
  rcases Int.lt_or_le 0 boundary with positive | notPositive
  · rw [or_iff_right (Int.not_le.mpr positive)]
    constructor
    · rintro ⟨count, words⟩
      exact gcd_dvd_of_aligned positive words.reached
    · intro divides
      obtain ⟨count, -, reached⟩ := exists_aligned_of_gcd_dvd positive divides
      have reaches : ∃ count, Aligned boundary (length + 4 * count) :=
        ⟨count, reached⟩
      classical
      exact ⟨Nat.find reaches, Nat.find_spec reaches,
        fun fewer => Nat.find_min reaches⟩
  · exact iff_of_true ⟨0, .of_aligned (.inl notPositive)⟩ (.inl notPositive)

theorem searchPadding_eq_some {length boundary fuel words count : Nat}
    (found : searchPadding length boundary fuel words = some count) :
    (length + 4 * count) % boundary = 0 ∧
      ∀ fewer, words ≤ fewer → fewer < count →
        (length + 4 * fewer) % boundary ≠ 0 := by
  induction fuel generalizing words with
  | zero => cases found
  | succ fuel induction =>
      unfold searchPadding at found
      split at found
      case isTrue reached =>
        cases found
        exact ⟨reached, fun fewer _ _ => by omega⟩
      case isFalse missed =>
        obtain ⟨reached, fewest⟩ := induction found
        refine ⟨reached, fun fewer notBelow below => ?_⟩
        by_cases isFirst : fewer = words
        · exact isFirst ▸ missed
        · exact fewest fewer (by omega) below

theorem searchPadding_isSome {length boundary fuel words count : Nat}
    (reached : (length + 4 * count) % boundary = 0) (above : words ≤ count)
    (below : count < words + fuel) :
    (searchPadding length boundary fuel words).isSome := by
  induction fuel generalizing words with
  | zero => omega
  | succ fuel induction =>
      unfold searchPadding
      split
      case isTrue => rfl
      case isFalse missed =>
        have notFirst : words ≠ count := by
          rintro rfl
          exact missed reached
        exact induction (by omega) (by omega)

theorem FewestWords.of_searchPadding (positive : 0 < boundary) {fuel : Nat}
    (found : searchPadding length boundary.toNat fuel 0 = some count) :
    FewestWords boundary length count := by
  have aligned_iff := aligned_iff_mod positive
  obtain ⟨reached, fewest⟩ := searchPadding_eq_some found
  exact ⟨(aligned_iff _).mpr reached,
    fun fewer below =>
      mt (aligned_iff _).mp (fewest fewer (Nat.zero_le _) below)⟩

theorem searchPadding_eq_some_iff (positive : 0 < boundary) :
    searchPadding length boundary.toNat boundary.toNat 0 = some count ↔
      FewestWords boundary length count := by
  refine ⟨.of_searchPadding positive, fun words => ?_⟩
  have inFuel : count < 0 + boundary.toNat :=
    (Nat.zero_add _).symm ▸
      (words.lt_period positive).trans_le (Nat.div_le_self _ _)
  have reached := (aligned_iff_mod positive _).mp words.reached
  obtain ⟨other, isFound⟩ :=
    Option.isSome_iff_exists.mp
      (searchPadding_isSome reached (Nat.zero_le _) inFuel)
  have others := FewestWords.of_searchPadding positive isFound
  have same : other = count :=
    Nat.le_antisymm (others.le words.reached) (words.le others.reached)
  exact same ▸ isFound

/-- The search finds the fewest words, and finds them whenever there are any. -/
theorem padding?_eq_some_iff : padding? length boundary = some count ↔
    FewestWords boundary length count := by
  rcases Int.lt_or_le 0 boundary with positive | notPositive
  · rw [padding?, if_neg (Int.not_le.mpr positive),
      searchPadding_eq_some_iff positive]
  · rw [padding?, if_pos notPositive, Option.some.injEq]
    constructor
    · rintro rfl
      exact .of_aligned (.inl notPositive)
    · intro words
      exact (Nat.le_zero.mp (words.le (.inl notPositive))).symm

end CodeBuffer

end LaneKernel
