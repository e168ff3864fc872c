import LaneKernel.Proofs.AtomicEmission
import LaneKernel.Proofs.Listings

/-!
# Padding up to a boundary

Padding is a loop that appends one word after the other until the length of the
code is a multiple of the boundary, and `CodeBuffer.alignTo?` is what it leaves.
The remainders that it goes through repeat, so whether it ends is decided by the
length: it does behind whole words, but not behind any number of raw bytes.  The
main statement is `CodeBuffer.padsTo_final`.
-/

namespace LaneKernel

namespace CodeBuffer

variable {boundary : Int}

/-- One round of the loop; `none` is its end. -/
def padRound (boundary : Int) (buffer : CodeBuffer) : Option CodeBuffer :=
  if 0 < boundary ∧ Int.tmod buffer.size boundary ≠ 0 then
    some (buffer.appendWord 0 Insn.nop.text)
  else none

/-- The loop, round after round, up to its end. -/
inductive PadsTo (boundary : Int) : CodeBuffer → CodeBuffer → Prop where
  | stop {buffer : CodeBuffer} : buffer.padRound boundary = none →
      PadsTo boundary buffer buffer
  | round {buffer next final : CodeBuffer} : buffer.padRound boundary =
      some next →
      PadsTo boundary next final → PadsTo boundary buffer final

variable {buffer next final : CodeBuffer}

theorem padRound_eq_none_iff :
    buffer.padRound boundary = none ↔ Aligned boundary buffer.size := by
  unfold padRound Aligned
  rw [Int.dvd_iff_tmod_eq_zero]
  split <;> simp <;> omega

theorem padRound_eq_some_iff : buffer.padRound boundary = some next ↔
    ¬ Aligned boundary buffer.size ∧
      next = buffer.appendWord 0 Insn.nop.text := by
  rw [← padRound_eq_none_iff]
  unfold padRound
  split <;> simp [eq_comm]

/-- The loop appends the fewest words that reach the boundary. -/
theorem padsTo_iff : PadsTo boundary buffer final ↔
    ∃ count, FewestWords boundary buffer.size count ∧
      final = buffer.appendNops count := by
  constructor
  · intro pads
    induction pads with
    | stop isEnd => exact ⟨0, .of_aligned (padRound_eq_none_iff.mp isEnd), rfl⟩
    | round isRound _ induction =>
        obtain ⟨missed, rfl⟩ := padRound_eq_some_iff.mp isRound
        obtain ⟨count, words, rfl⟩ := induction
        rw [size_appendWord] at words
        exact ⟨count + 1, (FewestWords.succ_iff missed).mpr words, rfl⟩
  · rintro ⟨count, words, rfl⟩
    induction count generalizing buffer with
    | zero => exact .stop (padRound_eq_none_iff.mpr words.reached)
    | succ count induction =>
        have missed : ¬ Aligned boundary buffer.size :=
          words.fewest 0 (Nat.succ_pos count)
        have behind := (FewestWords.succ_iff missed).mp words
        rw [← @size_appendWord buffer 0 Insn.nop.text] at behind
        exact .round (padRound_eq_some_iff.mpr ⟨missed, rfl⟩) (induction behind)

/-- Padding is what the loop leaves, and is `none` exactly if the loop does not
end. -/
theorem alignTo?_eq_some_iff : buffer.alignTo? boundary = some final ↔
    PadsTo boundary buffer final := by
  rw [padsTo_iff, alignTo?, Option.map_eq_some_iff]
  exact exists_congr fun count => and_congr padding?_eq_some_iff eq_comm

theorem exists_padsTo_iff : (∃ final, PadsTo boundary buffer final) ↔
    boundary ≤ 0 ∨ Nat.gcd 4 boundary.toNat ∣ buffer.size := by
  rw [← exists_fewestWords_iff]
  constructor
  · rintro ⟨final, pads⟩
    obtain ⟨count, words, -⟩ := padsTo_iff.mp pads
    exact ⟨count, words⟩
  · rintro ⟨count, words⟩
    exact ⟨_, padsTo_iff.mpr ⟨count, words, rfl⟩⟩

theorem exists_padsTo_of_whole (boundary : Int) (whole : 4 ∣ buffer.size) :
    ∃ final, PadsTo boundary buffer final :=
  exists_padsTo_iff.mpr (.inr ((Nat.gcd_dvd_left 4 boundary.toNat).trans whole))

theorem appendNops_eq_extend (buffer : CodeBuffer) (count : Nat) :
    buffer.appendNops count =
      buffer.extend { words := List.replicate count (0, Insn.nop.text) } := by
  induction count generalizing buffer with
  | zero => exact (extend_nil buffer).symm
  | succ count induction =>
      rw [List.replicate_succ, extend_cons, appendNops, induction]

theorem kept_whole : Kept fun buffer => 4 ∣ buffer.size where
  word _ _ whole := size_appendWord ▸ Nat.dvd_add_self_right.mpr whole
  fixup _ whole := whole
  place _ whole := whole

theorem size_resolve : buffer.resolve.1.size = buffer.size := by
  cases isOpen : buffer.resolved with
  | true =>
      unfold resolve
      rw [isOpen]
      rfl
  | false =>
      rw [resolve_eq isOpen]
      dsimp only
      split <;> exact size_filled buffer

/-- An operation whose bytes all come in words. -/
def Action.OfWords : Action → Prop
  | append _ => False
  | _ => True

/-- Behind whole words every operation but the appending of raw bytes ends and
leaves whole words. -/
theorem perform_whole {action : Action} (ofWords : action.OfWords)
    (whole : 4 ∣ buffer.size) :
    ∃ next report, buffer.perform action = some (next, report) ∧
      4 ∣ next.size := by
  cases action with
  | append bytes => exact ofWords.elim
  | emit fragment => exact ⟨_, _, rfl, kept_whole.emit fragment whole⟩
  | bind label => exact ⟨_, _, rfl, kept_whole.bind label whole⟩
  | resolve => exact ⟨_, _, rfl, size_resolve.symm ▸ whole⟩
  | align boundary =>
      obtain ⟨final, pads⟩ := exists_padsTo_of_whole boundary whole
      obtain ⟨count, -, isFinal⟩ := padsTo_iff.mp pads
      refine ⟨final, none, ?_, isFinal ▸ kept_whole.appendNops count whole⟩
      rw [perform, alignTo?_eq_some_iff.mpr pads, Option.map_some]

theorem performAll_whole {actions : List Action}
    (ofWords : ∀ action ∈ actions, action.OfWords) (whole : 4 ∣ buffer.size) :
    ∃ last reports, buffer.performAll actions = some (last, reports) ∧
      4 ∣ last.size := by
  induction actions generalizing buffer with
  | nil => exact ⟨buffer, [], rfl, whole⟩
  | cons action rest induction =>
      obtain ⟨isFirst, areRest⟩ := List.forall_mem_cons.mp ofWords
      obtain ⟨next, report, isNext, wholeNext⟩ := perform_whole isFirst whole
      obtain ⟨last, reports, isLast, wholeLast⟩ := induction areRest wholeNext
      exact ⟨last, _,
        performAll_cons_eq_some.mpr ⟨_, _, _, isNext, isLast, rfl⟩, wholeLast⟩

/-- The loop ends exactly if the common divisor of the boundary and the size of
a word divides the length.  Then it has appended the fewest zero words that
reach the boundary, fewer than the boundary divided by that divisor, and done
nothing else but to list them.  On code without raw bytes it always ends. -/
theorem padsTo_final (boundary : Int) (buffer : CodeBuffer) :
    ((∃ final, PadsTo boundary buffer final) ↔
      boundary ≤ 0 ∨ Nat.gcd 4 boundary.toNat ∣ buffer.size) ∧
    (∀ final, PadsTo boundary buffer final ↔
      buffer.alignTo? boundary = some final) ∧
    (∀ final, PadsTo boundary buffer final →
      (boundary ≤ 0 → final = buffer) ∧
      (0 < boundary → ∃ count < boundary.toNat / Nat.gcd 4 boundary.toNat,
        boundary ∣ (buffer.size + 4 * count : Nat) ∧
        (∀ fewer < count, ¬ boundary ∣ (buffer.size + 4 * fewer : Nat)) ∧
        final = buffer.extend
          { words := List.replicate count (0, Insn.nop.text) })) ∧
    ∀ (listing : Bool) (actions : List Action),
      (∀ action ∈ actions, action.OfWords) → ∃ code reports,
        (empty listing).performAll actions = some (code, reports) ∧
          ∃ final, PadsTo boundary code final := by
  refine ⟨exists_padsTo_iff, fun final => alignTo?_eq_some_iff.symm, ?_, ?_⟩
  · intro final pads
    obtain ⟨count, words, rfl⟩ := padsTo_iff.mp pads
    constructor
    · intro notPositive
      obtain rfl := Nat.le_zero.mp (words.le (.inl notPositive))
      rfl
    · intro positive
      exact ⟨count, words.lt_period positive,
        (aligned_iff_dvd positive _).mp words.reached, fun fewer below =>
          mt (aligned_iff_dvd positive _).mpr (words.fewest fewer below),
        appendNops_eq_extend buffer count⟩
  · intro listing actions ofWords
    obtain ⟨code, reports, isRun, whole⟩ :=
      @performAll_whole (empty listing) _ ofWords (Nat.dvd_zero 4)
    exact ⟨code, reports, isRun, exists_padsTo_of_whole boundary whole⟩

/-- Two raw bytes are padded up to a multiple of six, but never reach one of
four. -/
theorem padsTo_final_raw :
    (¬ ∃ final, PadsTo 4 ((empty true).appendBytes #[1, 2]) final) ∧
      ∃ final, PadsTo 6 ((empty true).appendBytes #[1, 2]) final ∧
        ((empty true).appendBytes #[1, 2]).alignTo? 6 = some final := by
  have short := (padsTo_final 4 ((empty true).appendBytes #[1, 2])).1
  obtain ⟨ends, isSame, -⟩ := padsTo_final 6 ((empty true).appendBytes #[1, 2])
  refine ⟨mt short.mp (by decide), ?_⟩
  obtain ⟨final, pads⟩ := ends.mpr (by decide)
  exact ⟨final, pads, (isSame final).mp pads⟩

end CodeBuffer

end LaneKernel
