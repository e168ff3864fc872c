import LaneKernel.Proofs.Building
import LaneKernel.Proofs.Exchange

/-!
# Histories of building

Calls of the building operations in any order, failing ones included.
Declarations are never changed but for the promise of alignment, so an
instruction that passed its check when it was appended passes it in every later
state.  What is left for `Program.validate` to find is an empty program or a
temporary that is read before it is written.
-/

namespace LaneKernel

/-- A declaration is the same, or it got the promise of alignment. -/
def Variable.Kept (before after : Variable) : Prop :=
  after = before ∨ after = { before with aligned := true }

namespace Variable.Kept

variable {before middle after : Variable}

theorem refl (declaration : Variable) : Kept declaration declaration := .inl rfl

theorem trans (first : Kept before middle) (second : Kept middle after) :
    Kept before after := by
  rcases first with rfl | rfl
  · exact second
  · rcases second with rfl | rfl <;> exact .inr rfl

theorem role (kept : Kept before after) : after.role = before.role := by
  rcases kept with rfl | rfl <;> rfl

theorem size (kept : Kept before after) : after.size = before.size := by
  rcases kept with rfl | rfl <;> rfl

end Variable.Kept

namespace Program

variable {program next : Program} {index : VarIndex} {instruction : Instruction}
  {opcode : Opcode}

/-- What is declared stays declared as it is, but for the promise of
alignment. -/
def Keeps (before after : Program) : Prop :=
  ∀ index, (before.var index).declared = true →
    (before.var index).Kept (after.var index)

theorem Keeps.refl (program : Program) : program.Keeps program :=
  fun _ _ => .refl _

theorem Keeps.trans {before middle after : Program}
    (first : before.Keeps middle) (second : middle.Keeps after) :
    before.Keeps after := by
  intro index declared
  have kept := first index declared
  refine kept.trans (second index ?_)
  rw [declared_eq_true, kept.role]
  exact declared_eq_true.mp declared

theorem keeps_setVar {declaration : Variable} (inTable : 0 ≤ index ∧ index < 64)
    (kept : (program.var index).declared = true →
      (program.var index).Kept declaration) :
    program.Keeps (program.setVar index declaration) := by
  intro other declared
  rw [var_setVar _ _ inTable]
  split
  case isTrue same =>
    subst same
    exact kept declared
  case isFalse => exact .refl _

theorem keeps_declare {size : Int}
    (isNext : program.declare index size = .ok next) : program.Keeps next := by
  unfold declare at isNext
  simp only [Outcome.ite_error_eq_ok] at isNext
  obtain ⟨_, hasRole, _, _, free, isNext⟩ := isNext
  cases isNext
  exact keeps_setVar (bounds_of_roleOf hasRole) fun declared =>
    absurd declared free

theorem keeps_declareConst {size : Int} {value : Int64}
    (isNext : program.declareConst index size value = .ok next) :
    program.Keeps next := by
  unfold declareConst at isNext
  simp only [Outcome.ite_error_eq_ok] at isNext
  obtain ⟨isConst, _, free, isNext⟩ := isNext
  cases isNext
  refine keeps_setVar (bounds_of_roleOf ?_) fun declared => absurd declared free
  rw [Classical.not_not.mp isConst]
  decide

theorem keeps_setAligned (isNext : program.setAligned index = .ok next) :
    program.Keeps next := by
  unfold setAligned at isNext
  split at isNext
  case isFalse => cases isNext
  case isTrue isArray =>
    cases isNext
    exact keeps_setVar (bounds_of_declared (declared_of_isArray isArray))
      fun _ => .inr rfl

theorem appendInstruction_eq_ok :
    program.appendInstruction instruction = .ok next ↔
      program.checkInstruction instruction = .ok () ∧
        next = { program with code := program.code.push instruction } := by
  unfold appendInstruction
  rw [Outcome.check_eq_ok]
  exact and_congr_right fun _ =>
    ⟨fun isNext => (Except.ok.inj isNext).symm, fun isNext => by
    rw [isNext]
    rfl⟩

theorem keeps_appendInstruction
    (isNext : program.appendInstruction instruction = .ok next) :
    program.Keeps next := by
  obtain ⟨_, rfl⟩ := appendInstruction_eq_ok.mp isNext
  exact fun _ _ => .refl _

theorem Readable.kept {width place : Nat}
    (readable : program.Readable opcode width place index)
    (keeps : program.Keeps next) : next.Readable opcode width place index := by
  have kept := keeps index (declared_eq_true.mpr readable.usable.1)
  obtain ⟨role, size, offset⟩ := readable
  rw [← kept.role] at role size offset
  rw [← kept.size] at size
  exact ⟨role, size, offset⟩

theorem Checked.kept (checked : program.Checked instruction opcode)
    (keeps : program.Keeps next) : next.Checked instruction opcode := by
  have target := keeps _ checked.target_declared
  have source := keeps _ checked.first_declared
  refine { checked with
    target := by rw [target.role]; exact checked.target
    size := by rw [target.size]; exact checked.size
    readable := fun place index isIndex =>
      (checked.readable place index isIndex).kept keeps
    moves := ?_ }
  unfold Moves
  rw [target.role, source.role]
  exact checked.moves

/-- Every instruction of a built program passes its check. -/
theorem Built.checked (built : program.Built)
    (isInstruction : instruction ∈ program.code.toList) :
    ∃ opcode, program.Checked instruction opcode := by
  -- Each operation keeps the declarations, and only appending touches the code.
  have onward : ∀ {before after : Program}, before.Keeps after →
      after.code = before.code →
      (instruction ∈ before.code.toList →
        ∃ opcode, before.Checked instruction opcode) →
      instruction ∈ after.code.toList →
        ∃ opcode, after.Checked instruction opcode := by
    intro before after keeps sameCode induction isInstruction
    rw [sameCode] at isInstruction
    obtain ⟨opcode, checked⟩ := induction isInstruction
    exact ⟨opcode, checked.kept keeps⟩
  induction built with
  | named name => cases isInstruction
  | @declare before after index size _ isNext induction =>
      refine onward (keeps_declare isNext) ?_ induction isInstruction
      unfold Program.declare at isNext
      simp only [Outcome.ite_error_eq_ok] at isNext
      rw [← Except.ok.inj isNext.2.2.2.2.2, code_setVar]
  | @declareConst before after index size value _ isNext induction =>
      refine onward (keeps_declareConst isNext) ?_ induction isInstruction
      unfold Program.declareConst at isNext
      simp only [Outcome.ite_error_eq_ok] at isNext
      rw [← Except.ok.inj isNext.2.2.2, code_setVar]
  | @setAligned before after index _ isNext induction =>
      refine onward (keeps_setAligned isNext) ?_ induction isInstruction
      unfold Program.setAligned at isNext
      split at isNext
      case isFalse => cases isNext
      case isTrue => rw [← Except.ok.inj isNext, code_setVar]
  | @rows before twoD _ induction =>
      have keeps : before.Keeps { before with twoD := twoD } :=
        fun _ _ => .refl _
      exact onward keeps rfl induction isInstruction
  | @append before after appended _ isNext induction =>
      have keeps := keeps_appendInstruction isNext
      obtain ⟨passes, rfl⟩ := appendInstruction_eq_ok.mp isNext
      rw [Array.toList_push, List.mem_append, List.mem_singleton]
        at isInstruction
      rcases isInstruction with isEarlier | rfl
      · obtain ⟨opcode, checked⟩ := induction isEarlier
        exact ⟨opcode, checked.kept keeps⟩
      · obtain ⟨opcode, checked⟩ := checkInstruction_eq_ok.mp passes
        exact ⟨opcode, checked.kept keeps⟩

/-- Some instruction reads a temporary that no instruction in front of it
writes. -/
def ReadsUnwritten (program : Program) : Prop :=
  ∃ front instruction back index,
    program.code.toList = front ++ instruction :: back ∧
      index ∈ instruction.src ∧ (program.var index).role = .temp ∧
    ∀ earlier ∈ front, index ∉ earlier.dest

/-- Code of checked instructions is valid when every temporary that is read was
written. -/
theorem valid_of_written {written : VarIndex → Prop} {code : List Instruction}
    (checked : ∀ instruction ∈ code, ∃ opcode,
      program.Checked instruction opcode)
    (isWritten : ∀ front instruction back index,
      code = front ++ instruction :: back → index ∈ instruction.src →
        (program.var index).role = .temp →
      written index ∨ ∃ earlier ∈ front, earlier.target = index) :
    program.Valid written code := by
  induction code generalizing written with
  | nil => exact .nil
  | cons instruction rest induction =>
      obtain ⟨opcode, isChecked⟩ := checked instruction List.mem_cons_self
      refine .cons isChecked (fun index isSource isTemp => ?_) (induction ?_ ?_)
      · rcases isWritten [] instruction rest index rfl isSource isTemp with
          isWritten | ⟨_, impossible, _⟩
        · exact isWritten
        · cases impossible
      · exact fun other isOther =>
          checked other (List.mem_cons_of_mem _ isOther)
      · rintro front other back index rfl isSource isTemp
        rcases isWritten (instruction :: front) other back index rfl isSource
          isTemp with
          isWritten | ⟨earlier, isEarlier, isTarget⟩
        · exact .inl (.inr isWritten)
        · rcases List.mem_cons.mp isEarlier with rfl | inFront
          · exact .inl (.inl isTarget.symm)
          · exact .inr ⟨earlier, inFront, isTarget⟩

/-- A program whose instructions pass their checks fails validation only when it
is empty or reads a temporary too early. -/
theorem validate_eq_error_iff
    (checked : ∀ instruction ∈ program.code.toList, ∃ opcode,
      program.Checked instruction opcode) :
    (∃ cause, program.validate = .error cause) ↔
      program.code.toList = [] ∨ program.ReadsUnwritten := by
  have fails : (∃ cause, program.validate = .error cause) ↔
      ¬ program.validate = .ok () := by
    cases program.validate with
    | error cause => simp
    | ok _ => simp
  rw [fails, validate_eq_ok, not_and_or, not_not]
  refine or_congr_right (Iff.trans ?_ not_not)
  refine not_congr ⟨?_, fun allWritten => valid_of_written checked ?_⟩
  · rintro valid ⟨front, instruction, back, index, isCode, isSource, isTemp,
      unwritten⟩
    have checkedFront :
        ∀ earlier ∈ front, ∃ opcode, program.Checked earlier opcode :=
      fun earlier isEarlier =>
        checked earlier (by rw [isCode]; exact List.mem_append_left _ isEarlier)
    rw [isCode] at valid
    rcases Reference.written_before valid isSource isTemp with
      impossible | ⟨earlier, isEarlier, isTarget⟩
    · exact impossible
    · obtain ⟨_, isChecked⟩ := checkedFront earlier isEarlier
      refine unwritten earlier isEarlier ?_
      rw [isChecked.dest, isTarget]
      exact List.mem_singleton_self index
  · intro front instruction back index isCode isSource isTemp
    by_contra unwritten
    refine allWritten ⟨front, instruction, back, index, isCode, isSource,
      isTemp, ?_⟩
    intro earlier isEarlier isDest
    obtain ⟨_, isChecked⟩ :=
      checked earlier (by rw [isCode]; exact List.mem_append_left _ isEarlier)
    rw [isChecked.dest, List.mem_singleton] at isDest
    exact unwritten (.inr ⟨earlier, isEarlier, isDest.symm⟩)

/-- The instruction on a line, if there is one. -/
def readLine (line : List Char) : Except ProgramError (Option Instruction) :=
  if (stripLine line).isEmpty then .ok none
  else (Instruction.parse (stripLine line)).map some

/-- The program with more instructions behind its own. -/
def extend (program : Program) (more : List Instruction) : Program :=
  { program with code := program.code ++ more.toArray }

/-- A line has no instruction, or its instruction is appended. -/
theorem parseLine_eq_ok {line : List Char}
    (isNext : program.parseLine line = .ok next) :
    ∃ found, readLine line = .ok found ∧
      next = program.extend found.toList := by
  unfold parseLine at isNext
  dsimp only at isNext
  unfold readLine
  split at isNext
  case isTrue isEmpty =>
    cases isNext
    exact ⟨none, if_pos isEmpty, by simp [extend]⟩
  case isFalse notEmpty =>
    obtain ⟨instruction, isParsed, isNext⟩ := Outcome.bind_eq_ok.mp isNext
    obtain ⟨_, rfl⟩ := appendInstruction_eq_ok.mp isNext
    refine ⟨some instruction, ?_, by simp [extend]⟩
    rw [if_neg notEmpty, isParsed]
    rfl

/-- A text stopped at a line: the lines in front of it can be read, their
instructions stay, and the line fails. -/
structure StoppedAt (program : Program) (number : Nat)
    (lines : List (List Char)) (cause : ProgramError) (next : Program)
    (front : List (List Char)) (line : List Char)
    (found : List (Option Instruction)) (failure : ProgramError) : Prop where
  inLines : front ++ [line] <+: lines
  isFound : front.mapM readLine = .ok found
  isNext : next = program.extend (found.filterMap id)
  fails : next.parseLine line = .error failure
  isCause : cause = .atLine (number + front.length) failure

theorem parseLines_stopped {number : Nat} {lines : List (List Char)}
    {cause : ProgramError}
    (stops : program.parseLines number lines = (next, some cause)) :
    ∃ front line found failure,
      StoppedAt program number lines cause next front line found failure := by
  induction lines generalizing program number with
  | nil => cases stops
  | cons line rest induction =>
      rw [parseLines] at stops
      cases isLine : program.parseLine line with
      | error failure =>
          rw [isLine] at stops
          cases stops
          exact ⟨[], line, [], failure,
            ⟨⟨rest, rfl⟩, rfl, by simp [extend], isLine, rfl⟩⟩
      | ok middle =>
          rw [isLine] at stops
          obtain ⟨front, last, found, failure, stopped⟩ := induction stops
          obtain ⟨instruction, isRead, rfl⟩ := parseLine_eq_ok isLine
          refine ⟨line :: front, last, instruction :: found, failure, ?_, ?_,
            ?_, stopped.fails, ?_⟩
          · exact List.prefix_cons_inj line |>.mpr stopped.inLines
          · rw [List.mapM_cons, isRead, stopped.isFound]
            rfl
          · rw [stopped.isNext]
            cases instruction <;> simp [extend]
          · rw [stopped.isCause, List.length_cons, Nat.add_right_comm,
              Nat.add_assoc]

theorem keeps_parseLines (number : Nat) (lines : List (List Char)) :
    program.Keeps (program.parseLines number lines).1 := by
  induction lines generalizing program number with
  | nil => exact .refl _
  | cons line rest induction =>
      rw [parseLines]
      cases isLine : program.parseLine line with
      | error failure => exact .refl _
      | ok middle =>
          obtain ⟨found, _, rfl⟩ := parseLine_eq_ok isLine
          have keeps : program.Keeps (program.extend found.toList) :=
            fun _ _ => .refl _
          exact keeps.trans (induction (number + 1))

/-- A call of a building operation, with any arguments. -/
inductive Call where
  | declare (index : VarIndex) (size : Int)
  | declareConst (index : VarIndex) (size : Int) (value : Int64)
  | setAligned (index : VarIndex)
  | append (opcode : String) (operands : List VarIndex)
  | appendInstruction (instruction : Instruction)
  | parseCode (text : String)
deriving DecidableEq, Repr

/-- An operation that is refused leaves the program. -/
def attempt (program : Program) : Except ProgramError Program →
    Program × Option ProgramError
  | .ok next => (next, none)
  | .error cause => (program, some cause)

/-- The program behind a call, and why the call failed. -/
def Call.run (program : Program) : Call → Program × Option ProgramError
  | declare index size => program.attempt (program.declare index size)
  | declareConst index size value =>
      program.attempt (program.declareConst index size value)
  | setAligned index => program.attempt (program.setAligned index)
  | append opcode operands => program.attempt (program.append opcode operands)
  | appendInstruction instruction =>
      program.attempt (program.appendInstruction instruction)
  | parseCode text => program.parseCode text

/-- The program behind a list of calls. -/
def after (program : Program) (calls : List Call) : Program :=
  calls.foldl (fun program call => (call.run program).1) program

/-- What a failing call leaves: a text the instructions of the lines in front of
the failing one, any other call nothing. -/
def Call.Leaves (program : Program) (cause : ProgramError) (next : Program) :
    Call → Prop
  | parseCode text => ∃ front line found failure,
      StoppedAt program 1 (Text.split '\n' text.toList) cause next front line
        found failure
  | _ => next = program

theorem attempt_keeps {outcome : Except ProgramError Program}
    (keeps : ∀ next, outcome = .ok next → program.Keeps next) :
    program.Keeps (program.attempt outcome).1 := by
  cases outcome with
  | error cause => exact .refl _
  | ok next => exact keeps next rfl

theorem attempt_built (built : program.Built)
    {outcome : Except ProgramError Program}
    (isBuilt : ∀ next, outcome = .ok next → next.Built) :
    (program.attempt outcome).1.Built := by
  cases outcome with
  | error cause => exact built
  | ok next => exact isBuilt next rfl

theorem attempt_fails {outcome : Except ProgramError Program}
    {cause : ProgramError} (fails : (program.attempt outcome).2 = some cause) :
    (program.attempt outcome).1 = program := by
  cases outcome with
  | error cause => rfl
  | ok next => cases fails

theorem append_eq_ok {opcode : String} {operands : List VarIndex}
    (isNext : program.append opcode operands = .ok next) :
    ∃ instruction, program.appendInstruction instruction = .ok next := by
  unfold append at isNext
  split at isNext
  case h_1 => cases isNext
  case h_2 => exact ⟨_, isNext⟩

theorem Call.keeps (call : Call) (program : Program) :
    program.Keeps (call.run program).1 := by
  cases call with
  | declare index size => exact attempt_keeps fun _ => keeps_declare
  | declareConst index size value =>
      exact attempt_keeps fun _ => keeps_declareConst
  | setAligned index => exact attempt_keeps fun _ => keeps_setAligned
  | append opcode operands =>
      refine attempt_keeps fun next isNext => ?_
      obtain ⟨_, isAppended⟩ := append_eq_ok isNext
      exact keeps_appendInstruction isAppended
  | appendInstruction instruction =>
      exact attempt_keeps fun _ => keeps_appendInstruction
  | parseCode text => exact keeps_parseLines 1 _

theorem Call.built (call : Call) (isBuilt : program.Built) :
    (call.run program).1.Built := by
  cases call with
  | declare index size => exact attempt_built isBuilt fun _ => .declare isBuilt
  | declareConst index size value =>
      exact attempt_built isBuilt fun _ => .declareConst isBuilt
  | setAligned index => exact attempt_built isBuilt fun _ => .setAligned isBuilt
  | append opcode operands =>
      refine attempt_built isBuilt fun next isNext => ?_
      obtain ⟨_, isAppended⟩ := append_eq_ok isNext
      exact .append isBuilt isAppended
  | appendInstruction instruction =>
      exact attempt_built isBuilt fun _ => .append isBuilt
  | parseCode text => exact isBuilt.parseCode text

theorem Call.leaves (call : Call) {cause : ProgramError}
    (fails : (call.run program).2 = some cause) :
    call.Leaves program cause (call.run program).1 := by
  cases call with
  | parseCode text => exact parseLines_stopped (Prod.ext rfl fails)
  | declare | declareConst | setAligned | append | appendInstruction =>
      exact attempt_fails fails

theorem keeps_after (program : Program) (calls : List Call) :
    program.Keeps (program.after calls) := by
  induction calls generalizing program with
  | nil => exact .refl _
  | cons call calls induction => exact (call.keeps program).trans (induction _)

theorem built_after (isBuilt : program.Built) (calls : List Call) :
    (program.after calls).Built := by
  induction calls generalizing program with
  | nil => exact isBuilt
  | cons call calls induction => exact induction (call.built isBuilt)

/-- What holds of every state that calls reach. -/
structure Consistent (program : Program) : Prop where
  slots : ∀ index, SlotSound index (program.var index)
  kept : ∀ calls, program.Keeps (program.after calls)
  checked : ∀ instruction ∈ program.code.toList,
    program.checkInstruction instruction = .ok ()
  failed : ∀ (call : Call) cause, (call.run program).2 = some cause →
    call.Leaves program cause (call.run program).1
  invalid : (∃ cause, program.validate = .error cause) ↔
    program.code.toList = [] ∨ program.ReadsUnwritten

/-- Every state that calls of the building operations reach is consistent. -/
theorem consistent_after (name : String) (calls : List Call) :
    ((named name).after calls).Consistent := by
  have built := built_after (.named name) calls
  refine ⟨built.slots, keeps_after _, fun instruction isInstruction => ?_,
    fun call _ => call.leaves, validate_eq_error_iff fun _ => built.checked⟩
  exact checkInstruction_eq_ok.mpr (built.checked isInstruction)

end Program

end LaneKernel
