import LaneKernel.Proofs.Building
import LaneKernel.Proofs.Lowered
import Mathlib.Data.List.Forall2

/-!
# Lowered programs

A lowered program passes its check, and its code is a row of pieces, one for
each instruction of the program.  An instruction of a lowered program is marked
invariant when it is the only writer of a broadcast, or when the instruction it
was made from already was.
-/

namespace LaneKernel

namespace Lowering

/-- The state in front of the first instruction. -/
def start (program : Program) : Lowering :=
  { out := { program with code := #[] } }

/-- The lowering of a list of instructions. -/
inductive Chain (program : Program) : Lowering → List Instruction → Lowering →
    Prop where
  | nil {state : Lowering} : Chain program state [] state
  | cons {state middle next : Lowering} {instruction : Instruction}
      {rest : List Instruction} {opcode : Opcode} :
      program.Checked instruction opcode →
        Lowers program instruction opcode state middle →
      Chain program middle rest next →
        Chain program state (instruction :: rest) next

variable {program : Program} {state middle next : Lowering}
  {instruction : Instruction} {opcode : Opcode} {size lanes width : Nat}
  {index temp : VarIndex} {code : List Instruction}

theorem chain_of_foldlM (isSound : Sound program state)
    (checked : ∀ instruction ∈ code, ∃ opcode,
      program.Checked instruction opcode)
    (isOk : code.foldlM Lowering.lower state = .ok next) :
    Chain program state code next := by
  induction code generalizing state with
  | nil =>
      cases isOk
      exact .nil
  | cons instruction rest induction =>
      rw [List.foldlM_cons] at isOk
      obtain ⟨middle, isFirst, isRest⟩ := Outcome.bind_eq_ok.mp isOk
      obtain ⟨opcode, isChecked⟩ := checked instruction List.mem_cons_self
      have lowers := lower_eq_ok isSound isChecked isFirst
      refine .cons isChecked lowers
        (induction (lowers.sound isSound isChecked) ?_ isRest)
      exact fun other isOther => checked other (List.mem_cons_of_mem _ isOther)

theorem Chain.sound (isSound : Sound program state)
    (chain : Chain program state code next) : Sound program next := by
  induction chain with
  | nil => exact isSound
  | cons checked lowers _ induction =>
      exact induction (lowers.sound isSound checked)

/-- Some instruction so far writes the temporary. -/
def Writes (state : Lowering) (temp : VarIndex) : Prop :=
  ∃ instruction ∈ state.out.code.toList, temp = instruction.target

theorem Writes.withTemp (writes : state.Writes index) :
    (state.withTemp temp width).Writes index := by
  unfold Writes
  rw [withTemp_code]
  exact writes

section Emit

variable {name : String} {flags : UInt8} {dest : VarIndex} {src : List VarIndex}

theorem Writes.emit (writes : state.Writes index) :
    (state.emit name flags dest src).Writes index := by
  obtain ⟨instruction, isInstruction, isTarget⟩ := writes
  refine ⟨instruction, ?_, isTarget⟩
  rw [emit_code]
  exact List.mem_append_left _ isInstruction

theorem writes_emit : (state.emit name flags dest src).Writes dest := by
  refine ⟨⟨name, flags, [dest], src⟩, ?_, rfl⟩
  rw [emit_code]
  exact List.mem_append_right _ List.mem_cons_self

end Emit

/-- The code so far is in order and has written what was written in the program
and what is kept. -/
structure Ordered (program : Program) (written : VarIndex → Prop)
    (state : Lowering) : Prop where
  sound : Sound program state
  valid : state.out.Valid (fun _ => False) state.out.code.toList
  written : ∀ index, (program.var index).role = .temp → written index →
    state.Writes index
  loaded : ∀ index temp, (index, temp) ∈ state.loaded → state.Writes temp
  broadcast : ∀ key temp, (key, temp) ∈ state.broadcast → state.Writes temp

/-- A temporary of a width that holds a value. -/
structure Ready (state : Lowering) (width : Nat) (temp : VarIndex) : Prop where
  role : (state.out.var temp).role = .temp
  size : (state.out.var temp).size = ↑width
  writes : state.Writes temp

theorem Ready.grow {emitted : List Instruction} (ready : state.Ready width temp)
    (grows : Grows state next emitted) : next.Ready width temp := by
  have same := grows.isExtended.var temp
    (Program.declared_eq_true.mpr (by rw [ready.role]; decide))
  obtain ⟨instruction, isInstruction, isTarget⟩ := ready.writes
  refine ⟨by rw [same]; exact ready.role, by rw [same]; exact ready.size,
    instruction, ?_, isTarget⟩
  rw [grows.code]
  exact List.mem_append_left _ isInstruction

theorem Ready.readable (ready : state.Ready width temp) (opcode : Opcode)
    (place : Nat) (notOffset : opcode.kind ≠ .loadOffset) :
    state.out.Readable opcode width place temp :=
  ⟨.inr (.inl ready.role), .inr ready.size,
    fun isOffset => absurd isOffset notOffset⟩

variable {written : VarIndex → Prop}

namespace Ordered

variable (ordered : Ordered program written state)

theorem start (program : Program) :
    Ordered program (fun _ => False) (Lowering.start program) where
  sound := Sound.start program
  valid := .nil
  written _ _ isWritten := isWritten.elim
  loaded _ _ isLoaded := by cases isLoaded
  broadcast _ _ isKept := by cases isKept

include ordered

theorem withTemp (free : state.Free temp) (width : Nat) :
    Ordered program written (state.withTemp temp width) where
  sound := ordered.sound.withTemp free width
  valid := by
    rw [withTemp_code]
    exact ordered.valid.extended free.isExtended
  written index isTemp isWritten :=
    (ordered.written index isTemp isWritten).withTemp
  loaded index temp isLoaded := (ordered.loaded index temp isLoaded).withTemp
  broadcast key temp isKept := (ordered.broadcast key temp isKept).withTemp

theorem emit {name : String} {flags : UInt8} {dest : VarIndex}
    {src : List VarIndex}
    (checked : state.out.Checked ⟨name, flags, [dest], src⟩ opcode)
    (reads : ∀ index ∈ src, (state.out.var index).role = .temp →
      state.Writes index) :
    Ordered program (fun index => index = dest ∨ written index)
      (state.emit name flags dest src) where
  sound := ordered.sound.emit name flags dest src
  valid := by
    have isExtended : state.out.Extends (state.emit name flags dest src).out :=
      ⟨fun _ _ => rfl, rfl⟩
    rw [emit_code]
    refine (ordered.valid.extended isExtended).append
      (.cons (checked.extended isExtended) ?_ .nil)
    exact fun index isIndex isTemp => .inl (reads index isIndex isTemp)
  written index isTemp isWritten :=
    isWritten.elim (fun isDest => isDest ▸ writes_emit)
    fun isEarlier => (ordered.written index isTemp isEarlier).emit
  loaded index temp isLoaded := (ordered.loaded index temp isLoaded).emit
  broadcast key temp isKept := (ordered.broadcast key temp isKept).emit

theorem weaken {fewer : VarIndex → Prop}
    (weaker : ∀ index, fewer index → written index) :
    Ordered program fewer state :=
  { ordered with
    written := fun index isTemp isWritten =>
      ordered.written index isTemp (weaker index isWritten) }

theorem var (declared : (program.var index).declared = true) :
    state.out.var index = program.var index :=
  ordered.sound.isExtended.var index declared

end Ordered

theorem checked_single {out : Program} {name : String} {dest source : VarIndex}
    (isLanes : lanes = 1 ∨ lanes = 2 ∨ lanes = 4)
    (found : Opcode.lookup? name = some opcode) (single : opcode.sources = 1)
    (valid : Lane.validSize ↑(opcode.size * lanes) = true)
    (role : (out.var dest).role = .dest ∨ (out.var dest).role = .temp)
    (isSize : (out.var dest).size = ↑(opcode.size * lanes))
    (readable : out.Readable opcode (opcode.size * lanes) 0 source)
    (moves : out.Moves opcode dest source) :
    out.Checked ⟨name, Instruction.laneFlags lanes, [dest], [source]⟩
      opcode := by
  obtain ⟨sameLanes, oneFlag⟩ :=
    Instruction.lanes_laneFlags name [dest] [source] isLanes
  refine ⟨found, rfl, single.symm, oneFlag,
    by rw [sameLanes]; exact valid, role, by rw [sameLanes]; exact isSize,
    ?_, moves⟩
  intro place other isOther
  rw [sameLanes]
  cases place with
  | zero =>
      cases isOther
      exact readable
  | succ place => cases isOther

section Made

variable (isSound : Sound program state) (free : state.Free temp)

include isSound free

theorem checked_load (valid : Lane.validSize ↑width = true)
    (isSource : (program.var index).role = .source)
    (isWidth : (program.var index).size = ↑width) :
    (state.withTemp temp width).out.Checked
      ⟨Lane.sizedName "load" width, 0, [temp], [index]⟩ ⟨.load, width⟩ := by
  have fresh := isSound.fresh free valid
  have same := (isSound.withTemp free width).isExtended.var index
    (Program.declared_eq_true.mpr (by rw [isSource]; decide))
  have isOne : width * 1 = width := Nat.mul_one width
  refine checked_single (.inl rfl) (Opcode.lookup?_load valid) rfl
    (by rw [isOne]; exact valid) (.inr fresh.role)
    (by rw [isOne]; exact fresh.size) ?_
    ((congrArg Variable.role same).trans isSource)
  rw [Program.readable_iff, same, isSource, isWidth]
  simp

theorem checked_broadcast (isLanes : lanes = 1 ∨ lanes = 2 ∨ lanes = 4)
    (valid : Lane.validSize ↑(size * lanes) = true)
    (isScalar : (program.var index).role.isScalar = true) :
    (state.withTemp temp (size * lanes)).out.Checked
      ⟨Lane.sizedName "loadp" size, Instruction.laneFlags lanes, [temp],
        [index]⟩
      ⟨.loadParam, size⟩ := by
  have fresh := isSound.fresh free valid
  have declared : (program.var index).declared = true := by
    rw [Program.declared_eq_true]
    intro isNone
    rw [isNone] at isScalar
    cases isScalar
  have same := (isSound.withTemp free (size * lanes)).isExtended.var index
    declared
  have scalar : ((state.withTemp temp (size * lanes)).out.var
      index).role.isScalar = true := by
    rw [same]
    exact isScalar
  exact checked_single isLanes
    (Opcode.lookup?_loadParam (Lane.validSize_of_width isLanes valid)) rfl valid
    (.inr fresh.role) fresh.size ⟨.inr (.inr scalar), .inl scalar,
    fun _ _ => scalar⟩ scalar

end Made

theorem checked_store {out : Program} {dest : VarIndex}
    (valid : Lane.validSize ↑width = true)
    (isDest : (out.var dest).role = .dest)
    (isSize : (out.var dest).size = ↑width)
    (isTemp : (out.var temp).role = .temp)
    (isWidth : (out.var temp).size = ↑width) :
    out.Checked ⟨Lane.sizedName "store" width, 0, [dest], [temp]⟩
      ⟨.store, width⟩ := by
  have isOne : width * 1 = width := Nat.mul_one width
  refine checked_single (.inl rfl) (Opcode.lookup?_store valid) rfl
    (by rw [isOne]; exact valid) (.inl isDest) (by rw [isOne]; exact isSize)
    ?_ isDest
  rw [isOne]
  exact ⟨.inr (.inl isTemp), .inr isWidth, nofun⟩

/-- The operation of an instruction with other operands of the same width. -/
theorem checked_rewritten {out : Program} {dest : VarIndex}
    {src : List VarIndex} (checked : program.Checked instruction opcode)
    (role : (out.var dest).role = .dest ∨ (out.var dest).role = .temp)
    (isSize : (out.var dest).size = ↑(opcode.size * instruction.lanes))
    (count : src.length = instruction.src.length)
    (readable : ∀ place index, src[place]? = some index →
      out.Readable opcode (opcode.size * instruction.lanes) place index)
    (moves : out.Moves opcode dest (src.headD 0)) :
    out.Checked ⟨instruction.opcode, instruction.flags, [dest], src⟩ opcode :=
  ⟨checked.found, rfl, count.trans checked.sources, checked.oneFlag,
    checked.valid, role, isSize, readable, moves⟩

theorem Operand.ordered {place : Nat}
    (isOrdered : Ordered program written state)
    (isLanes : lanes = 1 ∨ lanes = 2 ∨ lanes = 4)
    (valid : Lane.validSize ↑(size * lanes) = true)
    (readable : program.Readable opcode (size * lanes) place index)
    (reads : (program.var index).role = .temp → written index)
    (operand : Operand program size lanes state index temp next) :
    Ordered program written next ∧ next.Ready (size * lanes) temp := by
  have isSound := isOrdered.sound
  cases operand with
  | temp isTemp =>
      have same := isOrdered.var
        (Program.declared_eq_true.mpr readable.usable.1)
      have isWidth := readable.size.resolve_left (by rw [isTemp]; decide)
      exact ⟨isOrdered, by rw [same]; exact isTemp, by rw [same]; exact isWidth,
        isOrdered.written index isTemp (reads isTemp)⟩
  | loaded isSource isLoaded =>
      obtain ⟨_, fresh⟩ := isSound.loaded index temp isLoaded
      have isWidth := readable.size.resolve_left (by rw [isSource]; decide)
      exact ⟨isOrdered, fresh.role, fresh.size.trans isWidth,
        isOrdered.loaded index temp isLoaded⟩
  | filled isScalar isKept =>
      obtain ⟨_, fresh⟩ := isSound.broadcast index size lanes temp isKept
      exact ⟨isOrdered, fresh.role, fresh.size,
        isOrdered.broadcast _ temp isKept⟩
  | load isSource _ free =>
      have isWidth := readable.size.resolve_left (by rw [isSource]; decide)
      have checked := checked_load isSound free valid isSource isWidth
      have same := (isSound.withTemp free (size * lanes)).isExtended.var index
        (Program.declared_eq_true.mpr (by rw [isSource]; decide))
      have emitted := ((isOrdered.withTemp free (size * lanes)).emit checked (by
        intro other isOther isTemp
        rw [List.mem_singleton.mp isOther, same, isSource] at isTemp
        cases isTemp)).weaken fun _ => .inr
      have fresh := isSound.fresh free valid
      refine ⟨⟨isSound.withLoad free valid isSource isWidth, ?_,
        emitted.written, ?_, emitted.broadcast⟩, fresh.role, fresh.size,
          writes_emit⟩
      · exact emitted.valid.extended ⟨fun _ _ => rfl, rfl⟩
      · intro other kept isLoaded
        rcases List.mem_cons.mp isLoaded with isNew | isEarlier
        · cases isNew
          exact writes_emit
        · exact emitted.loaded other kept isEarlier
  | broadcast isScalar _ free =>
      have checked := checked_broadcast isSound free isLanes valid isScalar
      have same := (isSound.withTemp free (size * lanes)).isExtended.var index
        (Program.declared_eq_true.mpr readable.usable.1)
      have emitted := ((isOrdered.withTemp free (size * lanes)).emit checked (by
        intro other isOther isTemp
        rw [List.mem_singleton.mp isOther, same] at isTemp
        rw [isTemp] at isScalar
        cases isScalar)).weaken fun _ => .inr
      have fresh := isSound.fresh free valid
      refine ⟨⟨isSound.withBroadcast free valid isScalar, ?_, emitted.written,
        emitted.loaded, ?_⟩, fresh.role, fresh.size, writes_emit⟩
      · exact emitted.valid.extended ⟨fun _ _ => rfl, rfl⟩
      · intro other kept isKept
        rcases List.mem_cons.mp isKept with isNew | isEarlier
        · cases isNew
          exact writes_emit
        · exact emitted.broadcast other kept isEarlier

/-- An operand appends at most one instruction, a load or a broadcast without a
mark. -/
theorem Operand.grows
    (operand : Operand program size lanes state index temp next) :
    ∃ emitted, Grows state next emitted ∧ ∀ instruction ∈ emitted,
      instruction.opcode = Lane.sizedName "load" ↑(size * lanes) ∧
        instruction.flags = 0 ∨
      instruction.opcode = Lane.sizedName "loadp" ↑size ∧
        instruction.flags = Instruction.laneFlags lanes := by
  cases operand with
  | temp _ | loaded _ _ | filled _ _ => exact ⟨[], .refl _, by simp⟩
  | load _ _ free => exact ⟨_, .withLoad free index (size * lanes), by simp⟩
  | broadcast _ _ free =>
      exact ⟨_, .withBroadcast free index size lanes, by simp⟩

theorem Operands.grows {indices temps : List VarIndex}
    (operands : Operands program size lanes state indices temps next) :
    ∃ emitted, Grows state next emitted ∧ ∀ instruction ∈ emitted,
      instruction.opcode = Lane.sizedName "load" ↑(size * lanes) ∧
        instruction.flags = 0 ∨
      instruction.opcode = Lane.sizedName "loadp" ↑size ∧
        instruction.flags = Instruction.laneFlags lanes := by
  induction operands with
  | nil => exact ⟨[], .refl _, by simp⟩
  | cons first _ induction =>
      obtain ⟨emitted, grows, helpers⟩ := first.grows
      obtain ⟨more, growsMore, moreHelpers⟩ := induction
      refine ⟨emitted ++ more, grows.trans growsMore,
        fun instruction isInstruction => ?_⟩
      exact (List.mem_append.mp isInstruction).elim (helpers instruction)
        (moreHelpers instruction)

theorem Operands.roles {indices temps : List VarIndex} (place : Nat)
    (isSound : Sound program state)
    (valid : Lane.validSize ↑(size * lanes) = true)
    (readable : ∀ number index, indices[number]? = some index →
      program.Readable opcode (size * lanes) (place + number) index)
    (operands : Operands program size lanes state indices temps next) :
    temps.length = indices.length ∧
      ∀ temp ∈ temps, (next.out.var temp).role = .temp := by
  induction operands generalizing place with
  | nil => exact ⟨rfl, by simp⟩
  | cons first rest induction =>
      have firstReadable := readable 0 _ rfl
      obtain ⟨count, roles⟩ :=
        induction (place + 1) (first.sound isSound valid firstReadable)
        (fun number other isOther => by
          rw [Nat.add_assoc, Nat.add_comm 1]
          exact readable (number + 1) other
            (by rw [List.getElem?_cons_succ]; exact isOther))
      obtain ⟨_, grows, _⟩ := rest.grows
      refine ⟨by simp [count], fun temp isTemp => ?_⟩
      rcases List.mem_cons.mp isTemp with rfl | isLater
      · have isRole := first.role isSound valid firstReadable
        rw [grows.isExtended.var temp
          (Program.declared_eq_true.mpr (by rw [isRole]; decide))]
        exact isRole
      · exact roles temp isLater

theorem Operands.ordered {indices temps : List VarIndex} (place : Nat)
    (isOrdered : Ordered program written state)
    (isLanes : lanes = 1 ∨ lanes = 2 ∨ lanes = 4)
    (valid : Lane.validSize ↑(size * lanes) = true)
    (readable : ∀ number index, indices[number]? = some index →
      program.Readable opcode (size * lanes) (place + number) index)
    (reads : ∀ index ∈ indices, (program.var index).role = .temp →
      written index)
    (operands : Operands program size lanes state indices temps next) :
    Ordered program written next ∧ temps.length = indices.length ∧
      ∀ temp ∈ temps, next.Ready (size * lanes) temp := by
  induction operands generalizing place with
  | nil => exact ⟨isOrdered, rfl, by simp⟩
  | cons first rest induction =>
      obtain ⟨middleOrdered, ready⟩ :=
        first.ordered isOrdered isLanes valid (readable 0 _ rfl)
        (reads _ List.mem_cons_self)
      obtain ⟨nextOrdered, count, allReady⟩ :=
        induction (place + 1) middleOrdered
        (fun number other isOther => by
          rw [Nat.add_assoc, Nat.add_comm 1]
          exact readable (number + 1) other
            (by rw [List.getElem?_cons_succ]; exact isOther))
        (fun other isOther => reads other (List.mem_cons_of_mem _ isOther))
      obtain ⟨_, grows, _⟩ := rest.grows
      refine ⟨nextOrdered, by simp [count], fun temp isTemp => ?_⟩
      rcases List.mem_cons.mp isTemp with rfl | isLater
      · exact ready.grow grows
      · exact allReady temp isLater

/-- A result is written by the operation of its instruction. -/
theorem Result.ordered {src : List VarIndex}
    (isOrdered : Ordered program written state)
    (checked : program.Checked instruction opcode)
    (count : src.length = instruction.src.length)
    (readable : ∀ place index, src[place]? = some index →
      state.out.Readable opcode (opcode.size * instruction.lanes) place index)
    (moves : ∀ out dest, state.out.Extends out →
      out.Moves opcode dest (src.headD 0))
    (reads : ∀ index ∈ src, (state.out.var index).role = .temp →
      state.Writes index)
    (result : Result program instruction (opcode.size * instruction.lanes) src
      state next) :
    Ordered program (fun index => index = instruction.target ∨
      written index) next := by
  have isSound := isOrdered.sound
  cases result with
  | temp isTemp =>
      have same := isOrdered.var checked.target_declared
      refine isOrdered.emit
        (checked_rewritten checked (.inr (by rw [same]; exact isTemp))
          (by rw [same]; exact checked.size) count readable
          (moves _ _ (.refl _))) reads
  | @array temp isDest free =>
      have fresh := isSound.fresh free checked.valid
      have same :=
        (isSound.withTemp free (opcode.size * instruction.lanes)).isExtended.var
          _
        checked.target_declared
      have first :=
        (isOrdered.withTemp free (opcode.size * instruction.lanes)).emit
        (checked_rewritten checked (.inr fresh.role) fresh.size count
          (fun place index isIndex =>
            (readable place index isIndex).extended free.isExtended)
          (moves _ _ free.isExtended))
        (fun index isIndex isTemp => by
          obtain ⟨place, isPlace⟩ := List.mem_iff_getElem?.mp isIndex
          have sameIndex := (Grows.withTemp free
            (opcode.size * instruction.lanes)).isExtended.var index
              (Program.declared_eq_true.mpr
              (readable place index isPlace).usable.1)
          rw [sameIndex] at isTemp
          exact (reads index isIndex isTemp).withTemp)
      refine (first.emit
        (checked_store checked.valid (by rw [emit_var, same]; exact isDest)
          (by rw [emit_var, same]; exact checked.size)
          (by rw [emit_var]; exact fresh.role)
        (by rw [emit_var]; exact fresh.size)) ?_).weaken ?_
      · intro index isIndex _
        rw [List.mem_singleton.mp isIndex]
        exact writes_emit
      · rintro index (isTarget | isWritten)
        · exact .inl isTarget
        · exact .inr (.inr isWritten)

theorem Lowers.ordered (isOrdered : Ordered program written state)
    (checked : program.Checked instruction opcode)
    (reads : ∀ index ∈ instruction.src, (program.var index).role = .temp →
      written index)
    (lowers : Lowers program instruction opcode state next) :
    Ordered program (fun index => index = instruction.target ∨
      written index) next := by
  have isLanes := instruction.lanes_cases
  have isSound := isOrdered.sound
  cases lowers with
  | move isMove result =>
      have readable : ∀ place index, instruction.src[place]? = some index →
          state.out.Readable opcode (opcode.size * instruction.lanes) place
            index :=
        fun place index isIndex =>
          (checked.readable place index isIndex).extended isSound.isExtended
      refine result.ordered isOrdered checked rfl readable ?_ ?_
      · intro out dest isExtended
        have same := (isSound.isExtended.trans isExtended).var _
          checked.first_declared
        unfold Program.Moves
        cases isKind : opcode.kind with
        | load | loadOffset =>
            change (out.var instruction.firstSource).role = .source
            rw [same]
            exact checked.source_of_load (by simp [isKind])
        | loadParam =>
            change (out.var instruction.firstSource).role.isScalar = true
            rw [same]
            exact checked.scalar_of_loadParam isKind
        | arith op => trivial
        | store => simp [Opcode.isLoad, isKind] at isMove
      · intro index isIndex isTemp
        rw [isOrdered.var (checked.source_declared isIndex)] at isTemp
        exact isOrdered.written index isTemp (reads index isIndex isTemp)
  | @store next temp isStore operand =>
      have isFirst := checked.first
      obtain ⟨nextOrdered, ready⟩ :=
        operand.ordered isOrdered isLanes checked.valid
        (checked.readable 0 _ isFirst) (reads _ (List.mem_of_getElem? isFirst))
      have same := nextOrdered.var checked.target_declared
      have isDest := checked.dest_of_store isStore
      have single : instruction.src.length = 1 := by
        rw [checked.sources, Opcode.sources, isStore]
      refine nextOrdered.emit
        (checked_rewritten checked (.inl (by rw [same]; exact isDest))
          (by rw [same]; exact checked.size) single.symm ?_ ?_) ?_
      · intro place index isIndex
        cases place with
        | zero =>
            cases isIndex
            exact ready.readable opcode 0 (by rw [isStore]; decide)
        | succ place => cases isIndex
      · unfold Program.Moves
        rw [isStore]
        change (next.out.var instruction.target).role = .dest
        rw [same]
        exact isDest
      · intro index isIndex _
        rw [List.mem_singleton.mp isIndex]
        exact ready.writes
  | @arith middle _ op temps isArith operands result =>
      obtain ⟨middleOrdered, count, ready⟩ :=
        operands.ordered 0 isOrdered isLanes checked.valid
        checked.readableFrom reads
      refine result.ordered middleOrdered checked count ?_ ?_ ?_
      · intro place index isIndex
        exact (ready index (List.mem_of_getElem? isIndex)).readable opcode place
          (by rw [isArith]; simp)
      · intro out dest _
        unfold Program.Moves
        rw [isArith]
        trivial
      · exact fun index isIndex _ => (ready index isIndex).writes

/-- Instructions of a checked program are lowered to code in order. -/
theorem Chain.ordered (isOrdered : Ordered program written state)
    (chain : Chain program state code next)
    (valid : program.Valid written code) : ∃ all, Ordered program all next := by
  induction chain generalizing written with
  | nil => exact ⟨written, isOrdered⟩
  | cons checked lowers _ induction =>
      cases valid with
      | cons _ reads rest =>
          exact induction (lowers.ordered isOrdered checked reads) rest

/-- The instructions made from one instruction: those with its opcode carry its
mark, the others carry none. -/
def Piece (instruction : Instruction) (piece : List Instruction) : Prop :=
  piece ≠ [] ∧ ∀ entry ∈ piece,
    entry.invariant = true ↔ instruction.invariant = true ∧
      entry.opcode = instruction.opcode

theorem laneFlags_plain (isLanes : lanes = 1 ∨ lanes = 2 ∨ lanes = 4) :
    Instruction.laneFlags lanes &&& Instruction.flagInvariant = 0 := by
  rcases isLanes with rfl | rfl | rfl <;> decide

theorem helper_plain {helper : Instruction} {made : Opcode}
    (checked : program.Checked instruction opcode)
    (isMade : Opcode.lookup? helper.opcode = some made)
    (differs : made.kind ≠ opcode.kind)
    (unmarked : helper.flags &&& Instruction.flagInvariant = 0) :
    helper.invariant = true ↔ instruction.invariant = true ∧
      helper.opcode = instruction.opcode := by
  have plain : helper.invariant = false := by
    unfold Instruction.invariant
    rw [unmarked]
    rfl
  rw [plain]
  refine ⟨nofun, fun ⟨_, same⟩ => ?_⟩
  rw [same, checked.found] at isMade
  cases isMade
  exact absurd rfl differs

theorem Result.piece {src : List VarIndex}
    (checked : program.Checked instruction opcode)
    (notStore : opcode.kind ≠ .store)
    (result : Result program instruction (opcode.size * instruction.lanes) src
      state next) :
    ∃ piece, Grows state next piece ∧ Piece instruction piece := by
  have main : ∀ dest,
      (Instruction.mk instruction.opcode instruction.flags [dest]
      src).invariant = true ↔ instruction.invariant = true ∧
        instruction.opcode = instruction.opcode :=
    fun _ => ⟨fun marked => ⟨marked, rfl⟩, And.left⟩
  cases result with
  | temp _ =>
      refine ⟨_, .emit _ _ _ _, by simp, fun entry isEntry => ?_⟩
      rw [List.mem_singleton.mp isEntry]
      exact main _
  | @array temp _ free =>
      refine ⟨_, ((Grows.withTemp free _).trans (.emit _ _ _ _)).trans
        (.emit _ _ _ _), by simp, fun entry isEntry => ?_⟩
      rcases List.mem_append.mp isEntry with isMain | isStore
      · rw [List.nil_append] at isMain
        rw [List.mem_singleton.mp isMain]
        exact main _
      · rw [List.mem_singleton.mp isStore]
        exact helper_plain checked (Opcode.lookup?_store checked.valid)
          (Ne.symm notStore)
          (by
          exact show (0 : UInt8) &&& Instruction.flagInvariant = 0 by decide)

theorem helpers_piece {emitted : List Instruction}
    (checked : program.Checked instruction opcode)
    (notLoad : opcode.kind ≠ .load) (notParam : opcode.kind ≠ .loadParam)
    (helpers : ∀ entry ∈ emitted,
      entry.opcode = Lane.sizedName "load" ↑(opcode.size * instruction.lanes) ∧
        entry.flags = 0 ∨
      entry.opcode = Lane.sizedName "loadp" ↑opcode.size ∧
        entry.flags = Instruction.laneFlags instruction.lanes) :
    ∀ entry ∈ emitted,
      entry.invariant = true ↔ instruction.invariant = true ∧
        entry.opcode = instruction.opcode := by
  have isLanes := instruction.lanes_cases
  intro entry isEntry
  rcases helpers entry isEntry with ⟨isOpcode, isFlags⟩ | ⟨isOpcode, isFlags⟩
  · have isMade := Opcode.lookup?_load checked.valid
    rw [← isOpcode] at isMade
    exact helper_plain checked isMade (Ne.symm notLoad)
      (by rw [isFlags]; decide)
  · have isMade :=
      Opcode.lookup?_loadParam (Lane.validSize_of_width isLanes checked.valid)
    rw [← isOpcode] at isMade
    exact helper_plain checked isMade (Ne.symm notParam)
      (by rw [isFlags]; exact laneFlags_plain isLanes)

theorem Lowers.piece (checked : program.Checked instruction opcode)
    (lowers : Lowers program instruction opcode state next) :
    ∃ piece, Grows state next piece ∧ Piece instruction piece := by
  cases lowers with
  | move isMove result =>
      refine result.piece checked fun isStore => ?_
      simp [Opcode.isLoad, isStore] at isMove
  | store isStore operand =>
      obtain ⟨emitted, grows, helpers⟩ := operand.grows
      refine ⟨_, grows.trans (.emit _ _ _ _), by simp, fun entry isEntry => ?_⟩
      rcases List.mem_append.mp isEntry with isHelper | isMain
      · exact helpers_piece checked (by rw [isStore]; decide)
          (by rw [isStore]; decide) helpers entry isHelper
      · rw [List.mem_singleton.mp isMain]
        exact ⟨fun marked => ⟨marked, rfl⟩, And.left⟩
  | arith isArith operands result =>
      obtain ⟨emitted, grows, helpers⟩ := operands.grows
      obtain ⟨piece, growsMore, notEmpty, isPiece⟩ :=
        result.piece checked (by rw [isArith]; simp)
      refine ⟨_, grows.trans growsMore, by simp [notEmpty],
        fun entry isEntry => ?_⟩
      rcases List.mem_append.mp isEntry with isHelper | isLater
      · exact helpers_piece checked (by rw [isArith]; simp)
          (by rw [isArith]; simp) helpers entry isHelper
      · exact isPiece entry isLater

theorem Chain.pieces (chain : Chain program state code next) :
    ∃ pieces, Grows state next pieces.flatten ∧
      List.Forall₂ Piece code pieces := by
  induction chain with
  | nil => exact ⟨[], .refl _, .nil⟩
  | cons checked lowers _ induction =>
      obtain ⟨piece, grows, isPiece⟩ := lowers.piece checked
      obtain ⟨pieces, growsMore, arePieces⟩ := induction
      exact ⟨piece :: pieces, by simpa using grows.trans growsMore,
        .cons isPiece arePieces⟩

end Lowering

namespace Program

variable {program lowered : Program} {instruction : Instruction}

/-- The mark of the only writer of a broadcast. -/
def mark (code : List Instruction) (instruction : Instruction) : Instruction :=
  if isBroadcast instruction && writers code instruction.target == 1 then
    { instruction with
      flags := instruction.flags ||| Instruction.flagInvariant }
  else instruction

section Mark

variable (code : List Instruction) (instruction : Instruction)

theorem markInvariants_eq : markInvariants code = code.map (mark code) := rfl

theorem flags_or (flags other : UInt8) :
    (flags ||| Instruction.flagInvariant) &&& other =
      (flags &&& other) ||| (Instruction.flagInvariant &&& other) := by
  apply UInt8.toNat_inj.mp
  simp only [UInt8.toNat_and, UInt8.toNat_or]
  exact Nat.and_or_distrib_right _ _ _

theorem mark_fields :
    (mark code instruction).opcode = instruction.opcode ∧
      (mark code instruction).dest = instruction.dest ∧
      (mark code instruction).src = instruction.src ∧
      (mark code instruction).x2 = instruction.x2 ∧
        (mark code instruction).x4 = instruction.x4 := by
  unfold mark
  split
  · refine ⟨rfl, rfl, rfl, ?_, ?_⟩
    · unfold Instruction.x2
      rw [flags_or, show Instruction.flagInvariant &&& Instruction.flagX2 =
        0 by decide, UInt8.or_zero]
    · unfold Instruction.x4
      rw [flags_or, show Instruction.flagInvariant &&& Instruction.flagX4 =
        0 by decide, UInt8.or_zero]
  · exact ⟨rfl, rfl, rfl, rfl, rfl⟩

@[simp] theorem mark_opcode :
    (mark code instruction).opcode = instruction.opcode :=
  (mark_fields code instruction).1

@[simp] theorem mark_target :
    (mark code instruction).target = instruction.target := by
  unfold Instruction.target
  rw [(mark_fields code instruction).2.1]

@[simp] theorem mark_src : (mark code instruction).src = instruction.src :=
  (mark_fields code instruction).2.2.1

@[simp] theorem mark_lanes :
    (mark code instruction).lanes = instruction.lanes := by
  obtain ⟨_, _, _, sameX2, sameX4⟩ := mark_fields code instruction
  unfold Instruction.lanes
  rw [sameX2, sameX4]

theorem mark_invariant :
    (mark code instruction).invariant = true ↔
      instruction.invariant = true ∨
        isBroadcast instruction = true ∧
          writers code instruction.target = 1 := by
  unfold mark
  split
  case isTrue sole =>
    have marked : ({ instruction with
        flags := instruction.flags ||| Instruction.flagInvariant } :
          Instruction).invariant = true := by
      unfold Instruction.invariant
      rw [flags_or]
      simp [Instruction.flagInvariant]
    simp only [Bool.and_eq_true, beq_iff_eq] at sole
    exact ⟨fun _ => .inr sole, fun _ => marked⟩
  case isFalse notSole =>
    simp only [Bool.and_eq_true, beq_iff_eq] at notSole
    exact ⟨.inl, fun either => either.resolve_right notSole⟩

theorem writers_marked (index : VarIndex) :
    writers (markInvariants code) index = writers code index := by
  unfold writers
  rw [markInvariants_eq, List.countP_map]
  congr 1
  funext instruction
  simp [Function.comp]

theorem isBroadcast_mark :
    isBroadcast (mark code instruction) = isBroadcast instruction := by
  unfold isBroadcast
  rw [mark_opcode]

end Mark

/-- How a program was lowered. -/
theorem lower_eq_ok (isLowered : program.lower = .ok lowered) :
    program.validate = .ok () ∧ ∃ state,
      Lowering.Chain program (Lowering.start program)
        program.code.toList state ∧
      lowered = { state.out with
        code := (markInvariants state.out.code.toList).toArray } := by
  unfold lower at isLowered
  obtain ⟨valid, isLowered⟩ := Outcome.check_eq_ok.mp isLowered
  obtain ⟨state, isState, isLowered⟩ := Outcome.bind_eq_ok.mp isLowered
  cases isLowered
  have inOrder := (validate_eq_ok.mp valid).2
  refine ⟨valid, state,
    Lowering.chain_of_foldlM (.start program) ?_ isState, rfl⟩
  exact fun instruction isInstruction => inOrder.checked isInstruction

theorem Valid.marked {written : VarIndex → Prop} (all : List Instruction)
    {code : List Instruction} (valid : program.Valid written code) :
    program.Valid written (code.map (mark all)) := by
  induction valid with
  | nil => exact .nil
  | @cons written instruction rest opcode checked reads _ induction =>
      obtain ⟨sameOpcode, sameDest, sameSrc, sameX2, sameX4⟩ :=
        mark_fields all instruction
      have sameFirst :
          (mark all instruction).firstSource = instruction.firstSource := by
        unfold Instruction.firstSource
        rw [sameSrc]
      have markedChecked : program.Checked (mark all instruction) opcode := by
        refine ⟨by rw [sameOpcode]; exact checked.found,
          by rw [sameDest, mark_target]; exact checked.dest,
          by rw [sameSrc]; exact checked.sources,
          by rw [sameX2, sameX4]; exact checked.oneFlag, ?_, ?_, ?_, ?_, ?_⟩
        · rw [mark_lanes]; exact checked.valid
        · rw [mark_target]; exact checked.target
        · rw [mark_target, mark_lanes]; exact checked.size
        · rw [sameSrc, mark_lanes]; exact checked.readable
        · rw [mark_target, sameFirst]; exact checked.moves
      refine .cons markedChecked (by rw [sameSrc]; exact reads) ?_
      rw [mark_target]
      exact induction

/-- The code of a lowered program is made in pieces, one for each instruction,
and marked. -/
theorem lower_code (isLowered : program.lower = .ok lowered) :
    ∃ pieces : List (List Instruction),
      List.Forall₂ Lowering.Piece program.code.toList pieces ∧
        lowered.code.toList = pieces.flatten.map (mark pieces.flatten) := by
  obtain ⟨_, state, chain, rfl⟩ := lower_eq_ok isLowered
  obtain ⟨pieces, grows, arePieces⟩ := chain.pieces
  have isCode : state.out.code.toList = pieces.flatten := by
    rw [grows.code]
    simp [Lowering.start]
  refine ⟨pieces, arePieces, ?_⟩
  rw [List.toList_toArray, isCode, markInvariants_eq]

/-- A lowered program passes its check. -/
theorem validate_lower (isLowered : program.lower = .ok lowered) :
    lowered.validate = .ok () := by
  obtain ⟨pieces, arePieces, isCode⟩ := lower_code isLowered
  obtain ⟨valid, state, chain, rfl⟩ := lower_eq_ok isLowered
  obtain ⟨notEmpty, inOrder⟩ := validate_eq_ok.mp valid
  obtain ⟨_, ordered⟩ := chain.ordered (.start program) inOrder
  rw [validate_eq_ok]
  constructor
  · rw [isCode]
    generalize program.code.toList = code at *
    cases arePieces with
    | nil => exact absurd rfl notEmpty
    | @cons _ piece _ _ isPiece _ => simp [isPiece.1]
  · rw [List.toList_toArray, markInvariants_eq]
    have isExtended : state.out.Extends { state.out with
        code := (markInvariants state.out.code.toList).toArray } := ⟨fun _ _ =>
          rfl, rfl⟩
    exact (ordered.valid.extended isExtended).marked _

/-- An instruction of a lowered program is marked when it is the only writer of
a broadcast, or when the instruction it was made from is marked. -/
theorem invariant_of_piece {pieces : List (List Instruction)}
    {piece : List Instruction} {made : Instruction}
    (isCode : lowered.code.toList = pieces.flatten.map (mark pieces.flatten))
    (isPiece : Lowering.Piece instruction piece) (isMade : made ∈ piece) :
    (mark pieces.flatten made).invariant = true ↔
      (isBroadcast (mark pieces.flatten made) = true ∧
        writers lowered.code.toList (mark pieces.flatten made).target = 1) ∨
      (instruction.invariant = true ∧
        (mark pieces.flatten made).opcode = instruction.opcode) := by
  rw [isCode, ← markInvariants_eq, writers_marked, mark_target,
    isBroadcast_mark, mark_opcode, mark_invariant, isPiece.2 made isMade]
  exact or_comm

/-- Which instructions of a lowered program are marked: those that are the only
writer of a broadcast, and those that carry the opcode and the mark of the
instruction they were made from. -/
theorem lower_marks (isLowered : program.lower = .ok lowered) :
    ∃ pieces : List (List Instruction), lowered.code.toList = pieces.flatten ∧
      List.Forall₂ (fun instruction piece => ∀ entry ∈ piece,
        entry.invariant = true ↔
          (isBroadcast entry = true ∧
            writers lowered.code.toList entry.target = 1) ∨
          (instruction.invariant = true ∧ entry.opcode = instruction.opcode))
        program.code.toList pieces := by
  obtain ⟨pieces, arePieces, isCode⟩ := lower_code isLowered
  refine ⟨pieces.map (List.map (mark pieces.flatten)),
    by rw [isCode, List.map_flatten], ?_⟩
  rw [List.forall₂_map_right_iff]
  refine arePieces.imp fun instruction piece isPiece entry isEntry => ?_
  obtain ⟨made, isMade, rfl⟩ := List.mem_map.mp isEntry
  exact invariant_of_piece isCode isPiece isMade

/-- A program that marks a broadcast by hand whose temporary another instruction
writes too. -/
def markedTwice : Except ProgramError Program :=
  build "k" [.declare 0 1, .declare 32 1, .declareConst 16 1 5,
    .declareConst 17 1 7,
    .append ⟨"loadpb", Instruction.flagInvariant, [32], [16]⟩,
    .append ⟨"storeb", 0, [0], [32]⟩, .append ⟨"loadpb", 0, [32], [17]⟩]

/-- The marked instructions whose destination another instruction writes too. -/
def staleMarks (program : Program) : List Instruction :=
  program.code.toList.filter fun entry =>
    entry.invariant && writers program.code.toList entry.target != 1

theorem staleMarks_markedTwice :
    (markedTwice >>= lower).map staleMarks =
      .ok [⟨"loadpb", Instruction.flagInvariant, [32], [16]⟩] := by
  decide +kernel

theorem lower_marks_markedTwice :
    ∃ program lowered : Program, markedTwice = .ok program ∧
      program.lower = .ok lowered ∧
      ∃ pieces : List (List Instruction), lowered.code.toList = pieces.flatten ∧
        List.Forall₂ (fun instruction piece => ∀ entry ∈ piece,
          entry.invariant = true ↔
            (isBroadcast entry = true ∧
              writers lowered.code.toList entry.target = 1) ∨
            (instruction.invariant = true ∧ entry.opcode = instruction.opcode))
          program.code.toList pieces := by
  obtain ⟨lowered, isOk, _⟩ := Outcome.map_eq_ok.mp staleMarks_markedTwice
  obtain ⟨program, isBuilt, isLowered⟩ := Outcome.bind_eq_ok.mp isOk
  exact ⟨program, lowered, isBuilt, isLowered, lower_marks isLowered⟩

/-- Marks set by hand stay although they are wrong. -/
theorem not_lower_marks_sole :
    ¬ ∀ program lowered : Program, program.Built → program.lower = .ok lowered →
      ∀ entry ∈ lowered.code.toList, entry.invariant = true ↔
        isBroadcast entry = true ∧
          writers lowered.code.toList entry.target = 1 := by
  intro all
  obtain ⟨lowered, isOk, isStale⟩ := Outcome.map_eq_ok.mp staleMarks_markedTwice
  obtain ⟨program, isBuilt, isLowered⟩ := Outcome.bind_eq_ok.mp isOk
  have inCode :
      (⟨"loadpb", Instruction.flagInvariant, [32], [16]⟩ : Instruction) ∈
      staleMarks lowered := by
    rw [isStale]
    exact List.mem_cons_self
  obtain ⟨isEntry, stale⟩ := List.mem_filter.mp inCode
  have sole := (all program lowered (built_of_build isBuilt) isLowered _
    isEntry).mp (by decide)
  rw [sole.2] at stale
  exact absurd stale (by decide)

theorem exists_of_forall₂ {α β : Type} {related : α → β → Prop} {first : List α}
    {second : List β} (all : List.Forall₂ related first second) {value : β}
    (isValue : value ∈ second) : ∃ partner ∈ first, related partner value := by
  induction all with
  | nil => cases isValue
  | cons here _ induction =>
      rcases List.mem_cons.mp isValue with rfl | isLater
      · exact ⟨_, List.mem_cons_self, here⟩
      · obtain ⟨partner, isPartner, isRelated⟩ := induction isLater
        exact ⟨partner, List.mem_cons_of_mem _ isPartner, isRelated⟩

/-- Without marks in the program, the marked instructions are the only writers
of broadcasts. -/
theorem lower_invariant_iff (isLowered : program.lower = .ok lowered)
    (plain : ∀ instruction ∈ program.code.toList, instruction.invariant = false)
    {entry : Instruction} (isEntry : entry ∈ lowered.code.toList) :
    entry.invariant = true ↔
      isBroadcast entry = true ∧
        writers lowered.code.toList entry.target = 1 := by
  obtain ⟨pieces, arePieces, isCode⟩ := lower_code isLowered
  have isMarked := isEntry
  rw [isCode] at isMarked
  obtain ⟨made, isMade, rfl⟩ := List.mem_map.mp isMarked
  obtain ⟨piece, isPiece, inPiece⟩ := List.mem_flatten.mp isMade
  obtain ⟨instruction, isInstruction, pieceOf⟩ :=
    exists_of_forall₂ arePieces isPiece
  rw [invariant_of_piece isCode pieceOf inPiece,
    plain instruction isInstruction]
  simp

end Program

end LaneKernel
