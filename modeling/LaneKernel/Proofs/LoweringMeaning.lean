import LaneKernel.Proofs.Lanes
import LaneKernel.Proofs.LoweredPrograms
import LaneKernel.Proofs.References

/-!
# Lowering preserves meaning

A program and its lowered program run in step.  Between two instructions of the
program the memories are equal, the temporaries of the program hold the same
values, and what the lowering keeps for later is in its own temporaries: the
current element of a source array, a constant or parameter in every lane.
-/

namespace LaneKernel

open Reference Reference.Site

namespace Lowering

/-- The state of the lowered program follows that of the program. -/
structure Follows (site : Site) (state : Lowering) (original lowered : State) :
    Prop where
  memory : lowered.memory = original.memory
  temps : ∀ index, (site.program.var index).role = .temp →
    value lowered index = value original index
  loaded : ∀ index temp, (index, temp) ∈ state.loaded →
    original.memory.load (site.address index 0)
      (site.program.var index).size.toNat = .ok (value lowered temp)
  broadcast : ∀ index size lanes temp,
    ((index, size, lanes), temp) ∈ state.broadcast →
      value lowered temp = Lane.replicate (site.scalar index) size lanes

/-- What the code in front of an operation leaves: operands in temporaries, or
the fault of the first operand that cannot be read. -/
inductive Prepared (site : Site) (state next : Lowering)
    (original lowered : State) (temps : List VarIndex) :
    Except OutsideMemory (List UInt64) → State × Option Reference.Error →
      Prop where
  | ready {after : State} {words : List UInt64} :
      Follows site next original after → temps.map (value after) = words →
      (∀ other, (state.out.var other).declared = true →
        value after other = value lowered other) →
      Prepared site state next original lowered temps (.ok words) (after, none)
  | stopped {after : State} {cause : OutsideMemory} {fault : Reference.Error} :
      after.memory = original.memory →
      Prepared site state next original lowered temps (.error cause)
        (after, some fault)

variable {site : Site} {final : Program} {state middle next : Lowering}
  {original lowered : State} {index temp : VarIndex} {size lanes width : Nat}
  {opcode : Opcode} {instruction : Instruction}
  {emitted more : List Instruction}

theorem value_setFree {word : UInt64} (free : state.Free temp)
    (declared : (state.out.var index).declared = true) :
    value (setValue lowered temp word) index = value lowered index := by
  rw [value_setValue free.inTable, if_neg]
  rintro rfl
  rw [free.undeclared] at declared
  cases declared

theorem Follows.setFree (isSound : Sound site.program state)
    (free : state.Free temp) (follows : Follows site state original lowered)
    (word : UInt64) :
    Follows site state original (setValue lowered temp word) where
  memory := memory_setValue.trans follows.memory
  temps other isTemp := by
    have declared : (site.program.var other).declared = true :=
      Program.declared_eq_true.mpr (by rw [isTemp]; decide)
    rw [value_setFree free
      (by rw [isSound.isExtended.var other declared]; exact declared)]
    exact follows.temps other isTemp
  loaded other kept isLoaded := by
    rw [value_setFree free (isSound.loaded other kept isLoaded).2.declared]
    exact follows.loaded other kept isLoaded
  broadcast other otherSize otherLanes kept isKept := by
    rw [value_setFree free
      (isSound.broadcast other otherSize otherLanes kept isKept).2.declared]
    exact follows.broadcast other otherSize otherLanes kept isKept

/-- A new temporary may keep what a source array holds. -/
theorem Follows.keepLoad (isSound : Sound site.program state)
    (free : state.Free temp) (follows : Follows site state original lowered)
    {word : UInt64}
    (isLoaded : original.memory.load (site.address index 0)
      (site.program.var index).size.toNat = .ok word) :
    Follows site (state.withLoad index temp width) original
      (setValue lowered temp word) := by
  have kept := follows.setFree isSound free word
  refine ⟨kept.memory, kept.temps, ?_, kept.broadcast⟩
  intro other held isHeld
  rcases List.mem_cons.mp isHeld with isNew | isEarlier
  · cases isNew
    rw [isLoaded, value_setValue free.inTable, if_pos rfl]
  · exact kept.loaded other held isEarlier

/-- A new temporary may keep a constant or parameter in all lanes. -/
theorem Follows.keepBroadcast (isSound : Sound site.program state)
    (free : state.Free temp) (follows : Follows site state original lowered) :
    Follows site (state.withBroadcast index temp size lanes) original
      (setValue lowered temp
        (Lane.replicate (site.scalar index) size lanes)) := by
  have kept := follows.setFree isSound free
    (Lane.replicate (site.scalar index) size lanes)
  refine ⟨kept.memory, kept.temps, kept.loaded, ?_⟩
  intro other otherSize otherLanes held isHeld
  rcases List.mem_cons.mp isHeld with isNew | isEarlier
  · cases isNew
    rw [value_setValue free.inTable, if_pos rfl]
  · exact kept.broadcast other otherSize otherLanes held isEarlier

theorem Follows.setDeclared (isSound : Sound site.program state)
    (follows : Follows site state original lowered)
    (declared : (site.program.var index).declared = true) (word : UInt64) :
    Follows site state (setValue original index word)
      (setValue lowered index word) := by
  have inTable := Program.bounds_of_declared declared
  have elsewhere : ∀ other, (site.program.var other).declared = false →
      value (setValue lowered index word) other = value lowered other := by
    intro other new
    rw [value_setValue inTable, if_neg]
    rintro rfl
    rw [declared] at new
    cases new
  refine ⟨by simpa using follows.memory, ?_, ?_, ?_⟩
  · intro other isTemp
    rw [value_setValue inTable, value_setValue inTable,
      follows.temps other isTemp]
  · intro source temp isLoaded
    rw [elsewhere temp (isSound.loaded source temp isLoaded).2.new,
      memory_setValue]
    exact follows.loaded source temp isLoaded
  · intro scalar size lanes temp isKept
    rw [elsewhere temp (isSound.broadcast scalar size lanes temp isKept).2.new]
    exact follows.broadcast scalar size lanes temp isKept

theorem runCode_write {site : Site} {start : State} {name : String}
    {flags : UInt8} {src : List VarIndex}
    (found : Opcode.lookup? name = some opcode)
    (isTemp : (site.program.var temp).role = .temp)
    (isSize : (site.program.var temp).size = ↑width) (rest : List Instruction) :
    site.runCode start (resolve (⟨name, flags, [temp], src⟩ :: rest)) =
      match site.result start opcode ⟨name, flags, [temp], src⟩ with
      | .ok word =>
        site.runCode (setValue start temp (Lane.truncate word width))
        (resolve rest)
      | .error fault =>
          (start, some (.access ⟨name, flags, [temp], src⟩ site.row site.element
            fault)) := by
  rw [resolve_cons found, runCode, step]
  cases site.result start opcode ⟨name, flags, [temp], src⟩ with
  | error fault => rfl
  | ok word =>
      have isTarget :
          (Instruction.mk name flags [temp] src).target = temp := rfl
      rw [isTarget]
      dsimp only
      rw [write_temp isTemp, isSize, Int.toNat_natCast]

/-- A new load reads what the program reads where it uses the array. -/
theorem Follows.result_load (follows : Follows site state original lowered)
    (isExtended : site.program.Extends final)
    (isSource : (site.program.var index).role = .source)
    (isWidth : (site.program.var index).size = ↑width) (name : String)
    (flags : UInt8) :
    (site.within final).result lowered ⟨.load, width⟩
      ⟨name, flags, [temp], [index]⟩ =
        original.memory.load (site.address index 0) width := by
  have declared : (site.program.var index).declared = true :=
    Program.declared_eq_true.mpr (by rw [isSource]; decide)
  have sameVar :
      (site.within final).program.var index = site.program.var index :=
    isExtended.var index declared
  change (site.within final).read lowered index _ _ = _
  rw [read_source (by rw [sameVar, isSource]),
    address_within isExtended declared, follows.memory, sameVar, isWidth,
    Int.toNat_natCast]

theorem result_broadcast (isExtended : site.program.Extends final)
    (isScalar : (site.program.var index).role.isScalar = true)
    (declared : (site.program.var index).declared = true)
    (isLanes : lanes = 1 ∨ lanes = 2 ∨ lanes = 4) (name : String) :
    (site.within final).result lowered ⟨.loadParam, size⟩
        ⟨name, Instruction.laneFlags lanes, [temp], [index]⟩ =
      .ok (Lane.replicate (site.scalar index) size lanes) := by
  have sameVar :
      (site.within final).program.var index = site.program.var index :=
    isExtended.var index declared
  change (site.within final).read lowered index _ _ = _
  rw [read_scalar (by rw [sameVar, isScalar]),
    scalar_within isExtended declared,
    (Instruction.lanes_laneFlags _ _ _ isLanes).1]

section Operands

variable (isSound : Sound site.program state)
  (follows : Follows site state original lowered)
  (isExtended : next.out.Extends final)

include isSound follows isExtended

theorem Operand.prepares {place : Nat}
    (isLanes : lanes = 1 ∨ lanes = 2 ∨ lanes = 4)
    (valid : Lane.validSize ↑(size * lanes) = true)
    (readable : site.program.Readable opcode (size * lanes) place index)
    (operand : Operand site.program size lanes state index temp next)
    (grows : Grows state next emitted) :
    Prepared site state next original lowered [temp]
      ((site.read original index size lanes).map fun word => [word])
      ((site.within final).runCode lowered (resolve emitted)) := by
  have declared : (site.program.var index).declared = true :=
    Program.declared_eq_true.mpr readable.usable.1
  have small : size * lanes ≤ 8 := by
    rcases Lane.validSize_iff.mp valid with h | h | h | h <;> omega
  cases operand with
  | temp isTemp =>
      obtain rfl := grows.unique (.refl state)
      rw [read_temp isTemp]
      exact .ready follows
        (congrArg (fun word => [word]) (follows.temps index isTemp)) fun _ _ =>
        rfl
  | loaded isSource isLoaded =>
      obtain rfl := grows.unique (.refl state)
      rw [read_source isSource, follows.loaded index temp isLoaded]
      exact .ready follows rfl fun _ _ => rfl
  | filled isScalar isKept =>
      obtain rfl := grows.unique (.refl state)
      rw [read_scalar isScalar,
        ← follows.broadcast index size lanes temp isKept]
      exact .ready follows rfl fun _ _ => rfl
  | load isSource _ free =>
      obtain rfl := grows.unique (.withLoad free index (size * lanes))
      have isWidth := readable.size.resolve_left (by rw [isSource]; decide)
      have nextSound := isSound.withLoad free valid isSource isWidth
      have allExtended : site.program.Extends final :=
        nextSound.isExtended.trans isExtended
      obtain ⟨isRole, isSize⟩ :=
        (nextSound.loaded index temp List.mem_cons_self).2.within isExtended
      rw [runCode_write (Opcode.lookup?_load valid) isRole
        (isSize.trans isWidth),
        follows.result_load allExtended isSource isWidth, read_source isSource,
        isWidth, Int.toNat_natCast]
      cases isLoaded : original.memory.load (site.address index 0)
        (size * lanes) with
      | error cause => exact .stopped follows.memory
      | ok word =>
          dsimp only
          rw [(FlatMemory.fits_load small isLoaded).truncate_eq]
          refine .ready (follows.keepLoad isSound free ?_) ?_ ?_
          · rw [isWidth, Int.toNat_natCast, isLoaded]
          · simp [value_setValue free.inTable]
          · exact fun other isDeclared => value_setFree free isDeclared
  | broadcast isScalar _ free =>
      obtain rfl := grows.unique (.withBroadcast free index size lanes)
      have nextSound :
          Sound site.program (state.withBroadcast index temp size lanes) :=
        isSound.withBroadcast free valid isScalar
      have allExtended : site.program.Extends final :=
        nextSound.isExtended.trans isExtended
      obtain ⟨isRole, isSize⟩ :=
        (nextSound.broadcast index size lanes temp List.mem_cons_self).2.within
          isExtended
      have positive : 0 < size ∧ 0 < lanes := by
        rcases Lane.validSize_iff.mp valid with h | h | h | h <;>
          exact ⟨Nat.pos_of_ne_zero fun none => by simp [none] at h,
            Nat.pos_of_ne_zero fun none => by simp [none] at h⟩
      rw [runCode_write
        (Opcode.lookup?_loadParam (Lane.validSize_of_width isLanes valid))
        isRole isSize, result_broadcast allExtended isScalar declared isLanes,
          read_scalar isScalar]
      dsimp only
      rw [(Lane.fits_replicate _ positive.1 positive.2).truncate_eq]
      refine .ready (follows.keepBroadcast isSound free) ?_ ?_
      · simp [value_setValue free.inTable]
      · exact fun other isDeclared => value_setFree free isDeclared

omit isSound follows isExtended in
theorem Prepared.cons {first : Except OutsideMemory UInt64}
    {rest : Except OutsideMemory (List UInt64)} {temps : List VarIndex}
    {front back : List (Opcode × Instruction)} {site' : Site}
    (isExtended : state.out.Extends middle.out)
    (head : Prepared site state middle original lowered [temp]
      (first.map fun word => [word]) (site'.runCode lowered front))
    (tempDeclared : (middle.out.var temp).declared = true)
    (tail : ∀ after, Follows site middle original after →
      Prepared site middle next original after temps rest
        (site'.runCode after back)) :
    Prepared site state next original lowered (temp :: temps)
      (do let word ← first; let words ← rest; return word :: words)
      (site'.runCode lowered (front ++ back)) := by
  rw [Site.runCode_append]
  generalize site'.runCode lowered front = outcome at head
  cases first with
  | error cause =>
      cases head with
      | stopped same => exact .stopped same
  | ok word =>
      cases head with
      | @ready after _ follows isWord kept =>
          have later := tail after follows
          dsimp only
          generalize site'.runCode after back = final at later
          cases later with
          | stopped same => exact .stopped same
          | @ready last words lastFollows areWords lastKept =>
              refine .ready lastFollows ?_ ?_
              · rw [List.map_cons, areWords, lastKept temp tempDeclared]
                exact congrArg (· :: words) (List.singleton_inj.mp isWord)
              · intro other declared
                rw [lastKept other
                  (by rw [isExtended.var other declared]; exact declared)]
                exact kept other declared

theorem Operands.prepares {indices temps : List VarIndex} (place : Nat)
    (isLanes : lanes = 1 ∨ lanes = 2 ∨ lanes = 4)
    (valid : Lane.validSize ↑(size * lanes) = true)
    (readable : ∀ number index, indices[number]? = some index →
      site.program.Readable opcode (size * lanes) (place + number) index)
    (operands : Operands site.program size lanes state indices temps next)
    (grows : Grows state next emitted) :
    Prepared site state next original lowered temps
      (indices.mapM fun index => site.read original index size lanes)
      ((site.within final).runCode lowered (resolve emitted)) := by
  induction operands generalizing place emitted lowered with
  | nil =>
      obtain rfl := grows.unique (.refl _)
      exact .ready follows rfl fun _ _ => rfl
  | @cons state middle next index temp rest temps first others induction =>
      obtain ⟨front, growsFront, _⟩ := first.grows
      obtain ⟨back, growsBack, _⟩ := others.grows
      obtain rfl := grows.unique (growsFront.trans growsBack)
      have firstReadable := readable 0 index rfl
      have middleSound := first.sound isSound valid firstReadable
      rw [List.mapM_cons, resolve_append]
      refine .cons growsFront.isExtended (first.prepares isSound follows
        (growsBack.isExtended.trans isExtended) isLanes valid firstReadable
        growsFront)
        (Program.declared_eq_true.mpr
          (by rw [first.role isSound valid firstReadable]; decide))
        fun after afterFollows => ?_
      refine induction middleSound afterFollows isExtended (place + 1) ?_
        growsBack
      intro number other isOther
      rw [Nat.add_assoc, Nat.add_comm 1]
      exact readable (number + 1) other
        (by rw [List.getElem?_cons_succ]; exact isOther)

end Operands

/-- What is kept of source arrays is not changed by a store to bytes of its
own. -/
theorem Follows.store (isSound : Sound site.program state)
    (follows : Follows site state original lowered) {dest : VarIndex}
    (word : UInt64) (apart : ∀ source temp, (source, temp) ∈ state.loaded →
      site.Apart dest source) :
    Follows site state
      ⟨original.values, (original.memory.store (site.address dest 0)
        (site.program.var dest).size.toNat word).1⟩
      ⟨lowered.values, (original.memory.store (site.address dest 0)
        (site.program.var dest).size.toNat word).1⟩ where
  memory := rfl
  temps := follows.temps
  loaded source temp isLoaded := by
    have small := Lane.toNat_le_of_valid
      (isSound.loaded source temp isLoaded).2.valid
    refine (FlatMemory.load_store small ?_).trans
      (follows.loaded source temp isLoaded)
    intro place above below sourceAbove sourceBelow
    exact apart source temp isLoaded place ⟨above, below⟩
      ⟨sourceAbove, sourceBelow⟩
  broadcast := follows.broadcast

theorem runCode_store {site : Site} {start : State} {name : String}
    {flags : UInt8} {dest : VarIndex}
    (found : Opcode.lookup? name = some opcode) (isStore : opcode.kind = .store)
    (isTemp : (site.program.var temp).role = .temp)
    (isDest : (site.program.var dest).role = .dest)
    (isSize : (site.program.var dest).size = ↑width) :
    site.runCode start (resolve [⟨name, flags, [dest], [temp]⟩]) =
      (⟨start.values, (start.memory.store (site.address dest 0) width
          (Lane.truncate (value start temp) width)).1⟩,
        (start.memory.store (site.address dest 0) width
          (Lane.truncate (value start temp) width)).2.map fun fault =>
            .access ⟨name, flags, [dest], [temp]⟩ site.row site.element
              fault) := by
  have isResult : site.result start opcode ⟨name, flags, [dest], [temp]⟩ =
      .ok (value start temp) := by
    unfold result
    rw [isStore]
    exact read_temp isTemp _ _
  have isTarget : (Instruction.mk name flags [dest] [temp]).target = dest := rfl
  rw [resolve_cons found, runCode, step, isResult, isTarget]
  dsimp only
  rw [write_dest isDest, isSize, Int.toNat_natCast]
  cases (start.memory.store (site.address dest 0) width
    (Lane.truncate (value start temp) width)).2 <;> rfl

section Instructions

variable (isSound : Sound site.program state)
  (follows : Follows site state original lowered)

include isSound follows

theorem Follows.stores {name : String} (flags : UInt8) {dest : VarIndex}
    (word : UInt64) (isExtended : state.out.Extends final)
    (found : Opcode.lookup? name = some opcode) (isStore : opcode.kind = .store)
    (isTemp : (state.out.var temp).role = .temp)
    (isDest : (site.program.var dest).role = .dest)
    (isSize : (site.program.var dest).size = ↑width)
    (isWord : Lane.truncate (value lowered temp) width =
      Lane.truncate word width)
    (apart : ∀ source temp, (source, temp) ∈ state.loaded →
      site.Apart dest source) :
    Alike (Follows site state) (site.write original dest word)
      ((site.within final).runCode lowered
        (resolve [⟨name, flags, [dest], [temp]⟩])) := by
  have declared : (site.program.var dest).declared = true :=
    Program.declared_eq_true.mpr (by rw [isDest]; decide)
  have allExtended := isSound.isExtended.trans isExtended
  have sameDest :
      (site.within final).program.var dest = site.program.var dest :=
    allExtended.var dest declared
  have sameTemp : (site.within final).program.var temp = state.out.var temp :=
    isExtended.var temp (Program.declared_eq_true.mpr (by rw [isTemp]; decide))
  rw [runCode_store found isStore (by rw [sameTemp, isTemp])
    (by rw [sameDest, isDest]) (by rw [sameDest, isSize]),
    address_within allExtended declared, follows.memory, isWord,
    write_dest isDest, isSize, Int.toNat_natCast]
  have stored := follows.store isSound (Lane.truncate word width) apart
  rw [isSize, Int.toNat_natCast] at stored
  cases (original.memory.store (site.address dest 0) width
    (Lane.truncate word width)).2 with
  | none => exact .onward stored
  | some fault => exact .stopped stored.memory

/-- The result of an instruction that computes the same in both programs. -/
theorem Result.alike {src : List VarIndex}
    {outcome : Except OutsideMemory UInt64}
    (isExtended : next.out.Extends final)
    (checked : site.program.Checked instruction opcode)
    (same : ∀ dest, (site.within final).result lowered opcode
      ⟨instruction.opcode, instruction.flags, [dest], src⟩ = outcome)
    (apart : ∀ source temp, (source, temp) ∈ state.loaded →
      (site.program.var instruction.target).role = .dest →
        site.Apart instruction.target source)
    (result : Result site.program instruction (opcode.size * instruction.lanes)
      src state next)
    (grows : Grows state next emitted) :
    Alike (Follows site next)
      (match outcome with
        | .ok word => site.write original instruction.target word
        | .error fault => (original, some fault))
      ((site.within final).runCode lowered (resolve emitted)) := by
  have declared := checked.target_declared
  cases result with
  | temp isTemp =>
      obtain rfl := grows.unique (.emit _ _ _ _)
      have allExtended :=
        isSound.isExtended.trans ⟨isExtended.var, isExtended.twoD⟩
      have sameTarget : (site.within final).program.var instruction.target =
        site.program.var instruction.target := allExtended.var _ declared
      rw [runCode_write checked.found (by rw [sameTarget, isTemp])
        (by rw [sameTarget, checked.size]), same]
      cases outcome with
      | error fault => exact .stopped follows.memory
      | ok word =>
          dsimp only
          rw [write_temp isTemp, checked.size, Int.toNat_natCast]
          have kept := follows.setDeclared isSound declared
            (Lane.truncate word (opcode.size * instruction.lanes))
          exact .onward ⟨kept.memory, kept.temps, kept.loaded, kept.broadcast⟩
  | @array temp isDest free =>
      obtain rfl := grows.unique
        (((Grows.withTemp free _).trans (.emit _ _ _ _)).trans (.emit _ _ _ _))
      have fresh := isSound.fresh free checked.valid
      have tempExtended :
          (state.withTemp temp (opcode.size * instruction.lanes)).out.Extends
          final :=
        ⟨isExtended.var, isExtended.twoD⟩
      obtain ⟨isTemp, isWidth⟩ := fresh.within tempExtended
      rw [List.nil_append, List.singleton_append,
        runCode_write checked.found isTemp isWidth, same]
      cases outcome with
      | error fault => exact .stopped follows.memory
      | ok word =>
          have kept := follows.setFree isSound free
            (Lane.truncate word (opcode.size * instruction.lanes))
          have allKept :
              Follows site (state.withTemp temp
              (opcode.size * instruction.lanes)) original
            (setValue lowered temp
              (Lane.truncate word (opcode.size * instruction.lanes))) :=
            ⟨kept.memory, kept.temps, kept.loaded, kept.broadcast⟩
          have alike := allKept.stores (isSound.withTemp free _) 0 word
            tempExtended (Opcode.lookup?_store checked.valid) rfl fresh.role
              isDest checked.size (by
              rw [value_setValue free.inTable, if_pos rfl]
              exact Lane.truncate_truncate _ _)
            fun source temp isLoaded => apart source temp isLoaded isDest
          exact alike.mono fun first second related =>
            ⟨related.memory, related.temps, related.loaded, related.broadcast⟩

omit isSound in
theorem Follows.result_move (isExtended : site.program.Extends final)
    (checked : site.program.Checked instruction opcode)
    (isMove : opcode.isLoad = true ∨ opcode.kind = .loadParam)
    (dest : VarIndex) :
    (site.within final).result lowered opcode
        ⟨instruction.opcode, instruction.flags, [dest], instruction.src⟩ =
      site.result original opcode instruction := by
  have declared : ∀ place index, instruction.src[place]? = some index →
      (site.program.var index).declared = true := fun place index isIndex =>
    Program.declared_eq_true.mpr (checked.readable place index isIndex).usable.1
  have firstDeclared := declared 0 _ checked.first
  have sameFirst : (site.within final).program.var instruction.firstSource =
    site.program.var instruction.firstSource := isExtended.var _ firstDeclared
  unfold Site.result
  cases isKind : opcode.kind with
  | load =>
      have moves := checked.source_of_load (.inl isKind)
      change (site.within final).read lowered instruction.firstSource _ _ =
        site.read original instruction.firstSource _ _
      rw [read_source moves, read_source (by rw [sameFirst]; exact moves),
        address_within isExtended firstDeclared, follows.memory, sameFirst]
  | loadParam =>
      have moves := checked.scalar_of_loadParam isKind
      change (site.within final).read lowered instruction.firstSource _ _ =
        site.read original instruction.firstSource _ _
      rw [read_scalar moves, read_scalar (by rw [sameFirst]; exact moves),
        scalar_within isExtended firstDeclared]
      rfl
  | loadOffset =>
      have hasSecond : ∃ second, instruction.src[1]? = some second := by
        have count := checked.sources
        rw [Opcode.sources, isKind] at count
        dsimp only at count
        exact ⟨_, List.getElem?_eq_getElem (show 1 < instruction.src.length by
          omega)⟩
      obtain ⟨second, isSecond⟩ := hasSecond
      have sameScalar := scalar_within isExtended (declared 1 second isSecond)
      change (lowered.memory.load
        ((site.within final).address instruction.firstSource
          (Lane.signExtend
            ((site.within final).scalar (instruction.src[1]?.getD 0)) 4).toInt)
          ((site.within final).program.var
            instruction.firstSource).size.toNat) =
        original.memory.load (site.address instruction.firstSource
          (Lane.signExtend (site.scalar (instruction.src[1]?.getD 0)) 4).toInt)
          (site.program.var instruction.firstSource).size.toNat
      rw [isSecond, Option.getD_some, sameScalar,
        address_within isExtended firstDeclared, sameFirst, follows.memory]
  | store | arith op => simp [Opcode.isLoad, isKind] at isMove

omit isSound follows in
/-- Once the operands are prepared, only what is written with them counts;
operands that cannot be read stop both programs. -/
theorem Prepared.written {words : Except OutsideMemory (List UInt64)}
    {result : Except OutsideMemory UInt64} {combine : List UInt64 → UInt64}
    {target : VarIndex} {temps : List VarIndex}
    {front back : List (Opcode × Instruction)} {within : Site}
    {related : State → State → Prop}
    (prepared : Prepared site state middle original lowered temps words
      (within.runCode lowered front))
    (isResult : result = words.map combine)
    (onward : ∀ after, Follows site middle original after →
      Alike related (site.write original target
        (combine (temps.map (value after)))) (within.runCode after back)) :
    Alike related
      (match result with
        | .ok word => site.write original target word
        | .error fault => (original, some fault))
      (within.runCode lowered (front ++ back)) := by
  rw [isResult, Site.runCode_append]
  generalize within.runCode lowered front = outcome at prepared
  cases prepared with
  | stopped same => exact .stopped same
  | @ready after _ afterFollows areWords _ =>
      rw [← areWords]
      exact onward after afterFollows

/-- A store of the program and the code that it is lowered to. -/
theorem Operand.alike_store
    (operand : Operand site.program opcode.size instruction.lanes state
      instruction.firstSource temp next)
    (grows : Grows state next emitted) (isExtended : next.out.Extends final)
    (checked : site.program.Checked instruction opcode)
    (isStore : opcode.kind = .store)
    (apart : ∀ source temp, (source, temp) ∈ next.loaded →
      site.Apart instruction.target source) :
    Alike (Follows site next) (site.step original opcode instruction)
      ((site.within final).runCode lowered (resolve (emitted ++
        [⟨instruction.opcode, instruction.flags, [instruction.target],
          [temp]⟩]))) := by
  have readable := checked.readable 0 _ checked.first
  have isResult : site.result original opcode instruction =
      ((site.read original instruction.firstSource opcode.size
        instruction.lanes).map fun word => [word]).map (List.headD · 0) := by
    unfold result
    rw [isStore]
    dsimp only
    cases site.read original instruction.firstSource opcode.size
      instruction.lanes <;> rfl
  have isDest := checked.dest_of_store isStore
  rw [resolve_append]
  refine Prepared.written
    (operand.prepares isSound follows isExtended instruction.lanes_cases
      checked.valid readable grows) isResult fun after afterFollows => ?_
  exact afterFollows.stores (operand.sound isSound checked.valid readable)
    instruction.flags _ isExtended checked.found isStore
      (operand.role isSound checked.valid readable) isDest
    checked.size rfl apart

/-- An operation of the program and the code that it is lowered to. -/
theorem Operands.alike_arith {op : ArithOp} {temps : List VarIndex}
    {back : List Instruction}
    (operands : Operands site.program opcode.size instruction.lanes state
      instruction.src temps middle)
    (growsFront : Grows state middle emitted)
    (result : Result site.program instruction (opcode.size * instruction.lanes)
      temps middle next)
    (growsBack : Grows middle next back) (isExtended : next.out.Extends final)
    (checked : site.program.Checked instruction opcode)
    (isArith : opcode.kind = .arith op)
    (apart : ∀ source temp, (source, temp) ∈ next.loaded →
      (site.program.var instruction.target).role = .dest →
        site.Apart instruction.target source) :
    Alike (Follows site next) (site.step original opcode instruction)
      ((site.within final).runCode lowered (resolve (emitted ++ back))) := by
  have middleSound :=
    operands.sound isSound 0 checked.valid checked.readableFrom
  have middleExtended := growsBack.isExtended.trans isExtended
  obtain ⟨count, roles⟩ :=
    operands.roles 0 isSound checked.valid checked.readableFrom
  rw [resolve_append]
  refine Prepared.written (operands.prepares isSound follows middleExtended 0
    instruction.lanes_cases checked.valid checked.readableFrom growsFront)
    (result_arith isArith checked.sources) fun after afterFollows => ?_
  have sameResult : ∀ dest, (site.within final).result after opcode
      ⟨instruction.opcode, instruction.flags, [dest], temps⟩ =
      .ok (combine op opcode.size instruction.lanes
        (temps.map (value after))) := by
    intro dest
    rw [result_arith isArith (count.trans checked.sources), readTemps]
    · rfl
    · intro temp isTemp
      have isRole := roles temp isTemp
      change (final.var temp).role = .temp
      rw [middleExtended.var temp
        (Program.declared_eq_true.mpr (by rw [isRole]; decide))]
      exact isRole
  exact result.alike middleSound afterFollows isExtended checked sameResult
    (fun source temp isLoaded => apart source temp (growsBack.loaded isLoaded))
    growsBack

/-- A lowered instruction does what the instruction does. -/
theorem Lowers.alike (isExtended : next.out.Extends final)
    (checked : site.program.Checked instruction opcode)
    (apart : ∀ source temp, (source, temp) ∈ next.loaded →
      (site.program.var instruction.target).role = .dest →
        site.Apart instruction.target source)
    (lowers : Lowers site.program instruction opcode state next)
    (grows : Grows state next emitted) :
    Alike (Follows site next) (site.step original opcode instruction)
      ((site.within final).runCode lowered (resolve emitted)) := by
  cases lowers with
  | move isMove result =>
      have allExtended : site.program.Extends final :=
        isSound.isExtended.trans (grows.isExtended.trans isExtended)
      exact result.alike isSound follows isExtended checked
        (follows.result_move allExtended checked isMove)
        (fun source temp isLoaded => apart source temp (grows.loaded isLoaded))
          grows
  | @store middle temp isStore operand =>
      obtain ⟨front, growsFront, _⟩ := operand.grows
      obtain rfl := grows.unique (growsFront.trans (.emit _ _ _ _))
      have isDest := checked.dest_of_store isStore
      have alike := operand.alike_store isSound follows growsFront
        ⟨isExtended.var, isExtended.twoD⟩ checked isStore
        fun source temp isLoaded => apart source temp isLoaded isDest
      exact alike.mono fun first second related =>
        ⟨related.memory, related.temps, related.loaded, related.broadcast⟩
  | @arith middle _ op temps isArith operands result =>
      obtain ⟨front, growsFront, _⟩ := operands.grows
      obtain ⟨back, growsBack, _⟩ :=
        result.piece checked (by rw [isArith]; simp)
      obtain rfl := grows.unique (growsFront.trans growsBack)
      exact operands.alike_arith isSound follows growsFront result growsBack
        isExtended checked isArith apart

end Instructions

theorem Chain.grows {program : Program} {code : List Instruction}
    (chain : Chain program state code next) :
    ∃ emitted, Grows state next emitted := by
  obtain ⟨pieces, grows, _⟩ := chain.pieces
  exact ⟨_, grows⟩

/-- Lowered code does what the code does. -/
theorem Chain.alike {code : List Instruction}
    (follows : Follows site state original lowered)
    (isSound : Sound site.program state) (isExtended : next.out.Extends final)
    (apart : ∀ source temp, (source, temp) ∈ next.loaded → ∀ instruction ∈ code,
      (site.program.var instruction.target).role = .dest →
        site.Apart instruction.target source)
    (chain : Chain site.program state code next)
    (grows : Grows state next emitted) :
    Alike (Follows site next) (site.runCode original (resolve code))
      ((site.within final).runCode lowered (resolve emitted)) := by
  induction chain generalizing emitted original lowered with
  | nil =>
      obtain rfl := grows.unique (.refl _)
      exact .onward follows
  | cons checked lowers rest induction =>
      obtain ⟨front, growsFront, _⟩ := lowers.piece checked
      obtain ⟨back, growsBack⟩ := rest.grows
      obtain rfl := grows.unique (growsFront.trans growsBack)
      have first := lowers.alike isSound follows
        (growsBack.isExtended.trans isExtended) checked
        (fun source temp isLoaded isDest =>
          apart source temp (growsBack.loaded isLoaded) _ List.mem_cons_self
            isDest) growsFront
      rw [resolve_cons checked.found, resolve_append, Site.runCode_append,
        runCode]
      generalize (site.within final).runCode lowered (resolve front) =
        outcome at first
      generalize site.step original _ _ = stepped at first
      cases first with
      | stopped same => exact .stopped same
      | onward related =>
          refine induction related (lowers.sound isSound checked) isExtended ?_
            growsBack
          exact fun source temp isLoaded instruction isInstruction =>
            apart source temp isLoaded instruction
              (List.mem_cons_of_mem _ isInstruction)

theorem Operand.mem_loaded {program : Program} {source kept : VarIndex}
    (operand : Operand program size lanes state index temp next)
    (isLoaded : (source, kept) ∈ next.loaded) :
    (source, kept) ∈ state.loaded ∨ source = index := by
  cases operand with
  | temp _ | loaded _ _ | filled _ _ | broadcast _ _ _ => exact .inl isLoaded
  | load _ _ _ =>
      rcases List.mem_cons.mp isLoaded with isNew | isEarlier
      · cases isNew
        exact .inr rfl
      · exact .inl isEarlier

theorem Operands.mem_loaded {program : Program} {source kept : VarIndex}
    {indices temps : List VarIndex}
    (operands : Operands program size lanes state indices temps next)
    (isLoaded : (source, kept) ∈ next.loaded) :
    (source, kept) ∈ state.loaded ∨ source ∈ indices := by
  induction operands with
  | nil => exact .inl isLoaded
  | cons first _ induction =>
      rcases induction isLoaded with inMiddle | isLater
      · rcases first.mem_loaded inMiddle with isEarlier | rfl
        · exact .inl isEarlier
        · exact .inr List.mem_cons_self
      · exact .inr (List.mem_cons_of_mem _ isLater)

theorem Result.loaded_eq {program : Program} {src : List VarIndex}
    (result : Result program instruction width src state next) :
    next.loaded = state.loaded := by
  cases result <;> rfl

theorem Chain.mem_loaded {program : Program} {code : List Instruction}
    (chain : Chain program state code next) {source kept : VarIndex}
    (isLoaded : (source, kept) ∈ next.loaded) :
    (source, kept) ∈ state.loaded ∨ ∃ instruction ∈ code, ∃ opcode,
      program.Checked instruction opcode ∧ opcode.kind ≠ .loadOffset ∧
        source ∈ instruction.src := by
  induction chain with
  | nil => exact .inl isLoaded
  | @cons state middle next instruction rest opcode checked lowers _
      induction =>
      rcases induction isLoaded with inMiddle | ⟨later, isLater, isRead⟩
      · cases lowers with
        | move _ result =>
            rw [result.loaded_eq] at inMiddle
            exact .inl inMiddle
        | store isStore operand =>
            refine (operand.mem_loaded inMiddle).imp id fun isFirst =>
              ⟨instruction, List.mem_cons_self, opcode, checked,
                by rw [isStore]; decide, ?_⟩
            rw [isFirst]
            exact List.mem_of_getElem? checked.first
        | arith isArith operands result =>
            rw [result.loaded_eq] at inMiddle
            exact (operands.mem_loaded inMiddle).imp id fun isSource =>
              ⟨instruction, List.mem_cons_self, opcode, checked,
                by rw [isArith]; simp, isSource⟩
      · exact .inr ⟨later, List.mem_cons_of_mem _ isLater, isRead⟩

end Lowering

namespace Reference

/-- A mark changes nothing in a run. -/
theorem runCode_mark (site : Site) (all code : List Instruction)
    (state : State) :
    Alike Eq (site.runCode state (resolve code))
      (site.runCode state (resolve (code.map (Program.mark all)))) := by
  induction code generalizing state with
  | nil => exact .onward rfl
  | cons instruction rest induction =>
      cases found : Opcode.lookup? instruction.opcode with
      | none =>
          have isRest : resolve (instruction :: rest) = resolve rest := by
            unfold resolve
            rw [List.filterMap_cons, found]
            rfl
          have isMarked :
              resolve ((instruction :: rest).map (Program.mark all)) =
              resolve (rest.map (Program.mark all)) := by
            unfold resolve
            rw [List.map_cons, List.filterMap_cons, Program.mark_opcode, found]
            rfl
          rw [isRest, isMarked]
          exact induction state
      | some opcode =>
          have sameStep :
              site.step state opcode (Program.mark all instruction) =
              site.step state opcode instruction := by
            unfold Site.step Site.result Instruction.firstSource
              Instruction.source?
            rw [Program.mark_target, Program.mark_lanes, Program.mark_src]
          have foundMarked :
              Opcode.lookup? (Program.mark all instruction).opcode =
                some opcode := by
            rw [Program.mark_opcode]
            exact found
          rw [List.map_cons, resolve_cons found, resolve_cons foundMarked,
            runCode, runCode, sameStep]
          rcases site.step state opcode instruction with ⟨next, _ | fault⟩
          · exact induction next
          · exact .stopped rfl

/-- Some instruction of the program reads the element of an array. -/
def ReadsArray (site : Site) (index : VarIndex) (distance : Int) : Prop :=
  ∃ entry ∈ resolveCode site.program, site.Reads entry.1 entry.2 index distance

/-- Some instruction of the program writes the element of an array. -/
def WritesArray (site : Site) (index : VarIndex) : Prop :=
  ∃ entry ∈ resolveCode site.program, site.Writes entry.2 index

theorem mem_resolve {code : List Instruction} {instruction : Instruction}
    {opcode : Opcode} (isInstruction : instruction ∈ code)
    (found : Opcode.lookup? instruction.opcode = some opcode) :
    (opcode, instruction) ∈ resolve code :=
  List.mem_filterMap.mpr ⟨instruction, isInstruction, by rw [found]; rfl⟩

/-- What two programs agree on between elements. -/
structure Agree (program : Program) (first second : State) : Prop where
  memory : second.memory = first.memory
  temps : ∀ index, (program.var index).role = .temp →
    Site.value second index = Site.value first index

theorem Alike.trans_eq {α β γ : Type} {related : State → State → Prop}
    {first : State × Option α} {second : State × Option β}
    {third : State × Option γ} (front : Alike related first second)
    (behind : Alike Eq second third) : Alike related first third := by
  cases front with
  | onward isRelated =>
      cases behind with
      | onward same => exact .onward (same ▸ isRelated)
  | stopped same =>
      cases behind with
      | stopped sameMemory => exact .stopped (sameMemory.trans same)

section Lower

variable {program lowered : Program} (isLowered : program.lower = .ok lowered)

include isLowered

/-- An element of the lowered program does what the element of the program
does. -/
theorem runCode_lower {executor : Executor} {row element : Nat}
    {first second : State}
    (apart : ∀ dest source, WritesArray ⟨program, executor, row, element⟩ dest →
      ReadsArray ⟨program, executor, row, element⟩ source 0 →
      Site.Apart ⟨program, executor, row, element⟩ dest source)
    (agree : Agree program first second) :
    Alike (Agree program)
      (Site.runCode ⟨program, executor, row, element⟩
        first (resolveCode program))
      (Site.runCode ⟨lowered, executor, row, element⟩ second
        (resolveCode lowered)) := by
  obtain ⟨valid, state, chain, rfl⟩ := Program.lower_eq_ok isLowered
  have isExtended : state.out.Extends { state.out with
      code := (Program.markInvariants state.out.code.toList).toArray } := ⟨fun _
        _ => rfl, rfl⟩
  have start : Lowering.Follows ⟨program, executor, row, element⟩
      (.start program) first second :=
    ⟨agree.memory, agree.temps, nofun, nofun⟩
  have sound := chain.sound (.start program)
  obtain ⟨emitted, grows⟩ := chain.grows
  have isCode : state.out.code.toList = emitted := by
    rw [grows.code]
    rfl
  have alike := Lowering.Chain.alike start (.start program) isExtended
    (fun source temp isLoaded instruction isInstruction isDest => by
      rcases chain.mem_loaded isLoaded with
        isEarlier | ⟨reader, isReader, opcode, checked, kind, isRead⟩
      · cases isEarlier
      · obtain ⟨writing, written⟩ := (Program.validate_eq_ok.mp valid).2.checked
          isInstruction
        refine apart _ _ ⟨_, mem_resolve isInstruction written.found,
          rfl, isDest⟩ ⟨_, mem_resolve isReader checked.found, ?_⟩
        unfold Site.Reads
        cases isKind : opcode.kind with
        | loadOffset => exact absurd isKind kind
        | load | store | loadParam | arith op =>
            exact ⟨isRead, (sound.loaded source temp isLoaded).1, rfl⟩)
              chain grows
  have marked :=
    runCode_mark (Site.within ⟨program, executor, row, element⟩ { state.out with
    code := (Program.markInvariants state.out.code.toList).toArray }) emitted
      emitted second
  rw [resolveCode_eq, resolveCode_eq, List.toList_toArray,
    Program.markInvariants_eq, isCode]
  rw [isCode, Program.markInvariants_eq] at alike marked
  exact (alike.trans_eq marked).mono fun _ _ follows =>
    ⟨follows.memory, follows.temps⟩

theorem extends_lower : program.Extends lowered := by
  obtain ⟨_, state, chain, rfl⟩ := Program.lower_eq_ok isLowered
  have sound := chain.sound (.start program)
  exact ⟨sound.isExtended.var, sound.isExtended.twoD⟩

theorem isArray_lower (index : VarIndex) :
    (lowered.var index).role.isArray = (program.var index).role.isArray := by
  obtain ⟨_, state, chain, rfl⟩ := Program.lower_eq_ok isLowered
  have sound := chain.sound (.start program)
  change (state.out.var index).role.isArray = _
  cases isDeclared : (program.var index).declared with
  | true => rw [sound.isExtended.var index isDeclared]
  | false =>
      have noRole : (program.var index).role = .none := by
        simpa [Variable.declared] using isDeclared
      rw [noRole]
      cases isNew : (state.out.var index).declared with
      | true => rw [(sound.others index isDeclared isNew).1]; rfl
      | false =>
          have alsoNone : (state.out.var index).role = .none := by
            simpa [Variable.declared] using isNew
          rw [alsoNone]

theorem arrays_lower : lowered.arrays = program.arrays :=
  List.filter_congr fun index _ => isArray_lower isLowered index

theorem checkAligned_lower (executor : Executor) :
    checkAligned lowered executor = checkAligned program executor := by
  unfold checkAligned
  rw [arrays_lower isLowered]
  refine Outcome.forM_congr fun index isArray => ?_
  have isRole : (program.var index).role.isArray = true :=
    (List.mem_filter.mp isArray).2
  have declared : (program.var index).declared = true := by
    rw [Program.declared_eq_true]
    intro isNone
    rw [isNone] at isRole
    cases isRole
  rw [(extends_lower isLowered).var index declared,
    (extends_lower isLowered).twoD]

/-- A lowered program does what the program does, as long as no element of an
array that is written overlaps the same element of an array that is read. -/
theorem run_lower_of_used (executor : Executor) (memory : FlatMemory)
    (apart : ∀ row < rowCount program executor,
      ∀ element < executor.n.toInt.toNat, ∀ dest source,
        WritesArray ⟨program, executor, row, element⟩ dest →
      ReadsArray ⟨program, executor, row, element⟩ source 0 →
      Site.Apart ⟨program, executor, row, element⟩ dest source) :
    ((run lowered executor memory).2 = none ↔
      (run program executor memory).2 = none) ∧
      (run lowered executor memory).1 = (run program executor memory).1 := by
  rw [run_eq (Program.lower_eq_ok isLowered).1,
    run_eq (Program.validate_lower isLowered), checkAligned_lower isLowered]
  cases checkAligned program executor with
  | error cause => exact ⟨Iff.rfl, rfl⟩
  | ok _ =>
      have sameRows :
          rowCount lowered executor = rowCount program executor := by
        unfold rowCount
        rw [(extends_lower isLowered).twoD]
      have alike : Alike (Agree program)
          (runRows program executor (resolveCode program) executor.n.toInt.toNat
            (rowCount program executor) 0 ⟨Vector.replicate 64 0, memory⟩)
          (runRows lowered executor (resolveCode lowered) executor.n.toInt.toNat
            (rowCount program executor) 0 ⟨Vector.replicate 64 0, memory⟩) := by
        refine Alike.runRows (fun row _ rowBelow first second agree => ?_)
          ⟨rfl, fun _ _ => rfl⟩
        refine Alike.runElements
          (fun element _ below first second agree => ?_) agree
        exact runCode_lower isLowered
          (apart row (by omega) element (by omega)) agree
      rw [sameRows]
      dsimp only
      generalize runRows program executor _ _ _ _ _ = outcome at alike ⊢
      generalize runRows lowered executor _ _ _ _ _ = other at alike ⊢
      cases alike with
      | onward agree => exact ⟨Iff.rfl, agree.memory⟩
      | stopped same => exact ⟨by simp, same⟩

/-- **Lowering preserves meaning.**  Where, in every row, no element of a
destination array overlaps the same element of a source array, a lowered program
fails exactly when the program does, and both leave the same memory. -/
theorem run_lower (executor : Executor) (memory : FlatMemory)
    (apart : ∀ row < rowCount program executor,
      ∀ element < executor.n.toInt.toNat, ∀ dest source,
        (program.var dest).role = .dest → (program.var source).role = .source →
      Site.Apart ⟨program, executor, row, element⟩ dest source) :
    ((run lowered executor memory).2 = none ↔
      (run program executor memory).2 = none) ∧
      (run lowered executor memory).1 = (run program executor memory).1 := by
  refine run_lower_of_used isLowered executor memory fun row rowBelow element
    below dest source writes reads => ?_
  obtain ⟨_, _, rfl, isDest⟩ := writes
  obtain ⟨entry, isEntry, isRead⟩ := reads
  refine apart row rowBelow element below _ source isDest ?_
  have valid := (Program.validate_eq_ok.mp (Program.lower_eq_ok isLowered).1).2
  obtain ⟨found, _, isInstruction⟩ := opcode_of_mem isEntry
  obtain ⟨opcode, checked⟩ := valid.checked isInstruction
  cases found.symm.trans checked.found
  unfold Site.Reads at isRead
  cases isKind : entry.1.kind with
  | loadOffset =>
      rw [isKind] at isRead
      rw [isRead.1]
      exact checked.source_of_load (.inr isKind)
  | load | store | loadParam | arith op =>
      rw [isKind] at isRead
      exact isRead.2.1

end Lower

/-- An executor of two elements for `Program.increment`. -/
def pair : Executor :=
  { n := 2, arrays := ((Vector.replicate 64 0).set 0 0x102).set 4 0x100 }

theorem run_lower_increment :
    ∃ lowered, Program.increment.lower = .ok lowered ∧
      ((run lowered pair ⟨0x100, #[5, 6, 0, 0]⟩).2 = none ↔
        (run Program.increment pair ⟨0x100, #[5, 6, 0, 0]⟩).2 = none) ∧
      (run lowered pair ⟨0x100, #[5, 6, 0, 0]⟩).1 =
        (run Program.increment pair ⟨0x100, #[5, 6, 0, 0]⟩).1 := by
  have isLowered : Program.increment.lower =
      .ok (Program.increment.lower.toOption.getD default) :=
    Outcome.eq_ok_of_isSome (by decide +kernel)
  have apart : ∀ row < rowCount Program.increment pair,
      ∀ element < pair.n.toInt.toNat, ∀ dest ∈ Program.increment.arrays,
        ∀ source ∈ Program.increment.arrays,
      (Program.increment.var dest).role = .dest →
        (Program.increment.var source).role = .source →
      Site.Apart ⟨Program.increment, pair, row, element⟩ dest source := by
    decide +kernel
  refine ⟨_, isLowered, run_lower isLowered pair ⟨0x100, #[5, 6, 0, 0]⟩ ?_⟩
  intro row rowBelow element below dest source isDest isSource
  exact apart row rowBelow element below dest
    (Program.mem_arrays (by rw [isDest]; rfl)) source
    (Program.mem_arrays (by rw [isSource]; rfl)) isDest isSource

end Reference

end LaneKernel
