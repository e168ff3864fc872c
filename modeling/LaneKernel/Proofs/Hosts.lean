import LaneKernel.Proofs.Arrangements
import LaneKernel.Proofs.Calls
import LaneKernel.Proofs.Encodable

/-!
# Routines among other code

A routine that was assembled with other code around it, and what the machine
does from the first word of the routine to the word behind the last one.
`Entered.executes` turns a run of the labelled code of the routine into one of
the machine.
-/

namespace LaneKernel

theorem Fragment.inward_of_fits {code : Fragment}
    (fits : code.AllFit code.marks) : code.Inward :=
  fun _ _ _ _ isBranch => (fits _ isBranch).2

/-- Assembled code with a routine in it. -/
structure Host (routine : Fragment) where
  front : Fragment
  back : Fragment
  options : CompileOptions
  code : MachineCode
  assembled : Compiler.assemble (front ++ (routine ++ back)) options = .ok code

/-- The machine went through a routine, with accesses that are permitted only,
and stands behind it.  Any machine with the core does so if its step limit
leaves room. -/
def Core.Executes (core : Core) (routine : Fragment) (may : Permission)
    (reached : Core → Prop) : Prop :=
  ∃ count last logged, Core.Steps (Access.Stays may) count core [] last logged ∧
    (∀ machine : Machine, machine.core = core → machine.Unlimited count →
      machine.runBatch count = (machine.later last count, none)) ∧
    last.pc = core.pc + UInt32.ofNat (4 * routine.words) ∧
      last.npc = last.pc + 4 ∧ reached last

theorem Core.Executes.mono {core : Core} {routine : Fragment} {may : Permission}
    {reached also : Core → Prop} (executes : core.Executes routine may reached)
    (weaker : ∀ last, reached last → also last) :
    core.Executes routine may also :=
  executes.imp fun _ => .imp fun _ =>
    .imp fun _ ⟨steps, batch, pc, npc, isReached⟩ =>
    ⟨steps, batch, pc, npc, weaker _ isReached⟩

/-- A machine whose step limit leaves room takes the steps in one batch. -/
theorem Machine.runBatch_eq_later {allowed : Access → Prop} {count : Nat}
    {machine : Machine} {last : Core} {log logged : List Access}
    (steps : Core.Steps allowed count machine.core log last logged)
    (unlimited : machine.Unlimited count) :
    machine.runBatch count = (machine.later last count, none) := by
  induction count generalizing machine log with
  | zero =>
      cases steps
      rw [later_zero]
      rfl
  | succ count induction =>
      cases steps with
      | step fetched decoded _ performed further =>
          rw [Nat.add_comm] at unlimited
          unfold runBatch
          simp only [limitReached_of_unlimited unlimited, Bool.false_eq_true,
            if_false, step_of_steps fetched decoded performed]
          rw [induction further unlimited.later, later_later, Nat.add_comm]

namespace Host

variable {routine : Fragment} {host : Host routine} {entry : UInt32}
  {core : Core}

/-- The addresses of the code. -/
def region (host : Host routine) (entry : UInt32) :
    Region := ⟨entry, host.code.bytes.size⟩

/-- The machine is about to execute the routine of code that was loaded at an
address.  No word of the routine stands at the halt address. -/
structure Entered (host : Host routine) (entry : UInt32) (core : Core) :
    Prop where
  loaded : CodeAt core.ram entry host.code.bytes
  pc : core.pc = entry + UInt32.ofNat (4 * host.front.words)
  npc : core.npc = core.pc + 4
  running : Machine.haltAddress ∉ (⟨core.pc, 4 * routine.words⟩ : Region)

/-- Four words behind a routine, as every kernel has them, keep it away from the
halt address. -/
theorem running_of_back (loaded : CodeAt core.ram entry host.code.bytes)
    (pc : core.pc = entry + UInt32.ofNat (4 * host.front.words))
    (enough : 4 ≤ host.back.words) :
    Machine.haltAddress ∉ (⟨core.pc, 4 * routine.words⟩ : Region) := by
  intro halts
  obtain ⟨labels, placed, _⟩ := Compiler.assemble_placed host.assembled
  obtain ⟨_, _, _, _, _, _, bound⟩ := placed.words_from (List.nil_append _).symm
  rw [Fragment.words_append, Fragment.words_append, Fragment.words_nil] at bound
  obtain ⟨index, below, isHalt⟩ := Region.mem_iff_exists.mp halts
  change index < 4 * routine.words at below
  rw [pc, UInt32.add_assoc, ← UInt32.ofNat_add] at isHalt
  -- The halt address is sixteen bytes from the end of the address space, and so
  -- many follow.
  have address := loaded.toNat_address
    (show 4 * host.front.words + index < host.code.bytes.size by omega)
  have aligned := loaded.aligned
  have within := loaded.below
  rw [← isHalt] at address
  change 0xfffffff0 = _ at address
  omega

theorem Entered.stretch (entered : host.Entered entry core)
    (inward : routine.Inward) :
    ∃ labels, Stretch host.front routine host.back host.code.bytes labels
      entry := by
  obtain ⟨labels, placed, _⟩ := Compiler.assemble_placed host.assembled
  refine ⟨labels, placed, inward,
    fun position above below _ halts => entered.running ?_⟩
  have isAddress : Machine.haltAddress =
      core.pc + UInt32.ofNat (position - 4 * host.front.words) := by
    rw [← halts, entered.pc, UInt32.add_assoc, ← UInt32.ofNat_add,
      Nat.add_sub_cancel' above]
  rw [isAddress]
  exact Region.mem_of_lt (by omega)

/-- The machine executes a routine as the runs of its labelled code describe
it. -/
theorem Entered.executes (entered : host.Entered entry core)
    (inward : routine.Inward) {may : Permission} {reached : Core → Prop}
    (safe : ∀ address ∈ host.region entry, ¬ may true address)
    (leads : ∀ target rest, Resolves target (routine ++ rest) →
      Leads ⟨target, may, False⟩ (Reaching rest fun last _ => reached last)
        (routine ++ rest) core [])
    (anywhere : ∀ last pc, reached last → reached (last.setPc pc)) :
    core.Executes routine may reached := by
  obtain ⟨labels, stretch⟩ := entered.stretch inward
  have outside :
      ∀ index < host.code.bytes.size, ¬ may true (entry + UInt32.ofNat index) :=
    fun index below => safe _ (Region.mem_of_lt below)
  have starts : core.setPc
      (entry + UInt32.ofNat (4 * (host.front ++ []).words)) = core := by
    rw [List.append_nil, ← entered.pc, Core.setPc, ← entered.npc]
  -- The runs are told with the labels of the routine alone: it branches to no
  -- other.
  have alone := leads routine.behind []
  rw [List.append_nil] at alone
  have simulated :=
    Leads.simulateWithin stretch rfl outside (alone stretch.resolves) [] rfl
    entered.loaded
  rw [starts] at simulated
  rcases simulated with
    ⟨count, front, rest, last, logged, isCode, _, ⟨rfl, isReached⟩, steps⟩ |
    ⟨impossible, _⟩
  · rw [List.append_nil] at isCode
    refine ⟨count, _, logged, steps, ?_, ?_, rfl, anywhere last _ isReached⟩
    · rintro machine rfl unlimited
      exact Machine.runBatch_eq_later steps unlimited
    · change entry + UInt32.ofNat (4 * front.words) = _
      rw [← isCode, Fragment.words_append, Nat.mul_add, UInt32.ofNat_add,
        ← UInt32.add_assoc, ← entered.pc]
  · exact impossible.elim

/-- Code that is closed has a host if its labels are in the table: four words
that do nothing stand behind it. -/
theorem exists_of_closed {first last : Int} {room : Nat}
    (closed : routine.Closed first last room)
    (inTable : 0 ≤ first ∧ first ≤ last ∧ last ≤ Label.capacity)
    (short : room ≤ 2 ^ 14) :
    ∃ host : Host routine, host.front = [] ∧ host.back.words = 4 ∧
      host.code.bytes.size = 4 * routine.words + 16 := by
  obtain ⟨nops, fourWords, plain⟩ : ∃ nops : Fragment, nops.words = 4 ∧
    nops.Plain 4 := by
    refine ⟨[.nop, .nop, .nop, .nop].map .insn, rfl,
      @Fragment.Plain.insns [.nop, .nop, .nop, .nop] ?_⟩
    simp [Insn.encodable]
  have both := closed.append (.of_plain plain last) inTable.2.1
    (Int.le_refl last)
  have valid : ∀ label ∈ (routine ++ nops).marks, Label.valid label = true := by
    intro label isMark
    have bounds := (both.marks label).mp isMark
    unfold Label.valid
    rw [Bool.and_eq_true, decide_eq_true_eq, decide_eq_true_eq]
    exact ⟨inTable.1.trans bounds.1, bounds.2.trans_le inTable.2.2⟩
  have complete : (routine ++ nops).Complete :=
    Fragment.complete_of_fits both.fits both.nodup valid
      ((Nat.add_le_add_right both.short 16).trans (by omega))
  obtain ⟨code, assembled⟩ := complete.assembles {}
  obtain ⟨_, _, isSize⟩ := Compiler.assemble_placed assembled
  refine ⟨⟨[], nops, {}, code, assembled⟩, rfl, fourWords, ?_⟩
  rw [isSize rfl, Fragment.words_append, fourWords]
  omega

/-- Memory with the code behind data. -/
def packed (host : Host routine) (base : UInt32) (data : Array UInt8) : Ram :=
  ⟨base, data ++ host.code.bytes⟩

section Packed

variable {base : UInt32} {data : Array UInt8}
  (below : base.toNat + (data.size + host.code.bytes.size) < 2 ^ 32)

include below

theorem holds_packed : (host.packed base data).Holds base data := by
  have holds := @Ram.holds_part base #[] data host.code.bytes (by simp; omega)
    (by simp; omega)
  rw [Array.empty_append] at holds
  rwa [show UInt32.ofNat (#[] : Array UInt8).size = 0 from rfl, UInt32.add_zero]
    at holds

theorem entered_packed (wordBase : base.toNat % 4 = 0)
    (wordData : data.size % 4 = 0) (enough : 4 ≤ host.back.words) (core : Core)
    (isRam : core.ram = host.packed base data) :
    host.Entered (base + UInt32.ofNat data.size)
      (core.setPc (base + UInt32.ofNat data.size +
        UInt32.ofNat (4 * host.front.words))) := by
  have holds := @Ram.holds_part base data host.code.bytes #[] (by simp; omega)
    (by simp; omega)
  rw [Array.append_empty] at holds
  have loaded : CodeAt core.ram (base + UInt32.ofNat data.size)
      host.code.bytes := by
    rw [isRam]
    refine holds.codeAt ?_ ?_
    · change (data ++ host.code.bytes).size < 2 ^ 32
      rw [Array.size_append]
      omega
    · rw [UInt32.toNat_add, UInt32.toNat_ofNat']
      omega
  exact ⟨loaded, rfl, rfl, running_of_back loaded rfl enough⟩

end Packed

end Host

end LaneKernel
