import LaneKernel.Proofs.Simulation

/-!
# Walks over rows

A kernel goes over the bytes of a row in chunks: first the bytes that do not
fill a vector, then one vector after the other.  A walk through a list of visits
says in which order a run comes to the chunks, what it may touch on each and on
the way between them, and what it has touched when it leaves.  The same
definition serves runs of labelled code and steps of the machine.
-/

namespace LaneKernel

/-- A chunk of the bytes of a row. -/
structure Visit where
  row : Nat
  start : Nat
  length : Nat
deriving DecidableEq, Repr

namespace Visit

/-- Whole vectors of a row, one after the other. -/
def blocks (row start : Nat) : Nat → List Visit
  | 0 => []
  | count + 1 => ⟨row, start, 16⟩ :: blocks row (start + 16) count

/-- The chunks of a row: the bytes that do not fill a vector, then the
vectors. -/
def ofRow (bytes row : Nat) : List Visit :=
  ⟨row, 0, bytes % 16⟩ :: blocks row (bytes % 16) (bytes / 16)

/-- The chunks of `count` rows from a row on. -/
def ofRows (bytes row : Nat) : Nat → List Visit
  | 0 => []
  | count + 1 => ofRow bytes row ++ ofRows bytes (row + 1) count

/-- The places of a chunk in its row. -/
def places (visit : Visit) : List Nat := List.range' visit.start visit.length

theorem blocks_add (row start first second : Nat) :
    blocks row start (first + second) =
      blocks row start first ++ blocks row (start + 16 * first) second := by
  induction first generalizing start with
  | zero => simp [blocks]
  | succ first induction =>
      rw [Nat.add_right_comm, blocks, blocks, induction, List.cons_append]
      congr 3
      omega

theorem places_blocks (row start count : Nat) :
    (blocks row start count).flatMap places =
      List.range' start (16 * count) := by
  induction count generalizing start with
  | zero => rfl
  | succ count induction =>
      rw [blocks, List.flatMap_cons, induction, places, List.range'_append_1]
      congr 1
      change 16 + 16 * count = 16 * (count + 1)
      omega

/-- The chunks of a row take every byte of it once, in order. -/
theorem places_ofRow (bytes row : Nat) :
    (ofRow bytes row).flatMap places = List.range bytes := by
  have split := Nat.div_add_mod bytes 16
  rw [ofRow, List.flatMap_cons, places_blocks, places]
  have joined :=
    List.range'_append_1 (s := 0) (m := bytes % 16) (n := 16 * (bytes / 16))
  rw [Nat.zero_add] at joined
  rw [joined, List.range_eq_range']
  congr 1
  omega

theorem of_mem_blocks {row start count : Nat} {visit : Visit}
    (isVisit : visit ∈ blocks row start count) :
    visit.row = row ∧ visit.length = 16 ∧
      visit.start + 16 ≤ start + 16 * count := by
  induction count generalizing start with
  | zero => cases isVisit
  | succ count induction =>
      rcases List.mem_cons.mp isVisit with rfl | isLater
      · exact ⟨rfl, rfl, by simp only; omega⟩
      · obtain ⟨isRow, isLength, inside⟩ := induction isLater
        exact ⟨isRow, isLength, by omega⟩

theorem of_mem_ofRow {bytes row : Nat} {visit : Visit}
    (isVisit : visit ∈ ofRow bytes row) :
    visit.row = row ∧ visit.start + visit.length ≤ bytes ∧
      visit.length ≤ 16 := by
  have split := Nat.div_add_mod bytes 16
  rcases List.mem_cons.mp isVisit with rfl | isBlock
  · refine ⟨rfl, ?_, ?_⟩ <;> simp only <;> omega
  · obtain ⟨isRow, isLength, inside⟩ := of_mem_blocks isBlock
    exact ⟨isRow, by omega, by omega⟩

theorem of_mem_ofRows {bytes row count : Nat} {visit : Visit}
    (isVisit : visit ∈ ofRows bytes row count) :
    (row ≤ visit.row ∧ visit.row < row + count) ∧
      visit.start + visit.length ≤ bytes ∧
      visit.length ≤ 16 := by
  induction count generalizing row with
  | zero => cases isVisit
  | succ count induction =>
      rcases List.mem_append.mp isVisit with isHere | isLater
      · obtain ⟨isRow, inside, short⟩ := of_mem_ofRow isHere
        exact ⟨⟨by omega, by omega⟩, inside, short⟩
      · obtain ⟨⟨low, high⟩, inside, short⟩ := induction isLater
        exact ⟨⟨by omega, by omega⟩, inside, short⟩

theorem mem_ofRows {bytes row first count : Nat} {visit : Visit}
    (isVisit : visit ∈ ofRow bytes row)
    (inside : first ≤ row ∧ row < first + count) :
    visit ∈ ofRows bytes first count := by
  induction count generalizing first with
  | zero => omega
  | succ count induction =>
      rw [ofRows, List.mem_append]
      by_cases isFirst : row = first
      · exact .inl (isFirst ▸ isVisit)
      · exact .inr (induction (by omega))

end Visit

/-- A way to run states under a permission until the state and the accesses meet
a condition. -/
abbrev Runner (State : Type) := Permission → (State → List Access → Prop) →
    State → Prop

/-- What is asked of a walk. -/
structure Guide (State : Type) where
  /-- The bytes that may be touched on the way between two chunks. -/
  between : Permission
  /-- The bytes that may be touched on a chunk. -/
  during : Visit → Permission
  /-- The state in which a chunk is entered. -/
  enter : Visit → State → Prop
  /-- The accesses on a chunk. -/
  covers : Visit → List Access → Prop
  finish : State → Prop

/-- A run visits chunks in order. -/
def Guide.Walks {State : Type} (guide : Guide State) (run : Runner State) :
    List Visit → State → Prop
  | [], state => run guide.between (fun last _ => guide.finish last) state
  | visit :: visits, state =>
      run guide.between (fun first _ => guide.enter visit first ∧
        run (guide.during visit)
          (fun next log => guide.covers visit log ∧ guide.Walks run visits next)
          first) state

/-- A walk is followed step by step by states of another kind. -/
theorem Guide.Walks.follow {State Other : Type} {first : Guide State}
    {second : Guide Other} {run : Runner State} {follow : Runner Other}
    {related : State → Other → Prop}
    (mono : ∀ may goal further state, follow may goal state →
      (∀ last log, goal last log → further last log) → follow may further state)
    (between : ∀ goal state other, related state other →
      run first.between goal state →
      follow second.between (fun last log => ∃ middle, related middle last ∧
        goal middle log) other)
    {visits : List Visit}
    (during : ∀ visit ∈ visits, ∀ goal state other, related state other →
      run (first.during visit) goal state →
      follow (second.during visit)
        (fun last log => ∃ middle, related middle last ∧ goal middle log) other)
    (enter : ∀ visit state other, related state other →
      first.enter visit state →
      second.enter visit other)
    (covers : ∀ visit log, first.covers visit log → second.covers visit log)
    (finish : ∀ state other, related state other → first.finish state →
      second.finish other)
    {state : State} {other : Other} (isRelated : related state other)
    (walks : first.Walks run visits state) :
    second.Walks follow visits other := by
  induction visits generalizing state other with
  | nil =>
      apply mono _ _ _ _ (between _ state other isRelated walks)
      rintro last log ⟨middle, isMiddle, finished⟩
      exact finish middle last isMiddle finished
  | cons visit visits induction =>
      apply mono _ _ _ _ (between _ state other isRelated walks)
      rintro start log ⟨begun, isBegun, entered, inside⟩
      refine ⟨enter visit begun start isBegun entered, ?_⟩
      apply mono _ _ _ _
        (during visit List.mem_cons_self _ begun start isBegun inside)
      rintro last accesses ⟨middle, isMiddle, covered, further⟩
      exact ⟨covers visit accesses covered,
        induction (fun later isLater =>
          during later (List.mem_cons_of_mem _ isLater)) isMiddle
          further⟩

/-- Runs of labelled code, with the code that is ahead as part of the state. -/
def Leading (target : Label → Fragment) (mayTrap : Prop) :
    Runner (Fragment × Core) :=
  fun may goal state =>
    Leads ⟨target, may, mayTrap⟩ (fun ahead core log => goal (ahead, core) log)
      state.1 state.2 []

section Leading

variable {target : Label → Fragment} {mayTrap : Prop}
  {guide : Guide (Fragment × Core)} {visits : List Visit} {code : Fragment}
  {core : Core}

/-- A run between two chunks comes to where a walk goes on. -/
def Guide.Onward (guide : Guide (Fragment × Core)) (target : Label → Fragment)
    (mayTrap : Prop) (visits : List Visit) (code : Fragment)
    (core : Core) : Prop :=
  ∀ log, Leads ⟨target, guide.between, mayTrap⟩
    (fun ahead next _ =>
      guide.Walks (Leading target mayTrap) visits (ahead, next)) code core log

theorem Leads.fromLog {setting : Setting} {goal : Fragment → Core → Prop}
    {rest : Fragment}
    (leads : Leads setting (fun ahead last _ => goal ahead last) rest core [])
    (log : List Access) :
    Leads setting (fun ahead last _ => goal ahead last) rest core log := by
  apply (leads.behindLog log).mono
  rintro ahead last accesses ⟨_, _, reached⟩
  exact reached

namespace Guide.Onward

theorem walks (onward : guide.Onward target mayTrap visits code core) :
    guide.Walks (Leading target mayTrap) visits (code, core) := by
  cases visits with
  | nil =>
      apply (onward []).bind
      intro ahead middle accesses walks
      exact walks.fromLog accesses
  | cons visit visits =>
      apply (onward []).bind
      intro ahead middle accesses walks
      exact walks.fromLog accesses

theorem of_walks
    (walks : guide.Walks (Leading target mayTrap) visits (code, core)) :
    guide.Onward target mayTrap visits code core :=
  fun _ => .done walks

theorem finish (finished : guide.finish (code, core)) :
    guide.Onward target mayTrap [] code core :=
  of_walks (.done finished)

theorem visit {visit : Visit} (entered : guide.enter visit (code, core))
    (inside : Leads ⟨target, guide.during visit, mayTrap⟩
      (fun ahead next log => guide.covers visit log ∧
        guide.Onward target mayTrap visits ahead next) code core []) :
    guide.Onward target mayTrap (visit :: visits) code core := by
  apply of_walks
  refine .done ⟨entered, ?_⟩
  apply inside.mono
  rintro ahead next log ⟨covered, onward⟩
  exact ⟨covered, onward.walks⟩

theorem before {goal : Fragment → Core → Prop}
    (leads : Leads ⟨target, guide.between, mayTrap⟩
      (fun ahead next _ => goal ahead next) code core [])
    (continues : ∀ ahead next, goal ahead next →
      guide.Onward target mayTrap visits ahead next) :
    guide.Onward target mayTrap visits code core := by
  intro log
  apply (leads.fromLog log).bind
  intro ahead next accesses reached
  exact continues ahead next reached accesses

end Guide.Onward

theorem Guide.Walks.extend {further : Guide (Fragment × Core)}
    (between : ∀ write address, guide.between write address →
      further.between write address)
    (during : ∀ visit ∈ visits, ∀ write address,
      guide.during visit write address → further.during visit write address)
    (enter : ∀ visit state, guide.enter visit state → further.enter visit state)
    (covers : ∀ visit log, guide.covers visit log → further.covers visit log)
    (finish : ∀ ahead last, guide.finish (ahead, last) →
      further.Onward target mayTrap [] ahead last)
    (walks : guide.Walks (Leading target mayTrap) visits (code, core)) :
    further.Onward target mayTrap visits code core := by
  induction visits generalizing code core with
  | nil =>
      apply Guide.Onward.before (Leads.weaken walks between)
      exact finish
  | cons visit visits induction =>
      apply Guide.Onward.before (Leads.weaken walks between)
      rintro ahead begun ⟨entered, inside⟩
      apply Guide.Onward.visit (enter visit _ entered)
      apply (Leads.weaken inside (during visit List.mem_cons_self)).mono
      rintro after next log ⟨covered, more⟩
      exact ⟨covers visit log covered,
        induction (fun other isOther =>
          during other (List.mem_cons_of_mem _ isOther)) more⟩

end Leading

end LaneKernel
