import ScriptGraph.Proofs.Node.Layout

/-!
How the flows of a node are laid out. A block moves its targets together and keeps an output free. Any
other node keeps what its outputs lead to, and moves the targets of outputs that it does not have into
its free ones, in order; what is left over finds all outputs taken. The same is computed in place, on the
flows that are being moved.
-/

set_option autoImplicit false
set_option relaxedAutoImplicit false

namespace ScriptGraph

/-! ## Filling in order -/

section Filling

open scoped List

variable {α : Type} {entry : α} {entries filled : List (Option α)} {more left : List α}

/-- More entries are taken in where there were none, and those that were present stay where they are. -/
structure Filled (entries : List (Option α)) (more : List α) (filled : List (Option α))
    (left : List α) : Prop where
  length : filled.length = entries.length
  present : (filled.filterMap id ++ left).Perm (entries.filterMap id ++ more)
  kept : ∀ (index : Nat) (entry : α), entries[index]? = some (some entry) →
    filled[index]? = some (some entry)

private theorem Filled.cons (rest : Filled entries more filled left) (first : Option α) :
    Filled (first :: entries) more (first :: filled) left := by
  refine ⟨congrArg Nat.succ rest.length, ?_, fun index entry found => ?_⟩
  · cases first with
    | none => exact rest.present
    | some kept => exact rest.present.cons kept
  · cases index with
    | zero => exact found
    | succ index => exact rest.kept index entry found

private theorem filled_of_fillFirst? (fills : fillFirst? entry entries = some filled) :
    Filled entries [entry] filled [] := by
  induction entries generalizing filled with
  | nil => cases fills
  | cons first entries ih =>
    cases first with
    | none =>
      obtain rfl := Option.some.inj fills
      refine ⟨rfl, ?_, fun index other found => ?_⟩
      · change (entry :: entries.filterMap id ++ []).Perm (entries.filterMap id ++ [entry])
        rw [List.append_nil]
        exact (List.perm_append_singleton _ _).symm
      · cases index with
        | zero => cases found
        | succ index => exact found
    | some kept =>
      obtain ⟨rest, inner, rfl⟩ := Option.map_eq_some_iff.mp fills
      exact (ih inner).cons (some kept)

theorem filled_fillAbsent (entries : List (Option α)) (more : List α) :
    Filled entries more (fillAbsent entries more).1 (fillAbsent entries more).2 := by
  induction more generalizing entries with
  | nil => exact ⟨rfl, .refl _, fun _ _ => id⟩
  | cons entry more ih =>
    rw [fillAbsent]
    cases fills : fillFirst? entry entries with
    | none =>
      have rest := ih entries
      refine ⟨rest.length, ?_, rest.kept⟩
      -- What finds no place is left over, before all that is left over after it.
      calc (fillAbsent entries more).1.filterMap id ++ entry :: (fillAbsent entries more).2
        _ ~ entry :: ((fillAbsent entries more).1.filterMap id ++ (fillAbsent entries more).2) :=
            List.perm_middle
        _ ~ entry :: (entries.filterMap id ++ more) := rest.present.cons entry
        _ ~ entries.filterMap id ++ entry :: more := List.perm_middle.symm
    | some filled =>
      have first := filled_of_fillFirst? fills
      have rest := ih filled
      refine ⟨rest.length.trans first.length, rest.present.trans ?_, fun index other found =>
        rest.kept index other (first.kept index other found)⟩
      have present := first.present
      rw [List.append_nil] at present
      calc filled.filterMap id ++ more
        _ ~ (entries.filterMap id ++ [entry]) ++ more := present.append_right more
        _ = entries.filterMap id ++ entry :: more := List.append_assoc ..

theorem fitted_of_le {length : Nat} (long : length ≤ entries.length) :
    fitted length entries = entries.take length := by
  rw [fitted, Nat.sub_eq_zero_of_le long, List.replicate_zero, List.append_nil]

theorem getElem?_fitted {length index : Nat} (inside : index < length) (entries : List (Option α)) :
    (fitted length entries)[index]? = some entries[index]?.join := by
  by_cases there : index < entries.length
  · rw [fitted, List.getElem?_append_left, List.getElem?_take_of_lt inside,
      List.getElem?_eq_getElem there, Option.join_some]
    rw [List.length_take]
    exact Nat.lt_min.mpr ⟨inside, there⟩
  · rw [fitted, List.getElem?_append_right, List.getElem?_replicate_of_lt,
      List.getElem?_eq_none (Nat.not_lt.mp there), Option.join_none]
    all_goals
      rw [List.length_take]
      omega

/-! ### The free places -/

/-- The indices of the absent entries, lowest first. -/
def vacancies (entries : List (Option α)) : List Nat :=
  (List.range entries.length).filter fun index => entries[index]?.join.isNone

theorem vacancies_cons (first : Option α) (entries : List (Option α)) :
    vacancies (first :: entries) =
      (if first.isNone then [0] else []) ++ (vacancies entries).map Nat.succ := by
  have rest : ((List.range entries.length).map Nat.succ).filter
      (fun index => (first :: entries)[index]?.join.isNone) = (vacancies entries).map Nat.succ := by
    rw [List.filter_map]
    rfl
  rw [vacancies, List.length_cons, List.range_succ_eq_map, List.filter_cons, rest]
  cases first <;> simp

theorem findIdx?_isNone (entries : List (Option α)) :
    entries.findIdx? Option.isNone = (vacancies entries).head? := by
  induction entries with
  | nil => rfl
  | cons first entries ih =>
    rw [vacancies_cons, List.findIdx?_cons, ih]
    cases first with
    | none => rfl
    | some kept => exact List.head?_map.symm

theorem mem_vacancies {index : Nat} (vacant : index ∈ vacancies entries) :
    entries[index]? = some none := by
  obtain ⟨inside, absent⟩ := List.mem_filter.mp vacant
  have there := List.getElem?_eq_getElem (List.mem_range.mp inside)
  rw [there, Option.join_some, Option.isNone_iff_eq_none] at absent
  rw [there, absent]

theorem exists_of_not_mem_vacancies {index : Nat} (inside : index < entries.length)
    (taken : index ∉ vacancies entries) : ∃ entry, entries[index]? = some (some entry) := by
  have there := List.getElem?_eq_getElem inside
  cases found : entries[index] with
  | some entry => exact ⟨entry, by rw [there, found]⟩
  | none =>
    refine absurd (List.mem_filter.mpr ⟨List.mem_range.mpr inside, ?_⟩) taken
    rw [there, found]
    rfl

theorem fillFirst?_eq_some (fills : fillFirst? entry entries = some filled) :
    ∃ index rest, vacancies entries = index :: rest ∧ vacancies filled = rest ∧
      filled = entries.set index (some entry) := by
  induction entries generalizing filled with
  | nil => cases fills
  | cons first entries ih =>
    cases first with
    | none =>
      obtain rfl := Option.some.inj fills
      exact ⟨0, _, vacancies_cons none entries, vacancies_cons (some entry) entries, rfl⟩
    | some kept =>
      obtain ⟨within, fillsWithin, rfl⟩ := Option.map_eq_some_iff.mp fills
      obtain ⟨index, rest, here, later, rfl⟩ := ih fillsWithin
      refine ⟨index + 1, rest.map Nat.succ, ?_, ?_, rfl⟩
      · rw [vacancies_cons, here]
        rfl
      · rw [vacancies_cons, later]
        rfl

theorem fillFirst?_eq_none (fills : fillFirst? entry entries = none) : vacancies entries = [] := by
  induction entries with
  | nil => rfl
  | cons first entries ih =>
    cases first with
    | none => cases fills
    | some kept =>
      rw [vacancies_cons, ih (Option.map_eq_none_iff.mp fills)]
      rfl

theorem fillAbsent_vacancies (entries : List (Option α)) (more : List α) :
    (fillAbsent entries more).2 = more.drop (vacancies entries).length ∧
      ∀ place index : Nat, (vacancies entries)[place]? = some index →
        (fillAbsent entries more).1[index]? = some more[place]? := by
  induction more generalizing entries with
  | nil =>
    refine ⟨List.drop_nil.symm, ?_⟩
    intro place index vacant
    exact mem_vacancies (List.mem_of_getElem? vacant)
  | cons entry more ih =>
    cases fills : fillFirst? entry entries with
    | none =>
      have full : vacancies entries = [] := fillFirst?_eq_none fills
      have left := (ih entries).1
      rw [full] at left ⊢
      simp only [fillAbsent, fills]
      refine ⟨congrArg (entry :: ·) left, ?_⟩
      intro place index vacant
      cases vacant
    | some filled =>
      obtain ⟨first, rest, here, later, rfl⟩ := fillFirst?_eq_some fills
      obtain ⟨left, placed⟩ := ih (entries.set first (some entry))
      rw [later] at left placed
      rw [here]
      simp only [fillAbsent, fills]
      refine ⟨left, ?_⟩
      intro place index vacant
      cases place with
      | zero =>
        -- What has been filled is present from then on, and stays.
        obtain rfl : first = index := Option.some.inj vacant
        have free : entries[first]? = some none := mem_vacancies (here ▸ List.mem_cons_self)
        have inside : first < entries.length := (List.getElem?_eq_some_iff.mp free).1
        exact (filled_fillAbsent _ more).kept first entry (List.getElem?_set_self inside)
      | succ place => exact placed place index vacant

theorem fillAbsent_full (remains : (fillAbsent entries more).2 ≠ []) :
    ∀ entry ∈ (fillAbsent entries more).1, entry.isSome := by
  intro entry listed
  obtain ⟨left, placed⟩ := fillAbsent_vacancies entries more
  have filled := filled_fillAbsent entries more
  obtain ⟨index, found⟩ := List.mem_iff_getElem?.mp listed
  by_cases vacant : index ∈ vacancies entries
  · obtain ⟨place, there⟩ := List.mem_iff_getElem?.mp vacant
    have vacancy : place < (vacancies entries).length := (List.getElem?_eq_some_iff.mp there).1
    have enough : (vacancies entries).length < more.length := by
      refine Nat.lt_of_not_le fun short => remains ?_
      rw [left, List.drop_eq_nil_of_le short]
    rw [placed place index there] at found
    rw [← Option.some.inj found, List.getElem?_eq_getElem (by omega)]
    rfl
  · have inside : index < entries.length := by
      rw [← filled.length]
      exact (List.getElem?_eq_some_iff.mp found).1
    obtain ⟨kept, taken⟩ := exists_of_not_mem_vacancies inside vacant
    rw [filled.kept index kept taken] at found
    rw [← Option.some.inj found]
    rfl

theorem fillAbsent_cons (entries : List (Option α)) (entry : α) (more : List α) :
    fillAbsent entries (entry :: more) =
      ((fillAbsent (fillAbsent entries [entry]).1 more).1,
        (fillAbsent entries [entry]).2 ++ (fillAbsent (fillAbsent entries [entry]).1 more).2) := by
  cases fills : fillFirst? entry entries with
  | none => simp only [fillAbsent, fills, List.cons_append, List.nil_append]
  | some filled => simp only [fillAbsent, fills, List.nil_append]

end Filling

/-! ## Laying flows out -/

namespace Node

variable {d : Definition} {flows : List (Option Uid)} {target : Uid}

/-- The outputs that lead nowhere, lowest first. -/
def freePorts (d : Definition) (flows : List (Option Uid)) : List Nat :=
  (List.range d.flowArity).filter fun port => flows[port]?.join.isNone

/-- The targets of outputs that a node does not have, in order. -/
def surplus (d : Definition) (flows : List (Option Uid)) : List Uid :=
  (flows.drop d.flowArity).filterMap id

theorem vacancies_fitted (d : Definition) (flows : List (Option Uid)) :
    vacancies (fitted d.flowArity flows) = freePorts d flows := by
  rw [vacancies, length_fitted]
  refine List.filter_congr ?_
  intro port listed
  rw [getElem?_fitted (List.mem_range.mp listed), Option.join_some]

theorem surplus_of_le (short : flows.length ≤ d.flowArity) : surplus d flows = [] := by
  rw [surplus, List.drop_eq_nil_of_le short, List.filterMap_nil]

/-- A node that is no block takes the targets of outputs that it does not have into its free ones. -/
theorem laidOut_other (other : d.kind ≠ .block) (flows : List (Option Uid)) :
    laidOut d flows = fillAbsent (fitted d.flowArity flows) (surplus d flows) := by
  rw [laidOut, if_neg other]
  by_cases long : d.flowArity ≤ flows.length
  · have filled := filled_fillAbsent (flows.take d.flowArity) (surplus d flows)
    have whole := fitted_length (fillAbsent (flows.take d.flowArity) (surplus d flows)).1
    rw [filled.length, List.length_take, Nat.min_eq_left long] at whole
    rw [fitted_of_le long]
    exact Prod.ext whole rfl
  · have short : flows.length ≤ d.flowArity := by omega
    have nothing := surplus_of_le short
    rw [surplus] at nothing
    simp only [surplus, nothing, List.take_of_length_le short]
    rfl

theorem laidOut_perm (d : Definition) (flows : List (Option Uid)) :
    ((laidOut d flows).1.filterMap id ++ (laidOut d flows).2).Perm (flows.filterMap id) := by
  by_cases block : d.kind = .block
  · rw [laidOut_block block, laidOut, if_pos block, List.filterMap_append,
      List.filterMap_replicate_of_none rfl]
    simp
  · rw [laidOut_other block]
    refine (filled_fillAbsent _ _).present.trans (.of_eq ?_)
    rw [fitted, List.filterMap_append, List.filterMap_replicate_of_none rfl, List.append_nil, surplus,
      ← List.filterMap_append, List.take_append_drop]

theorem filterMap_laidOut_block (block : d.kind = .block) (flows : List (Option Uid)) :
    (laidOut d flows).1.filterMap id = flows.filterMap id := by
  rw [laidOut_block block, List.filterMap_append, List.filterMap_replicate_of_none rfl]
  simp

theorem laidOut_kept {port : Nat} (other : d.kind ≠ .block) (inside : port < d.flowArity)
    (found : flows[port]? = some (some target)) : (laidOut d flows).1[port]? = some (some target) := by
  rw [laidOut_other other]
  refine (filled_fillAbsent _ _).kept port target ?_
  rw [getElem?_fitted inside, found, Option.join_some]

theorem laidOut_laidOut (d : Definition) (flows : List (Option Uid)) :
    (laidOut d (laidOut d flows).1).1 = (laidOut d flows).1 :=
  (conform_conforms ⟨"", "", .origin, [], [], flows⟩ d).laidOut_eq

theorem laidOut_left_of_length (length : flows.length = flowPorts d flows) :
    (laidOut d flows).2 = [] := by
  by_cases block : d.kind = .block
  · rw [laidOut, if_pos block]
  · rw [flowPorts, if_neg block] at length
    rw [laidOut_other block, surplus, ← length, List.drop_length]
    rfl

/-! ### In place -/

/-- Flows of which some targets have been moved, and the targets that found no free output. -/
structure Moving where
  flows : List (Option Uid)
  left : List Uid

/-- Takes the target out of an output and puts it into the first free one of the first `ports`. Nothing is
given if an entry is read or written that the flows do not have. -/
def Moving.move? (ports : Nat) (s : Moving) (port : Nat) : Option Moving :=
  match s.flows[port]? with
  | none => none
  | some none => some s
  | some (some target) =>
    let taken := s.flows.set port none
    if taken.length < ports then none
    else match (taken.take ports).findIdx? Option.isNone with
      | none => some ⟨taken, s.left ++ [target]⟩
      | some free =>
        if free < taken.length then some ⟨taken.set free (some target), s.left⟩ else none

/-- Lays flows out in place. A block drops its free outputs and gets new ones at the end. The flows of any
other node are gone through from the first output that it does not have. -/
def layInPlace? (d : Definition) (flows : List (Option Uid)) : Option (List (Option Uid) × List Uid) :=
  if d.kind = .block then
    let kept := flows.filter Option.isSome
    some (fitted (flowPorts d kept) kept, [])
  else
    let ports := d.flowArity
    ((List.range' ports (flows.length - ports)).foldlM (Moving.move? ports) ⟨flows, []⟩).map fun s =>
      (fitted ports s.flows, s.left)

section InPlace

variable {entries rest : List (Option Uid)} {left : List Uid}

def Moving.at (entries : List (Option Uid)) (passed : Nat) (rest : List (Option Uid))
    (left : List Uid) : Moving :=
  ⟨entries ++ (List.replicate passed none ++ rest), left⟩

theorem Moving.at_none (passed : Nat) :
    Moving.at entries passed (none :: rest) left = Moving.at entries (passed + 1) rest left := by
  rw [Moving.at, Moving.at, List.replicate_succ', List.append_assoc]
  rfl

private theorem getElem?_at (passed : Nat) (flow : Option Uid) :
    (Moving.at entries passed (flow :: rest) left).flows[entries.length + passed]? = some flow := by
  have next : (List.replicate passed (none : Option Uid)).length = passed := List.length_replicate
  rw [Moving.at, List.getElem?_append_right (Nat.le_add_right _ _), Nat.add_sub_cancel_left,
    List.getElem?_append_right (Nat.le_of_eq next), next, Nat.sub_self]
  rfl

private theorem set_at (passed : Nat) (flow : Option Uid) :
    (Moving.at entries passed (flow :: rest) left).flows.set (entries.length + passed) none =
      (Moving.at entries (passed + 1) rest left).flows := by
  have next : (List.replicate passed (none : Option Uid)).length = passed := List.length_replicate
  rw [← Moving.at_none, Moving.at, Moving.at, List.set_append_right _ _ (Nat.le_add_right _ _),
    Nat.add_sub_cancel_left, List.set_append_right _ _ (Nat.le_of_eq next), next, Nat.sub_self]
  rfl

private theorem move?_none (passed : Nat) :
    (Moving.at entries passed (none :: rest) left).move? entries.length (entries.length + passed) =
      some (.at entries (passed + 1) rest left) := by
  rw [Moving.move?, getElem?_at, Moving.at_none]

private theorem move?_some (passed : Nat) (target : Uid) :
    (Moving.at entries passed (some target :: rest) left).move? entries.length
        (entries.length + passed) =
      some (.at (fillAbsent entries [target]).1 (passed + 1) rest
        (left ++ (fillAbsent entries [target]).2)) := by
  have room : entries.length ≤ (Moving.at entries (passed + 1) rest left).flows.length := by
    rw [Moving.at, List.length_append]
    exact Nat.le_add_right _ _
  have ports : (Moving.at entries (passed + 1) rest left).flows.take entries.length = entries :=
    List.take_left
  rw [Moving.move?, getElem?_at]
  simp only [set_at, if_neg (Nat.not_lt.mpr room), ports, findIdx?_isNone]
  cases fills : fillFirst? target entries with
  | none =>
    rw [fillFirst?_eq_none fills]
    simp only [fillAbsent, fills]
    rfl
  | some filled =>
    obtain ⟨free, others, here, -, rfl⟩ := fillFirst?_eq_some fills
    have vacant : free ∈ vacancies entries := here ▸ List.mem_cons_self
    have inside : free < entries.length := (List.getElem?_eq_some_iff.mp (mem_vacancies vacant)).1
    rw [here]
    simp only [fillAbsent, fills, List.head?_cons, if_pos (Nat.lt_of_lt_of_le inside room),
      List.append_nil]
    rw [Moving.at, List.set_append_left _ _ inside]
    rfl

private theorem move_run (entries : List (Option Uid)) (passed : Nat) (rest : List (Option Uid))
    (left : List Uid) :
    (List.range' (entries.length + passed) rest.length).foldlM (Moving.move? entries.length)
        (.at entries passed rest left) =
      some (.at (fillAbsent entries (rest.filterMap id)).1 (passed + rest.length) []
        (left ++ (fillAbsent entries (rest.filterMap id)).2)) := by
  induction rest generalizing entries passed left with
  | nil =>
    rw [List.filterMap_nil, fillAbsent, List.append_nil]
    rfl
  | cons flow rest ih =>
    rw [List.length_cons, List.range'_succ, List.foldlM_cons]
    cases flow with
    | none =>
      rw [move?_none, Option.bind_eq_bind, Option.bind_some]
      refine (ih entries (passed + 1) left).trans ?_
      rw [Nat.add_right_comm, Nat.add_assoc]
      rfl
    | some target =>
      have length : (fillAbsent entries [target]).1.length = entries.length :=
        (filled_fillAbsent entries [target]).length
      have later := ih (fillAbsent entries [target]).1 (passed + 1)
        (left ++ (fillAbsent entries [target]).2)
      rw [length] at later
      rw [move?_some, Option.bind_eq_bind, Option.bind_some]
      refine later.trans ?_
      have taken : (some target :: rest).filterMap id = target :: rest.filterMap id := rfl
      rw [taken, fillAbsent_cons entries target (rest.filterMap id), Nat.add_right_comm, Nat.add_assoc,
        List.append_assoc]

theorem layInPlace?_eq (d : Definition) (flows : List (Option Uid)) :
    layInPlace? d flows = some (laidOut d flows) := by
  by_cases block : d.kind = .block
  · have present : presentCount (flows.filter Option.isSome) = presentCount flows := by
      rw [filter_isSome_eq, presentCount_map_some, length_filterMap_id]
    have ports : flowPorts d (flows.filter Option.isSome) = flowPorts d flows := by
      rw [flowPorts, flowPorts, present]
    rw [layInPlace?, if_pos block, laidOut, if_pos block]
    simp only [ports]
  · rw [layInPlace?, if_neg block, laidOut_other block]
    by_cases long : d.flowArity ≤ flows.length
    · have length : (flows.take d.flowArity).length = d.flowArity := by
        rw [List.length_take, Nat.min_eq_left long]
      have all : Moving.at (flows.take d.flowArity) 0 (flows.drop d.flowArity) [] = ⟨flows, []⟩ := by
        rw [Moving.at, List.replicate_zero, List.nil_append, List.take_append_drop]
      have filled := (filled_fillAbsent (flows.take d.flowArity) (surplus d flows)).length.trans length
      have run := move_run (flows.take d.flowArity) 0 (flows.drop d.flowArity) []
      rw [length, Nat.add_zero, List.length_drop, all] at run
      simp only [run, Option.map_some, fitted_of_le long]
      rw [Moving.at, List.nil_append, fitted_of_le, ← surplus, List.take_left' filled]
      rw [List.length_append, ← surplus, filled]
      exact Nat.le_add_right _ _
    · have short : flows.length ≤ d.flowArity := by omega
      have nothing : flows.length - d.flowArity = 0 := by omega
      simp only [nothing, surplus_of_le short]
      rfl

end InPlace

/-! ### What is laid out -/

/-- What becomes of flows when they are laid out for a definition, `dropped` being what is left over. -/
structure LaysOut (d : Definition) (flows laid : List (Option Uid)) (dropped : List Uid) : Prop where
  inPlace : layInPlace? d flows = some (laid, dropped)
  length : laid.length = flowPorts d laid
  /-- A block has all its targets first, in order, and at least one free output after them. -/
  block : d.kind = .block → dropped = [] ∧
    ∃ free, laid = (flows.filterMap id).map some ++ List.replicate (free + 1) none
  stays : d.kind ≠ .block → ∀ (port : Nat) (target : Uid), port < d.flowArity →
    flows[port]? = some (some target) → laid[port]? = some (some target)
  /-- The lowest free outputs take the targets of outputs that there are not, in order. -/
  moves : d.kind ≠ .block → ∀ place port : Nat, (freePorts d flows)[place]? = some port →
    laid[port]? = some (surplus d flows)[place]?
  drops : d.kind ≠ .block → dropped = (surplus d flows).drop (freePorts d flows).length
  /-- Nothing is dropped while an output is free. -/
  full : dropped ≠ [] → ∀ flow ∈ laid, flow.isSome
  conserved : (laid.filterMap id ++ dropped).Perm (flows.filterMap id)
  again : laidOut d laid = (laid, [])

private theorem laidOut_full (remains : (laidOut d flows).2 ≠ []) :
    ∀ flow ∈ (laidOut d flows).1, flow.isSome := by
  have other : d.kind ≠ .block := by
    intro block
    rw [laidOut, if_pos block] at remains
    exact remains rfl
  rw [laidOut_other other] at remains ⊢
  exact fillAbsent_full remains

/-- Laying out the flows of a node loses nothing that can be kept, and doing it again changes nothing. -/
theorem layFlows_laysOut (d : Definition) (n : Node) :
    LaysOut d n.flows (n.layFlows d).flows (laidOut d n.flows).2 := by
  have free := fillAbsent_vacancies (fitted d.flowArity n.flows) (surplus d n.flows)
  rw [vacancies_fitted] at free
  refine ⟨layInPlace?_eq d n.flows, laidOut_length d n.flows, ?_, ?_, ?_, ?_, laidOut_full,
    laidOut_perm d n.flows, ?_⟩
  · intro block
    have left : (laidOut d n.flows).2 = [] := by rw [laidOut, if_pos block]
    refine ⟨left, max 2 (presentCount n.flows + 1) - presentCount n.flows - 1, ?_⟩
    have room : presentCount n.flows < max 2 (presentCount n.flows + 1) := by omega
    rw [layFlows, laidOut_block block, Nat.sub_add_cancel (Nat.sub_pos_of_lt room)]
  · intro other port target inside found
    exact laidOut_kept other inside found
  · intro other place port vacant
    rw [layFlows, laidOut_other other]
    exact free.2 place port vacant
  · intro other
    rw [laidOut_other other]
    exact free.1
  · exact Prod.ext (laidOut_laidOut d n.flows) (laidOut_left_of_length (laidOut_length d n.flows))

end Node

end ScriptGraph
