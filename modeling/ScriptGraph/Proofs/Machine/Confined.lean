import ScriptGraph.Proofs.Machine.Steps
import ScriptGraph.Proofs.Program.Closed

/-!
Runs of closed programs stay inside: every step ends its event, goes on in the code of the same entry
point, or starts the event of another one, and no slot or address is ever missing.
-/

set_option autoImplicit false
set_option relaxedAutoImplicit false

namespace ScriptGraph

/-- An address belongs to the code of an entry point. -/
def Program.Owns (p : Program) (entry : EntryPoint) (address : Address) : Prop :=
  entry ∈ p.entryPoints ∧ ∃ code, p.OwnCode entry code ∧
    entry.address ≤ address ∧ address < entry.address + code.length

/-- An address where a run may go on: the end of the event, or one that belongs to an entry point. -/
def Program.Covers (p : Program) (address : Address) : Prop :=
  address = haltAddress ∨ ∃ entry, p.Owns entry address

def RunError.isOutOfBounds : RunError → Bool
  | .slotOutOfBounds _ => true
  | .addressOutOfBounds _ => true
  | _ => false

/-- A host fails some call with an error. -/
def Host.Raises {σ : Type} (host : Host σ) (error : RunError) : Prop :=
  ∃ state method arguments, (host.call state method arguments).1 = .error error

namespace Program.Closed

variable {p : Program}

theorem ownCode_of_mem (closed : p.Closed) {entry : EntryPoint} (listed : entry ∈ p.entryPoints) :
    ∃ code, p.OwnCode entry code := by
  obtain ⟨slices, owned, -⟩ := closed.slices
  generalize p.entryPoints = entries at listed owned
  induction owned with
  | nil => cases listed
  | cons first _ ih =>
    rcases List.mem_cons.mp listed with rfl | listed
    · exact ⟨_, first⟩
    · exact ih listed

theorem entryPoint?_eq (closed : p.Closed) {entry : EntryPoint}
    (listed : entry ∈ p.entryPoints) : p.entryPoint? entry.name = some entry.address := by
  have hfound : p.entryPoints.find? (fun other => other.name == entry.name) = some entry := by
    have hnames := closed.names
    obtain ⟨before, after, hsplit⟩ := List.append_of_mem listed
    rw [hsplit, List.map_append, List.map_cons] at hnames
    rw [hsplit, List.find?_append, List.find?_cons_of_pos (by simp), List.find?_eq_none.mpr ?_,
      Option.none_or]
    intro other hother hsame
    refine (List.nodup_append.mp hnames).2.2 other.name (List.mem_map_of_mem hother) entry.name
      List.mem_cons_self ?_
    exact beq_iff_eq.mp hsame
  rw [Program.entryPoint?, hfound, Option.map_some]

theorem ownCode_getElem? (closed : p.Closed) {entry : EntryPoint} {code : List Instruction}
    (listed : entry ∈ p.entryPoints) (own : p.OwnCode entry code) {index : Nat}
    (inside : index < code.length) : p.instructions[entry.address + index]? = code[index]? := by
  have hfound := own.found
  rw [Program.entryInstructions?, closed.entryPoint?_eq listed] at hfound
  simp only [Option.ite_none_right_eq_some, Option.some.injEq] at hfound
  obtain ⟨-, rfl⟩ := hfound
  rw [List.getElem?_drop, List.getElem?_take, if_pos]
  rw [List.length_drop, List.length_take] at inside
  omega

theorem covers_entryPoint (closed : p.Closed) {name : String} {start : Address}
    (found : p.entryPoint? name = some start) :
    ∃ entry ∈ p.entryPoints, start = entry.address ∧ p.Owns entry start := by
  obtain ⟨entry, hentry, rfl⟩ := Option.map_eq_some_iff.mp found
  have listed := List.mem_of_find?_eq_some hentry
  obtain ⟨code, own⟩ := closed.ownCode_of_mem listed
  obtain ⟨target, ends⟩ := own.ends
  have hlength : 0 < code.length := List.length_pos_iff.mpr (by rintro rfl; simp at ends)
  exact ⟨entry, listed, rfl, listed, code, own, Nat.le_refl _, Nat.lt_add_of_pos_right hlength⟩

/-- The instruction at an address that belongs to an entry point: it either is a jump or is followed
by another instruction of the same entry point. -/
theorem next_of_owns (closed : p.Closed) {entry : EntryPoint} {address : Address}
    (owns : p.Owns entry address) :
    ∃ instruction, p.instructions[address]? = some instruction ∧
      ((∃ target, instruction = .jump target) ∨ p.Owns entry (address + 1)) ∧
      ∀ target, instruction.target? = some target →
        target = haltAddress ∨ p.Owns entry target := by
  obtain ⟨listed, code, own, habove, hbelow⟩ := owns
  obtain ⟨index, rfl⟩ := Nat.exists_eq_add_of_le habove
  have hindex : index < code.length := Nat.lt_of_add_lt_add_left hbelow
  refine ⟨code[index], ?_, ?_, ?_⟩
  · rw [closed.ownCode_getElem? listed own hindex, List.getElem?_eq_getElem hindex]
  · by_cases last : index + 1 < code.length
    · exact Or.inr ⟨listed, code, own, Nat.le_add_right entry.address (index + 1),
        Nat.add_lt_add_left last _⟩
    · obtain ⟨target, ends⟩ := own.ends
      rw [List.getLast?_eq_getElem?, show code.length - 1 = index by omega,
        List.getElem?_eq_getElem hindex] at ends
      exact Or.inl ⟨target, Option.some.inj ends⟩
  · intro target jumps
    rcases own.inside _ (List.getElem_mem hindex) target jumps with rfl | bounds
    · exact Or.inl rfl
    · exact Or.inr ⟨listed, code, own, bounds⟩

end Program.Closed

namespace Activity

variable {σ : Type} {p : Program} {host : Host σ}

/-- The slots exist and every place where the activity may go on is covered. -/
structure Confined (p : Program) (a : Activity σ) : Prop where
  heap : a.heap.size = p.symbols.length
  address : p.Covers a.address
  returns : ∀ address ∈ a.returns, p.Covers address

/-- A step goes on in the code of the same entry point or at its end, or starts an event and will
return to the code of the entry point. -/
def StaysInside (p : Program) (a b : Activity σ) : Prop :=
  ∃ entry address returns, resumed a.address a.returns = some (address, returns) ∧
    p.Owns entry address ∧
    ((b.returns = returns ∧ (b.address = haltAddress ∨ p.Owns entry b.address)) ∨
      (b.returns = (address + 1) :: returns ∧ p.Owns entry (address + 1) ∧
        ∃ other ∈ p.entryPoints, b.address = other.address))

theorem resumed_covers {address resumption : Address} {returns rest : List Address}
    (covers : p.Covers address) (others : ∀ address ∈ returns, p.Covers address)
    (found : resumed address returns = some (resumption, rest)) :
    (∃ entry, p.Owns entry resumption) ∧ ∀ address ∈ rest, p.Covers address := by
  induction returns generalizing address with
  | nil =>
    rw [resumed] at found
    split at found
    · simp at found
    · rename_i running
      obtain ⟨rfl, rfl⟩ := Prod.mk.inj (Option.some.inj found)
      exact ⟨covers.resolve_left running, by simp⟩
  | cons next returns ih =>
    rw [List.forall_mem_cons] at others
    rw [resumed] at found
    split at found
    · exact ih others.1 others.2 found
    · rename_i running
      obtain ⟨rfl, rfl⟩ := Prod.mk.inj (Option.some.inj found)
      exact ⟨covers.resolve_left running, List.forall_mem_cons.mpr others⟩

private theorem Calls.confined (closed : p.Closed) {a b : Activity σ} {method : String}
    {slots : List Slot} {result : Except RunError Unit}
    (calls : Calls p host a method slots result b)
    (present : missing? a.heap slots = none) :
    (∀ error, result = .error error → error.isOutOfBounds → host.Raises error) ∧
      ((b.address = a.address ∧ b.returns = a.returns) ∨
        (b.returns = a.address :: a.returns ∧
          ∃ other ∈ p.entryPoints, b.address = other.address)) := by
  cases calls with
  | missing found =>
    rw [present] at found
    cases found
  | refused => exact ⟨by simp [RunError.isOutOfBounds], Or.inl ⟨rfl, rfl⟩⟩
  | unheard => exact ⟨by simp, Or.inl ⟨rfl, rfl⟩⟩
  | tooDeep => exact ⟨by simp [RunError.isOutOfBounds], Or.inl ⟨rfl, rfl⟩⟩
  | started _ _ enters =>
    obtain ⟨other, listed, same, -⟩ := closed.covers_entryPoint enters
    exact ⟨by simp, Or.inr ⟨rfl, other, listed, same⟩⟩
  | failed _ _ called =>
    refine ⟨?_, Or.inl ⟨rfl, rfl⟩⟩
    intro other fails _
    obtain rfl := Except.error.inj fails
    exact ⟨_, _, _, congrArg Prod.fst called⟩
  | answered => exact ⟨by simp, Or.inl ⟨rfl, rfl⟩⟩

theorem Confined.move_cases (closed : p.Closed) (host : Host σ) {a : Activity σ}
    (confined : Confined p a) :
    move p host a = .finished ∨ ∃ result b, move p host a = .performed result b ∧
      (∀ error, result = .error error → error.isOutOfBounds → host.Raises error) ∧
      (result = .ok () → StaysInside p a b ∧ Confined p b) := by
  cases moves : move p host a with
  | finished => exact Or.inl rfl
  | astray address =>
    unfold move at moves
    split at moves
    · cases moves
    · rename_i hresumed
      obtain ⟨⟨entry, owns⟩, -⟩ := resumed_covers confined.address confined.returns hresumed
      obtain ⟨instruction, hinstruction, -⟩ := closed.next_of_owns owns
      simp only [hinstruction] at moves
      cases moves
  | performed result b =>
    refine Or.inr ⟨result, b, rfl, ?_⟩
    obtain ⟨address, returns, instruction, hresumed, hinstruction, performs⟩ :=
      move_performed moves
    obtain ⟨⟨entry, owns⟩, hreturns⟩ :=
      resumed_covers confined.address confined.returns hresumed
    obtain ⟨same, hsame, hnext, hjump⟩ := closed.next_of_owns owns
    obtain rfl : same = instruction := Option.some.inj (hsame.symm.trans hinstruction)
    have present : missing? a.heap same.slots = none := by
      rw [missing?_eq_none, confined.heap]
      exact closed.operands same (List.mem_of_getElem? hinstruction)
    have heap : b.heap.size = p.symbols.length := performs.heap_size.trans confined.heap
    -- What is common to all instructions that leave the events alone.
    have hstays : b.returns = returns → (b.address = haltAddress ∨ p.Owns entry b.address) →
        StaysInside p a b ∧ Confined p b := by
      intro kept haddress
      refine ⟨⟨entry, address, returns, hresumed, owns, Or.inl ⟨kept, haddress⟩⟩, heap, ?_, ?_⟩
      · exact haddress.imp_right fun inside => ⟨entry, inside⟩
      · rw [kept]
        exact hreturns
    cases performs with
    | missing found => exact absurd (present.symm.trans found) (by simp)
    | copied => exact ⟨by simp, fun _ => hstays rfl (Or.inr (hnext.resolve_left (by simp)))⟩
    | jumped => exact ⟨by simp, fun _ => hstays rfl (hjump _ rfl)⟩
    | passed => exact ⟨by simp, fun _ => hstays rfl (Or.inr (hnext.resolve_left (by simp)))⟩
    | skipped => exact ⟨by simp, fun _ => hstays rfl (hjump _ rfl)⟩
    | unclear => exact ⟨by simp [RunError.isOutOfBounds], by simp⟩
    | called calls =>
      obtain ⟨hfails, hgoes⟩ := calls.confined closed present
      have hback := hnext.resolve_left (by simp)
      refine ⟨hfails, fun _ => ?_⟩
      rcases hgoes with ⟨haddress, kept⟩ | ⟨hpushed, other, listed, hother⟩
      · exact hstays kept (Or.inr (haddress ▸ hback))
      · refine ⟨⟨entry, address, returns, hresumed, owns,
          Or.inr ⟨hpushed, hback, other, listed, hother⟩⟩, heap, ?_, ?_⟩
        · obtain ⟨start, -, -, inside⟩ :=
            closed.covers_entryPoint (closed.entryPoint?_eq listed)
          exact Or.inr ⟨start, hother ▸ inside⟩
        · rw [hpushed]
          exact List.forall_mem_cons.mpr ⟨Or.inr ⟨entry, hback⟩, hreturns⟩

theorem Leads.confined (closed : p.Closed) {n : Nat} {a b : Activity σ}
    (leads : Leads p host n a b) (confined : Confined p a) : Confined p b := by
  induction leads with
  | refl _ => exact confined
  | step moves _ ih =>
    rcases confined.move_cases closed host with finished | ⟨result, after, performed, -, goes⟩
    · rw [finished] at moves
      cases moves
    · rw [performed] at moves
      cases moves
      exact ih (goes rfl).2

theorem run_inBounds (closed : p.Closed) {a : Activity σ} (confined : Confined p a)
    {budget left : Nat} {error : RunError}
    (fails : (run p p.instructions.toArray host budget left a).1 = .error error)
    (missing : error.isOutOfBounds) : host.Raises error := by
  obtain ⟨n, runs⟩ := runs_of_run (Prod.ext fails rfl)
  cases runs with
  | spent => simp [RunError.isOutOfBounds] at missing
  | ended leads ends =>
    rcases (leads.confined closed confined).move_cases closed host with
      finished | ⟨result, c, performed, raises, -⟩
    · cases ends <;> simp_all
    · cases ends with
      | astray moves => simp [moves] at performed
      | failed moves =>
        rw [moves] at performed
        cases performed
        exact raises error rfl missing

end Activity

/-- Where a run of a machine starts. -/
def Machine.begin {σ : Type} (m : Machine) (state : σ) (start : Address) : Activity σ :=
  ⟨m.heap, state, start, [], ⟨0, 0⟩⟩

/-- Every run of a program, whatever the host, the state of the heap, the event and the budget, finds
all slots and addresses, and each of its steps stays inside the code of one entry point. -/
def Program.Confines (p : Program) : Prop :=
  ∀ (σ : Type) (host : Host σ) (m : Machine) (state : σ) (name : String),
    m.program = p → m.heap.size = p.symbols.length →
      (∀ error, (m.run host state name).1 = .error error → error.isOutOfBounds →
        host.Raises error) ∧
      ∀ start n a b, p.entryPoint? name = some start →
        Activity.Leads p host n (m.begin state start) a →
        Activity.move p host a = .performed (.ok ()) b → Activity.StaysInside p a b

theorem Program.Closed.confines {p : Program} (closed : p.Closed) : p.Confines := by
  intro σ host m state name hprogram hheap
  subst hprogram
  have hstart : ∀ start, m.program.entryPoint? name = some start →
      Activity.Confined m.program (m.begin state start) := by
    intro start found
    obtain ⟨entry, -, -, owns⟩ := closed.covers_entryPoint found
    exact ⟨hheap, Or.inr ⟨entry, owns⟩, by simp [Machine.begin]⟩
  refine ⟨?_, ?_⟩
  · intro error fails missing
    rw [Machine.run] at fails
    cases found : m.program.entryPoint? name with
    | none =>
      rw [found] at fails
      cases fails
      simp [RunError.isOutOfBounds] at missing
    | some start =>
      rw [found] at fails
      exact Activity.run_inBounds closed (hstart start found) fails missing
  · intro start n a b found leads moves
    have confined := leads.confined closed (hstart start found)
    rcases confined.move_cases closed host with
      finished | ⟨result, after, performed, -, goes⟩
    · rw [finished] at moves
      cases moves
    · rw [performed] at moves
      cases moves
      exact (goes rfl).1

end ScriptGraph
