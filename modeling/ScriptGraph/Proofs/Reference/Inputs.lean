import ScriptGraph.Proofs.Lowering.Total
import ScriptGraph.Proofs.Reference.Calls

/-!
The code of inputs does what evaluating them does, unless a node that is evaluated for its readers
waits for itself.
-/

set_option autoImplicit false
set_option relaxedAutoImplicit false

namespace ScriptGraph.Reference

open HeapLayout (Grows)
open Assembly (Standing)
open Lowering (Offers Step Supplies sourceOf)

variable {σ : Type} {c : Catalog} {g : Graph}

/-- The slots that a layout grants are where the places stand that they are granted for. -/
structure Memory.Houses (M : Memory) (c : Catalog) (g : Graph) (h : HeapLayout) : Prop where
  literal : ∀ type value slot, h.slot? (.constant type value) = some slot →
    M.stands (.literal value) slot
  bound : ∀ uid slot, h.slot? (.variable uid) = some slot → M.stands (.cell (.variable uid)) slot
  output : ∀ uid index slot, Offers c g uid index → h.slot? (.output uid index) = some slot →
    M.stands (.cell (.output uid index)) slot

theorem Memory.Houses.outputs {M : Memory} {h : HeapLayout} (houses : M.Houses c g h) {uid : Uid}
    {n : Node} {d : Definition} (found : g.find? uid = some n)
    (defined : c.find? n.fullName = some d) {slots : List Slot}
    (granted : List.Forall₂ (fun index slot => h.slot? (.output uid index) = some slot)
      (List.range d.outputs.length) slots) :
    List.Forall₂ M.stands (outputs uid d) slots := by
  have offered : ∀ index ∈ List.range d.outputs.length, Offers c g uid index :=
    fun index listed => ⟨n, d, found, defined, List.mem_range.mp listed⟩
  rw [Reference.outputs, List.forall₂_map_left_iff]
  generalize List.range d.outputs.length = indices at granted offered
  induction granted with
  | nil => exact List.Forall₂.nil
  | cons given _ ih =>
    rw [List.forall_mem_cons] at offered
    exact List.Forall₂.cons (houses.output _ _ _ offered.1 given) (ih offered.2)

namespace Setting

variable {S : Setting σ} {h : HeapLayout} {rounds : Nat} {returns : List Address}

def Supplied (S : Setting σ) (supplied : Lowering.Supply) (start : Nat) (given : Place × List Uid)
    (address : Address) : Prop :=
  S.memory.stands given.1 supplied.slot ∧ given.2 = supplied.evaluated ∧
    address = start + codeLength supplied.code

def SuppliedAll (S : Setting σ) (supplies : Supplies) (start count : Nat)
    (given : List Place × List Uid) (address : Address) : Prop :=
  List.Forall₂ S.memory.stands given.1 supplies.slots ∧ given.2 = supplies.evaluated ∧
    given.1.length = count ∧ address = start + codeLength supplies.code

def Evaluates (S : Setting σ) (h : HeapLayout) (rounds : Nat) (returns : List Address)
    (feed : List Uid → Link → Step Lowering.Supply) (feed' : Feed σ) (link : Link) : Prop :=
  ∀ evaluated s supplied t (start : Nat), feed evaluated link s = .ok (supplied, t) →
    Grows t.heap h → Standing S.ops start supplied.code →
      S.Simulates rounds 0 returns start (feed' evaluated link) (S.Supplied supplied start)

section Inputs

variable {feed : List Uid → Link → Step Lowering.Supply} {feed' : Feed σ} {n : Node} {d : Definition}
  {s t : Lowering} {evaluated : List Uid} {start : Nat}

theorem inputAs_simulates (houses : S.memory.Houses c g h)
    (evaluates : ∀ link, some link ∈ n.links → S.Evaluates h rounds returns feed feed' link)
    {index : Nat} {declared : Option String} {supplied : Lowering.Supply}
    (given : Lowering.inputAs feed n d index declared evaluated s = .ok (supplied, t))
    (grows : Grows t.heap h) (standing : Standing S.ops start supplied.code) :
    S.Simulates rounds 0 returns start (input feed' n d index evaluated)
      (S.Supplied supplied start) := by
  unfold Lowering.inputAs at given
  unfold input
  cases found : n.links[index]?.join with
  | some link =>
    simp only [found] at given
    exact evaluates link (Lowering.mem_of_join_eq_some found) evaluated s supplied t start given
      grows standing
  | none =>
    simp only [found, Lowering.bind_eq_ok, Lowering.pure_eq_ok] at given
    obtain ⟨slot, r, hslot, rfl, rfl⟩ := given
    have granted := grows.kept _ _ (Lowering.constant_obtains hslot).granted
    exact Simulates.pure ⟨houses.literal _ _ _ granted, rfl, rfl⟩

theorem inputs_simulates (houses : S.memory.Houses c g h) (feeds : Lowering.Feeds feed)
    (evaluates : ∀ link, some link ∈ n.links → S.Evaluates h rounds returns feed feed' link)
    {indices : List Nat} {supplies : Supplies}
    (given : Lowering.inputs feed n d indices evaluated s = .ok (supplies, t))
    (grows : Grows t.heap h) (standing : Standing S.ops start supplies.code) :
    S.Simulates rounds 0 returns start (inputs feed' n d indices evaluated)
      (S.SuppliedAll supplies start indices.length) := by
  induction indices generalizing evaluated supplies s start with
  | nil =>
    obtain ⟨rfl, rfl⟩ := Lowering.pure_eq_ok.mp given
    exact Simulates.pure ⟨List.Forall₂.nil, rfl, rfl, rfl⟩
  | cons index indices ih =>
    simp only [Lowering.inputs, Lowering.bind_eq_ok, Lowering.pure_eq_ok] at given
    obtain ⟨first, r, hfirst, others, q, hothers, rfl, rfl⟩ := given
    have later := (Lowering.inputs_fetches feeds hothers).prepares.grows.trans grows
    have begins := inputAs_simulates houses evaluates hfirst later standing.left
    refine begins.andThen ?_
    rintro place _ ⟨stands, hevaluated, rfl⟩
    rw [hevaluated]
    refine (ih hothers standing.right).andThen ?_
    rintro places _ ⟨stand, hothers, length, rfl⟩
    refine Simulates.pure ⟨List.Forall₂.cons stands stand, hothers, ?_, ?_⟩
    · exact congrArg Nat.succ length
    · rw [codeLength_append, Nat.add_assoc]

end Inputs

variable {send : String → Run σ Unit}

private theorem compute_simulates (houses : S.memory.Houses c g h) (signed : c.Signed)
    (obeys : S.host.Obeys c) (sends : S.Sends rounds send returns)
    {feed : List Uid → Link → Step Lowering.Supply} {feed' : Feed σ} (feeds : Lowering.Feeds feed)
    {n : Node} {d : Definition} {link : Link}
    (evaluates : ∀ next, some next ∈ n.links → S.Evaluates h rounds returns feed feed' next)
    (found : g.find? link.node = some n) (defined : c.find? n.fullName = some d)
    (offers : Offers c g link.node link.output) {evaluated : List Uid} {s t : Lowering}
    {supplied : Lowering.Supply} {start : Nat}
    (given : Lowering.compute feed n d evaluated link s = .ok (supplied, t))
    (grows : Grows t.heap h) (standing : Standing S.ops start supplied.code) :
    S.Simulates rounds 0 returns start (do
      let given ← inputs feed' n d (List.range d.inputs.length) evaluated
      invoke S.host send d.fullName given.1 (outputs link.node d)
      return (.cell (.output link.node link.output), link.node :: given.2))
      (S.Supplied supplied start) := by
  simp only [Lowering.compute, Lowering.bind_eq_ok, Lowering.pure_eq_ok] at given
  obtain ⟨supplies, r, hsupplies, code, q, hcode, slot, u, hslot, rfl, rfl⟩ := given
  obtain ⟨prepares, results, granted, rfl⟩ := Lowering.callOf_obtains hcode
  have obtains := Lowering.output_obtains hslot
  have later := obtains.prepares.grows.trans grows
  have begins := inputs_simulates houses feeds evaluates hsupplies (prepares.grows.trans later)
    standing.left
  refine begins.andThen ?_
  rintro places _ ⟨stand, hevaluated, length, rfl⟩
  have houtputs := houses.outputs found defined
    (granted.imp fun index slot granted => later.kept _ _ granted)
  have keeps : S.host.Keeps d.fullName places.1.length := by
    rw [length, List.length_range]
    exact obeys.keeps signed defined
  have calls := invoke_simulates supplies.slots results sends standing.right stand houtputs ?_ keeps
  · refine calls.andThen ?_
    rintro ⟨⟩ _ rfl
    refine Simulates.pure ⟨?_, ?_, ?_⟩
    · exact houses.output _ _ _ offers (grows.kept _ _ obtains.granted)
    · rw [hevaluated]
    · simp [Nat.add_assoc]
  · intro place listed
    obtain ⟨index, -, rfl⟩ := List.mem_map.mp listed
    rfl

/-- The code that makes an output available does what evaluating it does; every node that waits for
it reads it, so none of them is the node itself. -/
theorem supply_simulates (live : g.Live c) (founded : g.Founded c)
    (houses : S.memory.Houses c g h) (signed : c.Signed) (obeys : S.host.Obeys c)
    (sends : S.Sends rounds send returns) (depth : Nat) (visiting : List Uid) (link : Link)
    (offers : Offers c g link.node link.output)
    (waiting : g.Computed c link.node → ∀ uid ∈ visiting,
      Relation.TransGen (g.Reads c) uid link.node) :
    S.Evaluates h rounds returns (Lowering.supply c g depth visiting)
      (evaluate c g S.host send depth) link := by
  induction depth generalizing visiting link with
  | zero =>
    intro evaluated s supplied t start given
    simp [Lowering.supply_zero, Lowering.throw_apply] at given
  | succ depth ih =>
    intro evaluated s supplied t start given grows standing
    simp only [Lowering.supply_succ, Lowering.bind_eq_ok] at given
    obtain ⟨⟨n, d⟩, r, hplaced, given⟩ := given
    obtain ⟨found, defined, rfl⟩ := Lowering.placed_eq_ok.mp hplaced
    have placed : placed? c g link.node = some (n, d) := placed?_eq_some.mpr ⟨found, defined⟩
    simp only [evaluate, placed]
    cases source : sourceOf n d with
    | literal type value =>
      simp only [source, Lowering.supplyFrom, Lowering.bind_eq_ok, Lowering.pure_eq_ok] at given
      obtain ⟨slot, q, hslot, rfl, rfl⟩ := given
      have granted := grows.kept _ _ (Lowering.constant_obtains hslot).granted
      exact Simulates.pure ⟨houses.literal _ _ _ granted, rfl, rfl⟩
    | «variable» uid =>
      simp only [source, Lowering.supplyFrom, Lowering.bind_eq_ok, Lowering.pure_eq_ok] at given
      obtain ⟨slot, q, hslot, rfl, rfl⟩ := given
      have granted := grows.kept _ _ (Lowering.variableSlot_obtains hslot).granted
      exact Simulates.pure ⟨houses.bound _ _ granted, rfl, rfl⟩
    | stored =>
      simp only [source, Lowering.supplyFrom, Lowering.bind_eq_ok, Lowering.pure_eq_ok] at given
      obtain ⟨slot, q, hslot, rfl, rfl⟩ := given
      have granted := grows.kept _ _ (Lowering.output_obtains hslot).granted
      exact Simulates.pure ⟨houses.output _ _ _ offers granted, rfl, rfl⟩
    | computed =>
      have computed : g.Computed c link.node := ⟨n, d, placed, source⟩
      simp only [source, Lowering.supplyFrom] at given
      split at given
      · rename_i known
        simp only [Lowering.bind_eq_ok, Lowering.pure_eq_ok] at given
        obtain ⟨slot, q, hslot, rfl, rfl⟩ := given
        have granted := grows.kept _ _ (Lowering.output_obtains hslot).granted
        simp only [known, if_true]
        exact Simulates.pure ⟨houses.output _ _ _ offers granted, rfl, rfl⟩
      · rename_i unknown
        simp only [unknown, Bool.false_eq_true, if_false]
        split at given
        · rename_i visited
          exact absurd (waiting computed _ (List.contains_iff_mem.mp visited)) (founded _)
        · have feeds := Lowering.supply_feeds c g depth (link.node :: visiting)
          refine compute_simulates houses signed obeys sends feeds ?_ found defined offers given grows
            standing
          intro next listed
          have hnext := live.links n (Graph.find?_mem found) next listed
          refine ih (link.node :: visiting) next hnext ?_
          intro reached uid waits
          have reads : g.Reads c link.node next.node :=
            ⟨computed, reached, n, next, found, listed, rfl⟩
          rcases List.mem_cons.mp waits with rfl | waits
          · exact .single reads
          · exact (waiting computed uid waits).tail reads

theorem feedOf_simulates (live : g.Live c) (founded : g.Founded c)
    (houses : S.memory.Houses c g h) (signed : c.Signed) (obeys : S.host.Obeys c)
    (sends : S.Sends rounds send returns) {n : Node} (listed : n ∈ g.nodes) (link : Link)
    (linked : some link ∈ n.links) :
    S.Evaluates h rounds returns (Lowering.feedOf c g)
      (evaluate c g S.host send (g.nodes.length + 1)) link := by
  refine supply_simulates live founded houses signed obeys sends (g.nodes.length + 1) [] link
    (live.links n listed link linked) ?_
  intro _ uid waits
  cases waits

end Setting

end ScriptGraph.Reference
