import ScriptGraph.Code.Lowering
import ScriptGraph.Proofs.HeapLayout.Variables

/-!
Steps of lowering taken apart. A sequence of steps succeeds exactly if each of them does, and what
every step keeps the sequence keeps.
-/

set_option autoImplicit false
set_option relaxedAutoImplicit false

namespace ScriptGraph.Lowering

variable {α β : Type}

theorem pure_apply (a : α) (s : Lowering) : (pure a : Step α) s = .ok (a, s) := rfl

theorem throw_apply (error : CompileError) (s : Lowering) :
    (throw error : Step α) s = .error error := rfl

theorem bind_apply (x : Step α) (f : α → Step β) (s : Lowering) :
    (x >>= f) s = match x s with
      | .ok (a, t) => f a t
      | .error error => .error error := by
  change Except.bind (x s) (fun result => f result.1 result.2) = _
  cases x s <;> rfl

theorem pure_eq_ok {a b : α} {s t : Lowering} :
    (pure a : Step α) s = .ok (b, t) ↔ a = b ∧ s = t := by
  rw [pure_apply, Except.ok.injEq, Prod.mk.injEq]

theorem bind_eq_ok {x : Step α} {f : α → Step β} {s t : Lowering} {b : β} :
    (x >>= f) s = .ok (b, t) ↔ ∃ a r, x s = .ok (a, r) ∧ f a r = .ok (b, t) := by
  rw [bind_apply]
  cases hx : x s with
  | error error => simp
  | ok result =>
    constructor
    · intro hf
      exact ⟨result.1, result.2, rfl, hf⟩
    · rintro ⟨a, r, hsame, hf⟩
      cases hsame
      exact hf

theorem mapM_nil_eq_ok {f : α → Step β} {bs : List β} {s t : Lowering} :
    List.mapM f [] s = .ok (bs, t) ↔ bs = [] ∧ s = t := by
  rw [List.mapM_nil, pure_eq_ok, eq_comm (b := bs)]

theorem mapM_cons_eq_ok {f : α → Step β} {a : α} {rest : List α} {bs : List β} {s t : Lowering} :
    List.mapM f (a :: rest) s = .ok (bs, t) ↔
      ∃ b r others, f a s = .ok (b, r) ∧ List.mapM f rest r = .ok (others, t) ∧
        bs = b :: others := by
  simp only [List.mapM_cons, bind_eq_ok, pure_eq_ok]
  constructor
  · rintro ⟨b, r, hb, others, q, hothers, rfl, rfl⟩
    exact ⟨b, r, others, hb, hothers, rfl⟩
  · rintro ⟨b, r, others, hb, hothers, rfl⟩
    exact ⟨b, r, hb, others, t, hothers, rfl, rfl⟩

/-- A relation between the states before and after that holds whenever a step succeeds. -/
def Keeps (R : Lowering → Lowering → Prop) (x : Step α) : Prop :=
  ∀ s a t, x s = .ok (a, t) → R s t

namespace Keeps

variable {R : Lowering → Lowering → Prop}

theorem pure (refl : ∀ s, R s s) (a : α) : Keeps R (Pure.pure a : Step α) := by
  intro s b t given
  obtain ⟨-, rfl⟩ := pure_eq_ok.mp given
  exact refl s

theorem bind (trans : ∀ r s t, R r s → R s t → R r t) {x : Step α} {f : α → Step β}
    (first : Keeps R x) (second : ∀ a, Keeps R (f a)) : Keeps R (x >>= f) := by
  intro s b t given
  obtain ⟨a, r, hx, hf⟩ := bind_eq_ok.mp given
  exact trans s r t (first s a r hx) (second a r b t hf)

end Keeps

theorem mem_of_join_eq_some {entries : List (Option α)} {index : Nat} {entry : α}
    (found : entries[index]?.join = some entry) : some entry ∈ entries := by
  rw [Option.join_eq_some_iff] at found
  exact List.mem_of_getElem? found

/-! ## Single steps -/

theorem newLabel_eq_ok {s t : Lowering} {label : Label} :
    newLabel s = .ok (label, t) ↔
      label = s.nextLabel ∧ t = { s with nextLabel := s.nextLabel + 1 } := by
  rw [newLabel, Except.ok.injEq, Prod.mk.injEq, eq_comm (a := s.nextLabel),
    eq_comm (b := t)]

theorem present_eq_ok {uid : Uid} {found : Option α} {a : α} {s t : Lowering} :
    present uid found s = .ok (a, t) ↔ found = some a ∧ s = t := by
  cases found with
  | none => simp [present, throw_apply]
  | some value => simp only [present, pure_eq_ok, Option.some.injEq]

theorem placed_eq_ok {c : Catalog} {g : Graph} {uid : Uid} {n : Node} {d : Definition}
    {s t : Lowering} :
    placed c g uid s = .ok ((n, d), t) ↔
      g.find? uid = some n ∧ c.find? n.fullName = some d ∧ s = t := by
  simp only [placed, bind_eq_ok, present_eq_ok, pure_eq_ok, Prod.mk.injEq]
  constructor
  · rintro ⟨m, r, ⟨hm, rfl⟩, e, q, ⟨he, rfl⟩, ⟨rfl, rfl⟩, rfl⟩
    exact ⟨hm, he, rfl⟩
  · rintro ⟨hn, hd, rfl⟩
    exact ⟨n, s, ⟨hn, rfl⟩, d, s, ⟨hd, rfl⟩, ⟨rfl, rfl⟩, rfl⟩

theorem variableSlot_eq_ok {uid : Uid} {slot : Slot} {s t : Lowering} :
    variableSlot uid s = .ok (slot, t) ↔ s.heap.findVariable? uid = some slot ∧ s = t := by
  unfold variableSlot
  cases s.heap.findVariable? uid <;> simp

theorem onHeap_eq_ok {request : HeapLayout → α × HeapLayout} {a : α} {s t : Lowering} :
    onHeap request s = .ok (a, t) ↔
      a = (request s.heap).1 ∧ t = { s with heap := (request s.heap).2 } := by
  rw [onHeap, Except.ok.injEq, Prod.mk.injEq, eq_comm (b := a), eq_comm (b := t)]

theorem onHeapOrFail_eq_ok {request : HeapLayout → Except CompileError (α × HeapLayout)} {a : α}
    {s t : Lowering} :
    onHeapOrFail request s = .ok (a, t) ↔
      ∃ heap, request s.heap = .ok (a, heap) ∧ t = { s with heap } := by
  unfold onHeapOrFail
  cases request s.heap with
  | error error => simp
  | ok result =>
    simp only [Except.ok.injEq, Prod.mk.injEq]
    constructor
    · rintro ⟨rfl, rfl⟩
      exact ⟨result.2, rfl, rfl⟩
    · rintro ⟨heap, hsame, rfl⟩
      cases hsame
      exact ⟨rfl, rfl⟩

/-! ## Chains -/

def entered (uid : Uid) (exit : Target) (s : Lowering) : Lowering :=
  { s with nextLabel := s.nextLabel + 1, emitted := ((uid, exit), s.nextLabel) :: s.emitted }

def labelledBody (c : Catalog) (g : Graph) (depth : Nat) (uid : Uid) (exit : Target)
    (label : Label) : Step (List Op) := do
  let (n, d) ← placed c g uid
  let code ← body g (feedOf c g) (chain c g depth) n d exit
  return .label label :: code

theorem chain_zero (c : Catalog) (g : Graph) (uid : Uid) (exit : Target) (s : Lowering) :
    chain c g 0 uid exit s = .error (.absentNode uid) := rfl

theorem chain_succ (c : Catalog) (g : Graph) (depth : Nat) (uid : Uid) (exit : Target)
    (s : Lowering) :
    chain c g (depth + 1) uid exit s =
      match s.emitted.lookup (uid, exit) with
      | some label => .ok ([.jump (.label label)], s)
      | none => labelledBody c g depth uid exit s.nextLabel (entered uid exit s) := rfl

/-! ## Assignments -/

/-- The code that tells the event watching a variable of a change, where an assignment asks for it. -/
def notice (g : Graph) (n : Node) (d : Definition) (target : Uid) (variableNode : Node) :
    Step (List Op) :=
  if d.kind = .setVariable && (n.values[2]?.bind Value.bool?).getD false &&
      (watched g).contains target then
    sendChange variableNode
  else pure []

theorem assignment_eq (g : Graph) (feed : List Uid → Link → Step Supply)
    (follow : Uid → Target → Step (List Op)) (n : Node) (d : Definition) (exit : Target) :
    assignment g feed follow n d exit = (do
      let target ← present n.uid n.target?
      let variableNode ← present target (g.find? target)
      let slot ← variableSlot target
      let value ← inputAs feed n d 1 variableNode.variableType? []
      let change ← notice g n d target variableNode
      return value.code ++ .copy value.slot slot :: change ++ (← port follow n 0 exit)) := by
  unfold assignment notice
  refine bind_congr fun target => bind_congr fun variableNode => bind_congr fun slot =>
    bind_congr fun value => ?_
  simp only [Bool.and_assoc]
  split <;> rfl

end ScriptGraph.Lowering
