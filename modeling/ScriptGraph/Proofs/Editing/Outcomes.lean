import ScriptGraph.Editing.Connection
import ScriptGraph.Editing.Literal

/-!
What the edits of a graph that succeed have found and done.
-/

set_option autoImplicit false
set_option relaxedAutoImplicit false

namespace ScriptGraph

variable {ε α β : Type}

theorem bind_eq_ok {first : Except ε α} {next : α → Except ε β} {result : β} :
    first >>= next = .ok result ↔ ∃ value, first = .ok value ∧ next value = .ok result := by
  cases first with
  | error error => simp [bind, Except.bind]
  | ok value => simp [bind, Except.bind]

theorem bind_eq_error {first : Except ε α} {next : α → Except ε β} {error : ε} :
    first >>= next = .error error ↔
      first = .error error ∨ ∃ value, first = .ok value ∧ next value = .error error := by
  cases first with
  | error refusal => simp [bind, Except.bind]
  | ok value => simp [bind, Except.bind]

theorem guard_eq_ok {refused : Prop} [Decidable refused] {error : ε} {next : PUnit → Except ε β}
    {result : β} : (if refused then throw error >>= next else next ⟨⟩) = .ok result ↔
      ¬refused ∧ next ⟨⟩ = .ok result := by
  split
  · rename_i refuses
    simp [refuses, bind, Except.bind, throw, throwThe, MonadExceptOf.throw]
  · rename_i passes
    simp [passes]

theorem guard_eq_error {refused : Prop} [Decidable refused] {refusal error : ε}
    {next : PUnit → Except ε β} :
    (if refused then throw refusal >>= next else next ⟨⟩) = .error error ↔
      refused ∧ refusal = error ∨ ¬refused ∧ next ⟨⟩ = .error error := by
  split
  · rename_i refuses
    simp [refuses, bind, Except.bind, throw, throwThe, MonadExceptOf.throw]
  · rename_i passes
    simp [passes]

theorem pure_eq_ok {value result : α} :
    (pure value : Except ε α) = .ok result ↔ value = result := by
  simp [pure, Except.pure]

theorem pure_eq_error {value : α} {error : ε} :
    (pure value : Except ε α) = .error error ↔ False := by
  simp [pure, Except.pure]

theorem throw_eq_ok {error : ε} {result : α} : (throw error : Except ε α) = .ok result ↔ False := by
  simp [throw, throwThe, MonadExceptOf.throw]

theorem throw_eq_error {refusal error : ε} :
    (throw refusal : Except ε α) = .error error ↔ refusal = error := by
  simp [throw, throwThe, MonadExceptOf.throw]

theorem exists_eq_ok {outcome : Except ε α} (succeeds : outcome.isOk) :
    ∃ result, outcome = .ok result := by
  cases outcome with
  | error error => cases succeeds
  | ok result => exact ⟨result, rfl⟩

theorem Catalog.get_eq_ok {c : Catalog} {name : String} {d : Definition} :
    c.get name = .ok d ↔ c.find? name = some d := by
  rw [Catalog.get]
  cases c.find? name <;> simp

namespace Graph

variable {g h : Graph} {c : Catalog} {uid source target : Uid} {n m : Node} {d e : Definition}

theorem get_eq_ok : g.get uid = .ok n ↔ g.find? uid = some n := by
  rw [get]
  cases g.find? uid <;> simp

theorem placed_eq_ok : g.placed c uid = .ok (n, d) ↔
    g.find? uid = some n ∧ c.find? n.fullName = some d := by
  simp only [placed, bind_eq_ok, get_eq_ok, Catalog.get_eq_ok, pure_eq_ok, Prod.mk.injEq]
  constructor
  · rintro ⟨_, found, _, defined, rfl, rfl⟩
    exact ⟨found, defined⟩
  · rintro ⟨found, defined⟩
    exact ⟨n, found, d, defined, rfl, rfl⟩

theorem connectValue_eq_ok {output input : Nat}
    (connects : g.connectValue c source output target input = .ok h) :
    source ≠ target ∧ ∃ n d m e, g.find? source = some n ∧ c.find? n.fullName = some d ∧
      g.find? target = some m ∧ c.find? m.fullName = some e ∧ output < d.outputs.length ∧
      h = g.update target fun n => { n with links := n.links.set input (some ⟨source, output⟩) } := by
  simp only [connectValue, guard_eq_ok, bind_eq_ok, Prod.exists, placed_eq_ok, pure_eq_ok,
    Nat.not_le] at connects
  obtain ⟨apart, n, d, ⟨found, defined⟩, m, e, ⟨found', defined'⟩, inside, -, -, -, rfl⟩ := connects
  exact ⟨apart, n, d, m, e, found, defined, found', defined', inside, rfl⟩

theorem disconnectValue_eq_ok {input : Nat}
    (clears : g.disconnectValue target input = .ok (some h)) :
    h = g.update target fun n => { n with links := n.links.set input none } := by
  simp only [disconnectValue, bind_eq_ok] at clears
  obtain ⟨n, -, clears⟩ := clears
  split at clears
  · simp only [throw_eq_ok] at clears
  · simp only [pure_eq_ok, reduceCtorEq] at clears
  · simp only [pure_eq_ok, Option.some.injEq] at clears
    exact clears.symm

theorem connectFlow_eq_ok {port : Nat} (connects : g.connectFlow c source port target = .ok h) :
    source ≠ target ∧ source ∉ g.flowSuccessors target ∧ ∃ n d m e, g.find? source = some n ∧
      c.find? n.fullName = some d ∧ g.find? target = some m ∧ c.find? m.fullName = some e ∧
      e.hasFlowInput ∧
      h = (g.update source fun n => { n with flows := n.flows.set port (some target) }).relayout c
        source := by
  simp only [connectFlow, guard_eq_ok, bind_eq_ok, Prod.exists, placed_eq_ok, pure_eq_ok,
    Bool.or_eq_true, decide_eq_true_eq, not_or, List.contains_iff_mem, Bool.not_eq_true',
    Bool.not_eq_false] at connects
  obtain ⟨n, d, ⟨found, defined⟩, m, e, ⟨found', defined'⟩, ⟨apart, noWay⟩, -, input, -, rfl⟩ :=
    connects
  exact ⟨apart, noWay, n, d, m, e, found, defined, found', defined', input, rfl⟩

theorem disconnectFlow_eq_ok {port : Nat}
    (clears : g.disconnectFlow c source port = .ok (some h)) :
    h = (g.update source fun n => { n with flows := n.flows.set port none }).relayout c source := by
  simp only [disconnectFlow, bind_eq_ok] at clears
  obtain ⟨n, -, clears⟩ := clears
  split at clears
  · simp only [throw_eq_ok] at clears
  · simp only [pure_eq_ok, reduceCtorEq] at clears
  · simp only [pure_eq_ok, Option.some.injEq] at clears
    exact clears.symm

theorem renameVariable_eq_ok_iff {name : String} {outcome : String × Option Graph} :
    g.renameVariable uid name = .ok outcome ↔
      ∃ n current, g.find? uid = some n ∧ n.variableName? = some current ∧
        isInternalName current = false ∧ isInternalName (sanitizedName name) = false ∧
        outcome =
          let given := ScriptGraph.unusedNameLike (g.otherNames uid) (sanitizedName name)
          if sanitizedName name = current then (current, none)
          else (given, some (g.update uid fun n =>
            { n with values := n.values.set nameInput (.text given) })) := by
  simp only [renameVariable, bind_eq_ok, get_eq_ok]
  refine exists_congr fun n => ?_
  cases called : n.variableName? with
  | none => simp [throw_eq_ok]
  | some current =>
    simp only [guard_eq_ok, Bool.not_eq_true, Option.some.injEq, exists_and_left, exists_eq_left']
    refine and_congr_right fun _ => and_congr_right fun _ => and_congr_right fun _ => ?_
    split <;> rw [pure_eq_ok, eq_comm]

theorem renameVariable_eq_ok {name given : String}
    (renames : g.renameVariable uid name = .ok (given, some h)) :
    ∃ n current, g.find? uid = some n ∧ n.variableName? = some current ∧
      isInternalName (sanitizedName name) = false ∧
      given = ScriptGraph.unusedNameLike (g.otherNames uid) (sanitizedName name) ∧
      h = g.update uid fun n => { n with values := n.values.set nameInput (.text given) } := by
  obtain ⟨n, current, found, named, -, free, outcome⟩ := renameVariable_eq_ok_iff.mp renames
  dsimp only at outcome
  split at outcome
  · cases outcome
  · cases outcome
    exact ⟨n, current, found, named, free, rfl, rfl⟩

theorem renameVariable_eq_same {name given : String}
    (renames : g.renameVariable uid name = .ok (given, none)) :
    ∃ n, g.find? uid = some n ∧ n.variableName? = some given := by
  obtain ⟨n, current, found, named, -, -, outcome⟩ := renameVariable_eq_ok_iff.mp renames
  dsimp only at outcome
  split at outcome
  · cases outcome
    exact ⟨n, found, named⟩
  · cases outcome

theorem checkSingleChange_eq_ok {except : Option Uid} : g.checkSingleChange uid except = .ok () ↔
    ∀ n ∈ g.nodes, n.kind = .changeEvent → n.target? = some uid → some n.uid = except := by
  unfold checkSingleChange
  split
  · rename_i second
    simp only [List.any_eq_true, Bool.and_eq_true, decide_eq_true_eq] at second
    obtain ⟨n, hn, ⟨change, bound⟩, other⟩ := second
    simp only [reduceCtorEq, false_iff]
    exact fun single => other (single n hn change bound)
  · rename_i first
    simp only [List.any_eq_true, Bool.and_eq_true, decide_eq_true_eq, not_exists, not_and,
      Decidable.not_not] at first
    simpa only [true_iff] using fun n hn change bound => first n hn ⟨change, bound⟩

/-- A value that is stored at an input is a text for the way a variable is shared, or fits. -/
theorem storable_eq_ok {index : Nat} {value stored : Value}
    (stores : storable n d index value = .ok stored) :
    (n.isVariable ∧ index = syncModeInput ∧ ∃ text, stored = .text text) ∨
      (stored = value ∧ value.fits (d.inputType index)) := by
  unfold storable at stores
  split at stores
  · rename_i mode
    simp only [Bool.and_eq_true, decide_eq_true_eq] at mode
    split at stores
    · cases stores
      exact Or.inl ⟨mode.1, mode.2, _, rfl⟩
    · cases stores
  · split at stores
    · rename_i fits
      cases stores
      exact Or.inr ⟨rfl, fits⟩
    · cases stores

theorem storeValue_eq_ok {index : Nat} {value : Value}
    (stores : g.storeValue n d index value = .ok h) :
    ∃ stored, storable n d index value = .ok stored ∧
      (n.kind = .changeEvent → index = 0 → ∀ uid, stored.text? = some uid →
        g.checkSingleChange uid (some n.uid) = .ok ()) ∧
      h = g.update n.uid fun n => { n with values := n.values.set index stored } := by
  simp only [storeValue, bind_eq_ok] at stores
  obtain ⟨stored, storable, stores⟩ := stores
  refine ⟨stored, storable, ?_⟩
  split at stores
  · split at stores
    · rename_i variableUid text
      simp only [bind_eq_ok, guard_eq_ok, pure_eq_ok] at stores
      obtain ⟨_, single, -, rfl⟩ := stores
      refine ⟨fun _ _ uid named => ?_, rfl⟩
      obtain rfl := Option.some.inj (text.symm.trans named)
      exact single
    · rename_i noText
      simp only [guard_eq_ok, pure_eq_ok] at stores
      refine ⟨fun _ _ uid named => ?_, stores.2.symm⟩
      rw [noText] at named
      cases named
  · rename_i other
    simp only [guard_eq_ok, pure_eq_ok] at stores
    exact ⟨fun change first => absurd ⟨change, first⟩ other, stores.2.symm⟩

/-- What giving an input a value has done: it was stored, but not as the name of a variable, or a
variable was renamed to it, which may have changed nothing. -/
theorem setValue_ok {index : Nat} {value : Value} {changed : Option Graph}
    (sets : g.setValue c uid index value = .ok changed) :
    ∃ n d, g.find? uid = some n ∧ c.find? n.fullName = some d ∧
      ((n.isVariable → index ≠ nameInput) ∧
          (∃ h, g.storeValue n d index value = .ok h ∧ changed = some h) ∨
        n.isVariable ∧ index = nameInput ∧ ∃ name, value.text? = some name ∧
          ∃ given, g.renameVariable uid name = .ok (given, changed)) := by
  simp only [setValue, bind_eq_ok, Prod.exists, placed_eq_ok, guard_eq_ok] at sets
  obtain ⟨n, d, ⟨found, defined⟩, -, sets⟩ := sets
  refine ⟨n, d, found, defined, ?_⟩
  split at sets
  · rename_i place
    rw [Bool.and_eq_true, decide_eq_true_eq] at place
    split at sets
    · rename_i name text
      simp only [bind_eq_ok, pure_eq_ok, Prod.exists] at sets
      obtain ⟨given, _, renames, rfl⟩ := sets
      exact Or.inr ⟨place.1, place.2, name, text, given, renames⟩
    · simp only [throw_eq_ok] at sets
  · rename_i other
    simp only [bind_eq_ok, pure_eq_ok] at sets
    obtain ⟨h, stores, rfl⟩ := sets
    exact Or.inl ⟨fun declares same => other (by simp [declares, same]), h, stores, rfl⟩

theorem setValue_eq_ok {index : Nat} {value : Value}
    (sets : g.setValue c uid index value = .ok (some h)) :
    ∃ n d, g.find? uid = some n ∧ c.find? n.fullName = some d ∧
      ((n.isVariable → index ≠ nameInput) ∧ g.storeValue n d index value = .ok h ∨
        ∃ name given, g.renameVariable uid name = .ok (given, some h)) := by
  obtain ⟨n, d, found, defined, ⟨other, h, stores, same⟩ | ⟨-, -, name, -, renames⟩⟩ :=
    setValue_ok sets
  · cases same
    exact ⟨n, d, found, defined, .inl ⟨other, stores⟩⟩
  · exact ⟨n, d, found, defined, .inr ⟨name, renames⟩⟩

theorem setOverload_eq_ok {fullName : String} (switches : g.setOverload c uid fullName = .ok h) :
    ∃ n d, g.find? uid = some n ∧ (c.find? n.fullName).isSome ∧ d ∈ c.overloads n.fullName ∧
      d.fullName = fullName ∧
      h = (g.update uid (switched d)).mapNodes (dropLinks uid d.outputs.length) := by
  simp only [setOverload, bind_eq_ok, Prod.exists, placed_eq_ok] at switches
  obtain ⟨n, e, ⟨found, defined⟩, switches⟩ := switches
  split at switches
  · simp only [throw_eq_ok] at switches
  · rename_i d offered
    simp only [pure_eq_ok] at switches
    refine ⟨n, d, found, by rw [defined]; rfl, List.mem_of_find?_eq_some offered, ?_, switches.symm⟩
    simpa using List.find?_some offered

theorem removeNode_eq_ok {removed : List Uid} (removes : g.removeNode c uid = .ok (removed, h)) :
    ∃ n, g.find? uid = some n ∧ removed = g.doomed n ∧
      h = (removed.foldl extract g).relayoutBlocks c := by
  simp only [removeNode, bind_eq_ok, get_eq_ok, pure_eq_ok, Prod.mk.injEq] at removes
  obtain ⟨n, found, rfl, rfl⟩ := removes
  exact ⟨n, found, rfl, rfl⟩

end Graph

end ScriptGraph
