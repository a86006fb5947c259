import ScriptGraph.Proofs.Session.Marks
import Mathlib.Data.List.Induction

/-!
The last program of a session is that of its graph, unless an edit has told that the graph has
changed.
-/

set_option autoImplicit false
set_option relaxedAutoImplicit false

namespace ScriptGraph.Session

variable {c : Catalog} {s t : Session}

/-! ## Compiling -/

theorem compile_error {error : CompileError} (fails : s.compile.1 = .error error) :
    s.compile.2.graph = s.graph ∧ s.compile.2.layout = s.layout ∧
      s.compile.2.program = s.program := by
  unfold compile at *
  split at fails
  · cases fails
  · exact ⟨rfl, rfl, rfl⟩
  · exact ⟨rfl, rfl, rfl⟩

theorem compile_dirty (s : Session) : s.compile.2.dirty = false := by
  unfold compile
  split <;> rfl

theorem compile_repairing (s : Session) : s.compile.2.repairing = s.repairing := by
  unfold compile
  split <;> rfl

theorem compile_fst (s : Session) : s.compile.1 =
    (s.graph.compile s.catalog s.settings.strict).map Compilation.program := by
  unfold compile
  split
  all_goals
    rename_i outcome
    rw [outcome]
    rfl

theorem perform_tick (s : Session) : (s.perform .tick).2 = s.tick.2 := by
  simp only [perform]
  split
  · rename_i outcome
    rw [settle_snd, outcome]
  · rename_i outcome
    rw [outcome]

/-! ## Histories -/

def compiled? (s : Session) : Action → Option (Except CompileError Program)
  | .compile => some s.compile.1
  | .tick => s.tick.1
  | _ => none

/-- What the compilations of a history give. -/
def compilations (s : Session) : List Action → List (Except CompileError Program)
  | [] => []
  | action :: actions => (s.compiled? action).toList ++ (s.perform action).2.compilations actions

theorem after_append (s : Session) (first second : List Action) :
    s.after (first ++ second) = (s.after first).after second :=
  List.foldl_append

theorem compilations_append (s : Session) (first second : List Action) :
    s.compilations (first ++ second) =
      s.compilations first ++ (s.after first).compilations second := by
  induction first generalizing s with
  | nil => rfl
  | cons action first ih =>
    rw [List.cons_append, compilations, ih, compilations, List.append_assoc]
    rfl

/-- Unless it has been told that the graph has changed, the program that the last compilation gave is
the last program of the session, and that of the graph. -/
def Coherent (s : Session) (last : Option (Except CompileError Program)) : Prop :=
  s.repairing = false → s.dirty = false → ∀ p, last = some (.ok p) →
    s.program = some p ∧ s.graph.program s.catalog = .ok p

theorem Marks.coherent (marks : Marks s t) (catalog : t.catalog = s.catalog)
    {last : Option (Except CompileError Program)} (coherent : s.Coherent last) : t.Coherent last := by
  intro steady clean p given
  rw [marks.kept, catalog]
  rcases marks.told with broken | dirty | ⟨repairing, same, program⟩
  · cases steady.symm.trans broken
  · cases clean.symm.trans dirty
  · rw [program]
    exact coherent (repairing ▸ steady) (same ▸ clean) p given

theorem compile_coherent (s : Session) : s.compile.2.Coherent (some s.compile.1) := by
  unfold compile
  split
  · rename_i k compiles
    intro _ _ p given
    cases given
    exact ⟨rfl, Graph.program_of_compile compiles⟩
  · intro _ _ p given
    cases given
  · intro _ _ p given
    cases given

theorem perform_coherent (fresh : s.supply.Fresh s.graph.uids)
    {last : Option (Except CompileError Program)} (coherent : s.Coherent last) (action : Action) :
    (s.perform action).2.Coherent ((s.compiled? action).or last) := by
  by_cases edits : action.edits
  · have silent : s.compiled? action = none := by
      cases action <;> first | rfl | cases edits
    rw [silent, Option.none_or]
    exact (perform_marks fresh edits).coherent (s.perform_makes action).catalog coherent
  · cases action <;> first | exact absurd rfl edits | skip
    case compile =>
      rw [perform, settle_snd]
      exact s.compile_coherent
    case tick =>
      rw [perform_tick, compiled?, tick_eq]
      split
      · exact s.compile_coherent
      · exact coherent

theorem after_fresh (fresh : s.supply.Fresh s.graph.uids) (actions : List Action) :
    (s.after actions).catalog = s.catalog ∧
      (s.after actions).supply.Fresh (s.after actions).graph.uids :=
  after_induct (fun g p => p.Fresh g.uids) s (fun _ _ _ _ _ _ change => change.fresh) fresh

theorem after_last (fresh : s.supply.Fresh s.graph.uids) (actions : List Action) :
    (s.after actions).Coherent (s.compilations actions).getLast? := by
  induction actions using List.reverseRecOn with
  | nil =>
    intro _ _ p given
    cases given
  | append_singleton actions action ih =>
    have last : (s.compilations (actions ++ [action])).getLast? =
        ((s.after actions).compiled? action).or (s.compilations actions).getLast? := by
      rw [compilations_append, List.getLast?_append]
      change (((s.after actions).compiled? action).toList ++ []).getLast?.or _ = _
      cases (s.after actions).compiled? action <;> rfl
    rw [last, after_append]
    exact perform_coherent (after_fresh fresh actions).2 ih action

/-! ## Edits between ticks -/

theorem after_program (fresh : s.supply.Fresh s.graph.uids) {actions : List Action}
    (edits : ∀ action ∈ actions, action.edits) :
    (s.after actions).program = s.program ∧ s.compilations actions = [] := by
  induction actions generalizing s with
  | nil => exact ⟨rfl, rfl⟩
  | cons action actions ih =>
    rw [List.forall_mem_cons] at edits
    have first := perform_marks fresh edits.1
    have rest := ih (after_fresh fresh [action]).2 edits.2
    have silent : s.compiled? action = none := by
      cases action <;> first | rfl | cases edits.1
    refine ⟨rest.1.trans first.kept, ?_⟩
    rw [compilations, silent, Option.toList_none, List.nil_append]
    exact rest.2

theorem tick_tick (s : Session) : s.tick.2.tick.1 = none := by
  by_cases pending : s.dirty && s.settings.autoCompile && !s.repairing
  · rw [tick_eq s, if_pos pending, tick_eq, compile_dirty]
    rfl
  · rw [tick_eq s, if_neg pending, tick_eq, if_neg pending]

theorem tick_compilations (s : Session) : s.compilations [.tick] = [] ∨ s.compilations [.tick] =
    [(s.graph.compile s.catalog s.settings.strict).map Compilation.program] := by
  change s.tick.1.toList ++ [] = [] ∨ s.tick.1.toList ++ [] = _
  rw [tick_eq, compile_fst]
  split
  · exact .inr rfl
  · exact .inl rfl

/-! ## Repairs that are broken off -/

theorem Begun.steady {sort : Asset → Prop} (begun : s.Begun c sort) : s.repairing = false := by
  cases begun with
  | created => rfl
  | opened _ _ opens =>
    unfold ofAsset at opens
    split at opens
    · cases opens
    · rename_i outcome
      cases opens
      unfold reload at outcome
      dsimp only at outcome
      split at outcome <;> cases outcome
      rfl

theorem perform_whole (fresh : s.supply.Fresh s.graph.uids) {action : Action}
    (broken : (s.perform action).2.repairing = true) : s.repairing = true ∨ s.catalog.Short := by
  by_cases edits : action.edits
  · exact (perform_marks fresh edits).whole broken
  · cases action <;> first | exact absurd rfl edits | skip
    case compile =>
      rw [perform, settle_snd, compile_repairing] at broken
      exact .inl broken
    case tick =>
      rw [perform_tick, tick_eq] at broken
      split at broken
      · dsimp only at broken
        rw [compile_repairing] at broken
        exact .inl broken
      · exact .inl broken

theorem after_whole (fresh : s.supply.Fresh s.graph.uids) {actions : List Action}
    (broken : (s.after actions).repairing = true) : s.repairing = true ∨ s.catalog.Short := by
  induction actions generalizing s with
  | nil => exact .inl broken
  | cons action actions ih =>
    have catalog := (s.perform_makes action).catalog
    rcases ih (after_fresh fresh [action]).2 broken with broken | short
    · exact perform_whole fresh broken
    · exact .inr (catalog ▸ short)

/-! ## The last program -/

/-- In every state of a session: unless it has been told that the graph has changed, the last program,
if the last compilation gave one, is what compiling the graph leniently gives; a failed compilation
leaves the graph, its layout and the last program; and edits compile nothing until the next tick, which
compiles the graph as it then is or does nothing, and leaves nothing to do for the tick after it. The
first of these leaves out sessions in the middle of a repair, in which they are only found if it was
broken off because the variable for the return value has no input for its name. -/
theorem after_coherent (begun : s.Begun c fun _ => True) (actions : List Action) :
    ((s.after actions).repairing = false → (s.after actions).dirty = false →
      ∀ p, (s.compilations actions).getLast? = some (.ok p) →
        (s.after actions).program = some p ∧
          ∃ k, (s.after actions).graph.compile c false = .ok k ∧ k.program = p) ∧
    ((s.after actions).repairing = true → c.Short) ∧
    (∀ error, (s.after actions).compile.1 = .error error →
      (s.after actions).compile.2.graph = (s.after actions).graph ∧
        (s.after actions).compile.2.layout = (s.after actions).layout ∧
          (s.after actions).compile.2.program = (s.after actions).program) ∧
    ∀ edits : List Action, (∀ action ∈ edits, action.edits) →
      (s.after (actions ++ edits)).program = (s.after actions).program ∧
      ((s.after actions).compilations (edits ++ [.tick]) = [] ∨
        (s.after actions).compilations (edits ++ [.tick]) =
          [((s.after (actions ++ edits)).graph.compile c
            (s.after (actions ++ edits)).settings.strict).map Compilation.program]) ∧
      (s.after (actions ++ edits ++ [.tick])).tick.1 = none := by
  obtain ⟨rfl, fresh⟩ := begun.fresh
  obtain ⟨catalog, fresh'⟩ := after_fresh fresh actions
  refine ⟨fun steady clean p given => ?_, fun broken => ?_, fun error fails => compile_error fails,
    fun edits editing => ?_⟩
  · obtain ⟨kept, program⟩ := after_last fresh actions steady clean p given
    rw [catalog] at program
    exact ⟨kept, Graph.compile_of_program program⟩
  · refine (after_whole fresh broken).resolve_left fun began => ?_
    cases begun.steady.symm.trans began
  · obtain ⟨kept, silent⟩ := after_program fresh' editing
    have same := (after_fresh fresh (actions ++ edits)).1
    rw [← after_append] at kept
    refine ⟨kept, ?_, ?_⟩
    · rw [compilations_append, silent, List.nil_append, ← after_append]
      have once := (s.after (actions ++ edits)).tick_compilations
      rwa [same] at once
    · rw [after_append _ _ [Action.tick]]
      change ((s.after (actions ++ edits)).perform .tick).2.tick.1 = none
      rw [perform_tick, tick_tick]

def untyped : Catalog := (Catalog.empty.extend
  [(Definition.bare "Event_Start").withFlow [""],
    { (Definition.bare Kind.setReturnValueName).withFlow [""] with
      inputs := [⟨"name", some textType, .text ""⟩, ⟨"value", none, .null⟩] }]).1

/-- After the event is compiled, it is moved, and the other node is added without its variable. -/
def untold : List Action :=
  [.addNode "Event_Start" .origin, .compile, .moveNode "||" ⟨⟨0x3f800000⟩, .zero⟩,
    .addNode Kind.setReturnValueName .origin]

theorem after_coherent_untold : ∃ k,
    ((create untyped .default .strokes).after untold).graph.compile untyped false = .ok k ∧
      ((create untyped .default .strokes).after untold).program = some k.program := by
  obtain ⟨current, -⟩ := after_coherent (c := untyped)
    (.created .default (Supply.strokes_fresh (by simp))) untold
  have compiles : ((create untyped .default .strokes).compilations untold).getLast?.any
      Except.isOk := by decide +kernel
  rw [Option.any_eq_true] at compiles
  obtain ⟨_, last, passed⟩ := compiles
  obtain ⟨p, rfl⟩ := exists_eq_ok passed
  obtain ⟨kept, k, compiles, rfl⟩ := current (by decide +kernel) (by decide +kernel) p last
  exact ⟨k, compiles, kept⟩

end ScriptGraph.Session
