import ScriptGraph.Code.Assembly
import ScriptGraph.Proofs.Lowering.Closed

/-!
The streams of a graph. Each is closed in itself, and their names are those of the first events that
claim them.
-/

set_option autoImplicit false
set_option relaxedAutoImplicit false

namespace ScriptGraph.Lowering

open HeapLayout (Grows Sound)

/-! ## Entry points -/

def claimedName? (g : Graph) (n : Node) : Option String :=
  match n.kind with
  | .customEvent =>
    let name := (n.values[0]?.bind Value.text?).getD ""
    if name = "" then none else some name
  | .changeEvent => (g.targetName? n).map changeEntryName
  | _ => some (eventEntryName n.fullName)

def claimant? (c : Catalog) (g : Graph) (nodes : List Node) (name : String) : Option Node :=
  nodes.find? fun n => (c.find? n.fullName).isSome && claimedName? g n == some name

theorem entryName?_eq (g : Graph) (n : Node) :
    entryName? g n =
      if n.kind = .customEvent ∧ claimedName? g n = none then do
        report n.uid .unnamedEvent
        return none
      else return claimedName? g n := by
  unfold entryName? claimedName?
  cases n.kind <;> try rfl
  generalize (n.values[0]?.bind Value.text?).getD "" = name
  by_cases unnamed : name = ""
  · simp [unnamed]
  · simp [unnamed]

def namingReports (g : Graph) (n : Node) : List Diagnostic :=
  if n.kind = .customEvent ∧ claimedName? g n = none then [⟨n.uid, .unnamedEvent⟩] else []

theorem entryName?_apply (g : Graph) (n : Node) (s : Lowering) :
    entryName? g n s =
      .ok (claimedName? g n, { s with diagnostics := s.diagnostics ++ namingReports g n }) := by
  rw [entryName?_eq, namingReports]
  split
  · rename_i unnamed
    rw [unnamed.2]
    rfl
  · rw [List.append_nil]
    rfl

private theorem entryName?_eq_ok {g : Graph} {n : Node} {name : Option String} {s t : Lowering}
    (given : entryName? g n s = .ok (name, t)) : name = claimedName? g n ∧ Prepares s t := by
  rw [entryName?_apply, Except.ok.injEq, Prod.mk.injEq] at given
  obtain ⟨rfl, rfl⟩ := given
  exact ⟨rfl, Grows.refl s.heap, id, rfl, rfl⟩

private theorem nameParameters_prepares {uid : Uid} {entry : String} {index : Nat}
    {parameters : List Parameter} {s t : Lowering}
    (given : nameParameters uid entry index parameters s = .ok ((), t)) : Prepares s t := by
  induction parameters generalizing index s with
  | nil =>
    obtain ⟨-, rfl⟩ := pure_eq_ok.mp given
    exact Prepares.refl s
  | cons p rest ih =>
    simp only [nameParameters, bind_eq_ok, onHeapOrFail_eq_ok] at given
    obtain ⟨slot, r, ⟨heap, hslot, rfl⟩, hrest⟩ := given
    have grants := HeapLayout.namedOutputSlot_grants hslot
    have first : Prepares s { s with heap } := ⟨grants.grows, grants.sound, rfl, rfl⟩
    exact first.trans (ih hrest)

/-- The entry points found: distinct names, each with the first defined event that claims it. -/
structure Enters (c : Catalog) (g : Graph) (taken : List String) (nodes : List Node)
    (found : List (String × Node)) : Prop where
  distinct : (found.map Prod.fst).Nodup
  free : ∀ name ∈ found.map Prod.fst, name ∉ taken
  lookup : ∀ name, found.lookup name =
    if taken.contains name then none else claimant? c g nodes name

namespace Enters

variable {c : Catalog} {g : Graph} {taken : List String} {n : Node} {nodes : List Node}
  {found : List (String × Node)}

private theorem nil : Enters c g taken [] [] :=
  ⟨List.nodup_nil, by simp, by simp [claimant?]⟩

private theorem skip (enters : Enters c g taken nodes found)
    (passed : c.find? n.fullName = none ∨ claimedName? g n = none ∨
      ∃ name, claimedName? g n = some name ∧ name ∈ taken) :
    Enters c g taken (n :: nodes) found := by
  refine ⟨enters.distinct, enters.free, fun name => ?_⟩
  rw [enters.lookup]
  split
  · rfl
  · rename_i free
    have hn : ((c.find? n.fullName).isSome && claimedName? g n == some name) = false := by
      rcases passed with undefined | unnamed | ⟨other, named, htaken⟩
      · simp [undefined]
      · simp [unnamed]
      · have hne : other ≠ name := by
          rintro rfl
          exact free (List.contains_iff_mem.mpr htaken)
        simp [named, hne]
    rw [claimant?, claimant?, List.find?_cons, hn]

private theorem cons {name : String} (enters : Enters c g (name :: taken) nodes found)
    (defined : (c.find? n.fullName).isSome) (named : claimedName? g n = some name)
    (free : name ∉ taken) : Enters c g taken (n :: nodes) ((name, n) :: found) := by
  refine ⟨?_, ?_, fun other => ?_⟩
  · refine List.nodup_cons.mpr ⟨fun listed => ?_, enters.distinct⟩
    exact enters.free name listed List.mem_cons_self
  · intro other listed
    rcases List.mem_cons.mp listed with rfl | listed
    · exact free
    · exact fun htaken => enters.free other listed (List.mem_cons_of_mem _ htaken)
  · rw [lookup_cons_eq, enters.lookup]
    simp only [claimant?, List.find?_cons]
    by_cases same : other = name
    · subst same
      simp [defined, named, free]
    · have hother : ((c.find? n.fullName).isSome && claimedName? g n == some other) = false := by
        simp [named, Ne.symm same]
      simp [same, hother]

theorem node_mem (enters : Enters c g taken nodes found) {entry : String × Node}
    (listed : entry ∈ found) : entry.2 ∈ nodes := by
  have hlookup := lookup_eq_some_of_mem enters.distinct (show (entry.1, entry.2) ∈ found from listed)
  rw [enters.lookup] at hlookup
  split at hlookup
  · cases hlookup
  · exact List.mem_of_find?_eq_some hlookup

end Enters

theorem entries_eq_ok {c : Catalog} {g : Graph} {taken : List String} {nodes : List Node}
    {found : List (String × Node)} {s t : Lowering}
    (given : entries c g taken nodes s = .ok (found, t)) :
    Enters c g taken nodes found ∧ Prepares s t := by
  induction nodes generalizing taken found s with
  | nil =>
    obtain ⟨rfl, rfl⟩ := pure_eq_ok.mp given
    exact ⟨Enters.nil, Prepares.refl s⟩
  | cons n nodes ih =>
    rw [entries] at given
    cases hdefinition : c.find? n.fullName with
    | none =>
      simp only [hdefinition] at given
      obtain ⟨enters, prepares⟩ := ih given
      exact ⟨enters.skip (Or.inl hdefinition), prepares⟩
    | some d =>
      simp only [hdefinition, bind_eq_ok] at given
      obtain ⟨claimed, r, hname, given⟩ := given
      obtain ⟨rfl, naming⟩ := entryName?_eq_ok hname
      cases named : claimedName? g n with
      | none =>
        simp only [named] at given
        obtain ⟨enters, prepares⟩ := ih given
        exact ⟨enters.skip (Or.inr (Or.inl named)), naming.trans prepares⟩
      | some name =>
        simp only [named] at given
        split at given
        · rename_i htaken
          simp only [bind_eq_ok] at given
          obtain ⟨⟨⟩, q, hreport, given⟩ := given
          obtain ⟨enters, prepares⟩ := ih given
          refine ⟨enters.skip (Or.inr (Or.inr ⟨name, named, List.contains_iff_mem.mp htaken⟩)), ?_⟩
          exact (naming.trans (report_prepares hreport)).trans prepares
        · rename_i free
          simp only [bind_eq_ok, pure_eq_ok] at given
          obtain ⟨⟨⟩, q, hparameters, others, u, hrest, rfl, rfl⟩ := given
          obtain ⟨enters, prepares⟩ := ih hrest
          refine ⟨enters.cons (by simp [hdefinition]) named ?_, ?_⟩
          · exact fun htaken => free (List.contains_iff_mem.mpr htaken)
          · exact (naming.trans (nameParameters_prepares hparameters)).trans prepares

/-! ## Streams -/

/-- Code that is closed in itself: it jumps only to places that it marks itself, or to the end. -/
structure SelfContained (ops : List Op) : Prop where
  closed : ∀ target ∈ targets ops, target = .halt ∨ ∃ label ∈ marks ops, target = .label label
  ends : ∃ target, ops.getLast? = some (.jump target)

/-- Streams emitted one after the other. -/
structure Streams (s : Lowering) (streams : List Stream) (t : Lowering) : Prop where
  grows : Grows s.heap t.heap
  sound : Sound t.heap
  le : s.nextLabel ≤ t.nextLabel
  fresh : Fresh s.nextLabel t.nextLabel (marks (Assembly.allOps streams))
  below : SlotsBelow t.heap.size (Assembly.allOps streams)
  contained : ∀ stream ∈ streams, SelfContained stream.ops

theorem stream_eq_ok {c : Catalog} {g : Graph} {name : String} {n : Node} {result : Stream}
    {s t : Lowering} (given : stream c g name n s = .ok (result, t)) :
    result.name = name ∧ port (chain c g (g.nodes.length + 1)) n 0 .halt { s with emitted := [] } =
      .ok (result.ops, t) := by
  simp only [stream, bind_eq_ok, pure_eq_ok] at given
  obtain ⟨⟨⟩, r, hmodify, ops, q, hport, rfl, rfl⟩ := given
  cases hmodify
  exact ⟨rfl, hport⟩

private theorem stream_contained {c : Catalog} {g : Graph} {name : String} {n : Node}
    {result : Stream} {s t : Lowering} (sound : Sound s.heap)
    (given : stream c g name n s = .ok (result, t)) :
    Emits .halt { s with emitted := [] } result.ops t ∧ SelfContained result.ops := by
  obtain ⟨-, hport⟩ := stream_eq_ok given
  have emits := port_emits (s := { s with emitted := [] }) (chain_emits c g _) sound hport
  refine ⟨emits, ?_, emits.ends⟩
  intro target htarget
  rcases emits.closed target htarget with hexit | hknown
  · exact Or.inl hexit
  · cases target with
    | halt => exact Or.inl rfl
    | label label =>
      rcases hknown with hnoted | hmarked
      · exact absurd hnoted (by simp [noted])
      · exact Or.inr ⟨label, hmarked, rfl⟩

theorem mapM_stream_names {c : Catalog} {g : Graph} {found : List (String × Node)}
    {results : List Stream} {s t : Lowering}
    (given : found.mapM (fun entry => stream c g entry.1 entry.2) s = .ok (results, t)) :
    results.map Stream.name = found.map Prod.fst := by
  induction found generalizing s results with
  | nil =>
    obtain ⟨rfl, -⟩ := mapM_nil_eq_ok.mp given
    rfl
  | cons entry found ih =>
    obtain ⟨first, r, others, hfirst, hothers, rfl⟩ := mapM_cons_eq_ok.mp given
    rw [List.map_cons, List.map_cons, ih hothers, (stream_eq_ok hfirst).1]

private theorem mapM_stream_streams {c : Catalog} {g : Graph} {found : List (String × Node)}
    {results : List Stream} {s t : Lowering} (sound : Sound s.heap)
    (given : found.mapM (fun entry => stream c g entry.1 entry.2) s = .ok (results, t)) :
    Streams s results t := by
  induction found generalizing s results with
  | nil =>
    obtain ⟨rfl, rfl⟩ := mapM_nil_eq_ok.mp given
    exact ⟨Grows.refl s.heap, sound, Nat.le_refl _, Fresh.nil _ _, by simp [Assembly.allOps],
      by simp⟩
  | cons entry found ih =>
    obtain ⟨first, r, others, hfirst, hothers, rfl⟩ := mapM_cons_eq_ok.mp given
    obtain ⟨emits, contained⟩ := stream_contained sound hfirst
    have rest := ih emits.sound hothers
    have hops : Assembly.allOps (first :: others) = first.ops ++ Assembly.allOps others :=
      List.flatMap_cons
    refine ⟨emits.grows.trans rest.grows, rest.sound, Nat.le_trans emits.le rest.le, ?_, ?_, ?_⟩
    · rw [hops, marks_append]
      exact emits.fresh.append rest.fresh emits.le rest.le
    · rw [hops, SlotsBelow.append_iff]
      exact ⟨emits.below.mono rest.grows.size_le, rest.below⟩
    · intro stream hstream
      rcases List.mem_cons.mp hstream with rfl | hstream
      · exact contained
      · exact rest.contained stream hstream

theorem streams_eq_ok {c : Catalog} {g : Graph} {results : List Stream} {s t : Lowering}
    (sound : Sound s.heap) (given : streams c g s = .ok (results, t)) :
    ∃ found r, Enters c g [] g.eventNodes found ∧ Prepares s r ∧ Streams r results t ∧
      results.map Stream.name = found.map Prod.fst ∧
      found.mapM (fun entry => stream c g entry.1 entry.2) r = .ok (results, t) := by
  simp only [streams, bind_eq_ok] at given
  obtain ⟨found, r, hentries, hstreams⟩ := given
  obtain ⟨enters, prepares⟩ := entries_eq_ok hentries
  exact ⟨found, r, enters, prepares, mapM_stream_streams (prepares.sound sound) hstreams,
    mapM_stream_names hstreams, hstreams⟩

end ScriptGraph.Lowering
