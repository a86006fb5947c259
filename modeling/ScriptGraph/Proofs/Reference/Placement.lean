import ScriptGraph.Proofs.Lowering.Composition
import ScriptGraph.Proofs.Reference.Inputs
import Mathlib.Data.List.Pairwise

/-!
Where the places of a graph stand in the heap of its program: cells in the slots of the layout. What
the code of a node keeps is in the slots of its piece, which the chains being run select.
-/

set_option autoImplicit false
set_option relaxedAutoImplicit false

namespace ScriptGraph.Reference

open HeapLayout (Grows Key Sound)
open Lowering (Offers Piece Register Script)

/-! ## Pieces and frames -/

def pieceOf? (pieces : List Piece) (uid : Uid) (exit : Target) : Option Piece :=
  pieces.find? fun piece => piece.key = (uid, exit)

def exitOf? (pieces : List Piece) : List Frame → Option Target
  | [] => some .halt
  | frame :: rest =>
    (exitOf? pieces rest).bind fun exit => (pieceOf? pieces frame.node exit).bind fun piece =>
      piece.inner[frame.part]?.map Target.label

def registerOf? (scripts : List Script) (site : Site) (name : Register) : Option Slot :=
  (scripts.find? fun script => script.name = site.event).bind fun script =>
    (exitOf? script.pieces site.frames).bind fun exit =>
      (pieceOf? script.pieces site.node exit).bind fun piece => piece.registers.lookup name

theorem pieceOf?_eq_some {pieces : List Piece} {uid : Uid} {exit : Target} {piece : Piece}
    (found : pieceOf? pieces uid exit = some piece) :
    piece ∈ pieces ∧ piece.uid = uid ∧ piece.exit = exit := by
  have hkey : piece.key = (uid, exit) := by simpa using List.find?_some found
  exact ⟨List.mem_of_find?_eq_some found, congrArg Prod.fst hkey, congrArg Prod.snd hkey⟩

theorem exitOf?_cons {pieces : List Piece} {frame : Frame} {rest : List Frame} {target : Target} :
    exitOf? pieces (frame :: rest) = some target ↔
      ∃ exit piece label, exitOf? pieces rest = some exit ∧
        pieceOf? pieces frame.node exit = some piece ∧ piece.inner[frame.part]? = some label ∧
        target = .label label := by
  simp only [exitOf?, Option.bind_eq_some_iff, Option.map_eq_some_iff]
  constructor
  · rintro ⟨exit, hexit, piece, hpiece, label, hlabel, rfl⟩
    exact ⟨exit, piece, label, hexit, hpiece, hlabel, rfl⟩
  · rintro ⟨exit, piece, label, hexit, hpiece, hlabel, rfl⟩
    exact ⟨exit, hexit, piece, hpiece, label, hlabel, rfl⟩

theorem registerOf?_eq_some {scripts : List Script} {site : Site} {name : Register} {slot : Slot} :
    registerOf? scripts site name = some slot ↔
      ∃ script exit piece, scripts.find? (fun script => script.name = site.event) = some script ∧
        exitOf? script.pieces site.frames = some exit ∧
        pieceOf? script.pieces site.node exit = some piece ∧
        piece.registers.lookup name = some slot := by
  simp only [registerOf?, Option.bind_eq_some_iff]
  constructor
  · rintro ⟨script, hscript, exit, hexit, piece, hpiece, found⟩
    exact ⟨script, exit, piece, hscript, hexit, hpiece, found⟩
  · rintro ⟨script, exit, piece, hscript, hexit, hpiece, found⟩
    exact ⟨script, hscript, exit, hexit, piece, hpiece, found⟩

private theorem eq_of_mem_flatMap {α β : Type} {as : List α} {parts : α → List β}
    (distinct : (as.flatMap parts).Nodup) {a other : α} (listed : a ∈ as) (also : other ∈ as)
    {b : β} (ha : b ∈ parts a) (hother : b ∈ parts other) : a = other := by
  have apart := (List.nodup_flatMap.mp distinct).2
  by_contra differ
  have symmetric : Std.Symm (Function.onFun List.Disjoint parts) :=
    ⟨fun _ _ disjoint _ listed also => disjoint also listed⟩
  exact apart.forall listed also differ ha hother

theorem exitOf?_injective {pieces : List Piece} (inner : (pieces.flatMap Piece.inner).Nodup)
    {frames others : List Frame} {exit : Target} (found : exitOf? pieces frames = some exit)
    (also : exitOf? pieces others = some exit) : frames = others := by
  induction frames generalizing others exit with
  | nil =>
    obtain rfl := Option.some.inj found
    cases others with
    | nil => rfl
    | cons frame rest =>
      obtain ⟨_, _, _, _, _, _, halted⟩ := exitOf?_cons.mp also
      cases halted
  | cons frame rest ih =>
    obtain ⟨outer, piece, label, hrest, hpiece, hlabel, rfl⟩ := exitOf?_cons.mp found
    cases others with
    | nil => cases also
    | cons other more =>
      obtain ⟨outer', piece', label', hmore, hpiece', hlabel', same⟩ := exitOf?_cons.mp also
      obtain rfl := Target.label.inj same
      obtain ⟨listed, hnode, hexit⟩ := pieceOf?_eq_some hpiece
      obtain ⟨listed', hnode', hexit'⟩ := pieceOf?_eq_some hpiece'
      obtain rfl : piece = piece' := eq_of_mem_flatMap inner listed listed'
        (List.mem_of_getElem? hlabel) (List.mem_of_getElem? hlabel')
      have hframe : frame = other := by
        have hdistinct := (List.nodup_flatMap.mp inner).1 piece listed
        have hinside := (List.getElem?_eq_some_iff.mp hlabel).1
        have hpart : frame.part = other.part :=
          (List.getElem?_inj hinside hdistinct).mp (hlabel.trans hlabel'.symm)
        cases frame
        cases other
        exact congrArg₂ Frame.mk (hnode.symm.trans hnode') hpart
      rw [hframe, ih hrest (hexit ▸ hexit' ▸ hmore)]

/-! ## The memory of a program -/

/-- The slots that pieces keep are granted for nothing, each of them belongs to one piece only, and
so do the places that chains come back to. -/
structure Apart (h : HeapLayout) (scripts : List Script) : Prop where
  slots : (scripts.flatMap Script.slots).Nodup
  free : ∀ slot ∈ scripts.flatMap Script.slots, ∀ key, h.slot? key ≠ some slot
  inner : ∀ script ∈ scripts, (script.pieces.flatMap Piece.inner).Nodup

def placeOf : Key → Place
  | .variable uid => .cell (.variable uid)
  | .output uid index => .cell (.output uid index)
  | .constant _ value => .literal value

/-- Where places stand. -/
inductive Stands (c : Catalog) (g : Graph) (h : HeapLayout) : Place → Slot → Prop where
  | literal {type : String} {value : Value} {slot : Slot} :
    h.slot? (.constant type value) = some slot → Stands c g h (.literal value) slot
  | variable {uid : Uid} {slot : Slot} :
    h.slot? (.variable uid) = some slot → Stands c g h (.cell (.variable uid)) slot
  | output {uid : Uid} {index : Nat} {slot : Slot} : Offers c g uid index →
    h.slot? (.output uid index) = some slot → Stands c g h (.cell (.output uid index)) slot

section Memory

variable {c : Catalog} {g : Graph} {h : HeapLayout} {scripts : List Script}

private theorem mem_slots {piece : Piece} {name : Register} {slot : Slot}
    (found : piece.registers.lookup name = some slot) : slot ∈ piece.slots :=
  List.mem_map.mpr ⟨_, mem_of_lookup_eq_some found, rfl⟩

private theorem registerOf?_listed {site : Site} {name : Register} {slot : Slot}
    (found : registerOf? scripts site name = some slot) :
    slot ∈ scripts.flatMap Script.slots := by
  obtain ⟨script, exit, piece, hscript, hexit, hpiece, hslot⟩ := registerOf?_eq_some.mp found
  refine List.mem_flatMap.mpr ⟨script, List.mem_of_find?_eq_some hscript, ?_⟩
  exact List.mem_flatMap.mpr ⟨piece, (pieceOf?_eq_some hpiece).1, mem_slots hslot⟩

theorem registerOf?_injective (apart : Apart h scripts) {site other : Site} {name also : Register}
    {slot : Slot} (found : registerOf? scripts site name = some slot)
    (shared : registerOf? scripts other also = some slot) : site = other ∧ name = also := by
  obtain ⟨script, exit, piece, hscript, hexit, hpiece, hslot⟩ := registerOf?_eq_some.mp found
  obtain ⟨script', exit', piece', hscript', hexit', hpiece', hslot'⟩ :=
    registerOf?_eq_some.mp shared
  have listed := List.mem_of_find?_eq_some hscript
  obtain ⟨hmem, hnode, rfl⟩ := pieceOf?_eq_some hpiece
  obtain ⟨hmem', hnode', rfl⟩ := pieceOf?_eq_some hpiece'
  have inside := List.mem_flatMap.mpr ⟨piece, hmem, mem_slots hslot⟩
  have inside' := List.mem_flatMap.mpr ⟨piece', hmem', mem_slots hslot'⟩
  obtain rfl : script = script' := eq_of_mem_flatMap apart.slots listed
    (List.mem_of_find?_eq_some hscript') inside inside'
  have within := (List.nodup_flatMap.mp apart.slots).1 script listed
  obtain rfl : piece = piece' :=
    eq_of_mem_flatMap within hmem hmem' (mem_slots hslot) (mem_slots hslot')
  have hframes : site.frames = other.frames :=
    exitOf?_injective (apart.inner script listed) hexit hexit'
  have hevent : site.event = other.event := by
    have hname : script.name = site.event := by simpa using List.find?_some hscript
    have hname' : script.name = other.event := by simpa using List.find?_some hscript'
    exact hname.symm.trans hname'
  have distinct := (List.nodup_flatMap.mp within).1 piece hmem
  have same := List.inj_on_of_nodup_map distinct (mem_of_lookup_eq_some hslot)
    (mem_of_lookup_eq_some hslot') rfl
  refine ⟨?_, congrArg Prod.fst same⟩
  cases site
  cases other
  simp only [Site.mk.injEq]
  exact ⟨hevent, hframes, hnode.symm.trans hnode'⟩

private theorem Stands.key {place : Place} {slot : Slot} (stands : Stands c g h place slot) :
    ∃ key, h.slot? key = some slot ∧ place = placeOf key := by
  cases stands with
  | literal granted => exact ⟨_, granted, rfl⟩
  | «variable» granted => exact ⟨_, granted, rfl⟩
  | output _ granted => exact ⟨_, granted, rfl⟩

def memoryOf (c : Catalog) (g : Graph) (sound : Sound h) (apart : Apart h scripts) : Memory where
  stands := Stands c g h
  keeps site name slot := registerOf? scripts site name = some slot
  injective := by
    intro place other slot first second
    obtain ⟨key, granted, rfl⟩ := first.key
    obtain ⟨key', granted', rfl⟩ := second.key
    rw [sound.injective key key' slot granted granted']
  functional := by
    intro place slot other writable first second
    cases first with
    | literal _ => cases writable
    | «variable» granted =>
      cases second with
      | «variable» also => exact Option.some.inj (granted.symm.trans also)
    | output _ granted =>
      cases second with
      | output _ also => exact Option.some.inj (granted.symm.trans also)
  apart := by
    intro site name place slot found stands
    obtain ⟨key, granted, -⟩ := stands.key
    exact apart.free slot (registerOf?_listed found) key granted
  single := registerOf?_injective apart

theorem memoryOf_houses (sound : Sound h) (apart : Apart h scripts) :
    (memoryOf c g sound apart).Houses c g h :=
  ⟨fun _ _ _ => Stands.literal, fun _ _ => Stands.variable, fun _ _ _ => Stands.output⟩

/-! ## The heap before any event has run -/

theorem variable_slot (distinct : g.uids.Nodup) (grows : Grows (.ofGraph c g) h) {index : Nat}
    {n : Node} (found : g.variableNodes[index]? = some n) :
    h.slot? (.variable n.uid) = some index ∧
      h.symbols.toList[index]? = some (HeapLayout.variableSymbol n) := by
  have hvariables := Graph.variableNodes_distinct distinct
  obtain ⟨hsymbols, hslots⟩ := HeapLayout.ofGraph_slots c hvariables
  have inside := (List.getElem?_eq_some_iff.mp found).1
  constructor
  · have listed := HeapLayout.ofGraph_variable_isSome c (List.mem_of_getElem? found)
    obtain ⟨slot, hslot⟩ := Option.isSome_iff_exists.mp listed
    obtain ⟨m, hm, same⟩ := hslots (.variable n.uid) slot hslot
    have huid : g.variableNodes[index]?.map Node.uid = g.variableNodes[slot]?.map Node.uid := by
      rw [found, hm]
      exact congrArg some (Key.variable.inj same)
    rw [← List.getElem?_map, ← List.getElem?_map] at huid
    have hindex := (List.getElem?_inj (by rwa [List.length_map]) hvariables).mp huid
    exact hindex ▸ grows.kept _ _ hslot
  · obtain ⟨more, hmore⟩ := grows.symbols
    rw [hmore, hsymbols, List.getElem?_append_left (by rwa [List.length_map]), List.getElem?_map,
      found]
    rfl

private theorem variable_starts (distinct : g.uids.Nodup) (grows : Grows (.ofGraph c g) h) {uid : Uid}
    {slot : Slot} (granted : h.slot? (.variable uid) = some slot) :
    (h.symbols[slot]?).map Symbol.default = some (initialCell c g (.variable uid)) := by
  have hvariables := Graph.variableNodes_distinct distinct
  obtain ⟨hsymbols, hslots⟩ := HeapLayout.ofGraph_slots c hvariables
  have early : (HeapLayout.ofGraph c g).slot? (.variable uid) = some slot := by
    rw [← granted]
    exact congrArg (List.lookup uid) grows.variableSlots.symm
  obtain ⟨n, hn, same⟩ := hslots _ _ early
  obtain rfl := Key.variable.inj same
  have listed := (Graph.mem_variableNodes.mp (List.mem_of_getElem? hn)).1
  have declared : (((HeapLayout.ofGraph c g).symbols[slot]?).map Symbol.default) =
      some (n.values[valueInput]?.getD .null) := by
    rw [← Array.getElem?_toList, hsymbols, List.getElem?_map, hn]
    rfl
  have found : g.find? n.uid = some n := Graph.find?_of_mem distinct listed
  rw [Lowering.symbol_kept grows declared, initialCell, found]
  rfl

private theorem output_starts (distinct : g.uids.Nodup) (grows : Grows (.ofGraph c g) h)
    (sound : Sound h) {uid : Uid} {index : Nat} {slot : Slot} (offers : Offers c g uid index)
    (granted : h.slot? (.output uid index) = some slot) :
    (h.symbols[slot]?).map Symbol.default = some (initialCell c g (.output uid index)) := by
  obtain ⟨n, d, found, defined, inside⟩ := offers
  have placed : placed? c g uid = some (n, d) := placed?_eq_some.mpr ⟨found, defined⟩
  have htypes : h.outputTypes.lookup uid =
      some (d.outputs.map fun p => p.type.getD objectType) := by
    rw [grows.types, HeapLayout.ofGraph_outputTypes]
    exact Lowering.outputTypesOf_lookup distinct found defined
  refine sound.starts _ _ _ granted ?_
  simp [HeapLayout.start?, HeapLayout.outputType, htypes, initialCell, placed,
    List.getElem?_eq_getElem inside]

theorem memoryOf_initial {σ : Type} (distinct : g.uids.Nodup) (grows : Grows (.ofGraph c g) h)
    (sound : Sound h) (apart : Apart h scripts)
    (prepared : ∀ script ∈ scripts, ∀ piece ∈ script.pieces, ∀ entry ∈ piece.registers,
      (h.symbols[entry.2]?).map Symbol.default = some entry.1.default) (state : σ) :
    (memoryOf c g sound apart).Holds (World.initial c g state)
      (h.symbols.toList.map Symbol.default).toArray := by
  refine ⟨fun place slot stands => ?_, fun site name slot found => ?_⟩
  · rw [List.getElem?_toArray, List.getElem?_map, Array.getElem?_toList]
    cases stands with
    | literal granted => exact sound.starts _ _ _ granted rfl
    | «variable» granted => exact variable_starts distinct grows granted
    | output offers granted => exact output_starts distinct grows sound offers granted
  · obtain ⟨script, exit, piece, hscript, -, hpiece, hslot⟩ := registerOf?_eq_some.mp found
    have there := prepared script (List.mem_of_find?_eq_some hscript) piece
      (pieceOf?_eq_some hpiece).1 _ (mem_of_lookup_eq_some hslot)
    obtain ⟨symbol, listed, -⟩ := Option.map_eq_some_iff.mp there
    rw [List.size_toArray, List.length_map, Array.length_toList]
    exact (Array.getElem?_eq_some_iff.mp listed).1

end Memory

end ScriptGraph.Reference
