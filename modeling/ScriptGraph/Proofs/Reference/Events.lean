import ScriptGraph.Proofs.Program.Slices
import ScriptGraph.Proofs.Reference.Flows

/-!
The code of an event does what running the event does, and so does that of the events that it sends to
the program itself.
-/

set_option autoImplicit false
set_option relaxedAutoImplicit false

namespace ScriptGraph.Reference

open Assembly (Standing addressOf allOps)
open HeapLayout (Grows Sound)
open Lowering (Enters Listing Script claimant?)

variable {σ : Type} {c : Catalog} {g : Graph}

def streamsOf (scripts : List Script) : List Stream :=
  scripts.map fun script => ⟨script.name, script.ops⟩

/-- A program that was made of the scripts of all events of a graph. -/
structure Scripted (c : Catalog) (g : Graph) (h : HeapLayout) (scripts : List Script) (p : Program) :
    Prop where
  enters : Enters c g [] g.eventNodes (scripts.map fun script => (script.name, script.node))
  within : ∀ script ∈ scripts, script.Within c g ⟨allOps (streamsOf scripts), script.emitted, h⟩
  distinct : (marks (allOps (streamsOf scripts))).Nodup
  inhabited : Assembly.Inhabited (streamsOf scripts)
  grows : Grows (.ofGraph c g) h
  sound : Sound h
  apart : Apart h scripts
  entryPoints : p.entryPoints = Assembly.entries 0 (streamsOf scripts)
  instructions : p.instructions =
    Assembly.encoded (addressOf (allOps (streamsOf scripts))) (allOps (streamsOf scripts))
  symbols : p.symbols = h.symbols.toList

namespace Scripted

variable {h : HeapLayout} {scripts : List Script} {p : Program}

def setting (scripted : Scripted c g h scripts p) {host : Host σ} {alike : σ → σ → Prop}
    (forgets : host.Forgets alike) (room : p.instructions.length ≤ haltAddress) : Setting σ where
  program := p
  ops := allOps (streamsOf scripts)
  host := host
  alike := alike
  memory := memoryOf c g scripted.sound scripted.apart
  instructions := scripted.instructions
  distinct := scripted.distinct
  room := room
  forgets := forgets

theorem names (scripted : Scripted c g h scripts p) : (scripts.map Script.name).Nodup := by
  have distinct := scripted.enters.distinct
  rwa [List.map_map] at distinct

theorem find?_of_mem (scripted : Scripted c g h scripts p) {script : Script}
    (listed : script ∈ scripts) :
    scripts.find? (fun other => other.name = script.name) = some script := by
  cases found : scripts.find? fun other => decide (other.name = script.name) with
  | none =>
    exact absurd (decide_eq_true rfl) (List.find?_eq_none.mp found script listed)
  | some other =>
    have same : other.name = script.name := by simpa using List.find?_some found
    rw [List.inj_on_of_nodup_map scripted.names (List.mem_of_find?_eq_some found) listed same]

theorem eventOf?_eq (scripted : Scripted c g h scripts p) (name : String) :
    eventOf? c g name = (scripts.map fun script => (script.name, script.node)).lookup name := by
  have found := scripted.enters.lookup name
  simp only [List.contains_nil, Bool.false_eq_true, if_false] at found
  exact found.symm

theorem eventOf?_none (scripted : Scripted c g h scripts p) {name : String}
    (unknown : p.entryPoint? name = none) : eventOf? c g name = none := by
  rw [scripted.eventOf?_eq, List.lookup_eq_none_iff]
  rw [Program.entryPoint?, Option.map_eq_none_iff, List.find?_eq_none] at unknown
  intro entry listed
  obtain ⟨script, hscript, rfl⟩ := List.mem_map.mp listed
  have hname : script.name ∈ p.entryPoints.map EntryPoint.name := by
    rw [scripted.entryPoints, Assembly.entries_names, streamsOf, List.map_map]
    exact List.mem_map.mpr ⟨script, hscript, rfl⟩
  obtain ⟨point, hpoint, same⟩ := List.mem_map.mp hname
  have differs := unknown point hpoint
  rw [same, beq_iff_eq] at differs
  exact bne_iff_ne.mpr (Ne.symm differs)

theorem eventOf?_some (scripted : Scripted c g h scripts p) {name : String} {start : Address}
    (known : p.entryPoint? name = some start) : ∃ script ∈ scripts, script.name = name ∧
      eventOf? c g name = some script.node ∧
        Standing (allOps (streamsOf scripts)) start script.ops := by
  have listed : name ∈ (streamsOf scripts).map Stream.name := by
    obtain ⟨point, found, -⟩ := Option.map_eq_some_iff.mp known
    have hname : point.name = name := by simpa using List.find?_some found
    rw [← Assembly.entries_names 0, ← scripted.entryPoints, ← hname]
    exact List.mem_map_of_mem (List.mem_of_find?_eq_some found)
  rw [streamsOf, List.map_map] at listed
  obtain ⟨script, hscript, rfl⟩ := List.mem_map.mp listed
  obtain ⟨before, after, hsplit⟩ := List.append_of_mem hscript
  have within : Assembly.Within (streamsOf scripts) (streamsOf before) ⟨script.name, script.ops⟩
      (streamsOf after) := by
    refine ⟨by rw [hsplit, streamsOf, List.map_append]; rfl, ?_, scripted.inhabited⟩
    rw [streamsOf, List.map_map]
    exact scripted.names
  have haddress := within.entryPoint?_eq scripted.entryPoints
  obtain rfl := Option.some.inj (known.symm.trans haddress)
  refine ⟨script, hscript, rfl, ?_, allOps (streamsOf before), allOps (streamsOf after), within.ops,
    rfl⟩
  rw [scripted.eventOf?_eq]
  exact lookup_eq_some_of_mem scripted.enters.distinct (List.mem_map.mpr ⟨script, hscript, rfl⟩)

/-- What the events of a program rely on. -/
structure Fit (scripted : Scripted c g h scripts p) (host : Host σ) (alike : σ → σ → Prop) :
    Prop where
  extension : c.Extends
  live : g.Live c
  founded : g.Founded c
  signed : c.Signed
  obeys : host.Obeys c
  forgets : host.Forgets alike
  room : p.instructions.length ≤ haltAddress

variable {scripted : Scripted c g h scripts p} {host : Host σ} {alike : σ → σ → Prop} {rounds : Nat}
  {returns : List Address} {send : String → Run σ Unit}

theorem Fit.stage (fit : scripted.Fit host alike) {script : Script} (listed : script ∈ scripts)
    (sends : (scripted.setting fit.forgets fit.room).Sends rounds send returns) :
    Stage (scripted.setting fit.forgets fit.room) c g ⟨allOps (streamsOf scripts), script.emitted, h⟩ script
      rounds returns send where
  extension := fit.extension
  live := fit.live
  founded := fit.founded
  houses := memoryOf_houses scripted.sound scripted.apart
  signed := fit.signed
  obeys := fit.obeys
  sends := sends
  ops := rfl
  within := scripted.within script listed
  registers := by
    intro frames uid exit piece name slot hexit hpiece kept
    refine registerOf?_eq_some.mpr ⟨script, exit, piece, ?_, hexit, hpiece, kept⟩
    exact scripted.find?_of_mem listed

theorem Fit.event_simulates (fit : scripted.Fit host alike) {script : Script} (listed : script ∈ scripts)
    (sends : (scripted.setting fit.forgets fit.room).Sends rounds send returns) {start : Nat}
    (standing : Standing (allOps (streamsOf scripts)) start script.ops) :
    (scripted.setting fit.forgets fit.room).Simulates rounds 0 returns start
      (event c g host rounds send script.name script.node) fun _ address =>
        address = haltAddress := by
  have stage := fit.stage listed sends
  obtain ⟨op, rest, hcode, goes⟩ := (scripted.within script listed).starts
  obtain ⟨rank, bounded, falls⟩ := fit.live.acyclic
  rw [hcode] at standing
  have exits : exitOf? script.pieces [] = some .halt := rfl
  refine Setting.port_simulates (fun next _ => ?_) exits goes standing
  exact stage.chain_simulates falls _ next (Nat.lt_succ_of_le (bounded next))

/-- The events that a program sends to itself run as they should, however many of them are running;
the nesting that is left counts down to the last one that is allowed. -/
theorem Fit.sends (fit : scripted.Fit host alike) (rounds left : Nat) (returns : List Address)
    (depth : left + returns.length = maxEventDepth) :
    (scripted.setting fit.forgets fit.room).Sends rounds (Reference.send c g host rounds left) returns := by
  induction left generalizing returns with
  | zero =>
    refine ⟨fun name unknown => ?_, fun name start known _ => ?_, fun name start known shallow => ?_⟩
    · rw [Reference.send, scripted.eventOf?_none unknown]
    · obtain ⟨script, -, -, claimed, -⟩ := scripted.eventOf?_some known
      rw [Reference.send, claimed]
    · omega
  | succ left ih =>
    refine ⟨fun name unknown => ?_, fun name start known deep => ?_,
      fun name start known _ next => ?_⟩
    · rw [Reference.send, scripted.eventOf?_none unknown]
    · omega
    · obtain ⟨script, listed, rfl, claimed, standing⟩ := scripted.eventOf?_some known
      have nested := ih (next :: returns) (by rw [List.length_cons]; omega)
      rw [Reference.send, claimed]
      exact fit.event_simulates listed nested standing

end Scripted

end ScriptGraph.Reference
