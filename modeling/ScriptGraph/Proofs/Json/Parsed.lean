import Mathlib.Data.List.Forall2
import ScriptGraph.Json.Fields
import ScriptGraph.Proofs.Json.Numbers
import ScriptGraph.Proofs.Lookup

/-!
Documents as they are read. Whatever the bytes are, integers fit the machine, all other numbers have
double precision, and containers are nested no deeper than may be; so it is for the parts of records
and lists, one level further in.
-/

set_option autoImplicit false
set_option relaxedAutoImplicit false

namespace ScriptGraph

/-! ## Lists -/

theorem mapM_eq_some {α β : Type} {f : α → Option β} {items : List α} {results : List β} :
    items.mapM f = some results ↔ List.Forall₂ (fun a b => f a = some b) items results := by
  induction items generalizing results with
  | nil =>
    refine ⟨fun found => ?_, fun same => by cases same; rfl⟩
    cases Option.some.inj found
    exact .nil
  | cons item items ih =>
    rw [List.mapM_cons]
    constructor
    · intro found
      obtain ⟨b, first, rest⟩ := Option.bind_eq_some_iff.mp found
      obtain ⟨bs, more, same⟩ := Option.bind_eq_some_iff.mp rest
      cases Option.some.inj same
      exact .cons first (ih.mp more)
    · rintro (_ | ⟨first, more⟩)
      rw [first, ih.mpr more]
      rfl

theorem exists_of_mem_mapM {α β : Type} {f : α → Option β} {items : List α} {results : List β}
    (found : items.mapM f = some results) {b : β} (listed : b ∈ results) : ∃ a ∈ items, f a = some b := by
  induction mapM_eq_some.mp found with
  | nil => exact absurd listed List.not_mem_nil
  | cons first _ ih =>
    rcases List.mem_cons.mp listed with rfl | listed
    · exact ⟨_, List.mem_cons_self, first⟩
    · obtain ⟨a, ha, same⟩ := ih (mapM_eq_some.mpr ‹_›) listed
      exact ⟨a, List.mem_cons_of_mem _ ha, same⟩

theorem mapM_eq_self {α : Type} {f : α → Option α} {items : List α}
    (same : ∀ a ∈ items, f a = some a) : items.mapM f = some items :=
  mapM_eq_some.mpr (List.forall₂_iff_get.mpr ⟨rfl, fun _ _ _ => same _ (List.get_mem _ _)⟩)

theorem exists_mapM_eq_some {α β : Type} {f : α → Option α} {kept : α → β} {items : List α}
    (each : ∀ a ∈ items, ∃ b, f a = some b ∧ kept b = kept a) :
    ∃ results, items.mapM f = some results ∧ results.map kept = items.map kept := by
  induction items with
  | nil => exact ⟨[], rfl, rfl⟩
  | cons item items ih =>
    obtain ⟨b, first, same⟩ := each item List.mem_cons_self
    obtain ⟨rest, more, kept⟩ := ih fun a ha => each a (List.mem_cons_of_mem item ha)
    refine ⟨b :: rest, ?_, by rw [List.map_cons, List.map_cons, same, kept]⟩
    rw [List.mapM_cons, first, more]
    rfl

namespace Json

/-! ## Documents -/

def Genuine : Json → Prop
  | .integer value => InRange value
  | .single _ | .array _ | .object _ => False
  | _ => True

/-- A document as it is read inside `depth` containers. -/
inductive Parsed : Nat → Json → Prop where
  | leaf {depth : Nat} {document : Json} (genuine : document.Genuine) : Parsed depth document
  | array {depth : Nat} {items : List Json} (shallow : depth < maxDepth)
      (inside : ∀ item ∈ items, Parsed (depth + 1) item) : Parsed depth (.array items)
  | object {depth : Nat} {entries : List (String × Json)} (shallow : depth < maxDepth)
      (inside : ∀ entry ∈ entries, Parsed (depth + 1) entry.2) : Parsed depth (.object entries)

namespace Parsed

theorem of_array {depth : Nat} {items : List Json} (parsed : Parsed depth (.array items)) :
    depth < maxDepth ∧ ∀ item ∈ items, Parsed (depth + 1) item := by
  cases parsed with
  | leaf genuine => exact genuine.elim
  | array shallow inside => exact ⟨shallow, inside⟩

theorem of_object {depth : Nat} {entries : List (String × Json)}
    (parsed : Parsed depth (.object entries)) :
    depth < maxDepth ∧ ∀ entry ∈ entries, Parsed (depth + 1) entry.2 := by
  cases parsed with
  | leaf genuine => exact genuine.elim
  | object shallow inside => exact ⟨shallow, inside⟩

theorem nil {depth : Nat} (shallow : depth < maxDepth) : Parsed depth (.array []) :=
  .array shallow fun _ listed => absurd listed List.not_mem_nil

end Parsed

def Record.Parsed (record : Record) (depth : Nat) : Prop :=
  ∀ name part, record.get name = some part → Json.Parsed depth part

/-! ## Reading -/

theorem accumulate_fits {total : Nat} (fits : total < UInt64.size) (digits : List Nat) :
    (accumulate total digits).1 < UInt64.size := by
  induction digits generalizing total with
  | nil => exact fits
  | cons digit digits ih =>
    rw [accumulate]
    split
    · rename_i more
      exact ih more
    · exact fits

theorem Numeral.toJson_genuine (n : Numeral) : n.toJson.Genuine := by
  have rounded : ∀ significand exponent, (toJson.rounded n significand exponent).Genuine := by
    intro significand exponent
    unfold toJson.rounded
    split <;> exact trivial
  have fits := accumulate_fits (by decide : 0 < UInt64.size) n.whole
  have least : Int64.minValue.toInt ≤ 0 := by decide
  unfold toJson
  dsimp only
  split
  · split
    · split
      · exact ⟨by omega, Int.ofNat_lt.mpr fits⟩
      · split
        · rename_i negative
          refine ⟨negative.2, ?_⟩
          have : 0 < (UInt64.size : Int) := by decide
          omega
        · exact rounded _ _
    · exact rounded _ _
  · split
    · exact rounded _ _
    · split
      · exact trivial
      · exact rounded _ _

theorem readNumeral_genuine {negative : Bool} {bytes rest : Bytes} {document : Json}
    (read : readNumeral negative bytes = some (document, rest)) : document.Genuine := by
  unfold readNumeral at read
  dsimp only at read
  split at read
  · cases read
  · cases read
  · obtain ⟨⟨fraction, after⟩, -, read⟩ := Option.bind_eq_some_iff.mp read
    obtain ⟨⟨power, after⟩, -, read⟩ := Option.bind_eq_some_iff.mp read
    cases Option.some.inj read
    exact Numeral.toJson_genuine _

private structure ReadsParsed (fuel : Nat) : Prop where
  value : ∀ {depth : Nat} {bytes rest : Bytes} {document : Json},
    readValue fuel depth bytes = some (document, rest) → Parsed depth document
  items : ∀ {depth : Nat} {bytes rest : Bytes} {items : List Json},
    readItems fuel depth bytes = some (items, rest) → ∀ item ∈ items, Parsed depth item
  entries : ∀ {depth : Nat} {bytes rest : Bytes} {entries : List (String × Json)},
    readEntries fuel depth bytes = some (some entries, rest) →
      ∀ entry ∈ entries, Parsed depth entry.2

private theorem array_parsed {depth : Nat} {items : List Json}
    (inside : ∀ item ∈ items, Parsed (depth + 1) item) :
    Parsed depth (if depth < maxDepth then .array items else .unreadable) := by
  by_cases shallow : depth < maxDepth
  · rw [if_pos shallow]
    exact .array shallow inside
  · rw [if_neg shallow]
    exact .leaf trivial

private theorem object_parsed {depth : Nat} {entries : Option (List (String × Json))}
    (inside : ∀ kept, entries = some kept → ∀ entry ∈ kept, Parsed (depth + 1) entry.2) :
    Parsed depth
      (if depth < maxDepth then (entries.map Json.object).getD .unreadable else .unreadable) := by
  by_cases shallow : depth < maxDepth
  · rw [if_pos shallow]
    cases entries with
    | none => exact .leaf trivial
    | some entries => exact .object shallow (inside entries rfl)
  · rw [if_neg shallow]
    exact .leaf trivial

private theorem ReadsParsed.readValue {fuel depth : Nat} (reads : ReadsParsed fuel)
    {bytes rest : Bytes} {document : Json}
    (read : readValue (fuel + 1) depth bytes = some (document, rest)) : Parsed depth document := by
  cases bytes with
  | nil => cases read
  | cons b bytes =>
    rw [Json.readValue] at read
    split at read
    · obtain ⟨after, -, same⟩ := Option.map_eq_some_iff.mp read
      cases same
      exact .leaf trivial
    · obtain ⟨after, -, same⟩ := Option.map_eq_some_iff.mp read
      cases same
      exact .leaf trivial
    · obtain ⟨after, -, same⟩ := Option.map_eq_some_iff.mp read
      cases same
      exact .leaf trivial
    · obtain ⟨⟨spelling, after⟩, -, same⟩ := Option.bind_eq_some_iff.mp read
      cases Option.some.inj same
      cases spelling <;> exact .leaf trivial
    · exact .leaf (readNumeral_genuine read)
    · dsimp only at read
      split at read
      · cases Option.some.inj read
        exact array_parsed fun _ listed => absurd listed List.not_mem_nil
      · obtain ⟨⟨items, after⟩, inner, same⟩ := Option.bind_eq_some_iff.mp read
        cases Option.some.inj same
        exact array_parsed (reads.items inner)
    · dsimp only at read
      split at read
      · cases Option.some.inj read
        refine object_parsed fun kept same => ?_
        cases same
        exact fun _ listed => absurd listed List.not_mem_nil
      · obtain ⟨⟨entries, after⟩, inner, same⟩ := Option.bind_eq_some_iff.mp read
        cases Option.some.inj same
        refine object_parsed fun kept same => ?_
        cases same
        exact reads.entries inner
    · exact .leaf (readNumeral_genuine read)

private theorem ReadsParsed.readItems {fuel depth : Nat} (reads : ReadsParsed fuel)
    {bytes rest : Bytes} {items : List Json}
    (read : readItems (fuel + 1) depth bytes = some (items, rest)) :
    ∀ item ∈ items, Parsed depth item := by
  rw [Json.readItems] at read
  obtain ⟨⟨item, after⟩, first, read⟩ := Option.bind_eq_some_iff.mp read
  have parsed := reads.value first
  dsimp only at read
  split at read
  · cases Option.some.inj read
    exact fun other listed => List.mem_singleton.mp listed ▸ parsed
  · obtain ⟨⟨others, last⟩, more, same⟩ := Option.bind_eq_some_iff.mp read
    cases Option.some.inj same
    exact List.forall_mem_cons.mpr ⟨parsed, reads.items more⟩
  · cases read

private theorem ReadsParsed.readEntries {fuel depth : Nat} (reads : ReadsParsed fuel)
    {bytes rest : Bytes} {entries : List (String × Json)}
    (read : readEntries (fuel + 1) depth bytes = some (some entries, rest)) :
    ∀ entry ∈ entries, Parsed depth entry.2 := by
  rw [Json.readEntries] at read
  split at read
  · obtain ⟨⟨key, afterKey⟩, -, read⟩ := Option.bind_eq_some_iff.mp read
    dsimp only at read
    split at read
    · obtain ⟨⟨value, after⟩, first, read⟩ := Option.bind_eq_some_iff.mp read
      have parsed := reads.value first
      dsimp only at read
      split at read
      · obtain ⟨same, -⟩ := Prod.mk.inj (Option.some.inj read)
        obtain ⟨entry, named, rfl⟩ := Option.map_eq_some_iff.mp same
        obtain ⟨key, -, rfl⟩ := Option.map_eq_some_iff.mp named
        exact fun other listed => List.mem_singleton.mp listed ▸ parsed
      · obtain ⟨⟨others, last⟩, more, same⟩ := Option.bind_eq_some_iff.mp read
        obtain ⟨same, -⟩ := Prod.mk.inj (Option.some.inj same)
        obtain ⟨entry, named, same⟩ := Option.bind_eq_some_iff.mp same
        obtain ⟨key, -, rfl⟩ := Option.map_eq_some_iff.mp named
        obtain ⟨others, rfl, same⟩ := Option.bind_eq_some_iff.mp same
        cases Option.some.inj same
        exact List.forall_mem_cons.mpr ⟨parsed, reads.entries more⟩
      · cases read
    · cases read
  · cases read

private theorem readsParsed (fuel : Nat) : ReadsParsed fuel := by
  induction fuel with
  | zero =>
    refine ⟨fun read => ?_, fun read => ?_, fun read => ?_⟩
    all_goals cases read
  | succ fuel ih => exact ⟨ih.readValue, ih.readItems, ih.readEntries⟩

theorem ofBytes?_parsed {bytes : Bytes} {document : Json}
    (read : ofBytes? bytes = some document) : Parsed 0 document := by
  unfold ofBytes? at read
  split at read
  · rename_i value rest found
    split at read
    · cases Option.some.inj read
      exact (readsParsed _).value found
    · cases read
  · cases read

/-! ## Parts -/

theorem mem_of_unique? {key : String} {entries : List (String × Json)} {part : Json}
    (found : unique? key entries = some (some part)) : (key, part) ∈ entries := by
  unfold unique? at found
  split at found
  · cases found
  · rename_i entry only
    cases found
    obtain ⟨listed, same⟩ := List.mem_filter.mp (only ▸ List.mem_singleton_self entry)
    rw [← eq_of_beq same]
    exact listed
  · cases found

theorem Parsed.record {depth : Nat} {names : List String} {document : Json} {record : Record}
    (parsed : Parsed depth document) (read : document.record? names = some record) :
    depth < maxDepth ∧ record.Parsed (depth + 1) := by
  have field : ∀ {name part}, record.get name = some part → (name, some part) ∈ record.fields := by
    intro name part found
    exact mem_of_lookup_eq_some (Option.join_eq_some_iff.mp found)
  cases document with
  | object entries =>
    obtain ⟨shallow, inside⟩ := parsed.of_object
    refine ⟨shallow, fun name part found => ?_⟩
    obtain ⟨fields, each, rfl⟩ := Option.map_eq_some_iff.mp read
    obtain ⟨_, -, field⟩ := exists_of_mem_mapM each (field found)
    obtain ⟨value, only, same⟩ := Option.map_eq_some_iff.mp field
    cases same
    exact inside _ (mem_of_unique? only)
  | array items =>
    obtain ⟨shallow, inside⟩ := parsed.of_array
    refine ⟨shallow, fun name part found => ?_⟩
    rw [record?] at read
    split at read
    · cases Option.some.inj read
      rcases List.mem_append.mp (field found) with listed | listed
      · obtain ⟨item, there, same⟩ := List.mem_map.mp (List.of_mem_zip listed).2
        cases same
        exact inside _ there
      · obtain ⟨_, -, same⟩ := List.mem_map.mp listed
        cases same
    · cases read
  | _ => cases read

theorem Record.Parsed.required {α : Type} {record : Record} {name : String} {result : α}
    {read : Json → Option α} {depth : Nat} (parts : record.Parsed depth)
    (found : record.required name read = some result) :
    ∃ part, Json.Parsed depth part ∧ read part = some result := by
  obtain ⟨part, given, read⟩ := Option.bind_eq_some_iff.mp found
  exact ⟨part, parts name part given, read⟩

theorem Record.Parsed.optional {α : Type} {record : Record} {name : String} {default result : α}
    {read : Json → Option α} {depth : Nat} (parts : record.Parsed depth)
    (found : record.optional name default read = some result)
    (spare : ∃ part, Json.Parsed depth part ∧ read part = some default) :
    ∃ part, Json.Parsed depth part ∧ read part = some result := by
  unfold Record.optional at found
  split at found
  · rename_i part given
    exact ⟨part, parts name part given, found⟩
  · cases Option.some.inj found
    exact spare

theorem Parsed.list {α : Type} {depth : Nat} {document : Json} {read : Json → Option α}
    {results : List α} (parsed : Parsed depth document)
    (found : document.list? read = some results) :
    depth < maxDepth ∧ ∀ result ∈ results, ∃ item, Parsed (depth + 1) item ∧ read item = some result := by
  cases document with
  | array items =>
    obtain ⟨shallow, inside⟩ := parsed.of_array
    refine ⟨shallow, fun result listed => ?_⟩
    obtain ⟨item, there, same⟩ := exists_of_mem_mapM found listed
    exact ⟨item, inside item there, same⟩
  | _ => cases found

end Json

end ScriptGraph
