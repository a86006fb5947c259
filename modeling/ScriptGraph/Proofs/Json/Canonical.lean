import ScriptGraph.Proofs.Json.Parsed
import ScriptGraph.Proofs.Text.Order

/-!
Documents that are kept. The canonical form of what was read from bytes has the keys of each object in
ascending order, nests its containers no deeper, and so is its own canonical form.
-/

set_option autoImplicit false
set_option relaxedAutoImplicit false

namespace ScriptGraph

namespace Json

/-! ## Entries in order -/

def Ascending (entries : List (String × Json)) : Prop :=
  entries.Pairwise fun a b => a.1.toList < b.1.toList

theorem mem_insertEntry {key : String} {value : Json} {entries : List (String × Json)}
    {entry : String × Json} (listed : entry ∈ insertEntry key value entries) :
    entry = (key, value) ∨ entry ∈ entries := by
  induction entries with
  | nil => exact .inl (List.mem_singleton.mp listed)
  | cons head rest ih =>
    obtain ⟨k, v⟩ := head
    rw [insertEntry] at listed
    split at listed
    · exact (List.mem_cons.mp listed).imp id (List.mem_cons_of_mem _)
    · split at listed
      · exact List.mem_cons.mp listed
      · rcases List.mem_cons.mp listed with rfl | listed
        · exact .inr List.mem_cons_self
        · exact (ih listed).imp id (List.mem_cons_of_mem _)

theorem Ascending.insertEntry {entries : List (String × Json)} (ascending : Ascending entries)
    (key : String) (value : Json) : Ascending (insertEntry key value entries) := by
  induction entries with
  | nil => exact List.pairwise_singleton _ _
  | cons head rest ih =>
    obtain ⟨k, v⟩ := head
    obtain ⟨first, ascends⟩ := List.pairwise_cons.mp ascending
    rw [Json.insertEntry]
    split
    · rename_i same
      exact List.pairwise_cons.mpr ⟨same ▸ first, ascends⟩
    · rename_i other
      split
      · rename_i before
        have before := (Text.precedes_iff _ _).mp before
        refine List.pairwise_cons.mpr ⟨fun entry listed => ?_, ascending⟩
        rcases List.mem_cons.mp listed with rfl | listed
        · exact before
        · exact List.lt_trans before (first entry listed)
      · rename_i after
        have after : k.toList < key.toList := by
          have keys : key.toList ≠ k.toList := fun same => other (String.toList_inj.mp same)
          rcases Std.lt_trichotomy k.toList key.toList with less | same | more
          · exact less
          · exact absurd same.symm keys
          · exact absurd ((Text.precedes_iff _ _).mpr more) after
        refine List.pairwise_cons.mpr ⟨fun entry listed => ?_, ih ascends⟩
        rcases mem_insertEntry listed with rfl | listed
        · exact after
        · exact first entry listed

theorem insertEntry_last {key : String} {value : Json} {entries : List (String × Json)}
    (last : ∀ entry ∈ entries, entry.1.toList < key.toList) :
    insertEntry key value entries = entries ++ [(key, value)] := by
  induction entries with
  | nil => rfl
  | cons head rest ih =>
    obtain ⟨k, v⟩ := head
    obtain ⟨first, last⟩ := List.forall_mem_cons.mp last
    have other : key ≠ k := fun same => List.lt_irrefl _ (same ▸ first)
    have after : ¬Text.precedes key.toList k.toList = true := fun before =>
      List.lt_asymm first ((Text.precedes_iff _ _).mp before)
    rw [insertEntry, if_neg other, if_neg after, ih last]
    rfl

/-! ## Canonical forms -/

/-- A document as it is kept inside `depth` containers. -/
inductive Kept : Nat → Json → Prop where
  | leaf {depth : Nat} {document : Json} (genuine : document.Genuine)
      (readable : document ≠ .unreadable) : Kept depth document
  | array {depth : Nat} {items : List Json} (shallow : depth < maxDepth)
      (inside : ∀ item ∈ items, Kept (depth + 1) item) : Kept depth (.array items)
  | object {depth : Nat} {entries : List (String × Json)} (shallow : depth < maxDepth)
      (ascending : Ascending entries) (inside : ∀ entry ∈ entries, Kept (depth + 1) entry.2) :
      Kept depth (.object entries)

theorem canonicalItems?_eq_mapM (items : List Json) :
    canonicalItems? items = items.mapM canonical? := by
  induction items with
  | nil => rfl
  | cons item items ih => rw [canonicalItems?, ih, List.mapM_cons]

theorem canonical?_leaf {document : Json} (genuine : document.Genuine)
    (readable : document ≠ .unreadable) : document.canonical? = some document := by
  cases document with
  | array items => exact genuine.elim
  | object entries => exact genuine.elim
  | unreadable => exact absurd rfl readable
  | _ => rfl

theorem canonicalEntries?_spec {property : Json → Prop} {done entries results : List (String × Json)}
    (found : canonicalEntries? done entries = some results) (ascending : Ascending done)
    (kept : ∀ entry ∈ done, property entry.2)
    (each : ∀ entry ∈ entries, ∀ value, entry.2.canonical? = some value → property value) :
    Ascending results ∧ ∀ entry ∈ results, property entry.2 := by
  induction entries generalizing done with
  | nil =>
    cases Option.some.inj found
    exact ⟨ascending, kept⟩
  | cons entry entries ih =>
    obtain ⟨key, document⟩ := entry
    obtain ⟨first, each⟩ := List.forall_mem_cons.mp each
    rw [canonicalEntries?] at found
    obtain ⟨value, read, found⟩ := Option.bind_eq_some_iff.mp found
    refine ih found (ascending.insertEntry key value) (fun entry listed => ?_) each
    rcases mem_insertEntry listed with rfl | listed
    · exact first value read
    · exact kept entry listed

theorem Parsed.kept {depth : Nat} {document result : Json} (parsed : Parsed depth document)
    (canonical : document.canonical? = some result) : Kept depth result := by
  induction parsed generalizing result with
  | @leaf _ document genuine =>
    have readable : document ≠ .unreadable := by
      rintro rfl
      cases canonical
    rw [canonical?_leaf genuine readable] at canonical
    cases canonical
    exact .leaf genuine readable
  | array shallow _ ih =>
    rw [canonical?, canonicalItems?_eq_mapM] at canonical
    obtain ⟨items, each, rfl⟩ := Option.map_eq_some_iff.mp canonical
    refine .array shallow fun item listed => ?_
    obtain ⟨document, there, read⟩ := exists_of_mem_mapM each listed
    exact ih document there read
  | object shallow _ ih =>
    rw [canonical?] at canonical
    obtain ⟨entries, each, rfl⟩ := Option.map_eq_some_iff.mp canonical
    obtain ⟨ascending, inside⟩ := canonicalEntries?_spec each List.Pairwise.nil
      (fun _ listed => absurd listed List.not_mem_nil) fun entry listed _ => ih entry listed
    exact .object shallow ascending inside

theorem canonicalEntries?_append {done entries : List (String × Json)}
    (ascending : Ascending (done ++ entries))
    (each : ∀ entry ∈ entries, entry.2.canonical? = some entry.2) :
    canonicalEntries? done entries = some (done ++ entries) := by
  induction entries generalizing done with
  | nil => rw [List.append_nil]; rfl
  | cons entry entries ih =>
    obtain ⟨key, value⟩ := entry
    obtain ⟨first, each⟩ := List.forall_mem_cons.mp each
    have last : ∀ entry ∈ done, entry.1.toList < key.toList := fun entry listed =>
      (List.pairwise_append.mp ascending).2.2 entry listed _ List.mem_cons_self
    have joined : done ++ (key, value) :: entries = done ++ [(key, value)] ++ entries := by
      rw [List.append_assoc, List.singleton_append]
    rw [canonicalEntries?, first, joined]
    change canonicalEntries? (insertEntry key value done) entries = _
    rw [insertEntry_last last]
    exact ih (joined ▸ ascending) each

theorem Kept.canonical? {depth : Nat} {document : Json} (kept : Kept depth document) :
    document.canonical? = some document := by
  induction kept with
  | leaf genuine readable => exact canonical?_leaf genuine readable
  | array shallow _ ih =>
    rw [Json.canonical?, canonicalItems?_eq_mapM, mapM_eq_self ih]
    rfl
  | @object _ entries shallow ascending _ ih =>
    have ascending : Ascending ([] ++ entries) := ascending
    rw [Json.canonical?, canonicalEntries?_append ascending ih]
    rfl

end Json

end ScriptGraph
