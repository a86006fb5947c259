import ScriptGraph.Json.Fields
import ScriptGraph.Proofs.Json.Canonical
import ScriptGraph.Proofs.Json.RoundTrip

/-!
Documents whose numbers are read as they are printed. Nothing else in a document changes when it is
written and read again: what is kept comes back as it is, and so do integers of any width and lists of
what is read again itself.
-/

set_option autoImplicit false
set_option relaxedAutoImplicit false

namespace ScriptGraph.Json

/-! ## Numbers -/

mutual

/-- The floating point numbers in a document. -/
def numbers : Json → List Json
  | .single x => [.single x]
  | .double x => [.double x]
  | .array items => numbersOfItems items
  | .object entries => numbersOfEntries entries
  | _ => []

def numbersOfItems : List Json → List Json
  | [] => []
  | item :: items => numbers item ++ numbersOfItems items

def numbersOfEntries : List (String × Json) → List Json
  | [] => []
  | (_, value) :: entries => numbers value ++ numbersOfEntries entries

end

/-- A number that is read as it is printed, rounded where it has single precision. -/
def Printed : Json → Prop
  | .single x => (ofText? x.documentText).bind single? = some x
  | .double x => ofText? x.documentText = some (.double x)
  | _ => True

instance (document : Json) : Decidable document.Printed := by
  unfold Printed
  split <;> infer_instance

/-- All numbers of a document are read as they are printed. -/
def Exact (document : Json) : Prop := ∀ number ∈ document.numbers, number.Printed

instance (document : Json) : Decidable document.Exact :=
  inferInstanceAs (Decidable (∀ number ∈ document.numbers, number.Printed))

theorem numbersOfItems_eq_flatMap (items : List Json) :
    numbersOfItems items = items.flatMap numbers := by
  induction items with
  | nil => rfl
  | cons item items ih => rw [numbersOfItems, ih, List.flatMap_cons]

theorem numbersOfEntries_eq_flatMap (entries : List (String × Json)) :
    numbersOfEntries entries = entries.flatMap fun entry => entry.2.numbers := by
  induction entries with
  | nil => rfl
  | cons entry entries ih => rw [numbersOfEntries, ih, List.flatMap_cons]

theorem exact_array {items : List Json} :
    (Json.array items).Exact ↔ ∀ item ∈ items, item.Exact := by
  unfold Exact
  rw [numbers, numbersOfItems_eq_flatMap, List.forall_mem_flatMap]

theorem exact_object {entries : List (String × Json)} :
    (Json.object entries).Exact ↔ ∀ entry ∈ entries, entry.2.Exact := by
  unfold Exact
  rw [numbers, numbersOfEntries_eq_flatMap, List.forall_mem_flatMap]

theorem Kept.readBack {depth : Nat} {document : Json} (kept : Kept depth document)
    (exact : document.Exact) : document.readBack depth = document := by
  induction kept with
  | @leaf depth document genuine readable =>
    cases document with
    | array items => exact genuine.elim
    | object entries => exact genuine.elim
    | single x => exact genuine.elim
    | unreadable => exact absurd rfl readable
    | null => exact readBack_null depth
    | bool value => exact readBack_bool depth value
    | integer value => exact readBack_integer genuine depth
    | text value => exact readBack_text depth value
    | double x => exact readBack_leaf (.double x) (exact _ List.mem_cons_self) depth
  | @array depth items shallow _ ih =>
    have same : items.map (Json.readBack (depth + 1)) = items.map id :=
      List.map_congr_left fun item listed => ih item listed (exact_array.mp exact item listed)
    rw [Json.readBack, if_pos shallow, readBackItems_eq_map, same, List.map_id]
  | @object depth entries shallow _ _ ih =>
    have same : entries.map (fun entry => (entry.1, Json.readBack (depth + 1) entry.2)) =
        entries.map id := List.map_congr_left fun entry listed =>
      congrArg (entry.1, ·) (ih entry listed (exact_object.mp exact entry listed))
    rw [Json.readBack, if_pos shallow, readBackEntries_eq_map, same, List.map_id]

/-! ## Integers of fixed width -/

theorem int32?_toInt (x : Int32) : (Json.integer x.toInt).int32? = some x := by
  have within : Int32.minValue.toInt ≤ x.toInt ∧ x.toInt ≤ Int32.maxValue.toInt :=
    ⟨x.minValue_le_toInt, x.toInt_le⟩
  rw [int32?, integer?, if_pos within, Option.map_some, Int32.ofInt_toInt]

theorem int64?_toInt (x : Int64) : (Json.integer x.toInt).int64? = some x := by
  have within : Int64.minValue.toInt ≤ x.toInt ∧ x.toInt ≤ Int64.maxValue.toInt :=
    ⟨x.minValue_le_toInt, x.toInt_le⟩
  rw [int64?, integer?, if_pos within, Option.map_some, Int64.ofInt_toInt]

theorem uint32?_toNat (x : UInt32) : (Json.integer x.toNat).uint32? = some x := by
  have below := x.toNat_lt
  have within : (0 : Int) ≤ x.toNat ∧ (x.toNat : Int) ≤ (UInt32.size - 1 : Nat) := by
    have : UInt32.size - 1 = 2 ^ 32 - 1 := rfl
    omega
  rw [uint32?, integer?, if_pos within, Option.map_some, Int.toNat_natCast]
  exact congrArg some UInt32.ofNat_toNat

theorem uint64?_toNat (x : UInt64) : (Json.integer x.toNat).uint64? = some x := by
  have below := x.toNat_lt
  have within : (0 : Int) ≤ x.toNat ∧ (x.toNat : Int) ≤ (UInt64.size - 1 : Nat) := by
    have : UInt64.size - 1 = 2 ^ 64 - 1 := rfl
    omega
  rw [uint64?, integer?, if_pos within, Option.map_some, Int.toNat_natCast]
  exact congrArg some UInt64.ofNat_toNat

theorem inRange_int32 (x : Int32) : InRange x.toInt := by
  have least : Int64.minValue.toInt ≤ Int32.minValue.toInt := by decide
  have most : Int32.maxValue.toInt < UInt64.size := by decide
  exact ⟨Int.le_trans least x.minValue_le_toInt, Int.lt_of_le_of_lt x.toInt_le most⟩

theorem inRange_int64 (x : Int64) : InRange x.toInt := by
  have most : Int64.maxValue.toInt < UInt64.size := by decide
  exact ⟨x.minValue_le_toInt, Int.lt_of_le_of_lt x.toInt_le most⟩

theorem inRange_natCast {number : Nat} (fits : number < UInt64.size) : InRange number := by
  have least : Int64.minValue.toInt ≤ 0 := by decide
  exact ⟨Int.le_trans least (Int.natCast_nonneg number), Int.ofNat_lt.mpr fits⟩

/-! ## Reading again -/

theorem single?_readBack {x : Single} (exact : (Json.single x).Exact) (depth : Nat) :
    ((Json.single x).readBack depth).single? = some x := by
  obtain ⟨document, read, rounded⟩ := Option.bind_eq_some_iff.mp (exact _ List.mem_cons_self)
  change ((ofText? x.documentText).getD .unreadable).single? = some x
  rw [read, Option.getD_some]
  exact rounded

theorem readBack_entry {depth : Nat} (shallow : depth < maxDepth) (key : String) (content : Json) :
    (Json.object [(key, content)]).readBack depth = .object [(key, content.readBack (depth + 1))] := by
  rw [Json.readBack, if_pos shallow]
  rfl

theorem list?_readBack {α β : Type} (read : Json → Option β) (write : α → Json)
    {depth : Nat} (shallow : depth < maxDepth) (items : List α) :
    ((Json.array (items.map write)).readBack depth).list? read =
      items.mapM fun item => read ((write item).readBack (depth + 1)) := by
  rw [Json.readBack, if_pos shallow, list?, readBackItems_eq_map, List.mapM_map, List.mapM_map]
  rfl

def Rereads {α : Type} (read : Json → Option α) (write : α → Json) (depth : Nat) : Prop :=
  ∀ ⦃document : Json⦄ ⦃result : α⦄, Parsed depth document → read document = some result →
    (write result).Exact → read ((write result).readBack depth) = some result

theorem Rereads.list {α : Type} {read : Json → Option α} {write : α → Json} {depth : Nat}
    (each : Rereads read write (depth + 1)) :
    Rereads (list? read) (fun results => .array (results.map write)) depth := by
  intro document results parsed found exact
  obtain ⟨shallow, items⟩ := parsed.list found
  have exact := exact_array.mp exact
  rw [list?_readBack read write shallow]
  refine mapM_eq_self fun result listed => ?_
  obtain ⟨item, parsed, read⟩ := items result listed
  exact each parsed read (exact _ (List.mem_map_of_mem listed))

end ScriptGraph.Json
