import Mathlib.Algebra.Group.Nat.Defs
import ScriptGraph.Program.Artifact
import ScriptGraph.Proofs.Program.Slices
import ScriptGraph.Proofs.Text.Encoding

/-!
The binary form of programs, written and read again. Whatever follows the bytes of a program, the program
is read from them, so programs with the same bytes are the same, and the bytes of no program begin those
of another one.
-/

set_option autoImplicit false
set_option relaxedAutoImplicit false

namespace ScriptGraph

/-! ## What can be stored -/

mutual

/-- The lengths of all texts and arrays in a value. -/
def Value.lengths : Value → List Nat
  | .text s => [s.utf8ByteSize]
  | .array items => items.length :: lengthsOfItems items
  | _ => []

def Value.lengthsOfItems : List Value → List Nat
  | [] => []
  | item :: items => item.lengths ++ lengthsOfItems items

end

def Instruction.lengths : Instruction → List Nat
  | .call method slots => [method.utf8ByteSize, slots.length]
  | _ => []

def Symbol.lengths (s : Symbol) : List Nat :=
  s.name.utf8ByteSize :: s.type.utf8ByteSize :: s.default.lengths

/-- Slots and addresses fit 32 bits, and a length can be told in 64 bits, as it is with every text and
list that a machine can hold. -/
structure Program.Storable (p : Program) : Prop where
  slots : ∀ i ∈ p.instructions, ∀ slot ∈ i.slots, slot < UInt32.size
  targets : ∀ i ∈ p.instructions, ∀ target ∈ i.target?, target < UInt32.size
  entries : ∀ e ∈ p.entryPoints, e.address < UInt32.size ∧ e.name.utf8ByteSize < UInt64.size
  name : p.name.utf8ByteSize < UInt64.size
  lists : p.entryPoints.length < UInt64.size ∧ p.instructions.length < UInt64.size ∧
    p.symbols.length < UInt64.size
  instructions : ∀ i ∈ p.instructions, ∀ length ∈ i.lengths, length < UInt64.size
  symbols : ∀ s ∈ p.symbols, ∀ length ∈ s.lengths, length < UInt64.size

namespace Artifact

variable {α β : Type} {written first second : Bytes}

/-- A reader gives something for the bytes of it and leaves what follows them. -/
def Reads (read : Reader α) (written : Bytes) (x : α) : Prop :=
  ∀ rest, read (written ++ rest) = some (x, rest)

namespace Reads

theorem pure (x : α) : Reads (Pure.pure x) [] x := fun _ => rfl

theorem bind {read : Reader α} {next : α → Reader β} {x : α} {y : β} (reads : Reads read first x)
    (more : Reads (next x) second y) : Reads (read >>= next) (first ++ second) y := by
  intro rest
  rw [List.append_assoc]
  change (read (first ++ (second ++ rest))).bind _ = _
  rw [reads]
  exact more rest

theorem last {read : Reader α} {next : α → Reader β} {x : α} {y : β} (reads : Reads read written x)
    (more : Reads (next x) [] y) : Reads (read >>= next) written y := by
  have all := reads.bind more
  rwa [List.append_nil] at all

/-! ## Numbers -/

theorem byte (b : UInt8) : Reads Reader.byte [b] b := fun _ => rfl

private theorem toNat_toUInt8 (number : Nat) : number.toUInt8.toNat = number % 256 :=
  UInt8.toNat_ofNat'

theorem littleEndian (count : Nat) {number : Nat} (fits : number < 256 ^ count) :
    Reads (Reader.littleEndian count) (Artifact.littleEndian count number) number := by
  induction count generalizing number with
  | zero =>
    obtain rfl : number = 0 := Nat.lt_one_iff.mp fits
    exact Reads.pure 0
  | succ count ih =>
    have high : number / 256 < 256 ^ count := by
      rw [Nat.div_lt_iff_lt_mul (by decide)]
      rwa [Nat.pow_succ] at fits
    have whole : number.toUInt8.toNat + 256 * (number / 256) = number := by
      rw [toNat_toUInt8]
      exact Nat.mod_add_div number 256
    refine (Reads.byte number.toUInt8).bind ((ih high).last ?_)
    rw [whole]
    exact Reads.pure number

theorem small (width : Nat) {b : UInt8} (least : b.toNat ≤ 250) :
    Reads (Reader.natural width) [b] b.toNat := by
  refine (Reads.byte b).last ?_
  split
  all_goals first | omega | exact Reads.pure _

theorem natural {width number : Nat} (wide : width = 4 ∨ width = 8) (fits : number < 256 ^ width) :
    Reads (Reader.natural width) (Artifact.natural number) number := by
  unfold Artifact.natural
  split
  · rename_i least
    have same : number.toUInt8.toNat = number := by
      rw [toNat_toUInt8]
      omega
    have reads := Reads.small width (b := number.toUInt8) (by omega)
    rwa [same] at reads
  · split
    · rename_i most
      exact (Reads.byte 251).bind (Reads.littleEndian 2 most)
    · split
      · rename_i most
        exact (Reads.byte 252).bind (by
          change Reads (if 4 ≤ width then _ else _) _ _
          rw [if_pos (by omega)]
          exact Reads.littleEndian 4 most)
      · rename_i least
        -- Four bytes are too few.
        obtain rfl : width = 8 := by
          refine wide.resolve_left fun narrow => least ?_
          rwa [narrow] at fits
        exact (Reads.byte 253).bind (Reads.littleEndian 8 fits)

theorem number32 {number : Nat} (fits : number < UInt32.size) :
    Reads (Reader.natural 4) (Artifact.natural number) number :=
  Reads.natural (.inl rfl) fits

theorem number64 {number : Nat} (fits : number < UInt64.size) :
    Reads (Reader.natural 8) (Artifact.natural number) number :=
  Reads.natural (.inr rfl) fits

theorem tagged {next : Nat → Reader α} {x : α} (tag : UInt8) (least : tag.toNat ≤ 250)
    (reads : Reads (next tag.toNat) written x) :
    Reads (Reader.natural 4 >>= next) (tag :: written) x := by
  have small := Reads.small 4 least
  exact small.bind reads

end Reads

theorem unfolded_folded (number : Int) : Reader.unfolded (folded number) = number := by
  cases number with
  | ofNat number =>
    have even : 2 * number % 2 = 0 := by omega
    rw [folded, Reader.unfolded, if_pos even, Nat.mul_div_cancel_left number (by decide)]
    rfl
  | negSucc number =>
    have odd : ¬(2 * number + 1) % 2 = 0 := by omega
    have half : (2 * number + 1) / 2 = number := by omega
    rw [folded, Reader.unfolded, if_neg odd, half]

theorem folded_lt {number : Int} {bound : Nat} (least : -(bound : Int) ≤ number)
    (most : number < bound) : folded number < 2 * bound := by
  cases number with
  | ofNat number =>
    have below : number < bound := Int.ofNat_lt.mp most
    rw [folded]
    omega
  | negSucc number =>
    rw [folded]
    omega

namespace Reads

theorem int32 (number : Int32) :
    Reads (Reader.natural 4) (Artifact.natural (folded number.toInt)) (folded number.toInt) := by
  have fits : folded number.toInt < 2 * 2 ^ 31 := folded_lt number.le_toInt number.toInt_lt
  exact Reads.number32 fits

theorem int64 (number : Int64) :
    Reads (Reader.natural 8) (Artifact.natural (folded number.toInt)) (folded number.toInt) := by
  have fits : folded number.toInt < 2 * 2 ^ 63 := folded_lt number.le_toInt number.toInt_lt
  exact Reads.number64 fits

/-! ## Texts and lists -/

theorem truth (value : Bool) : Reads Reader.truth (Artifact.truth value) value := by
  cases value <;> exact fun _ => rfl

theorem take (bytes : Bytes) : Reads (Reader.take bytes.length) bytes bytes := by
  intro rest
  rw [Reader.take, if_pos (by rw [List.length_append]; omega), List.take_left, List.drop_left]

theorem text {value : String} (fits : value.utf8ByteSize < UInt64.size) :
    Reads Reader.text (Artifact.text value) value := by
  have bytes : value.toUTF8.toList = Text.bytes value.toList := Text.toUTF8_toList value
  have taken := Reads.take value.toUTF8.toList
  rw [bytes, Text.length_bytes, ← bytes] at taken
  refine (Reads.number64 fits).bind (taken.last ?_)
  rw [bytes, Text.fromUTF8?_bytes, String.ofList_toList]
  exact Reads.pure value

theorem times {read : Reader α} {write : α → Bytes} {items : List α}
    (each : ∀ item ∈ items, Reads read (write item) item) :
    Reads (Reader.times read items.length) (items.flatMap write) items := by
  induction items with
  | nil => exact Reads.pure []
  | cons item items ih =>
    rw [List.flatMap_cons, List.length_cons]
    have rest := ih fun other listed => each other (List.mem_cons_of_mem item listed)
    exact (each item List.mem_cons_self).bind (rest.last (Reads.pure _))

theorem list {read : Reader α} {write : α → Bytes} {items : List α}
    (fits : items.length < UInt64.size) (each : ∀ item ∈ items, Reads read (write item) item) :
    Reads (Reader.list read) (Artifact.list write items) items :=
  (Reads.number64 fits).bind (Reads.times each)

theorem option {read : Reader α} {write : α → Bytes} {entry : Option α}
    (each : ∀ item ∈ entry, Reads read (write item) item) :
    Reads (Reader.option read) (Artifact.option write entry) entry := by
  cases entry with
  | none => exact fun _ => rfl
  | some item => exact (Reads.byte 1).bind ((each item rfl).last (Reads.pure _))

end Reads

/-! ## Values -/

mutual

theorem value_reads : ∀ v : Value, (∀ length ∈ v.lengths, length < UInt64.size) → ∀ depth,
    (value v).length ≤ depth → Reads (Reader.value depth) (value v) v
  | v, fits, 0, enough => by
    cases v <;> cases enough
  | .null, _, depth + 1, _ => Reads.tagged 0 (by decide) (Reads.pure _)
  | .bool b, _, depth + 1, _ => Reads.tagged 1 (by decide) ((Reads.truth b).last (Reads.pure _))
  | .int32 n, _, depth + 1, _ => by
    refine Reads.tagged 2 (by decide) ((Reads.int32 n).last ?_)
    rw [unfolded_folded, Int32.ofInt_toInt]
    exact Reads.pure _
  | .int64 n, _, depth + 1, _ => by
    refine Reads.tagged 3 (by decide) ((Reads.int64 n).last ?_)
    rw [unfolded_folded, Int64.ofInt_toInt]
    exact Reads.pure _
  | .single x, _, depth + 1, _ => by
    refine Reads.tagged 4 (by decide) ((Reads.littleEndian 4 x.bits.toNat_lt).last ?_)
    rw [Nat.toUInt32, UInt32.ofNat_toNat]
    exact Reads.pure _
  | .double x, _, depth + 1, _ => by
    refine Reads.tagged 5 (by decide) ((Reads.littleEndian 8 x.bits.toNat_lt).last ?_)
    rw [Nat.toUInt64, UInt64.ofNat_toNat]
    exact Reads.pure _
  | .text s, fits, depth + 1, _ =>
    Reads.tagged 6 (by decide) ((Reads.text (fits _ List.mem_cons_self)).last (Reads.pure _))
  | .this, _, depth + 1, _ => Reads.tagged 7 (by decide) (Reads.pure _)
  | .object id, _, depth + 1, _ => by
    refine Reads.tagged 8 (by decide) ((Reads.number64 id.toNat_lt).last ?_)
    rw [Nat.toUInt64, UInt64.ofNat_toNat]
    exact Reads.pure _
  | .array items, fits, depth + 1, enough => by
    have inner : (values items).length ≤ depth := by
      rw [value, List.length_cons, List.length_append] at enough
      omega
    have reads := values_reads items (fun length listed => fits length (List.mem_cons_of_mem _ listed))
      depth inner
    have count := Reads.number64 (fits items.length List.mem_cons_self)
    exact Reads.tagged 9 (by decide) ((count.bind reads).last (Reads.pure _))

theorem values_reads : ∀ items : List Value,
    (∀ length ∈ Value.lengthsOfItems items, length < UInt64.size) → ∀ depth,
      (values items).length ≤ depth →
        Reads (Reader.times (Reader.value depth) items.length) (values items) items
  | [], _, _, _ => Reads.pure []
  | item :: items, fits, depth, enough => by
    rw [values, List.length_append] at enough
    have first := value_reads item (fun length listed => fits length (List.mem_append_left _ listed))
      depth (by omega)
    have rest := values_reads items (fun length listed => fits length (List.mem_append_right _ listed))
      depth (by omega)
    exact first.bind (rest.last (Reads.pure _))

end

theorem anyValue_reads {v : Value} (fits : ∀ length ∈ v.lengths, length < UInt64.size) :
    Reads Reader.anyValue (value v) v := by
  intro rest
  refine value_reads v fits _ ?_ rest
  rw [List.length_append]
  omega

/-! ## Programs -/

theorem instruction_reads {i : Instruction} (slots : ∀ slot ∈ i.slots, slot < UInt32.size)
    (targets : ∀ target ∈ i.target?, target < UInt32.size)
    (fits : ∀ length ∈ i.lengths, length < UInt64.size) :
    Reads Reader.instruction (instruction i) i := by
  cases i with
  | copy source destination =>
    have first := Reads.number32 (slots source (by simp [Instruction.slots]))
    have second := Reads.number32 (slots destination (by simp [Instruction.slots]))
    exact Reads.tagged 0 (by decide) (first.bind (second.last (Reads.pure _)))
  | call method arguments =>
    have name := Reads.text (fits method.utf8ByteSize (by simp [Instruction.lengths]))
    have list := Reads.list (fits arguments.length (by simp [Instruction.lengths]))
      fun slot listed => Reads.number32 (slots slot listed)
    exact Reads.tagged 1 (by decide) (name.bind (list.last (Reads.pure _)))
  | jump target =>
    have first := Reads.number32 (targets target rfl)
    exact Reads.tagged 2 (by decide) (first.last (Reads.pure _))
  | jumpUnless condition target =>
    have first := Reads.number32 (slots condition (by simp [Instruction.slots]))
    have second := Reads.number32 (targets target rfl)
    exact Reads.tagged 3 (by decide) (first.bind (second.last (Reads.pure _)))

theorem entryPoint_reads {e : EntryPoint} (address : e.address < UInt32.size)
    (name : e.name.utf8ByteSize < UInt64.size) : Reads Reader.entryPoint (entryPoint e) e :=
  (Reads.text name).bind ((Reads.number32 address).last (Reads.pure _))

theorem syncMode_reads (mode : SyncMode) : Reads Reader.syncMode (syncMode mode) mode := by
  cases mode <;> exact fun _ => rfl

theorem symbol_reads {s : Symbol} (fits : ∀ length ∈ s.lengths, length < UInt64.size) :
    Reads Reader.symbol (symbol s) s := by
  have name := Reads.text (fits s.name.utf8ByteSize (by simp [Symbol.lengths]))
  have type := Reads.text (fits s.type.utf8ByteSize (by simp [Symbol.lengths]))
  have default := anyValue_reads (v := s.default) fun length listed =>
    fits length (by simp [Symbol.lengths, listed])
  have sync : Reads (Reader.option Reader.syncMode) (option syncMode s.sync) s.sync :=
    Reads.option fun mode _ => syncMode_reads mode
  have truth := Reads.truth s.exported
  simp only [symbol, List.append_assoc]
  exact name.bind (type.bind (default.bind (truth.bind (sync.last (Reads.pure _)))))

theorem program_reads {p : Program} (storable : p.Storable) :
    Reads Reader.program p.toBytes p := by
  have entries := Reads.list storable.lists.1 fun e listed =>
    entryPoint_reads (storable.entries e listed).1 (storable.entries e listed).2
  have instructions := Reads.list storable.lists.2.1 fun i listed =>
    instruction_reads (storable.slots i listed) (storable.targets i listed)
      (storable.instructions i listed)
  have symbols := Reads.list storable.lists.2.2 fun s listed =>
    symbol_reads (storable.symbols s listed)
  have name := Reads.text storable.name
  have order := Reads.int32 p.updateOrder
  simp only [Program.toBytes, List.append_assoc]
  refine name.bind (order.bind (entries.bind (instructions.bind (symbols.last ?_))))
  rw [unfolded_folded, Int32.ofInt_toInt]
  exact Reads.pure _

end Artifact

namespace Program

theorem ofBytes?_append {p : Program} (storable : p.Storable) (rest : List UInt8) :
    ofBytes? (p.toBytes ++ rest) = some p := by
  rw [ofBytes?, Artifact.program_reads storable rest]
  rfl

/-- A program is read from its bytes whatever follows them; no other program has the same bytes, and
the bytes of no other program start with them. -/
theorem toBytes_selfDelimiting {p : Program} (storable : p.Storable) :
    (∀ rest, ofBytes? (p.toBytes ++ rest) = some p) ∧
      (∀ q : Program, q.Storable → q.toBytes = p.toBytes → q = p) ∧
      ∀ q : Program, q.Storable → p.toBytes <+: q.toBytes → q = p := by
  have starts : ∀ q : Program, q.Storable → p.toBytes <+: q.toBytes → q = p := by
    rintro q others ⟨rest, same⟩
    have mine := ofBytes?_append storable rest
    have other := ofBytes?_append others []
    rw [List.append_nil, ← same, mine] at other
    exact (Option.some.inj other).symm
  refine ⟨ofBytes?_append storable, fun q others same => ?_, starts⟩
  exact starts q others (same ▸ List.prefix_refl _)

/-- A program with numbers of every width, arrays in arrays, a NaN with a payload and a negative zero. -/
def assorted : Program where
  name := "größte"
  updateOrder := -2147483648
  entryPoints := [⟨"_start", 0⟩, ⟨"", 4294967295⟩]
  instructions := [.copy 250 251, .call "Host.__Run__" [65535, 65536, 0], .jumpUnless 4294967295 7,
    .jump haltAddress]
  symbols := [
    ⟨"a", arrayType, .array [.array [.single ⟨0x7FA00001⟩, .null], .double ⟨0x8000000000000000⟩,
      .array [], .text "", .bool true], true, some .smooth⟩,
    ⟨"b", int64Type, .int64 (-9223372036854775808), false, none⟩,
    ⟨"c", objectType, .object 18446744073709551615, false, some .none⟩,
    ⟨"d", int32Type, .int32 2147483647, true, none⟩, ⟨"e", behaviourType, .this, false, some .linear⟩]

theorem assorted_selfDelimiting : assorted.Storable ∧
    (∀ rest, ofBytes? (assorted.toBytes ++ rest) = some assorted) ∧
      (∀ q : Program, q.Storable → q.toBytes = assorted.toBytes → q = assorted) ∧
      ∀ q : Program, q.Storable → assorted.toBytes <+: q.toBytes → q = assorted := by
  have storable : assorted.Storable := by
    constructor <;> decide
  exact ⟨storable, toBytes_selfDelimiting storable⟩

end Program

end ScriptGraph
