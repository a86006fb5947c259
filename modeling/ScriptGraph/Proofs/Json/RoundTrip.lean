import Mathlib.Data.List.DropRight
import ScriptGraph.Proofs.Json.Numbers
import ScriptGraph.Proofs.Json.Spelling

/-!
Documents that are written and read again, be it on one line or on several. What is read from the text
of a document is a document of the same shape: texts are as they were, numbers are what their own texts
denote, and a container that is nested too deep is unreadable.
-/

set_option autoImplicit false
set_option relaxedAutoImplicit false

namespace ScriptGraph.Json

open Text (bytes)

mutual

/-- What is read from the text of a document inside `depth` containers. -/
def readBack (depth : Nat) : Json → Json
  | .array items => if depth < maxDepth then .array (readBackItems (depth + 1) items) else .unreadable
  | .object entries =>
    if depth < maxDepth then .object (readBackEntries (depth + 1) entries) else .unreadable
  | leaf => (ofText? (leafText leaf)).getD .unreadable

def readBackItems (depth : Nat) : List Json → List Json
  | [] => []
  | item :: items => readBack depth item :: readBackItems depth items

def readBackEntries (depth : Nat) : List (String × Json) → List (String × Json)
  | [] => []
  | (key, value) :: entries => (key, readBack depth value) :: readBackEntries depth entries

end

theorem readBackItems_eq_map (depth : Nat) (items : List Json) :
    readBackItems depth items = items.map (readBack depth) := by
  induction items with
  | nil => rfl
  | cons item items ih => rw [readBackItems, ih, List.map_cons]

theorem readBackEntries_eq_map (depth : Nat) (entries : List (String × Json)) :
    readBackEntries depth entries = entries.map fun entry => (entry.1, readBack depth entry.2) := by
  induction entries with
  | nil => rfl
  | cons entry entries ih => rw [readBackEntries, ih, List.map_cons]

/-! ## Parts without parts -/

private def Opens (written : Bytes) : Prop :=
  ∃ b tail, written = b :: tail ∧ isBlankByte b = false ∧ b ≠ 93 ∧ b ≠ 125

private theorem Opens.skipBlanks {written : Bytes} (opens : Opens written) (rest : Bytes) :
    Json.skipBlanks (written ++ rest) = written ++ rest := by
  obtain ⟨b, tail, rfl, visible, -⟩ := opens
  rw [Json.skipBlanks, List.cons_append, List.dropWhile_cons, visible]
  rfl

private theorem Opens.length {written : Bytes} (opens : Opens written) : 0 < written.length := by
  obtain ⟨b, tail, rfl, -⟩ := opens
  exact Nat.succ_pos _

private def Reads (written : String) (document : Json) : Prop :=
  Opens (bytes written.toList) ∧ ∀ fuel depth rest, Closes rest →
    readValue (fuel + 1) depth (bytes written.toList ++ rest) = some (document, rest)

private theorem Reads.ofText? {written : String} {document : Json} (reads : Reads written document) :
    ofText? written = some document := by
  obtain ⟨opens, reads⟩ := reads
  have read := reads (2 * (bytes written.toList).length + 1) 0 [] closes_nil
  have skipped := opens.skipBlanks []
  rw [List.append_nil] at read skipped
  unfold Json.ofText? ofBytes?
  rw [Text.toUTF8_toList, skipped, read]
  rfl

private theorem digitChar_opens {digit : Nat} (small : digit < 10) (rest : List Char) :
    Opens (bytes (Text.digitChar digit :: rest)) := by
  have first : ∀ digit < 10, ∃ b, String.utf8EncodeChar (Text.digitChar digit) = [b] ∧
      isBlankByte b = false ∧ b ≠ 93 ∧ b ≠ 125 := by
    intro digit small
    refine ⟨(48 + digit).toUInt8, ?_⟩
    revert digit
    decide
  obtain ⟨b, written, other⟩ := first digit small
  rw [Text.bytes_cons, written]
  exact ⟨b, bytes rest, rfl, other⟩

private theorem spelled_reads {written : String} {n : Numeral} (proper : n.Proper)
    (spelled : written.toList = n.spelled) : Reads written n.toJson := by
  rw [Reads, spelled]
  refine ⟨?_, fun fuel depth rest closes => readValue_spelled proper fuel depth closes⟩
  rw [Numeral.spelled]
  obtain ⟨digit, more, same⟩ := List.exists_cons_of_ne_nil proper.whole.some
  have small := proper.whole.small digit (same ▸ List.mem_cons_self)
  split
  · exact ⟨45, bytes n.unsigned, rfl, by decide⟩
  · rw [Numeral.unsigned, same]
    exact digitChar_opens small _

private theorem null_reads : Reads "null" .null :=
  ⟨⟨110, [117, 108, 108], by decide, by decide⟩, fun fuel depth rest _ => by
    have written : bytes "null".toList = [110, 117, 108, 108] := by decide
    rw [written, List.cons_append, readValue]
    rfl⟩

private theorem escapedText_reads (text : String) : Reads (escapedText text) (.text text) := by
  refine ⟨⟨34, _, bytes_escapedText text, by decide⟩, fun fuel depth rest _ => ?_⟩
  have read := readSpelling_escapedText text rest
  rw [bytes_escapedText, List.cons_append, List.cons_append, List.append_assoc,
    List.singleton_append, readValue]
  change (readSpelling .start _).bind _ = _
  rw [read]
  rfl

theorem single_documentText {x : Single} (infinite : ¬x.isFinite) : x.documentText = "null" := by
  unfold Single.isFinite at infinite
  unfold Single.documentText
  split at infinite
  · exact absurd rfl infinite
  · rename_i other
    cases decoded : x.decoded with
    | nan => rfl
    | infinite negative => cases negative <;> rfl
    | finite negative m q least => exact absurd decoded (other negative m q least)

theorem double_documentText {x : Double} (infinite : ¬x.isFinite) : x.documentText = "null" := by
  unfold Double.isFinite at infinite
  unfold Double.documentText
  split at infinite
  · exact absurd rfl infinite
  · rename_i other
    cases decoded : x.decoded with
    | nan => rfl
    | infinite negative => cases negative <;> rfl
    | finite negative m q least => exact absurd decoded (other negative m q least)

private theorem single_reads (x : Single) : ∃ document, Reads x.documentText document := by
  by_cases finite : x.isFinite
  · obtain ⟨n, proper, spelled⟩ := single_spelled finite
    exact ⟨_, spelled_reads proper spelled⟩
  · exact ⟨_, single_documentText finite ▸ null_reads⟩

private theorem double_reads (x : Double) : ∃ document, Reads x.documentText document := by
  by_cases finite : x.isFinite
  · obtain ⟨n, proper, spelled⟩ := double_spelled finite
    exact ⟨_, spelled_reads proper spelled⟩
  · exact ⟨_, double_documentText finite ▸ null_reads⟩

private theorem leafText_reads : ∀ leaf : Json, ∃ document, Reads (leafText leaf) document
  | .bool true => ⟨.bool true, ⟨116, [114, 117, 101], by decide, by decide⟩, fun fuel depth rest _ => by
      have written : bytes (leafText (.bool true)).toList = [116, 114, 117, 101] := by decide
      rw [written, List.cons_append, readValue]
      rfl⟩
  | .bool false =>
    ⟨.bool false, ⟨102, [97, 108, 115, 101], by decide, by decide⟩, fun fuel depth rest _ => by
      have written : bytes (leafText (.bool false)).toList = [102, 97, 108, 115, 101] := by decide
      rw [written, List.cons_append, readValue]
      rfl⟩
  | .integer value =>
    ⟨_, spelled_reads (Numeral.ofInteger_proper value) (signedDecimal_spelled value)⟩
  | .single x => single_reads x
  | .double x => double_reads x
  | .text value => ⟨_, escapedText_reads value⟩
  | .null => ⟨_, null_reads⟩
  | .array _ => ⟨_, null_reads⟩
  | .object _ => ⟨_, null_reads⟩
  | .unreadable => ⟨_, null_reads⟩

private theorem leafText_reads_back (leaf : Json) :
    Reads (leafText leaf) ((ofText? (leafText leaf)).getD .unreadable) := by
  obtain ⟨document, reads⟩ := leafText_reads leaf
  rw [reads.ofText?]
  exact reads

theorem ofText?_null : ofText? "null" = some .null := null_reads.ofText?

theorem readBack_leaf (leaf : Json) (read : ofText? (leafText leaf) = some leaf) (depth : Nat) :
    readBack depth leaf = leaf := by
  cases leaf with
  | array items => cases ofText?_null.symm.trans read
  | object entries => cases ofText?_null.symm.trans read
  | _ =>
    change (ofText? (leafText _)).getD .unreadable = _
    rw [read]
    rfl

@[simp] theorem readBack_null (depth : Nat) : readBack depth .null = .null :=
  readBack_leaf .null ofText?_null depth

@[simp] theorem readBack_bool (depth : Nat) (value : Bool) :
    readBack depth (.bool value) = .bool value := by
  refine readBack_leaf (.bool value) ?_ depth
  cases value <;> decide +kernel

@[simp] theorem readBack_text (depth : Nat) (text : String) :
    readBack depth (.text text) = .text text :=
  readBack_leaf (.text text) (escapedText_reads text).ofText? depth

theorem readBack_integer {value : Int} (fits : InRange value) (depth : Nat) :
    readBack depth (.integer value) = .integer value := by
  have reads := spelled_reads (Numeral.ofInteger_proper value) (signedDecimal_spelled value)
  rw [Numeral.toJson_ofInteger fits] at reads
  exact readBack_leaf (.integer value) reads.ofText? depth

/-! ## Layouts -/

/-- How a document is laid out: the blanks before each part of a container and before its closing
mark, by the level of nesting, and those after the colon of an entry. -/
structure Style where
  separation : Nat → Bytes
  afterColon : Bytes
  blank : ∀ level, ∀ b ∈ separation level, isBlankByte b
  starts : ∀ level b tail, separation level = b :: tail → b = 10
  blankAfterColon : ∀ b ∈ afterColon, isBlankByte b

namespace Style

mutual

def write (style : Style) (level : Nat) : Json → Bytes
  | .array [] => [91, 93]
  | .array (item :: items) =>
    91 :: (style.writeItems (level + 1) (item :: items) ++ (style.separation level ++ [93]))
  | .object [] => [123, 125]
  | .object (entry :: entries) =>
    123 :: (style.writeEntries (level + 1) (entry :: entries) ++ (style.separation level ++ [125]))
  | leaf => bytes (leafText leaf).toList

def writeItems (style : Style) (level : Nat) : List Json → Bytes
  | [] => []
  | [item] => style.separation level ++ style.write level item
  | item :: next :: items =>
    style.separation level ++ (style.write level item ++
      44 :: style.writeItems level (next :: items))

def writeEntries (style : Style) (level : Nat) : List (String × Json) → Bytes
  | [] => []
  | [(key, value)] =>
    style.separation level ++ (bytes (escapedText key).toList ++
      58 :: (style.afterColon ++ style.write level value))
  | (key, value) :: next :: entries =>
    style.separation level ++ (bytes (escapedText key).toList ++
      58 :: (style.afterColon ++ (style.write level value ++
        44 :: style.writeEntries level (next :: entries))))

end

def onOneLine : Style where
  separation _ := []
  afterColon := []
  blank _ _ := nofun
  starts _ _ _ := nofun
  blankAfterColon _ := nofun

def onLines : Style where
  separation level := 10 :: List.replicate (2 * level) 32
  afterColon := [32]
  blank level b listed := by
    rcases List.mem_cons.mp listed with rfl | listed
    · rfl
    · rw [List.eq_of_mem_replicate listed]
      rfl
  starts level b tail same := (List.cons.inj same).1.symm
  blankAfterColon b listed := by
    rw [List.mem_singleton.mp listed]
    rfl

private theorem bytes_join (first second : String) :
    bytes (first ++ second).toList = bytes first.toList ++ bytes second.toList := by
  rw [String.toList_append, Text.bytes_append]

private theorem bytes_comma : bytes ",".toList = [44] := by decide
private theorem bytes_colon : bytes ":".toList = [58] := by decide
private theorem bytes_colonBlank : bytes ": ".toList = [58, 32] := by decide
private theorem bytes_bracket : bytes "[".toList = [91] := by decide
private theorem bytes_bracketEnd : bytes "]".toList = [93] := by decide
private theorem bytes_brace : bytes "\x7b".toList = [123] := by decide
private theorem bytes_braceEnd : bytes "\x7d".toList = [125] := by decide

mutual

theorem bytes_compact (level : Nat) : ∀ document : Json,
    bytes document.compact.toList = onOneLine.write level document
  | .null | .bool _ | .integer _ | .single _ | .double _ | .text _ | .unreadable => rfl
  | .array [] => by
    change _ = [91, 93]
    decide
  | .array (item :: items) => by
    rw [compact, bytes_join, bytes_join, bytes_bracket, bytes_bracketEnd,
      bytes_compactItems (level + 1), write]
    simp only [onOneLine, List.cons_append, List.nil_append]
  | .object [] => by
    change _ = [123, 125]
    decide
  | .object (entry :: entries) => by
    rw [compact, bytes_join, bytes_join, bytes_brace, bytes_braceEnd,
      bytes_compactEntries (level + 1), write]
    simp only [onOneLine, List.cons_append, List.nil_append]

theorem bytes_compactItems (level : Nat) : ∀ items : List Json,
    bytes (compactItems items).toList = onOneLine.writeItems level items
  | [] => rfl
  | [item] => bytes_compact level item
  | item :: next :: items => by
    rw [compactItems, bytes_join, bytes_join, bytes_comma, bytes_compact level item,
      bytes_compactItems level (next :: items), List.append_assoc, writeItems]
    simp only [onOneLine, List.cons_append, List.nil_append]

theorem bytes_compactEntries (level : Nat) : ∀ entries : List (String × Json),
    bytes (compactEntries entries).toList = onOneLine.writeEntries level entries
  | [] => rfl
  | [(key, value)] => by
    rw [compactEntries, bytes_join, bytes_join, bytes_colon, bytes_compact level value,
      List.append_assoc, writeEntries]
    simp only [onOneLine, List.cons_append, List.nil_append]
  | (key, value) :: next :: entries => by
    rw [compactEntries, bytes_join, bytes_join, bytes_join, bytes_join, bytes_colon, bytes_comma,
      bytes_compact level value, bytes_compactEntries level (next :: entries), writeEntries]
    simp only [onOneLine, List.append_assoc, List.cons_append, List.nil_append]

end

private theorem bytes_newLine (level : Nat) :
    bytes (newLine level).toList = onLines.separation level := by
  have blanks : ∀ count, bytes (List.replicate count ' ') = List.replicate count 32 := by
    intro count
    induction count with
    | zero => rfl
    | succ count ih =>
      rw [List.replicate_succ, Text.bytes_cons, ih]
      rfl
  have indent : (String.ofList (List.replicate (2 * level) ' ')).toList =
      List.replicate (2 * level) ' ' := String.toList_ofList
  have first : bytes "\n".toList = [10] := by decide
  rw [newLine, bytes_join, indent, blanks, first]
  rfl

mutual

theorem bytes_indentedAt (level : Nat) : ∀ document : Json,
    bytes (indentedAt level document).toList = onLines.write level document
  | .null | .bool _ | .integer _ | .single _ | .double _ | .text _ | .unreadable => rfl
  | .array [] => by
    change bytes "[]".toList = [91, 93]
    decide
  | .array (item :: items) => by
    rw [indentedAt, bytes_join, bytes_join, bytes_join, bytes_bracket, bytes_bracketEnd,
      bytes_newLine, bytes_indentedItems (level + 1), write]
    simp only [onLines, List.append_assoc, List.cons_append, List.nil_append]
  | .object [] => by
    change bytes "\x7b\x7d".toList = [123, 125]
    decide
  | .object (entry :: entries) => by
    rw [indentedAt, bytes_join, bytes_join, bytes_join, bytes_brace, bytes_braceEnd,
      bytes_newLine, bytes_indentedEntries (level + 1), write]
    simp only [onLines, List.append_assoc, List.cons_append, List.nil_append]

theorem bytes_indentedItems (level : Nat) : ∀ items : List Json,
    bytes (indentedItems level items).toList = onLines.writeItems level items
  | [] => rfl
  | [item] => by
    rw [indentedItems, bytes_join, bytes_newLine, bytes_indentedAt level item, writeItems]
  | item :: next :: items => by
    rw [indentedItems, bytes_join, bytes_join, bytes_join, bytes_comma, bytes_newLine,
      bytes_indentedAt level item, bytes_indentedItems level (next :: items), writeItems]
    simp only [onLines, List.append_assoc, List.cons_append, List.nil_append]

theorem bytes_indentedEntries (level : Nat) : ∀ entries : List (String × Json),
    bytes (indentedEntries level entries).toList = onLines.writeEntries level entries
  | [] => rfl
  | [(key, value)] => by
    rw [indentedEntries, bytes_join, bytes_join, bytes_join, bytes_colonBlank, bytes_newLine,
      bytes_indentedAt level value, writeEntries]
    simp only [onLines, List.append_assoc, List.cons_append, List.nil_append]
  | (key, value) :: next :: entries => by
    rw [indentedEntries, bytes_join, bytes_join, bytes_join, bytes_join, bytes_join, bytes_colonBlank,
      bytes_comma, bytes_newLine, bytes_indentedAt level value,
      bytes_indentedEntries level (next :: entries), writeEntries]
    simp only [onLines, List.append_assoc, List.cons_append, List.nil_append]

end

/-! ## Blanks -/

variable {style : Style}

private theorem skipBlanks_append {blanks : Bytes} (all : ∀ b ∈ blanks, isBlankByte b)
    (rest : Bytes) : skipBlanks (blanks ++ rest) = skipBlanks rest :=
  List.dropWhile_append_of_pos all

private theorem skipBlanks_separation (level : Nat) (rest : Bytes) :
    skipBlanks (style.separation level ++ rest) = skipBlanks rest :=
  skipBlanks_append (style.blank level) rest

private theorem closes_separation (style : Style) (level : Nat) {mark : UInt8}
    (closing : mark = 93 ∨ mark = 125) (rest : Bytes) : Closes (style.separation level ++ mark :: rest) := by
  intro b tail same
  cases separation : style.separation level with
  | nil =>
    rw [separation] at same
    obtain ⟨rfl, -⟩ := List.cons.inj same
    exact closing.elim (fun here => .inr (.inl here)) fun here => .inr (.inr (.inl here))
  | cons first more =>
    rw [separation] at same
    obtain ⟨rfl, -⟩ := List.cons.inj same
    exact .inr (.inr (.inr (style.starts level _ _ separation)))

private theorem closes_comma (rest : Bytes) : Closes (44 :: rest) := by
  rintro b tail ⟨⟩
  exact .inl rfl

/-! ## Whole documents -/

private theorem write_opens (style : Style) (level : Nat) (document : Json) :
    Opens (style.write level document) := by
  match document with
  | .array [] => exact ⟨91, _, rfl, by decide⟩
  | .array (item :: items) => exact ⟨91, _, rfl, by decide⟩
  | .object [] => exact ⟨123, _, rfl, by decide⟩
  | .object (entry :: entries) => exact ⟨123, _, rfl, by decide⟩
  | .null | .bool _ | .integer _ | .single _ | .double _ | .text _ | .unreadable =>
    exact (leafText_reads_back _).1

private def ReadsBack (style : Style) (fuel : Nat) : Prop :=
  ∀ (document : Json) (level depth : Nat) {rest : Bytes}, Closes rest →
    2 * (style.write level document).length ≤ fuel →
      readValue fuel depth (style.write level document ++ rest) =
        some (document.readBack depth, rest)

private def ReadsBackItems (style : Style) (fuel : Nat) : Prop :=
  ∀ (item : Json) (items : List Json) (level outer depth : Nat) (rest : Bytes),
    2 * (style.writeItems level (item :: items)).length < fuel →
      readItems fuel depth
          (style.writeItems level (item :: items) ++ (style.separation outer ++ 93 :: rest)) =
        some (readBackItems depth (item :: items), rest)

private def ReadsBackEntries (style : Style) (fuel : Nat) : Prop :=
  ∀ (entry : String × Json) (entries : List (String × Json)) (level outer depth : Nat) (rest : Bytes),
    2 * (style.writeEntries level (entry :: entries)).length < fuel →
      readEntries fuel depth
          (style.writeEntries level (entry :: entries) ++ (style.separation outer ++ 125 :: rest)) =
        some (some (readBackEntries depth (entry :: entries)), rest)

private theorem skipBlanks_skipBlanks (rest : Bytes) :
    skipBlanks (skipBlanks rest) = skipBlanks rest := by
  rw [skipBlanks, skipBlanks, List.dropWhile_idempotent]

private theorem readItems_skipBlanks (fuel depth : Nat) (rest : Bytes) :
    readItems fuel depth (skipBlanks rest) = readItems fuel depth rest := by
  cases fuel with
  | zero => rfl
  | succ fuel => rw [readItems, readItems, skipBlanks_skipBlanks]

private theorem readEntries_skipBlanks (fuel depth : Nat) (rest : Bytes) :
    readEntries fuel depth (skipBlanks rest) = readEntries fuel depth rest := by
  cases fuel with
  | zero => rfl
  | succ fuel => rw [readEntries, readEntries, skipBlanks_skipBlanks]

private theorem readItems_step {fuel : Nat} (values : ReadsBack style fuel)
    (more : ReadsBackItems style fuel) : ReadsBackItems style (fuel + 1) := by
  intro item items level outer depth rest enough
  have visible := (write_opens style level item).skipBlanks
  rw [readItems]
  cases items with
  | nil =>
    rw [writeItems] at enough ⊢
    rw [List.length_append] at enough
    have read := values item level depth (closes_separation style outer (.inl rfl) rest)
      (by omega)
    rw [List.append_assoc, skipBlanks_separation, visible]
    change (readValue _ _ _).bind _ = _
    rw [read, Option.bind_some]
    dsimp only
    rw [skipBlanks_separation]
    rfl
  | cons next items =>
    rw [writeItems] at enough ⊢
    simp only [List.length_append, List.length_cons] at enough
    have others := more next items level outer depth rest (by omega)
    have read := values item level depth (closes_comma (style.writeItems level (next :: items) ++
      (style.separation outer ++ 93 :: rest))) (by omega)
    rw [List.append_assoc, skipBlanks_separation, List.append_assoc, visible, List.cons_append]
    change (readValue _ _ _).bind _ = _
    rw [read]
    change (readItems fuel depth _).bind _ = _
    rw [others]
    rfl

private theorem readEntries_step {fuel : Nat} (values : ReadsBack style fuel)
    (more : ReadsBackEntries style fuel) : ReadsBackEntries style (fuel + 1) := by
  intro ⟨key, value⟩ entries level outer depth rest enough
  have visible : ∀ rest, skipBlanks (style.afterColon ++ (style.write level value ++ rest)) =
      style.write level value ++ rest := fun rest => by
    rw [skipBlanks_append style.blankAfterColon, (write_opens style level value).skipBlanks]
  have quote : ∀ rest : Bytes, skipBlanks (34 :: rest) = 34 :: rest := fun _ => rfl
  rw [readEntries]
  cases entries with
  | nil =>
    rw [writeEntries, bytes_escapedText] at enough ⊢
    simp only [List.length_append, List.length_cons] at enough
    have read := values value level depth
      (closes_separation style outer (.inr rfl) rest) (by omega)
    have spelled := readSpelling_escapedText key
      (58 :: (style.afterColon ++ (style.write level value ++
        (style.separation outer ++ 125 :: rest))))
    simp only [List.cons_append, List.append_assoc, List.nil_append, skipBlanks_separation, quote]
    change (readSpelling .start _).bind _ = _
    rw [spelled]
    change (readValue fuel depth (skipBlanks _)).bind _ = _
    rw [visible, read, Option.bind_some]
    dsimp only
    rw [skipBlanks_separation]
    rfl
  | cons next entries =>
    rw [writeEntries, bytes_escapedText] at enough ⊢
    simp only [List.length_append, List.length_cons] at enough
    have read := values value level depth (closes_comma
      (style.writeEntries level (next :: entries) ++ (style.separation outer ++ 125 :: rest)))
      (by omega)
    have others := more next entries level outer depth rest (by omega)
    have spelled := readSpelling_escapedText key
      (58 :: (style.afterColon ++ (style.write level value ++
        44 :: (style.writeEntries level (next :: entries) ++
          (style.separation outer ++ 125 :: rest)))))
    simp only [List.cons_append, List.append_assoc, List.nil_append, skipBlanks_separation, quote]
    change (readSpelling .start _).bind _ = _
    rw [spelled]
    change (readValue fuel depth (skipBlanks _)).bind _ = _
    rw [visible, read]
    change (readEntries fuel depth _).bind _ = _
    rw [others]
    rfl

private theorem readValue_bracket (fuel depth : Nat) {written : Bytes}
    (opens : ∀ tail, skipBlanks written ≠ 93 :: tail) :
    readValue (fuel + 1) depth (91 :: written) =
      (readItems fuel (depth + 1) written).map fun (items, rest) =>
        (if depth < maxDepth then .array items else .unreadable, rest) := by
  have number : (91 : UInt8).toNat = 91 := rfl
  rw [← readItems_skipBlanks]
  simp only [readValue, number]
  exact bind_pure_comp _ _

private theorem readValue_brace (fuel depth : Nat) {written : Bytes}
    (opens : ∀ tail, skipBlanks written ≠ 125 :: tail) :
    readValue (fuel + 1) depth (123 :: written) =
      (readEntries fuel (depth + 1) written).map fun (entries, rest) =>
        (if depth < maxDepth then (entries.map Json.object).getD .unreadable else .unreadable,
          rest) := by
  have number : (123 : UInt8).toNat = 123 := rfl
  rw [← readEntries_skipBlanks]
  simp only [readValue, number]
  exact bind_pure_comp _ _

private theorem writeItems_opens (style : Style) (level : Nat) (item : Json) (items : List Json)
    (rest tail : Bytes) : skipBlanks (style.writeItems level (item :: items) ++ rest) ≠ 93 :: tail := by
  have opens : ∃ more, style.writeItems level (item :: items) =
      style.separation level ++ (style.write level item ++ more) := by
    cases items with
    | nil => exact ⟨[], by rw [writeItems, List.append_nil]⟩
    | cons next items => exact ⟨_, by rw [writeItems]⟩
  obtain ⟨more, same⟩ := opens
  obtain ⟨b, following, starts, -, other, -⟩ := write_opens style level item
  have visible := (write_opens style level item).skipBlanks (more ++ rest)
  rw [same, List.append_assoc, skipBlanks_separation, List.append_assoc, visible, starts]
  exact fun closed => other (List.cons.inj closed).1

private theorem writeEntries_opens (style : Style) (level : Nat) (entry : String × Json)
    (entries : List (String × Json)) (rest tail : Bytes) :
    skipBlanks (style.writeEntries level (entry :: entries) ++ rest) ≠ 125 :: tail := by
  obtain ⟨key, value⟩ := entry
  have opens : ∃ more, style.writeEntries level ((key, value) :: entries) =
      style.separation level ++ 34 :: more := by
    cases entries with
    | nil => exact ⟨_, by rw [writeEntries, bytes_escapedText]; rfl⟩
    | cons next entries => exact ⟨_, by rw [writeEntries, bytes_escapedText]; rfl⟩
  obtain ⟨more, same⟩ := opens
  rw [same, List.append_assoc, skipBlanks_separation]
  exact fun closed => absurd (List.cons.inj closed).1 (by decide)

private theorem readValue_step {fuel : Nat} (items : ReadsBackItems style fuel)
    (entries : ReadsBackEntries style fuel) : ReadsBack style (fuel + 1) := by
  intro document level depth rest closes enough
  cases document with
  | array parts =>
    cases parts with
    | nil => rfl
    | cons item parts =>
      rw [write] at enough ⊢
      simp only [List.length_cons, List.length_append] at enough
      rw [List.cons_append, List.append_assoc, readBack,
        readValue_bracket fuel depth (writeItems_opens style (level + 1) item parts _),
        List.append_assoc, List.singleton_append,
        items item parts (level + 1) level (depth + 1) rest (by omega)]
      rfl
  | object parts =>
    cases parts with
    | nil => rfl
    | cons entry parts =>
      rw [write] at enough ⊢
      simp only [List.length_cons, List.length_append] at enough
      rw [List.cons_append, List.append_assoc, readBack,
        readValue_brace fuel depth (writeEntries_opens style (level + 1) entry parts _),
        List.append_assoc, List.singleton_append,
        entries entry parts (level + 1) level (depth + 1) rest (by omega)]
      rfl
  | _ => exact (leafText_reads_back _).2 fuel depth rest closes

private theorem readsBack (style : Style) (fuel : Nat) :
    ReadsBack style fuel ∧ ReadsBackItems style fuel ∧ ReadsBackEntries style fuel := by
  induction fuel with
  | zero =>
    refine ⟨fun document level depth rest _ enough => ?_, fun _ _ _ _ _ _ enough => ?_,
      fun _ _ _ _ _ _ enough => ?_⟩
    · have := (write_opens style level document).length
      omega
    · exact absurd enough (Nat.not_lt_zero _)
    · exact absurd enough (Nat.not_lt_zero _)
  | succ fuel ih =>
    obtain ⟨values, items, entries⟩ := ih
    exact ⟨readValue_step items entries, readItems_step values items,
      readEntries_step values entries⟩

private theorem ofText?_write (style : Style) {document : Json} {text : String}
    (written : bytes text.toList = style.write 0 document) :
    ofText? text = some (document.readBack 0) := by
  have read := (readsBack style (2 * (style.write 0 document).length + 2)).1 document 0 0 closes_nil
    (Nat.le_add_right _ _)
  have skipped := (write_opens style 0 document).skipBlanks []
  rw [List.append_nil] at read skipped
  rw [ofText?, ofBytes?, Text.toUTF8_toList, written, skipped, read]
  rfl

end Style

theorem ofText?_compact (document : Json) :
    ofText? document.compact = some (document.readBack 0) :=
  Style.ofText?_write .onOneLine (Style.bytes_compact 0 document)

theorem ofText?_indented (document : Json) :
    ofText? document.indented = some (document.readBack 0) :=
  Style.ofText?_write .onLines (Style.bytes_indentedAt 0 document)

end ScriptGraph.Json
