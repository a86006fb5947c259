import ScriptGraph.HeapLayout
import ScriptGraph.Proofs.Lookup
import ScriptGraph.Proofs.Graph.Document

/-!
The names of slots. A name that is made of a stem and a count is read back to both, so that counting
alone keeps such names apart; names that are given must not start as those stems do.
-/

set_option autoImplicit false
set_option relaxedAutoImplicit false

namespace ScriptGraph

/-! ## Counted names -/

namespace Text

theorem underscore_not_mem_decimal (number : Nat) : '_' ∉ (decimal number).toList := by
  have each : ∀ digit < 10, digitChar digit ≠ '_' := by decide
  rw [decimal, String.toList_ofList]
  intro listed
  obtain ⟨digit, there, same⟩ := List.mem_map.mp listed
  exact each digit ((digits_plain number).1.small digit there) same

theorem decimal_injective {number other : Nat} (same : decimal number = decimal other) :
    number = other := by
  have digits := congrArg (fun text => decimalValue? text.toList) same
  simp only [decimal, String.toList_ofList, decimalValue?_digits, Option.some.injEq] at digits
  exact digits

private theorem append_cons_inj {mark : Char} {first second : List Char} {before other : List Char}
    (clear : mark ∉ first) (alsoClear : mark ∉ second)
    (same : before ++ mark :: first = other ++ mark :: second) : before = other ∧ first = second := by
  induction before generalizing other with
  | nil =>
    cases other with
    | nil => exact ⟨rfl, (List.cons.inj same).2⟩
    | cons c other =>
      refine absurd ?_ clear
      rw [(List.cons.inj same).2]
      exact List.mem_append_right _ List.mem_cons_self
  | cons c before ih =>
    cases other with
    | nil =>
      refine absurd ?_ alsoClear
      rw [← (List.cons.inj same).2]
      exact List.mem_append_right _ List.mem_cons_self
    | cons d other =>
      obtain ⟨head, tail⟩ := List.cons.inj same
      obtain ⟨rfl, rest⟩ := ih tail
      exact ⟨congrArg (· :: _) head, rest⟩

end Text

namespace HeapLayout

def numbered (stem : String) (count : Nat) : String := stem ++ "_" ++ Text.decimal count

theorem numbered_injective {stem other : String} {count more : Nat}
    (same : numbered stem count = numbered other more) : stem = other ∧ count = more := by
  have texts := congrArg String.toList same
  simp only [numbered, String.toList_append, List.append_assoc] at texts
  obtain ⟨stems, digits⟩ := Text.append_cons_inj (Text.underscore_not_mem_decimal count)
    (Text.underscore_not_mem_decimal more) texts
  exact ⟨String.toList_inj.mp stems, Text.decimal_injective (String.toList_inj.mp digits)⟩

def Internal (name : String) : Prop :=
  constantStem.toList <+: name.toList ∨ intermediateStem.toList <+: name.toList

theorem internal_numbered {stem : String} (stemmed : Internal stem) (count : Nat) :
    Internal (numbered stem count) := by
  have extends_ : stem.toList <+: (numbered stem count).toList := by
    rw [numbered, String.toList_append, String.toList_append, List.append_assoc]
    exact List.prefix_append _ _
  exact stemmed.imp (·.trans extends_) (·.trans extends_)

theorem not_internal {name : String} {c : Char} {rest : List Char} (starts : name.toList = c :: rest)
    (plain : c ≠ '_') : ¬Internal name := by
  rintro (⟨more, same⟩ | ⟨more, same⟩) <;>
    exact plain (List.cons.inj (same.trans starts)).1.symm

/-! ## Layouts -/

def count (h : HeapLayout) (stem : String) : Nat := (h.counts.lookup stem).getD 0

theorem nextName_fst (h : HeapLayout) (stem : String) :
    (h.nextName stem).1 = numbered stem (h.count stem) := rfl

theorem count_nextName (h : HeapLayout) (stem other : String) :
    (h.nextName stem).2.count other = if other = stem then h.count stem + 1 else h.count other := by
  change ((((stem, h.count stem + 1) :: h.counts).lookup other).getD 0 : Nat) = _
  rw [lookup_cons_eq]
  split <;> rfl

/-- No name is given twice, and the names to come by counting are free. -/
structure Unambiguous (h : HeapLayout) : Prop where
  distinct : h.names.Nodup
  counted : ∀ stem number, Internal stem → numbered stem number ∈ h.names → number < h.count stem

namespace Unambiguous

variable {h later : HeapLayout} {symbol : Symbol}

theorem names_push (symbols : later.symbols = h.symbols.push symbol) :
    later.names = h.names ++ [symbol.name] := by
  rw [names, symbols, Array.toList_push, List.map_append, List.map_singleton, names]

private theorem nodup_push (distinct : h.names.Nodup) {name : String} (free : name ∉ h.names) :
    (h.names ++ [name]).Nodup :=
  List.nodup_append.mpr ⟨distinct, List.pairwise_singleton _ _, fun _ listed _ here same =>
    free (List.mem_singleton.mp here ▸ same ▸ listed)⟩

theorem push_counted (unambiguous : Unambiguous h) {stem : String} (stemmed : Internal stem)
    (symbols : later.symbols = h.symbols.push symbol) (named : symbol.name = (h.nextName stem).1)
    (counts : later.counts = (h.nextName stem).2.counts) : Unambiguous later := by
  have grown : ∀ other, later.count other =
      if other = stem then h.count stem + 1 else h.count other := by
    intro other
    rw [← count_nextName, count, counts, count]
  rw [nextName_fst] at named
  have free : numbered stem (h.count stem) ∉ h.names := fun listed =>
    absurd (unambiguous.counted stem _ stemmed listed) (Nat.lt_irrefl _)
  refine ⟨?_, fun other number alsoStemmed listed => ?_⟩
  · rw [names_push symbols, named]
    exact nodup_push unambiguous.distinct free
  · rw [names_push symbols, named] at listed
    rw [grown]
    rcases List.mem_append.mp listed with listed | listed
    · have below := unambiguous.counted other number alsoStemmed listed
      split
      · rename_i same
        exact Nat.lt_succ_of_lt (same ▸ below)
      · exact below
    · obtain ⟨rfl, rfl⟩ := numbered_injective (List.mem_singleton.mp listed)
      rw [if_pos rfl]
      exact Nat.lt_succ_self _

theorem push_given (unambiguous : Unambiguous h) (symbols : later.symbols = h.symbols.push symbol)
    (free : symbol.name ∉ h.names) (given : ¬Internal symbol.name) (counts : later.counts = h.counts) :
    Unambiguous later := by
  refine ⟨?_, fun other number stemmed listed => ?_⟩
  · rw [names_push symbols]
    exact nodup_push unambiguous.distinct free
  · rw [names_push symbols] at listed
    rw [count, counts]
    rcases List.mem_append.mp listed with listed | listed
    · exact unambiguous.counted other number stemmed listed
    · exact absurd (internal_numbered stemmed number) (List.mem_singleton.mp listed ▸ given)

end Unambiguous

end HeapLayout

end ScriptGraph
