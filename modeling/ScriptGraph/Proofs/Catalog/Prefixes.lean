import ScriptGraph.Proofs.Catalog.Overloads
import ScriptGraph.Definition.Document
import ScriptGraph.Json.Reader

/-!
Looking up a prefix is filtering. A catalog is filled by single definitions and by documents that list
some, in any number and order; a name that is taken is refused, and a document is taken in up to the
first such name. What is looked up is compared with a list of all that was taken in, in the order in
which it came, which is searched from end to end.
-/

set_option autoImplicit false
set_option relaxedAutoImplicit false

namespace ScriptGraph.Catalog

/-- What is added at a time: one definition, or all that the text of a document lists. -/
inductive Addition where
  | definition (d : Definition)
  | document (text : String)

/-- Takes in an addition. A document that cannot be read adds nothing. -/
def take (c : Catalog) : Addition → Catalog × Option CatalogError
  | .definition d =>
    match c.register d with
    | .ok c => (c, none)
    | .error error => (c, some error)
  | .document text =>
    match (Json.ofText? text).bind Definition.listOfJson? with
    | some definitions => c.extend definitions
    | none => (c, some .malformed)

/-- The catalog after additions, of which some may have been refused. -/
def taken (additions : List Addition) : Catalog :=
  additions.foldl (fun c addition => (c.take addition).1) empty

def Addition.offered : Addition → List Definition
  | .definition d => [d]
  | .document text => ((Json.ofText? text).bind Definition.listOfJson?).getD []

/-- Writes definitions at the end of a list, up to the first with a name that is in it. -/
def noted (log : List Definition) : List Definition → List Definition
  | [] => log
  | d :: rest => if d.fullName ∈ log.map Definition.fullName then log else noted (log ++ [d]) rest

/-- All that is registered by additions, in the order in which it comes. -/
def registered (additions : List Addition) : List Definition :=
  additions.foldl (fun log addition => noted log addition.offered) []

variable {c : Catalog} {d : Definition} {log : List Definition}

theorem take_eq_extend (c : Catalog) (addition : Addition) :
    (c.take addition).1 = (c.extend addition.offered).1 := by
  cases addition with
  | definition d =>
    rw [take, Addition.offered, extend]
    cases c.register d <;> rfl
  | document text =>
    rw [take, Addition.offered]
    cases (Json.ofText? text).bind Definition.listOfJson? <;> rfl

theorem register_of_perm (same : c.definitions.Perm log) :
    if d.fullName ∈ log.map Definition.fullName then c.register d = .error (.duplicate d.fullName)
    else ∃ c', c.register d = .ok c' ∧ c'.definitions.Perm (log ++ [d]) := by
  have known : (c.find? d.fullName).isSome ↔ d.fullName ∈ log.map Definition.fullName := by
    rw [find?, List.find?_isSome, List.mem_map]
    simp only [same.mem_iff, beq_iff_eq]
  split
  · rename_i listed
    rw [register, if_pos (known.mpr listed)]
  · rename_i free
    refine ⟨_, by rw [register, if_neg (mt known.mp free)], ?_⟩
    calc (insertSorted d c.definitions).Perm (d :: c.definitions) := insertSorted_perm d _
      _ |>.Perm (d :: log) := same.cons d
      _ |>.Perm (log ++ [d]) := (List.perm_append_singleton d log).symm

theorem extend_perm (same : c.definitions.Perm log) (definitions : List Definition) :
    (c.extend definitions).1.definitions.Perm (noted log definitions) := by
  induction definitions generalizing c log with
  | nil => exact same
  | cons d rest ih =>
    have registers := register_of_perm (d := d) same
    rw [extend, noted]
    split at registers
    · rename_i listed
      rw [registers, if_pos listed]
      exact same
    · rename_i free
      obtain ⟨c', registers, same⟩ := registers
      rw [registers, if_neg free]
      exact ih same

theorem taken_spec (additions : List Addition) :
    (taken additions).definitions.Perm (registered additions) ∧ (taken additions).Ascending := by
  induction additions using List.reverseRecOn with
  | nil => exact ⟨.refl _, empty_ascending⟩
  | append_singleton additions addition ih =>
    obtain ⟨same, ascending⟩ := ih
    have next : taken (additions ++ [addition]) = ((taken additions).extend addition.offered).1 := by
      rw [taken, List.foldl_concat, take_eq_extend]
      rfl
    have noted : registered (additions ++ [addition]) = noted (registered additions) addition.offered :=
      List.foldl_concat _ _ _ _
    rw [next, noted]
    exact ⟨extend_perm same _, ascending.extend _⟩

/-- Whatever has been added and whatever is looked up, the empty text included: what is found is what is
registered under a name that starts with it, each definition once, in ascending order of the bytes of
their names. -/
theorem withPrefix_registered (additions : List Addition) (start : String) :
    ((taken additions).withPrefix start).Perm
        ((registered additions).filter fun d => start.toList <+: d.fullName.toList) ∧
      ((taken additions).withPrefix start).Pairwise fun d e =>
        d.fullName.toUTF8.toList < e.fullName.toUTF8.toList := by
  obtain ⟨same, ascending⟩ := taken_spec additions
  rw [ascending.withPrefix_eq]
  constructor
  · have starts : (fun d : Definition => Text.startsWith start d.fullName) =
        fun d => decide (start.toList <+: d.fullName.toList) := by
      funext d
      rw [Bool.eq_iff_iff, decide_eq_true_iff, Text.startsWith_iff]
    rw [starts]
    exact same.filter _
  · refine (ascending.sublist List.filter_sublist).imp fun before => ?_
    rw [Text.toUTF8_toList, Text.toUTF8_toList]
    exact Text.bytes_lt_iff.mpr before

example : ((taken [.definition (.bare "Ａ😀"), .definition (.bare "ＡＡ"), .document "[",
    .definition (.bare "Ａ"), .definition (.bare "ＡＡ"), .definition (.bare "A")]).withPrefix "Ａ").map
      Definition.fullName = ["Ａ", "ＡＡ", "Ａ😀"] := by decide +kernel

end ScriptGraph.Catalog
