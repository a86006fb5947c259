import ScriptGraph.Layout

/-!
What records are kept by. A record of a type of which there is only one is kept by its type, any other
by its uid. Saving looks for a uid among all records, so it replaces a record of its own key, or else
none, unless the first record with the uid is kept by its type.
-/

set_option autoImplicit false
set_option relaxedAutoImplicit false

namespace ScriptGraph.Layout

/-- What may be done with a layout. -/
inductive Edit where
  | save (record : Json)
  | remove (uid : String)
  | addComment (uid : Uid) (text : String) (position : Position)

/-- The record that an edit saves. -/
def Edit.record? : Edit → Option Json
  | .save record => some record
  | .remove _ => none
  | .addComment uid text position => some (comment uid text position)

def apply (l : Layout) : Edit → Layout
  | .save record => l.save record
  | .remove uid => l.remove uid
  | .addComment uid text position => l.addComment uid text position

/-- A layout after edits in order. -/
def after (l : Layout) (edits : List Edit) : Layout := edits.foldl apply l

/-- What a record is kept by. -/
inductive Key where
  | type (name : String)
  | uid (uid : String)
deriving DecidableEq

/-- The type of a record, if there is at most one record of that type. -/
def singleType? (record : Json) : Option String := (type? record).filter singleTypes.contains

def key? (record : Json) : Option Key :=
  match singleType? record with
  | some name => some (.type name)
  | none => (uid? record).map .uid

/-- At most one record is kept by each type and by each uid. -/
def Keyed (l : Layout) : Prop := (l.records.filterMap key?).Nodup

/-- A record is saved in place of one with its key, or after all others if there is none. -/
def SavesByKey (l : Layout) (record : Json) : Prop :=
  (∃ before old after, l.records = before ++ old :: after ∧
    (l.save record).records = before ++ record :: after ∧
    (key? record).isSome ∧ key? old = key? record) ∨
  ((l.save record).records = l.records ++ [record] ∧
    ∀ key, key? record = some key → ∀ old ∈ l.records, key? old ≠ some key)

/-- A record is kept by its uid, but the first record with that uid is kept by its type. -/
def Clashes (l : Layout) (record : Json) : Prop :=
  singleType? record = none ∧
    ((uid? record).bind l.find?).any fun old => (singleType? old).isSome

instance (l : Layout) (record : Json) : Decidable (l.Clashes record) :=
  inferInstanceAs (Decidable (_ ∧ _))

/-- No edit saves a record that clashes with those there are by then. -/
def Apart : Layout → List Edit → Prop
  | _, [] => True
  | l, edit :: rest =>
    (∀ record, edit.record? = some record → ¬l.Clashes record) ∧ Apart (l.apply edit) rest

variable {l : Layout} {record old : Json}

theorem type?_of_singleType? {name : String} (single : singleType? record = some name) :
    type? record = some name :=
  (Option.filter_eq_some_iff.mp single).1

theorem key?_of_single {name : String} (single : singleType? record = some name) :
    key? record = some (.type name) := by
  rw [key?, single]

theorem key?_of_many {uid : String} (many : singleType? record = none)
    (called : uid? record = some uid) : key? record = some (.uid uid) := by
  rw [key?, many, called]
  rfl

theorem replaces_of_single {name : String} (single : singleType? record = some name) :
    replaces record old = true ↔ singleType? old = some name := by
  obtain ⟨type, only⟩ := Option.filter_eq_some_iff.mp single
  rw [replaces, type, Option.any_some, if_pos only, beq_iff_eq]
  constructor
  · intro same
    exact Option.filter_eq_some_iff.mpr ⟨same, only⟩
  · exact type?_of_singleType?

theorem replaces_of_many (many : singleType? record = none) :
    replaces record old = true ↔ ∃ uid, uid? record = some uid ∧ uid? old = some uid := by
  have others : ¬(type? record).any singleTypes.contains = true := by
    cases type : type? record with
    | none => simp
    | some name =>
      intro only
      have single : singleType? record = some name := Option.filter_eq_some_iff.mpr ⟨type, only⟩
      rw [many] at single
      cases single
  rw [replaces, if_neg others, Bool.and_eq_true, beq_iff_eq, Option.isSome_iff_exists]
  constructor
  · rintro ⟨⟨uid, called⟩, same⟩
    exact ⟨uid, called, same.trans called⟩
  · rintro ⟨uid, called, same⟩
    exact ⟨⟨uid, called⟩, same.trans called.symm⟩

theorem put_cases (record : Json) (records : List Json) :
    (∃ before old after, records = before ++ old :: after ∧
      put record records = before ++ record :: after ∧ replaces record old = true ∧
      ∀ other ∈ before, replaces record other = false) ∨
    (put record records = records ++ [record] ∧
      ∀ other ∈ records, replaces record other = false) := by
  induction records with
  | nil => exact Or.inr ⟨rfl, fun other listed => absurd listed List.not_mem_nil⟩
  | cons first rest ih =>
    by_cases here : replaces record first = true
    · refine Or.inl ⟨[], first, rest, rfl, ?_, here, fun other listed => ?_⟩
      · rw [put, if_pos here, List.nil_append]
      · exact absurd listed List.not_mem_nil
    · have there : replaces record first = false := Bool.eq_false_iff.mpr here
      rw [put, if_neg here]
      rcases ih with ⟨before, old, after, split, puts, replaced, others⟩ | ⟨puts, others⟩
      · refine Or.inl ⟨first :: before, old, after, ?_, ?_, replaced, ?_⟩
        · rw [split, List.cons_append]
        · rw [puts, List.cons_append]
        · exact List.forall_mem_cons.mpr ⟨there, others⟩
      · refine Or.inr ⟨?_, List.forall_mem_cons.mpr ⟨there, others⟩⟩
        rw [puts, List.cons_append]

theorem find?_of_replaced {uid : String} {before after : List Json}
    (many : singleType? record = none) (called : uid? record = some uid)
    (split : l.records = before ++ old :: after) (replaced : replaces record old = true)
    (others : ∀ other ∈ before, replaces record other = false) : l.find? uid = some old := by
  obtain ⟨_, named, same⟩ := (replaces_of_many many).mp replaced
  rw [← named, called] at same
  rw [find?, split, List.find?_append, List.find?_eq_none.mpr ?_, Option.none_or,
    List.find?_cons_of_pos (by rw [same]; exact beq_self_eq_true (some uid))]
  intro other listed equal
  have taken := (replaces_of_many many).mpr ⟨uid, called, beq_iff_eq.mp equal⟩
  rw [others other listed] at taken
  cases taken

theorem key?_of_replaced {before after : List Json} (split : l.records = before ++ old :: after)
    (replaced : replaces record old = true) (others : ∀ other ∈ before, replaces record other = false)
    (apart : ¬l.Clashes record) : (key? record).isSome ∧ key? old = key? record := by
  cases single : singleType? record with
  | some name =>
    rw [key?_of_single single, key?_of_single ((replaces_of_single single).mp replaced)]
    exact ⟨rfl, rfl⟩
  | none =>
    obtain ⟨uid, called, same⟩ := (replaces_of_many single).mp replaced
    have many : singleType? old = none := by
      refine Option.not_isSome_iff_eq_none.mp fun only => apart ⟨single, ?_⟩
      rw [called, Option.bind_some, find?_of_replaced single called split replaced others]
      exact only
    rw [key?_of_many single called, key?_of_many many same]
    exact ⟨rfl, rfl⟩

theorem replaces_of_key? {key : Key} (keyed : key? record = some key) (same : key? old = some key) :
    replaces record old = true := by
  unfold key? at keyed same
  cases single : singleType? record with
  | some name =>
    rw [single] at keyed
    obtain rfl := Option.some.inj keyed
    refine (replaces_of_single single).mpr ?_
    split at same
    · rename_i other only
      rw [only, Key.type.inj (Option.some.inj same)]
    · obtain ⟨uid, -, differ⟩ := Option.map_eq_some_iff.mp same
      cases differ
  | none =>
    rw [single] at keyed
    obtain ⟨uid, called, rfl⟩ := Option.map_eq_some_iff.mp keyed
    refine (replaces_of_many single).mpr ⟨uid, called, ?_⟩
    split at same
    · cases same
    · obtain ⟨other, named, equal⟩ := Option.map_eq_some_iff.mp same
      rw [named, Key.uid.inj equal]

theorem savesByKey (apart : ¬l.Clashes record) : l.SavesByKey record := by
  rcases put_cases record l.records with
    ⟨before, old, after, split, puts, replaced, others⟩ | ⟨puts, others⟩
  · exact Or.inl ⟨before, old, after, split, puts, key?_of_replaced split replaced others apart⟩
  · refine Or.inr ⟨puts, fun key keyed other listed same => ?_⟩
    have taken := replaces_of_key? keyed same
    rw [others other listed] at taken
    cases taken

theorem not_savesByKey (clashes : l.Clashes record) : ¬l.SavesByKey record := by
  obtain ⟨many, taken⟩ := clashes
  obtain ⟨first, found, single⟩ := (Option.any_eq_true _ _).mp taken
  obtain ⟨uid, called, found⟩ := Option.bind_eq_some_iff.mp found
  obtain ⟨name, single⟩ := Option.isSome_iff_exists.mp single
  rcases put_cases record l.records with
    ⟨before, old, after, split, puts, replaced, others⟩ | ⟨-, others⟩
  · obtain rfl : first = old :=
      Option.some.inj (found.symm.trans (find?_of_replaced many called split replaced others))
    rintro (⟨earlier, kept, later, place, saves, -, same⟩ | ⟨saves, -⟩)
    · -- A save by key leaves the keys of all places as they are, but this one is not kept by its type.
      have keys : (l.save record).records.map key? = l.records.map key? := by
        rw [saves, place, List.map_append, List.map_append, List.map_cons, List.map_cons, same]
      rw [save, puts, split, List.map_append, List.map_append, List.map_cons, List.map_cons,
        key?_of_many many called, key?_of_single single] at keys
      cases (List.cons.inj (List.append_cancel_left keys)).1
    · have longer : (l.save record).records.length = l.records.length + 1 := by
        rw [saves, List.length_append, List.length_singleton]
      rw [save, puts, split, List.length_append, List.length_append] at longer
      exact absurd longer.symm (Nat.succ_ne_self _)
  · have listed := List.mem_of_find?_eq_some found
    rw [find?] at found
    have same := List.find?_some found
    have taken := (replaces_of_many many).mpr ⟨uid, called, beq_iff_eq.mp same⟩
    rw [others first listed] at taken
    cases taken

theorem savesByKey_iff : l.SavesByKey record ↔ ¬l.Clashes record :=
  ⟨fun saves clashes => not_savesByKey clashes saves, savesByKey⟩

/-! ## What edits keep -/

theorem apply_cases (l : Layout) (edit : Edit) :
    (∃ record, edit.record? = some record ∧ l.apply edit = l.save record) ∨
      ∃ uid, l.apply edit = l.remove uid := by
  cases edit with
  | save record => exact Or.inl ⟨record, rfl, rfl⟩
  | remove uid => exact Or.inr ⟨uid, rfl⟩
  | addComment uid text position => exact Or.inl ⟨comment uid text position, rfl, rfl⟩

section Distinct

variable {κ : Type} {f : Json → Option κ}

private theorem nodup_replaced {before after : List Json}
    (nodup : ((before ++ old :: after).filterMap f).Nodup)
    (kept : f record = none ∨ f record = f old) :
    ((before ++ record :: after).filterMap f).Nodup := by
  rw [List.filterMap_append, List.filterMap_cons] at nodup ⊢
  rcases kept with none | same
  · rw [none]
    refine nodup.sublist (List.Sublist.append_left ?_ _)
    cases f old with
    | none => exact List.Sublist.refl _
    | some key => exact List.sublist_cons_self key _
  · rwa [same]

private theorem nodup_added {records : List Json} (nodup : (records.filterMap f).Nodup)
    (new : ∀ key, f record = some key → ∀ old ∈ records, f old ≠ some key) :
    ((records ++ [record]).filterMap f).Nodup := by
  rw [List.filterMap_append]
  cases own : f record with
  | none => simpa [own] using nodup
  | some key =>
    rw [List.filterMap_cons, own, List.filterMap_nil]
    refine List.nodup_append.mpr ⟨nodup, List.pairwise_singleton _ key, ?_⟩
    rintro other listed _ last rfl
    obtain ⟨old, there, same⟩ := List.mem_filterMap.mp listed
    exact new key own old there (same.trans (congrArg some (List.mem_singleton.mp last)))

private theorem nodup_remove (nodup : (l.records.filterMap f).Nodup) (uid : String) :
    ((l.remove uid).records.filterMap f).Nodup :=
  nodup.sublist (List.filter_sublist.filterMap f)

end Distinct

theorem single_apply (single : (l.records.filterMap singleType?).Nodup) (edit : Edit) :
    ((l.apply edit).records.filterMap singleType?).Nodup := by
  rcases l.apply_cases edit with ⟨record, -, saves⟩ | ⟨uid, removes⟩
  · rw [saves, save]
    rcases put_cases record l.records with
      ⟨before, old, after, split, puts, replaced, -⟩ | ⟨puts, others⟩
    · rw [puts]
      rw [split] at single
      refine nodup_replaced single ?_
      cases own : singleType? record with
      | none => exact Or.inl rfl
      | some name => exact Or.inr ((replaces_of_single own).mp replaced).symm
    · rw [puts]
      refine nodup_added single fun name own old listed same => ?_
      have taken := (replaces_of_single own).mpr same
      rw [others old listed] at taken
      cases taken
  · rw [removes]
    exact nodup_remove single uid

theorem Keyed.apply (keyed : l.Keyed) {edit : Edit}
    (apart : ∀ record, edit.record? = some record → ¬l.Clashes record) :
    (l.apply edit).Keyed := by
  rcases l.apply_cases edit with ⟨record, saved, saves⟩ | ⟨uid, removes⟩
  · rw [saves, Keyed]
    rcases savesByKey (apart record saved) with
      ⟨before, old, after, split, puts, -, same⟩ | ⟨puts, new⟩
    · rw [puts]
      rw [Keyed, split] at keyed
      exact nodup_replaced keyed (Or.inr same.symm)
    · rw [puts]
      exact nodup_added keyed new
  · rw [removes]
    exact nodup_remove keyed uid

theorem single_after (single : (l.records.filterMap singleType?).Nodup) (edits : List Edit) :
    ((l.after edits).records.filterMap singleType?).Nodup := by
  induction edits generalizing l with
  | nil => exact single
  | cons edit edits ih => exact ih (single_apply single edit)

theorem Keyed.after (keyed : l.Keyed) {edits : List Edit} (apart : l.Apart edits) :
    (l.after edits).Keyed := by
  induction edits generalizing l with
  | nil => exact keyed
  | cons edit edits ih => exact ih (keyed.apply apart.1) apart.2

/-- After any edits of an empty layout there is at most one record of each single type. As long as no
record is saved that clashes with those there are, there is at most one record for each other uid too.
What does not clash then, and nothing else, is saved by its key, while all other records stay. -/
theorem after_keyed (edits : List Edit) :
    ((empty.after edits).records.filterMap singleType?).Nodup ∧
    (empty.Apart edits → (empty.after edits).Keyed) ∧
    ∀ record, (empty.after edits).SavesByKey record ↔ ¬(empty.after edits).Clashes record := by
  have single : (empty.records.filterMap singleType?).Nodup := List.nodup_nil
  have keyed : empty.Keyed := List.nodup_nil
  exact ⟨single_after single edits, keyed.after, fun _ => savesByKey_iff⟩

def titled (type uid title : String) : Json :=
  .object [("title", .text title), ("type", .text type), ("uid", .text uid)]

/-- A group takes the place of the group with its uid, though a window is given the same uid behind it. -/
theorem after_keyed_regrouped :
    let edits := [.save (titled "UdonGroup" "g" "one"), .save (titled "Minimap" "g" "map"),
      .addComment "c" "text" .origin, .save (titled "UdonGroup" "g" "two")]
    (empty.after edits).Keyed ∧
      (empty.after edits).records.map key? =
        [some (.uid "g"), some (.type "Minimap"), some (.uid "c")] := by
  intro edits
  refine ⟨(after_keyed edits).2.1 ⟨?_, ?_, ?_, ?_, trivial⟩, by decide⟩
  all_goals
    intro record saved
    cases saved
    decide

/-- A group takes the place of the window that was given its uid, and is there twice. -/
theorem doubled_group :
    let edits := [.save (titled "Minimap" "m" "map"), .save (titled "UdonGroup" "g" "one"),
      .save (titled "Minimap" "g" "map"), .save (titled "UdonGroup" "g" "two")]
    (empty.after edits).records =
        [titled "UdonGroup" "g" "two", titled "UdonGroup" "g" "one"] ∧
      ¬(empty.after edits).Keyed := by
  intro edits
  have records : (empty.after edits).records =
      [titled "UdonGroup" "g" "two", titled "UdonGroup" "g" "one"] := by decide
  refine ⟨records, ?_⟩
  rw [Keyed, records]
  decide

end ScriptGraph.Layout
