import ScriptGraph.Node.Variable
import ScriptGraph.Proofs.Json.Numbers
import Mathlib.Data.List.Dedup
import Mathlib.Data.List.Perm.Subperm

/-!
The search for a name that is not taken. Each name that is tried ranks above the one before it, since
it is longer or ends in a greater digit, so that no name is tried twice, and the search ends after at
most one step for each name that is taken.
-/

set_option autoImplicit false
set_option relaxedAutoImplicit false

namespace ScriptGraph

/-! ## One step -/

/-- How the name that is tried next comes from one that is taken: its last digit is counted up, ten
taking two digits, or it is extended. -/
inductive Retried : List Char → List Char → Prop
  | counted (stem : List Char) {digit : Nat} (less : digit < 9) :
    Retried (stem ++ [Text.digitChar digit]) (stem ++ [Text.digitChar (digit + 1)])
  | carried (stem : List Char) : Retried (stem ++ ['9']) (stem ++ ['1', '0'])
  | extended {name : List Char} (plain : ∀ c, name.getLast? = some c → ¬('0' ≤ c ∧ c ≤ '9')) :
    Retried name (name ++ ['_', '1'])

private theorem nextName_digit (stem : List Char) {digit : Nat} (small : digit < 10) :
    nextName (stem ++ [Text.digitChar digit]) =
      stem ++ (Text.digits 10 (digit + 1)).map Text.digitChar := by
  rw [nextName, List.getLast?_concat, Option.bind_some, Text.digitValue?_digitChar small]
  dsimp only
  rw [List.dropLast_concat]

private theorem digitValue?_last {name : List Char}
    (plain : ∀ c, name.getLast? = some c → ¬('0' ≤ c ∧ c ≤ '9')) :
    name.getLast?.bind Text.digitValue? = none :=
  Option.bind_eq_none_iff.mpr fun c last => if_neg (plain c last)

private theorem nextName_plain {name : List Char}
    (plain : ∀ c, name.getLast? = some c → ¬('0' ≤ c ∧ c ≤ '9')) :
    nextName name = name ++ ['_', '1'] := by
  rw [nextName, digitValue?_last plain]

private theorem eq_digitChar {c : Char} (least : '0' ≤ c) (most : c ≤ '9') :
    ∃ digit < 10, c = Text.digitChar digit := by
  have lower : 48 ≤ c.toNat := least
  have upper : c.toNat ≤ 57 := most
  refine ⟨c.toNat - 48, by omega, ?_⟩
  rw [Text.digitChar, if_pos (by omega), Nat.add_sub_cancel' lower, Char.ofNat_toNat]

theorem retried_iff {name next : List Char} : Retried name next ↔ next = nextName name := by
  constructor
  · intro retried
    cases retried with
    | counted stem less =>
      rw [nextName_digit stem (Nat.lt_succ_of_lt less), Text.digits_of_lt (Nat.succ_lt_succ less),
        List.map_singleton]
    | carried stem =>
      have counted := nextName_digit stem (show 9 < 10 by decide)
      rw [Text.digits_ten] at counted
      exact counted.symm
    | extended plain => exact (nextName_plain plain).symm
  · rintro rfl
    by_cases ends : ∃ c, name.getLast? = some c ∧ '0' ≤ c ∧ c ≤ '9'
    · obtain ⟨c, last, least, most⟩ := ends
      obtain ⟨stem, rfl⟩ := List.getLast?_eq_some_iff.mp last
      obtain ⟨digit, small, rfl⟩ := eq_digitChar least most
      rw [nextName_digit stem small]
      rcases Nat.lt_or_eq_of_le (Nat.le_of_lt_succ small) with less | rfl
      · rw [Text.digits_of_lt (Nat.succ_lt_succ less), List.map_singleton]
        exact .counted stem less
      · rw [Text.digits_ten]
        exact .carried stem
    · have plain : ∀ c, name.getLast? = some c → ¬('0' ≤ c ∧ c ≤ '9') :=
        fun c last digit => ends ⟨c, last, digit⟩
      rw [nextName_plain plain]
      exact .extended plain

/-! ## Ranks -/

def lastDigit (name : List Char) : Nat := (name.getLast?.bind Text.digitValue?).getD 0

def nameRank (name : List Char) : Nat := 10 * name.length + lastDigit name

private theorem lastDigit_append (name : List Char) {digit : Nat} (small : digit < 10) :
    lastDigit (name ++ [Text.digitChar digit]) = digit := by
  rw [lastDigit, List.getLast?_concat, Option.bind_some, Text.digitValue?_digitChar small,
    Option.getD_some]

private theorem nameRank_append (name : List Char) {digit : Nat} (small : digit < 10) :
    nameRank (name ++ [Text.digitChar digit]) = 10 * name.length + 10 + digit := by
  rw [nameRank, lastDigit_append name small, List.length_append, List.length_singleton, Nat.mul_add]

theorem Retried.rank_lt {name next : List Char} (retried : Retried name next) :
    nameRank name < nameRank next := by
  cases retried with
  | counted stem less =>
    rw [nameRank_append stem (Nat.lt_succ_of_lt less), nameRank_append stem (Nat.succ_lt_succ less)]
    omega
  | carried stem =>
    have before := nameRank_append stem (show 9 < 10 by decide)
    have after := nameRank_append (stem ++ ['1']) (show 0 < 10 by decide)
    rw [List.append_assoc, List.length_append] at after
    change nameRank (stem ++ ['9']) = _ at before
    change nameRank (stem ++ ['1', '0']) = 10 * (stem.length + 1) + 10 + 0 at after
    omega
  | extended plain =>
    have longer : (name ++ ['_', '1']).length = name.length + 2 := List.length_append
    rw [nameRank, nameRank, lastDigit, digitValue?_last plain, longer,
      Option.getD_none]
    omega

theorem nameRank_lt_nextName (name : List Char) : nameRank name < nameRank (nextName name) :=
  (retried_iff.mpr rfl).rank_lt

/-! ## The search -/

/-- The search for a name that is not taken: the names that are rejected on its way, in order, and the
one that it ends with. -/
inductive Trials (taken : List String) : String → List String → String → Prop
  | ends {name : String} (free : name ∉ taken) : Trials taken name [] name
  | goesOn {name next result : String} {rejected : List String} (used : name ∈ taken)
    (retried : Retried name.toList next.toList) (rest : Trials taken next rejected result) :
    Trials taken name (name :: rejected) result

namespace Trials

variable {taken rejected others : List String} {name result other : String}

theorem free (trials : Trials taken name rejected result) : result ∉ taken := by
  induction trials with
  | ends free => exact free
  | goesOn _ _ _ ih => exact ih

theorem rejected_subset (trials : Trials taken name rejected result) : rejected ⊆ taken := by
  induction trials with
  | ends _ => exact List.nil_subset taken
  | goesOn used _ _ ih => exact List.cons_subset.mpr ⟨used, ih⟩

theorem rank_le (trials : Trials taken name rejected result) :
    ∀ tried ∈ rejected ++ [result], nameRank name.toList ≤ nameRank tried.toList := by
  induction trials with
  | ends _ =>
    intro tried listed
    rw [List.nil_append, List.mem_singleton] at listed
    exact Nat.le_of_eq (congrArg (fun text => nameRank text.toList) listed.symm)
  | goesOn _ retried _ ih =>
    rw [List.cons_append, List.forall_mem_cons]
    refine ⟨Nat.le_refl _, fun tried listed => ?_⟩
    exact Nat.le_trans (Nat.le_of_lt retried.rank_lt) (ih tried listed)

theorem nodup (trials : Trials taken name rejected result) : (rejected ++ [result]).Nodup := by
  induction trials with
  | ends _ => exact List.pairwise_singleton _ _
  | goesOn _ retried rest ih =>
    rw [List.cons_append, List.nodup_cons]
    refine ⟨fun again => ?_, ih⟩
    exact Nat.not_le_of_lt retried.rank_lt (rest.rank_le _ again)

theorem length_le (trials : Trials taken name rejected result) :
    rejected.length ≤ taken.dedup.length := by
  have distinct : rejected.Nodup := (List.nodup_append.mp trials.nodup).1
  refine (List.subperm_of_subset distinct fun tried listed => ?_).length_le
  exact List.mem_dedup.mpr (trials.rejected_subset listed)

theorem unique (trials : Trials taken name rejected result) (also : Trials taken name others other) :
    others = rejected ∧ other = result := by
  induction trials generalizing others with
  | ends free =>
    cases also with
    | ends _ => exact ⟨rfl, rfl⟩
    | goesOn used _ _ => exact absurd used free
  | goesOn used retried _ ih =>
    cases also with
    | ends free => exact absurd used free
    | goesOn _ alsoRetried alsoRest =>
      obtain rfl := String.toList_inj.mp
        ((retried_iff.mp alsoRetried).trans (retried_iff.mp retried).symm)
      obtain ⟨rfl, rfl⟩ := ih alsoRest
      exact ⟨rfl, rfl⟩

end Trials

private theorem freeName_trials {taken : List String} {steps : Nat} {name : String}
    (enough : (taken.filter fun other => nameRank name.toList ≤ nameRank other.toList).length ≤ steps) :
    ∃ rejected, Trials taken name rejected (freeName taken steps name) := by
  induction steps generalizing name with
  | zero =>
    refine ⟨[], .ends fun listed => ?_⟩
    have none := List.length_eq_zero_iff.mp (Nat.le_zero.mp enough)
    exact List.not_mem_nil (none ▸ List.mem_filter.mpr ⟨listed, decide_eq_true (Nat.le_refl _)⟩)
  | succ steps ih =>
    rw [freeName]
    split
    · rename_i used
      have used := List.contains_iff_mem.mp used
      have retried : Retried name.toList (String.ofList (nextName name.toList)).toList :=
        retried_iff.mpr String.toList_ofList
      have above := retried.rank_lt
      -- The name that is taken is met no more.
      have fewer : (taken.filter fun other =>
          nameRank (String.ofList (nextName name.toList)).toList ≤ nameRank other.toList) =
          (taken.filter fun other => nameRank name.toList ≤ nameRank other.toList).filter fun other =>
            nameRank (String.ofList (nextName name.toList)).toList ≤ nameRank other.toList := by
        rw [List.filter_filter]
        refine List.filter_congr fun other _ => ?_
        rw [Bool.eq_iff_iff, Bool.and_eq_true, decide_eq_true_eq, decide_eq_true_eq]
        omega
      have less : (taken.filter fun other =>
          nameRank (String.ofList (nextName name.toList)).toList ≤ nameRank other.toList).length <
          steps + 1 := by
        refine Nat.lt_of_lt_of_le ?_ enough
        rw [fewer, List.length_filter_lt_length_iff_exists]
        exact ⟨name, List.mem_filter.mpr ⟨used, by simp⟩, by simpa using above⟩
      obtain ⟨rejected, rest⟩ := ih (Nat.le_of_lt_succ less)
      exact ⟨name :: rejected, .goesOn used retried rest⟩
    · rename_i unused
      exact ⟨[], .ends fun listed => unused (List.contains_iff_mem.mpr listed)⟩

theorem exists_trials (taken : List String) (name : String) :
    ∃ rejected, Trials taken name rejected (unusedNameLike taken name) :=
  freeName_trials (List.length_filter_le _ _)

theorem unusedNameLike_not_mem (taken : List String) (name : String) :
    unusedNameLike taken name ∉ taken := by
  obtain ⟨rejected, trials⟩ := exists_trials taken name
  exact trials.free

theorem unusedNameLike_eq_self {taken : List String} {name : String} (free : name ∉ taken) :
    unusedNameLike taken name = name := by
  obtain ⟨rejected, trials⟩ := exists_trials taken name
  exact ((Trials.ends free).unique trials).2

/-- The search for a name always ends, and in one way only: at the name that is chosen, which is not
taken, after at most one step for each name that is. No name is tried twice, and a name that is not
taken is given as it is. -/
theorem unusedNameLike_trials (taken : List String) (name : String) : ∃ rejected,
    (∀ others result, Trials taken name others result ↔
      others = rejected ∧ result = unusedNameLike taken name) ∧
    rejected.length ≤ taken.dedup.length ∧ (rejected ++ [unusedNameLike taken name]).Nodup ∧
    rejected ⊆ taken ∧ unusedNameLike taken name ∉ taken ∧
    (name ∉ taken → rejected = [] ∧ unusedNameLike taken name = name) := by
  obtain ⟨rejected, trials⟩ := exists_trials taken name
  refine ⟨rejected, fun others result => ⟨trials.unique, ?_⟩, trials.length_le, trials.nodup,
    trials.rejected_subset, trials.free, fun free => (Trials.ends free).unique trials⟩
  rintro ⟨rfl, rfl⟩
  exact trials

example : unusedNameLike ["speed", "speed_1", "a9", "19"] "speed" = "speed_2" ∧
    unusedNameLike ["speed", "speed_1", "a9", "19"] "19" = "110" := by
  decide +kernel

end ScriptGraph
