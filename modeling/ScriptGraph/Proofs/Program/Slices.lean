import ScriptGraph.Proofs.Code.Assembled

/-!
Programs laid out stream by stream: the entry points ascend from the first address, and the slice of
each of them is the code of its stream.
-/

set_option autoImplicit false
set_option relaxedAutoImplicit false

namespace ScriptGraph

def Instruction.slots : Instruction → List Slot
  | .copy source destination => [source, destination]
  | .call _ slots => slots
  | .jump _ => []
  | .jumpUnless condition _ => [condition]

def Instruction.target? : Instruction → Option Address
  | .jump target => some target
  | .jumpUnless _ target => some target
  | _ => none

namespace Assembly

theorem allOps_append (streams others : List Stream) :
    allOps (streams ++ others) = allOps streams ++ allOps others :=
  List.flatMap_append

theorem allOps_cons (stream : Stream) (streams : List Stream) :
    allOps (stream :: streams) = stream.ops ++ allOps streams :=
  List.flatMap_cons

theorem entries_names (address : Address) (streams : List Stream) :
    (entries address streams).map EntryPoint.name = streams.map Stream.name := by
  induction streams generalizing address with
  | nil => rfl
  | cons stream streams ih => rw [entries, List.map_cons, ih, List.map_cons]

theorem entries_append (address : Nat) (streams others : List Stream) :
    entries address (streams ++ others) =
      entries address streams ++ entries (address + codeLength (allOps streams)) others := by
  induction streams generalizing address with
  | nil => rfl
  | cons stream streams ih =>
    rw [List.cons_append, entries, ih, entries, allOps_cons, codeLength_append, List.cons_append,
      Nat.add_assoc]

def Inhabited (streams : List Stream) : Prop :=
  ∀ stream ∈ streams, 0 < codeLength stream.ops

private theorem entries_ge {address : Nat} {streams : List Stream} {entry : EntryPoint}
    (listed : entry ∈ entries address streams) : address ≤ entry.address := by
  induction streams generalizing address with
  | nil => simp [entries] at listed
  | cons stream streams ih =>
    rcases List.mem_cons.mp listed with rfl | listed
    · exact Nat.le_refl _
    · exact Nat.le_trans (Nat.le_add_right _ _) (ih listed)

private theorem entries_lt {address : Nat} {streams : List Stream} (inhabited : Inhabited streams)
    {entry : EntryPoint} (listed : entry ∈ entries address streams) :
    entry.address < address + codeLength (allOps streams) := by
  induction streams generalizing address with
  | nil => simp [entries] at listed
  | cons stream streams ih =>
    have hfirst := inhabited stream List.mem_cons_self
    rw [allOps_cons, codeLength_append]
    rcases List.mem_cons.mp listed with rfl | listed
    · exact Nat.lt_add_of_pos_right (Nat.add_pos_left hfirst _)
    · rw [← Nat.add_assoc]
      exact ih (fun other hother => inhabited other (List.mem_cons_of_mem _ hother)) listed

theorem entries_ascending (address : Nat) {streams : List Stream} (inhabited : Inhabited streams) :
    ((entries address streams).map EntryPoint.address).Pairwise (· < ·) := by
  induction streams generalizing address with
  | nil => exact List.Pairwise.nil
  | cons stream streams ih =>
    have hfirst := inhabited stream List.mem_cons_self
    refine List.pairwise_cons.mpr
      ⟨?_, ih _ fun other hother => inhabited other (List.mem_cons_of_mem _ hother)⟩
    intro later hlater
    obtain ⟨entry, hentry, rfl⟩ := List.mem_map.mp hlater
    exact Nat.lt_of_lt_of_le (Nat.lt_add_of_pos_right hfirst) (entries_ge hentry)

/-- The code of one stream, and what stands before and after it. -/
structure Within (streams before : List Stream) (stream : Stream) (after : List Stream) : Prop where
  split : streams = before ++ stream :: after
  names : (streams.map Stream.name).Nodup
  inhabited : Inhabited streams

namespace Within

variable {streams before after : List Stream} {stream : Stream}

theorem ops (within : Within streams before stream after) :
    allOps streams = allOps before ++ (stream.ops ++ allOps after) := by
  rw [within.split, allOps_append, allOps_cons]

theorem entries_eq (within : Within streams before stream after) :
    entries 0 streams = entries 0 before ++ ⟨stream.name, codeLength (allOps before)⟩ ::
      entries (codeLength (allOps before) + codeLength stream.ops) after := by
  rw [within.split, entries_append, entries, Nat.zero_add]

theorem entryPoint?_eq (within : Within streams before stream after) {p : Program}
    (laid : p.entryPoints = entries 0 streams) :
    p.entryPoint? stream.name = some (codeLength (allOps before)) := by
  have hnames := within.names
  rw [within.split, List.map_append, List.map_cons] at hnames
  have hbefore : stream.name ∉ before.map Stream.name :=
    fun hmem => (List.nodup_append.mp hnames).2.2 _ hmem _ List.mem_cons_self rfl
  have hfind : (entries 0 before).find? (fun entry => entry.name == stream.name) = none := by
    rw [List.find?_eq_none]
    intro entry hentry hsame
    refine hbefore ?_
    rw [← entries_names 0 before, ← beq_iff_eq.mp hsame]
    exact List.mem_map_of_mem hentry
  rw [Program.entryPoint?, laid, within.entries_eq, List.find?_append, hfind, Option.none_or,
    List.find?_cons_of_pos (by simp), Option.map_some]

theorem nextEntry_eq (within : Within streams before stream after) {p : Program}
    (laid : p.entryPoints = entries 0 streams)
    (length : p.instructions.length = codeLength (allOps streams)) :
    p.nextEntry (codeLength (allOps before)) =
      codeLength (allOps before) + codeLength stream.ops := by
  have hinhabited := within.inhabited
  rw [within.split] at hinhabited
  have hstream := hinhabited stream (by simp)
  have hbefore : ∀ address ∈ (entries 0 before).map EntryPoint.address,
      ¬ codeLength (allOps before) < address := by
    intro address haddress
    obtain ⟨entry, hentry, rfl⟩ := List.mem_map.mp haddress
    have hlt := entries_lt (fun other hother => hinhabited other (by simp [hother])) hentry
    rw [Nat.zero_add] at hlt
    exact Nat.not_lt_of_lt hlt
  have hafter : ∀ address ∈ (entries (codeLength (allOps before) + codeLength stream.ops)
      after).map EntryPoint.address,
      codeLength (allOps before) + codeLength stream.ops ≤ address := by
    intro address haddress
    obtain ⟨entry, hentry, rfl⟩ := List.mem_map.mp haddress
    exact entries_ge hentry
  have hfilter : (p.entryPoints.map EntryPoint.address).filter
      (codeLength (allOps before) < ·) =
      (entries (codeLength (allOps before) + codeLength stream.ops) after).map
        EntryPoint.address := by
    rw [laid, within.entries_eq, List.map_append, List.map_cons, List.filter_append,
      List.filter_eq_nil_iff.mpr (by simpa using hbefore), List.nil_append,
      List.filter_cons_of_neg (by simp), List.filter_eq_self]
    intro address haddress
    have hle := hafter address haddress
    simp only [decide_eq_true_iff]
    exact Nat.lt_of_lt_of_le (Nat.lt_add_of_pos_right hstream) hle
  rw [Program.nextEntry, hfilter]
  cases after with
  | nil =>
    rw [length, within.ops]
    simp [entries, allOps]
  | cons next after =>
    have hleast : ((entries (codeLength (allOps before) + codeLength stream.ops)
        (next :: after)).map EntryPoint.address).min? =
        some (codeLength (allOps before) + codeLength stream.ops) :=
      List.min?_eq_some_iff.mpr ⟨List.mem_cons_self, hafter⟩
    rw [hleast, Option.getD_some]

theorem entryInstructions?_eq (within : Within streams before stream after) {p : Program}
    {address : Target → Address} (laid : p.entryPoints = entries 0 streams)
    (code : p.instructions = encoded address (allOps streams)) :
    p.entryInstructions? stream.name = some (encoded address stream.ops) := by
  have hlength : p.instructions.length = codeLength (allOps streams) := by
    rw [code, length_encoded]
  have htotal : codeLength (allOps streams) = codeLength (allOps before) +
      (codeLength stream.ops + codeLength (allOps after)) := by
    rw [within.ops, codeLength_append, codeLength_append]
  have hbounds : codeLength (allOps before) ≤
      codeLength (allOps before) + codeLength stream.ops ∧
      codeLength (allOps before) + codeLength stream.ops ≤ p.instructions.length := by
    omega
  rw [Program.entryInstructions?, within.entryPoint?_eq laid]
  simp only [within.nextEntry_eq laid hlength]
  rw [if_pos hbounds, code, within.ops, encoded_append, encoded_append, ← List.append_assoc,
    List.take_append_of_le_length (by simp), List.take_of_length_le (by simp),
    List.drop_append_of_le_length (by simp), List.drop_of_length_le (by simp), List.nil_append]

end Within

end Assembly

end ScriptGraph
