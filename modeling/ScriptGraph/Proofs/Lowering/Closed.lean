import ScriptGraph.Proofs.Lowering.Inputs

/-!
The code of a chain is closed: it marks only places of its own, each once, jumps only to these, to
its continuation or to code emitted before, ends with a jump, and refers only to slots that exist.
-/

set_option autoImplicit false
set_option relaxedAutoImplicit false

namespace ScriptGraph.Lowering

open HeapLayout (Grows Sound)

/-! ## Fresh labels -/

def Fresh (first last : Nat) (labels : List Nat) : Prop :=
  labels.Nodup ∧ ∀ label ∈ labels, first ≤ label ∧ label < last

namespace Fresh

theorem nil (first last : Nat) : Fresh first last [] := by
  simp [Fresh]

theorem append {first middle last : Nat} {labels others : List Nat}
    (before : Fresh first middle labels) (after : Fresh middle last others)
    (hfirst : first ≤ middle) (hlast : middle ≤ last) : Fresh first last (labels ++ others) := by
  refine ⟨List.nodup_append.mpr ⟨before.1, after.1, ?_⟩, ?_⟩
  · intro label hlabel other hother hsame
    have hbelow := (before.2 label hlabel).2
    have habove := (after.2 other hother).1
    omega
  · intro label hlabel
    rcases List.mem_append.mp hlabel with hlabel | hlabel
    · have hbounds := before.2 label hlabel
      omega
    · have hbounds := after.2 label hlabel
      omega

theorem cons {first last : Nat} {labels : List Nat} (fresh : Fresh (first + 1) last labels)
    (room : first < last) : Fresh first last (first :: labels) := by
  refine ⟨List.nodup_cons.mpr ⟨?_, fresh.1⟩, ?_⟩
  · intro hfirst
    have hbounds := fresh.2 first hfirst
    omega
  · intro label hlabel
    rcases List.mem_cons.mp hlabel with rfl | hlabel
    · exact ⟨Nat.le_refl _, room⟩
    · have hbounds := fresh.2 label hlabel
      omega

theorem perm {first last : Nat} {labels others : List Nat} (fresh : Fresh first last labels)
    (same : labels.Perm others) : Fresh first last others :=
  ⟨same.nodup fresh.1, fun label hlabel => fresh.2 label (same.mem_iff.mpr hlabel)⟩

end Fresh

/-! ## Closed code -/

def noted (s : Lowering) : List Label := s.emitted.map Prod.snd

def Known (s : Lowering) (code : List Op) : Target → Prop
  | .label label => label ∈ noted s ∨ label ∈ marks code
  | .halt => False

/-- What lowering a chain with a continuation does to the state and what it emits. -/
structure Emits (exit : Target) (s : Lowering) (code : List Op) (t : Lowering) : Prop where
  grows : Grows s.heap t.heap
  sound : Sound t.heap
  below : SlotsBelow t.heap.size code
  le : s.nextLabel ≤ t.nextLabel
  fresh : Fresh s.nextLabel t.nextLabel (marks code)
  emitted : ∀ label ∈ noted t, label ∈ noted s ∨ label ∈ marks code
  closed : ∀ target ∈ targets code, target = exit ∨ Known s code target
  ends : ∃ target, code.getLast? = some (.jump target)

namespace Emits

variable {exit : Target} {r s t : Lowering} {code rest : List Op}

theorem prepend (prepares : Prepares r s) (plain : Plain s.heap.size code)
    (emits : Emits exit s rest t) : Emits exit r (code ++ rest) t := by
  have hmarks : marks (code ++ rest) = marks rest := by
    rw [marks_append, marks_of_plain plain.plain, List.nil_append]
  have hnoted : noted s = noted r := by
    rw [noted, noted, prepares.emitted]
  refine ⟨prepares.grows.trans emits.grows, emits.sound, ?_, ?_, ?_, ?_, ?_, ?_⟩
  · exact SlotsBelow.append_iff.mpr ⟨plain.below.mono emits.grows.size_le, emits.below⟩
  · rw [← prepares.nextLabel]
    exact emits.le
  · rw [hmarks, ← prepares.nextLabel]
    exact emits.fresh
  · rw [hmarks, ← hnoted]
    exact emits.emitted
  · intro target htarget
    rw [targets_append, targets_of_plain plain.plain, List.nil_append] at htarget
    have hclosed := emits.closed target htarget
    cases target with
    | halt => exact hclosed
    | label label => simpa only [Known, hmarks, hnoted] using hclosed
  · obtain ⟨target, hlast⟩ := emits.ends
    exact ⟨target, by rw [List.getLast?_append, hlast, Option.some_or]⟩

theorem jump (exit : Target) {s : Lowering} (sound : Sound s.heap) :
    Emits exit s [.jump exit] s := by
  refine ⟨Grows.refl s.heap, sound, ?_, Nat.le_refl _, Fresh.nil _ _, fun _ => Or.inl, ?_,
    exit, rfl⟩
  · simp [Op.slots]
  · intro target htarget
    exact Or.inl (List.mem_singleton.mp htarget)

end Emits

theorem Known.mono {s t : Lowering} {code rest : List Op} {target : Target}
    (known : Known t code target)
    (noted : ∀ label ∈ noted t, label ∈ noted s ∨ label ∈ marks rest)
    (marked : ∀ label ∈ marks code, label ∈ marks rest) : Known s rest target := by
  cases target with
  | halt => exact known
  | label label =>
    rcases known with known | known
    · exact noted label known
    · exact Or.inr (marked label known)

def Follows (follow : Uid → Target → Step (List Op)) : Prop :=
  ∀ uid exit s code t, Sound s.heap → follow uid exit s = .ok (code, t) → Emits exit s code t

section Flows

variable {feed : List Uid → Link → Step Supply} {follow : Uid → Target → Step (List Op)}
  {n : Node} {d : Definition} {exit : Target} {code : List Op} {s t : Lowering}

theorem port_emits (follows : Follows follow) (sound : Sound s.heap) {index : Nat}
    (given : port follow n index exit s = .ok (code, t)) : Emits exit s code t := by
  unfold port at given
  cases hflow : n.flows[index]?.join with
  | some next =>
    simp only [hflow] at given
    exact follows next exit s code t sound given
  | none =>
    simp only [hflow] at given
    obtain ⟨rfl, rfl⟩ := pure_eq_ok.mp given
    exact Emits.jump exit sound

end Flows

/-! ## Chains within a frame -/

/-- A step that hands out a number of labels, but emits nothing. -/
structure Reserves (count : Nat) (s t : Lowering) : Prop where
  grows : Grows s.heap t.heap
  sound : Sound s.heap → Sound t.heap
  nextLabel : t.nextLabel = s.nextLabel + count
  emitted : t.emitted = s.emitted

theorem Prepares.reserves {s t : Lowering} (prepares : Prepares s t) : Reserves 0 s t :=
  ⟨prepares.grows, prepares.sound, prepares.nextLabel, prepares.emitted⟩

theorem Reserves.trans {count more : Nat} {r s t : Lowering} (first : Reserves count r s)
    (second : Reserves more s t) : Reserves (count + more) r t := by
  refine ⟨first.grows.trans second.grows, fun sound => second.sound (first.sound sound), ?_,
    second.emitted.trans first.emitted⟩
  rw [second.nextLabel, first.nextLabel, Nat.add_assoc]

theorem newLabel_reserves {label : Label} {s t : Lowering} (given : newLabel s = .ok (label, t)) :
    label = s.nextLabel ∧ Reserves 1 s t := by
  obtain ⟨rfl, rfl⟩ := newLabel_eq_ok.mp given
  exact ⟨rfl, Grows.refl s.heap, id, rfl, rfl⟩

/-- Code made of two chains and a frame around them. The frame marks the labels reserved for it, a
given number from the next one on, and jumps only to them. -/
structure Frame (s : Lowering) (count : Nat) (first second code : List Op) : Prop where
  marks : (marks code).Perm (List.range' s.nextLabel count ++ (marks first ++ marks second))
  targets : ∀ target ∈ targets code, target ∈ targets first ∨ target ∈ targets second ∨
    ∃ label ∈ List.range' s.nextLabel count, target = .label label
  ends : ∃ opening, code = opening ++ second

private theorem range'_fresh (first count : Nat) :
    Fresh first (first + count) (List.range' first count) := by
  refine ⟨List.nodup_range', fun label hlabel => ?_⟩
  simpa using hlabel

/-- Two chains in a frame, the first of which goes on at the end of the second or at a place of the
frame. -/
theorem Emits.frame {exit leave : Target} {count : Nat} {s r q t : Lowering}
    {first second code : List Op} (reserves : Reserves count s r) (before : Emits leave r first q)
    (after : Emits exit q second t) (frame : Frame s count first second code)
    (known : leave = exit ∨ ∃ label ∈ List.range' s.nextLabel count, leave = .label label)
    (below : SlotsBelow t.heap.size first → SlotsBelow t.heap.size second →
      SlotsBelow t.heap.size code) : Emits exit s code t := by
  have hlabels : ∀ label ∈ List.range' s.nextLabel count, label ∈ marks code :=
    fun label hlabel => frame.marks.mem_iff.mpr (List.mem_append_left _ hlabel)
  have hfirst : ∀ label ∈ marks first, label ∈ marks code := fun label hlabel =>
    frame.marks.mem_iff.mpr (List.mem_append_right _ (List.mem_append_left _ hlabel))
  have hsecond : ∀ label ∈ marks second, label ∈ marks code := fun label hlabel =>
    frame.marks.mem_iff.mpr (List.mem_append_right _ (List.mem_append_right _ hlabel))
  have hnoted : noted r = noted s := by
    rw [noted, noted, reserves.emitted]
  have hbetween : ∀ label ∈ noted q, label ∈ noted s ∨ label ∈ marks code := by
    intro label hlabel
    rcases before.emitted label hlabel with hlabel | hlabel
    · exact Or.inl (hnoted ▸ hlabel)
    · exact Or.inr (hfirst label hlabel)
  have hreserved : s.nextLabel + count ≤ q.nextLabel := reserves.nextLabel ▸ before.le
  refine ⟨(reserves.grows.trans before.grows).trans after.grows, after.sound, ?_, ?_, ?_, ?_, ?_,
    ?_⟩
  · exact below (before.below.mono after.grows.size_le) after.below
  · exact Nat.le_trans (Nat.le_of_add_right_le hreserved) after.le
  · refine Fresh.perm ?_ frame.marks.symm
    have hchains := before.fresh.append after.fresh before.le after.le
    rw [reserves.nextLabel] at hchains
    exact (range'_fresh s.nextLabel count).append hchains (Nat.le_add_right _ _)
      (Nat.le_trans hreserved after.le)
  · intro label hlabel
    rcases after.emitted label hlabel with hlabel | hlabel
    · exact hbetween label hlabel
    · exact Or.inr (hsecond label hlabel)
  · intro target htarget
    rcases frame.targets target htarget with htarget | htarget | ⟨label, hlabel, rfl⟩
    · rcases before.closed target htarget with rfl | hknown
      · rcases known with known | ⟨label, hlabel, rfl⟩
        · exact Or.inl known
        · exact Or.inr (Or.inr (hlabels label hlabel))
      · refine Or.inr (hknown.mono (fun label hlabel => ?_) hfirst)
        exact Or.inl (hnoted ▸ hlabel)
    · rcases after.closed target htarget with hexit | hknown
      · exact Or.inl hexit
      · exact Or.inr (hknown.mono hbetween hsecond)
    · exact Or.inr (Or.inr (hlabels label hlabel))
  · obtain ⟨opening, rfl⟩ := frame.ends
    obtain ⟨target, hlast⟩ := after.ends
    exact ⟨target, by rw [List.getLast?_append, hlast, Option.some_or]⟩

section Flows

variable {feed : List Uid → Link → Step Supply} {follow : Uid → Target → Step (List Op)}
  {n : Node} {d : Definition} {exit : Target} {code : List Op} {s t : Lowering}

theorem chains_emits (follows : Follows follow) (sound : Sound s.heap) {uids : List Uid}
    (given : chains follow exit uids s = .ok (code, t)) : Emits exit s code t := by
  induction uids generalizing s code with
  | nil =>
    obtain ⟨rfl, rfl⟩ := pure_eq_ok.mp given
    exact Emits.jump exit sound
  | cons uid rest ih =>
    cases rest with
    | nil => exact follows uid exit s code t sound given
    | cons next rest =>
      simp only [chains, bind_eq_ok, pure_eq_ok] at given
      obtain ⟨after, r, hlabel, first, q, hfirst, second, u, hsecond, rfl, rfl⟩ := given
      obtain ⟨rfl, reserves⟩ := newLabel_reserves hlabel
      have before := follows _ _ _ _ _ (reserves.sound sound) hfirst
      refine Emits.frame reserves before (ih before.sound hsecond) ⟨?_, ?_, ?_⟩ ?_ ?_
      · simp
      · intro target htarget
        rw [targets_append, targets_label] at htarget
        rcases List.mem_append.mp htarget with htarget | htarget
        · exact Or.inl htarget
        · exact Or.inr (Or.inl htarget)
      · exact ⟨first ++ [.label s.nextLabel], by simp⟩
      · exact Or.inr ⟨s.nextLabel, by simp, rfl⟩
      · intro hfirst hsecond
        simp [Op.slots, hfirst, hsecond]

theorem choice_emits (follows : Follows follow) (sound : Sound s.heap) {condition : Slot}
    (inside : condition < s.heap.size)
    (given : choice follow n condition exit s = .ok (code, t)) : Emits exit s code t := by
  simp only [choice, bind_eq_ok, pure_eq_ok] at given
  obtain ⟨otherwise, r, hlabel, first, q, hfirst, second, u, hsecond, rfl, rfl⟩ := given
  obtain ⟨rfl, reserves⟩ := newLabel_reserves hlabel
  have before := port_emits follows (reserves.sound sound) hfirst
  have after := port_emits follows before.sound hsecond
  refine Emits.frame reserves before after ⟨?_, ?_, ?_⟩ (Or.inl rfl) ?_
  · simp
  · intro target htarget
    simp only [List.cons_append, targets_jumpUnless, targets_append, targets_label, List.mem_cons,
      List.mem_append] at htarget
    rcases htarget with rfl | htarget | htarget
    · exact Or.inr (Or.inr ⟨s.nextLabel, by simp, rfl⟩)
    · exact Or.inl htarget
    · exact Or.inr (Or.inl htarget)
  · exact ⟨.jumpUnless condition (.label s.nextLabel) :: first ++ [.label s.nextLabel], by simp⟩
  · intro hfirst hsecond
    have hsize := ((reserves.grows.trans before.grows).trans after.grows).size_le
    simp [Op.slots, hfirst, hsecond, Nat.lt_of_lt_of_le inside hsize]

theorem branch_emits (feeds : Feeds feed) (follows : Follows follow) (sound : Sound s.heap)
    (given : branch feed follow n d exit s = .ok (code, t)) : Emits exit s code t := by
  simp only [branch, bind_eq_ok, pure_eq_ok] at given
  obtain ⟨condition, r, hinput, rest, q, hchoice, rfl, rfl⟩ := given
  have fetches := input_fetches feeds hinput
  have inside := fetches.below sound condition.slot List.mem_cons_self
  have hsound := fetches.prepares.sound sound
  exact (choice_emits follows hsound inside hchoice).prepend fetches.prepares (fetches.plain sound)

theorem validity_emits (feeds : Feeds feed) (follows : Follows follow) (sound : Sound s.heap)
    (given : validity feed follow n d exit s = .ok (code, t)) : Emits exit s code t := by
  simp only [validity, bind_eq_ok, pure_eq_ok] at given
  obtain ⟨object, r, hinput, valid, q, hvalid, rest, u, hchoice, rfl, rfl⟩ := given
  have fetches := input_fetches feeds hinput
  have extra := scratch_extra hvalid
  have hsize := extra.prepares.grows.size_le
  have hobject := fetches.below sound object.slot List.mem_cons_self
  have hsound := extra.prepares.sound (fetches.prepares.sound sound)
  have emits := choice_emits follows hsound extra.inside hchoice
  have plain : Plain q.heap.size (object.code ++ [.call isValidMethod [object.slot, valid]]) := by
    refine ((fetches.plain sound).mono hsize).append (Plain.call ?_)
    simp [Nat.lt_of_lt_of_le hobject hsize, extra.inside]
  simpa using emits.prepend (fetches.prepares.trans extra.prepares) plain

theorem whileLoop_emits (feeds : Feeds feed) (follows : Follows follow) (sound : Sound s.heap)
    (given : whileLoop feed follow n d exit s = .ok (code, t)) : Emits exit s code t := by
  simp only [whileLoop, bind_eq_ok, pure_eq_ok] at given
  obtain ⟨header, r, hheader, done, q, hdone, condition, u, hinput, body, v, hbody, after, w,
    hafter, rfl, rfl⟩ := given
  obtain ⟨rfl, first⟩ := newLabel_reserves hheader
  obtain ⟨rfl, second⟩ := newLabel_reserves hdone
  have hq := second.sound (first.sound sound)
  have fetches := input_fetches feeds hinput
  have reserves := (first.trans second).trans fetches.prepares.reserves
  have before := port_emits follows (fetches.prepares.sound hq) hbody
  have behind := port_emits follows before.sound hafter
  have hlabel : r.nextLabel = s.nextLabel + 1 := first.nextLabel
  have plain := fetches.plain hq
  have hcondition := fetches.below hq condition.slot List.mem_cons_self
  have hsize := (before.grows.trans behind.grows).size_le
  refine Emits.frame reserves before behind ⟨?_, ?_, ?_⟩ ?_ ?_
  · simp only [marks_label, marks_append, marks_of_plain plain.plain, marks_jumpUnless,
      List.cons_append, List.nil_append, hlabel]
    exact List.perm_middle.cons _
  · intro target htarget
    simp only [List.cons_append, targets_jumpUnless, targets_append, targets_label,
      targets_of_plain plain.plain, List.nil_append, List.mem_cons, List.mem_append] at htarget
    rcases htarget with rfl | htarget | htarget
    · exact Or.inr (Or.inr ⟨r.nextLabel, by simp [hlabel], rfl⟩)
    · exact Or.inl htarget
    · exact Or.inr (Or.inl htarget)
  · exact ⟨.label s.nextLabel :: condition.code ++
      .jumpUnless condition.slot (.label r.nextLabel) :: body ++ [.label r.nextLabel], by simp⟩
  · exact Or.inr ⟨s.nextLabel, by simp, rfl⟩
  · intro hfirst hsecond
    simp [Op.slots, hfirst, hsecond, plain.below.mono hsize, Nat.lt_of_lt_of_le hcondition hsize]

theorem counting_emits (follows : Follows follow) (sound : Sound s.heap)
    {index stop step inRange : Slot} {opening : List Op} (plain : Plain s.heap.size opening)
    (inside : ∀ slot ∈ [index, stop, step, inRange], slot < s.heap.size)
    (given : counting follow n index stop step inRange opening exit s = .ok (code, t)) :
    Emits exit s code t := by
  simp only [counting, bind_eq_ok, pure_eq_ok] at given
  obtain ⟨header, r, hheader, increment, q, hincrement, done, u, hdone, body, v, hbody, after, w,
    hafter, rfl, rfl⟩ := given
  obtain ⟨rfl, first⟩ := newLabel_reserves hheader
  obtain ⟨rfl, second⟩ := newLabel_reserves hincrement
  obtain ⟨rfl, third⟩ := newLabel_reserves hdone
  have reserves := (first.trans second).trans third
  have before := port_emits follows (reserves.sound sound) hbody
  have behind := port_emits follows before.sound hafter
  have hincrement : r.nextLabel = s.nextLabel + 1 := first.nextLabel
  have hdone : q.nextLabel = s.nextLabel + 2 := (first.trans second).nextLabel
  have hsize := ((reserves.grows.trans before.grows).trans behind.grows).size_le
  refine Emits.frame reserves before behind ⟨?_, ?_, ?_⟩ ?_ ?_
  · simp only [marks_label, marks_append, marks_of_plain plain.plain, marks_jumpUnless, marks_call,
      marks_jump, List.cons_append, List.nil_append, hincrement, hdone]
    exact (List.perm_middle.trans (List.perm_middle.cons _)).cons _
  · intro target htarget
    simp only [List.cons_append, targets_jumpUnless, targets_append, targets_label, targets_call,
      targets_jump, targets_of_plain plain.plain, List.nil_append, List.mem_cons,
      List.mem_append] at htarget
    rcases htarget with rfl | htarget | rfl | htarget
    · exact Or.inr (Or.inr ⟨q.nextLabel, by simp [hdone], rfl⟩)
    · exact Or.inl htarget
    · exact Or.inr (Or.inr ⟨s.nextLabel, by simp, rfl⟩)
    · exact Or.inr (Or.inl htarget)
  · exact ⟨.label s.nextLabel :: .call lessThanMethod [index, stop, inRange] ::
      .jumpUnless inRange (.label q.nextLabel) :: opening ++ body ++ .label r.nextLabel ::
      .call additionMethod [index, step, index] :: .jump (.label s.nextLabel) ::
      [.label q.nextLabel], by simp⟩
  · exact Or.inr ⟨r.nextLabel, by simp [hincrement], rfl⟩
  · intro hfirst hsecond
    have hinside := fun slot hslot => Nat.lt_of_lt_of_le (inside slot hslot) hsize
    simp only [List.mem_cons, List.not_mem_nil, or_false, forall_eq_or_imp, forall_eq] at hinside
    simp [Op.slots, hfirst, hsecond, plain.below.mono hsize, hinside]

theorem forLoop_emits (feeds : Feeds feed) (follows : Follows follow) (sound : Sound s.heap)
    (given : forLoop feed follow n d exit s = .ok (code, t)) : Emits exit s code t := by
  simp only [forLoop, bind_eq_ok, pure_eq_ok] at given
  obtain ⟨start, r₁, hstart, stop, r₂, hstop, step, r₃, hstep, index, r₄, hindex, inRange, r₅,
    hinRange, rest, u, hrest, rfl, rfl⟩ := given
  have inputs := ((input_fetches feeds hstart).append (input_fetches feeds hstop)).append
    (input_fetches feeds hstep)
  have fetches := inputs.append (output_obtains hindex).fetches
  have extra := scratch_extra hinRange
  have hsize := extra.prepares.grows.size_le
  have hbelow := fun slot hslot => Nat.lt_of_lt_of_le (fetches.below sound slot hslot) hsize
  simp only [List.cons_append, List.nil_append, List.mem_cons, List.not_mem_nil, or_false,
    forall_eq_or_imp, forall_eq] at hbelow
  obtain ⟨hstart, hstop, hstep, hindex⟩ := hbelow
  have hsound := extra.prepares.sound (fetches.prepares.sound sound)
  have emits := counting_emits follows hsound Plain.nil
    (by simp [hindex, hstop, hstep, extra.inside]) hrest
  have plain := ((fetches.plain sound).mono hsize).append (Plain.copy hstart hindex)
  simpa using emits.prepend (fetches.prepares.trans extra.prepares) plain

theorem foreachLoop_emits (feeds : Feeds feed) (follows : Follows follow) (sound : Sound s.heap)
    (given : foreachLoop feed follow n d exit s = .ok (code, t)) : Emits exit s code t := by
  simp only [foreachLoop, bind_eq_ok, pure_eq_ok] at given
  obtain ⟨array, r₁, harray, item, r₂, hitem, first, r₃, hfirst, one, r₄, hone, index, r₅, hindex,
    length, r₆, hlength, inRange, r₇, hinRange, rest, u, hrest, rfl, rfl⟩ := given
  have fetches := (((input_fetches feeds harray).append (output_obtains hitem).fetches).append
    (constant_obtains hfirst).fetches).append (constant_obtains hone).fetches
  have atIndex := scratch_extra hindex
  have atLength := scratch_extra hlength
  have atRange := scratch_extra hinRange
  have scratches := (atIndex.prepares.trans atLength.prepares).trans atRange.prepares
  have hsize := scratches.grows.size_le
  have hbelow := fun slot hslot => Nat.lt_of_lt_of_le (fetches.below sound slot hslot) hsize
  simp only [List.cons_append, List.nil_append, List.mem_cons, List.not_mem_nil, or_false,
    forall_eq_or_imp, forall_eq] at hbelow
  obtain ⟨harray, hitem, hfirst, hone⟩ := hbelow
  have hlength := Nat.lt_of_lt_of_le atLength.inside atRange.prepares.grows.size_le
  have hindex := Nat.lt_of_lt_of_le atIndex.inside
    (atLength.prepares.trans atRange.prepares).grows.size_le
  have hsound := scratches.sound (fetches.prepares.sound sound)
  have opening : Plain r₇.heap.size [.call arrayGetMethod [array.slot, index, item]] :=
    Plain.call (by simp [harray, hindex, hitem])
  have closing : Plain r₇.heap.size [.call arrayLengthMethod [array.slot, length]] :=
    Plain.call (by simp [harray, hlength])
  have emits := counting_emits follows hsound opening
    (by simp [hindex, hlength, hone, atRange.inside]) hrest
  have plain := (((fetches.plain sound).mono hsize).append (Plain.copy hfirst hindex)).append
    closing
  simpa using emits.prepend (fetches.prepares.trans scratches) plain

private theorem sendChange_fetches {variableNode : Node}
    (given : sendChange variableNode s = .ok (code, t)) : Fetches s code [] t := by
  simp only [sendChange, bind_eq_ok, pure_eq_ok] at given
  obtain ⟨this, r, hthis, event, q, hevent, rfl, rfl⟩ := given
  have fetches := (constant_obtains hthis).fetches.append (constant_obtains hevent).fetches
  exact ⟨fetches.prepares, fun sound => Plain.call (fetches.below sound), by simp⟩

theorem notice_fetches {g : Graph} {target : Uid} {variableNode : Node}
    (given : notice g n d target variableNode s = .ok (code, t)) : Fetches s code [] t := by
  unfold notice at given
  split at given
  · exact sendChange_fetches given
  · obtain ⟨rfl, rfl⟩ := pure_eq_ok.mp given
    exact ⟨Prepares.refl s, fun _ => Plain.nil, by simp⟩

theorem assignment_emits {g : Graph} (feeds : Feeds feed) (follows : Follows follow)
    (sound : Sound s.heap)
    (given : assignment g feed follow n d exit s = .ok (code, t)) : Emits exit s code t := by
  simp only [assignment_eq, bind_eq_ok, pure_eq_ok, present_eq_ok] at given
  obtain ⟨target, r₁, ⟨htarget, rfl⟩, variableNode, r₂, ⟨hvariable, rfl⟩, slot, r₃, hslot, value,
    r₄, hvalue, change, r₅, hchange, rest, r₆, hrest, rfl, rfl⟩ := given
  have fetches := (variableSlot_obtains hslot).fetches.append (inputAs_fetches feeds hvalue)
  have changes := notice_fetches hchange
  have hsize := changes.prepares.grows.size_le
  have hslotBelow := fetches.below sound slot (by simp)
  have hvalueBelow := fetches.below sound value.slot (by simp)
  have hmiddle := fetches.prepares.sound sound
  have plain := (((fetches.plain sound).append (Plain.copy hvalueBelow hslotBelow)).mono
    hsize).append (changes.plain hmiddle)
  have emits := port_emits follows (changes.prepares.sound hmiddle) hrest
  simpa using emits.prepend (fetches.prepares.trans changes.prepares) plain

theorem call_emits (feeds : Feeds feed) (follows : Follows follow) (sound : Sound s.heap)
    (given : call feed follow n d exit s = .ok (code, t)) : Emits exit s code t := by
  simp only [call, bind_eq_ok, pure_eq_ok] at given
  obtain ⟨supplies, r, hsupplies, calls, q, hcalls, rest, u, hrest, rfl, rfl⟩ := given
  have fetches := callOf_plain (inputs_fetches feeds hsupplies) hcalls
  exact (port_emits follows (fetches.prepares.sound sound) hrest).prepend fetches.prepares
    (fetches.plain sound)

theorem body_emits {g : Graph} (feeds : Feeds feed) (follows : Follows follow)
    (sound : Sound s.heap)
    (given : body g feed follow n d exit s = .ok (code, t)) : Emits exit s code t := by
  unfold body at given
  cases kind : d.kind <;> rw [kind] at given
  case block => exact chains_emits follows sound given
  case branch => exact branch_emits feeds follows sound given
  case isValid => exact validity_emits feeds follows sound given
  case forLoop => exact forLoop_emits feeds follows sound given
  case foreachLoop => exact foreachLoop_emits feeds follows sound given
  case whileLoop => exact whileLoop_emits feeds follows sound given
  case setVariable => exact assignment_emits feeds follows sound given
  case setReturnValue => exact assignment_emits feeds follows sound given
  all_goals exact call_emits feeds follows sound given

end Flows

/-! ## Chains and streams -/

theorem chain_eq_ok {c : Catalog} {g : Graph} {depth : Nat} {uid : Uid} {exit : Target}
    {code : List Op} {s t : Lowering}
    (given : chain c g depth uid exit s = .ok (code, t)) :
    (∃ label, s.emitted.lookup (uid, exit) = some label ∧ code = [.jump (.label label)] ∧ s = t) ∨
      s.emitted.lookup (uid, exit) = none ∧ ∃ less n d rest, depth = less + 1 ∧
        g.find? uid = some n ∧ c.find? n.fullName = some d ∧
        body g (feedOf c g) (chain c g less) n d exit (entered uid exit s) = .ok (rest, t) ∧
        code = .label s.nextLabel :: rest := by
  cases depth with
  | zero => simp [chain_zero] at given
  | succ depth =>
    rw [chain_succ] at given
    cases found : s.emitted.lookup (uid, exit) with
    | some label =>
      simp only [found, Except.ok.injEq, Prod.mk.injEq] at given
      exact Or.inl ⟨label, rfl, given.1.symm, given.2⟩
    | none =>
      simp only [found, labelledBody, bind_eq_ok, pure_eq_ok] at given
      obtain ⟨⟨n, d⟩, r, hplaced, rest, q, hbody, rfl, rfl⟩ := given
      obtain ⟨hnode, hdefinition, rfl⟩ := placed_eq_ok.mp hplaced
      exact Or.inr ⟨rfl, depth, n, d, rest, rfl, hnode, hdefinition, hbody, rfl⟩

theorem chain_emits (c : Catalog) (g : Graph) (depth : Nat) : Follows (chain c g depth) := by
  induction depth with
  | zero =>
    intro uid exit s code t sound given
    simp [chain_zero] at given
  | succ depth ih =>
    intro uid exit s code t sound given
    rcases chain_eq_ok given with ⟨label, found, rfl, rfl⟩ |
      ⟨-, less, n, d, rest, hdepth, -, -, hbody, rfl⟩
    · have hnoted : label ∈ noted s :=
        List.mem_map.mpr ⟨((uid, exit), label), mem_of_lookup_eq_some found, rfl⟩
      refine ⟨Grows.refl s.heap, sound, by simp [Op.slots], Nat.le_refl _, Fresh.nil _ _,
        fun _ => Or.inl, ?_, .label label, rfl⟩
      intro target htarget
      obtain rfl := List.mem_singleton.mp htarget
      exact Or.inr (Or.inl hnoted)
    · obtain rfl := Nat.succ.inj hdepth
      have emits := body_emits (s := entered uid exit s) (feedOf_feeds c g) ih sound hbody
      have hnoted : ∀ label ∈ noted (entered uid exit s),
          label ∈ noted s ∨ label ∈ marks (.label s.nextLabel :: rest) := by
        intro label hlabel
        rcases List.mem_cons.mp hlabel with rfl | hlabel
        · exact Or.inr List.mem_cons_self
        · exact Or.inl hlabel
      refine ⟨emits.grows, emits.sound, by simp [Op.slots, emits.below],
        Nat.le_of_succ_le emits.le, emits.fresh.cons emits.le, ?_, ?_, ?_⟩
      · intro label hlabel
        rcases emits.emitted label hlabel with hlabel | hlabel
        · exact hnoted label hlabel
        · exact Or.inr (List.mem_cons_of_mem _ hlabel)
      · intro target htarget
        rcases emits.closed target htarget with hexit | hknown
        · exact Or.inl hexit
        · exact Or.inr (hknown.mono hnoted fun label => List.mem_cons_of_mem _)
      · obtain ⟨target, hlast⟩ := emits.ends
        exact ⟨target, by rw [List.getLast?_cons, hlast]; rfl⟩

end ScriptGraph.Lowering
