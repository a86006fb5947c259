import ScriptGraph.Proofs.Lowering.Pieces

/-!
The code of every kind of node as a piece that is put together from the pieces of the chains within
it, and so the code of whole chains.
-/

set_option autoImplicit false
set_option relaxedAutoImplicit false

namespace ScriptGraph.Lowering

open HeapLayout (Grows Sound)

variable {c : Catalog} {g : Graph} {follow : Uid → Target → Step (List Op)} {n : Node}
  {d : Definition} {uid : Uid} {exit : Target} {code : List Op} {s t : Lowering}

theorem symbol_kept {h later : HeapLayout} (grows : Grows h later) {slot : Nat} {value : Value}
    (starts : (h.symbols[slot]?).map Symbol.default = some value) :
    (later.symbols[slot]?).map Symbol.default = some value := by
  obtain ⟨more, hmore⟩ := grows.symbols
  rw [← Array.getElem?_toList] at starts ⊢
  obtain ⟨symbol, hsymbol, hdefault⟩ := Option.map_eq_some_iff.mp starts
  have hlength := (List.getElem?_eq_some_iff.mp hsymbol).1
  rw [hmore, List.getElem?_append_left hlength, hsymbol, Option.map_some, hdefault]

theorem counting_made (composes : Composes c g follow) (sound : Sound s.heap)
    {index stop step inRange : Slot} {each : List Op}
    (given : counting follow n index stop step inRange each exit s = .ok (code, t)) :
    ∃ pieces inner, Yields c g s code t pieces (inner ++ pieces.flatMap Piece.inner)
        (pieces.flatMap Piece.slots) ∧
      ∀ (L : Listing) opening, L.Covers (opening ++ code) t →
        L.Counted n exit inner opening index stop step inRange each := by
  simp only [counting, bind_eq_ok, pure_eq_ok] at given
  obtain ⟨header, r, hheader, increment, q, hincrement, done, u, hdone, body, v, hbody, after, w,
    hafter, rfl, rfl⟩ := given
  have first := (newLabel_reserves hheader).2
  have second := (newLabel_reserves hincrement).2
  have third := (newLabel_reserves hdone).2
  have hr := first.sound sound
  have hu := third.sound (second.sound hr)
  obtain ⟨before, made, op, rest, rfl, goes⟩ := port_made composes hu hbody
  obtain ⟨behind, made', op', rest', rfl, goes'⟩ := port_made composes made.sound hafter
  have opens : ∀ rest : List Op, .label header :: .call lessThanMethod [index, stop, inRange] ::
      .jumpUnless inRange (.label done) :: each ++ rest =
        (.label header :: .call lessThanMethod [index, stop, inRange] ::
          .jumpUnless inRange (.label done) :: each) ++ rest := fun _ => rfl
  refine ⟨before ++ behind, [increment], ?_, fun L opening covers => ?_⟩
  · refine Yields.after_silent (Yields.reserved first sound) ?_
    refine Yields.after_label hincrement hr ?_
    refine Yields.after_silent (Yields.reserved third (second.sound hr)) ?_
    refine Made.append made made' ⟨.label header :: .call lessThanMethod [index, stop, inRange] ::
      .jumpUnless inRange (.label done) :: each, _, by simp only [List.append_assoc]; rfl⟩ ?_
    exact ⟨.label header :: .call lessThanMethod [index, stop, inRange] ::
      .jumpUnless inRange (.label done) :: each ++ (op :: rest) ++ [.label increment,
        .call additionMethod [index, step, index], .jump (.label header), .label done], [],
      by simp⟩
  · have hbehind : L.Covers (op' :: rest') w := covers.narrow
      ⟨opening ++ .label header :: .call lessThanMethod [index, stop, inRange] ::
        .jumpUnless inRange (.label done) :: each ++ (op :: rest) ++ [.label increment,
          .call additionMethod [index, step, index], .jump (.label header), .label done], [],
        by simp⟩
    have hbefore : L.Covers (op :: rest) v := Yields.covers made' covers
      ⟨opening ++ .label header :: .call lessThanMethod [index, stop, inRange] ::
        .jumpUnless inRange (.label done) :: each, .label increment ::
          .call additionMethod [index, step, index] :: .jump (.label header) :: .label done ::
          op' :: rest', by simp⟩
    refine ⟨header, increment, done, op, op', rfl, ?_, ?_, ?_, goes L hbefore, goes' L hbehind⟩
    · exact List.IsInfix.trans ⟨[], rest ++ .label increment ::
        .call additionMethod [index, step, index] :: .jump (.label header) :: .label done ::
        op' :: rest', by simp⟩ covers.code
    · exact List.IsInfix.trans ⟨opening ++ .label header ::
        .call lessThanMethod [index, stop, inRange] :: .jumpUnless inRange (.label done) ::
        each ++ op :: rest, .label done :: op' :: rest', by simp⟩ covers.code
    · exact List.IsInfix.trans ⟨opening ++ .label header ::
        .call lessThanMethod [index, stop, inRange] :: .jumpUnless inRange (.label done) ::
        each ++ op :: rest ++ [.label increment, .call additionMethod [index, step, index],
          .jump (.label header)], rest', by simp⟩ covers.code

theorem chains_made (composes : Composes c g follow) (sound : Sound s.heap) {uids : List Uid}
    (given : chains follow exit uids s = .ok (code, t)) :
    ∃ pieces inner, Yields c g s code t pieces (inner ++ pieces.flatMap Piece.inner)
        (pieces.flatMap Piece.slots) ∧
      ∀ (L : Listing) place, L.Covers (.label place :: code) t →
        L.Parted exit place uids inner := by
  induction uids generalizing s code with
  | nil =>
    obtain ⟨rfl, rfl⟩ := pure_eq_ok.mp given
    exact ⟨[], [], Yields.prepared (Prepares.refl s) sound, fun L place covers => covers.code⟩
  | cons uid rest ih =>
    cases rest with
    | nil =>
      obtain ⟨pieces, made, op, rest, rfl, starts⟩ := composes _ _ _ _ _ sound given
      refine ⟨pieces, [], made, fun L place covers => ⟨op, ?_, starts L ?_⟩⟩
      · exact List.IsInfix.trans ⟨[], rest, rfl⟩ covers.code
      · exact covers.narrow (List.infix_cons (List.infix_refl _))
    | cons next rest =>
      simp only [chains, bind_eq_ok, pure_eq_ok] at given
      obtain ⟨after, r, hlabel, first, q, hfirst, second, u, hsecond, rfl, rfl⟩ := given
      have hr := (newLabel_reserves hlabel).2.sound sound
      obtain ⟨before, made, op, ops, rfl, starts⟩ := composes _ _ _ _ _ hr hfirst
      obtain ⟨behind, inner, yields, parted⟩ := ih made.sound hsecond
      have hbefore : op :: ops <:+: op :: ops ++ .label after :: second :=
        ⟨[], .label after :: second, rfl⟩
      have hbehind : second <:+: op :: ops ++ .label after :: second :=
        ⟨op :: ops ++ [.label after], [], by simp⟩
      refine ⟨before ++ behind, after :: inner, ?_, fun L place covers => ?_⟩
      · refine Yields.reorder (Yields.after_label hlabel sound
          (Yields.append made yields hbefore hbehind)) ?_ ?_
        · rw [List.flatMap_append]
          exact (List.perm_append_comm_assoc _ inner _).cons after
        · rw [List.flatMap_append]
      · have hfirst : L.Covers (op :: ops) q :=
          Yields.covers yields covers (List.infix_cons hbefore)
        have hsecond : L.Covers (.label after :: second) u := covers.narrow
          ⟨.label place :: op :: ops, [], by simp⟩
        refine ⟨op, List.IsInfix.trans ⟨[], ops ++ .label after :: second, rfl⟩ covers.code,
          starts L hfirst, parted L after hsecond⟩

theorem branch_forms (composes : Composes c g follow) (sound : Sound s.heap)
    (given : branch (feedOf c g) follow n d exit s = .ok (code, t)) :
    Forms c g (fun L => L.BranchShape c g n d) uid exit s code t := by
  simp only [branch, bind_eq_ok, pure_eq_ok] at given
  obtain ⟨condition, r, hinput, rest, q, hchoice, rfl, rfl⟩ := given
  have prepares := (input_fetches (feedOf_feeds c g) hinput).prepares
  obtain ⟨pieces, made, chosen⟩ := choice_made composes (prepares.sound sound) hchoice
  refine ⟨pieces, [], [], ?_, fun L label covers => ⟨by simp [Listing.Prepared], ?_⟩⟩
  · exact Yields.after_silent (Yields.prepared prepares sound)
      (Yields.widen made (List.suffix_append _ _).isInfix)
  · refine ⟨condition, ⟨s, r, hinput, made.grows.trans covers.grows⟩, ?_⟩
    exact chosen L _ (by simpa using covers)

theorem validity_forms (composes : Composes c g follow) (sound : Sound s.heap)
    (given : validity (feedOf c g) follow n d exit s = .ok (code, t)) :
    Forms c g (fun L => L.ValidityShape c g n d) uid exit s code t := by
  simp only [validity, bind_eq_ok, pure_eq_ok] at given
  obtain ⟨object, r, hinput, valid, q, hvalid, rest, u, hchoice, rfl, rfl⟩ := given
  have prepares := (input_fetches (feedOf_feeds c g) hinput).prepares
  have hr := prepares.sound sound
  have extra := scratch_extra hvalid
  obtain ⟨pieces, made, chosen⟩ := choice_made composes (extra.prepares.sound hr) hchoice
  refine ⟨pieces, [], [(.valid, valid)], ?_, fun L label covers => ⟨?_, ?_⟩⟩
  · refine Yields.after_silent (Yields.prepared prepares sound) ?_
    refine Yields.after_scratch extra hr (Yields.widen made ?_)
    exact ⟨object.code ++ [.call isValidMethod [object.slot, valid]], [], by simp⟩
  · intro entry listed
    obtain rfl := List.mem_singleton.mp listed
    exact symbol_kept (made.grows.trans covers.grows) extra.starts
  · refine ⟨object, valid, ⟨s, r, hinput, ?_⟩, rfl, chosen L _ (by simpa using covers)⟩
    exact (extra.prepares.grows.trans made.grows).trans covers.grows

theorem whileLoop_forms (composes : Composes c g follow) (sound : Sound s.heap)
    (given : whileLoop (feedOf c g) follow n d exit s = .ok (code, t)) :
    Forms c g (fun L => L.WhileShape c g n d) uid exit s code t := by
  simp only [whileLoop, bind_eq_ok, pure_eq_ok] at given
  obtain ⟨header, r, hheader, done, q, hdone, condition, u, hinput, body, v, hbody, after, w,
    hafter, rfl, rfl⟩ := given
  have hr := (newLabel_reserves hheader).2.sound sound
  have prepares := (input_fetches (feedOf_feeds c g) hinput).prepares
  have reserves := (newLabel_reserves hdone).2.trans prepares.reserves
  obtain ⟨before, made, op, rest, rfl, goes⟩ := port_made composes (reserves.sound hr) hbody
  obtain ⟨behind, made', op', rest', rfl, goes'⟩ := port_made composes made.sound hafter
  refine ⟨before ++ behind, [header], [], ?_, fun L label covers => ⟨by simp [Listing.Prepared], ?_⟩⟩
  · refine Yields.after_label hheader sound ?_
    refine Yields.after_silent (Yields.reserved reserves hr) ?_
    refine Made.append made made' ⟨.label header :: condition.code ++
      [.jumpUnless condition.slot (.label done)], .label done :: op' :: rest', by simp⟩ ?_
    exact ⟨.label header :: condition.code ++ .jumpUnless condition.slot (.label done) ::
      op :: rest ++ [.label done], [], by simp⟩
  · have hbehind : L.Covers (op' :: rest') w := covers.narrow
      ⟨.label label :: .label header :: condition.code ++
        .jumpUnless condition.slot (.label done) :: op :: rest ++ [.label done], [], by simp⟩
    have hbefore : L.Covers (op :: rest) v := Yields.covers made' covers
      ⟨.label label :: .label header :: condition.code ++
        [.jumpUnless condition.slot (.label done)], .label done :: op' :: rest', by simp⟩
    refine ⟨header, done, condition, op, op', ⟨q, u, hinput, ?_⟩, rfl, ?_, ?_, goes L hbefore,
      goes' L hbehind⟩
    · exact (made.grows.trans made'.grows).trans covers.grows
    · exact List.IsInfix.trans ⟨[], rest ++ .label done :: op' :: rest', by simp⟩ covers.code
    · exact List.IsInfix.trans ⟨.label label :: .label header :: condition.code ++
        .jumpUnless condition.slot (.label done) :: op :: rest, rest', by simp⟩ covers.code

theorem forLoop_forms (composes : Composes c g follow) (sound : Sound s.heap)
    (given : forLoop (feedOf c g) follow n d exit s = .ok (code, t)) :
    Forms c g (fun L => L.ForShape c g n d) uid exit s code t := by
  simp only [forLoop, bind_eq_ok, pure_eq_ok] at given
  obtain ⟨start, r₁, hstart, stop, r₂, hstop, step, r₃, hstep, index, r₄, hindex, inRange, r₅,
    hinRange, rest, u, hrest, rfl, rfl⟩ := given
  have first := (input_fetches (feedOf_feeds c g) hstart).prepares
  have second := (input_fetches (feedOf_feeds c g) hstop).prepares
  have third := (input_fetches (feedOf_feeds c g) hstep).prepares
  have obtains := output_obtains hindex
  have extra := scratch_extra hinRange
  have hinputs := (third.trans obtains.prepares).trans extra.prepares
  have prepares := ((first.trans second).trans third).trans obtains.prepares
  have hsound := prepares.sound sound
  obtain ⟨pieces, inner, yields, counted⟩ :=
    counting_made composes (extra.prepares.sound hsound) hrest
  refine ⟨pieces, inner, [(.inRange, inRange)], ?_, fun L label covers => ⟨?_, ?_⟩⟩
  · refine Yields.after_silent (Yields.prepared prepares sound) ?_
    refine Yields.after_scratch extra hsound (yields.widen ?_)
    exact ⟨start.code ++ stop.code ++ step.code ++ [.copy start.slot index], [], by simp⟩
  · intro entry listed
    obtain rfl := List.mem_singleton.mp listed
    exact symbol_kept (yields.grows.trans covers.grows) extra.starts
  · have hgrows := (hinputs.grows.trans yields.grows).trans covers.grows
    have hextra := (extra.prepares.grows.trans yields.grows).trans covers.grows
    refine ⟨start, stop, step, index, inRange, ⟨_, _, hstart, ?_⟩, ⟨_, _, hstop, ?_⟩,
      ⟨_, _, hstep, ?_⟩, hextra.kept _ _ obtains.granted, rfl, counted L _ (by simpa using covers)⟩
    · exact (second.grows.trans hgrows)
    · exact hgrows
    · exact obtains.prepares.grows.trans hextra

theorem foreachLoop_forms (composes : Composes c g follow) (sound : Sound s.heap)
    (given : foreachLoop (feedOf c g) follow n d exit s = .ok (code, t)) :
    Forms c g (fun L => L.ForeachShape c g n d) uid exit s code t := by
  simp only [foreachLoop, bind_eq_ok, pure_eq_ok] at given
  obtain ⟨array, r₁, harray, item, r₂, hitem, first, r₃, hfirst, one, r₄, hone, index, r₅, hindex,
    length, r₆, hlength, inRange, r₇, hinRange, rest, u, hrest, rfl, rfl⟩ := given
  have prepares := (input_fetches (feedOf_feeds c g) harray).prepares
  have atItem := output_obtains hitem
  have atFirst := constant_obtains hfirst
  have atOne := constant_obtains hone
  have atIndex := scratch_extra hindex
  have atLength := scratch_extra hlength
  have atRange := scratch_extra hinRange
  have silent := ((prepares.trans atItem.prepares).trans atFirst.prepares).trans atOne.prepares
  have h₄ := silent.sound sound
  have h₅ := atIndex.prepares.sound h₄
  have h₆ := atLength.prepares.sound h₅
  obtain ⟨pieces, inner, yields, counted⟩ :=
    counting_made composes (atRange.prepares.sound h₆) hrest
  refine ⟨pieces, inner, [(.position, index), (.length, length), (.inRange, inRange)], ?_,
    fun L label covers => ?_⟩
  · refine Yields.after_silent (Yields.prepared silent sound) ?_
    refine Yields.after_scratch atIndex h₄ (Yields.after_scratch atLength h₅
      (Yields.after_scratch atRange h₆ (yields.widen ?_)))
    exact ⟨array.code ++ [.copy first index, .call arrayLengthMethod [array.slot, length]], [],
      by simp⟩
  · have g₇ := yields.grows.trans covers.grows
    have g₆ := atRange.prepares.grows.trans g₇
    have g₅ := atLength.prepares.grows.trans g₆
    have g₄ := atIndex.prepares.grows.trans g₅
    have g₃ := atOne.prepares.grows.trans g₄
    have g₂ := atFirst.prepares.grows.trans g₃
    refine ⟨?_, array, item, first, one, index, length, inRange, ⟨_, _, harray, ?_⟩,
      g₂.kept _ _ atItem.granted, g₃.kept _ _ atFirst.granted, g₄.kept _ _ atOne.granted, rfl,
      counted L _ (by simpa using covers)⟩
    · intro entry listed
      rcases List.mem_cons.mp listed with rfl | listed
      · exact symbol_kept g₅ atIndex.starts
      · rcases List.mem_cons.mp listed with rfl | listed
        · exact symbol_kept g₆ atLength.starts
        · obtain rfl := List.mem_singleton.mp listed
          exact symbol_kept g₇ atRange.starts
    · exact atItem.prepares.grows.trans g₂

theorem assignment_forms (composes : Composes c g follow) (sound : Sound s.heap)
    (given : assignment g (feedOf c g) follow n d exit s = .ok (code, t)) :
    Forms c g (fun L => L.AssignmentShape c g n d) uid exit s code t := by
  simp only [assignment_eq, bind_eq_ok, pure_eq_ok, present_eq_ok] at given
  obtain ⟨target, r₁, ⟨htarget, rfl⟩, variableNode, r₂, ⟨hvariable, rfl⟩, slot, r₃, hslot, value,
    r₄, hvalue, change, r₅, hchange, rest, r₆, hrest, rfl, rfl⟩ := given
  have obtains := variableSlot_obtains hslot
  have first := (inputAs_fetches (feedOf_feeds c g) hvalue).prepares
  have second := (notice_fetches hchange).prepares
  have prepares := (obtains.prepares.trans first).trans second
  obtain ⟨pieces, made, op, rest, rfl, goes⟩ := port_made composes (prepares.sound sound) hrest
  refine ⟨pieces, [], [], ?_, fun L label covers => ⟨by simp [Listing.Prepared], ?_⟩⟩
  · exact Yields.after_silent (Yields.prepared prepares sound)
      (Yields.widen made ⟨value.code ++ .copy value.slot slot :: change, [], by simp⟩)
  · have g₅ := made.grows.trans covers.grows
    have g₄ := second.grows.trans g₅
    refine ⟨target, variableNode, slot, value, change, op, htarget, hvariable,
      (first.grows.trans g₄).kept _ _ obtains.granted, ⟨_, _, hvalue, g₄⟩, ⟨_, _, hchange, g₅⟩, ?_,
      goes L ?_⟩
    · exact List.IsInfix.trans ⟨[], rest, by simp⟩ covers.code
    · exact covers.narrow ⟨.label label :: value.code ++ .copy value.slot slot :: change, [],
        by simp⟩

theorem call_forms (composes : Composes c g follow) (sound : Sound s.heap)
    (given : call (feedOf c g) follow n d exit s = .ok (code, t)) :
    Forms c g (fun L => L.CallShape c g n d) uid exit s code t := by
  simp only [call, bind_eq_ok, pure_eq_ok] at given
  obtain ⟨supplies, r, hsupplies, calls, q, hcalls, rest, u, hrest, rfl, rfl⟩ := given
  have first := (inputs_fetches (feedOf_feeds c g) hsupplies).prepares
  have second := (callOf_obtains hcalls).1
  have prepares := first.trans second
  obtain ⟨pieces, made, op, rest, rfl, goes⟩ := port_made composes (prepares.sound sound) hrest
  refine ⟨pieces, [], [], ?_, fun L label covers => ⟨by simp [Listing.Prepared], ?_⟩⟩
  · exact Yields.after_silent (Yields.prepared prepares sound)
      (Yields.widen made (List.suffix_append _ _).isInfix)
  · have hgrows := made.grows.trans covers.grows
    refine ⟨supplies, calls, op, ⟨_, _, hsupplies, second.grows.trans hgrows⟩,
      ⟨_, _, hcalls, hgrows⟩, ?_, goes L ?_⟩
    · exact List.IsInfix.trans ⟨[], rest, by simp⟩ covers.code
    · exact covers.narrow ⟨.label label :: calls, [], by simp⟩

theorem chains_forms (composes : Composes c g follow) (sound : Sound s.heap)
    (given : chains follow exit n.targets s = .ok (code, t)) :
    Forms c g (fun L piece => L.Parted piece.exit piece.label n.targets piece.inner) uid exit s
      code t := by
  obtain ⟨pieces, inner, yields, parted⟩ := chains_made composes sound given
  exact ⟨pieces, inner, [], yields, fun L label covers => ⟨by simp [Listing.Prepared],
    parted L label covers⟩⟩

theorem body_forms (composes : Composes c g follow) (sound : Sound s.heap)
    (given : body g (feedOf c g) follow n d exit s = .ok (code, t)) :
    Forms c g (fun L => L.Shape c g n d) uid exit s code t := by
  unfold body at given
  unfold Listing.Shape
  cases kind : d.kind <;> simp only [kind] at given ⊢
  case block => exact chains_forms composes sound given
  case branch => exact branch_forms composes sound given
  case isValid => exact validity_forms composes sound given
  case forLoop => exact forLoop_forms composes sound given
  case foreachLoop => exact foreachLoop_forms composes sound given
  case whileLoop => exact whileLoop_forms composes sound given
  case setVariable => exact assignment_forms composes sound given
  case setReturnValue => exact assignment_forms composes sound given
  all_goals exact call_forms composes sound given

/-! ## Chains -/

theorem Forms.made (forms : Forms c g (fun L => L.Shape c g n d) uid exit (entered uid exit s) code t)
    (unknown : s.emitted.lookup (uid, exit) = none) (hnode : g.find? uid = some n)
    (hdefinition : c.find? n.fullName = some d) :
    ∃ pieces, Made c g s (.label s.nextLabel :: code) t pieces ∧
      t.emitted.lookup (uid, exit) = some s.nextLabel := by
  obtain ⟨pieces, inner, registers, yields, forms⟩ := forms
  have hentered : ∀ key, (entered uid exit s).emitted.lookup key =
      if key = (uid, exit) then some s.nextLabel else s.emitted.lookup key :=
    fun key => lookup_cons_eq (uid, exit) key s.nextLabel s.emitted
  have hnoted : t.emitted.lookup (uid, exit) = some s.nextLabel :=
    yields.kept _ _ (by rw [hentered, if_pos rfl])
  refine ⟨⟨uid, exit, s.nextLabel, inner, registers⟩ :: pieces, ?_, hnoted⟩
  refine ⟨yields.grows, yields.sound, Nat.le_of_succ_le yields.next, ?_, ?_, ?_, ?_, ?_, ?_, ?_⟩
  · intro key label found
    refine yields.kept key label ?_
    rw [hentered, if_neg, found]
    rintro rfl
    rw [unknown] at found
    cases found
  · intro key label found
    rcases yields.known key label found with found | ⟨piece, listed, known⟩
    · rw [hentered] at found
      split at found
      · rename_i same
        exact Or.inr ⟨_, List.mem_cons_self, same.symm, Option.some.inj found⟩
      · exact Or.inl found
    · exact Or.inr ⟨piece, List.mem_cons_of_mem _ listed, known⟩
  · exact List.forall_mem_cons.mpr ⟨hnoted, yields.noted⟩
  · exact yields.freshLabels.mono (Nat.le_succ _) (Nat.le_refl _)
  · exact yields.freshSlots
  · exact yields.free
  · intro L covers
    refine List.forall_mem_cons.mpr ⟨?_, ?_⟩
    · obtain ⟨prepared, shape⟩ := forms L s.nextLabel covers
      exact ⟨prepared, n, d, hnode, hdefinition, shape⟩
    · exact yields.shaped L (covers.narrow (List.infix_cons (List.infix_refl _)))

theorem chain_composes (c : Catalog) (g : Graph) (depth : Nat) :
    Composes c g (chain c g depth) := by
  induction depth with
  | zero =>
    intro uid exit s code t sound given
    simp [chain_zero] at given
  | succ depth ih =>
    intro uid exit s code t sound given
    rcases chain_eq_ok given with ⟨label, found, rfl, rfl⟩ |
      ⟨unknown, less, n, d, rest, hdepth, hnode, hdefinition, hbody, rfl⟩
    · refine ⟨[], Yields.prepared (Prepares.refl s) sound, _, [], rfl, fun L covers => ?_⟩
      exact ⟨label, covers.emitted _ _ found, Or.inr rfl⟩
    · obtain rfl := Nat.succ.inj hdepth
      have forms : Forms c g (fun L => L.Shape c g n d) uid exit (entered uid exit s) rest t :=
        body_forms ih sound hbody
      obtain ⟨pieces, made, hnoted⟩ := forms.made unknown hnode hdefinition
      refine ⟨pieces, made, _, rest, rfl, fun L covers => ?_⟩
      exact ⟨s.nextLabel, covers.emitted _ _ hnoted, Or.inl rfl⟩

/-! ## Streams -/

/-- The code of an event with the pieces it is made of. -/
structure Script where
  name : String
  node : Node
  ops : List Op
  emitted : List ((Uid × Target) × Label)
  pieces : List Piece

namespace Script

def slots (script : Script) : List Slot := script.pieces.flatMap Piece.slots

/-- Whether the code of the event stands within the whole. -/
structure Within (c : Catalog) (g : Graph) (L : Listing) (script : Script) : Prop where
  code : script.ops <:+: L.ops
  emitted : L.emitted = script.emitted
  known : ∀ key label, script.emitted.lookup key = some label →
    ∃ piece ∈ script.pieces, piece.key = key ∧ piece.label = label
  noted : ∀ piece ∈ script.pieces, script.emitted.lookup piece.key = some piece.label
  inner : (script.pieces.flatMap Piece.inner).Nodup
  shaped : ∀ piece ∈ script.pieces, piece.Shaped c g L
  starts : ∃ op rest, script.ops = op :: rest ∧ L.Goes script.node 0 .halt op

end Script

private theorem stream_within {name : String} {result : Stream} (sound : Sound s.heap)
    (given : stream c g name n s = .ok (result, t)) :
    ∃ script : Script, script.name = name ∧ script.node = n ∧ result = ⟨name, script.ops⟩ ∧
      Grows s.heap t.heap ∧ Sound t.heap ∧ Fresh s.heap.size t.heap.size script.slots ∧
      (∀ (slot : Nat), slot ∈ script.slots → ∀ key, t.heap.slot? key ≠ some slot) ∧
      ∀ L : Listing, script.ops <:+: L.ops → L.emitted = script.emitted → Grows t.heap L.heap →
        script.Within c g L := by
  obtain ⟨rfl, hport⟩ := stream_eq_ok given
  obtain ⟨pieces, made, op, rest, hcode, goes⟩ := port_made (s := { s with emitted := [] })
    (chain_composes c g _) sound hport
  refine ⟨⟨result.name, n, result.ops, t.emitted, pieces⟩, rfl, rfl, rfl, made.grows, made.sound,
    made.freshSlots, made.free, fun L hops hemitted hgrows => ?_⟩
  have covers : L.Covers result.ops t := by
    refine ⟨hops, fun key label found => ?_, hgrows⟩
    rwa [hemitted]
  refine ⟨hops, hemitted, fun key label found => ?_, made.noted, made.freshLabels.1,
    made.shaped L covers, op, rest, hcode, goes L covers⟩
  exact (made.known key label found).resolve_left (by simp)

theorem mapM_stream_within {found : List (String × Node)} {results : List Stream}
    (sound : Sound s.heap)
    (given : found.mapM (fun entry => stream c g entry.1 entry.2) s = .ok (results, t)) :
    ∃ scripts : List Script, found = scripts.map (fun script => (script.name, script.node)) ∧
      results = scripts.map (fun script => ⟨script.name, script.ops⟩) ∧
      Grows s.heap t.heap ∧ Sound t.heap ∧
      Fresh s.heap.size t.heap.size (scripts.flatMap Script.slots) ∧
      (∀ (slot : Nat), slot ∈ scripts.flatMap Script.slots → ∀ key, t.heap.slot? key ≠ some slot) ∧
      ∀ ops, ∀ script ∈ scripts, script.ops <:+: ops →
        script.Within c g ⟨ops, script.emitted, t.heap⟩ := by
  induction found generalizing s results with
  | nil =>
    obtain ⟨rfl, rfl⟩ := mapM_nil_eq_ok.mp given
    exact ⟨[], rfl, rfl, Grows.refl s.heap, sound, Fresh.nil _ _, by simp, by simp⟩
  | cons entry found ih =>
    obtain ⟨first, r, others, hfirst, hothers, rfl⟩ := mapM_cons_eq_ok.mp given
    obtain ⟨script, hname, hnode, rfl, grows, hsound, fresh, free, within⟩ :=
      stream_within sound hfirst
    obtain ⟨scripts, rfl, rfl, grows', hsound', fresh', free', within'⟩ := ih hsound hothers
    refine ⟨script :: scripts, by rw [List.map_cons, hname, hnode], by rw [List.map_cons, hname],
      grows.trans grows', hsound', ?_, ?_, ?_⟩
    · exact fresh.append fresh' grows.size_le grows'.size_le
    · intro slot listed key granted
      rcases List.mem_append.mp listed with listed | listed
      · rcases grows'.fresh key slot granted with granted | above
        · exact free slot listed key granted
        · have hbound := (fresh.2 slot listed).2
          omega
      · exact free' slot listed key granted
    · intro ops other listed inside
      rcases List.mem_cons.mp listed with rfl | listed
      · exact within _ inside rfl grows'
      · exact within' ops other listed inside

end ScriptGraph.Lowering
