import ScriptGraph.Proofs.Lowering.Mirrored

/-!
What becomes of the events of a graph. Each of them has an entry point, or what speaks against it is
reported; and a report once made stays.
-/

set_option autoImplicit false
set_option relaxedAutoImplicit false

namespace ScriptGraph.Lowering

variable {α : Type} {c : Catalog} {g : Graph}

theorem Blind.reports {x : Step α} (blind : Blind x) {a : α} {s t : Lowering}
    (given : x s = .ok (a, t)) : s.diagnostics <+: t.diagnostics := by
  have shifted := blind s.diagnostics { s with diagnostics := [] }
  rw [behind, List.append_nil, given] at shifted
  cases bare : x { s with diagnostics := [] } with
  | error error =>
    rw [bare] at shifted
    cases shifted
  | ok result =>
    rw [bare] at shifted
    obtain ⟨-, rfl⟩ := Prod.mk.inj (Except.ok.inj shifted)
    exact List.prefix_append _ _

/-- Every event has an entry point, or there is a report of it. -/
structure Accounts (c : Catalog) (g : Graph) (nodes : List Node) (found : List (String × Node))
    (reports : List Diagnostic) : Prop where
  ordered : (found.map Prod.snd).Sublist nodes
  unnamed : ∀ n ∈ nodes, (c.find? n.fullName).isSome → n.kind = .customEvent →
    claimedName? g n = none → ⟨n.uid, .unnamedEvent⟩ ∈ reports
  taken : ∀ n ∈ nodes, ∀ name, (c.find? n.fullName).isSome → claimedName? g n = some name →
    (name, n) ∈ found ∨ ⟨n.uid, .duplicateEntry name⟩ ∈ reports

namespace Accounts

variable {n : Node} {nodes : List Node} {found : List (String × Node)} {reports : List Diagnostic}

private theorem skip (accounts : Accounts c g nodes found reports)
    (unnamed : (c.find? n.fullName).isSome → n.kind = .customEvent → claimedName? g n = none →
      ⟨n.uid, .unnamedEvent⟩ ∈ reports)
    (taken : ∀ name, (c.find? n.fullName).isSome → claimedName? g n = some name →
      ⟨n.uid, .duplicateEntry name⟩ ∈ reports) : Accounts c g (n :: nodes) found reports := by
  refine ⟨accounts.ordered.cons n, fun m listed => ?_, fun m listed name => ?_⟩
  · rcases List.mem_cons.mp listed with rfl | listed
    · exact unnamed
    · exact accounts.unnamed m listed
  · rcases List.mem_cons.mp listed with rfl | listed
    · exact fun defined claims => .inr (taken name defined claims)
    · exact accounts.taken m listed name

private theorem cons (accounts : Accounts c g nodes found reports) {name : String}
    (claims : claimedName? g n = some name) : Accounts c g (n :: nodes) ((name, n) :: found) reports := by
  refine ⟨accounts.ordered.cons_cons n, fun m listed => ?_, fun m listed other => ?_⟩
  · rcases List.mem_cons.mp listed with rfl | listed
    · intro _ _ none
      rw [claims] at none
      cases none
    · exact accounts.unnamed m listed
  · rcases List.mem_cons.mp listed with rfl | listed
    · intro _ alsoClaims
      rw [claims] at alsoClaims
      obtain rfl := Option.some.inj alsoClaims
      exact .inl List.mem_cons_self
    · exact fun defined claims =>
        (accounts.taken m listed other defined claims).imp_left (List.mem_cons_of_mem _)

end Accounts

theorem entries_accounts {taken : List String} {nodes : List Node} {found : List (String × Node)}
    {s t : Lowering} (given : entries c g taken nodes s = .ok (found, t)) :
    Accounts c g nodes found t.diagnostics := by
  induction nodes generalizing taken found s with
  | nil =>
    obtain ⟨rfl, rfl⟩ := pure_eq_ok.mp given
    exact ⟨.refl _, by simp, by simp⟩
  | cons n nodes ih =>
    rw [entries] at given
    cases defined : c.find? n.fullName with
    | none =>
      simp only [defined] at given
      refine (ih given).skip ?_ ?_ <;> simp [defined]
    | some d =>
      simp only [defined] at given
      rw [bind_apply, entryName?_apply] at given
      dsimp only at given
      cases claims : claimedName? g n with
      | none =>
        simp only [claims] at given
        refine (ih given).skip (fun _ custom _ => ?_) (by simp [claims])
        refine ((entries_blind c g taken nodes).reports given).subset ?_
        refine List.mem_append_right _ ?_
        rw [namingReports, if_pos ⟨custom, claims⟩]
        exact List.mem_singleton_self _
      | some name =>
        simp only [claims] at given
        split at given
        · obtain ⟨⟨⟩, r, reports, given⟩ := bind_eq_ok.mp given
          refine (ih given).skip (by simp [claims]) fun other _ same => ?_
          rw [claims] at same
          obtain rfl := Option.some.inj same
          refine ((entries_blind c g taken nodes).reports given).subset ?_
          rw [report, Except.ok.injEq, Prod.mk.injEq] at reports
          obtain ⟨-, rfl⟩ := reports
          exact List.mem_append_right _ (List.mem_singleton_self _)
        · simp only [bind_eq_ok, pure_eq_ok] at given
          obtain ⟨⟨⟩, r, -, others, q, rest, rfl, rfl⟩ := given
          exact (ih rest).cons claims

/-- The streams of a graph are those of the entry points that were found, and the reports made of the
other events are kept. -/
theorem streams_accounts {results : List Stream} {s t : Lowering}
    (given : streams c g s = .ok (results, t)) : ∃ found, Enters c g [] g.eventNodes found ∧
      Accounts c g g.eventNodes found t.diagnostics ∧ s.diagnostics <+: t.diagnostics ∧
      results.map Stream.name = found.map Prod.fst := by
  have kept := (streams_blind c g).reports given
  obtain ⟨found, r, entered, emitted⟩ := bind_eq_ok.mp given
  have emits : Blind (found.mapM fun entry => stream c g entry.1 entry.2) := fun front =>
    Mirrors.mapM fun entry _ => stream_blind c g entry.1 entry.2 front
  have later := emits.reports emitted
  have accounts := entries_accounts entered
  refine ⟨found, (entries_eq_ok entered).1, ⟨accounts.ordered, ?_, ?_⟩, kept,
    mapM_stream_names emitted⟩
  · exact fun n listed defined custom none =>
      later.subset (accounts.unnamed n listed defined custom none)
  · exact fun n listed name defined claims =>
      (accounts.taken n listed name defined claims).imp_right fun report => later.subset report

end ScriptGraph.Lowering
