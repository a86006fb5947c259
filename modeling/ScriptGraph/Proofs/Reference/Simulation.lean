import ScriptGraph.Proofs.Code.Standing
import ScriptGraph.Proofs.Machine.Hosts
import ScriptGraph.Proofs.Reference.Memory

/-!
Code that does what a run does. From every activity that agrees with a world, the steps of the machine
lead to one that agrees with the world after the run, fail as the run fails, or go on for as long as
the run has rounds, unless a Foreach loop was begun while it was being run. Until then no code touches
what the loops that are being run keep for themselves.
-/

set_option autoImplicit false
set_option relaxedAutoImplicit false

namespace ScriptGraph

/-- Whether an activity goes on at an address, above the events that it interrupts. -/
def Activity.At {σ : Type} (a : Activity σ) (address : Address) (returns : List Address) : Prop :=
  resumed a.address a.returns = resumed address returns

namespace Reference

open Activity (Leads At move resumed)
open Assembly (Standing addressOf encoded instruction?)
open Lowering (Register)

variable {σ α β : Type}

/-! ## Runs -/

namespace Run

instance : LawfulMonad (Run σ) := by
  refine LawfulMonad.mk' _ ?_ (fun _ _ => rfl) ?_
  · intro α run
    funext running w
    rcases h : run running w with ⟨reentered, _ | ⟨_ | _, _⟩⟩ <;> simp [Functor.map, act, h]
  · intro α β γ run next later
    funext running w
    rcases h : run running w with ⟨reentered, _ | ⟨_ | x, v⟩⟩
    · simp [Bind.bind, h]
    · simp [Bind.bind, h]
    · rcases h' : next x running v with ⟨again, _ | ⟨_ | _, _⟩⟩ <;>
        simp [Bind.bind, h, h', Bool.or_assoc]

theorem bind_apply (run : Run σ α) (next : α → Run σ β) (running : List Site) (w : World σ) :
    (run >>= next) running w = match (run running w).ended with
      | none => ⟨(run running w).reentered, none⟩
      | some (.error error, v) => ⟨(run running w).reentered, some (.error error, v)⟩
      | some (.ok x, v) =>
        ⟨(run running w).reentered || (next x running v).reentered, (next x running v).ended⟩ :=
  rfl

theorem bind_congr_apply {run other : Run σ α} {running : List Site} {w v : World σ}
    (same : run running w = other running v) (next : α → Run σ β) :
    (run >>= next) running w = (other >>= next) running v := by
  rw [bind_apply, bind_apply, same]

end Run

theorem store_nil (places : List Place) : store places [] = (pure () : Run σ Unit) := by
  cases places <;> rfl

/-! ## Settings -/

/-- A program assembled from code, the host that it calls, which of its states are alike, and where its
places stand. -/
structure Setting (σ : Type) where
  program : Program
  ops : List Op
  host : Host σ
  alike : σ → σ → Prop
  memory : Memory
  instructions : program.instructions = encoded (addressOf ops) ops
  distinct : (marks ops).Nodup
  room : program.instructions.length ≤ haltAddress
  forgets : host.Forgets alike

namespace Setting

variable (S : Setting σ)

def Owned (running : List Site) (kept : List (Slot × Value)) : Prop :=
  ∀ entry ∈ kept, ∃ site ∈ running, ∃ name ∈ [Register.position, .length],
    S.memory.keeps site name entry.1

/-- Foreach loops that are being run, and what they keep meanwhile. -/
structure Scope where
  running : List Site
  kept : List (Slot × Value)
  owned : S.Owned running kept

namespace Scope

variable {S}

def keep (scope : S.Scope) (given : List (Slot × Value)) (owned : S.Owned scope.running given) :
    S.Scope where
  running := scope.running
  kept := given ++ scope.kept
  owned := fun entry listed => (List.mem_append.mp listed).elim (owned entry) (scope.owned entry)

def enter (scope : S.Scope) (site : Site) : S.Scope where
  running := site :: scope.running
  kept := scope.kept
  owned := fun entry listed =>
    let ⟨other, known, keeps⟩ := scope.owned entry listed
    ⟨other, List.mem_cons_of_mem site known, keeps⟩

end Scope

def outermost : S.Scope := ⟨[], [], fun _ listed => by cases listed⟩

/-- An activity has come as far as a world has, and certain slots hold what they should. -/
structure Agrees (scope : S.Scope) (given : List (Slot × Value)) (w : World σ) (a : Activity σ) :
    Prop where
  host : S.alike w.host a.host
  externs : a.report.externs = w.externs
  heap : S.memory.Holds w a.heap
  held : ∀ entry ∈ given ++ scope.kept, a.heap[entry.1]? = some entry.2

/-- What becomes of an activity: it gets to where a run ends well after at least some steps, fails
like a run, or takes as many steps as there are rounds. -/
def Reaches (scope : S.Scope) (ends : α → List (Slot × Value)) (rounds least : Nat)
    (returns : List Address) (post : α → Address → Prop) (a : Activity σ) :
    Option (Except RunError α × World σ) → Prop
  | none => ∃ n b, rounds ≤ n ∧ Leads S.program S.host n a b
  | some (.ok x, w) => ∃ n b address, least ≤ n ∧ Leads S.program S.host n a b ∧
      S.Agrees scope (ends x) w b ∧ b.At address returns ∧ post x address
  | some (.error error, w) => ∃ n b c, Leads S.program S.host n a b ∧
      move S.program S.host b = .performed (.error error) c ∧ S.Agrees scope [] w c

/-- Code from an address on does what a run does and then goes on at an address, if some slots hold what
is given; in the end they hold what depends on the result. -/
def Carries (scope : S.Scope) (given : List (Slot × Value)) (ends : α → List (Slot × Value))
    (rounds least : Nat) (returns : List Address) (start : Address) (run : Run σ α)
    (post : α → Address → Prop) : Prop :=
  ∀ w a, S.Agrees scope given w a → a.At start returns →
    (run scope.running w).reentered = false →
      S.Reaches scope ends rounds least returns post a (run scope.running w).ended

/-- Code from an address on does what a run does and then goes on at an address, whatever loops are
being run, and leaves them what they keep. -/
def Simulates (rounds least : Nat) (returns : List Address) (start : Address) (run : Run σ α)
    (post : α → Address → Prop) : Prop :=
  ∀ scope : S.Scope, S.Carries scope [] (fun _ => []) rounds least returns start run post

variable {S} {scope inner : S.Scope} {given : List (Slot × Value)} {ends : α → List (Slot × Value)}
  {rounds fewer least more : Nat} {returns : List Address} {start : Nat} {run : Run σ α}
  {next : α → Run σ β} {post later : α → Address → Prop} {after : β → Address → Prop}

theorem Agrees.less {others : List (Slot × Value)} {w : World σ} {a : Activity σ}
    (agrees : S.Agrees inner given w a)
    (less : others ++ scope.kept ⊆ given ++ inner.kept) : S.Agrees scope others w a :=
  ⟨agrees.host, agrees.externs, agrees.heap, fun entry listed => agrees.held entry (less listed)⟩

theorem Reaches.after_steps {n : Nat} {a b : Activity σ}
    {outcome : Option (Except RunError α × World σ)} (leads : Leads S.program S.host n a b)
    (reaches : S.Reaches scope ends rounds least returns post b outcome) :
    S.Reaches scope ends (n + rounds) (n + least) returns post a outcome := by
  match outcome, reaches with
  | none, ⟨m, c, long, rest⟩ =>
    exact ⟨n + m, c, Nat.add_le_add_left long n, leads.trans rest⟩
  | some (.ok x, w), ⟨m, c, address, enough, rest, holds⟩ =>
    exact ⟨n + m, c, address, Nat.add_le_add_left enough n, leads.trans rest, holds⟩
  | some (.error error, w), ⟨m, c, d, rest, fails⟩ =>
    exact ⟨n + m, c, d, leads.trans rest, fails⟩

theorem Reaches.weaken {a : Activity σ} {outcome : Option (Except RunError α × World σ)}
    (reaches : S.Reaches scope ends rounds least returns post a outcome) (shorter : fewer ≤ rounds)
    (less : more ≤ least) (weaker : ∀ x address, post x address → later x address) :
    S.Reaches scope ends fewer more returns later a outcome := by
  match outcome, reaches with
  | none, ⟨m, c, long, rest⟩ => exact ⟨m, c, Nat.le_trans shorter long, rest⟩
  | some (.ok x, w), ⟨m, c, address, enough, rest, agrees, stands, holds⟩ =>
    exact ⟨m, c, address, Nat.le_trans less enough, rest, agrees, stands, weaker x address holds⟩
  | some (.error error, w), reaches => exact reaches

theorem Reaches.less {a : Activity σ} {outcome : Option (Except RunError α × World σ)}
    {others : α → List (Slot × Value)}
    (reaches : S.Reaches inner others rounds least returns post a outcome)
    (less : ∀ x, ends x ++ scope.kept ⊆ others x ++ inner.kept) (kept : scope.kept ⊆ inner.kept) :
    S.Reaches scope ends rounds least returns post a outcome := by
  match outcome, reaches with
  | none, reaches => exact reaches
  | some (.ok x, w), ⟨m, c, address, enough, rest, agrees, stands⟩ =>
    exact ⟨m, c, address, enough, rest, agrees.less (less x), stands⟩
  | some (.error error, w), ⟨m, b, c, rest, moves, agrees⟩ =>
    exact ⟨m, b, c, rest, moves, agrees.less kept⟩

namespace Carries

theorem pure (ends : α → List (Slot × Value)) {x : α} (holds : post x start) :
    S.Carries scope (ends x) ends rounds 0 returns start (Pure.pure x : Run σ α) post :=
  fun _ a agrees stands _ => ⟨0, a, start, Nat.le_refl 0, .refl a, agrees, stands, holds⟩

theorem weaken (carries : S.Carries scope given ends rounds least returns start run post)
    (shorter : fewer ≤ rounds) (less : more ≤ least) :
    S.Carries scope given ends fewer more returns start run post :=
  fun w a agrees stands calm => (carries w a agrees stands calm).weaken shorter less fun _ _ => id

theorem less {others : List (Slot × Value)}
    (carries : S.Carries scope others ends rounds least returns start run post)
    (less : others ⊆ given) : S.Carries scope given ends rounds least returns start run post :=
  fun w a agrees => carries w a (agrees.less (List.append_subset.mpr
    ⟨List.subset_append_of_subset_left _ less, List.subset_append_right _ _⟩))

theorem framed (owned : S.Owned scope.running given)
    (carries : S.Carries (scope.keep given owned) [] (fun _ => []) rounds least returns start run
      post) : S.Carries scope given (fun _ => given) rounds least returns start run post := by
  intro w a agrees stands calm
  have reaches := carries w a ⟨agrees.host, agrees.externs, agrees.heap, agrees.held⟩ stands calm
  exact reaches.less (fun _ => List.Subset.refl _) (List.subset_append_right _ _)

theorem bind {middle : α → List (Slot × Value)} {ends : β → List (Slot × Value)} (more : Nat)
    (first : S.Carries scope given middle rounds least returns start run post)
    (second : ∀ x (address : Nat), post x address →
      S.Carries scope (middle x) ends fewer more returns address (next x) after)
    (enough : rounds ≤ least + fewer) :
    S.Carries scope given ends rounds (least + more) returns start (run >>= next) after := by
  intro w a agrees stands calm
  have reaches := first w a agrees stands
  rw [Run.bind_apply] at calm ⊢
  rcases hrun : run scope.running w with ⟨reentered, _ | ⟨error | x, v⟩⟩ <;>
    simp only [hrun] at calm reaches ⊢
  case none => exact reaches calm
  case error => exact reaches calm
  case ok =>
    rw [Bool.or_eq_false_iff] at calm
    obtain ⟨n, b, address, taken, leads, hagrees, hstands, holds⟩ := reaches calm.1
    have rest := (second x address holds v b hagrees hstands calm.2).after_steps leads
    have longer : rounds ≤ n + fewer := Nat.le_trans enough (Nat.add_le_add_right taken fewer)
    exact rest.weaken longer (Nat.add_le_add_right taken more) fun _ _ => id

theorem andThen {middle : α → List (Slot × Value)} {ends : β → List (Slot × Value)}
    (first : S.Carries scope given middle rounds least returns start run post)
    (second : ∀ x (address : Nat), post x address →
      S.Carries scope (middle x) ends rounds 0 returns address (next x) after) :
    S.Carries scope given ends rounds 0 returns start (run >>= next) after :=
  (first.bind 0 second (Nat.le_add_left rounds least)).weaken (Nat.le_refl rounds) (Nat.zero_le _)

end Carries

namespace Simulates

theorem lazily (simulates : S.Simulates rounds least returns start run post) :
    S.Simulates rounds 0 returns start run post :=
  fun scope => (simulates scope).weaken (Nat.le_refl rounds) (Nat.zero_le least)

theorem pure {x : α} (holds : post x start) :
    S.Simulates rounds 0 returns start (Pure.pure x : Run σ α) post :=
  fun _ => Carries.pure (fun _ => []) holds

theorem bind (more : Nat) (first : S.Simulates rounds least returns start run post)
    (second : ∀ x (address : Nat), post x address →
      S.Simulates fewer more returns address (next x) after) (enough : rounds ≤ least + fewer) :
    S.Simulates rounds (least + more) returns start (run >>= next) after :=
  fun scope => (first scope).bind more (fun x address holds => second x address holds scope) enough

theorem andThen (first : S.Simulates rounds least returns start run post)
    (second : ∀ x (address : Nat), post x address →
      S.Simulates rounds 0 returns address (next x) after) :
    S.Simulates rounds 0 returns start (run >>= next) after :=
  fun scope => (first scope).andThen fun x address holds => second x address holds scope

theorem iterate (bottom : Nat) {round : Run σ Bool} {top : Nat}
    (each : S.Simulates rounds 1 returns top round fun again address =>
      address = if again then top else bottom) :
    S.Simulates rounds 0 returns top (iterate round rounds) fun _ address => address = bottom := by
  have all : ∀ granted, granted ≤ rounds →
      S.Simulates granted 0 returns top (Reference.iterate round granted)
        fun _ address => address = bottom := by
    intro granted
    induction granted with
    | zero => exact fun _ _ _ a _ _ _ => ⟨0, a, Nat.le_refl 0, .refl a⟩
    | succ granted ih =>
      intro granted_le
      have round' : S.Simulates (granted + 1) 1 returns top round fun again address =>
          address = if again then top else bottom := fun scope =>
        (each scope).weaken granted_le (Nat.le_refl 1)
      refine (round'.bind 0 ?_ (Nat.le_of_eq (Nat.add_comm granted 1))).lazily
      intro again address hereafter
      cases again with
      | true =>
        obtain rfl : address = top := hereafter
        exact ih (Nat.le_of_succ_le granted_le)
      | false => exact pure hereafter
  exact all rounds (Nat.le_refl rounds)

theorem within {site : Site} {run : Run σ Unit} {post : Unit → Address → Prop}
    (carries : ∀ scope : S.Scope, site ∈ scope.running →
      (∀ name ∈ [Register.position, .length], ∀ slot, S.memory.keeps site name slot →
        ∀ entry ∈ scope.kept, entry.1 ≠ slot) →
      S.Carries scope [] (fun _ => []) rounds least returns start run post) :
    S.Simulates rounds least returns start (within site run) post := by
  intro scope w a agrees stands calm
  simp only [Reference.within, Bool.or_eq_false_iff] at calm ⊢
  have first : site ∉ scope.running := by
    intro known
    have entered := calm.1
    rw [List.contains_iff_mem.mpr known] at entered
    cases entered
  refine (carries (scope.enter site) (List.mem_cons_self ..) ?_ w a
    ⟨agrees.host, agrees.externs, agrees.heap, agrees.held⟩ stands calm.2).less
    (fun _ => List.Subset.refl _) (List.Subset.refl _)
  rintro name - slot keeps entry listed rfl
  obtain ⟨other, known, also, -, kept⟩ := scope.owned entry listed
  obtain ⟨rfl, -⟩ := S.memory.single keeps kept
  exact first known

end Simulates

/-! ## Single steps -/

theorem move_eq {op : Op} {rest : List Op} {instruction : Instruction} {a : Activity σ}
    (standing : Standing S.ops start (op :: rest))
    (becomes : instruction? (addressOf S.ops) op = some instruction) (stands : a.At start returns) :
    move S.program S.host a =
      let result := Activity.perform S.program S.host
        { a with
          address := start + 1
          returns := returns
          report := { a.report with steps := a.report.steps + 1 } } instruction
      .performed result.1 result.2 := by
  have hget := standing.getElem? becomes
  rw [← S.instructions] at hget
  have inside := (List.getElem?_eq_some_iff.mp hget).1
  have running : start ≠ haltAddress := Nat.ne_of_lt (Nat.lt_of_lt_of_le inside S.room)
  have hresumed : resumed start returns = some (start, returns) := by
    cases returns <;> rw [resumed, if_neg running]
  rw [move, stands, hresumed]
  simp only [hget]

/-- A slot that is left to a node and held for no loop. -/
structure Spare (S : Setting σ) (scope : S.Scope) (slot : Slot) : Prop where
  keeps : ∃ site name, S.memory.keeps site name slot
  free : ∀ entry ∈ scope.kept, entry.1 ≠ slot

theorem Spare.of_answer {site : Site} {name : Register} {slot : Slot}
    (keeps : S.memory.keeps site name slot) (other : name ∉ [Register.position, .length]) :
    S.Spare scope slot := by
  refine ⟨⟨site, name, keeps⟩, ?_⟩
  rintro entry listed rfl
  obtain ⟨_, -, also, known, kept⟩ := scope.owned entry listed
  obtain ⟨-, rfl⟩ := S.memory.single keeps kept
  exact other known

theorem Scope.apart {entry : Slot × Value} (listed : entry ∈ scope.kept) (place : Place) :
    ¬S.memory.stands place entry.1 := by
  obtain ⟨_, -, _, -, keeps⟩ := scope.owned entry listed
  exact S.memory.apart keeps

def Shows (S : Setting σ) (scope : S.Scope) (given : List (Slot × Value)) (place : Place)
    (slot : Slot) : Prop :=
  ∀ w a, S.Agrees scope given w a → a.heap[slot]? = some (w.get place)

theorem Shows.of_stands {place : Place} {slot : Slot} (stands : S.memory.stands place slot) :
    S.Shows scope given place slot :=
  fun _ _ agrees => agrees.heap.places place slot stands

theorem Shows.of_held {value : Value} {slot : Slot} (held : (slot, value) ∈ given ++ scope.kept) :
    S.Shows scope given (.literal value) slot :=
  fun _ _ agrees => agrees.held _ held

theorem Agrees.hold {w : World σ} {a b : Activity σ} {slot : Slot}
    (agrees : S.Agrees scope given w a) (spare : S.Spare scope slot)
    (apart : ∀ entry ∈ given, entry.1 ≠ slot) {value : Value}
    (heap : b.heap = a.heap.setIfInBounds slot value) {v : World σ} (cells : v.cells = w.cells)
    (host : S.alike v.host b.host) (externs : b.report.externs = v.externs) :
    S.Agrees scope ((slot, value) :: given) v b := by
  obtain ⟨site, name, keeps⟩ := spare.keeps
  refine ⟨host, externs, ?_, ?_⟩
  · obtain ⟨_, state, count⟩ := v
    obtain rfl := cells
    exact heap ▸ (agrees.heap.keep keeps value).called state count
  · rw [heap, List.cons_append, List.forall_mem_cons]
    refine ⟨Array.getElem?_setIfInBounds_self_of_lt (agrees.heap.room _ _ _ keeps), ?_⟩
    intro entry listed
    have other : slot ≠ entry.1 := fun same =>
      (List.mem_append.mp listed).elim (apart entry) (spare.free entry) same.symm
    rw [Array.getElem?_setIfInBounds_ne other]
    exact agrees.held entry listed

theorem jump_carries {target : Target} {rest : List Op}
    (standing : Standing S.ops start (.jump target :: rest))
    (carries : S.Carries scope given ends rounds 0 returns (addressOf S.ops target) run post) :
    S.Carries scope given ends rounds 0 returns start run post := by
  intro w a agrees stands calm
  have moves := move_eq standing rfl stands
  refine Reaches.weaken (Reaches.after_steps (.single moves) (carries w _ ?_ rfl calm))
    (Nat.le_add_left rounds 1) (Nat.zero_le _) fun _ _ => id
  exact ⟨agrees.host, agrees.externs, agrees.heap, agrees.held⟩

theorem jump_simulates {target : Target} {rest : List Op}
    (standing : Standing S.ops start (.jump target :: rest))
    (simulates : S.Simulates rounds 0 returns (addressOf S.ops target) run post) :
    S.Simulates rounds 0 returns start run post :=
  fun scope => jump_carries standing (simulates scope)

theorem copy_simulates {source destination : Place} {slot target : Nat} {rest : List Op}
    (standing : Standing S.ops start (.copy slot target :: rest))
    (hsource : S.memory.stands source slot) (hdestination : S.memory.stands destination target)
    (writable : destination.isWritable) :
    S.Simulates rounds 1 returns start (copy source destination : Run σ Unit)
      (fun _ address => address = start + 1) := by
  intro scope w a agrees stands _
  have moves := move_eq standing rfl stands
  have inside := (Array.getElem?_eq_some_iff.mp (agrees.heap.places _ _ hdestination)).1
  simp only [Activity.perform, agrees.heap.places _ _ hsource, if_pos inside] at moves
  refine ⟨1, _, start + 1, Nat.le_refl 1, .single moves, ⟨?_, ?_, ?_, ?_⟩, rfl, rfl⟩
  · rw [World.set_host]
    exact agrees.host
  · rw [World.set_externs]
    exact agrees.externs
  · exact agrees.heap.set hdestination writable _
  · intro entry listed
    have other : target ≠ entry.1 := by
      rintro rfl
      exact scope.apart listed destination hdestination
    rw [Array.getElem?_setIfInBounds_ne other]
    exact agrees.held entry listed

theorem seed_carries {value : Value} {slot target : Nat} {rest : List Op}
    (standing : Standing S.ops start (.copy slot target :: rest))
    (hvalue : S.memory.stands (.literal value) slot) (spare : S.Spare scope target)
    (carries : S.Carries scope [(target, value)] ends rounds 0 returns (start + 1) run post) :
    S.Carries scope [] ends rounds 0 returns start run post := by
  intro w a agrees stands calm
  have moves := move_eq standing rfl stands
  obtain ⟨site, name, keeps⟩ := spare.keeps
  have inside := agrees.heap.room _ _ _ keeps
  have shown : a.heap[slot]? = some value := agrees.heap.places _ _ hvalue
  simp only [Activity.perform, shown, if_pos inside] at moves
  refine Reaches.weaken (Reaches.after_steps (.single moves) (carries w _ ?_ rfl calm))
    (Nat.le_add_left rounds 1) (Nat.zero_le _) fun _ _ => id
  exact agrees.hold spare (fun _ listed => by cases listed) rfl rfl agrees.host agrees.externs

theorem test_carries {condition : Place} {slot : Nat} {otherwise : Target} {rest : List Op}
    (standing : Standing S.ops start (.jumpUnless slot otherwise :: rest))
    (shows : S.Shows scope given condition slot) :
    S.Carries scope given (fun _ => []) rounds 1 returns start (test condition : Run σ Bool)
      (fun holds address => address = if holds then start + 1 else addressOf S.ops otherwise) := by
  intro w a agrees stands _
  have moves := move_eq standing rfl stands
  simp only [Activity.perform, shows w a agrees] at moves
  have agrees : S.Agrees scope [] w a := agrees.less (List.subset_append_right given scope.kept)
  simp only [test, Run.act]
  cases hvalue : w.get condition
  case bool holds =>
    simp only [hvalue] at moves
    cases holds <;>
      exact ⟨1, _, _, Nat.le_refl 1, .single moves,
        ⟨agrees.host, agrees.externs, agrees.heap, agrees.held⟩, rfl, rfl⟩
  all_goals
    simp only [hvalue] at moves
    exact ⟨0, a, _, .refl a, moves, agrees.host, agrees.externs, agrees.heap, agrees.held⟩

theorem test_simulates {condition : Place} {slot : Nat} {otherwise : Target} {rest : List Op}
    (standing : Standing S.ops start (.jumpUnless slot otherwise :: rest))
    (hcondition : S.memory.stands condition slot) :
    S.Simulates rounds 1 returns start (test condition : Run σ Bool)
      (fun holds address => address = if holds then start + 1 else addressOf S.ops otherwise) :=
  fun _ => test_carries standing (Shows.of_stands hcondition)

end Setting

end Reference

end ScriptGraph
