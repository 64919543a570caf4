import Vibe.Proofs.Machine.Logs
import Vibe.Proofs.Machine.Rooting

/-! What sessions remember. Whatever programs are run on a machine, and however their runs end, all
scopes go on leading to the root scope, and no scope, skill or name is lost. -/

namespace Vibe

variable {m m' m'' : Machine} {seen later : List Moment}

/-- Between one machine and another nothing is taken from the store, at no moment of those that are
seen. -/
structure Machine.Through (m m' : Machine) (seen : List Moment) : Prop where
  whole : m.store.Keeps m'.store
  before : ∀ mo ∈ seen, m.store.Keeps mo.machine.store
  after : ∀ mo ∈ seen, mo.machine.store.Keeps m'.store
  between : seen.Pairwise fun mo next => mo.machine.store.Keeps next.machine.store

namespace Machine

/-- The states that are passed through: the first, those at the moments that are seen, and the
last. -/
def states (m : Machine) (seen : List Moment) (m' : Machine) : List Machine :=
  m :: (seen.map Moment.machine ++ [m'])

namespace Through

theorem refl (m : Machine) : m.Through m [] :=
  ⟨.refl _, fun _ hmo => (List.not_mem_nil hmo).elim,
    fun _ hmo => (List.not_mem_nil hmo).elim, .nil⟩

theorem trans (h : m.Through m' seen) (h' : m'.Through m'' later) :
    m.Through m'' (seen ++ later) where
  whole := h.whole.trans h'.whole
  before := List.forall_mem_append.2 ⟨h.before, fun mo hmo => h.whole.trans (h'.before mo hmo)⟩
  after := List.forall_mem_append.2 ⟨fun mo hmo => (h.after mo hmo).trans h'.whole, h'.after⟩
  between := by
    refine List.pairwise_append.2 ⟨h.between, h'.between, fun mo hmo next hnext => ?_⟩
    exact (h.after mo hmo).trans (h'.before next hnext)

/-- Each state is followed only by such as have all that it has. -/
theorem pairwise_states (h : m.Through m' seen) :
    (m.states seen m').Pairwise fun s next => s.store.Keeps next.store := by
  refine List.pairwise_cons.2 ⟨fun s hs => ?_, List.pairwise_append.2 ⟨?_, ?_, ?_⟩⟩
  · rcases List.mem_append.1 hs with hseen | hlast
    · obtain ⟨mo, hmo, rfl⟩ := List.mem_map.1 hseen
      exact h.before mo hmo
    · obtain rfl := List.mem_singleton.1 hlast
      exact h.whole
  · exact List.pairwise_map.2 h.between
  · exact List.pairwise_singleton _ _
  · intro s hs next hnext
    obtain ⟨mo, hmo, rfl⟩ := List.mem_map.1 hs
    obtain rfl := List.mem_singleton.1 hnext
    exact h.after mo hmo

end Through

theorem recorded_through : Recorded Through where
  refl := .refl
  trans h h' := h.trans h'
  instr i calls m := by
    have hkeeps : m.store.Keeps (i.run m).machine.store := by
      rw [i.machine_run]
      exact i.keeps_after m
    refine ⟨hkeeps, fun mo hmo => ?_, fun mo hmo => ?_, List.pairwise_singleton _ _⟩
    · obtain rfl := List.mem_singleton.1 hmo
      exact .refl _
    · obtain rfl := List.mem_singleton.1 hmo
      exact hkeeps
  scope h := ⟨h.whole, h.before, h.after, h.between⟩
  depth h := ⟨h.whole, h.before, h.after, h.between⟩

theorem through_run (p : Program) (m : Machine) :
    m.Through (run p m).machine (watch p m).2 := by
  have hrun := recorded_through.watch p m
  rw [watch_fst] at hrun
  exact ⟨hrun.whole, hrun.before, hrun.after, hrun.between⟩

theorem Plays.through (h : m.Plays seen m') : m.Through m' seen := by
  induction h with
  | start => exact .refl m
  | run p _ ih => exact ih.trans (through_run p _)
  | interpret p _ ih =>
    have hrun := through_run p
    rw [machine_interpret]
    exact ih.trans ⟨(hrun _).whole, (hrun _).before, (hrun _).after, (hrun _).between⟩

/-! ### Roots -/

theorem Rooted.reset (h : m.store.Rooted) : m.reset.Rooted :=
  ⟨h, h.root⟩

theorem rooted_start (limits : Limits) (console : Console) (dice : Dice) :
    (start limits console dice).Rooted :=
  ⟨Store.rooted_initial dice, (Store.rooted_initial dice).root⟩

/-- A run of any program keeps the machine rooted. -/
theorem Rooted.run (h : m.store.Rooted) (p : Program) :
    (Machine.run p m).machine.Rooted ∧ ∀ mo ∈ (watch p m).2, mo.machine.Rooted := by
  have hgrounded : (Interpreter.runAll (Interpreter.exec m.limits.fuel) p :
      Watched Unit).Grounded m.store .nothing := .runAll m.limits.fuel p
  have hreset : m.reset.Rooted := .reset h
  refine ⟨?_, hgrounded.seen [] m.reset hreset (.refl _)⟩
  rw [← watch_fst]
  exact (hgrounded.outcome [] m.reset hreset (.refl _)).machine hreset

theorem Rooted.interpret (h : m.store.Rooted) (p : Program) : (m.interpret p).2.Rooted := by
  have hrun := (Rooted.run h p).1
  rw [machine_interpret]
  exact ⟨hrun.store, hrun.scope⟩

theorem Plays.rooted (h : m.Plays seen m') (hm : m.Rooted) :
    m'.Rooted ∧ ∀ mo ∈ seen, mo.machine.Rooted := by
  induction h with
  | start => exact ⟨hm, fun _ hmo => (List.not_mem_nil hmo).elim⟩
  | run p _ ih =>
    obtain ⟨hlast, hseen⟩ := ih
    obtain ⟨hnext, hlater⟩ := Rooted.run hlast.store p
    exact ⟨hnext, List.forall_mem_append.2 ⟨hseen, hlater⟩⟩
  | interpret p _ ih =>
    obtain ⟨hlast, hseen⟩ := ih
    have hlater := (Rooted.run hlast.store p).2
    exact ⟨.interpret hlast.store p, List.forall_mem_append.2 ⟨hseen, hlater⟩⟩

theorem Plays.rooted_states (h : m.Plays seen m') (hm : m.Rooted) :
    ∀ s ∈ m.states seen m', s.Rooted := by
  obtain ⟨hlast, hseen⟩ := h.rooted hm
  intro s hs
  rcases List.mem_cons.1 hs with rfl | hs
  · exact hm
  · rcases List.mem_append.1 hs with hs | hs
    · obtain ⟨mo, hmo, rfl⟩ := List.mem_map.1 hs
      exact hseen mo hmo
    · obtain rfl := List.mem_singleton.1 hs
      exact hlast

/-- In all states of a session the built-in skills are bound in the root scope. -/
theorem Plays.builtins {limits : Limits} {console : Console} {dice : Dice}
    (h : (Machine.start limits console dice).Plays seen m) (b : Builtin) :
    (m.store.binding? b.name root).isSome = true :=
  h.through.whole.names b.name root (Store.binding_initial dice b)

/-- In every state of a session the current scope, the homes of all skills and whatever scope can be
reached from one that there is lead to the root scope, which is in no other, and all built-in skills
can be seen from there. The skills that can be reached are there. In later states every scope is in
the same one as before, every skill is still there, every scope binds the names that it bound, and
every name that meant something in a scope still does. -/
theorem scopes_remembered {limits : Limits} {console : Console} {dice : Dice}
    (h : (start limits console dice).Plays seen m) (h' : m.Plays later m') :
    (∀ s ∈ m.states later m',
      s.store.parent? root = none ∧
      s.scope < s.store.scopes.size ∧
      (∀ (id : Nat) (skill : Skill), s.store.skills[id]? = some skill →
        skill.home < s.store.scopes.size) ∧
      (∀ first id, s.store.ReachesValue first (.skill id) → id < s.store.skills.size) ∧
      ∀ first id, first < s.store.scopes.size → s.store.ReachesScope first id →
        s.store.LeadsHome id ∧ ∀ b : Builtin, s.store.contains b.name id = true) ∧
    (m.states later m').Pairwise fun s next =>
      (∀ id < s.store.scopes.size, next.store.parent? id = s.store.parent? id) ∧
      (∀ (id : Nat) (skill : Skill), s.store.skills[id]? = some skill →
        next.store.skills[id]? = some skill) ∧
      (∀ name id, (s.store.binding? name id).isSome = true →
        (next.store.binding? name id).isSome = true) ∧
      ∀ name id, s.store.contains name id = true → next.store.contains name id = true := by
  have hthrough := h'.through.pairwise_states
  constructor
  · have hfirst := (h.rooted (rooted_start limits console dice)).1
    -- What the first of these states has, all of them have.
    have hkept : ∀ s ∈ m.states later m', m.store.Keeps s.store := by
      intro s hs
      rcases List.mem_cons.1 hs with rfl | hs
      · exact .refl _
      · exact (List.pairwise_cons.1 hthrough).1 s hs
    intro s hs
    have hrooted := h'.rooted_states hfirst s hs
    have hstore := hrooted.store
    refine ⟨hstore.top, hrooted.scope, fun _ _ => hstore.skills,
      fun _ _ => hstore.value_of_reaches, ?_⟩
    intro first id hfirst' hreaches
    have hid := hstore.lt_of_reaches hfirst' hreaches
    refine ⟨hstore.leadsHome hid, fun b => hstore.contains_of_root hid ?_⟩
    exact (hkept s hs).names b.name root (h.builtins b)
  · refine hthrough.imp fun hkeeps => ?_
    exact ⟨hkeeps.parents, hkeeps.skills, hkeeps.names, fun _ _ => hkeeps.contains⟩

/-- `skill make() { hold kept = bet  skill inner() { }  give inner }` and then
`hold f = make()`. -/
def making : Program :=
  [.skill "make" []
      [.bind .hold "kept" (.literal (.bool true) .nowhere) .nowhere,
        .skill "inner" [] [] .nowhere,
        .give (some (.ident "inner" .nowhere)) .nowhere] .nowhere,
    .bind .hold "f" (.call (.ident "make" .nowhere) [] .nowhere) .nowhere]

/-- The machine after a run of it. -/
def made : Machine :=
  ((start {} {} 0).interpret making).2

/-- The name bound in the call can be seen from the home of the skill that came of it, also when
another run has failed. -/
theorem scopes_remembered_making : ∃ seen later,
    (start {} {} 0).Plays seen made ∧
    made.Plays later (made.interpret [.expr (.ident "kept" .nowhere)]).2 ∧
    (made.interpret [.expr (.ident "kept" .nowhere)]).1.length = 1 ∧
    made.store.ReachesScope root 1 ∧
    made.store.LeadsHome 1 ∧ made.store.contains "push" 1 = true ∧
    (made.interpret [.expr (.ident "kept" .nowhere)]).2.store.contains "kept" 1 = true := by
  let failing : Program := [.expr (.ident "kept" .nowhere)]
  have hplays : (start {} {} 0).Plays ([] ++ (watch making (start {} {} 0)).2) made :=
    Plays.start.interpret making
  have hplays' : made.Plays ([] ++ (watch failing made).2) (made.interpret failing).2 :=
    Plays.start.interpret failing
  obtain ⟨hstates, hpairs⟩ := scopes_remembered hplays hplays'
  obtain ⟨-, -, -, -, hleads⟩ := hstates made List.mem_cons_self
  have hsize : made.store.scopes.size = 2 := by decide +kernel
  -- The skill is bound in the root scope, and the scope of the call is its home.
  have hskill : (made.store.binding? "f" root).map Binding.value = some (.skill 1) := by
    decide +kernel
  have hhome : made.store.skills[1]?.map Skill.home = some 1 := by decide +kernel
  have hreaches : made.store.ReachesScope root 1 := by
    obtain ⟨b, hb, hvalue⟩ := Option.map_eq_some_iff.1 hskill
    obtain ⟨r, hr, hfind⟩ := Option.bind_eq_some_iff.1 hb
    have hreached := Store.ReachesValue.binding .start hr (List.mem_of_find?_eq_some hfind)
    rw [hvalue] at hreached
    obtain ⟨skill, hs, hhome⟩ := Option.map_eq_some_iff.1 hhome
    rw [← hhome]
    exact .home hreached hs
  obtain ⟨hhome, hbuiltins⟩ := hleads root 1 (by rw [hsize]; decide) hreaches
  have hbound : (made.store.binding? "kept" 1).isSome = true := by decide +kernel
  have hkept : made.store.contains "kept" 1 = true :=
    Store.contains_iff.2 ⟨1, Store.mem_chain_self (by rw [hsize]; decide), hbound⟩
  have hlast : (made.interpret failing).2 ∈
      (watch failing made).2.map Moment.machine ++ [(made.interpret failing).2] :=
    List.mem_append_right _ (List.mem_singleton.2 rfl)
  obtain ⟨-, -, -, hresolves⟩ := (List.pairwise_cons.1 hpairs).1 _ hlast
  exact ⟨_, _, hplays, hplays', by decide +kernel, hreaches, hhome, hbuiltins .push,
    hresolves "kept" 1 hkept⟩

end Machine
end Vibe
