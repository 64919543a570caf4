import Vibe.Proofs.Machine.Transparency

/-! Runs that use up their operations. The first operation too many fails, and so does every later
one. Therefore a handler in which there is something to execute fails for the same reason again,
and the failure gets out of the whole run. A handler in which there is nothing ends it. -/

namespace Vibe

/-- Whether a statement is a `try` whose handler is empty. -/
def Stmt.isMute : Stmt → Bool
  | attempt _ _ [] _ => true
  | _ => false

/-- Whether every `try` in a statement has something to execute in its handler. -/
def Stmt.heedful (s : Stmt) : Bool :=
  s.every (fun _ s => !s.isMute) .top

namespace Rules

/-- Every handler has something to execute, and there is nothing but what can be reached or is still
to be made. -/
abbrev heedful (st : Store) (start : Nat) : Rules :=
  reaching (fun s => !s.isMute) st start

theorem exists_cons_of_heedful {st : Store} {start : Nat} {c : Place} {body handler : List Stmt}
    {errorName : Option String} {span : Span}
    (h : (heedful st start).fits c (.attempt body errorName handler span)) :
    ∃ s ss, handler = s :: ss := by
  have hmute := (Stmt.every_iff.1 h).1
  cases handler with
  | nil => cases hmute
  | cons s ss => exact ⟨s, ss, rfl⟩

end Rules

/-- More operations have been counted than are allowed. -/
def Machine.Exhausted (m : Machine) : Prop :=
  m.limits.maxOperations < m.operations

instance (m : Machine) : Decidable m.Exhausted :=
  inferInstanceAs (Decidable (_ < _))

theorem Machine.Spends.exhausted {m m' : Machine} (h : m.Spends m') (hm : m.Exhausted) :
    m'.Exhausted := by
  have hoperations := h.operations
  rw [Exhausted, h.limits]
  exact Nat.lt_of_lt_of_le hm hoperations

/-- A part of a run has used up the operations and comes to no result. If it fails, then for this
reason. -/
structure Outcome.Starved {α : Type} (o : Outcome α) : Prop where
  exhausted : o.machine.Exhausted
  not_done : ∀ a m, o ≠ .done a m
  cause : ∀ f m, o = .failed f m → f.cause = .possibleInfiniteLoop

namespace Outcome.Starved

variable {α : Type} {m : Machine}

theorem failed {f : Fault} (hm : m.Exhausted) (hf : f.cause = .possibleInfiniteLoop) :
    (Outcome.failed f m : Outcome α).Starved where
  exhausted := hm
  not_done := nofun
  cause _ _ h := by
    cases h
    exact hf

theorem unfinished (hm : m.Exhausted) : (Outcome.unfinished m : Outcome α).Starved :=
  ⟨hm, nofun, nofun⟩

/-- What is changed of the machine that is left has nothing to do with operations. -/
theorem mapMachine {o : Outcome α} (h : o.Starved) {change : Machine → Machine}
    (hchange : o.machine.Exhausted → (change o.machine).Exhausted) :
    (o.mapMachine change).Starved := by
  cases o with
  | done a m => exact (h.not_done a m rfl).elim
  | failed f m => exact .failed (hchange h.exhausted) (h.cause f m rfl)
  | unfinished m => exact .unfinished (hchange h.exhausted)

end Outcome.Starved

namespace Instr

variable {α : Type} {m : Machine}

/-- An operation that is one too many fails. -/
theorem starved_tick (h : m.Hurried) (span : Span)
    (hm : m.limits.maxOperations ≤ m.operations) : ((tick span).run m).Starved := by
  have hused : ¬ m.operations + 1 ≤ m.limits.maxOperations := by omega
  have hfails : (tick span).run m = .failed ⟨.possibleInfiniteLoop, span⟩
      { m with operations := m.operations + 1, looks := m.looks + 1 } := by
    simp [run, Run.tick, h.now, hused]
  rw [hfails]
  exact .failed (by simp only [Machine.Exhausted]; omega) rfl

/-- Only an operation that is counted can use them up. -/
theorem starved_run (h : m.Hurried) (i : Instr α) (hm : ¬ m.Exhausted)
    (hi : (i.run m).machine.Exhausted) : (i.run m).Starved := by
  rw [Machine.Exhausted, (i.spends_run h).limits, i.operations_run h] at hi
  rw [Machine.Exhausted] at hm
  cases i with
  | tick span =>
    refine starved_tick h span ?_
    simp only [isTick, Bool.toNat_true] at hi
    omega
  | _ => exact (hm hi).elim

end Instr

namespace Watched

variable {α β : Type} {p : Watched α}

/-- When operations run out in a part of a run that is begun on a lawful machine, it comes to no
result and fails for this reason only. -/
structure Surfaces (R : Rules) (p : Watched α) : Prop where
  spends : ∀ calls (m : Machine), m.Lawful R → m.Hurried →
    m.Spends (p calls m).1.machine
  seen : ∀ calls (m : Machine), m.Lawful R → m.Hurried → ∀ mo ∈ (p calls m).2,
    mo.outcome.machine.Spends (p calls m).1.machine
  starved : ∀ calls (m : Machine), m.Lawful R → m.Hurried → ¬ m.Exhausted →
    (p calls m).1.machine.Exhausted → (p calls m).1.Starved

/-- Without operations the part of a run does not come to a result. -/
def Starves (p : Watched α) : Prop :=
  ∀ calls (m : Machine), m.Hurried → m.Exhausted → (p calls m).1.Starved

namespace Starves

theorem bind_left (h : p.Starves) (f : α → Watched β) : (p >>= f).Starves := by
  intro calls m hm hused
  have hp := h calls m hm hused
  rw [fst_bind]
  cases hout : (p calls m).1 with
  | done a m' => exact (hp.not_done a m' hout).elim
  | failed e m' =>
    rw [hout] at hp
    exact .failed hp.exhausted (hp.cause e m' rfl)
  | unfinished m' =>
    rw [hout] at hp
    exact .unfinished hp.exhausted

/-- What is done before at once needs no operations. -/
theorem bind_act {i : Instr α} (hi : ∀ m, ∃ a, i.run m = .done a (i.run m).machine)
    {f : α → Watched β} (hf : ∀ a, (f a).Starves) : (Watched.act i >>= f).Starves := by
  intro calls m hm hused
  have hspends := i.spends_run hm
  obtain ⟨a, hdone⟩ := hi m
  rw [fst_bind, Watched.act, hdone]
  exact hf a calls _ (hspends.hurried hm) (hspends.exhausted hused)

theorem inScope (scope : Nat) (h : p.Starves) : (Watched.inScope scope p).Starves := by
  intro calls m hm hused
  exact (h calls { m with scope } hm hused).mapMachine id

theorem exec (n : Nat) (s : Stmt) : (Interpreter.exec n s : Watched Flow).Starves := by
  intro calls m hm hused
  cases n with
  | zero => exact .unfinished hused
  | succ n =>
    have htick : (Watched.act (.tick s.span)).Starves :=
      fun _ m hm hused => Instr.starved_tick hm s.span (Nat.le_of_lt hused)
    exact htick.bind_left _ calls m hm hused

/-- A handler begins with an operation if there is something in it. -/
theorem handle (n : Nat) (errorName : Option String) (s : Stmt) (ss : List Stmt) (f : Fault) :
    (Interpreter.handle (Interpreter.exec n) errorName (s :: ss) f : Watched Flow).Starves := by
  have hall : (Interpreter.execAll (Interpreter.exec n) (s :: ss) : Watched Flow).Starves :=
    (exec n s).bind_left _
  refine bind_act (i := .newScope none) (fun m => ⟨_, rfl⟩) fun scope => inScope scope ?_
  cases errorName with
  | none => exact hall
  | some name =>
    exact bind_act (i := .define name (.string f.cause.message) .hold none) (fun m => ⟨(), rfl⟩)
      fun _ => hall

end Starves

namespace Surfaces

variable {R : Rules} {Q : α → Prop}

theorem pure (a : α) : Surfaces R (Pure.pure a : Watched α) where
  spends _ m _ _ := .refl m
  seen _ _ _ _ _ hmo := by cases hmo
  starved _ _ _ _ hleft hused := (hleft hused).elim

theorem act (i : Instr α) : Surfaces R (Watched.act i) where
  spends _ _ _ hhurried := i.spends_run hhurried
  seen calls m _ _ mo hmo := by
    obtain rfl := List.mem_singleton.1 hmo
    exact .refl _
  starved _ _ _ hhurried hleft hused := i.starved_run hhurried hleft hused

theorem halt : Surfaces R (Interpreter.halt : Watched α) where
  spends _ m _ _ := .refl m
  seen calls m _ _ mo hmo := by
    obtain rfl := List.mem_singleton.1 hmo
    exact .refl _
  starved _ _ _ _ hleft hused := (hleft hused).elim

/-- What comes after a part of a run counts further up. -/
theorem spends_bind {f : α → Watched β} {calls : List Span} {m : Machine}
    (hobeys : p.Obeys R Q) (h : p.Surfaces R) (hf : ∀ a, Q a → (f a).Surfaces R)
    (hm : m.Lawful R) (hhurried : m.Hurried) :
    (p calls m).1.machine.Spends ((p >>= f) calls m).1.machine := by
  have hlawful := hobeys.outcome calls m hm
  have hspends := h.spends calls m hm hhurried
  rw [fst_bind]
  cases hp : (p calls m).1 with
  | done a m' =>
    rw [hp] at hlawful hspends
    exact (hf a (hlawful.result a m' rfl)).spends calls m' hlawful.machine
      (hspends.hurried hhurried)
  | failed e m' | unfinished m' => exact .refl m'

theorem bind {f : α → Watched β} (hobeys : p.Obeys R Q) (h : p.Surfaces R)
    (hf : ∀ a, Q a → (f a).Surfaces R) : (p >>= f).Surfaces R where
  spends calls m hm hhurried :=
    (h.spends calls m hm hhurried).trans (spends_bind hobeys h hf hm hhurried)
  seen calls m hm hhurried mo hmo := by
    rcases mem_bind.1 hmo with hseen | ⟨a, m', hp, hlater⟩
    · exact (h.seen calls m hm hhurried mo hseen).trans (spends_bind hobeys h hf hm hhurried)
    · have hlawful := hobeys.outcome calls m hm
      have hspends := h.spends calls m hm hhurried
      rw [fst_bind, hp]
      rw [hp] at hlawful hspends
      exact (hf a (hlawful.result a m' rfl)).seen calls m' hlawful.machine
        (hspends.hurried hhurried) mo hlater
  starved calls m hm hhurried hleft hused := by
    have hlawful := hobeys.outcome calls m hm
    have hspends := h.spends calls m hm hhurried
    have hstarved := h.starved calls m hm hhurried hleft
    rw [fst_bind] at hused ⊢
    cases hp : (p calls m).1 with
    | done a m' =>
      rw [hp] at hlawful hspends hstarved hused
      -- A result means that operations were left.
      have hleft' : ¬ m'.Exhausted := fun hm' => (hstarved hm').not_done a m' rfl
      exact (hf a (hlawful.result a m' rfl)).starved calls m' hlawful.machine
        (hspends.hurried hhurried) hleft' hused
    | failed e m' =>
      rw [hp] at hstarved hused
      exact .failed hused ((hstarved hused).cause e m' rfl)
    | unfinished m' =>
      rw [hp] at hused
      exact .unfinished hused

/-- What is done about a failure counts further up. -/
theorem spends_orElse {f : Fault → Watched α} {calls : List Span} {m : Machine}
    (hobeys : p.Obeys R Q) (h : p.Surfaces R) (hf : ∀ e, (f e).Surfaces R) (hm : m.Lawful R)
    (hhurried : m.Hurried) :
    (p calls m).1.machine.Spends (Watched.orElse p f calls m).1.machine := by
  have hlawful := hobeys.outcome calls m hm
  have hspends := h.spends calls m hm hhurried
  rw [fst_orElse]
  cases hp : (p calls m).1 with
  | failed e m' =>
    rw [hp] at hlawful hspends
    exact (hf e).spends calls m' hlawful.machine (hspends.hurried hhurried)
  | done a m' | unfinished m' => exact .refl m'

/-- What is done about a failure must not come to a result without operations. -/
theorem orElse {f : Fault → Watched α} (hobeys : p.Obeys R Q) (h : p.Surfaces R)
    (hf : ∀ e, (f e).Surfaces R) (hstarves : ∀ e, (f e).Starves) :
    (Watched.orElse p f).Surfaces R where
  spends calls m hm hhurried :=
    (h.spends calls m hm hhurried).trans (spends_orElse hobeys h hf hm hhurried)
  seen calls m hm hhurried mo hmo := by
    rcases mem_orElse.1 hmo with hseen | ⟨e, m', hp, hlater⟩
    · exact (h.seen calls m hm hhurried mo hseen).trans (spends_orElse hobeys h hf hm hhurried)
    · have hlawful := hobeys.outcome calls m hm
      have hspends := h.spends calls m hm hhurried
      rw [fst_orElse, hp]
      rw [hp] at hlawful hspends
      exact (hf e).seen calls m' hlawful.machine (hspends.hurried hhurried) mo hlater
  starved calls m hm hhurried hleft hused := by
    have hlawful := hobeys.outcome calls m hm
    have hspends := h.spends calls m hm hhurried
    have hstarved := h.starved calls m hm hhurried hleft
    rw [fst_orElse] at hused ⊢
    cases hp : (p calls m).1 with
    | failed e m' =>
      rw [hp] at hlawful hspends hused
      have hhurried' := hspends.hurried hhurried
      by_cases hspent : m'.Exhausted
      · exact hstarves e calls m' hhurried' hspent
      · exact (hf e).starved calls m' hlawful.machine hhurried' hspent hused
    | done a m' | unfinished m' =>
      rw [hp] at hstarved hused
      exact hstarved hused

theorem inScope {scope : Nat} (hscope : R.home scope) (h : p.Surfaces R) :
    (Watched.inScope scope p).Surfaces R where
  spends calls m hm hhurried := by
    have hspends := h.spends calls { m with scope } ⟨hm.store, hscope⟩ hhurried
    rw [Watched.inScope, Outcome.machine_mapMachine]
    exact hspends.elsewhere
  seen calls m hm hhurried mo hmo := by
    have hspends := h.seen calls { m with scope } ⟨hm.store, hscope⟩ hhurried mo hmo
    rw [Watched.inScope, Outcome.machine_mapMachine]
    exact hspends.elsewhere
  starved calls m hm hhurried hleft hused := by
    rw [Watched.inScope, Outcome.machine_mapMachine] at hused
    exact (h.starved calls { m with scope } ⟨hm.store, hscope⟩ hhurried hleft hused).mapMachine id

theorem deeper (span : Span) (h : p.Surfaces R) : (Watched.deeper span p).Surfaces R where
  spends calls m hm hhurried := by
    have hspends := h.spends (span :: calls) { m with depth := m.depth + 1 }
      ⟨hm.store, hm.scope⟩ hhurried
    rw [Watched.deeper, Outcome.machine_mapMachine]
    exact hspends.elsewhere
  seen calls m hm hhurried mo hmo := by
    have hspends := h.seen (span :: calls) { m with depth := m.depth + 1 }
      ⟨hm.store, hm.scope⟩ hhurried mo hmo
    rw [Watched.deeper, Outcome.machine_mapMachine]
    exact hspends.elsewhere
  starved calls m hm hhurried hleft hused := by
    rw [Watched.deeper, Outcome.machine_mapMachine] at hused
    exact (h.starved (span :: calls) { m with depth := m.depth + 1 } ⟨hm.store, hm.scope⟩ hhurried
      hleft hused).mapMachine id

end Surfaces
end Watched

/-- Programs that obey rules, where operations run out. -/
def surfacing (R : Rules) : Unison R Watched Watched where
  Rel _ k p _ := p.Obeys R (R.Meets k) ∧ p.Surfaces R
  own := R.home
  anywhere h := h
  pure ha := ⟨.pure ha, .pure _⟩
  bind h hf := ⟨h.1.bind fun a ha => (hf a ha).1, .bind h.1 h.2 fun a ha => (hf a ha).2⟩
  act {_ _ i} _ hi := ⟨.act hi, .act i⟩
  withScope home hhome hf :=
    have hobeys := Watched.Obeys.act (i := .newScope home) hhome
    ⟨hobeys.bind fun scope hscope => (hf scope hscope).1,
      .bind hobeys (.act _) fun scope hscope => (hf scope hscope).2⟩
  inScope hscope h := ⟨h.1.inScope hscope, h.2.inScope hscope⟩
  asCall span h :=
    have hobeys := Watched.Obeys.act (R := R) (i := .enter span) trivial
    ⟨hobeys.bind fun _ _ => h.1.deeper span, .bind hobeys (.act _) fun _ _ => h.2.deeper span⟩

theorem halts_surfacing (R : Rules) : (surfacing R).Halts :=
  ⟨⟨.halt, .halt⟩⟩

/-- A handler with something to execute does not hide that operations have run out. -/
theorem attempts_surfacing {st : Store} {start n : Nat}
    (hs : ∀ c s, (Rules.heedful st start).fits c s →
      (surfacing (.heedful st start)).Rel true (.flow c) (Interpreter.exec n s : Watched Flow)
        (Interpreter.exec n s)) :
    (surfacing (.heedful st start)).Attempts (Interpreter.exec n : Stmt → Watched Flow)
      (Interpreter.exec n) := by
  intro c body errorName handler span hfits
  have hparts : ∀ s, s ∈ body ∨ s ∈ handler → (surfacing (.heedful st start)).Rel true (.flow c)
      (Interpreter.exec n s : Watched Flow) (Interpreter.exec n s) :=
    fun s hmem => hs c s ((Rules.heedful st start).fits_parts hfits (c, s)
      (by simpa [Stmt.parts] using hmem))
  have hbody : (surfacing (.heedful st start)).Rel false (.flow c)
      (Interpreter.inNewScope (Interpreter.execAll (Interpreter.exec n) body) : Watched Flow)
      (Interpreter.inNewScope (Interpreter.execAll (Interpreter.exec n) body)) :=
    (surfacing (.heedful st start)).inNewScope
      ((surfacing (.heedful st start)).execAll fun s hmem => hparts s (.inl hmem))
  have hhandle (f : Fault) : (surfacing (.heedful st start)).Rel false (.flow c)
      (Interpreter.handle (Interpreter.exec n) errorName handler f : Watched Flow)
      (Interpreter.handle (Interpreter.exec n) errorName handler f) :=
    (surfacing (.heedful st start)).handle (fun s hmem => hparts s (.inr hmem)) errorName f
  obtain ⟨s, ss, rfl⟩ := Rules.exists_cons_of_heedful hfits
  exact ⟨hbody.1.orElse fun f => (hhandle f).1,
    .orElse hbody.1 hbody.2 (fun f => (hhandle f).2) fun f => .handle n errorName s ss f⟩

namespace Machine

variable {p : Program} {m : Machine}

/-- The failure of operations that run out gets out of a run in which every handler has something to
execute. -/
theorem starved_watch (h : m.Hurried) (hp : ∀ s ∈ p, s.heedful = true)
    (hskills : ∀ id s, m.store.ReachesValue root (.skill id) → m.store.skills[id]? = some s →
      ∀ b ∈ s.body, b.heedful = true)
    (hused : ∃ mo ∈ (watch p m).2, mo.outcome.machine.Exhausted) : (watch p m).1.Starved := by
  have hstatements := (halts_surfacing (.heedful m.store root)).eval_exec_of_attempts
    (fun _ => attempts_surfacing) m.limits.fuel
  obtain ⟨-, hsurfaces⟩ := (surfacing (.heedful m.store root)).runAll fun s hmem =>
    (surfacing (.heedful m.store root)).to_true (hstatements.2 .top s (hp s hmem))
  have hlawful : m.reset.Lawful (.heedful m.store root) :=
    lawful_reset (Rules.lawful_reaching hskills) (.inl .start)
  obtain ⟨mo, hmo, hspent⟩ := hused
  have hspends := hsurfaces.seen [] m.reset hlawful h mo hmo
  have hleft : ¬ m.reset.Exhausted := Nat.not_lt_zero _
  exact hsurfaces.starved [] m.reset hlawful h hleft (hspends.exhausted hspent)

/-- If more operations are counted in a run than are allowed, then it fails for this reason,
whatever is caught in it, as long as every handler has something to execute: those in the program
and those in the skills that can be reached. -/
theorem exhaustion_surfaces (p : Program) (m : Machine) (h : m.Hurried)
    (hp : ∀ s ∈ p, s.heedful = true)
    (hskills : ∀ id s, m.store.ReachesValue root (.skill id) → m.store.skills[id]? = some s →
      ∀ b ∈ s.body, b.heedful = true) :
    (watch p m).1 = run p m ∧
      ((∃ mo ∈ (watch p m).2, mo.outcome.machine.Exhausted) →
        ∃ f m', run p m = .failed f m' ∧ f.cause = .possibleInfiniteLoop) := by
  refine ⟨watch_fst p m, fun hused => ?_⟩
  have hstarved := starved_watch h hp hskills hused
  have hends := (ends_watch p h (maxOperations_lt_fuel m.limits)).1
  rw [watch_fst] at hstarved hends
  cases hrun : run p m with
  | done a m' => exact (hstarved.not_done a m' hrun).elim
  | failed f m' => exact ⟨f, m', rfl, hstarved.cause f m' hrun⟩
  | unfinished m' => exact (hends.finished m' hrun).elim

/-- `try { keep (bet) { } } caught { .. }` -/
def caughtLoop (handler : List Stmt) : Program :=
  [.attempt [.keep (.literal (.bool true) .nowhere) (.block [] .nowhere) .nowhere] none handler
    .nowhere]

theorem exhaustion_surfaces_words : tired.Hurried ∧
    (∀ s ∈ caughtLoop words, s.heedful = true) ∧
    (∀ id s, tired.store.ReachesValue root (.skill id) → tired.store.skills[id]? = some s →
      ∀ b ∈ s.body, b.heedful = true) ∧
    (∃ mo ∈ (watch (caughtLoop words) tired).2, mo.outcome.machine.Exhausted) ∧
    (watch (caughtLoop words) tired).1 = run (caughtLoop words) tired ∧
    ∃ f m', run (caughtLoop words) tired = .failed f m' ∧ f.cause = .possibleInfiniteLoop := by
  have hheedful : ∀ s ∈ caughtLoop words, s.heedful = true := by decide +kernel
  have hskills : ∀ id s, tired.store.ReachesValue root (.skill id) →
      tired.store.skills[id]? = some s → ∀ b ∈ s.body, b.heedful = true := by
    intro id s _ hs
    simp [tired] at hs
  have hused : ∃ mo ∈ (watch (caughtLoop words) tired).2, mo.outcome.machine.Exhausted := by
    decide +kernel
  have hhurried : tired.Hurried := fun _ _ => rfl
  obtain ⟨hwatch, hfails⟩ :=
    exhaustion_surfaces (caughtLoop words) tired hhurried hheedful hskills
  exact ⟨hhurried, hheedful, hskills, hused, hwatch, hfails hused⟩

/-- With nothing in the handler the run ends as if nothing had failed. -/
theorem exhaustion_muted : tired.Hurried ∧
    (∃ mo ∈ (watch (caughtLoop []) tired).2, mo.outcome.machine.Exhausted) ∧
    (watch (caughtLoop []) tired).1 = run (caughtLoop []) tired ∧
    (run (caughtLoop []) tired).isDone = true ∧
    ¬ ∃ f m', run (caughtLoop []) tired = .failed f m' ∧ f.cause = .possibleInfiniteLoop := by
  have hused : ∃ mo ∈ (watch (caughtLoop []) tired).2, mo.outcome.machine.Exhausted := by
    decide +kernel
  have hdone : (run (caughtLoop []) tired).isDone = true := by decide +kernel
  refine ⟨fun _ _ => rfl, hused, watch_fst _ _, hdone, fun ⟨f, m', hfailed, _⟩ => ?_⟩
  rw [hfailed] at hdone
  cases hdone

end Machine
end Vibe
