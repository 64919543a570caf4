import Vibe.Proofs.Machine.Obedience
import Vibe.Proofs.Machine.Termination
import Vibe.Proofs.Store.Reach

/-! Limits make no difference to a run that reaches none of them. A run that reaches one and catches
no failures is cut short there. -/

namespace Vibe

/-- From one machine to another, lines and prompts are added at most. -/
structure Machine.Tells (m m' : Machine) : Prop where
  console : m.console.events.toList <+: m'.console.events.toList
  output : m.output.toList <+: m'.output.toList

namespace Machine.Tells

variable {m m' m'' : Machine}

theorem of_eq (hconsole : m'.console = m.console) (houtput : m'.output = m.output) :
    m.Tells m' where
  console := hconsole ▸ List.prefix_refl _
  output := houtput ▸ List.prefix_refl _

theorem refl (m : Machine) : m.Tells m :=
  of_eq rfl rfl

theorem trans (h : m.Tells m') (h' : m'.Tells m'') : m.Tells m'' :=
  ⟨h.console.trans h'.console, h.output.trans h'.output⟩

/-- The lines printed before come first. -/
theorem printed (h : m.Tells m') : m.console.printed <+: m'.console.printed :=
  h.console.filterMap _

/-- The prompts put before come first. -/
theorem prompts (h : m.Tells m') : m.console.prompts <+: m'.console.prompts :=
  h.console.filterMap _

end Machine.Tells

theorem Instr.tells_run {α : Type} (i : Instr α) (m : Machine) : m.Tells (i.run m).machine := by
  rw [machine_run]
  cases i with
  | print line => exact ⟨by simp [after, Console.print], by simp [after]⟩
  | ask prompt => exact ⟨by simp [after, Console.ask], List.prefix_refl _⟩
  | tick span =>
    simp only [after]
    split <;> exact .of_eq rfl rfl
  | _ => exact .of_eq rfl rfl

/-- The same machine under other limits. -/
def Machine.under (l : Limits) (m : Machine) : Machine :=
  { m with limits := l }

/-- The second limits allow no less than the first ones, under which never enough time passes. -/
structure Limits.Eased (l l' : Limits) : Prop where
  hurried : ∀ n, l.unhurried n = false
  operations : l.maxOperations ≤ l'.maxOperations
  calls : l.maxCallDepth ≤ l'.maxCallDepth

/-- Whether a failure is due to a limit. -/
def Fault.AtLimit (f : Fault) : Prop :=
  f.cause = .possibleInfiniteLoop ∨ f.cause = .stackOverflow

/-- A part of a run is cut short by a limit, after telling no more than another one. -/
structure Outcome.Cut {α : Type} (o o' : Outcome α) : Prop where
  fault : ∃ f m, o = .failed f m ∧ f.AtLimit
  tells : o.machine.Tells o'.machine

/-- Changes of the machines that are left have nothing to do with what was told. -/
theorem Outcome.Cut.mapMachine {α : Type} {o o' : Outcome α} (h : o.Cut o')
    {change change' : Machine → Machine}
    (htells : o.machine.Tells o'.machine → (change o.machine).Tells (change' o'.machine)) :
    (o.mapMachine change).Cut (o'.mapMachine change') := by
  obtain ⟨f, m, rfl, hf⟩ := h.fault
  refine ⟨⟨f, change m, rfl, hf⟩, ?_⟩
  rw [machine_mapMachine, machine_mapMachine]
  exact htells h.tells

variable {R : Rules} {l l' : Limits}

theorem Run.orFail_under {α : Type} (span : Span) (r : Except RuntimeCause α) (m : Machine) :
    orFail span r (m.under l') = (orFail span r m).mapMachine (·.under l') := by
  cases r <;> rfl

/-- An instruction does the same under eased limits, unless it is at a limit. -/
theorem Instr.run_under {α : Type} (hl : l.Eased l') (i : Instr α) {m : Machine}
    (hm : m.limits = l) :
    i.run (m.under l') = (i.run m).mapMachine (·.under l') ∨
      (i.run m).Cut (i.run (m.under l')) := by
  cases i with
  | tick span =>
    have hlimit := hl.operations
    have htells := (tick span).tells_run (m.under l')
    by_cases hleft : m.operations + 1 ≤ l.maxOperations
    · have hleft' : m.operations + 1 ≤ l'.maxOperations := Nat.le_trans hleft hlimit
      left
      simp [run, Run.tick, Machine.under, hm, hleft, hleft', Outcome.mapMachine]
    · right
      have hfails : (tick span).run m = .failed ⟨.possibleInfiniteLoop, span⟩
          { m with operations := m.operations + 1, looks := m.looks + 1 } := by
        simp [run, Run.tick, hm, hleft, hl.hurried m.looks]
      exact ⟨⟨_, _, hfails, .inl rfl⟩, by rw [hfails]; exact ⟨htells.console, htells.output⟩⟩
  | enter span =>
    have hlimit := hl.calls
    have htells := (enter span).tells_run (m.under l')
    by_cases hroom : m.depth < l.maxCallDepth
    · have hroom' : m.depth < l'.maxCallDepth := Nat.lt_of_lt_of_le hroom hlimit
      left
      simp [run, Machine.under, hm, Nat.not_le_of_lt hroom, Nat.not_le_of_lt hroom',
        Outcome.mapMachine]
    · right
      have hfails : (enter span).run m = .failed ⟨.stackOverflow, span⟩ m := by
        simp [run, hm, Nat.le_of_not_lt hroom]
      exact ⟨⟨_, _, hfails, .inr rfl⟩, by rw [hfails]; exact ⟨htells.console, htells.output⟩⟩
  | skill id span =>
    left
    simp only [run, Machine.under]
    split <;> rfl
  | assign name v span =>
    left
    exact Run.orFail_under span _ { m with store := (m.store.assign name v m.scope).2 }
  | builtin b args span =>
    left
    exact Run.orFail_under span _ { m with store := (b.call args m.store).2 }
  | lookup | operate | operateUnary | index | items => exact .inl (Run.orFail_under _ _ _)
  | _ => exact .inl rfl

/-- A part of a run only adds to what was told. It does the same under eased limits, unless a limit
is reached in it. If nothing is caught, it is cut short there. -/
structure Watched.Eased {α : Type} (R : Rules) (l l' : Limits) (p : Watched α) : Prop where
  limits : ∀ calls (m : Machine), m.Lawful R → m.limits = l → (p calls m).1.machine.limits = l
  tells : ∀ calls (m : Machine), m.Lawful R → m.Tells (p calls m).1.machine
  outcome : ∀ calls (m : Machine), m.Lawful R → m.limits = l →
    (p calls (m.under l')).1 = (p calls m).1.mapMachine (·.under l') ∨
      (∃ mo ∈ (p calls m).2, ∃ f m', mo.outcome = .failed f m' ∧ f.AtLimit) ∧
        (¬ R.mayCatch → (p calls m).1.Cut (p calls (m.under l')).1)

namespace Watched

variable {α β : Type} {Q : α → Prop} {p : Watched α} {calls : List Span} {m : Machine}

namespace Eased

theorem pure (a : α) : Eased R l l' (Pure.pure a : Watched α) where
  limits _ _ _ hm := hm
  tells _ m _ := .refl m
  outcome _ _ _ _ := .inl rfl

theorem act (hl : l.Eased l') (i : Instr α) : Eased R l l' (Watched.act i) where
  limits _ m _ hm := (i.stays_run m).limits.trans hm
  tells _ m _ := i.tells_run m
  outcome calls m _ hm := by
    refine (i.run_under hl hm).imp_right fun hcut => ⟨?_, fun _ => hcut⟩
    exact ⟨⟨calls, m, ⟨α, i⟩⟩, List.mem_singleton.2 rfl, hcut.fault⟩

/-- What comes after a part of a run adds to what the part has told. -/
theorem tells_bind {f : α → Watched β} (calls : List Span) (hobeys : p.Obeys R Q)
    (hf : ∀ a, Q a → (f a).Eased R l l') (hm : m.Lawful R) :
    (p calls m).1.machine.Tells ((p >>= f) calls m).1.machine := by
  have hlawful := hobeys.outcome calls m hm
  rw [fst_bind]
  cases hp : (p calls m).1 with
  | done a m' =>
    rw [hp] at hlawful
    exact (hf a (hlawful.result a m' rfl)).tells calls m' hlawful.machine
  | failed e m' | unfinished m' => exact .refl m'

/-- Nothing comes after what is cut short. -/
theorem bind {f : α → Watched β} (hobeys : p.Obeys R Q) (h : p.Eased R l l')
    (hf : ∀ a, Q a → (f a).Eased R l l') : (p >>= f).Eased R l l' where
  limits calls m hm hlim := by
    have hlawful := hobeys.outcome calls m hm
    have hlimits := h.limits calls m hm hlim
    rw [fst_bind]
    cases hp : (p calls m).1 with
    | done a m' =>
      rw [hp] at hlawful hlimits
      exact (hf a (hlawful.result a m' rfl)).limits calls m' hlawful.machine hlimits
    | failed e m' | unfinished m' =>
      rw [hp] at hlimits
      exact hlimits
  tells calls m hm := (h.tells calls m hm).trans (tells_bind calls hobeys hf hm)
  outcome calls m hm hlim := by
    have hlawful := hobeys.outcome calls m hm
    have hlimits := h.limits calls m hm hlim
    rcases h.outcome calls m hm hlim with hsame | ⟨⟨mo, hmo, hreached⟩, hcut⟩
    · rw [fst_bind, fst_bind, hsame]
      cases hp : (p calls m).1 with
      | done a m' =>
        rw [hp] at hlawful hlimits
        have hnext := (hf a (hlawful.result a m' rfl)).outcome calls m' hlawful.machine hlimits
        refine hnext.imp_right fun ⟨⟨mo, hmo, hreached⟩, hcut⟩ => ⟨?_, hcut⟩
        exact ⟨mo, mem_bind.2 (.inr ⟨a, m', hp, hmo⟩), hreached⟩
      | failed e m' | unfinished m' => exact .inl rfl
    · refine .inr ⟨⟨mo, mem_bind.2 (.inl hmo), hreached⟩, fun hcatch => ?_⟩
      have hcut := hcut hcatch
      obtain ⟨e, m', hfailed, hfault⟩ := hcut.fault
      have hbind : ((p >>= f) calls m).1 = .failed e m' := by
        rw [fst_bind, hfailed]
      have hlawful' : (m.under l').Lawful R := ⟨hm.store, hm.scope⟩
      have htells := hcut.tells.trans (tells_bind calls hobeys hf hlawful')
      rw [hfailed] at htells
      exact ⟨⟨e, m', hbind, hfault⟩, by rwa [hbind]⟩

/-- Where failures may be caught it is enough that a limit has been reached. -/
theorem orElse {f : Fault → Watched α} (hcatch : R.mayCatch) (hobeys : p.Obeys R Q)
    (h : p.Eased R l l') (hf : ∀ e, (f e).Eased R l l') :
    (Watched.orElse p f).Eased R l l' where
  limits calls m hm hlim := by
    have hlawful := hobeys.outcome calls m hm
    have hlimits := h.limits calls m hm hlim
    rw [fst_orElse]
    cases hp : (p calls m).1 with
    | failed e m' =>
      rw [hp] at hlawful hlimits
      exact (hf e).limits calls m' hlawful.machine hlimits
    | done a m' | unfinished m' =>
      rw [hp] at hlimits
      exact hlimits
  tells calls m hm := by
    have hlawful := hobeys.outcome calls m hm
    have htells := h.tells calls m hm
    rw [fst_orElse]
    cases hp : (p calls m).1 with
    | failed e m' =>
      rw [hp] at hlawful htells
      exact htells.trans ((hf e).tells calls m' hlawful.machine)
    | done a m' | unfinished m' =>
      rw [hp] at htells
      exact htells
  outcome calls m hm hlim := by
    have hlawful := hobeys.outcome calls m hm
    have hlimits := h.limits calls m hm hlim
    rcases h.outcome calls m hm hlim with hsame | ⟨⟨mo, hmo, hreached⟩, -⟩
    · rw [fst_orElse, fst_orElse, hsame]
      cases hp : (p calls m).1 with
      | failed e m' =>
        rw [hp] at hlawful hlimits
        have hnext := (hf e).outcome calls m' hlawful.machine hlimits
        refine hnext.imp_right fun ⟨⟨mo, hmo, hreached⟩, hcut⟩ => ⟨?_, hcut⟩
        exact ⟨mo, mem_orElse.2 (.inr ⟨e, m', hp, hmo⟩), hreached⟩
      | done a m' | unfinished m' => exact .inl rfl
    · exact .inr ⟨⟨mo, mem_orElse.2 (.inl hmo), hreached⟩, fun hno => (hno hcatch).elim⟩

theorem inScope {scope : Nat} (hscope : R.home scope) (h : p.Eased R l l') :
    (Watched.inScope scope p).Eased R l l' where
  limits calls m hm hlim := by
    have hlimits := h.limits calls { m with scope } ⟨hm.store, hscope⟩ hlim
    rw [Watched.inScope, Outcome.machine_mapMachine]
    exact hlimits
  tells calls m hm := by
    have htells := h.tells calls { m with scope } ⟨hm.store, hscope⟩
    rw [Watched.inScope, Outcome.machine_mapMachine]
    exact ⟨htells.console, htells.output⟩
  outcome calls m hm hlim := by
    refine (h.outcome calls { m with scope } ⟨hm.store, hscope⟩ hlim).imp (fun hsame => ?_)
      fun hreached => ⟨hreached.1, fun hcatch => ?_⟩
    · change (p calls (({ m with scope } : Machine).under l')).1.mapMachine _ = _
      rw [hsame, Watched.inScope]
      cases (p calls { m with scope }).1 <;> rfl
    · exact (hreached.2 hcatch).mapMachine fun htells => ⟨htells.console, htells.output⟩

theorem deeper (span : Span) (h : p.Eased R l l') : (Watched.deeper span p).Eased R l l' where
  limits calls m hm hlim := by
    have hlimits := h.limits (span :: calls) { m with depth := m.depth + 1 }
      ⟨hm.store, hm.scope⟩ hlim
    rw [Watched.deeper, Outcome.machine_mapMachine]
    exact hlimits
  tells calls m hm := by
    have htells := h.tells (span :: calls) { m with depth := m.depth + 1 } ⟨hm.store, hm.scope⟩
    rw [Watched.deeper, Outcome.machine_mapMachine]
    exact ⟨htells.console, htells.output⟩
  outcome calls m hm hlim := by
    refine (h.outcome (span :: calls) { m with depth := m.depth + 1 } ⟨hm.store, hm.scope⟩
      hlim).imp (fun hsame => ?_) fun hreached => ⟨hreached.1, fun hcatch => ?_⟩
    · change (p (span :: calls)
        (({ m with depth := m.depth + 1 } : Machine).under l')).1.mapMachine _ = _
      rw [hsame, Watched.deeper]
      cases (p (span :: calls) { m with depth := m.depth + 1 }).1 <;> rfl
    · exact (hreached.2 hcatch).mapMachine fun htells => ⟨htells.console, htells.output⟩

theorem halt : Eased R l l' (Interpreter.halt : Watched α) where
  limits _ _ _ hm := hm
  tells _ m _ := .refl m
  outcome _ _ _ _ := .inl rfl

end Eased
end Watched

/-- Programs that obey rules, under limits and under eased ones. -/
def easing (R : Rules) (hl : l.Eased l') : Accord R Watched Watched where
  Rel _ k p _ := p.Obeys R (R.Meets k) ∧ p.Eased R l l'
  own := R.home
  anywhere h := h
  pure ha := ⟨.pure ha, .pure _⟩
  bind h hf := ⟨h.1.bind fun a ha => (hf a ha).1, .bind h.1 h.2 fun a ha => (hf a ha).2⟩
  act {_ _ i} _ hi := ⟨.act hi, .act hl i⟩
  withScope home hhome hf :=
    have hobeys := Watched.Obeys.act (i := .newScope home) hhome
    ⟨hobeys.bind fun scope hscope => (hf scope hscope).1,
      .bind hobeys (.act hl _) fun scope hscope => (hf scope hscope).2⟩
  inScope hscope h := ⟨h.1.inScope hscope, h.2.inScope hscope⟩
  asCall span h :=
    have hobeys := Watched.Obeys.act (R := R) (i := .enter span) trivial
    ⟨hobeys.bind fun _ _ => h.1.deeper span, .bind hobeys (.act hl _) fun _ _ => h.2.deeper span⟩
  orElse hcatch h hf := ⟨h.1.orElse fun e => (hf e).1, h.2.orElse hcatch h.1 fun e => (hf e).2⟩

theorem halts_easing (R : Rules) (hl : l.Eased l') : (easing R hl).Halts :=
  ⟨⟨.halt, .halt⟩⟩

namespace Machine

variable {p : Program} {m : Machine}

/-- A run of a program that obeys rules is the same under eased limits, or a limit is reached in
it. -/
theorem run_eased (hl : l.Eased l') (hp : ∀ s ∈ p, R.fits .top s)
    (hst : m.store.Lawful R) (hroot : R.home root) :
    run p (m.under l') = (run p (m.under l)).mapMachine (·.under l') ∨
      (∃ mo ∈ (watch p (m.under l)).2, ∃ f m', mo.outcome = .failed f m' ∧ f.AtLimit) ∧
        (¬ R.mayCatch → (run p (m.under l)).Cut (run p (m.under l'))) := by
  have hhurried : (m.under l).Hurried := fun n _ => hl.hurried n
  have hfuel : (m.under l).limits.maxOperations < l'.fuel :=
    Nat.lt_of_le_of_lt hl.operations (maxOperations_lt_fuel l')
  obtain ⟨-, heased⟩ := (halts_easing R hl).runAll l'.fuel hp
  have houtcome := heased.outcome [] (m.under l).reset ⟨hst, hroot⟩ rfl
  rw [(ends_watch p hhurried hfuel).2] at houtcome
  have hrun : (watch p (m.under l')).1 = run p (m.under l') := watch_fst p _
  rw [← watch_fst p (m.under l), ← hrun]
  exact houtcome

/-- A run in which no limit is reached is the same under limits that allow more. A run that catches
no failures, neither in the program nor in a skill that can be reached, is the same as well or
fails at a limit, after printing and asking no more than under the limits that allow more. -/
theorem limits_transparent (p : Program) (m : Machine) (hl : l.Eased l') :
    (watch p (m.under l)).1 = run p (m.under l) ∧
    ((∀ mo ∈ (watch p (m.under l)).2,
        ¬ mo.Raises .possibleInfiniteLoop ∧ ¬ mo.Raises .stackOverflow) →
      run p (m.under l') = (run p (m.under l)).mapMachine (·.under l')) ∧
    ((∀ s ∈ p, s.tryless = true) →
      (∀ id s, m.store.ReachesValue root (.skill id) → m.store.skills[id]? = some s →
        ∀ b ∈ s.body, b.tryless = true) →
      (run p (m.under l)).machine.console.printed <+:
          (run p (m.under l')).machine.console.printed ∧
        (run p (m.under l)).machine.console.prompts <+:
          (run p (m.under l')).machine.console.prompts ∧
        (run p (m.under l)).machine.output.toList <+:
          (run p (m.under l')).machine.output.toList ∧
        (run p (m.under l') = (run p (m.under l)).mapMachine (·.under l') ∨
          (run p (m.under l)).cause? = some .possibleInfiniteLoop ∨
          (run p (m.under l)).cause? = some .stackOverflow)) := by
  refine ⟨watch_fst p _, fun hnone => ?_, fun hp hskills => ?_⟩
  · have hst : m.store.Lawful .free :=
      Store.lawful_of_skills (fun _ => trivial) (fun _ => trivial) fun _ _ _ _ _ => trivial
    have heased := run_eased (p := p) hl (fun _ _ => trivial) hst trivial
    refine heased.resolve_right fun ⟨⟨mo, hmo, f, m', hfailed, hlimit⟩, _⟩ => ?_
    obtain ⟨hloop, hdeep⟩ := hnone mo hmo
    rcases hlimit with hcause | hcause
    · exact hloop (Outcome.cause?_eq_some.2 ⟨f, m', hfailed, hcause⟩)
    · exact hdeep (Outcome.cause?_eq_some.2 ⟨f, m', hfailed, hcause⟩)
  · have heased := run_eased hl hp (Rules.lawful_reaching hskills) (.inl .start)
    have hnocatch := Rules.not_mayCatch_tryless m.store root
    have htells : (run p (m.under l)).machine.Tells (run p (m.under l')).machine := by
      rcases heased with hsame | ⟨-, hcut⟩
      · rw [hsame, Outcome.machine_mapMachine]
        exact .of_eq rfl rfl
      · exact (hcut hnocatch).tells
    refine ⟨htells.printed, htells.prompts, htells.output, ?_⟩
    refine heased.imp_right fun ⟨_, hcut⟩ => ?_
    obtain ⟨f, m', hfailed, hlimit⟩ := (hcut hnocatch).fault
    rw [hfailed]
    exact hlimit.imp (congrArg some) (congrArg some)

/-- `say "a"` and then `say "b"`: two operations each. -/
def words : Program :=
  [.say (.literal (.string "a") .nowhere) .nowhere, .say (.literal (.string "b") .nowhere) .nowhere]

/-- So many operations, and as many calls. -/
def allowing (n : Nat) : Limits :=
  { maxOperations := n, maxCallDepth := n }

theorem limits_transparent_words : (allowing 3).Eased (allowing 4) ∧
    (allowing 4).Eased (allowing 5) ∧
    (∀ mo ∈ (watch words (tired.under (allowing 4))).2,
      ¬ mo.Raises .possibleInfiniteLoop ∧ ¬ mo.Raises .stackOverflow) ∧
    run words (tired.under (allowing 5)) =
      (run words (tired.under (allowing 4))).mapMachine (·.under (allowing 5)) ∧
    (∀ s ∈ words, s.tryless = true) ∧
    (∀ id s, tired.store.ReachesValue root (.skill id) → tired.store.skills[id]? = some s →
      ∀ b ∈ s.body, b.tryless = true) ∧
    (run words (tired.under (allowing 3))).machine.console.printed = ["a"] ∧
    (run words (tired.under (allowing 3))).machine.console.printed <+:
      (run words (tired.under (allowing 4))).machine.console.printed ∧
    (run words (tired.under (allowing 3))).cause? = some .possibleInfiniteLoop := by
  have hless : (allowing 3).Eased (allowing 4) := ⟨fun _ => rfl, by decide, by decide⟩
  have hmore : (allowing 4).Eased (allowing 5) := ⟨fun _ => rfl, by decide, by decide⟩
  have hnone : ∀ mo ∈ (watch words (tired.under (allowing 4))).2,
      ¬ mo.Raises .possibleInfiniteLoop ∧ ¬ mo.Raises .stackOverflow := by decide +kernel
  have htryless : ∀ s ∈ words, s.tryless = true := by decide +kernel
  have hskills : ∀ id s, tired.store.ReachesValue root (.skill id) →
      tired.store.skills[id]? = some s → ∀ b ∈ s.body, b.tryless = true := by
    intro id s _ hs
    simp [tired] at hs
  obtain ⟨-, hsame, -⟩ := limits_transparent words tired hmore
  obtain ⟨-, -, hcut⟩ := limits_transparent words tired hless
  exact ⟨hless, hmore, hnone, hsame hnone, htryless, hskills, by decide +kernel,
    (hcut htryless hskills).1, by decide +kernel⟩

end Machine
end Vibe
