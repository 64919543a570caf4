import Vibe.Proofs.Machine.Correspondence
import Vibe.Proofs.Machine.Instructions
import Vibe.Session

/-! Runs that are watched: they do the same, and tell before each instruction what the machine is
like and which skill calls are in progress. These are known without the machine: they are the calls
around the instruction. -/

namespace Vibe

/-- What is seen before an instruction. -/
structure Moment where
  /-- The places of the skill calls in progress, the innermost first. -/
  calls : List Span
  machine : Machine
  /-- The instruction that comes next. -/
  next : (α : Type) × Instr α

/-- A part of a run, with the calls in progress around it and everything that is seen. -/
def Watched (α : Type) : Type 1 :=
  (calls : List Span) → Machine → Outcome α × List Moment

namespace Watched

variable {α β : Type}

instance : Monad Watched where
  pure a _ m := (.done a m, [])
  bind p next calls m := match p calls m with
    | (.done a m, seen) => ((next a calls m).1, seen ++ (next a calls m).2)
    | (.failed f m, seen) => (.failed f m, seen)
    | (.unfinished m, seen) => (.unfinished m, seen)

theorem bind_apply (p : Watched α) (next : α → Watched β) (calls : List Span) (m : Machine) :
    (p >>= next) calls m = match p calls m with
      | (.done a m, seen) => ((next a calls m).1, seen ++ (next a calls m).2)
      | (.failed f m, seen) => (.failed f m, seen)
      | (.unfinished m, seen) => (.unfinished m, seen) :=
  rfl

theorem fst_bind (p : Watched α) (f : α → Watched β) (calls : List Span) (m : Machine) :
    ((p >>= f) calls m).1 = match (p calls m).1 with
      | .done a m' => (f a calls m').1
      | .failed e m' => .failed e m'
      | .unfinished m' => .unfinished m' := by
  rw [bind_apply]
  rcases p calls m with ⟨⟨a, m'⟩ | ⟨e, m'⟩ | m', seen⟩ <;> rfl

/-- What is seen in two parts of a run is seen in the first, or in the second after a result. -/
theorem mem_bind {p : Watched α} {f : α → Watched β} {calls : List Span} {m : Machine}
    {mo : Moment} : mo ∈ ((p >>= f) calls m).2 ↔ mo ∈ (p calls m).2 ∨
      ∃ a m', (p calls m).1 = .done a m' ∧ mo ∈ (f a calls m').2 := by
  rw [bind_apply]
  rcases p calls m with ⟨⟨a, m'⟩ | ⟨e, m'⟩ | m', seen⟩
  · refine List.mem_append.trans (or_congr_right ⟨fun h => ⟨a, m', rfl, h⟩, ?_⟩)
    rintro ⟨b, m'', hdone, h⟩
    cases hdone
    exact h
  · simp
  · simp

def act (i : Instr α) : Watched α := fun calls m =>
  (i.run m, [⟨calls, m, ⟨α, i⟩⟩])

def inScope (scope : Nat) (p : Watched α) : Watched α := fun calls m =>
  ((p calls { m with scope }).1.mapMachine fun m' => { m' with scope := m.scope },
    (p calls { m with scope }).2)

/-- One more call is in progress. -/
def deeper (span : Span) (p : Watched α) : Watched α := fun calls m =>
  ((p (span :: calls) { m with depth := m.depth + 1 }).1.mapMachine
    fun m' => { m' with depth := m'.depth - 1 },
    (p (span :: calls) { m with depth := m.depth + 1 }).2)

def orElse (p : Watched α) (handler : Fault → Watched α) : Watched α := fun calls m =>
  match p calls m with
  | (.failed f m, seen) => ((handler f calls m).1, seen ++ (handler f calls m).2)
  | (outcome, seen) => (outcome, seen)

theorem fst_orElse (p : Watched α) (f : Fault → Watched α) (calls : List Span) (m : Machine) :
    (orElse p f calls m).1 = match (p calls m).1 with
      | .failed e m' => (f e calls m').1
      | outcome => outcome := by
  rw [orElse]
  rcases p calls m with ⟨⟨a, m'⟩ | ⟨e, m'⟩ | m', seen⟩ <;> rfl

theorem mem_orElse {p : Watched α} {f : Fault → Watched α} {calls : List Span} {m : Machine}
    {mo : Moment} : mo ∈ (orElse p f calls m).2 ↔ mo ∈ (p calls m).2 ∨
      ∃ e m', (p calls m).1 = .failed e m' ∧ mo ∈ (f e calls m').2 := by
  rw [orElse]
  rcases p calls m with ⟨⟨a, m'⟩ | ⟨e, m'⟩ | m', seen⟩
  · simp
  · refine List.mem_append.trans (or_congr_right ⟨fun h => ⟨e, m', rfl, h⟩, ?_⟩)
    rintro ⟨f', m'', hfailed, h⟩
    cases hfailed
    exact h
  · simp

instance : Interpreter Watched where
  act := act
  inScope := inScope
  asCall span p := do
    act (.enter span)
    deeper span p
  orElse := orElse

end Watched

/-- Runs a program and watches it. -/
def Machine.watch (p : Program) (m : Machine) : Outcome Unit × List Moment :=
  (Interpreter.runAll (Interpreter.exec m.limits.fuel) p : Watched Unit) [] m.reset

/-- The machine has counted the calls in progress, and there are no more of them than allowed. -/
structure Moment.Counted (limits : Limits) (mo : Moment) : Prop where
  depth : mo.machine.depth = mo.calls.length
  calls : mo.calls.length ≤ limits.maxCallDepth
  limits : mo.machine.limits = limits

/-- Watching changes nothing, the part of the run leaves the scope and the depth as they were, and
at each moment of it the calls are counted. -/
structure Watched.Follows {α : Type} (p : Watched α) (q : Run α) : Prop where
  outcome : ∀ calls m, (p calls m).1 = q m
  stays : ∀ m : Machine, m.Stays (q m).machine
  counted : ∀ calls (m : Machine), m.depth = calls.length →
    calls.length ≤ m.limits.maxCallDepth → ∀ mo ∈ (p calls m).2, mo.Counted m.limits

namespace Watched.Follows

variable {α β : Type} {p : Watched α} {q : Run α} {calls : List Span} {m m' : Machine}

/-- What is seen later is counted too if what came before left the machine's counters alone. -/
theorem counted_of_stays (h : p.Follows q) (hstays : m.Stays m')
    (hdepth : m.depth = calls.length) (hcalls : calls.length ≤ m.limits.maxCallDepth) :
    ∀ mo ∈ (p calls m').2, mo.Counted m.limits := by
  have hdepth' : m'.depth = calls.length := hstays.depth.trans hdepth
  have hcounted := h.counted calls m' hdepth' (by rwa [hstays.limits])
  rwa [hstays.limits] at hcounted

theorem pure (a : α) : (Pure.pure a : Watched α).Follows (Pure.pure a) where
  outcome _ _ := rfl
  stays m := .refl m
  counted _ _ _ _ _ hmo := by cases hmo

theorem bind {f : α → Watched β} {g : α → Run β} (h : p.Follows q)
    (hf : ∀ a, (f a).Follows (g a)) : (p >>= f).Follows (q >>= g) where
  outcome calls m := by
    rw [fst_bind, Run.bind_apply, h.outcome]
    cases q m with
    | done a m' => exact (hf a).outcome calls m'
    | failed e m' | unfinished m' => rfl
  stays m := by
    have hstays := h.stays m
    rw [Run.bind_apply]
    cases hq : q m with
    | done a m' =>
      rw [hq] at hstays
      exact hstays.trans ((hf a).stays m')
    | failed e m' | unfinished m' =>
      rw [hq] at hstays
      exact hstays
  counted calls m hdepth hcalls mo hmo := by
    have hstays := h.stays m
    rw [← h.outcome calls m] at hstays
    rcases mem_bind.1 hmo with hseen | ⟨a, m', hp, hlater⟩
    · exact h.counted calls m hdepth hcalls mo hseen
    · rw [hp] at hstays
      exact (hf a).counted_of_stays hstays hdepth hcalls mo hlater

theorem act (i : Instr α) : (Watched.act i).Follows i.run where
  outcome _ _ := rfl
  stays m := i.stays_run m
  counted calls m hdepth hcalls mo hmo := by
    obtain rfl := List.mem_singleton.1 hmo
    exact ⟨hdepth, hcalls, rfl⟩

theorem inScope (scope : Nat) (h : p.Follows q) :
    (Watched.inScope scope p).Follows (Run.inScope scope q) where
  outcome calls m := by
    have hout := h.outcome calls { m with scope }
    simp only [Watched.inScope, Run.inScope, hout]
  stays m := by
    have hstays := h.stays { m with scope }
    rw [Run.inScope, Outcome.machine_mapMachine]
    exact ⟨rfl, hstays.depth, hstays.limits⟩
  counted calls m hdepth hcalls := h.counted calls { m with scope } hdepth hcalls

theorem orElse {f : Fault → Watched α} {g : Fault → Run α} (h : p.Follows q)
    (hf : ∀ e, (f e).Follows (g e)) : (Watched.orElse p f).Follows (Run.orElse q g) where
  outcome calls m := by
    rw [fst_orElse, Run.orElse, h.outcome]
    cases q m with
    | failed e m' => exact (hf e).outcome calls m'
    | done a m' | unfinished m' => rfl
  stays m := by
    have hstays := h.stays m
    rw [Run.orElse]
    cases hq : q m with
    | failed e m' =>
      rw [hq] at hstays
      exact hstays.trans ((hf e).stays m')
    | done a m' | unfinished m' =>
      rw [hq] at hstays
      exact hstays
  counted calls m hdepth hcalls mo hmo := by
    have hstays := h.stays m
    rw [← h.outcome calls m] at hstays
    rcases mem_orElse.1 hmo with hseen | ⟨e, m', hp, hlater⟩
    · exact h.counted calls m hdepth hcalls mo hseen
    · rw [hp] at hstays
      exact (hf e).counted_of_stays hstays hdepth hcalls mo hlater

/-- A call that is not refused raises the depth and the number of calls in progress together. -/
theorem asCall (span : Span) (h : p.Follows q) :
    (Interpreter.asCall span p : Watched α).Follows (Interpreter.asCall span q : Run α) where
  outcome calls m := by
    have hout := h.outcome (span :: calls) { m with depth := m.depth + 1 }
    change ((Watched.act (.enter span) >>= fun _ => Watched.deeper span p) calls m).1 =
      ((Instr.enter span).run >>= fun _ => Run.deeper q) m
    rw [Watched.bind_apply, Run.bind_apply]
    by_cases hfull : m.limits.maxCallDepth ≤ m.depth
    · simp [Watched.act, Instr.run, hfull]
    · simp [Watched.act, Instr.run, hfull, Watched.deeper, Run.deeper, hout]
  stays m := by
    have hstays := h.stays { m with depth := m.depth + 1 }
    change m.Stays (((Instr.enter span).run >>= fun _ => Run.deeper q) m).machine
    rw [Run.bind_apply]
    by_cases hfull : m.limits.maxCallDepth ≤ m.depth
    · simp only [Instr.run, hfull, if_true]
      exact .refl m
    · simp only [Instr.run, hfull, if_false, Run.deeper, Outcome.machine_mapMachine]
      refine ⟨hstays.scope, ?_, hstays.limits⟩
      have hdepth : (q { m with depth := m.depth + 1 }).machine.depth = m.depth + 1 :=
        hstays.depth
      simp only [hdepth]
      omega
  counted calls m hdepth hcalls mo hmo := by
    change mo ∈ ((Watched.act (.enter span) >>= fun _ => Watched.deeper span p) calls m).2 at hmo
    rw [Watched.bind_apply] at hmo
    have hentry : Moment.Counted m.limits ⟨calls, m, ⟨Unit, .enter span⟩⟩ :=
      ⟨hdepth, hcalls, rfl⟩
    by_cases hfull : m.limits.maxCallDepth ≤ m.depth
    · simp only [Watched.act, Instr.run, hfull, if_true] at hmo
      obtain rfl := List.mem_singleton.1 hmo
      exact hentry
    · simp only [Watched.act, Instr.run, hfull, if_false] at hmo
      rcases List.mem_append.1 hmo with hseen | hlater
      · obtain rfl := List.mem_singleton.1 hseen
        exact hentry
      · -- There is room for one more call, so inside it the number is still allowed.
        have hroom : (span :: calls).length ≤ m.limits.maxCallDepth := by
          rw [List.length_cons]
          omega
        have hdepth' : m.depth + 1 = (span :: calls).length := by
          rw [List.length_cons, hdepth]
        exact h.counted (span :: calls) { m with depth := m.depth + 1 } hdepth' hroom mo hlater

end Watched.Follows

/-- Watching a part of a run changes nothing in it. -/
def watching : Correspondence Watched Run where
  Rel _ p q := p.Follows q
  own _ := True
  anywhere h := h
  pure _ a := .pure a
  bind h hf := h.bind hf
  act _ := .act _
  withScope home hf := (Watched.Follows.act (.newScope home)).bind fun scope => hf scope trivial
  inScope _ h := h.inScope _
  asCall span h := h.asCall span
  orElse h hf := h.orElse hf

/-- A relation between the machine before a part of a run, the one after it and what is seen in it.
Instructions keep to it, and the current scope and the depth have nothing to do with it. -/
structure Machine.Recorded (R : Machine → Machine → List Moment → Prop) : Prop where
  refl : ∀ m, R m m []
  trans : ∀ {m m' m'' seen later}, R m m' seen → R m' m'' later → R m m'' (seen ++ later)
  instr : ∀ {α : Type} (i : Instr α) (calls : List Span) (m : Machine),
    R m (i.run m).machine [⟨calls, m, ⟨α, i⟩⟩]
  scope : ∀ {m m' inner outer seen},
    R { m with scope := inner } m' seen → R m { m' with scope := outer } seen
  depth : ∀ {m m' inner outer seen},
    R { m with depth := inner } m' seen → R m { m' with depth := outer } seen

namespace Machine.Recorded

variable {R : Machine → Machine → List Moment → Prop} (h : Recorded R) {α β : Type}
  {p : Watched α}

include h

theorem bind {f : α → Watched β} (hp : ∀ calls m, R m (p calls m).1.machine (p calls m).2)
    (hf : ∀ a calls m, R m (f a calls m).1.machine (f a calls m).2) (calls : List Span)
    (m : Machine) : R m ((p >>= f) calls m).1.machine ((p >>= f) calls m).2 := by
  have hfirst := hp calls m
  rw [Watched.bind_apply]
  rcases hout : p calls m with ⟨⟨a, m'⟩ | ⟨e, m'⟩ | m', seen⟩ <;> rw [hout] at hfirst
  · exact h.trans hfirst (hf a calls m')
  · exact hfirst
  · exact hfirst

theorem orElse {f : Fault → Watched α}
    (hp : ∀ calls m, R m (p calls m).1.machine (p calls m).2)
    (hf : ∀ e calls m, R m (f e calls m).1.machine (f e calls m).2) (calls : List Span)
    (m : Machine) :
    R m (Watched.orElse p f calls m).1.machine (Watched.orElse p f calls m).2 := by
  have hfirst := hp calls m
  rw [Watched.orElse]
  rcases hout : p calls m with ⟨⟨a, m'⟩ | ⟨e, m'⟩ | m', seen⟩ <;> rw [hout] at hfirst
  · exact hfirst
  · exact h.trans hfirst (hf e calls m')
  · exact hfirst

/-- Every part of a run keeps to the relation. -/
def correspondence : Correspondence Watched Watched where
  Rel _ p _ := ∀ calls m, R m (p calls m).1.machine (p calls m).2
  own _ := True
  anywhere hp := hp
  pure _ _ _ m := h.refl m
  bind hp hf := h.bind hp hf
  act {_ _ i} _ := h.instr i
  withScope home hf := h.bind (h.instr (.newScope home)) fun scope => hf scope trivial
  inScope {_ p _ scope} _ hp calls m := by
    change R m ((p calls { m with scope }).1.mapMachine _).machine _
    rw [Outcome.machine_mapMachine]
    exact h.scope (hp calls _)
  asCall {_ p _} span hp := by
    refine h.bind (h.instr (.enter span)) fun _ calls m => ?_
    change R m ((p (span :: calls) { m with depth := m.depth + 1 }).1.mapMachine _).machine _
    rw [Outcome.machine_mapMachine]
    exact h.depth (hp _ _)
  orElse hp hf := h.orElse hp hf

theorem watch (p : Program) (m : Machine) :
    R m.reset (Machine.watch p m).1.machine (Machine.watch p m).2 :=
  h.correspondence.runAll m.limits.fuel p [] m.reset

end Machine.Recorded

end Vibe
