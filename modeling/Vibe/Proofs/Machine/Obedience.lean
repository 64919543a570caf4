import Vibe.Proofs.Machine.Operations
import Vibe.Proofs.Store.Lawful

/-! Programs that obey rules. They keep what the machine refers to within the rules, give what is
asked of them, and fail only as they may. -/

namespace Vibe

variable {R : Rules}

/-- Whatever there may be on a machine refers only to what there may be. -/
structure Machine.Lawful (R : Rules) (m : Machine) : Prop where
  store : m.store.Lawful R
  scope : R.home m.scope

/-- A part of a run leaves a lawful machine, with a result as it is asked for or a failure that
there may be. -/
structure Outcome.Lawful {α : Type} (R : Rules) (Q : α → Prop) (o : Outcome α) : Prop where
  machine : o.machine.Lawful R
  result : ∀ a m, o = .done a m → Q a
  fault : ∀ f m, o = .failed f m → R.mayFail f.cause

namespace Outcome.Lawful

variable {α : Type} {Q : α → Prop} {m : Machine}

theorem done {a : α} (hm : m.Lawful R) (ha : Q a) : Lawful R Q (.done a m) where
  machine := hm
  result _ _ h := by
    cases h
    exact ha
  fault := nofun

theorem failed {f : Fault} (hm : m.Lawful R) (hf : R.mayFail f.cause) :
    Lawful R Q (.failed f m) where
  machine := hm
  result := nofun
  fault _ _ h := by
    cases h
    exact hf

theorem unfinished (hm : m.Lawful R) : Lawful R Q (.unfinished m) where
  machine := hm
  result := nofun
  fault := nofun

theorem orFail {k : Asked α} {r : Except RuntimeCause α} (hm : m.Lawful R) (hr : R.Allows k r)
    (span : Span) : (Run.orFail span r m).Lawful R (R.Meets k) := by
  cases r with
  | ok a => exact .done hm hr
  | error cause => exact .failed hm hr

/-- What is changed of the machine that is left keeps it lawful. -/
theorem mapMachine {o : Outcome α} (h : o.Lawful R Q) {change : Machine → Machine}
    (hchange : o.machine.Lawful R → (change o.machine).Lawful R) :
    (o.mapMachine change).Lawful R Q := by
  cases o with
  | done a m => exact .done (hchange h.machine) (h.result a m rfl)
  | failed f m => exact .failed (hchange h.machine) (h.fault f m rfl)
  | unfinished m => exact .unfinished (hchange h.machine)

end Outcome.Lawful

/-- An instruction that obeys the rules. -/
theorem Instr.lawful_run {α : Type} {i : Instr α} (hi : i.Obeys R) {m : Machine}
    (hm : m.Lawful R) : (i.run m).Lawful R (R.Meets i.yields) := by
  have hstore := hm.store
  cases i with
  | halt => exact hi.elim
  | tick span =>
    simp only [run, Run.tick]
    split
    · exact .done ⟨hm.store, hm.scope⟩ trivial
    · split
      · exact .done ⟨hm.store, hm.scope⟩ trivial
      · exact .failed ⟨hm.store, hm.scope⟩ trivial
  | fail cause span => exact .failed hm hi
  | truthy v | arity v | text v => exact .done hm trivial
  | lookup name span => exact .orFail hm (hstore.readable.allows_get hm.scope name) span
  | assign name v span =>
    have hm' : Machine.Lawful R { m with store := (m.store.assign name v m.scope).2 } :=
      ⟨hstore.assign name hi m.scope, hm.scope⟩
    exact .orFail hm' (m.store.allows_assign name v m.scope) span
  | newScope home =>
    have hhome : R.home (home.getD m.scope) := by
      cases home with
      | none => exact hm.scope
      | some scope => exact hi scope rfl
    exact .done ⟨hstore.pushScope hhome, hm.scope⟩ (hstore.newScope (Nat.le_refl _))
  | define name v binder scope => exact .done ⟨hstore.define name hi binder _, hm.scope⟩ trivial
  | newArray values =>
    have hvalues : ∀ v ∈ values.toArray, R.value v := fun v hv => hi v (List.mem_toArray.1 hv)
    exact .done ⟨hstore.pushArray hvalues, hm.scope⟩ (hstore.newArray (Nat.le_refl _))
  | newSkill name params body =>
    exact .done ⟨hstore.pushSkill ⟨hm.scope, hi⟩, hm.scope⟩ (hstore.newSkill (Nat.le_refl _))
  | operate op left right span => exact .orFail hm (m.store.allows_operate op left right) span
  | operateUnary op operand span => exact .orFail hm (m.store.allows_operateUnary op operand) span
  | index object position span => exact .orFail hm (hstore.readable.allows_index hi position) span
  | items v span => exact .orFail hm (hstore.readable.allows_sweepItems hi) span
  | skill id span =>
    simp only [run]
    split
    · next s hs => exact .done hm (hstore.skills hi hs)
    · exact .failed hm trivial
  | builtin b args span =>
    have hm' : Machine.Lawful R { m with store := (b.call args m.store).2 } :=
      ⟨b.lawful_call hstore hi, hm.scope⟩
    exact .orFail hm' (b.allows_call hstore.readable hi) span
  | enter span =>
    simp only [run]
    split
    · exact .failed hm trivial
    · exact .done hm trivial
  | print line | ask prompt => exact .done ⟨hm.store, hm.scope⟩ trivial

/-- On every lawful machine a part of a run leaves a lawful one, and at no moment of it anything
fails but as it may. -/
structure Watched.Obeys {α : Type} (R : Rules) (Q : α → Prop) (p : Watched α) : Prop where
  outcome : ∀ calls (m : Machine), m.Lawful R → (p calls m).1.Lawful R Q
  seen : ∀ calls (m : Machine), m.Lawful R → ∀ mo ∈ (p calls m).2, ∀ cause, mo.Raises cause →
    R.mayFail cause

namespace Watched.Obeys

variable {α β : Type} {Q : α → Prop} {S : β → Prop} {p : Watched α}

theorem pure {a : α} (ha : Q a) : (Pure.pure a : Watched α).Obeys R Q where
  outcome _ _ hm := .done hm ha
  seen _ _ _ _ hmo := by cases hmo

theorem act {i : Instr α} (hi : i.Obeys R) : (Watched.act i).Obeys R (R.Meets i.yields) where
  outcome _ _ hm := i.lawful_run hi hm
  seen calls m hm mo hmo cause hraises := by
    obtain rfl := List.mem_singleton.1 hmo
    obtain ⟨f, m', hfail, rfl⟩ := Outcome.cause?_eq_some.1 hraises
    exact (i.lawful_run hi hm).fault f m' hfail

theorem halt : (Interpreter.halt : Watched α).Obeys R Q where
  outcome _ _ hm := .unfinished hm
  seen calls m _ mo hmo cause hraises := by
    obtain rfl := List.mem_singleton.1 hmo
    cases hraises

theorem bind {f : α → Watched β} (h : p.Obeys R Q) (hf : ∀ a, Q a → (f a).Obeys R S) :
    (p >>= f).Obeys R S where
  outcome calls m hm := by
    have hlawful := h.outcome calls m hm
    rw [fst_bind]
    cases hp : (p calls m).1 with
    | done a m' =>
      rw [hp] at hlawful
      exact (hf a (hlawful.result a m' rfl)).outcome calls m' hlawful.machine
    | failed e m' =>
      rw [hp] at hlawful
      exact .failed hlawful.machine (hlawful.fault e m' rfl)
    | unfinished m' =>
      rw [hp] at hlawful
      exact .unfinished hlawful.machine
  seen calls m hm mo hmo := by
    rcases mem_bind.1 hmo with hseen | ⟨a, m', hp, hlater⟩
    · exact h.seen calls m hm mo hseen
    · have hlawful := h.outcome calls m hm
      rw [hp] at hlawful
      exact (hf a (hlawful.result a m' rfl)).seen calls m' hlawful.machine mo hlater

theorem orElse {f : Fault → Watched α} (h : p.Obeys R Q) (hf : ∀ e, (f e).Obeys R Q) :
    (Watched.orElse p f).Obeys R Q where
  outcome calls m hm := by
    have hlawful := h.outcome calls m hm
    rw [fst_orElse]
    cases hp : (p calls m).1 with
    | failed e m' =>
      rw [hp] at hlawful
      exact (hf e).outcome calls m' hlawful.machine
    | done a m' | unfinished m' =>
      rw [hp] at hlawful
      exact hlawful
  seen calls m hm mo hmo := by
    rcases mem_orElse.1 hmo with hseen | ⟨e, m', hp, hlater⟩
    · exact h.seen calls m hm mo hseen
    · have hlawful := h.outcome calls m hm
      rw [hp] at hlawful
      exact (hf e).seen calls m' hlawful.machine mo hlater

theorem inScope {scope : Nat} (hscope : R.home scope) (h : p.Obeys R Q) :
    (Watched.inScope scope p).Obeys R Q where
  outcome calls m hm := by
    have hp := h.outcome calls { m with scope } ⟨hm.store, hscope⟩
    exact hp.mapMachine fun hm' => ⟨hm'.store, hm.scope⟩
  seen calls m hm := h.seen calls { m with scope } ⟨hm.store, hscope⟩

theorem deeper (span : Span) (h : p.Obeys R Q) : (Watched.deeper span p).Obeys R Q where
  outcome calls m hm := by
    have hp := h.outcome (span :: calls) { m with depth := m.depth + 1 } ⟨hm.store, hm.scope⟩
    exact hp.mapMachine fun hm' => ⟨hm'.store, hm'.scope⟩
  seen calls m hm :=
    h.seen (span :: calls) { m with depth := m.depth + 1 } ⟨hm.store, hm.scope⟩

end Watched.Obeys

/-- All that obeys the rules does so in every part of a run. -/
def obeying (R : Rules) : Accord R Watched Watched where
  Rel _ k p _ := p.Obeys R (R.Meets k)
  own := R.home
  anywhere h := h
  pure ha := .pure ha
  bind h hf := h.bind hf
  act _ hi := .act hi
  withScope home hhome hf := (Watched.Obeys.act (i := .newScope home) hhome).bind hf
  inScope hscope h := h.inScope hscope
  asCall span h := (Watched.Obeys.act (i := .enter span) trivial).bind fun _ _ => h.deeper span
  orElse _ h hf := h.orElse hf

theorem halts_obeying (R : Rules) : (obeying R).Halts :=
  ⟨.halt⟩

namespace Machine

variable {p : Program} {m : Machine}

/-- A run of a program that obeys the rules on a lawful machine. -/
theorem obeys_runAll (hp : ∀ s ∈ p, R.fits .top s) (n : Nat) :
    (Interpreter.runAll (Interpreter.exec n) p : Watched Unit).Obeys R (R.Meets .nothing) :=
  (halts_obeying R).runAll n hp

theorem lawful_reset (hst : m.store.Lawful R) (hroot : R.home root) : m.reset.Lawful R :=
  ⟨hst, hroot⟩

theorem lawful_run (hp : ∀ s ∈ p, R.fits .top s) (hst : m.store.Lawful R) (hroot : R.home root) :
    (run p m).machine.Lawful R := by
  have houtcome := (obeys_runAll hp m.limits.fuel).outcome [] m.reset (lawful_reset hst hroot)
  rw [← watch_fst]
  exact houtcome.machine

/-- Nothing fails in such a run but as it may. -/
theorem mayFail_of_mem_watch (hp : ∀ s ∈ p, R.fits .top s) (hst : m.store.Lawful R)
    (hroot : R.home root) {mo : Moment} (hmo : mo ∈ (watch p m).2) {cause : RuntimeCause}
    (hraises : mo.Raises cause) : R.mayFail cause :=
  (obeys_runAll hp m.limits.fuel).seen [] m.reset (lawful_reset hst hroot) mo hmo cause hraises

end Machine
end Vibe
