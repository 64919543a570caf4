import Vibe.Proofs.Machine.Lasting
import Vibe.Proofs.Machine.Obedience
import Vibe.Proofs.Machine.Signals

/-! Programs in which every signal has something to go to. `stop` and `skip` stand in a loop of the
same skill, and `give` stands in a skill. In a session of such programs no signal is left over. -/

namespace Vibe

namespace Stmt

/-- Whether a signal, if the statement is one, has something to go to. -/
def inPlace (c : Place) : Stmt → Bool
  | stop _ | skip _ => c.inLoop
  | give _ _ => c.inSkill
  | _ => true

/-- Whether all signals in a statement have something to go to. -/
def placed (c : Place) (s : Stmt) : Bool :=
  s.every inPlace c

theorem placed_iff {c : Place} {s : Stmt} :
    s.placed c = true ↔ s.inPlace c = true ∧ ∀ x ∈ s.parts c, x.2.placed x.1 = true :=
  every_iff

end Stmt

namespace Rules

/-- All signals have something to go to. -/
def placed : Rules where
  value _ := True
  home _ := True
  fits c s := s.placed c = true
  value_of_not_shared _ _ := trivial
  fits_parts h := (Stmt.placed_iff.1 h).2
  give_of_loop h := h

/-- No signal may be left over. -/
theorem not_mayFail_placed : ¬ placed.mayFail .stopOutsideLoop ∧
    ¬ placed.mayFail .skipOutsideLoop ∧ ¬ placed.mayFail .giveOutsideSkill := by
  have hplace : ∀ {c s}, placed.fits c s → s.inPlace c = true := fun h => (Stmt.placed_iff.1 h).1
  refine ⟨?_, ?_, ?_⟩
  · rintro ⟨c, span, hloop, hfits⟩
    exact Bool.false_ne_true (hloop.symm.trans (hplace hfits))
  · rintro ⟨c, span, hloop, hfits⟩
    exact Bool.false_ne_true (hloop.symm.trans (hplace hfits))
  · rintro ⟨c, e, span, hskill, hfits⟩
    exact Bool.false_ne_true (hskill.symm.trans (hplace hfits))

end Rules

theorem Store.skills_initial (dice : Dice) : (Store.initial dice).skills = #[] := by
  rfl

namespace Machine

variable {p : Program} {m : Machine}

/-- The machine after some programs have been run, one after the other. -/
def after (m : Machine) (ps : List Program) : Machine :=
  ps.foldl (fun m p => (m.interpret p).2) m

theorem store_interpret (p : Program) (m : Machine) :
    (m.interpret p).2.store = (run p m).machine.store := by
  rw [machine_interpret]

/-- Programs that obey rules leave the store lawful. -/
theorem lawful_after {R : Rules} (hst : m.store.Lawful R) (hroot : R.home root)
    {ps : List Program} (hps : ∀ p ∈ ps, ∀ s ∈ p, R.fits .top s) :
    (m.after ps).store.Lawful R := by
  induction ps generalizing m with
  | nil => exact hst
  | cons p ps ih =>
    obtain ⟨hp, hrest⟩ := List.forall_mem_cons.1 hps
    have hnext : (m.interpret p).2.store.Lawful R := by
      rw [store_interpret]
      exact (lawful_run hp hst hroot).store
    exact ih hnext hrest

/-- In a session of programs in which all signals have something to go to, nothing ever fails
because of a signal that is left over, whether that would be caught or not. A statement passes on
the signal that ends one of those in it, but a loop answers `stop` and `skip`, and a call takes
what is given for its value. -/
theorem no_stray_signals (limits : Limits) (console : Console) (dice : Dice)
    (ps : List Program) (hps : ∀ p ∈ ps, ∀ s ∈ p, s.placed .top = true) :
    (∀ earlier p later m, ps = earlier ++ p :: later →
      m = (start limits console dice).after earlier →
        (watch p m).1 = run p m ∧ ∀ mo ∈ (watch p m).2, ¬ mo.Raises .stopOutsideLoop ∧
          ¬ mo.Raises .skipOutsideLoop ∧ ¬ mo.Raises .giveOutsideSkill) ∧
    (∀ n s m, (Noted.exec n s m).1 = (Interpreter.exec n s : Run Flow) m ∧
      ∀ flow m', (Noted.exec n s m).1 = .done flow m' → s.Handles (Noted.exec n s m).2 flow) ∧
    ∀ n e m, (Noted.eval n e m).1 = (Interpreter.eval n e : Run Value) m ∧
      ∀ v m', (Noted.eval n e m).1 = .done v m' → e.Handles (Noted.eval n e m).2 v := by
  refine ⟨fun earlier p later m hps' hm => ⟨watch_fst p m, fun mo hmo => ?_⟩, fun n s m => ?_,
    fun n e m => ?_⟩
  · subst hps' hm
    have hearlier : ∀ q ∈ earlier, ∀ s ∈ q, s.placed .top = true :=
      fun q hq => hps q (List.mem_append_left _ hq)
    have hp : ∀ s ∈ p, s.placed .top = true := hps p (by simp)
    have hstart : (start limits console dice).store.Lawful .placed := by
      refine Store.lawful_of_skills (fun _ => trivial) (fun _ => trivial) fun id s hs => ?_
      change (Store.initial dice).skills[id]? = some s at hs
      simp [Store.skills_initial] at hs
    have hst := lawful_after hstart trivial hearlier
    have hmay : ∀ cause, mo.Raises cause → Rules.placed.mayFail cause :=
      fun _ => mayFail_of_mem_watch hp hst trivial hmo
    obtain ⟨hstop, hskip, hgive⟩ := Rules.not_mayFail_placed
    exact ⟨fun h => hstop (hmay _ h), fun h => hskip (hmay _ h), fun h => hgive (hmay _ h)⟩
  · exact ⟨Noted.erases_exec n s m, (Noted.handles_exec n s).done m⟩
  · exact ⟨Noted.erases_eval n e m, (Noted.handles_eval n e).done m⟩

/-- `keep (bet) { try { stop } caught { } }`. -/
def stopped : Stmt :=
  .keep (.literal (.bool true) .nowhere)
    (.block [.attempt [.stop .nowhere] none [] .nowhere] .nowhere) .nowhere

/-- `skill f() { keep (bet) { try { stop } caught { } } give }` and then, in the next program,
`f()`. -/
def session : List Program :=
  [[.skill "f" [] [stopped, .give none .nowhere] .nowhere],
    [.expr (.call (.ident "f" .nowhere) [] .nowhere)]]

theorem no_stray_signals_session : (∀ p ∈ session, ∀ s ∈ p, s.placed .top = true) ∧
    ∃ p q m, session = [p, q] ∧ m = (start {} {} 0).after [p] ∧
      (watch q m).1 = run q m ∧ (run q m).isDone = true ∧
      (∀ mo ∈ (watch q m).2, ¬ mo.Raises .stopOutsideLoop ∧ ¬ mo.Raises .skipOutsideLoop ∧
        ¬ mo.Raises .giveOutsideSkill) ∧
      (Noted.exec 9 stopped m).1 = (Interpreter.exec 9 stopped : Run Flow) m ∧
      (Noted.exec 9 stopped m).2 = [.stop] ∧ ∃ flow, stopped.Handles [.stop] flow := by
  have hplaced : ∀ p ∈ session, ∀ s ∈ p, s.placed .top = true := by decide
  let m := (start {} {} 0).after [session[0]]
  obtain ⟨hsession, hexec, -⟩ := no_stray_signals {} {} 0 session hplaced
  obtain ⟨hwatch, hnone⟩ := hsession [session[0]] session[1] [] m rfl rfl
  obtain ⟨hrun, hhandles⟩ := hexec 9 stopped m
  have hends : (Noted.exec 9 stopped m).2 = [.stop] := by decide +kernel
  have hdone : (Noted.exec 9 stopped m).1.isDone = true := by decide +kernel
  refine ⟨hplaced, session[0], session[1], m, rfl, rfl, hwatch, by decide +kernel, hnone, hrun,
    hends, ?_⟩
  cases hout : (Noted.exec 9 stopped m).1 with
  | done flow m' =>
    have hflow := hhandles flow m' hout
    rw [hends] at hflow
    exact ⟨flow, hflow⟩
  | failed | unfinished =>
    rw [hout] at hdone
    cases hdone

end Machine
end Vibe
