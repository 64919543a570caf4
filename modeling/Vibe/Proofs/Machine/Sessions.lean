import Vibe.Proofs.Machine.Termination

/-! Programs that are run one after the other. What a run does depends neither on what was printed
before nor, as long as operations are left, on how many were counted. So a program does behind
another one what it does in a run of its own. -/

namespace Vibe

universe u

namespace Interpreter

variable {M : Type → Type u} [Interpreter M] [LawfulMonad M] {α β : Type}

/-- Nothing comes after a failure. -/
theorem fail_bind (cause : RuntimeCause) (span : Span) (f : α → M β) :
    (fail cause span >>= f) = fail cause span := by
  unfold fail
  rw [bind_assoc]
  congr 1
  funext e
  exact e.elim

/-- A program in two parts is the one and then the other. -/
theorem runAll_append (exec : Stmt → M Flow) (p q : Program) :
    runAll exec (p ++ q) = runAll exec p >>= fun _ => runAll exec q := by
  induction p with
  | nil => simp [runAll]
  | cons s p ih =>
    rw [List.cons_append, runAll, runAll, bind_assoc]
    congr 1
    funext flow
    cases flow with
    | normal => exact ih
    | stop | skip | give => exact (fail_bind _ _ _).symm

end Interpreter

/-- The machine of a run as part of one that began with another run: what was counted and printed
then comes first. -/
def Machine.behind (earlier m : Machine) : Machine :=
  { m with
    operations := earlier.operations + m.operations
    output := earlier.output ++ m.output }

/-- If the next instruction counts an operation, one is left. -/
def Moment.WithinLimit (mo : Moment) : Prop :=
  mo.isTick = true → mo.machine.operations < mo.machine.limits.maxOperations

instance (mo : Moment) : Decidable mo.WithinLimit :=
  inferInstanceAs (Decidable (_ → _))

section

variable {α β : Type} {earlier m : Machine}

theorem Run.orFail_behind (span : Span) (r : Except RuntimeCause α) :
    orFail span r (earlier.behind m) = (orFail span r m).mapMachine earlier.behind := by
  cases r <;> rfl

/-- As long as operations are left an instruction takes no notice of what came before. -/
theorem Instr.run_behind (i : Instr α)
    (h : i.isTick = true → earlier.operations + m.operations < m.limits.maxOperations) :
    i.run (earlier.behind m) = (i.run m).mapMachine earlier.behind := by
  cases i with
  | tick span =>
    have hleft := h rfl
    have hall : earlier.operations + (m.operations + 1) ≤ m.limits.maxOperations := by omega
    have hown : m.operations + 1 ≤ m.limits.maxOperations := by omega
    simp [run, Run.tick, Machine.behind, hall, hown, Outcome.mapMachine, Nat.add_assoc]
  | enter span =>
    by_cases hfull : m.limits.maxCallDepth ≤ m.depth <;>
      simp [run, Machine.behind, hfull, Outcome.mapMachine]
  | skill id span =>
    simp only [run, Machine.behind]
    split <;> rfl
  | print line =>
    simp only [run, Run.print, Machine.behind, Outcome.mapMachine, Array.push_append]
  | assign name v span =>
    exact Run.orFail_behind (m := { m with store := (m.store.assign name v m.scope).2 }) span _
  | builtin b args span =>
    exact Run.orFail_behind (m := { m with store := (b.call args m.store).2 }) span _
  | lookup | operate | operateUnary | index | items => exact Run.orFail_behind _ _
  | _ => rfl

end

namespace Watched

variable {α β : Type} {earlier : Machine} {p : Watched α}

theorem bind_assoc {γ : Type} (p : Watched α) (f : α → Watched β) (g : β → Watched γ) :
    (p >>= f) >>= g = p >>= fun a => f a >>= g := by
  funext calls m
  simp only [bind_apply]
  rcases p calls m with ⟨⟨a, m'⟩ | ⟨e, m'⟩ | m', seen⟩
  · simp only
    rcases f a calls m' with ⟨⟨b, m''⟩ | ⟨e, m''⟩ | m'', seen'⟩ <;> simp
  · rfl
  · rfl

instance : LawfulMonad Watched := .mk' _
  (fun p => by
    funext calls m
    change (p >>= pure) calls m = p calls m
    rw [bind_apply]
    rcases p calls m with ⟨⟨a, m'⟩ | ⟨e, m'⟩ | m', seen⟩
    · exact Prod.ext rfl (List.append_nil seen)
    · rfl
    · rfl)
  (fun _ _ => rfl)
  bind_assoc

/-- As long as operations are left, a part of a run does behind another run what it does by
itself. -/
def Continues (earlier : Machine) (p : Watched α) : Prop :=
  ∀ calls (m : Machine), (∀ mo ∈ (p calls (earlier.behind m)).2, mo.WithinLimit) →
    (p calls (earlier.behind m)).1 = (p calls m).1.mapMachine earlier.behind

namespace Continues

theorem pure (a : α) : Continues earlier (Pure.pure a : Watched α) :=
  fun _ _ _ => rfl

theorem act (i : Instr α) : Continues earlier (Watched.act i) := by
  intro calls m h
  apply i.run_behind
  intro htick
  exact h ⟨calls, earlier.behind m, ⟨α, i⟩⟩ (List.mem_singleton.2 rfl) htick

theorem bind {f : α → Watched β} (h : p.Continues earlier)
    (hf : ∀ a, (f a).Continues earlier) : (p >>= f).Continues earlier := by
  intro calls m hlimit
  have hsame := h calls m fun mo hmo => hlimit mo (mem_bind.2 (.inl hmo))
  rw [fst_bind, fst_bind, hsame]
  cases hp : (p calls m).1 with
  | done a m' =>
    have hdone : (p calls (earlier.behind m)).1 = .done a (earlier.behind m') := by
      rw [hsame, hp]
      rfl
    exact hf a calls m' fun mo hmo => hlimit mo (mem_bind.2 (.inr ⟨a, _, hdone, hmo⟩))
  | failed e m' | unfinished m' => rfl

theorem orElse {f : Fault → Watched α} (h : p.Continues earlier)
    (hf : ∀ e, (f e).Continues earlier) : (Watched.orElse p f).Continues earlier := by
  intro calls m hlimit
  have hsame := h calls m fun mo hmo => hlimit mo (mem_orElse.2 (.inl hmo))
  rw [fst_orElse, fst_orElse, hsame]
  cases hp : (p calls m).1 with
  | failed e m' =>
    have hfailed : (p calls (earlier.behind m)).1 = .failed e (earlier.behind m') := by
      rw [hsame, hp]
      rfl
    exact hf e calls m' fun mo hmo => hlimit mo (mem_orElse.2 (.inr ⟨e, _, hfailed, hmo⟩))
  | done a m' | unfinished m' => rfl

theorem inScope (scope : Nat) (h : p.Continues earlier) :
    (Watched.inScope scope p).Continues earlier := by
  intro calls m hlimit
  have hsame := h calls { m with scope } hlimit
  change (p calls (earlier.behind { m with scope })).1.mapMachine _ = _
  rw [hsame, Watched.inScope]
  cases (p calls { m with scope }).1 <;> rfl

theorem deeper (span : Span) (h : p.Continues earlier) :
    (Watched.deeper span p).Continues earlier := by
  intro calls m hlimit
  have hsame := h (span :: calls) { m with depth := m.depth + 1 } hlimit
  change (p (span :: calls) (earlier.behind { m with depth := m.depth + 1 })).1.mapMachine _ = _
  rw [hsame, Watched.deeper]
  cases (p (span :: calls) { m with depth := m.depth + 1 }).1 <;> rfl

end Continues
end Watched

/-- Everything that programs do goes on behind an earlier run. -/
def continuing (earlier : Machine) : Correspondence Watched Watched where
  Rel _ p _ := p.Continues earlier
  own _ := True
  anywhere h := h
  pure _ a := .pure a
  bind h hf := h.bind hf
  act _ := .act _
  withScope home hf :=
    (Watched.Continues.act (.newScope home)).bind fun scope => hf scope trivial
  inScope _ h := h.inScope _
  asCall span h := (Watched.Continues.act (.enter span)).bind fun _ => h.deeper span
  orElse h hf := h.orElse hf

namespace Machine

variable {p q : Program} {m m' : Machine}

/-- What is done after a program is done on the machine that the program leaves. -/
theorem run_append_of_done (q : Program) (h : run p m = .done () m') :
    run (p ++ q) m = (Interpreter.runAll (Interpreter.exec m.limits.fuel) q : Run Unit) m' := by
  unfold run at h ⊢
  rw [Interpreter.runAll_append, Run.bind_apply, h]

/-- What is seen in the second program is seen in both together. -/
theorem mem_watch_append {mo : Moment} (h : run p m = .done () m')
    (hmo : mo ∈ ((Interpreter.runAll (Interpreter.exec m.limits.fuel) q : Watched Unit) [] m').2) :
    mo ∈ (watch (p ++ q) m).2 := by
  rw [← watch_fst] at h
  unfold watch at h ⊢
  rw [Interpreter.runAll_append]
  exact Watched.mem_bind.2 (.inr ⟨(), m', h, hmo⟩)

/-- A run leaves the machine as the next one finds it, but for what was counted and printed. -/
theorem behind_reset_of_stays (h : m.reset.Stays m') : m'.behind m'.reset = m' := by
  obtain ⟨hscope, hdepth, -⟩ := h
  cases m' with
  | mk store scope depth operations limits console output =>
    obtain rfl : scope = root := hscope
    obtain rfl : depth = 0 := hdepth
    simp [behind, reset]

/-- Two programs that are run one after the other do together what they do as one program, as long
as that one does not use up its operations: the second does the same, with what the first counted
and printed before it. After a first program that does not come to its end nothing is done. -/
theorem run_append (p q : Program) (m : Machine) :
    (watch (p ++ q) m).1 = run (p ++ q) m ∧
    (∀ m', run p m = .done () m' → (∀ mo ∈ (watch (p ++ q) m).2, mo.WithinLimit) →
      run (p ++ q) m = (run q m').mapMachine m'.behind) ∧
    ((∀ m', run p m ≠ .done () m') → run (p ++ q) m = run p m) := by
  refine ⟨watch_fst _ m, fun m' hdone hlimit => ?_, fun hends => ?_⟩
  · have hstays : m.reset.Stays (run p m).machine := (follows_runAll m.limits.fuel p).stays m.reset
    rw [hdone] at hstays
    have hfound : m'.behind m'.reset = m' := behind_reset_of_stays hstays
    have hlimits : m'.limits = m.limits := hstays.limits
    have hgoesOn := (continuing m').runAll m.limits.fuel q [] m'.reset
    rw [hfound] at hgoesOn
    calc run (p ++ q) m
      _ = (Interpreter.runAll (Interpreter.exec m.limits.fuel) q : Run Unit) m' :=
        run_append_of_done q hdone
      _ = ((Interpreter.runAll (Interpreter.exec m.limits.fuel) q : Watched Unit) [] m').1 :=
        ((follows_runAll _ q).outcome [] m').symm
      _ = (watch q m').1.mapMachine m'.behind := by
        rw [watch, hlimits]
        exact hgoesOn fun mo hmo => hlimit mo (mem_watch_append hdone hmo)
      _ = (run q m').mapMachine m'.behind := by rw [watch_fst]
  · unfold run at hends ⊢
    rw [Interpreter.runAll_append, Run.bind_apply]
    split
    · next m' hdone => exact (hends m' hdone).elim
    · next f m' hfailed => exact hfailed.symm
    · next m' hunfinished => exact hunfinished.symm

/-- `skill f() { say "a" }` and `f()`. -/
def greeting : Program :=
  [.skill "f" [] [.say (.literal (.string "a") .nowhere) .nowhere] .nowhere,
    .expr (.call (.ident "f" .nowhere) [] .nowhere)]

/-- `f()`: a skill that an earlier program has defined. -/
def again : Program :=
  [.expr (.call (.ident "f" .nowhere) [] .nowhere)]

/-- `stop`, which fails outside all loops. -/
def astray : Program :=
  [.stop .nowhere]

theorem run_append_greeting : ∃ m', run greeting tired = .done () m' ∧
    (∀ mo ∈ (watch (greeting ++ again) tired).2, mo.WithinLimit) ∧
    run (greeting ++ again) tired = (run again m').mapMachine m'.behind ∧
    m'.output = #["a"] ∧ (run again m').machine.output = #["a"] ∧
    (run (greeting ++ again) tired).machine.output = #["a", "a"] ∧
    (∀ m'', run astray tired ≠ .done () m'') ∧
    run (astray ++ again) tired = run astray tired := by
  have hlimit : ∀ mo ∈ (watch (greeting ++ again) tired).2, mo.WithinLimit := by decide +kernel
  have hastray : ∀ m'', run astray tired ≠ .done () m'' := by
    intro m'' hdone
    have hfails : (run astray tired).isDone = false := by decide +kernel
    rw [hdone] at hfails
    cases hfails
  have hends : (run greeting tired).isDone = true := by decide +kernel
  have hsaid : (run greeting tired).machine.output = #["a"] := by decide +kernel
  have hsaid' : (run again (run greeting tired).machine).machine.output = #["a"] := by
    decide +kernel
  obtain ⟨-, happend, -⟩ := run_append greeting again tired
  obtain ⟨-, -, hstop⟩ := run_append astray again tired
  cases hrun : run greeting tired with
  | done u m' =>
    rw [hrun] at hsaid hsaid'
    exact ⟨m', rfl, hlimit, happend m' hrun hlimit, hsaid, hsaid', by decide +kernel, hastray,
      hstop hastray⟩
  | failed f m' | unfinished m' =>
    rw [hrun] at hends
    cases hends

end Machine
end Vibe
