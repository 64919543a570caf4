import Vibe.Proofs.Machine.Watching

/-! However a part of a run ends, it leaves the current scope and the call depth as it found them.
So the depth is the number of calls in progress at every moment of a run. -/

namespace Vibe.Machine

variable {limits : Limits} {mo : Moment}

theorem stays_eval (n : Nat) (e : Expr) (m : Machine) :
    m.Stays ((Interpreter.eval n e : Run Value) m).machine :=
  ((watching.eval_exec n).1 e).stays m

theorem stays_exec (n : Nat) (s : Stmt) (m : Machine) :
    m.Stays ((Interpreter.exec n s : Run Flow) m).machine :=
  ((watching.eval_exec n).2 s).stays m

theorem follows_runAll (n : Nat) (p : Program) :
    (Interpreter.runAll (Interpreter.exec n) p : Watched Unit).Follows
      (Interpreter.runAll (Interpreter.exec n) p : Run Unit) :=
  watching.runAll n p

/-- A watched run is the run. -/
theorem watch_fst (p : Program) (m : Machine) : (watch p m).1 = run p m :=
  (follows_runAll m.limits.fuel p).outcome [] m.reset

/-- At each moment of a run the calls in progress are counted by the machine. -/
theorem counted_of_mem_watch {p : Program} {m : Machine} (h : mo ∈ (watch p m).2) :
    mo.Counted m.limits :=
  (follows_runAll m.limits.fuel p).counted [] m.reset rfl (Nat.zero_le _) mo h

/-- With as many calls in progress as are allowed the next one is refused, and not before. -/
theorem asCall_of_counted {α : Type} (h : mo.Counted limits) (span : Span) (call : Run α) :
    (Interpreter.asCall span call : Run α) mo.machine =
      if mo.calls.length = limits.maxCallDepth then .failed ⟨.stackOverflow, span⟩ mo.machine
      else Run.deeper call mo.machine := by
  have hcalls := h.calls
  have hiff : mo.machine.limits.maxCallDepth ≤ mo.machine.depth ↔
      mo.calls.length = limits.maxCallDepth := by
    rw [h.limits, h.depth]
    omega
  change ((Instr.enter span).run >>= fun _ => Run.deeper call) mo.machine = _
  rw [Run.bind_apply]
  by_cases hfull : mo.calls.length = limits.maxCallDepth
  · simp only [Instr.run, hiff, hfull, if_true]
  · simp only [Instr.run, hiff, hfull, if_false]

/-- Every expression and every statement leaves the current scope and the call depth as they were,
however it ends. At each moment of a run the depth is the number of calls in progress, which is
never more than allowed, and a call is refused exactly when it would be one too many. After a run
the root scope is the current one and no call is in progress. -/
theorem scope_depth_restored (n : Nat) (m : Machine) :
    (∀ e, ((Interpreter.eval n e : Run Value) m).machine.scope = m.scope ∧
      ((Interpreter.eval n e : Run Value) m).machine.depth = m.depth) ∧
    (∀ s, ((Interpreter.exec n s : Run Flow) m).machine.scope = m.scope ∧
      ((Interpreter.exec n s : Run Flow) m).machine.depth = m.depth) ∧
    ∀ p, (watch p m).1 = run p m ∧
      (∀ mo ∈ (watch p m).2, mo.machine.depth = mo.calls.length ∧
        mo.calls.length ≤ m.limits.maxCallDepth ∧
        ∀ (span : Span) (call : Run Flow), (Interpreter.asCall span call : Run Flow) mo.machine =
          if mo.calls.length = m.limits.maxCallDepth then .failed ⟨.stackOverflow, span⟩ mo.machine
          else Run.deeper call mo.machine) ∧
      (run p m).machine.scope = root ∧ (run p m).machine.depth = 0 := by
  refine ⟨fun e => ?_, fun s => ?_, fun p => ⟨watch_fst p m, fun mo hmo => ?_, ?_⟩⟩
  · have h := stays_eval n e m
    exact ⟨h.scope, h.depth⟩
  · have h := stays_exec n s m
    exact ⟨h.scope, h.depth⟩
  · have h := counted_of_mem_watch hmo
    exact ⟨h.depth, h.calls, asCall_of_counted h⟩
  · have h := (follows_runAll m.limits.fuel p).stays m.reset
    exact ⟨h.scope, h.depth⟩

/-- `skill f() { f() }` and then `f()`: one call more than the sample machine allows. -/
def recursion : Program :=
  let call : Stmt := .expr (.call (.ident "f" .nowhere) [] .nowhere)
  [.skill "f" [] [call] .nowhere, call]

/-- A machine that allows one call. -/
def shallow : Machine where
  store := { scopes := #[{}] }
  scope := root
  limits := { maxOperations := 10, maxCallDepth := 1 }
  console := {}

theorem scope_depth_restored_recursion : ∃ mo ∈ (watch recursion shallow).2,
    mo.calls.length = 1 ∧ mo.machine.depth = 1 ∧ ∀ (span : Span) (call : Run Flow),
      (Interpreter.asCall span call : Run Flow) mo.machine =
        .failed ⟨.stackOverflow, span⟩ mo.machine := by
  have hlast : (watch recursion shallow).2.getLast?.map (·.calls.length) = some 1 := by
    decide +kernel
  obtain ⟨mo, hmo, hcalls⟩ := Option.map_eq_some_iff.1 hlast
  have hmem : mo ∈ (watch recursion shallow).2 := List.mem_of_getLast? hmo
  obtain ⟨-, -, hruns⟩ := scope_depth_restored 5 shallow
  obtain ⟨-, hmoments, -⟩ := hruns recursion
  obtain ⟨hdepth, -, hrefused⟩ := hmoments mo hmem
  refine ⟨mo, hmem, hcalls, hdepth.trans hcalls, ?_⟩
  intro span call
  have hfull : mo.calls.length = shallow.limits.maxCallDepth := hcalls
  rw [hrefused, if_pos hfull]

end Vibe.Machine
