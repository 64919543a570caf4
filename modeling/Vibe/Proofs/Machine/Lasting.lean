import Vibe.Proofs.Machine.Correspondence
import Vibe.Proofs.Machine.Instructions
import Vibe.Session

/-! What every instruction keeps to, every run keeps to. -/

namespace Vibe

/-- A relation between the machine before and after a part of a run. Instructions keep to it, and
the current scope and the depth have nothing to do with it. -/
structure Machine.Lasting (R : Machine → Machine → Prop) : Prop where
  refl : ∀ m, R m m
  trans : ∀ {m m' m''}, R m m' → R m' m'' → R m m''
  instr : ∀ {α : Type} (i : Instr α) m, R m (i.run m).machine
  scope : ∀ {m m' inner outer}, R { m with scope := inner } m' → R m { m' with scope := outer }
  depth : ∀ {m m' inner outer}, R { m with depth := inner } m' → R m { m' with depth := outer }

namespace Machine.Lasting

variable {R : Machine → Machine → Prop} (h : Lasting R) {α β : Type} {p : Run α}

include h

theorem bind {f : α → Run β} (hp : ∀ m, R m (p m).machine) (hf : ∀ a m, R m (f a m).machine)
    (m : Machine) : R m ((p >>= f) m).machine := by
  have hfirst := hp m
  rw [Run.bind_apply]
  cases hout : p m with
  | done a m' =>
    rw [hout] at hfirst
    exact h.trans hfirst (hf a m')
  | failed e m' | unfinished m' =>
    rw [hout] at hfirst
    exact hfirst

theorem orElse {f : Fault → Run α} (hp : ∀ m, R m (p m).machine)
    (hf : ∀ e m, R m (f e m).machine) (m : Machine) : R m (Run.orElse p f m).machine := by
  have hfirst := hp m
  rw [Run.orElse]
  cases hout : p m with
  | failed e m' =>
    rw [hout] at hfirst
    exact h.trans hfirst (hf e m')
  | done a m' | unfinished m' =>
    rw [hout] at hfirst
    exact hfirst

/-- Every part of a run keeps to the relation. -/
def correspondence : Correspondence Run Run where
  Rel _ p _ := ∀ m, R m (p m).machine
  own _ := True
  anywhere hp := hp
  pure _ _ m := h.refl m
  bind hp hf := h.bind hp hf
  act {_ _ i} _ m := h.instr i m
  withScope home hf := h.bind (h.instr (.newScope home)) fun scope => hf scope trivial
  inScope {_ p _ scope} _ hp m := by
    change R m ((p { m with scope }).mapMachine _).machine
    rw [Outcome.machine_mapMachine]
    exact h.scope (hp _)
  asCall {_ p _} span hp := by
    refine h.bind (h.instr (.enter span)) fun _ m => ?_
    change R m ((p { m with depth := m.depth + 1 }).mapMachine _).machine
    rw [Outcome.machine_mapMachine]
    exact h.depth (hp _)
  orElse hp hf := h.orElse hp hf

theorem run (p : Program) (m : Machine) : R m.reset (Machine.run p m).machine :=
  h.correspondence.runAll m.limits.fuel p m.reset

end Machine.Lasting

/-- When its lines have been taken away, the machine is the one that the run left, without them. -/
theorem Machine.machine_interpret (p : Program) (m : Machine) :
    (m.interpret p).2 = { (run p m).machine with output := #[] } := by
  rw [interpret]
  cases run p m <;> rfl

/-- Answers are taken from the front only. -/
theorem Machine.answers_run (p : Program) (m : Machine) :
    (run p m).machine.console.answers <:+ m.console.answers := by
  have hlasting : Lasting fun m m' => m'.console.answers <:+ m.console.answers := by
    refine ⟨fun _ => List.suffix_rfl, fun h h' => h'.trans h, fun i m => ?_, id, id⟩
    rw [i.machine_run]
    cases i with
    | ask prompt => exact List.tail_suffix _
    | tick span =>
      simp only [Instr.after]
      split <;> exact List.suffix_rfl
    | _ => exact List.suffix_rfl
  exact hlasting.run p m

end Vibe
