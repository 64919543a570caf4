import Vibe.Proofs.Machine.Watching
import Vibe.Proofs.Store.Growth

/-! What is seen of a run lies between what it starts from and what it leaves. The calls that were
in progress before are still in progress, and nothing is taken from the store. -/

namespace Vibe

variable {α β : Type}

theorem Builtin.skills_call (b : Builtin) (args : List Value) (st : Store) :
    (b.call args st).2.skills = st.skills := by
  fun_cases Builtin.call b args st <;> rfl

/-- No instruction takes anything from the store. -/
theorem Instr.keeps_after (i : Instr α) (m : Machine) : m.store.Keeps (i.after m).store := by
  cases i with
  | tick span =>
    simp only [after]
    split <;> exact .refl _
  | assign name v span => exact .assign _ _ _ _
  | newScope home => exact .newScope _ _
  | define name v binder scope => exact .define _ _ _ _ _
  | newSkill name params body => exact .newSkill _ _
  | newArray values => exact .of_eq rfl fun _ _ => id
  | builtin b args span =>
    refine .of_eq (b.scopes_call args m.store) fun id s hs => ?_
    rwa [after, b.skills_call]
  | _ => exact .refl _

/-- The scope is the same, and nothing is taken from the store. -/
structure Machine.Onward (m m' : Machine) : Prop where
  scope : m'.scope = m.scope
  store : m.store.Keeps m'.store

namespace Machine.Onward

variable {m m' m'' : Machine}

theorem refl (m : Machine) : m.Onward m :=
  ⟨rfl, .refl _⟩

theorem trans (h : m.Onward m') (h' : m'.Onward m'') : m.Onward m'' :=
  ⟨h'.scope.trans h.scope, h.store.trans h'.store⟩

end Machine.Onward

namespace Moment

/-- The machine when the instruction has been carried out. -/
def left (mo : Moment) : Machine :=
  mo.next.2.after mo.machine

/-- What is seen between one machine and another, when there are calls in progress. -/
structure Amid (mo : Moment) (calls : List Span) (m m' : Machine) : Prop where
  calls : calls <:+ mo.calls
  before : m.store.Keeps mo.machine.store
  after : mo.left.store.Keeps m'.store

variable {mo : Moment} {calls : List Span} {m₀ m m' m'' : Machine}

theorem Amid.since (h : mo.Amid calls m m') (hm : m₀.store.Keeps m.store) : mo.Amid calls m₀ m' :=
  ⟨h.calls, hm.trans h.before, h.after⟩

theorem Amid.until (h : mo.Amid calls m m') (hm : m'.store.Keeps m''.store) :
    mo.Amid calls m m'' :=
  ⟨h.calls, h.before, h.after.trans hm⟩

end Moment

namespace Watched

/-- A part of a run that is in the same scope afterwards and takes nothing from the store, and all
that is seen of it is seen on the way. -/
structure Steady (p : Watched α) : Prop where
  onward : ∀ (calls : List Span) (m : Machine), m.Onward (p calls m).1.machine
  amid : ∀ calls m, ∀ mo ∈ (p calls m).2, Moment.Amid mo calls m (p calls m).1.machine

namespace Steady

variable {p : Watched α}

theorem pure (a : α) : (Pure.pure a : Watched α).Steady :=
  ⟨fun _ m => .refl m, fun _ _ _ hmo => (List.not_mem_nil hmo).elim⟩

theorem act (i : Instr α) : (Watched.act i).Steady where
  onward _ m := by
    refine ⟨(i.stays_run m).scope, ?_⟩
    change m.store.Keeps (i.run m).machine.store
    rw [i.machine_run]
    exact i.keeps_after m
  amid calls m mo hmo := by
    obtain rfl := List.mem_singleton.1 hmo
    refine ⟨List.suffix_rfl, .refl _, ?_⟩
    change (i.after m).store.Keeps (i.run m).machine.store
    rw [i.machine_run]
    exact .refl _

theorem onward_of_done (h : p.Steady) {calls : List Span} {m m' : Machine} {a : α}
    (hout : (p calls m).1 = .done a m') : m.Onward m' := by
  have honward := h.onward calls m
  rwa [hout] at honward

theorem onward_of_failed (h : p.Steady) {calls : List Span} {m m' : Machine} {e : Fault}
    (hout : (p calls m).1 = .failed e m') : m.Onward m' := by
  have honward := h.onward calls m
  rwa [hout] at honward

theorem onward_bind {f : α → Watched β} (hf : ∀ a, (f a).Steady) (p : Watched α)
    (calls : List Span) (m : Machine) :
    (p calls m).1.machine.Onward ((p >>= f) calls m).1.machine := by
  rw [fst_bind]
  cases (p calls m).1 with
  | done a m' => exact (hf a).onward calls m'
  | failed e m' | unfinished m' => exact .refl m'

theorem bind {f : α → Watched β} (h : p.Steady) (hf : ∀ a, (f a).Steady) :
    (p >>= f).Steady where
  onward calls m := (h.onward calls m).trans (onward_bind hf p calls m)
  amid calls m mo hmo := by
    rcases mem_bind.1 hmo with hseen | ⟨a, m', hout, hlater⟩
    · exact (h.amid calls m mo hseen).until (onward_bind hf p calls m).store
    · rw [fst_bind, hout]
      exact ((hf a).amid calls m' mo hlater).since (h.onward_of_done hout).store

theorem onward_orElse {f : Fault → Watched α} (hf : ∀ e, (f e).Steady) (p : Watched α)
    (calls : List Span) (m : Machine) :
    (p calls m).1.machine.Onward ((Watched.orElse p f) calls m).1.machine := by
  rw [fst_orElse]
  cases (p calls m).1 with
  | failed e m' => exact (hf e).onward calls m'
  | done a m' | unfinished m' => exact .refl m'

theorem orElse {f : Fault → Watched α} (h : p.Steady) (hf : ∀ e, (f e).Steady) :
    (Watched.orElse p f).Steady where
  onward calls m := (h.onward calls m).trans (onward_orElse hf p calls m)
  amid calls m mo hmo := by
    rcases mem_orElse.1 hmo with hseen | ⟨e, m', hout, hlater⟩
    · exact (h.amid calls m mo hseen).until (onward_orElse hf p calls m).store
    · rw [fst_orElse, hout]
      exact ((hf e).amid calls m' mo hlater).since (h.onward_of_failed hout).store

theorem inScope (scope : Nat) (h : p.Steady) : (Watched.inScope scope p).Steady where
  onward calls m := by
    have hp := h.onward calls { m with scope }
    rw [Watched.inScope, Outcome.machine_mapMachine]
    exact ⟨rfl, hp.store⟩
  amid calls m mo hmo := by
    have hp := h.amid calls { m with scope } mo hmo
    rw [Watched.inScope, Outcome.machine_mapMachine]
    exact ⟨hp.calls, hp.before, hp.after⟩

theorem deeper (span : Span) (h : p.Steady) : (Watched.deeper span p).Steady where
  onward calls m := by
    have hp := h.onward (span :: calls) { m with depth := m.depth + 1 }
    rw [Watched.deeper, Outcome.machine_mapMachine]
    exact ⟨hp.scope, hp.store⟩
  amid calls m mo hmo := by
    have hp := h.amid (span :: calls) { m with depth := m.depth + 1 } mo hmo
    rw [Watched.deeper, Outcome.machine_mapMachine]
    exact ⟨(List.suffix_cons span calls).trans hp.calls, hp.before, hp.after⟩

end Steady
end Watched

/-- Every part of a run is steady. -/
def steadying : Correspondence Watched Watched where
  Rel _ p _ := p.Steady
  own _ := True
  anywhere h := h
  pure _ a := .pure a
  bind h hf := h.bind hf
  act _ := .act _
  withScope home hf := (Watched.Steady.act (.newScope home)).bind fun scope => hf scope trivial
  inScope _ h := h.inScope _
  asCall span h := (Watched.Steady.act (.enter span)).bind fun _ => h.deeper span
  orElse h hf := h.orElse hf

end Vibe
