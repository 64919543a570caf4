import Mathlib.Logic.Function.Iterate
import Vibe.Proofs.Machine.Lexical

/-! The passes of an `each` loop. What they run through is fixed before the first of them, whatever
they do then, and all of them share one scope. -/

namespace Vibe

/-- The numbers from `x` on in steps of one, as long as they are not above `last`. -/
def countUp (x last : Float) (k : Nat) : Option Value :=
  if ∀ j ≤ k, (· + 1.0)^[j] x ≤ last then some (.number ((· + 1.0)^[k] x)) else none

/-- What a loop runs through, as it is when the loop begins: the numbers of a range, the items of an
array or the characters of a text. Its parts have been evaluated then. -/
inductive Sweep.Fixes (n : Nat) : Sweep → Machine → (Nat → Option Value) → Machine → Prop
  | range {first last : Expr} {x y : Float} {m m' m'' : Machine} :
      (Interpreter.eval n first : Run Value) m = .done (.number x) m' →
      (Interpreter.eval n last : Run Value) m' = .done (.number y) m'' →
      Fixes n (.range first last) m (countUp x y) m''
  | array {e : Expr} {id : Nat} {m m' : Machine} :
      (Interpreter.eval n e : Run Value) m = .done (.array id) m' →
      Fixes n (.items e) m (fun k => (m'.store.items id)[k]?) m'
  | text {e : Expr} {s : String} {m m' : Machine} :
      (Interpreter.eval n e : Run Value) m = .done (.string s) m' →
      Fixes n (.items e) m (fun k => s.toList[k]?.map Value.ofChar) m'

/-- A pass of a loop: the machine that its body starts from, and how it ends. -/
structure Pass where
  start : Machine
  outcome : Outcome Flow

/-- A machine where a pass begins: the variable is bound anew in the scope of the loop. -/
def Machine.begun (m : Machine) (loop : Nat) (var : String) (v : Value) : Machine :=
  { m with store := m.store.define var v .hold loop, scope := loop }

/-- A machine where a pass has ended, in the scope around the loop. -/
def Machine.ended (m m' : Machine) : Machine :=
  { m' with scope := m.scope }

/-- What comes of a loop when a pass ends it, in the scope of the first machine. -/
inductive Leaves (m : Machine) : Outcome Flow → Outcome Flow → Prop
  | stop {m' : Machine} : Leaves m (.done .stop m') (.done .normal (m.ended m'))
  | give {v : Value} {m' : Machine} : Leaves m (.done (.give v) m') (.done (.give v) (m.ended m'))
  | failed {f : Fault} {m' : Machine} : Leaves m (.failed f m') (.failed f (m.ended m'))
  | unfinished {m' : Machine} : Leaves m (.unfinished m') (.unfinished (m.ended m'))

/-- The passes of a loop when `k` of them have ended, and what comes of the loop. A pass that ends
normally, or by a `skip`, is followed by the next, as long as there is a value for it. -/
inductive Course (run : Run Flow) (var : String) (loop : Nat) (seq : Nat → Option Value) :
    (k : Nat) → Machine → List Pass → Outcome Flow → Prop
  | complete {k : Nat} {m : Machine} : seq k = none →
      Course run var loop seq k m [] (.done .normal m)
  | next {k : Nat} {m m' : Machine} {v : Value} {flow : Flow} {passes : List Pass}
      {o : Outcome Flow} : seq k = some v → run (m.begun loop var v) = .done flow m' →
      flow = .normal ∨ flow = .skip → Course run var loop seq (k + 1) (m.ended m') passes o →
      Course run var loop seq k m (⟨m.begun loop var v, .done flow m'⟩ :: passes) o
  | last {k : Nat} {m : Machine} {v : Value} {o o' : Outcome Flow} : seq k = some v →
      run (m.begun loop var v) = o → Leaves m o o' →
      Course run var loop seq k m [⟨m.begun loop var v, o⟩] o'
  /-- There is no fuel for another pass. -/
  | cut {k : Nat} {m : Machine} : Course run var loop seq k m [] (.unfinished m)

open Interpreter (eachPass afterPass repeatItems repeatRange eachLoop)

variable {exec : Stmt → Run Flow} {body : Stmt} {var : String} {loop k : Nat}
  {seq : Nat → Option Value} {v : Value} {m : Machine}

/-! ### How loops run -/

namespace Run

variable {α β : Type} {p : Run α} {f : α → Run β} {m m' m'' : Machine} {a : α} {b : β}

theorem bind_of_done (h : p m = .done a m') : (p >>= f) m = f a m' := by
  rw [bind_apply, h]

theorem exists_of_bind (h : (p >>= f) m = .done b m'') :
    ∃ a m', p m = .done a m' ∧ f a m' = .done b m'' := by
  rw [bind_apply] at h
  cases hp : p m with
  | done a m' =>
    rw [hp] at h
    exact ⟨a, m', rfl, h⟩
  | failed e m' | unfinished m' =>
    rw [hp] at h
    cases h

end Run

theorem eachPass_apply (exec : Stmt → Run Flow) (loop : Nat) (var : String) (body : Stmt)
    (v : Value) (m : Machine) : eachPass exec loop var body v m =
      (exec body (m.begun loop var v)).mapMachine m.ended :=
  rfl

/-- A pass, and what follows it. -/
theorem exists_course_of_pass {rest : Run Flow} (hv : seq k = some v)
    (hrest : ∀ m, ∃ passes, Course (exec body) var loop seq (k + 1) m passes (rest m))
    (m : Machine) : ∃ passes, Course (exec body) var loop seq k m passes
      ((eachPass exec loop var body v >>= afterPass rest) m) := by
  rw [Run.bind_apply, eachPass_apply]
  cases hbody : exec body (m.begun loop var v) with
  | done flow m' =>
    cases flow with
    | normal =>
      obtain ⟨passes, hpasses⟩ := hrest (m.ended m')
      exact ⟨_, .next hv hbody (.inl rfl) hpasses⟩
    | skip =>
      obtain ⟨passes, hpasses⟩ := hrest (m.ended m')
      exact ⟨_, .next hv hbody (.inr rfl) hpasses⟩
    | stop => exact ⟨_, .last hv hbody .stop⟩
    | give w => exact ⟨_, .last hv hbody .give⟩
  | failed f m' => exact ⟨_, .last hv hbody .failed⟩
  | unfinished m' => exact ⟨_, .last hv hbody .unfinished⟩

theorem exists_course_items (exec : Stmt → Run Flow) (body : Stmt) (var : String) (loop : Nat)
    {vs : List Value} (hseq : ∀ i, seq (k + i) = vs[i]?) (m : Machine) :
    ∃ passes, Course (exec body) var loop seq k m passes
      (repeatItems (eachPass exec loop var body) vs m) := by
  induction vs generalizing k m with
  | nil => exact ⟨[], .complete (hseq 0)⟩
  | cons v vs ih =>
    rw [Interpreter.repeatItems_cons]
    refine exists_course_of_pass (hseq 0) (fun m => ih (fun i => ?_) m) m
    rw [Nat.add_assoc, Nat.add_comm 1 i]
    exact hseq (i + 1)

/-- The numbers up to the `k`th one are not above the last. -/
theorem exists_course_range (exec : Stmt → Run Flow) (body : Stmt) (var : String) (loop : Nat)
    {x last : Float} (hle : ∀ j < k, (· + 1.0)^[j] x ≤ last) (n : Nat) (m : Machine) :
    ∃ passes, Course (exec body) var loop (countUp x last) k m passes
      (repeatRange (eachPass exec loop var body) last n ((· + 1.0)^[k] x) m) := by
  induction n generalizing k m with
  | zero => exact ⟨[], .cut⟩
  | succ n ih =>
    rw [Interpreter.repeatRange_succ]
    split
    · next hk =>
      have hle' : ∀ j < k + 1, (· + 1.0)^[j] x ≤ last := by
        intro j hj
        obtain hj | rfl := Nat.lt_succ_iff_lt_or_eq.1 hj
        · exact hle j hj
        · exact hk
      have hv : countUp x last k = some (.number ((· + 1.0)^[k] x)) :=
        if_pos fun j hj => hle' j (Nat.lt_succ_of_le hj)
      refine exists_course_of_pass hv (fun m => ?_) m
      rw [← Function.iterate_succ_apply' (· + 1.0)]
      exact ih hle' m
    · next hk => exact ⟨[], .complete (if_neg fun h => hk (h k (Nat.le_refl k)))⟩

section EachLoop

variable {n : Nat} {sweep : Sweep} {span : Span} {m' : Machine}

theorem eachLoop_range_apply (n : Nat) (var : String) (first last : Expr) (body : Stmt)
    (span : Span) (m : Machine) :
    (eachLoop n (Interpreter.eval n) (Interpreter.exec n) var (.range first last) body span :
      Run Flow) m = (do
        let x ← Interpreter.eval n first
        let y ← Interpreter.eval n last
        match x, y with
        | .number x, .number y =>
          repeatRange (eachPass (Interpreter.exec n) m.store.scopes.size var body) y n x
        | _, _ => Interpreter.fail .rangeBoundsNotNumbers span : Run Flow)
        ((Instr.newScope none).after m) :=
  rfl

theorem eachLoop_items_apply (n : Nat) (var : String) (e : Expr) (body : Stmt) (span : Span)
    (m : Machine) :
    (eachLoop n (Interpreter.eval n) (Interpreter.exec n) var (.items e) body span : Run Flow) m =
      (do
        let v ← Interpreter.eval n e
        let items ← Interpreter.act (.items v span)
        repeatItems (eachPass (Interpreter.exec n) m.store.scopes.size var body) items : Run Flow)
        ((Instr.newScope none).after m) :=
  rfl

/-- A loop whose values are fixed runs through them. -/
theorem Sweep.Fixes.exists_course (h : sweep.Fixes n ((Instr.newScope none).after m) seq m')
    (var : String) (body : Stmt) (span : Span) : ∃ passes,
      Course (Interpreter.exec n body) var m.store.scopes.size seq 0 m' passes
        ((eachLoop n (Interpreter.eval n) (Interpreter.exec n) var sweep body span : Run Flow)
          m) := by
  cases h with
  | range hfirst hlast =>
    rw [eachLoop_range_apply, Run.bind_of_done hfirst, Run.bind_of_done hlast]
    exact exists_course_range (k := 0) (Interpreter.exec n) body var _ nofun n m'
  | @array e id _ _ hvalue =>
    have hitems : (Interpreter.act (.items (.array id) span) : Run (List Value)) m' =
        .done (m'.store.items id).toList m' := rfl
    rw [eachLoop_items_apply, Run.bind_of_done hvalue, Run.bind_of_done hitems]
    exact exists_course_items (Interpreter.exec n) body var _ (fun i => by simp) m'
  | @text e s _ _ hvalue =>
    have hitems : (Interpreter.act (.items (.string s) span) : Run (List Value)) m' =
        .done (s.toList.map Value.ofChar) m' := rfl
    rw [eachLoop_items_apply, Run.bind_of_done hvalue, Run.bind_of_done hitems]
    exact exists_course_items (Interpreter.exec n) body var _ (fun i => by simp) m'

/-- A loop that comes to an end has had its values fixed. -/
theorem Sweep.exists_fixes {flow : Flow}
    (h : (eachLoop n (Interpreter.eval n) (Interpreter.exec n) var sweep body span : Run Flow) m =
      .done flow m') :
    ∃ seq m', sweep.Fixes n ((Instr.newScope none).after m) seq m' := by
  cases sweep with
  | range first last =>
    rw [eachLoop_range_apply] at h
    obtain ⟨x, m₁, hfirst, h⟩ := Run.exists_of_bind h
    obtain ⟨y, m₂, hlast, h⟩ := Run.exists_of_bind h
    cases x with
    | number x =>
      cases y with
      | number y => exact ⟨_, _, .range hfirst hlast⟩
      | _ => cases h
    | _ => cases h
  | items e =>
    rw [eachLoop_items_apply] at h
    obtain ⟨v, m₁, hvalue, h⟩ := Run.exists_of_bind h
    cases v with
    | array id => exact ⟨_, _, .array hvalue⟩
    | string s => exact ⟨_, _, .text hvalue⟩
    | _ => cases h

end EachLoop

/-! ### What passes have in common -/

theorem Leaves.store_eq {o o' : Outcome Flow} (h : Leaves m o o') :
    o'.machine.store = o.machine.store := by
  cases h <;> rfl

/-- The variable is bound in the scope of the loop, and may be assigned to. -/
theorem binding?_begun (hloop : loop < m.store.scopes.size) (var : String) (v : Value) :
    (m.begun loop var v).store.binding? var loop = some ⟨var, v, .hold⟩ := by
  have hscopes := Store.scopes_define m.store var v .hold loop
  rw [Machine.begun, Store.binding?_modify_self hscopes (Array.getElem?_eq_getElem hloop)]
  exact Scope.find?_define_self

namespace Course

variable {run : Run Flow} {passes : List Pass} {o : Outcome Flow}

theorem outcome_eq (h : Course run var loop seq k m passes o) :
    ∀ p ∈ passes, p.outcome = run p.start := by
  induction h with
  | complete | cut => exact fun _ hp => (List.not_mem_nil hp).elim
  | next _ hrun _ _ ih =>
    intro p hp
    obtain rfl | hp := List.mem_cons.1 hp
    · exact hrun.symm
    · exact ih p hp
  | last _ hrun _ =>
    intro p hp
    obtain rfl := List.mem_singleton.1 hp
    exact hrun.symm

section Keeps

variable (hrun : ∀ m : Machine, m.store.Keeps (run m).machine.store)
include hrun

theorem keeps_ended {v : Value} {o : Outcome Flow} (hbody : run (m.begun loop var v) = o) :
    m.store.Keeps o.machine.store :=
  (Store.Keeps.define _ _ _ _ _).trans (hbody ▸ hrun (m.begun loop var v))

theorem keeps (h : Course run var loop seq k m passes o) : m.store.Keeps o.machine.store := by
  induction h with
  | complete | cut => exact .refl _
  | next _ hbody _ _ ih => exact (keeps_ended hrun hbody).trans ih
  | last _ hbody hleaves =>
    rw [hleaves.store_eq]
    exact keeps_ended hrun hbody

/-- A later pass takes nothing from the store that a pass leaves. -/
theorem keeps_pass (h : Course run var loop seq k m passes o) :
    ∀ p ∈ passes, m.store.Keeps p.start.store ∧
      p.outcome.machine.store.Keeps o.machine.store := by
  induction h with
  | complete | cut => exact fun _ hp => (List.not_mem_nil hp).elim
  | @next _ m m' v _ _ _ _ hbody _ hrest ih =>
    intro p hp
    have hlater := hrest.keeps hrun
    obtain rfl | hp := List.mem_cons.1 hp
    · exact ⟨.define _ _ _ _ _, hlater⟩
    · exact ⟨(keeps_ended hrun hbody).trans (ih p hp).1, (ih p hp).2⟩
  | last _ _ hleaves =>
    intro p hp
    obtain rfl := List.mem_singleton.1 hp
    refine ⟨.define _ _ _ _ _, ?_⟩
    rw [hleaves.store_eq]
    exact .refl _

/-- Each pass begins with the variable bound to the value that is next. -/
theorem start_of_getElem? (h : Course run var loop seq k m passes o)
    (hloop : loop < m.store.scopes.size) {i : Nat} {p : Pass} (hp : passes[i]? = some p) :
    p.start.scope = loop ∧ ∃ v, seq (k + i) = some v ∧
      p.start.store.binding? var loop = some ⟨var, v, .hold⟩ := by
  induction h generalizing i with
  | complete | cut => cases hp
  | @next k m m' v _ _ _ hv hbody _ _ ih =>
    cases i with
    | zero =>
      cases hp
      exact ⟨rfl, v, hv, binding?_begun hloop var v⟩
    | succ i =>
      have hkeeps : m.store.Keeps m'.store := keeps_ended hrun hbody
      have hrest := ih (Nat.lt_of_lt_of_le hloop hkeeps.size) hp
      rwa [Nat.add_assoc, Nat.add_comm 1 i] at hrest
  | @last k m v _ _ hv _ _ =>
    cases i with
    | zero =>
      cases hp
      exact ⟨rfl, v, hv, binding?_begun hloop var v⟩
    | succ i => cases hp

end Keeps

theorem mem_getLast?_cons {p : Pass} (q : Pass) (h : p ∈ passes.getLast?) :
    p ∈ (q :: passes).getLast? := by
  rw [List.getLast?_cons, Option.mem_def.1 h]
  rfl

/-- A loop comes to an end when there is no further value, or by a `stop` or a `give` of its last
pass. -/
theorem of_done (h : Course run var loop seq k m passes o) {flow : Flow} {m' : Machine}
    (ho : o = .done flow m') :
    (flow = .normal ∧ seq (k + passes.length) = none) ∨ ∃ p ∈ passes.getLast?, ∃ m'',
      (p.outcome = .done .stop m'' ∧ flow = .normal) ∨
        ∃ v, p.outcome = .done (.give v) m'' ∧ flow = .give v := by
  induction h with
  | complete hnone =>
    cases ho
    exact .inl ⟨rfl, hnone⟩
  | cut => cases ho
  | next _ _ _ _ ih =>
    obtain ⟨hflow, hnone⟩ | ⟨p, hp, hend⟩ := ih ho
    · rw [Nat.add_assoc, Nat.add_comm 1] at hnone
      exact .inl ⟨hflow, hnone⟩
    · exact .inr ⟨p, mem_getLast?_cons _ hp, hend⟩
  | last _ _ hleaves =>
    right
    subst ho
    cases hleaves with
    | stop => exact ⟨_, rfl, _, .inl ⟨rfl, rfl⟩⟩
    | give => exact ⟨_, rfl, _, .inr ⟨_, rfl, rfl⟩⟩

/-- A loop fails as its last pass does. -/
theorem of_failed (h : Course run var loop seq k m passes o) {f : Fault} {m' : Machine}
    (ho : o = .failed f m') :
    ∃ p ∈ passes.getLast?, ∃ m'', p.outcome = .failed f m'' := by
  induction h with
  | complete | cut => cases ho
  | next _ _ _ _ ih =>
    obtain ⟨p, hp, hfailed⟩ := ih ho
    exact ⟨p, mem_getLast?_cons _ hp, hfailed⟩
  | last _ _ hleaves =>
    subst ho
    cases hleaves
    exact ⟨_, rfl, _, rfl⟩

end Course

/-! ### What passes see -/

/-- A loop whose `passes` run through a sequence, and what comes `out` of it. Before them the
machine is `m`. -/
structure RunsThrough (n : Nat) (body : Stmt) (var : String) (loop : Nat)
    (seq : Nat → Option Value) (m : Machine) (out : Outcome Flow) (passes : List Pass) : Prop where
  course : Course (Interpreter.exec n body) var loop seq 0 m passes out
  /-- Each pass begins with the next value, which may be assigned to, and in the same scope. -/
  starts : ∀ (k : Nat) (p : Pass), passes[k]? = some p → p.start.scope = loop ∧
    ∃ v, seq k = some v ∧ p.start.store.binding? var loop = some ⟨var, v, .hold⟩
  /-- When the loop comes to an end there are no values left, or its last pass has ended it. -/
  finished : ∀ (flow : Flow) (m' : Machine), out = .done flow m' →
    (flow = .normal ∧ seq passes.length = none) ∨ ∃ p ∈ passes.getLast?, ∃ m'',
      (p.outcome = .done .stop m'' ∧ flow = .normal) ∨
        ∃ v, p.outcome = .done (.give v) m'' ∧ flow = .give v
  failed : ∀ (f : Fault) (m' : Machine), out = .failed f m' →
    ∃ p ∈ passes.getLast?, ∃ m'', p.outcome = .failed f m''
  /-- The skills that a pass makes have homes within the scope of the loop, and are there for
  good. -/
  skills : ∀ p ∈ passes, ∀ calls,
    ∀ mo ∈ ((Interpreter.exec n body : Watched Flow) calls p.start).2, mo.calls = calls →
      ∀ name params code, mo.next = ⟨Value, .newSkill name params code⟩ →
        mo.left.store.skills[mo.machine.store.skills.size]? =
          some ⟨name, params, code, mo.machine.scope⟩ ∧
        loop ∈ mo.left.store.chain mo.machine.scope ∧
        p.start.store.Keeps mo.left.store ∧ mo.left.store.Keeps out.machine.store
  /-- Whenever a skill with such a home is called, in the loop or after it, all that its body does
  in the current scope, it does where the variable is seen in the scope of the loop. -/
  called : ∀ p ∈ passes, ∀ later : Machine, p.start.store.Keeps later.store →
    ∀ skill : Skill, loop ∈ later.store.chain skill.home → ∀ (n : Nat) args span calls,
      ∀ mo ∈ ((Interpreter.callSkill (Interpreter.exec n) skill args span : Watched Value) calls
          later).2,
        mo.calls = span :: calls → Instr.isLocal mo.next.2 = true →
          mo.machine.store.Sees var loop mo.machine.scope

section Seen

variable {n : Nat} {seq : Nat → Option Value} {out : Outcome Flow} {passes : List Pass}

theorem outcome_exec (n : Nat) (s : Stmt) (calls : List Span) (m : Machine) :
    ((Interpreter.exec n s : Watched Flow) calls m).1 = (Interpreter.exec n s : Run Flow) m :=
  ((watching.eval_exec n).2 s).outcome calls m

theorem keeps_exec (n : Nat) (s : Stmt) (m : Machine) :
    m.store.Keeps ((Interpreter.exec n s : Run Flow) m).machine.store := by
  rw [← outcome_exec n s [] m]
  exact (((Watched.Lexical.eval_exec n).2 s).onward [] m).store

theorem keeps_eval {e : Expr} {v : Value} {m' : Machine}
    (h : (Interpreter.eval n e : Run Value) m = .done v m') : m.store.Keeps m'.store := by
  rw [← ((watching.eval_exec n).1 e).outcome [] m] at h
  exact (((Watched.Lexical.eval_exec n).1 e).onward_of_done h).store

theorem Sweep.Fixes.keeps {sweep : Sweep} {m' : Machine} (h : sweep.Fixes n m seq m') :
    m.store.Keeps m'.store := by
  cases h with
  | range hfirst hlast => exact (keeps_eval hfirst).trans (keeps_eval hlast)
  | array hvalue => exact keeps_eval hvalue
  | text hvalue => exact keeps_eval hvalue

theorem Course.start_scope (h : Course (Interpreter.exec n body) var loop seq 0 m passes out)
    (hloop : loop < m.store.scopes.size) {p : Pass} (hp : p ∈ passes) :
    p.start.scope = loop ∧ p.start.Around none ∧
      (p.start.store.binding? var loop).isSome = true := by
  obtain ⟨i, hi⟩ := List.mem_iff_getElem?.1 hp
  obtain ⟨hscope, v, -, hv⟩ := h.start_of_getElem? (keeps_exec n body) hloop hi
  refine ⟨hscope, ⟨?_, nofun, nofun⟩, by rw [hv]; rfl⟩
  rw [hscope]
  exact Store.lt_size_of_binding hv

/-- A skill that a pass makes has its home within the scope of the loop. -/
theorem Course.skill_made (h : Course (Interpreter.exec n body) var loop seq 0 m passes out)
    (hloop : loop < m.store.scopes.size) {p : Pass} (hp : p ∈ passes) {calls : List Span}
    {mo : Moment} (hmo : mo ∈ ((Interpreter.exec n body : Watched Flow) calls p.start).2)
    (hcalls : mo.calls = calls) {name : String} {params : List String} {code : List Stmt}
    (hnext : mo.next = ⟨Value, .newSkill name params code⟩) :
    mo.left.store.skills[mo.machine.store.skills.size]? =
        some ⟨name, params, code, mo.machine.scope⟩ ∧
      loop ∈ mo.left.store.chain mo.machine.scope ∧
      p.start.store.Keeps mo.left.store ∧ mo.left.store.Keeps out.machine.store := by
  have hlexical := (Watched.Lexical.eval_exec n).2 body
  obtain ⟨hscope, hhere, -⟩ := h.start_scope hloop hp
  have hchain := hlexical.within calls p.start hhere mo hmo hcalls
  rw [hscope] at hchain
  have hamid := hlexical.amid calls p.start mo hmo
  have hmade : mo.machine.store.Keeps mo.left.store := mo.next.2.keeps_after mo.machine
  refine ⟨?_, hmade.mem_chain hchain, hamid.before.trans hmade, ?_⟩
  · rw [Moment.left, hnext]
    exact Array.getElem?_push_size
  · have hafter := hamid.after
    rw [outcome_exec, ← h.outcome_eq p hp] at hafter
    exact hafter.trans (h.keeps_pass (keeps_exec n body) p hp).2

/-- What a skill does whose home is there, it does where it sees the variable. -/
theorem Course.skill_called (h : Course (Interpreter.exec n body) var loop seq 0 m passes out)
    (hloop : loop < m.store.scopes.size) {p : Pass} (hp : p ∈ passes) {later : Machine}
    (hlater : p.start.store.Keeps later.store) {skill : Skill}
    (hhome : loop ∈ later.store.chain skill.home) (n' : Nat) (args : List Value) (span : Span)
    (calls : List Span) {mo : Moment}
    (hmo : mo ∈ ((Interpreter.callSkill (Interpreter.exec n') skill args span : Watched Value)
      calls later).2)
    (hcalls : mo.calls = span :: calls) (hlocal : Instr.isLocal mo.next.2 = true) :
    mo.machine.store.Sees var loop mo.machine.scope := by
  have hcall : Watched.Lexical none (Interpreter.callSkill (Interpreter.exec n') skill args span) :=
    .callSkill (Watched.Lexical.eval_exec n').2 skill args span
  have hbefore := (hcall.amid calls later mo hmo).before
  have hsize := (Store.mem_chain_iff.1 hhome).1
  have hmem := Watched.within_home n' hsize args span calls hmo hcalls hlocal
  have hchain := Store.mem_chain_trans (hbefore.mem_chain hhome) hmem
  obtain ⟨-, -, hbound⟩ := h.start_scope hloop hp
  exact Store.sees_of_mem_chain hchain ((hlater.trans hbefore).names _ _ hbound)

end Seen

/-- What a loop runs through is fixed when it begins, and its passes run through that in order,
whatever they do to the variable, to the array or to what the range was given by. Each of them
begins with the variable bound to the next value in the one scope of the loop, where it may be
assigned to. Only a `stop`, a `give` or a failure of a pass ends the loop before that, and the
skills that any of the passes make see the variable in that same scope. -/
theorem Machine.passes_fixed (n : Nat) (m : Machine) (var : String) (sweep : Sweep) (body : Stmt)
    (span : Span) (out : Outcome Flow)
    (hout : (Interpreter.execStep n (Interpreter.eval n) (Interpreter.exec n)
      (.each var sweep body span) : Run Flow) m = out) :
    (∀ flow m', out = .done flow m' →
      ∃ seq m', sweep.Fixes n ((Instr.newScope none).after m) seq m') ∧
    ∀ seq m', sweep.Fixes n ((Instr.newScope none).after m) seq m' →
      ∃ passes, RunsThrough n body var m.store.scopes.size seq m' out passes := by
  subst hout
  refine ⟨fun flow m' hdone => Sweep.exists_fixes hdone, fun seq m' hfixes => ?_⟩
  obtain ⟨passes, hcourse⟩ := hfixes.exists_course var body span
  have hloop : m.store.scopes.size < m'.store.scopes.size := by
    refine Nat.lt_of_lt_of_le ?_ hfixes.keeps.size
    rw [Instr.after, Store.newScope, Array.size_push]
    exact Nat.lt_succ_self _
  refine ⟨passes, hcourse, fun k p hp => ?_, fun flow m'' hdone => ?_, fun f m'' hfailed => ?_,
    fun p hp calls mo hmo hcalls name params code hnext => ?_, ?_⟩
  · have hstart := hcourse.start_of_getElem? (keeps_exec n body) hloop hp
    rwa [Nat.zero_add] at hstart
  · have hend := hcourse.of_done hdone
    rwa [Nat.zero_add] at hend
  · exact hcourse.of_failed hfailed
  · exact hcourse.skill_made hloop hp hmo hcalls hnext
  · intro p hp later hlater skill hhome n' args span calls mo hmo
    exact hcourse.skill_called hloop hp hlater hhome n' args span calls hmo

/-- A machine with nothing in its scope. -/
def Machine.blank : Machine where
  store := { scopes := #[{}] }
  scope := 0
  limits := {}
  console := {}

/-- A body that locks the variable of the loop. -/
def Stmt.lockVar : Stmt :=
  .bind .lock "c" (.literal .null .nowhere) .nowhere

/-- The loop over two letters. -/
def Machine.lockingRun : Outcome Flow :=
  (Interpreter.execStep 3 (Interpreter.eval 3) (Interpreter.exec 3)
    (.each "c" (.items (.literal (.string "ab") .nowhere)) .lockVar .nowhere) : Run Flow) .blank

/-- Whether a statement has ended normally. -/
def Outcome.isNormal : Outcome Flow → Bool
  | .done .normal _ => true
  | _ => false

theorem Machine.passes_fixed_lockVar : Machine.lockingRun.isNormal = true ∧
    ∃ m', Sweep.Fixes 3 (.items (.literal (.string "ab") .nowhere))
      ((Instr.newScope none).after .blank) (fun k => "ab".toList[k]?.map Value.ofChar) m' ∧
    ∃ passes, RunsThrough 3 .lockVar "c" 1 (fun k => "ab".toList[k]?.map Value.ofChar) m'
      Machine.lockingRun passes := by
  have hvalue : (Interpreter.eval 3 (.literal (.string "ab") .nowhere) : Run Value)
      ((Instr.newScope none).after .blank) =
        .done (.string "ab") ((Instr.tick .nowhere).after ((Instr.newScope none).after .blank)) :=
    rfl
  have hfixes := Sweep.Fixes.text hvalue
  exact ⟨by decide +kernel, _, hfixes,
    (Machine.passes_fixed 3 .blank "c" _ .lockVar .nowhere _ rfl).2 _ _ hfixes⟩

end Vibe
