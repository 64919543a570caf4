import Vibe.Proofs.Machine.Steadiness
import Vibe.Proofs.Store.Rooted

/-! Runs keep every scope leading to the root scope, and all that is referred to is there: what a
part of a run comes to is in the store that it leaves. -/

namespace Vibe

variable {α β : Type} {st st' : Store} {m m' : Machine}

/-- The store is rooted, and the current scope is in it. -/
structure Machine.Rooted (m : Machine) : Prop where
  store : m.store.Rooted
  scope : m.scope < m.store.scopes.size

theorem Machine.Rooted.onward (h : m.Rooted) (hm : m.Onward m') (hst : m'.store.Rooted) :
    m'.Rooted where
  store := hst
  scope := by
    rw [hm.scope]
    exact Nat.lt_of_lt_of_le h.scope hm.store.size

/-- A part of a run goes on in the same scope with a rooted store, and what it comes to is there. -/
structure Outcome.Grounded (m : Machine) (k : Asked α) (o : Outcome α) : Prop where
  onward : m.Onward o.machine
  store : o.machine.store.Rooted
  result : ∀ a m', o = .done a m' → (Rules.inStore m'.store).Meets k a

theorem Outcome.Grounded.machine {k : Asked α} {o : Outcome α} (h : o.Grounded m k)
    (hm : m.Rooted) : o.machine.Rooted :=
  hm.onward h.onward h.store

/-! ### Instructions -/

/-- What an instruction is given stays there. -/
theorem Store.Keeps.obeys {i : Instr α} (h : st.Keeps st') (hi : i.Obeys (.inStore st)) :
    i.Obeys (.inStore st') := by
  cases i with
  | fail cause span => cases cause <;> exact hi
  | halt => exact hi
  | newScope home => exact fun scope hscope => Nat.lt_of_lt_of_le (hi scope hscope) h.size
  | assign name v span | define name v binder scope | index v position span | items v span =>
    exact h.value hi
  | newArray values | builtin b values span => exact fun v hv => h.value (hi v hv)
  | newSkill name params body => exact fun _ _ => trivial
  | skill id span => exact Nat.lt_of_lt_of_le hi h.size_skills
  | _ => trivial

theorem Run.done_of_orFail {span : Span} {r : Except RuntimeCause α} {a : α}
    (h : orFail span r m = .done a m') : r = .ok a ∧ m' = m := by
  cases r with
  | ok b =>
    cases h
    exact ⟨rfl, rfl⟩
  | error cause => cases h

/-- What a result is allowed to be it is, in the same store and in later ones. -/
theorem Run.meets_of_orFail {span : Span} {r : Except RuntimeCause α} {a : α} {k : Asked α}
    (hr : (Rules.inStore st).Allows k r) (hst : st.Keeps m.store)
    (h : orFail span r m = .done a m') : (Rules.inStore m'.store).Meets k a := by
  obtain ⟨rfl, rfl⟩ := done_of_orFail h
  exact hst.meets hr

namespace Instr

theorem rooted_after {i : Instr α} (hi : i.Obeys (.inStore m.store)) (hm : m.Rooted) :
    (i.after m).store.Rooted := by
  have hstore := hm.store
  cases i with
  | tick span =>
    simp only [after]
    split <;> exact hstore
  | assign name v span => exact hstore.assign name hi m.scope
  | newScope home =>
    apply hstore.newScope
    cases home with
    | none => exact hm.scope
    | some scope => exact hi scope rfl
  | define name v binder scope => exact hstore.define name hi binder _
  | newArray values => exact hstore.newArray fun v hv => hi v (List.mem_toArray.1 hv)
  | newSkill name params body => exact hstore.newSkill hm.scope
  | builtin b args span => exact hstore.call b hi
  | _ => exact hstore

theorem meets_run {i : Instr α} {a : α} (hi : i.Obeys (.inStore m.store)) (hm : m.Rooted)
    (h : i.run m = .done a m') : (Rules.inStore m'.store).Meets i.yields a := by
  have hsame := Store.Keeps.refl m.store
  have hread := hm.store.readable
  cases i with
  | lookup name span => exact Run.meets_of_orFail (hread.allows_get hm.scope name) hsame h
  | newScope home =>
    cases h
    change m.store.scopes.size < (m.store.scopes.push _).size
    rw [Array.size_push]
    exact Nat.lt_succ_self _
  | newArray values =>
    cases h
    trivial
  | newSkill name params body =>
    cases h
    change m.store.skills.size < (m.store.skills.push _).size
    rw [Array.size_push]
    exact Nat.lt_succ_self _
  | operate op left right span =>
    exact Run.meets_of_orFail (m.store.allows_operate op left right) hsame h
  | operateUnary op operand span =>
    exact Run.meets_of_orFail (m.store.allows_operateUnary op operand) hsame h
  | index object position span => exact Run.meets_of_orFail (hread.allows_index hi position) hsame h
  | items v span => exact Run.meets_of_orFail (hread.allows_sweepItems hi) hsame h
  | skill id span =>
    simp only [run] at h
    split at h
    · next s hs =>
      cases h
      exact ⟨hm.store.skills hs, fun _ _ => trivial⟩
    · cases h
  | builtin b args span =>
    have hkeeps := (builtin b args span).keeps_after m
    exact Run.meets_of_orFail (b.allows_call hread hi) hkeeps h
  | _ => trivial

theorem grounded_run {i : Instr α} (hi : i.Obeys (.inStore m.store)) (hm : m.Rooted) :
    (i.run m).Grounded m i.yields where
  onward := (Watched.Steady.act i).onward [] m
  store := by
    rw [i.machine_run]
    exact rooted_after hi hm
  result _ _ := meets_run hi hm

end Instr

/-- A part of a run keeps a machine rooted at all its moments, and what it comes to is there. It may
be given what is in a store, and is carried out on machines that have it still. -/
structure Watched.Grounded (st : Store) (k : Asked α) (p : Watched α) : Prop where
  outcome : ∀ calls (m : Machine), m.Rooted → st.Keeps m.store → (p calls m).1.Grounded m k
  seen : ∀ calls (m : Machine), m.Rooted → st.Keeps m.store → ∀ mo ∈ (p calls m).2,
    mo.machine.Rooted

namespace Watched.Grounded

variable {k : Asked α} {l : Asked β} {c : Place} {p : Watched α} {evalW : Expr → Watched Value}
  {execW : Stmt → Watched Flow}

theorem later (h : p.Grounded st k) (hst : st.Keeps st') : p.Grounded st' k where
  outcome calls m hm hkeeps := h.outcome calls m hm (hst.trans hkeeps)
  seen calls m hm hkeeps := h.seen calls m hm (hst.trans hkeeps)

theorem pure {a : α} (ha : (Rules.inStore st).Meets k a) :
    (Pure.pure a : Watched α).Grounded st k where
  outcome calls m hm hkeeps := by
    refine ⟨.refl m, hm.store, fun b m' hout => ?_⟩
    cases hout
    exact hkeeps.meets ha
  seen _ _ _ _ _ hmo := by cases hmo

theorem act {i : Instr α} (hi : i.Obeys (.inStore st)) :
    (Interpreter.act i : Watched α).Grounded st i.yields where
  outcome _ _ hm hkeeps := i.grounded_run (hkeeps.obeys hi) hm
  seen calls m hm _ mo hmo := by
    obtain rfl := List.mem_singleton.1 hmo
    exact hm

theorem bind {f : α → Watched β} (h : p.Grounded st k)
    (hf : ∀ st' a, st.Keeps st' → (Rules.inStore st').Meets k a → (f a).Grounded st' l) :
    (p >>= f).Grounded st l where
  outcome calls m hm hkeeps := by
    have hfirst := h.outcome calls m hm hkeeps
    have hmachine := hfirst.machine hm
    rw [fst_bind]
    cases hp : (p calls m).1 with
    | done a m' =>
      rw [hp] at hfirst hmachine
      have hrest := (hf m'.store a (hkeeps.trans hfirst.onward.store)
        (hfirst.result a m' rfl)).outcome calls m' hmachine (.refl _)
      exact ⟨hfirst.onward.trans hrest.onward, hrest.store, hrest.result⟩
    | failed e m' | unfinished m' =>
      rw [hp] at hfirst
      exact ⟨hfirst.onward, hfirst.store, nofun⟩
  seen calls m hm hkeeps mo hmo := by
    rcases mem_bind.1 hmo with hseen | ⟨a, m', hp, hlater⟩
    · exact h.seen calls m hm hkeeps mo hseen
    · have hfirst := h.outcome calls m hm hkeeps
      have hmachine := hfirst.machine hm
      rw [hp] at hfirst hmachine
      exact (hf m'.store a (hkeeps.trans hfirst.onward.store)
        (hfirst.result a m' rfl)).seen calls m' hmachine (.refl _) mo hlater

theorem orElse {f : Fault → Watched α} (h : p.Grounded st k)
    (hf : ∀ e, (f e).Grounded st k) : (Interpreter.orElse p f : Watched α).Grounded st k where
  outcome calls m hm hkeeps := by
    have hfirst := h.outcome calls m hm hkeeps
    have hmachine := hfirst.machine hm
    change (Watched.orElse p f calls m).1.Grounded m k
    rw [fst_orElse]
    cases hp : (p calls m).1 with
    | failed e m' =>
      rw [hp] at hfirst hmachine
      have hrest := (hf e).outcome calls m' hmachine (hkeeps.trans hfirst.onward.store)
      exact ⟨hfirst.onward.trans hrest.onward, hrest.store, hrest.result⟩
    | done a m' | unfinished m' =>
      rw [hp] at hfirst
      exact hfirst
  seen calls m hm hkeeps mo hmo := by
    rcases mem_orElse.1 hmo with hseen | ⟨e, m', hp, hlater⟩
    · exact h.seen calls m hm hkeeps mo hseen
    · have hfirst := h.outcome calls m hm hkeeps
      have hmachine := hfirst.machine hm
      rw [hp] at hfirst hmachine
      exact (hf e).seen calls m' hmachine (hkeeps.trans hfirst.onward.store) mo hlater

/-- A change of the machine that is left has nothing to do with the store. -/
theorem result_mapMachine {o : Outcome α} {change : Machine → Machine}
    (hchange : ∀ m, (change m).store = m.store)
    (h : ∀ a m', o = .done a m' → (Rules.inStore m'.store).Meets k a) :
    ∀ a m', o.mapMachine change = .done a m' → (Rules.inStore m'.store).Meets k a := by
  intro a m' hout
  cases o with
  | done b m'' =>
    cases hout
    rw [hchange]
    exact h a m'' rfl
  | failed | unfinished => cases hout

theorem inScope {scope : Nat} (hscope : scope < st.scopes.size) (h : p.Grounded st k) :
    (Interpreter.inScope scope p : Watched α).Grounded st k where
  outcome calls m hm hkeeps := by
    have hinner : Machine.Rooted { m with scope } :=
      ⟨hm.store, Nat.lt_of_lt_of_le hscope hkeeps.size⟩
    have hout := h.outcome calls { m with scope } hinner hkeeps
    change ((p calls { m with scope }).1.mapMachine _).Grounded m k
    refine ⟨?_, ?_, result_mapMachine (fun _ => rfl) hout.result⟩
    · rw [Outcome.machine_mapMachine]
      exact ⟨rfl, hout.onward.store⟩
    · rw [Outcome.machine_mapMachine]
      exact hout.store
  seen calls m hm hkeeps := by
    have hinner : Machine.Rooted { m with scope } :=
      ⟨hm.store, Nat.lt_of_lt_of_le hscope hkeeps.size⟩
    exact h.seen calls { m with scope } hinner hkeeps

theorem deeper (span : Span) (h : p.Grounded st k) : (Watched.deeper span p).Grounded st k where
  outcome calls m hm hkeeps := by
    have hout :=
      h.outcome (span :: calls) { m with depth := m.depth + 1 } ⟨hm.store, hm.scope⟩ hkeeps
    change ((p (span :: calls) { m with depth := m.depth + 1 }).1.mapMachine _).Grounded m k
    refine ⟨?_, ?_, result_mapMachine (fun _ => rfl) hout.result⟩
    · rw [Outcome.machine_mapMachine]
      exact ⟨hout.onward.scope, hout.onward.store⟩
    · rw [Outcome.machine_mapMachine]
      exact hout.store
  seen calls m hm hkeeps :=
    h.seen (span :: calls) { m with depth := m.depth + 1 } ⟨hm.store, hm.scope⟩ hkeeps

theorem asCall (span : Span) (h : p.Grounded st k) :
    (Interpreter.asCall span p : Watched α).Grounded st k :=
  (act (i := .enter span) trivial).bind fun _ _ hst _ => (h.later hst).deeper span

theorem withScope {home : Option Nat} {f : Nat → Watched α}
    (hhome : ∀ scope ∈ home, scope < st.scopes.size)
    (hf : ∀ st' scope, st.Keeps st' → scope < st'.scopes.size → (f scope).Grounded st' k) :
    (Interpreter.withScope home f : Watched α).Grounded st k :=
  (act (i := .newScope home) hhome).bind hf

theorem inNewScope (h : p.Grounded st k) :
    (Interpreter.inNewScope p : Watched α).Grounded st k :=
  withScope nofun fun _ _ hst hscope => (h.later hst).inScope hscope

theorem fail (cause : RuntimeCause) (span : Span) :
    (Interpreter.fail cause span : Watched α).Grounded st k := by
  have hcause : (Instr.fail cause span).Obeys (.inStore st) := by
    cases cause with
    | stopOutsideLoop | skipOutsideLoop => exact ⟨.top, .nowhere, rfl, trivial⟩
    | giveOutsideSkill => exact ⟨.top, none, .nowhere, rfl, trivial⟩
    | _ => trivial
  apply (act hcause).bind
  intro _ e
  exact e.elim

theorem halt : (Interpreter.halt : Watched α).Grounded st k where
  outcome _ m hm _ := ⟨.refl m, hm.store, nofun⟩
  seen _ _ hm _ _ hmo := by
    obtain rfl := List.mem_singleton.1 hmo
    exact hm

/-! ### Parts of programs -/

section

variable (he : ∀ st e, (evalW e).Grounded st .value)
  (hs : ∀ st s, (execW s).Grounded st (.flow .top))

theorem normal : (Pure.pure .normal : Watched Flow).Grounded st (.flow .top) :=
  pure trivial

include he in
theorem evalAll (es : List Expr) : (Interpreter.evalAll evalW es).Grounded st .values := by
  induction es generalizing st with
  | nil => exact pure nofun
  | cons e es ih =>
    apply (he st e).bind
    intro st' v _ hv
    apply ih.bind
    intro st'' vs hst hvs
    exact pure (List.forall_mem_cons.2 ⟨hst.value hv, hvs⟩)

include hs in
theorem execAll (ss : List Stmt) :
    (Interpreter.execAll execW ss).Grounded st (.flow .top) := by
  induction ss generalizing st with
  | nil => exact normal
  | cons s ss ih =>
    apply (hs st s).bind
    intro st' flow _ hflow
    cases flow with
    | normal => exact ih
    | _ => exact pure hflow

theorem defineParams (scope : Nat) (ps : List String) {vs : List Value}
    (hvs : ∀ v ∈ vs, (Rules.inStore st).value v) :
    (Interpreter.defineParams scope ps vs : Watched Unit).Grounded st .nothing := by
  induction ps generalizing st vs with
  | nil => exact pure trivial
  | cons p ps ih =>
    cases vs with
    | nil => exact pure trivial
    | cons v vs =>
      obtain ⟨hv, hvs⟩ := List.forall_mem_cons.1 hvs
      apply (act (i := .define p v .hold scope) hv).bind
      intro st' _ hst _
      exact ih fun w hw => hst.value (hvs w hw)

theorem callResult (span : Span) {flow : Flow} (hflow : (Rules.inStore st).Meets (.flow c) flow) :
    (Interpreter.callResult span flow : Watched Value).Grounded st .value := by
  cases flow with
  | give v => exact pure hflow.2
  | normal => exact pure trivial
  | stop | skip => exact fail _ span

include hs in
theorem callSkill {skill : Skill} (hskill : skill.home < st.scopes.size) {args : List Value}
    (hargs : ∀ v ∈ args, (Rules.inStore st).value v) (span : Span) :
    (Interpreter.callSkill execW skill args span).Grounded st .value := by
  have hbody : (Interpreter.withScope (some skill.home) fun scope => do
      Interpreter.defineParams scope skill.params args
      Interpreter.inScope scope (Interpreter.execAll execW skill.body) :
        Watched Flow).Grounded st (.flow .top) := by
    apply withScope
    · rintro _ ⟨⟩
      exact hskill
    · intro st' scope hst hscope
      apply (defineParams scope skill.params fun v hv => hst.value (hargs v hv)).bind
      intro st'' _ hst' _
      exact (execAll hs skill.body).inScope (Nat.lt_of_lt_of_le hscope hst'.size)
  apply (asCall span hbody).bind
  intro st' flow _ hflow
  exact callResult span hflow

include hs in
theorem call {callee : Value} (hcallee : (Rules.inStore st).value callee) {args : List Value}
    (hargs : ∀ v ∈ args, (Rules.inStore st).value v) (span : Span) :
    (Interpreter.call execW callee args span).Grounded st .value := by
  cases callee with
  | builtin b => exact act (i := .builtin b args span) hargs
  | skill id =>
    apply (act (i := .skill id span) hcallee).bind
    intro st' skill hst hskill
    exact callSkill hs hskill.1 (fun v hv => hst.value (hargs v hv)) span
  | _ => exact fail (.notCallable _) span

include he hs in
theorem evalStep (e : Expr) : (Interpreter.evalStep evalW execW e).Grounded st .value := by
  cases e with
  | literal l span => exact pure (by cases l <;> trivial)
  | ident name span => exact act (i := .lookup name span) trivial
  | assign name value span =>
    apply (he st value).bind
    intro st' v _ hv
    apply (act (i := .assign name v span) hv).bind
    intro st'' _ hst _
    exact pure (k := .value) (hst.value hv)
  | binary left op right span =>
    exact (he st left).bind fun st' l _ _ => (he st' right).bind fun st'' r _ _ =>
      act (i := .operate op l r span) trivial
  | unary op operand span =>
    exact (he st operand).bind fun _ v _ _ => act (i := .operateUnary op v span) trivial
  | logical left op right span =>
    apply (he st left).bind
    intro st' l _ hl
    apply (act (i := .truthy l) trivial).bind
    intro st'' holds hst _
    split
    · exact pure (k := .value) (hst.value hl)
    · exact he st'' right
  | group e span => exact he st e
  | call callee args span =>
    apply (he st callee).bind
    intro st' f _ hf
    apply (act (i := .arity f) trivial).bind
    intro st'' arity hst _
    cases arity with
    | none => exact fail (.notCallable _) span
    | some arity =>
      apply (evalAll he args).bind
      intro st''' values hst' hvalues
      split
      · exact call hs ((hst.trans hst').value hf) hvalues span
      · exact fail (.wrongArity _ _) span
  | array elements span =>
    exact (evalAll he elements).bind fun _ values _ hvalues =>
      act (i := .newArray values) hvalues
  | index object position span =>
    apply (he st object).bind
    intro st' o _ ho
    apply (he st' position).bind
    intro st'' i hst _
    exact act (i := .index o i span) (hst.value ho)
  | ask prompt span =>
    exact (he st prompt).bind fun _ v _ _ => (act (i := .text v) trivial).bind fun _ text _ _ =>
      (act (i := .ask text) trivial).bind fun _ _ _ _ => pure trivial

include he in
theorem holds (test : Expr) : (Interpreter.holds evalW test).Grounded st .nothing :=
  (he st test).bind fun _ v _ _ => act (i := .truthy v) trivial

theorem afterPass {body rest : Watched Flow} (hbody : body.Grounded st (.flow .top))
    (hrest : rest.Grounded st (.flow .top)) :
    (body >>= Interpreter.afterPass rest).Grounded st (.flow .top) := by
  apply hbody.bind
  intro st' flow hst hflow
  cases flow with
  | stop => exact normal
  | give v => exact pure hflow
  | normal | skip => exact hrest.later hst

theorem repeatWhile {test : Watched Bool} {body : Watched Flow}
    (htest : test.Grounded st .nothing) (hbody : body.Grounded st (.flow .top)) (n : Nat) :
    (Interpreter.repeatWhile test body n).Grounded st (.flow .top) := by
  induction n with
  | zero => exact halt
  | succ n ih =>
    rw [Interpreter.repeatWhile_succ]
    apply htest.bind
    intro st' holds hst _
    cases holds with
    | false => exact normal
    | true => exact (afterPass hbody ih).later hst

theorem repeatRange {pass : Value → Watched Flow}
    (hpass : ∀ v, (Rules.inStore st).value v → (pass v).Grounded st (.flow .top)) (last : Float)
    (n : Nat) (x : Float) :
    (Interpreter.repeatRange pass last n x).Grounded st (.flow .top) := by
  induction n generalizing x with
  | zero => exact halt
  | succ n ih =>
    rw [Interpreter.repeatRange_succ]
    split
    · exact afterPass (hpass _ trivial) (ih _)
    · exact normal

theorem repeatItems {pass : Value → Watched Flow}
    (hpass : ∀ v, (Rules.inStore st).value v → (pass v).Grounded st (.flow .top))
    {vs : List Value} (hvs : ∀ v ∈ vs, (Rules.inStore st).value v) :
    (Interpreter.repeatItems pass vs).Grounded st (.flow .top) := by
  induction vs with
  | nil => exact normal
  | cons v vs ih =>
    obtain ⟨hv, hvs⟩ := List.forall_mem_cons.1 hvs
    rw [Interpreter.repeatItems_cons]
    exact afterPass (hpass v hv) (ih hvs)

include hs in
theorem eachPass {scope : Nat} (hscope : scope < st.scopes.size) (var : String) (body : Stmt)
    {v : Value} (hv : (Rules.inStore st).value v) :
    (Interpreter.eachPass execW scope var body v).Grounded st (.flow .top) := by
  apply (act (i := .define var v .hold (some scope)) hv).bind
  intro st' _ hst _
  exact (hs st' body).inScope (Nat.lt_of_lt_of_le hscope hst.size)

include he hs in
theorem eachLoop (n : Nat) (var : String) (sweep : Sweep) (body : Stmt) (span : Span) :
    (Interpreter.eachLoop n evalW execW var sweep body span).Grounded st (.flow .top) := by
  refine withScope ?_ fun st₀ scope _ hscope => ?_
  · exact nofun
  have hpass : ∀ st', st₀.Keeps st' → ∀ v, (Rules.inStore st').value v →
      (Interpreter.eachPass execW scope var body v).Grounded st' (.flow .top) :=
    fun st' hst v => eachPass hs (Nat.lt_of_lt_of_le hscope hst.size) var body
  cases sweep with
  | range first last =>
    apply (he st₀ first).bind
    intro st' x hst _
    apply (he st' last).bind
    intro st'' y hst' _
    split
    · exact repeatRange (hpass st'' (hst.trans hst')) _ n _
    · exact fail .rangeBoundsNotNumbers span
  | items collection =>
    apply (he st₀ collection).bind
    intro st' v hst hv
    apply (act (i := .items v span) hv).bind
    intro st'' items hst' hitems
    exact repeatItems (hpass st'' (hst.trans hst')) hitems

include hs in
theorem handle (errorName : Option String) (handler : List Stmt) (f : Fault) :
    (Interpreter.handle execW errorName handler f).Grounded st (.flow .top) := by
  apply inNewScope
  cases errorName with
  | none => exact execAll hs handler
  | some name =>
    exact (act (i := .define name (.string f.cause.message) .hold none) trivial).bind
      fun _ _ _ _ => execAll hs handler

include he hs in
theorem execStep (n : Nat) (s : Stmt) :
    (Interpreter.execStep n evalW execW s).Grounded st (.flow .top) := by
  cases s with
  | expr e => exact (he st e).bind fun _ _ _ _ => normal
  | say value span =>
    exact (he st value).bind fun _ v _ _ => (act (i := .text v) trivial).bind fun _ text _ _ =>
      (act (i := .print text) trivial).bind fun _ _ _ _ => normal
  | bind binder name value span =>
    apply (he st value).bind
    intro st' v _ hv
    exact (act (i := .define name v binder none) hv).bind fun _ _ _ _ => normal
  | block body span => exact inNewScope (execAll hs body)
  | ifThen test yes span =>
    apply (holds he test).bind
    intro st' holds _ _
    split
    · exact hs st' yes
    · exact normal
  | ifElse test yes no span =>
    apply (holds he test).bind
    intro st' holds _ _
    split
    · exact hs st' yes
    · exact hs st' no
  | keep test body span => exact repeatWhile (holds he test) (hs st body) n
  | each var sweep body span => exact eachLoop he hs n var sweep body span
  | skill name params body span =>
    apply (act (i := .newSkill name params body) fun _ _ => trivial).bind
    intro st' v _ hv
    exact (act (i := .define name v .hold none) hv).bind fun _ _ _ _ => normal
  | give value span =>
    cases value with
    | none => exact pure ⟨⟨none, span, trivial⟩, trivial⟩
    | some e =>
      exact (he st e).bind fun _ v _ hv => pure ⟨⟨none, span, trivial⟩, hv⟩
  | stop span | skip span => exact pure ⟨span, trivial⟩
  | attempt body errorName handler span =>
    exact orElse (inNewScope (execAll hs body)) (handle hs errorName handler)

end

theorem eval_exec (n : Nat) :
    (∀ st e, (Interpreter.eval n e : Watched Value).Grounded st .value) ∧
      ∀ st s, (Interpreter.exec n s : Watched Flow).Grounded st (.flow .top) := by
  induction n with
  | zero => exact ⟨fun _ _ => halt, fun _ _ => halt⟩
  | succ n ih =>
    obtain ⟨he, hs⟩ := ih
    constructor
    · intro st e
      rw [Interpreter.eval]
      exact (act (i := .tick e.span) trivial).bind fun _ _ _ _ => evalStep he hs e
    · intro st s
      rw [Interpreter.exec]
      exact (act (i := .tick s.span) trivial).bind fun _ _ _ _ => execStep he hs n s

theorem tick_eval (st : Store) (n : Nat) (e : Expr) (span : Span) :
    (Interpreter.tick span >>= fun _ => Interpreter.eval n e : Watched Value).Grounded st .value :=
  (act (i := .tick span) trivial).bind fun st' _ _ _ => (eval_exec n).1 st' e

theorem runAll (n : Nat) (ss : List Stmt) :
    (Interpreter.runAll (Interpreter.exec n) ss : Watched Unit).Grounded st .nothing := by
  induction ss generalizing st with
  | nil => exact pure trivial
  | cons s ss ih =>
    apply ((eval_exec n).2 st s).bind
    intro st' flow _ _
    cases flow with
    | normal => exact ih
    | stop | skip | give => exact fail _ s.span

end Watched.Grounded
end Vibe
