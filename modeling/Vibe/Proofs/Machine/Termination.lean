import Vibe.Proofs.Machine.Operations

/-! Every run that is hurried comes to an end. Whatever is nested and whatever is repeated
takes an operation each time, so no more fuel is used than there are operations left. -/

namespace Vibe

/-- How many operations are left. -/
def Machine.remaining (m : Machine) : Nat :=
  m.limits.maxOperations - m.operations

theorem Machine.Spends.remaining_le {m m' : Machine} (h : m.Spends m') :
    m'.remaining ≤ m.remaining := by
  have hoperations := h.operations
  rw [remaining, remaining, h.limits]
  omega

/-- A part of a run, begun on a machine, has come to an end. -/
structure Outcome.Ends {α : Type} (m : Machine) (o : Outcome α) : Prop where
  finished : ∀ m', o ≠ .unfinished m'
  spends : m.Spends o.machine

theorem Outcome.Ends.done {α : Type} {m m' : Machine} {a : α} (h : m.Spends m') :
    (Outcome.done a m').Ends m :=
  ⟨fun _ hm => (by cases hm), h⟩

theorem Outcome.Ends.failed {α : Type} {m m' : Machine} {f : Fault} (h : m.Spends m') :
    (Outcome.failed f m' : Outcome α).Ends m :=
  ⟨fun _ hm => (by cases hm), h⟩

theorem Outcome.mapMachine_ne_unfinished {α : Type} {o : Outcome α} (change : Machine → Machine)
    (h : ∀ m', o ≠ .unfinished m') (m' : Machine) : o.mapMachine change ≠ .unfinished m' := by
  intro hm'
  cases o with
  | done | failed => cases hm'
  | unfinished m'' => exact h m'' rfl

theorem Run.orFail_ne_unfinished {α : Type} (span : Span) (r : Except RuntimeCause α)
    (m m' : Machine) : orFail span r m ≠ .unfinished m' := by
  intro h
  cases r <;> cases h

/-- An instruction other than `halt` comes to an end. -/
theorem Instr.ends_run {α : Type} {m : Machine} (h : m.Hurried) {i : Instr α}
    (hi : i.Obeys .free) : (i.run m).Ends m := by
  refine ⟨fun m' hm' => ?_, i.spends_run h⟩
  cases i with
  | halt => exact hi.elim
  | tick span =>
    simp only [run, Run.tick, h.now] at hm'
    split at hm' <;> cases hm'
  | skill id span | enter span =>
    simp only [run] at hm'
    split at hm' <;> cases hm'
  | lookup | operate | operateUnary | index | items | assign | builtin =>
    exact Run.orFail_ne_unfinished _ _ _ _ hm'
  | _ => cases hm'

namespace Watched

variable {α β : Type} {r : Nat} {p q : Watched α} {f g : α → Watched β}

/-- With at most `r` operations left, both parts of a run come to an end, and do the same. -/
def Agree (r : Nat) (p q : Watched α) : Prop :=
  ∀ calls (m : Machine), m.Hurried → m.remaining ≤ r →
    (p calls m).1.Ends m ∧ q calls m = p calls m

/-- With at most `r` operations left, a result takes an operation. -/
def Advances (r : Nat) (p : Watched α) : Prop :=
  ∀ calls (m : Machine) (a : α) (m' : Machine), m.Hurried → m.remaining ≤ r →
    (p calls m).1 = .done a m' → m'.remaining < m.remaining

namespace Agree

theorem mono {s : Nat} (h : Agree r p q) (hs : s ≤ r) : Agree s p q :=
  fun calls m hm hleft => h calls m hm (Nat.le_trans hleft hs)

theorem pure (a : α) : Agree r (Pure.pure a) (Pure.pure a) :=
  fun _ m _ _ => ⟨.done (.refl m), rfl⟩

theorem act {i : Instr α} (hi : i.Obeys .free) : Agree r (Watched.act i) (Watched.act i) :=
  fun _ _ hm _ => ⟨i.ends_run hm hi, rfl⟩

/-- What follows a result has to come to an end from there. -/
theorem bind_of_done (h : Agree r p q)
    (hf : ∀ calls (m : Machine) (a : α) (m' : Machine), m.Hurried →
      m.remaining ≤ r → (p calls m).1 = .done a m' → m.Spends m' →
        (f a calls m').1.Ends m' ∧ g a calls m' = f a calls m') :
    Agree r (p >>= f) (q >>= g) := by
  intro calls m hm hleft
  obtain ⟨⟨hfinished, hspends⟩, heq⟩ := h calls m hm hleft
  have hnext := hf calls m
  rw [bind_apply, bind_apply, heq]
  rcases hp : p calls m with ⟨⟨a, m'⟩ | ⟨e, m'⟩ | m', seen⟩ <;> rw [hp] at hfinished hspends hnext
  · obtain ⟨hends', heq'⟩ := hnext a m' hm hleft rfl hspends
    refine ⟨⟨hends'.finished, hspends.trans hends'.spends⟩, ?_⟩
    simp only [heq']
  · exact ⟨.failed hspends, rfl⟩
  · exact (hfinished m' rfl).elim

theorem bind (h : Agree r p q) (hf : ∀ a, Agree r (f a) (g a)) :
    Agree r (p >>= f) (q >>= g) := by
  apply h.bind_of_done
  intro calls m a m' hm hleft _ hspends
  exact hf a calls m' (hspends.hurried hm) (Nat.le_trans hspends.remaining_le hleft)

/-- What follows a result that took an operation has less left. -/
theorem bind_of_advances (h : Agree r p q) (hp : Advances r p)
    (hf : ∀ a, ∀ s < r, Agree s (f a) (g a)) : Agree r (p >>= f) (q >>= g) := by
  apply h.bind_of_done
  intro calls m a m' hm hleft hdone hspends
  have hlt := hp calls m a m' hm hleft hdone
  exact hf a m'.remaining (by omega) calls m' (hspends.hurried hm) (Nat.le_refl _)

theorem inScope (scope : Nat) (h : Agree r p q) :
    Agree r (Watched.inScope scope p) (Watched.inScope scope q) := by
  intro calls m hm hleft
  obtain ⟨⟨hfinished, hspends⟩, heq⟩ := h calls { m with scope } hm hleft
  rw [Watched.inScope, Watched.inScope, heq]
  refine ⟨⟨Outcome.mapMachine_ne_unfinished _ hfinished, ?_⟩, rfl⟩
  rw [Outcome.machine_mapMachine]
  exact hspends.elsewhere

theorem deeper (span : Span) (h : Agree r p q) :
    Agree r (Watched.deeper span p) (Watched.deeper span q) := by
  intro calls m hm hleft
  obtain ⟨⟨hfinished, hspends⟩, heq⟩ :=
    h (span :: calls) { m with depth := m.depth + 1 } hm hleft
  rw [Watched.deeper, Watched.deeper, heq]
  refine ⟨⟨Outcome.mapMachine_ne_unfinished _ hfinished, ?_⟩, rfl⟩
  rw [Outcome.machine_mapMachine]
  exact hspends.elsewhere

theorem orElse {f g : Fault → Watched α} (h : Agree r p q) (hf : ∀ e, Agree r (f e) (g e)) :
    Agree r (Watched.orElse p f) (Watched.orElse q g) := by
  intro calls m hm hleft
  obtain ⟨⟨hfinished, hspends⟩, heq⟩ := h calls m hm hleft
  rw [Watched.orElse, Watched.orElse, heq]
  rcases hp : p calls m with ⟨⟨a, m'⟩ | ⟨e, m'⟩ | m', seen⟩ <;> rw [hp] at hfinished hspends
  · exact ⟨.done hspends, rfl⟩
  · have hleft' := Nat.le_trans hspends.remaining_le hleft
    obtain ⟨hends', heq'⟩ := hf e calls m' (hspends.hurried hm) hleft'
    refine ⟨⟨hends'.finished, hspends.trans hends'.spends⟩, ?_⟩
    simp only [heq']
  · exact (hfinished m' rfl).elim

end Agree

namespace Advances

theorem mono {s : Nat} (h : Advances r p) (hs : s ≤ r) : Advances s p :=
  fun calls m a m' hm hleft => h calls m a m' hm (Nat.le_trans hleft hs)

/-- A result of two parts comes from a result of the first and what follows it. -/
theorem exists_of_bind {calls : List Span} {m m'' : Machine} {b : β}
    (h : ((p >>= f) calls m).1 = .done b m'') :
    ∃ a m', (p calls m).1 = .done a m' ∧ (f a calls m').1 = .done b m'' := by
  rw [fst_bind] at h
  cases hp : (p calls m).1 with
  | done a m' =>
    rw [hp] at h
    exact ⟨a, m', rfl, h⟩
  | failed e m' | unfinished m' =>
    rw [hp] at h
    cases h

/-- It is enough that the first part takes an operation. -/
theorem bind_left (h : Agree r p q) (hp : Advances r p)
    (hf : ∀ a, ∀ s < r, Agree s (f a) (g a)) : Advances r (p >>= f) := by
  intro calls m b m'' hm hleft hdone
  obtain ⟨a, m', hfirst, hrest⟩ := exists_of_bind hdone
  have hlt := hp calls m a m' hm hleft hfirst
  have hspends := (h calls m hm hleft).1.spends
  rw [hfirst] at hspends
  have hends := (hf a m'.remaining (by omega) calls m' (hspends.hurried hm) (Nat.le_refl _)).1
  have hle := hends.spends.remaining_le
  rw [hrest] at hle
  exact Nat.lt_of_le_of_lt hle hlt

/-- It is enough that what follows takes an operation. -/
theorem bind_right (h : Agree r p q) (hf : ∀ a, Advances r (f a)) : Advances r (p >>= f) := by
  intro calls m b m'' hm hleft hdone
  obtain ⟨a, m', hfirst, hrest⟩ := exists_of_bind hdone
  have hspends := (h calls m hm hleft).1.spends
  rw [hfirst] at hspends
  have hle : m'.remaining ≤ m.remaining := hspends.remaining_le
  have hlt := hf a calls m' b m'' (hspends.hurried hm) (Nat.le_trans hle hleft) hrest
  exact Nat.lt_of_lt_of_le hlt hle

theorem inScope (scope : Nat) (h : Advances r p) : Advances r (Watched.inScope scope p) := by
  intro calls m a m' hm hleft hdone
  simp only [Watched.inScope] at hdone
  cases hp : (p calls { m with scope }).1 with
  | done b m'' =>
    rw [hp] at hdone
    cases hdone
    exact h calls { m with scope } a m'' hm hleft hp
  | failed e m'' | unfinished m'' =>
    rw [hp] at hdone
    cases hdone

theorem tick (span : Span) : Advances r (Watched.act (.tick span)) := by
  intro calls m a m' hm _ hdone
  simp only [Watched.act, Instr.run, Run.tick, hm.now] at hdone
  split at hdone
  · next hle =>
    cases hdone
    simp only [Machine.remaining]
    omega
  · cases hdone

end Advances
end Watched

/-- Parts of runs that come to an end, with two fuels to choose from. -/
def ending (r : Nat) : Accord .free Watched Watched where
  Rel _ _ p q := Watched.Agree r p q
  own _ := True
  anywhere h := h
  pure _ := .pure _
  bind h hf := h.bind fun a => hf a (Rules.meets_free _ a)
  act _ hi := .act hi
  withScope home _ hf :=
    (Watched.Agree.act (i := .newScope home) fun _ _ => trivial).bind fun scope => hf scope trivial
  inScope _ h := h.inScope _
  asCall span h := (Watched.Agree.act (i := .enter span) trivial).bind fun _ => h.deeper span
  orElse _ h hf := h.orElse hf

namespace Watched.Agree

theorem afterPass {r : Nat} {restM restN : Watched Flow} (h : Agree r restM restN) (flow : Flow) :
    Agree r (Interpreter.afterPass restM flow) (Interpreter.afterPass restN flow) := by
  cases flow with
  | stop | give => exact .pure _
  | normal | skip => exact h

/-- Where the test takes an operation, the loop makes no more passes than there are left. -/
theorem repeatWhile {r : Nat} {testM testN : Watched Bool} {bodyM bodyN : Watched Flow}
    (ht : Agree r testM testN) (htick : Advances r testM) (hb : Agree r bodyM bodyN) {n n' : Nat}
    (hn : r < n) (hn' : r < n') : Agree r (Interpreter.repeatWhile testM bodyM n)
      (Interpreter.repeatWhile testN bodyN n') := by
  induction r using Nat.strongRecOn generalizing n n' with
  | ind r ih =>
    obtain ⟨n, rfl⟩ : ∃ k, n = k + 1 := ⟨n - 1, by omega⟩
    obtain ⟨n', rfl⟩ : ∃ k, n' = k + 1 := ⟨n' - 1, by omega⟩
    rw [Interpreter.repeatWhile_succ, Interpreter.repeatWhile_succ]
    apply ht.bind_of_advances htick
    intro test s hs
    have hle := Nat.le_of_lt hs
    cases test with
    | false => exact .pure _
    | true =>
      have hrest : Agree s (Interpreter.repeatWhile testM bodyM n)
          (Interpreter.repeatWhile testN bodyN n') :=
        ih s hs (ht.mono hle) (htick.mono hle) (hb.mono hle) (by omega) (by omega)
      exact (hb.mono hle).bind hrest.afterPass

/-- Where each pass takes an operation, no more passes are made than there are left. -/
theorem repeatRange {r : Nat} {passM passN : Value → Watched Flow}
    (hp : ∀ v, Agree r (passM v) (passN v)) (htick : ∀ v, Advances r (passM v)) (last : Float)
    {n n' : Nat} (hn : r < n) (hn' : r < n') (x : Float) :
    Agree r (Interpreter.repeatRange passM last n x)
      (Interpreter.repeatRange passN last n' x) := by
  induction r using Nat.strongRecOn generalizing n n' x with
  | ind r ih =>
    obtain ⟨n, rfl⟩ : ∃ k, n = k + 1 := ⟨n - 1, by omega⟩
    obtain ⟨n', rfl⟩ : ∃ k, n' = k + 1 := ⟨n' - 1, by omega⟩
    rw [Interpreter.repeatRange_succ, Interpreter.repeatRange_succ]
    split
    · apply (hp _).bind_of_advances (htick _)
      intro flow s hs
      have hle := Nat.le_of_lt hs
      have hrest : ∀ x, Agree s (Interpreter.repeatRange passM last n x)
          (Interpreter.repeatRange passN last n' x) :=
        ih s hs (fun v => (hp v).mono hle) (fun v => (htick v).mono hle) (by omega) (by omega)
      exact (hrest _).afterPass flow
    · exact .pure _

/-- An operation is counted before anything else is done. -/
theorem tick {α : Type} {r : Nat} {f g : Unit → Watched α} (span : Span)
    (h : ∀ s < r, Agree s (f ()) (g ())) :
    Agree r (Interpreter.tick span >>= f) (Interpreter.tick span >>= g) ∧
      Advances r (Interpreter.tick span >>= f) :=
  have htick : Agree r (Watched.act (.tick span)) (Watched.act (.tick span)) := .act trivial
  ⟨htick.bind_of_advances (.tick span) fun _ => h, .bind_left htick (.tick span) fun _ => h⟩

end Watched.Agree

section

variable {r n n' : Nat} {evalM evalN : Expr → Watched Value} {execM execN : Stmt → Watched Flow}

/-- With more fuel than operations left, the loops agree. -/
theorem loops_ending (he : ∀ e, Watched.Agree r (evalM e) (evalN e))
    (hetick : ∀ e, Watched.Advances r (evalM e)) (hs : ∀ s, Watched.Agree r (execM s) (execN s))
    (hstick : ∀ s, Watched.Advances r (execM s)) (hn : r < n) (hn' : r < n') :
    (ending r).Loops evalM evalN execM execN n n' where
  keep {c test body} _ := by
    have htest : (ending r).Rel true .nothing (Interpreter.holds evalM test)
        (Interpreter.holds evalN test) := (ending r).holds he test
    refine Watched.Agree.repeatWhile htest ?_ (hs body) hn hn'
    exact .bind_left (he test) (hetick test) fun v _ _ => .act (i := .truthy v) trivial
  range {c scope var body} _ _ last x := by
    have hbody : (ending r).Rel true (.flow c) (execM body) (execN body) := hs body
    have hpass : ∀ v, Watched.Agree r (Interpreter.eachPass execM scope var body v)
        (Interpreter.eachPass execN scope var body v) :=
      fun v => (ending r).eachPass trivial hbody var trivial
    refine Watched.Agree.repeatRange hpass (fun v => ?_) last hn hn' x
    exact .bind_right (.act (i := .define var v .hold (some scope)) trivial) fun _ =>
      (hstick body).inScope scope

/-- With more fuel than operations left, expressions and statements come to an end, and to the same
with all such fuels. -/
theorem agree_eval_exec (hn : r < n) (hn' : r < n') :
    (∀ e, Watched.Agree r (Interpreter.eval n e) (Interpreter.eval n' e) ∧
        Watched.Advances r (Interpreter.eval n e : Watched Value)) ∧
      ∀ s, Watched.Agree r (Interpreter.exec n s) (Interpreter.exec n' s) ∧
        Watched.Advances r (Interpreter.exec n s : Watched Flow) := by
  induction r using Nat.strongRecOn generalizing n n' with
  | ind r ih =>
    obtain ⟨n, rfl⟩ : ∃ k, n = k + 1 := ⟨n - 1, by omega⟩
    obtain ⟨n', rfl⟩ : ∃ k, n' = k + 1 := ⟨n' - 1, by omega⟩
    have hparts (s : Nat) (hs : s < r) := @ih s hs n n' (by omega) (by omega)
    constructor
    · intro e
      rw [Interpreter.eval, Interpreter.eval]
      apply Watched.Agree.tick
      intro s hs
      obtain ⟨he, hx⟩ := hparts s hs
      exact (ending s).evalStep (fun e => (he e).1) (fun st _ => (hx st).1) e
    · intro st
      rw [Interpreter.exec, Interpreter.exec]
      apply Watched.Agree.tick
      intro s hs
      obtain ⟨he, hx⟩ := hparts s hs
      have hloops : (ending s).Loops (Interpreter.eval n) (Interpreter.eval n')
          (Interpreter.exec n) (Interpreter.exec n') n n' :=
        loops_ending (fun e => (he e).1) (fun e => (he e).2) (fun st => (hx st).1)
          (fun st => (hx st).2) (by omega) (by omega)
      exact (ending s).execStep (c := .top) (fun e => (he e).1) (fun _ st _ => (hx st).1) hloops
        trivial

theorem agree_runAll (hn : r < n) (hn' : r < n') (p : Program) :
    Watched.Agree r (Interpreter.runAll (Interpreter.exec n) p)
      (Interpreter.runAll (Interpreter.exec n') p) :=
  (ending r).runAll fun s _ => ((agree_eval_exec hn hn').2 s).1

end

namespace Machine

variable {m : Machine}

theorem maxOperations_lt_fuel (l : Limits) : l.maxOperations < l.fuel := by
  rw [Limits.fuel]
  exact Nat.lt_add_of_pos_left (Nat.two_pow_pos 60)

/-- A run comes to an end, and other fuel makes no difference to what is done in it, as long as
there is more of it than there are operations. -/
theorem ends_watch (p : Program) (h : m.Hurried) {n : Nat} (hn : m.limits.maxOperations < n) :
    (watch p m).1.Ends m.reset ∧
      (Interpreter.runAll (Interpreter.exec n) p : Watched Unit) [] m.reset = watch p m := by
  have hfuel := maxOperations_lt_fuel m.limits
  have hagree : Watched.Agree m.limits.maxOperations
      (Interpreter.runAll (Interpreter.exec m.limits.fuel) p)
      (Interpreter.runAll (Interpreter.exec n) p) := agree_runAll hfuel hn p
  exact hagree [] m.reset h (Nat.sub_le _ _)

/-- Other fuel than a run is given makes no difference to it. -/
theorem runAll_eq_run (p : Program) (h : m.Hurried) {n : Nat} (hn : m.limits.maxOperations < n) :
    (Interpreter.runAll (Interpreter.exec n) p : Run Unit) m.reset = run p m := by
  have hwatch := (ends_watch p h hn).2
  rw [← (follows_runAll n p).outcome [] m.reset, hwatch, watch_fst]

/-- Every run that is hurried comes to an end, with any fuel beyond the number of operations that
are allowed. In it no more statements are executed and expressions evaluated than that, and
after the first that is refused all are refused. -/
theorem run_ends (p : Program) (m : Machine) (h : m.Hurried) :
    (∀ m', run p m ≠ .unfinished m') ∧
      (∀ n, m.limits.maxOperations < n →
        (Interpreter.runAll (Interpreter.exec n) p : Run Unit) m.reset = run p m) ∧
      (watch p m).1 = run p m ∧
      ((watch p m).2.filter fun mo => mo.isTick && mo.succeeds).length ≤
        m.limits.maxOperations ∧
      ((watch p m).2.filter Moment.isTick).Pairwise fun mo later =>
        mo.succeeds = false → later.succeeds = false := by
  have hends := (ends_watch p h (maxOperations_lt_fuel m.limits)).1
  rw [watch_fst] at hends
  exact ⟨hends.finished, fun n hn => runAll_eq_run p h hn, watch_fst p m, length_ticks_le p h,
    pairwise_ticks p h⟩

/-- `keep (bet) { try { keep (bet) { } } caught { } }`: the failure of one endless loop is caught in
another. -/
def endless : Program :=
  let loop (body : List Stmt) : Stmt :=
    .keep (.literal (.bool true) .nowhere) (.block body .nowhere) .nowhere
  [loop [.attempt [loop []] none [] .nowhere]]

/-- A machine that is allowed twelve operations. -/
def tired : Machine where
  store := { scopes := #[{}] }
  scope := root
  limits := { maxOperations := 12 }
  console := {}

theorem run_ends_endless : tired.Hurried ∧
    (∀ m', run endless tired ≠ .unfinished m') ∧
    (∀ n, 12 < n →
      (Interpreter.runAll (Interpreter.exec n) endless : Run Unit) tired.reset =
        run endless tired) ∧
    (watch endless tired).1 = run endless tired ∧
    ((watch endless tired).2.filter fun mo => mo.isTick && mo.succeeds).length = 12 ∧
    ((watch endless tired).2.filter fun mo => mo.isTick && !mo.succeeds).length = 2 ∧
    ((watch endless tired).2.filter Moment.isTick).Pairwise fun mo later =>
      mo.succeeds = false → later.succeeds = false := by
  have hhurried : tired.Hurried := fun _ _ => rfl
  obtain ⟨hends, hfuel, hwatch, -, hticks⟩ := run_ends endless tired hhurried
  exact ⟨hhurried, hends, hfuel, hwatch, by decide +kernel, by decide +kernel, hticks⟩

end Machine
end Vibe
