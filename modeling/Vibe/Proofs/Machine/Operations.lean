import Vibe.Proofs.Machine.Restoration

/-! Operations are counted one by one as they are ticked off, whatever else is done and whichever
failures are caught. So no more ticks of a run succeed than operations are allowed, and as many again
each time that the run has taken long enough. If it never does, none succeeds after one that
failed. -/

namespace Vibe

/-- Whether an instruction counts an operation. -/
def Instr.isTick {α : Type} : Instr α → Bool
  | tick _ => true
  | _ => false

/-- Whether a part of a run ends with a result. -/
def Outcome.isDone {α : Type} : Outcome α → Bool
  | done _ _ => true
  | _ => false

/-- Why a part of a run fails, if it does. -/
def Outcome.cause? {α : Type} : Outcome α → Option RuntimeCause
  | failed f _ => some f.cause
  | _ => none

theorem Outcome.cause?_eq_some {α : Type} {o : Outcome α} {cause : RuntimeCause} :
    o.cause? = some cause ↔ ∃ f m, o = .failed f m ∧ f.cause = cause := by
  cases o <;> simp [cause?]

/-- What a part of a run comes to, if it comes to a result. -/
def Outcome.result? {α : Type} : Outcome α → Option α
  | done a _ => some a
  | _ => none

theorem Outcome.eq_done_of_result? {α : Type} {o : Outcome α} {a : α} (h : o.result? = some a) :
    o = .done a o.machine := by
  cases o with
  | done b m => rw [Option.some.inj h]; rfl
  | failed | unfinished => cases h

/-- The failure of a part of a run, if it fails. -/
def Outcome.fault? {α : Type} : Outcome α → Option Fault
  | failed f _ => some f
  | _ => none

theorem Outcome.exists_of_fault? {α : Type} {o : Outcome α} {f : Fault} (h : o.fault? = some f) :
    ∃ m, o = .failed f m := by
  cases o with
  | failed e m => exact ⟨m, by rw [Option.some.inj h]⟩
  | done | unfinished => cases h

namespace Moment

/-- What comes of the next instruction. -/
def outcome (mo : Moment) : Outcome mo.next.1 :=
  mo.next.2.run mo.machine

/-- Whether an operation is counted next. -/
def isTick (mo : Moment) : Bool :=
  mo.next.2.isTick

/-- Whether the next instruction succeeds. -/
def succeeds (mo : Moment) : Bool :=
  mo.outcome.isDone

/-- The next instruction fails for the given cause. -/
def Raises (mo : Moment) (cause : RuntimeCause) : Prop :=
  mo.outcome.cause? = some cause

instance (mo : Moment) (cause : RuntimeCause) : Decidable (mo.Raises cause) :=
  inferInstanceAs (Decidable (_ = _))

end Moment

/-- Whenever the clock will be looked at, not enough time has passed. -/
def Machine.Hurried (m : Machine) : Prop :=
  ∀ n, m.looks ≤ n → m.limits.unhurried n = false

theorem Machine.Hurried.now {m : Machine} (h : m.Hurried) :
    m.limits.unhurried m.looks = false :=
  h m.looks (Nat.le_refl _)

/-- From one machine to another, operations are counted up and time goes on. -/
structure Machine.Spends (m m' : Machine) : Prop where
  limits : m'.limits = m.limits
  operations : m.operations ≤ m'.operations
  looks : m.looks ≤ m'.looks

namespace Machine.Spends

variable {m m' m'' : Machine}

theorem refl (m : Machine) : m.Spends m :=
  ⟨rfl, Nat.le_refl _, Nat.le_refl _⟩

theorem trans (h : m.Spends m') (h' : m'.Spends m'') : m.Spends m'' :=
  ⟨h'.limits.trans h.limits, Nat.le_trans h.operations h'.operations,
    Nat.le_trans h.looks h'.looks⟩

theorem hurried (h : m.Spends m') (hm : m.Hurried) : m'.Hurried := by
  intro n hn
  rw [h.limits]
  exact hm n (Nat.le_trans h.looks hn)

/-- Neither the scope nor the depth has to do with what is counted. -/
theorem elsewhere {scope scope' depth depth' : Nat}
    (h : ({ m with scope, depth } : Machine).Spends m') :
    m.Spends { m' with scope := scope', depth := depth' } :=
  ⟨h.limits, h.operations, h.looks⟩

end Machine.Spends

namespace Instr

variable {α : Type} {m : Machine}

/-- An instruction counts an operation if it is a tick, and nothing else. -/
theorem operations_run (h : m.Hurried) (i : Instr α) :
    (i.run m).machine.operations = m.operations + i.isTick.toNat := by
  rw [machine_run]
  cases i with
  | tick span =>
    simp only [after, h.now]
    split <;> rfl
  | _ => rfl

/-- The clock is looked at by ticks only. -/
theorem looks_run (i : Instr α) : m.looks ≤ (i.run m).machine.looks := by
  rw [machine_run]
  cases i with
  | tick span =>
    simp only [after]
    split
    · exact Nat.le_refl _
    · exact Nat.le_succ _
  | _ => exact Nat.le_refl _

theorem spends_run (h : m.Hurried) (i : Instr α) : m.Spends (i.run m).machine :=
  ⟨(i.stays_run m).limits, by simp [i.operations_run h], i.looks_run⟩

/-- A tick succeeds as long as operations are left. -/
theorem isDone_run_of_isTick (h : m.Hurried) {i : Instr α} (hi : i.isTick = true) :
    (i.run m).isDone = decide (m.operations < m.limits.maxOperations) := by
  cases i with
  | tick span =>
    simp only [run, Run.tick, h.now]
    by_cases hleft : m.operations < m.limits.maxOperations
    · simp [hleft, Nat.succ_le_of_lt hleft, Outcome.isDone]
    · have hused : ¬ m.operations + 1 ≤ m.limits.maxOperations := by omega
      simp [hleft, hused, Outcome.isDone]
  | _ => cases hi

end Instr

/-- The operations counted before each tick. -/
def ticks (seen : List Moment) : List Nat :=
  (seen.filter Moment.isTick).map (·.machine.operations)

@[simp] theorem ticks_nil : ticks [] = [] :=
  rfl

@[simp] theorem ticks_append (seen later : List Moment) :
    ticks (seen ++ later) = ticks seen ++ ticks later := by
  simp [ticks]

/-- Between two machines the ticks that are seen count the operations one by one. -/
structure Machine.Ticked (m m' : Machine) (seen : List Moment) : Prop where
  spends : m.Spends m'
  ticks : ticks seen = List.range' m.operations (m'.operations - m.operations)
  looks : ∀ mo ∈ seen, m.looks ≤ mo.machine.looks

namespace Machine.Ticked

variable {m m' m'' : Machine} {seen later : List Moment}

theorem refl (m : Machine) : m.Ticked m [] where
  spends := .refl m
  ticks := by simp
  looks _ hmo := (List.not_mem_nil hmo).elim

theorem trans (h : m.Ticked m' seen) (h' : m'.Ticked m'' later) :
    m.Ticked m'' (seen ++ later) where
  spends := h.spends.trans h'.spends
  ticks := by
    have hle := h.spends.operations
    have hle' := h'.spends.operations
    have hmid : m.operations + (m'.operations - m.operations) = m'.operations := by omega
    have hlen : m'.operations - m.operations + (m''.operations - m'.operations) =
        m''.operations - m.operations := by omega
    rw [ticks_append, h.ticks, h'.ticks, ← hlen, ← List.range'_append_1, hmid]
  looks mo hmo := by
    rcases List.mem_append.1 hmo with hmo | hmo
    · exact h.looks mo hmo
    · exact Nat.le_trans h.spends.looks (h'.looks mo hmo)

end Machine.Ticked

/-- However a hurried part of a run ends, its ticks have counted its operations. -/
theorem Machine.recorded_ticked :
    Recorded fun m m' seen => m.Hurried → m.Ticked m' seen where
  refl m _ := .refl m
  trans h h' hm := (h hm).trans (h' ((h hm).spends.hurried hm))
  instr i calls m hm := by
    have hcount : (i.run m).machine.operations - m.operations = i.isTick.toNat := by
      rw [i.operations_run hm]
      omega
    refine ⟨i.spends_run hm, ?_, fun mo hmo => ?_⟩
    · rw [hcount]
      cases hi : i.isTick <;> simp [ticks, Moment.isTick, hi]
    · obtain rfl := List.mem_singleton.1 hmo
      exact Nat.le_refl _
  scope h hm := ⟨(h hm).spends.elsewhere, (h hm).ticks, (h hm).looks⟩
  depth h hm := ⟨(h hm).spends.elsewhere, (h hm).ticks, (h hm).looks⟩

/-- How often a clock says that enough time has passed, from one look at it to another. -/
def Clock.passed (c : Clock) (first last : Nat) : Nat :=
  (List.range' first (last - first)).countP c.answer

theorem Clock.passed_self (c : Clock) (n : Nat) : c.passed n n = 0 := by
  simp [passed]

theorem Clock.passed_succ (c : Clock) (n : Nat) : c.passed n (n + 1) = (c n).toNat := by
  cases h : c n <;> simp [passed, h]

theorem Clock.passed_add (c : Clock) {first mid last : Nat} (h : first ≤ mid) (h' : mid ≤ last) :
    c.passed first mid + c.passed mid last = c.passed first last := by
  have hmid : first + (mid - first) = mid := by omega
  have hlen : mid - first + (last - mid) = last - first := by omega
  rw [passed, passed, passed, ← hlen, ← List.range'_append_1, hmid, List.countP_append]

theorem Machine.Hurried.passed_eq_zero {m : Machine} (h : m.Hurried) (last : Nat) :
    m.limits.unhurried.passed m.looks last = 0 := by
  rw [Clock.passed, List.countP_eq_zero]
  intro n hn
  rw [h n (List.mem_range'_1.1 hn).1]
  exact Bool.false_ne_true

/-- How many ticks succeed. -/
def passes (seen : List Moment) : Nat :=
  seen.countP fun mo => mo.isTick && mo.succeeds

/-- Each time that enough time has passed all operations are left again, and one is counted. So many
ticks succeed, and no more. -/
structure Machine.Paced (m m' : Machine) (seen : List Moment) : Prop where
  limits : m'.limits = m.limits
  looks : m.looks ≤ m'.looks
  passes : passes seen + min m.operations m.limits.maxOperations ≤
    min m'.operations m.limits.maxOperations +
      (m.limits.maxOperations + 1) * m.limits.unhurried.passed m.looks m'.looks

namespace Machine.Paced

variable {m m' m'' : Machine} {seen later : List Moment}

theorem refl (m : Machine) : m.Paced m [] where
  limits := rfl
  looks := Nat.le_refl _
  passes := by simp [Vibe.passes, Clock.passed_self]

theorem trans (h : m.Paced m' seen) (h' : m'.Paced m'' later) :
    m.Paced m'' (seen ++ later) where
  limits := h'.limits.trans h.limits
  looks := Nat.le_trans h.looks h'.looks
  passes := by
    have hfirst := h.passes
    have hlast := h'.passes
    rw [h.limits] at hlast
    rw [← m.limits.unhurried.passed_add h.looks h'.looks, Nat.mul_add, Vibe.passes,
      List.countP_append]
    simp only [Vibe.passes] at hfirst hlast
    omega

/-- A tick succeeds if an operation is left or enough time has passed. -/
theorem tick (span : Span) (calls : List Span) (m : Machine) :
    m.Paced ((Instr.tick span).run m).machine [⟨calls, m, ⟨Unit, .tick span⟩⟩] where
  limits := ((Instr.tick span).stays_run m).limits
  looks := (Instr.tick span).looks_run
  passes := by
    rw [Instr.machine_run]
    simp only [Vibe.passes, List.countP_singleton, Moment.isTick, Moment.succeeds, Moment.outcome,
      Instr.isTick, Instr.run, Run.tick, Instr.after, Bool.true_and]
    by_cases hleft : m.operations + 1 ≤ m.limits.maxOperations
    · simp only [hleft, if_true, Outcome.isDone, Clock.passed_self]
      omega
    · cases hpassed : m.limits.unhurried m.looks <;>
        simp only [hleft, hpassed, if_false, if_true, Outcome.isDone, Clock.passed_succ,
          Bool.toNat_true, Bool.toNat_false, Bool.false_eq_true] <;> omega

theorem instr {α : Type} (i : Instr α) (calls : List Span) (m : Machine) :
    m.Paced (i.run m).machine [⟨calls, m, ⟨α, i⟩⟩] := by
  cases i with
  | tick span => exact .tick span calls m
  | _ =>
    refine ⟨(Instr.stays_run _ m).limits, Instr.looks_run _, ?_⟩
    rw [Instr.machine_run]
    simp [Vibe.passes, Moment.isTick, Instr.isTick, Instr.after, Clock.passed_self]

end Machine.Paced

/-- However a part of a run ends, time is taken for its operations. -/
theorem Machine.recorded_paced : Recorded Machine.Paced where
  refl := .refl
  trans := .trans
  instr := .instr
  scope h := ⟨h.limits, h.looks, h.passes⟩
  depth h := ⟨h.limits, h.looks, h.passes⟩

namespace Machine

variable {p : Program} {m : Machine}

/-- The ticks of a run count from nothing. -/
theorem exists_ticks_watch (p : Program) (h : m.Hurried) :
    ∃ n, ticks (watch p m).2 = List.range' 0 n := by
  exact ⟨_, (recorded_ticked.watch p m h).ticks⟩

/-- At each tick of a run the operations that were counted before tell whether it succeeds. -/
theorem succeeds_of_isTick {mo : Moment} (h : m.Hurried)
    (hmo : mo ∈ (watch p m).2) (htick : mo.isTick = true) :
    mo.succeeds = decide (mo.machine.operations < m.limits.maxOperations) := by
  have hlimits := (counted_of_mem_watch hmo).limits
  have hlooks := (recorded_ticked.watch p m h).looks mo hmo
  have hhurried : mo.machine.Hurried := by
    intro n hn
    rw [hlimits]
    exact h n (Nat.le_trans hlooks hn)
  rw [← hlimits]
  exact Instr.isDone_run_of_isTick hhurried htick

/-- No more ticks of a run succeed than operations are allowed, and as many and one more each time
that enough time has passed. -/
theorem length_ticks_le_of_passed (p : Program) (m : Machine) :
    ((watch p m).2.filter fun mo => mo.isTick && mo.succeeds).length ≤
      m.limits.maxOperations + (m.limits.maxOperations + 1) *
        m.limits.unhurried.passed m.looks (watch p m).1.machine.looks := by
  have hpaced := (recorded_paced.watch p m).passes
  rw [← List.countP_eq_length_filter]
  change passes (watch p m).2 + min 0 m.limits.maxOperations ≤ _ at hpaced
  refine Nat.le_trans (Nat.le_trans (Nat.le_add_right _ _) hpaced) ?_
  exact Nat.add_le_add_right (Nat.min_le_right _ _) _

/-- `keep (bet) { }` with three operations, and time enough at the first look: so many ticks do
succeed. -/
example :
    let loop : Program := [.keep (.literal (.bool true) .nowhere) (.block [] .nowhere) .nowhere]
    let m : Machine := {
      store := { scopes := #[{}] }, scope := root, console := {}
      limits := { maxOperations := 3, unhurried := ⟨(· == 0)⟩ } }
    passes (watch loop m).2 = 3 + (3 + 1) * 1 ∧
      m.limits.unhurried.passed m.looks (watch loop m).1.machine.looks = 1 := by
  decide +kernel

/-- No more ticks of a hurried run succeed than operations are allowed. -/
theorem length_ticks_le (p : Program) (h : m.Hurried) :
    ((watch p m).2.filter fun mo => mo.isTick && mo.succeeds).length ≤
      m.limits.maxOperations := by
  have hle := length_ticks_le_of_passed p m
  rwa [h.passed_eq_zero] at hle

/-- After a tick that failed no tick of the run succeeds. -/
theorem pairwise_ticks (p : Program) (h : m.Hurried) :
    ((watch p m).2.filter Moment.isTick).Pairwise fun mo later =>
      mo.succeeds = false → later.succeeds = false := by
  obtain ⟨n, hticks⟩ := exists_ticks_watch p h
  have hlt : ((watch p m).2.filter Moment.isTick).Pairwise fun mo later =>
      mo.machine.operations < later.machine.operations := by
    rw [← List.pairwise_map (R := (· < ·)), ← ticks, hticks]
    exact List.pairwise_lt_range'
  refine hlt.imp_of_mem fun {mo later} hmo hlater hlt hfail => ?_
  obtain ⟨hseen, htick⟩ := List.mem_filter.1 hmo
  obtain ⟨hseen', htick'⟩ := List.mem_filter.1 hlater
  rw [succeeds_of_isTick h hseen htick, decide_eq_false_iff_not] at hfail
  rw [succeeds_of_isTick h hseen' htick', decide_eq_false_iff_not]
  omega

end Machine
end Vibe
