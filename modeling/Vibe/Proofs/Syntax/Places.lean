import Vibe.Syntax

/-! Where the statements of a program stand, and what holds of all statements inside one. -/

namespace Vibe

/-- Where a statement stands: in the body of a loop, in the body of a skill. The body of a skill is
in no loop around the skill. -/
structure Place where
  inLoop : Bool
  inSkill : Bool

namespace Place

/-- Outside all loops and skills. -/
def top : Place :=
  ⟨false, false⟩

/-- The body of a skill. -/
def skill : Place :=
  ⟨false, true⟩

/-- The body of a loop. -/
def loop (c : Place) : Place :=
  { c with inLoop := true }

end Place

namespace Stmt

/-- The statements directly inside a statement, with their places. -/
def parts (c : Place) : Stmt → List (Place × Stmt)
  | block body _ => body.map (c, ·)
  | ifThen _ yes _ => [(c, yes)]
  | ifElse _ yes no _ => [(c, yes), (c, no)]
  | keep _ body _ | each _ _ body _ => [(c.loop, body)]
  | skill _ _ body _ => body.map (.skill, ·)
  | attempt body _ handler _ => (body ++ handler).map (c, ·)
  | _ => []

mutual

/-- Whether a check holds of all statements inside a statement. -/
def inside (check : Place → Stmt → Bool) (c : Place) : Stmt → Bool
  | block body _ => everyOf check c body
  | ifThen _ yes _ => check c yes && yes.inside check c
  | ifElse _ yes no _ =>
    check c yes && yes.inside check c && (check c no && no.inside check c)
  | keep _ body _ | each _ _ body _ => check c.loop body && body.inside check c.loop
  | skill _ _ body _ => everyOf check .skill body
  | attempt body _ handler _ => everyOf check c body && everyOf check c handler
  | _ => true

/-- Whether a check holds of statements and of all inside them. -/
def everyOf (check : Place → Stmt → Bool) (c : Place) : List Stmt → Bool
  | [] => true
  | s :: ss => check c s && s.inside check c && everyOf check c ss

end

/-- Whether a check holds of a statement and of all inside it. -/
def every (check : Place → Stmt → Bool) (c : Place) (s : Stmt) : Bool :=
  check c s && s.inside check c

variable {check : Place → Stmt → Bool} {c : Place} {s : Stmt}

theorem everyOf_eq (ss : List Stmt) : everyOf check c ss = ss.all (every check c) := by
  induction ss with
  | nil => rfl
  | cons s ss ih => rw [everyOf, ih]; rfl

theorem every_iff :
    s.every check c = true ↔ check c s = true ∧ ∀ x ∈ s.parts c, x.2.every check x.1 = true := by
  rw [every, Bool.and_eq_true_iff, and_congr_right_iff]
  intro _
  have hfold : ∀ c s, (check c s && s.inside check c) = s.every check c := fun _ _ => rfl
  cases s <;> simp only [inside, everyOf_eq, hfold, parts] <;> simp [or_imp, forall_and]

/-- A statement is larger than those in it. -/
theorem sizeOf_lt_of_mem_parts : ∀ x ∈ s.parts c, sizeOf x.2 < sizeOf s := by
  have hlist : ∀ (ss : List Stmt), ∀ s ∈ ss, sizeOf s < sizeOf ss :=
    fun _ _ => List.sizeOf_lt_of_mem
  cases s <;> simp [parts] <;> grind

/-- The parts of a statement are the same at every place. -/
theorem exists_mem_parts (c c' : Place) :
    ∀ x ∈ s.parts c', ∃ d, (d, x.2) ∈ s.parts c := by
  cases s with
  | attempt body errorName handler span =>
    simp [parts]
    grind
  | _ => simp [parts]

/-- A check that does not depend on the place holds everywhere if it holds somewhere. -/
theorem every_place {f : Stmt → Bool} {s : Stmt} {c : Place} (h : s.every (fun _ => f) c = true)
    (c' : Place) : s.every (fun _ => f) c' = true := by
  obtain ⟨hs, hparts⟩ := every_iff.1 h
  refine every_iff.2 ⟨hs, fun x hx => ?_⟩
  obtain ⟨d, hd⟩ := exists_mem_parts c c' x hx
  have hlt := sizeOf_lt_of_mem_parts (d, x.2) hd
  exact every_place (hparts (d, x.2) hd) x.1
termination_by sizeOf s

end Stmt
end Vibe
