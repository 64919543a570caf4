import Mathlib.Data.List.Infix
import Vibe.Syntax.Statement

/-! Braces in a list of tokens: how many are open, and when each of them has its partner. -/

namespace Vibe

/-- What a token adds to the number of open braces. -/
def Kind.opening : Kind → Int
  | .symbol .leftBrace => 1
  | .symbol .rightBrace => -1
  | _ => 0

/-- Opening braces less closing ones. -/
def level : List Token → Int
  | [] => 0
  | t :: ts => t.kind.opening + level ts

/-- At no place of the list is the level below the given one. -/
def Above (k : Int) (ts : List Token) : Prop :=
  ∀ front, front <+: ts → k ≤ level front

/-- Every brace has its partner: none is closed before it was opened, and none stays open. -/
structure Balanced (ts : List Token) : Prop where
  above : Above 0 ts
  level_eq : level ts = 0

variable {j k : Int} {t u : Token} {ts ts' rest rest' front : List Token}

@[simp] theorem level_nil : level [] = 0 :=
  rfl

@[simp] theorem level_cons (t : Token) (ts : List Token) :
    level (t :: ts) = t.kind.opening + level ts :=
  rfl

@[simp] theorem level_append (ts ts' : List Token) : level (ts ++ ts') = level ts + level ts' := by
  induction ts with
  | nil => simp
  | cons t ts ih => simp [ih, Int.add_assoc]

/-- What a list begins with ends in its first part or goes on into the second one. -/
theorem front_append (h : front <+: ts ++ ts') :
    front <+: ts ∨ ∃ more, more <+: ts' ∧ front = ts ++ more := by
  rcases List.prefix_or_prefix_of_prefix h (List.prefix_append ts ts') with hfront | ⟨more, rfl⟩
  · exact .inl hfront
  · exact .inr ⟨more, (List.prefix_append_right_inj ts).1 h, rfl⟩

theorem Above.le_level (h : Above k ts) : k ≤ level ts :=
  h ts (List.prefix_refl ts)

theorem Above.nil (hk : k ≤ 0) : Above k [] := by
  intro front hfront
  rw [List.prefix_nil.1 hfront]
  exact hk

theorem Above.mono (h : Above k ts) (hj : j ≤ k) : Above j ts :=
  fun front hfront => Int.le_trans hj (h front hfront)

theorem Above.append (h : Above k ts) (h' : Above (k - level ts) ts') : Above k (ts ++ ts') := by
  intro front hfront
  rcases front_append hfront with hfront | ⟨more, hmore, rfl⟩
  · exact h front hfront
  · have hts' := h' more hmore
    rw [level_append]
    omega

/-- Behind a list that stays above a level another one does not fall below it by itself. -/
theorem Above.followed (h : Above k ts) (h' : Above 0 ts') : Above k (ts ++ ts') := by
  have hts := h.le_level
  exact h.append (h'.mono (by omega))

theorem Above.cons (hk : k ≤ 0) (h : Above (k - t.kind.opening) ts) : Above k (t :: ts) := by
  intro front hfront
  rcases List.prefix_cons_iff.1 hfront with rfl | ⟨more, rfl, hmore⟩
  · exact hk
  · have hts := h more hmore
    rw [level_cons]
    omega

theorem level_of_flat (h : ∀ t ∈ ts, t.kind.opening = 0) : level ts = 0 := by
  induction ts with
  | nil => rfl
  | cons t ts ih =>
    obtain ⟨ht, hts⟩ := List.forall_mem_cons.1 h
    rw [level_cons, ht, ih hts, Int.add_zero]

theorem Above.of_flat (h : ∀ t ∈ ts, t.kind.opening = 0) : Above 0 ts := by
  intro front hfront
  have hlevel := level_of_flat fun t ht => h t (hfront.subset ht)
  omega

instance (k : Int) (ts : List Token) : Decidable (Above k ts) :=
  decidable_of_iff (∀ front ∈ ts.inits, k ≤ level front) (by simp [Above, List.mem_inits])

instance (ts : List Token) : Decidable (Balanced ts) :=
  decidable_of_iff (Above 0 ts ∧ level ts = 0) ⟨fun h => ⟨h.1, h.2⟩, fun h => ⟨h.above, h.level_eq⟩⟩

/-- A closing brace behind a list that is balanced by itself closes what was opened before it. -/
theorem Balanced.not_above (h : Balanced ts) (ht : t.kind.opening = -1) :
    ¬ Above 0 (ts ++ t :: rest) := by
  intro habove
  have hfront : ts ++ [t] <+: ts ++ t :: rest := ⟨rest, by simp⟩
  have hlevel := habove _ hfront
  rw [level_append, level_cons, level_nil, ht, h.level_eq] at hlevel
  omega

/-- The brace that closes a balanced list is one and no other. -/
theorem Balanced.close_unique (h : Balanced ts) (h' : Balanced ts') (ht : t.kind.opening = -1)
    (hu : u.kind.opening = -1) (heq : ts ++ t :: rest = ts' ++ u :: rest') : ts = ts' := by
  rcases List.append_eq_append_iff.1 heq with ⟨more, rfl, hmore⟩ | ⟨more, rfl, hmore⟩
  · cases more with
    | nil => exact (List.append_nil _).symm
    | cons v more =>
      obtain ⟨rfl, -⟩ := List.cons.inj hmore
      exact (h.not_above ht h'.above).elim
  · cases more with
    | nil => exact List.append_nil _
    | cons v more =>
      obtain ⟨rfl, -⟩ := List.cons.inj hmore
      exact (h'.not_above hu h.above).elim

end Vibe
