import Mathlib.Data.List.Basic
import Vibe.Proofs.Syntax.Places
import Vibe.Proofs.Syntax.Shape

/-! Paths into trees, from the outermost statement to the innermost expression, and how many levels
of nesting they take. -/

namespace Vibe

/-- The path begins among the given nodes, and each further node is directly inside the one before
it. -/
inductive Descends {α : Type} (inner : α → List α) : (nodes path : List α) → Prop
  | nil (nodes : List α) : Descends inner nodes []
  | cons {nodes path : List α} {a : α} (h : a ∈ nodes) (hrest : Descends inner (inner a) path) :
      Descends inner nodes (a :: path)

/-- If each node that is counted takes a level from those in it, the last node of a path has what
the others leave. -/
theorem Descends.countP_le {α : Type} {inner : α → List α} {depth : α → Nat} {counted : α → Bool}
    (hinner : ∀ a, ∀ b ∈ inner a, (counted a).toNat + depth b ≤ depth a) {nodes path : List α}
    {a : α} (h : Descends inner nodes (path ++ [a])) {k d : Nat}
    (hd : ∀ b ∈ nodes, k + depth b ≤ d) : k + path.countP counted + depth a ≤ d := by
  induction path generalizing nodes k with
  | nil =>
    cases h with
    | cons ha _ => exact hd a ha
  | cons b path ih =>
    cases h with
    | cons hb hrest =>
      have hbelow : ∀ c ∈ inner b, k + (counted b).toNat + depth c ≤ d := by
        intro c hc
        have := hd b hb
        have := hinner b c hc
        omega
      have := ih hrest hbelow
      rw [List.countP_cons]
      cases hb : counted b <;> simp [hb] at this ⊢ <;> omega

namespace Expr

/-- The expressions directly nested in an expression. The operands of binary and logical operators,
and what is called or indexed, stand on its own level. -/
def inner : Expr → List Expr
  | literal .. | ident .. => []
  | binary left _ right _ | logical left _ right _ => left.inner ++ right.inner
  | unary _ nested _ | group nested _ | assign _ nested _ | ask nested _ => [nested]
  | call callee args _ => callee.inner ++ args
  | array elements _ => elements
  | index object position _ => object.inner ++ [position]

theorem depth_lt_of_mem_inner (e : Expr) {e' : Expr} (h : e' ∈ e.inner) : e'.depth < e.depth := by
  cases e with
  | literal | ident => cases h
  | binary left _ right _ | logical left _ right _ =>
    rw [depth]
    rcases List.mem_append.1 h with h | h
    · exact Nat.lt_of_lt_of_le (left.depth_lt_of_mem_inner h) (Nat.le_max_left _ _)
    · exact Nat.lt_of_lt_of_le (right.depth_lt_of_mem_inner h) (Nat.le_max_right _ _)
  | unary | group | assign | ask =>
    obtain rfl := List.mem_singleton.1 h
    exact Nat.lt_succ_self _
  | call callee args _ =>
    rw [depth]
    rcases List.mem_append.1 h with h | h
    · exact Nat.lt_of_lt_of_le (callee.depth_lt_of_mem_inner h) (Nat.le_max_left _ _)
    · exact Nat.lt_of_lt_of_le (lt_deepest h) (Nat.le_max_right _ _)
  | array => exact lt_deepest h
  | index object position _ =>
    rw [depth]
    rcases List.mem_append.1 h with h | h
    · exact Nat.lt_of_lt_of_le (object.depth_lt_of_mem_inner h) (Nat.le_max_left _ _)
    · obtain rfl := List.mem_singleton.1 h
      exact Nat.le_max_right _ _

theorem deepest_le {es : List Expr} {d : Nat} (h : ∀ e ∈ es, e.depth < d) : deepest es ≤ d := by
  induction es with
  | nil => exact Nat.zero_le d
  | cons e es ih =>
    obtain ⟨he, hes⟩ := List.forall_mem_cons.1 h
    rw [deepest]
    exact Nat.max_le.2 ⟨he, ih hes⟩

/-- A path of expressions is no longer than the first of them is deep. -/
theorem length_le_of_descends {es path : List Expr} {d : Nat} (h : Descends inner es path)
    (hd : ∀ e ∈ es, e.depth < d) : path.length ≤ d := by
  rcases List.eq_nil_or_concat' path with rfl | ⟨path, e, rfl⟩
  · exact Nat.zero_le d
  · have hinner : ∀ e : Expr, ∀ e' ∈ e.inner, true.toNat + e'.depth ≤ e.depth := by
      intro e e' he
      have := e.depth_lt_of_mem_inner he
      simp only [Bool.toNat_true]
      omega
    have hnodes : ∀ e ∈ es, 1 + e.depth ≤ d := by
      intro e he
      have := hd e he
      omega
    have hle := h.countP_le hinner hnodes
    rw [List.countP_true] at hle
    rw [List.length_append, List.length_singleton]
    omega

end Expr

/-- The bounds of a range, or the collection. -/
def Sweep.expressions : Sweep → List Expr
  | range first last => [first, last]
  | items collection => [collection]

namespace Stmt

/-- The statements directly inside a statement. -/
def inner (s : Stmt) : List Stmt :=
  (s.parts .top).map Prod.snd

/-- The expressions directly in a statement. -/
def expressions : Stmt → List Expr
  | expr e | say e _ | bind _ _ e _ | ifThen e _ _ | ifElse e _ _ _ | keep e _ _ => [e]
  | each _ sweep _ _ => sweep.expressions
  | give value _ => value.toList
  | block .. | skill .. | stop _ | skip _ | attempt .. => []

def isSkill : Stmt → Bool
  | skill .. => true
  | _ => false

theorem depth_le_deepest {ss : List Stmt} {s : Stmt} (h : s ∈ ss) : s.depth ≤ deepest ss := by
  induction ss with
  | nil => cases h
  | cons s' ss ih =>
    rw [deepest]
    rcases List.mem_cons.1 h with rfl | h
    · exact Nat.le_max_left _ _
    · exact Nat.le_trans (ih h) (Nat.le_max_right _ _)

theorem deepest_le {ss : List Stmt} {d : Nat} (h : ∀ s ∈ ss, s.depth ≤ d) : deepest ss ≤ d := by
  induction ss with
  | nil => exact Nat.zero_le d
  | cons s ss ih =>
    obtain ⟨hs, hss⟩ := List.forall_mem_cons.1 h
    rw [deepest]
    exact Nat.max_le.2 ⟨hs, ih hss⟩

/-- All statements but skills take a level from those inside them. -/
theorem depth_le_of_mem_inner (s : Stmt) :
    ∀ t ∈ s.inner, (!s.isSkill).toNat + t.depth ≤ s.depth := by
  intro t ht
  cases s with
  | block body _ | skill _ _ body _ =>
    have hbody : t ∈ body := by simpa [inner, parts] using ht
    have hle := depth_le_deepest hbody
    simp only [isSkill, depth, Bool.not_true, Bool.not_false, Bool.toNat_true, Bool.toNat_false]
    omega
  | attempt body errorName handler _ =>
    have hparts : t ∈ body ∨ t ∈ handler := by simpa [inner, parts] using ht
    have hle := hparts.imp depth_le_deepest depth_le_deepest
    simp only [isSkill, depth, Bool.not_false, Bool.toNat_true]
    omega
  | ifThen | ifElse | keep | each =>
    simp only [inner, parts, List.map_cons, List.map_nil, List.mem_cons, List.not_mem_nil,
      or_false] at ht
    simp only [isSkill, depth, Bool.not_false, Bool.toNat_true]
    grind
  | _ => cases ht

/-- All statements but declarations take a level from the expressions directly in them. -/
theorem depth_lt_of_mem_expressions (s : Stmt) :
    ∀ e ∈ s.expressions, (!s.isDeclaration).toNat + e.depth < s.depth := by
  intro e he
  cases s with
  | expr | say | bind | ifThen | ifElse | keep =>
    obtain rfl := List.mem_singleton.1 he
    simp only [isDeclaration, depth, Bool.not_true, Bool.not_false, Bool.toNat_true,
      Bool.toNat_false]
    omega
  | each var sweep body _ =>
    have hsweep : e.depth < sweep.depth := by
      cases sweep <;> simp only [expressions, Sweep.expressions, List.mem_cons] at he <;>
        simp only [Sweep.depth] <;> grind
    simp only [isDeclaration, depth, Bool.not_false, Bool.toNat_true]
    omega
  | give value _ =>
    obtain rfl := Option.mem_toList.1 he
    simp only [isDeclaration, depth, Bool.not_false, Bool.toNat_true]
    omega
  | _ => cases he

theorem toNat_le_depth (s : Stmt) : (!s.isSkill).toNat ≤ s.depth := by
  cases s with
  | give value => cases value <;> simp [isSkill, depth]
  | _ => simp [isSkill, depth]

theorem isSkill_eq_false (s : Stmt) (h : s.isDeclaration = false) : s.isSkill = false := by
  cases s with
  | skill => cases h
  | _ => rfl

end Stmt

end Vibe
