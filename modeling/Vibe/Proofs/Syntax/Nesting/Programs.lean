import Vibe.Proofs.Syntax.Completeness.Programs
import Vibe.Proofs.Syntax.Nesting.Readers

/-! How deep the programs that are read nest. The levels of statements and expressions are counted
together, and on no path are there more than may be. Only skills are not counted. -/

namespace Vibe

namespace Program

/-- The programs that are read, with or without errors, are within the limit. -/
theorem withinNesting_recover (tokens : List Token) : (recover tokens).1.WithinNesting :=
  Parser.forall_mem_statements (Parser.yields_declaration_statement _ _).1 _ (by simp) [] _

/-- On no path into a program that is read, with or without errors, are there more statements than
may nest, the skills aside: if there is no skill, no more at all. In the last statement no more
expressions nest than that leaves. -/
theorem recover_nesting (tokens : List Token) {path : List Stmt}
    (h : Descends Stmt.inner (recover tokens).1 path) :
    path.countP (fun s => !s.isSkill) ≤ Parser.maxNesting ∧
      ((∀ s ∈ path, s.isSkill = false) → path.length ≤ Parser.maxNesting) ∧
      ∀ s ∈ path.getLast?, ∀ es, Descends Expr.inner s.expressions es →
        path.countP (fun s => !s.isDeclaration) + es.length ≤ Parser.maxNesting := by
  rcases List.eq_nil_or_concat' path with rfl | ⟨path, s, rfl⟩
  · simp
  have hdepth : 0 + path.countP (fun s => !s.isSkill) + s.depth ≤ Parser.maxNesting := by
    refine h.countP_le Stmt.depth_le_of_mem_inner fun s hs => ?_
    rw [Nat.zero_add]
    exact withinNesting_recover tokens s hs
  have hcount : (path ++ [s]).countP (fun s => !s.isSkill) ≤ Parser.maxNesting := by
    have hs := s.toNat_le_depth
    rw [List.countP_append, List.countP_singleton]
    cases hskill : s.isSkill <;> simp [hskill] at hs ⊢ <;> omega
  refine ⟨hcount, fun hskills => ?_, ?_⟩
  · have hall : (path ++ [s]).countP (fun s => !s.isSkill) = (path ++ [s]).length :=
      List.countP_eq_length.2 (by simpa using hskills)
    rwa [hall] at hcount
  · intro s' hs' es hes
    obtain rfl : s = s' := by simpa using hs'
    have hlast : (!s.isDeclaration).toNat ≤ s.depth := by
      have := s.toNat_le_depth
      cases hs : s.isDeclaration with
      | true => exact Nat.zero_le _
      | false => simpa [s.isSkill_eq_false hs] using this
    have hexprs : es.length ≤ s.depth - (!s.isDeclaration).toNat := by
      refine Expr.length_le_of_descends hes fun e he => ?_
      have := s.depth_lt_of_mem_expressions e he
      omega
    have hfront : path.countP (fun s => !s.isDeclaration) ≤ path.countP (fun s => !s.isSkill) :=
      List.countP_mono_left fun s _ hs => by simp_all [s.isSkill_eq_false]
    have hall : (path ++ [s]).countP (fun s => !s.isDeclaration) =
        path.countP (fun s => !s.isDeclaration) + (!s.isDeclaration).toNat := by
      cases hs : s.isDeclaration <;> simp [hs]
    omega

/-- The question is two levels into the statement that calls `f`. -/
theorem recover_nesting_sampleTokens :
    let question : Expr := .ask (.ident "c" (spot 14)) (spot 13)
    let call : Expr := .call (.ident "f" (spot 11)) [question] (spot 12)
    let path : List Stmt := [sample.head nofun, .expr call]
    Descends Stmt.inner (recover sampleTokens).1 path ∧
      path.countP (fun s => !s.isSkill) ≤ Parser.maxNesting ∧
      (∀ s ∈ path, s.isSkill = false) ∧ path.length ≤ Parser.maxNesting ∧
      Descends Expr.inner (Stmt.expr call).expressions [call, question] ∧
      path.countP (fun s => !s.isDeclaration) + [call, question].length ≤ Parser.maxNesting := by
  intro question call path
  have hpath : Descends Stmt.inner (recover sampleTokens).1 path := by
    have hread : (recover sampleTokens).1 = sample := rfl
    rw [hread]
    exact .cons (List.head_mem _) (.cons (by simp [sample, call, question, Stmt.inner, Stmt.parts])
      (.nil _))
  have hexprs : Descends Expr.inner (Stmt.expr call).expressions [call, question] :=
    .cons (by simp [Stmt.expressions]) (.cons (by simp [call, Expr.inner]) (.nil _))
  have hskills : ∀ s ∈ path, s.isSkill = false := by simp [path, sample, Stmt.isSkill]
  obtain ⟨hcount, hlength, hlast⟩ := recover_nesting sampleTokens hpath
  exact ⟨hpath, hcount, hskills, hlength hskills, hexprs,
    hlast (.expr call) rfl [call, question] hexprs⟩

/-- `skill f() { skill f() { .. } }`, with so many skills. -/
def nestedSkills : Nat → Program
  | 0 => []
  | n + 1 => [.skill "f" [] (nestedSkills n) .nowhere]

theorem canonical_nestedSkills (n : Nat) : (nestedSkills n).Canonical := by
  induction n with
  | zero => exact nofun
  | succ n ih => exact List.forall_mem_singleton.2 (.skill "f" .nowhere (Nat.zero_le _) ih)

theorem deepest_nestedSkills (n : Nat) : Stmt.deepest (nestedSkills n) = 0 := by
  induction n with
  | zero => rfl
  | succ n ih => simp [nestedSkills, Stmt.deepest, Stmt.depth, ih]

/-- A tree that is the same as that of the nested skills, places aside, has a path through all of
them. -/
theorem exists_descends_of_unplaced {n : Nat} {q : Program}
    (h : q.unplaced = (nestedSkills n).unplaced) :
    ∃ path, Descends Stmt.inner q path ∧ path.length = n := by
  induction n generalizing q with
  | zero => exact ⟨[], .nil q, rfl⟩
  | succ n ih =>
    simp only [unplaced, nestedSkills, List.map_cons, List.map_nil, Stmt.unplaced,
      Stmt.unplacedEach_eq_map, List.map_eq_singleton_iff] at h
    obtain ⟨s, rfl, hs⟩ := h
    cases s with
    | skill name params body span =>
      simp only [Stmt.unplaced, Stmt.unplacedEach_eq_map, Stmt.skill.injEq] at hs
      obtain ⟨path, hpath, hlength⟩ := ih (q := body) hs.2.2.1
      have hinner : (Stmt.skill name params body span).inner = body := by
        simp [Stmt.inner, Stmt.parts, Function.comp_def]
      rw [← hinner] at hpath
      exact ⟨.skill name params body span :: path, .cons (List.mem_singleton_self _) hpath,
        congrArg Nat.succ hlength⟩
    | _ => simp [Stmt.unplaced] at hs

theorem marks_nestedSkills_succ (n : Nat) : (nestedSkills (n + 1)).marks Parser.semicolon =
    .word .skill :: ⟨.ident "f", some .nowhere⟩ :: .sign .leftParen :: .sign .rightParen ::
      .sign .leftBrace :: ((nestedSkills n).marks Parser.semicolon ++ [.sign .rightBrace]) := by
  simp [marks, nestedSkills, Stmt.marks, bodyMarks, Mark.listed]

theorem kind_ne_finish_of_mem_marks (n : Nat) :
    ∀ m ∈ (nestedSkills n).marks Parser.semicolon, m.kind ≠ .finish := by
  induction n with
  | zero => exact nofun
  | succ n ih =>
    rw [marks_nestedSkills_succ]
    simpa [Mark.word, Mark.sign, or_imp, forall_and] using ih

/-- Skills nest as deep as one likes without an error. -/
theorem ofTokens_nestedSkills (n : Nat) :
    ∃ tokens p path, ofTokens tokens = .ok p ∧ Descends Stmt.inner p path ∧ path.length = n := by
  have hn : (nestedSkills n).WithinNesting := by
    intro s hs
    have hdepth := Stmt.depth_le_deepest hs
    rw [deepest_nestedSkills] at hdepth
    exact Nat.le_trans hdepth (Nat.zero_le _)
  let tokens := ((nestedSkills n).marks Parser.semicolon).map fun m => Token.mk m.kind .nowhere ""
  have hahead : (input tokens).1 = tokens := by
    rw [input_fst, List.takeWhile_eq_self_iff]
    simpa [tokens] using kind_ne_finish_of_mem_marks n
  have hkinds : tokens.map Token.kind =
      ((nestedSkills n).marks Parser.semicolon).map Mark.kind := by
    simp [tokens]
  obtain ⟨p, hread, hsame⟩ := statementsOf_complete (canonical_nestedSkills n) hn hkinds
  obtain ⟨path, hpath, hlength⟩ := exists_descends_of_unplaced hsame
  refine ⟨tokens, p, path, ?_, hpath, hlength⟩
  rw [ofTokens, recover_eq, hahead, hread]
  rfl

/-- One skill more than may nest of other statements. -/
theorem ofTokens_nestedSkills_beyond : ∃ tokens p path, ofTokens tokens = .ok p ∧
    Descends Stmt.inner p path ∧ Parser.maxNesting < path.length := by
  obtain ⟨tokens, p, path, hread, hpath, hlength⟩ := ofTokens_nestedSkills (Parser.maxNesting + 1)
  exact ⟨tokens, p, path, hread, hpath, by omega⟩

end Program
end Vibe
