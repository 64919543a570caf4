import Vibe.Proofs.Syntax.Composition.Expressions
import Vibe.Proofs.Syntax.Recovery.Statements

/-! A statement that is read without an error is read in the same way with other statements behind
it, whatever room there is. Without anything behind it, it is read in the same way with all its
errors. -/

namespace Vibe.Parser

variable {α β : Type} {p p' : BodyParser α} {f f' : α → BodyParser β} {q : Parser α}
  {value : Parser Expr} {one one' : BodyParser Stmt} {block block' : BodyParser (List Stmt)}
  {tail ts rest : List Token} {k : Nat} {span : Span}

/-- What comes behind the tokens begins with a statement of its own, which no `give` at the end of
the tokens takes for its value. -/
structure Apart (tail ts : List Token) : Prop where
  fresh : Fresh tail
  noGive : tail ≠ [] → ∀ t ∈ ts.getLast?, t.kind ≠ .keyword .give

theorem Apart.suffix (h : Apart tail ts) (hrest : rest <:+ ts) : Apart tail rest where
  fresh := h.fresh
  noGive htail t ht := by
    obtain ⟨used, rfl⟩ := hrest
    refine h.noGive htail t ?_
    rw [List.getLast?_append, Option.mem_def.1 ht]
    rfl

theorem Apart.of_nil (ts : List Token) : Apart [] ts :=
  ⟨nofun, fun h => (h rfl).elim⟩

/-- A run that is worth comparing: nothing comes behind, or there is a result without an error. -/
def Comparable (tail : List Token) (run : Except Error α × List Token × List Setback) : Prop :=
  tail = [] ∨ (∃ a, run.1 = .ok a) ∧ run.2.2 = []

/-- With the tail behind the tokens the second parser does as the first does without it, and leaves
the tail as well. -/
structure CarriesAt (tail ts : List Token) (p p' : BodyParser α) : Prop where
  suffix : (p ts).2.1 <:+ ts
  run : Comparable tail (p ts) → p' (ts ++ tail) = ((p ts).1, (p ts).2.1 ++ tail, (p ts).2.2)

/-- The same for all lists of tokens up to a length. -/
def Carries (tail : List Token) (k : Nat) (p p' : BodyParser α) : Prop :=
  ∀ ts, ts.length ≤ k → Apart tail ts → CarriesAt tail ts p p'

theorem Carries.mono {j : Nat} (h : Carries tail k p p') (hjk : j ≤ k) : Carries tail j p p' :=
  fun ts hlen => h ts (Nat.le_trans hlen hjk)

theorem carries_pure (a : α) : Carries tail k (pure a) (pure a) :=
  fun ts _ _ => ⟨List.suffix_refl ts, fun _ => rfl⟩

/-- Parsers in a row do the same if each of them does. -/
theorem CarriesAt.bind (h : CarriesAt tail ts p p')
    (hf : ∀ a mid, mid <:+ ts → CarriesAt tail mid (f a) (f' a)) :
    CarriesAt tail ts (p >>= f) (p' >>= f') := by
  obtain ⟨hsuffix, hrun⟩ := h
  rcases hp : p ts with ⟨e | a, mid, log⟩ <;> rw [hp] at hsuffix hrun
  · refine ⟨by rwa [bind_run_error hp], fun hcomparable => ?_⟩
    rw [bind_run_error hp] at hcomparable ⊢
    rcases hcomparable with htail | ⟨⟨a, ha⟩, -⟩
    · exact bind_run_error (hrun (.inl htail))
    · cases ha
  · obtain ⟨hsuffix', hrun'⟩ := hf a mid hsuffix
    refine ⟨by rw [bind_run_ok hp]; exact hsuffix'.trans hsuffix, fun hcomparable => ?_⟩
    rw [bind_run_ok hp] at hcomparable ⊢
    have hparts : Comparable tail (.ok a, mid, log) ∧ Comparable tail (f a mid) := by
      rcases hcomparable with htail | ⟨hok, hlog⟩
      · exact ⟨.inl htail, .inl htail⟩
      · obtain ⟨hlog, hlog'⟩ := List.append_eq_nil_iff.1 hlog
        exact ⟨.inr ⟨⟨a, rfl⟩, hlog⟩, .inr ⟨hok, hlog'⟩⟩
    rw [bind_run_ok (hrun hparts.1), hrun' hparts.2]

theorem Carries.bind (h : Carries tail k p p') (hf : ∀ a, Carries tail k (f a) (f' a)) :
    Carries tail k (p >>= f) (p' >>= f') := by
  intro ts hlen hapart
  refine (h ts hlen hapart).bind fun a mid hmid => ?_
  exact hf a mid (Nat.le_trans hmid.length_le hlen) (hapart.suffix hmid)

theorem CarriesAt.lift (hsuffix : (q ts).2 <:+ ts)
    (h : ∀ ⦃a rest⦄, q ts = (.ok a, rest) → q (ts ++ tail) = (.ok a, rest ++ tail)) :
    CarriesAt tail ts (liftM q) (liftM q) := by
  refine ⟨hsuffix, fun hcomparable => ?_⟩
  rcases hcomparable with rfl | ⟨⟨a, ha⟩, -⟩
  · rw [List.append_nil, List.append_nil]
  · have hrun : q (ts ++ tail) = (.ok a, (q ts).2 ++ tail) := h (Prod.ext ha rfl)
    have hok : (q ts).1 = .ok a := ha
    rw [lift_run, lift_run, hrun, hok]

theorem carries_plain (hplain : Plain q) (h : Extends tail q) :
    Carries tail k (liftM q) (liftM q) :=
  fun ts _ _ => .lift (hplain.suffix ts) fun _ _ hrun => h hrun

theorem carries_expect (kind : Kind) (hkind : kind.startsStatement = false) (what : String) :
    Carries tail k (liftM (expect kind what)) (liftM (expect kind what)) := by
  intro ts _ hapart
  refine .lift ?_ fun _ _ hrun => extends_expect hapart.fresh hkind hrun
  by_cases hnext : ∀ t ∈ ts.head?, t.kind ≠ kind
  · rw [expect_eq_expected hnext]
    exact List.suffix_refl ts
  · push Not at hnext
    obtain ⟨t, ht, hkind⟩ := hnext
    obtain ⟨rest, rfl⟩ := List.head?_eq_some_iff.1 ht
    rw [expect_of_kind hkind]
    exact List.suffix_cons t rest

/-- A token in front makes no difference to what is done behind it. -/
theorem CarriesAt.cons {t : Token} (h : CarriesAt tail rest p p') {g g' : BodyParser α}
    (hg : g (t :: rest) = p rest) (hg' : g' (t :: (rest ++ tail)) = p' (rest ++ tail)) :
    CarriesAt tail (t :: rest) g g' := by
  refine ⟨?_, fun hcomparable => ?_⟩
  · rw [hg]
    exact h.suffix.trans (List.suffix_cons t rest)
  · rw [hg] at hcomparable ⊢
    rw [List.cons_append, hg']
    exact h.run hcomparable

/-! ### Statements -/

theorem extends_terminator (hfresh : Fresh tail) : Extends tail terminator :=
  (extends_accept hfresh rfl).bind fun _ => extends_pure ()

theorem extends_binding (hfresh : Fresh tail) (h : Extends tail value) (binder : Binder) :
    Extends tail (binding binder value) := by
  refine extends_expectName.bind fun name => (extends_expect hfresh rfl).bind fun _ => ?_
  exact h.bind fun v => (extends_terminator hfresh).bind fun _ => extends_pure _

theorem extends_sweep (hfresh : Fresh tail) (h : Extends tail value) :
    Extends tail (sweep value) := by
  refine (extends_accept hfresh rfl).bind fun found => ?_
  cases found with
  | some s =>
    refine h.bind fun first => (extends_expect hfresh rfl).bind fun _ => ?_
    exact h.bind fun last => (extends_expect hfresh rfl).bind fun _ => extends_pure _
  | none =>
    refine (extends_accept hfresh rfl).bind fun found => ?_
    cases found with
    | some s =>
      exact h.bind fun items => (extends_expect hfresh rfl).bind fun _ => extends_pure _
    | none => exact extends_expected _

theorem extends_errorName? (hfresh : Fresh tail) : Extends tail attemptRest.errorName? := by
  refine (extends_accept hfresh rfl).bind fun found => ?_
  cases found with
  | none => exact extends_pure none
  | some s =>
    exact extends_expectName.bind fun name => (extends_expect hfresh rfl).bind fun _ =>
      extends_pure _

/-- A `give` in front of another token does not look beyond the tokens. -/
theorem carriesAt_giveRest (hfresh : Fresh tail) (hplain : Plain value) (h : Extends tail value)
    (hts : tail ≠ [] → ts ≠ []) :
    CarriesAt tail ts (liftM (giveRest span value)) (liftM (giveRest span value)) := by
  refine .lift ((plain_giveRest hplain).suffix ts) fun s rest hrun => ?_
  cases ts with
  | nil =>
    obtain rfl : tail = [] := by
      by_contra htail
      exact hts htail rfl
    rwa [List.append_nil, List.append_nil]
  | cons t mid =>
    obtain ⟨v, end', hv, hrun⟩ := bind_eq_ok.1 hrun
    have hvalue : (if (t :: mid).isEmpty || nextIs (.symbol .semicolon) (t :: mid) ||
        nextIs (.symbol .rightBrace) (t :: mid) then pure none else some <$> value :
          Parser (Option Expr)) (t :: mid ++ tail) = (.ok v, end' ++ tail) := by
      split at hv
      · next hbare =>
        rw [if_pos hbare]
        exact extends_pure none hv
      · next hbare =>
        rw [if_neg hbare]
        exact h.map hv
    refine (bind_of_ok hvalue).trans ?_
    exact ((extends_terminator hfresh).bind fun _ => extends_pure _) hrun

theorem carries_skillRest (hfresh : Fresh tail) (h : Carries tail k block block') :
    Carries tail k (skillRest block) (skillRest block') := by
  have hplain : Plain (Prod.fst <$> expectName "expected parameter name") :=
    (plain_expectName (by decide)).map
  have hextends : Extends tail (Prod.fst <$> expectName "expected parameter name") :=
    extends_expectName.map
  refine (carries_plain (plain_expectName (by decide)) extends_expectName).bind fun name => ?_
  refine (carries_expect _ rfl _).bind fun _ => ?_
  refine (carries_plain (plain_listUntil hplain rfl (by decide) _)
    (extends_listUntil hfresh hextends _ _)).bind fun params => ?_
  exact (carries_expect _ rfl _).bind fun _ => h.bind fun body => carries_pure _

theorem carries_ifRest (hfresh : Fresh tail) (hplain : Plain value) (h : Extends tail value)
    (hs : Carries tail k one one') :
    Carries tail k (ifRest span value one) (ifRest span value one') := by
  refine (carries_expect _ rfl _).bind fun _ => (carries_plain hplain h).bind fun test => ?_
  refine (carries_expect _ rfl _).bind fun _ => hs.bind fun yes => ?_
  refine (carries_plain (plain_accept rfl) (extends_accept hfresh rfl)).bind fun found => ?_
  cases found with
  | none => exact carries_pure _
  | some s => exact hs.bind fun no => carries_pure _

theorem carries_keepRest (hplain : Plain value) (h : Extends tail value)
    (hs : Carries tail k one one') :
    Carries tail k (keepRest span value one) (keepRest span value one') := by
  refine (carries_expect _ rfl _).bind fun _ => (carries_plain hplain h).bind fun test => ?_
  exact (carries_expect _ rfl _).bind fun _ => hs.bind fun body => carries_pure _

theorem carries_eachRest (hfresh : Fresh tail) (hplain : Plain value) (h : Extends tail value)
    (hs : Carries tail k one one') :
    Carries tail k (eachRest span value one) (eachRest span value one') := by
  refine (carries_expect _ rfl _).bind fun _ => ?_
  refine (carries_plain (plain_expectName (by decide)) extends_expectName).bind fun name => ?_
  refine (carries_plain (plain_sweep hplain) (extends_sweep hfresh h)).bind fun swept => ?_
  exact hs.bind fun body => carries_pure _

theorem carries_attemptRest (hfresh : Fresh tail) (h : Carries tail k block block') :
    Carries tail k (attemptRest span block) (attemptRest span block') := by
  refine (carries_expect _ rfl _).bind fun _ => h.bind fun tried => ?_
  refine (carries_expect _ rfl _).bind fun _ => ?_
  refine (carries_plain plain_errorName? (extends_errorName? hfresh)).bind fun errorName => ?_
  exact (carries_expect _ rfl _).bind fun _ => h.bind fun handler => carries_pure _

/-! ### Statements in a row -/

/-- Statements in a row are read as far as they go, and then reading stands before the tail. -/
theorem statements_carry (h : Carries tail k one one') (hone : ∀ ts, Strides ts (one ts))
    {closes : Kind → Bool} {bound bound' : List Token} {done ss : List Stmt}
    {errors log : List Setback} (hlen : ts.length ≤ k) (hb : ts.length ≤ bound.length)
    (hb' : (ts ++ tail).length ≤ bound'.length) (hapart : Apart tail ts)
    (hcomparable : tail = [] ∨ log = [])
    (hrun : statements one closes bound done errors ts = (ss, rest, log)) :
    rest <:+ ts ∧ ∃ bound'', (rest ++ tail).length ≤ bound''.length ∧
      statements one' closes bound' done errors (ts ++ tail) =
        statements one' closes bound'' ss.reverse log (rest ++ tail) := by
  induction bound generalizing bound' done errors ts with
  | nil =>
    obtain rfl : ts = [] := by simpa using hb
    cases hrun
    exact ⟨List.suffix_refl _, bound', hb', by rw [List.reverse_reverse]⟩
  | cons _ bound ih =>
    unfold statements at hrun
    split at hrun
    · cases hrun
      exact ⟨List.suffix_refl _, bound', hb', by rw [List.reverse_reverse]⟩
    · next t ts =>
      split at hrun
      · cases hrun
        exact ⟨List.suffix_refl _, bound', hb', by rw [List.reverse_reverse]⟩
      · next hclose =>
        obtain ⟨hsuffix, hsame⟩ := h (t :: ts) hlen hapart
        obtain ⟨hkeeps, hmoves⟩ := hone (t :: ts)
        obtain ⟨u, bound', rfl⟩ :=
          List.exists_cons_of_length_pos (Nat.lt_of_lt_of_le (Nat.succ_pos _) hb')
        simp only [List.length_cons, List.cons_append, Nat.add_le_add_iff_right] at hlen hb hb'
        split at hrun
        · next s mid more hs =>
          rw [hs] at hsuffix hsame hmoves
          have hshort : mid.length ≤ ts.length := Nat.le_of_lt_succ (hmoves s rfl)
          have hmore : tail = [] ∨ more = [] := by
            refine hcomparable.imp_right fun hlog => ?_
            subst hlog
            exact (List.append_eq_nil_iff.1 (statements_noErrors hrun)).2
          have hone' := hsame (hmore.imp_right fun hnil => ⟨⟨s, rfl⟩, hnil⟩)
          have hb'' : (mid ++ tail).length ≤ bound'.length := by
            rw [List.length_append] at hb' ⊢
            omega
          obtain ⟨hrest, bound'', hlong, hrest'⟩ :=
            ih (by omega) (Nat.le_trans hshort hb) hb'' (hapart.suffix hsuffix) hrun
          refine ⟨hrest.trans hsuffix, bound'', hlong, ?_⟩
          simp only [List.cons_append, statements, hclose] at hone' ⊢
          simpa only [hone', Bool.false_eq_true, if_false] using hrest'
        · next e mid more hs =>
          rw [hs] at hsuffix hsame
          have htail : tail = [] := by
            refine hcomparable.resolve_right ?_
            rintro rfl
            simpa using statements_noErrors hrun
          subst htail
          have hone' := hsame (.inl rfl)
          have hle := hsuffix.length_le
          have hshort := resume_length mid
          simp only [List.length_cons] at hle
          have hb'' : (resume mid ++ []).length ≤ bound'.length := by
            rw [List.append_nil] at hb' ⊢
            omega
          obtain ⟨hrest, bound'', hlong, hrest'⟩ :=
            ih (by omega) (by omega) hb'' (.of_nil _) hrun
          refine ⟨(hrest.trans (resume_suffix mid)).trans hsuffix, bound'', hlong, ?_⟩
          simp only [List.append_nil, statements, hclose] at hone' hrest' ⊢
          simpa only [hone', Bool.false_eq_true, if_false] using hrest'

theorem statements_of_closes {closes : Kind → Bool} (h : ∀ t ∈ ts.head?, closes t.kind = true)
    (bound : List Token) (done : List Stmt) (errors : List Setback) :
    statements one closes bound done errors ts = (done.reverse, ts, errors) := by
  cases bound with
  | nil => rfl
  | cons _ bound =>
    cases ts with
    | nil => rfl
    | cons t ts =>
      rw [statements]
      exact if_pos (h t rfl)

/-- A body goes up to its closing brace, whatever comes behind that. -/
theorem carries_body (h : Carries tail k one one') (hone : ∀ ts, Strides ts (one ts)) :
    Carries tail k (body one) (body one') := by
  intro ts hlen hapart
  have hread : ∃ ss rest log,
      statements one (· = .symbol .rightBrace) ts [] [] ts = (ss, rest, [] ++ log) ∧
        (∀ t ∈ rest.head?, decide (t.kind = .symbol .rightBrace) = true) ∧
        Keeps 0 ts ((.ok ss, rest, log) : Except Error (List Stmt) × _) :=
    statements_keep hone (Nat.le_refl ts.length)
  obtain ⟨ss, rest, log, hread, hend, taken, hts, -⟩ := hread
  rw [List.nil_append] at hread
  have hread' (hcomparable : tail = [] ∨ log = [])
      (hclose : ∀ t ∈ (rest ++ tail).head?, decide (t.kind = .symbol .rightBrace) = true) :
      statements one' (· = .symbol .rightBrace) (ts ++ tail) [] [] (ts ++ tail) =
        (ss, rest ++ tail, log) := by
    obtain ⟨-, bound'', -, hsame⟩ := statements_carry h hone hlen (Nat.le_refl _)
      (Nat.le_refl _) hapart hcomparable hread
    rw [hsame, statements_of_closes hclose, List.reverse_reverse]
  cases rest with
  | nil =>
    have hbody := body_eq hread rfl
    refine ⟨by rw [hbody]; exact List.nil_suffix, fun hcomparable => ?_⟩
    rw [hbody] at hcomparable ⊢
    rcases hcomparable with rfl | ⟨⟨a, ha⟩, -⟩
    · exact body_eq (hread' (.inl rfl) hend) rfl
    · cases ha
  | cons t after =>
    have ht : t.kind = .symbol .rightBrace := of_decide_eq_true (hend t rfl)
    have hbody := body_eq hread (expect_of_kind ht)
    refine ⟨?_, fun hcomparable => ?_⟩
    · rw [hbody]
      exact ⟨taken ++ [t], by simp [hts]⟩
    · rw [hbody] at hcomparable ⊢
      exact body_eq (hread' (hcomparable.imp_right And.right) hend) (expect_of_kind ht)

/-! ### All statements -/

/-- Where there is nothing to read there is nothing to compare, unless nothing comes behind. -/
theorem CarriesAt.of_nil (hp : Strides [] (p [])) (h : p [] = p' []) :
    CarriesAt tail [] p p' := by
  obtain ⟨⟨taken, htaken, -⟩, hmoves⟩ := hp
  have hnil : (p []).2.1 = [] := (List.append_eq_nil_iff.1 htaken.symm).2
  refine ⟨by rw [hnil], fun hcomparable => ?_⟩
  rcases hcomparable with rfl | ⟨⟨a, ha⟩, -⟩
  · rw [List.append_nil, List.append_nil, ← h]
  · exact (Nat.not_lt_zero _ (hmoves a ha)).elim

theorem CarriesAt.congr (h : CarriesAt tail ts p p') {g g' : BodyParser α} (hg : g ts = p ts)
    (hg' : g' (ts ++ tail) = p' (ts ++ tail)) : CarriesAt tail ts g g' := by
  refine ⟨by rw [hg]; exact h.suffix, fun hcomparable => ?_⟩
  rw [hg] at hcomparable ⊢
  rw [hg']
  exact h.run hcomparable

theorem carriesAt_expressionStatement (hfresh : Fresh tail) (hplain : Plain value)
    (h : Extends tail value) :
    CarriesAt tail ts
      (liftM (do let e ← value; terminator; return .expr e : Parser Stmt))
      (liftM (do let e ← value; terminator; return .expr e : Parser Stmt)) := by
  refine .lift (Plain.suffix ?_ ts) fun s rest hrun => ?_
  · exact hplain.bind fun e => plain_terminator.bind fun _ => plain_pure _
  · exact (h.bind fun e => (extends_terminator hfresh).bind fun _ => extends_pure _) hrun

theorem carries_simpleStatement (hplain : Plain value) (h : Extends tail value)
    (hstrides : ∀ ts, Strides ts (simpleStatement value one block ts))
    (hs : ∀ j < k, Carries tail j one one') (hb : ∀ j < k, Carries tail j block block') :
    Carries tail k (simpleStatement value one block) (simpleStatement value one' block') := by
  intro ts hlen hapart
  have hfresh := hapart.fresh
  cases ts with
  | nil => exact .of_nil (hstrides []) rfl
  | cons t rest =>
    obtain ⟨kind, span, lexeme⟩ := t
    have hs' := hs rest.length hlen
    have hb' := hb rest.length hlen
    have hapart' := hapart.suffix (List.suffix_cons _ rest)
    cases kind with
    | keyword word =>
      cases word with
      | ifWord =>
        exact .cons (carries_ifRest hfresh hplain h hs' rest (Nat.le_refl _) hapart') rfl rfl
      | keep =>
        exact .cons (carries_keepRest hplain h hs' rest (Nat.le_refl _) hapart') rfl rfl
      | each =>
        exact .cons (carries_eachRest hfresh hplain h hs' rest (Nat.le_refl _) hapart') rfl rfl
      | tryWord =>
        exact .cons (carries_attemptRest hfresh hb' rest (Nat.le_refl _) hapart') rfl rfl
      | give =>
        refine .cons (carriesAt_giveRest hfresh hplain h fun htail hnil => ?_) rfl rfl
        exact hapart.noGive htail _ (by rw [hnil]; rfl) rfl
      | say =>
        have hsay : Plain (do let e ← value; terminator; return Stmt.say e span) :=
          hplain.bind fun e => plain_terminator.bind fun _ => plain_pure _
        exact .cons (.lift (hsay.suffix rest) fun _ _ hrun =>
          (h.bind fun e => (extends_terminator hfresh).bind fun _ => extends_pure _) hrun) rfl rfl
      | stop =>
        have hstop : Plain (do terminator; return Stmt.stop span) :=
          plain_terminator.bind fun _ => plain_pure _
        exact .cons (.lift (hstop.suffix rest) fun _ _ hrun =>
          ((extends_terminator hfresh).bind fun _ => extends_pure _) hrun) rfl rfl
      | skip =>
        have hskip : Plain (do terminator; return Stmt.skip span) :=
          plain_terminator.bind fun _ => plain_pure _
        exact .cons (.lift (hskip.suffix rest) fun _ _ hrun =>
          ((extends_terminator hfresh).bind fun _ => extends_pure _) hrun) rfl rfl
      | _ => exact (carriesAt_expressionStatement hfresh hplain h).congr rfl rfl
    | symbol sign =>
      cases sign with
      | leftBrace =>
        have hblock : Carries tail rest.length (do return Stmt.block (← block) span)
            (do return Stmt.block (← block') span) := hb'.bind fun body => carries_pure _
        exact .cons (hblock rest (Nat.le_refl _) hapart') rfl rfl
      | _ => exact (carriesAt_expressionStatement hfresh hplain h).congr rfl rfl
    | _ => exact (carriesAt_expressionStatement hfresh hplain h).congr rfl rfl

/-- With room for all the tokens, what is read of them does not depend on the room, nor on the
tail. -/
theorem carries_declaration_statement (n : Nat) : ∀ n' k b,
    (2 * k + 2 ≤ n → 2 * k + 2 ≤ n' → Carries tail k (declaration n b) (declaration n' b)) ∧
      (2 * k + 1 ≤ n → 2 * k + 1 ≤ n' →
        Carries tail k (Parser.statement n b) (Parser.statement n' b)) := by
  induction n with
  | zero => exact fun n' k b => ⟨fun hn => by omega, fun hn => by omega⟩
  | succ n ih =>
    intro n' k b
    obtain _ | n' := n'
    · exact ⟨fun _ hn' => by omega, fun _ hn' => by omega⟩
    have hstrides := strides_declaration_statement (n + 1) b
    have hbody (b j : Nat) (hn : 2 * j + 2 ≤ n) (hn' : 2 * j + 2 ≤ n') :
        Carries tail j (body (declaration n b)) (body (declaration n' b)) :=
      carries_body ((ih n' j b).1 hn hn') fun ts => (strides_declaration_statement n b ts).1
    constructor
    · intro hn hn' ts hlen hapart
      obtain _ | ⟨⟨kind, span, lexeme⟩, rest⟩ := ts
      · refine .of_nil (hstrides []).1 ?_
        obtain ⟨n, rfl⟩ := Nat.exists_eq_add_of_le' (show 1 ≤ n by omega)
        obtain ⟨n', rfl⟩ := Nat.exists_eq_add_of_le' (show 1 ≤ n' by omega)
        cases b <;> rfl
      have hapart' := hapart.suffix (List.suffix_cons _ rest)
      have hbinding (binder : Binder) : CarriesAt tail rest
          (liftM (binding binder (expression b))) (liftM (binding binder (expression b))) :=
        .lift ((plain_binding binder (plain_expression_unary b).1).suffix rest) fun _ _ hrun =>
          extends_binding hapart.fresh (extends_expression_unary hapart.fresh b).1 binder hrun
      have hstatement := (ih n' k b).2 (by omega) (by omega) _ hlen hapart
      rw [List.length_cons] at hlen
      cases kind with
      | keyword word =>
        cases word with
        | hold => exact .cons (hbinding .hold) rfl rfl
        | lock => exact .cons (hbinding .lock) rfl rfl
        | skill =>
          have hskill := carries_skillRest hapart.fresh
            (hbody b rest.length (by omega) (by omega))
          exact .cons (hskill rest (Nat.le_refl _) hapart') rfl rfl
        | _ => exact hstatement.congr rfl rfl
      | _ => exact hstatement.congr rfl rfl
    · intro hn hn' ts hlen hapart
      cases b with
      | zero => exact carries_plain plain_tooDeep extends_tooDeep ts hlen hapart
      | succ b =>
        exact carries_simpleStatement (plain_expression_unary b).1
          (extends_expression_unary hapart.fresh b).1 (fun ts => (hstrides ts).2)
          (fun j hj => (ih n' j b).2 (by omega) (by omega))
          (fun j hj => hbody b j (by omega) (by omega)) ts hlen hapart

/-- The room that is made for some tokens is enough for fewer. -/
theorem carries_declaration (tail : List Token) (b : Nat) {j : Nat} (h : k ≤ j) :
    Carries tail k (declaration (2 * k + 2) b) (declaration (2 * j + 2) b) :=
  (carries_declaration_statement (2 * k + 2) (2 * j + 2) k b).1 (Nat.le_refl _) (by omega)

end Vibe.Parser
