import Vibe.Program
import Vibe.Machine.Execution
import Vibe.Proofs.Decimal.Conversion
import Vibe.Proofs.Decimal.Layout
import Vibe.Proofs.Token.Cutting

/-! What is printed of a finite number is converted to an equal number, and is itself a program
that comes to one. -/

namespace Vibe

variable {cs : List Char} {n : Numeral} {text : String} {negative : Bool}

/-! ### Conversion -/

theorem Numeral.toFloat_signed (hn : n.negative = false) (negative : Bool) :
    ({ n with negative } : Numeral).toFloat = if negative then -n.toFloat else n.toFloat := by
  simp [toFloat, unreached, reached, hn]

theorem Plain.numberOf?_eq (h : Plain cs n)
    (htext : text.toList = if negative then '-' :: cs else cs)
    (hfinite : (if negative then -n.toFloat else n.toFloat).isFinite = true) :
    Builtin.numberOf? text = some (if negative then -n.toFloat else n.toFloat) := by
  obtain ⟨sp, hsp, hnumeral⟩ := h.exists_spelling negative
  have htrim : Text.trim text.toList = sp.text := by
    rw [htext, ← hsp, sp.trim_alone]
  have hread := Numeral.toFloat_signed h.negative_eq negative
  simp only [Builtin.numberOf?, htrim, Spelling.parse?_text, hnumeral, Option.bind_eq_bind,
    Option.bind_some, hread, if_pos hfinite]

/-! ### Tokens -/

namespace Token

theorem Lexeme.ofPlain (h : Plain cs n) : Lexeme cs (.number n.toFloat) := by
  cases h with
  | whole hne hdigit => exact .number hne hdigit
  | decimal hne hdigit hne' hdigit' => exact .decimal hne hdigit hne' hdigit'

/-- A text that is a lexeme as a whole is the longest one. -/
theorem Lexeme.longest {kind : Kind} (h : Lexeme cs kind) : Longest (cs ++ []) cs kind := by
  rw [List.append_nil]
  exact ⟨h, List.prefix_refl cs, fun v k _ hv => hv.length_le⟩

theorem exists_digit_of_plain (h : Plain cs n) : ∃ c r, cs = c :: r ∧ c.isDigit = true := by
  cases h with
  | whole hne hdigit =>
    obtain ⟨c, r, rfl⟩ := List.exists_cons_of_ne_nil hne
    exact ⟨c, r, rfl, hdigit c List.mem_cons_self⟩
  | @decimal whole fraction hne hdigit _ _ =>
    obtain ⟨c, r, rfl⟩ := List.exists_cons_of_ne_nil hne
    exact ⟨c, r ++ '.' :: fraction, rfl, hdigit c List.mem_cons_self⟩

theorem solid_of_isDigit {c : Char} {r : List Char} (h : c.isDigit = true) : Solid (c :: r) := by
  have hspace : isSpace c = false := by
    by_contra hspace
    rw [not_isDigit_of_isSpace (Bool.not_eq_false _ ▸ hspace)] at h
    cases h
  have hopens : opensComment (c :: r) = false := by
    unfold opensComment
    split
    · next heq =>
      obtain ⟨rfl, -⟩ := List.cons.inj heq
      cases h
    · next heq =>
      obtain ⟨rfl, -⟩ := List.cons.inj heq
      rw [not_isNameStart_of_isDigit h, Bool.false_and]
    · next heq => cases heq
  refine solid_of_takeGap? ?_
  simp [takeGap?, hopens, hspace]

theorem cut_of_plain (h : Plain cs n) (before : List Char) :
    Cut [] before cs [placed before cs (.number n.toFloat)] := by
  obtain ⟨c, r, hcs, hdigit⟩ := exists_digit_of_plain h
  have hsolid : Solid (cs ++ []) := by
    rw [List.append_nil, hcs]
    exact solid_of_isDigit hdigit
  have hcut : Cut [] before ([] ++ (cs ++ ([] ++ []))) _ :=
    .token .nil hsolid (Lexeme.ofPlain h).longest (.done .nil .nil)
  simpa using hcut

theorem cut_of_minus (h : Plain cs n) : Cut [] [] ('-' :: cs)
    [placed [] ['-'] (.symbol .minus), placed ['-'] cs (.number n.toFloat)] := by
  have hsolid : Solid (['-'] ++ cs) := solid_of_takeGap? rfl
  have hlongest : Longest (['-'] ++ cs) ['-'] (.symbol .minus) :=
    longest_of_front (front_of_operator rfl)
  exact .token .nil hsolid hlongest (cut_of_plain h _)

end Token

/-! ### Programs -/

/-- A number as an expression, with a minus sign or without one. -/
def Expr.signed (negative : Bool) (x : Float) (span span' : Span) : Expr :=
  if negative then .unary .neg (.literal (.number x) span) span' else .literal (.number x) span

theorem Program.parse_of_plain (h : Plain cs n)
    (htext : text.toList = if negative then '-' :: cs else cs) :
    ∃ tokens span span', Token.scan text = .ok tokens ∧
      Program.parse text = .ok [.expr (.signed negative n.toFloat span span')] := by
  cases negative with
  | false =>
    let t := Token.placed [] cs (.number n.toFloat)
    have hcut : Token.Cut [] [] text.toList [t] := by
      rw [htext]
      exact Token.cut_of_plain h []
    have hscan := Token.scan_of_cut hcut
    refine ⟨_, t.span, t.span, hscan, ?_⟩
    rw [Program.parse, hscan]
    rfl
  | true =>
    let minus := Token.placed [] ['-'] (.symbol .minus)
    let t := Token.placed ['-'] cs (.number n.toFloat)
    have hcut : Token.Cut [] [] text.toList [minus, t] := by
      rw [htext]
      exact Token.cut_of_minus h
    have hscan := Token.scan_of_cut hcut
    refine ⟨_, t.span, minus.span, hscan, ?_⟩
    rw [Program.parse, hscan]
    rfl

/-- The machine can count so many operations: they are left, or enough time has passed each time
that the clock is looked at. -/
def Machine.Affords (n : ℕ) (m : Machine) : Prop :=
  m.operations + n ≤ m.limits.maxOperations ∨ ∀ l < n, m.limits.unhurried (m.looks + l) = true

/-- After an operation one less can be counted. -/
theorem Run.exists_tick {n : ℕ} {m : Machine} (span : Span) (hm : m.Affords (n + 1)) :
    ∃ k l, Run.tick span m = .done () { m with operations := k, looks := l } ∧
      ({ m with operations := k, looks := l } : Machine).Affords n := by
  by_cases hle : m.operations + 1 ≤ m.limits.maxOperations
  · refine ⟨m.operations + 1, m.looks, if_pos hle, hm.imp (fun hleft => ?_) fun hpassed l hl => ?_⟩
    · change m.operations + 1 + n ≤ m.limits.maxOperations
      omega
    · exact hpassed l (Nat.lt_succ_of_lt hl)
  · have hpassed := hm.resolve_left fun hleft => hle (by omega)
    refine ⟨0, m.looks + 1, ?_, .inr fun l hl => ?_⟩
    · have hnow : m.limits.unhurried m.looks = true := hpassed 0 n.succ_pos
      simp [Run.tick, hle, hnow]
    · change m.limits.unhurried (m.looks + 1 + l) = true
      rw [Nat.add_right_comm, Nat.add_assoc]
      exact hpassed (l + 1) (Nat.succ_lt_succ hl)

theorem Expr.eval_literal (x : Float) (span : Span) (fuel : ℕ) {n : ℕ} {m : Machine}
    (hm : m.Affords (n + 1)) :
    ∃ k l, (Interpreter.eval (fuel + 1) (.literal (.number x) span) : Run Value) m =
      .done (.number x) { m with operations := k, looks := l } := by
  obtain ⟨k, l, htick, -⟩ := Run.exists_tick span hm
  refine ⟨k, l, ?_⟩
  change (Run.tick span >>= fun _ => pure (Value.number x) : Run Value) m = _
  rw [Run.bind_apply, htick]
  rfl

/-- A number written out comes to that number, if two operations can be counted. -/
theorem Expr.eval_signed (negative : Bool) (x : Float) (span span' : Span) (fuel : ℕ) {m : Machine}
    (hm : m.Affords 2) :
    ∃ k l, (Interpreter.eval (fuel + 2) (Expr.signed negative x span span') : Run Value) m =
      .done (.number (if negative then -x else x)) { m with operations := k, looks := l } := by
  cases negative with
  | false => exact Expr.eval_literal x span (fuel + 1) hm
  | true =>
    obtain ⟨k, l, htick, hm'⟩ := Run.exists_tick span' hm
    obtain ⟨k', l', hliteral⟩ := Expr.eval_literal x span fuel hm'
    refine ⟨k', l', ?_⟩
    change (Run.tick span' >>= fun _ => Interpreter.eval (fuel + 1) (.literal (.number x) span) >>=
      fun v => Instr.run (.operateUnary .neg v span') : Run Value) m = _
    rw [Run.bind_apply, htick]
    dsimp only
    rw [Run.bind_apply, hliteral]
    rfl

/-- A finite number is printed as a text that is converted to an equal number. The text is also a
program: it is cut into tokens and read as one expression, which comes to that number wherever two
operations can be counted. What is printed of a number that is not finite cannot be converted. -/
theorem Builtin.numbers_read_back (x : Float) (st : Store) :
    (x.isFinite = true → ∃ (text : String) (y : Float) (tokens : List Token) (e : Expr),
      Builtin.call .str [.number x] st = (.ok (.string text), st) ∧
      Builtin.call .num [.string text] st = (.ok (.number y), st) ∧ (y == x) = true ∧
      Token.scan text = .ok tokens ∧ Program.parse text = .ok [.expr e] ∧
      ∀ (fuel : ℕ) (m : Machine), m.Affords 2 →
        ∃ k l, (Interpreter.eval (fuel + 2) e : Run Value) m =
          .done (.number y) { m with operations := k, looks := l }) ∧
    (x.isFinite = false → ∃ text : String,
      Builtin.call .str [.number x] st = (.ok (.string text), st) ∧
      Builtin.call .num [.string text] st =
        (.error (.builtin ("cannot convert \"" ++ text ++ "\" to number")), st)) := by
  have hprint : Builtin.call .str [.number x] st =
      (.ok (.string (Layout.printed.write x)), st) := rfl
  constructor
  · intro hx
    obtain ⟨cs, n, negative, hplain, htext, hfinite, hequal⟩ := Layout.exists_printed hx
    obtain ⟨tokens, span, span', hscan, hparse⟩ := Program.parse_of_plain hplain htext
    refine ⟨_, _, tokens, _, hprint, ?_, hequal, hscan, hparse,
      fun fuel m hm => Expr.eval_signed negative n.toFloat span span' fuel hm⟩
    rw [Builtin.call_num, hplain.numberOf?_eq htext hfinite]
  · intro hx
    refine ⟨_, hprint, ?_⟩
    rw [Builtin.call_num, Builtin.numberOf?, Layout.parse?_write hx]
    rfl

theorem Builtin.numbers_read_back_tenth : (0.1 : Float).isFinite = true ∧ ∃ text y,
    Builtin.call .str [.number 0.1] {} = (.ok (.string text), {}) ∧
      Builtin.call .num [.string text] {} = (.ok (.number y), {}) ∧ (y == 0.1) = true := by
  have hfinite : (0.1 : Float).isFinite = true := by decide +kernel
  obtain ⟨text, y, -, -, hstr, hnum, hequal, -⟩ := (Builtin.numbers_read_back 0.1 {}).1 hfinite
  exact ⟨hfinite, text, y, hstr, hnum, hequal⟩

end Vibe
