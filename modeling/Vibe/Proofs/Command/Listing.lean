import Vibe.Proofs.Command.Tracing
import Vibe.Proofs.Machine.Definitions
import Vibe.Proofs.Syntax.Soundness.Programs

/-! What a shell lists as its variables, told from the definitions that its lines have made. -/

namespace Vibe

/-- Whether a value is a built-in skill. -/
def Value.isBuiltin : Value → Bool
  | builtin _ => true
  | _ => false

/-- The value of a name outside all blocks. -/
def Machine.global (m : Machine) (name : String) : Value :=
  (m.store.get name root).toOption.getD .null

namespace Shell

/-- The definitions since the start, or since they were last forgotten, after one more line. -/
def definitionsAfter (text : String) (m : Machine) (ds : List Definition) : List Definition :=
  if text = "clear" then []
  else if text ∈ commands then ds
  else match Program.parseAll text with
    | .error _ => ds
    | .ok p => ds ++ p.definitions m.limits.fuel m.reset

/-- A shell after some lines of input, with the definitions that these have made outside all blocks
since the start, or since the definitions were last forgotten. -/
inductive Defining (input : String) (dice : Dice) (clock : Clock) : List Definition → Shell → Prop
  | opened : Defining input dice clock [] (opened input dice clock)
  | line {ds : List Definition} {sh sh' : Shell} {line : String}
      (h : Defining input dice clock ds sh) (hline : sh.nextLine = some (line, sh'))
      (hgoes : (sh'.step line).2 = true) :
      Defining input dice clock (definitionsAfter (Text.trimmed line) sh'.machine ds)
        (sh'.step line).1

/-- The definitions that stand, those of the built-in skills among them. -/
def standing (ds : List Definition) : List Definition :=
  latest (Builtin.definitions ++ ds)

/-- The definitions that are listed: those of names whose value is no built-in skill. -/
def shown (m : Machine) (ds : List Definition) : List Definition :=
  (standing ds).filter fun d => !(m.global d.name).isBuiltin

/-- A definition with the value that the name has now. -/
def row (m : Machine) (d : Definition) : String :=
  "  " ++ d.binder.keyword.text ++ " " ++ d.name ++ " = " ++ m.store.print (m.global d.name)

/-- A line for each definition, or one that says that there are none. -/
def table (m : Machine) : List Definition → List String
  | [] => ["No variables defined."]
  | ds => ds.map (row m)

variable {input : String} {dice : Dice} {clock : Clock} {ds : List Definition} {sh : Shell}
  {m : Machine} {s : Scope} {line text : String}

theorem defined_runLine (h : sh.machine.store.Defined Machine.root (Builtin.definitions ++ ds))
    (htext : text ∉ commands) :
    (sh.runLine text).machine.store.Defined Machine.root
      (Builtin.definitions ++ definitionsAfter text sh.machine ds) := by
  rw [machine_runLine, definitionsAfter, if_neg (ne_clear_of_not_mem htext), if_neg htext]
  cases hparse : Program.parseAll text with
  | error es => exact h
  | ok p =>
    obtain ⟨-, -, -, hshape⟩ := Program.marks_fit_of_parseAll hparse
    have hrun := Machine.defined_run hshape h
    rwa [List.append_assoc] at hrun

theorem defined_step (h : sh.machine.store.Defined Machine.root (Builtin.definitions ++ ds)) :
    (sh.step line).1.machine.store.Defined Machine.root
      (Builtin.definitions ++ definitionsAfter (Text.trimmed line) sh.machine ds) := by
  by_cases hcommand : Text.trimmed line ∈ commands
  · rw [machine_step_of_mem hcommand, definitionsAfter]
    split
    · rw [List.append_nil]
      exact Machine.defined_start sh.machine.limits sh.machine.console _
    · exact h
  · rw [step_of_not_mem hcommand]
    exact defined_runLine h hcommand

/-- The root scope of a shell has the built-in skills and what its lines have defined. -/
theorem Defining.defined (h : Defining input dice clock ds sh) :
    sh.machine.store.Defined Machine.root (Builtin.definitions ++ ds) := by
  induction h with
  | opened =>
    rw [List.append_nil]
    exact Machine.defined_start _ _ _
  | line _ hline _ ih =>
    obtain ⟨-, rfl⟩ := nextLine_eq_some.1 hline
    exact defined_step ih

/-! ### Listings -/

theorem table_definitions (bs : List Binding) : (∀ b ∈ bs, m.global b.name = b.value) →
    table m (bs.map Binding.definition) = match bs with
      | [] => ["No variables defined."]
      | bs => bs.map fun b =>
        "  " ++ b.binder.keyword.text ++ " " ++ b.name ++ " = " ++ m.store.print b.value := by
  intro hglobal
  cases bs with
  | nil => rfl
  | cons b bs =>
    change ((b :: bs).map Binding.definition).map (row m) = _
    rw [List.map_map]
    refine List.map_congr_left fun c hc => ?_
    rw [Function.comp_apply, row, Binding.definition, hglobal c hc]

theorem listing_eq (hs : m.store.scopes[Machine.root]? = some s) :
    listing m = table m (s.definitions.filter fun d => !(m.global d.name).isBuiltin) := by
  have hglobal : ∀ b ∈ s.bindings, m.global b.name = b.value := by
    intro b hb
    rw [Machine.global, Store.get_of_mem hs hb]
    rfl
  have hlisted : m.definitions = s.bindings.filter fun b => !(m.global b.name).isBuiltin := by
    rw [Machine.definitions, Machine.globals, Store.bindings, hs]
    refine List.filter_congr fun b hb => ?_
    rw [hglobal b hb]
    cases b.value <;> rfl
  rw [listing, hlisted, Scope.definitions, List.filter_map]
  exact (table_definitions _ fun b hb => hglobal b (List.mem_of_mem_filter hb)).symm

/-- The definitions that the lines have made are those of the names that they have defined. -/
theorem latest_eq_filter (ds : List Definition) :
    latest ds = (standing ds).filter (·.name ∈ ds.map Definition.name) := by
  have hown : (latest ds).filter (·.name ∈ ds.map Definition.name) = latest ds :=
    List.filter_eq_self.2 fun d hd =>
      decide_eq_true (List.mem_map_of_mem (mem_of_mem_latest hd))
  have hothers : ((latest Builtin.definitions).filter (·.name ∉ ds.map Definition.name)).filter
      (·.name ∈ ds.map Definition.name) = [] := by
    rw [List.filter_filter, List.filter_eq_nil_iff]
    simp
  rw [standing, latest_append, List.filter_append, hothers, hown, List.nil_append]

/-- The shell lists the names that its lines have defined, each once and in the order of the latest
definitions, if of all names exactly those that no line has defined are built-in skills now.
Otherwise it lists other names. -/
theorem shown_eq_latest_iff (m : Machine) (ds : List Definition) : shown m ds = latest ds ↔
    ∀ d ∈ standing ds, (m.global d.name).isBuiltin = true ↔ d.name ∉ ds.map Definition.name := by
  rw [latest_eq_filter, shown]
  constructor
  · intro hsame d hd
    have hmem : (d ∈ (standing ds).filter fun d => !(m.global d.name).isBuiltin) ↔
        d ∈ (standing ds).filter (·.name ∈ ds.map Definition.name) := by
      rw [hsame]
    rw [List.mem_filter, List.mem_filter, Bool.not_eq_true', decide_eq_true_iff] at hmem
    rw [← Bool.not_eq_false, not_iff_not]
    exact (and_congr_right_iff.1 hmem) hd
  · intro hlike
    refine List.filter_congr fun d hd => ?_
    rw [Bool.eq_iff_iff, Bool.not_eq_true', decide_eq_true_iff, ← Bool.not_eq_true, hlike d hd,
      not_not]

/-- What `vars` shows after any lines of input: the names that are defined outside all blocks, those
of the built-in skills among them, each once, in the order of their latest definitions and as these
say, with the values that they have now, but for those whose value is a built-in skill. These are
the names that the lines have defined if and only if of all names exactly the others are built-in
skills now. -/
theorem vars_lists (h : Defining input dice clock ds sh) (hvars : Text.trimmed line = "vars") :
    sh.step line = (sh.say (table sh.machine (shown sh.machine ds)), true) ∧
    (∀ d ∈ standing ds, sh.machine.store.get d.name Machine.root =
      .ok (sh.machine.global d.name)) ∧
    (shown sh.machine ds = latest ds ↔ ∀ d ∈ standing ds,
      (sh.machine.global d.name).isBuiltin = true ↔ d.name ∉ ds.map Definition.name) := by
  obtain ⟨s, hs, hds⟩ := h.defined
  refine ⟨?_, fun d hd => ?_, shown_eq_latest_iff _ _⟩
  · rw [step_eq, hvars]
    simp only
    rw [listing_eq hs, hds]
    rfl
  · rw [standing, ← hds] at hd
    obtain ⟨b, hb, rfl⟩ := List.mem_map.1 hd
    have hget := Store.get_of_mem hs hb
    rw [Binding.definition, Machine.global, hget]
    rfl

/-- The shell after so many lines of input, unless the session has ended, with what these have
defined. -/
def after (input : String) (dice : Dice) (clock : Clock) : Nat → Option (List Definition × Shell)
  | 0 => some ([], opened input dice clock)
  | n + 1 => do
    let (ds, sh) ← after input dice clock n
    let (line, sh) ← sh.nextLine
    let next := sh.step line
    if next.2 then some (definitionsAfter (Text.trimmed line) sh.machine ds, next.1) else none

theorem defining_after {n : Nat} (h : after input dice clock n = some (ds, sh)) :
    Defining input dice clock ds sh := by
  induction n generalizing ds sh with
  | zero =>
    cases h
    exact .opened
  | succ n ih =>
    obtain ⟨⟨ds', sh'⟩, hbefore, hnext⟩ := Option.bind_eq_some_iff.1 h
    obtain ⟨⟨line, sh''⟩, hline, hstep⟩ := Option.bind_eq_some_iff.1 hnext
    obtain ⟨hgoes, heq⟩ := Option.ite_none_right_eq_some.1 hstep
    cases heq
    exact (ih hbefore).line hline hgoes

/-- Lines that define names, one of them again, that change a value, and that fail: `nope` has no
value, and nothing is assigned to a constant. -/
def told : String :=
  "hold x = bet\nlock y = cap\nhold z = nope\nhold z = x\ny = bet\nlock x = y\nz = y\nvars"

/-- The definitions that stand after all lines but the last. -/
def toldLatest : List Definition :=
  [⟨"y", .lock⟩, ⟨"z", .hold⟩, ⟨"x", .lock⟩]

theorem vars_lists_held : ∃ sh,
    Defining told 0 false (⟨"x", .hold⟩ :: toldLatest) sh ∧ Text.trimmed "vars" = "vars" ∧
      sh.step "vars" =
        (sh.say ["  lock y = cap", "  hold z = cap", "  lock x = cap"], true) := by
  have hread : ∃ s ∈ after told 0 false 7, s.1 = ⟨"x", .hold⟩ :: toldLatest ∧
      (∀ d ∈ standing s.1,
        (s.2.machine.global d.name).isBuiltin = true ↔ d.name ∉ s.1.map Definition.name) ∧
      table s.2.machine toldLatest =
        ["  lock y = cap", "  hold z = cap", "  lock x = cap"] := by
    decide +kernel
  obtain ⟨⟨ds, sh⟩, hafter, rfl, hothers, htable⟩ := hread
  have hvars : Text.trimmed "vars" = "vars" := by decide +kernel
  have hdefining := defining_after hafter
  obtain ⟨hstep, -, hshown⟩ := vars_lists hdefining hvars
  have hlatest : latest (⟨"x", .hold⟩ :: toldLatest) = toldLatest := by decide
  refine ⟨sh, hdefining, hvars, ?_⟩
  rw [hstep, hshown.2 hothers, hlatest, htable]

/-- The shell that has read the first line of its input. -/
def afterFirst (input first : String) : Shell :=
  ((opened input 0 false).taken.step first).1

theorem defining_afterFirst {first : String}
    (hline : (opened input 0 false).machine.console.answers.head? = some first)
    (hgoes : ((opened input 0 false).taken.step first).2 = true)
    (hds : definitionsAfter (Text.trimmed first) (opened input 0 false).taken.machine [] = ds) :
    Defining input 0 false ds (afterFirst input first) := by
  have hnext : (opened input 0 false).nextLine = some (first, (opened input 0 false).taken) :=
    nextLine_eq_some.2 ⟨(List.cons_head?_tail hline).symm, rfl⟩
  exact hds ▸ Defining.opened.line hnext hgoes

/-- Names that are defined as built-in skills are not listed, and names that no line has defined
are. -/
theorem vars_misses :
    Defining "hold f = size\nvars" 0 false [⟨"f", .hold⟩]
      (afterFirst "hold f = size\nvars" "hold f = size") ∧
    listing (afterFirst "hold f = size\nvars" "hold f = size").machine =
      ["No variables defined."] ∧
    Defining "size = bet\nvars" 0 false [] (afterFirst "size = bet\nvars" "size = bet") ∧
    listing (afterFirst "size = bet\nvars" "size = bet").machine = ["  hold size = bet"] := by
  refine ⟨defining_afterFirst ?_ ?_ ?_, ?_, defining_afterFirst ?_ ?_ ?_, ?_⟩ <;> decide +kernel

end Shell

end Vibe
