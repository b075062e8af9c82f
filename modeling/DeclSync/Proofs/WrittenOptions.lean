import DeclSync.CommandLine.Program
import DeclSync.Proofs.Marks
import Mathlib.Data.List.Forall2

/-!
# Options as they are written

Options can be written in many ways: each has its spellings, a value follows `=` or is an argument
of its own, and options stand in any order. What a command line says depends on none of this. It
gives exactly the values that were chosen, as long as the targets stay in sequence.

The arguments of each option are sorted on their own, and take effect before anything behind them.
A command line thus has the effects of its options one after another, and of these only the values
matter that each setting is given, in order.

## Main definitions

- `Effect.Written` — how an option is written
- `Effect.SortedAs` — how the arguments of an option are sorted, and what they do
- `Choice` — the options that are chosen, and their values
- `Options.after` — what the effects of options add up to

`Options.parse_flatten_written` says what options give that are written in any way, and
`SwitchUse.joined_flags` that joined flags are read one after another.
-/

namespace DeclSync

/-- Whether the option for a purpose is spelled so, in full. -/
def Purpose.Spelled (purpose : Purpose) (spelling : Text) : Prop :=
  ∃ p ∈ Argument.spellings, p.1 = spelling ∧ p.2.purpose = purpose

instance (purpose : Purpose) (spelling : Text) : Decidable (purpose.Spelled spelling) :=
  inferInstanceAs (Decidable (∃ p ∈ Argument.spellings, p.1 = spelling ∧ p.2.purpose = purpose))

/-- How the option with an effect is written: with its value behind `=`, with its value as the next
argument, which then does not begin with `-`, or without a value. No value is `--`, which stands for
the end of the options. -/
inductive Effect.Written : Effect → List Text → Prop where
  | assigned {s : Setting} {spelling value : Text}
      (hspelled : Purpose.Spelled (.setting s) spelling) (hvalue : value ≠ "--") :
      Written (.set s value) [spelling ++ ("=" ++ value)]
  | apart {s : Setting} {spelling value : Text}
      (hspelled : Purpose.Spelled (.setting s) spelling)
      (hvalue : value.head? ≠ some (.scalar '-')) : Written (.set s value) [spelling, value]
  | raised {f : Flag} {spelling : Text} (hspelled : Purpose.Spelled (.flag f) spelling) :
      Written (.raise f) [spelling]

/-- The options that are chosen, and their values. -/
structure Choice where
  source : Option Text := none
  targets : List Text := []
  output : Option Text := none
  anchor : Option Text := none
  arrayName : Option Text := none
  apiName : Option Text := none
  strict : Bool := false
  verbose : Bool := false

namespace Choice

/-- What the chosen options do, each once. -/
def effects (c : Choice) : List Effect :=
  c.source.toList.map (.set .source) ++ c.targets.map (.set .target) ++
    c.output.toList.map (.set .output) ++ c.anchor.toList.map (.set .anchor) ++
    c.arrayName.toList.map (.set .arrayName) ++ c.apiName.toList.map (.set .apiName) ++
    (if c.strict then [.raise .strict] else []) ++ (if c.verbose then [.raise .verbose] else [])

/-- The values of a choice: those that are not chosen are the standard ones. -/
def options (c : Choice) : Options where
  source := c.source.getD standardSource
  targets := c.targets
  output := c.output.getD []
  anchor := c.anchor.getD Declaration.standardAnchor
  arrayName := c.arrayName.getD Declaration.standardArrayName
  apiName := c.apiName.getD standardApiName
  strict := c.strict
  verbose := c.verbose

/-- What a choice tells a run: there is a target in any case, and an empty output is none. -/
def config (c : Choice) : Config where
  source := .ofText (c.source.getD standardSource)
  targets := if c.targets = [] then [.ofText standardTarget] else c.targets.map .ofText
  output := if c.output.getD [] = [] then none else c.output.map .ofText
  anchor := c.anchor.getD Declaration.standardAnchor
  arrayName := c.arrayName.getD Declaration.standardArrayName
  apiName := c.apiName.getD standardApiName
  strict := c.strict

theorem config_options (c : Choice) : c.options.config = c.config := by
  have htargets : c.options.config.targets = c.config.targets := by
    by_cases hnone : c.targets = []
    · simp [Options.config, options, config, hnone]
    · simp [Options.config, options, config, hnone]
  have houtput : c.options.config.output = c.config.output := by
    cases hc : c.output with
    | none => simp [Options.config, options, config, hc]
    | some output => simp [Options.config, options, config, hc]
  show { c.config with targets := c.options.config.targets, output := c.options.config.output } =
    c.config
  rw [htargets, houtput]

end Choice

/-! ## Sorting -/

namespace Argument

variable {spelling value : Text} {s : Switch}

/-- A spelling spells its option and no other one, begins with `-` and is longer than that, and
neither holds `=` nor is `--`. -/
theorem of_mem_spellings (hp : (spelling, s) ∈ spellings) :
    Switch.ofSpelling? spelling = some s ∧ .scalar '=' ∉ spelling ∧
      spelling.beginsWith "-" = true ∧ spelling ≠ "--" ∧ 2 ≤ spelling.length := by
  have hall : ∀ p ∈ spellings, Switch.ofSpelling? p.1 = some p.2 ∧ .scalar '=' ∉ p.1 ∧
      p.1.beginsWith "-" = true ∧ p.1 ≠ "--" ∧ 2 ≤ p.1.length := by decide
  exact hall _ hp

/-- No option is spelled with `=`. -/
theorem ofSpelling?_eq_none {t : Text} (ht : .scalar '=' ∈ t) : Switch.ofSpelling? t = none := by
  rw [Switch.ofSpelling?, List.find?_eq_none]
  intro s hs hany
  obtain ⟨w, hw, heq⟩ := List.any_eq_true.1 hany
  obtain rfl := of_decide_eq_true heq
  have hspelling : (Text.ofString w, s) ∈ spellings :=
    List.mem_flatMap.2 ⟨s, hs, List.mem_map.2 ⟨w, hw, rfl⟩⟩
  exact (of_mem_spellings hspelling).2.1 ht

theorem ofText_spelling (hp : (spelling, s) ∈ spellings) :
    ofText spelling = .ok (switch (useOf spelling s .nothing)) := by
  obtain ⟨hswitch, -, hdash, -⟩ := of_mem_spellings hp
  simp [ofText, hdash, hswitch]

theorem ofText_assigned (hp : (spelling, s) ∈ spellings) (value : Text) :
    ofText (spelling ++ ("=" ++ value)) = .ok (switch (useOf spelling s (.value value))) := by
  obtain ⟨hswitch, hequals, hdash, -, hlong⟩ := of_mem_spellings hp
  have hbegins : Text.beginsWith (spelling ++ ("=" ++ value)) "-" = true :=
    Text.isSome_after?_iff.2 ((Text.isSome_after?_iff.1 hdash).trans (List.prefix_append _ _))
  have hnone : Switch.ofSpelling? (spelling ++ ("=" ++ value)) = none :=
    ofSpelling?_eq_none (by simp [Text.ofString])
  have hlength : (spelling ++ ("=" ++ value)).length ≠ 1 := by
    rw [List.length_append]
    omega
  have hassigned : assigned? (spelling ++ ("=" ++ value)) =
      some (useOf spelling s (.value value)) := by
    have hcut : Text.cut? "=" (spelling ++ ("=" ++ value)) = some (spelling, value) :=
      Text.cut?_of_notMem hequals value
    simp [assigned?, hcut, hswitch]
  rw [ofText, hbegins, hnone, hassigned]
  simp only [Bool.not_true, Bool.false_eq_true, ↓reduceIte, hlength]

theorem ofText_plain (hvalue : value.head? ≠ some (.scalar '-')) :
    ofText value = .ok (plain value) := by
  have hbegins : value.beginsWith "-" = false := by
    apply Bool.eq_false_iff.2
    intro hbegins
    obtain ⟨rest, rfl⟩ := Text.isSome_after?_iff.1 hbegins
    exact hvalue rfl
  simp [ofText, hbegins]

/-- Each argument in front of `--` is sorted on its own. -/
theorem ofTexts_cons {t : Text} {argument : Argument} (ht : t ≠ "--")
    (hargument : ofText t = .ok argument) (ts : List Text) :
    ofTexts (t :: ts) = (argument :: ·) <$> ofTexts ts := by
  rw [ofTexts, if_neg ht, hargument]
  rfl

end Argument

/-! ## Effects -/

namespace SwitchUse

variable {s : Switch} {rules : JoinRules}

/-- A value behind `=` is the value of its option, whether the spelling is a short one or not. -/
theorem parts_assigned {setting : Setting} (hpurpose : s.purpose = .setting setting)
    (spelling value : Text) (next : Option Text) :
    (Argument.useOf spelling s (.value value)).parts rules next =
      .ok { effects := [.set setting value] } := by
  rw [parts, Argument.useOf]
  simp only
  split
  · next hjoined =>
    -- the earlier rules read the value as if it were joined
    obtain ⟨rfl, -, hvalue⟩ := hjoined
    obtain ⟨c, more, rfl⟩ := List.exists_cons_of_ne_nil hvalue
    simp [joined, hpurpose]
  · simp [assigned, hpurpose]

theorem parts_apart {setting : Setting} (hpurpose : s.purpose = .setting setting)
    (spelling value : Text) :
    (Argument.useOf spelling s .nothing).parts rules (some value) =
      .ok { effects := [.set setting value], takesNext := true } := by
  simp [parts, Argument.useOf, alone, hpurpose]

theorem parts_raised {f : Flag} (hpurpose : s.purpose = .flag f) (spelling : Text)
    (next : Option Text) :
    (Argument.useOf spelling s .nothing).parts rules next = .ok { effects := [.raise f] } := by
  simp [parts, Argument.useOf, alone, hpurpose]

/-! ### Joined options -/

section Joined

variable {other last : Switch} {f : Flag} {c : CodePoint}

theorem joined_cons (hpurpose : s.purpose = .flag f)
    (hother : Switch.ofSpelling? ['-', c] = some other) (text : Text) (next : Option Text) :
    joined rules s next (c :: text) =
      (fun parts => { parts with effects := .raise f :: parts.effects }) <$>
        joined rules other next text := by
  have hequals : c ≠ .scalar '=' := by
    rintro rfl
    rw [Argument.ofSpelling?_eq_none (by simp)] at hother
    exact absurd hother (by simp)
  rw [joined, if_neg fun h => hequals h.2, hpurpose]
  simp only [hother]
  rfl

/-- Joined flags are raised in order, and the option behind them is read as it is without them. -/
theorem joined_flags {flags : List Flag} {letters : Text}
    (hletters : List.Forall₂ (fun f c => Purpose.Spelled (.flag f) ['-', c]) flags letters)
    (hpurpose : s.purpose = .flag f) (hlast : Switch.ofSpelling? ['-', c] = some last)
    (text : Text) (next : Option Text) :
    joined rules s next (letters ++ c :: text) =
      (fun parts => { parts with effects := (f :: flags).map .raise ++ parts.effects }) <$>
        joined rules last next text := by
  induction hletters generalizing s f with
  | nil => exact joined_cons hpurpose hlast text next
  | cons hspelled hletters ih =>
    obtain ⟨⟨spelling, other⟩, hp, rfl, hflag⟩ := hspelled
    obtain ⟨hother, -⟩ := Argument.of_mem_spellings hp
    rw [List.cons_append, joined_cons hpurpose hother, ih hflag, Functor.map_map]
    rfl

-- where the two versions of the rules part
example : Options.parse ["-vs=a.js"] .earlier = .ok { source := "=a.js", verbose := true } := rfl

example : Options.parse ["-vs=a.js"] .later = .ok { source := "a.js", verbose := true } := rfl

example : Options.parse ["-vhx"] .later = .error .help := rfl

end Joined

end SwitchUse

namespace Options

/-- An option with one effect takes it before anything behind the option. -/
theorem applyAll_switch {rules : JoinRules} {use : SwitchUse} {later : List Argument} {e : Effect}
    {takesNext : Bool} (hparts : use.parts rules (later.head?.bind Argument.value?) =
      .ok { effects := [e], takesNext := takesNext })
    (o : Options) (refused : List Text) :
    applyAll rules o refused false (.switch use :: later) =
      o.apply e >>= fun o => applyAll rules o refused takesNext later := by
  rw [applyAll, hparts]
  cases happly : o.apply e with
  | error exit => simp [happly, Except.mapError, bind, Except.bind]
  | ok after => simp [happly, Except.mapError, bind, Except.bind, pure, Except.pure]

end Options

namespace Effect

variable {spelling value : Text} {s : Switch}

/-- The arguments of a piece of a command line are sorted on their own, and have an effect before
anything behind them. -/
structure SortedAs (e : Effect) (piece : List Text) (sorted : List Argument) : Prop where
  ofTexts_append : ∀ rest,
    Argument.ofTexts (piece ++ rest) = (sorted ++ ·) <$> Argument.ofTexts rest
  applyAll_append : ∀ rules o refused later,
    Options.applyAll rules o refused false (sorted ++ later) =
      o.apply e >>= fun o => Options.applyAll rules o refused false later

theorem sortedAs_assigned {setting : Setting} (hp : (spelling, s) ∈ Argument.spellings)
    (hpurpose : s.purpose = .setting setting) (value : Text) :
    SortedAs (.set setting value) [spelling ++ ("=" ++ value)]
      [.switch (Argument.useOf spelling s (.value value))] where
  ofTexts_append := by
    apply Argument.ofTexts_cons ?_ (Argument.ofText_assigned hp value)
    intro hseparator
    have hequals : .scalar '=' ∈ ("--" : Text) := by
      rw [← hseparator]
      simp [Text.ofString]
    exact absurd hequals (by decide)
  applyAll_append := by
    intro rules o refused later
    exact Options.applyAll_switch (SwitchUse.parts_assigned hpurpose ..) o refused

/-- The value is the next argument, and is passed over once the option has taken it. -/
theorem sortedAs_apart {setting : Setting} (hp : (spelling, s) ∈ Argument.spellings)
    (hpurpose : s.purpose = .setting setting) (hvalue : value.head? ≠ some (.scalar '-')) :
    SortedAs (.set setting value) [spelling, value]
      [.switch (Argument.useOf spelling s .nothing), .plain value] where
  ofTexts_append := by
    intro rest
    obtain ⟨-, -, -, hseparator, -⟩ := Argument.of_mem_spellings hp
    have hplain : value ≠ "--" := by
      rintro rfl
      exact hvalue rfl
    rw [List.cons_append, Argument.ofTexts_cons hseparator (Argument.ofText_spelling hp),
      List.singleton_append, Argument.ofTexts_cons hplain (Argument.ofText_plain hvalue),
      Functor.map_map]
    rfl
  applyAll_append := by
    intro rules o refused later
    have hparts : (Argument.useOf spelling s .nothing).parts rules
        ((Argument.plain value :: later).head?.bind Argument.value?) =
          .ok { effects := [.set setting value], takesNext := true } :=
      SwitchUse.parts_apart hpurpose spelling value
    exact Options.applyAll_switch hparts o refused

theorem sortedAs_raised {f : Flag} (hp : (spelling, s) ∈ Argument.spellings)
    (hpurpose : s.purpose = .flag f) :
    SortedAs (.raise f) [spelling] [.switch (Argument.useOf spelling s .nothing)] where
  ofTexts_append := by
    obtain ⟨-, -, -, hseparator, -⟩ := Argument.of_mem_spellings hp
    exact Argument.ofTexts_cons hseparator (Argument.ofText_spelling hp)
  applyAll_append := by
    intro rules o refused later
    exact Options.applyAll_switch (SwitchUse.parts_raised hpurpose ..) o refused

/-- However an option is written, its arguments are sorted on their own. -/
theorem Written.exists_sortedAs {e : Effect} {piece : List Text} (h : e.Written piece) :
    ∃ sorted, e.SortedAs piece sorted := by
  cases h with
  | assigned hspelled _ =>
    obtain ⟨⟨spelling, s⟩, hp, rfl, hpurpose⟩ := hspelled
    exact ⟨_, sortedAs_assigned hp hpurpose _⟩
  | apart hspelled hvalue =>
    obtain ⟨⟨spelling, s⟩, hp, rfl, hpurpose⟩ := hspelled
    exact ⟨_, sortedAs_apart hp hpurpose hvalue⟩
  | raised hspelled =>
    obtain ⟨⟨spelling, s⟩, hp, rfl, hpurpose⟩ := hspelled
    exact ⟨_, sortedAs_raised hp hpurpose⟩

end Effect

/-- Written options take effect one after another, and no argument is refused. -/
theorem exists_ofTexts_flatten {es : List Effect} {pieces : List (List Text)}
    (h : List.Forall₂ Effect.Written es pieces) :
    ∃ sorted, Argument.ofTexts pieces.flatten = .ok sorted ∧
      ∀ rules o refused, Options.applyAll rules o refused false sorted =
        (·, refused) <$> es.foldlM Options.apply o := by
  induction h with
  | nil => exact ⟨[], rfl, fun rules o refused => rfl⟩
  | cons hwritten hlater ih =>
    obtain ⟨first, hfirst⟩ := hwritten.exists_sortedAs
    obtain ⟨sorted, hsorted, heffects⟩ := ih
    refine ⟨first ++ sorted, ?_, ?_⟩
    · rw [List.flatten_cons, hfirst.ofTexts_append, hsorted]
      rfl
    · intro rules o refused
      rw [hfirst.applyAll_append, List.foldlM_cons]
      simp [heffects]

/-! ## What options add up to -/

/-- The values that effects give a setting, in order. -/
def valuesOf (s : Setting) (es : List Effect) : List Text :=
  es.filterMap fun
    | .set other value => if other = s then some value else none
    | .raise _ => none

namespace Options

/-- The options after effects: of each setting the last value counts, and targets are added. -/
def after (o : Options) (es : List Effect) : Options where
  source := (valuesOf .source es).getLast?.getD o.source
  targets := o.targets ++ valuesOf .target es
  output := (valuesOf .output es).getLast?.getD o.output
  anchor := (valuesOf .anchor es).getLast?.getD o.anchor
  arrayName := (valuesOf .arrayName es).getLast?.getD o.arrayName
  apiName := (valuesOf .apiName es).getLast?.getD o.apiName
  strict := o.strict || es.contains (.raise .strict)
  verbose := o.verbose || es.contains (.raise .verbose)

theorem after_append (o : Options) (first later : List Effect) :
    o.after (first ++ later) = (o.after first).after later := by
  simp [after, valuesOf, List.getLast?_append, Option.getD_or, Bool.or_assoc]

theorem apply_eq_after {e : Effect} (he : e ≠ .raise .help) (o : Options) :
    o.apply e = .ok (o.after [e]) := by
  cases e with
  | set s value => cases s <;> simp [apply, set, after, valuesOf]
  | raise f =>
    cases f with
    | help => exact absurd rfl he
    | strict => simp [apply, after, valuesOf]
    | verbose => simp [apply, after, valuesOf]

theorem foldlM_apply {es : List Effect} (hes : .raise .help ∉ es) (o : Options) :
    es.foldlM apply o = .ok (o.after es) := by
  induction es generalizing o with
  | nil => simp [after, valuesOf, pure, Except.pure]
  | cons e es ih =>
    rw [List.mem_cons, not_or] at hes
    obtain ⟨he, hes⟩ := hes
    rw [List.foldlM_cons, apply_eq_after (Ne.symm he)]
    show es.foldlM apply (o.after [e]) = _
    rw [ih hes, ← after_append, List.singleton_append]

end Options

namespace Choice

variable {c : Choice} {es : List Effect}

/-- The values that a choice gives a setting. -/
def values (c : Choice) : Setting → List Text
  | .source => c.source.toList
  | .target => c.targets
  | .output => c.output.toList
  | .anchor => c.anchor.toList
  | .arrayName => c.arrayName.toList
  | .apiName => c.apiName.toList

theorem valuesOf_effects (c : Choice) (s : Setting) : valuesOf s c.effects = c.values s := by
  cases s <;> simp [valuesOf, effects, values, List.filterMap_append, List.filterMap_map]

theorem contains_effects (c : Choice) :
    c.effects.contains (.raise .strict) = c.strict ∧
      c.effects.contains (.raise .verbose) = c.verbose := by
  constructor
  · cases hstrict : c.strict <;> simp [effects, hstrict]
  · cases hverbose : c.verbose <;> simp [effects, hverbose]

theorem help_notMem_effects (c : Choice) : .raise .help ∉ c.effects := by
  simp [effects]

/-- A setting that is chosen once at most has its value wherever the option stands. -/
theorem getLast?_valuesOf (hperm : es.Perm c.effects) {s : Setting} {value : Option Text}
    (hvalue : c.values s = value.toList) : (valuesOf s es).getLast? = value := by
  have hvalues : (valuesOf s es).Perm value.toList := by
    rw [← hvalue, ← valuesOf_effects]
    exact hperm.filterMap _
  cases value with
  | none =>
    rw [List.perm_nil.1 hvalues]
    rfl
  | some value =>
    rw [List.perm_singleton.1 hvalues]
    rfl

/-- The chosen options add up to the values of the choice in every order that keeps the targets in
sequence. -/
theorem after_eq (hperm : es.Perm c.effects) (htargets : valuesOf .target es = c.targets) :
    ({} : Options).after es = c.options := by
  obtain ⟨hstrict, hverbose⟩ := c.contains_effects
  have hsource : (valuesOf .source es).getLast? = c.source := getLast?_valuesOf hperm rfl
  have houtput : (valuesOf .output es).getLast? = c.output := getLast?_valuesOf hperm rfl
  have hanchor : (valuesOf .anchor es).getLast? = c.anchor := getLast?_valuesOf hperm rfl
  have harray : (valuesOf .arrayName es).getLast? = c.arrayName := getLast?_valuesOf hperm rfl
  have hapi : (valuesOf .apiName es).getLast? = c.apiName := getLast?_valuesOf hperm rfl
  simp only [Options.after, options, htargets, hsource, houtput, hanchor, harray, hapi,
    hperm.contains_eq, hstrict, hverbose, List.nil_append, Bool.false_or]

end Choice

/-! ## The command line -/

namespace Options

variable {c : Choice} {es : List Effect} {pieces : List (List Text)}

/-- Only one thing is wrong with a command line of chosen options: an output of several targets. -/
theorem parse_flatten (hperm : es.Perm c.effects) (htargets : valuesOf .target es = c.targets)
    (hwritten : List.Forall₂ Effect.Written es pieces) (rules : JoinRules) :
    parse pieces.flatten rules =
      if !c.options.output.isEmpty && c.targets.length > 1 then
        .error (.usage .outputOfSeveralTargets)
      else .ok c.options := by
  obtain ⟨sorted, hsorted, heffects⟩ := exists_ofTexts_flatten hwritten
  have hhelp : .raise .help ∉ es := fun hmem => c.help_notMem_effects (hperm.mem_iff.1 hmem)
  have happly : applyAll rules {} [] false sorted = .ok (c.options, []) := by
    rw [heffects, foldlM_apply hhelp, Choice.after_eq hperm htargets]
    rfl
  rw [parse, hsorted]
  simp only [Except.mapError, bind, Except.bind, happly]
  rfl

/-- Options give exactly the values that were chosen, in whatever way and order they are written, or
the command line is refused if it has an output and several targets. This is so under both versions
of the rules for joined options. -/
theorem parse_flatten_written (hperm : es.Perm c.effects)
    (htargets : valuesOf .target es = c.targets)
    (hwritten : List.Forall₂ Effect.Written es pieces) (rules : JoinRules) :
    (c.output.getD [] = [] ∨ c.targets.length ≤ 1 →
        parse pieces.flatten rules = .ok c.options ∧ c.options.config = c.config) ∧
      (c.output.getD [] ≠ [] ∧ 2 ≤ c.targets.length →
        parse pieces.flatten rules = .error (.usage .outputOfSeveralTargets) ∧
          ∀ verbose files, (Program.run pieces.flatten verbose files rules).ending = .exits 2) := by
  have hparse := parse_flatten hperm htargets hwritten rules
  constructor
  · intro hfew
    refine ⟨?_, c.config_options⟩
    rw [hparse, if_neg]
    rcases hfew with hempty | hfew
    · simp [Choice.options, hempty]
    · simp [Nat.not_lt.2 hfew]
  · rintro ⟨houtput, hmany⟩
    have hrefused : parse pieces.flatten rules = .error (.usage .outputOfSeveralTargets) := by
      rw [hparse, if_pos]
      have hmore : 1 < c.targets.length := hmany
      simp [Choice.options, houtput, hmore]
    refine ⟨hrefused, ?_⟩
    intro verbose files
    rw [Program.run, hrefused]
    rfl

/-- Two targets, which are written in different ways, and a value that begins with `-`. With an
output in their place the same targets are refused. -/
theorem parse_flatten_written_mixed :
    (∀ rules, parse ["-t", "a.ts", "--strict", "--api-name=-x", "--target=b c.ts", "-v"] rules =
        .ok { targets := ["a.ts", "b c.ts"], apiName := "-x", strict := true, verbose := true }) ∧
      ∀ rules verbose files,
        (Program.run ["-t", "a.ts", "--output=all.ts", "--target=b c.ts"] verbose files
          rules).ending = .exits 2 := by
  have hfirst : Effect.Written (.set .target "a.ts") ["-t", "a.ts"] :=
    .apart (by decide) (by decide)
  have hsecond : Effect.Written (.set .target "b c.ts") ["--target=b c.ts"] :=
    .assigned (show Purpose.Spelled (.setting .target) "--target" by decide) (by decide)
  have hapi : Effect.Written (.set .apiName "-x") ["--api-name=-x"] :=
    .assigned (show Purpose.Spelled (.setting .apiName) "--api-name" by decide) (by decide)
  have houtput : Effect.Written (.set .output "all.ts") ["--output=all.ts"] :=
    .assigned (show Purpose.Spelled (.setting .output) "--output" by decide) (by decide)
  have hstrict : Effect.Written (.raise .strict) ["--strict"] := .raised (by decide)
  have hverbose : Effect.Written (.raise .verbose) ["-v"] := .raised (by decide)
  constructor
  · intro rules
    have hperm : [.set .target "a.ts", .raise .strict, .set .apiName "-x", .set .target "b c.ts",
        .raise .verbose].Perm (Choice.effects
          { targets := ["a.ts", "b c.ts"], apiName := some "-x", strict := true,
            verbose := true }) := by
      decide
    have hwritten := List.Forall₂.cons hfirst <| .cons hstrict <| .cons hapi <|
      .cons hsecond <| .cons hverbose .nil
    exact ((parse_flatten_written hperm rfl hwritten rules).1 (.inl rfl)).1
  · intro rules
    have hperm : [.set .target "a.ts", .set .output "all.ts", .set .target "b c.ts"].Perm
        (Choice.effects { targets := ["a.ts", "b c.ts"], output := some "all.ts" }) := by
      decide
    have hwritten := List.Forall₂.cons hfirst <| .cons houtput <| .cons hsecond .nil
    exact ((parse_flatten_written hperm rfl hwritten rules).2 ⟨by decide, by decide⟩).2

end Options

end DeclSync
