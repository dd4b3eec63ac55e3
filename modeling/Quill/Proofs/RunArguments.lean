import Quill.Command
import Quill.Proofs.Decimals
import Quill.Proofs.Plan

/-!
# What `run` is asked for

The arguments of `run` come in any order: depth options, of which the last one
holds, and one path. They are read from left to right by a loop that has three
ways to leave early, and here the loop is held to a description that knows no
loop. Either every argument but one is a depth option and that one is a path,
and the program there is run and reported; or some argument offends, after
arguments of which none does, and the first such argument is named; or none
offends and the path is missing.

What links the two is the prefix that the loop has behind it. A prefix that it
has taken is understood: it holds at most one path, and the loop remembers that
path and the limit that the last option sets. Each further argument is either
understood as well or offends.
-/

namespace Quill

/-! ## Depth options -/

/-- The text writes the depth `d`: digits behind an optional plus sign, below
`2 ^ 64`. -/
def WritesDepth (value : String) (d : Nat) : Prop :=
  (∃ sign ∈ [[], ['+']], ∃ ds, value.toList = sign ++ ds ∧
    Decimal.IsNumeral ds ∧ d = Decimal.placeValue ds) ∧ d < 2 ^ 64

/-- The argument is a depth option, and it sets the limit `d`. -/
def SetsLimit (arg : String) (d : Nat) : Prop :=
  ∃ value, arg = "--max-depth=" ++ value ∧ WritesDepth value d

theorem Decimal.digits?_eq_some_placeValue_iff {cs : List Char} {n : Nat} :
    digits? cs = some n ↔ IsNumeral cs ∧ n = placeValue cs := by
  have hvalue := ofDigitChars_eq_placeValue cs 0
  rw [Nat.zero_mul, Nat.zero_add] at hvalue
  rw [digits?, IsNumeral, ← List.all_eq_true, ← hvalue]
  split
  · next h =>
      exact ⟨fun hn => ⟨h, (Option.some.inj hn).symm⟩,
        fun hn => congrArg some hn.2.symm⟩
  · next h =>
      refine ⟨fun hn => ?_, fun hn => absurd hn.1 h⟩
      cases hn

theorem Decimal.natural?_eq_some_iff {s : String} {n : Nat} :
    natural? s = some n ↔ ∃ sign ∈ [[], ['+']], ∃ ds, s.toList = sign ++ ds ∧
      IsNumeral ds ∧ n = placeValue ds := by
  unfold natural?
  constructor
  · intro h
    split at h
    · next cs hs =>
        exact ⟨['+'], by decide, cs, hs, digits?_eq_some_placeValue_iff.1 h⟩
    · exact ⟨[], by decide, s.toList, rfl, digits?_eq_some_placeValue_iff.1 h⟩
  · rintro ⟨sign, hsign, ds, hs, hds⟩
    simp only [List.mem_cons, List.not_mem_nil, or_false] at hsign
    rcases hsign with rfl | rfl
    · split
      · next cs hplus =>
          -- a sign is no digit
          rw [hs, List.nil_append] at hplus
          exact absurd (hds.1.2 '+' (by rw [hplus]; exact List.mem_cons_self))
            (by decide)
      · rw [hs]
        exact digits?_eq_some_placeValue_iff.2 hds
    · simp only [hs, List.singleton_append]
      exact digits?_eq_some_placeValue_iff.2 hds

theorem depth?_eq_some_iff {value : String} {d : Nat} :
    depth? value = some d ↔ WritesDepth value d := by
  rw [depth?, Option.filter_eq_some_iff, Decimal.natural?_eq_some_iff,
    decide_eq_true_iff]
  rfl

theorem depthOption?_eq_some_iff {arg value : String} :
    depthOption? arg = some value ↔ arg = "--max-depth=" ++ value := by
  unfold depthOption?
  constructor
  · intro h
    dsimp only at h
    split at h
    · next hoption =>
        obtain ⟨rest, hrest⟩ := List.isPrefixOf_iff_prefix.1 hoption
        rw [← hrest, List.drop_left] at h
        rw [← Option.some.inj h, ← String.toList_inj, String.toList_append,
          ← hrest]
        exact congrArg _ String.toList_ofList.symm
    · cases h
  · rintro rfl
    rw [String.toList_append]
    dsimp only
    rw [if_pos (List.isPrefixOf_iff_prefix.2 (List.prefix_append _ _)),
      List.drop_left, String.ofList_toList]

theorem isOption_depthOption (value : String) :
    isOption ("--max-depth=" ++ value) = true := by
  simp [isOption]

theorem depthOption?_eq_none_of_path {arg : String} (h : isOption arg = false) :
    depthOption? arg = none := by
  cases hvalue : depthOption? arg with
  | none => rfl
  | some value =>
      rw [depthOption?_eq_some_iff.1 hvalue, isOption_depthOption] at h
      cases h

theorem SetsLimit.isOption {arg : String} {d : Nat} (h : SetsLimit arg d) :
    isOption arg = true := by
  obtain ⟨value, rfl, -⟩ := h
  exact isOption_depthOption value

/-! ## What the arguments say -/

/-- The arguments are depth options, and the limit is what the last of them
sets: none if there are none. -/
inductive SetLimits : List String → Option Nat → Prop
  | nil : SetLimits [] none
  | snoc {args : List String} {limit : Option Nat} {arg : String} {d : Nat} :
      SetLimits args limit → SetsLimit arg d →
        SetLimits (args ++ [arg]) (some d)

/-- Every argument is a depth option except one, the path. -/
def AsksFor (args : List String) (path : String) (limit : Option Nat) : Prop :=
  ∃ before after, args = before ++ path :: after ∧ isOption path = false ∧
    SetLimits (before ++ after) limit

/-- The argument cannot stand behind the arguments `before`, and why. -/
inductive Offends (before : List String) : String → String → Prop
  | badDepth {value : String} (h : ∀ d, ¬ WritesDepth value d) :
      Offends before ("--max-depth=" ++ value)
        ("error: invalid --max-depth value '" ++ value ++ "'\n")
  | unknownOption {arg : String} (hoption : isOption arg = true)
      (h : ∀ value, arg ≠ "--max-depth=" ++ value) :
      Offends before arg ("error: unknown option '" ++ arg ++ "'\n")
  | secondPath {arg path : String} (harg : isOption arg = false)
      (hmem : path ∈ before) (hpath : isOption path = false) :
      Offends before arg ("error: unexpected argument '" ++ arg ++
        "'\nUsage: quill run <file> [--max-depth=N]\n")

/-- No argument offends. -/
def Clean (args : List String) : Prop :=
  ∀ before arg after complaint, args = before ++ arg :: after →
    ¬ Offends before arg complaint

theorem clean_nil : Clean [] := by
  intro before arg after complaint heq
  exact absurd heq.symm
    (List.append_ne_nil_of_right_ne_nil _ (List.cons_ne_nil _ _))

theorem Clean.snoc {args : List String} {arg : String} (h : Clean args)
    (harg : ∀ complaint, ¬ Offends args arg complaint) :
    Clean (args ++ [arg]) := by
  intro before b after complaint heq
  rcases List.eq_nil_or_concat after with rfl | ⟨after, c, rfl⟩
  · obtain ⟨rfl, hb⟩ := List.append_inj' heq rfl
    rw [← List.singleton_inj.1 hb]
    exact harg complaint
  · rw [List.concat_eq_append, ← List.cons_append, ← List.append_assoc] at heq
    obtain ⟨rfl, -⟩ := List.append_inj' heq rfl
    exact h before b after complaint rfl

/-- What is wrong with the arguments: the first of them that offends, or that
there is no path. -/
inductive Complains (args : List String) : String → Prop
  | offence {before after : List String} {arg complaint : String}
      (hargs : args = before ++ arg :: after) (hclean : Clean before)
      (hoffends : Offends before arg complaint) : Complains args complaint
  | missingPath (hclean : Clean args)
      (hpath : ∀ arg ∈ args, isOption arg = true) :
      Complains args
        "error: missing file path\nUsage: quill run <file> [--max-depth=N]\n"

/-! ## Arguments that are understood -/

/-- The arguments may stand at the front, with the path and the limit among
them. -/
inductive Understood : List String → Option String → Option Nat → Prop
  | nil : Understood [] none none
  | option {args : List String} {path : Option String} {limit : Option Nat}
      {arg : String} {d : Nat} : Understood args path limit → SetsLimit arg d →
      Understood (args ++ [arg]) path (some d)
  | path {args : List String} {limit : Option Nat} {arg : String} :
      Understood args none limit → isOption arg = false →
      Understood (args ++ [arg]) (some arg) limit

namespace Understood

variable {args : List String} {path : Option String} {limit : Option Nat}

theorem isOption_of_none (h : Understood args none limit) :
    ∀ arg ∈ args, isOption arg = true := by
  generalize hpath : (none : Option String) = path at h
  induction h with
  | nil => exact fun arg harg => absurd harg List.not_mem_nil
  | option _ hd ih =>
      intro arg harg
      rcases List.mem_append.1 harg with harg | harg
      · exact ih hpath arg harg
      · rw [List.mem_singleton.1 harg]
        exact hd.isOption
  | path => cases hpath

theorem exists_path (h : Understood args path limit) {p : String}
    (hpath : path = some p) : p ∈ args ∧ isOption p = false := by
  induction h with
  | nil => cases hpath
  | option _ _ ih => exact ⟨List.mem_append_left _ (ih hpath).1, (ih hpath).2⟩
  | path _ harg =>
      cases hpath
      exact ⟨List.mem_append_right _ List.mem_cons_self, harg⟩

theorem clean (h : Understood args path limit) : Clean args := by
  induction h with
  | nil => exact clean_nil
  | option hargs hd ih =>
      refine ih.snoc fun complaint hoffends => ?_
      have hoption := hd.isOption
      obtain ⟨value, harg, hvalue⟩ := hd
      cases hoffends with
      | badDepth hnot =>
          exact hnot _ ((String.append_right_inj _).1 harg ▸ hvalue)
      | unknownOption _ hne => exact hne value harg
      | secondPath hnot _ _ =>
          rw [hoption] at hnot
          cases hnot
  | path hargs harg ih =>
      refine ih.snoc fun complaint hoffends => ?_
      cases hoffends with
      | badDepth =>
          rw [isOption_depthOption] at harg
          cases harg
      | unknownOption hoption _ =>
          rw [hoption] at harg
          cases harg
      | secondPath _ hmem hpath =>
          rw [hargs.isOption_of_none _ hmem] at hpath
          cases hpath

/-- Before there is a path, all are depth options. -/
theorem none_iff : Understood args none limit ↔ SetLimits args limit := by
  constructor
  · intro h
    generalize hpath : (none : Option String) = path at h
    induction h with
    | nil => exact .nil
    | option _ hd ih => exact .snoc (ih hpath) hd
    | path => cases hpath
  · intro h
    induction h with
    | nil => exact .nil
    | snoc _ hd ih => exact .option ih hd

theorem some_iff {p : String} :
    Understood args (some p) limit ↔ AsksFor args p limit := by
  constructor
  · intro h
    generalize hpath : some p = path at h
    induction h with
    | nil => cases hpath
    | option _ hd ih =>
        obtain ⟨before, after, rfl, hp, hlimits⟩ := ih hpath
        refine ⟨before, after ++ [_],
          by rw [List.append_assoc, List.cons_append], hp, ?_⟩
        rw [← List.append_assoc]
        exact hlimits.snoc hd
    | path hargs harg =>
        cases hpath
        refine ⟨_, [], rfl, harg, ?_⟩
        rw [List.append_nil]
        exact none_iff.1 hargs
  · rintro ⟨before, after, rfl, hp, hlimits⟩
    generalize hoptions : before ++ after = options at hlimits
    induction hlimits generalizing before after with
    | nil =>
        obtain ⟨rfl, rfl⟩ := List.append_eq_nil_iff.1 hoptions
        exact .path .nil hp
    | snoc hlimits hd ih =>
        -- the last option stands behind the path or in front of it
        rcases List.eq_nil_or_concat after with rfl | ⟨after, c, rfl⟩
        · rw [List.append_nil] at hoptions
          exact .path (none_iff.2 (hoptions ▸ hlimits.snoc hd)) hp
        · rw [List.concat_eq_append, ← List.append_assoc] at hoptions
          obtain ⟨hfront, hlast⟩ := List.append_inj' hoptions rfl
          rw [List.concat_eq_append, ← List.cons_append, ← List.append_assoc,
            List.singleton_inj.1 hlast]
          exact .option (ih before after hfront) hd

/-- The loop forgets an understood prefix but for its path and its limit. -/
theorem runArgs_append (h : Understood args path limit) (rest : List String) :
    runArgs none none (args ++ rest) = runArgs path limit rest := by
  induction h generalizing rest with
  | nil => rfl
  | option _ hd ih =>
      obtain ⟨value, rfl, hvalue⟩ := hd
      rw [List.append_assoc, ih, List.singleton_append]
      simp only [runArgs, depthOption?_eq_some_iff.2 rfl,
        depth?_eq_some_iff.2 hvalue]
  | path _ harg ih =>
      rw [List.append_assoc, ih, List.singleton_append]
      simp only [runArgs, depthOption?_eq_none_of_path harg, harg,
        Bool.false_eq_true, if_false]

end Understood

/-! ## The loop -/

/-- What the loop answers to the arguments: they ask for a run, or it
complains. -/
def Obeys (args : List String) : Except UsageError Invocation → Prop
  | .ok invocation =>
    ∃ path limit, invocation = .run path limit ∧ AsksFor args path limit
  | .error e =>
    ∃ complaint, e.report = ⟨1, "", complaint⟩ ∧ Complains args complaint

theorem Understood.obeys {args : List String} {path : Option String}
    {limit : Option Nat} (h : Understood args path limit) (rest : List String) :
    Obeys (args ++ rest) (runArgs path limit rest) := by
  induction rest generalizing args path limit with
  | nil =>
      rw [List.append_nil]
      cases path with
      | some p => exact ⟨p, limit, rfl, some_iff.1 h⟩
      | none => exact ⟨_, rfl, .missingPath h.clean h.isOption_of_none⟩
  | cons arg rest ih =>
      have hgo : ∀ {path limit}, Understood (args ++ [arg]) path limit →
          Obeys (args ++ arg :: rest) (runArgs path limit rest) := by
        intro path limit hnext
        rw [List.append_cons]
        exact ih hnext
      have hrefuse : ∀ {e : UsageError} {complaint : String},
          e.report = ⟨1, "", complaint⟩ → Offends args arg complaint →
          Obeys (args ++ arg :: rest) (.error e) := by
        intro e complaint he hoffends
        exact ⟨complaint, he, .offence rfl h.clean hoffends⟩
      simp only [runArgs]
      split
      · next value hvalue =>
          obtain rfl := depthOption?_eq_some_iff.1 hvalue
          split
          · next d hd =>
              exact hgo (.option h ⟨value, rfl, depth?_eq_some_iff.1 hd⟩)
          · next hd =>
              refine hrefuse rfl (.badDepth fun d hwrites => ?_)
              rw [depth?_eq_some_iff.2 hwrites] at hd
              cases hd
      · next hvalue =>
          have hne : ∀ value, arg ≠ "--max-depth=" ++ value := by
            intro value harg
            rw [depthOption?_eq_some_iff.2 harg] at hvalue
            cases hvalue
          split
          · next hoption => exact hrefuse rfl (.unknownOption hoption hne)
          · next hoption =>
              have hfalse : isOption arg = false := Bool.eq_false_iff.2 hoption
              split
              · exact hgo (.path h hfalse)
              · obtain ⟨hmem, hpath⟩ := h.exists_path rfl
                exact hrefuse rfl (.secondPath hfalse hmem hpath)

theorem ofArgs_run_of_asksFor {args : List String} {path : String}
    {limit : Option Nat} (h : AsksFor args path limit) :
    Invocation.ofArgs ("run" :: args) = .ok (.run path limit) := by
  have hargs := (Understood.some_iff.2 h).runArgs_append []
  rw [List.append_nil] at hargs
  exact hargs

/-! ## The command line -/

/-- What running a source text under a limit on calls leaves, with `n` as the
budget: the program is the one that the text spells, it runs on a fresh
machine, and what it has printed by its end or first error is all that stands
on the output. -/
inductive Reports (limit : Option Nat) (n : Nat) (source : String) :
    Option Report → Prop
  | refused {e : SyntaxError} (hsource : Program.ofSource source = .error e) :
      Reports limit n source (some ⟨1, "", (Diagnostic.parsing e).text ++ "\n"⟩)
  | spent {p : Program} (hsource : Program.ofSource source = .ok p)
      (hrun : runProgram limit n p .fresh = .spent) :
      Reports limit n source none
  | success {p : Program} {m : Machine}
      (hsource : Program.ofSource source = .ok p)
      (hrun : runProgram limit n p .fresh = .ended (.ok ()) m) :
      Reports limit n source (some ⟨0, m.output, ""⟩)
  | failure {p : Program} {e : RuntimeError} {m : Machine}
      (hsource : Program.ofSource source = .ok p)
      (hrun : runProgram limit n p .fresh = .ended (.error e) m) :
      Reports limit n source
        (some ⟨1, m.output, (Diagnostic.running e).text ++ "\n"⟩)

namespace Reports

variable {limit : Option Nat} {n k : Nat} {source : String}
  {o o' : Option Report}

theorem of_runReport (limit : Option Nat) (n : Nat) (source : String) :
    Reports limit n source (runReport limit n source) := by
  unfold runReport runSource
  cases hsource : Program.ofSource source with
  | error e => exact .refused hsource
  | ok p =>
      dsimp only
      cases hrun : runProgram limit n p .fresh with
      | spent => exact .spent hsource hrun
      | ended r m =>
          cases r with
          | ok u => exact .success hsource hrun
          | error e => exact .failure hsource hrun

theorem eq_runReport (h : Reports limit n source o) :
    o = runReport limit n source := by
  unfold runReport runSource
  cases h with
  | refused hsource =>
      rw [hsource]
      rfl
  | spent hsource hrun | success hsource hrun | failure hsource hrun =>
      rw [hsource]
      dsimp only
      rw [hrun]
      rfl

/-- A source text has one report under one budget. -/
theorem unique (h : Reports limit n source o)
    (h' : Reports limit n source o') : o = o' :=
  h.eq_runReport.trans h'.eq_runReport.symm

/-- A larger budget changes nothing about a report that there is. -/
theorem mono {report : Report} (h : Reports limit n source (some report))
    (hnk : n ≤ k) : Reports limit k source (some report) := by
  cases h with
  | refused hsource => exact .refused hsource
  | success hsource hrun => exact .success hsource (runProgram_mono hnk hrun)
  | failure hsource hrun => exact .failure hsource (runProgram_mono hnk hrun)

end Reports

theorem neededPath?_of_run {args : List String} {path : String}
    {limit : Option Nat} (h : Invocation.ofArgs args = .ok (.run path limit)) :
    neededPath? args = some path := by
  simp only [neededPath?, h, Invocation.path?]

theorem reports_of_run {args : List String} {path : String}
    {limit : Option Nat} (h : Invocation.ofArgs args = .ok (.run path limit))
    {read : String → Except ReadFailure String} {source : String}
    (hread : read path = .ok source) (n : Nat) :
    Reports limit n source (commandLine n read args) := by
  have hline : commandLine n read args = runReport limit n source := by
    simp only [commandLine, h, hread]
  rw [hline]
  exact .of_runReport limit n source

/-- The first arguments that are commands, but for those that are written like
options. -/
def commandWords : List String :=
  ["run", "lex", "parse", "help", "version"]

/-- A path alone asks for what it asks for behind `run`. -/
theorem ofArgs_path {path : String} (hpath : isOption path = false)
    (hword : path ∉ commandWords) :
    Invocation.ofArgs [path] = .ok (.run path none) := by
  unfold Invocation.ofArgs
  dsimp only
  split
  case h_10 => simp only [hpath, Bool.false_eq_true, if_false]
  -- the others are commands: some are written like options, some are listed
  case h_5 | h_6 | h_8 | h_9 => exact absurd hpath (by decide)
  all_goals exact absurd (by decide) hword

/-- `run` reads its arguments as they are meant, whatever they are.

If all of them but a path are depth options, the file at the path is what is
read. The program in it runs with the limit of the last option, and what it
prints, how it ends and its error are what is reported; the budget decides
only whether there is a report yet.

If not, no file is read, nothing is run, and the error output names the first
argument that offends, or says that the path is missing.

A path alone does what it does behind `run`. -/
theorem run_arguments_obeyed (args : List String) (path : String) :
    (∀ limit, AsksFor args path limit →
      neededPath? ("run" :: args) = some path ∧
      ∀ read source, read path = .ok source →
        (∀ n, Reports limit n source (commandLine n read ("run" :: args))) ∧
        ∀ n k report, n ≤ k →
          commandLine n read ("run" :: args) = some report →
          commandLine k read ("run" :: args) = some report) ∧
    ((∀ p limit, ¬ AsksFor args p limit) →
      neededPath? ("run" :: args) = none ∧
      ∃ complaint, Complains args complaint ∧
        ∀ n read, commandLine n read ("run" :: args) =
          some ⟨1, "", complaint⟩) ∧
    (isOption path = false → path ∉ commandWords →
      neededPath? [path] = neededPath? ["run", path] ∧
      ∀ n read, commandLine n read [path] =
        commandLine n read ["run", path]) := by
  refine ⟨fun limit hasks => ?_, fun hnot => ?_, fun hpath hword => ?_⟩
  · have hargs := ofArgs_run_of_asksFor hasks
    refine ⟨neededPath?_of_run hargs, fun read source hread => ?_⟩
    have hreports := reports_of_run hargs hread
    refine ⟨hreports, fun n k report hnk hline => ?_⟩
    have hn := hreports n
    rw [hline] at hn
    exact (hreports k).unique (hn.mono hnk)
  · have hobeys : Obeys args (Invocation.ofArgs ("run" :: args)) :=
      Understood.nil.obeys args
    cases hargs : Invocation.ofArgs ("run" :: args) with
    | ok invocation =>
        rw [hargs] at hobeys
        obtain ⟨p, limit, -, hasks⟩ := hobeys
        exact absurd hasks (hnot p limit)
    | error e =>
        rw [hargs] at hobeys
        obtain ⟨complaint, hreport, hcomplains⟩ := hobeys
        refine ⟨by simp only [neededPath?, hargs], complaint, hcomplains,
          fun n read => ?_⟩
        simp only [commandLine, hargs, hreport]
  · have halone := ofArgs_path hpath hword
    have hrun : Invocation.ofArgs ["run", path] = .ok (.run path none) :=
      ofArgs_run_of_asksFor ⟨[], [], rfl, hpath, .nil⟩
    refine ⟨?_, fun n read => ?_⟩
    · rw [neededPath?_of_run halone, neededPath?_of_run hrun]
    · simp only [commandLine, halone, hrun]

/-- Options on both sides of the path, of which the last one holds: a function
that calls itself prints twice under the limit two, and the third call fails.
Then an unknown option in front of a second path, and a path alone. -/
theorem run_arguments_obeyed_mixed :
    (∃ source, source =
        "fun f() \x7b\nprint(\"in\")\nf()\n\x7d\nprint(\"out\")\nf()" ∧
      ∀ n, 20 ≤ n → commandLine n (fun _ => .ok source)
          ["run", "--max-depth=9", "a.ql", "--max-depth=+002"] =
        some ⟨1, "out\nin\nin\n",
          "RUNTIME ERROR: MAXIMUM CALL DEPTH EXCEEDED 'f' AT LINE 3\n"⟩) ∧
    (∀ n read, commandLine n read ["run", "a.ql", "-x", "b.ql"] =
      some ⟨1, "", "error: unknown option '-x'\n"⟩) ∧
    (∀ n read, commandLine n read ["a.ql"] =
      commandLine n read ["run", "a.ql"]) := by
  have hasks : AsksFor ["--max-depth=9", "a.ql", "--max-depth=+002"] "a.ql"
      (some 2) := by
    have hnine : WritesDepth "9" 9 := depth?_eq_some_iff.1 (by decide)
    have htwo : WritesDepth "+002" 2 := depth?_eq_some_iff.1 (by decide)
    exact ⟨["--max-depth=9"], ["--max-depth=+002"], rfl, by decide,
      .snoc (.snoc .nil ⟨"9", by decide, hnine⟩) ⟨"+002", by decide, htwo⟩⟩
  have hnot : ∀ p limit, ¬ AsksFor ["a.ql", "-x", "b.ql"] p limit := by
    intro p limit hasks
    have hargs := ofArgs_run_of_asksFor hasks
    rw [show Invocation.ofArgs ["run", "a.ql", "-x", "b.ql"] =
      .error (.unknownRunOption "-x") by decide] at hargs
    cases hargs
  refine ⟨⟨_, rfl, fun n hn => ?_⟩, fun n read => ?_, ?_⟩
  · have hscan : (scan
        "fun f() \x7b\nprint(\"in\")\nf()\n\x7d\nprint(\"out\")\nf()").toOption
        = some [⟨.keyword .fun, "fun", 1⟩, ⟨.name, "f", 1⟩,
          ⟨.symbol .lparen, "(", 1⟩, ⟨.symbol .rparen, ")", 1⟩,
          ⟨.symbol .lbrace, "\x7b", 1⟩, ⟨.newline, "\n", 1⟩,
          ⟨.name, "print", 2⟩, ⟨.symbol .lparen, "(", 2⟩, ⟨.string, "in", 2⟩,
          ⟨.symbol .rparen, ")", 2⟩, ⟨.newline, "\n", 2⟩, ⟨.name, "f", 3⟩,
          ⟨.symbol .lparen, "(", 3⟩, ⟨.symbol .rparen, ")", 3⟩,
          ⟨.newline, "\n", 3⟩, ⟨.symbol .rbrace, "\x7d", 4⟩,
          ⟨.newline, "\n", 4⟩, ⟨.name, "print", 5⟩, ⟨.symbol .lparen, "(", 5⟩,
          ⟨.string, "out", 5⟩, ⟨.symbol .rparen, ")", 5⟩, ⟨.newline, "\n", 5⟩,
          ⟨.name, "f", 6⟩, ⟨.symbol .lparen, "(", 6⟩,
          ⟨.symbol .rparen, ")", 6⟩] := by
      decide +kernel
    have hsource := Program.ofSource_of_scan hscan
    obtain ⟨-, hobeyed⟩ := (run_arguments_obeyed _ "a.ql").1 (some 2) hasks
    obtain ⟨hreports, -⟩ := hobeyed (fun _ => .ok _) _ rfl
    obtain ⟨m, hrun, houtput⟩ : ∃ m,
        runProgram (some 2) 20
          [.function ⟨"f", 1⟩ [] [.call ⟨"print", 2⟩ [.literal ⟨.str, "in", 2⟩],
            .call ⟨"f", 3⟩ []],
            .call ⟨"print", 5⟩ [.literal ⟨.str, "out", 5⟩],
            .call ⟨"f", 6⟩ []] .fresh =
          .ended (.error ⟨.recursionLimit, 3, some "f"⟩) m ∧
        m.output = "out\nin\nin\n" :=
      ⟨_, rfl, by decide⟩
    have hend := (hreports n).unique
      (.failure hsource (runProgram_mono hn hrun))
    rw [hend, houtput]
    rfl
  · obtain ⟨-, complaint, -, hreport⟩ :=
      (run_arguments_obeyed ["a.ql", "-x", "b.ql"] "").2.1 hnot
    rw [hreport n read, ← hreport 0 fun _ => .ok ""]
    rfl
  · exact ((run_arguments_obeyed [] "a.ql").2.2 (by decide) (by decide)).2

end Quill
