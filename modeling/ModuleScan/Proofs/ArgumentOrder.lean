/-
  ModuleScan/Proofs/ArgumentOrder.lean
  ====================================
  **What the arguments ask for.**

  The arguments are read one after the other, and what has been read of them are options.
  What they ask for can be said without that order (`Command.Asked`): the first argument
  that settles the matter decides alone, and if there is none, a flag is set wherever it
  stands, and the paths are the arguments that are no options.  So flags may be moved and
  repeated (`ofArguments_asked`).
-/
import ModuleScan.CommandLine.Arguments

namespace ModuleScan

/-! ### How arguments are written -/

namespace Flag

def spellings : Flag → List String
  | json => ["--json"]
  | stdin => ["--stdin"]
  | noWarnings => ["--no-warnings"]
  | unique => ["--unique"]
  | noParallel => ["--no-parallel"]
  | noIgnore => ["--no-ignore"]
  | verbose => ["--verbose", "-v"]

def all : List Flag := [json, stdin, noWarnings, unique, noParallel, noIgnore, verbose]

/-- One of the spellings of the flag is among the arguments. -/
def Given (f : Flag) (arguments : List String) : Prop := ∃ s ∈ arguments, s ∈ f.spellings

end Flag

def flagSpellings : List String := Flag.all.flatMap Flag.spellings

def helpSpellings : List String := ["--help", "-h"]

def versionSpellings : List String := ["--version", "-V"]

/-- An argument is written as an option, known or not. -/
def isOption (s : String) : Bool := s.toList.head? == some '-'

/-- What an argument settles, whatever the other arguments are. -/
inductive Settles : String → Except UsageError Command → Prop
  | help {s : String} : s ∈ helpSpellings → Settles s (.ok .help)
  | version {s : String} : s ∈ versionSpellings → Settles s (.ok .version)
  | unknown {s : String} : isOption s = true → s ∉ flagSpellings → s ∉ helpSpellings →
      s ∉ versionSpellings → Settles s (.error (.unknownOption s))

/-- No argument settles the matter. -/
def Undecided (arguments : List String) : Prop := ∀ s ∈ arguments, ∀ result, ¬ Settles s result

def givenPaths (arguments : List String) : List Path :=
  (arguments.filter fun s => !isOption s).map Path.mk

/-- The arguments that are no flags. -/
def otherArguments (arguments : List String) : List String :=
  arguments.filter fun s => s ∉ flagSpellings

/-- Whether a flag is set among the options. -/
def Options.isSet (o : Options) : Flag → Bool
  | .json => o.json
  | .stdin => o.stdin
  | .noWarnings => o.noWarnings
  | .unique => o.unique
  | .noParallel => !o.parallel
  | .noIgnore => o.noIgnore
  | .verbose => o.verbose

namespace Command

/-- What flags and paths ask for, wherever they stand.  Standard input goes with no path,
    and without it the working directory is scanned if no path is given. -/
inductive Configured (arguments : List String) : Except UsageError Command → Prop
  | pathsWithStdin : Flag.stdin.Given arguments → givenPaths arguments ≠ [] →
      Configured arguments (.error .pathsWithStdin)
  | stdin {o : Options} : Flag.stdin.Given arguments → givenPaths arguments = [] →
      (∀ f, o.isSet f = true ↔ f.Given arguments) → o.paths = [] →
      Configured arguments (.ok (.scan o))
  | paths {o : Options} : ¬ Flag.stdin.Given arguments →
      (∀ f, o.isSet f = true ↔ f.Given arguments) →
      o.paths = (if givenPaths arguments = [] then [⟨"."⟩] else givenPaths arguments) →
      Configured arguments (.ok (.scan o))

/-- What the arguments ask for: what the first of them that settles the matter does, and
    if there is none, what flags and paths ask for. -/
inductive Asked (arguments : List String) : Except UsageError Command → Prop
  | settled {before after : List String} {s : String} {result : Except UsageError Command} :
      arguments = before ++ s :: after → Undecided before → Settles s result →
      Asked arguments result
  | undecided {result : Except UsageError Command} : Undecided arguments →
      Configured arguments result → Asked arguments result

end Command

/-! ### One argument -/

theorem mem_flagSpellings {s : String} : s ∈ flagSpellings ↔ ∃ f : Flag, s ∈ f.spellings := by
  rw [flagSpellings, List.mem_flatMap]
  constructor
  · rintro ⟨f, -, hf⟩
    exact ⟨f, hf⟩
  · rintro ⟨f, hf⟩
    exact ⟨f, by cases f <;> decide, hf⟩

theorem isOption_of_mem_flagSpellings {s : String} (h : s ∈ flagSpellings) :
    isOption s = true := by
  revert s
  decide

theorem not_settles_of_mem_flagSpellings {s : String} {result : Except UsageError Command}
    (h : s ∈ flagSpellings) : ¬ Settles s result := by
  intro hsettles
  cases hsettles with
  | help hhelp =>
    have hall : ∀ t ∈ helpSpellings, t ∉ flagSpellings := by decide
    exact hall s hhelp h
  | version hversion =>
    have hall : ∀ t ∈ versionSpellings, t ∉ flagSpellings := by decide
    exact hall s hversion h
  | unknown _ hflag => exact hflag h

namespace Argument

theorem ofString_of_mem_spellings {s : String} {f : Flag} (h : s ∈ f.spellings) :
    ofString s = .flag f := by
  revert s
  cases f <;> decide

theorem ofString_of_not_mem {s : String}
    (h : s ∉ flagSpellings ++ helpSpellings ++ versionSpellings) :
    ofString s = if isOption s then .unknown s else .path s := by
  unfold ofString
  split
  case h_13 => rfl
  all_goals exact absurd (by decide) h

/-- An argument that settles nothing is a flag or a path. -/
theorem ofString_of_not_settles {s : String} (h : ∀ result, ¬ Settles s result) :
    (∃ f, s ∈ f.spellings ∧ ofString s = .flag f) ∨ isOption s = false ∧ ofString s = .path s := by
  by_cases hflag : s ∈ flagSpellings
  · obtain ⟨f, hf⟩ := mem_flagSpellings.mp hflag
    exact Or.inl ⟨f, hf, ofString_of_mem_spellings hf⟩
  have hhelp : s ∉ helpSpellings := fun hmem => h _ (.help hmem)
  have hversion : s ∉ versionSpellings := fun hmem => h _ (.version hmem)
  have hoption : isOption s = false := by
    rw [← Bool.not_eq_true]
    intro hoption
    exact h _ (.unknown hoption hflag hhelp hversion)
  refine Or.inr ⟨hoption, ?_⟩
  rw [ofString_of_not_mem, hoption, if_neg Bool.false_ne_true]
  simp [hflag, hhelp, hversion]

end Argument

/-- Reading ends with an argument that settles the matter. -/
theorem Settles.read_eq {s : String} {result : Except UsageError Command} (h : Settles s result)
    (o : Options) (rest : List String) : Command.read o (s :: rest) = result := by
  rw [Command.read]
  cases h with
  | help hhelp =>
    have hall : ∀ t ∈ helpSpellings, Argument.ofString t = .help := by decide
    rw [hall s hhelp]
  | version hversion =>
    have hall : ∀ t ∈ versionSpellings, Argument.ofString t = .version := by decide
    rw [hall s hversion]
  | unknown hoption hflag hhelp hversion =>
    have hunknown : Argument.ofString s = .unknown s := by
      rw [Argument.ofString_of_not_mem, hoption, if_pos rfl]
      simp [hflag, hhelp, hversion]
    rw [hunknown]

theorem Settles.unique {s : String} {result result' : Except UsageError Command}
    (h : Settles s result) (h' : Settles s result') : result = result' :=
  (h.read_eq .initial []).symm.trans (h'.read_eq .initial [])

/-! ### What has been read -/

theorem undecided_append {l l' : List String} :
    Undecided (l ++ l') ↔ Undecided l ∧ Undecided l' :=
  List.forall_mem_append

theorem undecided_singleton {s : String} : Undecided [s] ↔ ∀ result, ¬ Settles s result :=
  List.forall_mem_singleton

theorem givenPaths_append (l l' : List String) :
    givenPaths (l ++ l') = givenPaths l ++ givenPaths l' := by
  rw [givenPaths, List.filter_append, List.map_append]
  rfl

theorem Flag.given_concat {f : Flag} {l : List String} {s : String} :
    f.Given (l ++ [s]) ↔ f.Given l ∨ s ∈ f.spellings := by
  simp [Given, or_and_right, exists_or]

namespace Options

theorem isSet_set (o : Options) (f g : Flag) : (o.set f).isSet g = (o.isSet g || f == g) := by
  cases f <;> cases g <;> simp [set, isSet]

theorem paths_set (o : Options) (f : Flag) : (o.set f).paths = o.paths := by
  cases f <;> rfl

theorem isSet_addPath (o : Options) (text : String) (f : Flag) :
    (o.addPath text).isSet f = o.isSet f := by
  cases f <;> rfl

/-- Options are the flags that are set, and paths. -/
theorem eq_of_isSet {o o' : Options} (hset : ∀ f, o.isSet f = o'.isSet f)
    (hpaths : o.paths = o'.paths) : o = o' := by
  rcases o with ⟨paths, json, stdin, noWarnings, unique, parallel, noIgnore, verbose⟩
  rcases o' with ⟨paths', json', stdin', noWarnings', unique', parallel', noIgnore', verbose'⟩
  obtain rfl : paths = paths' := hpaths
  obtain rfl : json = json' := hset .json
  obtain rfl : stdin = stdin' := hset .stdin
  obtain rfl : noWarnings = noWarnings' := hset .noWarnings
  obtain rfl : unique = unique' := hset .unique
  obtain rfl : parallel = parallel' := Bool.not_inj (hset .noParallel)
  obtain rfl : noIgnore = noIgnore' := hset .noIgnore
  obtain rfl : verbose = verbose' := hset .verbose
  rfl

/-- The options are those of the arguments, none of which settles the matter. -/
structure HoldsOf (o : Options) (arguments : List String) : Prop where
  undecided : Undecided arguments
  isSet (f : Flag) : o.isSet f = true ↔ f.Given arguments
  paths : o.paths = givenPaths arguments

theorem holdsOf_initial : HoldsOf .initial [] where
  undecided := List.forall_mem_nil _
  isSet f := by cases f <;> simp [Options.isSet, initial, Flag.Given]
  paths := rfl

variable {o : Options} {before : List String} {s : String}

theorem HoldsOf.flag (h : o.HoldsOf before) {f : Flag} (hs : s ∈ f.spellings) :
    (o.set f).HoldsOf (before ++ [s]) where
  undecided := by
    rw [undecided_append, undecided_singleton]
    refine ⟨h.undecided, ?_⟩
    intro result
    exact not_settles_of_mem_flagSpellings (mem_flagSpellings.mpr ⟨f, hs⟩)
  isSet g := by
    have hsame : s ∈ g.spellings ↔ f = g := by
      constructor
      · intro hg
        have hread := Argument.ofString_of_mem_spellings hg
        rw [Argument.ofString_of_mem_spellings hs] at hread
        exact Argument.flag.inj hread
      · rintro rfl
        exact hs
    rw [isSet_set, Bool.or_eq_true, h.isSet, Flag.given_concat, hsame, beq_iff_eq]
  paths := by
    have hoption := isOption_of_mem_flagSpellings (mem_flagSpellings.mpr ⟨f, hs⟩)
    rw [paths_set, h.paths, givenPaths_append]
    simp [givenPaths, hoption]

theorem HoldsOf.path (h : o.HoldsOf before) (hs : isOption s = false)
    (hsettles : ∀ result, ¬ Settles s result) : (o.addPath s).HoldsOf (before ++ [s]) where
  undecided := undecided_append.mpr ⟨h.undecided, undecided_singleton.mpr hsettles⟩
  isSet f := by
    have hnot : s ∉ f.spellings := by
      intro hmem
      rw [isOption_of_mem_flagSpellings (mem_flagSpellings.mpr ⟨f, hmem⟩)] at hs
      cases hs
    rw [isSet_addPath, h.isSet, Flag.given_concat, or_iff_left hnot]
  paths := by
    rw [givenPaths_append, ← h.paths]
    simp [addPath, givenPaths, hs]

end Options

/-! ### What all arguments ask for -/

namespace Command

variable {o : Options} {arguments arguments' before rest : List String}
  {result result' : Except UsageError Command}

theorem configured_toCommand (h : o.HoldsOf arguments) : Configured arguments o.toCommand := by
  have hstdin : o.stdin = true ↔ Flag.stdin.Given arguments := h.isSet .stdin
  unfold Options.toCommand
  by_cases hgiven : o.stdin = true
  · rw [if_pos hgiven]
    by_cases hpaths : o.paths = []
    · rw [hpaths, List.isEmpty_nil, if_pos rfl]
      exact .stdin (hstdin.mp hgiven) (h.paths ▸ hpaths) h.isSet hpaths
    · rw [if_neg (by simpa using hpaths)]
      exact .pathsWithStdin (hstdin.mp hgiven) (h.paths ▸ hpaths)
  · rw [if_neg hgiven]
    have hnot : ¬ Flag.stdin.Given arguments := fun hmem => hgiven (hstdin.mpr hmem)
    by_cases hpaths : o.paths = []
    · rw [hpaths, List.isEmpty_nil, if_pos rfl]
      refine .paths hnot h.isSet ?_
      rw [← h.paths, if_pos hpaths]
    · rw [if_neg (by simpa using hpaths)]
      refine .paths hnot h.isSet ?_
      rw [← h.paths, if_neg hpaths]

/-- Reading on gives what the arguments that were read and the others ask for. -/
theorem asked_read (h : o.HoldsOf before) : Asked (before ++ rest) (read o rest) := by
  -- by induction on what is left: the options hold what was read, and none of it settles
  -- the matter
  induction rest generalizing o before with
  | nil =>
    rw [List.append_nil]
    exact .undecided h.undecided (configured_toCommand h)
  | cons s rest ih =>
    by_cases hsettles : ∃ result, Settles s result
    · obtain ⟨result, hresult⟩ := hsettles
      rw [hresult.read_eq]
      exact .settled rfl h.undecided hresult
    · rw [not_exists] at hsettles
      rw [← List.singleton_append, ← List.append_assoc, List.singleton_append, read]
      rcases Argument.ofString_of_not_settles hsettles with ⟨f, hf, hread⟩ | ⟨hs, hread⟩
      · rw [hread]
        exact ih (h.flag hf)
      · rw [hread]
        exact ih (h.path hs hsettles)

/-- There is one first argument that settles the matter. -/
theorem eq_of_first_settles {before before' after after' : List String} {s s' : String}
    (h : before ++ s :: after = before' ++ s' :: after') (hbefore : Undecided before)
    (hbefore' : Undecided before') (hs : Settles s result) (hs' : Settles s' result') :
    s = s' := by
  -- otherwise one of the two stands among the arguments before the other
  rcases List.append_eq_append_iff.mp h with ⟨between, rfl, hbetween⟩ | ⟨between, rfl, hbetween⟩
  · cases between with
    | nil => exact (List.cons.inj hbetween).1
    | cons t between =>
      obtain rfl := (List.cons.inj hbetween).1
      exact absurd hs (hbefore' s (by simp) _)
  · cases between with
    | nil => exact (List.cons.inj hbetween).1.symm
    | cons t between =>
      obtain rfl := (List.cons.inj hbetween).1
      exact absurd hs' (hbefore s' (by simp) _)

theorem Configured.unique (h : Configured arguments result) (h' : Configured arguments result') :
    result = result' := by
  cases h with
  | pathsWithStdin hgiven hpaths =>
    cases h' with
    | pathsWithStdin => rfl
    | stdin _ hnone => exact absurd hnone hpaths
    | paths hnot => exact absurd hgiven hnot
  | stdin hgiven hpaths hset ho =>
    cases h' with
    | pathsWithStdin _ hsome => exact absurd hpaths hsome
    | stdin _ _ hset' ho' =>
      rw [Options.eq_of_isSet (fun f => Bool.eq_iff_iff.mpr ((hset f).trans (hset' f).symm))
        (ho.trans ho'.symm)]
    | paths hnot => exact absurd hgiven hnot
  | paths hnot hset ho =>
    cases h' with
    | pathsWithStdin hgiven => exact absurd hgiven hnot
    | stdin hgiven => exact absurd hgiven hnot
    | paths _ hset' ho' =>
      rw [Options.eq_of_isSet (fun f => Bool.eq_iff_iff.mpr ((hset f).trans (hset' f).symm))
        (ho.trans ho'.symm)]

theorem Asked.unique (h : Asked arguments result) (h' : Asked arguments result') :
    result = result' := by
  have hdecided : ∀ {before after s result}, arguments = before ++ s :: after →
      Settles s result → ¬ Undecided arguments := by
    rintro before after s result rfl hs hnone
    exact hnone s (by simp) result hs
  cases h with
  | settled hsplit hbefore hs =>
    cases h' with
    | settled hsplit' hbefore' hs' =>
      obtain rfl := eq_of_first_settles (hsplit.symm.trans hsplit') hbefore hbefore' hs hs'
      exact hs.unique hs'
    | undecided hnone => exact absurd hnone (hdecided hsplit hs)
  | undecided hnone hconfigured =>
    cases h' with
    | settled hsplit hbefore hs => exact absurd hnone (hdecided hsplit hs)
    | undecided _ hconfigured' => exact hconfigured.unique hconfigured'

theorem ofArguments_eq_iff : ofArguments arguments = result ↔ Asked arguments result := by
  have hasked : Asked ([] ++ arguments) (ofArguments arguments) :=
    asked_read Options.holdsOf_initial
  constructor
  · rintro rfl
    exact hasked
  · exact Asked.unique hasked

/-! ### Flags that are moved and repeated -/

theorem otherArguments_settles {before after : List String} {s : String} (h : Settles s result) :
    otherArguments (before ++ s :: after) =
      otherArguments before ++ s :: otherArguments after := by
  have hs : s ∉ flagSpellings := fun hmem => not_settles_of_mem_flagSpellings hmem h
  rw [otherArguments, List.filter_append, List.filter_cons_of_pos (by simpa using hs)]
  rfl

theorem undecided_otherArguments : Undecided (otherArguments arguments) ↔ Undecided arguments := by
  constructor
  · intro h s hs result hsettles
    have hflag : s ∉ flagSpellings := fun hmem => not_settles_of_mem_flagSpellings hmem hsettles
    exact h s (List.mem_filter.mpr ⟨hs, by simpa using hflag⟩) result hsettles
  · intro h s hs
    exact h s (List.mem_filter.mp hs).1

theorem givenPaths_otherArguments (arguments : List String) :
    givenPaths (otherArguments arguments) = givenPaths arguments := by
  rw [givenPaths, givenPaths, otherArguments, List.filter_filter]
  congr 1
  apply List.filter_congr
  intro s hs
  by_cases hflag : s ∈ flagSpellings
  · rw [isOption_of_mem_flagSpellings hflag]
    rfl
  · simp [hflag]

/-- The first argument that settles the matter is the same if flags are moved. -/
theorem exists_first_settles {before after : List String} {s : String}
    (hothers : otherArguments arguments' = otherArguments (before ++ s :: after))
    (hbefore : Undecided before) (hs : Settles s result) :
    ∃ before' after', arguments' = before' ++ s :: after' ∧ Undecided before' := by
  -- between what is kept of the arguments before it and the argument itself only flags stand
  rw [otherArguments_settles hs, otherArguments, List.filter_eq_append_iff] at hothers
  obtain ⟨front, back, rfl, hfront, hback⟩ := hothers
  obtain ⟨flags, after', rfl, hflags, -, -⟩ := List.filter_eq_cons_iff.mp hback
  refine ⟨front ++ flags, after', (List.append_assoc ..).symm, ?_⟩
  refine undecided_append.mpr ⟨?_, ?_⟩
  · rw [← undecided_otherArguments, otherArguments, hfront]
    exact undecided_otherArguments.mpr hbefore
  · intro t ht result
    exact not_settles_of_mem_flagSpellings (by simpa using hflags t ht)

theorem Configured.congr (hpaths : givenPaths arguments' = givenPaths arguments)
    (hflags : ∀ f : Flag, f.Given arguments' ↔ f.Given arguments)
    (h : Configured arguments result) : Configured arguments' result := by
  cases h with
  | pathsWithStdin hgiven hsome =>
    exact .pathsWithStdin ((hflags _).mpr hgiven) (hpaths ▸ hsome)
  | stdin hgiven hnone hset ho =>
    exact .stdin ((hflags _).mpr hgiven) (hpaths ▸ hnone)
      (fun f => (hset f).trans (hflags f).symm) ho
  | paths hnot hset ho =>
    exact .paths (fun hgiven => hnot ((hflags _).mp hgiven))
      (fun f => (hset f).trans (hflags f).symm) (hpaths ▸ ho)

theorem Asked.congr (hothers : otherArguments arguments' = otherArguments arguments)
    (hflags : ∀ f : Flag, f.Given arguments' ↔ f.Given arguments) (h : Asked arguments result) :
    Asked arguments' result := by
  cases h with
  | settled hsplit hbefore hs =>
    obtain ⟨before', after', hsplit', hbefore'⟩ :=
      exists_first_settles (hsplit ▸ hothers) hbefore hs
    exact .settled hsplit' hbefore' hs
  | undecided hnone hconfigured =>
    have hnone' : Undecided arguments' := by
      rw [← undecided_otherArguments, hothers]
      exact undecided_otherArguments.mpr hnone
    have hpaths : givenPaths arguments' = givenPaths arguments := by
      rw [← givenPaths_otherArguments, hothers, givenPaths_otherArguments]
    exact .undecided hnone' (hconfigured.congr hpaths hflags)

/-- **What the arguments are read as is what they ask for.**  So flags may be moved and
    repeated: the same flags in any place, with the same other arguments in the same order,
    are read as the same. -/
theorem ofArguments_asked (arguments : List String) :
    (∀ result, ofArguments arguments = result ↔ Asked arguments result) ∧
      ∀ arguments', otherArguments arguments' = otherArguments arguments →
        (∀ f : Flag, f.Given arguments' ↔ f.Given arguments) →
        ofArguments arguments' = ofArguments arguments := by
  refine ⟨fun result => ofArguments_eq_iff, ?_⟩
  intro arguments' hothers hflags
  exact ofArguments_eq_iff.mpr ((ofArguments_eq_iff.mp rfl).congr hothers hflags)

end Command

end ModuleScan
