/-
  ModuleScan/Proofs/WholeOrNothing.lean
  =====================================
  **A run prints its whole result, or nothing but why there is none.**

  What a scan comes to follows from its sources alone: it is complete if all of them are
  known and can be scanned, and otherwise it fails with the failure of the search or of
  one source (`RunsTo.scansTo`).  The rest is read off: the exit code, what is printed,
  and which file a failure names (`RunsTo.wholeOrNothing`).
-/
import ModuleScan.Proofs.Sources

namespace ModuleScan

variable {files : Files} {stdin : Except ReadFailure ByteArray} {arguments : List String}
  {r : RunResult} {o : Options}

/-! ### What a scan comes to -/

/-- A scan fails since its sources cannot be told, or with a source that it has come to,
    or it is complete.  Scanning one after the other comes to a source only behind those
    that can be scanned. -/
inductive Options.ScansTo (o : Options) (files : Files) (stdin : Except ReadFailure ByteArray) :
    RunResult → Prop
  | unlisted {failure : Path × ReadFailure} : o.sources files stdin = .error failure →
      o.ScansTo files stdin (.ofFailure (.ofRead failure.1.text failure.2))
  | unread {before after : List Source} {s : Source} {failure : Failure} :
      o.sources files stdin = .ok (before ++ s :: after) → Refused s failure →
      (o.parallel = false → ∀ t ∈ before, ∃ report, Reported o.unique t report) →
      o.ScansTo files stdin (.ofFailure failure)
  | complete {sources : List Source} {reports : List Report} :
      o.sources files stdin = .ok sources → List.Forall₂ (Reported o.unique) sources reports →
      o.ScansTo files stdin (o.result reports)

theorem run_of_scan (ho : Command.ofArguments arguments = .ok (.scan o)) :
    o.ScansTo files stdin (run files stdin arguments) := by
  rw [run, ho]
  simp only [o.reports_eq]
  cases hsources : o.sources files stdin with
  | error failure => exact .unlisted hsources
  | ok sources =>
    cases hreports : sources.mapM fun s => scanContent s.1 o.unique s.2 with
    | ok reports =>
      have hall := mapM_eq_ok.mp hreports
      simp only [hreports]
      exact .complete hsources (hall.imp fun s report => reported_of_scanContent)
    | error failure =>
      obtain ⟨before, s, after, rfl, hbefore, hs⟩ := mapM_eq_error hreports
      simp only [hreports]
      refine .unread hsources (refused_of_scanContent hs) fun _ t ht => ?_
      obtain ⟨report, hreport⟩ := hbefore t ht
      exact ⟨report, reported_of_scanContent hreport⟩

theorem RunsTo.scansTo (h : RunsTo files stdin arguments r)
    (ho : Command.ofArguments arguments = .ok (.scan o)) : o.ScansTo files stdin r := by
  cases h with
  | inOrder => exact run_of_scan ho
  | @sideBySide o' found p failure ho' hstdin hparallel hfound hp hfailure =>
    cases ho.symm.trans ho'
    have hdiscover : files.discover o.noIgnore o.paths = .ok found := by
      rw [discoverFiles] at hfound
      split at hfound
      · cases hfound
      next hdiscover =>
        cases hfound
        exact hdiscover
    have hsources : o.sources files stdin = .ok (found.map fun p => (p.text, files.read p)) :=
      Options.sources_of_discover hstdin hdiscover
    obtain ⟨before, after, rfl⟩ := List.append_of_mem hp
    rw [List.map_append, List.map_cons] at hsources
    refine .unread hsources (refused_of_scanContent hfailure) ?_
    intro hone
    rw [hone] at hparallel
    cases hparallel

/-! ### Codes -/

theorem exitCode_ofRead (path : String) (cause : ReadFailure) :
    (Failure.ofRead path cause).exitCode = 1 := by
  rw [Failure.ofRead]
  split <;> rfl

theorem Refused.exitCode {s : Source} {failure : Failure} (h : Refused s failure) :
    failure.exitCode = 1 := by
  cases h with
  | unreadable => exact exitCode_ofRead _ _
  | invalid => rfl

namespace Options.ScansTo

/-- Complete with code 0, or failed with code 1 and a failure alone. -/
theorem code_cases (h : o.ScansTo files stdin r) :
    (∃ reports, r = o.result reports) ∨
      ∃ failure : Failure, failure.exitCode = 1 ∧ r = .ofFailure failure := by
  cases h with
  | unlisted hsources => exact .inr ⟨_, exitCode_ofRead _ _, rfl⟩
  | unread hsources hrefused _ => exact .inr ⟨_, hrefused.exitCode, rfl⟩
  | complete hsources hreports => exact .inl ⟨_, rfl⟩

theorem code_eq_one_iff (h : o.ScansTo files stdin r) :
    r.code = 1 ↔
      (o.stdin = false ∧ ∃ p ∈ o.paths, ∃ failure, files.Blocked o.noIgnore p failure) ∨
        ∃ sources, o.sources files stdin = .ok sources ∧
          ∃ s ∈ sources, ∃ failure, Refused s failure := by
  cases h with
  | unlisted hsources =>
    exact iff_of_true (exitCode_ofRead _ _) (.inl (exists_sources_error_iff.mp ⟨_, hsources⟩))
  | @unread before after s failure hsources hrefused _ =>
    refine iff_of_true hrefused.exitCode (.inr ⟨_, hsources, s, ?_, failure, hrefused⟩)
    exact List.mem_append_right _ List.mem_cons_self
  | @complete sources reports hsources hreports =>
    refine iff_of_false Nat.zero_ne_one ?_
    rintro (hblocked | ⟨sources', hsources', s, hs, failure, hrefused⟩)
    · obtain ⟨failure, herror⟩ := exists_sources_error_iff.mpr hblocked
      cases hsources.symm.trans herror
    · cases hsources.symm.trans hsources'
      have hscanned : ∀ t ∈ sources, ∃ report, Reported o.unique t report :=
        ((List.forall₂_and_left _ _).mp
          (hreports.imp fun t report ht => ⟨⟨report, ht⟩, ht⟩)).1
      obtain ⟨report, hreport⟩ := hscanned s hs
      exact hreport.not_refused failure hrefused

end Options.ScansTo

/-- Only a scan looks at the files and at standard input. -/
theorem RunsTo.eq_run (h : RunsTo files stdin arguments r)
    (hnone : ∀ o, Command.ofArguments arguments ≠ .ok (.scan o)) (files' : Files)
    (stdin' : Except ReadFailure ByteArray) : r = run files' stdin' arguments := by
  cases h with
  | sideBySide ho => exact absurd ho (hnone _)
  | inOrder =>
    rw [run, run]
    cases hcommand : Command.ofArguments arguments with
    | error e => rfl
    | ok command =>
      cases command with
      | scan o => exact absurd hcommand (hnone o)
      | help => rfl
      | version => rfl

theorem run_of_usageError {e : UsageError} (he : Command.ofArguments arguments = .error e) :
    run files stdin arguments =
      { code := 2, stdout := ""
        stderr := errorLine (.ofUsage e) ++ "Run 'depscan --help' for usage\n" } := by
  rw [run, he]
  rfl

/-- The order in which files are scanned changes neither the exit code nor the output. -/
theorem RunsTo.same_output (h : RunsTo files stdin arguments r) :
    r.code = (run files stdin arguments).code ∧
      r.stdout = (run files stdin arguments).stdout := by
  cases h with
  | inOrder => exact ⟨rfl, rfl⟩
  | @sideBySide o found p failure ho hstdin hparallel hfound hp hfailure =>
    have hside : o.ScansTo files stdin (.ofFailure failure) :=
      (RunsTo.sideBySide ho hstdin hparallel hfound hp hfailure).scansTo ho
    have hrefused : Refused (p.text, files.read p) failure := refused_of_scanContent hfailure
    have hcode : (RunResult.ofFailure failure).code = 1 := hrefused.exitCode
    have hrun : o.ScansTo files stdin (run files stdin arguments) := run_of_scan ho
    -- the run in order fails as well, if not with the same file
    have hone := hrun.code_eq_one_iff.mpr (hside.code_eq_one_iff.mp hcode)
    rcases hrun.code_cases with ⟨reports, hcomplete⟩ | ⟨failure, -, hfailed⟩
    · rw [hcomplete] at hone
      cases hone
    · refine ⟨hcode.trans hone.symm, ?_⟩
      rw [hfailed]
      rfl

/-! ### Warnings -/

/-- The command, with diagnostics left out. -/
def Command.quiet : Command → Command
  | .scan o => .scan (o.set .noWarnings)
  | command => command

namespace Command

theorem toCommand_set_noWarnings (o : Options) :
    (o.set .noWarnings).toCommand = o.toCommand.map quiet := by
  rcases o with ⟨paths, json, stdin, noWarnings, unique, parallel, noIgnore, verbose⟩
  cases stdin <;> cases paths <;> rfl

theorem read_set_noWarnings (o : Options) (arguments : List String) :
    read (o.set .noWarnings) arguments = (read o arguments).map quiet := by
  induction arguments generalizing o with
  | nil => exact toCommand_set_noWarnings o
  | cons s rest ih =>
    rw [read, read]
    cases Argument.ofString s with
    | flag f =>
      have hcomm : (o.set .noWarnings).set f = (o.set f).set .noWarnings := by
        cases f <;> rfl
      simp only [hcomm]
      exact ih (o.set f)
    | help => rfl
    | version => rfl
    | unknown option => rfl
    | path text => exact ih (o.addPath text)

theorem read_insert_noWarnings (o : Options) (before after : List String) :
    read o (before ++ "--no-warnings" :: after) = (read o (before ++ after)).map quiet := by
  induction before generalizing o with
  | nil => exact read_set_noWarnings o after
  | cons s before ih =>
    rw [List.cons_append, List.cons_append, read, read]
    cases Argument.ofString s with
    | flag f => exact ih (o.set f)
    | help => rfl
    | version => rfl
    | unknown option => rfl
    | path text => exact ih (o.addPath text)

end Command

theorem run_insert_noWarnings (files : Files) (stdin : Except ReadFailure ByteArray)
    (before after : List String) :
    (run files stdin (before ++ "--no-warnings" :: after)).code =
        (run files stdin (before ++ after)).code ∧
      (run files stdin (before ++ "--no-warnings" :: after)).stdout =
        (run files stdin (before ++ after)).stdout := by
  have hcommand : Command.ofArguments (before ++ "--no-warnings" :: after) =
      (Command.ofArguments (before ++ after)).map Command.quiet :=
    Command.read_insert_noWarnings .initial before after
  rw [run, run, hcommand]
  cases Command.ofArguments (before ++ after) with
  | error e => exact ⟨rfl, rfl⟩
  | ok command =>
    cases command with
    | help => exact ⟨rfl, rfl⟩
    | version => exact ⟨rfl, rfl⟩
    | scan o =>
      have hreports : (o.set .noWarnings).reports files stdin = o.reports files stdin := rfl
      simp only [Except.map, Command.quiet, hreports]
      cases o.reports files stdin with
      | error failure => exact ⟨rfl, rfl⟩
      | ok reports => exact ⟨rfl, rfl⟩

/-! ### Everything or nothing -/

def Report.withoutDiagnostics (r : Report) : Report := { r with diagnostics := [] }

theorem Report.plain_withoutDiagnostics (reports : List Report) :
    plain (reports.map withoutDiagnostics) = plain reports := by
  rw [plain, plain, List.flatMap_map]
  rfl

/-- What a run prints and how it ends. -/
structure WholeOrNothing (files : Files) (stdin : Except ReadFailure ByteArray)
    (arguments : List String) (r : RunResult) : Prop where
  /-- The code is 2 if and only if the arguments are wrong. -/
  usage : r.code = 2 ↔ ∃ e, Command.ofArguments arguments = .error e
  /-- If the arguments are wrong, nothing else matters. -/
  usage_alone : r.code = 2 → ∀ files' stdin' r', RunsTo files' stdin' arguments r' → r' = r
  /-- The code is 1 if and only if there is to be a scan, and a given path leads nowhere or
      to a directory that cannot be listed, or a source cannot be read or is no UTF-8 text. -/
  failed : r.code = 1 ↔ ∃ o, Command.ofArguments arguments = .ok (.scan o) ∧
    ((o.stdin = false ∧ ∃ p ∈ o.paths, ∃ failure, files.Blocked o.noIgnore p failure) ∨
      ∃ sources, o.sources files stdin = .ok sources ∧ ∃ s ∈ sources, ∃ failure, Refused s failure)
  /-- There are no other codes. -/
  code_le : r.code ≤ 2
  /-- With a code other than 0 nothing is printed but the failure. -/
  nothing : r.code ≠ 0 → r.stdout = "" ∧ ∃ failure : Failure, failure.exitCode = r.code ∧
    (r.stderr = errorLine failure ∨
      r.stderr = errorLine failure ++ "Run 'depscan --help' for usage\n")
  /-- A failure to read names a source that cannot be scanned: of the files that are
      scanned one after the other, the first. -/
  names : ∀ o sources, Command.ofArguments arguments = .ok (.scan o) →
    o.sources files stdin = .ok sources → r.code = 1 →
    ∃ before s after failure, sources = before ++ s :: after ∧ Refused s failure ∧
      r = .ofFailure failure ∧
      (o.parallel = false → ∀ t ∈ before, ∃ report, Reported o.unique t report)
  /-- With code 0 a scan has printed the reports of all sources, one for each, in order.
      Plain output is the same without the diagnostics. -/
  whole : ∀ o, Command.ofArguments arguments = .ok (.scan o) → r.code = 0 →
    ∃ sources reports, o.sources files stdin = .ok sources ∧
      List.Forall₂ (Reported o.unique) sources reports ∧
      r.stdout = (if o.json then Report.json reports
        else Report.plain (reports.map Report.withoutDiagnostics)) ∧
      r.stderr = if o.noWarnings then "" else Report.warnings reports
  /-- Leaving out the warnings changes neither the code nor the output. -/
  warnings : ∀ before after r', arguments = before ++ after →
    RunsTo files stdin (before ++ "--no-warnings" :: after) r' →
    r'.code = r.code ∧ r'.stdout = r.stdout

theorem RunsTo.same_output_noWarnings {before after : List String} {r' : RunResult}
    (h : RunsTo files stdin (before ++ after) r)
    (h' : RunsTo files stdin (before ++ "--no-warnings" :: after) r') :
    r'.code = r.code ∧ r'.stdout = r.stdout := by
  obtain ⟨hcode, hstdout⟩ := run_insert_noWarnings files stdin before after
  constructor
  · rw [h.same_output.1, h'.same_output.1, hcode]
  · rw [h.same_output.2, h'.same_output.2, hstdout]

namespace WholeOrNothing

theorem of_usageError {e : UsageError} (he : Command.ofArguments arguments = .error e)
    (h : RunsTo files stdin arguments r) : WholeOrNothing files stdin arguments r := by
  have hnone : ∀ o, Command.ofArguments arguments ≠ .ok (.scan o) := by
    intro o ho
    cases he.symm.trans ho
  have hr : ∀ {files' stdin' r'}, RunsTo files' stdin' arguments r' → r' =
      { code := 2, stdout := ""
        stderr := errorLine (.ofUsage e) ++ "Run 'depscan --help' for usage\n" } := by
    intro files' stdin' r' h'
    rw [h'.eq_run hnone files stdin, run_of_usageError he]
  constructor
  · rw [hr h]
    exact iff_of_true rfl ⟨e, he⟩
  · intro _ files' stdin' r' h'
    rw [hr h, hr h']
  · rw [hr h]
    refine iff_of_false (show 2 ≠ 1 by decide) ?_
    rintro ⟨o, ho, -⟩
    exact hnone o ho
  · rw [hr h]
  · intro _
    rw [hr h]
    exact ⟨rfl, .ofUsage e, rfl, .inr rfl⟩
  · intro o _ ho
    exact absurd ho (hnone o)
  · intro o ho
    exact absurd ho (hnone o)
  · rintro before after r' rfl h'
    exact h.same_output_noWarnings h'

/-- The help and the version are printed whatever else there is. -/
theorem of_text {command : Command} (hcommand : Command.ofArguments arguments = .ok command)
    (htext : command = .help ∨ command = .version) (h : RunsTo files stdin arguments r) :
    WholeOrNothing files stdin arguments r := by
  have hnone : ∀ o, Command.ofArguments arguments ≠ .ok (.scan o) := by
    intro o ho
    cases hcommand.symm.trans ho
    rcases htext with htext | htext <;> cases htext
  have hcode : r.code = 0 := by
    rw [h.eq_run hnone files stdin, run, hcommand]
    rcases htext with rfl | rfl <;> rfl
  constructor
  · rw [hcode]
    refine iff_of_false (by decide) ?_
    rintro ⟨e, he⟩
    cases hcommand.symm.trans he
  · intro htwo
    cases hcode.symm.trans htwo
  · rw [hcode]
    refine iff_of_false (by decide) ?_
    rintro ⟨o, ho, -⟩
    exact hnone o ho
  · rw [hcode]
    exact Nat.zero_le 2
  · intro hne
    exact absurd hcode hne
  · intro o _ ho
    exact absurd ho (hnone o)
  · intro o ho
    exact absurd ho (hnone o)
  · rintro before after r' rfl h'
    exact h.same_output_noWarnings h'

theorem of_scan (ho : Command.ofArguments arguments = .ok (.scan o))
    (h : RunsTo files stdin arguments r) : WholeOrNothing files stdin arguments r := by
  have hscan := h.scansTo ho
  have hcodes : r.code = 0 ∨ r.code = 1 := by
    rcases hscan.code_cases with ⟨reports, rfl⟩ | ⟨failure, hcode, rfl⟩
    · exact .inl rfl
    · exact .inr hcode
  have hnot_two : r.code ≠ 2 := by
    rcases hcodes with hcode | hcode <;> rw [hcode] <;> decide
  constructor
  · refine iff_of_false hnot_two ?_
    rintro ⟨e, he⟩
    cases ho.symm.trans he
  · intro htwo
    exact absurd htwo hnot_two
  · rw [hscan.code_eq_one_iff]
    constructor
    · intro hfails
      exact ⟨o, ho, hfails⟩
    · rintro ⟨o', ho', hfails⟩
      cases ho.symm.trans ho'
      exact hfails
  · rcases hcodes with hcode | hcode <;> rw [hcode] <;> decide
  · intro hne
    rcases hscan.code_cases with ⟨reports, rfl⟩ | ⟨failure, -, rfl⟩
    · exact absurd rfl hne
    · exact ⟨rfl, failure, rfl, .inl rfl⟩
  · intro o' sources ho' hsources hone
    cases ho.symm.trans ho'
    cases hscan with
    | unlisted herror => cases hsources.symm.trans herror
    | @unread before after s failure hunread hrefused hfirst =>
      cases hsources.symm.trans hunread
      exact ⟨before, s, after, failure, rfl, hrefused, rfl, hfirst⟩
    | complete _ _ => cases hone
  · intro o' ho' hzero
    cases ho.symm.trans ho'
    cases hscan with
    | unlisted _ => cases (exitCode_ofRead _ _).symm.trans hzero
    | unread _ hrefused _ => cases hrefused.exitCode.symm.trans hzero
    | @complete sources reports hsources hreports =>
      refine ⟨sources, reports, hsources, hreports, ?_, rfl⟩
      rw [Report.plain_withoutDiagnostics]
      rfl
  · rintro before after r' rfl h'
    exact h.same_output_noWarnings h'

end WholeOrNothing

/-- **A run prints everything or nothing.**  Whatever the arguments, the files and standard
    input are, and in whatever order files are scanned side by side: the exit code says
    whether the arguments are wrong, whether a path or a source fails, or that all is well;
    and the output is whole in this last case, and otherwise empty. -/
theorem RunsTo.wholeOrNothing (h : RunsTo files stdin arguments r) :
    WholeOrNothing files stdin arguments r := by
  cases hcommand : Command.ofArguments arguments with
  | error e => exact .of_usageError hcommand h
  | ok command =>
    cases command with
    | scan o => exact .of_scan hcommand h
    | help => exact .of_text hcommand (.inl rfl) h
    | version => exact .of_text hcommand (.inr rfl) h

/-- Side by side, the second of two files that are no UTF-8 text may be the one that is
    named. -/
theorem RunsTo.wholeOrNothing_sideBySide :
    let root : Node := .directory [("a.js", .file "import 'm'".toUTF8),
      ("b.js", .file ⟨#[0xff]⟩), ("c.js", .file ⟨#[0xc0]⟩)]
    let files := root.files []
    let r := RunResult.ofFailure (.invalidUtf8 "./c.js")
    RunsTo files (.ok .empty) ["--json"] r ∧ WholeOrNothing files (.ok .empty) ["--json"] r := by
  intro root files r
  have hsearch : files.searchPath false ⟨"."⟩ = .ok [⟨"./a.js"⟩, ⟨"./b.js"⟩, ⟨"./c.js"⟩] := by
    decide +kernel
  have hsorted : Path.sorted [⟨"./a.js"⟩, ⟨"./b.js"⟩, ⟨"./c.js"⟩] =
      [⟨"./a.js"⟩, ⟨"./b.js"⟩, ⟨"./c.js"⟩] := by
    rw [Path.sorted, List.mergeSort_of_pairwise (by decide +kernel)]
    decide +kernel
  have hfound : discoverFiles files false [⟨"."⟩] =
      .ok [⟨"./a.js"⟩, ⟨"./b.js"⟩, ⟨"./c.js"⟩] := by
    rw [discoverFiles, Files.discover_eq_ok.mpr ⟨_, .cons hsearch .nil, hsorted.symm⟩]
  have h : RunsTo files (.ok .empty) ["--json"] r :=
    .sideBySide (o := { Options.initial with paths := [⟨"."⟩], json := true }) (p := ⟨"./c.js"⟩)
      rfl rfl rfl hfound (by decide) (by decide +kernel)
  exact ⟨h, h.wholeOrNothing⟩

/-! ### A directory that cannot be listed -/

theorem Argument.ofString_of_head? {s : String} (h : s.toList.head? ≠ some '-') :
    Argument.ofString s = .path s := by
  have hhead : (s.toList.head? == some '-') = false := by simpa using h
  unfold Argument.ofString
  split
  case h_13 => rw [hhead, if_neg Bool.false_ne_true]
  all_goals exact absurd (by decide) h

theorem ofArguments_staying (n : Nat) :
    Command.ofArguments [(stayingPath n).text] =
      .ok (.scan { Options.initial with paths := [stayingPath n] }) := by
  have hpath : Argument.ofString (stayingPath n).text = .path (stayingPath n).text := by
    apply Argument.ofString_of_head?
    rw [stayingPath_text, String.toList_ofList]
    cases n with
    | zero => nofun
    | succ n =>
      rw [List.replicate_succ]
      nofun
  rw [Command.ofArguments, Command.read, hpath, stayingPath_text]
  rfl

theorem hollowRoot_at? (location : Location) (content : ByteArray) :
    hollowRoot.at? location ≠ some (.file content) := by
  intro hat
  rcases location with _ | ⟨name, location⟩
  · cases hat
  · obtain ⟨child, hlookup, hchild⟩ := Option.bind_eq_some_iff.mp hat
    obtain rfl : child = .directory [] := by
      rw [List.lookup_cons] at hlookup
      split at hlookup
      · exact (Option.some.inj hlookup).symm
      · cases hlookup
    rcases location with _ | ⟨name', location⟩ <;> cases hchild

theorem blocked_hollowRoot {n : Nat} (hshort : 2 * (n + 1) < Node.maxPath)
    (hlong : Node.maxPath ≤ 2 * (n + 1) + 8) :
    (hollowRoot.files []).Blocked false (stayingPath (n + 1))
      ((stayingPath (n + 1)).join "dddddddd", .nameTooLong) := by
  refine .unlisted (lookup_hollowRoot hshort)
    ⟨["dddddddd"], [], .down List.mem_cons_self .here, ?_, ?_, lookup_join_hollowRoot hlong⟩
  · exact .inr (by decide)
  · rw [Path.below_cons, Path.below_nil]

/-- **A scan may fail though every given path leads somewhere and there is no file.**  The
    path leads to the root, and nothing but an empty directory is there; the path of this
    directory, joined to the long one that is given, is too long to list it. -/
theorem run_hollowRoot :
    Command.ofArguments [(stayingPath 2045).text] =
        .ok (.scan { Options.initial with paths := [stayingPath 2045] }) ∧
      (hollowRoot.files []).lookup (stayingPath 2045) = .ok hollowRoot ∧
      (∀ location content, hollowRoot.at? location ≠ some (.file content)) ∧
      (run (hollowRoot.files []) (.ok .empty) [(stayingPath 2045).text]).code = 1 := by
  have hscan : Options.ScansTo { Options.initial with paths := [stayingPath 2045] }
      (hollowRoot.files []) (.ok .empty)
      (run (hollowRoot.files []) (.ok .empty) [(stayingPath 2045).text]) :=
    run_of_scan (ofArguments_staying 2045)
  have hblocked := blocked_hollowRoot (n := 2044) (by decide) (by decide)
  refine ⟨ofArguments_staying 2045, lookup_hollowRoot (n := 2044) (by decide), hollowRoot_at?, ?_⟩
  exact hscan.code_eq_one_iff.mpr (.inl ⟨rfl, _, List.mem_cons_self, _, hblocked⟩)

end ModuleScan
