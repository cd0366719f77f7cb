/-
  ModuleScan/Proofs/Sources.lean
  ==============================
  **What a scan reads, and what can stop it.**

  A scan reads standard input, or the files that the given paths stand for.  It stops if
  a given path leads nowhere or to a directory that cannot be listed to the end
  (`Files.Blocked`), or if one of its sources cannot be read or is no UTF-8 text
  (`Refused`).  Otherwise it has one report for each source, in their order
  (`Options.reports_eq`).
-/
import ModuleScan.CommandLine.Run
import ModuleScan.Proofs.Search

namespace ModuleScan

/-! ### What stops a search -/

namespace Files

/-- How the search of a given path fails: the path leads nowhere, or a directory that the
    search comes to from there cannot be listed. -/
inductive Blocked (files : Files) (noIgnore : Bool) (p : Path) : Path × ReadFailure → Prop
  | nowhere {cause : ReadFailure} : files.lookup p = .error cause →
      files.Blocked noIgnore p (p, cause)
  | unlisted {entries : List (OsString × Node)} {failure : Path × ReadFailure} :
      files.lookup p = .ok (.directory entries) →
      files.StopsAt noIgnore p (.directory entries) failure → files.Blocked noIgnore p failure

variable {files : Files} {noIgnore : Bool} {p : Path} {paths : List Path}

theorem blocked_directory {entries : List (OsString × Node)}
    (hp : files.lookup p = .ok (.directory entries)) {failure : Path × ReadFailure} :
    files.Blocked noIgnore p failure ↔ ∃ entry ∈ entries, Enters noIgnore [entry.1] ∧
      files.StopsAt noIgnore (p.join entry.1) entry.2 failure := by
  have hstops : files.StopsAt noIgnore p (.directory entries) failure ↔
      ∃ entry ∈ entries, Enters noIgnore [entry.1] ∧
        files.StopsAt noIgnore (p.join entry.1) entry.2 failure := by
    rw [stopsAt_directory, hp]
    simp only [reduceCtorEq, and_false, false_or]
  rw [← hstops]
  constructor
  · intro h
    cases h with
    | nowhere hnowhere =>
      rw [hp] at hnowhere
      cases hnowhere
    | unlisted hlookup hstop =>
      cases hp.symm.trans hlookup
      exact hstop
  · exact .unlisted hp

/-- Nothing stops the search of a path that leads to no directory. -/
theorem not_blocked {node : Node} (hp : files.lookup p = .ok node)
    (hnode : node.isDirectory = false) (failure : Path × ReadFailure) :
    ¬ files.Blocked noIgnore p failure := by
  intro hblocked
  cases hblocked with
  | nowhere hnowhere => cases hp.symm.trans hnowhere
  | unlisted hlookup =>
    cases hp.symm.trans hlookup
    cases hnode

theorem exists_searchPath_iff :
    (∃ found, files.searchPath noIgnore p = .ok found) ↔
      ∀ failure, ¬ files.Blocked noIgnore p failure := by
  rw [searchPath]
  cases hp : files.lookup p with
  | error cause => exact iff_of_false (by simp) fun hnot => hnot _ (.nowhere hp)
  | ok node =>
    cases node with
    | directory entries =>
      refine (Answers.exists_ok_iff (searchEntries_answers p entries)).trans ?_
      exact forall_congr' fun failure => not_congr (blocked_directory hp).symm
    | file content => exact iff_of_true ⟨_, rfl⟩ (not_blocked hp rfl)
    | link target => exact iff_of_true ⟨_, rfl⟩ (not_blocked hp rfl)

/-- A search fails if and only if some given path makes it fail. -/
theorem exists_discover_error_iff :
    (∃ failure, files.discover noIgnore paths = .error failure) ↔
      ∃ p ∈ paths, ∃ failure, files.Blocked noIgnore p failure := by
  have hok : (∃ found, files.discover noIgnore paths = .ok found) ↔
      ∀ p ∈ paths, ∀ failure, ¬ files.Blocked noIgnore p failure := by
    rw [exists_discover_ok_iff]
    exact forall₂_congr fun p _ => exists_searchPath_iff
  cases h : files.discover noIgnore paths with
  | ok found =>
    refine iff_of_false nofun ?_
    rintro ⟨p, hp, failure, hblocked⟩
    exact hok.mp ⟨found, h⟩ p hp failure hblocked
  | error failure =>
    refine iff_of_true ⟨failure, rfl⟩ ?_
    by_contra hnone
    push Not at hnone
    obtain ⟨found, hfound⟩ := hok.mpr hnone
    cases h.symm.trans hfound

end Files

/-! ### Sources -/

/-- What a scan is to read: the label of a source, and what reading it gives. -/
abbrev Source := String × Except ReadFailure ByteArray

/-- Why a source cannot be scanned: it cannot be read, or it is no UTF-8 text. -/
inductive Refused : Source → Failure → Prop
  | unreadable {label : String} {cause : ReadFailure} :
      Refused (label, .error cause) (.ofRead label cause)
  | invalid {label : String} {bytes : ByteArray} : ¬ bytes.IsValidUTF8 →
      Refused (label, .ok bytes) (.invalidUtf8 label)

/-- The report is that of the text of the source. -/
def Reported (unique : Bool) (s : Source) (report : Report) : Prop :=
  ∃ text : String, s.2 = .ok text.toUTF8 ∧ report = .ofSource s.1 text unique

variable {s : Source} {unique : Bool}

theorem decodeSource_of_valid {path : String} {bytes : ByteArray} (h : bytes.IsValidUTF8) :
    decodeSource path bytes = .ok (.fromUTF8 bytes h) := by
  rw [decodeSource, String.fromUTF8?, dif_pos h]

theorem decodeSource_of_invalid {path : String} {bytes : ByteArray} (h : ¬ bytes.IsValidUTF8) :
    decodeSource path bytes = .error (.invalidUtf8 path) := by
  rw [decodeSource, String.fromUTF8?, dif_neg h]

/-- A source is reported or refused, as it is read. -/
theorem scanContent_reported_or_refused (unique : Bool) (s : Source) :
    (∃ report, scanContent s.1 unique s.2 = .ok report ∧ Reported unique s report) ∨
      ∃ failure, scanContent s.1 unique s.2 = .error failure ∧ Refused s failure := by
  obtain ⟨label, content⟩ := s
  cases content with
  | error cause => exact .inr ⟨_, rfl, .unreadable⟩
  | ok bytes =>
    by_cases hvalid : bytes.IsValidUTF8
    · refine .inl ⟨_, ?_, .fromUTF8 bytes hvalid, rfl, rfl⟩
      rw [scanContent, decodeSource_of_valid hvalid]
    · refine .inr ⟨.invalidUtf8 label, ?_, .invalid hvalid⟩
      rw [scanContent, decodeSource_of_invalid hvalid]

theorem Reported.not_refused {report : Report} (h : Reported unique s report) (failure : Failure) :
    ¬ Refused s failure := by
  obtain ⟨text, htext, -⟩ := h
  intro hrefused
  cases hrefused with
  | unreadable => cases htext
  | invalid hinvalid =>
    cases htext
    exact hinvalid text.isValidUTF8

theorem reported_of_scanContent {report : Report} (h : scanContent s.1 unique s.2 = .ok report) :
    Reported unique s report := by
  rcases scanContent_reported_or_refused unique s with ⟨report', h', hreported⟩ | ⟨failure, h', -⟩
  · cases h.symm.trans h'
    exact hreported
  · cases h.symm.trans h'

theorem refused_of_scanContent {failure : Failure}
    (h : scanContent s.1 unique s.2 = .error failure) : Refused s failure := by
  rcases scanContent_reported_or_refused unique s with ⟨report, h', -⟩ | ⟨failure', h', hrefused⟩
  · cases h.symm.trans h'
  · cases h.symm.trans h'
    exact hrefused

/-! ### All sources of a scan -/

namespace Options

/-- The sources of a scan, in order. -/
def sources (o : Options) (files : Files) (stdin : Except ReadFailure ByteArray) :
    Except (Path × ReadFailure) (List Source) :=
  if o.stdin then .ok [(stdinLabel, stdin)]
  else do
    let found ← files.discover o.noIgnore o.paths
    return found.map fun p => (p.text, files.read p)

variable {o : Options} {files : Files} {stdin : Except ReadFailure ByteArray}

theorem reports_eq (o : Options) (files : Files) (stdin : Except ReadFailure ByteArray) :
    o.reports files stdin =
      match o.sources files stdin with
      | .error (p, cause) => .error (.ofRead p.text cause)
      | .ok sources => sources.mapM fun s => scanContent s.1 o.unique s.2 := by
  rw [reports, sources]
  cases o.stdin with
  | true => cases h : scanContent stdinLabel o.unique stdin <;> simp [h]
  | false =>
    simp only [Bool.false_eq_true, if_false, discoverFiles]
    cases h : files.discover o.noIgnore o.paths with
    | error failure => rfl
    | ok found =>
      change scanFiles files o.unique found =
        (found.map fun p => (p.text, files.read p)).mapM fun s => scanContent s.1 o.unique s.2
      rw [List.mapM_map]
      rfl

theorem sources_of_stdin (h : o.stdin = true) :
    o.sources files stdin = .ok [(stdinLabel, stdin)] := by
  rw [sources, if_pos h]

theorem sources_of_discover (h : o.stdin = false) {found : List Path}
    (hfound : files.discover o.noIgnore o.paths = .ok found) :
    o.sources files stdin = .ok (found.map fun p => (p.text, files.read p)) := by
  rw [sources, h, hfound]
  rfl

/-- The sources cannot be told if and only if a given path makes the search for them fail. -/
theorem exists_sources_error_iff :
    (∃ failure, o.sources files stdin = .error failure) ↔
      o.stdin = false ∧ ∃ p ∈ o.paths, ∃ failure, files.Blocked o.noIgnore p failure := by
  cases hstdin : o.stdin with
  | true =>
    rw [sources_of_stdin hstdin]
    simp
  | false =>
    rw [← Files.exists_discover_error_iff, sources, hstdin]
    cases files.discover o.noIgnore o.paths with
    | error failure => simp [bind, Except.bind]
    | ok found => simp [bind, Except.bind, pure, Except.pure]

end Options

end ModuleScan
