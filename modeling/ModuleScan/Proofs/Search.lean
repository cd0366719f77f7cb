/-
  ModuleScan/Proofs/Search.lean
  =============================
  **A search finds exactly the right files.**

  A search of a directory is right about each entry, and so about all of them
  (`searchNode_answers`).  So a given path stands for itself or for the source files
  below it, and nothing but a path that leads nowhere or a directory whose path is
  too long can stop a search (`searchPath_answers`).  Given paths are searched one
  after the other, and the first that fails ends the search (`discover_finds`).
-/
import Mathlib.Data.List.Forall2
import ModuleScan.Proofs.LongPaths
import ModuleScan.Proofs.PathOrder

namespace ModuleScan

namespace Files

/-! ### Right answers -/

/-- A search gives exactly what is to be found, if nothing can stop it, and otherwise
    something that stops it. -/
def Answers (result : Except (Path × ReadFailure) (List Path)) (found : Path → Prop)
    (blocked : Path × ReadFailure → Prop) : Prop :=
  match result with
  | .ok paths => (∀ f, f ∈ paths ↔ found f) ∧ ∀ failure, ¬ blocked failure
  | .error failure => blocked failure

theorem Answers.congr {result : Except (Path × ReadFailure) (List Path)}
    {found found' : Path → Prop} {blocked blocked' : Path × ReadFailure → Prop}
    (h : Answers result found blocked) (hfound : ∀ f, found f ↔ found' f)
    (hblocked : ∀ failure, blocked failure ↔ blocked' failure) :
    Answers result found' blocked' := by
  rwa [← funext fun f => propext (hfound f), ← funext fun failure => propext (hblocked failure)]

/-- A search succeeds if and only if nothing can stop it. -/
theorem Answers.exists_ok_iff {result : Except (Path × ReadFailure) (List Path)}
    {found : Path → Prop} {blocked : Path × ReadFailure → Prop}
    (h : Answers result found blocked) :
    (∃ paths, result = .ok paths) ↔ ∀ failure, ¬ blocked failure := by
  cases result with
  | ok paths => exact iff_of_true ⟨paths, rfl⟩ h.2
  | error failure => exact iff_of_false nofun fun hnot => hnot failure h

theorem answers_nil : Answers (.ok []) (fun _ => False) fun _ => False :=
  ⟨fun _ => List.mem_nil_iff _, fun _ => id⟩

theorem Answers.append {result result' : Except (Path × ReadFailure) (List Path)}
    {found found' : Path → Prop} {blocked blocked' : Path × ReadFailure → Prop}
    (h : Answers result found blocked) (h' : Answers result' found' blocked') :
    Answers (do let paths ← result; let others ← result'; return paths ++ others)
      (fun f => found f ∨ found' f) fun failure => blocked failure ∨ blocked' failure := by
  cases result with
  | error failure => exact Or.inl h
  | ok paths =>
    cases result' with
    | error failure => exact Or.inr h'
    | ok others =>
      refine ⟨fun f => ?_, fun failure => ?_⟩
      · change f ∈ paths ++ others ↔ found f ∨ found' f
        rw [List.mem_append, h.1, h'.1]
      · rintro (hb | hb)
        · exact h.2 failure hb
        · exact h'.2 failure hb

/-! ### Directories -/

variable (files : Files) (noIgnore : Bool)

/-- Whether a search goes down these names. -/
def Enters (names : List OsString) : Prop :=
  noIgnore = true ∨ ∀ name ∈ names, isIgnored name = false

/-- A source file that a search from `p` on finds, at a node or below. -/
def Finds (p : Path) (node : Node) (f : Path) : Prop :=
  ∃ names leaf, node.Descends names leaf ∧ leaf.isDirectory = false ∧ Enters noIgnore names ∧
    f = p.below names ∧ f.isSource = true ∧ files.isFile f = true

/-- A directory, at a node or below, that a search from `p` on comes to and cannot list. -/
def StopsAt (p : Path) (node : Node) (failure : Path × ReadFailure) : Prop :=
  ∃ names entries, node.Descends names (.directory entries) ∧ Enters noIgnore names ∧
    failure.1 = p.below names ∧ files.lookup failure.1 = .error failure.2

variable {files noIgnore}

theorem enters_nil : Enters noIgnore [] := Or.inr nofun

theorem enters_cons {name : OsString} {names : List OsString} :
    Enters noIgnore (name :: names) ↔ Enters noIgnore [name] ∧ Enters noIgnore names := by
  unfold Enters
  rw [List.forall_mem_cons, List.forall_mem_singleton]
  tauto

theorem enters_singleton {name : OsString} :
    Enters noIgnore [name] ↔ (!noIgnore && isIgnored name) = false := by
  unfold Enters
  rw [List.forall_mem_singleton]
  cases noIgnore <;> simp

/-- What is found below a directory is found at one of its entries. -/
theorem finds_directory {p : Path} {entries : List (OsString × Node)} {f : Path} :
    files.Finds noIgnore p (.directory entries) f ↔
      ∃ entry ∈ entries, Enters noIgnore [entry.1] ∧
        files.Finds noIgnore (p.join entry.1) entry.2 f := by
  constructor
  · rintro ⟨_, leaf, hdescends, hleaf, henters, hf⟩
    cases hdescends with
    | here => cases hleaf
    | down hmem hdescends =>
      rw [enters_cons] at henters
      exact ⟨_, hmem, henters.1, _, leaf, hdescends, hleaf, henters.2, hf⟩
  · rintro ⟨entry, hmem, henters, names, leaf, hdescends, hleaf, henters', hf⟩
    exact ⟨entry.1 :: names, leaf, .down hmem hdescends, hleaf, enters_cons.mpr ⟨henters, henters'⟩,
      hf⟩

theorem stopsAt_directory {p : Path} {entries : List (OsString × Node)}
    {failure : Path × ReadFailure} :
    files.StopsAt noIgnore p (.directory entries) failure ↔
      (failure.1 = p ∧ files.lookup p = .error failure.2) ∨
        ∃ entry ∈ entries, Enters noIgnore [entry.1] ∧
          files.StopsAt noIgnore (p.join entry.1) entry.2 failure := by
  constructor
  · rintro ⟨_, children, hdescends, henters, hpath, hlookup⟩
    cases hdescends with
    | here =>
      rw [hpath, Path.below_nil] at hlookup
      exact Or.inl ⟨hpath, hlookup⟩
    | down hmem hdescends =>
      rw [enters_cons] at henters
      exact Or.inr ⟨_, hmem, henters.1, _, children, hdescends, henters.2, hpath, hlookup⟩
  · rintro (⟨hpath, hlookup⟩ | ⟨entry, hmem, henters, names, children, hdescends, henters', hrest⟩)
    · rw [← hpath] at hlookup
      exact ⟨[], entries, .here, enters_nil, hpath, hlookup⟩
    · exact ⟨entry.1 :: names, children, .down hmem hdescends,
        enters_cons.mpr ⟨henters, henters'⟩, hrest⟩

/-- A node that is no directory is found itself or not at all, and stops nothing. -/
theorem answers_leaf (p : Path) {node : Node} (hnode : node.isDirectory = false) :
    Answers (.ok (if p.isSource && files.isFile p then [p] else []))
      (files.Finds noIgnore p node) (files.StopsAt noIgnore p node) := by
  have hfinds : ∀ f, files.Finds noIgnore p node f ↔
      f = p ∧ p.isSource = true ∧ files.isFile p = true := by
    intro f
    constructor
    · rintro ⟨names, leaf, hdescends, hleaf, henters, rfl, hsource, hfile⟩
      cases hdescends with
      | here => exact ⟨rfl, hsource, hfile⟩
      | down hmem hdescends => cases hnode
    · rintro ⟨rfl, hsource, hfile⟩
      exact ⟨[], node, .here, hnode, enters_nil, rfl, hsource, hfile⟩
  refine ⟨fun f => ?_, ?_⟩
  · rw [hfinds]
    split
    next hboth =>
      rw [Bool.and_eq_true] at hboth
      simp [hboth]
    next hboth =>
      rw [Bool.and_eq_true] at hboth
      simp [hboth]
  · rintro failure ⟨names, entries, hdescends, -⟩
    cases hdescends with
    | here => cases hnode
    | down hmem hdescends => cases hnode

mutual

theorem searchNode_answers (p : Path) : (node : Node) →
    Answers (files.searchNode p noIgnore node) (files.Finds noIgnore p node)
      (files.StopsAt noIgnore p node)
  | .file _ => answers_leaf p rfl
  | .link _ => answers_leaf p rfl
  | .directory entries => by
    have hentries := searchEntries_answers p entries
    rw [searchNode]
    -- A directory that cannot be looked up stops the search before its entries do.
    cases hlookup : files.lookup p with
    | error failure => exact stopsAt_directory.mpr (Or.inl ⟨rfl, hlookup⟩)
    | ok child =>
      refine hentries.congr (fun f => finds_directory.symm) fun failure => ?_
      rw [stopsAt_directory, hlookup]
      simp only [reduceCtorEq, and_false, false_or]

theorem searchEntries_answers (p : Path) : (entries : List (OsString × Node)) →
    Answers (files.searchEntries p noIgnore entries)
      (fun f => ∃ entry ∈ entries, Enters noIgnore [entry.1] ∧
        files.Finds noIgnore (p.join entry.1) entry.2 f)
      fun failure => ∃ entry ∈ entries, Enters noIgnore [entry.1] ∧
        files.StopsAt noIgnore (p.join entry.1) entry.2 failure
  | [] => answers_nil.congr (fun _ => by simp) fun _ => by simp
  | (name, node) :: entries => by
    have hnode := searchNode_answers (p.join name) node
    have hentries := searchEntries_answers p entries
    rw [searchEntries]
    cases hignored : !noIgnore && isIgnored name with
    | true =>
      have hnot : ¬ Enters noIgnore [name] := by
        rw [enters_singleton, hignored]
        exact Bool.true_eq_false.mp
      refine (answers_nil.append hentries).congr (fun f => ?_) fun failure => ?_
      · simp [hnot]
      · simp [hnot]
    | false =>
      have henters : Enters noIgnore [name] := enters_singleton.mpr hignored
      refine (hnode.append hentries).congr (fun f => ?_) fun failure => ?_
      · simp [henters]
      · simp [henters]

end

end Files

/-! ### Given paths -/

namespace Tree

/-- What a given path stands for: itself if it leads to no directory, and otherwise the
    source files below.  An entry is a source file if it is no directory, its name is
    that of one, and its path leads to a file. -/
inductive Yields (tree : Tree) (noIgnore : Bool) (p : Path) : Path → Prop
  | given {node : Node} : tree.files.lookup p = .ok node → node.isDirectory = false →
      tree.Yields noIgnore p p
  | below {names : List OsString} {last : OsString} {node : Node} :
      tree.Leads p (names ++ [last]) node → node.isDirectory = false → IsSourceName last →
      Files.Enters noIgnore (names ++ [last]) →
      tree.files.isFile (p.below (names ++ [last])) = true →
      tree.Yields noIgnore p (p.below (names ++ [last]))

/-- How the search of a given path fails: the path leads nowhere, or it leads to a
    directory that cannot be listed to the end, since the path of a directory below it is
    too long for the system. -/
inductive Fails (tree : Tree) (noIgnore : Bool) (p : Path) : Path × ReadFailure → Prop
  | nowhere {failure : ReadFailure} : tree.files.lookup p = .error failure →
      tree.Fails noIgnore p (p, failure)
  | tooLong {names : List OsString} {entries : List (OsString × Node)} :
      tree.Leads p names (.directory entries) → Files.Enters noIgnore names →
      Node.maxPath ≤ (p.below names).bytes.length →
      tree.Fails noIgnore p (p.below names, .nameTooLong)

variable {tree : Tree} {noIgnore : Bool} {p : Path}

theorem yields_directory {entries : List (OsString × Node)}
    (hp : tree.files.lookup p = .ok (.directory entries)) {f : Path} :
    tree.Yields noIgnore p f ↔ tree.files.Finds noIgnore p (.directory entries) f := by
  constructor
  · intro h
    cases h with
    | given hlookup hnode =>
      obtain rfl := Except.ok.inj (hp.symm.trans hlookup)
      cases hnode
    | @below names last node hleads hnode hsource henters hfile =>
      have hlast := hleads.isEntryName last (List.mem_append_right _ List.mem_cons_self)
      refine ⟨_, node, (leads_iff hp).mp hleads, hnode, henters, rfl, ?_, hfile⟩
      rw [Path.below_append]
      exact (Path.isSource_join _ hlast).mpr hsource
  · rintro ⟨names, leaf, hdescends, hleaf, henters, rfl, hsource, hfile⟩
    have hleads := (leads_iff hp).mpr hdescends
    cases names using List.reverseRecOn with
    | nil =>
      cases hdescends with
      | here => cases hleaf
    | append_singleton names last =>
      have hlast := hleads.isEntryName last (List.mem_append_right _ List.mem_cons_self)
      refine .below hleads hleaf ?_ henters hfile
      rw [Path.below_append] at hsource
      exact (Path.isSource_join _ hlast).mp hsource

theorem fails_directory {entries : List (OsString × Node)}
    (hp : tree.files.lookup p = .ok (.directory entries)) {failure : Path × ReadFailure} :
    tree.Fails noIgnore p failure ↔
      tree.files.StopsAt noIgnore p (.directory entries) failure := by
  constructor
  · intro h
    cases h with
    | nowhere hlookup =>
      rw [hp] at hlookup
      cases hlookup
    | @tooLong names children hleads henters hlong =>
      exact ⟨names, children, (leads_iff hp).mp hleads, henters, rfl,
        hleads.lookup_eq_error.mpr ⟨hlong, rfl⟩⟩
  · obtain ⟨q, cause⟩ := failure
    rintro ⟨names, children, hdescends, henters, rfl, hlookup⟩
    have hleads := (leads_iff hp).mpr hdescends
    obtain ⟨hlong, rfl⟩ := hleads.lookup_eq_error.mp hlookup
    exact .tooLong hleads henters hlong

/-- A path from which names lead down leads to a directory. -/
theorem Leads.exists_lookup {names : List OsString} {node : Node} (h : tree.Leads p names node) :
    ∃ entries, tree.files.lookup p = .ok (.directory entries) := by
  obtain ⟨location, entries, hlocate, hat, -⟩ := h
  exact ⟨entries, lookup_eq_ok.mpr ⟨location, hlocate, hat⟩⟩

/-- Nothing lies below a path that leads to no directory. -/
theorem not_leads {node other : Node} {names : List OsString} (hp : tree.files.lookup p = .ok node)
    (hnode : node.isDirectory = false) : ¬ tree.Leads p names other := by
  intro hleads
  obtain ⟨entries, hlookup⟩ := hleads.exists_lookup
  cases hp.symm.trans hlookup
  cases hnode

/-- A given path that leads to no directory stands for itself. -/
theorem answers_given {node : Node} (hp : tree.files.lookup p = .ok node)
    (hnode : node.isDirectory = false) :
    Files.Answers (.ok [p]) (tree.Yields noIgnore p) (tree.Fails noIgnore p) := by
  refine ⟨fun f => ?_, fun failure hfails => ?_⟩
  · rw [List.mem_singleton]
    constructor
    · rintro rfl
      exact .given hp hnode
    · intro hyields
      cases hyields with
      | given hlookup hother => rfl
      | below hleads => exact absurd hleads (not_leads hp hnode)
  · cases hfails with
    | nowhere hlookup => cases hp.symm.trans hlookup
    | tooLong hleads => exact not_leads hp hnode hleads

theorem searchPath_answers (tree : Tree) (noIgnore : Bool) (p : Path) :
    Files.Answers (tree.files.searchPath noIgnore p) (tree.Yields noIgnore p)
      (tree.Fails noIgnore p) := by
  rw [Files.searchPath]
  cases hp : tree.files.lookup p with
  | error failure => exact .nowhere hp
  | ok node =>
    cases node with
    | file content => exact answers_given hp rfl
    | link target => exact answers_given hp rfl
    | directory entries =>
      have hfails : ∀ failure, tree.Fails noIgnore p failure ↔ ∃ entry ∈ entries,
          Files.Enters noIgnore [entry.1] ∧
            tree.files.StopsAt noIgnore (p.join entry.1) entry.2 failure := by
        intro failure
        rw [fails_directory hp, Files.stopsAt_directory, hp]
        simp only [reduceCtorEq, and_false, false_or]
      have hyields : ∀ f, tree.Yields noIgnore p f ↔ ∃ entry ∈ entries,
          Files.Enters noIgnore [entry.1] ∧
            tree.files.Finds noIgnore (p.join entry.1) entry.2 f := by
        intro f
        rw [yields_directory hp, Files.finds_directory]
      exact (Files.searchEntries_answers p entries).congr (fun f => (hyields f).symm)
        fun failure => (hfails failure).symm

/-- A link to a file is found, and a hidden entry is not. -/
example :
    let root : Node := .directory [("src", .directory [("b.js", .link "/x.ts"),
      (".c.js", .file .empty)]), ("x.ts", .file .empty)]
    (root.files ["src"]).searchPath false ⟨"../"⟩ = .ok [⟨"../src/b.js"⟩, ⟨"../x.ts"⟩] := by
  decide +kernel

theorem mem_iff_of_searchPath {found : List Path}
    (h : tree.files.searchPath noIgnore p = .ok found) (f : Path) :
    f ∈ found ↔ tree.Yields noIgnore p f := by
  have hanswers := searchPath_answers tree noIgnore p
  rw [h] at hanswers
  exact hanswers.1 f

/-- The search of a path succeeds if and only if nothing makes it fail. -/
theorem exists_searchPath_iff :
    (∃ found, tree.files.searchPath noIgnore p = .ok found) ↔
      ∀ failure, ¬ tree.Fails noIgnore p failure :=
  (searchPath_answers tree noIgnore p).exists_ok_iff

end Tree

/-! ### One path after the other -/

section Sequence

variable {α β ε : Type} {f : α → Except ε β}

theorem bind_eq_ok {x : Except ε α} {b : β} : x >>= f = .ok b ↔ ∃ a, x = .ok a ∧ f a = .ok b := by
  cases x <;> simp [bind, Except.bind]

theorem mapM_eq_ok {l : List α} {results : List β} :
    l.mapM f = .ok results ↔ List.Forall₂ (fun a b => f a = .ok b) l results := by
  induction l generalizing results with
  | nil =>
    rw [List.mapM_nil, List.forall₂_nil_left_iff]
    exact ⟨fun h => (Except.ok.inj h).symm, fun h => h ▸ rfl⟩
  | cons a l ih =>
    rw [List.mapM_cons, List.forall₂_cons_left_iff, bind_eq_ok]
    refine exists_congr fun b => ?_
    simp only [bind_eq_ok, ih]
    constructor
    · rintro ⟨hb, bs, hbs, heq⟩
      exact ⟨bs, hb, hbs, (Except.ok.inj heq).symm⟩
    · rintro ⟨bs, hb, hbs, rfl⟩
      exact ⟨hb, bs, hbs, rfl⟩

/-- A sequence fails with the failure of its first member that fails. -/
theorem mapM_eq_error {l : List α} {e : ε} (h : l.mapM f = .error e) :
    ∃ before a after, l = before ++ a :: after ∧ (∀ b ∈ before, ∃ result, f b = .ok result) ∧
      f a = .error e := by
  induction l with
  | nil => cases h
  | cons a l ih =>
    rw [List.mapM_cons] at h
    cases ha : f a with
    | error e' =>
      rw [ha] at h
      cases h
      exact ⟨[], a, l, rfl, nofun, ha⟩
    | ok b =>
      cases hl : l.mapM f with
      | ok bs =>
        rw [ha, hl] at h
        cases h
      | error e' =>
        rw [ha, hl] at h
        cases h
        obtain ⟨before, a', after, rfl, hbefore, ha'⟩ := ih hl
        exact ⟨a :: before, a', after, rfl, List.forall_mem_cons.mpr ⟨⟨b, ha⟩, hbefore⟩, ha'⟩

theorem exists_mapM_ok_iff {l : List α} :
    (∃ results, l.mapM f = .ok results) ↔ ∀ a ∈ l, ∃ b, f a = .ok b := by
  cases h : l.mapM f with
  | ok results =>
    have hall : List.Forall₂ (fun a b => (∃ b, f a = .ok b) ∧ f a = .ok b) l results :=
      (mapM_eq_ok.mp h).imp fun a b hb => ⟨⟨b, hb⟩, hb⟩
    exact iff_of_true ⟨results, rfl⟩ ((List.forall₂_and_left _ _).mp hall).1
  | error e =>
    obtain ⟨before, a, after, rfl, -, ha⟩ := mapM_eq_error h
    refine iff_of_false (by simp) ?_
    intro hall
    obtain ⟨b, hb⟩ := hall a (List.mem_append_right _ List.mem_cons_self)
    cases ha.symm.trans hb

end Sequence

theorem Files.discover_eq_ok {files : Files} {noIgnore : Bool} {paths found : List Path} :
    files.discover noIgnore paths = .ok found ↔
      ∃ results, List.Forall₂ (fun p result => files.searchPath noIgnore p = .ok result)
        paths results ∧ found = Path.sorted results.flatten := by
  rw [discover, bind_eq_ok]
  refine exists_congr fun results => ?_
  rw [mapM_eq_ok]
  exact and_congr_right fun _ => ⟨fun h => (Except.ok.inj h).symm, fun h => h ▸ rfl⟩

/-- A search of all given paths succeeds if and only if the search of each does. -/
theorem Files.exists_discover_ok_iff {files : Files} {noIgnore : Bool} {paths : List Path} :
    (∃ found, files.discover noIgnore paths = .ok found) ↔
      ∀ p ∈ paths, ∃ found, files.searchPath noIgnore p = .ok found := by
  rw [← exists_mapM_ok_iff]
  constructor
  · rintro ⟨found, h⟩
    obtain ⟨results, hresults, -⟩ := discover_eq_ok.mp h
    exact ⟨results, mapM_eq_ok.mpr hresults⟩
  · rintro ⟨results, h⟩
    exact ⟨Path.sorted results.flatten, discover_eq_ok.mpr ⟨results, mapM_eq_ok.mp h, rfl⟩⟩

namespace Tree

variable {tree : Tree} {noIgnore : Bool} {paths : List Path}

/-- What all given paths stand for is what is found before it is sorted. -/
theorem mem_flatten_iff {results : List (List Path)}
    (h : List.Forall₂ (fun p result => tree.files.searchPath noIgnore p = .ok result)
      paths results) (f : Path) :
    f ∈ results.flatten ↔ ∃ p ∈ paths, tree.Yields noIgnore p f := by
  induction h with
  | nil => simp
  | cons hp _ ih =>
    rw [List.flatten_cons, List.mem_append, ih, mem_iff_of_searchPath hp, List.exists_mem_cons_iff]

theorem exists_discover_iff :
    (∃ found, tree.files.discover noIgnore paths = .ok found) ↔
      ∀ p ∈ paths, ∀ failure, ¬ tree.Fails noIgnore p failure := by
  rw [Files.exists_discover_ok_iff]
  exact forall₂_congr fun p _ => exists_searchPath_iff

/-- What is found is what the given paths stand for. -/
theorem found_of_discover {found : List Path}
    (h : tree.files.discover noIgnore paths = .ok found) :
    (∀ f ∈ found, ∃ p ∈ paths, tree.Yields noIgnore p f) ∧
      ∀ f : Path, (∃ g ∈ found, g.same f = true) ↔
        ∃ p ∈ paths, ∃ g, tree.Yields noIgnore p g ∧ g.same f = true := by
  obtain ⟨results, hresults, rfl⟩ := Files.discover_eq_ok.mp h
  constructor
  · intro f hf
    exact (mem_flatten_iff hresults f).mp (List.mem_of_find?_eq_some (Path.mem_sorted.mp hf))
  · intro f
    rw [Path.exists_same_sorted]
    constructor
    · rintro ⟨g, hg, hsame⟩
      obtain ⟨p, hp, hyields⟩ := (mem_flatten_iff hresults g).mp hg
      exact ⟨p, hp, g, hyields, hsame⟩
    · rintro ⟨p, hp, g, hyields, hsame⟩
      exact ⟨g, (mem_flatten_iff hresults g).mpr ⟨p, hp, hyields⟩, hsame⟩

end Tree

end ModuleScan
