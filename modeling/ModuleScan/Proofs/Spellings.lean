/-
  ModuleScan/Proofs/Spellings.lean
  ================================
  **Files that are found once.**

  In a tree without links a path leads where its components say, whatever the tree: the
  root leads to the root, a leading dot leads nowhere else, and two dots take back the
  name before them (`locate_eq_reduced`).  Paths are told apart by their components.  So
  a file is found once if the given paths spell alike what they share, and it is found a
  second time if one of them takes a detour, has a dot in front, or is absolute while
  another is not (`discover_distinct`).
-/
import Mathlib.Data.Set.List
import ModuleScan.Proofs.Search

namespace ModuleScan

/-! ### Where components lead -/

/-- Where a component leads from a location if the tree has it. -/
def Component.move (location : Location) : Component → Location
  | .root => []
  | .here => location
  | .parent => location.dropLast
  | .name entry => location ++ [entry]

theorem Component.eq_of_ofPiece? {piece : OsString} {component : Component}
    (h : ofPiece? piece = some component) : component = .parent ∨ component = .name piece := by
  unfold ofPiece? at h
  split at h
  · cases h
  · split at h
    · exact Or.inl (Option.some.inj h).symm
    · exact Or.inr (Option.some.inj h).symm

namespace Path

/-- The names that are left of a path, behind those of the working directory if the path
    is relative: a leading dot is dropped, and for two dots the name before them, if there
    is one. -/
def reduced (here : Location) (p : Path) : Location := p.components.foldl Component.move here

/-- What the paths share they spell alike: if one leads to or into what another leads to,
    its components are those of the other and names behind them. -/
def SpelledAlike (here : Location) (paths : List Path) : Prop :=
  ∀ p ∈ paths, ∀ q ∈ paths, ∀ names, q.reduced here = p.reduced here ++ names →
    q.components = p.components ++ names.map .name

variable {here : Location}

theorem foldl_move_names (location names : Location) :
    (names.map Component.name).foldl Component.move location = location ++ names := by
  induction names generalizing location with
  | nil => exact (List.append_nil _).symm
  | cons name names ih =>
    rw [List.map_cons, List.foldl_cons, ih, Component.move, List.append_assoc]
    rfl

theorem reduced_of_components {p q : Path} {names : List OsString}
    (h : q.components = p.components ++ names.map .name) :
    q.reduced here = p.reduced here ++ names := by
  rw [reduced, h, List.foldl_append, foldl_move_names]
  rfl

/-- Of what stands before all names, only the root matters. -/
theorem reduced_eq (here : Location) (p : Path) : p.reduced here =
    (p.pieces.filterMap Component.ofPiece?).foldl Component.move (p.origin here) := by
  have hstart : p.start?.toList.foldl Component.move here = p.origin here := by
    unfold start? origin
    cases p.isAbsolute with
    | true => rfl
    | false => cases p.pieces.head? == some ("." : OsString) <;> rfl
  rw [reduced, components, List.foldl_append, hstart]

/-- A path without two dots is made of names behind what it starts with. -/
theorem exists_names_of_no_parent {p : Path} (h : .parent ∉ p.components) (here : Location) :
    ∃ names, p.components = p.start?.toList ++ names.map .name ∧
      p.reduced here = p.origin here ++ names := by
  have hnames : p.pieces.filterMap Component.ofPiece? ∈ Set.range (List.map .name) := by
    rw [Set.range_list_map]
    intro component hmem
    obtain ⟨piece, -, hpiece⟩ := List.mem_filterMap.mp hmem
    rcases Component.eq_of_ofPiece? hpiece with rfl | rfl
    · exact absurd (List.mem_append_right _ hmem) h
    · exact ⟨piece, rfl⟩
  obtain ⟨names, hnames⟩ := hnames
  refine ⟨names, ?_, ?_⟩
  · rw [components, ← hnames]
  · rw [reduced_eq, ← hnames, foldl_move_names]

/-- Paths that start with the same are walked from the same location. -/
theorem origin_eq_of_start? {p q : Path} (h : p.start? = q.start?) :
    p.origin here = q.origin here := by
  have hroot : ∀ r : Path, r.isAbsolute = true ↔ r.start? = some .root := by
    intro r
    unfold start?
    cases r.isAbsolute with
    | true => simp
    | false => cases r.pieces.head? == some "." <;> simp
  have habsolute : p.isAbsolute = q.isAbsolute := by
    rw [Bool.eq_iff_iff, hroot, hroot, h]
  rw [origin, origin, habsolute]

/-- Paths without two dots are spelled alike if all of them are absolute, or all of them
    begin with a dot, or none is and none does. -/
theorem spelledAlike_of_no_parent {paths : List Path}
    (hparent : ∀ p ∈ paths, .parent ∉ p.components)
    (hstart : ∀ p ∈ paths, ∀ q ∈ paths, p.start? = q.start?) : SpelledAlike here paths := by
  intro p hp q hq names hreduced
  obtain ⟨front, hpath, hfront⟩ := exists_names_of_no_parent (hparent p hp) here
  obtain ⟨all, hpath', hall⟩ := exists_names_of_no_parent (hparent q hq) here
  rw [hfront, hall, origin_eq_of_start? (hstart q hq p hp), List.append_assoc,
    List.append_cancel_left_eq] at hreduced
  rw [hpath, hpath', hreduced, hstart q hq p hp, List.map_append, List.append_assoc]

end Path

/-! ### Trees without links -/

namespace Node

mutual

def LinkFree : Node → Prop
  | .file _ => True
  | .link _ => False
  | .directory entries => LinkFreeEntries entries

def LinkFreeEntries : List (OsString × Node) → Prop
  | [] => True
  | (_, node) :: entries => node.LinkFree ∧ LinkFreeEntries entries

end

variable {root : Node} {location target : Location}

theorem LinkFreeEntries.lookup {entries : List (OsString × Node)} (h : LinkFreeEntries entries)
    {name : OsString} {child : Node} (hlookup : entries.lookup name = some child) :
    child.LinkFree := by
  induction entries with
  | nil => cases hlookup
  | cons entry entries ih =>
    obtain ⟨hnode, hentries⟩ := h
    rw [List.lookup_cons] at hlookup
    cases hname : name == entry.1 with
    | true =>
      rw [hname] at hlookup
      exact Option.some.inj hlookup ▸ hnode
    | false =>
      rw [hname] at hlookup
      exact ih hentries hlookup

/-- What lies in a tree without links has none. -/
theorem LinkFree.descend {child : Node} (h : root.LinkFree)
    (hat : root.at? location = some child) : child.LinkFree := by
  induction location generalizing root with
  | nil =>
    obtain rfl := Option.some.inj ((at?_nil root).symm.trans hat)
    exact h
  | cons name location ih =>
    cases root with
    | directory entries =>
      obtain ⟨next, hlookup, hnext⟩ := Option.bind_eq_some_iff.mp hat
      exact ih (LinkFreeEntries.lookup h hlookup) hnext
    | file content => cases hat
    | link link => cases hat

/-- Where there are no links, a piece leads where its component says, or nowhere. -/
theorem LinkFree.step_moves_or_fails (h : root.LinkFree) (location : Location) (piece : OsString) :
    root.step location piece =
        .moved ((Component.ofPiece? piece).elim location (Component.move location)) ∨
      ∃ failure, root.step location piece = .failed failure := by
  unfold step Component.ofPiece?
  split
  next entries hat =>
    split
    · exact Or.inl rfl
    · split
      · exact Or.inl rfl
      · split
        · exact Or.inr ⟨_, rfl⟩
        · unfold Step.ofEntry
          split
          · exact Or.inr ⟨_, rfl⟩
          next link hlookup =>
            rw [← at?_concat hat] at hlookup
            exact absurd (h.descend hlookup) id
          · exact Or.inl rfl
  · exact Or.inr ⟨_, rfl⟩

theorem LinkFree.walk_eq (h : root.LinkFree)
    {atLink : Location → Path → List OsString → Except ReadFailure Location}
    {pieces : List OsString}
    (hwalk : root.walk atLink location pieces = .ok target) :
    (pieces.filterMap Component.ofPiece?).foldl Component.move location = target := by
  induction pieces generalizing location with
  | nil => exact Except.ok.inj hwalk
  | cons piece pieces ih =>
    rw [walk_cons] at hwalk
    rcases h.step_moves_or_fails location piece with hstep | ⟨failure, hstep⟩
    · rw [hstep] at hwalk
      rw [← ih hwalk, List.filterMap_cons]
      cases Component.ofPiece? piece with
      | none => rfl
      | some component => rfl
    · rw [hstep] at hwalk
      cases hwalk

/-- Where there are no links, a path that leads somewhere leads where its components say. -/
theorem LinkFree.locate_eq_reduced (h : root.LinkFree) {here : Location} {p : Path}
    (hlocate : root.locate here p = .ok location) : location = p.reduced here := by
  obtain ⟨-, hfollow⟩ := locate_eq_ok hlocate
  rw [Path.reduced_eq]
  exact (h.walk_eq hfollow).symm

end Node

/-! ### What is found -/

namespace Tree

variable {tree : Tree} {noIgnore : Bool} {p f : Path} {paths found : List Path}

/-- The components of what a given path stands for are its own and names behind them. -/
theorem Yields.exists_components (h : tree.Yields noIgnore p f) :
    ∃ names : List OsString, f.components = p.components ++ names.map .name := by
  cases h with
  | given => exact ⟨[], (List.append_nil _).symm⟩
  | below hleads => exact ⟨_, Path.components_below p hleads.isEntryName⟩

/-- Where there are no links, a given path stands for files. -/
theorem Yields.exists_file (h : tree.Yields noIgnore p f) (hlinks : tree.root.LinkFree) :
    ∃ content, tree.files.lookup f = .ok (.file content) := by
  cases h with
  | @given node hlookup hnode =>
    cases node with
    | file content => exact ⟨content, hlookup⟩
    | directory entries => cases hnode
    | link link =>
      obtain ⟨location, -, hat⟩ := lookup_eq_ok.mp hlookup
      exact absurd (hlinks.descend hat) id
  | below _ _ _ _ hfile =>
    unfold Files.isFile at hfile
    split at hfile
    next content hlookup => exact ⟨content, hlookup⟩
    · cases hfile

theorem exists_file_of_discover (hlinks : tree.root.LinkFree)
    (hfound : tree.files.discover noIgnore paths = .ok found) (hf : f ∈ found) :
    ∃ content, tree.files.lookup f = .ok (.file content) := by
  obtain ⟨p, hp, hyields⟩ := (found_of_discover hfound).1 f hf
  exact hyields.exists_file hlinks

/-- Where there are no links, what is found leads to one file if and only if the same names
    are left of it. -/
theorem locate_eq_iff {g : Path} (hlinks : tree.root.LinkFree)
    (hfound : tree.files.discover noIgnore paths = .ok found) (hf : f ∈ found) (hg : g ∈ found) :
    tree.locate f = tree.locate g ↔
      f.reduced tree.workingDirectory = g.reduced tree.workingDirectory := by
  have hlocate : ∀ q ∈ found, tree.locate q = .ok (q.reduced tree.workingDirectory) := by
    intro q hq
    obtain ⟨content, hlookup⟩ := exists_file_of_discover hlinks hfound hq
    obtain ⟨location, hlocate, -⟩ := lookup_eq_ok.mp hlookup
    rw [hlocate, hlinks.locate_eq_reduced hlocate]
  rw [hlocate f hf, hlocate g hg, Except.ok.injEq]

/-- What given paths that are spelled alike stand for is spelled alike. -/
theorem components_eq_of_yields {here : Location} {q g : Path}
    (halike : Path.SpelledAlike here paths) (hp : p ∈ paths) (hq : q ∈ paths)
    (hf : tree.Yields noIgnore p f) (hg : tree.Yields noIgnore q g)
    (hreduced : f.reduced here = g.reduced here) : f.components = g.components := by
  obtain ⟨names, hnames⟩ := hf.exists_components
  obtain ⟨names', hnames'⟩ := hg.exists_components
  rw [Path.reduced_of_components hnames, Path.reduced_of_components hnames'] at hreduced
  -- of the given paths one leads to or into what the other leads to
  rcases List.append_eq_append_iff.mp hreduced with ⟨between, hq', rfl⟩ | ⟨between, hp', rfl⟩
  · rw [hnames, hnames', halike p hp q hq between hq', List.map_append, List.append_assoc]
  · rw [hnames, hnames', halike q hq p hp between hp', List.map_append, List.append_assoc]

theorem pairwise_locate_ne (hlinks : tree.root.LinkFree)
    (hfound : tree.files.discover noIgnore paths = .ok found)
    (halike : Path.SpelledAlike tree.workingDirectory paths) :
    found.Pairwise fun f g => tree.locate f ≠ tree.locate g := by
  have hyields := (found_of_discover hfound).1
  have hdistinct : found.Pairwise Path.Before := by
    obtain ⟨results, -, rfl⟩ := Files.discover_eq_ok.mp hfound
    exact Path.pairwise_sorted results.flatten
  apply hdistinct.imp_of_mem
  intro f g hf hg hbefore hlocate
  obtain ⟨p, hp, hyieldsf⟩ := hyields f hf
  obtain ⟨q, hq, hyieldsg⟩ := hyields g hg
  have hreduced := (locate_eq_iff hlinks hfound hf hg).mp hlocate
  have hsame := Path.same_iff.mpr (components_eq_of_yields halike hp hq hyieldsf hyieldsg hreduced)
  rw [hbefore.same_eq] at hsame
  cases hsame

/-- What the given paths stand for one after the other is found as it is, but for what
    repeats, if it is in order. -/
theorem discover_of_ordered {files : Files} {results : List (List Path)}
    (hresults : paths.mapM (files.searchPath noIgnore) = .ok results)
    (hordered : results.flatten.Pairwise fun p q => p.le q = true) :
    files.discover noIgnore paths = .ok (Path.dropRepeated results.flatten) := by
  rw [← List.mergeSort_of_pairwise hordered, Files.discover, hresults]
  rfl

/-- **A file is found once if it is spelled in one way.**  In a tree without links all that
    is found are files, and two paths that are found lead to one file if and only if the
    same names are left of them, from the root on, without a leading dot and without what
    two dots take back.  So no file is found twice if what the given paths share is spelled
    alike, however they overlap, and that is so without two dots if all of them start with
    the root, or all with a dot, or all with neither. -/
theorem discover_distinct (hlinks : tree.root.LinkFree)
    (hfound : tree.files.discover noIgnore paths = .ok found) :
    (∀ f ∈ found, ∃ content, tree.files.lookup f = .ok (.file content)) ∧
      (∀ f ∈ found, ∀ g ∈ found, tree.locate f = tree.locate g ↔
        f.reduced tree.workingDirectory = g.reduced tree.workingDirectory) ∧
      (Path.SpelledAlike tree.workingDirectory paths →
        found.Pairwise fun f g => tree.locate f ≠ tree.locate g) ∧
      ((∀ p ∈ paths, .parent ∉ p.components) →
        (∀ p ∈ paths, ∀ q ∈ paths, p.start? = q.start?) →
        found.Pairwise fun f g => tree.locate f ≠ tree.locate g) := by
  refine ⟨fun f hf => exists_file_of_discover hlinks hfound hf,
    fun f hf g hg => locate_eq_iff hlinks hfound hf hg, pairwise_locate_ne hlinks hfound, ?_⟩
  intro hparent hstart
  exact pairwise_locate_ne hlinks hfound (Path.spelledAlike_of_no_parent hparent hstart)

/-- Given paths may overlap, have slashes and dots that do not count, and lead out of the
    working directory. -/
theorem discover_distinct_overlapping :
    let root : Node := .directory [("src", .directory [("a.js", .file .empty),
      ("lib", .directory [("b.ts", .file .empty)])]), ("c.txt", .file .empty)]
    let paths : List Path := [⟨"/c.txt"⟩, ⟨"/src/./a.js"⟩, ⟨"/src"⟩, ⟨"//src//lib/"⟩]
    let found : List Path := [⟨"/c.txt"⟩, ⟨"/src/./a.js"⟩, ⟨"/src/lib/b.ts"⟩]
    ∃ tree : Tree, tree.root = root ∧ tree.workingDirectory = (["src", "lib"] : Location) ∧
      tree.root.LinkFree ∧ tree.files.discover false paths = .ok found ∧
      (∀ f ∈ found, ∃ content, tree.files.lookup f = .ok (.file content)) ∧
      (∀ f ∈ found, ∀ g ∈ found, tree.locate f = tree.locate g ↔
        f.reduced tree.workingDirectory = g.reduced tree.workingDirectory) ∧
      found.Pairwise fun f g => tree.locate f ≠ tree.locate g := by
  intro root paths found
  have hwell : root.WellFormed := by
    simp only [root, Node.WellFormed, Node.WellFormedEntries]
    decide
  let tree : Tree := ⟨root, ["src", "lib"], hwell, by decide⟩
  have hlinks : tree.root.LinkFree := by
    simp [tree, root, Node.LinkFree, Node.LinkFreeEntries]
  have hresults : paths.mapM ((root.files ["src", "lib"]).searchPath false) =
      .ok [[⟨"/c.txt"⟩], [⟨"/src/./a.js"⟩], [⟨"/src/a.js"⟩, ⟨"/src/lib/b.ts"⟩],
        [⟨"//src//lib/b.ts"⟩]] := by
    decide +kernel
  have hfound : tree.files.discover false paths = .ok found :=
    (discover_of_ordered hresults (by decide +kernel)).trans (by decide +kernel)
  obtain ⟨hfiles, hreduced, -, hdistinct⟩ := discover_distinct hlinks hfound
  exact ⟨tree, rfl, rfl, hlinks, hfound, hfiles, hreduced,
    hdistinct (by decide +kernel) (by decide +kernel)⟩

/-- A file is found from the root on, below the dot, under its own name, and with a detour. -/
theorem discover_four_spellings :
    let paths : List Path := [⟨"/home/a.js"⟩, ⟨"."⟩, ⟨"a.js"⟩, ⟨"lib/../a.js"⟩]
    let found : List Path := [⟨"/home/a.js"⟩, ⟨"./a.js"⟩, ⟨"a.js"⟩, ⟨"lib/../a.js"⟩]
    ∃ tree : Tree, tree.root.LinkFree ∧ tree.files.discover false paths = .ok found ∧
      ∀ f ∈ found, tree.locate f = .ok ["home", "a.js"] := by
  intro paths found
  let root : Node :=
    .directory [("home", .directory [("a.js", .file .empty), ("lib", .directory [])])]
  have hwell : root.WellFormed := by
    simp only [root, Node.WellFormed, Node.WellFormedEntries]
    decide
  let tree : Tree := ⟨root, ["home"], hwell, by decide⟩
  have hlinks : tree.root.LinkFree := by
    simp [tree, root, Node.LinkFree, Node.LinkFreeEntries]
  have hresults : paths.mapM ((root.files ["home"]).searchPath false) =
      .ok [[⟨"/home/a.js"⟩], [⟨"./a.js"⟩], [⟨"a.js"⟩], [⟨"lib/../a.js"⟩]] := by
    decide +kernel
  have hfound : tree.files.discover false paths = .ok found :=
    (discover_of_ordered hresults (by decide +kernel)).trans (by decide +kernel)
  have hlocate : ∀ f ∈ found, root.locate ["home"] f = .ok ["home", "a.js"] := by
    decide +kernel
  exact ⟨tree, hlinks, hfound, hlocate⟩

end Tree

end ModuleScan
