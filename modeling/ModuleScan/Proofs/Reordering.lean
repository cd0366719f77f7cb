/-
  ModuleScan/Proofs/Reordering.lean
  =================================
  **A search does not depend on the order in which anything is listed.**

  Trees that differ only in the order of the entries of their directories have the
  same at every location (`Node.Reordered.alike`), so every path leads to the same
  in both, and a given path stands for the same in both (`Node.Alike.yields_iff`).
  What a given path stands for is found in some order, and no path of it twice in
  two spellings; so which spelling of a path comes first is decided by the given
  paths alone, and it is all that sorting depends on (`discover_canonical`).
-/
import ModuleScan.Proofs.Search

namespace ModuleScan

namespace Node

/-! ### Trees with reordered entries -/

/-- Two trees are the same up to the order in which directories list their entries. -/
inductive Reordered : Node → Node → Prop
  | refl (node : Node) : Reordered node node
  | trans {node node' node'' : Node} : Reordered node node' → Reordered node' node'' →
      Reordered node node''
  | listing {entries entries' : List (OsString × Node)} : entries.Perm entries' →
      Reordered (.directory entries) (.directory entries')
  | entry {before after : List (OsString × Node)} {name : OsString} {node node' : Node} :
      Reordered node node' →
      Reordered (.directory (before ++ (name, node) :: after))
        (.directory (before ++ (name, node') :: after))

theorem WellFormed.reordered {node node' : Node} (h : node.WellFormed)
    (hreordered : Reordered node node') : node'.WellFormed := by
  induction hreordered with
  | refl node => exact h
  | trans _ _ ih ih' => exact ih' (ih h)
  | @listing entries entries' hperm =>
    rw [WellFormed, wellFormedEntries_iff] at h ⊢
    exact ⟨(hperm.map Prod.fst).nodup_iff.mp h.1,
      fun entry hmem => h.2 entry (hperm.mem_iff.mpr hmem)⟩
  | @entry before after name node node' _ ih =>
    rw [WellFormed, wellFormedEntries_iff] at h ⊢
    simp only [List.map_append, List.map_cons, List.forall_mem_append, List.forall_mem_cons]
      at h ⊢
    obtain ⟨hnodup, hbefore, ⟨hname, hnode⟩, hafter⟩ := h
    exact ⟨hnodup, hbefore, ⟨hname, ih hnode⟩, hafter⟩

/-- A node without the entries that it has if it is a directory. -/
def bare : Node → Node
  | .directory _ => .directory []
  | node => node

theorem eq_or_directory_of_bare_eq {node node' : Node} (h : node.bare = node'.bare) :
    node = node' ∨ ∃ entries entries', node = .directory entries ∧ node' = .directory entries' := by
  cases node with
  | directory entries =>
    cases node' with
    | directory entries' => exact Or.inr ⟨entries, entries', rfl, rfl⟩
    | file content => cases h
    | link target => cases h
  | file content =>
    cases node' with
    | directory entries' => cases h
    | file content' => exact Or.inl h
    | link target' => cases h
  | link target =>
    cases node' with
    | directory entries' => cases h
    | file content' => cases h
    | link target' => exact Or.inl h

/-- Two trees have the same at every location, up to entries. -/
def Alike (root root' : Node) : Prop :=
  ∀ location, (root.at? location).map bare = (root'.at? location).map bare

namespace Alike

variable {root root' : Node}

theorem symm (h : Alike root root') : Alike root' root :=
  fun location => (h location).symm

theorem at?_eq_none (h : Alike root root') {location : Location} (hat : root.at? location = none) :
    root'.at? location = none := by
  have hmap := h location
  rw [hat] at hmap
  exact Option.map_eq_none_iff.mp hmap.symm

theorem exists_at? (h : Alike root root') {location : Location} {node : Node}
    (hat : root.at? location = some node) :
    ∃ node', root'.at? location = some node' ∧
      (node = node' ∨
        ∃ entries entries', node = .directory entries ∧ node' = .directory entries') := by
  have hmap := h location
  rw [hat] at hmap
  obtain ⟨node', hat', hbare⟩ := Option.map_eq_some_iff.mp hmap.symm
  exact ⟨node', hat', eq_or_directory_of_bare_eq hbare.symm⟩

end Alike

/-- Directories are alike if each name has entries in both that are. -/
theorem alike_directory {entries entries' : List (OsString × Node)}
    (h : ∀ name, entries.lookup name = entries'.lookup name ∨
      ∃ child child', entries.lookup name = some child ∧ entries'.lookup name = some child' ∧
        Alike child child') :
    Alike (.directory entries) (.directory entries') := by
  intro location
  cases location with
  | nil => rfl
  | cons name location =>
    rw [at?, at?]
    rcases h name with heq | ⟨child, child', hchild, hchild', halike⟩
    · rw [heq]
    · rw [hchild, hchild']
      exact halike location

/-- Trees that differ in the order of entries have the same at every location. -/
theorem Reordered.alike {node node' : Node} (h : Reordered node node')
    (hwell : node.WellFormed) : Alike node node' := by
  induction h with
  | refl node => exact fun location => rfl
  | trans hfirst _ ih ih' =>
    exact fun location => (ih hwell location).trans (ih' (hwell.reordered hfirst) location)
  | @listing entries entries' hperm =>
    have hwell' := hwell.reordered (.listing hperm)
    refine alike_directory fun name => Or.inl ?_
    apply Option.ext
    intro child
    rw [lookup_eq_some_iff hwell, lookup_eq_some_iff hwell', hperm.mem_iff]
  | @entry before after name node node' _ ih =>
    rw [WellFormed, wellFormedEntries_iff] at hwell
    have hnode := ih (hwell.2 _ (List.mem_append_right _ List.mem_cons_self)).2
    refine alike_directory fun other => ?_
    rw [List.lookup_append, List.lookup_append, List.lookup_cons, List.lookup_cons]
    cases before.lookup other with
    | some child => exact Or.inl rfl
    | none =>
      cases other == name with
      | true => exact Or.inr ⟨node, node', rfl, rfl, hnode⟩
      | false => exact Or.inl rfl

/-! ### Paths lead to the same -/

theorem Step.ofEntry_bare (location : Location) (name : OsString) (child : Option Node) :
    Step.ofEntry location name (child.map bare) = Step.ofEntry location name child := by
  cases child with
  | none => rfl
  | some node => cases node <;> rfl

namespace Alike

variable {root root' : Node}

theorem step_eq (h : Alike root root') (location : Location) (piece : OsString) :
    root.step location piece = root'.step location piece := by
  unfold step
  cases hat : root.at? location with
  | none => rw [h.at?_eq_none hat]
  | some node =>
    obtain ⟨node', hat', rfl | ⟨entries, entries', rfl, rfl⟩⟩ := h.exists_at? hat
    · rw [hat']
    · have hentry := h (location ++ [piece])
      rw [at?_concat hat, at?_concat hat'] at hentry
      rw [hat']
      simp only
      rw [← Step.ofEntry_bare, hentry, Step.ofEntry_bare]

theorem walk_eq (h : Alike root root')
    {atLink atLink' : Location → Path → List OsString → Except ReadFailure Location}
    (hlink : atLink = atLink') (location : Location) (pieces : List OsString) :
    root.walk atLink location pieces = root'.walk atLink' location pieces := by
  subst hlink
  induction pieces generalizing location with
  | nil => rfl
  | cons piece pieces ih =>
    rw [walk_cons, walk_cons, h.step_eq]
    cases root'.step location piece with
    | moved location' => exact ih location'
    | linked target => rfl
    | failed failure => rfl

theorem follow_eq (h : Alike root root') (links : Nat) :
    root.follow links = root'.follow links := by
  induction links with
  | zero => exact funext fun location => funext (h.walk_eq rfl location)
  | succ links ih =>
    refine funext fun location => funext (h.walk_eq ?_ location)
    rw [ih]

theorem locate_eq (h : Alike root root') (here : Location) (p : Path) :
    root.locate here p = root'.locate here p := by
  rw [locate, locate, h.follow_eq]

theorem lookup_error (h : Alike root root') {here : Location} {p : Path} {failure : ReadFailure}
    (hlookup : root.lookup here p = .error failure) : root'.lookup here p = .error failure := by
  unfold lookup at hlookup ⊢
  rw [← h.locate_eq]
  cases hlocate : root.locate here p with
  | error failure' =>
    rw [hlocate] at hlookup
    exact hlookup
  | ok location =>
    rw [hlocate] at hlookup
    simp only at hlookup ⊢
    cases hat : root.at? location with
    | none =>
      rw [h.at?_eq_none hat]
      rw [hat] at hlookup
      exact hlookup
    | some node =>
      rw [hat] at hlookup
      cases hlookup

theorem exists_lookup (h : Alike root root') {here : Location} {p : Path} {node : Node}
    (hlookup : root.lookup here p = .ok node) :
    ∃ node', root'.lookup here p = .ok node' ∧
      (node = node' ∨
        ∃ entries entries', node = .directory entries ∧ node' = .directory entries') := by
  obtain ⟨location, hlocate, hat⟩ := lookup_eq_ok.mp hlookup
  obtain ⟨node', hat', hnode⟩ := h.exists_at? hat
  exact ⟨node', lookup_eq_ok.mpr ⟨location, h.locate_eq here p ▸ hlocate, hat'⟩, hnode⟩

end Alike

end Node

/-! ### Given paths stand for the same -/

namespace Tree

variable {tree tree' : Tree} {noIgnore : Bool} {p : Path}

/-- Two trees with the same working directory have the same at every location, up to
    entries. -/
structure Alike (tree tree' : Tree) : Prop where
  root : tree.root.Alike tree'.root
  workingDirectory : tree.workingDirectory = tree'.workingDirectory

theorem Alike.symm (h : tree.Alike tree') : tree'.Alike tree :=
  ⟨h.root.symm, h.workingDirectory.symm⟩

theorem Alike.locate_eq (h : tree.Alike tree') (p : Path) : tree.locate p = tree'.locate p := by
  rw [locate, locate, h.workingDirectory, h.root.locate_eq]

theorem Alike.lookup_error (h : tree.Alike tree') {failure : ReadFailure}
    (hlookup : tree.files.lookup p = .error failure) : tree'.files.lookup p = .error failure := by
  rw [files, Node.files_lookup, ← h.workingDirectory]
  exact h.root.lookup_error hlookup

theorem Alike.exists_lookup (h : tree.Alike tree') {node : Node}
    (hlookup : tree.files.lookup p = .ok node) :
    ∃ node', tree'.files.lookup p = .ok node' ∧
      (node = node' ∨
        ∃ entries entries', node = .directory entries ∧ node' = .directory entries') := by
  rw [files, Node.files_lookup, ← h.workingDirectory]
  exact h.root.exists_lookup hlookup

theorem Alike.isFile_eq (h : tree.Alike tree') (p : Path) :
    tree.files.isFile p = tree'.files.isFile p := by
  unfold Files.isFile
  cases hlookup : tree.files.lookup p with
  | error failure => rw [h.lookup_error hlookup]
  | ok node =>
    obtain ⟨node', hlookup', rfl | ⟨entries, entries', rfl, rfl⟩⟩ := h.exists_lookup hlookup
    · rw [hlookup']
    · rw [hlookup']

theorem Leads.exists_of_alike {names : List OsString} {node : Node}
    (hleads : tree.Leads p names node) (h : tree.Alike tree') :
    ∃ node', tree'.Leads p names node' ∧
      (node = node' ∨
        ∃ entries entries', node = .directory entries ∧ node' = .directory entries') := by
  obtain ⟨location, entries, hlocate, hat, hnode⟩ := hleads
  have hdirectory : ∃ entries', tree'.root.at? location = some (.directory entries') := by
    obtain ⟨_, hat', rfl | ⟨_, entries', -, rfl⟩⟩ := h.root.exists_at? hat
    · exact ⟨entries, hat'⟩
    · exact ⟨entries', hat'⟩
  obtain ⟨entries', hat'⟩ := hdirectory
  obtain ⟨node', hnode', hlike⟩ := h.root.exists_at? hnode
  exact ⟨node', ⟨location, entries', h.locate_eq p ▸ hlocate, hat', hnode'⟩, hlike⟩

theorem Yields.alike {f : Path} (hyields : tree.Yields noIgnore p f)
    (h : tree.Alike tree') : tree'.Yields noIgnore p f := by
  cases hyields with
  | given hlookup hnode =>
    obtain ⟨_, hlookup', rfl | ⟨entries, entries', rfl, rfl⟩⟩ := h.exists_lookup hlookup
    · exact .given hlookup' hnode
    · cases hnode
  | below hleads hnode hsource henters hfile =>
    rw [h.isFile_eq] at hfile
    obtain ⟨_, hleads', rfl | ⟨entries, entries', rfl, rfl⟩⟩ := hleads.exists_of_alike h
    · exact .below hleads' hnode hsource henters hfile
    · cases hnode

theorem Fails.alike {failure : Path × ReadFailure} (hfails : tree.Fails noIgnore p failure)
    (h : tree.Alike tree') : tree'.Fails noIgnore p failure := by
  cases hfails with
  | nowhere hlookup => exact .nowhere (h.lookup_error hlookup)
  | tooLong hleads henters hlong =>
    obtain ⟨_, hleads', rfl | ⟨entries, entries', -, rfl⟩⟩ := hleads.exists_of_alike h
    · exact .tooLong hleads' henters hlong
    · exact .tooLong hleads' henters hlong

/-- A given path stands for no path in two spellings. -/
theorem Yields.injective {f g : Path} (hf : tree.Yields noIgnore p f)
    (hg : tree.Yields noIgnore p g) (hsame : f.same g = true) : f = g := by
  cases hf with
  | given hlookup hnode =>
    cases hg with
    | given => rfl
    | below hleads => exact absurd hleads (not_leads hlookup hnode)
  | below hleads =>
    cases hg with
    | given hlookup hnode => exact absurd hleads (not_leads hlookup hnode)
    | below hleads' => rw [Path.below_injective hleads.isEntryName hleads'.isEntryName hsame]

end Tree

/-! ### Which spelling comes first -/

namespace Path

/-- If no path occurs in two spellings, then the order does not matter for which spelling of
    a path comes first. -/
theorem find?_same_congr {l l' : List Path} (hmem : ∀ f, f ∈ l ↔ f ∈ l')
    (hinjective : ∀ f ∈ l, ∀ g ∈ l, f.same g = true → f = g) (q : Path) :
    l.find? (·.same q) = l'.find? (·.same q) := by
  cases hfind : l.find? (·.same q) with
  | none =>
    rw [List.find?_eq_none] at hfind
    exact (List.find?_eq_none.mpr fun f hf => hfind f ((hmem f).mpr hf)).symm
  | some f =>
    have hf := List.mem_of_find?_eq_some hfind
    have hsame := List.find?_some hfind
    cases hfind' : l'.find? (·.same q) with
    | none => exact absurd hsame (List.find?_eq_none.mp hfind' f ((hmem f).mp hf))
    | some g =>
      have hg := (hmem g).mpr (List.mem_of_find?_eq_some hfind')
      have hsame' := List.find?_some hfind'
      rw [hinjective f hf g hg (same_iff.mpr ((same_iff.mp hsame).trans (same_iff.mp hsame').symm))]

end Path

namespace Tree

variable {tree tree' : Tree} {noIgnore : Bool} {p : Path} {paths : List Path}

theorem find?_searchPath {found found' : List Path} (h : tree.Alike tree')
    (hfound : tree.files.searchPath noIgnore p = .ok found)
    (hfound' : tree'.files.searchPath noIgnore p = .ok found') (q : Path) :
    found.find? (·.same q) = found'.find? (·.same q) := by
  refine Path.find?_same_congr (fun f => ?_) (fun f hf g hg => ?_) q
  · rw [mem_iff_of_searchPath hfound, mem_iff_of_searchPath hfound']
    exact ⟨fun hyields => hyields.alike h, fun hyields => hyields.alike h.symm⟩
  · rw [mem_iff_of_searchPath hfound] at hf hg
    exact hf.injective hg

/-- Alike trees have the same found in them. -/
theorem discover_of_alike {found : List Path} (h : tree.Alike tree')
    (hfound : tree.files.discover noIgnore paths = .ok found) :
    tree'.files.discover noIgnore paths = .ok found := by
  -- The same failures are possible in both, so the other search succeeds as well.
  have hnot : ∀ p ∈ paths, ∀ failure, ¬ tree'.Fails noIgnore p failure :=
    fun p hp failure hfails => exists_discover_iff.mp ⟨found, hfound⟩ p hp failure
      (hfails.alike h.symm)
  obtain ⟨found', hfound'⟩ := exists_discover_iff.mpr hnot
  obtain ⟨results, hresults, rfl⟩ := Files.discover_eq_ok.mp hfound
  obtain ⟨results', hresults', rfl⟩ := Files.discover_eq_ok.mp hfound'
  rw [hfound']
  congr 1
  refine Path.sorted_congr fun q => ?_
  clear hfound hfound' hnot
  induction hresults generalizing results' with
  | nil =>
    cases hresults'
    rfl
  | cons hresult _ ih =>
    cases hresults' with
    | cons hresult' hrest' =>
      rw [List.flatten_cons, List.flatten_cons, List.find?_append, List.find?_append,
        find?_searchPath h hresult hresult', ih _ hrest']

/-- Permuted given paths have the same paths found, which may be spelled differently. -/
theorem discover_of_perm {paths' found : List Path} (h : paths.Perm paths')
    (hfound : tree.files.discover noIgnore paths = .ok found) :
    ∃ found', tree.files.discover noIgnore paths' = .ok found' ∧
      List.Forall₂ (fun f g => f.same g = true) found found' := by
  have hnot : ∀ p ∈ paths', ∀ failure, ¬ tree.Fails noIgnore p failure :=
    fun p hp => exists_discover_iff.mp ⟨found, hfound⟩ p (h.mem_iff.mpr hp)
  obtain ⟨found', hfound'⟩ := exists_discover_iff.mpr hnot
  refine ⟨found', hfound', ?_⟩
  obtain ⟨results, hresults, rfl⟩ := Files.discover_eq_ok.mp hfound
  obtain ⟨results', hresults', rfl⟩ := Files.discover_eq_ok.mp hfound'
  have hcomponents : (Path.sorted results.flatten).map Path.components =
      (Path.sorted results'.flatten).map Path.components := by
    refine Path.components_sorted_congr fun q => ?_
    simp only [mem_flatten_iff hresults, mem_flatten_iff hresults', h.mem_iff]
  rw [← List.forall₂_eq_eq_eq, List.forall₂_map_left_iff, List.forall₂_map_right_iff]
    at hcomponents
  exact hcomponents.imp fun _ _ => Path.same_iff.mpr

end Tree

/-- What is found stands in strictly ascending order, so no path stands in it twice.  It does
    not depend on the order in which the directories of a tree list their entries, and when
    the given paths are permuted it changes only in how its paths are spelled. -/
theorem discover_canonical (tree : Tree) (noIgnore : Bool) (paths : List Path) :
    (∀ found, tree.files.discover noIgnore paths = .ok found →
      found.Pairwise (fun f g => orderComponents f.components g.components = .lt) ∧
      found.Pairwise fun f g => f.same g = false) ∧
    (∀ (tree' : Tree) (found : List Path), Node.Reordered tree.root tree'.root →
      tree.workingDirectory = tree'.workingDirectory →
      tree.files.discover noIgnore paths = .ok found →
      tree'.files.discover noIgnore paths = .ok found) ∧
    ∀ (paths' found : List Path), paths.Perm paths' →
      tree.files.discover noIgnore paths = .ok found →
      ∃ found', tree.files.discover noIgnore paths' = .ok found' ∧
        List.Forall₂ (fun f g => f.same g = true) found found' := by
  refine ⟨fun found hfound => ?_, fun tree' found hreordered hdirectory hfound => ?_,
    fun paths' found hperm hfound => Tree.discover_of_perm hperm hfound⟩
  · obtain ⟨results, -, rfl⟩ := Files.discover_eq_ok.mp hfound
    have hsorted := Path.pairwise_sorted results.flatten
    exact ⟨hsorted, hsorted.imp Path.Before.same_eq⟩
  · exact Tree.discover_of_alike ⟨hreordered.alike tree.wellFormed, hdirectory⟩ hfound

end ModuleScan
