/-
  ModuleScan/Proofs/Tree.lean
  ===========================
  **Trees of files, and the ways down a tree.**

  In a tree the entries of a directory have different names, each of them a name
  that a file system takes.  From a path that leads to a directory, names lead
  down through directories to a node, and the path that they are joined to leads
  there as well, unless it has grown too long (`locate_below`).
-/
import Mathlib.Data.List.Induction
import ModuleScan.Proofs.PathJoin

namespace ModuleScan

namespace Node

def isDirectory : Node → Bool
  | .directory _ => true
  | _ => false

/-! ### Well-formed trees -/

mutual

def WellFormed : Node → Prop
  | .file _ | .link _ => True
  | .directory entries => WellFormedEntries entries

def WellFormedEntries : List (OsString × Node) → Prop
  | [] => True
  | (name, node) :: entries =>
    IsEntryName name ∧ node.WellFormed ∧ (∀ entry ∈ entries, entry.1 ≠ name) ∧
      WellFormedEntries entries

end

/-- Well-formed, one entry at a time. -/
theorem wellFormedEntries_iff {entries : List (OsString × Node)} :
    WellFormedEntries entries ↔ (entries.map Prod.fst).Nodup ∧
      ∀ entry ∈ entries, IsEntryName entry.1 ∧ entry.2.WellFormed := by
  induction entries with
  | nil => simp [WellFormedEntries]
  | cons entry entries ih =>
    rw [WellFormedEntries, ih, List.map_cons, List.nodup_cons, List.forall_mem_cons]
    have hname : (∀ other ∈ entries, other.1 ≠ entry.1) ↔ entry.1 ∉ entries.map Prod.fst := by
      simp only [List.mem_map, not_exists, not_and]
    rw [hname]
    tauto

theorem lookup_eq_some_iff {entries : List (OsString × Node)} {name : OsString} {node : Node}
    (h : WellFormedEntries entries) :
    entries.lookup name = some node ↔ (name, node) ∈ entries := by
  induction entries with
  | nil => simp
  | cons entry entries ih =>
    obtain ⟨-, -, hother, hentries⟩ := h
    rw [List.lookup_cons, List.mem_cons]
    cases hname : name == entry.1 with
    | true =>
      obtain rfl := beq_iff_eq.mp hname
      have hnot : (entry.1, node) ∉ entries := fun hmem => hother _ hmem rfl
      simp only [hnot, or_false, Prod.ext_iff, true_and, Option.some.injEq]
      exact eq_comm
    | false =>
      have hne : (name, node) ≠ entry := by
        rintro rfl
        simp at hname
      simp only [hne, false_or]
      exact ih hentries

/-! ### Ways down -/

@[simp] theorem at?_nil (node : Node) : node.at? [] = some node := by
  cases node <;> rfl

theorem at?_append (node : Node) (location names : Location) :
    node.at? (location ++ names) = (node.at? location).bind (·.at? names) := by
  induction location generalizing node with
  | nil => rw [List.nil_append, at?_nil, Option.bind_some]
  | cons name location ih =>
    cases node with
    | directory entries =>
      rw [List.cons_append, at?, at?, Option.bind_assoc]
      exact Option.bind_congr fun child _ => ih child
    | file content => rfl
    | link target => rfl

theorem at?_concat {node : Node} {location : Location} {entries : List (OsString × Node)}
    (h : node.at? location = some (.directory entries)) (name : OsString) :
    node.at? (location ++ [name]) = entries.lookup name := by
  rw [at?_append, h, Option.bind_some, at?]
  cases entries.lookup name with
  | none => rfl
  | some child => exact at?_nil child

/-- Only directories have something below them. -/
theorem exists_directory_of_at?_concat {node child : Node} {location : Location} {name : OsString}
    (h : node.at? (location ++ [name]) = some child) :
    ∃ entries, node.at? location = some (.directory entries) ∧
      entries.lookup name = some child := by
  rw [at?_append] at h
  obtain ⟨parent, hparent, hchild⟩ := Option.bind_eq_some_iff.mp h
  cases parent with
  | directory entries =>
    have hroot : (directory entries).at? [] = some (.directory entries) := rfl
    refine ⟨entries, hparent, ?_⟩
    rw [← at?_concat hroot name]
    exact hchild
  | file content => cases hchild
  | link target => cases hchild

namespace WellFormed

theorem lookup {entries : List (OsString × Node)} (h : (directory entries).WellFormed)
    {name : OsString} {child : Node} (hlookup : entries.lookup name = some child) :
    IsEntryName name ∧ child.WellFormed := by
  rw [WellFormed] at h
  exact (wellFormedEntries_iff.mp h).2 _ ((lookup_eq_some_iff h).mp hlookup)

/-- What lies in a well-formed tree is well-formed, and its location is made of names. -/
theorem descend {node child : Node} {location : Location} (h : node.WellFormed)
    (hat : node.at? location = some child) :
    child.WellFormed ∧ ∀ name ∈ location, IsEntryName name := by
  induction location generalizing node with
  | nil =>
    obtain rfl := Option.some.inj ((at?_nil node).symm.trans hat)
    exact ⟨h, nofun⟩
  | cons name location ih =>
    cases node with
    | directory entries =>
      obtain ⟨next, hlookup, hnext⟩ := Option.bind_eq_some_iff.mp hat
      obtain ⟨hname, hwell⟩ := h.lookup hlookup
      obtain ⟨hchild, hnames⟩ := ih hwell hnext
      exact ⟨hchild, List.forall_mem_cons.mpr ⟨hname, hnames⟩⟩
    | file content => cases hat
    | link target => cases hat

end WellFormed

/-- Names lead from a node through directories to another node. -/
inductive Descends : Node → List OsString → Node → Prop
  | here {node : Node} : Descends node [] node
  | down {entries : List (OsString × Node)} {name : OsString} {names : List OsString}
    {child node : Node} : (name, child) ∈ entries → Descends child names node →
      Descends (.directory entries) (name :: names) node

theorem descends_iff {node other : Node} (h : node.WellFormed) {names : List OsString} :
    node.Descends names other ↔ node.at? names = some other := by
  constructor
  · intro hdescends
    induction hdescends with
    | here => exact at?_nil _
    | @down entries name names child other hmem _ ih =>
      have hlookup := (lookup_eq_some_iff h).mpr hmem
      rw [at?, hlookup]
      exact ih (h.lookup hlookup).2
  · intro hat
    induction names generalizing node with
    | nil =>
      obtain rfl := Option.some.inj ((at?_nil node).symm.trans hat)
      exact .here
    | cons name names ih =>
      cases node with
      | directory entries =>
        obtain ⟨child, hlookup, hchild⟩ := Option.bind_eq_some_iff.mp hat
        exact .down ((lookup_eq_some_iff h).mp hlookup) (ih (h.lookup hlookup).2 hchild)
      | file content => cases hat
      | link target => cases hat

end Node

/-! ### Paths that a tree can look up -/

/-- A path that a system looks up if it is short enough. -/
structure Path.Admissible (p : Path) : Prop where
  no_nul : 0 ∉ p.bytes
  ne_empty : p.bytes ≠ []

theorem Path.Admissible.join {d : Path} (h : d.Admissible) {name : OsString}
    (hname : IsEntryName name) : (d.join name).Admissible where
  no_nul := by
    have hslash : 0 ≠ slash := by decide
    rcases d.join_bytes name with ⟨front, hd, hjoin⟩ | ⟨hd, hjoin⟩ | ⟨hd, hjoin⟩
    · have hfront : 0 ∉ front := fun hmem => h.no_nul (hd ▸ List.mem_append_left _ hmem)
      simp [hjoin, hslash, hfront, hname.no_nul]
    · simp [hjoin, hname.no_nul]
    · simp [hjoin, hslash, h.no_nul, hname.no_nul]
  ne_empty := by
    rcases d.join_bytes name with ⟨front, hd, hjoin⟩ | ⟨hd, hjoin⟩ | ⟨hd, hjoin⟩
    · simp [hjoin]
    · exact absurd hd h.ne_empty
    · simp [hjoin]

theorem Path.Admissible.below {d : Path} (h : d.Admissible) {names : List OsString}
    (hnames : ∀ name ∈ names, IsEntryName name) : (d.below names).Admissible := by
  induction names generalizing d with
  | nil => exact h
  | cons name names ih =>
    obtain ⟨hname, hnames⟩ := List.forall_mem_cons.mp hnames
    exact ih (h.join hname) hnames

/-- Names lead down from where a walk along the path begins. -/
theorem Path.origin_below (d : Path) (location : Location) {names : List OsString}
    (hnames : ∀ name ∈ names, IsEntryName name) :
    (d.below names).origin location = d.origin location := by
  induction names generalizing d with
  | nil => rfl
  | cons name names ih =>
    obtain ⟨hname, hnames⟩ := List.forall_mem_cons.mp hnames
    rw [below_cons, ih _ hnames, origin, origin, d.isAbsolute_join hname.no_slash]

namespace Node

variable {root : Node} {here : Location}

theorem locate_of_admissible {p : Path} (h : p.Admissible) :
    root.locate here p =
      if maxPath ≤ p.bytes.length then .error .nameTooLong
      else root.follow maxLinks (p.origin here) p.pieces := by
  have hnul : p.bytes.contains 0 = false := by simpa using h.no_nul
  have hempty : p.bytes.isEmpty = false := by simpa using h.ne_empty
  rw [locate, hnul, hempty]
  rfl

theorem locate_eq_ok {p : Path} {location : Location}
    (h : root.locate here p = .ok location) :
    p.Admissible ∧ root.follow maxLinks (p.origin here) p.pieces = .ok location := by
  unfold locate at h
  split at h
  · cases h
  next hnul =>
    split at h
    · cases h
    next hempty =>
      split at h
      · cases h
      · exact ⟨⟨by simpa using hnul, by simpa using hempty⟩, h⟩

@[simp] theorem files_lookup (root : Node) (here : Location) (p : Path) :
    (root.files here).lookup p = root.lookup here p := rfl

/-! ### Walking, one piece at a time -/

/-- What one piece of a path leads to from a location. -/
inductive Step where
  | moved (location : Location)
  | linked (target : Path)
  | failed (failure : ReadFailure)

/-- What a name leads to, by the entry that has it. -/
def Step.ofEntry (location : Location) (name : OsString) : Option Node → Step
  | none => .failed .notFound
  | some (.link target) => .linked ⟨target⟩
  | some _ => .moved (location ++ [name])

def step (root : Node) (location : Location) (piece : OsString) : Step :=
  match root.at? location with
  | some (.directory entries) =>
    if piece == "" || piece == "." then .moved location
    else if piece == ".." then .moved location.dropLast
    else if piece.bytes.length > maxName then .failed .nameTooLong
    else .ofEntry location piece (entries.lookup piece)
  | _ => .failed .notADirectory

theorem walk_cons (root : Node)
    (atLink : Location → Path → List OsString → Except ReadFailure Location) (location : Location)
    (piece : OsString) (pieces : List OsString) :
    root.walk atLink location (piece :: pieces) =
      match root.step location piece with
      | .moved location' => root.walk atLink location' pieces
      | .linked target => atLink location target pieces
      | .failed failure => .error failure := by
  rw [walk, step]
  cases root.at? location with
  | none => rfl
  | some node =>
    cases node with
    | file content => rfl
    | link target => rfl
    | directory entries =>
      simp only
      by_cases hstay : (piece == "" || piece == ".") = true
      · rw [if_pos hstay, if_pos hstay]
      · rw [if_neg hstay, if_neg hstay]
        by_cases hparent : (piece == "..") = true
        · rw [if_pos hparent, if_pos hparent]
        · rw [if_neg hparent, if_neg hparent]
          by_cases hlong : piece.bytes.length > maxName
          · rw [if_pos hlong, if_pos hlong]
          · rw [if_neg hlong, if_neg hlong]
            cases entries.lookup piece with
            | none => rfl
            | some child => cases child <;> rfl

theorem step_of_directory {root : Node} {location : Location} {entries : List (OsString × Node)}
    (h : root.at? location = some (.directory entries)) {name : OsString} {child : Node}
    (hname : IsEntryName name) (hchild : entries.lookup name = some child)
    (hlink : ∀ target, child ≠ .link target) :
    root.step location name = .moved (location ++ [name]) := by
  have hstay : (name == "" || name == ".") = false := by simp [hname.ne_empty, hname.ne_here]
  have hparent : (name == "..") = false := by simpa using hname.ne_parent
  rw [step, h]
  simp only [hstay, hparent, Bool.false_eq_true, if_false, hchild]
  rw [if_neg (Nat.not_lt.mpr hname.length_le)]
  cases child with
  | link target => exact absurd rfl (hlink target)
  | file content => rfl
  | directory children => rfl

/-- If a last stretch of pieces can be exchanged for another at every location, it can be
    exchanged behind any pieces before it. -/
theorem walk_append {root : Node}
    {atLink : Location → Path → List OsString → Except ReadFailure Location}
    {last last' : List OsString} {target target' : Location}
    (hend : ∀ location, root.walk atLink location last = .ok target →
      root.walk atLink location last' = .ok target')
    (hlink : ∀ location link pieces, atLink location link (pieces ++ last) = .ok target →
      atLink location link (pieces ++ last') = .ok target')
    {location : Location} {pieces : List OsString}
    (h : root.walk atLink location (pieces ++ last) = .ok target) :
    root.walk atLink location (pieces ++ last') = .ok target' := by
  induction pieces generalizing location with
  | nil => exact hend location h
  | cons piece pieces ih =>
    rw [List.cons_append, walk_cons] at h ⊢
    cases hstep : root.step location piece with
    | moved next =>
      rw [hstep] at h
      exact ih h
    | linked link =>
      rw [hstep] at h
      exact hlink location link pieces h
    | failed failure =>
      rw [hstep] at h
      cases h

theorem follow_append {root : Node} {last last' : List OsString} {target target' : Location}
    (hend : ∀ links location, root.follow links location last = .ok target →
      root.follow links location last' = .ok target') (links : Nat) {location : Location}
    {pieces : List OsString} (h : root.follow links location (pieces ++ last) = .ok target) :
    root.follow links location (pieces ++ last') = .ok target' := by
  induction links generalizing location pieces with
  | zero => exact walk_append (hend 0) (fun _ _ _ h => nomatch h) h
  | succ links ih =>
    refine walk_append (hend (links + 1)) (fun location link pieces h => ?_) h
    rw [← List.append_assoc] at h ⊢
    exact ih h

/-- A name that stands in a directory leads one location further, also in the place of an
    empty last piece. -/
theorem follow_concat {root : Node} {location start : Location} {entries : List (OsString × Node)}
    (h : root.at? location = some (.directory entries)) {name : OsString} {child : Node}
    (hname : IsEntryName name) (hchild : entries.lookup name = some child)
    (hlink : ∀ target, child ≠ .link target) (links : Nat) {pieces last : List OsString}
    (hlast : last = [] ∨ last = [("" : OsString)])
    (hfollow : root.follow links start (pieces ++ last) = .ok location) :
    root.follow links start (pieces ++ [name]) = .ok (location ++ [name]) := by
  have hwalk : ∀ atLink, root.walk atLink location [name] = .ok (location ++ [name]) := by
    intro atLink
    rw [walk_cons, step_of_directory h hname hchild hlink]
    rfl
  have hend : ∀ atLink location', root.walk atLink location' last = .ok location →
      root.walk atLink location' [name] = .ok (location ++ [name]) := by
    intro atLink location' hstay
    have heq : location' = location := by
      rcases hlast with rfl | rfl
      · exact Except.ok.inj hstay
      · rw [walk_cons, step] at hstay
        cases hat : root.at? location' with
        | none =>
          rw [hat] at hstay
          cases hstay
        | some node =>
          rw [hat] at hstay
          cases node with
          | directory entries => exact Except.ok.inj hstay
          | file content => cases hstay
          | link target => cases hstay
    rw [heq]
    exact hwalk atLink
  refine follow_append (fun links => ?_) links hfollow
  cases links with
  | zero => exact hend _
  | succ links => exact hend _

/-! ### Locating what lies below a directory -/

/-- The path that names are joined to leads where the names lead, unless it is too long
    for the system. -/
theorem locate_below (hroot : root.WellFormed) {d : Path} {location : Location}
    (hd : root.locate here d = .ok location) {names : List OsString} {node : Node}
    (hnode : root.at? (location ++ names) = some node) (hlink : ∀ target, node ≠ .link target) :
    root.locate here (d.below names) =
      if maxPath ≤ (d.below names).bytes.length then .error .nameTooLong
      else .ok (location ++ names) := by
  obtain ⟨hadmissible, hfollow⟩ := locate_eq_ok hd
  have hnames : ∀ name ∈ names, IsEntryName name := fun name hmem =>
    (hroot.descend hnode).2 name (List.mem_append_right _ hmem)
  rw [locate_of_admissible (hadmissible.below hnames), d.origin_below here hnames]
  congr 1
  -- From the end, since the last name is joined to a path that leads to its directory.
  induction names using List.reverseRecOn generalizing node with
  | nil => rwa [Path.below_nil, List.append_nil]
  | append_singleton names name ih =>
    rw [← List.append_assoc] at hnode ⊢
    obtain ⟨entries, hdirectory, hchild⟩ := exists_directory_of_at?_concat hnode
    have hname := hnames name (List.mem_append_right _ List.mem_cons_self)
    have hbelow := ih hdirectory nofun fun name hmem => hnames name (List.mem_append_left _ hmem)
    obtain ⟨pieces, hpieces, hjoin⟩ := (d.below names).pieces_join hname.no_slash
    rw [Path.below_append, Path.below_cons, Path.below_nil, hjoin]
    rcases hpieces with hpieces | hpieces
    · refine follow_concat hdirectory hname hchild hlink _ (Or.inl rfl) ?_
      rw [List.append_nil, ← hpieces, hbelow]
    · refine follow_concat hdirectory hname hchild hlink _ (Or.inr rfl) ?_
      rw [← hpieces, hbelow]

theorem lookup_eq_ok {node : Node} {p : Path} :
    root.lookup here p = .ok node ↔
      ∃ location, root.locate here p = .ok location ∧ root.at? location = some node := by
  unfold lookup
  cases root.locate here p with
  | error failure => simp
  | ok location =>
    cases hat : root.at? location with
    | none => simp [hat]
    | some other => simp [hat]

end Node

/-! ### Trees -/

/-- A tree of files, and one of its directories to work in. -/
structure Tree where
  root : Node
  workingDirectory : Location
  wellFormed : root.WellFormed
  isDirectory : (root.at? workingDirectory).any Node.isDirectory = true

namespace Tree

def locate (tree : Tree) (p : Path) : Except ReadFailure Location :=
  tree.root.locate tree.workingDirectory p

def files (tree : Tree) : Files := tree.root.files tree.workingDirectory

theorem lookup_eq_ok {tree : Tree} {p : Path} {node : Node} :
    tree.files.lookup p = .ok node ↔
      ∃ location, tree.locate p = .ok location ∧ tree.root.at? location = some node :=
  Node.lookup_eq_ok

theorem lookup_of_locate_eq_error {tree : Tree} {p : Path} {failure : ReadFailure}
    (h : tree.locate p = .error failure) : tree.files.lookup p = .error failure := by
  have hlookup : tree.root.lookup tree.workingDirectory p = .error failure := by
    rw [Node.lookup, show tree.root.locate tree.workingDirectory p = _ from h]
  exact hlookup

/-- A path leads to a directory, and from there names lead through directories to a node. -/
def Leads (tree : Tree) (d : Path) (names : List OsString) (node : Node) : Prop :=
  ∃ location entries, tree.locate d = .ok location ∧
    tree.root.at? location = some (.directory entries) ∧
    tree.root.at? (location ++ names) = some node

variable {tree : Tree} {d : Path} {names : List OsString} {node : Node}

theorem Leads.isEntryName (h : tree.Leads d names node) : ∀ name ∈ names, IsEntryName name := by
  obtain ⟨location, entries, -, -, hnode⟩ := h
  exact fun name hmem => (tree.wellFormed.descend hnode).2 name (List.mem_append_right _ hmem)

theorem leads_iff {entries : List (OsString × Node)}
    (hd : tree.files.lookup d = .ok (.directory entries)) :
    tree.Leads d names node ↔ (Node.directory entries).Descends names node := by
  obtain ⟨location, hlocate, hat⟩ := lookup_eq_ok.mp hd
  rw [Node.descends_iff (tree.wellFormed.descend hat).1]
  constructor
  · rintro ⟨location', entries', hlocate', -, hnode⟩
    obtain rfl := Except.ok.inj (hlocate.symm.trans hlocate')
    rwa [Node.at?_append, hat] at hnode
  · intro hnode
    refine ⟨location, entries, hlocate, hat, ?_⟩
    rwa [Node.at?_append, hat]

/-- A directory below a path cannot be looked up by the path it gets if and only if this
    path is too long. -/
theorem Leads.lookup_eq_error {entries : List (OsString × Node)} {failure : ReadFailure}
    (h : tree.Leads d names (.directory entries)) :
    tree.files.lookup (d.below names) = .error failure ↔
      Node.maxPath ≤ (d.below names).bytes.length ∧ failure = .nameTooLong := by
  obtain ⟨location, _, hlocate, -, hnode⟩ := h
  have hbelow := Node.locate_below tree.wellFormed hlocate hnode nofun
  by_cases hlong : Node.maxPath ≤ (d.below names).bytes.length
  · rw [if_pos hlong] at hbelow
    rw [lookup_of_locate_eq_error hbelow]
    simp only [Except.error.injEq, hlong, true_and]
    exact eq_comm
  · rw [if_neg hlong] at hbelow
    rw [lookup_eq_ok.mpr ⟨_, hbelow, hnode⟩]
    simp [hlong]

end Tree

end ModuleScan
