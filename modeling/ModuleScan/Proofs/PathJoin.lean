/-
  ModuleScan/Proofs/PathJoin.lean
  ===============================
  **The paths of what lies below a directory.**

  An entry of a directory has a name that is one component.  Joined to the path of
  the directory it adds this component and no other, however the path is spelled
  (`components_join`), so the names that lead down from a directory can be read
  off a path (`components_below`), and a path is that of a source file if the last
  name is that of one (`isSource_join`).
-/
import Mathlib.Data.List.Basic
import Mathlib.Data.List.TakeWhile
import ModuleScan.Files.Search
import ModuleScan.Files.Tree

namespace ModuleScan

/-! ### Names of entries -/

/-- What a file system takes for the name of an entry: one component of a path, not too
    long and without the byte that ends a name. -/
structure IsEntryName (name : OsString) : Prop where
  ne_empty : name ≠ ""
  ne_here : name ≠ "."
  ne_parent : name ≠ ".."
  no_slash : slash ∉ name.bytes
  no_nul : 0 ∉ name.bytes
  length_le : name.bytes.length ≤ Node.maxName

instance (name : OsString) : Decidable (IsEntryName name) :=
  decidable_of_iff (name ≠ "" ∧ name ≠ "." ∧ name ≠ ".." ∧ slash ∉ name.bytes ∧
      0 ∉ name.bytes ∧ name.bytes.length ≤ Node.maxName)
    ⟨fun ⟨h, h', h'', hs, hn, hl⟩ => ⟨h, h', h'', hs, hn, hl⟩,
      fun ⟨h, h', h'', hs, hn, hl⟩ => ⟨h, h', h'', hs, hn, hl⟩⟩

theorem IsEntryName.ofPiece? {name : OsString} (h : IsEntryName name) :
    Component.ofPiece? name = some (.name name) := by
  simp [Component.ofPiece?, h.ne_empty, h.ne_here, h.ne_parent]

/-! ### Pieces -/

theorem splitSlashes_ne_nil (s : List UInt8) : splitSlashes s ≠ [] := by
  cases s with
  | nil => exact List.cons_ne_nil _ _
  | cons b rest =>
    rw [splitSlashes]
    split
    · exact List.cons_ne_nil _ _
    · split <;> exact List.cons_ne_nil _ _

theorem splitSlashes_of_not_mem {s : List UInt8} (h : slash ∉ s) : splitSlashes s = [s] := by
  induction s with
  | nil => rfl
  | cons b rest ih =>
    have hb : (b == slash) = false := by
      rw [beq_eq_false_iff_ne]
      rintro rfl
      exact h List.mem_cons_self
    rw [splitSlashes, hb, ih fun hmem => h (List.mem_cons_of_mem b hmem)]
    rfl

theorem splitSlashes_append_slash (s t : List UInt8) :
    splitSlashes (s ++ slash :: t) = splitSlashes s ++ splitSlashes t := by
  induction s with
  | nil => rfl
  | cons b rest ih =>
    rw [List.cons_append, splitSlashes, splitSlashes, ih]
    cases b == slash with
    | true => rfl
    | false =>
      cases hrest : splitSlashes rest with
      | nil => exact absurd hrest (splitSlashes_ne_nil rest)
      | cons piece pieces => rfl

namespace Path

theorem pieces_ne_nil (p : Path) : p.pieces ≠ [] := by
  rw [pieces, ne_eq, List.map_eq_nil_iff]
  exact splitSlashes_ne_nil _

/-! ### One name further -/

/-- How a name is joined: to the path alone if it is empty or ends in a slash, and with a
    slash in between otherwise. -/
theorem join_bytes (d : Path) (name : OsString) :
    (∃ front, d.bytes = front ++ [slash] ∧ (d.join name).bytes = front ++ slash :: name.bytes) ∨
    (d.bytes = [] ∧ (d.join name).bytes = name.bytes) ∨
    (d.bytes ≠ [] ∧ (d.join name).bytes = d.bytes ++ slash :: name.bytes) := by
  unfold join
  cases hlast : d.bytes.getLast? with
  | none =>
    rw [List.getLast?_eq_none_iff] at hlast
    exact Or.inr (Or.inl ⟨hlast, by simp [hlast]⟩)
  | some b =>
    obtain ⟨front, hfront⟩ := List.getLast?_eq_some_iff.mp hlast
    by_cases hb : b = slash
    · subst hb
      exact Or.inl ⟨front, hfront, by simp [hfront]⟩
    · have hne : d.bytes ≠ [] := by
        rw [hfront]
        exact List.append_ne_nil_of_right_ne_nil _ (List.cons_ne_nil _ _)
      exact Or.inr (Or.inr ⟨hne, by simp [hb]⟩)

/-- Joined to a path, a name is one more piece, in the place of an empty last one. -/
theorem pieces_join (d : Path) {name : OsString} (h : slash ∉ name.bytes) :
    ∃ pieces, (d.pieces = pieces ∨ d.pieces = pieces ++ [("" : OsString)]) ∧
      (d.join name).pieces = pieces ++ [name] := by
  have hname : (splitSlashes name.bytes).map OsString.mk = [name] := by
    rw [splitSlashes_of_not_mem h, List.map_singleton]
  rcases d.join_bytes name with ⟨front, hd, hjoin⟩ | ⟨hd, hjoin⟩ | ⟨-, hjoin⟩
  · refine ⟨(splitSlashes front).map OsString.mk, Or.inr ?_, ?_⟩
    · rw [pieces, hd, splitSlashes_append_slash, List.map_append]
      rfl
    · rw [pieces, hjoin, splitSlashes_append_slash, List.map_append, hname]
  · refine ⟨[], Or.inr ?_, ?_⟩
    · rw [pieces, hd]
      rfl
    · rw [pieces, hjoin, hname]
      rfl
  · refine ⟨d.pieces, Or.inl rfl, ?_⟩
    rw [pieces, hjoin, splitSlashes_append_slash, List.map_append, hname]
    rfl

theorem isAbsolute_join (d : Path) {name : OsString} (h : slash ∉ name.bytes) :
    (d.join name).isAbsolute = d.isAbsolute := by
  unfold isAbsolute
  rcases d.join_bytes name with ⟨front, hd, hjoin⟩ | ⟨hd, hjoin⟩ | ⟨hd, hjoin⟩
  · rw [hd, hjoin]
    cases front <;> rfl
  · rw [hd, hjoin]
    cases hname : name.bytes with
    | nil => rfl
    | cons b rest =>
      rw [hname] at h
      have hb : b ≠ slash := fun hb => h (hb ▸ List.mem_cons_self)
      simp [hb]
  · obtain ⟨b, rest, hcons⟩ := List.exists_cons_of_ne_nil hd
    rw [hjoin, hcons]
    rfl

theorem start?_join (d : Path) {name : OsString} (h : IsEntryName name) :
    (d.join name).start? = d.start? := by
  obtain ⟨pieces, hd, hjoin⟩ := d.pieces_join h.no_slash
  have hhead : ((d.join name).pieces.head? == some ("." : OsString)) =
      (d.pieces.head? == some ("." : OsString)) := by
    cases pieces with
    | nil =>
      rcases hd with hd | hd
      · exact absurd hd d.pieces_ne_nil
      · have hempty : ("" : OsString) ≠ "." := by decide
        simp [hjoin, hd, h.ne_here, hempty]
    | cons piece rest => rcases hd with hd | hd <;> simp [hjoin, hd]
  unfold start?
  rw [d.isAbsolute_join h.no_slash, hhead]

/-- Joined to a path, the name of an entry is one more component. -/
theorem components_join (d : Path) {name : OsString} (h : IsEntryName name) :
    (d.join name).components = d.components ++ [.name name] := by
  obtain ⟨pieces, hd, hjoin⟩ := d.pieces_join h.no_slash
  have hpieces : (d.join name).pieces.filterMap Component.ofPiece? =
      d.pieces.filterMap Component.ofPiece? ++ [.name name] := by
    have hempty : [("" : OsString)].filterMap Component.ofPiece? = [] := rfl
    have hname : [name].filterMap Component.ofPiece? = [.name name] :=
      List.filterMap_cons_some h.ofPiece?
    rw [hjoin, List.filterMap_append, hname]
    rcases hd with hd | hd
    · rw [hd]
    · rw [hd, List.filterMap_append, hempty, List.append_nil]
  rw [components, components, d.start?_join h, hpieces, List.append_assoc]

/-! ### Names that lead down -/

/-- The path of what lies below a directory, by the names that lead there. -/
def below (d : Path) (names : List OsString) : Path := names.foldl join d

@[simp] theorem below_nil (d : Path) : d.below [] = d := rfl

@[simp] theorem below_cons (d : Path) (name : OsString) (names : List OsString) :
    d.below (name :: names) = (d.join name).below names := rfl

theorem below_append (d : Path) (names names' : List OsString) :
    d.below (names ++ names') = (d.below names).below names' :=
  List.foldl_append

theorem components_below (d : Path) {names : List OsString} (h : ∀ name ∈ names, IsEntryName name) :
    (d.below names).components = d.components ++ names.map .name := by
  induction names generalizing d with
  | nil => exact (List.append_nil _).symm
  | cons name names ih =>
    obtain ⟨hname, hnames⟩ := List.forall_mem_cons.mp h
    rw [below_cons, ih _ hnames, components_join d hname, List.append_assoc]
    rfl

/-- Different names lead from a directory to different paths. -/
theorem below_injective {d : Path} {names names' : List OsString}
    (h : ∀ name ∈ names, IsEntryName name) (h' : ∀ name ∈ names', IsEntryName name)
    (hsame : (d.below names).same (d.below names') = true) : names = names' := by
  rw [same, beq_iff_eq, components_below d h, components_below d h'] at hsame
  exact (List.map_injective_iff.mpr fun _ _ => Component.name.inj) (List.append_cancel_left hsame)

end Path

/-! ### Source files -/

/-- A name with one of the extensions of source files, and something before it. -/
def IsSourceName (name : OsString) : Prop :=
  ∃ (stem : List UInt8) (extension : OsString), stem ≠ [] ∧
    extension ∈ sourceExtensions ∧ name.bytes = stem ++ dot :: extension.bytes

theorem Path.extensionOf?_eq_some {name extension : List UInt8} :
    extensionOf? name = some extension ↔
      ∃ stem, stem ≠ [] ∧ dot ∉ extension ∧ name = stem ++ dot :: extension := by
  constructor
  · intro h
    have hsplit := List.takeWhile_append_dropWhile (p := (· != dot)) (l := name.reverse)
    have hending : dot ∉ name.reverse.takeWhile (· != dot) := fun hmem => by
      simpa using List.mem_takeWhile_imp hmem
    unfold extensionOf? at h
    split at h
    · cases h
    · cases h
    next hne hne' =>
      cases h
      cases hdrop : name.reverse.dropWhile (· != dot) with
      | nil => exact absurd hdrop hne
      | cons b rest =>
        obtain rfl : b = dot := by
          simpa [hdrop] using List.head_dropWhile_not (· != dot) (l := name.reverse)
        refine ⟨rest.reverse, ?_, ?_, ?_⟩
        · intro hrest
          rw [List.reverse_eq_nil_iff] at hrest
          exact hne' dot (by rw [hdrop, hrest])
        · rwa [List.mem_reverse]
        · rw [hdrop] at hsplit
          simpa using (congrArg List.reverse hsplit).symm
  · rintro ⟨stem, hstem, hdot, rfl⟩
    have hpos : ∀ c ∈ extension.reverse, (c != dot) = true := by
      intro c hc
      rw [bne_iff_ne]
      rintro rfl
      exact hdot (List.mem_reverse.mp hc)
    have hrev : (stem ++ dot :: extension).reverse = extension.reverse ++ dot :: stem.reverse := by
      simp
    cases hlast : stem.reverse with
    | nil => exact absurd (List.reverse_eq_nil_iff.mp hlast) hstem
    | cons c front =>
      unfold extensionOf?
      rw [hrev, List.dropWhile_append_of_pos hpos, List.takeWhile_append_of_pos hpos, hlast]
      simp

theorem no_dot_of_sourceExtensions {extension : OsString}
    (h : extension ∈ sourceExtensions) : dot ∉ extension.bytes := by
  revert extension
  decide

theorem Path.isSource_join (d : Path) {name : OsString} (h : IsEntryName name) :
    (d.join name).isSource = true ↔ IsSourceName name := by
  have hextension : (d.join name).extension? = (extensionOf? name.bytes).map OsString.mk := by
    rw [extension?, fileName?, components_join d h, List.getLast?_concat]
    rfl
  rw [isSource, hextension, Option.any_map, Option.any_eq_true]
  constructor
  · rintro ⟨extension, hextension, hmem⟩
    obtain ⟨stem, hstem, -, hname⟩ := extensionOf?_eq_some.mp hextension
    exact ⟨stem, ⟨extension⟩, hstem, List.mem_of_elem_eq_true hmem, hname⟩
  · rintro ⟨stem, extension, hstem, hmem, hname⟩
    refine ⟨extension.bytes, ?_, List.elem_eq_true_of_mem hmem⟩
    exact extensionOf?_eq_some.mpr ⟨stem, hstem, no_dot_of_sourceExtensions hmem, hname⟩

end ModuleScan
