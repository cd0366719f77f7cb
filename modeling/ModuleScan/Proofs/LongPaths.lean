/-
  ModuleScan/Proofs/LongPaths.lean
  ================================
  **A directory that has too long a path.**

  A path may lead to a directory and leave no room for the name of an entry: dots and
  slashes make it long and lead nowhere else (`stayingPath`).  Then the path of a
  directory below it is too long for the system, although the path that was given is
  not.
-/
import ModuleScan.Proofs.Tree

namespace ModuleScan

/-- A dot and a slash, over and over. -/
def stayingPath (n : Nat) : Path := .mk (.ofList (List.replicate n ['.', '/']).flatten)

theorem stayingPath_text (n : Nat) :
    (stayingPath n).text = .ofList (List.replicate n ['.', '/']).flatten :=
  OsString.text_ofString _

theorem stayingPath_bytes (n : Nat) :
    (stayingPath n).bytes = (List.replicate n [dot, slash]).flatten := by
  induction n with
  | zero => rfl
  | succ n ih =>
    have hpair : (OsString.ofString (.ofList ['.', '/'])).bytes = [dot, slash] := by decide
    rw [stayingPath, Path.mk] at ih ⊢
    rw [List.replicate_succ, List.flatten_cons, String.ofList_append, OsString.bytes_append, ih,
      hpair, List.replicate_succ, List.flatten_cons]

namespace Node

variable {root : Node} {here : Location} {entries : List (OsString × Node)}

theorem walk_staying (hat : root.at? here = some (.directory entries)) {pieces : List OsString}
    (hpieces : ∀ piece ∈ pieces, piece = "" ∨ piece = ".")
    (atLink : Location → Path → List OsString → Except ReadFailure Location) :
    root.walk atLink here pieces = .ok here := by
  induction pieces with
  | nil => rfl
  | cons piece pieces ih =>
    obtain ⟨hpiece, hpieces⟩ := List.forall_mem_cons.mp hpieces
    have hstep : root.step here piece = .moved here := by
      rw [step, hat]
      rcases hpiece with rfl | rfl <;> rfl
    rw [walk_cons, hstep]
    exact ih hpieces

end Node

theorem splitSlashes_staying (n : Nat) :
    splitSlashes (List.replicate n [dot, slash]).flatten = List.replicate n [dot] ++ [[]] := by
  induction n with
  | zero => rfl
  | succ n ih =>
    have hhead := splitSlashes_append_slash [dot] (List.replicate n [dot, slash]).flatten
    rw [ih] at hhead
    exact hhead

theorem length_staying (n : Nat) : (stayingPath n).bytes.length = 2 * n := by
  rw [stayingPath_bytes, List.length_flatten, List.map_replicate, List.sum_replicate_nat]
  exact Nat.mul_comm n 2

theorem admissible_staying (n : Nat) : (stayingPath (n + 1)).Admissible where
  no_nul := by
    intro hnul
    rw [stayingPath_bytes] at hnul
    obtain ⟨pair, hpair, hmem⟩ := List.mem_flatten.mp hnul
    rw [List.eq_of_mem_replicate hpair] at hmem
    exact absurd hmem (by decide)
  ne_empty := by
    intro hempty
    have hlength := length_staying (n + 1)
    rw [hempty, List.length_nil] at hlength
    omega

theorem isAbsolute_staying (n : Nat) : (stayingPath (n + 1)).isAbsolute = false := by
  rw [Path.isAbsolute, stayingPath_bytes, List.replicate_succ]
  rfl

theorem length_join (d : Path) (name : OsString) :
    d.bytes.length + name.bytes.length ≤ (d.join name).bytes.length := by
  rw [Path.join]
  split <;> simp only [List.length_append, List.length_cons] <;> omega

namespace Node

variable {root : Node} {here : Location} {entries : List (OsString × Node)} {n : Nat}

/-- As long as it is not too long itself, the path leads to the working directory. -/
theorem lookup_staying (hat : root.at? here = some (.directory entries))
    (hshort : 2 * (n + 1) < maxPath) :
    root.lookup here (stayingPath (n + 1)) = .ok (.directory entries) := by
  have hpieces : ∀ piece ∈ (stayingPath (n + 1)).pieces, piece = "" ∨ piece = "." := by
    intro piece hpiece
    rw [Path.pieces, stayingPath_bytes, splitSlashes_staying] at hpiece
    obtain ⟨bytes, hbytes, rfl⟩ := List.mem_map.mp hpiece
    rcases List.mem_append.mp hbytes with hbytes | hbytes
    · rw [List.eq_of_mem_replicate hbytes]
      exact .inr rfl
    · rw [List.mem_singleton.mp hbytes]
      exact .inl rfl
  have horigin : (stayingPath (n + 1)).origin here = here := by
    rw [Path.origin, isAbsolute_staying]
    rfl
  have hlocate : root.locate here (stayingPath (n + 1)) = .ok here := by
    rw [locate_of_admissible (admissible_staying n), length_staying,
      if_neg (Nat.not_le.mpr hshort), horigin]
    exact walk_staying hat hpieces _
  exact lookup_eq_ok.mpr ⟨here, hlocate, hat⟩

/-- A name may be too long for it. -/
theorem lookup_join_staying (root : Node) (here : Location) {name : OsString}
    (hname : IsEntryName name) (hlong : maxPath ≤ 2 * (n + 1) + name.bytes.length) :
    root.lookup here ((stayingPath (n + 1)).join name) = .error .nameTooLong := by
  have hlength := length_join (stayingPath (n + 1)) name
  rw [length_staying] at hlength
  rw [lookup, locate_of_admissible ((admissible_staying n).join hname),
    if_pos (Nat.le_trans hlong hlength)]

end Node

/-- A directory, with nothing in it but an empty directory. -/
def hollowRoot : Node := .directory [("dddddddd", .directory [])]

theorem lookup_hollowRoot {n : Nat} (hshort : 2 * (n + 1) < Node.maxPath) :
    (hollowRoot.files []).lookup (stayingPath (n + 1)) = .ok hollowRoot := by
  rw [Node.files_lookup]
  exact Node.lookup_staying rfl hshort

theorem lookup_join_hollowRoot {n : Nat} (hlong : Node.maxPath ≤ 2 * (n + 1) + 8) :
    (hollowRoot.files []).lookup ((stayingPath (n + 1)).join "dddddddd") =
      .error .nameTooLong := by
  have hlength : (OsString.ofString "dddddddd").bytes.length = 8 := by decide
  rw [Node.files_lookup]
  exact Node.lookup_join_staying hollowRoot [] (by decide) (by rwa [hlength])

end ModuleScan
