import IndentedGrammar.Files.Tree
import IndentedGrammar.Proofs.Files.Path

namespace IndentedGrammar

namespace FileTree

section

variable {P : FileTree → Prop} {Q : List (String × FileTree) → Prop} [DecidablePred Q]

mutual

def decideFrom (hfile : ∀ bytes, P (.file bytes)) (hspecial : ∀ bytes, P (.special bytes))
    (hdirectory : ∀ entries, P (.directory entries) ↔ Q entries ∧ ∀ e ∈ entries, P e.2) :
    (t : FileTree) → Decidable (P t)
  | .file bytes => .isTrue (hfile bytes)
  | .special bytes => .isTrue (hspecial bytes)
  | .directory entries =>
    have := decideAllFrom hfile hspecial hdirectory entries
    decidable_of_iff _ (hdirectory entries).symm

def decideAllFrom (hfile : ∀ bytes, P (.file bytes)) (hspecial : ∀ bytes, P (.special bytes))
    (hdirectory : ∀ entries, P (.directory entries) ↔ Q entries ∧ ∀ e ∈ entries, P e.2) :
    (entries : List (String × FileTree)) → Decidable (∀ e ∈ entries, P e.2)
  | [] => .isTrue (List.forall_mem_nil _)
  | (_, there) :: entries =>
    have := decideFrom hfile hspecial hdirectory there
    have := decideAllFrom hfile hspecial hdirectory entries
    decidable_of_iff _ List.forall_mem_cons.symm

end

end

inductive WellNamed : FileTree → Prop
  | file (bytes : ByteArray) : WellNamed (.file bytes)
  | special (bytes : Option ByteArray) : WellNamed (.special bytes)
  | directory {entries : List (String × FileTree)} : (∀ e ∈ entries, IsName e.1) →
      (∀ e ∈ entries, WellNamed e.2) → WellNamed (.directory entries)

theorem wellNamed_directory_iff (entries : List (String × FileTree)) :
    (directory entries).WellNamed ↔ (∀ e ∈ entries, IsName e.1) ∧ ∀ e ∈ entries, e.2.WellNamed :=
  ⟨fun | .directory hnames hentries => ⟨hnames, hentries⟩, fun h => .directory h.1 h.2⟩

instance : DecidablePred WellNamed := decideFrom .file .special wellNamed_directory_iff

theorem WellNamed.isName_of_mem {entries : List (String × FileTree)} (h : WellNamed (.directory entries)) :
    ∀ e ∈ entries, IsName e.1 := ((wellNamed_directory_iff entries).1 h).1

theorem WellNamed.of_mem {entries : List (String × FileTree)} (h : WellNamed (.directory entries)) :
    ∀ e ∈ entries, e.2.WellNamed := ((wellNamed_directory_iff entries).1 h).2

theorem mem_of_lookup {entries : List (String × FileTree)} {name : String} {there : FileTree}
    (h : entries.lookup name = some there) : (name, there) ∈ entries := by
  obtain ⟨before, after, rfl, -⟩ := List.lookup_eq_some_iff.1 h
  exact List.mem_append_right before List.mem_cons_self

end FileTree

/-- The names in the tree and those on the way to the current directory are proper, as they are in every
file system. -/
structure Workspace.WellNamed (w : Workspace) : Prop where
  tree : w.tree.WellNamed
  here : ∀ part ∈ w.here, IsName part

theorem Workspace.WellNamed.resolve {w : Workspace} {p : Path} (h : w.WellNamed)
    (hp : ∀ part ∈ p.parts, part ≠ ".." → IsName part) : (w.resolve p).Plain :=
  Path.plain_resolve h.here hp

end IndentedGrammar
