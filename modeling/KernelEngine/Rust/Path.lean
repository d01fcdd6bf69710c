import KernelEngine.Lib.Lexical
import KernelEngine.Rust.Text

namespace KernelEngine.Rust.Path
open Lexical

/-- The pieces of a path between its slashes. -/
def pieces (p : Str) : List Str := p.splitOn '/'

def isAbsolute (p : Str) : Prop := p.head? = some '/'

instance (p : Str) : Decidable (isAbsolute p) := inferInstanceAs (Decidable (_ = _))

/-- `PathBuf::join`: an absolute argument replaces the base, any other is put
behind it with one separator where the base does not end in one. -/
def join (dir p : Str) : Str :=
  if isAbsolute p then p
  else if dir = [] ∨ dir.getLast? = some '/' then dir ++ p
  else dir ++ '/' :: p

def segOf (piece : Str) : Option (Seg Str) :=
  if piece = [] ∨ piece = ['.'] then none
  else if piece = ['.', '.'] then some .up
  else some (.name piece)

/-- `Path::components`: repeated and trailing slashes vanish, and so does `.`
everywhere but at the start of a relative path. -/
def components (p : Str) : List (Seg Str) :=
  (if isAbsolute p then [.root] else if (pieces p).head? = some ['.'] then [.cur] else []) ++
    (pieces p).filterMap segOf

def normalForm (p : Str) : NormalPath Str := resolve (components p)

/-- `Path::extension`: what follows the last dot of the file name, unless that
dot begins it. -/
def extension (p : Str) : Option Str :=
  match (components p).getLast? with
  | some (.name n) =>
    match n.reverse.span (· ≠ '.') with
    | (after, _ :: _ :: _) => some after.reverse
    | _ => none
  | _ => none

/-- Paths that name a directory whatever the file system holds. -/
def NamesDirectory (p : Str) : Prop :=
  (pieces p).getLast? = some [] ∨ (pieces p).getLast? = some ['.'] ∨
    (pieces p).getLast? = some ['.', '.']

instance (p : Str) : Decidable (NamesDirectory p) := by
  unfold NamesDirectory
  infer_instance

theorem pieces_ne_nil (p : Str) : pieces p ≠ [] := List.splitOn_ne_nil _ _

theorem pieces_slash (d q : Str) : pieces (d ++ '/' :: q) = pieces d ++ pieces q := by
  have hsep : (fun c => c == '/') '/' = true := by decide
  exact List.splitOnP_append_cons d q hsep

theorem segOf_ne_root (piece : Str) : segOf piece ≠ some .root := by
  unfold segOf
  split_ifs <;> simp

/-- The normal form read off the pieces: only a leading slash matters besides. -/
theorem normalForm_eq (p : Str) : normalForm p =
    ((pieces p).filterMap segOf).foldl NormalPath.push
      (if isAbsolute p then NormalPath.empty.push .root else NormalPath.empty) := by
  unfold normalForm components resolve
  rw [List.foldl_append]
  split_ifs <;> rfl

theorem root_not_mem_components {q : Str} (hq : ¬ isAbsolute q) : Seg.root ∉ components q := by
  unfold components
  rw [if_neg hq, List.mem_append, List.mem_filterMap]
  rintro (h | ⟨piece, -, h⟩)
  · split_ifs at h <;> simp at h
  · exact segOf_ne_root piece h

theorem foldl_components {q : Str} (hq : ¬ isAbsolute q) (n : NormalPath Str) :
    (components q).foldl NormalPath.push n =
      ((pieces q).filterMap segOf).foldl NormalPath.push n := by
  unfold components
  rw [if_neg hq, List.foldl_append]
  split_ifs <;> rfl

/-- A base ending in a slash and a base followed by one read alike. -/
theorem filterMap_pieces_join {dir q : Str} (hq : ¬ isAbsolute q) :
    (pieces (join dir q)).filterMap segOf =
      (pieces dir).filterMap segOf ++ (pieces q).filterMap segOf := by
  unfold join
  rw [if_neg hq]
  split_ifs with h
  · rcases h with rfl | h
    · rfl
    · obtain ⟨d, rfl⟩ : ∃ d, dir = d ++ ['/'] := List.getLast?_eq_some_iff.mp h
      have hempty : (pieces []).filterMap segOf = [] := by decide
      rw [List.append_assoc, List.singleton_append, pieces_slash, pieces_slash,
        List.filterMap_append, List.filterMap_append, hempty, List.append_nil]
  · rw [pieces_slash, List.filterMap_append]

theorem isAbsolute_join {dir q : Str} (hq : ¬ isAbsolute q) :
    isAbsolute (join dir q) ↔ isAbsolute dir := by
  unfold join
  rw [if_neg hq]
  cases dir with
  | nil => simpa [isAbsolute] using hq
  | cons c d => split_ifs <;> simp [isAbsolute]

/-- Joining a relative path is following its normal form from the base's. -/
theorem normalForm_join {dir q : Str} (hq : ¬ isAbsolute q) :
    normalForm (join dir q) = (normalForm dir).append (normalForm q) := by
  have happ := resolve_append (components dir) (components q) (root_not_mem_components hq)
  rw [← normalForm, ← normalForm] at happ
  rw [← happ, resolve, List.foldl_append, foldl_components hq, ← resolve, ← normalForm,
    normalForm_eq, normalForm_eq, filterMap_pieces_join hq, List.foldl_append]
  simp only [isAbsolute_join hq]

theorem join_of_absolute {dir q : Str} (hq : isAbsolute q) : join dir q = q := if_pos hq

theorem namesDirectory_join {dir q : Str} : NamesDirectory (join dir q) ↔ NamesDirectory q := by
  have hlast : (pieces (join dir q)).getLast? = (pieces q).getLast? := by
    unfold join
    split_ifs with hq h
    · rfl
    · rcases h with rfl | h
      · rfl
      · obtain ⟨d, rfl⟩ : ∃ d, dir = d ++ ['/'] := List.getLast?_eq_some_iff.mp h
        rw [List.append_assoc, List.singleton_append, pieces_slash,
          List.getLast?_append_of_ne_nil _ (pieces_ne_nil q)]
    · rw [pieces_slash, List.getLast?_append_of_ne_nil _ (pieces_ne_nil q)]
  rw [NamesDirectory, NamesDirectory, hlast]

example : normalForm "./a//b/../../../c".toList = ⟨false, 1, ["c".toList], by decide⟩ := by decide

end KernelEngine.Rust.Path
