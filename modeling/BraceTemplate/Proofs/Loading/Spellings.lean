import BraceTemplate.Files.Tree
import BraceTemplate.Proofs.Computation
import BraceTemplate.Proofs.Loading.Paths

/-!
Spellings: paths that differ only in pieces that name nothing have the same key. They lie in the
same directory, and those of them that lead anywhere lead to the same file or directory.
-/
namespace BraceTemplate.Files

namespace Path

/-- Whether a piece names something. -/
def names (piece : List Char) : Bool := !isVoid piece

/-! Directories. -/

theorem isAbsolute_iff (path : List Char) : isAbsolute path = true ↔ (key path).1 = ['/'] := by
  change _ ↔ lead path = ['/']
  cases path with
  | nil => simp [isAbsolute, lead]
  | cons c cs =>
    unfold lead isAbsolute
    split
    · rename_i h
      simp [(List.cons.inj h).1]
    · rename_i h
      simp [(List.cons.inj h).1]
    · rename_i h
      simp [(List.cons.inj h).1]
    · rename_i hslash _ _
      have hc : c ≠ '/' := fun h => hslash cs (by rw [h])
      simp [hc]

theorem names_splitAll (path : List Char) :
    (Text.splitAll isSlash path).filter names = (key path).2 := by
  have hlead := lead_append_drop path
  have hkey : (key path).2 = (pieces path).filter names := rfl
  rw [hkey]
  rcases lead_cases path with h | ⟨h, ps, hps⟩ | ⟨h, -⟩
  · rw [pieces, h]
    rw [h] at hlead
    conv_lhs => rw [← hlead]
    rfl
  · rw [pieces, h] at hps ⊢
    rw [h] at hlead
    change '.' :: path.drop 1 = path at hlead
    change Text.splitAll isSlash (path.drop 1) = [] :: ps at hps
    conv_lhs => rw [← hlead]
    change _ = (Text.splitAll isSlash (path.drop 1)).filter names
    generalize path.drop 1 = cs at hps
    have hsplit : Text.splitAll isSlash ('.' :: cs) = ['.'] :: ps := by
      simp [Text.splitAll, isSlash, hps]
    rw [hsplit, hps]
    rfl
  · rw [pieces, h]
    rfl

end Path

namespace Tree

variable {t : Tree}

theorem enter_outside {piece : Name} {p : Place} (h : t.enter .outside piece = .ok p) :
    p = .outside := by
  simp only [enter] at h
  split at h
  · cases h
    rfl
  · cases h

/-- A directory with directories on the whole way down to it. -/
def Open (t : Tree) (place : List Name) : Prop :=
  ∀ above, above <+: place → t.isDirectory above = true

theorem Open.top (t : Tree) : t.Open [] := by
  intro above habove
  rw [List.prefix_nil.mp habove]
  rfl

/-- The place of a path, found from the top of the tree or above it. -/
theorem place?_eq_ok {path : List Char} {p : Place} (h : t.place? path = .ok p) :
    (Text.splitAll Path.isSlash path).foldlM t.enter
      (if Path.isAbsolute path then .outside else .directory []) = .ok p := by
  unfold place? at h
  split at h
  · cases h
  · exact h

theorem read_eq_ok {path : List Char} {e : Entry} (h : t.read path = .ok e) :
    ∃ p, t.place? path = .ok p ∧ t.entry p = e := exists_ok_of_map h

/-- Pieces that name nothing make no difference to where a walk ends, if it ends anywhere. -/
theorem walk_names {pieces : List Name} {p q : Place} (h : pieces.foldlM t.enter p = .ok q) :
    (pieces.filter Path.names).foldlM t.enter p = .ok q := by
  induction pieces generalizing p with
  | nil => exact h
  | cons piece pieces ih =>
    rw [List.foldlM_cons] at h
    obtain ⟨p', hp', hrest⟩ := bind_eq_ok.mp h
    cases hvoid : Path.isVoid piece with
    | true =>
      have hpiece : piece = [] ∨ piece = ['.'] := by simpa [Path.isVoid] using hvoid
      have hstay : p' = p := by
        cases p with
        | directory place =>
          simp only [enter, if_pos hpiece] at hp'
          exact (Except.ok.inj hp').symm
        | outside => exact enter_outside hp'
        | file place file => cases hp'
      rw [List.filter_cons_of_neg (by simp [Path.names, hvoid])]
      exact ih (hstay ▸ hrest)
    | false =>
      rw [List.filter_cons_of_pos (by simp [Path.names, hvoid]), List.foldlM_cons, hp']
      exact ih hrest

/-- Spellings of one path that lead anywhere lead to one place. -/
theorem place?_key {path path' : List Char} {p p' : Place} (hkey : Path.key path = Path.key path')
    (h : t.place? path = .ok p) (h' : t.place? path' = .ok p') : p = p' := by
  have hwalk := walk_names (place?_eq_ok h)
  have hwalk' := walk_names (place?_eq_ok h')
  simp only [Path.names_splitAll, Path.isAbsolute_iff] at hwalk hwalk'
  rw [hkey, hwalk'] at hwalk
  exact (Except.ok.inj hwalk).symm

end Tree
end BraceTemplate.Files
