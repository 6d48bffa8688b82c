import Mathlib.Data.List.DropRight
import BraceTemplate.Files.Path
import BraceTemplate.Proofs.Source.Plain

/-!
Paths: what the lead and the pieces of a path are when something is put below it, and that the
directory of a file below a directory is that directory again.
-/
namespace BraceTemplate

namespace Text

theorem splitAll_ne_nil (sep : Char → Bool) (cs : List Char) : splitAll sep cs ≠ [] := by
  cases cs with
  | nil => simp [splitAll]
  | cons c cs =>
    rw [splitAll]
    split
    · simp
    · split <;> simp

/-- A separator ends a piece, whatever stands on its two sides. -/
theorem splitAll_below {sep : Char → Bool} {c : Char} (hc : sep c = true) (cs ds : List Char) :
    splitAll sep (cs ++ c :: ds) = splitAll sep cs ++ splitAll sep ds := by
  induction cs with
  | nil => simp [splitAll, hc]
  | cons d cs ih =>
    have hne := splitAll_ne_nil sep cs
    cases hcs : splitAll sep cs with
    | nil => exact absurd hcs hne
    | cons p ps =>
      rw [hcs] at ih
      by_cases hd : sep d = true <;> simp [splitAll, hd, ih, hcs]

theorem of_mem_splitAll {sep : Char → Bool} {cs : List Char} :
    ∀ p ∈ splitAll sep cs, ∀ d ∈ p, sep d = false := by
  induction cs with
  | nil => simp [splitAll]
  | cons c cs ih =>
    by_cases hc : sep c = true
    · simpa [splitAll, hc] using ih
    · cases hcs : splitAll sep cs with
      | nil => exact absurd hcs (splitAll_ne_nil sep cs)
      | cons p ps =>
        rw [hcs] at ih
        simp only [List.forall_mem_cons] at ih
        simpa [splitAll, hc, hcs] using ih

end Text

namespace Files.Path

/-- A name between slashes. -/
def IsPiece (p : List Char) : Prop := ∀ c ∈ p, isSlash c = false

instance (p : List Char) : Decidable (IsPiece p) :=
  List.decidableBAll (fun c => isSlash c = false) p

/-! Pieces. -/

theorem joinSlash_cons (p : List Char) (ps : List (List Char)) :
    joinSlash (p :: ps) = p ++ ps.flatMap ('/' :: ·) := by
  induction ps generalizing p with
  | nil => simp [joinSlash]
  | cons q ps ih =>
    have ih := ih q
    rw [joinSlash] at ih ⊢
    rw [List.intercalate_cons_cons, ih, List.flatMap_cons]
    simp

/-- Joined pieces end with the last one. -/
theorem joinSlash_concat (ps : List (List Char)) (p : List Char) :
    ∃ before, joinSlash (ps ++ [p]) = before ++ p := by
  cases ps with
  | nil => exact ⟨[], by simp [joinSlash]⟩
  | cons q ps =>
    refine ⟨q ++ ps.flatMap ('/' :: ·) ++ ['/'], ?_⟩
    simp [joinSlash_cons]

theorem joinSlash_prefix {ps qs : List (List Char)} (h : qs <+: ps) :
    joinSlash qs <+: joinSlash ps := by
  obtain ⟨rest, rfl⟩ := h
  cases qs with
  | nil => exact List.nil_prefix
  | cons q qs =>
    refine ⟨rest.flatMap ('/' :: ·), ?_⟩
    rw [List.cons_append, joinSlash_cons, joinSlash_cons, List.flatMap_append, List.append_assoc]

theorem splitAll_joinSlash {ps : List (List Char)} (hne : ps ≠ []) (hps : ∀ p ∈ ps, IsPiece p) :
    Text.splitAll isSlash (joinSlash ps) = ps := by
  cases ps with
  | nil => exact absurd rfl hne
  | cons p ps =>
    rw [joinSlash_cons]
    rw [List.forall_mem_cons] at hps
    exact Text.splitAll_joined rfl hps.1 hps.2

theorem joinSlash_splitAll (path : List Char) : joinSlash (Text.splitAll isSlash path) = path := by
  induction path with
  | nil => rfl
  | cons c path ih =>
    cases hpath : Text.splitAll isSlash path with
    | nil => exact absurd hpath (Text.splitAll_ne_nil isSlash path)
    | cons p ps =>
      rw [hpath, joinSlash_cons] at ih
      by_cases hc : c = '/'
      · subst hc
        have hsplit : Text.splitAll isSlash ('/' :: path) = [] :: p :: ps := by
          simp [Text.splitAll, isSlash, hpath]
        rw [hsplit, joinSlash_cons, List.flatMap_cons, List.cons_append, ih]
        rfl
      · have hsplit : Text.splitAll isSlash (c :: path) = (c :: p) :: ps := by
          simp [Text.splitAll, isSlash, hc, hpath]
        rw [hsplit, joinSlash_cons, List.cons_append, ih]

/-- A path starts with its lead. -/
theorem lead_append_drop (path : List Char) : lead path ++ path.drop (lead path).length = path := by
  unfold lead
  split <;> rfl

theorem lead_below {dir : List Char} (hdir : dir ≠ []) (name : List Char) :
    lead (dir ++ '/' :: name) = lead dir := by
  match dir, hdir with
  | [c], _ =>
    by_cases hslash : c = '/'
    · subst hslash
      rfl
    · by_cases hdot : c = '.'
      · subst hdot
        rfl
      · simp [lead, hslash, hdot]
  | c :: d :: dir, _ =>
    by_cases hslash : c = '/'
    · subst hslash
      rfl
    · by_cases hdot : c = '.'
      · subst hdot
        by_cases hd : d = '/'
        · subst hd
          rfl
        · simp [lead, hd]
      · simp [lead, hslash, hdot]

theorem pieces_below {dir name : List Char} (hdir : dir ≠ []) (hname : IsPiece name) :
    pieces (dir ++ '/' :: name) = pieces dir ++ [name] := by
  have hlength : (lead dir).length ≤ dir.length := by
    have := congrArg List.length (lead_append_drop dir)
    rw [List.length_append] at this
    omega
  rw [pieces, lead_below hdir, List.drop_append_of_le_length hlength, Text.splitAll_below rfl,
    Text.splitAll_plain hname, pieces]

theorem pieces_isPiece (path : List Char) : ∀ p ∈ pieces path, IsPiece p := Text.of_mem_splitAll

/-- A path that starts with a name has no lead. -/
theorem lead_piece {p : List Char} (hp : IsPiece p) (hvoid : isVoid p = false) (cs : List Char) :
    lead (p ++ cs) = [] := by
  cases p with
  | nil => exact absurd hvoid (by decide)
  | cons c p =>
    have hc : c ≠ '/' := by simpa [isSlash] using hp c List.mem_cons_self
    by_cases hdot : c = '.'
    · subst hdot
      cases p with
      | nil => exact absurd hvoid (by decide)
      | cons d p =>
        have hd : d ≠ '/' := by simpa [isSlash] using hp d (by simp)
        simp [lead, hd]
    · simp [lead, hc, hdot]

/-- Behind a leading dot there is a slash or nothing, and without a lead there is a name. -/
theorem lead_cases (path : List Char) :
    lead path = ['/'] ∨
    (lead path = ['.'] ∧ ∃ ps, pieces path = [] :: ps) ∨
    (lead path = [] ∧ (path = [] ∨ ∃ p ps, pieces path = p :: ps ∧ isVoid p = false)) := by
  have hpath := joinSlash_splitAll path
  cases hsplit : Text.splitAll isSlash path with
  | nil => exact absurd hsplit (Text.splitAll_ne_nil isSlash path)
  | cons p ps =>
    rw [hsplit, joinSlash_cons] at hpath
    by_cases hp : isVoid p = true
    · have hp : p = [] ∨ p = ['.'] := by simpa [isVoid] using hp
      rcases hp with rfl | rfl
      · cases ps with
        | nil => exact .inr (.inr ⟨by rw [← hpath]; rfl, .inl hpath.symm⟩)
        | cons q ps => exact .inl (by rw [← hpath]; rfl)
      · cases ps with
        | nil => exact .inr (.inl ⟨by rw [← hpath]; rfl, [], by rw [← hpath]; rfl⟩)
        | cons q ps =>
          rw [← hpath]
          exact .inr (.inl ⟨rfl, Text.splitAll isSlash (q ++ ps.flatMap ('/' :: ·)), rfl⟩)
    · have hvoid : isVoid p = false := by simpa using hp
      have hpiece : IsPiece p := Text.of_mem_splitAll p (hsplit ▸ List.mem_cons_self)
      have hlead : lead path = [] := by
        rw [← hpath]
        exact lead_piece hpiece hvoid _
      refine .inr (.inr ⟨hlead, .inr ⟨p, ps, ?_, hvoid⟩⟩)
      rw [pieces, hlead]
      exact hsplit

theorem first_of_no_lead {path : List Char} (h : lead path = []) :
    path = [] ∨ ∃ p ps, pieces path = p :: ps ∧ isVoid p = false := by
  rcases lead_cases path with hlead | ⟨hlead, -⟩ | ⟨-, hfirst⟩
  · rw [h] at hlead
    cases hlead
  · rw [h] at hlead
    cases hlead
  · exact hfirst

/-- A path is spelled again with some of its first pieces, the last of which names something. -/
structure Spells (path : List Char) (ps : List (List Char)) : Prop where
  first : ps <+: pieces path
  last : ∀ p ∈ ps.getLast?, isVoid p = false
  named : lead path = [] → ps ≠ []

namespace Spells

variable {path : List Char} {ps : List (List Char)}

theorem isPiece (h : Spells path ps) : ∀ p ∈ ps, IsPiece p :=
  fun p hp => pieces_isPiece path p (h.first.subset hp)

/-- Without a lead the first piece names something. -/
theorem first_named (h : Spells path ps) (hlead : lead path = []) :
    ∃ p qs, ps = p :: qs ∧ isVoid p = false := by
  cases ps with
  | nil => exact absurd rfl (h.named hlead)
  | cons p qs =>
    refine ⟨p, qs, rfl, ?_⟩
    have hfirst := h.first
    rcases first_of_no_lead hlead with rfl | ⟨q, rest, hpieces, hq⟩
    · -- The only piece of the empty path is void, so it cannot be the last one.
      have hone : qs = [] := by simpa [pieces, lead, Text.splitAll] using hfirst.length_le
      subst hone
      exact h.last p rfl
    · rw [hpieces, List.cons_prefix_cons] at hfirst
      rwa [hfirst.1]

theorem lead_eq (h : Spells path ps) : lead (lead path ++ joinSlash ps) = lead path := by
  rcases lead_cases path with hlead | ⟨hlead, qs, hpieces⟩ | ⟨hlead, -⟩
  · rw [hlead]
    rfl
  · have hfirst := h.first
    rw [hpieces] at hfirst
    rw [hlead]
    cases ps with
    | nil => rfl
    | cons p ps =>
      rw [List.cons_prefix_cons] at hfirst
      obtain ⟨rfl, -⟩ := hfirst
      cases ps with
      | nil => exact absurd (h.last [] rfl) (by decide)
      | cons p ps =>
        rw [joinSlash_cons]
        rfl
  · obtain ⟨p, qs, rfl, hp⟩ := h.first_named hlead
    rw [hlead, List.nil_append, joinSlash_cons]
    exact lead_piece (h.isPiece p List.mem_cons_self) hp _

theorem pieces_eq (h : Spells path ps) :
    pieces (lead path ++ joinSlash ps) = if ps = [] then [[]] else ps := by
  rw [pieces, h.lead_eq, List.drop_left]
  split
  · subst ps
    rfl
  · exact splitAll_joinSlash ‹_› h.isPiece

theorem ne_nil (h : Spells path ps) : lead path ++ joinSlash ps ≠ [] := by
  by_cases hlead : lead path = []
  · obtain ⟨p, qs, rfl, hp⟩ := h.first_named hlead
    have hp : p ≠ [] := by
      rintro rfl
      exact absurd hp (by decide)
    simp [joinSlash_cons, hp]
  · simp [hlead]

/-- No slash stands at the end, except for the root. -/
theorem root_or_concat (h : Spells path ps) :
    lead path ++ joinSlash ps = ['/'] ∨
      ∃ before c, lead path ++ joinSlash ps = before ++ [c] ∧ isSlash c = false := by
  rcases List.eq_nil_or_concat ps with rfl | ⟨qs, p, rfl⟩
  · rcases lead_cases path with hlead | ⟨hlead, -⟩ | ⟨hlead, -⟩
    · exact .inl (by rw [hlead]; rfl)
    · exact .inr ⟨[], '.', by rw [hlead]; rfl, rfl⟩
    · exact absurd rfl (h.named hlead)
  · rw [List.concat_eq_append] at h ⊢
    have hvoid : isVoid p = false := h.last p (by simp)
    obtain ⟨cs, c, hp⟩ : ∃ cs c, p = cs ++ [c] := by
      rcases List.eq_nil_or_concat p with rfl | ⟨cs, c, hp⟩
      · exact absurd hvoid (by decide)
      · exact ⟨cs, c, by simpa using hp⟩
    have hc : isSlash c = false := h.isPiece p (by simp) c (by simp [hp])
    obtain ⟨before, hjoin⟩ := joinSlash_concat qs p
    exact .inr ⟨lead path ++ before ++ cs, c, by rw [hjoin, hp]; simp, hc⟩

end Spells

/-! Directories. -/

/-- A directory without the pieces at its end that name nothing. -/
def tidy (dir : List Char) : List Char := lead dir ++ joinSlash ((pieces dir).rdropWhile isVoid)

theorem parent?_below {dir name : List Char} (hdir : dir ≠ []) (hname : IsPiece name)
    (hvoid : isVoid name = false) : parent? (dir ++ '/' :: name) = some (tidy dir) := by
  rw [parent?, pieces_below hdir hname, lead_below hdir, List.reverse_append,
    List.reverse_singleton, List.singleton_append, List.dropWhile_cons_of_neg (by simp [hvoid])]
  rfl

section Tidy

variable {dir : List Char}

theorem last_rdropWhile {ps : List (List Char)} {p : List Char}
    (hp : p ∈ (ps.rdropWhile isVoid).getLast?) : isVoid p = false := by
  have hne : ps.rdropWhile isVoid ≠ [] := by
    intro hnone
    rw [hnone] at hp
    cases hp
  have hlast := List.rdropWhile_last_not isVoid ps hne
  rw [List.getLast?_eq_some_getLast hne, Option.mem_some_iff] at hp
  rw [hp] at hlast
  simpa using hlast

theorem spells_tidy (hdir : dir ≠ []) : Spells dir ((pieces dir).rdropWhile isVoid) where
  first := List.rdropWhile_prefix isVoid _
  last _ hp := last_rdropWhile hp
  named hlead := by
    rcases first_of_no_lead hlead with rfl | ⟨p, ps, hpieces, hp⟩
    · exact absurd rfl hdir
    · rw [Ne, List.rdropWhile_eq_nil_iff, hpieces]
      simp [hp]

theorem tidy_ne_nil (hdir : dir ≠ []) : tidy dir ≠ [] := (spells_tidy hdir).ne_nil

/-- Nothing is left to tidy. -/
theorem tidy_tidy (hdir : dir ≠ []) : tidy (tidy dir) = tidy dir := by
  have hlead : lead (tidy dir) = lead dir := (spells_tidy hdir).lead_eq
  have hpieces : pieces (tidy dir) = _ := (spells_tidy hdir).pieces_eq
  have hkept : (pieces (tidy dir)).rdropWhile isVoid = (pieces dir).rdropWhile isVoid := by
    rw [hpieces]
    split
    · rename_i hnone
      rw [hnone]
      rfl
    · exact List.rdropWhile_idempotent isVoid (pieces dir)
  rw [tidy, hlead, hkept, tidy]

theorem isAbsolute_piece {name : List Char} (hname : IsPiece name) : isAbsolute name = false := by
  cases name with
  | nil => rfl
  | cons c name =>
    have hc : c ≠ '/' := by simpa [isSlash] using hname c List.mem_cons_self
    simp [isAbsolute, hc]

theorem join_tidy {name : List Char} (hdir : dir ≠ []) (hname : IsPiece name) :
    join (tidy dir) name = trimSlashes (tidy dir) ++ '/' :: name := by
  have hrelative := isAbsolute_piece hname
  rcases (spells_tidy hdir).root_or_concat with hroot | ⟨before, c, hconcat, hc⟩
  · rw [tidy, hroot]
    simp [join, hrelative, trimSlashes, isSlash]
  · have hne : c ≠ '/' := by simpa [isSlash] using hc
    rw [tidy, hconcat]
    simp [join, hrelative, trimSlashes, hc, hne]

/-- A file below a tidy directory has that directory for its own. -/
theorem directory?_join {name : List Char} (hdir : dir ≠ []) (hname : IsPiece name)
    (hvoid : isVoid name = false) : directory? (join (tidy dir) name) = some (tidy dir) := by
  have hne := tidy_ne_nil hdir
  have hparent : parent? (join (tidy dir) name) = some (tidy dir) := by
    rw [join_tidy hdir hname]
    rcases (spells_tidy hdir).root_or_concat with hroot | ⟨before, c, hconcat, hc⟩
    · have hroot : tidy dir = ['/'] := hroot
      have hpieces : pieces ('/' :: name) = [name] := Text.splitAll_plain hname
      rw [hroot]
      simp [trimSlashes, isSlash, parent?, hpieces, hvoid, lead, joinSlash]
    · have htrim : trimSlashes (tidy dir) = tidy dir := by
        rw [tidy, hconcat]
        simp [trimSlashes, hc]
      rw [htrim, parent?_below hne hname hvoid, tidy_tidy hdir]
  rw [directory?, hparent, Option.filter_some, if_pos (by simpa using hne)]

/-- Tidying only cuts at the end. -/
theorem tidy_prefix (dir : List Char) : tidy dir <+: dir := by
  have hjoin : joinSlash ((pieces dir).rdropWhile isVoid) <+: joinSlash (pieces dir) :=
    joinSlash_prefix (List.rdropWhile_prefix isVoid _)
  have hdir : lead dir ++ joinSlash (pieces dir) = dir := by
    rw [pieces, joinSlash_splitAll, lead_append_drop]
  have hprefix := (List.prefix_append_right_inj (lead dir)).mpr hjoin
  rwa [hdir] at hprefix

theorem isAbsolute_tidy (h : isAbsolute dir = true) : isAbsolute (tidy dir) = true := by
  have hne : tidy dir ≠ [] := tidy_ne_nil (by rintro rfl; cases h)
  obtain ⟨rest, hdir⟩ := tidy_prefix dir
  rw [← hdir, isAbsolute, List.head?_append_of_ne_nil _ hne] at h
  exact h

end Tidy

section Join

variable {base path : List Char}

theorem isAbsolute_join (h : isAbsolute base = true) : isAbsolute (join base path) = true := by
  cases base with
  | nil => cases h
  | cons c base =>
    unfold join
    split
    · assumption
    · split <;> exact h

theorem isAbsolute_below (hpath : path ≠ []) (name : List Char) :
    isAbsolute (path ++ '/' :: name) = isAbsolute path := by
  rw [isAbsolute, List.head?_append_of_ne_nil _ hpath, isAbsolute]

theorem join_below (hpath : path ≠ []) (name : List Char) :
    join base (path ++ '/' :: name) = join base path ++ '/' :: name := by
  unfold join
  rw [isAbsolute_below hpath]
  split
  · rfl
  · split <;> simp

theorem mem_join {c : Char} (h : c ∈ join base path) : c ∈ base ∨ c = '/' ∨ c ∈ path := by
  unfold join at h
  split at h
  · exact .inr (.inr h)
  · split at h
    · rcases List.mem_append.mp h with h | h
      · exact .inl h
      · exact .inr (.inr h)
    · rcases List.mem_append.mp h with h | h
      · exact .inl h
      · exact .inr (List.mem_cons.mp h)

end Join

end Files.Path
end BraceTemplate
