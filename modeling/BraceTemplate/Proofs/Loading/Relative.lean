import BraceTemplate.Proofs.Loading.Paths

/-!
Where a path leads by its text alone. A relative path that climbs no further than the names at the
end of a directory leads to the same place when it is resolved against the directory as when it is put
behind it; one that climbs further does not.
-/
namespace BraceTemplate.Files.Path

/-- Where a path leads by its text alone: so many steps above its start and from there through names,
the last of which comes first. -/
structure Place where
  absolute : Bool
  ups : Nat
  names : List (List Char)
  deriving DecidableEq

namespace Place

/-- The root, or the directory that relative paths start from. -/
def start (absolute : Bool) : Place := ⟨absolute, 0, []⟩

/-- One step up; nothing lies above the root. -/
def up (p : Place) : Place :=
  match p.names with
  | _ :: names => { p with names := names }
  | [] => if p.absolute then p else { p with ups := p.ups + 1 }

/-- On through one piece of a path. -/
def into (p : Place) (piece : List Char) : Place :=
  if isVoid piece then p
  else if piece = ['.', '.'] then p.up
  else { p with names := piece :: p.names }

/-- On through all pieces of a path. -/
def along (p : Place) (path : List Char) : Place := (Text.splitAll isSlash path).foldl into p

end Place

def place (path : List Char) : Place := (Place.start (isAbsolute path)).along path

/-- The number of steps up that a path begins with. -/
def climbs : List Char → Nat
  | '.' :: '/' :: rest => climbs rest
  | '.' :: '.' :: '/' :: rest => climbs rest + 1
  | _ => 0

/-- Whether a piece is a name, and neither void nor a step up. -/
def isName (piece : List Char) : Bool := !isVoid piece && piece != ['.', '.']

/-- The number of names that a path ends with. -/
def namesAtEnd (path : List Char) : Nat := ((Text.splitAll isSlash path).rtakeWhile isName).length

/-- Nothing but names, possibly behind a slash. -/
inductive Plain : List Char → Prop
  | root : Plain []
  | single {name : List Char} : IsPiece name → isName name = true → Plain name
  | further {before name : List Char} : Plain before → IsPiece name → isName name = true →
    Plain (before ++ '/' :: name)

/-! Places. -/

section Places

variable {p : Place} {piece : List Char}

theorem into_name (h : isName piece = true) :
    p.into piece = { p with names := piece :: p.names } := by
  have h : isVoid piece = false ∧ piece ≠ ['.', '.'] := by simpa [isName] using h
  rw [Place.into, h.1, if_neg Bool.false_ne_true, if_neg h.2]

theorem up_into (h : isName piece = true) : (p.into piece).up = p := by
  rw [into_name h]
  rfl

theorem along_piece (h : IsPiece piece) : p.along piece = p.into piece := by
  rw [Place.along, Text.splitAll_plain h]
  rfl

@[simp] theorem along_nil (p : Place) : p.along [] = p := rfl

theorem along_below (p : Place) (path rest : List Char) :
    p.along (path ++ '/' :: rest) = (p.along path).along rest := by
  rw [Place.along, Text.splitAll_below rfl, List.foldl_append]
  rfl

theorem along_same (p : Place) (rest : List Char) : p.along ('.' :: '/' :: rest) = p.along rest :=
  along_below p ['.'] rest

theorem along_up (p : Place) (rest : List Char) :
    p.along ('.' :: '.' :: '/' :: rest) = p.up.along rest := along_below p ['.', '.'] rest

end Places

/-- Where the texts start that are put behind a base and a slash; behind nothing that is the root. -/
def home (base : List Char) : Place := if base = [] then .start true else place base

theorem place_below (base rest : List Char) :
    place (base ++ '/' :: rest) = (home base).along rest := by
  unfold home
  split
  · subst base
    rfl
  · rename_i hbase
    rw [place, isAbsolute_below hbase, along_below, place]

@[simp] theorem home_nil : home [] = .start true := rfl

theorem home_of_ne {base : List Char} (h : base ≠ []) : home base = place base := if_neg h

/-- Slashes at the end of a directory change nothing. -/
theorem home_trimSlashes {dir : List Char} (hdir : dir ≠ []) :
    home (trimSlashes dir) = place dir := by
  induction dir using List.reverseRecOn with
  | nil => exact absurd rfl hdir
  | append_singleton dir c ih =>
    by_cases hc : isSlash c = true
    · obtain rfl : c = '/' := by simpa [isSlash] using hc
      have htrim : trimSlashes (dir ++ ['/']) = trimSlashes dir := by simp [trimSlashes, hc]
      have hplace : place (dir ++ ['/']) = home dir := place_below dir []
      rw [htrim, hplace]
      by_cases hnone : dir = []
      · subst hnone
        rfl
      · rw [ih hnone, home_of_ne hnone]
    · have htrim : trimSlashes (dir ++ [c]) = dir ++ [c] := by simp [trimSlashes, hc]
      rw [htrim, home_of_ne hdir]

/-! One step up by the text. -/

/-- A path is one piece, or has a last piece behind a slash. -/
theorem exists_cut (path : List Char) : IsPiece path ∨
    ∃ before name, IsPiece name ∧ path = before ++ '/' :: name := by
  induction path using List.reverseRecOn with
  | nil => exact .inl (by simp [IsPiece])
  | append_singleton path c ih =>
    by_cases hc : isSlash c = true
    · obtain rfl : c = '/' := by simpa [isSlash] using hc
      exact .inr ⟨path, [], by simp [IsPiece], rfl⟩
    · have hc : isSlash c = false := by simpa using hc
      rcases ih with hpiece | ⟨before, name, hname, rfl⟩
      · left
        intro d hd
        rcases List.mem_append.1 hd with hd | hd
        · exact hpiece d hd
        · rwa [List.mem_singleton.1 hd]
      · refine .inr ⟨before, name ++ [c], fun d hd => ?_, by simp⟩
        rcases List.mem_append.1 hd with hd | hd
        · exact hname d hd
        · rwa [List.mem_singleton.1 hd]

theorem above_piece {piece : List Char} (h : IsPiece piece) : above piece = ['.'] := by
  have hall : (piece.reverse.dropWhile fun c => !isSlash c) = [] := by
    rw [List.dropWhile_eq_nil_iff]
    intro c hc
    rw [h c (List.mem_reverse.1 hc)]
    rfl
  rw [above, cutLast?, hall]
  rfl

theorem above_below {name : List Char} (h : IsPiece name) (before : List Char) :
    above (before ++ '/' :: name) = before := by
  have hcut : ((before ++ '/' :: name).reverse.dropWhile fun c => !isSlash c) =
      '/' :: before.reverse := by
    rw [List.reverse_append, List.reverse_cons, List.append_assoc, List.dropWhile_append_of_pos]
    · rfl
    · intro c hc
      rw [h c (List.mem_reverse.1 hc)]
      rfl
  rw [above, cutLast?, hcut]
  exact List.reverse_reverse before

theorem namesAtEnd_piece {piece : List Char} (h : IsPiece piece) :
    namesAtEnd piece = if isName piece then 1 else 0 := by
  rw [namesAtEnd, Text.splitAll_plain h]
  cases hname : isName piece <;> simp [List.rtakeWhile, hname]

theorem namesAtEnd_below {name : List Char} (h : IsPiece name) (before : List Char) :
    namesAtEnd (before ++ '/' :: name) =
      if isName name then namesAtEnd before + 1 else 0 := by
  rw [namesAtEnd, Text.splitAll_below rfl, Text.splitAll_plain h]
  cases hname : isName name with
  | true => rw [List.rtakeWhile_concat_pos _ _ _ hname]; simp [namesAtEnd]
  | false => rw [List.rtakeWhile_concat_neg _ _ _ (by simp [hname])]; simp

/-- Where a base ends with a name, one step up by the text is one step up. -/
theorem home_above {base : List Char} (h : 0 < namesAtEnd base) :
    home (above base) = (home base).up ∧ namesAtEnd base = namesAtEnd (above base) + 1 := by
  rcases exists_cut base with hpiece | ⟨before, name, hpiece, rfl⟩
  · have hname : isName base = true := by
      by_contra hvoid
      rw [namesAtEnd_piece hpiece, if_neg hvoid] at h
      omega
    have hne : base ≠ [] := by
      rintro rfl
      cases hname
    have hrelative : isAbsolute base = false := isAbsolute_piece hpiece
    rw [above_piece hpiece, home_of_ne hne, place, hrelative, along_piece hpiece, up_into hname,
      namesAtEnd_piece hpiece, if_pos hname]
    exact ⟨rfl, rfl⟩
  · have hname : isName name = true := by
      by_contra hvoid
      rw [namesAtEnd_below hpiece, if_neg hvoid] at h
      omega
    have hne : before ++ '/' :: name ≠ [] := by simp
    rw [above_below hpiece, home_of_ne hne, place_below, along_piece hpiece, up_into hname,
      namesAtEnd_below hpiece, if_pos hname]
    exact ⟨rfl, rfl⟩

/-- As long as names are left to step up from, resolving a path leads where the path does. -/
theorem place_resolveFrom {base path : List Char} (h : climbs path ≤ namesAtEnd base) :
    place (resolveFrom base path) = (home base).along path := by
  fun_induction resolveFrom base path with
  | case1 base rest ih =>
    rw [along_same]
    exact ih h
  | case2 base rest ih =>
    rw [climbs] at h
    have hnamed : 0 < namesAtEnd base := by omega
    obtain ⟨hup, hnames⟩ := home_above hnamed
    rw [along_up, ← hup]
    exact ih (by omega)
  | case3 base rest => exact place_below base rest

/-! Steps up beyond the names. -/

namespace Place

/-- A place further above the same start. -/
def raised (p : Place) (k : Nat) : Place := { p with ups := p.ups + k }

theorem absolute_into (p : Place) (piece : List Char) : (p.into piece).absolute = p.absolute := by
  unfold into up
  split
  · rfl
  · split
    · split
      · rfl
      · split <;> rfl
    · rfl

theorem raised_into {p : Place} (h : p.absolute = false) (k : Nat) (piece : List Char) :
    (p.raised k).into piece = (p.into piece).raised k := by
  obtain ⟨absolute, ups, names⟩ := p
  obtain rfl : absolute = false := h
  unfold into up raised
  split
  · rfl
  · split
    · cases names with
      | nil => simp [Nat.add_right_comm]
      | cons name names => rfl
    · rfl

theorem absolute_along (p : Place) (path : List Char) : (p.along path).absolute = p.absolute := by
  unfold along
  induction Text.splitAll isSlash path generalizing p with
  | nil => rfl
  | cons piece pieces ih => rw [List.foldl_cons, ih, absolute_into]

theorem raised_along {p : Place} (h : p.absolute = false) (k : Nat) (path : List Char) :
    (p.raised k).along path = (p.along path).raised k := by
  unfold along
  induction Text.splitAll isSlash path generalizing p with
  | nil => rfl
  | cons piece pieces ih =>
    rw [List.foldl_cons, List.foldl_cons, raised_into h, ih (absolute_into p piece ▸ h)]

/-- At or above a start that is not the one of relative paths. -/
structure Astray (p : Place) : Prop where
  names : p.names = []
  ne : p ≠ start false

namespace Astray

variable {p : Place}

theorem up (h : p.Astray) : p.up.Astray := by
  obtain ⟨absolute, ups, names⟩ := p
  obtain ⟨rfl, hne⟩ := h
  cases absolute with
  | true => exact ⟨rfl, hne⟩
  | false => exact ⟨rfl, by simp [Place.up, start]⟩

/-- The same texts behind different starts lead to different places. -/
theorem along_ne (h : p.Astray) (path : List Char) : (start false).along path ≠ p.along path := by
  obtain ⟨absolute, ups, names⟩ := p
  obtain ⟨rfl, hne⟩ := h
  intro hsame
  cases absolute with
  | true =>
    have habsolute := congrArg Place.absolute hsame
    rw [absolute_along, absolute_along] at habsolute
    cases habsolute
  | false =>
    have hraised : (⟨false, ups, []⟩ : Place) = (start false).raised ups := by
      simp [raised, start]
    rw [hraised, raised_along rfl] at hsame
    have hups : _ = _ + ups := congrArg Place.ups hsame
    obtain rfl : ups = 0 := by omega
    exact hne rfl

end Astray

end Place

/-- Once the text has no more to step up from, resolving stays at the start of relative paths. -/
theorem resolveFrom_astray {p : Place} (h : p.Astray) (path : List Char) :
    place (resolveFrom ['.'] path) ≠ p.along path := by
  generalize hbase : ['.'] = base
  fun_induction resolveFrom base path generalizing p with
  | case1 base rest ih =>
    rw [along_same]
    exact ih h hbase
  | case2 base rest ih =>
    rw [along_up]
    exact ih h.up (by rw [← hbase]; rfl)
  | case3 base rest =>
    subst hbase
    rw [place_below]
    exact h.along_ne rest

/-- From nothing but names, or the start of relative paths, the steps up beyond the names are lost. -/
theorem place_resolveFrom_ne {base path : List Char} (hbase : base = ['.'] ∨ Plain base)
    (h : namesAtEnd base < climbs path) :
    place (resolveFrom base path) ≠ (home base).along path := by
  fun_induction resolveFrom base path with
  | case1 base rest ih =>
    rw [along_same]
    exact ih hbase h
  | case2 base rest ih =>
    rw [along_up]
    rw [climbs] at h
    by_cases hnames : 0 < namesAtEnd base
    · obtain ⟨hup, hless⟩ := home_above hnames
      rw [← hup]
      refine ih ?_ (by omega)
      rcases hbase with rfl | hroot | ⟨hpiece, -⟩ | ⟨hbefore, hpiece, -⟩
      · exact absurd hnames (by decide)
      · exact .inl rfl
      · exact .inl (above_piece hpiece)
      · rw [above_below hpiece]
        exact .inr hbefore
    · rcases hbase with rfl | hroot | ⟨hpiece, hname⟩ | ⟨-, hpiece, hname⟩
      · exact resolveFrom_astray ⟨rfl, by decide⟩ rest
      · exact resolveFrom_astray ⟨rfl, by decide⟩ rest
      · rw [namesAtEnd_piece hpiece, if_pos hname] at hnames
        omega
      · rw [namesAtEnd_below hpiece, if_pos hname] at hnames
        omega
  | case3 base rest hsame hup =>
    rw [climbs] at h
    · omega
    · exact hsame
    · exact hup

/-- A path that is resolved against a directory leads to the same place as behind the directory, if
it climbs no further than the directory ends with names. For a directory of nothing but names these
are all the paths that do: those which climb further end elsewhere. -/
theorem resolveRelative_place {dir : List Char} (hdir : dir ≠ []) (path : List Char) :
    let same := place (resolveRelative dir path) = place (dir ++ '/' :: path)
    (climbs path ≤ namesAtEnd (trimSlashes dir) → same) ∧
      (Plain (trimSlashes dir) → (same ↔ climbs path ≤ namesAtEnd (trimSlashes dir))) := by
  have hbehind : place (dir ++ '/' :: path) = (home (trimSlashes dir)).along path := by
    rw [place_below, home_trimSlashes hdir, home_of_ne hdir]
  rw [hbehind]
  refine ⟨place_resolveFrom, fun hplain => ⟨fun hsame => ?_, place_resolveFrom⟩⟩
  by_contra hfar
  exact place_resolveFrom_ne (.inr hplain) (by omega) hsame

theorem resolveRelative_place_site : let dir := "/site/themes/blue/".toList
    let path := "./../../common/../foot.html".toList
    dir ≠ [] ∧ climbs path ≤ namesAtEnd (trimSlashes dir) ∧
      place (resolveRelative dir path) = ⟨true, 0, ["foot.html".toList, "site".toList]⟩ ∧
      place (dir ++ '/' :: path) = ⟨true, 0, ["foot.html".toList, "site".toList]⟩ := by
  intro dir path
  have hdir : dir ≠ [] := by decide
  have hclimbs : climbs path ≤ namesAtEnd (trimSlashes dir) := by decide
  have hplace : place (resolveRelative dir path) =
      ⟨true, 0, ["foot.html".toList, "site".toList]⟩ := by decide
  exact ⟨hdir, hclimbs, hplace, ((resolveRelative_place hdir path).1 hclimbs).symm.trans hplace⟩

/-- One step up further than the names of an absolute directory, and the place is a relative one. -/
theorem resolveRelative_leaves_root : let dir := "/site".toList
    let path := "../../x.html".toList
    dir ≠ [] ∧ isRelativeToSelf path = true ∧
      resolveRelative dir path = "./x.html".toList ∧
      place (resolveRelative dir path) = ⟨false, 0, ["x.html".toList]⟩ ∧
      place (dir ++ '/' :: path) = ⟨true, 0, ["x.html".toList]⟩ := by
  decide

end BraceTemplate.Files.Path
