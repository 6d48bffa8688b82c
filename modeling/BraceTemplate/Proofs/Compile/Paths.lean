import BraceTemplate.Compile.Arguments
import BraceTemplate.Proofs.Source.Formation

/-!
Every path that is read from source has the mode that the reader was given, also the paths inside of
nested segments and of indexes.
-/
namespace BraceTemplate

/-! The paths of what is compiled. -/

mutual

def Segment.paths : Segment → List Path
  | .key _ => []
  | .nested v => v.paths
  | .index e => e.paths

/-- A path with all paths inside of its segments. -/
def Path.paths : Path → List Path
  | ⟨mode, segments⟩ => ⟨mode, segments⟩ :: pathsBelow segments

def pathsBelow : List Segment → List Path
  | [] => []
  | segment :: segments => segment.paths ++ pathsBelow segments

def Var.paths : Var → List Path
  | ⟨path, _⟩ => path.paths

def Expr.paths : Expr → List Path
  | .literal _ => []
  | .array items => itemPaths items
  | .var v => v.paths
  | .not e => e.paths
  | .neg e => e.paths
  | .binary _ left right => left.paths ++ right.paths

def itemPaths : List Expr → List Path
  | [] => []
  | e :: es => e.paths ++ itemPaths es

end

def Bound.paths : Bound → List Path
  | .literal _ => []
  | .var v => v.paths

def IncludePart.paths : IncludePart → List Path
  | .text _ => []
  | .var v => v.paths

/-- All paths that occur in an instruction. -/
def Instruction.paths : Instruction → List Path
  | .emit v => v.paths
  | .beginIf c | .elseIf c => c.paths
  | .beginFor loop => loop.key.toList.flatMap Path.paths ++ loop.value.paths ++ loop.collection.paths
  | .assign target value => target.paths ++ value.paths
  | .invoke _ args => args.flatMap Expr.paths
  | .beginRange c => c.counter.paths ++ c.start.paths ++ c.step.paths ++ c.stop.paths
  | .include parts => parts.flatMap IncludePart.paths
  | .literal _ | .otherwise | .endIf | .endFor | .beginEmpty .. | .endEmpty | .beginBlock ..
  | .endBlock | .endRange => []

/-- The paths that an instruction writes. -/
def Instruction.targets : Instruction → List Path
  | .assign target _ => [target]
  | .beginFor loop => loop.key.toList ++ [loop.value]
  | .beginRange c => [c.counter]
  | _ => []

/-- All paths that are written have the given mode. -/
def Instruction.Writes (mode : Mode) (i : Instruction) : Prop := ∀ p ∈ i.targets, p.mode = mode

theorem Path.mem_paths (p : Path) : p ∈ p.paths := by
  obtain ⟨mode, segments⟩ := p
  rw [Path.paths]
  exact List.mem_cons_self

theorem Instruction.targets_subset (i : Instruction) : i.targets ⊆ i.paths := by
  intro p hp
  cases i with
  | assign target value =>
    obtain rfl := List.mem_singleton.mp hp
    exact List.mem_append_left _ p.mem_paths
  | beginFor loop =>
    refine List.mem_append_left _ ?_
    rcases List.mem_append.mp hp with hkey | hvalue
    · exact List.mem_append_left _ (List.mem_flatMap.mpr ⟨p, hkey, p.mem_paths⟩)
    · obtain rfl := List.mem_singleton.mp hvalue
      exact List.mem_append_right _ loop.value.mem_paths
  | beginRange c =>
    obtain rfl := List.mem_singleton.mp hp
    exact List.mem_append_left _ (List.mem_append_left _ (List.mem_append_left _ c.counter.mem_paths))
  | _ => cases hp

/-- All paths of a list have the given mode. -/
def AllOf (mode : Mode) (ps : List Path) : Prop := ∀ p ∈ ps, p.mode = mode

section AllOf

variable {mode : Mode} {ps qs : List Path}

@[simp] theorem allOf_nil : AllOf mode [] := nofun

@[simp] theorem allOf_cons {p : Path} : AllOf mode (p :: ps) ↔ p.mode = mode ∧ AllOf mode ps :=
  List.forall_mem_cons

@[simp] theorem allOf_append : AllOf mode (ps ++ qs) ↔ AllOf mode ps ∧ AllOf mode qs :=
  List.forall_mem_append

@[simp] theorem allOf_flatMap {α : Type} {f : α → List Path} {as : List α} :
    AllOf mode (as.flatMap f) ↔ ∀ a ∈ as, AllOf mode (f a) := by
  unfold AllOf
  simp only [List.mem_flatMap, forall_exists_index, and_imp]
  exact ⟨fun h a ha p hp => h p a ha hp, fun h p a ha hp => h a ha p hp⟩

theorem allOf_simple (mode : Mode) (name : String) : AllOf mode (Path.simple mode name).paths := by
  simp [Path.simple, Path.paths, pathsBelow, Segment.paths]

theorem allOf_itemPaths {es : List Expr} :
    AllOf mode (itemPaths es) ↔ ∀ e ∈ es, AllOf mode e.paths := by
  induction es with
  | nil => simp [itemPaths]
  | cons e es ih => simp [itemPaths, ih]

theorem allOf_path {segments : List Segment} :
    AllOf mode (Path.paths ⟨mode, segments⟩) ↔ ∀ s ∈ segments, AllOf mode s.paths := by
  have hbelow : AllOf mode (pathsBelow segments) ↔ ∀ s ∈ segments, AllOf mode s.paths := by
    induction segments with
    | nil => simp [pathsBelow]
    | cons segment segments ih => simp [pathsBelow, ih]
  simp [Path.paths, hbelow]

end AllOf

/-- Every step of reading keeps to one mode. -/
theorem paths_formation (mode : Mode) : Parse.Formation mode (fun _ e => AllOf mode e.paths)
    fun _ v => AllOf mode v.paths where
  literal v := by
    rw [Expr.paths]
    exact allOf_nil
  empty := by
    rw [Expr.paths, itemPaths]
    exact allOf_nil
  array h := by
    rw [Expr.paths, allOf_itemPaths]
    exact h
  var h := by
    rw [Expr.paths]
    exact h
  not h := by
    rw [Expr.paths]
    exact h
  neg h := by
    rw [Expr.paths]
    exact h
  binary op left right hleft hright := by
    rw [Expr.paths, allOf_append]
    exact ⟨hleft, hright⟩
  parenthesized h := h
  path filters h := by
    rw [Var.paths, allOf_path]
    intro s hs
    have hmeets := h s hs
    cases s with
    | key name =>
      rw [Segment.paths]
      exact allOf_nil
    | nested v =>
      rw [Segment.paths]
      exact hmeets
    | index e =>
      rw [Segment.paths]
      exact hmeets

/-! Reading expressions. -/

variable {mode : Mode}

theorem Var.parse_paths {source : List Char} {v : Var} (h : Var.parse mode source = .ok v) :
    AllOf mode v.paths := (paths_formation mode).of_var h

theorem Path.parse_paths {source : List Char} {p : Path} (h : Path.parse mode source = .ok p) :
    AllOf mode p.paths := by
  obtain ⟨⟨path, filters⟩, hv, hp⟩ := bind_eq_ok.mp h
  have hpaths := Var.parse_paths hv
  rw [Var.paths] at hpaths
  split at hp
  · cases hp
    exact hpaths
  · cases hp

theorem Expr.parse_paths {source : List Char} {e : Expr} (h : Expr.parse mode source = .ok e) :
    AllOf mode e.paths := (paths_formation mode).of_expr h

theorem Expr.parseArguments_paths {source : List Char} {es : List Expr}
    (h : Expr.parseArguments mode source = .ok es) : ∀ e ∈ es, AllOf mode e.paths :=
  (paths_formation mode).of_arguments h

/-! The arguments of directives. -/

namespace Arguments

theorem assignment_paths {args : List Char} {target : Path} {value : Expr}
    (h : assignment mode args = .ok (target, value)) :
    AllOf mode (Instruction.assign target value).paths := by
  unfold assignment at h
  split at h
  · cases h
  · split at h
    · cases h
    · obtain ⟨p, hp, h⟩ := bind_eq_ok.mp h
      obtain ⟨e, he, h⟩ := bind_eq_ok.mp h
      cases h
      rw [Instruction.paths, allOf_append]
      exact ⟨Path.parse_paths hp, Expr.parse_paths he⟩

theorem loop_paths {depth : Nat} {args : List Char} {l : Loop}
    (h : loop mode depth args = .ok l) : AllOf mode (Instruction.beginFor l).paths := by
  unfold loop at h
  split at h
  · cases h
  · rename_i key value collection _
    obtain ⟨e, he, h⟩ := bind_eq_ok.mp h
    cases h
    rw [Instruction.paths, allOf_append, allOf_append]
    refine ⟨⟨?_, allOf_simple mode value⟩, Expr.parse_paths he⟩
    cases key with
    | none => simp
    | some key => simpa using allOf_simple mode key

theorem bound_paths {text : BoundText} {b : Bound} (h : bound mode text = .ok b) :
    AllOf mode b.paths := by
  unfold bound at h
  split at h
  · cases h
    rw [Bound.paths, Var.paths]
    exact allOf_simple mode _
  · split at h
    · cases h
      exact allOf_nil
    · cases h

theorem counting_paths {args : List Char} {c : Counting} (h : counting mode args = .ok c) :
    AllOf mode (Instruction.beginRange c).paths := by
  unfold counting at h
  split at h
  · cases h
  · rename_i t _
    obtain ⟨start, hstart, h⟩ := bind_eq_ok.mp h
    obtain ⟨step, hstep, h⟩ := bind_eq_ok.mp h
    obtain ⟨stop, hstop, h⟩ := bind_eq_ok.mp h
    have hsteps : AllOf mode step.paths := by
      cases hwritten : t.step with
      | none =>
        rw [hwritten] at hstep
        cases hstep
        exact allOf_nil
      | some text =>
        rw [hwritten] at hstep
        exact bound_paths hstep
    have hc : c = ⟨.simple mode t.counter, start, step, stop⟩ := by
      split at h
      · split at h
        · cases h
        · cases h
          rfl
      · cases h
        rfl
    subst hc
    simp only [Instruction.paths, allOf_append]
    exact ⟨⟨⟨allOf_simple mode _, bound_paths hstart⟩, hsteps⟩, bound_paths hstop⟩

theorem invocation_paths {args : List Char} {name : String} {es : List Expr}
    (h : invocation mode args = .ok (name, es)) :
    AllOf mode (Instruction.invoke name es).paths := by
  unfold invocation at h
  dsimp only at h
  split at h
  · obtain ⟨es', hes, h⟩ := bind_eq_ok.mp h
    cases h
    rw [Instruction.paths, allOf_flatMap]
    exact Expr.parseArguments_paths hes
  · cases h

theorem pathParts_paths {args : List Char} {fuel : Nat} {path : List Char}
    {parts : List IncludePart} (h : pathParts mode args fuel path = .ok parts) :
    ∀ part ∈ parts, AllOf mode part.paths := by
  induction fuel generalizing path parts with
  | zero =>
    cases h
    nofun
  | succ fuel ih =>
    rw [pathParts] at h
    dsimp only at h
    have hlead : ∀ text : List Char, ∀ part ∈ (if text = [] then [] else
        [IncludePart.text (.ofList text)]), AllOf mode part.paths := by
      intro text part hpart
      split at hpart
      · cases hpart
      · obtain rfl := List.mem_singleton.mp hpart
        exact allOf_nil
    split at h
    · cases h
      exact hlead _
    · split at h
      · cases h
      · obtain ⟨v, hv, h⟩ := bind_eq_ok.mp h
        obtain ⟨more, hmore, h⟩ := bind_eq_ok.mp h
        cases h
        rw [List.forall_mem_append, List.forall_mem_cons]
        exact ⟨hlead _, Var.parse_paths hv, ih hmore⟩

/-- A directory in front of a path adds no variable. -/
theorem anchor_paths (dir : Option (List Char)) {parts : List IncludePart}
    (h : ∀ part ∈ parts, AllOf mode part.paths) :
    ∀ part ∈ anchor dir parts, AllOf mode part.paths := by
  unfold anchor
  split
  · split
    · split
      · rw [List.forall_mem_cons] at h ⊢
        exact ⟨allOf_nil, h.2⟩
      · exact h
    · exact h
  · exact h

theorem includePath_paths {dir : Option (List Char)} {args : List Char}
    {parts : Option (List IncludePart)} (h : includePath mode dir args = .ok parts) :
    ∀ ps, parts = some ps → AllOf mode (Instruction.include ps).paths := by
  rintro ps rfl
  unfold includePath at h
  dsimp only at h
  split at h
  · cases h
  · obtain ⟨read, hread, h⟩ := bind_eq_ok.mp h
    cases h
    rw [Instruction.paths, allOf_flatMap]
    exact anchor_paths dir (pathParts_paths hread)

end Arguments

end BraceTemplate
