import BraceTemplate.Context

/-!
The two shapes of a stack of layers: detached bindings and no layer, or layers of which the last one
is active. Each operation in these terms.
-/
namespace BraceTemplate

namespace Dict

variable {α : Type}

/-- A new key comes behind the others. -/
theorem keys_prefix_insert (d : Dict α) (key : String) (value : α) :
    keys d <+: keys (insert d key value) := by
  rw [keys_insert]
  split
  · exact List.prefix_rfl
  · exact List.prefix_append _ _

theorem find?_erase_of_ne (d : Dict α) {key other : String} (h : other ≠ key) :
    find? (erase d key) other = find? d other := by
  induction d with
  | nil => rfl
  | cons e d ih =>
    by_cases hk : e.1 = key
    · simp [erase, find?, hk, Ne.symm h]
    · simp only [erase, hk, ↓reduceIte, find?, ih]

/-- Names that are bound to their own values, behind entries that are there already. -/
theorem find?_insertAll_names (names : List String) (value? : String → Option α) (d : Dict α)
    (key : String) :
    find? (insertAll d (names.filterMap fun name => (value? name).map fun v => (name, v))) key =
      if key ∈ names then (value? key).or (find? d key) else find? d key := by
  induction names generalizing d with
  | nil => simp [insertAll]
  | cons name names ih =>
    cases hvalue : value? name with
    | none =>
      simp only [List.filterMap_cons, hvalue, Option.map_none, ih, List.mem_cons]
      by_cases hkey : key = name
      · simp [hkey, hvalue]
      · simp [hkey]
    | some v =>
      have hcons : insertAll d ((name, v) :: names.filterMap fun name =>
          (value? name).map fun v => (name, v)) = insertAll (insert d name v)
            (names.filterMap fun name => (value? name).map fun v => (name, v)) := rfl
      simp only [List.filterMap_cons, hvalue, Option.map_some, hcons, ih, List.mem_cons]
      by_cases hkey : key = name
      · simp [hkey, hvalue]
      · simp [hkey, find?_insert_of_ne d v hkey]

end Dict

namespace Context

/-- A pushed layer starts with what the active layer binds global names to. -/
theorem find?_inherited (c : Context) (name : String) :
    Dict.find? c.inherited name =
      if c.isGlobal name then Dict.find? c.activeLayer name else none := by
  rw [inherited, Dict.ofList, Dict.find?_insertAll_names]
  simp [isGlobal]

/-- Detached bindings and no layer. -/
def flat (detached : Layer) (globals : List String) : Context := ⟨detached, [], 0, globals⟩

/-- Layers, of which the last one is active. -/
def stacked (below : List Layer) (top : Layer) (globals : List String) : Context :=
  ⟨[], below ++ [top], below.length, globals⟩

/-- While there are layers nothing is detached, and the last one is active. -/
inductive Settled : Context → Prop where
  | flat (detached : Layer) (globals : List String) : Settled (flat detached globals)
  | stacked (below : List Layer) (top : Layer) (globals : List String) :
    Settled (stacked below top globals)

/-- No layer, the only one, or one that lies on another. -/
theorem Settled.shapes {c : Context} (h : c.Settled) :
    (∃ detached globals, c = Context.flat detached globals) ∨
    (∃ top globals, c = Context.stacked [] top globals) ∨
    ∃ below layer top globals, c = Context.stacked (below ++ [layer]) top globals := by
  cases h with
  | flat detached globals => exact .inl ⟨detached, globals, rfl⟩
  | stacked below top globals =>
    rcases List.eq_nil_or_concat below with rfl | ⟨below, layer, rfl⟩
    · exact .inr (.inl ⟨top, globals, rfl⟩)
    · rw [List.concat_eq_append]
      exact .inr (.inr ⟨below, layer, top, globals, rfl⟩)

/-- The global names together with another one. -/
def declared (globals : List String) (name : String) : List String :=
  if globals.contains name then globals else globals ++ [name]

theorem contains_declared (globals : List String) (name other : String) :
    (declared globals name).contains other = (globals.contains other || other == name) := by
  unfold declared
  split
  · rename_i hname
    by_cases h : other = name
    · simp [h, List.contains_iff_mem.mp hname]
    · simp [h]
  · by_cases h : other = name <;> simp [h]

@[simp] theorem active_modifyActive (c : Context) (f : Layer → Layer) :
    (c.modifyActive f).active = c.active := by
  unfold modifyActive
  split <;> rfl

theorem layers_modifyActive (c : Context) (f : Layer → Layer) :
    (c.modifyActive f).layers = c.layers.modify c.active f := by
  unfold modifyActive
  split
  · rename_i h
    simp [h]
  · rfl

theorem detached_modifyActive (c : Context) (f : Layer → Layer) :
    (c.modifyActive f).detached = if c.layers = [] then f c.detached else c.detached := by
  unfold modifyActive
  split <;> rfl

@[simp] theorem globals_modifyActive (c : Context) (f : Layer → Layer) :
    (c.modifyActive f).globals = c.globals := by
  unfold modifyActive
  split <;> rfl

@[simp] theorem globals_push (c : Context) : c.push.globals = c.globals := by
  simp only [push]
  split <;> rfl

@[simp] theorem globals_pop (c : Context) : c.pop.globals = c.globals := by
  unfold pop
  split <;> rfl

@[simp] theorem globals_assign (c : Context) (name : String) (value : Value) :
    (c.assign name value true).globals = declared c.globals name := by
  simp only [assign, globals_modifyActive, ↓reduceIte]
  rfl

theorem assign_local (c : Context) (name : String) (value : Value) :
    c.assign name value false = c.modifyActive fun layer => Dict.insert layer name value := rfl

section Shapes

variable {below : List Layer} {top detached : Layer} {globals : List String}

@[simp] theorem layers_flat : (flat detached globals).layers = [] := rfl

@[simp] theorem layers_stacked : (stacked below top globals).layers = below ++ [top] := rfl

@[simp] theorem depth_flat : (flat detached globals).depth = 0 := rfl

@[simp] theorem depth_stacked : (stacked below top globals).depth = below.length + 1 := by
  simp [depth]

@[simp] theorem globals_flat : (flat detached globals).globals = globals := rfl

@[simp] theorem globals_stacked : (stacked below top globals).globals = globals := rfl

@[simp] theorem activeLayer_flat : (flat detached globals).activeLayer = detached := rfl

@[simp] theorem activeLayer_stacked : (stacked below top globals).activeLayer = top := by
  simp [activeLayer, stacked]

@[simp] theorem modifyActive_flat (f : Layer → Layer) :
    (flat detached globals).modifyActive f = flat (f detached) globals := rfl

@[simp] theorem modifyActive_stacked (f : Layer → Layer) :
    (stacked below top globals).modifyActive f = stacked below (f top) globals := by
  have hmodify : (below ++ [top]).modify below.length f = below ++ [f top] :=
    List.modifyTailIdx_add (List.modifyHead f) 0 below [top]
  simp [modifyActive, stacked, hmodify]

/-- The first push archives what is detached. -/
theorem push_flat (hd : detached ≠ []) : (flat detached globals).push =
    stacked [detached] (flat detached globals).inherited globals := by
  simp [push, flat, stacked, hd]
  rfl

theorem push_flat_nil : (flat [] globals).push = stacked [] [] globals := by
  have hinherited : (flat [] globals).inherited = [] := by
    have hnone : globals.filterMap (fun _ => (none : Option (String × Value))) = [] :=
      List.filterMap_eq_nil_iff.mpr fun _ _ => rfl
    simp [inherited, Dict.ofList, Dict.insertAll, hnone]
  simpa [push, flat, stacked] using hinherited

@[simp] theorem push_stacked : (stacked below top globals).push =
    stacked (below ++ [top]) (stacked below top globals).inherited globals := by
  simp [push, stacked]

@[simp] theorem pop_flat : (flat detached globals).pop = flat detached globals := rfl

/-- The last layer is only emptied. -/
@[simp] theorem pop_stacked_nil : (stacked [] top globals).pop = stacked [] [] globals := rfl

@[simp] theorem pop_stacked_concat (layer : Layer) :
    (stacked (below ++ [layer]) top globals).pop = stacked below layer globals := by
  cases below with
  | nil => rfl
  | cons first below =>
    have hdrop : (first :: below ++ [layer] ++ [top]).dropLast = first :: below ++ [layer] :=
      List.dropLast_concat
    simpa [pop, stacked] using hdrop

@[simp] theorem assign_flat (name : String) (value : Value) :
    (flat detached globals).assign name value true =
      flat (Dict.insert detached name value) (declared globals name) := rfl

@[simp] theorem assign_stacked (name : String) (value : Value) :
    (stacked below top globals).assign name value true =
      stacked (below.map fun layer => Dict.insert layer name value) (Dict.insert top name value)
        (declared globals name) := by
  have hspread : (stacked below top globals).assign name value true =
      (stacked (below.map fun layer => Dict.insert layer name value) (Dict.insert top name value)
        (declared globals name)).modifyActive fun layer => Dict.insert layer name value := by
    simp [assign, stacked, declared]
  rw [hspread, modifyActive_stacked, Dict.insert_insert]

end Shapes

end Context
end BraceTemplate
