import Mathlib.Data.List.Induction
import BraceTemplate.Proofs.Compile.Changes
import BraceTemplate.Proofs.Compile.Paths

/-!
Modes of compiled paths: between the markers of a block every path is one of the block, and
everywhere else a shared one. What is written there is the block's own in turn.
-/
namespace BraceTemplate

/-! Rows of instructions. -/

/-- Whether a block is open behind an instruction. -/
def Instruction.marks (inside : Bool) : Instruction → Bool
  | .beginBlock .. => true
  | .endBlock => false
  | _ => inside

/-- Whether a block is open behind instructions. -/
def insideBlock (is : List Instruction) : Bool := is.foldl Instruction.marks false

@[simp] theorem insideBlock_concat (is : List Instruction) (i : Instruction) :
    insideBlock (is ++ [i]) = i.marks (insideBlock is) := by
  simp [insideBlock]

/-- The mode of paths inside and outside of blocks. -/
def Mode.within : (inside : Bool) → Mode
  | true => .block
  | false => .shared

/-- The paths of each instruction have the mode of its place. -/
def Moded (is : List Instruction) : Prop :=
  ∀ pre i post, is = pre ++ i :: post → AllOf (.within (insideBlock pre)) i.paths

theorem moded_nil : Moded [] := by
  intro pre i post h
  simp at h

theorem moded_concat {is : List Instruction} {i : Instruction} :
    Moded (is ++ [i]) ↔ Moded is ∧ AllOf (.within (insideBlock is)) i.paths := by
  constructor
  · intro h
    refine ⟨?_, h is i [] rfl⟩
    rintro pre j post rfl
    exact h pre j (post ++ [i]) (by simp)
  · rintro ⟨his, hi⟩ pre j post heq
    rcases concat_eq_append_cons heq with ⟨rfl, rfl, rfl⟩ | ⟨post', rfl, rfl⟩
    · exact hi
    · exact his pre j post' rfl

namespace Draft

/-- What a draft has emitted has the modes of its places, and so will what comes next. -/
structure KeepsModes (d : Draft) : Prop where
  row : Moded d.instructions
  mode : d.mode = .within (insideBlock d.instructions)

variable {ctx : CompileContext} {d d' : Draft} {i : Instruction}

theorem keepsModes_start : start.KeepsModes := ⟨moded_nil, rfl⟩

/-- Only the instructions and the mode of a draft matter. -/
theorem KeepsModes.congr (h : d.KeepsModes) (he : d'.emitted = d.emitted) (hm : d'.mode = d.mode) :
    d'.KeepsModes := by
  have hi := instructions_congr he
  exact ⟨hi ▸ h.row, by rw [hi, hm, h.mode]⟩

theorem KeepsModes.emit (h : d.KeepsModes) (he : d'.emitted = d.emitted)
    (hpaths : AllOf d.mode i.paths)
    (hmode : d'.mode = .within (i.marks (insideBlock d.instructions))) :
    (d'.emit i).KeepsModes := by
  constructor
  · rw [instructions_emit, instructions_congr he, moded_concat, ← h.mode]
    exact ⟨h.row, hpaths⟩
  · rw [instructions_emit, instructions_congr he, insideBlock_concat]
    exact hmode

/-- An instruction that neither opens nor closes a block leaves the mode alone. -/
theorem KeepsModes.emit_plain (h : d.KeepsModes) (he : d'.emitted = d.emitted)
    (hm : d'.mode = d.mode) (hpaths : AllOf d.mode i.paths)
    (hi : ∀ inside, i.marks inside = inside) : (d'.emit i).KeepsModes :=
  h.emit he hpaths (by rw [hi, hm, h.mode])

theorem marks_leaf (l : Leaf) (inside : Bool) : l.instruction.marks inside = inside := by
  cases l <;> rfl

/-- What a leaf says may be forgotten. -/
theorem KeepsModes.of_emit {l : Leaf} (h : (d.emit l.instruction).KeepsModes) : d.KeepsModes := by
  obtain ⟨hrow, hmode⟩ := h
  rw [instructions_emit] at hrow hmode
  rw [insideBlock_concat, marks_leaf] at hmode
  exact ⟨(moded_concat.mp hrow).1, hmode⟩

theorem KeepsModes.add_leaf (h : d.KeepsModes) (l : Leaf) (hl : AllOf d.mode l.instruction.paths) :
    (d.add l.instruction).KeepsModes ∧ (d.add l.instruction).mode = d.mode := by
  have hemit : (d.emit l.instruction).KeepsModes :=
    h.emit_plain rfl rfl hl (marks_leaf l)
  cases l with
  | literal text =>
    change (d.addText text).KeepsModes ∧ (d.addText text).mode = d.mode
    rcases addText_cases d text with hadd | ⟨d₀, s, rfl, hadd⟩
    · rw [hadd]
      exact ⟨hemit, rfl⟩
    · have hbefore : d₀.KeepsModes := h.of_emit (l := .literal s)
      rw [hadd]
      exact ⟨hbefore.emit_plain rfl rfl allOf_nil fun _ => rfl, rfl⟩
  | _ => exact ⟨hemit, rfl⟩

theorem KeepsModes.addLeaves {is : List Instruction} (his : Leaves is) (h : d.KeepsModes)
    (hpaths : ∀ i ∈ is, AllOf d.mode i.paths) : (is.foldl add d).KeepsModes := by
  induction is generalizing d with
  | nil => exact h
  | cons i is ih =>
    rw [List.forall_mem_cons] at hpaths
    obtain ⟨l, rfl⟩ := his i List.mem_cons_self
    obtain ⟨hadded, hmode⟩ := h.add_leaf l hpaths.1
    exact ih (fun j hj => his j (List.mem_cons_of_mem _ hj)) hadded (hmode ▸ hpaths.2)

/-- Where the instructions of a node have the mode of the draft, it keeps modes. -/
theorem KeepsModes.changes {r : Registry} {is : List Instruction} (h : d.KeepsModes)
    (hc : d.Changes r is d') (hpaths : ∀ i ∈ is, AllOf d.mode i.paths) :
    (is.foldl add d').KeepsModes := by
  cases hc with
  | leaves hleaves => exact h.addLeaves hleaves hpaths
  | openHosted hleaves | closeHosted hleaves =>
    exact KeepsModes.addLeaves hleaves (h.congr rfl rfl) hpaths
  | branch hi =>
    rw [List.forall_mem_singleton] at hpaths
    rcases hi with ⟨c, rfl⟩ | rfl <;> exact h.emit_plain rfl rfl hpaths fun _ => rfl
  | openPlain hi =>
    rw [List.forall_mem_singleton] at hpaths
    rcases hi with ⟨c, rfl⟩ | ⟨c, rfl⟩ <;> exact h.emit_plain rfl rfl hpaths fun _ => rfl
  | openEmpty =>
    unfold emptySection
    split <;> exact h.emit_plain rfl rfl allOf_nil fun _ => rfl
  | openLoop =>
    rw [List.forall_mem_singleton] at hpaths
    exact h.emit_plain rfl rfl hpaths fun _ => rfl
  | openBlock => exact h.emit rfl allOf_nil rfl
  | closePlain hi =>
    rcases hi with rfl | rfl | rfl <;> exact h.emit_plain rfl rfl allOf_nil fun _ => rfl
  | closeLoop => exact h.emit_plain rfl rfl allOf_nil fun _ => rfl
  | closeBlock => exact h.emit rfl allOf_nil rfl

/-! Directives read in the mode of the draft. -/

open Markup

/-- All paths of the instructions that a computation gives have the mode of the draft before it. -/
def Reads (d : Draft) (act : Step (List Instruction)) : Prop :=
  Ensures (· = d) act fun is _ => ∀ i ∈ is, AllOf d.mode i.paths

theorem ensures_one {P : Draft → Prop} {mode : Mode} (h : AllOf mode i.paths) :
    Ensures P (return [i]) fun is _ => ∀ i ∈ is, AllOf mode i.paths :=
  .pure fun _ _ => List.forall_mem_singleton.mpr h

/-- The instruction of a step, alone in a row. -/
theorem bind_one {P : Draft → Prop} {mode : Mode} {act : Step Instruction}
    (h : Ensures P act fun i _ => AllOf mode i.paths) :
    Ensures P (do return [← act]) fun is _ => ∀ i ∈ is, AllOf mode i.paths :=
  .bind h fun _ => .pure fun _ hi => List.forall_mem_singleton.mpr hi

theorem openLoop_reads (args : List Char) :
    Ensures (· = d) (openLoop args) fun i _ => AllOf d.mode i.paths :=
  .bind_get (bind_parsed fun _ hloop => .bind_set (.pure fun _ _ => Arguments.loop_paths hloop))

theorem openBlock_reads (args : List Char) :
    Ensures (· = d) (openBlock args) fun i _ => AllOf d.mode i.paths := by
  refine .bind_get ?_
  split
  · exact .throw
  · exact bind_parsed fun _ _ => .bind_set (.pure fun _ _ => allOf_nil)

theorem openDirective_reads (directive : Directive) (args : List Char) :
    Reads d (openDirective ctx directive args) := by
  refine .bind_get ?_
  cases directive with
  | cond =>
    refine bind_condition fun c hc => ensures_one ?_
    exact Expr.parse_paths hc
  | elseCond =>
    refine .bind insideIf_ensures fun _ => ?_
    rintro _ ⟨rfl, -⟩
    refine bind_condition (fun c hc => ensures_one ?_) _ rfl
    exact Expr.parse_paths hc
  | otherwise => exact .bind insideIf_ensures fun _ => ensures_one allOf_nil
  | loop => exact bind_one (openLoop_reads args)
  | empty =>
    refine ensures_one ?_
    unfold emptySection
    split <;> exact allOf_nil
  | set =>
    refine bind_parsed fun a ha => ensures_one ?_
    exact Arguments.assignment_paths ha
  | defineBlock => exact bind_one (openBlock_reads args)
  | block =>
    refine bind_parsed fun a ha => ensures_one ?_
    exact Arguments.invocation_paths ha
  | range =>
    refine bind_parsed fun c hc => ensures_one ?_
    exact Arguments.counting_paths hc
  | «include» =>
    refine bind_parsed fun parts hparts => .pure fun _ _ => ?_
    cases parts with
    | none => nofun
    | some parts => exact List.forall_mem_singleton.mpr (Arguments.includePath_paths hparts _ rfl)

theorem openNode_reads (hctx : ctx.registry = .builtin) (node : List Char) (inner : Bool) :
    Reads d (openNode ctx node inner) := by
  refine openNode_ensures fun name args handler _ hfind _ => ?_
  rw [hctx] at hfind
  obtain ⟨directive, rfl⟩ := find?_builtin hfind
  exact openDirective_reads directive _

/-- No instruction that closes something holds a path. -/
theorem closeDirective_reads (name : String) (directive : Directive) {P : Draft → Prop} :
    Ensures P (closeDirective name directive) fun is _ => ∀ i ∈ is, AllOf d.mode i.paths := by
  cases directive with
  | cond | empty | range => exact ensures_one allOf_nil
  | loop | defineBlock => exact .after fun _ => ensures_one allOf_nil
  | _ => exact .throw

theorem closeNode_reads (hctx : ctx.registry = .builtin) (name : String) :
    Reads d (closeNode ctx name) := by
  refine closeNode_ensures (fun directive _ _ _ => closeDirective_reads name directive) ?_
  intro opening closing rest hfind
  rw [hctx] at hfind
  exact absurd hfind no_hosted

theorem handler_keepsModes (hctx : ctx.registry = .builtin) : (handler ctx).Keeps KeepsModes where
  text cs := .modify fun d hd => (hd.add_leaf (.literal (.ofList cs)) allOf_nil).1
  node content inner := by
    intro d hd answer d' hrun
    have hgrown : ctx.registry.Grown := hctx ▸ .builtin
    have hleaves : ctx.registry.LeavesOnly := hctx ▸ Registry.leavesOnly_builtin
    have hadded := node_ensures
      (Q := fun is d' => d.Changes ctx.registry is d' ∧ ∀ i ∈ is, AllOf d.mode i.paths)
      (fun node inner => fun s hs is d' hrun =>
        have hchanges := openNode_changes hgrown hleaves node inner s hs is d' hrun
        ⟨⟨hchanges.1, openNode_reads hctx node inner s hs is d' hrun⟩, hchanges.2⟩)
      (fun name => fun s hs is d' hrun => ⟨closeNode_changes hgrown hleaves name s hs is d' hrun,
        closeNode_reads hctx name s hs is d' hrun⟩)
      (fun text v hv => ⟨.leaves (leaves_one (.emit v)),
        List.forall_mem_singleton.mpr (Var.parse_paths hv)⟩) content inner d rfl answer d' hrun
    rcases hadded with rfl | ⟨is, d₁, ⟨hchanges, hpaths⟩, rfl⟩
    · exact hd
    · exact hd.changes hchanges hpaths

end Draft

/-- Whatever the directives compile to has the modes of its places. -/
theorem compile_moded {source : String} {dir : Option String} {t : Template}
    (h : compile .builtin source dir = .ok t) : Moded t.instructions.toList := by
  obtain ⟨draft, hwalk, -, ht⟩ := compile_eq_ok_iff.mp h
  have hkeeps := Markup.walk_keeps
    (@Draft.handler_keepsModes ⟨.builtin, dir.map slashed⟩ rfl) source.toList
  rw [(Template.ofInstructions_eq_ok_iff.mp ht).1]
  exact (hkeeps _ Draft.keepsModes_start () draft hwalk).row

/-! Blocks of a template. -/

theorem Apart.behind {pre is : List Instruction} {inside : Bool} (h : Apart inside (pre ++ is)) :
    ∃ inside', Apart inside' is := by
  induction pre generalizing inside with
  | nil => exact ⟨inside, h⟩
  | cons i pre ih =>
    cases i with
    | beginBlock => exact ih h.2
    | _ => exact ih h

mutual

theorem Item.marks_of_blockNames : {item : Item} → blockNames item.flatten = [] →
    ∀ i ∈ item.flatten, ∀ inside, i.marks inside = inside
  | .leaf l, _, i, hi, inside => by
    obtain rfl := List.mem_singleton.mp hi
    cases l <;> rfl
  | .cond c body others, h, i, hi, inside => by
    simp only [Item.flatten, blockNames_cons, blockNames_append, List.append_eq_nil_iff] at h
    simp only [Item.flatten, List.mem_cons, List.mem_append] at hi
    rcases hi with rfl | hi | hi
    · rfl
    · exact Tree.marks_of_blockNames h.2.1 i hi inside
    · exact Branches.marks_of_blockNames h.2.2 i hi inside
  | .loop _ body, h, i, hi, inside | .empty _ body, h, i, hi, inside
  | .range _ body, h, i, hi, inside => by
    simp only [Item.flatten, blockNames_cons, blockNames_append, List.append_eq_nil_iff] at h
    simp only [Item.flatten, List.mem_cons, List.mem_append, List.not_mem_nil, or_false] at hi
    rcases hi with rfl | hi | rfl
    · rfl
    · exact @Tree.marks_of_blockNames body h.2.1 i hi inside
    · rfl
  | .loopElse _ before _ clause after, h, i, hi, inside => by
    simp only [Item.flatten, blockNames_cons, blockNames_append, List.append_eq_nil_iff] at h
    simp only [Item.flatten, List.mem_cons, List.mem_append, List.not_mem_nil, or_false] at hi
    rcases hi with rfl | hi | rfl | hi | rfl | hi | rfl
    · rfl
    · exact Tree.marks_of_blockNames h.2.1 i hi inside
    · rfl
    · exact Tree.marks_of_blockNames h.2.2.2.1 i hi inside
    · rfl
    · exact Tree.marks_of_blockNames h.2.2.2.2.2.1 i hi inside
    · rfl
  | .block .., h, _, _, _ => by simp [Item.flatten] at h

/-- A tree without blocks marks none. -/
theorem Tree.marks_of_blockNames : {items : Tree} → blockNames (Tree.flatten items) = [] →
    ∀ i ∈ Tree.flatten items, ∀ inside, i.marks inside = inside
  | [], _, i, hi, _ => by simp [Tree.flatten] at hi
  | item :: items, h, i, hi, inside => by
    rw [Tree.flatten, blockNames_append, List.append_eq_nil_iff] at h
    rw [Tree.flatten, List.mem_append] at hi
    rcases hi with hi | hi
    · exact Item.marks_of_blockNames h.1 i hi inside
    · exact Tree.marks_of_blockNames h.2 i hi inside

theorem Branches.marks_of_blockNames : {others : Branches} → blockNames others.flatten = [] →
    ∀ i ∈ others.flatten, ∀ inside, i.marks inside = inside
  | .done, _, i, hi, inside => by
    obtain rfl := List.mem_singleton.mp hi
    rfl
  | .otherwise body, h, i, hi, inside => by
    simp only [Branches.flatten, blockNames_cons, blockNames_append, List.append_eq_nil_iff] at h
    simp only [Branches.flatten, List.mem_cons, List.mem_append, List.not_mem_nil, or_false] at hi
    rcases hi with rfl | hi | rfl
    · rfl
    · exact Tree.marks_of_blockNames h.2.1 i hi inside
    · rfl
  | .elseIf c body others, h, i, hi, inside => by
    simp only [Branches.flatten, blockNames_cons, blockNames_append, List.append_eq_nil_iff] at h
    simp only [Branches.flatten, List.mem_cons, List.mem_append] at hi
    rcases hi with rfl | hi | hi
    · rfl
    · exact Tree.marks_of_blockNames h.2.1 i hi inside
    · exact Branches.marks_of_blockNames h.2.2 i hi inside

end

/-- Where a block is open, there is a last opener with no closer behind it. -/
theorem insideBlock_split {is : List Instruction} (h : insideBlock is = true) :
    ∃ front name params middle, is = front ++ .beginBlock name params :: middle ∧
      .endBlock ∉ middle := by
  induction is using List.reverseRecOn with
  | nil => cases h
  | append_singleton is i ih =>
    rw [insideBlock_concat] at h
    have hstays : insideBlock is = true → i ≠ .endBlock → ∃ front name params middle,
        is ++ [i] = front ++ .beginBlock name params :: middle ∧ .endBlock ∉ middle := by
      intro hinside hi
      obtain ⟨front, name, params, middle, rfl, hmiddle⟩ := ih hinside
      refine ⟨front, name, params, middle ++ [i], by simp, ?_⟩
      simpa [hmiddle] using hi.symm
    cases i with
    | beginBlock name params => exact ⟨is, name, params, [], rfl, List.not_mem_nil⟩
    | endBlock => cases h
    | _ => exact hstays h nofun

/-- Rows that mark nothing leave a block open. -/
theorem foldl_marks {is : List Instruction} (h : ∀ i ∈ is, ∀ inside, i.marks inside = inside)
    (inside : Bool) : is.foldl Instruction.marks inside = inside := by
  induction is generalizing inside with
  | nil => rfl
  | cons i is ih =>
    rw [List.forall_mem_cons] at h
    rw [List.foldl_cons, h.1, ih h.2]

namespace Template

variable {t : Template} {i j : Nat}

/-- An index strictly between the opener of a block and the closer that it leads to. -/
def InBlock (t : Template) (i : Nat) : Prop :=
  ∃ j name params, t.instructions[j]? = some (.beginBlock name params) ∧
    t.instructions[(t.link j).next]? = some .endBlock ∧ j < i ∧ i < (t.link j).next

theorem between_eq (is : List Instruction) (i j : Nat) :
    between is i j = (is.drop (i + 1)).take (j - (i + 1)) := by
  rw [between, List.extract_eq_take_drop]

/-- In front of an instruction stand those before another one, that one, and those between. -/
theorem take_eq_between {is : List Instruction} {i j : Nat} {m : Instruction}
    (hj : is[j]? = some m) (h : j < i) : is.take i = is.take j ++ m :: between is j i := by
  obtain ⟨hlt, rfl⟩ := List.getElem?_eq_some_iff.mp hj
  rw [between_eq]
  conv_lhs => rw [show i = j + (i - j) by omega, List.take_add]
  rw [List.drop_eq_getElem_cons hlt, show i - j = (i - (j + 1)) + 1 by omega, List.take_succ_cons]

/-- No block is opened or closed strictly inside of a block. -/
theorem marks_between {name : String} {params : List String}
    (hj : t.instructions[j]? = some (.beginBlock name params)) :
    ∀ i ∈ between t.instructions.toList j (t.link j).next, ∀ inside, i.marks inside = inside := by
  obtain ⟨⟨hlt, -, items, hflat, -⟩, -⟩ :
    t.Spans j (t.link j).next (· = .endBlock) ∧ (t.link j).clause = none := t.leads hj
  rw [← Array.getElem?_toList] at hj
  obtain ⟨hlength, hget⟩ := List.getElem?_eq_some_iff.mp hj
  have hsplit : t.instructions.toList = t.instructions.toList.take j ++ .beginBlock name params ::
      (Tree.flatten items ++ (t.instructions.toList.drop (j + 1)).drop
        ((t.link j).next - (j + 1))) := by
    rw [hflat, between_eq, List.take_append_drop, ← hget, List.getElem_cons_drop,
      List.take_append_drop]
  have hapart := t.apart.1
  rw [hsplit] at hapart
  obtain ⟨inside, -, hbehind⟩ := hapart.behind
  rw [← hflat]
  exact Tree.marks_of_blockNames ((Tree.shallow_of_apart hbehind).2.1 rfl)

/-- A block is open in front of an instruction exactly when that stands in the block. -/
theorem insideBlock_take {m : Instruction} (hi : t.instructions[i]? = some m)
    (hm : m ≠ .endBlock) : insideBlock (t.instructions.toList.take i) = true ↔ t.InBlock i := by
  constructor
  · intro hinside
    obtain ⟨front, name, params, middle, hsplit, hmiddle⟩ := insideBlock_split hinside
    have hfront : front.length < i := by
      have hlength := congrArg List.length hsplit
      rw [List.length_take, List.length_append, List.length_cons] at hlength
      omega
    have hat : ∀ k, k < i →
        t.instructions[k]? = (front ++ .beginBlock name params :: middle)[k]? := by
      intro k hk
      rw [← hsplit, List.getElem?_take_of_lt hk, Array.getElem?_toList]
    have hbegin : t.instructions[front.length]? = some (.beginBlock name params) := by
      rw [hat _ hfront, List.getElem?_append_right (Nat.le_refl _), Nat.sub_self,
        List.getElem?_cons_zero]
    obtain ⟨⟨hlt, ⟨e, he, hend⟩, -⟩, -⟩ : t.Spans front.length (t.link front.length).next
      (· = .endBlock) ∧ (t.link front.length).clause = none := t.leads hbegin
    subst hend
    refine ⟨front.length, name, params, hbegin, he, hfront, ?_⟩
    rcases Nat.lt_trichotomy i (t.link front.length).next with hlt' | rfl | hlt'
    · exact hlt'
    · exact absurd (Option.some.inj (hi.symm.trans he)) hm
    · obtain ⟨k, hk⟩ : ∃ k, (t.link front.length).next - front.length = k + 1 :=
        ⟨_, (Nat.sub_add_cancel (by omega)).symm⟩
      rw [hat _ hlt', List.getElem?_append_right (by omega), hk, List.getElem?_cons_succ] at he
      exact absurd (List.mem_of_getElem? he) hmiddle
  · rintro ⟨j, name, params, hbegin, -, hj, hi'⟩
    have hmarks := marks_between hbegin
    rw [← Array.getElem?_toList] at hbegin
    rw [take_eq_between hbegin hj, insideBlock, List.foldl_append, List.foldl_cons]
    apply foldl_marks
    intro k hk
    refine hmarks k ?_
    rw [between_eq] at hk ⊢
    exact (List.take_subset_take_left _ (by omega)) hk

/-- In moded instructions the paths of each are of the block where it stands in one, and shared where
it does not. -/
theorem mode_of_moded (h : Moded t.instructions.toList) {m : Instruction}
    (hi : t.instructions[i]? = some m) {p : Path} (hp : p ∈ m.paths) :
    (t.InBlock i → p.mode = .block) ∧ (¬ t.InBlock i → p.mode = .shared) := by
  have hm : m ≠ .endBlock := by
    rintro rfl
    cases hp
  obtain ⟨hlt, hget⟩ := Array.getElem?_eq_some_iff.mp hi
  have hsplit : t.instructions.toList =
      t.instructions.toList.take i ++ m :: t.instructions.toList.drop (i + 1) := by
    rw [← hget, ← Array.getElem_toList, List.getElem_cons_drop, List.take_append_drop]
  have hmode := h _ m _ hsplit p hp
  rw [← insideBlock_take hi hm]
  cases hinside : insideBlock (t.instructions.toList.take i) with
  | true =>
    rw [hinside] at hmode
    exact ⟨fun _ => hmode, fun hout => absurd rfl hout⟩
  | false =>
    rw [hinside] at hmode
    exact ⟨nofun, fun _ => hmode⟩

end Template

/-- What the directives compile to resolves every path where it stands: all paths of an instruction,
also those inside of segments and indexes, are of the block that it stands in, or shared. -/
theorem compile_modes {source : String} {dir : Option String} {t : Template}
    (h : compile .builtin source dir = .ok t) {i : Nat} {m : Instruction}
    (hi : t.instructions[i]? = some m) {p : Path} (hp : p ∈ m.paths) :
    (t.InBlock i → p.mode = .block) ∧ (¬ t.InBlock i → p.mode = .shared) :=
  Template.mode_of_moded (compile_moded h) hi hp

/-- A block with a variable inside of a path. -/
def nestedVariable : String :=
  "\x7bdefine_block b\x7d\x7b$x.\x7b$y\x7d\x7d\x7b/define_block\x7d"

set_option maxRecDepth 4000 in
theorem compile_modes_nested : ∃ t m p, compile .builtin nestedVariable none = .ok t ∧
    t.instructions[1]? = some m ∧ p ∈ m.paths ∧ p.root? = some "y" ∧ t.InBlock 1 ∧
    p.mode = .block := by
  have hcheck : (compile .builtin nestedVariable none).toOption.any (fun t =>
      decide ((t.link 0).next = 2) && t.instructions[0]?.any (·.marks false) &&
        t.instructions[2]?.any (!·.marks true) &&
        t.instructions[1]?.any fun m => m.paths.any fun p => decide (p.root? = some "y")) = true := by
    decide +kernel
  obtain ⟨t, ht, hcheck⟩ := exists_ok_of_any hcheck
  simp only [Bool.and_eq_true, decide_eq_true_eq, Option.any_eq_true, List.any_eq_true] at hcheck
  obtain ⟨⟨⟨hlink, opener, hi, hopens⟩, closer, hj, hcloses⟩, m, hm, p, hp, hroot⟩ := hcheck
  cases opener with
  | beginBlock name params =>
    cases closer with
    | endBlock =>
      have hinside : t.InBlock 1 := ⟨0, name, params, hi, hlink ▸ hj, by omega, by omega⟩
      exact ⟨t, m, p, ht, hm, hp, hroot, hinside, (compile_modes ht hm hp).1 hinside⟩
    | _ => cases hcloses
  | _ => cases hopens

end BraceTemplate
