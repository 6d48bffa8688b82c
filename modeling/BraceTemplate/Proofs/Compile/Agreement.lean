import Mathlib.Data.List.Induction
import BraceTemplate.Proofs.Compile.Changes

/-!
Nesting is tracked twice, by the names that a draft holds open and by the sections of the linker.
The two agree behind every node: where compilation comes to its end with all names closed, linking
can only find that something is given twice.
-/
namespace BraceTemplate

/-! Open loops. -/

/-- The number of open loops behind an instruction; the closer of no loop has none. -/
def Instruction.loops (n : Nat) : Instruction → Option Nat
  | .beginFor _ => some (n + 1)
  | .endFor => if n = 0 then none else some (n - 1)
  | _ => some n

/-- The number of open loops behind a row, of which `n` are open in front. -/
def loopsOpen (n : Nat) (is : List Instruction) : Option Nat := is.foldlM Instruction.loops n

@[simp] theorem loopsOpen_nil (n : Nat) : loopsOpen n [] = some n := rfl

theorem loopsOpen_concat (n : Nat) (is : List Instruction) (i : Instruction) :
    loopsOpen n (is ++ [i]) = (loopsOpen n is).bind (i.loops ·) := by
  simp [loopsOpen, List.foldlM_append, Option.bind_eq_bind]

/-- The innermost loop that a row leaves open, with what stands in front of it and inside of it. -/
structure InnermostLoop (is pre : List Instruction) (loop : Loop) (post : List Instruction) :
    Prop where
  split : is = pre ++ .beginFor loop :: post
  closed : loopsOpen 0 post = some 0

/-- Every open loop has its place: `k` loops are open inside of it. -/
theorem exists_open_loop {is : List Instruction} {n k : Nat} (h : loopsOpen 0 is = some n)
    (hk : k < n) : ∃ pre loop post, is = pre ++ .beginFor loop :: post ∧
      loopsOpen 0 post = some k := by
  induction is using List.reverseRecOn generalizing n k with
  | nil =>
    obtain rfl : 0 = n := by simpa using h
    omega
  | append_singleton is i ih =>
    rw [loopsOpen_concat] at h
    obtain ⟨m, hm, hi⟩ := Option.bind_eq_some_iff.mp h
    -- a loop that is open in front stays open, and the instruction stands inside of it
    have hstays : ∀ j, j < m → i.loops j = some k → ∃ pre loop post,
        is ++ [i] = pre ++ .beginFor loop :: post ∧ loopsOpen 0 post = some k := by
      intro j hj hjk
      obtain ⟨pre, loop, post, rfl, hpost⟩ := ih hm hj
      exact ⟨pre, loop, post ++ [i], by simp,
        by rw [loopsOpen_concat, hpost, Option.bind_some, hjk]⟩
    cases i with
    | beginFor loop =>
      obtain rfl : m + 1 = n := Option.some.inj hi
      cases k with
      | zero => exact ⟨is, loop, [], rfl, rfl⟩
      | succ k => exact hstays k (by omega) rfl
    | endFor =>
      simp only [Instruction.loops, Option.ite_none_left_eq_some] at hi
      obtain ⟨hm', hi⟩ := hi
      exact hstays (k + 1) (by grind) rfl
    | _ =>
      obtain rfl : m = n := Option.some.inj hi
      exact hstays k hk rfl

/-- Whether a loop has been closed inside of the innermost open one, behind an instruction. -/
def Instruction.closesLoop (closed : Bool) : Instruction → Bool
  | .beginFor _ => false
  | .endFor => true
  | _ => closed

/-- A mark for whether a loop has been closed inside of the innermost open one. -/
def MarksClosed (is : List Instruction) (closed : Bool) : Prop :=
  ∀ pre loop post, InnermostLoop is pre loop post → (closed = true ↔ .endFor ∈ post)

theorem MarksClosed.concat {is : List Instruction} {closed : Bool} (h : MarksClosed is closed)
    (i : Instruction) : MarksClosed (is ++ [i]) (i.closesLoop closed) := by
  rintro pre loop post ⟨hsplit, hpost⟩
  rcases concat_eq_append_cons hsplit with ⟨rfl, rfl, rfl⟩ | ⟨post, rfl, rfl⟩
  · simp [Instruction.closesLoop]
  · rw [loopsOpen_concat] at hpost
    obtain ⟨n, hn, hi⟩ := Option.bind_eq_some_iff.mp hpost
    cases i with
    | beginFor => cases hi
    | endFor => simp [Instruction.closesLoop]
    | _ =>
      obtain rfl : n = 0 := Option.some.inj hi
      simpa [Instruction.closesLoop] using h pre loop post ⟨rfl, hn⟩

/-- An instruction that neither opens nor closes a loop may be taken away again. -/
theorem MarksClosed.of_concat {is : List Instruction} {closed : Bool} {i : Instruction}
    (hi : ∀ n, i.loops n = some n) (h : MarksClosed (is ++ [i]) closed) :
    MarksClosed is closed := by
  rintro pre loop post ⟨rfl, hpost⟩
  have hne : i ≠ .endFor := by
    rintro rfl
    cases hi 0
  have hopen : InnermostLoop (pre ++ .beginFor loop :: post ++ [i]) pre loop (post ++ [i]) :=
    ⟨by simp, by rw [loopsOpen_concat, hpost, Option.bind_some, hi]⟩
  simpa [Ne.symm hne] using h pre loop _ hopen

/-! Linking what has been emitted. -/

namespace Linker

theorem run_append (l : Linker) (i : Nat) (is js : List Instruction) :
    l.run i (is ++ js) = l.run i is >>= fun l' => l'.run (i + is.length) js := by
  induction is generalizing l i with
  | nil => rfl
  | cons instruction is ih =>
    rw [List.cons_append, run, run]
    cases l.step i instruction with
    | error e => rfl
    | ok l' =>
      have hlength : i + 1 + is.length = i + (instruction :: is).length := by
        rw [List.length_cons]
        omega
      exact (ih l' (i + 1)).trans (by rw [hlength]; rfl)

theorem run_concat (l : Linker) (i : Nat) (is : List Instruction) (instruction : Instruction) :
    l.run i (is ++ [instruction]) =
      l.run i is >>= fun l' => l'.step (i + is.length) instruction := by
  rw [run_append]
  cases l.run i is with
  | error e => rfl
  | ok l' =>
    change (l'.step _ instruction >>= fun l'' => l''.run _ []) = l'.step _ instruction
    cases l'.step (i + is.length) instruction <;> rfl

/-- Faults of a program in which something is given twice: a branch behind the final one, an inline
empty section of a loop that has one, or a block of a name that is taken. -/
inductive Repeats : Error → Prop where
  | branch (name : String) : Repeats (.syntaxError (.branchAfterElse name) none)
  | emptySection : Repeats (.syntaxError .secondEmptySection none)
  | block (name : String) : Repeats (.syntaxError (.blockDefinedTwice name) none)

/-- How linking stands while names are open: its open sections are those names, unless it has met
something that is given twice. -/
def Settled (opened : List String) : Except Error Linker → Prop
  | .ok l => l.opened.map Section.name = opened
  | .error e => Repeats e

theorem Settled.bind {opened opened' : List String} {result : Except Error Linker}
    {next : Linker → Except Error Linker} (h : Settled opened result)
    (hnext : ∀ l, l.opened.map Section.name = opened → Settled opened' (next l)) :
    Settled opened' (result >>= next) := by
  cases result with
  | error e => exact h
  | ok l => exact hnext l h

variable {l : Linker} {k : Nat} {opened : List String}

theorem Settled.push (h : l.opened.map Section.name = opened) (s : Section) :
    Settled (s.name :: opened) (.ok (l.push s)) :=
  congrArg (s.name :: ·) h

/-- The name of a section tells which instruction closes it. -/
theorem closer_eq_of_name {s s' : Section} (h : s.name = s'.closer.name) :
    s.closer = s'.closer := by
  cases s <;> cases s' <;> first | rfl | simp [Section.name, Section.closer, Instruction.name] at h

/-- A closer whose name is open closes the section of that name. -/
theorem Settled.close (s : Section) (h : l.opened.map Section.name = s.closer.name :: opened) :
    Settled opened (l.step k s.closer) := by
  obtain ⟨top, rest, hl, htop, hrest⟩ := List.map_eq_cons_iff.mp h
  rw [← closer_eq_of_name htop]
  cases top with
  | block start name params =>
    simp only [Section.closer, step, hl, closeBlock]
    split
    · exact Repeats.block name
    · exact hrest
  | _ =>
    simp only [Section.closer, step, hl]
    exact hrest

/-- A further branch where a conditional is open. -/
theorem Settled.branch (i : Instruction) (final : Bool)
    (h : l.opened.map Section.name = "if" :: opened) :
    Settled ("if" :: opened) (l.branch k i final) := by
  obtain ⟨top, rest, hl, htop, hrest⟩ := List.map_eq_cons_iff.mp h
  cases top with
  | branches last final' =>
    cases final' with
    | false =>
      simp only [Linker.branch, hl]
      exact congrArg ("if" :: ·) hrest
    | true =>
      simp only [Linker.branch, hl]
      exact Repeats.branch i.name
  | _ => simp [Section.name] at htop

/-- An inline empty section where a loop is open. -/
theorem Settled.inlineEmpty (h : l.opened.map Section.name = "for" :: opened) :
    Settled ("empty" :: "for" :: opened) (l.inlineEmpty k) := by
  obtain ⟨top, rest, hl, htop, hrest⟩ := List.map_eq_cons_iff.mp h
  cases top with
  | loop start clause =>
    cases clause with
    | none =>
      simp only [Linker.inlineEmpty, hl]
      exact congrArg ("empty" :: "for" :: ·) hrest
    | some c =>
      simp only [Linker.inlineEmpty, hl]
      exact Repeats.emptySection
  | _ => simp [Section.name] at htop

/-- A block where none is open. -/
theorem Settled.openBlock (name : String) (params : List String)
    (h : l.opened.map Section.name = opened) (hblock : "define_block" ∉ opened) :
    Settled ("define_block" :: opened) (l.step k (.beginBlock name params)) := by
  have hnone : l.opened.any Section.isBlock = false := by
    refine List.any_eq_false.mpr fun s hs hb => hblock ?_
    rw [← h]
    cases s with
    | block => exact List.mem_map_of_mem hs
    | _ => cases hb
  simp only [step, hnone]
  exact Settled.push h (.block k name params)

end Linker

namespace Draft

/-- A draft keeps the same account of nesting by its names, by its flags, and by the instructions
that it has emitted and how they link. -/
structure Agrees (r : Registry) (d : Draft) : Prop where
  depth : d.loopDepth = d.opened.count "for"
  blocks : d.opened.count "define_block" = if d.mode = .block then 1 else 0
  row : loopsOpen 0 d.instructions = some d.loopDepth
  closed : MarksClosed d.instructions d.closedInnerLoop
  linked : ∀ size, Linker.Settled (d.opened.filter r.isDirective)
    ((Linker.start size).run 0 d.instructions)

variable {r : Registry} {d d' : Draft}

theorem agrees_start : start.Agrees r where
  depth := rfl
  blocks := by simp [start]
  row := rfl
  closed := by
    rintro pre loop post ⟨hsplit, -⟩
    simp [instructions, start] at hsplit
  linked _ := rfl

/-- What has to be checked of an instruction at the end of a draft. -/
theorem Agrees.emit {i : Instruction} (h : d.Agrees r) (he : d'.emitted = d.emitted)
    (hdepth : d'.loopDepth = d'.opened.count "for")
    (hblocks : d'.opened.count "define_block" = if d'.mode = .block then 1 else 0)
    (hrow : i.loops d.loopDepth = some d'.loopDepth)
    (hclosed : d'.closedInnerLoop = i.closesLoop d.closedInnerLoop)
    (hlink : ∀ (l : Linker) k, l.opened.map Section.name = d.opened.filter r.isDirective →
      Linker.Settled (d'.opened.filter r.isDirective) (l.step k i)) : (d'.emit i).Agrees r where
  depth := hdepth
  blocks := hblocks
  row := by
    rw [instructions_emit, instructions_congr he, loopsOpen_concat, h.row]
    exact hrow
  closed := by
    rw [instructions_emit, instructions_congr he]
    exact hclosed ▸ h.closed.concat i
  linked size := by
    rw [instructions_emit, instructions_congr he, Linker.run_concat]
    exact (h.linked size).bind fun l hl => hlink l _ hl

/-! Leaves. -/

theorem loops_leaf (l : Leaf) (n : Nat) : l.instruction.loops n = some n := by
  cases l <;> rfl

theorem step_leaf (l : Leaf) (k : Nat) (linker : Linker) :
    linker.step k l.instruction = .ok linker := by
  cases l <;> rfl

theorem Agrees.emit_leaf (h : d.Agrees r) (l : Leaf) : (d.emit l.instruction).Agrees r := by
  refine h.emit rfl h.depth h.blocks (loops_leaf l _) ?_ fun linker k hl => ?_
  · cases l <;> rfl
  · rw [step_leaf]
    exact hl

/-- A leaf at the end may be taken away again. -/
theorem Agrees.of_emit_leaf {l : Leaf} (h : (d.emit l.instruction).Agrees r) : d.Agrees r where
  depth := h.depth
  blocks := h.blocks
  row := by
    have hrow := h.row
    rw [instructions_emit, loopsOpen_concat] at hrow
    obtain ⟨n, hn, hl⟩ := Option.bind_eq_some_iff.mp hrow
    rw [loops_leaf] at hl
    exact hn.trans hl
  closed := by
    have hclosed := h.closed
    rw [instructions_emit] at hclosed
    exact hclosed.of_concat (loops_leaf l)
  linked size := by
    have hlinked := h.linked size
    rw [instructions_emit, Linker.run_concat] at hlinked
    cases hrun : (Linker.start size).run 0 d.instructions with
    | error e =>
      rw [hrun] at hlinked
      exact hlinked
    | ok linker =>
      rw [hrun] at hlinked
      change Linker.Settled _ (linker.step _ l.instruction) at hlinked
      rw [step_leaf] at hlinked
      exact hlinked

theorem Agrees.addLeaves (h : d.Agrees r) {is : List Instruction} (his : Leaves is) :
    (is.foldl add d).Agrees r :=
  addLeaves_keeps (fun _ l => ⟨fun hd => hd.of_emit_leaf, fun hd => hd.emit_leaf l⟩) his h

/-! Names. -/

theorem isDirective_of_mem (hr : r.Grown) {name : String} {directive : Directive}
    (h : (name, directive) ∈ Directive.all) : r.isDirective name = true := by
  rw [Registry.isDirective, hr.find?_directive.mpr h]

theorem isDirective_hosted {name : String} {e : External}
    (h : r.find? name = some (.external e)) : r.isDirective name = false := by
  rw [Registry.isDirective, h]

/-- Only the open names of directives count. -/
theorem Agrees.rename (h : d.Agrees r) (hr : r.Grown) {opened : List String}
    (ho : opened.filter r.isDirective = d.opened.filter r.isDirective) :
    ({ d with opened := opened } : Draft).Agrees r where
  depth := by
    have hfor := isDirective_of_mem hr (show ("for", Directive.loop) ∈ Directive.all by decide)
    rw [← List.count_filter hfor, ho, List.count_filter hfor, h.depth]
  blocks := by
    have hblock := isDirective_of_mem hr
      (show ("define_block", Directive.defineBlock) ∈ Directive.all by decide)
    rw [← List.count_filter hblock, ho, List.count_filter hblock, h.blocks]
  row := h.row
  closed := h.closed
  linked size := by
    rw [ho]
    exact h.linked size

/-- A directive is a plain section if it is neither that of a loop nor that of a block. -/
structure PlainSection (r : Registry) (i : Instruction) (name : String) : Prop where
  directive : r.isDirective name = true
  ne_for : name ≠ "for"
  ne_block : name ≠ "define_block"
  loops : ∀ n, i.loops n = some n
  closesLoop : ∀ closed, i.closesLoop closed = closed

theorem Agrees.openPlain (h : d.Agrees r) {i : Instruction} {name : String}
    (hi : PlainSection r i name)
    (hlink : ∀ (l : Linker) k, l.opened.map Section.name = d.opened.filter r.isDirective →
      Linker.Settled (name :: d.opened.filter r.isDirective) (l.step k i)) :
    (({ d with opened := name :: d.opened } : Draft).emit i).Agrees r := by
  refine h.emit rfl ?_ ?_ (hi.loops _) (hi.closesLoop _).symm fun l k hl => ?_
  · rw [List.count_cons_of_ne hi.ne_for]
    exact h.depth
  · rw [List.count_cons_of_ne hi.ne_block]
    exact h.blocks
  · rw [List.filter_cons_of_pos hi.directive]
    exact hlink l k hl

theorem Agrees.closePlain (h : d.Agrees r) {s : Section} {rest : List String}
    (hs : PlainSection r s.closer s.closer.name) (hopened : d.opened = s.closer.name :: rest) :
    (({ d with opened := rest } : Draft).emit s.closer).Agrees r := by
  have hdepth := h.depth
  have hblocks := h.blocks
  rw [hopened] at hdepth hblocks
  rw [List.count_cons_of_ne hs.ne_for] at hdepth
  rw [List.count_cons_of_ne hs.ne_block] at hblocks
  refine h.emit rfl hdepth hblocks (hs.loops _) (hs.closesLoop _).symm fun l k hl => ?_
  rw [hopened, List.filter_cons_of_pos hs.directive] at hl
  exact .close s hl

theorem Agrees.openEmpty (h : d.Agrees r) (hr : r.Grown) :
    (({ d with opened := "empty" :: d.opened } : Draft).add d.emptySection).Agrees r := by
  have hempty := isDirective_of_mem hr (show ("empty", Directive.empty) ∈ Directive.all by decide)
  have hfor := isDirective_of_mem hr (show ("for", Directive.loop) ∈ Directive.all by decide)
  unfold emptySection
  split
  · rename_i hinline
    obtain ⟨rest, hopened⟩ := List.head?_eq_some_iff.mp hinline.1
    refine h.openPlain ⟨hempty, by decide, by decide, fun _ => rfl, fun _ => rfl⟩ fun l k hl => ?_
    rw [hopened, List.filter_cons_of_pos hfor] at hl ⊢
    exact .inlineEmpty hl
  · refine h.openPlain ⟨hempty, by decide, by decide, fun _ => rfl, fun _ => rfl⟩ fun l k hl => ?_
    exact .push hl (.empty k)

theorem Agrees.openLoop (h : d.Agrees r) (hfor : r.isDirective "for" = true) (loop : Loop) :
    (({ d with opened := "for" :: d.opened, loopDepth := d.loopDepth + 1,
               closedInnerLoop := false } : Draft).emit (.beginFor loop)).Agrees r := by
  refine h.emit rfl ?_ ?_ rfl rfl fun l k hl => ?_
  · rw [List.count_cons_self, h.depth]
  · rw [List.count_cons_of_ne (by decide)]
    exact h.blocks
  · rw [List.filter_cons_of_pos hfor]
    exact .push hl (.loop k none)

theorem Agrees.closeLoop (h : d.Agrees r) (hfor : r.isDirective "for" = true) {rest : List String}
    (hopened : d.opened = "for" :: rest) :
    (({ d with opened := rest, loopDepth := d.loopDepth - 1,
               closedInnerLoop := true } : Draft).emit .endFor).Agrees r := by
  have hdepth := h.depth
  have hblocks := h.blocks
  rw [hopened, List.count_cons_self] at hdepth
  rw [hopened, List.count_cons_of_ne (by decide)] at hblocks
  refine h.emit rfl ?_ hblocks ?_ rfl fun l k hl => ?_
  · simp [hdepth]
  · simp [Instruction.loops, hdepth]
  · rw [hopened, List.filter_cons_of_pos hfor] at hl
    exact .close (.loop 0 none) hl

theorem Agrees.openBlock (h : d.Agrees r) (hblock : r.isDirective "define_block" = true)
    (hopened : "define_block" ∉ d.opened) (name : String) (params : List String) :
    (({ d with opened := "define_block" :: d.opened, mode := .block } : Draft).emit
      (.beginBlock name params)).Agrees r := by
  refine h.emit rfl ?_ ?_ rfl rfl fun l k hl => ?_
  · rw [List.count_cons_of_ne (by decide)]
    exact h.depth
  · rw [List.count_cons_self, List.count_eq_zero_of_not_mem hopened]
    rfl
  · rw [List.filter_cons_of_pos hblock]
    exact .openBlock _ _ hl fun hmem => hopened (List.mem_filter.mp hmem).1

theorem Agrees.closeBlock (h : d.Agrees r) (hblock : r.isDirective "define_block" = true)
    {rest : List String} (hopened : d.opened = "define_block" :: rest) :
    (({ d with opened := rest, mode := .shared } : Draft).emit .endBlock).Agrees r := by
  have hdepth := h.depth
  have hblocks := h.blocks
  rw [hopened, List.count_cons_of_ne (by decide)] at hdepth
  rw [hopened, List.count_cons_self] at hblocks
  refine h.emit rfl hdepth ?_ rfl rfl fun l k hl => ?_
  · -- only one block was open
    change _ = 0
    grind
  · rw [hopened, List.filter_cons_of_pos hblock] at hl
    exact .close (.block 0 "" []) hl

/-- Every change keeps the account. -/
theorem Agrees.becomes (h : d.Agrees r) (hr : r.Grown) (hb : d.Becomes r d') : d'.Agrees r := by
  obtain ⟨is, d₁, hchanges, rfl⟩ := hb
  have hdirective : ∀ e ∈ Directive.all, r.isDirective e.1 = true := fun e he =>
    isDirective_of_mem hr he
  have hif := hdirective ("if", .cond) (by decide)
  have hfor := hdirective ("for", .loop) (by decide)
  have hempty := hdirective ("empty", .empty) (by decide)
  have hblock := hdirective ("define_block", .defineBlock) (by decide)
  have hrange := hdirective ("range", .range) (by decide)
  cases hchanges with
  | leaves hleaves => exact h.addLeaves hleaves
  | openHosted hleaves hfind =>
    exact (h.rename hr (by simp [isDirective_hosted hfind])).addLeaves hleaves
  | closeHosted hleaves hfind hopened =>
    exact (h.rename hr (by simp [hopened, isDirective_hosted hfind])).addLeaves hleaves
  | branch hi hhead =>
    obtain ⟨rest, hopened⟩ := List.head?_eq_some_iff.mp hhead
    rcases hi with ⟨c, rfl⟩ | rfl
    all_goals
      refine h.emit rfl h.depth h.blocks rfl rfl fun l k hl => ?_
      rw [hopened, List.filter_cons_of_pos hif] at hl ⊢
      exact .branch _ _ hl
  | openPlain hi =>
    rcases hi with ⟨c, rfl⟩ | ⟨c, rfl⟩
    · have hi : PlainSection r (.beginIf c) "if" :=
        ⟨hif, by decide, by decide, fun _ => rfl, fun _ => rfl⟩
      exact h.openPlain hi fun l k hl => .push hl (.branches k false)
    · have hi : PlainSection r (.beginRange c) "range" :=
        ⟨hrange, by decide, by decide, fun _ => rfl, fun _ => rfl⟩
      exact h.openPlain hi fun l k hl => .push hl (.range k)
  | openEmpty => exact h.openEmpty hr
  | openLoop hdepth => exact h.openLoop hfor _
  | openBlock hopened => exact h.openBlock hblock hopened _ _
  | closePlain hi hopened =>
    rcases hi with rfl | rfl | rfl
    · have hi : PlainSection r .endIf "if" :=
        ⟨hif, by decide, by decide, fun _ => rfl, fun _ => rfl⟩
      exact Agrees.closePlain (s := .branches 0 false) h hi hopened
    · have hi : PlainSection r .endEmpty "empty" :=
        ⟨hempty, by decide, by decide, fun _ => rfl, fun _ => rfl⟩
      exact Agrees.closePlain (s := .empty 0) h hi hopened
    · have hi : PlainSection r .endRange "range" :=
        ⟨hrange, by decide, by decide, fun _ => rfl, fun _ => rfl⟩
      exact Agrees.closePlain (s := .range 0) h hi hopened
  | closeLoop hopened => exact h.closeLoop hfor hopened
  | closeBlock hopened => exact h.closeBlock hblock hopened

theorem Agrees.mode_eq_block_iff (h : d.Agrees r) :
    d.mode = .block ↔ "define_block" ∈ d.opened := by
  rw [← List.count_pos_iff, h.blocks]
  by_cases hmode : d.mode = .block
  · simp [hmode]
  · simp [hmode]

/-- While a loop is open there is an innermost one. -/
theorem Agrees.exists_innermost (h : d.Agrees r) (hopened : "for" ∈ d.opened) :
    ∃ pre loop post, InnermostLoop d.instructions pre loop post := by
  have hpos : 0 < d.loopDepth := by
    rw [h.depth]
    exact List.count_pos_iff.mpr hopened
  obtain ⟨pre, loop, post, hsplit, hpost⟩ := exists_open_loop h.row hpos
  exact ⟨pre, loop, post, hsplit, hpost⟩

/-- When all names are closed, linking finds nothing but what is given twice. -/
theorem Agrees.repeats_of_error (h : d.Agrees r) (hopened : d.opened = []) {dir : Option String}
    {e : Error} (he : Template.ofInstructions d.instructions dir = .error e) :
    Linker.Repeats e := by
  have hlinked := h.linked d.instructions.length
  rw [hopened, List.filter_nil] at hlinked
  unfold Template.ofInstructions at he
  split at he
  · rename_i hrun
    rw [hrun] at hlinked
    cases he
    exact hlinked
  · cases he
  · rename_i hrun
    rw [hrun] at hlinked
    cases hlinked

end Draft

/-- For every source, and handlers of a host that return leaves only, the names and the flags of the
draft agree with the instructions emitted and with how these link, behind every part of the source
and behind all of it. Where all names are closed in the end, linking fails at most because of
something that is given twice. -/
theorem compile_agrees {r : Registry} (hr : r.Grown) (hl : r.LeavesOnly) (source : String)
    (dir : Option String) :
    (∀ n pending draft, outcome (((Markup.marks source.toList).take n).foldlM
        (Markup.step (Draft.handler ⟨r, dir.map slashed⟩)) .empty) .start = (.ok pending, draft) →
      draft.Agrees r ∧ (draft.mode = .block ↔ "define_block" ∈ draft.opened) ∧
        ("for" ∈ draft.opened → ∃ pre loop post, InnermostLoop draft.instructions pre loop post ∧
          (draft.closedInnerLoop = true ↔ .endFor ∈ post))) ∧
    ∀ draft, outcome (Markup.walk (Draft.handler ⟨r, dir.map slashed⟩) source.toList) .start =
        (.ok (), draft) →
      draft.Agrees r ∧ (draft.opened = [] → ∀ e,
        Template.ofInstructions draft.instructions dir = .error e → Linker.Repeats e) := by
  have hkeeps : (Draft.handler ⟨r, dir.map slashed⟩).Keeps (Draft.Agrees r) :=
    Draft.handler_keeps_of_becomes hr hl fun d d' hd hb => hd.becomes hr hb
  constructor
  · intro n pending draft hrun
    have hdraft := Markup.steps_keep hkeeps _ _ _ Draft.agrees_start pending draft hrun
    refine ⟨hdraft, hdraft.mode_eq_block_iff, fun hopened => ?_⟩
    obtain ⟨pre, loop, post, hloop⟩ := hdraft.exists_innermost hopened
    exact ⟨pre, loop, post, hloop, hdraft.closed pre loop post hloop⟩
  · intro draft hrun
    have hdraft := Markup.walk_keeps hkeeps _ _ Draft.agrees_start () draft hrun
    exact ⟨hdraft, fun hopened e he => hdraft.repeats_of_error hopened he⟩

/-- A host that puts boxes around what stands between two nodes. -/
def boxes : Registry :=
  (Registry.builtin.register "box" ⟨fun _ => .ok [.literal "["], some (.ok [.literal "]"])⟩).2

/-- A box in a loop, and an inline empty section given twice. -/
def boxedTwice : String :=
  "\x7bfor $x in $xs\x7d\x7bbox\x7d\x7b/box\x7d\x7bempty\x7d\x7b/empty\x7d\x7bempty\x7d\x7b/empty\x7d\x7b/for\x7d"

theorem leavesOnly_boxes : boxes.LeavesOnly := by
  intro name e hfind
  have hentry := Dict.mem_of_find? hfind
  obtain ⟨-, rfl⟩ : name = "box" ∧
      e = ⟨fun _ => .ok [.literal "["], some (.ok [.literal "]"])⟩ := by
    simpa [boxes, Registry.register, Registry.contains, Registry.find?, Registry.builtin, Dict.find?,
      Dict.insert, Directive.all] using hentry
  constructor
  · rintro args is hopen
    cases hopen
    exact leaves_one (.literal "[")
  · intro is hclose
    cases hclose
    exact leaves_one (.literal "]")

theorem compile_agrees_boxedTwice : boxes.Grown ∧ boxes.LeavesOnly ∧ ∃ draft e,
    outcome (Markup.walk (Draft.handler ⟨boxes, none⟩) boxedTwice.toList) .start =
      (.ok (), draft) ∧ draft.opened = [] ∧
    Template.ofInstructions draft.instructions none = .error e ∧ Linker.Repeats e := by
  have hgrown : boxes.Grown := .register _ _ .builtin
  obtain ⟨run, hrun⟩ : ∃ run, outcome (Markup.walk (Draft.handler ⟨boxes, none⟩)
      boxedTwice.toList) Draft.start = run := ⟨_, rfl⟩
  have hwalk : run.1.isOk = true := by
    rw [← hrun]
    decide +kernel
  have hopened : run.2.opened = [] := by
    rw [← hrun]
    decide +kernel
  have hfails : (Template.ofInstructions run.2.instructions none).isOk = false := by
    rw [← hrun]
    decide +kernel
  obtain ⟨_ | _, draft⟩ := run
  · cases hwalk
  · have hagrees := (compile_agrees hgrown leavesOnly_boxes boxedTwice none).2 draft hrun
    cases hlink : Template.ofInstructions draft.instructions none with
    | ok t => simp [hlink, Except.isOk, Except.toBool] at hfails
    | error e =>
      exact ⟨hgrown, leavesOnly_boxes, draft, e, hrun, hopened, hlink, hagrees.2 hopened e hlink⟩

end BraceTemplate
