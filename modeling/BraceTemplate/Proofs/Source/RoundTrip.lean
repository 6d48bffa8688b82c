import BraceTemplate.Proofs.Compile.Steps
import BraceTemplate.Proofs.Source.Balance
import BraceTemplate.Proofs.Source.Nodes

/-!
Round trip: reading printed pieces adds the instructions that they are written for. What later nodes
depend on, the mode, the loops and the open names, is tracked by the place of the pieces.
-/
namespace BraceTemplate.Source
open Draft

variable {at_ : Place} {d : Draft}

/-- Where a draft stands among the pieces of a template. -/
structure Stands (at_ : Place) (d : Draft) : Prop where
  mode : d.mode = at_.mode
  depth : d.loopDepth = at_.depth
  closed : d.closedInnerLoop = at_.closed
  inLoop : d.opened.head? = some "for" ↔ at_.inLoop = true
  block : at_.mode = .shared → "define_block" ∉ d.opened

namespace Stands

theorem start (dir : Option (List Char)) : Stands (.start dir) .start :=
  ⟨rfl, rfl, rfl, by simp [Draft.start, Place.start], by simp [Draft.start]⟩

theorem behind (h : Stands at_ d) (is : List Instruction) (loops : Bool) :
    Stands (at_.behind loops) (d.behind is loops) :=
  ⟨h.mode, h.depth, by simp [Draft.behind, Place.behind, h.closed, Bool.or_comm], h.inLoop, h.block⟩

/-- Pieces without a loop do not change the place. -/
theorem behind_false (h : Stands at_ d) (is : List Instruction) : Stands at_ (d.behind is false) :=
  ⟨h.mode, h.depth, h.closed, h.inLoop, h.block⟩

theorem within (h : Stands at_ d) {name : String} (hfor : name ≠ "for")
    (hblock : name ≠ "define_block") (i : Instruction) : Stands at_.within (d.enter name i) := by
  refine ⟨h.mode, h.depth, h.closed, by simp [enter, Place.within, hfor], fun hmode => ?_⟩
  simpa [enter, hblock.symm] using h.block hmode

theorem inner (h : Stands at_ d) (loop : Loop) : Stands at_.inner (d.enterLoop loop) := by
  refine ⟨h.mode, ?_, rfl, by simp [enterLoop, enter, Place.inner], fun hmode => ?_⟩
  · simp [enterLoop, Place.inner, h.depth]
  · simpa [enterLoop, enter] using h.block hmode

theorem inBlock (h : Stands at_ d) (i : Instruction) :
    Stands at_.inBlock { d.enter "define_block" i with mode := .block } :=
  ⟨rfl, h.depth, h.closed, by simp [enter, Place.inBlock, Place.within], nofun⟩

/-- Which loop an empty section belongs to depends on the place only. -/
theorem emptySection (h : Stands at_ d) : d.emptySection = at_.beginEmpty := by
  unfold Draft.emptySection Place.beginEmpty
  rw [h.depth, h.closed]
  by_cases hin : at_.inLoop = true
  · cases hc : at_.closed <;> simp [h.inLoop.mpr hin, hin]
  · have := mt h.inLoop.mp hin
    simp [this, hin]

end Stands

/-- The draft does not end with text. -/
def Fresh (d : Draft) : Prop := ∀ text, d.emitted.head? ≠ some (.literal text)

theorem fresh_of_emitted {i : Instruction} {is : List Instruction} (h : d.emitted = i :: is)
    (hi : ∀ text, i ≠ .literal text) : Fresh d := by
  intro text
  rw [h, List.head?_cons]
  simpa using hi text

theorem addText_of_fresh (h : Fresh d) (text : String) :
    d.addText text = d.behind [.literal text] false := by
  obtain ⟨emitted, opened, depth, mode, closed⟩ := d
  cases emitted with
  | nil => rfl
  | cons i is =>
    cases i with
    | literal s => exact absurd rfl (h s)
    | _ => rfl

/-! Whole sections, from the opening node to the closing one. -/

section Sections

variable {dir : Option (List Char)} {opener body : List Char} {is : List Instruction} {loops : Bool}

theorem reading_section {name : String} {i j : Instruction} {closer : List Char}
    (hopen : Reading ⟨.builtin, dir⟩ d opener (d.enter name i))
    (hbody : Reading ⟨.builtin, dir⟩ (d.enter name i) body ((d.enter name i).behind is loops))
    (hclose : ∀ e : Draft, e.opened = name :: d.opened →
      Reading ⟨.builtin, dir⟩ e closer (e.leave d.opened j)) :
    Reading ⟨.builtin, dir⟩ d (opener ++ (body ++ closer)) (d.behind (i :: (is ++ [j])) loops) := by
  have hread := hopen.append (hbody.append (hclose _ rfl))
  have heq : ((d.enter name i).behind is loops).leave d.opened j =
      d.behind (i :: (is ++ [j])) loops := by
    simp [enter, Draft.behind, leave]
  rwa [heq] at hread

theorem reading_loop {loop : Loop} (hopen : Reading ⟨.builtin, dir⟩ d opener (d.enterLoop loop))
    (hbody : Reading ⟨.builtin, dir⟩ (d.enterLoop loop) body ((d.enterLoop loop).behind is loops)) :
    Reading ⟨.builtin, dir⟩ d (opener ++ (body ++ node "/for".toList))
      (d.behind (.beginFor loop :: (is ++ [.endFor])) true) := by
  have hread := hopen.append (hbody.append (reading_endFor rfl))
  simpa [enterLoop, enter, Draft.behind, leave] using hread

theorem reading_block {i : Instruction} (hmode : d.mode = .shared)
    (hopen : Reading ⟨.builtin, dir⟩ d opener { d.enter "define_block" i with mode := .block })
    (hbody : Reading ⟨.builtin, dir⟩ { d.enter "define_block" i with mode := .block } body
      (Draft.behind { d.enter "define_block" i with mode := .block } is loops)) :
    Reading ⟨.builtin, dir⟩ d (opener ++ (body ++ node "/define_block".toList))
      (d.behind (i :: (is ++ [.endBlock])) loops) := by
  have hread := hopen.append (hbody.append (reading_endDefine rfl))
  simpa [enter, Draft.behind, leave, ← hmode] using hread

/-- A conditional ends with its other branches. -/
theorem reading_cond {i : Instruction} {js : List Instruction} {loops' : Bool} {others : List Char}
    (hopen : Reading ⟨.builtin, dir⟩ d opener (d.enter "if" i))
    (hbody : Reading ⟨.builtin, dir⟩ (d.enter "if" i) body ((d.enter "if" i).behind is loops))
    (hothers : Reading ⟨.builtin, dir⟩ ((d.enter "if" i).behind is loops) others
      { ((d.enter "if" i).behind is loops).behind js loops' with opened := d.opened }) :
    Reading ⟨.builtin, dir⟩ d (opener ++ (body ++ others))
      (d.behind (i :: (is ++ js)) (loops || loops')) := by
  have hread := hopen.append (hbody.append hothers)
  have heq : { ((d.enter "if" i).behind is loops).behind js loops' with opened := d.opened } =
      d.behind (i :: (is ++ js)) (loops || loops') := by
    simp [enter, Draft.behind, Bool.or_left_comm, Bool.or_assoc]
  rwa [heq] at hread

end Sections

theorem Place.beginEmpty_ne (at_ : Place) (text : String) : at_.beginEmpty ≠ .literal text := by
  unfold Place.beginEmpty
  split <;> simp

theorem Others.program_last : (at_ : Place) → (others : Others) →
    ∃ is, others.program at_ = is ++ [.endIf]
  | _, .done => ⟨[], by rw [Others.program]; rfl⟩
  | at_, .otherwise body => ⟨.otherwise :: programAll at_ body, by rw [Others.program]; rfl⟩
  | at_, .elseIf c body others => by
    obtain ⟨is, h⟩ := others.program_last (at_.behind (anyLoop body))
    exact ⟨.elseIf (c.expr at_.mode) :: (programAll at_ body ++ is), by
      rw [Others.program, h, List.cons_append, List.append_assoc]⟩

/-- Pieces other than text end with an instruction that is no literal. -/
theorem Piece.program_last {p : Piece} (hp : p.isText = false) (at_ : Place) :
    ∃ is i, p.program at_ = is ++ [i] ∧ ∀ text, i ≠ .literal text := by
  cases p with
  | text t => cases hp
  | emit v => exact ⟨[], .emit _, by rw [Piece.program]; rfl, nofun⟩
  | set target value => exact ⟨[], .assign _ _, by rw [Piece.program]; rfl, nofun⟩
  | invoke n args => exact ⟨[], .invoke _ _, by rw [Piece.program]; rfl, nofun⟩
  | «include» r => exact ⟨[], .include _, by rw [Piece.program]; rfl, nofun⟩
  | cond c body others =>
    obtain ⟨is, h⟩ := others.program_last (at_.within.behind (anyLoop body))
    refine ⟨.beginIf (c.expr at_.mode) :: (programAll at_.within body ++ is), .endIf, ?_, nofun⟩
    rw [Piece.program, h, List.cons_append, List.append_assoc]
  | loop key value collection body =>
    exact ⟨_ :: programAll at_.inner body, .endFor, by rw [Piece.program]; rfl, nofun⟩
  | empty body =>
    exact ⟨_ :: programAll at_.within body, .endEmpty, by rw [Piece.program]; rfl, nofun⟩
  | block n params body =>
    exact ⟨_ :: programAll at_.inBlock body, .endBlock, by rw [Piece.program]; rfl, nofun⟩
  | range counter start step stop body =>
    exact ⟨_ :: programAll at_.within body, .endRange, by rw [Piece.program]; rfl, nofun⟩

theorem Piece.fresh {p : Piece} (hp : p.isText = false) (at_ : Place) (d : Draft) (loops : Bool) :
    Fresh (d.behind (p.program at_) loops) := by
  obtain ⟨is, i, h, hi⟩ := Piece.program_last hp at_
  have hemitted : (d.behind (p.program at_) loops).emitted = i :: (is.reverse ++ d.emitted) := by
    simp [Draft.behind, h]
  exact fresh_of_emitted hemitted hi

mutual

theorem Piece.reading : (p : Piece) → (at_ : Place) → (d : Draft) → p.Valid at_.mode →
    Stands at_ d → (p.isText = true → Fresh d) →
    Reading ⟨.builtin, at_.dir⟩ d p.print (d.behind (p.program at_) p.hasLoop)
  | .text t, at_, d, _, _, hfresh => by
    have hread : Reading ⟨.builtin, at_.dir⟩ d (escape t.chars) _ := .text t.nonempty
    rw [addText_of_fresh (hfresh rfl)] at hread
    simpa only [Piece.print, Piece.program, Piece.hasLoop] using hread
  | .emit v, at_, d, _, hd, _ => by
    have hread : Reading ⟨.builtin, at_.dir⟩ d _ _ := reading_emit v
    rw [hd.mode] at hread
    simpa only [Piece.print, Piece.program, Piece.hasLoop] using hread
  | .set target value, at_, d, hv, hd, _ => by
    have hread : Reading ⟨.builtin, at_.dir⟩ d _ _ := reading_set target hv
    rw [hd.mode] at hread
    simpa only [Piece.print, Piece.program, Piece.hasLoop] using hread
  | .invoke n args, at_, d, hv, hd, _ => by
    have hread : Reading ⟨.builtin, at_.dir⟩ d _ _ := reading_invoke n hv
    rw [hd.mode] at hread
    simpa only [Piece.print, Piece.program, Piece.hasLoop] using hread
  | .include r, at_, d, _, hd, _ => by
    have hread : Reading ⟨.builtin, at_.dir⟩ d _ _ := reading_include r
    rw [hd.mode] at hread
    simpa only [Piece.print, Piece.program, Piece.hasLoop] using hread
  | .cond c body others, at_, d, ⟨hc, hbody, hothers⟩, hd, _ => by
    have hopen : Reading ⟨.builtin, at_.dir⟩ d _ _ := reading_if hc
    rw [hd.mode] at hopen
    have hin := hd.within (by decide : "if" ≠ "for") (by decide) (.beginIf (c.expr at_.mode))
    have hbody := reading_all body at_.within _ hbody hin fun _ => fresh_of_emitted rfl nofun
    have hothers := others.reading (at_.within.behind (anyLoop body)) _ d.opened hothers
      (hin.behind (programAll at_.within body) (anyLoop body)) rfl
    simpa only [Piece.print, Piece.program, Piece.hasLoop] using reading_cond hopen hbody hothers
  | .loop key value collection body, at_, d, ⟨hc, hbody, _⟩, hd, _ => by
    have hopen : Reading ⟨.builtin, at_.dir⟩ d _ _ := reading_for key value hc
    rw [hd.mode, hd.depth] at hopen
    have hread := reading_loop hopen (reading_all body at_.inner _ hbody (hd.inner _) fun _ =>
      fresh_of_emitted rfl nofun)
    simpa only [Piece.print, Piece.program, Piece.hasLoop] using hread
  | .empty body, at_, d, hv, hd, _ => by
    have hopen : Reading ⟨.builtin, at_.dir⟩ d _ _ := reading_empty
    rw [hd.emptySection] at hopen
    have hread := reading_section hopen (reading_all body at_.within _ hv
      (hd.within (by decide) (by decide) _) fun _ => fresh_of_emitted rfl at_.beginEmpty_ne)
      fun _ => reading_endEmpty
    simpa only [Piece.print, Piece.program, Piece.hasLoop] using hread
  | .block n params body, at_, d, ⟨hmode, hbody⟩, hd, _ => by
    have hopen : Reading ⟨.builtin, at_.dir⟩ d _ _ := reading_define n params (hd.block hmode)
    have hread := reading_block (hd.mode.trans hmode) hopen
      (reading_all body at_.inBlock _ hbody (hd.inBlock _) fun _ => fresh_of_emitted rfl nofun)
    simpa only [Piece.print, Piece.program, Piece.hasLoop] using hread
  | .range counter start step stop body, at_, d, hv, hd, _ => by
    have hopen : Reading ⟨.builtin, at_.dir⟩ d _ _ := reading_range counter start step stop
    rw [hd.mode] at hopen
    have hread := reading_section hopen (reading_all body at_.within _ hv
      (hd.within (by decide) (by decide) _) fun _ => fresh_of_emitted rfl nofun)
      fun _ => reading_endRange
    simpa only [Piece.print, Piece.program, Piece.hasLoop] using hread

theorem reading_all : (ps : List Piece) → (at_ : Place) → (d : Draft) → ValidAll at_.mode ps →
    Stands at_ d → ((ps.head?.any Piece.isText) = true → Fresh d) →
    Reading ⟨.builtin, at_.dir⟩ d (printAll ps) (d.behind (programAll at_ ps) (anyLoop ps))
  | [], at_, d, _, _, _ => by
    simp only [printAll, programAll, anyLoop]
    exact .nil
  | p :: ps, at_, d, ⟨hp, htext, hps⟩, hd, hfresh => by
    have hfirst := p.reading at_ d hp hd hfresh
    have hrest := reading_all ps (at_.behind p.hasLoop) _ hps (hd.behind (p.program at_) p.hasLoop)
      fun hnext => Piece.fresh (by
        by_contra h
        rw [htext (by simpa using h)] at hnext
        cases hnext) at_ d _
    rw [behind_behind] at hrest
    simpa only [printAll, programAll, anyLoop] using hfirst.append hrest

theorem Others.reading : (others : Others) → (at_ : Place) → (d : Draft) → (opened : List String) →
    others.Valid at_.mode → Stands at_ d → d.opened = "if" :: opened →
    Reading ⟨.builtin, at_.dir⟩ d others.print
      { d.behind (others.program at_) others.hasLoop with opened := opened }
  | .done, _, d, opened, _, _, hopened => by
    simp only [Others.print, Others.program, Others.hasLoop]
    exact reading_endIf hopened
  | .otherwise body, at_, d, opened, hv, hd, hopened => by
    have helse : Reading ⟨.builtin, at_.dir⟩ d _ _ := reading_else (by rw [hopened]; rfl)
    have hbody := reading_all body at_ _ hv (hd.behind_false [.otherwise]) fun _ =>
      fresh_of_emitted rfl nofun
    have hread := helse.append (hbody.append (reading_endIf hopened))
    simpa [Others.print, Others.program, Others.hasLoop, Draft.behind, leave] using hread
  | .elseIf c body others, at_, d, opened, ⟨hc, hbody, hothers⟩, hd, hopened => by
    have helse : Reading ⟨.builtin, at_.dir⟩ d _ _ := reading_elseIf hc (by rw [hopened]; rfl)
    rw [hd.mode] at helse
    have hin := hd.behind_false [.elseIf (c.expr at_.mode)]
    have hbody := reading_all body at_ _ hbody hin fun _ => fresh_of_emitted rfl nofun
    have hothers := others.reading (at_.behind (anyLoop body)) _ opened hothers
      (hin.behind (programAll at_ body) (anyLoop body)) hopened
    have hread := helse.append (hbody.append hothers)
    simpa [Others.print, Others.program, Others.hasLoop, Draft.behind, Bool.or_left_comm,
      Bool.or_assoc] using hread

end

/-- The instructions of valid pieces link. -/
theorem ofInstructions_programAll {source : List Piece} (hvalid : ValidAll .shared source)
    (hnames : (blocksAll source).Nodup) (files : Option (List Char)) (dir : Option String) :
    ∃ t, Template.ofInstructions (programAll (.start files) source) dir = .ok t := by
  obtain ⟨items, hflatten, hshallow⟩ := (balanced_all source (.start files) hvalid).1 (.inl rfl)
  have hdistinct : (blockNames (programAll (.start files) source)).Nodup := by
    rwa [blockNames_programAll]
  exact (Template.ofInstructions_ok_iff _ dir).mpr ⟨items, hflatten, hshallow, hdistinct⟩

/-- Printed pieces compile to the instructions that they are written for, and to nothing else. -/
theorem compile_print (source : List Piece) (hvalid : ValidAll .shared source)
    (hnames : (blocksAll source).Nodup) (dir : Option String) :
    ∃ t, compile .builtin (.ofList (printAll source)) dir = .ok t ∧ t.dir = dir ∧
      t.instructions.toList = programAll (.start (dir.map slashed)) source := by
  have hread := reading_all source (.start (dir.map slashed)) .start hvalid (.start _)
    fun _ _ h => by cases h
  obtain ⟨t, ht⟩ := ofInstructions_programAll hvalid hnames (dir.map slashed) dir
  obtain ⟨hprogram, hdir⟩ := Template.ofInstructions_eq_ok_iff.mp ht
  have hcompile : compile .builtin (.ofList (printAll source)) dir = .ok t := by
    refine compile_eq_ok_iff.mpr ⟨_, by rw [String.toList_ofList]; exact hread.walk, rfl, ?_⟩
    simpa [Draft.instructions, Draft.behind, Draft.start] using ht
  exact ⟨t, hcompile, hdir, hprogram⟩

/-- A greeting for each guest, or a remark in braces if there are none. -/
def guestList : List Piece :=
  let guest : Name := ⟨"guest".toList, by decide⟩
  let welcome : Name := ⟨"welcome".toList, by decide⟩
  let guests : Variable := ⟨⟨⟨"party".toList, by decide⟩, [⟨"guests".toList, by decide⟩]⟩, []⟩
  [.block welcome [guest] [.text ⟨"Hi ".toList, by decide⟩, .emit ⟨⟨guest, []⟩, []⟩],
    .loop none guest (.var guests)
      [.invoke welcome [.var ⟨⟨guest, []⟩, []⟩],
        .empty [.text ⟨"\x7bnobody\x7d".toList, by decide⟩]]]

theorem compile_print_guestList : ValidAll .shared guestList ∧ (blocksAll guestList).Nodup ∧
    ∃ t, compile .builtin (.ofList (printAll guestList)) none = .ok t ∧ t.dir = none ∧
      t.instructions.toList = programAll (.start none) guestList := by
  have hvalid : ValidAll .shared guestList := by
    simp [guestList, ValidAll, Piece.Valid, Piece.isText, inlineSections, Piece.hasLoop, Term.depth,
      maxExprNesting]
  exact ⟨hvalid, by decide, compile_print guestList hvalid (by decide) none⟩

/-- The bounds of a counter are plain names: a dotted path is not read. -/
theorem compile_range_dotted :
    compile .builtin "\x7brange $i = $a.b..5\x7d\x7b/range\x7d" none =
      .error (.syntaxError (.malformedArguments "range" "$i = $a.b..5") (some .start)) := by
  rfl

end BraceTemplate.Source
