import BraceTemplate.Proofs.Compile.Agreement
import BraceTemplate.Proofs.Compile.Tags

/-!
Closing: a source whose nodes give no other cause for failure compiles up to linking exactly if its
tags are well nested. If they are not, the first closing node that does not match is reported, or
else the names that are left open.
-/
namespace BraceTemplate

namespace Markup

variable {σ : Type} (h : Handler σ)

/-- Hands a body over up to behind its first node. -/
def Body.handFirst : Body → Process σ Unit
  | .node run start parts _ => do
    h.run run
    h.run (← (Part.node start parts).answer h false)
  | body => body.handOver h

theorem Body.handOver_node (run : List Char) (start : Position) (parts : List Part) (body : Body) :
    (Body.node run start parts body).handOver h =
      (Body.node run start parts body).handFirst h >>= fun _ => body.handOver h := by
  simp only [handOver, handFirst, bind_assoc]

/-- Where the first node fails, so does all of the body. -/
theorem Body.handOver_error {body : Body} {s t : σ} {e : Error}
    (hfirst : outcome (body.handFirst h) s = (.error e, t)) :
    outcome (body.handOver h) s = (.error e, t) := by
  cases body with
  | node run start parts body =>
    rw [handOver_node]
    exact outcome_bind_error hfirst _
  | text | openComment | openNode => exact hfirst

end Markup

namespace Draft

open Markup

/-- The content of an outermost node, unless a node in it fails. -/
def content? (ctx : CompileContext) (parts : List Part) : Option (List Char) :=
  (outcome (contents (handler ctx) parts) .start).1.toOption

/-- The tag that an outermost node is, if it is one, with the position of the node. -/
def nodeTag? (ctx : CompileContext) (start : Position) (parts : List Part) :
    Option (Position × Tag) := do
  let content ← content? ctx parts
  let tag ← tag? ctx.registry (Text.trim content)
  return (start, tag)

/-- The tag that the first node of a body is, if it is one. -/
def firstTag (ctx : CompileContext) : Body → List (Position × Tag)
  | .node _ start parts _ => (nodeTag? ctx start parts).toList
  | _ => []

/-- The tags among the outermost nodes of a body, in their order. -/
def tags (ctx : CompileContext) : Body → List (Position × Tag)
  | .node _ start parts body => (nodeTag? ctx start parts).toList ++ tags ctx body
  | _ => []

/-- The nodes at the front of a source have been taken in, with these tags; the body and the draft
are what is behind them. -/
inductive Taken (ctx : CompileContext) (source : List Char) :
    List (Position × Tag) → Body → Draft → Prop where
  | start : Taken ctx source [] (read source) .start
  | node {before : List (Position × Tag)} {run : List Char} {start : Position} {parts : List Part}
    {body : Body} {d d' : Draft} (h : Taken ctx source before (.node run start parts body) d)
    (hrun : outcome ((Body.node run start parts body).handFirst (handler ctx)) d = (.ok (), d')) :
    Taken ctx source (before ++ (nodeTag? ctx start parts).toList) body d'

/-- What comes first to fail is not a closing node that does not match: the tags up to it do, itself
included if it is one. -/
def Hindered (ctx : CompileContext) (source : List Char) : Prop :=
  ∃ before body d, Taken ctx source before body d ∧
    (outcome (body.handFirst (handler ctx)) d).1.isOk = false ∧
    ∃ names, Tag.LeavesOpen ((before ++ firstTag ctx body).map Prod.snd) names

/-- The first closing tag that does not match, and the name that is innermost open there. -/
def FirstMismatch (tags : List (Position × Tag)) (p : Position) (name : String)
    (innermost : Option String) : Prop :=
  ∃ front rest names, tags = front ++ (p, .closes name) :: rest ∧
    Tag.LeavesOpen (front.map Prod.snd) names ∧ names.getLast? = innermost ∧ innermost ≠ some name

/-- What does not match stays so whatever comes behind. -/
theorem FirstMismatch.not_leavesOpen {tags : List (Position × Tag)} {p : Position} {name : String}
    {innermost : Option String} (h : FirstMismatch tags p name innermost) (names : List String) :
    ¬Tag.LeavesOpen (tags.map Prod.snd) names := by
  obtain ⟨front, rest, outer, rfl, hfront, rfl, hname⟩ := h
  rw [List.map_append]
  exact hfront.not_of_mismatch hname

/-! One node. -/

variable {ctx : CompileContext} {source : List Char} {before : List (Position × Tag)} {body : Body}
  {d d' : Draft}

theorem outcome_contents {parts : List Part} {content : List Char}
    (h : content? ctx parts = some content) (d : Draft) :
    outcome (contents (handler ctx) parts) d = (.ok content, d) := by
  unfold content? at h
  cases hrun : outcome (contents (handler ctx) parts) start with
  | mk r t =>
    rw [hrun] at h
    cases r with
    | error e => cases h
    | ok first =>
      obtain rfl : first = content := Option.some.inj h
      exact (contents_stateless parts).outcome_eq hrun d

theorem contents_ensures (parts : List Part) :
    Ensures (· = d) (contents (handler ctx) parts) fun content d' =>
      content? ctx parts = some content ∧ d' = d := by
  intro s hs content t hrun
  have hall := (contents_stateless parts).outcome_eq hrun
  refine ⟨?_, (Prod.mk.inj (hrun.symm.trans (hall s))).2.trans hs⟩
  rw [content?, hall]
  rfl

theorem nodeTag?_eq_some {start p : Position} {parts : List Part} {tag : Tag} :
    nodeTag? ctx start parts = some (p, tag) ↔ p = start ∧ ∃ content,
      content? ctx parts = some content ∧ tag? ctx.registry (Text.trim content) = some tag := by
  unfold nodeTag?
  constructor
  · intro h
    obtain ⟨content, hcontent, h⟩ := Option.bind_eq_some_iff.mp h
    obtain ⟨tag, htag, h⟩ := Option.bind_eq_some_iff.mp h
    cases h
    exact ⟨rfl, content, hcontent, htag⟩
  · rintro ⟨rfl, content, hcontent, htag⟩
    rw [hcontent, Option.bind_eq_bind, Option.bind_some, htag]
    rfl

/-- With its content given, a node has the tag of that. -/
theorem nodeTag?_map {start : Position} {parts : List Part} {content : List Char}
    (h : content? ctx parts = some content) :
    (nodeTag? ctx start parts).map Prod.snd = tag? ctx.registry (Text.trim content) := by
  unfold nodeTag?
  rw [h, Option.bind_eq_bind, Option.bind_some]
  cases tag? ctx.registry (Text.trim content) <;> rfl

theorem closable_of_mem_tags {body : Body} {p : Position} {name : String}
    (h : (p, .opens name) ∈ tags ctx body) : Closable ctx.registry name := by
  induction body with
  | node run start parts body ih =>
    rcases List.mem_append.mp h with h | h
    · obtain ⟨-, content, -, htag⟩ := nodeTag?_eq_some.mp (Option.mem_toList.mp h)
      exact closable_of_tag?_opens htag
    · exact ih h
  | text | openComment | openNode => cases h

theorem outcome_run (ctx : CompileContext) (cs : List Char) (d : Draft) :
    ∃ d', outcome ((handler ctx).run cs) d = (.ok (), d') ∧ d'.opened = d.opened := by
  cases cs with
  | nil => exact ⟨d, rfl, rfl⟩
  | cons c cs => exact ⟨_, rfl, opened_addText d _⟩

section FirstNode

variable {run : List Char} {start : Position} {parts : List Part}

/-- Behind the run of text in front of a first node its content is made and handed over. -/
theorem outcome_handFirst (ctx : CompileContext) (run : List Char) (start : Position)
    (parts : List Part) (body : Body) (d : Draft) : ∃ d₁, d₁.opened = d.opened ∧
    outcome ((Body.node run start parts body).handFirst (handler ctx)) d =
      outcome (contents (handler ctx) parts >>= fun content =>
        located start (Draft.node ctx content false) >>= fun answer =>
          (handler ctx).run answer) d₁ := by
  obtain ⟨d₁, hd₁, hopened⟩ := outcome_run ctx run d
  refine ⟨d₁, hopened, ?_⟩
  unfold Body.handFirst Part.answer
  rw [outcome_bind_ok hd₁, bind_assoc]
  rfl

/-- Behind a first node those names are open that its tag leaves. -/
theorem handFirst_opened
    (hrun : outcome ((Body.node run start parts body).handFirst (handler ctx)) d = (.ok (), d')) :
    Tag.run d.opened ((nodeTag? ctx start parts).toList.map Prod.snd) = some d'.opened := by
  obtain ⟨d₁, hopened, hfirst⟩ := outcome_handFirst ctx run start parts body d
  rw [hfirst] at hrun
  refine Ensures.bind (R := fun _ d' => Tag.run d.opened
    ((nodeTag? ctx start parts).toList.map Prod.snd) = some d'.opened) (contents_ensures parts)
      (fun content => ?_) d₁ rfl () d' hrun
  rintro _ ⟨hcontent, rfl⟩
  rw [← Option.toList_map, nodeTag?_map hcontent, ← hopened]
  refine Ensures.bind (node_opened content).located (fun answer => ?_) _ rfl
  rintro d₂ ⟨rfl, hopened⟩ _ d₃ hnothing
  cases hnothing
  exact hopened

/-- A closing node that does not match is reported at its position. -/
theorem handFirst_mismatch {p : Position} {name : String} (run : List Char) (body : Body)
    (htag : nodeTag? ctx start parts = some (p, .closes name))
    (hname : d.opened.head? ≠ some name) :
    ∃ t, outcome ((Body.node run start parts body).handFirst (handler ctx)) d =
      (.error (.unbalanced (mismatch name d.opened.head?) (some p)), t) := by
  obtain ⟨rfl, content, hcontent, htag⟩ := nodeTag?_eq_some.mp htag
  obtain ⟨d₁, hopened, hfirst⟩ := outcome_handFirst ctx run p parts body d
  rw [← hopened] at hname
  obtain ⟨t, hnode⟩ := node_mismatch htag hname
  refine ⟨t, ?_⟩
  rw [hfirst, outcome_bind_ok (outcome_contents hcontent d₁), ← hopened]
  apply outcome_bind_error
  rw [outcome_located, hnode]
  rfl

/-- A closing node of a name fails because it does not match, or because the handler for closing
that name does. -/
theorem handFirst_closing_fault (hopened : ∀ name ∈ d.opened, Closable ctx.registry name)
    {p : Position} {name : String} (htag : nodeTag? ctx start parts = some (p, .closes name))
    {e : Error}
    (h : outcome ((Body.node run start parts body).handFirst (handler ctx)) d = (.error e, d')) :
    (∃ f, e = .unbalanced f (some p)) ∨ ∃ opening e',
      ctx.registry.find? name = some (.external ⟨opening, some (.error e')⟩) ∧ e = e'.locate p := by
  obtain ⟨rfl, content, hcontent, htag⟩ := nodeTag?_eq_some.mp htag
  obtain ⟨d₁, hsame, hfirst⟩ := outcome_handFirst ctx run p parts body d
  rw [hfirst, outcome_bind_ok (outcome_contents hcontent d₁)] at h
  rw [← hsame] at hopened
  cases hnode : outcome (Draft.node ctx content false) d₁ with
  | mk result d₂ =>
  cases result with
  | ok answer =>
    obtain ⟨d₃, hrun, -⟩ := outcome_run ctx answer d₂
    rw [outcome_bind_ok (outcome_located_ok.mpr hnode), hrun] at h
    cases h
  | error e' =>
    have hlocated : outcome (located p (Draft.node ctx content false)) d₁ =
        (.error (e'.locate p), d₂) := by
      rw [outcome_located, hnode]
      rfl
    rw [outcome_bind_error hlocated] at h
    cases h
    rcases node_closing_fault hopened htag hnode with ⟨f, rfl⟩ | ⟨opening, hfind⟩
    · exact .inl ⟨f, rfl⟩
    · exact .inr ⟨opening, e', hfind, rfl⟩

end FirstNode

/-! All nodes. -/

namespace Taken

/-- What has been taken in has left open the names that its tags leave. -/
theorem opened (h : Taken ctx source before body d) :
    Tag.run [] (before.map Prod.snd) = some d.opened := by
  induction h with
  | start => rfl
  | node _ hrun ih =>
    rw [List.map_append, Tag.run_append, ih]
    exact handFirst_opened hrun

theorem leavesOpen (h : Taken ctx source before body d) :
    Tag.LeavesOpen (before.map Prod.snd) d.opened.reverse := by
  rw [Tag.leavesOpen_iff, List.reverse_reverse]
  exact h.opened

theorem tags_eq (h : Taken ctx source before body d) :
    before ++ tags ctx body = tags ctx (read source) := by
  induction h with
  | start => rfl
  | node _ _ ih =>
    rw [List.append_assoc]
    exact ih

/-- Only names are open that have a closing node. -/
theorem closable (h : Taken ctx source before body d) :
    ∀ name ∈ d.opened, Closable ctx.registry name := by
  intro name hname
  rcases Tag.opens_mem_of_run h.opened hname with hnone | hmem
  · cases hnone
  · obtain ⟨⟨p, _⟩, hp, rfl⟩ := List.mem_map.mp hmem
    apply closable_of_mem_tags (p := p)
    rw [← h.tags_eq]
    exact List.mem_append_left _ hp

/-- What the whole source comes to is what the rest comes to. -/
theorem outcome_walk (h : Taken ctx source before body d) :
    outcome (walk (handler ctx) source) .start = outcome (body.handOver (handler ctx)) d := by
  induction h with
  | start => rw [walk_eq]
  | node _ hrun ih => rw [ih, Body.handOver_node, outcome_bind_ok hrun]

/-- Unless something else is in the way, the nodes are taken in to the end of the source, or up to
the first closing node that does not match. -/
theorem ends (h : Taken ctx source before body d) (hfree : ¬Hindered ctx source) :
    (∃ d', outcome (body.handOver (handler ctx)) d = (.ok (), d') ∧
      Tag.LeavesOpen ((tags ctx (read source)).map Prod.snd) d'.opened.reverse) ∨
    ∃ p name innermost d', FirstMismatch (tags ctx (read source)) p name innermost ∧
      outcome (body.handOver (handler ctx)) d =
        (.error (.unbalanced (mismatch name innermost) (some p)), d') := by
  have hbroken {body : Body} {before : List (Position × Tag)} {d : Draft}
      (h : Taken ctx source before body d) (hfirst : firstTag ctx body = [])
      (hfails : (outcome (body.handFirst (handler ctx)) d).1.isOk = false) : False := by
    refine hfree ⟨before, body, d, h, hfails, d.opened.reverse, ?_⟩
    rw [hfirst, List.append_nil]
    exact h.leavesOpen
  induction body generalizing before d with
  | text run =>
    obtain ⟨d', hrun, hopened⟩ := outcome_run ctx run d
    refine .inl ⟨d', hrun, ?_⟩
    rw [← h.tags_eq, hopened]
    exact (List.append_nil before).symm ▸ h.leavesOpen
  | node run start parts body ih =>
    rw [Body.handOver_node]
    cases hfirst : outcome ((Body.node run start parts body).handFirst (handler ctx)) d with
    | mk r d' =>
    cases r with
    | ok _ =>
      rw [outcome_bind_ok hfirst]
      exact ih (.node h hfirst)
    | error e =>
      right
      have hfails : (outcome ((Body.node run start parts body).handFirst (handler ctx)) d).1.isOk =
          false := by
        rw [hfirst]
        rfl
      cases htag : nodeTag? ctx start parts with
      | none => exact (hbroken h (by rw [firstTag, htag]; rfl) hfails).elim
      | some entry =>
        obtain ⟨p, tag⟩ := entry
        have hstop (names : List String) :
            ¬Tag.LeavesOpen (before.map Prod.snd ++ [tag]) names := by
          intro hnames
          refine hfree ⟨before, _, d, h, hfails, names, ?_⟩
          rw [firstTag, htag, List.map_append]
          exact hnames
        obtain ⟨name, rfl, hlast⟩ := h.leavesOpen.stopped hstop
        rw [List.getLast?_reverse] at hlast
        obtain ⟨d', hmismatch⟩ := handFirst_mismatch run body htag hlast
        refine ⟨p, name, d.opened.head?, d', ⟨before, tags ctx body, d.opened.reverse, ?_,
          h.leavesOpen, List.getLast?_reverse, hlast⟩, outcome_bind_error hmismatch _⟩
        rw [← h.tags_eq, tags, htag]
        rfl
  | openComment run start => exact (hbroken h rfl rfl).elim
  | openNode run start parts stop =>
    have haccounts := (Body.openNode run start parts stop).handOver_accounts (handler ctx)
    obtain ⟨failed, -, hfails⟩ := haccounts d
    exact (hbroken h rfl (hfails.mpr (.inr trivial))).elim

end Taken

/-- A source whose nodes are all taken in gives no cause for failure. -/
theorem not_hindered {d : Draft} (h : outcome (walk (handler ctx) source) .start = (.ok (), d)) :
    ¬Hindered ctx source := by
  rintro ⟨before, body, d₁, htaken, hfails, -⟩
  cases hfirst : outcome (body.handFirst (handler ctx)) d₁ with
  | mk result d₂ =>
  cases result with
  | ok _ =>
    rw [hfirst] at hfails
    cases hfails
  | error e =>
    rw [htaken.outcome_walk, Body.handOver_error _ hfirst] at h
    cases h

end Draft

open Draft

/-- Unless something else is in the way, the outermost nodes of a source are taken in with no name
left open, so that linking decides, exactly if their tags are well nested. If they are not, the first
closing node that does not match is reported at its position, or without any the names that are left
open, outermost first. In no case does a closing node that is reached miss its handler: it fails
because it does not match, or with what the handler itself fails with. -/
theorem compile_well_nested (r : Registry) (source : String) (dir : Option String) :
    let ctx : CompileContext := ⟨r, dir.map slashed⟩
    let tags := Draft.tags ctx (Markup.read source.toList)
    (¬Hindered ctx source.toList →
      ((∃ d, outcome (Markup.walk (handler ctx) source.toList) .start = (.ok (), d) ∧
          d.opened = [] ∧ compile r source dir = Template.ofInstructions d.instructions dir) ↔
        Tag.WellNested (tags.map Prod.snd)) ∧
      (¬Tag.WellNested (tags.map Prod.snd) →
        (∃ p name innermost, FirstMismatch tags p name innermost ∧
          compile r source dir = .error (.unbalanced (mismatch name innermost) (some p))) ∨
        ∃ names, names ≠ [] ∧ Tag.LeavesOpen (tags.map Prod.snd) names ∧
          compile r source dir = .error (.unbalanced (.unclosedTags names) none))) ∧
    ∀ before run start parts body d,
      Taken ctx source.toList before (.node run start parts body) d →
      ∀ name, nodeTag? ctx start parts = some (start, .closes name) → ∀ e d',
        outcome ((Markup.Body.node run start parts body).handFirst (handler ctx)) d =
          (.error e, d') →
        (∃ f, e = .unbalanced f (some start)) ∨ ∃ opening e',
          r.find? name = some (.external ⟨opening, some (.error e')⟩) ∧ e = e'.locate start := by
  intro ctx tags
  refine ⟨fun hfree => ?_, fun _ _ _ _ _ _ htaken _ htag _ _ h =>
    handFirst_closing_fault htaken.closable htag h⟩
  have hstart : Taken ctx source.toList [] (Markup.read source.toList) .start := .start
  have hends := hstart.ends hfree
  rw [← hstart.outcome_walk] at hends
  rcases hends with ⟨d, hwalk, hleaves⟩ | ⟨p, name, innermost, d', hmismatch, hwalk⟩
  · have hnested : Tag.WellNested (tags.map Prod.snd) ↔ d.opened = [] :=
      hleaves.wellNested_iff.trans List.reverse_eq_nil_iff
    have hcompile := compile_of_walk hwalk
    rw [hnested]
    constructor
    · constructor
      · rintro ⟨d', hwalk', hopened, -⟩
        obtain ⟨-, rfl⟩ := Prod.mk.inj (hwalk.symm.trans hwalk')
        exact hopened
      · intro hopened
        rw [if_pos hopened] at hcompile
        exact ⟨d, hwalk, hopened, hcompile⟩
    · intro hopened
      rw [if_neg hopened] at hcompile
      exact .inr ⟨_, mt List.reverse_eq_nil_iff.mp hopened, hleaves, hcompile⟩
  · constructor
    · constructor
      · rintro ⟨d, hwalk', -⟩
        cases hwalk.symm.trans hwalk'
      · exact fun hnested => absurd (.done hnested) (hmismatch.not_leavesOpen [])
    · exact fun _ => .inl ⟨p, name, innermost, hmismatch, compile_of_walk_error hwalk⟩

/-- Opens a box, and a conditional in it. -/
def leftOpen : String := "\x7bbox\x7d\x7bif $a\x7d"

/-- Closes a box that is not there. -/
def strayClosing : String := "\x7b/box\x7d"

/-- The names of what stays open are reported from the outermost one on; a closing node that is
reached, with nothing to close, fails for that. -/
theorem compile_well_nested_boxes :
    ¬Hindered ⟨boxes, none⟩ leftOpen.toList ∧
      (Draft.tags ⟨boxes, none⟩ (Markup.read leftOpen.toList)).map Prod.snd =
        [.opens "box", .opens "if"] ∧
      compile boxes leftOpen none = .error (.unbalanced (.unclosedTags ["box", "if"]) none) ∧
    ∃ body e d', Taken ⟨boxes, none⟩ strayClosing.toList [] body .start ∧
      outcome (body.handFirst (handler ⟨boxes, none⟩)) .start = (.error e, d') ∧
      ((∃ f, e = .unbalanced f (some ⟨1, 1⟩)) ∨ ∃ opening e',
        boxes.find? "box" = some (.external ⟨opening, some (.error e')⟩) ∧
          e = e'.locate ⟨1, 1⟩) := by
  have htags : (Draft.tags ⟨boxes, none⟩ (Markup.read leftOpen.toList)).map Prod.snd =
      [.opens "box", .opens "if"] := by decide +kernel
  have hleaves : Tag.LeavesOpen ((Draft.tags ⟨boxes, none⟩ (Markup.read leftOpen.toList)).map
      Prod.snd) ["box", "if"] := by
    rw [htags]
    exact .opened .nil "box" (.opened .nil "if" (.done .nil))
  have hnested : ¬Tag.WellNested ((Draft.tags ⟨boxes, none⟩
      (Markup.read leftOpen.toList)).map Prod.snd) := by
    intro h
    cases hleaves.unique (.done h)
  have hwalk : (outcome (Markup.walk (handler ⟨boxes, none⟩) leftOpen.toList) .start).1.isOk =
      true := by decide +kernel
  have hfree : ¬Hindered ⟨boxes, none⟩ leftOpen.toList := by
    cases hrun : outcome (Markup.walk (handler ⟨boxes, none⟩) leftOpen.toList) .start with
    | mk result d =>
    cases result with
    | ok _ => exact not_hindered hrun
    | error e =>
      rw [hrun] at hwalk
      cases hwalk
  refine ⟨hfree, htags, ?_, ?_⟩
  · rcases ((compile_well_nested boxes leftOpen none).1 hfree).2 hnested with
      ⟨p, name, innermost, hmismatch, -⟩ | ⟨names, -, hnames, hcompile⟩
    · exact absurd hleaves (hmismatch.not_leavesOpen _)
    · obtain rfl : names = ["box", "if"] := hnames.unique hleaves
      exact hcompile
  · have hread : Markup.read strayClosing.toList =
        .node [] ⟨1, 1⟩ [.char '/', .char 'b', .char 'o', .char 'x'] (.text []) := by cbv
    have hstart : Taken ⟨boxes, none⟩ strayClosing.toList [] (.node [] ⟨1, 1⟩
        [.char '/', .char 'b', .char 'o', .char 'x'] (.text [])) .start := hread ▸ .start
    have htag : nodeTag? ⟨boxes, none⟩ ⟨1, 1⟩ [.char '/', .char 'b', .char 'o', .char 'x'] =
        some (⟨1, 1⟩, .closes "box") := by decide +kernel
    have hnone : Draft.start.opened.head? ≠ some "box" := by decide
    obtain ⟨d', hfails⟩ := handFirst_mismatch (d := .start) [] (.text []) htag hnone
    have hfault :=
      (compile_well_nested boxes strayClosing none).2 _ _ _ _ _ _ hstart _ htag _ _ hfails
    exact ⟨_, _, d', hstart, hfails, hfault⟩

end BraceTemplate
