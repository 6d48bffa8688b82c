import BraceTemplate.Proofs.Program.Holding

/-!
Exact links: every opener and branch of a template leads to its own partner over a balanced stretch,
and the table of blocks holds the stretches between the markers of the blocks.
-/
namespace BraceTemplate

/-- The instructions strictly between two indices. -/
def between (is : List Instruction) (i j : Nat) : List Instruction := is.extract (i + 1) j

def Instruction.IsInlineEmpty : Instruction → Prop
  | .beginEmpty _ true => True
  | _ => False

/-- What follows a branch of a conditional. -/
def Instruction.FollowsBranch : Instruction → Prop
  | .elseIf _ | .otherwise | .endIf => True
  | _ => False

namespace Template

/-- A balanced stretch between two markers, linked as it would be by itself. -/
structure Spans (t : Template) (i j : Nat) (marker : Instruction → Prop) : Prop where
  lt : i < j
  marked : ∃ m, t.instructions[j]? = some m ∧ marker m
  balanced : ∃ items, Tree.flatten items = between t.instructions.toList i j ∧
    t.Holds (i + 1) (Tree.layout (i + 1) items)

/-- The body of a stretch ends where the stretch does. -/
theorem Spans.holds {t : Template} {i j : Nat} {marker : Instruction → Prop}
    (h : t.Spans i j marker) :
    ∃ items, t.Holds (i + 1) (Tree.layout (i + 1) items) ∧ i + 1 + Tree.size items = j := by
  obtain ⟨hlt, ⟨m, hm, -⟩, items, hflat, hholds⟩ := h
  have hj : j < t.instructions.size := (Array.getElem?_eq_some_iff.mp hm).1
  have hsize : Tree.size items = j - (i + 1) := by
    rw [← Tree.length_flatten, hflat, between, List.extract_eq_take_drop, List.length_take,
      List.length_drop, Array.length_toList]
    omega
  exact ⟨items, hholds, by omega⟩

/-- Where an instruction at an index has to lead. -/
def Leads (t : Template) (i : Nat) : Instruction → Prop
  | .beginIf _ | .elseIf _ =>
    t.Spans i (t.link i).next Instruction.FollowsBranch ∧ (t.link i).clause = none
  | .otherwise => t.Spans i (t.link i).next (· = .endIf) ∧ (t.link i).clause = none
  | .beginFor _ =>
    match (t.link i).clause with
    | none => t.Spans i (t.link i).next (· = .endFor)
    | some c =>
      t.Spans i c Instruction.IsInlineEmpty ∧ t.Spans c (t.link c).next (· = .endEmpty) ∧
        t.Spans (t.link c).next (t.link i).next (· = .endFor)
  | .beginEmpty .. => t.Spans i (t.link i).next (· = .endEmpty) ∧ (t.link i).clause = none
  | .beginBlock .. => t.Spans i (t.link i).next (· = .endBlock) ∧ (t.link i).clause = none
  | .beginRange _ => t.Spans i (t.link i).next (· = .endRange) ∧ (t.link i).clause = none
  | .literal _ | .emit _ | .endIf | .endFor | .endEmpty | .assign .. | .endBlock | .invoke ..
  | .endRange | .include _ => t.link i = ⟨0, none⟩

/-- All instructions from one index up to before another lead where they have to. -/
def Exact (t : Template) (i j : Nat) : Prop :=
  ∀ k, i ≤ k → k < j → ∀ m, t.instructions[k]? = some m → t.Leads k m

namespace Exact

variable {t : Template} {i j : Nat}

theorem nil : t.Exact i i := by
  intro k hi hj
  omega

theorem one {m : Instruction} (hm : t.instructions[i]? = some m) (h : t.Leads i m) :
    t.Exact i (i + 1) := by
  intro k hi hj m' hm'
  obtain rfl : k = i := by omega
  obtain rfl := Option.some.inj (hm.symm.trans hm')
  exact h

theorem append {k : Nat} (h : t.Exact i j) (h' : t.Exact j k) : t.Exact i k := by
  intro n hi hk
  rcases Nat.lt_or_ge n j with hn | hn
  · exact h n hi hn
  · exact h' n hn hk

end Exact

namespace Holds

variable {t : Template} {i : Nat}

/-- A marker in front of a laid out body and another one behind it span the body. -/
theorem spans {body : Tree} {e : Instruction × Link} {rest : Code} {marker : Instruction → Prop}
    (h : t.Holds (i + 1) (Tree.layout (i + 1) body ++ e :: rest)) (hm : marker e.1) :
    t.Spans i (i + 1 + Tree.size body) marker where
  lt := by omega
  marked := ⟨e.1, (h.right (by simp)).head.1, hm⟩
  balanced := by
    refine ⟨body, ?_, h.left⟩
    have hx := h.left.extract
    rw [Tree.length_layout, Tree.layout_instructions] at hx
    exact hx.symm

/-- An instruction that leads nowhere is exact. -/
theorem exact_plain {m : Instruction} {rest : Code} (h : t.Holds i (m.plain :: rest))
    (hm : t.link i = ⟨0, none⟩ → t.Leads i m) : t.Exact i (i + 1) :=
  Exact.one h.head.1 (hm h.head.2)

end Holds

/-- A section is exact when its body is. -/
theorem exact_section {t : Template} {i stop : Nat} {opener closer : Instruction} {body : Tree}
    {rest : Code} (h : t.Holds i ((opener, ⟨i + 1 + Tree.size body, none⟩) ::
      (Tree.layout (i + 1) body ++ closer.plain :: rest)))
    (hbody : t.Exact (i + 1) (i + 1 + Tree.size body))
    (hopen : t.Spans i (t.link i).next (· = closer) → (t.link i).clause = none →
      t.Leads i opener)
    (hclose : ∀ j, t.link j = ⟨0, none⟩ → t.Leads j closer)
    (hstop : stop = i + 1 + Tree.size body + 1) : t.Exact i stop := by
  have hlink : t.link i = ⟨i + 1 + Tree.size body, none⟩ := h.head.2
  have hspan : t.Spans i (t.link i).next (· = closer) := by
    rw [hlink]
    exact h.tail.spans rfl
  have hopener : t.Exact i (i + 1) := Exact.one h.head.1 (hopen hspan (by rw [hlink]))
  have hcloser : t.Exact (i + 1 + Tree.size body) (i + 1 + Tree.size body + 1) :=
    (h.tail.right (by simp)).exact_plain (hclose _)
  rw [hstop]
  exact (hopener.append hbody).append hcloser

end Template

/-- Behind a branch comes another one or the end of the conditional. -/
theorem Branches.layout_head (others : Branches) (i : Nat) :
    ∃ e rest, others.layout i = e :: rest ∧ e.1.FollowsBranch := by
  cases others with
  | done => exact ⟨_, _, rfl, trivial⟩
  | otherwise body => exact ⟨_, _, rfl, trivial⟩
  | elseIf c body others => exact ⟨_, _, rfl, trivial⟩

/-- A branch is exact when its body and what follows are. -/
theorem Branches.exact_branch {t : Template} {i stop : Nat} {opener : Instruction} {body : Tree}
    (others : Branches) (h : t.Holds i ((opener, ⟨i + 1 + Tree.size body, none⟩) ::
      (Tree.layout (i + 1) body ++ others.layout (i + 1 + Tree.size body))))
    (hbody : t.Exact (i + 1) (i + 1 + Tree.size body))
    (hothers : t.Exact (i + 1 + Tree.size body) stop)
    (hopen : t.Spans i (t.link i).next Instruction.FollowsBranch → (t.link i).clause = none →
      t.Leads i opener) : t.Exact i stop := by
  obtain ⟨e, rest, he, hf⟩ := others.layout_head (i + 1 + Tree.size body)
  have hlink : t.link i = ⟨i + 1 + Tree.size body, none⟩ := h.head.2
  have hspan : t.Spans i (t.link i).next Instruction.FollowsBranch := by
    have htail := h.tail
    rw [he] at htail
    rw [hlink]
    exact htail.spans hf
  have hopener : t.Exact i (i + 1) :=
    Template.Exact.one h.head.1 (hopen hspan (by rw [hlink]))
  exact (hopener.append hbody).append hothers

mutual

theorem Item.exact {t : Template} {i : Nat} :
    (item : Item) → t.Holds i (item.layout i) → t.Exact i (i + item.size)
  | .leaf l, h => by
    rw [Item.layout] at h
    exact h.exact_plain fun hl => by cases l <;> exact hl
  | .cond c body others, h => by
    rw [Item.layout] at h
    have hbody := Tree.exact body h.tail.left
    have hothers := others.exact (h.tail.right (by simp))
    have hstop : i + 1 + Tree.size body + others.size = i + (Item.cond c body others).size := by
      rw [Item.size_cond]
      omega
    rw [hstop] at hothers
    exact others.exact_branch h hbody hothers And.intro
  | .loop loop body, h => by
    rw [Item.layout] at h
    have hbody := Tree.exact body h.tail.left
    refine Template.exact_section h hbody ?_ (fun _ hl => hl) (by rw [Item.size_loop]; omega)
    intro hspan hclause
    simp only [Template.Leads, hclause]
    exact hspan
  | .loopElse loop before depth clause after, h => by
    rw [Item.layout] at h
    have hlink := h.head.2
    have hbefore := Tree.exact before h.tail.left
    have hmid := h.tail.right (by rw [Tree.length_layout])
    have hclause := Tree.exact clause hmid.tail.left
    have hsection := Template.exact_section hmid hclause And.intro (fun _ hl => hl) rfl
    have hend := hmid.tail.right (by rw [Tree.length_layout])
    have hafter := Tree.exact after hend.tail.left
    have hlast := hend.tail.right (by rw [Tree.length_layout])
    have hopener : t.Exact i (i + 1) := by
      refine Template.Exact.one h.head.1 ?_
      simp only [Template.Leads, hlink, hmid.head.2]
      exact ⟨h.tail.spans trivial, hmid.tail.spans rfl, hend.tail.spans rfl⟩
    have hstop : i + 1 + Tree.size before + 1 + Tree.size clause + 1 + Tree.size after + 1 =
        i + (Item.loopElse loop before depth clause after).size := by
      rw [Item.size_loopElse]
      omega
    rw [← hstop]
    have hcloser := hlast.exact_plain fun hl => hl
    exact (((hopener.append hbefore).append hsection).append hafter).append hcloser
  | .empty depth body, h => by
    rw [Item.layout] at h
    have hbody := Tree.exact body h.tail.left
    exact Template.exact_section h hbody And.intro (fun _ hl => hl)
      (by rw [Item.size_empty]; omega)
  | .block name params body, h => by
    rw [Item.layout] at h
    have hbody := Tree.exact body h.tail.left
    exact Template.exact_section h hbody And.intro (fun _ hl => hl)
      (by rw [Item.size_block]; omega)
  | .range c body, h => by
    rw [Item.layout] at h
    have hbody := Tree.exact body h.tail.left
    exact Template.exact_section h hbody And.intro (fun _ hl => hl)
      (by rw [Item.size_range]; omega)

/-- What a template holds of a tree leads where it has to. -/
theorem Tree.exact {t : Template} {i : Nat} :
    (items : Tree) → t.Holds i (Tree.layout i items) → t.Exact i (i + Tree.size items)
  | [], _ => Template.Exact.nil
  | item :: items, h => by
    rw [Tree.layout] at h
    have hitem := item.exact h.left
    have hitems := Tree.exact items (h.right (by simp))
    rw [Tree.size_cons, ← Nat.add_assoc]
    exact hitem.append hitems

theorem Branches.exact {t : Template} {i : Nat} :
    (others : Branches) → t.Holds i (others.layout i) → t.Exact i (i + others.size)
  | .done, h => by
    rw [Branches.layout] at h
    exact h.exact_plain fun hl => hl
  | .otherwise body, h => by
    rw [Branches.layout] at h
    have hbody := Tree.exact body h.tail.left
    exact Template.exact_section h hbody And.intro (fun _ hl => hl)
      (by rw [Branches.size_otherwise]; omega)
  | .elseIf c body others, h => by
    rw [Branches.layout] at h
    have hbody := Tree.exact body h.tail.left
    have hothers := others.exact (h.tail.right (by simp))
    have hstop : i + 1 + Tree.size body + others.size =
        i + (Branches.elseIf c body others).size := by
      rw [Branches.size_elseIf]
      omega
    rw [hstop] at hothers
    exact others.exact_branch h hbody hothers And.intro

end

/-! The table of blocks. -/

theorem Code.mem_blocks {i : Nat} {code : Code} {name : String} {b : BlockDef} :
    (name, b) ∈ Code.blocks i code ↔ ∃ k link, code[k]? = some (.beginBlock name b.params, link) ∧
      b.start = i + k + 1 ∧ b.stop = link.next := by
  induction code generalizing i with
  | nil => simp [Code.blocks]
  | cons e code ih =>
    obtain ⟨m, link⟩ := e
    by_cases hm : m.blockName? = none
    · rw [Code.blocks_cons hm, ih]
      constructor
      · rintro ⟨k, l, hk, hstart, hstop⟩
        exact ⟨k + 1, l, hk, by omega, hstop⟩
      · rintro ⟨k, l, hk, hstart, hstop⟩
        cases k with
        | zero =>
          obtain ⟨rfl, -⟩ : m = .beginBlock name b.params ∧ link = l := by simpa using hk
          simp at hm
        | succ k => exact ⟨k, l, hk, by omega, hstop⟩
    · cases m with
      | beginBlock other params =>
        rw [Code.blocks, List.mem_cons, ih]
        constructor
        · rintro (h | ⟨k, l, hk, hstart, hstop⟩)
          · cases h
            exact ⟨0, link, rfl, rfl, rfl⟩
          · exact ⟨k + 1, l, hk, by omega, hstop⟩
        · rintro ⟨k, l, hk, hstart, hstop⟩
          cases k with
          | zero =>
            left
            obtain ⟨⟨rfl, rfl⟩, rfl⟩ : (other = name ∧ params = b.params) ∧ link = l := by
              simpa using hk
            obtain ⟨_, start, stop⟩ := b
            simp_all
          | succ k => exact .inr ⟨k, l, hk, by omega, hstop⟩
      | _ => exact absurd rfl hm

namespace Template

theorem exact (t : Template) : t.Exact 0 t.size := by
  obtain ⟨items, h⟩ := t.denotes
  have hsize : Tree.size items = t.size := by
    rw [← Tree.length_flatten, h.instructions]
    rfl
  have hexact := Tree.exact items h.holds
  rwa [Nat.zero_add, hsize] at hexact

theorem leads (t : Template) {i : Nat} {m : Instruction} (h : t.instructions[i]? = some m) :
    t.Leads i m :=
  t.exact i (Nat.zero_le i) (Array.getElem?_eq_some_iff.mp h).1 m h

theorem Denotes.keys_nodup {t : Template} {items : Tree} (h : t.Denotes items) :
    (Dict.keys t.blocks).Nodup := by
  rw [h.blocks, Code.blocks_keys, Tree.layout_instructions, h.instructions]
  exact h.names

/-- The table knows exactly the blocks that the template opens, each with its own stretch. -/
theorem find?_blocks_iff (t : Template) (name : String) (b : BlockDef) :
    Dict.find? t.blocks name = some b ↔ ∃ i, t.instructions[i]? = some (.beginBlock name b.params) ∧
      b.start = i + 1 ∧ b.stop = (t.link i).next := by
  obtain ⟨items, h⟩ := t.denotes
  rw [Dict.find?_eq_some_iff h.keys_nodup, h.blocks, Code.mem_blocks]
  constructor
  · rintro ⟨k, link, hk, hstart, hstop⟩
    obtain ⟨hi, hl⟩ := h.holds k _ hk
    rw [Nat.zero_add] at hi hl
    exact ⟨k, hi, by omega, by rw [hl, hstop]⟩
  · rintro ⟨i, hi, hstart, hstop⟩
    have hfst : ((Tree.layout 0 items)[i]?).map Prod.fst = some (.beginBlock name b.params) := by
      rw [← List.getElem?_map, Tree.layout_instructions, h.instructions, Array.getElem?_toList, hi]
    obtain ⟨⟨m, link⟩, hk, rfl⟩ := Option.map_eq_some_iff.mp hfst
    have hl := (h.holds i _ hk).2
    rw [Nat.zero_add] at hl
    exact ⟨i, link, hk, by omega, by rw [hstop, hl]⟩

/-- A block that a template knows is one that it defines. -/
theorem find?_definitions {t : Template} {name : String} {body : BlockDef}
    (h : Dict.find? t.blocks name = some body) :
    ∃ b, Dict.find? t.definitions name = some b ∧ b.template = t ∧ b.body = body := by
  have hfind : ∀ entries : List { e // e ∈ t.blocks },
      Dict.find? (entries.map Subtype.val) name = some body →
      ∃ b : Block, Dict.find? (entries.map fun e =>
        (e.1.1, (⟨t, e.1.2, List.mem_map_of_mem e.2⟩ : Block))) name = some b ∧
        b.template = t ∧ b.body = body := by
    intro entries he
    induction entries with
    | nil => simp at he
    | cons e es ih =>
      obtain ⟨⟨k, v⟩, hmem⟩ := e
      by_cases hk : k = name
      · obtain rfl : v = body := by simpa [Dict.find?, hk] using he
        exact ⟨_, by simp [Dict.find?, hk]; rfl, rfl, rfl⟩
      · simp only [List.map_cons, Dict.find?, hk, ↓reduceIte] at he ⊢
        exact ih he
  apply hfind t.blocks.attach
  rwa [List.attach_map_subtype_val]

/-- Linking succeeds exactly on the rows of trees whose blocks stand apart and have distinct names;
then every instruction leads where it has to, and the table maps each defined name to the parameters
of the block and the stretch strictly between its markers. -/
theorem ofInstructions_exact (is : List Instruction) (dir : Option String) :
    ((∃ t, ofInstructions is dir = .ok t) ↔
      ∃ items, Tree.flatten items = is ∧ Tree.Shallow items ∧ (blockNames is).Nodup) ∧
    ∀ t, ofInstructions is dir = .ok t → t.instructions.toList = is ∧
      (∀ i m, is[i]? = some m → t.Leads i m) ∧
      (∀ i j marker, t.Spans i j marker → i < j ∧ j < is.length) ∧
      ∀ name b, Dict.find? t.blocks name = some b ↔
        ∃ i, is[i]? = some (.beginBlock name b.params) ∧ b.start = i + 1 ∧
          b.stop = (t.link i).next := by
  refine ⟨ofInstructions_ok_iff is dir, ?_⟩
  intro t ht
  obtain ⟨rfl, -⟩ := ofInstructions_eq_ok_iff.mp ht
  refine ⟨rfl, ?_, ?_, ?_⟩
  · intro i m hm
    rw [Array.getElem?_toList] at hm
    exact t.leads hm
  · intro i j marker hs
    obtain ⟨m, hm, -⟩ := hs.marked
    rw [Array.length_toList]
    exact ⟨hs.lt, (Array.getElem?_eq_some_iff.mp hm).1⟩
  · intro name b
    simp only [Array.getElem?_toList]
    exact t.find?_blocks_iff name b

end Template

/-- A template holds the body of each of its blocks. -/
theorem Block.holds (b : Block) : ∃ items, b.template.Holds b.body.start
    (Tree.layout b.body.start items) ∧ b.body.start + Tree.size items = b.body.stop := by
  obtain ⟨⟨name, body⟩, hmem, hbody⟩ := List.mem_map.mp b.defined
  obtain ⟨items, h⟩ := b.template.denotes
  have hfind := (Dict.find?_eq_some_iff h.keys_nodup).mpr hmem
  obtain ⟨i, hi, hstart, hstop⟩ := (b.template.find?_blocks_iff name body).mp hfind
  obtain ⟨hspan, -⟩ := b.template.leads hi
  obtain ⟨items, hitems, hsize⟩ := hspan.holds
  refine ⟨items, ?_, ?_⟩
  · rw [← hbody, hstart]
    exact hitems
  · rw [← hbody, hstart, hstop]
    exact hsize

end BraceTemplate
