import Mathlib.Data.List.Nodup
import BraceTemplate.Proofs.Program.Linking

/-!
What links: a row of instructions that the linker takes in is the row of a tree, no block stands
inside of another one, and block names are distinct.
-/
namespace BraceTemplate

/-! Steps of the linker. -/

/-- The section that an opener opens; the clause of a loop opens one inside of another. -/
def Instruction.section? (i : Nat) : Instruction → Option Section
  | .beginIf _ => some (.branches i false)
  | .beginFor _ => some (.loop i none)
  | .beginEmpty _ false => some (.empty i)
  | .beginBlock name params => some (.block i name params)
  | .beginRange _ => some (.range i)
  | _ => none

def Section.closer : Section → Instruction
  | .branches .. => .endIf
  | .loop .. => .endFor
  | .empty _ => .endEmpty
  | .block .. => .endBlock
  | .range _ => .endRange

def Section.blockName? : Section → Option String
  | .block _ name _ => some name
  | _ => none

/-- The names of the blocks that are open. -/
def openNames (opened : List Section) : List String := opened.filterMap Section.blockName?

@[simp] theorem openNames_nil : openNames [] = [] := rfl

@[simp] theorem openNames_cons (s : Section) (opened : List Section) :
    openNames (s :: opened) = s.blockName?.toList ++ openNames opened := by
  rw [openNames, List.filterMap_cons]
  cases s.blockName? <;> rfl

theorem openNames_eq_nil {opened : List Section} (h : opened.any Section.isBlock = false) :
    openNames opened = [] := by
  rw [openNames, List.filterMap_eq_nil_iff]
  intro s hs
  have := List.any_eq_false.mp h s hs
  cases s <;> simp_all [Section.isBlock, Section.blockName?]

namespace Linker

/-- All that taking in one instruction can do to the open sections and to the names of blocks. -/
inductive Takes (l : Linker) (i : Nat) (l' : Linker) : Instruction → Prop where
  | leaf (leaf : Leaf) (hl : l' = l) : Takes l i l' leaf.instruction
  | opener {instruction : Instruction} {s : Section} (hs : instruction.section? i = some s)
    (hapart : s.blockName? ≠ none → openNames l.opened = []) (hl : l' = l.push s) :
    Takes l i l' instruction
  | elseIf (c : Expr) {last : Nat} {rest : List Section}
    (hopened : l.opened = .branches last false :: rest)
    (hopened' : l'.opened = .branches i false :: rest) (hblocks : l'.blocks = l.blocks) :
    Takes l i l' (.elseIf c)
  | otherwise {last : Nat} {rest : List Section}
    (hopened : l.opened = .branches last false :: rest)
    (hopened' : l'.opened = .branches i true :: rest) (hblocks : l'.blocks = l.blocks) :
    Takes l i l' .otherwise
  | clause (depth : Nat) {start : Nat} {rest : List Section}
    (hopened : l.opened = .loop start none :: rest)
    (hopened' : l'.opened = .empty i :: .loop start (some i) :: rest)
    (hblocks : l'.blocks = l.blocks) : Takes l i l' (.beginEmpty depth true)
  | closer {s : Section} {rest : List Section} (hopened : l.opened = s :: rest)
    (hopened' : l'.opened = rest) (hnew : ∀ name ∈ s.blockName?, name ∉ Dict.keys l.blocks)
    (hblocks : Dict.keys l'.blocks = Dict.keys l.blocks ++ s.blockName?.toList) :
    Takes l i l' s.closer

variable {l l' : Linker} {i : Nat} {instruction : Instruction}

theorem branch_ok {final : Bool} (h : l.branch i instruction final = .ok l') :
    ∃ last rest, l.opened = .branches last false :: rest ∧
      l'.opened = .branches i final :: rest ∧ l'.blocks = l.blocks := by
  unfold branch at h
  split at h
  · obtain rfl := Except.ok.inj h
    exact ⟨_, _, ‹_›, rfl, rfl⟩
  · simp [fault] at h
  · simp [fault] at h

theorem inlineEmpty_ok (h : l.inlineEmpty i = .ok l') :
    ∃ start rest, l.opened = .loop start none :: rest ∧
      l'.opened = .empty i :: .loop start (some i) :: rest ∧ l'.blocks = l.blocks := by
  unfold inlineEmpty at h
  split at h
  · obtain rfl := Except.ok.inj h
    exact ⟨_, _, ‹_›, rfl, rfl⟩
  · simp [fault] at h
  · simp [fault] at h

theorem closeBlock_ok {start : Nat} {name : String} {params : List String}
    (h : l.closeBlock start i name params = .ok l') :
    l'.opened = l.opened ∧ name ∉ Dict.keys l.blocks ∧
      Dict.keys l'.blocks = Dict.keys l.blocks ++ [name] := by
  unfold closeBlock at h
  split at h
  · simp [fault] at h
  · rename_i hknown
    rw [Dict.contains_iff] at hknown
    obtain rfl := Except.ok.inj h
    exact ⟨rfl, hknown, by rw [Dict.keys_insert, if_neg hknown]⟩

theorem takes_of_step (h : l.step i instruction = .ok l') : l.Takes i l' instruction := by
  cases instruction with
  | literal text => exact .leaf (.literal text) (Except.ok.inj h).symm
  | emit v => exact .leaf (.emit v) (Except.ok.inj h).symm
  | assign target value => exact .leaf (.assign target value) (Except.ok.inj h).symm
  | invoke name args => exact .leaf (.invoke name args) (Except.ok.inj h).symm
  | «include» parts => exact .leaf (.include parts) (Except.ok.inj h).symm
  | beginIf | beginFor | beginRange => exact .opener rfl (absurd rfl) (Except.ok.inj h).symm
  | elseIf c =>
    obtain ⟨last, rest, hopened, hopened', hblocks⟩ := branch_ok h
    exact .elseIf c hopened hopened' hblocks
  | otherwise =>
    obtain ⟨last, rest, hopened, hopened', hblocks⟩ := branch_ok h
    exact .otherwise hopened hopened' hblocks
  | beginEmpty depth inLoop =>
    cases inLoop with
    | false => exact .opener rfl (absurd rfl) (Except.ok.inj h).symm
    | true =>
      obtain ⟨start, rest, hopened, hopened', hblocks⟩ := inlineEmpty_ok h
      exact .clause depth hopened hopened' hblocks
  | beginBlock name params =>
    simp only [step] at h
    split at h
    · simp [fault] at h
    · rename_i hapart
      have hnone := openNames_eq_nil (by simpa using hapart)
      exact .opener rfl (fun _ => hnone) (Except.ok.inj h).symm
  | endIf | endFor | endEmpty | endRange =>
    simp only [step] at h
    split at h
    · rename_i hopened
      obtain rfl := Except.ok.inj h
      exact .closer hopened rfl (by simp [Section.blockName?]) (List.append_nil _).symm
    · simp [mismatch] at h
  | endBlock =>
    simp only [step] at h
    split at h
    · rename_i hopened
      obtain ⟨hopened', hnew, hkeys⟩ := closeBlock_ok h
      exact .closer hopened hopened' (by simpa [Section.blockName?] using hnew) hkeys
    · simp [mismatch] at h

end Linker

/-! Reading what links. -/

/-- Which ends an open section may come to. -/
def Section.Fits : Section → End → Prop
  | .branches _ final, .branches others => final = true → others = .done
  | .loop _ clause, .loopElse .. => clause = none
  | .loop .., .loop | .empty _, .empty | .block .., .block | .range _, .range => True
  | _, _ => False

/-- Each open section comes to the end in its place. -/
def Closes : List Section → List (End × Tree) → Prop
  | [], [] => True
  | s :: opened, e :: ends => s.Fits e.1 ∧ Closes opened ends
  | _, _ => False

theorem Closes.cons {s : Section} {opened : List Section} {ends : List (End × Tree)}
    (h : Closes (s :: opened) ends) :
    ∃ e after rest, ends = (e, after) :: rest ∧ s.Fits e ∧ Closes opened rest := by
  cases ends with
  | nil => exact h.elim
  | cons e rest => exact ⟨e.1, e.2, rest, rfl, h⟩

/-- An opener takes the end that its section comes to. -/
theorem Suffix.prepend_opener {i : Nat} {instruction : Instruction} {s : Section} {e : End}
    (hs : instruction.section? i = some s) (he : s.Fits e) (items after : Tree)
    (ends : List (End × Tree)) :
    ∃ t, prepend instruction ⟨items, (e, after) :: ends⟩ = some t ∧ t.ends = ends := by
  unfold Instruction.section? at hs
  split at hs <;> cases hs <;> cases e <;> first | exact he.elim | exact ⟨_, rfl, rfl⟩

/-- A closer is an end of its own section. -/
theorem Suffix.prepend_closer (s : Section) (t : Suffix) :
    ∃ e, t.prepend s.closer = some (t.close e) ∧ s.Fits e := by
  cases s <;> exact ⟨_, rfl, by simp [Section.Fits]⟩

namespace Linker

/-- The back part behind an instruction that the linker takes in can be read with it. -/
theorem prepend_of_takes {l l' : Linker} {i : Nat} {instruction : Instruction} {s : Suffix}
    (h : l.Takes i l' instruction) (hs : Closes l'.opened s.ends) :
    ∃ t, s.prepend instruction = some t ∧ Closes l.opened t.ends := by
  obtain ⟨items, ends⟩ := s
  cases h with
  | leaf leaf hl =>
    subst hl
    cases leaf <;> exact ⟨_, rfl, hs⟩
  | opener hsection _ hl =>
    subst hl
    obtain ⟨e, after, rest, rfl, he, hr⟩ := Closes.cons hs
    obtain ⟨t, ht, hrest⟩ := Suffix.prepend_opener hsection he items after rest
    exact ⟨t, ht, hrest ▸ hr⟩
  | elseIf c hopened hopened' =>
    rw [hopened'] at hs
    obtain ⟨e, after, rest, rfl, he, hr⟩ := Closes.cons hs
    cases e with
    | branches others => exact ⟨_, rfl, by simp [hopened, Closes, Section.Fits, hr]⟩
    | _ => exact he.elim
  | otherwise hopened hopened' =>
    rw [hopened'] at hs
    obtain ⟨e, after, rest, rfl, he, hr⟩ := Closes.cons hs
    cases e with
    | branches others =>
      obtain rfl : others = .done := he rfl
      exact ⟨_, rfl, by simp [hopened, Closes, Section.Fits, hr]⟩
    | _ => exact he.elim
  | clause depth hopened hopened' =>
    rw [hopened'] at hs
    obtain ⟨e, after, rest, rfl, he, hr⟩ := Closes.cons hs
    obtain ⟨e', behind, rest, rfl, he', hr'⟩ := Closes.cons hr
    cases e with
    | empty =>
      cases e' with
      | loop => exact ⟨_, rfl, by simp [hopened, Closes, Section.Fits, hr']⟩
      | loopElse => cases he'
      | _ => exact he'.elim
    | _ => exact he.elim
  | @closer section_ rest hopened hopened' =>
    obtain ⟨e, ht, he⟩ := Suffix.prepend_closer section_ ⟨items, ends⟩
    rw [hopened'] at hs
    rw [hopened]
    exact ⟨_, ht, he, hs⟩

/-- What the linker takes in up to the end of all sections can be read. -/
theorem read_of_run {is : List Instruction} {l l' : Linker} {i : Nat}
    (h : l.run i is = .ok l') (hl : l'.opened = []) :
    ∃ s, Suffix.read is = some s ∧ Closes l.opened s.ends := by
  induction is generalizing l i with
  | nil =>
    obtain rfl := Except.ok.inj h
    exact ⟨_, rfl, by simp [hl, Closes]⟩
  | cons instruction is ih =>
    cases hstep : l.step i instruction with
    | error e => simp [run, hstep, bind, Except.bind] at h
    | ok l₁ =>
      rw [run_of_step hstep] at h
      obtain ⟨s, hs, hc⟩ := ih h
      obtain ⟨t, ht, hc⟩ := prepend_of_takes (takes_of_step hstep) hc
      exact ⟨t, by simp [Suffix.read, hs, ht], hc⟩

end Linker

/-! Blocks in what links. -/

/-- No block is defined inside of a block; `inside` tells whether one is open in front. -/
def Apart : (inside : Bool) → List Instruction → Prop
  | _, [] => True
  | inside, .beginBlock .. :: is => inside = false ∧ Apart true is
  | _, .endBlock :: is => Apart false is
  | inside, _ :: is => Apart inside is

namespace Linker

/-- At most one block is open, and the names of the closed ones are distinct. -/
structure Distinct (l : Linker) : Prop where
  single : (openNames l.opened).length ≤ 1
  nodup : (Dict.keys l.blocks).Nodup

/-- Whether a block is open. -/
def inBlock (l : Linker) : Bool := !(openNames l.opened).isEmpty

variable {l l' : Linker} {i : Nat} {instruction : Instruction}

theorem blockName?_leaf (leaf : Leaf) : leaf.instruction.blockName? = none := by
  cases leaf <;> rfl

theorem blockName?_opener {s : Section} (h : instruction.section? i = some s) :
    instruction.blockName? = s.blockName? := by
  unfold Instruction.section? at h
  split at h <;> cases h <;> rfl

theorem blockName?_closer (s : Section) : s.closer.blockName? = none := by
  cases s <;> rfl

/-- A step adds the name of the block that it opens, if any, to the names so far. -/
theorem names_of_takes (h : l.Takes i l' instruction) :
    Dict.keys l'.blocks ++ openNames l'.opened =
      Dict.keys l.blocks ++ openNames l.opened ++ instruction.blockName?.toList := by
  cases h with
  | leaf leaf hl =>
    rw [hl, blockName?_leaf]
    simp
  | @opener _ s hs hapart hl =>
    rw [blockName?_opener hs, hl, push, openNames_cons]
    cases hname : s.blockName? with
    | none => simp
    | some name => simp [hapart (by simp [hname])]
  | elseIf c hopened hopened' hblocks => simp [hopened, hopened', hblocks, Section.blockName?]
  | otherwise hopened hopened' hblocks => simp [hopened, hopened', hblocks, Section.blockName?]
  | clause depth hopened hopened' hblocks => simp [hopened, hopened', hblocks, Section.blockName?]
  | closer hopened hopened' _ hblocks =>
    rw [blockName?_closer, hblocks, hopened, hopened', openNames_cons]
    simp

theorem distinct_of_takes (h : l.Takes i l' instruction) (hl : l.Distinct) : l'.Distinct := by
  obtain ⟨hsingle, hnodup⟩ := hl
  cases h with
  | leaf leaf hl => exact hl ▸ ⟨hsingle, hnodup⟩
  | @opener _ s _ hapart hl =>
    subst hl
    refine ⟨?_, hnodup⟩
    rw [push, openNames_cons]
    cases hname : s.blockName? with
    | none => simpa using hsingle
    | some name => simp [hapart (by simp [hname])]
  | elseIf c hopened hopened' hblocks | otherwise hopened hopened' hblocks
  | clause depth hopened hopened' hblocks =>
    rw [hopened] at hsingle
    exact ⟨by simpa [hopened', Section.blockName?] using hsingle, hblocks ▸ hnodup⟩
  | closer hopened hopened' hnew hblocks =>
    rw [hopened, openNames_cons, List.length_append] at hsingle
    refine ⟨by rw [hopened']; omega, ?_⟩
    rw [hblocks]
    refine List.nodup_append.mpr ⟨hnodup, Option.toList_nodup _, ?_⟩
    rintro name hname other hother rfl
    exact hnew name (Option.mem_toList.mp hother) hname

theorem apart_of_takes {is : List Instruction} (h : l.Takes i l' instruction) (hl : l.Distinct)
    (his : Apart l'.inBlock is) : Apart l.inBlock (instruction :: is) := by
  cases h with
  | leaf leaf hl =>
    subst hl
    cases leaf <;> exact his
  | @opener instruction s hs hapart hl =>
    subst hl
    rw [inBlock, push, openNames_cons] at his
    cases instruction with
    | beginBlock name params =>
      cases hs
      have hnone : openNames l.opened = [] := hapart (by simp [Section.blockName?])
      exact ⟨by simp [inBlock, hnone], his⟩
    | beginIf | beginFor | beginRange =>
      cases hs
      exact his
    | beginEmpty depth inLoop =>
      cases inLoop <;> cases hs
      exact his
    | _ => cases hs
  | elseIf c hopened hopened' | otherwise hopened hopened' | clause depth hopened hopened' =>
    have ho : l'.inBlock = l.inBlock := by simp [inBlock, hopened, hopened', Section.blockName?]
    rw [ho] at his
    exact his
  | @closer s rest hopened hopened' =>
    have hsingle := hl.single
    simp only [inBlock, hopened, hopened', openNames_cons] at hsingle his ⊢
    cases s with
    | block start name params =>
      have hrest : openNames rest = [] := by simpa [Section.blockName?] using hsingle
      rw [hrest] at his
      exact his
    | _ => exact his

/-- Behind a run the table holds the names of all blocks, and no block stood inside of another. -/
theorem blocks_of_run {is : List Instruction} {l l' : Linker} {i : Nat}
    (h : l.run i is = .ok l') (hl' : l'.opened = []) (hl : l.Distinct) :
    Dict.keys l'.blocks = Dict.keys l.blocks ++ openNames l.opened ++ blockNames is ∧
      (Dict.keys l'.blocks).Nodup ∧ Apart l.inBlock is := by
  induction is generalizing l i with
  | nil =>
    obtain rfl := Except.ok.inj h
    exact ⟨by simp [hl'], hl.nodup, trivial⟩
  | cons instruction is ih =>
    cases hstep : l.step i instruction with
    | error e => simp [run, hstep, bind, Except.bind] at h
    | ok l₁ =>
      rw [run_of_step hstep] at h
      have htakes := takes_of_step hstep
      obtain ⟨hkeys, hnodup, hapart⟩ := ih h (distinct_of_takes htakes hl)
      refine ⟨?_, hnodup, apart_of_takes htakes hl hapart⟩
      rw [hkeys, names_of_takes htakes]
      simp

end Linker

mutual

theorem Item.shallow_of_apart {inside : Bool} {rest : List Instruction} :
    {item : Item} → Apart inside (item.flatten ++ rest) →
    item.Shallow ∧ (inside = true → blockNames item.flatten = []) ∧ Apart inside rest
  | .leaf leaf, h => by
    cases leaf <;> exact ⟨trivial, fun _ => rfl, h⟩
  | .cond c body others, h => by
    simp only [Item.flatten, List.cons_append, List.append_assoc, Apart] at h
    obtain ⟨hb, hbn, h⟩ := Tree.shallow_of_apart h
    obtain ⟨ho, hon, h⟩ := Branches.shallow_of_apart h
    exact ⟨⟨hb, ho⟩, fun hi => by simp [Item.flatten, hbn hi, hon hi], h⟩
  | .loop loop body, h => by
    simp only [Item.flatten, List.cons_append, List.append_assoc, Apart] at h
    obtain ⟨hb, hn, h⟩ := Tree.shallow_of_apart h
    exact ⟨hb, fun hi => by simp [Item.flatten, hn hi], h⟩
  | .loopElse _ before _ clause after, h => by
    simp only [Item.flatten, List.cons_append, List.append_assoc, Apart] at h
    obtain ⟨hb, hbn, h⟩ := Tree.shallow_of_apart h
    obtain ⟨hc, hcn, h⟩ := Tree.shallow_of_apart h
    obtain ⟨ha, han, h⟩ := Tree.shallow_of_apart h
    exact ⟨⟨hb, hc, ha⟩, fun hi => by simp [Item.flatten, hbn hi, hcn hi, han hi], h⟩
  | .empty depth body, h => by
    simp only [Item.flatten, List.cons_append, List.append_assoc, Apart] at h
    obtain ⟨hb, hn, h⟩ := Tree.shallow_of_apart h
    exact ⟨hb, fun hi => by simp [Item.flatten, hn hi], h⟩
  | .block name params body, h => by
    simp only [Item.flatten, List.cons_append, List.append_assoc, Apart] at h
    obtain ⟨rfl, h⟩ := h
    obtain ⟨_, hn, h⟩ := Tree.shallow_of_apart h
    exact ⟨hn rfl, by simp, h⟩
  | .range c body, h => by
    simp only [Item.flatten, List.cons_append, List.append_assoc, Apart] at h
    obtain ⟨hb, hn, h⟩ := Tree.shallow_of_apart h
    exact ⟨hb, fun hi => by simp [Item.flatten, hn hi], h⟩

/-- A tree whose blocks stand apart is shallow, and has no blocks if it stands in one itself. -/
theorem Tree.shallow_of_apart {inside : Bool} {rest : List Instruction} :
    {items : Tree} → Apart inside (Tree.flatten items ++ rest) →
    Tree.Shallow items ∧ (inside = true → blockNames (Tree.flatten items) = []) ∧
      Apart inside rest
  | [], h => ⟨trivial, fun _ => rfl, h⟩
  | item :: items, h => by
    rw [Tree.flatten, List.append_assoc] at h
    obtain ⟨hi, hin, h⟩ := Item.shallow_of_apart h
    obtain ⟨hs, hsn, h⟩ := Tree.shallow_of_apart h
    exact ⟨⟨hi, hs⟩, fun hb => by simp [Tree.flatten, hin hb, hsn hb], h⟩

theorem Branches.shallow_of_apart {inside : Bool} {rest : List Instruction} :
    {others : Branches} → Apart inside (others.flatten ++ rest) →
    others.Shallow ∧ (inside = true → blockNames others.flatten = []) ∧ Apart inside rest
  | .done, h => ⟨trivial, fun _ => rfl, h⟩
  | .otherwise body, h => by
    simp only [Branches.flatten, List.cons_append, List.append_assoc, Apart] at h
    obtain ⟨hb, hn, h⟩ := Tree.shallow_of_apart h
    exact ⟨hb, fun hi => by simp [Branches.flatten, hn hi], h⟩
  | .elseIf c body others, h => by
    simp only [Branches.flatten, List.cons_append, List.append_assoc, Apart] at h
    obtain ⟨hb, hbn, h⟩ := Tree.shallow_of_apart h
    obtain ⟨ho, hon, h⟩ := Branches.shallow_of_apart h
    exact ⟨⟨hb, ho⟩, fun hi => by simp [Branches.flatten, hbn hi, hon hi], h⟩

end

end BraceTemplate
