import BraceTemplate.Proofs.Program.Reading

/-!
Linking as laying out: the linker takes a tree in exactly when no block stands inside of another one
and no block name repeats, and then the links are those of the layout of the tree.
-/
namespace BraceTemplate

/-! Writing links. -/

/-- Writes the links of code over an array, from an index on; an instruction that leads nowhere
writes nothing. -/
def patch (links : Array Link) : Nat → Code → Array Link
  | _, [] => links
  | i, (_, link) :: code =>
    patch (if link = ⟨0, none⟩ then links else links.modify i fun _ => link) (i + 1) code

@[simp] theorem patch_nil (links : Array Link) (i : Nat) : patch links i [] = links := rfl

@[simp] theorem patch_plain (links : Array Link) (i : Nat) (instruction : Instruction)
    (code : Code) : patch links i (instruction.plain :: code) = patch links (i + 1) code := by
  simp [patch, Instruction.plain]

theorem patch_cons (links : Array Link) (i : Nat) (instruction : Instruction) {link : Link}
    (h : link.next ≠ 0) (code : Code) : patch links i ((instruction, link) :: code) =
      patch (links.modify i fun _ => link) (i + 1) code := by
  have hl : link ≠ ⟨0, none⟩ := fun he => h (by simp [he])
  simp [patch, hl]

theorem patch_append (links : Array Link) (i : Nat) (code rest : Code) :
    patch links i (code ++ rest) = patch (patch links i code) (i + code.length) rest := by
  induction code generalizing links i with
  | nil => rfl
  | cons e code ih => simp [patch, ih, Nat.add_assoc, Nat.add_comm 1]

theorem modify_comm (links : Array Link) {i j : Nat} (h : i ≠ j) (f g : Link → Link) :
    (links.modify i f).modify j g = (links.modify j g).modify i f := by
  apply Array.ext_getElem?
  intro k
  simp only [Array.getElem?_modify]
  by_cases hi : i = k <;> by_cases hj : j = k <;> simp_all

/-- A link in front of code may be written before the links of the code or after them. -/
theorem patch_modify (links : Array Link) {i k : Nat} (h : i < k) (code : Code) (link : Link) :
    (patch links k code).modify i (fun _ => link) =
      patch (links.modify i fun _ => link) k code := by
  induction code generalizing links k with
  | nil => rfl
  | cons e code ih =>
    simp only [patch, ih _ (Nat.lt_succ_of_lt h)]
    split
    · rfl
    · rw [modify_comm _ (Nat.ne_of_gt h)]

@[simp] theorem size_patch (links : Array Link) (i : Nat) (code : Code) :
    (patch links i code).size = links.size := by
  induction code generalizing links i with
  | nil => rfl
  | cons e code ih =>
    simp only [patch, ih]
    split <;> simp

theorem getElem?_patch_of_lt (links : Array Link) {i k : Nat} (h : k < i) (code : Code) :
    (patch links i code)[k]? = links[k]? := by
  induction code generalizing links i with
  | nil => rfl
  | cons e code ih =>
    rw [patch, ih _ (Nat.lt_succ_of_lt h)]
    split
    · rfl
    · simp [Array.getElem?_modify, Nat.ne_of_gt h]

/-- Over links that lead nowhere, the links written are exactly those of the code. -/
theorem getElem?_patch (links : Array Link) (i : Nat) (code : Code) (k : Nat)
    (hsize : i + code.length ≤ links.size) (hk : k < code.length)
    (hfree : ∀ j, i ≤ j → j < links.size → links[j]? = some ⟨0, none⟩) :
    (patch links i code)[i + k]? = code[k]?.map Prod.snd := by
  induction code generalizing links i k with
  | nil => simp at hk
  | cons e code ih =>
    simp only [List.length_cons] at hsize hk
    obtain ⟨instruction, link⟩ := e
    rw [patch]
    cases k with
    | zero =>
      change (patch _ (i + 1) code)[i]? = _
      rw [getElem?_patch_of_lt _ (Nat.lt_add_one i)]
      have hi := hfree i (Nat.le_refl i) (by omega)
      split
      · rename_i hlink
        simp [hi, hlink]
      · simp [Array.getElem?_modify, hi]
    | succ k =>
      rw [← Nat.add_assoc, Nat.add_right_comm]
      have hsize' : ((if link = ⟨0, none⟩ then links else links.modify i fun _ => link)).size =
          links.size := by split <;> simp
      rw [ih _ (i + 1) k (by omega) (by omega)]
      · rfl
      · intro j hj hlt
        rw [hsize'] at hlt
        split
        · exact hfree j (by omega) hlt
        · simp [Array.getElem?_modify, show i ≠ j by omega, hfree j (by omega) hlt]

theorem patch_replicate (code : Code) :
    (patch (Array.replicate code.length ⟨0, none⟩) 0 code).toList = code.map Prod.snd := by
  apply List.ext_getElem?
  intro k
  by_cases hk : k < code.length
  · have h := getElem?_patch (Array.replicate code.length ⟨0, none⟩) 0 code k (by simp) hk
      (by intro j _ hj; simp at hj; simp [hj])
    simpa using h
  · have hn : (patch (Array.replicate code.length ⟨0, none⟩) 0 code).toList.length ≤ k := by
      simpa using hk
    rw [List.getElem?_eq_none hn, List.getElem?_eq_none (by simpa using hk)]

/-! Linking a tree. -/

namespace Linker

/-- The linker behind code that starts at an index. -/
def past (l : Linker) (i : Nat) (code : Code) : Linker :=
  { l with links := patch l.links i code, blocks := l.blocks ++ Code.blocks i code }

/-- Blocks of the given names may follow: none is known yet, and none stands inside of a block. -/
structure Admits (l : Linker) (names : List String) : Prop where
  outside : names ≠ [] → l.opened.any Section.isBlock = false
  fresh : (Dict.keys l.blocks ++ names).Nodup

variable {l : Linker} {i : Nat}

theorem Admits.left {names others : List String} (h : l.Admits (names ++ others)) :
    l.Admits names where
  outside hn := h.outside (by simp [hn])
  fresh := h.fresh.sublist (by simp)

theorem Admits.right {code : Code} {names others : List String} (h : l.Admits (names ++ others))
    (hc : blockNames (code.map Prod.fst) = names) : (l.past i code).Admits others where
  outside hn := h.outside (by simp [hn])
  fresh := by
    have hk : Dict.keys (l.past i code).blocks = Dict.keys l.blocks ++ names := by
      simp [past, Dict.keys, ← hc, ← Code.blocks_keys i]
    rw [hk, List.append_assoc]
    exact h.fresh

theorem Admits.push {names : List String} (h : l.Admits names) {s : Section}
    (hs : s.isBlock = false) : (l.push s).Admits names where
  outside hn := by simpa [Linker.push, hs] using h.outside hn
  fresh := h.fresh

theorem Admits.setLink {names : List String} (h : l.Admits names) {link : Link} :
    (l.setLink i link).Admits names := ⟨h.outside, h.fresh⟩

@[simp] theorem past_nil : l.past i [] = l := by simp [past, Code.blocks]

theorem past_append (code rest : Code) :
    l.past i (code ++ rest) = (l.past i code).past (i + code.length) rest := by
  simp [past, patch_append, Code.blocks_append]

theorem past_past {j : Nat} {code : Code} (h : i + code.length = j) (rest : Code) :
    (l.past i code).past j rest = l.past i (code ++ rest) := by
  rw [past_append, h]

@[simp] theorem past_plain {instruction : Instruction} (h : instruction.blockName? = none)
    (code : Code) : l.past i (instruction.plain :: code) = l.past (i + 1) code := by
  simp only [past, patch_plain]
  rw [Instruction.plain, Code.blocks_cons h]

/-- The link of an opener may be written when its body has been taken in. -/
theorem past_setLink (opener : Instruction) {link : Link} (hlink : link.next ≠ 0)
    (h : opener.blockName? = none) (body : Code) :
    (l.past (i + 1) body).setLink i link = l.past i ((opener, link) :: body) := by
  simp only [past, setLink, Code.blocks_cons h]
  rw [patch_modify _ (Nat.lt_add_one i), patch_cons _ _ _ hlink]

theorem run_of_step {l' : Linker} {instruction : Instruction} (h : l.step i instruction = .ok l')
    (rest : List Instruction) : l.run i (instruction :: rest) = l'.run (i + 1) rest := by
  simp [run, h, bind, Except.bind]

/-- In front of any others these instructions lead from the first linker to where the second one is
past the code. -/
def Passes (l l' : Linker) (i : Nat) (is : List Instruction) (code : Code) : Prop :=
  ∀ rest, l.run i (is ++ rest) = (l'.past i code).run (i + code.length) rest

namespace Passes

variable {l' l'' : Linker} {instruction : Instruction} {is js : List Instruction}
  {code code' : Code}

theorem nil : l.Passes l i [] [] := by
  intro rest
  rw [past_nil]
  rfl

theorem step (h : l.step i instruction = .ok l') (hname : instruction.blockName? = none) :
    l.Passes l' i [instruction] [instruction.plain] := by
  intro rest
  rw [past_plain hname, past_nil]
  exact run_of_step h rest

theorem append {j : Nat} (h : l.Passes l' i is code) (hj : i + code.length = j)
    (h' : (l'.past i code).Passes (l''.past i code) j js code') :
    l.Passes l'' i (is ++ js) (code ++ code') := by
  intro rest
  rw [List.append_assoc, h, hj, h', past_past hj, List.length_append, ← hj, Nat.add_assoc]

/-- What follows an opener writes the link of the opener. -/
theorem cons {opener : Instruction} {link : Link} (hopen : l.step i opener = .ok l')
    (htail : l'.Passes (l''.past i [(opener, link)]) (i + 1) is code) :
    l.Passes l'' i (opener :: is) ((opener, link) :: code) := by
  intro rest
  have hpast : (l''.past i [(opener, link)]).past (i + 1) code =
      l''.past i ((opener, link) :: code) := past_past rfl code
  rw [List.cons_append, run_of_step hopen, htail, hpast, List.length_cons, Nat.add_assoc,
    Nat.add_comm 1]

/-- A section with its closer; its body may change what is known of the section. -/
theorem enclosed {opened : Linker} {opener closer : Instruction} {s s' : Section} {link : Link}
    {stop : Nat} (hopen : l.step i opener = .ok (opened.push s))
    (hbody : (opened.push s).Passes (opened.push s') (i + 1) is code)
    (hstop : i + 1 + code.length = stop)
    (hclose : ((opened.past (i + 1) code).push s').step stop closer =
      .ok (opened.past i ((opener, link) :: code)))
    (hname : closer.blockName? = none) :
    l.Passes opened i (opener :: (is ++ [closer]))
      ((opener, link) :: (code ++ [closer.plain])) := by
  have hpast : (opened.past i [(opener, link)]).past (i + 1) code =
      opened.past i ((opener, link) :: code) := past_past rfl code
  rw [← hpast] at hclose
  exact cons hopen (hbody.append hstop (step hclose hname))

/-- A branch with the branches behind it. -/
theorem branch {opened : Linker} {opener : Instruction} {j : Nat}
    (hopen : l.step i opener = .ok (opened.push (.branches i false)))
    (hname : opener.blockName? = none)
    (hbody : (opened.push (.branches i false)).Passes (opened.push (.branches i false)) (i + 1) is
      code) (hj : i + 1 + code.length = j)
    (hothers : ((opened.past (i + 1) code).push (.branches i false)).Passes
      ((opened.past (i + 1) code).setLink i ⟨j, none⟩) j js code') :
    l.Passes opened i (opener :: (is ++ js)) ((opener, ⟨j, none⟩) :: (code ++ code')) := by
  have hpast : (opened.past i [(opener, ⟨j, none⟩)]).past (i + 1) code =
      opened.past i ((opener, ⟨j, none⟩) :: code) := past_past rfl code
  have hnext : j ≠ 0 := by omega
  rw [past_setLink opener hnext hname, ← hpast] at hothers
  exact cons hopen (hbody.append hj hothers)

/-- A loop whose body is divided by its clause: behind the first part of the body the loop is open
without its clause, behind the clause with it. -/
theorem divided {loop : Loop} {depth opener closer stop : Nat}
    {before clause after : List Instruction} {front middle back : Code}
    (hopener : i + 1 + front.length = opener) (hcloser : opener + 1 + middle.length = closer)
    (hstop : closer + 1 + back.length = stop)
    (hbefore : (l.push (.loop i none)).Passes (l.push (.loop i none)) (i + 1) before front)
    (hclause : (((l.past (i + 1) front).push (.loop i (some opener))).push (.empty opener)).Passes
      (((l.past (i + 1) front).push (.loop i (some opener))).push (.empty opener)) (opener + 1)
      clause middle)
    (hafter : (((l.past (i + 1) front).past opener ((.beginEmpty depth true, ⟨closer, none⟩) ::
        (middle ++ [Instruction.endEmpty.plain]))).push (.loop i (some opener))).Passes
      (((l.past (i + 1) front).past opener ((.beginEmpty depth true, ⟨closer, none⟩) ::
        (middle ++ [Instruction.endEmpty.plain]))).push (.loop i (some opener))) (closer + 1)
      after back) :
    l.Passes l i
      (.beginFor loop :: (before ++ .beginEmpty depth true :: (clause ++ .endEmpty ::
        (after ++ [.endFor]))))
      ((.beginFor loop, ⟨stop, some opener⟩) ::
        (front ++ (.beginEmpty depth true, ⟨closer, none⟩) ::
          (middle ++ Instruction.endEmpty.plain :: (back ++ [Instruction.endFor.plain])))) := by
  let code : Code :=
    (.beginEmpty depth true, ⟨closer, none⟩) :: (middle ++ [Instruction.endEmpty.plain])
  have hnext : closer ≠ 0 := by omega
  have hsection : ((l.past (i + 1) front).push (.loop i none)).Passes
      ((l.past (i + 1) front).push (.loop i (some opener))) opener
      (.beginEmpty depth true :: (clause ++ [.endEmpty])) code :=
    .enclosed rfl hclause hcloser (congrArg _ (past_setLink _ hnext rfl _)) rfl
  have hcode : opener + code.length = closer + 1 := by
    simp only [code, List.length_cons, List.length_append, List.length_nil]
    omega
  have hrest : ((l.past (i + 1) front).push (.loop i none)).Passes
      ((l.past (i + 1) front).push (.loop i (some opener))) opener _ (code ++ back) :=
    hsection.append hcode hafter
  have hbody : (l.push (.loop i none)).Passes (l.push (.loop i (some opener))) (i + 1) _
      (front ++ (code ++ back)) := hbefore.append hopener hrest
  have hlength : i + 1 + (front ++ (code ++ back)).length = stop := by
    simp only [List.length_append]
    omega
  have hlast : stop ≠ 0 := by omega
  have h : l.Passes l i (.beginFor loop :: (_ ++ [.endFor]))
      ((.beginFor loop, ⟨stop, some opener⟩) :: (_ ++ [Instruction.endFor.plain])) :=
    .enclosed rfl hbody hlength (congrArg _ (past_setLink _ hlast rfl _)) rfl
  simpa [code] using h

end Passes

/-- Closing a block that is not known yet adds it to the table. -/
theorem closeBlock_past {name : String} {params : List String} {stop : Nat}
    (h : l.Admits [name]) {body : Code} (hb : Code.blocks (i + 1) body = []) (hstop : stop ≠ 0) :
    (l.past (i + 1) body).closeBlock i stop name params =
      .ok (l.past i ((.beginBlock name params, ⟨stop, none⟩) :: body)) := by
  have hn : name ∉ Dict.keys l.blocks := by
    intro hmem
    exact (List.nodup_append.mp h.fresh).2.2 name hmem name (by simp) rfl
  have hnew : ¬Dict.contains l.blocks name = true := by rwa [Dict.contains_iff]
  simp only [closeBlock, past, hb, List.append_nil, hnew, setLink]
  rw [Dict.insert_of_not_mem hn, patch_modify _ (Nat.lt_add_one i), patch_cons _ _ _ hstop]
  simp [Code.blocks, hb]

end Linker

mutual

theorem Item.passes {l : Linker} {i : Nat} : (item : Item) → item.Shallow →
    l.Admits (blockNames item.flatten) → l.Passes l i item.flatten (item.layout i)
  | .leaf leaf, _, _ => by
    have hstep : l.step i leaf.instruction = .ok l := by cases leaf <;> rfl
    exact .step hstep (by cases leaf <;> rfl)
  | .cond c body others, hs, hn => by
    have hn' : l.Admits (blockNames (Tree.flatten body) ++ blockNames others.flatten) := by
      simpa [Item.flatten] using hn
    have hb := Tree.passes (l := l.push (.branches i false)) (i := i + 1) body hs.1
      (hn'.left.push rfl)
    have ho := others.passes (l := l.past (i + 1) (Tree.layout (i + 1) body))
      (i := i + 1 + Tree.size body) i false hs.2 (hn'.right (by rw [Tree.layout_instructions]))
      (by simp) (by omega)
    exact .branch rfl rfl hb (by rw [Tree.length_layout]) ho
  | .loop loop body, hs, hn => by
    have hn' : l.Admits (blockNames (Tree.flatten body)) := by
      simpa [Item.flatten] using hn
    have hb := Tree.passes (l := l.push (.loop i none)) (i := i + 1) body hs (hn'.push rfl)
    exact .enclosed rfl hb (by rw [Tree.length_layout])
      (congrArg _ (Linker.past_setLink _ (by simp) rfl _)) rfl
  | .loopElse loop before depth clause after, hs, hn => by
    let opener := i + 1 + Tree.size before
    let closer := opener + 1 + Tree.size clause
    have hn' : l.Admits (blockNames (Tree.flatten before) ++
        (blockNames (Tree.flatten clause) ++ blockNames (Tree.flatten after))) := by
      simpa [Item.flatten] using hn
    have hbefore := Tree.passes (l := l.push (.loop i none)) (i := i + 1) before hs.1
      (hn'.left.push rfl)
    -- Behind the first part of its body the loop is open, without its clause yet.
    let l₁ := l.past (i + 1) (Tree.layout (i + 1) before)
    have hn₁ : l₁.Admits (blockNames (Tree.flatten clause) ++ blockNames (Tree.flatten after)) :=
      hn'.right (by rw [Tree.layout_instructions])
    have hclause := Tree.passes (l := (l₁.push (.loop i (some opener))).push (.empty opener))
      (i := opener + 1) clause hs.2.1 ((hn₁.left.push rfl).push rfl)
    let code : Code := (.beginEmpty depth true, ⟨closer, none⟩) ::
      (Tree.layout (opener + 1) clause ++ [Instruction.endEmpty.plain])
    have hn₂ : (l₁.past opener code).Admits (blockNames (Tree.flatten after)) :=
      hn₁.right (by simp [code, Tree.layout_instructions, Instruction.plain])
    have hafter := Tree.passes (l := (l₁.past opener code).push (.loop i (some opener)))
      (i := closer + 1) after hs.2.2 (hn₂.push rfl)
    exact .divided (by rw [Tree.length_layout]) (by rw [Tree.length_layout])
      (by rw [Tree.length_layout]) hbefore hclause hafter
  | .empty depth body, hs, hn => by
    have hn' : l.Admits (blockNames (Tree.flatten body)) := by
      simpa [Item.flatten] using hn
    have hb := Tree.passes (l := l.push (.empty i)) (i := i + 1) body hs (hn'.push rfl)
    exact .enclosed rfl hb (by rw [Tree.length_layout])
      (congrArg _ (Linker.past_setLink _ (by simp) rfl _)) rfl
  | .block name params body, hs, hn => by
    have hb : blockNames (Tree.flatten body) = [] := hs
    have hn' : l.Admits [name] := by simpa [Item.flatten, hb] using hn
    have hempty : (l.push (.block i name params)).Admits (blockNames (Tree.flatten body)) := by
      rw [hb]
      exact ⟨by simp, hn'.fresh.sublist (by simp [Linker.push])⟩
    have hbody := Tree.passes (l := l.push (.block i name params)) (i := i + 1) body
      (Tree.shallow_of_blockNames hs) hempty
    have hnone : Code.blocks (i + 1) (Tree.layout (i + 1) body) = [] := by
      have h := Code.blocks_keys (i + 1) (Tree.layout (i + 1) body)
      rw [Tree.layout_instructions, hb] at h
      exact List.map_eq_nil_iff.mp h
    have hopen : l.step i (.beginBlock name params) = .ok (l.push (.block i name params)) := by
      simp [Linker.step, hn'.outside (by simp)]
    exact .enclosed hopen hbody (by rw [Tree.length_layout])
      (Linker.closeBlock_past hn' hnone (by simp)) rfl
  | .range c body, hs, hn => by
    have hn' : l.Admits (blockNames (Tree.flatten body)) := by
      simpa [Item.flatten] using hn
    have hb := Tree.passes (l := l.push (.range i)) (i := i + 1) body hs (hn'.push rfl)
    exact .enclosed rfl hb (by rw [Tree.length_layout])
      (congrArg _ (Linker.past_setLink _ (by simp) rfl _)) rfl

/-- Linking a tree in front of other instructions is passing its layout. -/
theorem Tree.passes {l : Linker} {i : Nat} : (items : Tree) → Tree.Shallow items →
    l.Admits (blockNames (Tree.flatten items)) →
    l.Passes l i (Tree.flatten items) (Tree.layout i items)
  | [], _, _ => .nil
  | item :: items, hs, hn => by
    have hn' : l.Admits (blockNames item.flatten ++ blockNames (Tree.flatten items)) := by
      simpa [Tree.flatten] using hn
    have hitems := Tree.passes (l := l.past i (item.layout i)) (i := i + item.size) items hs.2
      (hn'.right (by rw [Item.layout_instructions]))
    exact (item.passes hs.1 hn'.left).append (by rw [Item.length_layout]) hitems

/-- Further branches write the link of the last branch before them. -/
theorem Branches.passes {l : Linker} {i : Nat} (last : Nat) (final : Bool) :
    (others : Branches) → others.Shallow → l.Admits (blockNames others.flatten) →
    (final = true → others = .done) → last < i →
    (l.push (.branches last final)).Passes (l.setLink last ⟨i, none⟩) i others.flatten
      (others.layout i)
  | .done, _, _, _, _ => .step rfl rfl
  | .otherwise body, hs, hn, hf, hi => by
    obtain rfl : final = false := by simpa using hf
    have hn' : (l.setLink last ⟨i, none⟩).Admits (blockNames (Tree.flatten body)) := by
      simpa [Branches.flatten] using hn.setLink
    have hb := Tree.passes (l := (l.setLink last ⟨i, none⟩).push (.branches i true)) (i := i + 1)
      body hs (hn'.push rfl)
    exact .enclosed rfl hb (by rw [Tree.length_layout])
      (congrArg _ (Linker.past_setLink _ (by simp) rfl _)) rfl
  | .elseIf c body others, hs, hn, hf, hi => by
    obtain rfl : final = false := by simpa using hf
    have hn' : (l.setLink last ⟨i, none⟩).Admits
        (blockNames (Tree.flatten body) ++ blockNames others.flatten) := by
      simpa [Branches.flatten] using hn.setLink
    have hb := Tree.passes (l := (l.setLink last ⟨i, none⟩).push (.branches i false))
      (i := i + 1) body hs.1 (hn'.left.push rfl)
    have ho := others.passes
      (l := (l.setLink last ⟨i, none⟩).past (i + 1) (Tree.layout (i + 1) body))
      (i := i + 1 + Tree.size body) i false hs.2 (hn'.right (by rw [Tree.layout_instructions]))
      (by simp) (by omega)
    exact .branch rfl rfl hb (by rw [Tree.length_layout]) ho

end

end BraceTemplate
