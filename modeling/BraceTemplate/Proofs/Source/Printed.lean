import BraceTemplate.Proofs.Source.Piece
import BraceTemplate.Proofs.Source.Parsing

/-! What printed terms, bounds and arguments are made of: no line breaks, no braces, and no blanks
at their ends. -/
namespace BraceTemplate.Source

/-- Text without marks of its own; backslashes stand before double quotes only. -/
inductive Inert : List Char → Prop where
  | nil : Inert []
  | char {c : Char} {cs : List Char} (hbreak : c ≠ '\n') (hopen : c ≠ '\x7b') (hclose : c ≠ '\x7d')
    (hescape : c ≠ '\\') (h : Inert cs) : Inert (c :: cs)
  | quote {cs : List Char} (h : Inert cs) : Inert ('\\' :: '"' :: cs)

namespace Inert

variable {cs ds : List Char}

theorem append (hc : Inert cs) (hd : Inert ds) : Inert (cs ++ ds) := by
  induction hc with
  | nil => exact hd
  | char hbreak hopen hclose hescape _ ih => exact .char hbreak hopen hclose hescape ih
  | quote _ ih => exact .quote ih

theorem cons {c : Char} (hc : c ≠ '\n' ∧ c ≠ '\x7b' ∧ c ≠ '\x7d' ∧ c ≠ '\\') (h : Inert cs) :
    Inert (c :: cs) := .char hc.1 hc.2.1 hc.2.2.1 hc.2.2.2 h

theorem of_all (h : ∀ c ∈ cs, c ≠ '\n' ∧ c ≠ '\x7b' ∧ c ≠ '\x7d' ∧ c ≠ '\\') : Inert cs := by
  induction cs with
  | nil => exact .nil
  | cons c cs ih =>
    exact .cons (h c List.mem_cons_self) (ih fun d hd => h d (List.mem_cons_of_mem c hd))

/-- Closed text is checked by evaluation. -/
theorem of_check
    (h : (cs.all fun c => c != '\n' && c != '\x7b' && c != '\x7d' && c != '\\') = true) :
    Inert cs := of_all fun c hc => by simpa [and_assoc] using List.all_eq_true.mp h c hc

theorem flatMap {α : Type} {f : α → List Char} {l : List α} (h : ∀ a ∈ l, Inert (f a)) :
    Inert (l.flatMap f) := by
  induction l with
  | nil => exact .nil
  | cons a l ih =>
    rw [List.flatMap_cons]
    exact (h a List.mem_cons_self).append (ih fun b hb => h b (List.mem_cons_of_mem a hb))

theorem no_break (h : Inert cs) : '\n' ∉ cs := by
  induction h with
  | nil => exact List.not_mem_nil
  | char hbreak _ _ _ _ ih => simpa [hbreak.symm] using ih
  | quote _ ih => simpa using ih

theorem name (n : Name) : Inert n.chars := of_all fun _ hc =>
  have hne {d : Char} (hd : Arguments.isNameChar d = false) :=
    Arguments.ne_of_isNameChar (Name.isNameChar hc) hd
  ⟨hne rfl, hne rfl, hne rfl, hne rfl⟩

theorem digits (n : Nat) : Inert (Nat.toDigits 10 n) := by
  refine of_all fun c hc => ?_
  have hne {d : Char} (hd : d.isDigit = false) : c ≠ d := ne_of_isDigit (isDigit_toDigits hc) hd
  exact ⟨hne rfl, hne rfl, hne rfl, hne rfl⟩

end Inert

theorem Dotted.inert (p : Dotted) : Inert p.print :=
  .cons (by decide) ((Inert.name p.root).append (.flatMap fun k _ => .cons (by decide) (.name k)))

theorem Variable.inert (v : Variable) : Inert v.print :=
  v.path.inert.append (.flatMap fun f _ => .cons (by decide) (.name f))

theorem PathText.inert (t : PathText) : Inert t.chars := .of_all fun c hc => by
  obtain ⟨-, hopen, hclose, hescape, hblank⟩ := t.valid c hc
  refine ⟨?_, hopen, hclose, hescape⟩
  rintro rfl
  exact absurd hblank (by decide)

theorem Quotable.inert (s : Quotable) : Inert s.print := by
  refine .cons (by decide) ((Inert.flatMap fun c hc => ?_).append (.cons (by decide) .nil))
  by_cases hq : c = '"'
  · rw [if_pos hq]
    exact .quote .nil
  · rw [if_neg hq]
    exact .cons (s.valid c hc) .nil

theorem inert_symbol (op : BinaryOp) : Inert (printSymbol op) :=
  .of_check (by cases op <;> decide)

mutual

theorem Term.inert (n : Nat) : (e : Term) → Inert (e.print n)
  | .int k => .digits k.value
  | .str s => s.inert
  | .bool true => by
    rw [Term.print]
    exact .of_check (by decide)
  | .bool false => by
    rw [Term.print]
    exact .of_check (by decide)
  | .null => by
    rw [Term.print]
    exact .of_check (by decide)
  | .array [] => by
    rw [Term.print]
    exact .of_check (by decide)
  | .array (e :: es) =>
    .cons (by decide) ((e.inert 1).append ((inert_more es).append (.cons (by decide) .nil)))
  | .var v => v.inert
  | .not e => .cons (by decide) (e.inert 6)
  | .neg e => .cons (by decide) (e.inert 6)
  | .binary op l r => by
    have hbody : Inert (l.print (leftLevel op) ++ ' ' :: (printSymbol op ++ ' ' ::
        r.print (level op + 1))) :=
      (l.inert _).append (.cons (by decide) ((inert_symbol op).append
        (.cons (by decide) (r.inert _))))
    rw [Term.print]
    split
    · exact .cons (by decide) (hbody.append (.cons (by decide) .nil))
    · exact hbody

theorem inert_more : (es : List Term) → Inert (printMore es)
  | [] => .nil
  | e :: es => .cons (by decide) (.cons (by decide) ((e.inert 1).append (inert_more es)))

end

theorem Term.print_ne_nil (n : Nat) (e : Term) : e.print n ≠ [] := by
  obtain ⟨c, cs, h, -⟩ := e.print_head n
  rw [h]
  exact List.cons_ne_nil c cs

theorem solid_toDigits (n : Nat) : Text.Solid (Nat.toDigits 10 n) :=
  .of_all fun _ hc => not_blank_of_isDigit (isDigit_toDigits hc)

theorem Term.solid (n : Nat) : (e : Term) → Text.Solid (e.print n)
  | .int k => solid_toDigits k.value
  | .str s => solid_enclosed (by decide) (by decide) _
  | .bool true => by
    rw [Term.print]
    exact .of_check (by decide)
  | .bool false => by
    rw [Term.print]
    exact .of_check (by decide)
  | .null => by
    rw [Term.print]
    exact .of_check (by decide)
  | .array [] => by
    rw [Term.print]
    exact .of_check (by decide)
  | .array (e :: es) => by
    rw [Term.print, ← List.append_assoc]
    exact solid_enclosed (by decide) (by decide) _
  | .var v => v.solid
  | .not e => solid_cons (by decide) (e.solid 6)
  | .neg e => solid_cons (by decide) (e.solid 6)
  | .binary op l r => by
    rw [Term.print]
    split
    · exact solid_enclosed (by decide) (by decide) _
    · have := (l.solid (leftLevel op)).around (r.solid (level op + 1)) (l.print_ne_nil _)
        (r.print_ne_nil _) (' ' :: (printSymbol op ++ [' ']))
      simpa using this

/-! Loops and counters. -/

theorem solid_loop (key : Option Name) (value : Name) {collection : List Char}
    (hsolid : Text.Solid collection) (hne : collection ≠ []) :
    Text.Solid (printKey key ++ '$' :: (value.chars ++ ' ' :: 'i' :: 'n' :: ' ' ::
      collection)) := by
  have hdollar : Text.Solid ['$'] := solid_one (by decide)
  have haround (between : List Char) : Text.Solid (['$'] ++ (between ++ collection)) :=
    hdollar.around hsolid (List.cons_ne_nil _ _) hne between
  cases key with
  | none => simpa [printKey] using haround (value.chars ++ [' ', 'i', 'n', ' '])
  | some k =>
    simpa [printKey] using haround (k.chars ++ ',' :: ' ' :: '$' :: (value.chars ++
      [' ', 'i', 'n', ' ']))

theorem inert_loop (key : Option Name) (value : Name) {collection : List Char}
    (hinert : Inert collection) :
    Inert (printKey key ++ '$' :: (value.chars ++ ' ' :: 'i' :: 'n' :: ' ' :: collection)) := by
  have hkey : Inert (printKey key) := by
    cases key with
    | none => exact .nil
    | some k => exact .cons (by decide) ((Inert.name k).append (.of_check (by decide)))
  have hin : Inert [' ', 'i', 'n', ' '] := .of_check (by decide)
  have hvalue := (Inert.name value).append (hin.append hinert)
  exact hkey.append (.cons (by decide) hvalue)

theorem inert_printInt (n : Int) : Inert (printInt n) := by
  unfold printInt
  split
  · exact .cons (by decide) (.digits _)
  · exact .digits _

theorem BoundTerm.inert (b : BoundTerm) : Inert b.print := by
  cases b with
  | literal n => exact inert_printInt n.value
  | var name => exact .cons (by decide) (.name name)

theorem BoundTerm.solid (b : BoundTerm) : Text.Solid b.print := by
  cases b with
  | var name => exact solid_cons (by decide) name.solid
  | literal n =>
    simp only [BoundTerm.print, printInt]
    split
    · exact solid_cons (by decide) (solid_toDigits _)
    · exact solid_toDigits _

theorem BoundTerm.print_ne_nil (b : BoundTerm) : b.print ≠ [] := by
  cases b with
  | var name => exact List.cons_ne_nil _ _
  | literal n =>
    simp only [BoundTerm.print, printInt]
    split
    · exact List.cons_ne_nil _ _
    · exact Nat.toDigits_ne_nil

theorem inert_step (step : Option Step) : Inert (printStep step) := by
  cases step with
  | none => exact .of_check (by decide)
  | some s => exact s.bound.inert.append (.of_check (by decide))

theorem solid_counting (counter : Name) (start : BoundTerm) (step : Option Step)
    (stop : BoundTerm) :
    Text.Solid ('$' :: (counter.chars ++ ' ' :: '=' :: ' ' :: (start.print ++ '.' ::
      (printStep step ++ stop.print)))) := by
  have hdollar : Text.Solid ['$'] := solid_one (by decide)
  have haround := hdollar.around stop.solid (List.cons_ne_nil _ _) stop.print_ne_nil
    (counter.chars ++ ' ' :: '=' :: ' ' :: (start.print ++ '.' :: printStep step))
  simpa using haround

theorem inert_counting (counter : Name) (start : BoundTerm) (step : Option Step)
    (stop : BoundTerm) :
    Inert ('$' :: (counter.chars ++ ' ' :: '=' :: ' ' :: (start.print ++ '.' ::
      (printStep step ++ stop.print)))) := by
  have hequals : Inert [' ', '=', ' '] := .of_check (by decide)
  exact .cons (by decide) ((Inert.name counter).append (hequals.append (start.inert.append
    (.cons (by decide) ((inert_step step).append stop.inert)))))

end BraceTemplate.Source
