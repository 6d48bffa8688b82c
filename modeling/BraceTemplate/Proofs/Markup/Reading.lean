import BraceTemplate.Markup.Nodes

/-!
Source as a grammar. A body is text with nodes in it, the content of a node is characters and nodes,
and what stands first in a rest of source is told from two characters. A node is read as a whole
before what follows it.
-/
namespace BraceTemplate.Markup

/-- What stands first in a rest of source. -/
inductive Head where
  | escape (c : Char)
  | comment
  | opening
  | single
  deriving DecidableEq, Repr

/-- A letter, a digit, a slash or a dollar sign: what a node can begin with. -/
def BeginsNode (c : Char) : Prop :=
  ('A' ≤ c ∧ c ≤ 'Z') ∨ ('a' ≤ c ∧ c ≤ 'z') ∨ ('0' ≤ c ∧ c ≤ '9') ∨ c = '/' ∨ c = '$'

instance : DecidablePred BeginsNode := fun c =>
  inferInstanceAs (Decidable (('A' ≤ c ∧ c ≤ 'Z') ∨ ('a' ≤ c ∧ c ≤ 'z') ∨ ('0' ≤ c ∧ c ≤ '9') ∨
    c = '/' ∨ c = '$'))

theorem startsNode_iff (c : Char) : startsNode c = true ↔ BeginsNode c := by
  have hupper : c.isUpper = decide ('A' ≤ c ∧ c ≤ 'Z') := rfl
  have hlower : c.isLower = (decide ('a' ≤ c) && decide (c ≤ 'z')) := rfl
  have hdigit : c.isDigit = (decide ('0' ≤ c) && decide (c ≤ '9')) := rfl
  have hletter : c.isAlphanum = (c.isUpper || c.isLower || c.isDigit) := rfl
  simp only [startsNode, BeginsNode, hletter, hupper, hlower, hdigit, Bool.or_eq_true,
    Bool.and_eq_true, decide_eq_true_eq, beq_iff_eq, or_assoc]

theorem BeginsNode.ne {c d : Char} (hc : BeginsNode c) (hd : ¬BeginsNode d) : c ≠ d := by
  rintro rfl
  exact hd hc

theorem isEscapable_iff (c : Char) :
    isEscapable c = true ↔ c = '\x7b' ∨ c = '\x7d' ∨ c = '\\' := by
  simp [isEscapable, or_assoc]

/-- What a character stands for, seen with the one behind it. -/
def head (c : Char) : Option Char → Head
  | none => .single
  | some d =>
    if c = '\\' ∧ (d = '\x7b' ∨ d = '\x7d' ∨ d = '\\') then .escape d
    else if c = '\x7b' ∧ d = '%' then .comment
    else if c = '\x7b' ∧ BeginsNode d then .opening
    else .single

theorem length_tail_lt (c : Char) (cs : List Char) : cs.tail.length < (c :: cs).length := by
  rw [List.length_tail, List.length_cons]
  omega

/-- What is left behind the end of a comment, which is the first percent sign with a closing brace
behind it. -/
def behindComment : Position → List Char → Option (Position × List Char)
  | p, c :: d :: cs =>
    if c = '%' ∧ d = '\x7d' then some ((p.after c).after d, cs)
    else behindComment (p.after c) (d :: cs)
  | _, _ => none

theorem length_behindComment {p q : Position} {cs rest : List Char}
    (h : behindComment p cs = some (q, rest)) : rest.length < cs.length := by
  fun_induction behindComment p cs with
  | case1 p c d cs hend =>
    cases h
    simp only [List.length_cons]
    omega
  | case2 p c d cs hend ih =>
    have := ih h
    simp only [List.length_cons] at this ⊢
    omega
  | case3 => cases h

/-- A part of a node's content. A node in it has the position of its brace. -/
inductive Part where
  | char (c : Char)
  | node (start : Position) (parts : List Part)

/-- Why a node does not end: for what stands in its own content, or because of a comment or a node
in it that does not end. -/
inductive Stop where
  | endOfSource
  | lineBreak
  | comment (start : Position)
  | node (start : Position) (parts : List Part) (stop : Stop)

/-- The content of a node: up to its closing brace, with the rest of source behind that, or as far
as it goes. -/
inductive Content where
  | closed (parts : List Part) (next : Position) (rest : List Char)
  | stopped (parts : List Part) (stop : Stop)

namespace Content

def cons (part : Part) : Content → Content
  | closed parts next rest => closed (part :: parts) next rest
  | stopped parts stop => stopped (part :: parts) stop

/-- Fewer characters than that are left behind the content. -/
def Within (n : Nat) : Content → Prop
  | closed _ _ rest => rest.length < n
  | stopped _ _ => True

theorem Within.mono {content : Content} {m n : Nat} (h : content.Within m) (hmn : m ≤ n) :
    content.Within n := by
  cases content with
  | closed parts next rest => exact Nat.lt_of_lt_of_le h hmn
  | stopped parts stop => trivial

theorem Within.cons {content : Content} {m n : Nat} (h : content.Within m) (hmn : m ≤ n)
    (part : Part) : (content.cons part).Within n := by
  cases content with
  | closed parts next rest => exact Nat.lt_of_lt_of_le h hmn
  | stopped parts stop => trivial

end Content

/-- Reads the content of a node from behind its brace on. What is left is shorter, so that reading
can go on behind a nested node. -/
def contentWithin (p : Position) (cs : List Char) :
    {content : Content // content.Within cs.length} :=
  match cs with
  | [] => ⟨.stopped [] .endOfSource, trivial⟩
  | c :: cs =>
    have htail := length_tail_lt c cs
    match head c cs.head? with
    | .escape d =>
      let others := contentWithin ((p.after c).after d) cs.tail
      ⟨others.1.cons (.char d), others.2.cons (Nat.le_of_lt htail) _⟩
    | .comment =>
      match hbehind : behindComment ((p.after c).after '%') cs.tail with
      | none => ⟨.stopped [] (.comment p), trivial⟩
      | some (next, rest) =>
        have hrest := Nat.lt_trans (length_behindComment hbehind) htail
        let others := contentWithin next rest
        ⟨others.1, others.2.mono (Nat.le_of_lt hrest)⟩
    | .opening =>
      match contentWithin (p.after c) cs with
      | ⟨.closed parts next rest, hwithin⟩ =>
        have hrest : rest.length < (c :: cs).length := Nat.lt_succ_of_lt hwithin
        let others := contentWithin next rest
        ⟨others.1.cons (.node p parts), others.2.cons (Nat.le_of_lt hrest) _⟩
      | ⟨.stopped parts stop, _⟩ => ⟨.stopped [] (.node p parts stop), trivial⟩
    | .single =>
      if c = '\x7d' then ⟨.closed [] (p.after c) cs, Nat.lt_succ_self cs.length⟩
      else if c = '\n' then ⟨.stopped [] .lineBreak, trivial⟩
      else
        let others := contentWithin (p.after c) cs
        ⟨others.1.cons (.char c), others.2.cons (Nat.le_succ _) _⟩
termination_by cs.length
decreasing_by all_goals first | assumption | exact Nat.lt_succ_self _

def readContent (p : Position) (cs : List Char) : Content := (contentWithin p cs).1

theorem readContent_within (p : Position) (cs : List Char) : (readContent p cs).Within cs.length :=
  (contentWithin p cs).2

theorem readContent_nil (p : Position) : readContent p [] = .stopped [] .endOfSource := by
  rw [readContent, contentWithin]

theorem readContent_cons (p : Position) (c : Char) (cs : List Char) :
    readContent p (c :: cs) =
      match head c cs.head? with
      | .escape d => (readContent ((p.after c).after d) cs.tail).cons (.char d)
      | .comment =>
        match behindComment ((p.after c).after '%') cs.tail with
        | none => .stopped [] (.comment p)
        | some (next, rest) => readContent next rest
      | .opening =>
        match readContent (p.after c) cs with
        | .closed parts next rest => (readContent next rest).cons (.node p parts)
        | .stopped parts stop => .stopped [] (.node p parts stop)
      | .single =>
        if c = '\x7d' then .closed [] (p.after c) cs
        else if c = '\n' then .stopped [] .lineBreak
        else (readContent (p.after c) cs).cons (.char c) := by
  rw [readContent, contentWithin]
  cases head c cs.head? with
  | escape d => rfl
  | comment =>
    dsimp only
    split
    · rename_i hbehind
      rw [hbehind]
    · rename_i hbehind
      simp only [hbehind, readContent]
  | opening =>
    dsimp only [readContent]
    cases contentWithin (p.after c) cs with
    | mk content hwithin => cases content <;> rfl
  | single =>
    dsimp only [readContent]
    split
    · rfl
    · split <;> rfl

/-- A source, or a rest of it outside of any node: a run of text in front of each node and behind
the last, as long as there is no other node between. -/
inductive Body where
  | text (run : List Char)
  | node (run : List Char) (start : Position) (parts : List Part) (body : Body)
  | openComment (run : List Char) (start : Position)
  | openNode (run : List Char) (start : Position) (parts : List Part) (stop : Stop)

namespace Body

/-- More text in front. -/
def prepend (cs : List Char) : Body → Body
  | text run => text (cs ++ run)
  | node run start parts body => node (cs ++ run) start parts body
  | openComment run start => openComment (cs ++ run) start
  | openNode run start parts stop => openNode (cs ++ run) start parts stop

@[simp] theorem prepend_nil (body : Body) : body.prepend [] = body := by
  cases body <;> rfl

theorem prepend_append (cs ds : List Char) (body : Body) :
    body.prepend (cs ++ ds) = (body.prepend ds).prepend cs := by
  cases body <;> simp [prepend]

/-- A line break stands in a node, or the source ends in a node or a comment. -/
def Broken : Body → Prop
  | text _ => False
  | node _ _ _ body => body.Broken
  | openComment _ _ => True
  | openNode _ _ _ _ => True

end Body

/-- Reads source outside of any node. -/
def readBody (p : Position) (cs : List Char) : Body :=
  match cs with
  | [] => .text []
  | c :: cs =>
    have htail := length_tail_lt c cs
    match head c cs.head? with
    | .escape d => (readBody ((p.after c).after d) cs.tail).prepend [d]
    | .comment =>
      match hbehind : behindComment ((p.after c).after '%') cs.tail with
      | none => .openComment [] p
      | some (next, rest) =>
        have := Nat.lt_trans (length_behindComment hbehind) htail
        readBody next rest
    | .opening =>
      match contentWithin (p.after c) cs with
      | ⟨.closed parts next rest, hwithin⟩ =>
        have : rest.length < (c :: cs).length := Nat.lt_succ_of_lt hwithin
        .node [] p parts (readBody next rest)
      | ⟨.stopped parts stop, _⟩ => .openNode [] p parts stop
    | .single => (readBody (p.after c) cs).prepend [c]
termination_by cs.length
decreasing_by all_goals first | assumption | exact Nat.lt_succ_self _

def read (source : List Char) : Body := readBody .start source

theorem readBody_nil (p : Position) : readBody p [] = .text [] := by
  rw [readBody]

theorem readBody_cons (p : Position) (c : Char) (cs : List Char) :
    readBody p (c :: cs) =
      match head c cs.head? with
      | .escape d => (readBody ((p.after c).after d) cs.tail).prepend [d]
      | .comment =>
        match behindComment ((p.after c).after '%') cs.tail with
        | none => .openComment [] p
        | some (next, rest) => readBody next rest
      | .opening =>
        match readContent (p.after c) cs with
        | .closed parts next rest => .node [] p parts (readBody next rest)
        | .stopped parts stop => .openNode [] p parts stop
      | .single => (readBody (p.after c) cs).prepend [c] := by
  rw [readBody]
  cases head c cs.head? with
  | escape d => rfl
  | comment =>
    dsimp only
    split
    · rename_i hbehind
      rw [hbehind]
    · rename_i hbehind
      rw [hbehind]
  | opening =>
    dsimp only [readContent]
    cases contentWithin (p.after c) cs with
    | mk content hwithin => cases content <;> rfl
  | single => rfl

example : read "\\\x7b\x7d \x7b% \x7b %\x7d\x7bif \x7b$b\x7d\x7d\x7b ".toList =
    .node ['\x7b', '\x7d', ' '] ⟨1, 12⟩
      [.char 'i', .char 'f', .char ' ', .node ⟨1, 16⟩ [.char '$', .char 'b']]
      (.text ['\x7b', ' ']) := by cbv

end BraceTemplate.Markup
