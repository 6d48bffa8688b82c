import BraceTemplate.Proofs.Computation
import BraceTemplate.Proofs.Markup.Reading

/-!
Extraction of nodes as recursion over what was read. Handing a body to a handler goes part by part,
and each node waits for the answers to the nodes in it; walking the source mark by mark is the same
process. It fails where a call of the handler fails or the source is broken.
-/
namespace BraceTemplate.Markup

variable {σ : Type} (h : Handler σ)

section HandOver

/-- A run of text, unless it is empty. -/
def Handler.run : List Char → Process σ Unit
  | [] => pure ()
  | c :: cs => h.text (c :: cs)

mutual

/-- What a part becomes in the content or text around it: a node is handed over once its own content
is there. -/
def Part.answer (inner : Bool) : Part → Process σ (List Char)
  | .char c => pure [c]
  | .node start parts => do
    let content ← contents parts
    located start (h.node content inner)

/-- The content made of some parts: the answers to its nodes stand in it as they are. -/
def contents : List Part → Process σ (List Char)
  | [] => pure []
  | part :: parts => do
    let first ← part.answer true
    let others ← contents parts
    return first ++ others

end

/-- The error of a node that does not end, from its position and its content so far. -/
def Stop.report (start : Position) (content : List Char) : Stop → Process σ Unit
  | endOfSource => syntaxErrorAt start (.unterminatedNode (.ofList content))
  | lineBreak => syntaxErrorAt start (.lineBreakInNode (.ofList content))
  | comment start => syntaxErrorAt start .unterminatedComment
  | node start parts stop => do
    let content ← contents h parts
    stop.report start content

/-- Hands text and nodes over in the order of the source. -/
def Body.handOver : Body → Process σ Unit
  | text run => h.run run
  | node run start parts body => do
    h.run run
    h.run (← (Part.node start parts).answer h false)
    body.handOver
  | openComment _ start => syntaxErrorAt start .unterminatedComment
  | openNode run start parts stop => do
    h.run run
    let content ← contents h parts
    stop.report h start content

end HandOver

theorem flush_eq_run (text : List Char) : flush h text = h.run text := by
  cases text <;> rfl

theorem scan_cons (p : Position) (c : Char) (cs : List Char) :
    scan .body p (c :: cs) =
      match head c cs.head? with
      | .escape d => (.plain d, p) :: scan .body ((p.after c).after d) cs.tail
      | .comment => scan (.comment (Char.ofNat 0) p) ((p.after c).after '%') cs.tail
      | .opening => (.opening, p) :: scan .body (p.after c) cs
      | .single => (Mark.ofChar c, p) :: scan .body (p.after c) cs := by
  cases cs with
  | nil => rfl
  | cons d cs =>
    simp only [scan, head, List.head?_cons, List.tail_cons, isEscapable_iff, startsNode_iff]
    split
    · rfl
    · split
      · rename_i hcomment
        rw [hcomment.2]
      · split <;> rfl

theorem scan_plain {c : Char} (hescape : c ≠ '\\') (hopen : c ≠ '\x7b') (pos : Position)
    (cs : List Char) :
    scan .body pos (c :: cs) = (Mark.ofChar c, pos) :: scan .body (pos.after c) cs := by
  cases cs with
  | nil => simp [scan]
  | cons d cs => simp [scan, hescape, hopen]

theorem scan_escaped {d : Char} (hd : isEscapable d = true) (pos : Position) (cs : List Char) :
    scan .body pos ('\\' :: d :: cs) =
      (.plain d, pos) :: scan .body ((pos.after '\\').after d) cs := by
  simp [scan, hd]

theorem scan_backslash {d : Char} (hd : isEscapable d = false) (pos : Position) (cs : List Char) :
    scan .body pos ('\\' :: d :: cs) =
      (.plain '\\', pos) :: scan .body (pos.after '\\') (d :: cs) := by
  simp [scan, hd, Mark.ofChar]

theorem scan_opening {d : Char} (hd : startsNode d = true) (pos : Position) (cs : List Char) :
    scan .body pos ('\x7b' :: d :: cs) =
      (.opening, pos) :: scan .body (pos.after '\x7b') (d :: cs) := by
  have hne : d ≠ '%' := by
    rintro rfl
    exact absurd hd (by decide)
  simp [scan, hd, hne]

/-- A comment leaves no mark, whatever stands in it. -/
theorem scan_comment (last : Char) (start p : Position) (cs : List Char)
    (hlast : last = '%' → cs.head? ≠ some '\x7d') :
    scan (.comment last start) p cs =
      match behindComment p cs with
      | none => [(.openComment, start)]
      | some (next, rest) => scan .body next rest := by
  induction cs generalizing last p with
  | nil => rfl
  | cons c cs ih =>
    have hopen : ¬(last = '%' ∧ c = '\x7d') := fun hend => hlast hend.1 (congrArg some hend.2)
    rw [scan, if_neg hopen]
    cases cs with
    | nil => rfl
    | cons d cs =>
      rw [behindComment]
      by_cases hend : c = '%' ∧ d = '\x7d'
      · rw [scan, if_pos hend, if_pos hend]
      · rw [if_neg hend]
        exact ih c (p.after c) fun hc hd => hend ⟨hc, Option.some.inj hd⟩

/-- A comment that has just been opened does not end at once. -/
theorem scan_opened (start p : Position) (cs : List Char) :
    scan (.comment (Char.ofNat 0) start) p cs =
      match behindComment p cs with
      | none => [(.openComment, start)]
      | some (next, rest) => scan .body next rest :=
  scan_comment _ start p cs fun hlast => absurd hlast (by decide)

/-- A walk through a rest of source, up to the end. -/
def resume (p : Pending) (pos : Position) (cs : List Char) : Process σ Unit := do
  finish h (← (scan .body pos cs).foldlM (step h) p)

/-- What a walk does with an open node when the rest of its content has been read. -/
def conclude (level : Level) (outer : List Level) : Content → Process σ Unit
  | .closed parts next rest => do
    let content ← contents h parts
    let p ← closeNode h ⟨content.reverse ++ level.content, level.start⟩ ⟨outer, []⟩
    resume h p next rest
  | .stopped parts stop => do
    let content ← contents h parts
    stop.report h level.start (level.content.reverse ++ content)

theorem conclude_cons (content : List Char) (start : Position) (outer : List Level) (part : Part)
    (others : Content) :
    conclude h ⟨content, start⟩ outer (others.cons part) =
      part.answer h true >>= fun answer =>
        conclude h ⟨answer.reverse ++ content, start⟩ outer others := by
  cases others <;> simp [Content.cons, conclude, contents]

theorem resume_cons (p : Pending) (pos : Position) (c : Char) (cs : List Char) :
    resume h p pos (c :: cs) =
      match head c cs.head? with
      | .escape d => resume h (p.add [d]) ((pos.after c).after d) cs.tail
      | .comment =>
        match behindComment ((pos.after c).after '%') cs.tail with
        | none => syntaxErrorAt pos .unterminatedComment
        | some (next, rest) => resume h p next rest
      | .opening => step h p (.opening, pos) >>= fun p => resume h p (pos.after c) cs
      | .single => step h p (Mark.ofChar c, pos) >>= fun p => resume h p (pos.after c) cs := by
  rw [resume, scan_cons]
  cases head c cs.head? with
  | escape d => rfl
  | comment =>
    dsimp only
    rw [scan_opened]
    cases behindComment ((pos.after c).after '%') cs.tail with
    | none => rfl
    | some behind => rfl
  | opening => simp [resume]
  | single => simp [resume]

/-- The answer to a nested node goes into the content of the node around it. -/
theorem conclude_closed (parts : List Part) (next start : Position) (rest : List Char)
    (level : Level) (outer : List Level) :
    conclude h ⟨[], start⟩ (level :: outer) (.closed parts next rest) =
      (Part.node start parts).answer h true >>= fun answer =>
        resume h ⟨⟨answer.reverse ++ level.content, level.start⟩ :: outer, []⟩ next rest := by
  simp [conclude, closeNode, Part.answer, Pending.add]

theorem conclude_closed_outermost (parts : List Part) (next start : Position)
    (rest : List Char) :
    conclude h ⟨[], start⟩ [] (.closed parts next rest) =
      (Part.node start parts).answer h false >>= fun answer =>
        h.run answer >>= fun _ => resume h .empty next rest := by
  simp [conclude, closeNode, Part.answer, Pending.empty, flush_eq_run]

theorem resume_content (cs : List Char) (pos : Position) (level : Level) (outer : List Level) :
    resume h ⟨level :: outer, []⟩ pos cs = conclude h level outer (readContent pos cs) := by
  induction hlength : cs.length using Nat.strongRecOn generalizing cs pos level outer with
  | ind n ih =>
  subst hlength
  obtain ⟨content, start⟩ := level
  cases cs with
  | nil => simp [resume, scan, finish, readContent_nil, conclude, contents, Stop.report]
  | cons c cs =>
    have htail := length_tail_lt c cs
    rw [resume_cons, readContent_cons]
    cases head c cs.head? with
    | escape d =>
      dsimp only
      rw [Pending.add, ih _ htail _ _ _ _ rfl, conclude_cons]
      simp [Part.answer]
    | comment =>
      dsimp only
      cases hbehind : behindComment ((pos.after c).after '%') cs.tail with
      | none => simp [conclude, contents, Stop.report]
      | some behind =>
        exact ih _ (Nat.lt_trans (length_behindComment hbehind) htail) _ _ _ _ rfl
    | opening =>
      have hinner : (step h ⟨⟨content, start⟩ :: outer, []⟩ (.opening, pos) >>= fun p =>
          resume h p (pos.after c) cs) =
          conclude h ⟨[], pos⟩ (⟨content, start⟩ :: outer) (readContent (pos.after c) cs) := by
        simp only [step, pure_bind]
        exact ih _ (Nat.lt_succ_self _) _ _ _ _ rfl
      dsimp only
      rw [hinner]
      have hwithin := readContent_within (pos.after c) cs
      cases hread : readContent (pos.after c) cs with
      | stopped parts stop => simp [conclude, contents, Stop.report]
      | closed parts next rest =>
        rw [hread] at hwithin
        dsimp only
        rw [conclude_closed, conclude_cons]
        exact bind_congr fun answer => ih _ (Nat.lt_succ_of_lt hwithin) _ _ _ _ rfl
    | single =>
      dsimp only
      by_cases hclose : c = '\x7d'
      · simp [hclose, Mark.ofChar, step, conclude, contents]
      · by_cases hbreak : c = '\n'
        · simp [hbreak, Mark.ofChar, step, conclude, contents, Stop.report, syntaxErrorAt]
        · rw [if_neg hclose, if_neg hbreak, conclude_cons]
          simp only [Mark.ofChar, if_neg hclose, if_neg hbreak, step, pure_bind, Pending.add]
          rw [ih _ (Nat.lt_succ_self _) _ _ _ _ rfl]
          simp [Part.answer]

/-- Outside of any node a closing brace and a line break are text. -/
theorem step_ofChar (c : Char) (pos : Position) (text : List Char) :
    step h ⟨[], text⟩ (Mark.ofChar c, pos) = pure ⟨[], c :: text⟩ := by
  rw [Mark.ofChar]
  split
  · rename_i hclose
    rw [hclose]
    rfl
  · split
    · rename_i hbreak
      rw [hbreak]
      rfl
    · rfl

theorem resume_body (cs : List Char) (pos : Position) (text : List Char) :
    resume h ⟨[], text⟩ pos cs = ((readBody pos cs).prepend text.reverse).handOver h := by
  induction hlength : cs.length using Nat.strongRecOn generalizing cs pos text with
  | ind n ih =>
  subst hlength
  cases cs with
  | nil => simp [resume, scan, finish, readBody_nil, Body.prepend, Body.handOver, flush_eq_run]
  | cons c cs =>
    have htail := length_tail_lt c cs
    rw [resume_cons, readBody_cons]
    cases head c cs.head? with
    | escape d =>
      dsimp only
      rw [Pending.add, ih _ htail _ _ _ rfl, ← Body.prepend_append]
      simp
    | comment =>
      dsimp only
      cases hbehind : behindComment ((pos.after c).after '%') cs.tail with
      | none => rfl
      | some behind => exact ih _ (Nat.lt_trans (length_behindComment hbehind) htail) _ _ _ rfl
    | opening =>
      have hnode : (step h ⟨[], text⟩ (.opening, pos) >>= fun p => resume h p (pos.after c) cs) =
          h.run text.reverse >>= fun _ =>
            conclude h ⟨[], pos⟩ [] (readContent (pos.after c) cs) := by
        simp [step, resume_content, flush_eq_run]
      dsimp only
      rw [hnode]
      have hwithin := readContent_within (pos.after c) cs
      cases hread : readContent (pos.after c) cs with
      | stopped parts stop => simp [conclude, Body.prepend, Body.handOver]
      | closed parts next rest =>
        rw [hread] at hwithin
        have hrest : resume h .empty next rest = (readBody next rest).handOver h := by
          rw [Pending.empty, ih _ (Nat.lt_succ_of_lt hwithin) _ _ _ rfl, List.reverse_nil,
            Body.prepend_nil]
        rw [conclude_closed_outermost, hrest]
        simp [Body.prepend, Body.handOver]
    | single =>
      dsimp only
      rw [step_ofChar, pure_bind, ih _ (Nat.lt_succ_self _) _ _ _ rfl, ← Body.prepend_append,
        List.reverse_cons]

theorem walk_eq (source : List Char) : walk h source = (read source).handOver h := by
  change resume h ⟨[], []⟩ .start source = (read source).handOver h
  rw [resume_body, List.reverse_nil, Body.prepend_nil, read]

section Failure

variable {α β : Type} {broken : Prop}

/-- A computation that leaves a note in the state if it fails. -/
def noting (act : Process σ α) : Process (σ × Bool) α := do
  let (s, failed) ← get
  let (result, t) := outcome act s
  set (t, failed || !result.isOk)
  liftExcept result

/-- The handler with a note of whether one of its calls has failed. -/
def Handler.noting (h : Handler σ) : Handler (σ × Bool) where
  text := fun text => Markup.noting (h.text text)
  node := fun content inner => Markup.noting (h.node content inner)

/-- With the note a computation ends as without it, and it fails exactly if a call has failed or the
source is broken. -/
def Accounts (broken : Prop) (noted : Process (σ × Bool) α) (act : Process σ α) : Prop :=
  ∀ s, ∃ failed,
    outcome noted (s, false) = ((outcome act s).1, (outcome act s).2, failed) ∧
      ((outcome act s).1.isOk = false ↔ failed = true ∨ broken)

namespace Accounts

theorem pure (a : α) : Accounts False (pure a) (pure a : Process σ α) := fun s =>
  ⟨false, rfl, by simp [Except.isOk, Except.toBool]⟩

theorem syntaxError (p : Position) (fault : SyntaxFault) :
    Accounts True (syntaxErrorAt p fault) (syntaxErrorAt p fault : Process σ α) := fun s =>
  ⟨false, rfl, by simp [syntaxErrorAt, Except.isOk, Except.toBool]⟩

theorem call (act : Process σ α) : Accounts False (noting act) act := by
  intro s
  refine ⟨!(outcome act s).1.isOk, ?_, by simp⟩
  rw [noting, outcome_bind_ok outcome_get]
  dsimp only
  rw [outcome_bind_ok (outcome_set _), outcome_lift, Bool.false_or]

theorem bind {act : Process σ α} {noted : Process (σ × Bool) α} {next : α → Process σ β}
    {notedNext : α → Process (σ × Bool) β} (h : Accounts False noted act)
    (hnext : ∀ a, Accounts broken (notedNext a) (next a)) :
    Accounts broken (noted >>= notedNext) (act >>= next) := by
  intro s
  obtain ⟨failed, hrun, hfailed⟩ := h s
  cases hact : outcome act s with
  | mk result t =>
  rw [hact] at hrun hfailed
  cases result with
  | error e =>
    have : failed = true := by simpa using hfailed.mp rfl
    subst this
    rw [outcome_bind_error hrun, outcome_bind_error hact]
    exact ⟨true, rfl, by simp [Except.isOk, Except.toBool]⟩
  | ok a =>
    have : failed = false := by simpa [Except.isOk, Except.toBool] using hfailed
    subst this
    rw [outcome_bind_ok hrun, outcome_bind_ok hact]
    exact hnext a t

theorem located {act : Process σ α} {noted : Process (σ × Bool) α} (p : Position)
    (h : Accounts broken noted act) : Accounts broken (located p noted) (located p act) := by
  intro s
  obtain ⟨failed, hrun, hfailed⟩ := h s
  refine ⟨failed, by rw [outcome_located, outcome_located, hrun], ?_⟩
  rw [outcome_located, ← hfailed]
  cases (outcome act s).1 <;> rfl

end Accounts

theorem Handler.run_accounts (run : List Char) :
    Accounts False (h.noting.run run) (h.run run) := by
  cases run with
  | nil => exact .pure _
  | cons c cs => exact .call _

mutual

theorem Part.answer_accounts (inner : Bool) :
    (part : Part) → Accounts False (part.answer h.noting inner) (part.answer h inner)
  | .char _ => .pure _
  | .node start parts =>
    (contents_accounts parts).bind fun _ => .located start (.call _)

theorem contents_accounts :
    (parts : List Part) → Accounts False (contents h.noting parts) (contents h parts)
  | [] => .pure _
  | part :: parts =>
    (Part.answer_accounts true part).bind fun _ => (contents_accounts parts).bind fun _ => .pure _

end

theorem Stop.report_accounts (start : Position) (content : List Char) (stop : Stop) :
    Accounts True (stop.report h.noting start content) (stop.report h start content) := by
  induction stop generalizing start content with
  | endOfSource => exact .syntaxError _ _
  | lineBreak => exact .syntaxError _ _
  | comment _ => exact .syntaxError _ _
  | node inner parts stop ih =>
    exact (contents_accounts h parts).bind fun content => ih inner content

theorem Body.handOver_accounts (body : Body) :
    Accounts body.Broken (body.handOver h.noting) (body.handOver h) := by
  induction body with
  | text run => exact h.run_accounts run
  | node run start parts body ih =>
    exact (h.run_accounts run).bind fun _ =>
      (Part.answer_accounts h false _).bind fun answer =>
        (h.run_accounts answer).bind fun _ => ih
  | openComment run start => exact .syntaxError _ _
  | openNode run start parts stop =>
    exact (h.run_accounts run).bind fun _ =>
      (contents_accounts h parts).bind fun content => stop.report_accounts h start content

end Failure

/-- Walking a source is handing over what it reads as, node by node, to every handler. It fails
exactly if a call of the handler fails or the source is broken. -/
theorem walk_eq_handOver (source : List Char) :
    walk h source = (read source).handOver h ∧
      Accounts (read source).Broken (walk h.noting source) (walk h source) := by
  refine ⟨walk_eq h source, ?_⟩
  rw [walk_eq, walk_eq]
  exact (read source).handOver_accounts h

end BraceTemplate.Markup
