import BraceTemplate.Compile.Draft
import BraceTemplate.Proofs.Markup.Seams

/-!
Comments leave no trace: with a comment in its source a walk makes the same calls as without, and
ends alike.
-/
namespace BraceTemplate.Markup

variable {σ ν α : Type} (h : Handler σ)

section Calls

/-- A call of a handler. -/
inductive Callback where
  | text (text : List Char)
  | node (content : List Char) (inner : Bool)
  deriving DecidableEq, Repr

/-- A computation that takes a note of how it ends. -/
def annotated (note : Except Error α → ν) (act : Process σ α) : Process (σ × List ν) α := do
  let (s, notes) ← get
  let (result, t) := outcome act s
  set (t, notes ++ [note result])
  liftExcept result

theorem outcome_annotated (note : Except Error α → ν) (act : Process σ α) (s : σ) (notes : List ν) :
    outcome (annotated note act) (s, notes) =
      ((outcome act s).1, (outcome act s).2, notes ++ [note (outcome act s).1]) := by
  rw [annotated, outcome_bind_ok outcome_get]
  dsimp only
  rw [outcome_bind_ok (outcome_set _), outcome_lift]

/-- A computation that keeps a record of what it was called with. -/
def recording (call : Callback) (act : Process σ α) : Process (σ × List Callback) α := do
  let (s, calls) ← get
  let (result, t) := outcome act s
  set (t, calls ++ [call])
  liftExcept result

/-- The handler with a record of its calls. -/
def Handler.recording (h : Handler σ) : Handler (σ × List Callback) where
  text := fun text => Markup.recording (.text text) (h.text text)
  node := fun content inner => Markup.recording (.node content inner) (h.node content inner)

/-- The calls of a walk, in order. -/
def calls (s : σ) (source : List Char) : List Callback :=
  (outcome (walk h.recording source) (s, [])).2.2

theorem outcome_recording (call : Callback) (act : Process σ α) (s : σ) (calls : List Callback) :
    outcome (recording call act) (s, calls) =
      ((outcome act s).1, (outcome act s).2, calls ++ [call]) :=
  outcome_annotated (fun _ => call) act s calls

theorem recording_coupled (call : Callback) (act : Process σ α) :
    Coupled (Misplaced fun r s => r.1 = s) (fun r s => r.1 = s) (recording call act) act
      fun a b r s => a = b ∧ r.1 = s := by
  rintro ⟨s, calls⟩ _ rfl
  rw [outcome_recording]
  rcases outcome act s with ⟨e | a, t⟩
  · exact .error ⟨rfl, rfl⟩
  · exact .ok ⟨rfl, rfl⟩

theorem Handler.recording_alike : h.recording.Alike (fun r s => r.1 = s) h where
  text text := (recording_coupled (.text text) (h.text text)).imp fun _ _ _ _ hs => hs.2
  node content inner := recording_coupled (.node content inner) (h.node content inner)

/-- The record changes nothing about a walk. -/
theorem walk_recording (s : σ) (source : List Char) :
    (outcome (walk h.recording source) (s, [])).2.1 = (outcome (walk h source) s).2 ∧
      (outcome (walk h.recording source) (s, [])).1.mapError Error.unplaced =
        (outcome (walk h source) s).1.mapError Error.unplaced :=
  same_outcome (resume_coupled h.recording_alike (.refl .empty) .start .start source) rfl

end Calls

/-- With a comment at a cut a walk does what it does without, up to the positions of errors. -/
theorem walk_past_comment {a c : List Char} (hcut : Cut a) (hopen : ¬EndsInComment a)
    (hc : ¬['%', '\x7d'] <:+: c) (b : List Char) :
    Coupled (Misplaced (· = ·)) (· = ·) (walk h (a ++ comment c ++ b)) (walk h (a ++ b))
      fun _ _ => (· = ·) := by
  obtain ⟨q, hq⟩ := walk_append h hcut hopen
  have hself : h.Alike (· = ·) h :=
    ⟨fun cs => (Coupled.refl (fun _ _ => ⟨rfl, rfl⟩) _).imp fun _ _ _ _ hs => hs.2,
      fun content inner => .refl (fun _ _ => ⟨rfl, rfl⟩) _⟩
  have hcomment (p : Pending) : resume h p q (comment c ++ b) =
      resume h p ((comment c).foldl Position.after q) b := by
    rw [resume, scan_past_comment hc, resume]
  rw [List.append_assoc, hq, hq]
  refine .bind (.refl (fun _ _ => ⟨rfl, rfl⟩) _) fun p p' => ?_
  rintro s _ ⟨rfl, rfl⟩
  rw [hcomment]
  exact resume_coupled hself (.refl p) _ q b s s rfl

/-- A comment is invisible: behind text that does not end in a backslash, an opening brace or
another comment, it changes neither the calls of a walk nor the state it leaves, and of an error
nothing but the position. -/
theorem comment_invisible {a c : List Char} (hslash : a.getLast? ≠ some '\\')
    (hbrace : a.getLast? ≠ some '\x7b') (hopen : ¬EndsInComment a) (hc : ¬['%', '\x7d'] <:+: c)
    (b : List Char) (s : σ) :
    calls h s (a ++ comment c ++ b) = calls h s (a ++ b) ∧
      (outcome (walk h (a ++ comment c ++ b)) s).2 = (outcome (walk h (a ++ b)) s).2 ∧
      (outcome (walk h (a ++ comment c ++ b)) s).1.mapError Error.unplaced =
        (outcome (walk h (a ++ b)) s).1.mapError Error.unplaced := by
  have hcut : Cut a := ⟨hslash, hbrace⟩
  have hrecorded := same_outcome (walk_past_comment h.recording hcut hopen hc b)
    (rfl : (s, ([] : List Callback)) = (s, []))
  have hplain := same_outcome (walk_past_comment h hcut hopen hc b) (rfl : s = s)
  exact ⟨congrArg Prod.snd hrecorded.1, hplain⟩

/-- In the arguments of a node inside of another one, with braces and a line break. -/
theorem comment_invisible_nested :
    let h := Draft.handler ⟨.builtin, none⟩
    let a := "x\n\x7bif \x7b$b".toList
    let b := "\x7d\x7dy\x7b/if\x7d".toList
    let c := " \x7b/if\x7d\\\n%".toList
    (a.getLast? ≠ some '\\' ∧ a.getLast? ≠ some '\x7b' ∧ ¬EndsInComment a ∧
      ¬['%', '\x7d'] <:+: c) ∧
    (calls h .start (a ++ comment c ++ b) = calls h .start (a ++ b) ∧
      (outcome (walk h (a ++ comment c ++ b)) .start).2 = (outcome (walk h (a ++ b)) .start).2 ∧
      (outcome (walk h (a ++ comment c ++ b)) .start).1.mapError Error.unplaced =
        (outcome (walk h (a ++ b)) .start).1.mapError Error.unplaced) ∧
    calls h .start (a ++ b) = [.text ['x', '\n'], .node ['$', 'b'] true,
      .node "if \x7b$b\x7d".toList false, .text ['y'], .node "/if".toList false] := by
  refine ⟨⟨by decide, by decide, by decide, by decide +kernel⟩, ?_, by decide +kernel⟩
  exact comment_invisible _ (by decide) (by decide) (by decide) (by decide +kernel) _ _

end BraceTemplate.Markup
