import BraceTemplate.Proofs.Render.Sections
import BraceTemplate.Proofs.Render.Series
import BraceTemplate.Proofs.Render.Spreading
import BraceTemplate.Proofs.Source.Directives
import BraceTemplate.Proofs.Source.Parsing
import BraceTemplate.Proofs.Value.Sound

/-!
A loop visits what its collection holds on entry: its entries, which are those that the filters for
keys and length count and that lookups find, each once and in order, whatever the body assigns.
-/
namespace BraceTemplate

open Render

/-- The loop variables are single names. -/
theorem Arguments.loop_plain {mode : Mode} {depth : Nat} {args : List Char} {loop : Loop}
    (h : Arguments.loop mode depth args = .ok loop) :
    (∃ name, loop.value = .simple mode name) ∧
      ∀ path, loop.key = some path → ∃ name, path = .simple mode name := by
  unfold Arguments.loop at h
  split at h
  · cases h
  · rename_i key value collection _
    obtain ⟨e, -, h⟩ := bind_eq_ok.mp h
    cases h
    refine ⟨⟨value, rfl⟩, ?_⟩
    intro path hpath
    obtain ⟨name, -, rfl⟩ := Option.map_eq_some_iff.mp hpath
    exact ⟨name, rfl⟩

namespace Loop

variable {env : RenderEnv} {loop : Loop} {s : RenderState} {body : Render String}

/-- What a visit starts with: the counter is set and the loop variables take the entry. -/
def start (env : RenderEnv) (loop : Loop) (entry : (Value × Value) × Nat) : Render Unit := do
  entered env loop entry.2 entry.1.1
  assign env loop.value entry.1.2

theorem visit_eq_start (env : RenderEnv) (loop : Loop) (body : Render String)
    (entry : (Value × Value) × Nat) :
    loop.visit env body entry = loop.start env entry >>= fun _ => body := by
  rw [start, bind_assoc]
  exact visit_eq_entered env loop body entry.1 entry.2

/-- A visit starts: from then on the loop variables read the key and the value of its entry. Where
both are one variable, it reads the value. -/
structure Begins (env : RenderEnv) (loop : Loop) (entry : (Value × Value) × Nat)
    (s begun : RenderState) : Prop where
  started : outcome (loop.start env entry) s = (.ok (), begun)
  value : reading env loop.value begun = .ok entry.1.2
  key : ∀ path, loop.key = some path → path ≠ loop.value → reading env path begun = .ok entry.1.1

/-- Up to where the value of an entry is assigned, a visit succeeds and its key is read. -/
theorem exists_entered {mode : Mode} (hdepth : loop.depth < Frame.capacity)
    (hkey : ∀ path, loop.key = some path → ∃ name, path = .simple mode name) (count : Nat)
    (key : Value) (hs : s.context.Settled) :
    ∃ keyed, outcome (entered env loop count key) s = (.ok (), keyed) ∧ keyed.context.Settled ∧
      ∀ path, loop.key = some path → reading env path keyed = .ok key := by
  obtain ⟨counted, hcounted, hsettled⟩ : ∃ counted,
      outcome (setCounter loop.depth (count + 1)) s = (.ok (), counted) ∧
        counted.context.Settled := by
    refine ⟨{ s with frame := s.frame.withCounter loop.depth (count + 1) }, ?_, hs⟩
    rw [outcome_setCounter, if_pos hdepth]
  cases hpath : loop.key with
  | none =>
    refine ⟨counted, ?_, hsettled, nofun⟩
    rw [entered, outcome_bind_ok hcounted, hpath]
    rfl
  | some path =>
    obtain ⟨name, rfl⟩ := hkey path hpath
    obtain ⟨keyed, hassigned, hkeyed, hreads, -⟩ := exists_assign_simple env hsettled mode name key
    refine ⟨keyed, ?_, hkeyed, ?_⟩
    · rw [entered, outcome_bind_ok hcounted, hpath]
      exact hassigned
    · rintro path ⟨⟩
      exact hreads

/-- Visits start whatever the visits before them left behind. -/
theorem exists_begins_visit {mode : Mode} {value : String}
    (hdepth : loop.depth < Frame.capacity) (hvalue : loop.value = .simple mode value)
    (hkey : ∀ path, loop.key = some path → ∃ name, path = .simple mode name)
    (entry : (Value × Value) × Nat) (hs : s.context.Settled) :
    ∃ begun, Begins env loop entry s begun ∧
      outcome (loop.start env entry) s = (.ok (), begun) ∧ begun.context.Settled := by
  obtain ⟨keyed, hentered, hkeyed, hreadsKey⟩ :=
    exists_entered hdepth hkey entry.2 entry.1.1 hs
  obtain ⟨begun, hassigned, hbegun, hreads, hothers⟩ :=
    exists_assign_simple env hkeyed mode value entry.1.2
  rw [← hvalue] at hassigned hreads
  have hstarted : outcome (loop.start env entry) s = (.ok (), begun) := by
    rw [start, outcome_bind_ok hentered, hassigned]
  refine ⟨begun, ⟨hstarted, hreads, ?_⟩, hstarted, hbegun⟩
  intro path hpath hne
  obtain ⟨name, rfl⟩ := hkey path hpath
  have hname : name ≠ value := by
    rintro rfl
    exact hne hvalue.symm
  rw [hothers name hname, hreadsKey _ hpath]

/-- What comes behind the visits: the counter is set to how many there were, and if there were none
the clause for that is rendered. -/
def finish (loop : Loop) (count : Nat) (clause : Render String) (text : String) :
    Render String := do
  setCounter loop.depth count
  if count = 0 then return text ++ (← clause) else return text

/-- A loop renders its visits and what comes behind them. -/
theorem outcome_render {clause : Render String} {c : Value} {s₁ : RenderState}
    (hdepth : loop.depth < Frame.capacity)
    (hc : outcome (eval env loop.collection) s = (.ok c, s₁)) :
    outcome (loop.render env body clause) s = outcome (do
      let text ← joined (loop.visit env body) c.entries.zipIdx
      loop.finish c.entries.length clause text)
      { s₁ with frame := s₁.frame.withCounter loop.depth 0 } := by
  have hcounted : outcome (setCounter loop.depth 0) s₁ =
      (.ok (), { s₁ with frame := s₁.frame.withCounter loop.depth 0 }) := by
    rw [outcome_setCounter, if_pos hdepth]
  rw [Loop.render, outcome_bind_ok hc, outcome_bind_ok hcounted]
  unfold finish
  cases c.entries <;> rfl

/-- A loop that is too deep to be counted visits nothing. -/
theorem outcome_render_tooDeep {clause : Render String} {c : Value} {s₁ : RenderState}
    (hdepth : Frame.capacity ≤ loop.depth)
    (hc : outcome (eval env loop.collection) s = (.ok c, s₁)) :
    outcome (loop.render env body clause) s = (.error .crashed, s₁) := by
  have hcrash : outcome (setCounter loop.depth 0) s₁ = (.error .crashed, s₁) := by
    rw [outcome_setCounter, if_neg (Nat.not_lt.mpr hdepth)]
  rw [Loop.render, outcome_bind_ok hc]
  exact outcome_bind_error hcrash _

end Loop

namespace Render

variable {env : RenderEnv} {s s₁ : RenderState} {loop : Loop}

/-- A collection is iterated by its entries, which the other ways of looking at it agree with: the
filters for its keys and its length give the keys and the number of the entries, and looking up the
display text of a key gives the value that is visited with it. A loop evaluates its collection once.
It visits the entries that the collection has then, each once and in order, and each visit starts
with the loop variables reading its key and its value, whatever the visits before it made of these
variables and of the one that the collection came from; only a visit that fails ends the loop
early. A loop below more loops than can be counted crashes before the first visit. -/
theorem forEach_visits {mode : Mode} {depth : Nat} {args : List Char}
    (hloop : Arguments.loop mode depth args = .ok loop) (hs : s.context.Settled) {c : Value}
    (hc : outcome (eval env loop.collection) s = (.ok c, s₁)) (hsound : c.Sound)
    (hcollection : c.isCollection = true) (speller : Text.Speller) (strict : Bool)
    (w : List Warning) (t : Template) (room fuel index : Nat) :
    let run := range env (enter env room) t fuel
    let body := loopBody t run index
    let entries := c.entries
    let start : RenderState := { s₁ with frame := s₁.frame.withCounter loop.depth 0 }
    outcome ((FilterTable.builtin speller).apply strict "keys" c) w =
      (.ok (.list (entries.map Prod.fst)), w) ∧
    outcome ((FilterTable.builtin speller).apply strict "length" c) w =
      (.ok (.int entries.length), w) ∧
    (∀ key value, (key, value) ∈ entries → c.lookup? key.display = some value) ∧
    (Frame.capacity ≤ loop.depth →
      outcome (forEach env t run index loop) s = (.error .crashed, s₁)) ∧
    (loop.depth < Frame.capacity → ∃ k ≤ entries.length, ∃ text before,
      Series (loop.Begins env) body (entries.zipIdx.take k) start text before ∧
      (k = entries.length ∧ outcome (forEach env t run index loop) s =
          outcome (loop.finish k (t.clauseBody run index) text) before ∨
        ∃ entry, entries[k]? = some entry ∧ ∃ begun e after,
          loop.Begins env (entry, k) before begun ∧ outcome body begun = (.error e, after) ∧
          outcome (forEach env t run index loop) s = (.error e, after))) := by
  intro run body entries start
  have hkeys : outcome ((FilterTable.builtin speller).apply strict "keys" c) w =
      (.ok (Filter.keys c), w) := rfl
  have hlength : outcome ((FilterTable.builtin speller).apply strict "length" c) w =
      (.ok (Filter.length c), w) := rfl
  rw [hkeys, hlength, Value.keys_entries hcollection, Value.length_entries hcollection]
  refine ⟨rfl, rfl, fun key value he => hsound.lookup?_entry hcollection he, fun hdeep => ?_,
    fun hdepth => ?_⟩
  · rw [forEach_eq rfl]
    exact Loop.outcome_render_tooDeep hdeep hc
  obtain ⟨⟨value, hvalue⟩, hkey⟩ := Arguments.loop_plain hloop
  have hbody : OnlyWrites body :=
    OnlyWrites.loopBody (fun _ _ => OnlyWrites.range (OnlyWrites.enter env room) t fuel _ _) index
  have hsettled : start.context.Settled := by
    have hevaluated := ((OnlyWrites.steps env).eval loop.collection).settled hs
    rwa [hc] at hevaluated
  have hrest : outcome (forEach env t run index loop) s = outcome (do
      let text ← joined (loop.visit env body) entries.zipIdx
      loop.finish entries.length (t.clauseBody run index) text) start := by
    rw [forEach_eq rfl]
    exact Loop.outcome_render hdepth hc
  obtain ⟨k, text, before, hseries, hend⟩ := joined_series (loop.visit_eq_start env body) hbody
    (fun entry _ hs => Loop.exists_begins_visit hdepth hvalue hkey entry hs) entries.zipIdx hsettled
  rw [List.length_zipIdx] at hend
  rcases hend with ⟨rfl, hjoined⟩ | ⟨⟨entry, i⟩, hentry, begun, e, after, hbegins, hfails, hjoined⟩
  · refine ⟨_, Nat.le_refl _, text, before, hseries, .inl ⟨rfl, ?_⟩⟩
    rw [hrest, outcome_bind_ok hjoined]
  · obtain ⟨hlast, rfl⟩ : entries[k]? = some entry ∧ k = i := by
      rw [List.getElem?_zipIdx, Option.map_eq_some_iff] at hentry
      obtain ⟨_, hlast, ⟨⟩⟩ := hentry
      exact ⟨hlast, (Nat.zero_add k).symm⟩
    refine ⟨k, ?_, text, before, hseries,
      .inr ⟨entry, hlast, begun, e, after, hbegins, hfails, ?_⟩⟩
    · exact Nat.le_of_lt (List.getElem?_eq_some_iff.mp hlast).1
    · rw [hrest, outcome_bind_error hjoined]

/-- A loop over the variable `a`. -/
def overA : Loop :=
  ⟨some (.simple .shared "k"), .simple .shared "v", .var ⟨.simple .shared "a", []⟩, 0⟩

theorem loop_overA : Arguments.loop .shared 0 "$k, $v in $a".toList = .ok overA := by
  have hparse : Expr.parse .shared ['$', 'a'] = .ok (.var ⟨.simple .shared "a", []⟩) :=
    Source.Term.parse_print (e := .var ⟨⟨⟨['a'], by decide⟩, []⟩, []⟩) (by decide)
  have hsolid : Text.Solid ['$', 'a'] := Source.Dotted.solid ⟨⟨['a'], by decide⟩, []⟩
  exact Source.loop_collection hsolid (by decide) (by decide) (some ⟨['k'], by decide⟩)
    ⟨['v'], by decide⟩ hparse

/-- Its body shows the loop variables, and overwrites them and the variable that is iterated. -/
def overwriting : Template :=
  ⟨#[.beginFor overA, .emit ⟨.simple .shared "k", []⟩, .emit ⟨.simple .shared "v", []⟩,
    .assign (.simple .shared "a") (.literal .null), .assign (.simple .shared "k") (.literal .null),
    .assign (.simple .shared "v") (.literal .null), .endFor],
    #[⟨6, none⟩, ⟨0, none⟩, ⟨0, none⟩, ⟨0, none⟩, ⟨0, none⟩, ⟨0, none⟩, ⟨0, none⟩], [], none, rfl⟩

theorem forEach_visits_overwritten :
    let env := (Engine.ofConfig Text.WordCase.speller .standard).env Files.Tree.empty.read
    let c := Value.list [.str "x", .str "y"]
    let s : RenderState := ⟨.flat [("a", c)] [], .ofUnit, [], none, []⟩
    let start : RenderState := { s with frame := s.frame.withCounter 0 0 }
    let run := range env (enter env 1) overwriting 7
    let entries := [(Value.int 0, Value.str "x"), (.int 1, .str "y")]
    (Arguments.loop .shared 0 "$k, $v in $a".toList = .ok overA ∧ s.context.Settled ∧
      outcome (eval env overA.collection) s = (.ok c, s) ∧ c.Sound ∧ c.isCollection = true) ∧
    outcome (env.filters.apply false "keys" c) [] = (.ok (.list [.int 0, .int 1]), []) ∧
    ∃ before, Series (overA.Begins env) (loopBody overwriting run 0) entries.zipIdx start "0x1y"
      before := by
  intro env c s start run entries
  have hs : s.context.Settled := .flat _ _
  have hc : outcome (eval env overA.collection) s = (.ok c, s) := by rfl
  have hsound : c.Sound := by
    refine .list (by decide) ?_
    simp only [List.forall_mem_cons, List.not_mem_nil, false_implies, implies_true, and_true]
    exact ⟨.str _, .str _⟩
  obtain ⟨hkeys, -, -, -, hvisits⟩ :=
    forEach_visits loop_overA hs hc hsound rfl Text.WordCase.speller false [] overwriting 1 7 0
  obtain ⟨k, -, text, before, hseries, hend⟩ := hvisits (by decide)
  refine ⟨⟨loop_overA, hs, hc, hsound, rfl⟩, hkeys, before, ?_⟩
  have hrendered : (outcome (forEach env overwriting run 0 overA) s).1.toOption = some "0x1y" := by
    decide +kernel
  rcases hend with ⟨rfl, hended⟩ | ⟨-, -, begun, e, after, -, -, hended⟩
  · rw [hended] at hrendered
    cases hrendered
    exact hseries
  · rw [hended] at hrendered
    cases hrendered

end Render

end BraceTemplate
