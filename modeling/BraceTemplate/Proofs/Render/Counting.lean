import BraceTemplate.Proofs.Render.Series

/-!
A range counts exactly: its bounds are read once, on entry, and its body is run for each value from
the first bound by the step up to the last one, whatever the body makes of the counter.
-/
namespace BraceTemplate

/-! The values of a counter. -/

section Values

variable {start step stop : Int}

/-- A value of a counter lies between its bounds. -/
theorem counter_le_stop (hs : 0 < step) {k : Nat}
    (hk : k < ((stop - start) / step + 1).toNat) : start ≤ start + k * step ∧
      start + k * step ≤ stop := by
  have hsteps : (k : Int) * step ≤ stop - start := Int.mul_le_of_le_ediv hs (by omega)
  have hpos : 0 ≤ (k : Int) * step := Int.mul_nonneg (by omega) (by omega)
  omega

theorem counter_fits (hs : 0 < step) (hstart : Decimal.fits start = true)
    (hstop : Decimal.fits stop = true) {k : Nat} (hk : k < ((stop - start) / step + 1).toNat) :
    Decimal.fits (start + k * step) = true := by
  have hbetween := counter_le_stop hs hk
  rw [Decimal.fits_iff] at hstart hstop ⊢
  omega

/-- Between bounds that are integers no value of a counter is cut off. -/
theorem counterValues_eq_map (hs : 0 < step) (hstart : Decimal.fits start = true)
    (hstop : Decimal.fits stop = true) : counterValues start step stop =
      (List.range ((stop - start) / step + 1).toNat).map fun (k : Nat) => start + k * step := by
  by_cases hle : start ≤ stop
  · obtain ⟨n, hn⟩ := Int.eq_ofNat_of_zero_le
      (show 0 ≤ (stop - start) / step from Int.ediv_nonneg (by omega) (by omega))
    have hcount : ((stop - start) / step + 1).toNat = n + 1 := by omega
    have hall : ∀ v ∈ (List.range n).map fun (k : Nat) => start + (k + 1) * step,
        Decimal.fits v = true := by
      intro v hv
      obtain ⟨k, hk, rfl⟩ := List.mem_map.1 hv
      have hk := List.mem_range.1 hk
      exact counter_fits hs hstart hstop (k := k + 1) (by omega)
    rw [counterValues_eq hle hn, List.takeWhile_eq_self_iff.2 hall, hcount,
      List.range_succ_eq_map, List.map_cons, List.map_map]
    simp [Function.comp_def]
  · have hneg : (stop - start) / step < 0 := Int.ediv_neg_of_neg_of_pos (by omega) hs
    rw [counterValues_of_lt (by omega), Int.toNat_of_nonpos (by omega)]
    rfl

end Values

namespace Render

variable {env : RenderEnv} {s : RenderState}

/-! The bounds of a range and its counter are single names. -/

theorem outcome_resolve_literal (env : RenderEnv) (s : RenderState) (mode : Mode) (name : String)
    (keys : List String) : ∃ v, outcome (resolve env ⟨.literal mode name keys, []⟩) s =
      (.ok v, s) := by
  unfold resolve
  rw [outcome_bind_ok outcome_get, outcome_logged, Var.resolve, read_literal]
  exact ⟨_, rfl⟩

/-- Reading a bound changes nothing. -/
theorem outcome_bound {mode : Mode} {text : Arguments.BoundText} {b : Bound}
    (h : Arguments.bound mode text = .ok b) (env : RenderEnv) (s : RenderState) :
    (outcome (bound env b) s).2 = s := by
  cases text with
  | name name =>
    cases h
    obtain ⟨v, hv⟩ := outcome_resolve_literal env s mode name []
    rw [bound, outcome_bind_ok (show outcome (resolve env ⟨.simple mode name, []⟩) s = _ from hv)]
    cases v.number? <;> rfl
  | number cs =>
    unfold Arguments.bound at h
    dsimp only at h
    split at h
    · cases h
      rfl
    · cases h

/-- A range counts with a name, and reading its bounds changes nothing. -/
theorem counting_plain {mode : Mode} {args : List Char} {c : Counting}
    (h : Arguments.counting mode args = .ok c) : (∃ name, c.counter = .simple mode name) ∧
      ∀ b ∈ [c.start, c.step, c.stop], ∀ env s, (outcome (bound env b) s).2 = s := by
  unfold Arguments.counting at h
  cases htexts : Arguments.counting? args with
  | none =>
    rw [htexts] at h
    cases h
  | some texts =>
    rw [htexts] at h
    obtain ⟨start, hstart, h⟩ := bind_eq_ok.1 h
    obtain ⟨step, hstep, h⟩ := bind_eq_ok.1 h
    obtain ⟨stop, hstop, h⟩ := bind_eq_ok.1 h
    have hstep : ∀ env s, (outcome (bound env step) s).2 = s := by
      cases hgiven : texts.step with
      | none =>
        rw [hgiven] at hstep
        cases hstep
        exact fun _ _ => rfl
      | some text =>
        rw [hgiven] at hstep
        exact outcome_bound hstep
    obtain rfl : c = ⟨.simple mode texts.counter, start, step, stop⟩ := by
      cases step with
      | var v =>
        cases h
        rfl
      | literal n =>
        dsimp only at h
        split at h
        · cases h
        · cases h
          rfl
    refine ⟨⟨_, rfl⟩, ?_⟩
    simp only [List.forall_mem_cons, List.not_mem_nil, false_implies, implies_true, and_true]
    exact ⟨outcome_bound hstart, hstep, outcome_bound hstop⟩

/-! Passes. -/

/-- A pass starts: the counter takes its value, and from then on reads it. -/
structure Begins (env : RenderEnv) (counter : Path) (i : Int) (s begun : RenderState) : Prop where
  assigned : outcome (assign env counter (.int i)) s = (.ok (), begun)
  reads : reading env counter begun = .ok (.int i)

/-- The passes of a body for the values of a counter in order, with the texts one behind the other.
Each starts in the state that the one before it left, whatever its counter is there. -/
inductive Passes (env : RenderEnv) (counter : Path) (body : Render String) :
    List Int → RenderState → String → RenderState → Prop
  | none (s : RenderState) : Passes env counter body [] s "" s
  | pass {i : Int} {is : List Int} {s begun between after : RenderState} {text rest : String} :
    Begins env counter i s begun → outcome body begun = (.ok text, between) →
    Passes env counter body is between rest after →
    Passes env counter body (i :: is) s (text ++ rest) after

theorem Series.passes {counter : Path} {body : Render String} {values : List Int}
    {after : RenderState} {text : String}
    (h : Series (Begins env counter) body values s text after) :
    Passes env counter body values s text after := by
  induction h with
  | none s => exact .none s
  | pass hbegins hpass _ ih => exact .pass hbegins hpass ih

/-- One pass: the counter takes its value, and the body is run. -/
def pass (env : RenderEnv) (counter : Path) (body : Render String) (i : Int) : Render String := do
  assign env counter (.int i)
  body

/-- A body that is run for the values of a counter passes through them in order, up to the first
pass that fails. -/
theorem joined_pass {body : Render String} (hbody : OnlyWrites body) (mode : Mode)
    (name : String) (values : List Int) (hs : s.context.Settled) :
    let counter := Path.simple mode name
    ∃ k text before, Passes env counter body (values.take k) s text before ∧
      (k = values.length ∧ outcome (joined (pass env counter body) values) s = (.ok text, before) ∨
        ∃ i, values[k]? = some i ∧ ∃ begun e after, Begins env counter i before begun ∧
          outcome body begun = (.error e, after) ∧
          outcome (joined (pass env counter body) values) s = (.error e, after)) := by
  intro counter
  have hstart : ∀ i (s : RenderState), s.context.Settled → ∃ begun, Begins env counter i s begun ∧
      outcome (assign env counter (.int i)) s = (.ok (), begun) ∧ begun.context.Settled := by
    intro i s hs
    obtain ⟨begun, hassigned, hsettled, hreads, -⟩ :=
      exists_assign_simple env hs mode name (.int i)
    exact ⟨begun, ⟨hassigned, hreads⟩, hassigned, hsettled⟩
  have hpass : ∀ i, pass env counter body i = assign env counter (.int i) >>= fun _ => body :=
    fun _ => rfl
  obtain ⟨k, text, before, hseries, hend⟩ := joined_series hpass hbody hstart values hs
  exact ⟨k, text, before, hseries.passes, hend⟩

/-- The bounds of a range are read on entry. A step that is not positive fails before anything is
written; with another one the body is run for the values from the first bound by the step, as many as
there are up to the last bound, all of them 64-bit integers. Each pass starts with the counter at its
value, whatever the passes before it made of the counter and of the variables that the bounds came
from; and only a pass that fails ends the loop early. -/
theorem range_counts {mode : Mode} {args : List Char} {c : Counting}
    (hc : Arguments.counting mode args = .ok c) (hs : s.context.Settled) {start step stop : Int}
    (hstart : (outcome (bound env c.start) s).1 = .ok start)
    (hstep : (outcome (bound env c.step) s).1 = .ok step)
    (hstop : (outcome (bound env c.stop) s).1 = .ok stop)
    (hfirst : Decimal.fits start = true) (hlast : Decimal.fits stop = true)
    (t : Template) (room fuel index : Nat) :
    let run := range env (enter env room) t fuel
    let body := run (index + 1) (t.link index).next
    let n := ((stop - start) / step + 1).toNat
    let value (k : Nat) : Int := start + k * step
    (step ≤ 0 → outcome (counting env t run index c) s =
      (.error (.execution (.nonPositiveStep step)), s)) ∧
    (0 < step → (∀ k < n, value k ≤ stop ∧ Decimal.fits (value k) = true) ∧
      ∃ k ≤ n, ∃ text before,
        Passes env c.counter body ((List.range k).map value) s text before ∧
        (k = n ∧ outcome (counting env t run index c) s = (.ok text, before) ∨
          k < n ∧ ∃ begun e after, Begins env c.counter (value k) before begun ∧
            outcome body begun = (.error e, after) ∧
            outcome (counting env t run index c) s = (.error e, after))) := by
  intro run body n value
  obtain ⟨⟨name, hname⟩, hplain⟩ := counting_plain hc
  have hbounds : ∀ {b : Bound} {v : Int}, b ∈ [c.start, c.step, c.stop] →
      (outcome (bound env b) s).1 = .ok v → outcome (bound env b) s = (.ok v, s) :=
    fun hb hv => Prod.ext hv (hplain _ hb env s)
  have hloop : outcome (counting env t run index c) s = outcome (if step ≤ 0 then
      fault (.nonPositiveStep step)
      else joined (pass env c.counter body) (counterValues start step stop)) s := by
    rw [counting_eq rfl, Counting.render, outcome_bind_ok (hbounds (by simp) hstart),
      outcome_bind_ok (hbounds (by simp) hstep), outcome_bind_ok (hbounds (by simp) hstop)]
    rfl
  constructor
  · intro hneg
    rw [hloop, if_pos hneg]
    rfl
  · intro hpos
    refine ⟨fun k hk => ⟨(counter_le_stop hpos hk).2, counter_fits hpos hfirst hlast hk⟩, ?_⟩
    have hbody : OnlyWrites body := OnlyWrites.range (OnlyWrites.enter env room) t fuel _ _
    rw [hloop, if_neg (by omega), counterValues_eq_map hpos hfirst hlast, hname]
    obtain ⟨k, text, before, hpasses, hend⟩ :=
      joined_pass hbody mode name ((List.range n).map value) hs
    rw [List.length_map, List.length_range] at hend
    rw [← List.map_take, List.take_range] at hpasses
    rcases hend with ⟨rfl, hloop⟩ | ⟨i, hi, begun, e, after, hbegins, hfails, hloop⟩
    · rw [Nat.min_self] at hpasses
      exact ⟨n, Nat.le_refl n, text, before, hpasses, .inl ⟨rfl, hloop⟩⟩
    · rw [List.getElem?_map, Option.map_eq_some_iff] at hi
      obtain ⟨j, hj, rfl⟩ := hi
      obtain ⟨hk, rfl⟩ := List.getElem?_eq_some_iff.1 hj
      rw [List.length_range] at hk
      rw [Nat.min_eq_left (Nat.le_of_lt hk)] at hpasses
      rw [List.getElem_range] at hbegins
      exact ⟨k, Nat.le_of_lt hk, text, before, hpasses,
        .inr ⟨hk, begun, e, after, hbegins, hfails, hloop⟩⟩

/-- A range up to the greatest integer, by a step that would go beyond it. -/
def toGreatest : Counting :=
  ⟨.simple .shared "i", .literal (Decimal.maxInt64 - 4), .literal 3, .var ⟨.simple .shared "b", []⟩⟩

/-- Its body sets the counter and the variable that the last bound comes from to zero. -/
def resetting : Template :=
  ⟨#[.beginRange toGreatest, .literal "x", .assign (.simple .shared "i") (.literal (.int 0)),
    .assign (.simple .shared "b") (.literal (.int 0)), .endRange],
    #[⟨4, none⟩, ⟨0, none⟩, ⟨0, none⟩, ⟨0, none⟩, ⟨0, none⟩], [], none, rfl⟩

theorem range_counts_to_greatest :
    let env := (Engine.ofConfig Text.WordCase.speller .standard).env Files.Tree.empty.read
    let last := Decimal.maxInt64
    let s : RenderState := ⟨.flat [("b", .int last)] [], .ofUnit, [], none, []⟩
    let run := range env (enter env 1) resetting 5
    Arguments.counting .shared "$i = 9223372036854775803.3.$b".toList = .ok toGreatest ∧
      s.context.Settled ∧ (outcome (bound env toGreatest.start) s).1 = .ok (last - 4) ∧
      (outcome (bound env toGreatest.step) s).1 = .ok 3 ∧
      (outcome (bound env toGreatest.stop) s).1 = .ok last ∧
      Decimal.fits (last - 4) = true ∧ Decimal.fits last = true ∧
      ∃ after, outcome (counting env resetting run 0 toGreatest) s = (.ok "xx", after) ∧
        Passes env toGreatest.counter (run 1 4) [last - 4, last - 1] s "xx" after := by
  intro env last s run
  have hc : Arguments.counting .shared "$i = 9223372036854775803.3.$b".toList =
      .ok toGreatest := by rfl
  have hs : s.context.Settled := .flat _ _
  have hstart : (outcome (bound env toGreatest.start) s).1 = .ok (last - 4) := rfl
  have hstep : (outcome (bound env toGreatest.step) s).1 = .ok 3 := rfl
  have hstop : (outcome (bound env toGreatest.stop) s).1 = .ok last := rfl
  have hfirst : Decimal.fits (last - 4) = true := by decide
  have hlast : Decimal.fits last = true := by decide
  refine ⟨hc, hs, hstart, hstep, hstop, hfirst, hlast, ?_⟩
  have hloop : (outcome (counting env resetting run 0 toGreatest) s).1.toOption = some "xx" := by
    decide +kernel
  have hcount : ((last - (last - 4)) / 3 + 1).toNat = 2 := by decide
  obtain ⟨-, hpasses⟩ := range_counts hc hs hstart hstep hstop hfirst hlast resetting 1 5 0
  obtain ⟨-, k, -, text, before, hpasses, hall | hfails⟩ := hpasses (by decide)
  · obtain ⟨hk, hended⟩ := hall
    rw [hk, hcount] at hpasses
    rw [hended] at hloop
    cases hloop
    exact ⟨before, hended, hpasses⟩
  · obtain ⟨-, -, e, after, -, -, hended⟩ := hfails
    rw [hended] at hloop
    cases hloop

end Render
end BraceTemplate
