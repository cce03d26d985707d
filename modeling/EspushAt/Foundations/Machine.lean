import EspushAt.Foundations.Transition

/-!
# Refinement of an abstract machine

A specification of what a system is for is often a machine far smaller than the system:
it answers every input with a next state and some outputs. The system refines it when
each of its steps, read as an input, changes the abstract state and makes the outputs as
the machine does; then every run does. Erasing steps that lead back to the state they
started in leaves the rest of a run as it was, and a step can be replaced by other events
that lead to the same state.
-/

namespace Transition

/-- A machine that answers an input with a next state and a list of outputs. -/
structure Machine (τ ι υ : Type*) where
  next : τ → ι → τ
  out : τ → ι → List υ

variable {τ ι υ : Type*}

namespace Machine

variable (M : Machine τ ι υ)

/-- The state after some inputs. -/
def after (t : τ) (is : List ι) : τ := is.foldl M.next t

/-- The machine with every output spelled out as others. -/
def render {υ' : Type*} (g : υ → List υ') : Machine τ ι υ' where
  next := M.next
  out t i := (M.out t i).flatMap g

/-- The outputs over some inputs. -/
def outputs : τ → List ι → List υ
  | _, [] => []
  | t, i :: is => M.out t i ++ outputs (M.next t i) is

variable {M} {t : τ} {i : ι} {is js : List ι}

@[simp] theorem after_nil : M.after t [] = t := rfl

@[simp] theorem after_cons : M.after t (i :: is) = M.after (M.next t i) is := rfl

@[simp] theorem outputs_nil : M.outputs t [] = [] := rfl

@[simp] theorem outputs_cons :
    M.outputs t (i :: is) = M.out t i ++ M.outputs (M.next t i) is := rfl

theorem after_append : M.after t (is ++ js) = M.after (M.after t is) js := List.foldl_append

theorem outputs_append :
    M.outputs t (is ++ js) = M.outputs t is ++ M.outputs (M.after t is) js := by
  induction is generalizing t with
  | nil => rfl
  | cons i is ih =>
      rw [List.cons_append, outputs_cons, outputs_cons, ih, List.append_assoc]
      rfl

theorem outputs_render {υ' : Type*} (g : υ → List υ') :
    (M.render g).outputs t is = (M.outputs t is).flatMap g := by
  induction is generalizing t with
  | nil => rfl
  | cons i is ih =>
      rw [outputs_cons, outputs_cons, List.flatMap_append]
      exact congrArg _ ih

end Machine

variable {σ ε ω : Type*} {step : σ → ε → Option ω} {next : ω → σ} {s : σ} {es : List ε}
variable {steps : List (Record σ ε ω)}

/-- The steps of a run have its events, in order. -/
theorem map_event_of_trace (h : trace step next s es = some steps) :
    steps.map Record.event = es := by
  induction es generalizing s steps with
  | nil =>
      obtain rfl : [] = steps := by simpa using h
      rfl
  | cons e es ih =>
      obtain ⟨o, rest, -, hrest, rfl⟩ := trace_cons_inv h
      rw [List.map_cons, ih hrest]

/-- Refinement rule: when every step of a run, read as an input, does what the machine
does, the run ends in the machine's state and makes its outputs. -/
theorem refines_of_trace (M : Machine τ ι υ) (abs : σ → τ) (input : Record σ ε ω → ι)
    (output : Record σ ε ω → List υ)
    (h : trace step next s es = some steps)
    (refines : ∀ r ∈ steps, step r.pre r.event = some r.result →
      abs (next r.result) = M.next (abs r.pre) (input r) ∧
        output r = M.out (abs r.pre) (input r)) :
    abs (final next s steps) = M.after (abs s) (steps.map input) ∧
      steps.flatMap output = M.outputs (abs s) (steps.map input) := by
  induction es generalizing s steps with
  | nil =>
      obtain rfl : [] = steps := by simpa using h
      exact ⟨rfl, rfl⟩
  | cons e es ih =>
      obtain ⟨o, rest, ho, hrest, rfl⟩ := trace_cons_inv h
      obtain ⟨hnext, hout⟩ := refines ⟨s, e, o⟩ List.mem_cons_self ho
      obtain ⟨hfinal, houtputs⟩ := ih hrest fun r hr => refines r (List.mem_cons_of_mem _ hr)
      rw [hnext] at hfinal houtputs
      refine ⟨hfinal, ?_⟩
      rw [List.flatMap_cons, List.map_cons, Machine.outputs_cons, hout, houtputs]

/-- What is left of a list when some of the elements that may go are dropped from it, each
in its own place. -/
inductive Erased {α : Type*} (may : α → Prop) : List α → List α → Prop where
  | nil : Erased may [] []
  | keep (a : α) {as bs : List α} : Erased may as bs → Erased may (a :: as) (a :: bs)
  | drop {a : α} {as bs : List α} (h : may a) : Erased may as bs → Erased may (a :: as) bs

/-- Erasure rule: steps that lead back to the state they started in can be left out of a
run, any choice of them; the others stay as they were, and the run ends in the same state. -/
theorem erased_of_trace {quiet : ε → Prop}
    (back : ∀ s e o, quiet e → step s e = some o → next o = s) {es' : List ε}
    (herased : Erased quiet es es') (h : trace step next s es = some steps) :
    ∃ steps', trace step next s es' = some steps' ∧
      Erased (fun r => quiet r.event) steps steps' ∧
      final next s steps' = final next s steps := by
  induction herased generalizing s steps with
  | nil =>
      obtain rfl : [] = steps := by simpa using h
      exact ⟨[], rfl, .nil, rfl⟩
  | keep e _ ih =>
      obtain ⟨o, rest, ho, hrest, rfl⟩ := trace_cons_inv h
      obtain ⟨steps', htrace, hsteps, hfinal⟩ := ih hrest
      exact ⟨⟨s, e, o⟩ :: steps', trace_cons ho htrace, .keep _ hsteps, hfinal⟩
  | @drop e es es' hquiet _ ih =>
      obtain ⟨o, rest, ho, hrest, rfl⟩ := trace_cons_inv h
      have hback : next o = s := back s e o hquiet ho
      rw [hback] at hrest
      obtain ⟨steps', htrace, hsteps, hfinal⟩ := ih hrest
      refine ⟨steps', htrace, .drop (a := ⟨s, e, o⟩) hquiet hsteps, ?_⟩
      rw [hfinal, final_cons, hback]

/-- Replacement rule: when each step is matched by events that lead from the state it met
to the one it leaves and make the same outputs, the run over these events ends in the same
state and makes the same outputs. -/
theorem replaced_of_trace (rel : Record σ ε ω → List ε → Prop) (out : Record σ ε ω → List υ)
    (simulates : ∀ r es, rel r es → step r.pre r.event = some r.result →
      ∃ rs, trace step next r.pre es = some rs ∧ final next r.pre rs = next r.result ∧
        rs.flatMap out = out r)
    {ess : List (List ε)} (hrel : List.Forall₂ rel steps ess)
    (h : trace step next s es = some steps) :
    ∃ steps', trace step next s ess.flatten = some steps' ∧
      final next s steps' = final next s steps ∧ steps'.flatMap out = steps.flatMap out := by
  induction hrel generalizing s es with
  | nil => exact ⟨[], rfl, rfl, rfl⟩
  | @cons r fs steps ess hfirst _ ih =>
      cases es with
      | nil => simp at h
      | cons e es =>
          obtain ⟨o, rest, ho, hrest, heq⟩ := trace_cons_inv h
          obtain ⟨rfl, rfl⟩ := List.cons.inj heq
          obtain ⟨rs, hrs, hafter, hout⟩ := simulates _ fs hfirst ho
          obtain ⟨steps', htrace, hfinal, houts⟩ := ih hrest
          rw [← hafter] at htrace hfinal
          refine ⟨rs ++ steps', trace_append hrs htrace, ?_, ?_⟩
          · rw [final_append, hfinal, final_cons, ← hafter]
          · rw [List.flatMap_append, hout, houts, List.flatMap_cons]

/-- Two-run rule: when related events have the same effect and alike results in every
state, runs over related events pass through the same states with alike results. -/
theorem forall₂_of_trace (rel : ε → ε → Prop) (alike : ω → ω → Prop)
    (agree : ∀ s e e' o, rel e e' → step s e = some o →
      ∃ o', step s e' = some o' ∧ next o' = next o ∧ alike o o')
    {es' : List ε} (hrel : List.Forall₂ rel es es') (h : trace step next s es = some steps) :
    ∃ steps', trace step next s es' = some steps' ∧
      final next s steps' = final next s steps ∧
      List.Forall₂ (fun r r' => r.pre = r'.pre ∧ alike r.result r'.result) steps steps' := by
  induction hrel generalizing s steps with
  | nil =>
      obtain rfl : [] = steps := by simpa using h
      exact ⟨[], rfl, rfl, .nil⟩
  | @cons e e' es es' hfirst _ ih =>
      obtain ⟨o, rest, ho, hrest, rfl⟩ := trace_cons_inv h
      obtain ⟨o', ho', hnext, halike⟩ := agree s e e' o hfirst ho
      rw [← hnext] at hrest
      obtain ⟨rest', hrest', hfinal, hall⟩ := ih hrest
      refine ⟨⟨s, e', o'⟩ :: rest', trace_cons ho' hrest', ?_, .cons ⟨rfl, halike⟩ hall⟩
      rw [final_cons, final_cons, hfinal, hnext]

end Transition
