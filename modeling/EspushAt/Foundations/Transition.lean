import Mathlib.Data.List.Basic

/-!
# Runs of a deterministic event-driven system

A system answers each event with a result, or fails; the result determines the next
state. `trace` runs a list of events and keeps, for each, the state it met and its
result, so a property of a run can talk about every single step. A run can be cut
between any two steps, and the invariant rule is proved once, by induction on the
events.
-/

namespace Transition

variable {σ ε ω : Type*}

/-- One step of a run: the state it started in, its event and its result. -/
structure Record (σ ε ω : Type*) where
  pre : σ
  event : ε
  result : ω

/-- The steps of a run, in order; `none` when some step fails. -/
def trace (step : σ → ε → Option ω) (next : ω → σ) : σ → List ε → Option (List (Record σ ε ω))
  | _, [] => some []
  | s, e :: es =>
      match step s e with
      | none => none
      | some o => (trace step next (next o) es).map (⟨s, e, o⟩ :: ·)

/-- The state after the steps of a run that started in `s`. -/
def final (next : ω → σ) (s : σ) (steps : List (Record σ ε ω)) : σ :=
  steps.foldl (fun _ r => next r.result) s

variable {step : σ → ε → Option ω} {next : ω → σ} {s : σ} {es : List ε}
variable {steps : List (Record σ ε ω)}

@[simp] theorem trace_nil : trace step next s [] = some [] := rfl

theorem trace_cons_of_step {e : ε} {o : ω} (h : step s e = some o) :
    trace step next s (e :: es) = (trace step next (next o) es).map (⟨s, e, o⟩ :: ·) := by
  simp [trace, h]

/-- A step and a run from where it leads make a longer run. -/
theorem trace_cons {e : ε} {o : ω} (h : step s e = some o)
    (hrest : trace step next (next o) es = some steps) :
    trace step next s (e :: es) = some (⟨s, e, o⟩ :: steps) := by
  rw [trace_cons_of_step h, hrest]
  rfl

@[simp] theorem final_nil : final next s ([] : List (Record σ ε ω)) = s := rfl

@[simp] theorem final_cons (r : Record σ ε ω) :
    final next s (r :: steps) = final next (next r.result) steps := rfl

/-- The first step of a run and the run that follows it. -/
theorem trace_cons_inv {e : ε} (h : trace step next s (e :: es) = some steps) :
    ∃ o rest, step s e = some o ∧ trace step next (next o) es = some rest ∧
      steps = ⟨s, e, o⟩ :: rest := by
  cases ho : step s e with
  | none => simp [trace, ho] at h
  | some o =>
      rw [trace_cons_of_step ho] at h
      obtain ⟨rest, hrest, rfl⟩ := Option.map_eq_some_iff.mp h
      exact ⟨o, rest, rfl, hrest, rfl⟩

/-- A system that answers every event has a run over every list of events. -/
theorem exists_trace (total : ∀ s e, ∃ o, step s e = some o) (s : σ) (es : List ε) :
    ∃ steps, trace step next s es = some steps := by
  induction es generalizing s with
  | nil => exact ⟨[], rfl⟩
  | cons e es ih =>
      obtain ⟨o, ho⟩ := total s e
      obtain ⟨rest, hrest⟩ := ih (next o)
      exact ⟨⟨s, e, o⟩ :: rest, trace_cons ho hrest⟩

theorem final_append (front back : List (Record σ ε ω)) :
    final next s (front ++ back) = final next (final next s front) back := List.foldl_append

/-- Two runs, the second from where the first leads, make one. -/
theorem trace_append {fs : List ε} {front back : List (Record σ ε ω)}
    (h : trace step next s es = some front)
    (hback : trace step next (final next s front) fs = some back) :
    trace step next s (es ++ fs) = some (front ++ back) := by
  induction es generalizing s front with
  | nil =>
      obtain rfl : [] = front := by simpa using h
      exact hback
  | cons e es ih =>
      obtain ⟨o, rest, ho, hrest, rfl⟩ := trace_cons_inv h
      exact trace_cons ho (ih hrest hback)

/-- A run can be cut after any number of steps. -/
theorem trace_append_inv {front back : List (Record σ ε ω)}
    (h : trace step next s es = some (front ++ back)) :
    ∃ fs gs, es = fs ++ gs ∧ trace step next s fs = some front ∧
      trace step next (final next s front) gs = some back := by
  induction front generalizing s es with
  | nil => exact ⟨[], es, rfl, rfl, h⟩
  | cons r front ih =>
      cases es with
      | nil => simp at h
      | cons e es =>
          obtain ⟨o, rest, ho, hrest, heq⟩ := trace_cons_inv h
          obtain ⟨rfl, rfl⟩ := List.cons.inj heq
          obtain ⟨fs, gs, rfl, hfront, hback⟩ := ih hrest
          exact ⟨e :: fs, gs, rfl, trace_cons ho hfront, hback⟩

/-- Every step of a run has one of its events, and the result the system answers. -/
theorem step_of_mem {r : Record σ ε ω} (h : trace step next s es = some steps) (hr : r ∈ steps) :
    r.event ∈ es ∧ step r.pre r.event = some r.result := by
  induction es generalizing s steps with
  | nil =>
      obtain rfl : [] = steps := by simpa using h
      simp at hr
  | cons e es ih =>
      obtain ⟨o, rest, ho, hrest, rfl⟩ := trace_cons_inv h
      rcases List.mem_cons.mp hr with rfl | hr
      · exact ⟨List.mem_cons_self, ho⟩
      · obtain ⟨hmem, hstep⟩ := ih hrest hr
        exact ⟨List.mem_cons_of_mem _ hmem, hstep⟩

/-- The state a step starts in is the one the steps before it lead to. -/
theorem pre_eq_final {front back : List (Record σ ε ω)} {r : Record σ ε ω}
    (h : trace step next s es = some (front ++ r :: back)) : r.pre = final next s front := by
  obtain ⟨_, gs, _, _, hback⟩ := trace_append_inv h
  cases gs with
  | nil => simp at hback
  | cons e gs =>
      obtain ⟨o, rest, _, _, heq⟩ := trace_cons_inv hback
      obtain ⟨rfl, _⟩ := List.cons.inj heq
      rfl

/-- Invariant rule: an invariant that every step with the property `good` keeps holds
in every state of a run of such steps. -/
theorem invariant_of_trace (Inv : σ → Prop) (good : Record σ ε ω → Prop)
    (preserved : ∀ r, Inv r.pre → step r.pre r.event = some r.result → good r →
      Inv (next r.result))
    (h : trace step next s es = some steps) (hgood : ∀ r ∈ steps, good r) (hs : Inv s) :
    Inv (final next s steps) ∧ ∀ r ∈ steps, Inv r.pre := by
  induction es generalizing s steps with
  | nil =>
      obtain rfl : [] = steps := by simpa using h
      exact ⟨hs, by simp⟩
  | cons e es ih =>
      obtain ⟨o, rest, ho, hrest, rfl⟩ := trace_cons_inv h
      have hfirst : good ⟨s, e, o⟩ := hgood _ (by simp)
      have hnext : Inv (next o) := preserved ⟨s, e, o⟩ hs ho hfirst
      obtain ⟨hfinal, hpres⟩ := ih hrest (fun r hr => hgood r (by simp [hr])) hnext
      refine ⟨hfinal, ?_⟩
      intro r hr
      rcases List.mem_cons.mp hr with rfl | hr
      · exact hs
      · exact hpres r hr

end Transition
