import Mathlib.Logic.Basic

/-!
# Refinement of a system with choices

A specification `Spec` answers an input by a function of its state, the input and a choice, and says
which choices are open to it. An implementation takes deterministic steps; it refines the
specification along an abstraction of its states if each of its steps is one the specification takes
for some open choice.

* `Spec.Runs`: the answers and states of a run of a specification.
* `Spec.runs_of_steps`: step by step refinement gives refinement of runs, for an invariant that may
  speak of the inputs to come.
-/

namespace SharedNode.Effect

variable {Input Answer Choice S σ : Type}

structure Spec (Input Answer Choice S : Type) where
  /-- The choices open in a state. -/
  allows : S → Input → Choice → Prop
  next : S → Input → Choice → Answer × S

/-- The runs of a specification, with the state after each answer. -/
inductive Spec.Runs (A : Spec Input Answer Choice S) : S → List Input → List (Answer × S) → Prop
  | nil {s : S} : A.Runs s [] []
  | cons {s : S} {i : Input} {rest : List Input} {out : List (Answer × S)} (c : Choice)
      (hc : A.allows s i c) (hrest : A.Runs (A.next s i c).2 rest out) :
      A.Runs s (i :: rest) (A.next s i c :: out)

/-- The answers and states of a run of an implementation. -/
def outputs (step : σ → Input → Answer × σ) : σ → List Input → List (Answer × σ)
  | _, [] => []
  | s, i :: rest => step s i :: outputs step (step s i).2 rest

/-- The state after a run of an implementation. -/
def after (step : σ → Input → Answer × σ) (s : σ) (inputs : List Input) : σ :=
  inputs.foldl (fun s i => (step s i).2) s

@[simp] theorem after_nil (step : σ → Input → Answer × σ) (s : σ) : after step s [] = s := rfl

@[simp] theorem after_cons (step : σ → Input → Answer × σ) (s : σ) (i : Input)
    (rest : List Input) : after step s (i :: rest) = after step (step s i).2 rest := rfl

theorem outputs_append (step : σ → Input → Answer × σ) (s : σ) (inputs more : List Input) :
    outputs step s (inputs ++ more) =
      outputs step s inputs ++ outputs step (after step s inputs) more := by
  induction inputs generalizing s with
  | nil => rfl
  | cons i rest ih => exact congrArg (step s i :: ·) (ih (step s i).2)

theorem after_append (step : σ → Input → Answer × σ) (s : σ) (inputs more : List Input) :
    after step s (inputs ++ more) = after step (after step s inputs) more := List.foldl_append

theorem getLast?_outputs (step : σ → Input → Answer × σ) (s : σ) (inputs : List Input) (i : Input) :
    (outputs step s (inputs ++ [i])).getLast? = some (step (after step s inputs) i) := by
  rw [outputs_append]
  exact List.getLast?_concat

/-- **Refinement of runs**, from that of steps. -/
theorem Spec.runs_of_steps {A : Spec Input Answer Choice S} {step : σ → Input → Answer × σ}
    {abs : σ → S} {I : List Input → σ → Prop}
    (hstep : ∀ s i rest, I (i :: rest) s → I rest (step s i).2 ∧
      ∃ c, A.allows (abs s) i c ∧ A.next (abs s) i c = ((step s i).1, abs (step s i).2)) :
    ∀ inputs s, I inputs s →
      A.Runs (abs s) inputs ((outputs step s inputs).map fun o => (o.1, abs o.2)) := by
  intro inputs
  induction inputs with
  | nil => exact fun _ _ => .nil
  | cons i rest ih =>
    intro s hs
    obtain ⟨hs', c, hc, hnext⟩ := hstep s i rest hs
    have hrest := ih _ hs'
    rw [outputs, List.map_cons, ← hnext]
    refine .cons c hc ?_
    rw [hnext]
    exact hrest

end SharedNode.Effect
