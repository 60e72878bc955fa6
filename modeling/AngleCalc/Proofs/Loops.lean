/-!
# Loops

A loop repeats its body for as long as a condition on its state holds, and what the body keeps
is kept by the whole loop. That there is a state in which a loop ends is part of the relation.
-/

namespace AngleCalc

/-- From the first state to the second one `body` is repeated for as long as `more` holds, and
then the loop ends. -/
inductive Loops {state : Type} (more : state -> Prop) (body : state -> state) :
    state -> state -> Prop where
  | stop {s : state} (h : ¬ more s) : Loops more body s s
  | step {s t : state} (h : more s) (rest : Loops more body (body s) t) : Loops more body s t

/-- What `body` keeps holds at the end of a loop, where `more` does not hold. -/
theorem Loops.keeps {state : Type} {more : state -> Prop} {body : state -> state} {s t : state}
    (h : Loops more body s t) (kept : state -> Prop)
    (hbody : forall s, more s -> kept s -> kept (body s)) (hs : kept s) : kept t ∧ ¬ more t := by
  induction h with
  | stop hstop => exact ⟨hs, hstop⟩
  | step hmore _ ih => exact ih (hbody _ hmore hs)

end AngleCalc
