import NestedRead.Proofs.Outcome
import NestedRead.Query.Error

/-!
# Ways to fail

Which errors a computation can end in. A composed computation fails only in the ways of its parts,
so one statement about each function is enough, and the errors that a request can be answered with
are read off the functions that answer it. `CompileError.InSelection` and `CompileError.InClause`
are the two kinds of errors that the passes over a request have.
-/

set_option autoImplicit false

namespace NestedRead

variable {ω ω' ε α β : Type} {kind kind' : ε → Prop}

/-! ## Kinds of errors -/

/-- Every error that the outcome can be is of this kind. -/
def Outcome.FailsOnly (kind : ε → Prop) (x : Except ε α) : Prop := ∀ e, x = .error e → kind e

namespace Outcome.FailsOnly

theorem ok (a : α) : FailsOnly kind (.ok a : Except ε α) := by
  intro e h
  cases h

theorem error {e : ε} (h : kind e) : FailsOnly kind (.error e : Except ε α) := by
  intro e' he
  cases he
  exact h

theorem mono {x : Except ε α} (hx : FailsOnly kind x) (h : ∀ e, kind e → kind' e) :
    FailsOnly kind' x := by
  intro e he
  exact h e (hx e he)

/-- The second computation fails in its own ways, and only after the first has succeeded. -/
theorem bind {x : Except ε α} {f : α → Except ε β} (hx : FailsOnly kind x)
    (hf : ∀ a, x = .ok a → FailsOnly kind (f a)) : FailsOnly kind (x >>= f) := by
  intro e h
  rcases Outcome.bind_eq_error_iff.mp h with h | ⟨a, ha, h⟩
  · exact hx e h
  · exact hf a ha e h

/-- What is done with a result does not fail. -/
theorem bind_pure {x : Except ε α} {f : α → β} (hx : FailsOnly kind x) :
    FailsOnly kind (x >>= fun a => pure (f a)) :=
  hx.bind fun a _ => ok (f a)

theorem map {x : Except ε α} {f : α → β} (hx : FailsOnly kind x) : FailsOnly kind (x.map f) := by
  intro e h
  cases x with
  | ok a => cases h
  | error e' => cases h; exact hx e rfl

end Outcome.FailsOnly

/-- Every error that the computation can end in is of this kind. -/
def Traced.FailsOnly (kind : ε → Prop) (x : Traced ω ε α) : Prop :=
  Outcome.FailsOnly kind x.outcome

namespace Traced.FailsOnly

theorem pure (a : α) : FailsOnly kind (Pure.pure a : Traced ω ε α) := Outcome.FailsOnly.ok a

theorem emitAll (items : List ω) : FailsOnly kind (Traced.emitAll items : Traced ω ε Unit) :=
  Outcome.FailsOnly.ok ()

theorem fail {e : ε} (h : kind e) : FailsOnly kind (Traced.fail e : Traced ω ε α) :=
  Outcome.FailsOnly.error h

theorem mono {x : Traced ω ε α} (hx : FailsOnly kind x) (h : ∀ e, kind e → kind' e) :
    FailsOnly kind' x :=
  Outcome.FailsOnly.mono hx h

theorem bind {x : Traced ω ε α} {f : α → Traced ω ε β} (hx : FailsOnly kind x)
    (hf : ∀ a, x.outcome = .ok a → FailsOnly kind (f a)) : FailsOnly kind (x >>= f) := by
  intro e h
  rw [Traced.bind_eq, Traced.bind] at h
  split at h
  · rename_i a ha
    exact hf a ha e h
  · rename_i e' he
    cases h
    exact hx e he

theorem ofExcept_bind {x : Except ε α} {f : α → Traced ω ε β} (hx : Outcome.FailsOnly kind x)
    (hf : ∀ a, x = .ok a → FailsOnly kind (f a)) : FailsOnly kind (Traced.ofExcept x >>= f) :=
  bind hx hf

/-- What is emitted on the way does not fail. -/
theorem emit_bind {item : ω} {f : Unit → Traced ω ε β} (hf : FailsOnly kind (f ())) :
    FailsOnly kind (Traced.emit item >>= f) :=
  bind (emitAll [item]) fun () _ => hf

theorem emitAll_bind {items : List ω} {f : Unit → Traced ω ε β} (hf : FailsOnly kind (f ())) :
    FailsOnly kind (Traced.emitAll items >>= f) :=
  bind (emitAll items) fun () _ => hf

theorem bind_pure {x : Traced ω ε α} {f : α → β} (hx : FailsOnly kind x) :
    FailsOnly kind (x >>= fun a => Pure.pure (f a)) :=
  hx.bind fun a _ => pure (f a)

/-- A step that is taken for several items fails in the ways in which it fails on one of them. -/
theorem each {step : α → Traced ω ε β} {items : List α}
    (h : ∀ a ∈ items, FailsOnly kind (step a)) : FailsOnly kind (Traced.each step items) := by
  induction items with
  | nil => exact pure []
  | cons a rest ih =>
    rw [Traced.each]
    apply (h a List.mem_cons_self).bind
    intro b _
    apply FailsOnly.bind_pure
    exact ih fun c hc => h c (List.mem_cons_of_mem _ hc)

end Traced.FailsOnly

/-! ## The errors of a request -/

namespace CompileError

/-- The errors of a selection as it is written: of its arguments, and of selections that do not go
together. -/
def InSelection : CompileError → Prop
  | .malformedSelection _ | .malformedFilter _ | .invalidJoinType _ => True
  | _ => False

/-- The errors of a clause of the statement: of names, operators, operands and words. That an entity
or the target of a relation is not known is none of them, nor is a selection that cannot be read.
-/
def InClause : CompileError → Prop
  | .unknownEntity _ | .unknownTarget .. | .malformedSelection _ => False
  | _ => True

end CompileError
end NestedRead
