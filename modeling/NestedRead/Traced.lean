/-!
# Computations that leave a trail

`Traced ω ε α` is the outcome of a computation together with what it emitted on the way. What
was emitted before a failure is kept, so a reader of the trail sees how far the computation came.
Nothing else is remembered: a traced computation is a plain pair.
-/

set_option autoImplicit false

namespace NestedRead

/-- The emitted items in order, and the result or the error that ended the computation. -/
structure Traced (ω ε α : Type) where
  trail : List ω
  outcome : Except ε α

namespace Traced

variable {ω ω' ε ε' α β : Type}

/-- A result without a trail. -/
protected def pure (a : α) : Traced ω ε α := ⟨[], .ok a⟩

/-- The second computation goes on from the result of the first; an error ends both. -/
protected def bind (x : Traced ω ε α) (f : α → Traced ω ε β) : Traced ω ε β :=
  match x.outcome with
  | .ok a => ⟨x.trail ++ (f a).trail, (f a).outcome⟩
  | .error e => ⟨x.trail, .error e⟩

instance : Monad (Traced ω ε) where
  pure := Traced.pure
  bind := Traced.bind

def emit (item : ω) : Traced ω ε Unit := ⟨[item], .ok ()⟩

def emitAll (items : List ω) : Traced ω ε Unit := ⟨items, .ok ()⟩

def fail (e : ε) : Traced ω ε α := ⟨[], .error e⟩

/-- An outcome without a trail. -/
def ofExcept (x : Except ε α) : Traced ω ε α := ⟨[], x⟩

/-- The same computation with its trail and its errors seen differently. -/
def bimap (item : ω → ω') (error : ε → ε') (x : Traced ω ε α) : Traced ω' ε' α :=
  ⟨x.trail.map item, x.outcome.mapError error⟩

/-- What a traced step makes of each item. -/
def each (step : α → Traced ω ε β) : List α → Traced ω ε (List β)
  | [] => pure []
  | a :: rest => do
    let b ← step a
    let more ← each step rest
    return b :: more

/-! ## The trail of each step -/

@[simp] theorem trail_pure (a : α) : (pure a : Traced ω ε α).trail = [] := rfl

@[simp] theorem outcome_pure (a : α) : (pure a : Traced ω ε α).outcome = .ok a := rfl

@[simp] theorem trail_emit (item : ω) : (emit item : Traced ω ε Unit).trail = [item] := rfl

@[simp] theorem outcome_emit (item : ω) : (emit item : Traced ω ε Unit).outcome = .ok () := rfl

@[simp] theorem trail_ofExcept (x : Except ε α) : (ofExcept x : Traced ω ε α).trail = [] := rfl

@[simp] theorem outcome_ofExcept (x : Except ε α) :
    (ofExcept x : Traced ω ε α).outcome = x := rfl

theorem bind_eq (x : Traced ω ε α) (f : α → Traced ω ε β) : x >>= f = Traced.bind x f := rfl

/-- A computation succeeds after another exactly when both do, the second from the result of
the first. -/
theorem outcome_bind_eq_ok_iff {x : Traced ω ε α} {f : α → Traced ω ε β} {b : β} :
    (x >>= f).outcome = .ok b ↔ ∃ a, x.outcome = .ok a ∧ (f a).outcome = .ok b := by
  rw [bind_eq, Traced.bind]
  cases h : x.outcome with
  | ok a => simp
  | error e => simp

end Traced
end NestedRead
