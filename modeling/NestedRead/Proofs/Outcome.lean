import Mathlib.Data.List.Forall2
import NestedRead.Traced

/-!
# Outcomes of composed computations

A composed computation succeeds exactly when its parts do. These are the inversion lemmas by which
the proofs take a run apart, for `Except` and for the outcome of a `Traced` computation; no other
proof unfolds a bind. Where only success or the error matters, `Traced.verdict` forgets the result.
-/

set_option autoImplicit false

namespace NestedRead

variable {ω ε α β γ : Type}

/-! ## `Except` -/

theorem Outcome.bind_eq_ok_iff {x : Except ε α} {f : α → Except ε β} {b : β} :
    x >>= f = .ok b ↔ ∃ a, x = .ok a ∧ f a = .ok b := by
  cases x with
  | ok a => simp [bind, Except.bind]
  | error e => simp [bind, Except.bind]

theorem Outcome.bind_eq_error_iff {x : Except ε α} {f : α → Except ε β} {e : ε} :
    x >>= f = .error e ↔ x = .error e ∨ ∃ a, x = .ok a ∧ f a = .error e := by
  cases x with
  | ok a => simp [bind, Except.bind]
  | error e => simp [bind, Except.bind]

theorem Outcome.check_bind_eq_ok_iff {x : Except ε Unit} {f : Unit → Except ε β} {b : β} :
    x >>= f = .ok b ↔ x = .ok () ∧ f () = .ok b := by
  rw [Outcome.bind_eq_ok_iff]
  exact ⟨fun ⟨(), hx, hf⟩ => ⟨hx, hf⟩, fun ⟨hx, hf⟩ => ⟨(), hx, hf⟩⟩

@[simp] theorem Outcome.pure_eq_ok_iff {a b : α} : (pure a : Except ε α) = .ok b ↔ a = b := by
  simp [pure, Except.pure]

/-- Two computations whose results are put together succeed when both do. -/
theorem Outcome.exists_both_iff {x : Except ε α} {y : Except ε β} {f : α → β → γ} :
    (∃ c, (do let a ← x; let b ← y; return f a b) = .ok c) ↔
      (∃ a, x = .ok a) ∧ ∃ b, y = .ok b := by
  simp only [Outcome.bind_eq_ok_iff]
  constructor
  · rintro ⟨c, a, ha, b, hb, -⟩
    exact ⟨⟨a, ha⟩, ⟨b, hb⟩⟩
  · rintro ⟨⟨a, ha⟩, ⟨b, hb⟩⟩
    exact ⟨_, a, ha, b, hb, rfl⟩

/-! ## `Traced` -/

namespace Traced

@[simp] theorem outcome_fail (e : ε) : (fail e : Traced ω ε α).outcome = .error e := rfl

@[simp] theorem outcome_emitAll (items : List ω) :
    (emitAll items : Traced ω ε Unit).outcome = .ok () := rfl

/-- A computation succeeds after another exactly when both do, and then the trails follow on each
other. -/
theorem bind_eq_ok_iff {x : Traced ω ε α} {f : α → Traced ω ε β} {trail : List ω} {b : β} :
    x >>= f = ⟨trail, .ok b⟩ ↔
      ∃ a t u, x = ⟨t, .ok a⟩ ∧ f a = ⟨u, .ok b⟩ ∧ trail = t ++ u := by
  obtain ⟨t, outcome⟩ := x
  rw [bind_eq, Traced.bind]
  cases outcome with
  | error e => simp
  | ok a =>
    cases hf : f a with
    | mk u outcome => simp [hf, and_comm, eq_comm]

theorem ofExcept_bind_eq_ok_iff {x : Except ε α} {f : α → Traced ω ε β} {trail : List ω} {b : β} :
    ofExcept x >>= f = ⟨trail, .ok b⟩ ↔ ∃ a, x = .ok a ∧ f a = ⟨trail, .ok b⟩ := by
  rw [bind_eq_ok_iff]
  simp [ofExcept]

theorem emitAll_bind_eq_ok_iff {items : List ω} {f : Unit → Traced ω ε β} {trail : List ω}
    {b : β} :
    emitAll items >>= f = ⟨trail, .ok b⟩ ↔ ∃ u, f () = ⟨u, .ok b⟩ ∧ trail = items ++ u := by
  rw [bind_eq_ok_iff]
  constructor
  · rintro ⟨⟨⟩, t, u, ht, hu, rfl⟩
    cases ht
    exact ⟨u, hu, rfl⟩
  · rintro ⟨u, hu, rfl⟩
    exact ⟨(), items, u, rfl, hu, rfl⟩

theorem pure_eq_ok_iff {a b : α} {trail : List ω} :
    (pure a : Traced ω ε α) = ⟨trail, .ok b⟩ ↔ a = b ∧ trail = [] := by
  constructor
  · intro h; cases h; exact ⟨rfl, rfl⟩
  · rintro ⟨rfl, rfl⟩; rfl

/-- A step is taken for each item exactly when it succeeds on every one of them. -/
theorem outcome_each_eq_ok_iff {step : α → Traced ω ε β} :
    ∀ {items : List α} {results : List β}, (each step items).outcome = .ok results ↔
      List.Forall₂ (fun a b => (step a).outcome = .ok b) items results
  | [], results => by
    simp [each, eq_comm]
  | a :: rest, results => by
    rw [each, outcome_bind_eq_ok_iff]
    constructor
    · rintro ⟨b, hb, h⟩
      obtain ⟨more, hmore, h⟩ := outcome_bind_eq_ok_iff.mp h
      cases h
      exact .cons hb (outcome_each_eq_ok_iff.mp hmore)
    · rintro (_ | ⟨hb, hmore⟩)
      exact ⟨_, hb, outcome_bind_eq_ok_iff.mpr ⟨_, outcome_each_eq_ok_iff.mpr hmore, rfl⟩⟩

/-- Where all items succeed, each does. -/
theorem exists_of_outcome_each {step : α → Traced ω ε β} :
    ∀ {items : List α} {results : List β}, (each step items).outcome = .ok results →
      ∀ a ∈ items, ∃ b, (step a).outcome = .ok b
  | x :: rest, results, h, a, ha => by
    rw [each] at h
    obtain ⟨b, hb, h⟩ := outcome_bind_eq_ok_iff.mp h
    obtain ⟨more, hmore, -⟩ := outcome_bind_eq_ok_iff.mp h
    rcases List.mem_cons.mp ha with rfl | ha
    · exact ⟨b, hb⟩
    · exact exists_of_outcome_each hmore a ha

/-- What two steps make of items and of their images is the same if it is of each. -/
theorem each_map {step : α → Traced ω ε γ} {step' : β → Traced ω ε γ} {f : α → β} {items : List α}
    (h : ∀ a ∈ items, step a = step' (f a)) : each step items = each step' (items.map f) := by
  induction items with
  | nil => rfl
  | cons a rest ih =>
    obtain ⟨ha, hrest⟩ := List.forall_mem_cons.mp h
    rw [List.map_cons, each, each, ha, ih hrest]

theorem ofExcept_ok_bind (a : α) (f : α → Traced ω ε β) : (ofExcept (.ok a) >>= f) = f a := rfl

/-! ## Verdicts -/

/-- Whether a computation succeeds, and its error if it does not. -/
def verdict (x : Traced ω ε α) : Except ε Unit := x.outcome.map fun _ => ()

theorem verdict_eq_ok_iff {x : Traced ω ε α} :
    x.verdict = .ok () ↔ ∃ a, x.outcome = .ok a := by
  unfold verdict
  cases x.outcome <;> simp [Except.map]

theorem verdict_eq_error_iff {x : Traced ω ε α} {e : ε} :
    x.verdict = .error e ↔ x.outcome = .error e := by
  unfold verdict
  cases x.outcome <;> simp [Except.map]

theorem verdict_bind_of_ok {x : Traced ω ε α} {f : α → Traced ω ε β} {a : α}
    (h : x.outcome = .ok a) : (x >>= f).verdict = (f a).verdict := by
  rw [verdict, bind_eq, Traced.bind, h, verdict]

theorem verdict_bind_of_error {x : Traced ω ε α} {f : α → Traced ω ε β} {e : ε}
    (h : x.outcome = .error e) : (x >>= f).verdict = .error e := by
  rw [verdict, bind_eq, Traced.bind, h]
  rfl

/-- What always succeeds decides nothing. -/
theorem verdict_bind_of_forall {x : Traced ω ε α} {f : α → Traced ω ε β}
    (h : ∀ a, (f a).verdict = .ok ()) : (x >>= f).verdict = x.verdict := by
  cases hx : x.outcome with
  | ok a => rw [verdict_bind_of_ok hx, h, verdict_eq_ok_iff.mpr ⟨a, hx⟩]
  | error e => rw [verdict_bind_of_error hx, verdict_eq_error_iff.mpr hx]

/-- Computations whose steps end alike, up to how an error is told, end alike. -/
theorem verdict_bind_mapError {g : ε → ε} {x x' : Traced ω ε α} {f f' : α → Traced ω ε β}
    (hx : x.outcome = x'.outcome.mapError g)
    (hf : ∀ a, (f a).verdict = (f' a).verdict.mapError g) :
    (x >>= f).verdict = (x' >>= f').verdict.mapError g := by
  cases hx' : x'.outcome with
  | ok a =>
    rw [hx'] at hx
    rw [verdict_bind_of_ok hx, verdict_bind_of_ok hx', hf]
  | error e =>
    rw [hx'] at hx
    rw [verdict_bind_of_error hx, verdict_bind_of_error hx']
    rfl

end Traced
end NestedRead
