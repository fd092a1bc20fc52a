/-!
# Three-valued truth

A test in SQL holds, fails or is unknown. Conjunction is the lesser of two truths and disjunction
the greater, in the order `no`, `unknown`, `yes`; a WHERE or ON clause keeps what is `yes`. The
laws below are what a flat list of terms needs to be read in groups: both connectives are
associative, `yes` is neutral for the one and `no` for the other.
-/

set_option autoImplicit false

namespace NestedRead

/-- The outcome of a test. -/
inductive Truth where
  | no
  | unknown
  | yes
deriving DecidableEq, Repr

namespace Truth

/-- Both hold. -/
def and : Truth → Truth → Truth
  | .yes, b => b
  | .no, _ => .no
  | .unknown, .no => .no
  | .unknown, _ => .unknown

/-- One of the two holds. -/
def or : Truth → Truth → Truth
  | .no, b => b
  | .yes, _ => .yes
  | .unknown, .yes => .yes
  | .unknown, _ => .unknown

/-- It does not hold; what is unknown stays so. -/
def not : Truth → Truth
  | .no => .yes
  | .unknown => .unknown
  | .yes => .no

def negatedIf (negated : Bool) (t : Truth) : Truth := if negated then t.not else t

/-- All of them hold; none at all counts as `yes`. -/
def all : List Truth → Truth
  | [] => .yes
  | t :: rest => t.and (all rest)

/-- One of them holds; none at all counts as `no`. -/
def any : List Truth → Truth
  | [] => .no
  | t :: rest => t.or (any rest)

/-! ## Laws of the two connectives -/

@[simp] theorem yes_and (t : Truth) : yes.and t = t := rfl

@[simp] theorem and_yes (t : Truth) : t.and yes = t := by cases t <;> rfl

@[simp] theorem no_or (t : Truth) : no.or t = t := rfl

@[simp] theorem or_no (t : Truth) : t.or no = t := by cases t <;> rfl

theorem and_assoc (a b c : Truth) : (a.and b).and c = a.and (b.and c) := by
  cases a <;> cases b <;> cases c <;> rfl

theorem and_eq_yes_iff {a b : Truth} : a.and b = yes ↔ a = yes ∧ b = yes := by
  cases a <;> cases b <;> decide

/-! ## Lists of truths -/

@[simp] theorem all_nil : all [] = yes := rfl

@[simp] theorem all_cons (t : Truth) (ts : List Truth) : all (t :: ts) = t.and (all ts) := rfl

@[simp] theorem any_nil : any [] = no := rfl

@[simp] theorem any_cons (t : Truth) (ts : List Truth) : any (t :: ts) = t.or (any ts) := rfl

end Truth
end NestedRead
