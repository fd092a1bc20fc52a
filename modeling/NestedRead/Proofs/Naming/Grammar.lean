import Mathlib.Computability.Language
import NestedRead.Identifier

/-!
# The grammar of names

Identifiers and table names as regular languages:

* an identifier is `[A-Za-z][A-Za-z0-9]*(_[A-Za-z0-9]+)*`,
* a table name is `[A-Za-z_][A-Za-z0-9_]*(\.[A-Za-z_][A-Za-z0-9_]*)?`.

The scanners read a name once from left to right. What is left to read of an identifier behind a
letter or digit is a language of its own (`afterRun`), and it satisfies the equation that the
scanner follows: the name ends here, or goes on with a letter or digit, or with an underscore and
then a letter or digit.
-/

set_option autoImplicit false

namespace NestedRead.Identifier

open scoped Computability

/-! ## Languages of one character -/

/-- The words of one character that is of a kind. -/
def anyOf (kind : Char → Bool) : Language Char := {word | ∃ c, kind c = true ∧ word = [c]}

section anyOf

variable {kind : Char → Bool} {c : Char} {cs : List Char} {rest : Language Char}

theorem cons_mem_anyOf_mul : c :: cs ∈ anyOf kind * rest ↔ kind c = true ∧ cs ∈ rest := by
  rw [Language.mem_mul]
  constructor
  · rintro ⟨_, ⟨d, hd, rfl⟩, cs', hcs, heq⟩
    cases heq
    exact ⟨hd, hcs⟩
  · rintro ⟨hc, hcs⟩
    exact ⟨[c], ⟨c, hc, rfl⟩, cs, hcs, rfl⟩

theorem nil_not_mem_anyOf_mul : [] ∉ anyOf kind * rest := by
  rw [Language.mem_mul]
  rintro ⟨_, ⟨d, -, rfl⟩, cs', -, heq⟩
  cases heq

theorem mem_kstar_anyOf : ∀ {cs : List Char}, cs ∈ (anyOf kind)∗ ↔ ∀ c ∈ cs, kind c = true
  | [] => by simp [Language.nil_mem_kstar]
  | c :: cs => by
    rw [← Language.one_add_self_mul_kstar_eq_kstar, Language.mem_add, Language.mem_one,
      cons_mem_anyOf_mul, mem_kstar_anyOf, List.forall_mem_cons]
    simp

end anyOf

/-! ## Identifiers -/

def letter : Language Char := anyOf Char.isAlpha

def letterOrDigit : Language Char := anyOf Char.isAlphanum

def underscore : Language Char := anyOf (· == '_')

/-- The language of identifiers. -/
def identifiers : Language Char :=
  letter * letterOrDigit∗ * (underscore * letterOrDigit * letterOrDigit∗)∗

/-- What may follow a letter or digit of an identifier. -/
def afterRun : Language Char := letterOrDigit∗ * (underscore * letterOrDigit * letterOrDigit∗)∗

theorem identifiers_eq : identifiers = letter * afterRun := mul_assoc _ _ _

/-- The name ends, or goes on in one of two ways. -/
theorem afterRun_eq :
    afterRun = 1 + underscore * (letterOrDigit * afterRun) + letterOrDigit * afterRun := by
  have hruns : (underscore * letterOrDigit * letterOrDigit∗)∗ =
      1 + underscore * (letterOrDigit * afterRun) := by
    conv_lhs => rw [← Language.one_add_self_mul_kstar_eq_kstar]
    rw [afterRun, mul_assoc underscore, mul_assoc underscore, mul_assoc letterOrDigit]
  calc afterRun
      = (1 + letterOrDigit * letterOrDigit∗) *
          (underscore * letterOrDigit * letterOrDigit∗)∗ := by
        rw [Language.one_add_self_mul_kstar_eq_kstar, afterRun]
    _ = (underscore * letterOrDigit * letterOrDigit∗)∗ + letterOrDigit * afterRun := by
        rw [add_mul, one_mul, mul_assoc letterOrDigit, ← afterRun]
    _ = 1 + underscore * (letterOrDigit * afterRun) + letterOrDigit * afterRun := by rw [hruns]

/-- The scanner follows the equation, and right behind an underscore a letter or digit has to
come first. -/
theorem continues_iff : ∀ (cs : List Char) (afterUnderscore : Bool),
    continues afterUnderscore cs = true ↔
      cs ∈ if afterUnderscore then letterOrDigit * afterRun else afterRun
  | [], true => by
    rw [continues, if_pos rfl]
    exact iff_of_false (by decide) nil_not_mem_anyOf_mul
  | [], false => by
    rw [continues, if_neg Bool.false_ne_true]
    exact iff_of_true rfl ⟨[], Language.nil_mem_kstar _, [], Language.nil_mem_kstar _, rfl⟩
  | c :: cs, true => by
    have ih : continues false cs = true ↔ cs ∈ afterRun := continues_iff cs false
    rw [continues, if_pos rfl, letterOrDigit, cons_mem_anyOf_mul, ← ih]
    simp
  | c :: cs, false => by
    have ih : continues false cs = true ↔ cs ∈ afterRun := continues_iff cs false
    have ihUnderscore : continues true cs = true ↔ cs ∈ letterOrDigit * afterRun :=
      continues_iff cs true
    rw [continues, if_neg Bool.false_ne_true, afterRun_eq, Language.mem_add, Language.mem_add,
      Language.mem_one, underscore, cons_mem_anyOf_mul, ← ihUnderscore, letterOrDigit,
      cons_mem_anyOf_mul, ← ih]
    -- An underscore is no letter or digit, so the order of the two tests does not matter.
    by_cases hc : c = '_'
    · subst hc
      have : Char.isAlphanum '_' = false := by decide
      simp [this]
    · simp [hc]

/-- A name is an identifier. -/
def Plain (name : String) : Prop := name.toList ∈ identifiers

theorem isPlain_iff {name : String} : isPlain name = true ↔ Plain name := by
  rw [Plain, identifiers_eq, isPlain]
  cases name.toList with
  | nil => exact iff_of_false (by decide) nil_not_mem_anyOf_mul
  | cons c cs =>
    have hrest : continues false cs = true ↔ cs ∈ afterRun := continues_iff cs false
    rw [isPlainChars, Bool.and_eq_true, letter, cons_mem_anyOf_mul, hrest]

/-! ## Table names -/

/-- The language of words: letters, digits and underscores, but no digit first. -/
def words : Language Char :=
  anyOf (fun c => c.isAlpha || c == '_') * (anyOf fun c => c.isAlphanum || c == '_')∗

/-- The language of table names: a word, with or without a schema before it. -/
def tableNames : Language Char := words * (1 + anyOf (· == '.') * words)

/-- A name is a table name. -/
def TableName (name : String) : Prop := name.toList ∈ tableNames

theorem isWord_iff {cs : List Char} : isWord cs = true ↔ cs ∈ words := by
  cases cs with
  | nil => exact iff_of_false (by decide) nil_not_mem_anyOf_mul
  | cons c cs =>
    rw [isWord, words, cons_mem_anyOf_mul, mem_kstar_anyOf, Bool.and_eq_true, List.all_eq_true]

theorem ne_point_of_mem_words {cs : List Char} (h : cs ∈ words) : ∀ c ∈ cs, (c != '.') = true := by
  have hpoint : (Char.isAlphanum '.' || '.' == '_') = false := by decide
  rw [← isWord_iff] at h
  intro c hc
  rw [bne_iff_ne]
  rintro rfl
  cases cs with
  | nil => cases hc
  | cons d ds =>
    rw [isWord, Bool.and_eq_true, List.all_eq_true] at h
    rcases List.mem_cons.mp hc with rfl | hc
    · exact absurd h.1 (by decide)
    · exact absurd ((h.2 _ hc).symm.trans hpoint) (by decide)

theorem mem_tableNames_iff {cs : List Char} :
    cs ∈ tableNames ↔
      cs ∈ words ∨ ∃ schema ∈ words, ∃ table ∈ words, cs = schema ++ '.' :: table := by
  rw [tableNames, mul_add, mul_one, Language.mem_add]
  refine or_congr_right ⟨?_, ?_⟩
  · rintro ⟨schema, hschema, _, ⟨_, ⟨c, hc, rfl⟩, table, htable, rfl⟩, rfl⟩
    obtain rfl : c = '.' := by simpa using hc
    exact ⟨schema, hschema, table, htable, rfl⟩
  · rintro ⟨schema, hschema, table, htable, rfl⟩
    exact ⟨schema, hschema, _, cons_mem_anyOf_mul.mpr ⟨by decide, htable⟩, rfl⟩

/-- A word stands before the first point, since it has none. -/
theorem span_words {schema more : List Char} (h : schema ∈ words)
    (hmore : more = [] ∨ ∃ table, more = '.' :: table) :
    (schema ++ more).span (· != '.') = (schema, more) := by
  rw [List.span_eq_takeWhile_dropWhile, List.takeWhile_append_of_pos (ne_point_of_mem_words h),
    List.dropWhile_append_of_pos (ne_point_of_mem_words h)]
  rcases hmore with rfl | ⟨table, rfl⟩ <;> simp

/-- The first point splits a text, if there is one. -/
theorem span_cases (cs : List Char) : cs.span (· != '.') = (cs, []) ∨
    ∃ schema table, cs = schema ++ '.' :: table ∧ cs.span (· != '.') = (schema, '.' :: table) := by
  have happend := List.takeWhile_append_dropWhile (p := (· != '.')) (l := cs)
  rw [List.span_eq_takeWhile_dropWhile]
  cases hrest : cs.dropWhile (· != '.') with
  | nil =>
    rw [hrest, List.append_nil] at happend
    rw [happend]
    exact .inl rfl
  | cons c table =>
    have hpoint : (c != '.') = false := by
      simpa [hrest] using List.head_dropWhile_not (· != '.') (l := cs) (by rw [hrest]; simp)
    obtain rfl : c = '.' := by simpa using hpoint
    rw [hrest] at happend
    exact .inr ⟨_, table, happend.symm, rfl⟩

theorem isTable_iff {name : String} : isTable name = true ↔ TableName name := by
  rw [TableName, mem_tableNames_iff, isTable]
  constructor
  · intro h
    rcases span_cases name.toList with hspan | ⟨schema, table, hname, hspan⟩
    · rw [hspan] at h
      exact .inl (isWord_iff.mp h)
    · rw [hspan] at h
      obtain ⟨hschema, htable⟩ := Bool.and_eq_true_iff.mp h
      exact .inr ⟨schema, isWord_iff.mp hschema, table, isWord_iff.mp htable, hname⟩
  · rintro (hword | ⟨schema, hschema, table, htable, hname⟩)
    · have hspan := span_words hword (.inl rfl)
      rw [List.append_nil] at hspan
      rw [hspan]
      exact isWord_iff.mpr hword
    · rw [hname, span_words hschema (.inr ⟨table, rfl⟩)]
      exact Bool.and_eq_true_iff.mpr ⟨isWord_iff.mpr hschema, isWord_iff.mpr htable⟩

end NestedRead.Identifier
