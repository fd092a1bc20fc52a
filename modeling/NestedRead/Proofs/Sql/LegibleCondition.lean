import NestedRead.Proofs.Sql.Columns
import NestedRead.Proofs.Sql.Legible

/-!
# Conditions can be read from their text and their values

A condition is explicit when every part of it leaves something in the text. A raw expression may
look like anything, an empty membership test and an empty group are written as constants, and the
connector of a first term is not written at all; an explicit condition has none of these, and And
for all first connectors. Its text and its values tell it from all other explicit conditions,
nested to any depth (`Condition.legible_sql`).

A condition that is not a group is a test of a column. Which test it is shows in the word behind the
column; IS and IS NOT are told apart by what follows, because no operand begins with NOT. A group is
the only condition that begins with a parenthesis, and its terms end where no connector follows.
-/

set_option autoImplicit false

namespace NestedRead

open Sql

/-! ## Explicit conditions -/

namespace Condition

/-- The connector of the first of several terms, which is not written, is And. -/
def leadsWithAnd : List Term → Bool
  | [] => true
  | (conjunction, _) :: _ => conjunction = .and

mutual

/-- The condition has no raw expression in it, no membership test over no values and no empty group,
and And before the first term of each group. -/
def isExplicit : Condition → Bool
  | .compare column _ _ => column.isQualified
  | .compareColumns left _ right => left.isQualified && right.isQualified
  | .member column values _ => column.isQualified && !values.isEmpty
  | .between column _ _ _ => column.isQualified
  | .group terms => !terms.isEmpty && leadsWithAnd terms && areExplicit terms

def areExplicit : List (Conjunction × Condition) → Bool
  | [] => true
  | (_, condition) :: rest => isExplicit condition && areExplicit rest

end

end Condition

/-! ## Columns -/

theorem legible_column :
    Legible ColumnRef.sql noValues id (fun column => column.isQualified = true) ["\""] :=
  legible_of_text fun column other hcolumn hother u v hu hv htext => by
    cases column with
    | raw expression => cases hcolumn
    | qualified a b =>
      cases other with
      | raw expression => cases hother
      | qualified c d =>
        obtain ⟨hnames, huv⟩ := legible_qualified.text_cancel (a := (a, b)) (b := (c, d)) trivial
          trivial hu hv htext
        cases hnames
        exact ⟨rfl, huv⟩

theorem ColumnRef.starts_sql {column : ColumnRef} (h : column.isQualified = true) :
    Starts ["\""] column.sql := by
  cases column with
  | qualified tableAlias column => exact starts_qualified tableAlias column
  | raw expression => cases h

/-! ## Tests -/

/-- What a test is, between its column and its operands. -/
inductive TestWord where
  | comparison (operator : Comparison)
  | member (negated : Bool)
  | range (negated : Bool)
deriving DecidableEq

def TestWord.sql : TestWord → String
  | .comparison operator => operator.sql ++ " "
  | .member negated => negation negated ++ "IN ("
  | .range negated => negation negated ++ "BETWEEN "

def TestWord.all : List TestWord :=
  [.comparison .gt, .comparison .gte, .comparison .lt, .comparison .lte, .comparison .eq,
    .comparison .ne, .comparison .is, .comparison .isNot, .member false, .member true,
    .range false, .range true]

theorem TestWord.mem_all (k : TestWord) : k ∈ all := by
  rcases k with operator | negated | negated
  · cases operator <;> decide
  · cases negated <;> decide
  · cases negated <;> decide

/-- Only the test with IS NOT begins with another one. -/
theorem TestWord.apart (k l : TestWord) : k = l ∨ Apart k.sql l.sql ∨
    k = .comparison .is ∧ l = .comparison .isNot ∨
      k = .comparison .isNot ∧ l = .comparison .is := by
  have h : ∀ k ∈ all, ∀ l ∈ all, k = l ∨ Apart k.sql l.sql ∨
      k = .comparison .is ∧ l = .comparison .isNot ∨
        k = .comparison .isNot ∧ l = .comparison .is := by
    decide +kernel
  exact h k k.mem_all l l.mem_all

theorem legible_testWord : Legible TestWord.sql noValues id (fun _ => True) ["NOT "] :=
  legible_of_text fun k l _ _ u v hu hv htext => by
    have hnot : (TestWord.comparison .isNot).sql.toList
        = (TestWord.comparison .is).sql.toList ++ "NOT ".toList := by decide
    rcases k.apart l with rfl | hapart | ⟨rfl, rfl⟩ | ⟨rfl, rfl⟩
    · exact ⟨rfl, List.append_cancel_left htext⟩
    · exact absurd htext (hapart.ne u v)
    · rw [hnot, List.append_assoc] at htext
      exact absurd ⟨v, (List.append_cancel_left htext).symm⟩ (hu "NOT " List.mem_cons_self)
    · rw [hnot, List.append_assoc] at htext
      exact absurd ⟨u, List.append_cancel_left htext⟩ (hv "NOT " List.mem_cons_self)

/-- The keyword that a value is written as, if there is one, tells which value it is. -/
theorem Comparison.keyword?_cases {operator : Comparison} {value : Json} {word : String}
    (h : operator.keyword? value = some word) : value = .null ∧ word = "NULL" ∨
      value = .bool true ∧ word = "TRUE" ∨ value = .bool false ∧ word = "FALSE" := by
  unfold keyword? at h
  split at h <;> cases h <;> simp

theorem starts_operand (operator : Comparison) (value : Json) :
    Starts ["?", "NULL", "TRUE", "FALSE"] ((operator.keyword? value).getD "?") := by
  cases hword : operator.keyword? value with
  | none => exact (starts_self "?").mono (by simp)
  | some word =>
    rcases Comparison.keyword?_cases hword with ⟨-, rfl⟩ | ⟨-, rfl⟩ | ⟨-, rfl⟩ <;>
      exact (starts_self _).mono (by simp)

/-- A value in a comparison: a keyword, or a placeholder that it stands for. -/
theorem legible_operand (operator : Comparison) :
    Legible (fun value => (operator.keyword? value).getD "?")
      (fun value => if (operator.keyword? value).isSome then [] else [value]) id
      (fun _ => True) [] := by
  intro a b _ _ u v _ _ xs ys htext hvalues
  cases ha : operator.keyword? a with
  | none =>
    cases hb : operator.keyword? b with
    | none =>
      simp only [ha, hb] at htext hvalues
      obtain ⟨rfl, hrest⟩ := List.cons.inj hvalues
      exact ⟨rfl, List.append_cancel_left htext, hrest⟩
    | some word =>
      simp only [ha, hb, Option.getD_none, Option.getD_some] at htext
      rcases Comparison.keyword?_cases hb with ⟨-, rfl⟩ | ⟨-, rfl⟩ | ⟨-, rfl⟩ <;>
        exact absurd htext (Apart.ne (by decide) u v)
  | some word =>
    cases hb : operator.keyword? b with
    | none =>
      simp only [ha, hb, Option.getD_none, Option.getD_some] at htext
      rcases Comparison.keyword?_cases ha with ⟨-, rfl⟩ | ⟨-, rfl⟩ | ⟨-, rfl⟩ <;>
        exact absurd htext (Apart.ne (by decide) u v)
    | some word' =>
      simp only [ha, hb, Option.getD_some, Option.isSome_some, if_true, List.nil_append]
        at htext hvalues
      rcases Comparison.keyword?_cases ha with ⟨rfl, rfl⟩ | ⟨rfl, rfl⟩ | ⟨rfl, rfl⟩ <;>
        rcases Comparison.keyword?_cases hb with ⟨rfl, rfl⟩ | ⟨rfl, rfl⟩ | ⟨rfl, rfl⟩ <;>
        first
        | exact absurd htext (Apart.ne (by decide) u v)
        | exact ⟨rfl, List.append_cancel_left htext, hvalues⟩

/-- The placeholders of a membership test tell how many values there are. -/
theorem legible_members :
    Legible (fun values : List Json => Text.joined ", " (values.map fun _ => "?") ++ ")")
      (fun values => values) id (fun values => values ≠ []) [] := by
  have hmark : Legible (fun _ : Json => "?") (fun value => [value]) id (fun _ => True) [] := by
    intro a b _ _ u v _ _ xs ys htext hvalues
    obtain ⟨rfl, hrest⟩ := List.cons.inj hvalues
    exact ⟨rfl, List.append_cancel_left htext, hrest⟩
  have hclose : Legible (fun _ : List Json => ")") noValues (fun _ => ()) (fun _ => True) [] :=
    legible_of_text fun _ _ _ _ _ _ _ _ htext => ⟨rfl, List.append_cancel_left htext⟩
  have hmarks := (hmark.joined (by decide : ∀ w ∈ [], Apart w ", ")).imp
    fun values (hne : values ≠ []) => ⟨hne, fun _ _ => trivial⟩
  have hboth := hmarks.followed (hclose.imp fun _ _ => trivial) (fun _ _ => starts_self ")")
    (by decide)
  refine (hboth.congr_values fun values => ?_).map_part fun _ _ _ _ h => (Prod.ext_iff.mp h).1
  rw [noValues, List.append_nil]
  exact List.flatMap_singleton' values

/-- What a condition on a column asks of it. -/
inductive Test where
  | compare (operator : Comparison) (value : Json)
  | compareColumn (operator : Comparison) (column : ColumnRef)
  | member (values : List Json) (negated : Bool)
  | between (low high : Json) (negated : Bool)

namespace Test

def word : Test → TestWord
  | .compare operator _ | .compareColumn operator _ => .comparison operator
  | .member _ negated => .member negated
  | .between _ _ negated => .range negated

/-- What stands behind the word. -/
def operands : Test → String
  | .compare operator value => (operator.keyword? value).getD "?"
  | .compareColumn _ column => column.sql
  | .member values _ => Text.joined ", " (values.map fun _ => "?") ++ ")"
  | .between _ _ _ => "? AND ?"

def sql (t : Test) : String := t.word.sql ++ t.operands

def bindings : Test → List Json
  | .compare operator value => if (operator.keyword? value).isSome then [] else [value]
  | .compareColumn _ _ => []
  | .member values _ => values
  | .between low high _ => [low, high]

def isExplicit : Test → Bool
  | .compareColumn _ column => column.isQualified
  | .member values _ => !values.isEmpty
  | .compare _ _ | .between _ _ _ => true

/-- The condition that a column passes the test. -/
def condition (column : ColumnRef) : Test → Condition
  | .compare operator value => .compare column operator value
  | .compareColumn operator right => .compareColumns column operator right
  | .member values negated => .member column values negated
  | .between low high negated => .between column low high negated

theorem starts_operands {t : Test} (h : t.isExplicit = true) :
    Starts ["?", "NULL", "TRUE", "FALSE", "\""] t.operands := by
  cases t with
  | compare operator value => exact (starts_operand operator value).mono (by simp)
  | compareColumn operator column => exact (ColumnRef.starts_sql h).mono (by simp)
  | member values negated =>
    cases values with
    | nil => cases h
    | cons value values =>
      rw [operands, List.map_cons, Text.joined_cons, String.append_assoc]
      exact (starts_append "?" _).mono (by simp)
  | between low high negated => exact (starts_append "?" " AND ?").mono (by simp)

end Test

/-- Where tests have the same word, the operands make the difference. -/
theorem operands_cancel {s t : Test} (hs : s.isExplicit = true) (ht : t.isExplicit = true)
    (hword : s.word = t.word) {u v : List Char} (hu : Free ["\""] u) (hv : Free ["\""] v)
    {xs ys : List Json} (htext : s.operands.toList ++ u = t.operands.toList ++ v)
    (hvalues : s.bindings ++ xs = t.bindings ++ ys) : s = t ∧ u = v ∧ xs = ys := by
  cases s <;> cases t <;> simp only [Test.word, reduceCtorEq] at hword
  case compare.compare operator a operator' b =>
    obtain rfl : operator = operator' := TestWord.comparison.inj hword
    obtain ⟨rfl, hrest⟩ := legible_operand operator trivial trivial (free_of_nil u) (free_of_nil v)
      htext hvalues
    exact ⟨rfl, hrest⟩
  case compare.compareColumn operator a operator' column =>
    exact absurd htext ((starts_operand operator a).ne (ColumnRef.starts_sql ht) (by decide) u v)
  case compareColumn.compare operator column operator' a =>
    exact absurd htext.symm
      ((starts_operand operator' a).ne (ColumnRef.starts_sql hs) (by decide) v u)
  case compareColumn.compareColumn operator a operator' b =>
    obtain rfl : operator = operator' := TestWord.comparison.inj hword
    obtain ⟨rfl, hrest⟩ := legible_column hs ht hu hv htext hvalues
    exact ⟨rfl, hrest⟩
  case member.member a negated b negated' =>
    obtain rfl : negated = negated' := TestWord.member.inj hword
    obtain ⟨rfl, hrest⟩ := legible_members (by simpa [Test.isExplicit] using hs)
      (by simpa [Test.isExplicit] using ht) (free_of_nil u) (free_of_nil v) htext hvalues
    exact ⟨rfl, hrest⟩
  case between.between low high negated low' high' negated' =>
    obtain rfl : negated = negated' := TestWord.range.inj hword
    cases hvalues
    exact ⟨rfl, List.append_cancel_left htext, rfl⟩

theorem legible_test :
    Legible Test.sql Test.bindings id (fun t => t.isExplicit = true) ["\""] := by
  intro s t hs ht u v hu hv xs ys htext hvalues
  rw [Test.sql, Test.sql, String.toList_append, String.toList_append, List.append_assoc,
    List.append_assoc] at htext
  obtain ⟨hword, hoperands⟩ := legible_testWord.text_cancel trivial trivial
    ((Test.starts_operands hs).free (by decide) u) ((Test.starts_operands ht).free (by decide) v)
    htext
  exact operands_cancel hs ht hword hu hv hoperands hvalues

/-! ## Conditions -/

namespace Condition

theorem sql_test (column : ColumnRef) {t : Test} (h : t.isExplicit = true) :
    (t.condition column).sql = column.sql ++ (" " ++ t.sql) := by
  cases t with
  | compare | compareColumn =>
    simp only [Test.condition, sql, Test.sql, Test.word, TestWord.sql, Test.operands,
      String.append_assoc]
  | member values negated =>
    have hvalues : values.isEmpty = false := by simpa [Test.isExplicit] using h
    simp only [Test.condition, sql, Test.sql, Test.word, TestWord.sql, Test.operands,
      String.append_assoc, hvalues, Bool.false_eq_true, if_false]
  | between low high negated =>
    simp only [Test.condition, sql, Test.sql, Test.word, TestWord.sql, Test.operands,
      String.append_assoc]
    rfl

theorem bindings_test (column : ColumnRef) (t : Test) :
    (t.condition column).bindings = t.bindings := by
  cases t <;> rfl

theorem isExplicit_test (column : ColumnRef) (t : Test) :
    (t.condition column).isExplicit = (column.isQualified && t.isExplicit) := by
  cases t <;> simp [Test.condition, isExplicit, Test.isExplicit]

/-- A condition is a test of a column, or a group. -/
theorem isTest_or_isGroup (c : Condition) :
    (∃ column t, c = Test.condition column t) ∨ ∃ ts, c = .group ts := by
  cases c with
  | compare column operator value => exact Or.inl ⟨column, .compare operator value, rfl⟩
  | compareColumns left operator right => exact Or.inl ⟨left, .compareColumn operator right, rfl⟩
  | member column values negated => exact Or.inl ⟨column, .member values negated, rfl⟩
  | between column low high negated => exact Or.inl ⟨column, .between low high negated, rfl⟩
  | group ts => exact Or.inr ⟨ts, rfl⟩

theorem starts_test {column : ColumnRef} {t : Test}
    (h : (t.condition column).isExplicit = true) : Starts ["\""] (t.condition column).sql := by
  rw [isExplicit_test, Bool.and_eq_true] at h
  rw [sql_test column h.2]
  exact (ColumnRef.starts_sql h.1).append _

theorem isExplicit_group_cons {conjunction : Conjunction} {c : Condition} {ts : List Term} :
    (group ((conjunction, c) :: ts)).isExplicit = true ↔
      conjunction = .and ∧ c.isExplicit = true ∧ areExplicit ts = true := by
  simp [isExplicit, areExplicit, leadsWithAnd]

theorem sql_group {ts : List Term} (h : (group ts).isExplicit = true) :
    (group ts).sql = "(" ++ (termsSql ts ++ ")") := by
  cases ts with
  | nil => cases h
  | cons t ts => rw [sql, termsSql, String.append_assoc, String.append_assoc, String.append_assoc]

theorem starts_group {ts : List Term} (h : (group ts).isExplicit = true) :
    Starts ["("] (group ts).sql := by
  rw [sql_group h]
  exact starts_append "(" _

/-- What is written for a test of a column is written for no other condition. -/
theorem test_cancel (column : ColumnRef) (s : Test) {d : Condition}
    (hs : (s.condition column).isExplicit = true) (hd : d.isExplicit = true) {u v : List Char}
    (hu : Free ["\""] u) (hv : Free ["\""] v) {xs ys : List Json}
    (htext : (s.condition column).sql.toList ++ u = d.sql.toList ++ v)
    (hvalues : (s.condition column).bindings ++ xs = d.bindings ++ ys) :
    s.condition column = d ∧ u = v ∧ xs = ys := by
  rcases isTest_or_isGroup d with ⟨column', t, rfl⟩ | ⟨ts, rfl⟩
  · have htests : Legible (fun p : ColumnRef × Test => p.1.sql ++ (" " ++ p.2.sql))
        (fun p => p.2.bindings) id (fun p => p.1.isQualified = true ∧ p.2.isExplicit = true)
        ["\""] :=
      ((legible_column.comap Prod.fst).imp fun _ hp => hp.1).followed
        (((legible_test.comap Prod.snd).keyword " ").imp fun _ hp => hp.2)
        (fun p _ => starts_append " " p.2.sql) (by decide)
    rw [isExplicit_test, Bool.and_eq_true] at hs hd
    rw [sql_test column hs.2, sql_test column' hd.2] at htext
    rw [bindings_test, bindings_test] at hvalues
    obtain ⟨hsame, hrest⟩ := htests (a := (column, s)) (b := (column', t)) hs hd hu hv htext hvalues
    cases hsame
    exact ⟨rfl, hrest⟩
  · exact absurd htext ((starts_test hs).ne (starts_group hd) (by decide) u v)

/-- Further terms begin with a connector. -/
theorem starts_moreSql (t : Term) (ts : List Term) :
    Starts [" AND ", " OR "] (moreSql (t :: ts)) := by
  obtain ⟨conjunction, c⟩ := t
  rw [moreSql]
  refine Starts.append (Starts.append ?_ _) _
  cases conjunction
  · exact (starts_self " AND ").mono (by simp)
  · exact (starts_self " OR ").mono (by simp)

theorem opens_moreSql : ∀ ts : List Term, Opens [" AND ", " OR "] (moreSql ts)
  | [] => Or.inl rfl
  | t :: ts => Or.inr (starts_moreSql t ts)

theorem legible_conjunction : Legible Conjunction.sql noValues id (fun _ => True) [] :=
  legible_of_apart fun a b => by cases a <;> cases b <;> decide

/-- What may not stand behind terms. -/
def termWords : List String := [" AND ", " OR ", "\""]

theorem free_moreSql (ts : List Term) {u : List Char} (hu : Free termWords u) :
    Free ["\""] ((moreSql ts).toList ++ u) :=
  (opens_moreSql ts).free (by decide) (hu.mono (by simp [termWords]))

mutual

theorem cancel : ∀ {c d : Condition}, c.isExplicit = true → d.isExplicit = true →
    ∀ {u v : List Char}, Free ["\""] u → Free ["\""] v → ∀ {xs ys : List Json},
      c.sql.toList ++ u = d.sql.toList ++ v → c.bindings ++ xs = d.bindings ++ ys →
        c = d ∧ u = v ∧ xs = ys
  | .compare column operator value, _, hc, hd, _, _, hu, hv, _, _, htext, hvalues =>
    test_cancel column (.compare operator value) hc hd hu hv htext hvalues
  | .compareColumns left operator right, _, hc, hd, _, _, hu, hv, _, _, htext, hvalues =>
    test_cancel left (.compareColumn operator right) hc hd hu hv htext hvalues
  | .member column values negated, _, hc, hd, _, _, hu, hv, _, _, htext, hvalues =>
    test_cancel column (.member values negated) hc hd hu hv htext hvalues
  | .between column low high negated, _, hc, hd, _, _, hu, hv, _, _, htext, hvalues =>
    test_cancel column (.between low high negated) hc hd hu hv htext hvalues
  | .group ts, d, hc, hd, u, v, hu, hv, xs, ys, htext, hvalues => by
    rcases isTest_or_isGroup d with ⟨column, t, rfl⟩ | ⟨us, rfl⟩
    · exact absurd htext ((starts_group hc).ne (starts_test hd) (by decide) u v)
    · have hclose : ∀ w : List Char, Free termWords (")".toList ++ w) :=
        free_of_apart (by decide)
      rw [sql_group hc, sql_group hd] at htext
      simp only [String.toList_append, List.append_assoc] at htext
      obtain ⟨rfl, hends, hrest⟩ := cancel_terms hc hd (hclose u) (hclose v)
        (List.append_cancel_left htext) hvalues
      exact ⟨rfl, List.append_cancel_left hends, hrest⟩

/-- The terms of two groups, without the parentheses. -/
theorem cancel_terms : ∀ {ts us : List (Conjunction × Condition)},
    (group ts).isExplicit = true → (group us).isExplicit = true →
    ∀ {u v : List Char}, Free termWords u → Free termWords v → ∀ {xs ys : List Json},
      (termsSql ts).toList ++ u = (termsSql us).toList ++ v →
        termBindings ts ++ xs = termBindings us ++ ys → ts = us ∧ u = v ∧ xs = ys
  | [], _, hts, _, _, _, _, _, _, _, _, _ => absurd hts Bool.false_ne_true
  | _ :: _, [], _, hus, _, _, _, _, _, _, _, _ => absurd hus Bool.false_ne_true
  | (j, c) :: ts, (k, d) :: us, hts, hus, u, v, hu, hv, xs, ys, htext, hvalues => by
    obtain ⟨rfl, hc, hrest⟩ := isExplicit_group_cons.mp hts
    obtain ⟨rfl, hd, hrest'⟩ := isExplicit_group_cons.mp hus
    rw [termsSql, termsSql, termSql, termSql] at htext
    rw [termBindings, termBindings, List.append_assoc, List.append_assoc] at hvalues
    simp only [String.toList_append, List.append_assoc] at htext
    obtain ⟨rfl, hmore, hvalues⟩ := cancel hc hd (free_moreSql ts hu) (free_moreSql us hv) htext
      hvalues
    obtain ⟨rfl, hends⟩ := cancel_more hrest hrest' hu hv hmore hvalues
    exact ⟨rfl, hends⟩

theorem cancel_more : ∀ {ts us : List (Conjunction × Condition)}, areExplicit ts = true →
    areExplicit us = true → ∀ {u v : List Char}, Free termWords u → Free termWords v →
      ∀ {xs ys : List Json}, (moreSql ts).toList ++ u = (moreSql us).toList ++ v →
        termBindings ts ++ xs = termBindings us ++ ys → ts = us ∧ u = v ∧ xs = ys
  | [], [], _, _, _, _, _, _, _, _, htext, hvalues => ⟨rfl, htext, hvalues⟩
  | [], t :: us, _, _, _, v, hu, _, _, _, htext, _ =>
    absurd htext ((starts_moreSql t us).not_free v (hu.mono (by simp [termWords])))
  | t :: ts, [], _, _, u, _, _, hv, _, _, htext, _ =>
    absurd htext.symm ((starts_moreSql t ts).not_free u (hv.mono (by simp [termWords])))
  | (j, c) :: rest, (k, d) :: rest', hts, hus, u, v, hu, hv, xs, ys, htext, hvalues => by
    obtain ⟨hc, hrest⟩ := Bool.and_eq_true_iff.mp hts
    obtain ⟨hd, hrest'⟩ := Bool.and_eq_true_iff.mp hus
    rw [moreSql, moreSql] at htext
    rw [termBindings, termBindings, List.append_assoc, List.append_assoc] at hvalues
    simp only [String.toList_append, List.append_assoc] at htext
    obtain ⟨rfl, hterm⟩ := legible_conjunction.text_cancel trivial trivial (free_of_nil _)
      (free_of_nil _) htext
    obtain ⟨rfl, hmore, hvalues⟩ := cancel hc hd (free_moreSql rest hu) (free_moreSql rest' hv)
      hterm hvalues
    obtain ⟨rfl, hends⟩ := cancel_more hrest hrest' hu hv hmore hvalues
    exact ⟨rfl, hends⟩

end

theorem legible_sql : Legible sql bindings id (fun c => c.isExplicit = true) ["\""] :=
  fun _ _ hc hd _ _ hu hv _ _ htext hvalues => cancel hc hd hu hv htext hvalues

theorem legible_terms : Legible termsSql termBindings id (fun ts => (group ts).isExplicit = true)
    termWords :=
  fun _ _ hts hus _ _ hu hv _ _ htext hvalues => cancel_terms hts hus hu hv htext hvalues

end Condition

end NestedRead
