import NestedRead.Proofs.Text.Joined
import NestedRead.Statement.Render
import Std.Data.String.ToNat

/-!
# Texts that can be read in one way only

`Sql.Legible` is about texts that are written one behind the other, together with the values of
their placeholders. What is written for a thing is legible when the thing can be told from it, and
where its text and its values end as well, whatever stands behind it. For that, what stands behind
must not look as if the text went on: it begins with none of a few words, such as another double
quote behind a quoted name.

Legible texts are made of legible texts: one behind the other, in lists with a separator, behind
keywords, or left out. In each case it has to be seen only that certain words do not begin with each
other.
-/

set_option autoImplicit false

namespace NestedRead.Sql

/-! ## Words -/

/-- Neither of two texts begins with the other. -/
def Apart (s t : String) : Prop :=
  ¬ s.toList <+: t.toList ∧ ¬ t.toList <+: s.toList

instance (s t : String) : Decidable (Apart s t) := inferInstanceAs (Decidable (_ ∧ _))

theorem Apart.not_begins {s t : String} (h : Apart s t) (rest : List Char) :
    ¬ s.toList <+: t.toList ++ rest := by
  intro hs
  rcases List.prefix_or_prefix_of_prefix hs (List.prefix_append t.toList rest) with hst | hts
  · exact h.1 hst
  · exact h.2 hts

theorem Apart.ne {s t : String} (h : Apart s t) (u v : List Char) :
    s.toList ++ u ≠ t.toList ++ v :=
  fun heq => h.not_begins v (heq ▸ List.prefix_append s.toList u)

/-- The text begins with none of the words. -/
def Free (words : List String) (text : List Char) : Prop :=
  ∀ w ∈ words, ¬ w.toList <+: text

theorem Free.mono {words more : List String} {text : List Char} (h : Free more text)
    (hsub : words ⊆ more) : Free words text :=
  fun w hw => h w (hsub hw)

theorem free_of_nil (text : List Char) : Free [] text :=
  fun _ hw => absurd hw List.not_mem_nil

theorem free_nil {words : List String} (h : ∀ w ∈ words, w ≠ "") : Free words [] := by
  intro w hw hprefix
  exact h w hw (String.toList_eq_nil_iff.mp (List.prefix_nil.mp hprefix))

theorem free_of_apart {words : List String} {text : String} (h : ∀ w ∈ words, Apart w text)
    (rest : List Char) : Free words (text.toList ++ rest) :=
  fun w hw => (h w hw).not_begins rest

/-- The text begins with one of the words. -/
def Starts (leads : List String) (text : String) : Prop :=
  ∃ lead ∈ leads, ∃ rest, text = lead ++ rest

theorem starts_append (lead rest : String) : Starts [lead] (lead ++ rest) :=
  ⟨lead, List.mem_singleton.mpr rfl, rest, rfl⟩

theorem starts_self (lead : String) : Starts [lead] lead :=
  ⟨lead, List.mem_singleton.mpr rfl, "", String.append_empty.symm⟩

theorem Starts.free {leads words : List String} {text : String} (h : Starts leads text)
    (hapart : ∀ lead ∈ leads, ∀ w ∈ words, Apart w lead) (rest : List Char) :
    Free words (text.toList ++ rest) := by
  obtain ⟨lead, hlead, tail, rfl⟩ := h
  rw [String.toList_append, List.append_assoc]
  exact free_of_apart (hapart lead hlead) _

theorem Starts.mono {leads more : List String} {text : String} (h : Starts leads text)
    (hsub : leads ⊆ more) : Starts more text := by
  obtain ⟨lead, hlead, rest⟩ := h
  exact ⟨lead, hsub hlead, rest⟩

theorem Starts.append {leads : List String} {text : String} (h : Starts leads text)
    (rest : String) : Starts leads (text ++ rest) := by
  obtain ⟨lead, hlead, tail, rfl⟩ := h
  exact ⟨lead, hlead, tail ++ rest, String.append_assoc⟩

/-- A text that begins with one of the words is not one that must not. -/
theorem Starts.not_free {leads : List String} {text : String} (h : Starts leads text)
    {u : List Char} (rest : List Char) (hu : Free leads u) : u ≠ text.toList ++ rest := by
  rintro rfl
  obtain ⟨lead, hlead, tail, rfl⟩ := h
  rw [String.toList_append, List.append_assoc] at hu
  exact hu lead hlead (List.prefix_append _ _)

theorem Starts.ne {leads others : List String} {s t : String} (hs : Starts leads s)
    (ht : Starts others t) (hapart : ∀ lead ∈ leads, ∀ other ∈ others, Apart lead other)
    (u v : List Char) : s.toList ++ u ≠ t.toList ++ v := by
  obtain ⟨lead, hlead, s, rfl⟩ := hs
  obtain ⟨other, hother, t, rfl⟩ := ht
  rw [String.toList_append, String.toList_append, List.append_assoc, List.append_assoc]
  exact (hapart lead hlead other hother).ne _ _

/-- The text is empty, or it begins with one of the words. -/
def Opens (leads : List String) (text : String) : Prop :=
  text = "" ∨ Starts leads text

theorem Opens.free {leads words : List String} {text : String} (h : Opens leads text)
    (hapart : ∀ lead ∈ leads, ∀ w ∈ words, Apart w lead) {rest : List Char}
    (hrest : Free words rest) : Free words (text.toList ++ rest) := by
  rcases h with rfl | hstarts
  · exact hrest
  · exact hstarts.free hapart rest

theorem opens_joined {leads parts : List String} (h : ∀ part ∈ parts, Starts leads part) :
    Opens leads (Text.joined "" parts) := by
  cases parts with
  | nil => exact Or.inl rfl
  | cons part rest =>
    rw [Text.joined_empty_cons]
    exact Or.inr ((h part List.mem_cons_self).append _)

/-! ## Legible texts -/

section

variable {σ τ κ ι : Type}

/-- From what is written for a thing that is `ok`, and the values that come with it, one can tell
the part of it and where the text and the values end, if none of the words stands behind. -/
def Legible (text : σ → String) (values : σ → List Json) (part : σ → κ) (ok : σ → Prop)
    (words : List String) : Prop :=
  ∀ ⦃a b : σ⦄, ok a → ok b → ∀ ⦃u v : List Char⦄, Free words u → Free words v →
    ∀ ⦃xs ys : List Json⦄, (text a).toList ++ u = (text b).toList ++ v →
      values a ++ xs = values b ++ ys → part a = part b ∧ u = v ∧ xs = ys

/-- A text that comes with no values. -/
def noValues : σ → List Json := fun _ => []

variable {text : σ → String} {values : σ → List Json} {part : σ → κ} {ok : σ → Prop}
  {words : List String}

theorem legible_of_text (h : ∀ a b : σ, ok a → ok b → ∀ u v : List Char, Free words u →
    Free words v → (text a).toList ++ u = (text b).toList ++ v → part a = part b ∧ u = v) :
    Legible text noValues part ok words := by
  intro a b ha hb u v hu hv xs ys htext hvalues
  obtain ⟨hpart, huv⟩ := h a b ha hb u v hu hv htext
  exact ⟨hpart, huv, hvalues⟩

/-- Where there are no values, the text alone tells. -/
theorem Legible.text_cancel (h : Legible text noValues part ok words) {a b : σ} (ha : ok a)
    (hb : ok b) {u v : List Char} (hu : Free words u) (hv : Free words v)
    (htext : (text a).toList ++ u = (text b).toList ++ v) : part a = part b ∧ u = v := by
  have hvalues : noValues a ++ [] = noValues b ++ [] := rfl
  obtain ⟨hpart, huv, -⟩ := h ha hb hu hv htext hvalues
  exact ⟨hpart, huv⟩

/-- Keywords of which none begins with another. -/
theorem legible_of_apart {text : σ → String} (h : ∀ a b, a = b ∨ Apart (text a) (text b)) :
    Legible text noValues id (fun _ => True) [] :=
  legible_of_text fun a b _ _ u v _ _ htext => by
    rcases h a b with rfl | hapart
    · exact ⟨rfl, List.append_cancel_left htext⟩
    · exact absurd htext (hapart.ne u v)

theorem Legible.mono (h : Legible text values part ok words) {more : List String}
    (hwords : words ⊆ more) : Legible text values part ok more :=
  fun _ _ ha hb _ _ hu hv => h ha hb (hu.mono hwords) (hv.mono hwords)

theorem Legible.imp (h : Legible text values part ok words) {ok' : σ → Prop}
    (hok : ∀ a, ok' a → ok a) : Legible text values part ok' words :=
  fun _ _ ha hb => h (hok _ ha) (hok _ hb)

/-- What is written for a thing is written for something that belongs to it. -/
theorem Legible.comap (h : Legible text values part ok words) (e : τ → σ) :
    Legible (fun a => text (e a)) (fun a => values (e a)) (fun a => part (e a))
      (fun a => ok (e a)) words :=
  fun _ _ ha hb _ _ hu hv => h ha hb hu hv

theorem Legible.map_part (h : Legible text values part ok words) {other : σ → ι}
    (hpart : ∀ a b, ok a → ok b → part a = part b → other a = other b) :
    Legible text values other ok words := by
  intro a b ha hb u v hu hv xs ys htext hvalues
  obtain ⟨heq, huv⟩ := h ha hb hu hv htext hvalues
  exact ⟨hpart a b ha hb heq, huv⟩

theorem Legible.congr_values (h : Legible text values part ok words) {values' : σ → List Json}
    (hvalues : ∀ a, values a = values' a) : Legible text values' part ok words :=
  (funext hvalues : values = values') ▸ h

theorem Legible.keyword (keyword : String) (h : Legible text values part ok words) :
    Legible (fun a => keyword ++ text a) values part ok words := by
  intro a b ha hb u v hu hv xs ys htext
  rw [String.toList_append, String.toList_append, List.append_assoc, List.append_assoc] at htext
  exact h ha hb hu hv (List.append_cancel_left htext)

/-- One text behind another. What the words of the first forbid must not stand at the start of the
second, nor behind it where the second is empty. -/
theorem Legible.append {text' : σ → String} {values' : σ → List Json} {part' : σ → ι}
    {before : List String} (h : Legible text values part ok before)
    (h' : Legible text' values' part' ok words)
    (hfree : ∀ b, ok b → ∀ u, Free words u → Free before ((text' b).toList ++ u)) :
    Legible (fun a => text a ++ text' a) (fun a => values a ++ values' a)
      (fun a => (part a, part' a)) ok words := by
  intro a b ha hb u v hu hv xs ys htext hvalues
  rw [String.toList_append, String.toList_append, List.append_assoc, List.append_assoc] at htext
  rw [List.append_assoc, List.append_assoc] at hvalues
  obtain ⟨hpart, htext, hvalues⟩ := h ha hb (hfree a ha u hu) (hfree b hb v hv) htext hvalues
  obtain ⟨hpart', huv⟩ := h' ha hb hu hv htext hvalues
  exact ⟨Prod.ext hpart hpart', huv⟩

/-- The second text begins with a word of its own. -/
theorem Legible.followed {text' : σ → String} {values' : σ → List Json} {part' : σ → ι}
    {before leads : List String} (h : Legible text values part ok before)
    (h' : Legible text' values' part' ok words) (hleads : ∀ b, ok b → Starts leads (text' b))
    (hapart : ∀ lead ∈ leads, ∀ w ∈ before, Apart w lead) :
    Legible (fun a => text a ++ text' a) (fun a => values a ++ values' a)
      (fun a => (part a, part' a)) ok words :=
  h.append h' fun b hb u _ => (hleads b hb).free hapart u

/-- The second text begins with a word of its own, or is left out. -/
theorem Legible.section {text' : σ → String} {values' : σ → List Json} {part' : σ → ι}
    {before leads : List String} (h : Legible text values part ok before)
    (h' : Legible text' values' part' ok words) (hopens : ∀ b, ok b → Opens leads (text' b))
    (hapart : ∀ lead ∈ leads, ∀ w ∈ before, Apart w lead) :
    Legible (fun a => text a ++ text' a) (fun a => values a ++ values' a)
      (fun a => (part a, part' a)) ok (before ++ words) :=
  h.append (h'.mono (List.subset_append_right before words)) fun b hb _ hu =>
    (hopens b hb).free hapart (hu.mono (List.subset_append_left before words))

end

/-! ## Lists -/

section

variable {σ : Type} {text : σ → String} {values : σ → List Json} {ok : σ → Prop}
  {words : List String}

/-- Texts one behind the other, each of which begins with a word of its own. -/
theorem Legible.many {leads : List String} (h : Legible text values id ok words)
    (hleads : ∀ a, ok a → Starts leads (text a))
    (hapart : ∀ lead ∈ leads, ∀ w ∈ words, Apart w lead) :
    Legible (fun as : List σ => Text.joined "" (as.map text)) (fun as => as.flatMap values) id
      (fun as => ∀ a ∈ as, ok a) (leads ++ words) := by
  intro as bs has hbs u v hu hv xs ys htext hvalues
  have hparts : ∀ cs : List σ, (∀ c ∈ cs, ok c) → Opens leads (Text.joined "" (cs.map text)) :=
    fun cs hcs => opens_joined (List.forall_mem_map.mpr fun c hc => hleads c (hcs c hc))
  dsimp only [id] at htext hvalues ⊢
  induction as generalizing bs with
  | nil =>
    cases bs with
    | nil => exact ⟨rfl, htext, hvalues⟩
    | cons b bs =>
      rw [List.map_cons, Text.joined_empty_cons] at htext
      exact absurd htext (((hleads b (hbs b List.mem_cons_self)).append _).not_free v
        (hu.mono (List.subset_append_left leads words)))
  | cons a as ih =>
    cases bs with
    | nil =>
      rw [List.map_cons, Text.joined_empty_cons] at htext
      exact absurd htext.symm (((hleads a (has a List.mem_cons_self)).append _).not_free u
        (hv.mono (List.subset_append_left leads words)))
    | cons b bs =>
      rw [List.forall_mem_cons] at has hbs
      rw [List.map_cons, List.map_cons, Text.joined_empty_cons, Text.joined_empty_cons,
        String.toList_append, String.toList_append, List.append_assoc, List.append_assoc] at htext
      rw [List.flatMap_cons, List.flatMap_cons, List.append_assoc, List.append_assoc] at hvalues
      -- Behind one of the texts stands another one, or what stands behind the list.
      obtain ⟨rfl, htext, hvalues⟩ := h has.1 hbs.1
        ((hparts as has.2).free hapart (hu.mono (List.subset_append_right leads words)))
        ((hparts bs hbs.2).free hapart (hv.mono (List.subset_append_right leads words)))
        htext hvalues
      obtain ⟨rfl, huv⟩ := ih has.2 hbs.2 htext hvalues
      exact ⟨rfl, huv⟩

/-- A list that is not empty, with a separator between its items. -/
theorem Legible.joined {separator : String} (h : Legible text values id ok words)
    (hapart : ∀ w ∈ words, Apart w separator) :
    Legible (fun as : List σ => Text.joined separator (as.map text)) (fun as => as.flatMap values)
      id (fun as => as ≠ [] ∧ ∀ a ∈ as, ok a) (separator :: words) := by
  have hstarts : ∀ a, Starts [separator] (separator ++ text a) :=
    fun a => starts_append separator (text a)
  have hleads : ∀ lead ∈ [separator], ∀ w ∈ words, Apart w lead := by simpa using hapart
  have hmore := (h.keyword separator).many (fun a _ => hstarts a) hleads
  have hall : Legible (fun p : σ × List σ => _) _ _ _ _ :=
    ((h.comap Prod.fst).imp fun p (hp : ok p.1 ∧ ∀ a ∈ p.2, ok a) => hp.1).section
      ((hmore.comap Prod.snd).imp fun p hp => hp.2)
      (fun p _ => opens_joined (List.forall_mem_map.mpr fun a _ => hstarts a)) hleads
  rintro (_ | ⟨a, as⟩) (_ | ⟨b, bs⟩) ⟨hne, has⟩ ⟨hne', hbs⟩ u v hu hv xs ys htext hvalues
  · exact absurd rfl hne
  · exact absurd rfl hne
  · exact absurd rfl hne'
  · dsimp only at htext hvalues
    rw [List.map_cons, List.map_cons, Text.joined_cons, Text.joined_cons, List.map_map,
      List.map_map] at htext
    have hwords : words ++ ([separator] ++ words) ⊆ separator :: words := by simp
    obtain ⟨heq, huv⟩ := hall (a := (a, as)) (b := (b, bs)) (List.forall_mem_cons.mp has)
      (List.forall_mem_cons.mp hbs) (hu.mono hwords) (hv.mono hwords) htext hvalues
    exact ⟨by cases heq; rfl, huv⟩

/-- A keyword and a list, or nothing at all. -/
theorem Legible.list {items : List σ → String} {values : List σ → List Json}
    {ok : List σ → Prop} (keyword : String)
    (h : Legible items values id (fun as => as ≠ [] ∧ ok as) words) (hvalues : values [] = []) :
    Legible (fun as => if as.isEmpty then "" else keyword ++ items as) values id ok
      (keyword :: words) := by
  have hlead : ∀ {u : List Char}, Free (keyword :: words) u → Free [keyword] u :=
    fun hu => hu.mono (by simp)
  have hwords : ∀ {u : List Char}, Free (keyword :: words) u → Free words u :=
    fun hu => hu.mono (List.subset_cons_self keyword words)
  rintro (_ | ⟨a, as⟩) (_ | ⟨b, bs⟩) has hbs u v hu hv xs ys htext hrest
  · exact ⟨rfl, htext, by simpa only [hvalues, List.nil_append] using hrest⟩
  · exact absurd htext ((starts_append keyword (items (b :: bs))).not_free v (hlead hu))
  · exact absurd htext.symm ((starts_append keyword (items (a :: as))).not_free u (hlead hv))
  · exact h.keyword keyword ⟨List.cons_ne_nil a as, has⟩ ⟨List.cons_ne_nil b bs, hbs⟩ (hwords hu)
      (hwords hv) htext hrest

theorem opens_list (keyword : String) (items : List σ → String) (as : List σ) :
    Opens [keyword] (if as.isEmpty then "" else keyword ++ items as) := by
  split
  · exact Or.inl rfl
  · exact Or.inr (starts_append keyword (items as))

/-- A keyword and a thing, or nothing at all. -/
theorem Legible.option (keyword : String) (h : Legible text noValues id ok words) :
    Legible (fun o : Option σ => o.elim "" (keyword ++ text ·)) noValues id
      (fun o => ∀ a ∈ o, ok a) (keyword :: words) := by
  have hlead : ∀ {u : List Char}, Free (keyword :: words) u → Free [keyword] u :=
    fun hu => hu.mono (by simp)
  have hwords : ∀ {u : List Char}, Free (keyword :: words) u → Free words u :=
    fun hu => hu.mono (List.subset_cons_self keyword words)
  rintro (_ | a) (_ | b) ha hb u v hu hv xs ys htext hrest
  · exact ⟨rfl, htext, hrest⟩
  · exact absurd htext ((starts_append keyword (text b)).not_free v (hlead hu))
  · exact absurd htext.symm ((starts_append keyword (text a)).not_free u (hlead hv))
  · obtain ⟨rfl, hends⟩ := h.keyword keyword (ha a rfl) (hb b rfl) (hwords hu) (hwords hv) htext
      hrest
    exact ⟨rfl, hends⟩

theorem opens_option (keyword : String) (text : σ → String) (o : Option σ) :
    Opens [keyword] (o.elim "" (keyword ++ text ·)) := by
  cases o with
  | none => exact Or.inl rfl
  | some a => exact Or.inr (starts_append keyword (text a))

end

/-! ## Names and numbers -/

/-- The end of a name is the first double quote that stands alone. -/
theorem doubleQuotes_cancel : ∀ (cs ds : List Char) {u v : List Char}, Free ["\""] u →
    Free ["\""] v → doubleQuotes cs ++ '"' :: u = doubleQuotes ds ++ '"' :: v → cs = ds ∧ u = v
  | [], [], _, _, _, _, h => ⟨rfl, (List.cons.inj h).2⟩
  | [], d :: ds, u, v, hu, _, h => by
    by_cases hd : d = '"'
    · rw [doubleQuotes, doubleQuotes, if_pos hd] at h
      cases h
      exact absurd (List.prefix_append ['"'] _) (hu "\"" List.mem_cons_self)
    · rw [doubleQuotes, doubleQuotes, if_neg hd] at h
      exact absurd (List.cons.inj h).1.symm hd
  | c :: cs, [], u, v, _, hv, h => by
    by_cases hc : c = '"'
    · rw [doubleQuotes, doubleQuotes, if_pos hc] at h
      cases h
      exact absurd (List.prefix_append ['"'] _) (hv "\"" List.mem_cons_self)
    · rw [doubleQuotes, doubleQuotes, if_neg hc] at h
      exact absurd (List.cons.inj h).1 hc
  | c :: cs, d :: ds, u, v, hu, hv, h => by
    rw [doubleQuotes, doubleQuotes] at h
    split at h <;> rename_i hc <;> split at h <;> rename_i hd
    · obtain ⟨rfl, huv⟩ := doubleQuotes_cancel cs ds hu hv (List.cons.inj (List.cons.inj h).2).2
      exact ⟨by rw [hc, hd], huv⟩
    · exact absurd (List.cons.inj h).1.symm hd
    · exact absurd (List.cons.inj h).1 hc
    · obtain ⟨rfl, hrest⟩ := List.cons.inj h
      obtain ⟨rfl, huv⟩ := doubleQuotes_cancel cs ds hu hv hrest
      exact ⟨rfl, huv⟩

theorem legible_identifier : Legible identifier noValues id (fun _ => True) ["\""] :=
  legible_of_text fun a b _ _ u v hu hv h => by
    rw [identifier, identifier, String.toList_ofList, String.toList_ofList] at h
    have hnames : doubleQuotes a.toList ++ '"' :: u = doubleQuotes b.toList ++ '"' :: v := by
      simpa using h
    obtain ⟨hab, huv⟩ := doubleQuotes_cancel _ _ hu hv hnames
    exact ⟨String.toList_inj.mp hab, huv⟩

theorem starts_identifier (name : String) : Starts ["\""] (identifier name) :=
  ⟨"\"", List.mem_cons_self, String.ofList (doubleQuotes name.toList ++ ['"']), by
    rw [identifier, ← String.toList_inj]
    simp⟩

theorem legible_qualified :
    Legible (fun p : String × String => qualified p.1 p.2) noValues id (fun _ => True) ["\""] := by
  have hsecond : Legible (fun p : String × String => "." ++ identifier p.2) noValues Prod.snd
      (fun _ => True) ["\""] :=
    (legible_identifier.comap Prod.snd).keyword "."
  have hboth := (legible_identifier.comap Prod.fst).followed hsecond
    (fun p _ => starts_append "." (identifier p.2)) (by decide)
  simp only [← String.append_assoc] at hboth
  exact hboth

theorem starts_qualified (tableAlias column : String) :
    Starts ["\""] (qualified tableAlias column) :=
  ((starts_identifier tableAlias).append _).append _

theorem legible_table : Legible table noValues id (fun _ => True) [".", "\""] := by
  have hparts : Legible (fun parts : List String => Text.joined "." (parts.map identifier))
      (fun parts => parts.flatMap noValues) id (fun parts => parts ≠ [] ∧ ∀ part ∈ parts, True)
      [".", "\""] :=
    legible_identifier.joined (by decide)
  have hnames := (hparts.comap (Text.piecesOf '.')).congr_values
    fun name => List.flatMap_eq_nil_iff.mpr fun _ _ => rfl
  refine (hnames.map_part fun a b _ _ h => Text.piecesOf_injective '.' h).imp ?_
  exact fun name _ => ⟨fun h => Text.pieces_ne_nil '.' _ (List.map_eq_nil_iff.mp h),
    fun _ _ => trivial⟩

/-- The words that a number goes on with. -/
def digits : List String :=
  (List.range 10).map fun k => String.singleton (Char.ofNat (48 + k))

theorem singleton_mem_digits {c : Char} (h : c.isDigit = true) : String.singleton c ∈ digits := by
  obtain ⟨hlow, hhigh⟩ : 48 ≤ c.toNat ∧ c.toNat ≤ 57 := Char.isDigit_iff_toNat.mp h
  have hc : Char.ofNat (48 + (c.toNat - 48)) = c := by
    rw [Nat.add_sub_cancel' hlow, Char.ofNat_toNat]
  refine List.mem_map.mpr ⟨c.toNat - 48, List.mem_range.mpr ?_, by rw [hc]⟩
  exact Nat.sub_lt_left_of_lt_add hlow (Nat.lt_succ_of_le hhigh)

theorem Free.isDigit_eq_false {c : Char} {cs : List Char} (h : Free digits (c :: cs)) :
    c.isDigit = false := by
  cases hdigit : c.isDigit with
  | false => rfl
  | true => exact absurd ⟨cs, by simp⟩ (h _ (singleton_mem_digits hdigit))

theorem takeWhile_digits (n : Nat) {u : List Char} (hu : Free digits u) :
    (Nat.toDigits 10 n ++ u).takeWhile Char.isDigit = Nat.toDigits 10 n := by
  have hdigits : ∀ c ∈ Nat.toDigits 10 n, c.isDigit = true :=
    fun c hc => Nat.isDigit_of_mem_toDigits (by decide) (by decide) hc
  rw [List.takeWhile_append_of_pos hdigits]
  cases u with
  | nil => rw [List.takeWhile_nil, List.append_nil]
  | cons c cs =>
    rw [List.takeWhile_cons, hu.isDigit_eq_false, if_neg Bool.false_ne_true, List.append_nil]

theorem legible_number : Legible (fun n : Nat => toString n) noValues id (fun _ => True) digits :=
  legible_of_text fun a b _ _ u v hu hv h => by
    have hdigits : Nat.toDigits 10 a ++ u = Nat.toDigits 10 b ++ v := by
      rwa [← Nat.toList_repr, ← Nat.toList_repr]
    have hsame : Nat.toDigits 10 a = Nat.toDigits 10 b := by
      rw [← takeWhile_digits a hu, hdigits, takeWhile_digits b hv]
    rw [hsame] at hdigits
    rw [← Nat.toList_repr, ← Nat.toList_repr, String.toList_inj] at hsame
    exact ⟨Nat.repr_injective hsame, List.append_cancel_left hdigits⟩

end NestedRead.Sql
