import NestedRead.Proofs.Ascending
import NestedRead.Proofs.Number.NearestFloat
import NestedRead.Proofs.Rows.NumericOrder
import NestedRead.Proofs.Rows.Row

/-!
# Ids as keys

The index keeps ids in two ways. The children of a record stand in a set that is ordered by the
comparison of ids. Objects, parents and roots are looked up by hashing: an id is searched for by
comparison, but only among those with its digest. The two agree on which ids are one key only if the
comparison is a total order and ids that it does not tell apart have the same digest.

Both hold, and they are one fact: ids that compare equal are of one form with one payload
(`EntityId.cmp_eq_iff`), and so a hasher is fed the same for them. Nothing is lost on the way to
the hasher either (`EntityId.hashInputs_eq_iff`): a float is its bits, and an integer that was read
fits its word.
-/

set_option autoImplicit false

namespace NestedRead

/-! ## Floats as bits -/

namespace Binary64

theorem toNat_bits (x : Binary64) :
    x.bits.toNat = (if x.negative then 2 ^ 63 else 0) + x.magnitude := by
  have hfinite : x.magnitude < 2047 * 2 ^ 52 := x.finite
  have hfits : (if x.negative then pow2 63 else 0) + x.magnitude < 2 ^ 64 := by
    have hsign : (if x.negative then pow2 63 else 0) ≤ 2 ^ 63 := by split <;> decide
    omega
  exact UInt64.toNat_ofNat_of_lt hfits

/-- A float is known by its bits. -/
theorem bits_inj {x y : Binary64} : x.bits = y.bits ↔ x = y := by
  refine ⟨fun h => ?_, fun h => h ▸ rfl⟩
  have hbits := congrArg UInt64.toNat h
  rw [toNat_bits, toNat_bits] at hbits
  obtain ⟨xs, xm, hx⟩ := x
  obtain ⟨ys, ym, hy⟩ := y
  have hx : xm < 2047 * 2 ^ 52 := hx
  have hy : ym < 2047 * 2 ^ 52 := hy
  cases xs <;> cases ys <;> simp at hbits ⊢ <;> omega

end Binary64

namespace EntityId

/-! ## Numbers next to floats -/

/-- Next to a float an id is compared as a float: by value and then by the sign of a zero. An
integer is compared as the float nearest to it, and goes first where that is the same. -/
structure ComparedAsFloat (a b : EntityId) : Prop where
  float : ∀ x y, a = .float x → b = .float y →
    cmp a b = (compare x.units y.units).then (compare y.negative x.negative)
  integer : ∀ n y, a = .integer n → b = .float y →
    ∃ x : Binary64, x.Nearest n ∧ cmp a b = (cmp (.float x) b).then .lt

/-! ## Equal ids -/

/-- An id that some value is. -/
def OfValue (id : EntityId) : Prop := ∃ value, ofJson value = .ok (some id)

/-- Only integers of 64 bits are read. -/
theorem OfValue.inRange {n : Int} (h : OfValue (.integer n)) : Number.InRange n := by
  obtain ⟨value, h⟩ := h
  unfold ofJson at h
  split at h <;> cases h
  assumption

/-- Two ids of one form, with the same integer, the same bits or the same text. -/
inductive Identical : EntityId → EntityId → Prop
  | integer (n : Int) : Identical (.integer n) (.integer n)
  | float {x y : Binary64} (bits : x.bits = y.bits) : Identical (.float x) (.float y)
  | text (s : String) : Identical (.text s) (.text s)

theorem OfValue.comparedAsFloat {a b : EntityId} (ha : a.OfValue) : a.ComparedAsFloat b := by
  refine ⟨fun x y hx hy => ?_, fun n y hn hy => ?_⟩
  · rw [hx, hy, cmp, Binary64.compare_key]
  · subst hn hy
    obtain ⟨x, hnearest, hkey⟩ := Binary64.exists_nearest ha.inRange
    exact ⟨x, hnearest, by rw [cmp, cmp, hkey]⟩

theorem identical_iff {a b : EntityId} : Identical a b ↔ a = b := by
  constructor
  · rintro (n | hbits | s)
    · rfl
    · rw [Binary64.bits_inj.mp hbits]
    · rfl
  · rintro rfl
    cases a with
    | integer n => exact .integer n
    | float x => exact .float rfl
    | text s => exact .text s

theorem cmp_eq_iff {a b : EntityId} : cmp a b = .eq ↔ a = b :=
  Std.LawfulEqCmp.compare_eq_iff_eq

/-! ## Hashed ids -/

/-- A word of 128 bits keeps an integer of 64. -/
theorem ofInt_inj {m n : Int} (hm : Number.InRange m) (hn : Number.InRange n)
    (h : BitVec.ofInt 128 m = BitVec.ofInt 128 n) : m = n := by
  have hwords := congrArg BitVec.toInt h
  rw [BitVec.toInt_ofInt, BitVec.toInt_ofInt] at hwords
  obtain ⟨hm, hm'⟩ := hm
  obtain ⟨hn, hn'⟩ := hn
  rwa [Int.bmod_eq_of_le (by omega) (by omega), Int.bmod_eq_of_le (by omega) (by omega)] at hwords

/-- An id that was read is known by what a hasher is fed for it. -/
theorem hashInputs_eq_iff {a b : EntityId} (ha : a.OfValue) (hb : b.OfValue) :
    a.hashInputs = b.hashInputs ↔ a = b := by
  refine ⟨fun h => ?_, fun h => h ▸ rfl⟩
  obtain ⟨hrank, hpayload⟩ := List.cons.inj h
  cases a <;> cases b <;> simp [rank] at hrank hpayload
  · rw [ofInt_inj ha.inRange hb.inRange hpayload]
  · rw [Binary64.bits_inj.mp hpayload]
  · rw [hpayload]

/-- How a hash table tells whether two ids are one key: among those with one digest, by
comparison. -/
def SameEntry (digest : List HashInput → UInt64) (a b : EntityId) : Prop :=
  digest a.hashInputs = digest b.hashInputs ∧ cmp a b = .eq

instance (digest : List HashInput → UInt64) (a b : EntityId) : Decidable (SameEntry digest a b) :=
  inferInstanceAs (Decidable (_ ∧ _))

/-- Ids that compare equal are found under any digest. -/
theorem sameEntry_iff {digest : List HashInput → UInt64} {a b : EntityId} :
    SameEntry digest a b ↔ a = b := by
  rw [SameEntry, cmp_eq_iff]
  exact and_iff_right_of_imp fun h => h ▸ rfl

end EntityId

namespace RowIndex

/-! ## The index as tables and sets -/

variable (digest : List EntityId.HashInput → UInt64)

/-- The roots stand behind a hash set. -/
theorem addRoot_eq (ids : List EntityId) (id : EntityId) :
    addRoot ids (some id) =
      if ∃ seen ∈ ids, EntityId.SameEntry digest seen id then ids else ids ++ [id] := by
  simp only [addRoot, EntityId.sameEntry_iff, exists_eq_right, List.contains_iff_mem]

/-- The objects of an alias stand in a hash table. -/
theorem poolObject?_upsert_self (pool : List (String × List (EntityId × Json.Members)))
    (tableAlias : String) (id other : EntityId) (fields : Json.Members) :
    poolObject? (upsert pool tableAlias id fields) tableAlias other =
      if EntityId.SameEntry digest id other then
        some (mergeFields ((poolObject? pool tableAlias other).getD []) fields)
      else poolObject? pool tableAlias other := by
  simp only [poolObject?_upsert, EntityId.sameEntry_iff, true_and]

/-- The parents at a path stand in a hash table. -/
theorem childrenIn_link_self (adjacency : List (FieldPath × List (EntityId × List EntityId)))
    (path : FieldPath) (parent child other : EntityId) :
    childrenIn (link path parent child adjacency) path other =
      if EntityId.SameEntry digest parent other then
        Ordered.insertNew EntityId.cmp child (childrenIn adjacency path other)
      else childrenIn adjacency path other := by
  simp only [childrenIn_link, EntityId.sameEntry_iff, true_and]

/-- The children of a parent are an ordered set. -/
theorem insertNew_eq_self_iff {ids : List EntityId} (h : Ordered.Ascending EntityId.cmp ids)
    (id : EntityId) :
    Ordered.insertNew EntityId.cmp id ids = ids ↔ ∃ seen ∈ ids, EntityId.cmp seen id = .eq := by
  simp only [EntityId.cmp_eq_iff, exists_eq_right]
  refine ⟨fun hsame => ?_, Ordered.insertNew_of_mem h⟩
  rw [← hsame]
  exact Ordered.mem_insertNew.mpr (.inl rfl)

/-- The tables and sets of the index, under one digest, take two ids for one key when they compare
equal. -/
structure KeyedAlike (digest : List EntityId.HashInput → UInt64) (a b : EntityId) : Prop where
  entry : EntityId.SameEntry digest a b ↔ EntityId.cmp a b = .eq
  roots : ∀ ids, addRoot ids (some b) =
    if ∃ seen ∈ ids, EntityId.SameEntry digest seen b then ids else ids ++ [b]
  objects : ∀ pool tableAlias fields,
    poolObject? (upsert pool tableAlias a fields) tableAlias b =
      if EntityId.SameEntry digest a b then
        some (mergeFields ((poolObject? pool tableAlias b).getD []) fields)
      else poolObject? pool tableAlias b
  parents : ∀ adjacency path child, childrenIn (link path a child adjacency) path b =
    if EntityId.SameEntry digest a b then
      Ordered.insertNew EntityId.cmp child (childrenIn adjacency path b)
    else childrenIn adjacency path b
  children : ∀ ids, Ordered.Ascending EntityId.cmp ids →
    (Ordered.insertNew EntityId.cmp b ids = ids ↔ ∃ seen ∈ ids, EntityId.cmp seen b = .eq)

theorem keyedAlike (a b : EntityId) : KeyedAlike digest a b where
  entry := EntityId.sameEntry_iff.trans EntityId.cmp_eq_iff.symm
  roots := fun ids => addRoot_eq digest ids b
  objects := fun pool tableAlias fields => poolObject?_upsert_self digest pool tableAlias a b fields
  parents := fun adjacency path child => childrenIn_link_self digest adjacency path a child b
  children := fun _ hids => insertNew_eq_self_iff hids b

end RowIndex

/-- **Ids are lawful keys.** They are in a total order, which next to a float is that of floats. In
it two ids are equal exactly when they have the same form and payload, and then a hasher is fed the
same for them and only then. So under any digest the hash tables of objects and parents, the hash
set of roots and the ordered sets of children agree on which ids are one. -/
theorem EntityId.lawful_key {a b : EntityId} (ha : a.OfValue) (hb : b.OfValue) :
    cmp b a = (cmp a b).swap ∧
    (∀ c, (cmp a b).isLE → (cmp b c).isLE → (cmp a c).isLE) ∧
    a.ComparedAsFloat b ∧
    (cmp a b = .eq ↔ Identical a b) ∧
    (cmp a b = .eq ↔ a.hashInputs = b.hashInputs) ∧
    ∀ digest : List HashInput → UInt64, RowIndex.KeyedAlike digest a b := by
  refine ⟨Std.OrientedCmp.eq_swap, fun c => Std.TransCmp.isLE_trans, ha.comparedAsFloat, ?_, ?_,
    fun digest => RowIndex.keyedAlike digest a b⟩
  · exact cmp_eq_iff.trans identical_iff.symm
  · exact cmp_eq_iff.trans (hashInputs_eq_iff ha hb).symm

/-- An integer is rounded onto a float and stays a key of its own, before it. -/
theorem EntityId.lawful_key_crowded :
    (ofNumber Sample.roundedDown).OfValue ∧ (float Sample.lowerFloat).OfValue ∧
    (cmp (ofNumber Sample.roundedDown) (.text "a")).isLE ∧
    ¬ (ofNumber Sample.roundedDown).Identical (float Sample.lowerFloat) ∧
    RowIndex.addRoot [ofNumber Sample.roundedDown] (some (float Sample.lowerFloat)) =
      [ofNumber Sample.roundedDown, float Sample.lowerFloat] := by
  have hinteger : (ofNumber Sample.roundedDown).OfValue := ⟨_, ofJson_number _⟩
  have hfloat : (float Sample.lowerFloat).OfValue := ⟨_, ofJson_number (.float _)⟩
  obtain ⟨-, htrans, -, hidentical, -, hkeyed⟩ := lawful_key hinteger hfloat
  have hless : cmp (ofNumber Sample.roundedDown) (float Sample.lowerFloat) = .lt := by
    decide +kernel
  have hne : cmp (ofNumber Sample.roundedDown) (float Sample.lowerFloat) ≠ .eq := by
    rw [hless]
    decide
  have hkeyed := hkeyed fun _ => 0
  refine ⟨hinteger, hfloat, htrans _ (by rw [hless]; rfl) rfl, fun h => hne (hidentical.mpr h), ?_⟩
  rw [hkeyed.roots, if_neg]
  · rfl
  · rintro ⟨seen, hseen, hsame⟩
    rw [List.mem_singleton.mp hseen] at hsame
    exact hne (hkeyed.entry.mp hsame)

end NestedRead
