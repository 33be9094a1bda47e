import Mathlib.Data.Finmap

/-!
# Finite maps represented by lists of pairs

Keys are taken up to an equality test of their own, so the map has classes of keys
where the list has keys.  A list represents a map when it has one pair for every
class the map knows.
-/

namespace Yaeos

open Classical

variable {Key Value : Type} [setoid : Setoid Key]

/-- Finite maps over classes of keys. -/
abbrev ClassMap (Key Value : Type) [setoid : Setoid Key] := Finmap fun _ : Quotient setoid => Value

structure Represents (pairs : List (Key × Value)) (map : ClassMap Key Value) : Prop where
  nodup : (pairs.map fun pair => (⟦pair.1⟧ : Quotient setoid)).Nodup
  lookup : ∀ name value, map.lookup name = some value ↔
    ∃ pair ∈ pairs, ⟦pair.1⟧ = name ∧ pair.2 = value

/-- A new class is one key more. -/
theorem card_insert {map : ClassMap Key Value} {name : Quotient setoid} (fresh : name ∉ map)
    (value : Value) : (map.insert name value).keys.card = map.keys.card + 1 := by
  have counted (any : ClassMap Key Value) : any.keys.card = any.entries.card :=
    Multiset.card_map ..
  rw [counted, counted, Finmap.entries_insert_of_notMem fresh, Multiset.card_cons]

/-- Pairs that are inserted one after the other. -/
noncomputable def insertAll (map : ClassMap Key Value) (pairs : List (Key × Value)) : ClassMap Key Value :=
  pairs.foldl (fun map pair => map.insert ⟦pair.1⟧ pair.2) map

theorem lookup_insertAll_of_notMem {pairs : List (Key × Value)} {name : Quotient setoid}
    (absent : name ∉ pairs.map fun pair => (⟦pair.1⟧ : Quotient setoid))
    (map : ClassMap Key Value) : (insertAll map pairs).lookup name = map.lookup name := by
  induction pairs generalizing map with
  | nil => rfl
  | cons pair rest inductionHypothesis =>
      rw [List.map_cons, List.mem_cons, not_or] at absent
      obtain ⟨other, absent⟩ := absent
      exact (inductionHypothesis absent _).trans (Finmap.lookup_insert_of_ne _ other)

/-- Of distinct classes every pair is found. -/
theorem lookup_insertAll {pairs : List (Key × Value)} {pair : Key × Value}
    (distinct : (pairs.map fun pair => (⟦pair.1⟧ : Quotient setoid)).Nodup) (member : pair ∈ pairs)
    (map : ClassMap Key Value) : (insertAll map pairs).lookup ⟦pair.1⟧ = some pair.2 := by
  induction pairs generalizing map with
  | nil => cases member
  | cons first rest inductionHypothesis =>
      obtain ⟨absent, distinct⟩ := List.nodup_cons.mp distinct
      rcases List.mem_cons.mp member with rfl | member
      · exact (lookup_insertAll_of_notMem absent _).trans (Finmap.lookup_insert _)
      · exact inductionHypothesis distinct member _

namespace Represents

variable {pairs : List (Key × Value)} {map : ClassMap Key Value} {key : Key} {value : Value}

theorem empty : Represents ([] : List (Key × Value)) ∅ where
  nodup := List.nodup_nil
  lookup := by simp

theorem mem_iff (represents : Represents pairs map) :
    ⟦key⟧ ∈ map ↔ ∃ pair ∈ pairs, pair.1 ≈ key := by
  rw [Finmap.mem_iff]
  constructor
  · rintro ⟨value, found⟩
    obtain ⟨pair, member, same, -⟩ := (represents.lookup _ _).mp found
    exact ⟨pair, member, Quotient.exact same⟩
  · rintro ⟨pair, member, similar⟩
    exact ⟨pair.2, (represents.lookup _ _).mpr ⟨pair, member, Quotient.sound similar, rfl⟩⟩

/-- What the map looks up under the class of a key. -/
theorem lookup_key (represents : Represents pairs map) :
    map.lookup ⟦key⟧ = some value ↔ ∃ pair ∈ pairs, pair.1 ≈ key ∧ pair.2 = value := by
  rw [represents.lookup]
  exact exists_congr fun pair => and_congr_right fun _ => and_congr_left fun _ => Quotient.eq

/-- A pair with a new class is put anywhere into the list. -/
theorem insert {before after : List (Key × Value)}
    (represents : Represents (before ++ after) map) (fresh : ⟦key⟧ ∉ map) :
    Represents (before ++ (key, value) :: after) (map.insert ⟦key⟧ value) := by
  have permuted : List.Perm (before ++ (key, value) :: after) ((key, value) :: (before ++ after)) :=
    List.perm_middle
  have absent : ∀ pair ∈ before ++ after, (⟦pair.1⟧ : Quotient setoid) ≠ ⟦key⟧ := by
    intro pair member same
    exact fresh (represents.mem_iff.mpr ⟨pair, member, Quotient.exact same⟩)
  refine ⟨?_, fun name other => ?_⟩
  · rw [(permuted.map _).nodup_iff, List.map_cons, List.nodup_cons]
    refine ⟨?_, represents.nodup⟩
    intro member
    obtain ⟨pair, member, same⟩ := List.mem_map.mp member
    exact absent pair member same
  · have members : (∃ pair ∈ before ++ (key, value) :: after, ⟦pair.1⟧ = name ∧ pair.2 = other) ↔
        (⟦key⟧ = name ∧ value = other) ∨
          ∃ pair ∈ before ++ after, ⟦pair.1⟧ = name ∧ pair.2 = other := by
      simp only [permuted.mem_iff, List.mem_cons, or_and_right, exists_or, exists_eq_left]
    rw [members]
    by_cases same : name = ⟦key⟧
    · subst same
      rw [Finmap.lookup_insert, Option.some.injEq]
      constructor
      · exact fun equal => Or.inl ⟨rfl, equal⟩
      · rintro (⟨-, equal⟩ | ⟨pair, member, same, -⟩)
        · exact equal
        · exact absurd same (absent pair member)
    · rw [Finmap.lookup_insert_of_ne _ same, represents.lookup]
      exact ⟨Or.inr, Or.rec (fun other => absurd other.1.symm same) id⟩

theorem erase (represents : Represents pairs map) (key : Key) :
    Represents (pairs.filter fun pair => ¬pair.1 ≈ key) (map.erase ⟦key⟧) := by
  refine ⟨represents.nodup.sublist (List.Sublist.map _ List.filter_sublist), fun name value => ?_⟩
  by_cases same : name = ⟦key⟧
  · subst same
    rw [Finmap.lookup_erase]
    refine iff_of_false nofun ?_
    rintro ⟨pair, member, same, -⟩
    have differs := (List.mem_filter.mp member).2
    exact (decide_eq_true_iff.mp differs) (Quotient.exact same)
  · rw [Finmap.lookup_erase_ne same, represents.lookup]
    refine exists_congr fun pair => and_congr_left ?_
    rintro ⟨rfl, -⟩
    have differs : ¬pair.1 ≈ key := fun similar => same (Quotient.sound similar)
    simp [List.mem_filter, differs]

/-- The value under a class that is present is replaced. -/
theorem replace (represents : Represents pairs map) (key : Key) (value : Value) :
    Represents (pairs.map fun pair => if pair.1 ≈ key then (pair.1, value) else pair)
      (if ⟦key⟧ ∈ map then map.insert ⟦key⟧ value else map) := by
  have keys : ∀ pair : Key × Value,
      (if pair.1 ≈ key then (pair.1, value) else pair).1 = pair.1 := by
    intro pair
    split <;> rfl
  refine ⟨by simpa only [List.map_map, Function.comp_def, keys] using represents.nodup,
    fun name other => ?_⟩
  have members : (∃ pair ∈ pairs.map fun pair => if pair.1 ≈ key then (pair.1, value) else pair,
      ⟦pair.1⟧ = name ∧ pair.2 = other) ↔ ∃ pair ∈ pairs, ⟦pair.1⟧ = name ∧
        (if pair.1 ≈ key then value else pair.2) = other := by
    simp only [List.mem_map, exists_exists_and_eq_and, keys, apply_ite Prod.snd]
  rw [members]
  by_cases same : name = ⟦key⟧
  · subst same
    have here : (∃ pair ∈ pairs, (⟦pair.1⟧ : Quotient setoid) = ⟦key⟧ ∧
        (if pair.1 ≈ key then value else pair.2) = other) ↔ ⟦key⟧ ∈ map ∧ value = other := by
      rw [represents.mem_iff]
      constructor
      · rintro ⟨pair, member, same, equal⟩
        rw [if_pos (Quotient.exact same)] at equal
        exact ⟨⟨pair, member, Quotient.exact same⟩, equal⟩
      · rintro ⟨⟨pair, member, similar⟩, equal⟩
        exact ⟨pair, member, Quotient.sound similar, by rwa [if_pos similar]⟩
    rw [here]
    split
    · next present => rw [Finmap.lookup_insert, Option.some.injEq, and_iff_right present]
    · next missing =>
        rw [Finmap.lookup_eq_none.mpr missing]
        exact iff_of_false nofun fun both => missing both.1
  · have elsewhere : Finmap.lookup name (if ⟦key⟧ ∈ map then map.insert ⟦key⟧ value else map) =
        map.lookup name := by
      split
      · exact Finmap.lookup_insert_of_ne _ same
      · rfl
    rw [elsewhere, represents.lookup]
    refine exists_congr fun pair => and_congr_right fun _ => and_congr_right ?_
    rintro rfl
    rw [if_neg fun similar => same (Quotient.sound similar)]

/-- The list shows every entry of the map once. -/
theorem entries_eq (represents : Represents pairs map) :
    map.entries = (pairs.map fun pair => (⟨⟦pair.1⟧, pair.2⟩ : Sigma fun _ : Quotient setoid => Value) :
      List (Sigma fun _ : Quotient setoid => Value)) := by
  have nodup : (pairs.map fun pair =>
      (⟨⟦pair.1⟧, pair.2⟩ : Sigma fun _ : Quotient setoid => Value)).Nodup := by
    refine List.Nodup.of_map Sigma.fst ?_
    rw [List.map_map]
    exact represents.nodup
  refine (Multiset.Nodup.ext map.nodup_entries (Multiset.coe_nodup.mpr nodup)).mpr ?_
  rintro ⟨name, value⟩
  rw [← Finmap.lookup_eq_some_iff, represents.lookup, Multiset.mem_coe, List.mem_map]
  refine exists_congr fun pair => and_congr_right fun _ => ?_
  simp

theorem card_keys (represents : Represents pairs map) : map.keys.card = pairs.length := by
  have counted : map.keys.card = map.entries.card := Multiset.card_map ..
  rw [counted, represents.entries_eq, Multiset.coe_card, List.length_map]

end Represents

end Yaeos
