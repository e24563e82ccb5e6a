import Mathlib.Data.List.Pairwise
import Mathlib.Data.List.Nodup
import Mathlib.Order.Lattice
import Mathlib.Tactic.Common

/-!
# Ordered maps

A finite map over a linear order, kept as its list of entries in strictly
increasing key order.  Besides lookup and insertion it can be searched for its
first entry whose key passes a test, which gives the inclusive and the strict
search for the next key.  All operations are characterized by the membership of
entries, and a map is determined by its entries.  A relation between values lifts to
maps with the same keys, and the operations respect it.
-/

universe u v w

/-- A finite map, as its entries in strictly increasing key order. -/
structure OrdMap (κ : Type u) (υ : Type v) [LinearOrder κ] where
  entries : List (κ × υ)
  /-- Keys increase strictly, so no key occurs twice. -/
  sorted : entries.Pairwise (fun left right => left.1 < right.1)
  deriving DecidableEq

namespace OrdMap

variable {κ : Type u} {υ : Type v} [LinearOrder κ]

section Entries

theorem eq_of_mem_of_fst_eq {entries : List (κ × υ)}
    (sorted : entries.Pairwise (fun left right => left.1 < right.1)) {left right : κ × υ}
    (leftMem : left ∈ entries) (rightMem : right ∈ entries) (same : left.1 = right.1) :
    left = right := by
  induction entries with
  | nil => simp at leftMem
  | cons head tail ih =>
      rcases List.pairwise_cons.mp sorted with ⟨below, sorted⟩
      rcases List.mem_cons.mp leftMem with leftHead | leftTail
      · rcases List.mem_cons.mp rightMem with rightHead | rightTail
        · rw [leftHead, rightHead]
        · exact absurd same (leftHead ▸ below right rightTail).ne
      · rcases List.mem_cons.mp rightMem with rightHead | rightTail
        · exact absurd same (rightHead ▸ below left leftTail).ne'
        · exact ih sorted leftTail rightTail

/-- Insertion of an entry in key order; an entry with the same key is replaced. -/
def insertEntry (key : κ) (value : υ) : List (κ × υ) → List (κ × υ)
  | [] => [(key, value)]
  | entry :: rest =>
      if key < entry.1 then (key, value) :: entry :: rest
      else if key = entry.1 then (key, value) :: rest
      else entry :: insertEntry key value rest

theorem mem_insertEntry {key : κ} {value : υ} {entries : List (κ × υ)} {entry : κ × υ}
    (sorted : entries.Pairwise (fun left right => left.1 < right.1)) :
    entry ∈ insertEntry key value entries ↔
      entry = (key, value) ∨ entry ∈ entries ∧ entry.1 ≠ key := by
  induction entries with
  | nil => simp [insertEntry]
  | cons head tail ih =>
      rcases List.pairwise_cons.mp sorted with ⟨below, sorted⟩
      have tailIff := ih sorted
      rw [insertEntry]
      split
      · rename_i less
        have notKey : ∀ e ∈ head :: tail, e.1 ≠ key := by
          intro e e_mem
          rcases List.mem_cons.mp e_mem with rfl | e_mem
          · exact less.ne'
          · exact (less.trans (below e e_mem)).ne'
        rw [List.mem_cons]
        apply or_congr_right
        exact ⟨fun old => ⟨old, notKey entry old⟩, fun old => old.1⟩
      · split
        · rename_i _ same
          have notKey : ∀ e ∈ tail, e.1 ≠ key := by
            intro e e_mem
            rw [same]
            exact (below e e_mem).ne'
          constructor
          · intro mem
            rcases List.mem_cons.mp mem with rfl | old
            · exact Or.inl rfl
            · exact Or.inr ⟨List.mem_cons_of_mem _ old, notKey entry old⟩
          · rintro (rfl | ⟨old, other⟩)
            · exact List.mem_cons_self
            · rcases List.mem_cons.mp old with rfl | old
              · exact absurd same.symm other
              · exact List.mem_cons_of_mem _ old
        · rename_i _ different
          rw [List.mem_cons, tailIff, List.mem_cons]
          constructor
          · rintro (rfl | rfl | ⟨old, other⟩)
            · exact Or.inr ⟨Or.inl rfl, fun same => different same.symm⟩
            · exact Or.inl rfl
            · exact Or.inr ⟨Or.inr old, other⟩
          · rintro (rfl | ⟨rfl | old, other⟩)
            · exact Or.inr (Or.inl rfl)
            · exact Or.inl rfl
            · exact Or.inr (Or.inr ⟨old, other⟩)

theorem sorted_insertEntry {key : κ} {value : υ} {entries : List (κ × υ)}
    (sorted : entries.Pairwise (fun left right => left.1 < right.1)) :
    (insertEntry key value entries).Pairwise (fun left right => left.1 < right.1) := by
  induction entries with
  | nil => simp [insertEntry]
  | cons head tail ih =>
      rcases List.pairwise_cons.mp sorted with ⟨below, tailSorted⟩
      rw [insertEntry]
      split
      · rename_i less
        refine List.pairwise_cons.mpr ⟨?_, sorted⟩
        intro e e_mem
        rcases List.mem_cons.mp e_mem with rfl | e_mem
        · exact less
        · exact less.trans (below e e_mem)
      · split
        · rename_i _ same
          refine List.pairwise_cons.mpr ⟨?_, tailSorted⟩
          intro e e_mem
          rw [same]
          exact below e e_mem
        · rename_i notLess different
          refine List.pairwise_cons.mpr ⟨?_, ih tailSorted⟩
          intro e e_mem
          rcases (mem_insertEntry tailSorted).mp e_mem with rfl | ⟨old, _⟩
          · exact lt_of_le_of_ne (not_lt.mp notLess) (Ne.symm different)
          · exact below e old

theorem filter_insertEntry {key : κ} {value : υ} {entries : List (κ × υ)}
    {test : κ × υ → Bool} (fails : ∀ entry : κ × υ, entry.1 = key → test entry = false) :
    (insertEntry key value entries).filter test = entries.filter test := by
  induction entries with
  | nil => simp [insertEntry, fails (key, value) rfl]
  | cons head tail ih =>
      rw [insertEntry]
      split
      · rw [List.filter_cons_of_neg (by simp [fails (key, value) rfl])]
      · split
        · rename_i _ same
          rw [List.filter_cons_of_neg (by simp [fails (key, value) rfl]),
            List.filter_cons_of_neg (by simp [fails head same.symm])]
        · rw [List.filter_cons, List.filter_cons, ih]

end Entries

def empty : OrdMap κ υ :=
  ⟨[], .nil⟩

instance : EmptyCollection (OrdMap κ υ) :=
  ⟨empty⟩

instance : Membership κ (OrdMap κ υ) :=
  ⟨fun map key => ∃ value, (key, value) ∈ map.entries⟩

def insert (map : OrdMap κ υ) (key : κ) (value : υ) : OrdMap κ υ :=
  ⟨insertEntry key value map.entries, sorted_insertEntry map.sorted⟩

def find? (map : OrdMap κ υ) (key : κ) : Option υ :=
  (map.entries.find? fun entry => entry.1 = key).map Prod.snd

/-- The first entry, in key order, whose key passes a test. -/
def first (map : OrdMap κ υ) (test : κ → Bool) : Option (κ × υ) :=
  map.entries.find? fun entry => test entry.1

def isFrom (key other : κ) : Bool :=
  key ≤ other

def isAfter (key other : κ) : Bool :=
  key < other

def firstFrom (map : OrdMap κ υ) (key : κ) : Option (κ × υ) :=
  map.first (isFrom key)

def nextAfter (map : OrdMap κ υ) (key : κ) : Option (κ × υ) :=
  map.first (isAfter key)

/-- The map with a list of entries inserted from left to right, the last one winning. -/
def overlay (map : OrdMap κ υ) (entries : List (κ × υ)) : OrdMap κ υ :=
  entries.foldl (fun current entry => current.insert entry.1 entry.2) map

@[simp]
theorem isFrom_iff {key other : κ} : isFrom key other = true ↔ key ≤ other := by
  simp [isFrom]

@[simp]
theorem isAfter_iff {key other : κ} : isAfter key other = true ↔ key < other := by
  simp [isAfter]

theorem mem_iff {map : OrdMap κ υ} {key : κ} :
    key ∈ map ↔ ∃ value, (key, value) ∈ map.entries :=
  Iff.rfl

@[simp]
theorem entries_empty : (∅ : OrdMap κ υ).entries = [] :=
  rfl

@[simp]
theorem mem_entries_insert {map : OrdMap κ υ} {key : κ} {value : υ} {entry : κ × υ} :
    entry ∈ (map.insert key value).entries ↔
      entry = (key, value) ∨ entry ∈ map.entries ∧ entry.1 ≠ key :=
  mem_insertEntry map.sorted

theorem mem_insert {map : OrdMap κ υ} {key other : κ} {value : υ} :
    other ∈ map.insert key value ↔ other = key ∨ other ∈ map := by
  simp only [mem_iff, mem_entries_insert, Prod.mk.injEq]
  constructor
  · rintro ⟨_, ⟨rfl, rfl⟩ | ⟨old, _⟩⟩
    · exact Or.inl rfl
    · exact Or.inr ⟨_, old⟩
  · rintro (rfl | ⟨oldValue, old⟩)
    · exact ⟨value, Or.inl ⟨rfl, rfl⟩⟩
    · rcases eq_or_ne other key with rfl | different
      · exact ⟨value, Or.inl ⟨rfl, rfl⟩⟩
      · exact ⟨oldValue, Or.inr ⟨old, different⟩⟩

theorem insert_subset {small large : OrdMap κ υ} (subset : ∀ key ∈ small, key ∈ large) {key : κ}
    {value value' : υ} : ∀ other ∈ small.insert key value, other ∈ large.insert key value' := by
  intro other other_mem
  rcases mem_insert.mp other_mem with same | old
  · exact mem_insert.mpr (.inl same)
  · exact mem_insert.mpr (.inr (subset other old))

theorem find?_eq_some_iff {map : OrdMap κ υ} {key : κ} {value : υ} :
    map.find? key = some value ↔ (key, value) ∈ map.entries := by
  simp only [find?, Option.map_eq_some_iff]
  constructor
  · rintro ⟨entry, found, rfl⟩
    have same : entry.1 = key := by simpa using List.find?_some found
    rw [← same]
    exact List.mem_of_find?_eq_some found
  · intro mem
    cases found : map.entries.find? fun entry => entry.1 = key with
    | none => simpa using List.find?_eq_none.mp found _ mem
    | some entry =>
        have same : entry.1 = key := by simpa using List.find?_some found
        have := eq_of_mem_of_fst_eq map.sorted (List.mem_of_find?_eq_some found) mem same
        exact ⟨entry, rfl, by rw [this]⟩

@[simp]
theorem find?_insert_self {map : OrdMap κ υ} {key : κ} {value : υ} :
    (map.insert key value).find? key = some value := by
  simp [find?_eq_some_iff]

theorem find?_insert_of_ne {map : OrdMap κ υ} {key other : κ} {value : υ}
    (different : other ≠ key) : (map.insert key value).find? other = map.find? other := by
  ext found
  simp [find?_eq_some_iff, different]

theorem first_eq_some_iff {map : OrdMap κ υ} {test : κ → Bool} {entry : κ × υ} :
    map.first test = some entry ↔
      entry ∈ map.entries ∧ test entry.1 ∧
        ∀ other ∈ map.entries, test other.1 → entry.1 ≤ other.1 := by
  rcases map with ⟨entries, sorted⟩
  simp only [first]
  induction entries with
  | nil => simp
  | cons head tail ih =>
      rcases List.pairwise_cons.mp sorted with ⟨below, sorted⟩
      rw [List.find?_cons]
      cases passes : test head.1 with
      | true =>
          simp only [Option.some.injEq]
          constructor
          · rintro rfl
            refine ⟨List.mem_cons_self, passes, ?_⟩
            intro other other_mem _
            rcases List.mem_cons.mp other_mem with rfl | other_mem
            · exact le_refl _
            · exact (below other other_mem).le
          · rintro ⟨entry_mem, _, least⟩
            rcases List.mem_cons.mp entry_mem with rfl | entry_mem
            · rfl
            · exact absurd (least head List.mem_cons_self passes) (below entry entry_mem).not_ge
      | false =>
          have tailIff := ih sorted
          simp only [tailIff, List.mem_cons]
          constructor
          · rintro ⟨entry_mem, entryPasses, least⟩
            refine ⟨Or.inr entry_mem, entryPasses, ?_⟩
            rintro other (rfl | other_mem) otherPasses
            · simp [passes] at otherPasses
            · exact least other other_mem otherPasses
          · rintro ⟨rfl | entry_mem, entryPasses, least⟩
            · simp [passes] at entryPasses
            · exact ⟨entry_mem, entryPasses,
                fun other other_mem => least other (Or.inr other_mem)⟩

theorem first_eq_none_iff {map : OrdMap κ υ} {test : κ → Bool} :
    map.first test = none ↔ ∀ entry ∈ map.entries, test entry.1 = false := by
  simp [first]

theorem firstFrom_eq_some_iff {map : OrdMap κ υ} {key : κ} {entry : κ × υ} :
    map.firstFrom key = some entry ↔
      entry ∈ map.entries ∧ key ≤ entry.1 ∧
        ∀ other ∈ map.entries, key ≤ other.1 → entry.1 ≤ other.1 := by
  simp [firstFrom, first_eq_some_iff]

theorem nextAfter_eq_some_iff {map : OrdMap κ υ} {key : κ} {entry : κ × υ} :
    map.nextAfter key = some entry ↔
      entry ∈ map.entries ∧ key < entry.1 ∧
        ∀ other ∈ map.entries, key < other.1 → entry.1 ≤ other.1 := by
  simp [nextAfter, first_eq_some_iff]

theorem firstFrom_eq_none_iff {map : OrdMap κ υ} {key : κ} :
    map.firstFrom key = none ↔ ∀ entry ∈ map.entries, entry.1 < key := by
  simp [firstFrom, first_eq_none_iff, isFrom]

theorem nextAfter_eq_none_iff {map : OrdMap κ υ} {key : κ} :
    map.nextAfter key = none ↔ ∀ entry ∈ map.entries, entry.1 ≤ key := by
  simp [nextAfter, first_eq_none_iff, isAfter]

/-- A key that is not below `key` bounds the first one. -/
theorem exists_firstFrom_le {map : OrdMap κ υ} {key other : κ} (other_mem : other ∈ map)
    (reached : key ≤ other) :
    ∃ entry, map.firstFrom key = some entry ∧ key ≤ entry.1 ∧ entry.1 ≤ other := by
  rcases other_mem with ⟨value, mem⟩
  cases found : map.firstFrom key with
  | none => exact absurd reached (firstFrom_eq_none_iff.mp found _ mem).not_ge
  | some entry =>
      rcases firstFrom_eq_some_iff.mp found with ⟨_, lower, least⟩
      exact ⟨entry, rfl, lower, least _ mem reached⟩

theorem exists_nextAfter_le {map : OrdMap κ υ} {key other : κ} (other_mem : other ∈ map)
    (above : key < other) :
    ∃ entry, map.nextAfter key = some entry ∧ key < entry.1 ∧ entry.1 ≤ other := by
  rcases other_mem with ⟨value, mem⟩
  cases found : map.nextAfter key with
  | none => exact absurd above (nextAfter_eq_none_iff.mp found _ mem).not_gt
  | some entry =>
      rcases nextAfter_eq_some_iff.mp found with ⟨_, lower, least⟩
      exact ⟨entry, rfl, lower, least _ mem above⟩

@[simp]
theorem overlay_nil {map : OrdMap κ υ} : map.overlay [] = map :=
  rfl

@[simp]
theorem overlay_cons {map : OrdMap κ υ} {entry : κ × υ} {entries : List (κ × υ)} :
    map.overlay (entry :: entries) = (map.insert entry.1 entry.2).overlay entries :=
  rfl

theorem overlay_append {map : OrdMap κ υ} {left right : List (κ × υ)} :
    map.overlay (left ++ right) = (map.overlay left).overlay right :=
  List.foldl_append

theorem find?_overlay_of_not_mem {map : OrdMap κ υ} {entries : List (κ × υ)} {key : κ}
    (absent : ∀ entry ∈ entries, entry.1 ≠ key) :
    (map.overlay entries).find? key = map.find? key := by
  induction entries generalizing map with
  | nil => rfl
  | cons head tail ih =>
      rw [overlay_cons, ih fun entry entry_mem => absent entry (List.mem_cons_of_mem _ entry_mem)]
      exact find?_insert_of_ne (absent head List.mem_cons_self).symm

/-- In an overlay the last entry with a key wins. -/
theorem find?_overlay_last {map : OrdMap κ υ} {before after : List (κ × υ)} {key : κ} {value : υ}
    (last : ∀ entry ∈ after, entry.1 ≠ key) :
    (map.overlay (before ++ (key, value) :: after)).find? key = some value := by
  rw [overlay_append, overlay_cons, find?_overlay_of_not_mem last, find?_insert_self]

/-- Entries with different keys all get their values in the overlay. -/
theorem find?_overlay_of_mem {map : OrdMap κ υ} {entries : List (κ × υ)} {key : κ} {value : υ}
    (distinct : (entries.map Prod.fst).Nodup) (mem : (key, value) ∈ entries) :
    (map.overlay entries).find? key = some value := by
  rcases List.append_of_mem mem with ⟨before, after, rfl⟩
  apply find?_overlay_last
  rintro entry entry_mem rfl
  simp only [List.map_append, List.map_cons, List.nodup_append, List.nodup_cons] at distinct
  exact distinct.2.1.1 (List.mem_map_of_mem entry_mem)

section Related

variable {υ' : Type w} {R : υ → υ' → Prop}

/-- Entries with the same key and related values. -/
def RelatedEntry (R : υ → υ' → Prop) (left : κ × υ) (right : κ × υ') : Prop :=
  left.1 = right.1 ∧ R left.2 right.2

/-- Maps with the same keys and related values. -/
def Related (R : υ → υ' → Prop) (left : OrdMap κ υ) (right : OrdMap κ υ') : Prop :=
  List.Forall₂ (RelatedEntry R) left.entries right.entries

variable {left : OrdMap κ υ} {right : OrdMap κ υ'}

theorem related_empty : Related R (∅ : OrdMap κ υ) ∅ :=
  List.Forall₂.nil

theorem Related.mono {R' : υ → υ' → Prop} (related : Related R left right)
    (weaker : ∀ value value', R value value' → R' value value') : Related R' left right :=
  List.Forall₂.imp (fun _ _ entry => ⟨entry.1, weaker _ _ entry.2⟩) related

theorem forall₂_insertEntry {key : κ} {value : υ} {value' : υ'} {entries : List (κ × υ)}
    {entries' : List (κ × υ')} (related : List.Forall₂ (RelatedEntry R) entries entries')
    (values : R value value') :
    List.Forall₂ (RelatedEntry R) (insertEntry key value entries)
      (insertEntry key value' entries') := by
  induction related with
  | nil => exact .cons ⟨rfl, values⟩ .nil
  | cons head tail ih =>
      rename_i entry entry' rest rest'
      rw [insertEntry, insertEntry, ← head.1]
      split_ifs
      · exact .cons ⟨rfl, values⟩ (.cons head tail)
      · exact .cons ⟨rfl, values⟩ tail
      · exact .cons head ih

theorem Related.insert {value : υ} {value' : υ'} (related : Related R left right) (key : κ)
    (values : R value value') : Related R (left.insert key value) (right.insert key value') :=
  forall₂_insertEntry related values

omit [LinearOrder κ] in
theorem forall₂_find? {entries : List (κ × υ)} {entries' : List (κ × υ')}
    (related : List.Forall₂ (RelatedEntry R) entries entries') (test : κ → Bool) :
    Option.Rel (RelatedEntry R) (entries.find? fun entry => test entry.1)
      (entries'.find? fun entry => test entry.1) := by
  induction related with
  | nil => exact .none
  | cons head _ ih =>
      rw [List.find?_cons, List.find?_cons, ← head.1]
      split
      · exact .some head
      · exact ih

/-- The searches find entries with the same key, or none in both maps. -/
theorem Related.first (related : Related R left right) (test : κ → Bool) :
    Option.Rel (RelatedEntry R) (left.first test) (right.first test) :=
  forall₂_find? related test

theorem Related.find? (related : Related R left right) (key : κ) :
    Option.Rel R (left.find? key) (right.find? key) := by
  have found := related.first fun other => other = key
  show Option.Rel R ((left.first fun other => other = key).map Prod.snd)
    ((right.first fun other => other = key).map Prod.snd)
  generalize left.first _ = inLeft at found ⊢
  generalize right.first _ = inRight at found ⊢
  cases found with
  | none => exact .none
  | some entry => exact .some entry.2

end Related

end OrdMap
