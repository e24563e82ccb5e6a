import Libhelp.Lib.LexOrder
import Libhelp.Lib.OrdMap
import Libhelp.Lib.Program
import Mathlib.Data.Finset.Card
import Mathlib.Data.Finset.Union

/-!
# Copying the entries under a prefix while walking the map

A loop walks the entries of an ordered map from the first key that is not below
a source prefix, and inserts for every key that starts with the source the same
suffix under a target prefix.  Keys are words in lexicographic order and the
insertions go into the map that is being walked.

The loop ends exactly when the target does not feed the source: an insertion can
only appear ahead of the cursor again and again when the target extends the
source and moves some suffix forward.  A loop that ends on a map also ends on the
maps with fewer keys.  If no inserted key starts with the source, the loop overlays
the map with one copy of every entry under the source.
-/

namespace PrefixCopy

open StepProgram

universe u v

variable {α : Type u} {υ : Type v} [LinearOrder α]

/-- A loop state: the map and the entry the cursor is on. -/
structure Cursor (α : Type u) (υ : Type v) [LinearOrder α] where
  map : OrdMap (List α) υ
  entry : Option (List α × υ)

def start (map : OrdMap (List α) υ) (source : List α) : Cursor α υ :=
  ⟨map, map.firstFrom source⟩

/-- One iteration: insert the copy of the current entry and move to the next key. -/
def body (source target : List α) (cursor : Cursor α υ) : Option (Cursor α υ) :=
  match cursor.entry with
  | none => none
  | some (key, value) =>
      if source <+: key then
        let map := cursor.map.insert (target ++ key.drop source.length) value
        some ⟨map, map.nextAfter key⟩
      else
        none

/-- The loop over a map ends and leaves `result`. -/
def CopiesTo (source target : List α) (map result : OrdMap (List α) υ) : Prop :=
  ∃ entry, LoopExits (body source target) (start map source) ⟨result, entry⟩

/-- The target extends the source and moves the suffix of some key forward. -/
def SelfFeeding (source target : List α) (map : OrdMap (List α) υ) : Prop :=
  source <+: target ∧ source ≠ target ∧
    ∃ entry ∈ map.entries, source <+: entry.1 ∧ entry.1 < target ++ entry.1.drop source.length

instance (source target : List α) (map : OrdMap (List α) υ) :
    Decidable (SelfFeeding source target map) :=
  inferInstanceAs (Decidable (_ ∧ _ ∧ _))

theorem CopiesTo.unique {source target : List α} {map left right : OrdMap (List α) υ}
    (leftCopies : CopiesTo source target map left)
    (rightCopies : CopiesTo source target map right) : left = right := by
  rcases leftCopies with ⟨_, leftExits⟩
  rcases rightCopies with ⟨_, rightExits⟩
  exact congrArg Cursor.map (leftExits.unique rightExits)

theorem body_eq_some_iff {source target : List α} {cursor after : Cursor α υ} :
    body source target cursor = some after ↔
      ∃ suffix value, cursor.entry = some (source ++ suffix, value) ∧
        after = ⟨cursor.map.insert (target ++ suffix) value,
          (cursor.map.insert (target ++ suffix) value).nextAfter (source ++ suffix)⟩ := by
  rcases cursor with ⟨map, entry⟩
  constructor
  · intro stepped
    rcases entry with _ | ⟨key, value⟩
    · simp [body] at stepped
    · simp only [body] at stepped
      split at stepped
      · rename_i starts
        rcases starts with ⟨suffix, rfl⟩
        refine ⟨suffix, value, rfl, ?_⟩
        simpa using stepped.symm
      · simp at stepped
  · rintro ⟨suffix, value, same, rfl⟩
    simp only at same
    subst same
    simp [body]

theorem body_eq_none_iff {source target : List α} {cursor : Cursor α υ} :
    body source target cursor = none ↔
      ∀ entry, cursor.entry = some entry → ¬source <+: entry.1 := by
  rcases cursor with ⟨map, _ | ⟨key, value⟩⟩
  · simp [body]
  · simp [body]

section Divergence

/-- A key at or after the cursor whose suffix the target moves forward. -/
def Feeds (source extension : List α) (cursor : Cursor α υ) : Prop :=
  ∃ suffix, source ++ suffix ∈ cursor.map ∧ suffix < extension ++ suffix ∧
    ∃ entry, cursor.entry = some entry ∧ source ≤ entry.1 ∧ entry.1 ≤ source ++ suffix

theorem feeds_start {source extension suffix : List α} {map : OrdMap (List α) υ}
    (key_mem : source ++ suffix ∈ map) (forward : suffix < extension ++ suffix) :
    Feeds source extension (start map source) := by
  have reached := LexOrder.le_of_isPrefix (List.prefix_append source suffix)
  rcases OrdMap.exists_firstFrom_le key_mem reached with ⟨entry, found, lower, upper⟩
  exact ⟨suffix, key_mem, forward, entry, found, lower, upper⟩

theorem feeds_preserved {source extension : List α} {cursor after : Cursor α υ}
    (feeds : Feeds source extension cursor)
    (stepped : body source (source ++ extension) cursor = some after) :
    Feeds source extension after := by
  rcases feeds with ⟨suffix, key_mem, forward, entry, found, _, upper⟩
  rcases body_eq_some_iff.mp stepped with ⟨current, value, same, rfl⟩
  rw [same] at found
  rcases Option.some.inj found with rfl
  have ahead : ∃ next, source ++ next ∈
        cursor.map.insert (source ++ extension ++ current) value ∧
      next < extension ++ next ∧ source ++ current < source ++ next := by
    rcases upper.lt_or_eq with less | equal
    · exact ⟨suffix, OrdMap.mem_insert.mpr (.inr key_mem), forward, less⟩
    · rcases List.append_cancel_left equal with rfl
      refine ⟨extension ++ current, OrdMap.mem_insert.mpr (.inl (by simp)), ?_, ?_⟩
      · simpa using forward
      · simpa using forward
  rcases ahead with ⟨next, next_mem, nextForward, beyond⟩
  rcases OrdMap.exists_nextAfter_le next_mem beyond with ⟨entry, found, above, bounded⟩
  refine ⟨next, next_mem, nextForward, entry, found, ?_, bounded⟩
  exact (LexOrder.le_of_isPrefix (List.prefix_append source current)).trans above.le

theorem not_copiesTo_of_selfFeeding {source target : List α} {map result : OrdMap (List α) υ}
    (feeding : SelfFeeding source target map) : ¬CopiesTo source target map result := by
  rcases feeding with ⟨⟨extension, rfl⟩, _, ⟨key, value⟩, key_mem, ⟨suffix, rfl⟩, moved⟩
  have forward : suffix < extension ++ suffix := by simpa using moved
  rintro ⟨entry, exits⟩
  refine not_loopExits_of_invariant (I := Feeds source extension) ?_ ?_
    (feeds_start ⟨value, key_mem⟩ forward) exits
  · rintro cursor ⟨suffix, _, _, entry, found, lower, upper⟩ stopped
    exact body_eq_none_iff.mp stopped entry found (LexOrder.prefix_of_between lower upper)
  · intro cursor after feeds stepped
    exact feeds_preserved feeds stepped

end Divergence

section Termination

/-- The keys the loop can still visit belong to a finite set. -/
def VisitsIn (source : List α) (keys : Finset (List α)) (cursor : Cursor α υ) : Prop :=
  ∀ entry, cursor.entry = some entry → entry ∈ cursor.map.entries ∧
    ∀ other ∈ cursor.map.entries, source <+: other.1 → entry.1 ≤ other.1 → other.1 ∈ keys

/-- The keys of a finite set that the cursor has not passed. -/
def pending (keys : Finset (List α)) (cursor : Cursor α υ) : Finset (List α) :=
  keys.filter fun key => ∃ entry ∈ cursor.entry, entry.1 ≤ key

/-- If the copies of keys in a finite set fall behind, out of the source or into the
set again, a loop that only visits keys of the set ends. -/
theorem copiesTo_of_closed {source target : List α} {map : OrdMap (List α) υ}
    (keys : Finset (List α))
    (closed : ∀ suffix, source ++ suffix ∈ keys → target ++ suffix ≤ source ++ suffix ∨
      ¬source <+: target ++ suffix ∨ target ++ suffix ∈ keys)
    (initial : ∀ entry ∈ map.entries, source <+: entry.1 → entry.1 ∈ keys) :
    ∃ result, CopiesTo source target map result := by
  have started : VisitsIn source keys (start map source) := by
    intro entry found
    exact ⟨(OrdMap.firstFrom_eq_some_iff.mp found).1,
      fun other mem starts _ => initial other mem starts⟩
  have exits : ∃ last, LoopExits (body source target) (start map source) last :=
    loopExits_of_measure (I := VisitsIn source keys)
      (fun cursor => (pending keys cursor).card) ?_ started
  · rcases exits with ⟨⟨result, entry⟩, exits⟩
    exact ⟨result, entry, exits⟩
  · intro cursor after visits stepped
    rcases body_eq_some_iff.mp stepped with ⟨suffix, value, found, rfl⟩
    rcases visits _ found with ⟨current_mem, inside⟩
    have currentKey : source ++ suffix ∈ keys :=
      inside _ current_mem (List.prefix_append _ _) le_rfl
    refine ⟨?_, ?_⟩
    · intro entry next
      rcases OrdMap.nextAfter_eq_some_iff.mp next with ⟨entry_mem, above, _⟩
      refine ⟨entry_mem, ?_⟩
      intro other other_mem starts reached
      rcases OrdMap.mem_entries_insert.mp other_mem with rfl | ⟨old, _⟩
      · rcases closed suffix currentKey with behind | outside | again
        · exact absurd (above.trans_le reached) behind.not_gt
        · exact absurd starts outside
        · exact again
      · exact inside other old starts (above.le.trans reached)
    · apply Finset.card_lt_card
      rw [Finset.ssubset_iff_of_subset]
      · refine ⟨source ++ suffix, ?_, ?_⟩
        · simpa [pending, found] using currentKey
        · simp only [pending, Finset.mem_filter, not_and]
          rintro _ ⟨entry, next, reached⟩
          exact absurd reached (OrdMap.nextAfter_eq_some_iff.mp next).2.1.not_ge
      · intro key key_mem
        simp only [pending, Finset.mem_filter] at key_mem ⊢
        rcases key_mem with ⟨key_mem, entry, next, reached⟩
        have above := (OrdMap.nextAfter_eq_some_iff.mp next).2.1
        exact ⟨key_mem, (source ++ suffix, value), found, above.le.trans reached⟩

omit [LinearOrder α] in
/-- The copy of a suffix under a shorter target can only come back under the source with
a shorter suffix. -/
theorem exists_suffix_of_starts {source target suffix : List α} (other : ¬source <+: target)
    (starts : source <+: target ++ suffix) :
    ∃ rest, rest <:+ suffix ∧ target ++ suffix = source ++ rest := by
  rcases List.prefix_or_prefix_of_prefix starts (List.prefix_append target suffix) with
    impossible | ⟨middle, rfl⟩
  · exact absurd impossible other
  · rcases (List.prefix_append_right_inj target).mp starts with ⟨rest, rfl⟩
    exact ⟨rest, List.suffix_append _ _, by simp⟩

theorem copiesTo_of_not_selfFeeding {source target : List α} {map : OrdMap (List α) υ}
    (calm : ¬SelfFeeding source target map) : ∃ result, CopiesTo source target map result := by
  by_cases extends' : source <+: target
  · apply copiesTo_of_closed (map.entries.map Prod.fst).toFinset
    · intro suffix key_mem
      simp only [List.mem_toFinset, List.mem_map] at key_mem
      rcases key_mem with ⟨entry, entry_mem, same⟩
      rcases eq_or_ne source target with rfl | different
      · exact Or.inl le_rfl
      · left
        apply not_lt.mp
        intro forward
        refine calm ⟨extends', different, entry, entry_mem, ?_⟩
        simpa [same] using forward
    · intro entry entry_mem _
      simpa using ⟨entry.2, entry_mem⟩
  · apply copiesTo_of_closed ((map.entries.map Prod.fst).toFinset.biUnion fun key =>
      (key.drop source.length).tails.toFinset.image (source ++ ·))
    · intro suffix key_mem
      simp only [Finset.mem_biUnion, Finset.mem_image, List.mem_toFinset, List.mem_tails,
        List.append_cancel_left_eq, exists_eq_right] at key_mem ⊢
      rcases key_mem with ⟨key, key_mem, isSuffix⟩
      by_cases starts : source <+: target ++ suffix
      · rcases exists_suffix_of_starts extends' starts with ⟨rest, shorter, same⟩
        exact Or.inr (Or.inr ⟨key, key_mem, rest, shorter.trans isSuffix, same.symm⟩)
      · exact Or.inr (Or.inl starts)
    · intro entry entry_mem starts
      rcases starts with ⟨suffix, same⟩
      simp only [Finset.mem_biUnion, Finset.mem_image, List.mem_toFinset, List.mem_tails]
      refine ⟨entry.1, List.mem_map_of_mem entry_mem, suffix, ?_, same⟩
      simp [← same]

/-- The loop ends exactly when the target does not feed the source. -/
theorem exists_copiesTo_iff {source target : List α} {map : OrdMap (List α) υ} :
    (∃ result, CopiesTo source target map result) ↔ ¬SelfFeeding source target map := by
  constructor
  · rintro ⟨result, copied⟩ feeding
    exact not_copiesTo_of_selfFeeding feeding copied
  · exact copiesTo_of_not_selfFeeding

end Termination

section Subset

/-- The keys of one walk are keys of another, which has not got further. -/
structure Within (source : List α) (small large : Cursor α υ) : Prop where
  keys : ∀ key ∈ small.map, key ∈ large.map
  entry : ∀ entry, small.entry = some entry → entry.1 ∈ small.map ∧
    ∃ reached, large.entry = some reached ∧ source ≤ reached.1 ∧ reached.1 ≤ entry.1

theorem Within.exits {source target : List α} {small large last : Cursor α υ}
    (within : Within source small large) (exits : LoopExits (body source target) large last) :
    ∃ smallLast, LoopExits (body source target) small smallLast ∧
      ∀ key ∈ smallLast.map, key ∈ last.map := by
  induction exits generalizing small with
  | done stop =>
      refine ⟨small, .done (body_eq_none_iff.mpr ?_), within.keys⟩
      rintro ⟨key, value⟩ found ⟨suffix, rfl⟩
      rcases within.entry _ found with ⟨_, reached, there, lower, upper⟩
      exact body_eq_none_iff.mp stop reached there (LexOrder.prefix_of_between lower upper)
  | @more cursor _ _ stepped _ ih =>
      rcases body_eq_some_iff.mp stepped with ⟨suffix, value, there, rfl⟩
      have keys : ∀ key ∈ small.map, key ∈ cursor.map.insert (target ++ suffix) value :=
        fun key mem => OrdMap.mem_insert.mpr (.inr (within.keys key mem))
      cases found : small.entry with
      | none =>
          apply ih ⟨keys, ?_⟩
          intro entry some
          rw [found] at some
          cases some
      | some entry =>
          rcases within.entry entry found with ⟨mem, reached, reachedThere, lower, upper⟩
          rw [there] at reachedThere
          rcases Option.some.inj reachedThere with rfl
          rcases upper.lt_or_eq with ahead | level
          · -- Only the walk with more keys makes a step.
            apply ih ⟨keys, ?_⟩
            intro other same
            rw [found] at same
            rcases Option.some.inj same with rfl
            rcases OrdMap.exists_nextAfter_le (keys _ mem) ahead with ⟨next, next_eq, above, le⟩
            exact ⟨mem, next, next_eq, lower.trans above.le, le⟩
          · rcases entry with ⟨key, word⟩
            simp only at level
            subst level
            have smallStep : body source target small =
                some ⟨small.map.insert (target ++ suffix) word,
                  (small.map.insert (target ++ suffix) word).nextAfter (source ++ suffix)⟩ :=
              body_eq_some_iff.mpr ⟨suffix, word, found, rfl⟩
            have keys' : ∀ key ∈ small.map.insert (target ++ suffix) word,
                key ∈ cursor.map.insert (target ++ suffix) value := OrdMap.insert_subset within.keys
            have entries : ∀ next, (small.map.insert (target ++ suffix) word).nextAfter
                (source ++ suffix) = some next →
                next.1 ∈ small.map.insert (target ++ suffix) word ∧
                ∃ other, (cursor.map.insert (target ++ suffix) value).nextAfter
                  (source ++ suffix) = some other ∧ source ≤ other.1 ∧ other.1 ≤ next.1 := by
              intro next next_eq
              rcases OrdMap.nextAfter_eq_some_iff.mp next_eq with ⟨next_mem, above, _⟩
              have next_mem : next.1 ∈ small.map.insert (target ++ suffix) word :=
                ⟨next.2, next_mem⟩
              rcases OrdMap.exists_nextAfter_le (keys' _ next_mem) above with
                ⟨other, other_eq, otherAbove, le⟩
              exact ⟨next_mem, other, other_eq, lower.trans otherAbove.le, le⟩
            rcases @ih ⟨_, _⟩ ⟨keys', entries⟩ with ⟨smallLast, rest, subset⟩
            exact ⟨smallLast, .more smallStep rest, subset⟩

/-- A loop that ends on a map also ends on any map with fewer keys. -/
theorem CopiesTo.of_subset {source target : List α} {small large result : OrdMap (List α) υ}
    (copies : CopiesTo source target large result) (subset : ∀ key ∈ small, key ∈ large) :
    ∃ smaller, CopiesTo source target small smaller ∧ ∀ key ∈ smaller, key ∈ result := by
  rcases copies with ⟨_, exits⟩
  have within : Within source (start small source) (start large source) := by
    refine ⟨subset, ?_⟩
    intro entry found
    rcases OrdMap.firstFrom_eq_some_iff.mp found with ⟨mem, reached, _⟩
    have mem : entry.1 ∈ small := ⟨entry.2, mem⟩
    rcases OrdMap.exists_firstFrom_le (subset _ mem) reached with ⟨other, other_eq, lower, upper⟩
    exact ⟨mem, other, other_eq, lower, upper⟩
  rcases within.exits exits with ⟨⟨smaller, entry⟩, smallExits, keys⟩
  exact ⟨smaller, ⟨entry, smallExits⟩, keys⟩

end Subset

section Overlay

/-- The entries of a map whose keys start with the source, in key order. -/
def under (source : List α) (map : OrdMap (List α) υ) : List (List α × υ) :=
  map.entries.filter fun entry => source <+: entry.1

def copyOf (source target : List α) (entry : List α × υ) : List α × υ :=
  (target ++ entry.1.drop source.length, entry.2)

/-- The copies of the entries under the source, in key order. -/
def copies (source target : List α) (map : OrdMap (List α) υ) : List (List α × υ) :=
  (under source map).map (copyOf source target)

theorem mem_under {source : List α} {map : OrdMap (List α) υ} {entry : List α × υ} :
    entry ∈ under source map ↔ entry ∈ map.entries ∧ source <+: entry.1 := by
  simp [under]

theorem mem_copies {source target : List α} {map : OrdMap (List α) υ} {entry : List α × υ} :
    entry ∈ copies source target map ↔
      ∃ suffix, entry.1 = target ++ suffix ∧ (source ++ suffix, entry.2) ∈ map.entries := by
  simp only [copies, List.mem_map, mem_under]
  constructor
  · rintro ⟨⟨key, value⟩, ⟨mem, suffix, same⟩, rfl⟩
    subst same
    exact ⟨suffix, by simp [copyOf], mem⟩
  · rintro ⟨suffix, same, mem⟩
    refine ⟨_, ⟨mem, List.prefix_append _ _⟩, ?_⟩
    simp [copyOf, Prod.ext_iff, same]

theorem copies_nodup {source target : List α} {map : OrdMap (List α) υ} :
    ((copies source target map).map Prod.fst).Nodup := by
  have ordered : (under source map).Pairwise fun left right => left.1 ≠ right.1 :=
    (map.sorted.sublist List.filter_sublist).imp fun less => less.ne
  simp only [copies, List.map_map, List.Nodup, List.pairwise_map]
  refine ordered.imp_of_mem ?_
  intro left right leftMem rightMem different same
  rcases (mem_under.mp leftMem).2 with ⟨leftSuffix, leftKey⟩
  rcases (mem_under.mp rightMem).2 with ⟨rightSuffix, rightKey⟩
  apply different
  rw [← leftKey, ← rightKey]
  simpa [copyOf, ← leftKey, ← rightKey] using same

/-- The overlay with the copies gives every copied key the value of its origin. -/
theorem find?_overlay_copies {source target suffix : List α} {map : OrdMap (List α) υ} {value : υ}
    (mem : (source ++ suffix, value) ∈ map.entries) :
    (map.overlay (copies source target map)).find? (target ++ suffix) = some value :=
  OrdMap.find?_overlay_of_mem copies_nodup (mem_copies.mpr ⟨suffix, rfl, mem⟩)

theorem find?_overlay_copies_of_ne {source target key : List α} {map : OrdMap (List α) υ}
    (other : ∀ suffix, source ++ suffix ∈ map → key ≠ target ++ suffix) :
    (map.overlay (copies source target map)).find? key = map.find? key := by
  apply OrdMap.find?_overlay_of_not_mem
  intro entry entry_mem
  rcases mem_copies.mp entry_mem with ⟨suffix, same, mem⟩
  rw [same]
  exact (other suffix ⟨_, mem⟩).symm

/-- The keys under the source form one run of the order: the first entry the cursor
finds at or after the source is the first entry of the run that it has not visited. -/
theorem first_of_run {source : List α} {map : OrdMap (List α) υ} {test : List α → Bool}
    {head : List α × υ} {rest : List (List α × υ)} (above : ∀ key, test key → source ≤ key)
    (run : (under source map).filter (fun entry => test entry.1) = head :: rest) :
    map.first test = some head := by
  have head_mem : head ∈ (under source map).filter fun entry => test entry.1 := by simp [run]
  rcases List.mem_filter.mp head_mem with ⟨head_under, passes⟩
  rcases mem_under.mp head_under with ⟨mem, starts⟩
  refine OrdMap.first_eq_some_iff.mpr ⟨mem, passes, ?_⟩
  intro other other_mem otherPasses
  by_contra notAbove
  have below : other.1 < head.1 := not_le.mp notAbove
  have otherStarts : source <+: other.1 := by
    rcases starts with ⟨suffix, same⟩
    exact LexOrder.prefix_of_between (above other.1 otherPasses) (same ▸ below.le)
  have ordered := (map.sorted.sublist List.filter_sublist).sublist
    (List.filter_sublist (p := fun entry => test entry.1) (l := under source map))
  rw [run] at ordered
  have inRun : other ∈ head :: rest := by
    rw [← run]
    exact List.mem_filter.mpr ⟨mem_under.mpr ⟨other_mem, otherStarts⟩, otherPasses⟩
  rcases List.mem_cons.mp inRun with rfl | inRest
  · exact below.false
  · exact below.asymm ((List.pairwise_cons.mp ordered).1 other inRest)

theorem under_insert {source key : List α} {map : OrdMap (List α) υ} {value : υ}
    (outside : ¬source <+: key) : under source (map.insert key value) = under source map :=
  OrdMap.filter_insertEntry fun _ same => by simpa [same] using outside

/-- The loop over the rest of the run inserts the copies of the rest of the run. -/
theorem loopExits_overlay {source target : List α} {map : OrdMap (List α) υ}
    (test : List α → Bool) {rest : List (List α × υ)}
    (above : ∀ key, test key → source ≤ key)
    (upward : ∀ key other, test key → key < other → test other)
    (run : (under source map).filter (fun entry => test entry.1) = rest)
    (fresh : ∀ entry ∈ rest, ¬source <+: (copyOf source target entry).1) :
    ∃ entry, LoopExits (body source target) ⟨map, map.first test⟩
      ⟨map.overlay (rest.map (copyOf source target)), entry⟩ := by
  induction rest generalizing map test with
  | nil =>
      refine ⟨map.first test, .done (body_eq_none_iff.mpr ?_)⟩
      intro entry found starts
      rcases OrdMap.first_eq_some_iff.mp found with ⟨mem, passes, _⟩
      exact List.filter_eq_nil_iff.mp run entry (mem_under.mpr ⟨mem, starts⟩) passes
  | cons head rest ih =>
      have found := first_of_run above run
      have head_mem : head ∈ (under source map).filter fun entry => test entry.1 := by simp [run]
      rcases List.mem_filter.mp head_mem with ⟨head_under, passes⟩
      rcases (mem_under.mp head_under).2 with ⟨suffix, same⟩
      have ordered : (head :: rest).Pairwise fun left right => left.1 < right.1 := by
        rw [← run]
        exact (map.sorted.sublist List.filter_sublist).sublist List.filter_sublist
      have outside : ¬source <+: target ++ suffix := by
        simpa [copyOf, ← same] using fresh head List.mem_cons_self
      -- What is left of the run is what lies above the current key.
      have left : (under source (map.insert (target ++ suffix) head.2)).filter
          (fun entry => OrdMap.isAfter (source ++ suffix) entry.1) = rest := by
        have narrowed : ((under source map).filter fun entry => test entry.1).filter
            (fun entry => OrdMap.isAfter head.1 entry.1) = rest := by
          rw [run, List.filter_cons_of_neg (by simp)]
          exact List.filter_eq_self.mpr fun entry entry_mem => by
            simpa using (List.pairwise_cons.mp ordered).1 entry entry_mem
        rw [under_insert outside, ← narrowed, List.filter_filter, same]
        apply List.filter_congr
        intro entry _
        by_cases beyond : head.1 < entry.1
        · simp [OrdMap.isAfter, beyond, upward _ _ passes beyond]
        · simp [OrdMap.isAfter, beyond]
      have next := @ih (map.insert (target ++ suffix) head.2)
        (OrdMap.isAfter (source ++ suffix)) ?_ ?_ left
        fun entry entry_mem => fresh entry (List.mem_cons_of_mem _ entry_mem)
      · rcases next with ⟨entry, exits⟩
        refine ⟨entry, .more (body_eq_some_iff.mpr ⟨suffix, head.2, ?_, rfl⟩) ?_⟩
        · rw [found, same]
        · simpa [copyOf, ← same, OrdMap.nextAfter] using exits
      · intro key beyond
        have beyond : source ++ suffix < key := by simpa using beyond
        exact (LexOrder.le_of_isPrefix (List.prefix_append source suffix)).trans beyond.le
      · intro key other beyond less
        have beyond : source ++ suffix < key := by simpa using beyond
        simpa using beyond.trans less

/-- When no copy starts with the source, the loop overlays the map with the copies. -/
theorem copiesTo_overlay {source target : List α} {map : OrdMap (List α) υ}
    (fresh : ∀ suffix, source ++ suffix ∈ map → ¬source <+: target ++ suffix) :
    CopiesTo source target map (map.overlay (copies source target map)) := by
  have all : (under source map).filter (fun entry => OrdMap.isFrom source entry.1) =
      under source map := by
    apply List.filter_eq_self.mpr
    intro entry entry_mem
    simpa using LexOrder.le_of_isPrefix (mem_under.mp entry_mem).2
  refine loopExits_overlay (OrdMap.isFrom source) ?_ ?_ all ?_
  · intro key reached
    simpa using reached
  · intro key other reached less
    have reached : source ≤ key := by simpa using reached
    simpa using reached.trans less.le
  · intro entry entry_mem
    rcases mem_under.mp entry_mem with ⟨mem, suffix, same⟩
    have := fresh suffix ⟨entry.2, by rw [same]; exact mem⟩
    simpa [copyOf, ← same] using this

end Overlay

end PrefixCopy
