import Libhelp.Proc.Proc
import Mathlib.Data.List.Basic

/-!
# The environment under a title

The area of the title is made of strings that follow each other: strings of `argv`,
and strings of `environ` that have been copied elsewhere.  So every string that
`environ` points to lies apart from it, in whatever order the strings come and
whichever of them follow each other.
-/

namespace Libhelp

open CString ByteMemory

/-- A pointer of a vector, and the string it points to. -/
abbrev Entry := ℕ × Bytes

namespace Entry

def size (entry : Entry) : ℕ :=
  entry.2.length + 1

def region (entry : Entry) : Region :=
  stringRegion entry.1 entry.2

/-- The strings of the entries are in memory. -/
def AllIn (entries : List Entry) (memory : ByteMemory) : Prop :=
  ∀ entry ∈ entries, memory.StringAt entry.1 entry.2

/-- The strings of the entries are apart from a region. -/
def AllApart (entries : List Entry) (region : Region) : Prop :=
  ∀ entry ∈ entries, region.Apart entry.region

variable {entries : List Entry} {entry : Entry} {memory after : ByteMemory} {region : Region}

theorem region_eq (entry : Entry) : entry.region = .between entry.1 (entry.1 + entry.size) := by
  rw [Region.between, Nat.add_sub_cancel_left]
  rfl

theorem AllApart.of_inside {inner : Region} (apart : AllApart entries region)
    (inside : inner.Inside region) : AllApart entries inner := by
  intro entry isEntry
  exact (apart entry isEntry).of_inside inside

theorem AllIn.writesIn (strings : AllIn entries memory) (apart : AllApart entries region)
    (writes : memory.WritesIn region after) : AllIn entries after := by
  intro entry isEntry
  exact writes.stringAt (strings entry isEntry) (apart entry isEntry).symm

section Middle

variable {front back : List Entry}

theorem forall_mem_middle {property : Entry → Prop} :
    (∀ other ∈ front ++ entry :: back, property other) ↔
      property entry ∧ ∀ other ∈ front ++ back, property other := by
  rw [← List.forall_mem_cons]
  simp only [List.perm_middle.mem_iff]

theorem allIn_middle : AllIn (front ++ entry :: back) memory ↔
    memory.StringAt entry.1 entry.2 ∧ AllIn (front ++ back) memory :=
  forall_mem_middle

theorem allApart_middle : AllApart (front ++ entry :: back) region ↔
    region.Apart entry.region ∧ AllApart (front ++ back) region :=
  forall_mem_middle

theorem pairwise_middle : ((front ++ entry :: back).map Entry.region).Pairwise Region.Apart ↔
    AllApart (front ++ back) entry.region ∧
      ((front ++ back).map Entry.region).Pairwise Region.Apart := by
  rw [List.map_append, List.map_cons, List.pairwise_middle Region.Apart.symm, List.pairwise_cons,
    ← List.map_append, List.forall_mem_map]
  rfl

end Middle

theorem stringSize_eq (isString : memory.StringAt entry.1 entry.2) :
    stringSize memory entry.1 = entry.size :=
  congrArg (fun string => string.length + 1) isString.stringAt_eq

end Entry

section Argv

/-- What the loop over `argv` has passed over is strings of `argv`. -/
theorem argvLast_covered (memory : ByteMemory) (argv : List ℕ) (last : ℕ) :
    last ≤ argvLast memory argv last ∧
      ∀ address, (Region.between last (argvLast memory argv last)).Holds address →
        ∃ p ∈ argv, (stringRegion p (memory.stringAt p)).Holds address := by
  induction argv generalizing last with
  | nil =>
      refine ⟨le_rfl, ?_⟩
      intro address holds
      rw [Region.holds_between] at holds
      exact absurd (holds.1.trans_lt holds.2) (Nat.lt_irrefl _)
  | cons p argv ih =>
      rw [argvLast, List.foldl_cons, ← argvLast]
      split
      case isTrue here =>
        rcases ih (p + stringSize memory p) with ⟨grows, covered⟩
        refine ⟨by omega, ?_⟩
        intro address holds
        rw [Region.holds_between] at holds
        rcases Nat.lt_or_ge address (p + stringSize memory p) with inString | behind
        · refine ⟨p, List.mem_cons_self, ?_⟩
          exact ⟨here ▸ holds.1, inString⟩
        · rcases covered address (Region.holds_between.mpr ⟨behind, holds.2⟩) with
            ⟨other, isOther, inOther⟩
          exact ⟨other, List.mem_cons_of_mem _ isOther, inOther⟩
      case isFalse =>
        rcases ih last with ⟨grows, covered⟩
        refine ⟨grows, ?_⟩
        intro address holds
        rcases covered address holds with ⟨other, isOther, inOther⟩
        exact ⟨other, List.mem_cons_of_mem _ isOther, inOther⟩

end Argv

section Environ

/-- The loop over `environ`, with the entries it has passed and those it comes to.  The area from
`base` on is apart from all of them, and so is the rest of the chunk. -/
structure Relocating (base : ℕ) (before : ByteMemory) (chunk : Region) (loop : EnvironLoop)
    (front back : List Entry) : Prop where
  passed : loop.passed = front.map Prod.fst
  strings : Entry.AllIn (front ++ back) loop.memory
  distinct : ((front ++ back).map Entry.region).Pairwise Region.Apart
  area : Entry.AllApart (front ++ back) (.between base loop.procLast)
  spare : Entry.AllApart (front ++ back) ⟨loop.p, (back.map Entry.size).sum⟩
  areaSpare : Region.Apart (.between base loop.procLast) ⟨loop.p, (back.map Entry.size).sum⟩
  room : Region.Inside ⟨loop.p, (back.map Entry.size).sum⟩ chunk
  chunkInside : chunk.stop ≤ loop.memory.bytes.length
  lastInside : loop.procLast ≤ loop.memory.bytes.length
  writes : before.WritesIn chunk loop.memory

variable {base : ℕ} {before : ByteMemory} {chunk : Region} {loop : EnvironLoop}
  {front back : List Entry} {entry : Entry}

/-- An entry that is the next part of the area is copied to the start of what is left of the
chunk. -/
theorem Relocating.relocated
    (relocating : Relocating base before chunk loop front (entry :: back))
    (here : loop.procLast = entry.1) :
    Relocating base before chunk (environStep loop entry.1)
      (front ++ [(loop.p, entry.2)]) back := by
  rcases Entry.allIn_middle.mp relocating.strings with ⟨isString, strings⟩
  rcases Entry.pairwise_middle.mp relocating.distinct with ⟨fromEntry, distinct⟩
  rcases Entry.allApart_middle.mp relocating.area with ⟨-, area⟩
  rcases Entry.allApart_middle.mp relocating.spare with ⟨spareEntry, spare⟩
  have sized := Entry.stringSize_eq isString
  -- the copy and what is left of the chunk are the two parts of what was left before
  have copyInside : Region.Inside ⟨loop.p, entry.size⟩
      ⟨loop.p, ((entry :: back).map Entry.size).sum⟩ := Region.inside_left _ _ _
  have restInside : Region.Inside ⟨loop.p + entry.size, (back.map Entry.size).sum⟩
      ⟨loop.p, ((entry :: back).map Entry.size).sum⟩ := Region.inside_right _ _ _
  have copyRoom := copyInside.trans relocating.room
  have copyArea : ∀ other : Region, entry.region.Apart other →
      (Region.between base loop.procLast).Apart other →
        (Region.between base (entry.1 + entry.size)).Apart other := by
    intro other entryApart areaApart
    rw [Entry.region_eq] at entryApart
    exact (here ▸ areaApart).between_trans entryApart
  have writes : loop.memory.WritesIn ⟨loop.p, entry.size⟩ (loop.memory.memcpy loop.p
      (loop.memory.bufferAt entry.1) entry.size) := writesIn_write ⟨le_rfl, le_rfl⟩
  rw [environStep, if_pos here]
  dsimp only
  rw [sized]
  have order : front ++ [(loop.p, entry.2)] ++ back = front ++ (loop.p, entry.2) :: back := by
    rw [List.append_assoc, List.singleton_append]
  constructor
  · rw [relocating.passed, List.map_append]
    rfl
  · rw [order]
    apply Entry.allIn_middle.mpr
    refine ⟨isString.memcpy ?_, strings.writesIn (spare.of_inside copyInside) writes⟩
    exact copyRoom.2.trans relocating.chunkInside
  · rw [order]
    apply Entry.pairwise_middle.mpr
    exact ⟨spare.of_inside copyInside, distinct⟩
  · rw [order]
    apply Entry.allApart_middle.mpr
    constructor
    · apply copyArea
      · exact (spareEntry.of_inside copyInside).symm
      · exact (relocating.areaSpare.symm.of_inside copyInside).symm
    · intro other isOther
      exact copyArea other.region (fromEntry other isOther) (area other isOther)
  · rw [order]
    apply Entry.allApart_middle.mpr
    refine ⟨?_, spare.of_inside restInside⟩
    apply Region.Apart.symm
    exact Region.Apart.of_stop_le le_rfl
  · apply copyArea
    · exact (spareEntry.of_inside restInside).symm
    · exact (relocating.areaSpare.symm.of_inside restInside).symm
  · exact restInside.trans relocating.room
  · rw [writes.length]
    exact relocating.chunkInside
  · rw [writes.length]
    exact isString.inside
  · exact relocating.writes.trans (writesIn_write copyRoom)

theorem Relocating.skipped
    (relocating : Relocating base before chunk loop front (entry :: back))
    (elsewhere : loop.procLast ≠ entry.1) :
    Relocating base before chunk (environStep loop entry.1) (front ++ [entry]) back := by
  have less : Region.Inside ⟨loop.p, (back.map Entry.size).sum⟩
      ⟨loop.p, ((entry :: back).map Entry.size).sum⟩ := by
    simp only [Region.Inside, Region.stop, List.map_cons, List.sum_cons]
    omega
  have order : front ++ [entry] ++ back = front ++ entry :: back := by
    rw [List.append_assoc, List.singleton_append]
  rw [environStep, if_neg elsewhere]
  constructor
  · rw [relocating.passed, List.map_append]
    rfl
  · rw [order]
    exact relocating.strings
  · rw [order]
    exact relocating.distinct
  · rw [order]
    exact relocating.area
  · rw [order]
    exact relocating.spare.of_inside less
  · exact (relocating.areaSpare.symm.of_inside less).symm
  · exact less.trans relocating.room
  · exact relocating.chunkInside
  · exact relocating.lastInside
  · exact relocating.writes

theorem Relocating.step (relocating : Relocating base before chunk loop front (entry :: back)) :
    ∃ addr, Relocating base before chunk (environStep loop entry.1)
      (front ++ [(addr, entry.2)]) back ∧
        loop.procLast ≤ (environStep loop entry.1).procLast := by
  by_cases here : loop.procLast = entry.1
  · refine ⟨loop.p, relocating.relocated here, ?_⟩
    rw [environStep, if_pos here, here]
    exact Nat.le_add_right _ _
  · refine ⟨entry.1, relocating.skipped here, ?_⟩
    rw [environStep, if_neg here]

/-- At the end of the loop all entries point to the strings they have pointed to. -/
theorem Relocating.run (relocating : Relocating base before chunk loop front back) :
    ∃ entries,
      Relocating base before chunk ((back.map Prod.fst).foldl environStep loop) entries [] ∧
      entries.map Prod.snd = (front ++ back).map Prod.snd ∧
      loop.procLast ≤ ((back.map Prod.fst).foldl environStep loop).procLast := by
  induction back generalizing loop front with
  | nil => exact ⟨front, relocating, by rw [List.append_nil], le_rfl⟩
  | cons entry back ih =>
      rcases relocating.step with ⟨addr, next, grows⟩
      rcases ih next with ⟨entries, last, same, more⟩
      refine ⟨entries, last, ?_, grows.trans more⟩
      rw [same]
      simp

end Environ

section Title

/-- The size that `proc_set_title` passes to `memcpy`. -/
def titleSize (proc : Proc) (title : Bytes) : ℕ :=
  let base := proc.procArgv.headD 0
  if strlen title > sub64 proc.procLast base then
    sub64 (sub64 proc.procLast base) 1
  else
    strlen title

/-- The size that it passes to `memset`. -/
def zerosSize (proc : Proc) (title : Bytes) : ℕ :=
  sub64 (sub64 proc.procLast (proc.procArgv.headD 0)) (titleSize proc title)

section Sizes

variable {base : ℕ} {proc : Proc} {title : Bytes}

theorem headD_eq {argv : List ℕ} (first : argv.head? = some base) :
    argv.headD 0 = base ∧ (argv.take 1).headD 0 = base := by
  rw [List.headD_eq_head?_getD, List.headD_eq_head?_getD, List.head?_take, if_neg one_ne_zero,
    first]
  exact ⟨rfl, rfl⟩

theorem procSetTitle_memory (first : proc.procArgv.head? = some base) :
    (procSetTitle proc title).memory =
      (proc.memory.memcpy base title (titleSize proc title)).memset
        (base + titleSize proc title) 0 (zerosSize proc title) := by
  rcases headD_eq first with ⟨head, headTaken⟩
  unfold procSetTitle titleSize zerosSize titleSize
  dsimp only
  rw [head, headTaken]

/-- Where there is an area, or nothing to be copied, the title takes at most the area, and the zero
bytes take the rest. -/
theorem titleSize_eq (first : proc.procArgv.head? = some base) (ordered : base ≤ proc.procLast)
    (bounded : proc.procLast < 2 ^ 64) (room : base < proc.procLast ∨ strlen title = 0) :
    titleSize proc title = (if strlen title > proc.procLast - base then proc.procLast - base - 1
        else strlen title) ∧
      titleSize proc title ≤ proc.procLast - base ∧
      zerosSize proc title = proc.procLast - base - titleSize proc title := by
  have head := (headD_eq first).1
  have area : sub64 proc.procLast base = proc.procLast - base := sub64_eq ordered bounded
  have size : titleSize proc title = if strlen title > proc.procLast - base then
      proc.procLast - base - 1 else strlen title := by
    unfold titleSize
    dsimp only
    rw [head, area]
    split
    · exact sub64_eq (by omega) (by omega)
    · rfl
  have fits : titleSize proc title ≤ proc.procLast - base := by
    rw [size]
    split <;> omega
  refine ⟨size, fits, ?_⟩
  rw [zerosSize, head, area]
  exact sub64_eq fits (by omega)

theorem procSetTitle_writesIn (first : proc.procArgv.head? = some base)
    (ordered : base ≤ proc.procLast) (bounded : proc.procLast < 2 ^ 64)
    (room : base < proc.procLast ∨ strlen title = 0) :
    proc.memory.WritesIn (.between base proc.procLast) (procSetTitle proc title).memory := by
  rcases titleSize_eq first ordered bounded room with ⟨-, fits, zeros⟩
  rw [procSetTitle_memory first]
  have titleInside : Region.Inside ⟨base, titleSize proc title⟩
      (.between base proc.procLast) := by
    apply Region.inside_between le_rfl
    rw [Region.stop_mk]
    omega
  have zerosInside : Region.Inside ⟨base + titleSize proc title, zerosSize proc title⟩
      (.between base proc.procLast) := by
    apply Region.inside_between (Nat.le_add_right _ _)
    rw [Region.stop_mk]
    omega
  exact (writesIn_write titleInside).trans (writesIn_write zerosInside)

end Sizes

/-- The entries of `environ` point to strings that are apart from the area of the title. -/
structure Titled (base last : ℕ) (entries : List Entry) (proc : Proc) : Prop where
  environ : proc.environ = entries.map Prod.fst
  strings : Entry.AllIn entries proc.memory
  apart : Entry.AllApart entries (.between base last)
  procArgv : proc.procArgv.head? = some base
  procLast : proc.procLast = last
  ordered : base < last
  bounded : last < 2 ^ 64

variable {base last : ℕ} {entries : List Entry} {proc : Proc}

theorem Titled.setTitle_writesIn (titled : Titled base last entries proc) (title : Bytes) :
    proc.memory.WritesIn (.between base last) (procSetTitle proc title).memory := by
  rcases titled with ⟨-, -, -, first, rfl, ordered, bounded⟩
  exact procSetTitle_writesIn first ordered.le bounded (Or.inl ordered)

theorem Titled.setTitle (titled : Titled base last entries proc) (title : Bytes) :
    Titled base last entries (procSetTitle proc title) := by
  refine ⟨titled.environ, ?_, titled.apart, ?_, titled.procLast, titled.ordered, titled.bounded⟩
  · exact titled.strings.writesIn titled.apart (titled.setTitle_writesIn title)
  · show (proc.procArgv.take 1).head? = some base
    rw [List.head?_take, if_neg one_ne_zero]
    exact titled.procArgv

theorem Titled.setTitles (titled : Titled base last entries proc) (titles : List Bytes) :
    Titled base last entries (titles.foldl procSetTitle proc) ∧
      proc.memory.WritesIn (.between base last) (titles.foldl procSetTitle proc).memory := by
  induction titles generalizing proc with
  | nil => exact ⟨titled, writesIn_refl _ _⟩
  | cons title titles ih =>
      rcases ih (titled.setTitle title) with ⟨kept, writes⟩
      exact ⟨kept, (titled.setTitle_writesIn title).trans writes⟩

theorem Titled.strings_eq (titled : Titled base last entries proc) :
    proc.environ.map proc.memory.stringAt = entries.map Prod.snd := by
  rw [titled.environ, List.map_map]
  apply List.map_congr_left
  intro entry isEntry
  exact (titled.strings entry isEntry).stringAt_eq

end Title

namespace Proc

/-- The strings of `argv` and `environ` end in memory and are apart, each with its last byte. -/
structure Layout (proc : Proc) (argv : List ℕ) : Prop where
  ended : ∀ p ∈ argv ++ proc.environ, Terminated proc.memory.bytes p
  apart : ((argv ++ proc.environ).map fun p => stringRegion p (proc.memory.stringAt p)).Pairwise
    Region.Apart
  bounded : proc.memory.bytes.length < 2 ^ 64

/-- A chunk from `malloc` lies in memory and is fresh. -/
def Fresh (proc : Proc) (argv : List ℕ) (malloc : ℕ → Option ℕ) : Prop :=
  ∀ size p, malloc size = some p → p + size ≤ proc.memory.bytes.length ∧
    ∀ q ∈ argv ++ proc.environ,
      Region.Apart ⟨p, size⟩ (stringRegion q (proc.memory.stringAt q))

/-- A `malloc` that has one chunk to give. -/
theorem fresh_of_room {proc : Proc} {argv : List ℕ} {p room : ℕ}
    (inside : p + room ≤ proc.memory.bytes.length)
    (apart : ∀ q ∈ argv ++ proc.environ,
      Region.Apart ⟨p, room⟩ (stringRegion q (proc.memory.stringAt q))) :
    proc.Fresh argv fun size => if size ≤ room then some p else none := by
  intro size addr allocated
  rcases Nat.lt_or_ge room size with large | small
  · cases (if_neg large.not_ge).symm.trans allocated
  · cases (if_pos small).symm.trans allocated
    refine ⟨(Nat.add_le_add_left small p).trans inside, ?_⟩
    intro q isPointer
    exact (apart q isPointer).of_inside ⟨le_rfl, Nat.add_le_add_left small p⟩

/-- The entries of `environ`. -/
def entries (proc : Proc) : List Entry :=
  proc.environ.map fun p => (p, proc.memory.stringAt p)

end Proc

section Init

variable {before proc : Proc} {argv : List ℕ} {malloc : ℕ → Option ℕ}

theorem argvLast_apart {memory : ByteMemory} {name last : ℕ} {region : Region}
    (passed : argvLast memory argv name = last)
    (apart : ∀ p ∈ argv, Region.Apart (stringRegion p (memory.stringAt p)) region) :
    Region.Apart (.between name last) region := by
  subst passed
  intro address inArea
  rcases (argvLast_covered memory argv name).2 address inArea with ⟨p, isPointer, inString⟩
  exact apart p isPointer address inString

theorem argvLast_ge (name : ℕ) (argv : List ℕ) (memory : ByteMemory) :
    name + stringSize memory name ≤ argvLast memory (name :: argv) name := by
  rw [argvLast, List.foldl_cons, if_pos rfl, ← argvLast]
  exact (argvLast_covered memory argv _).1

theorem environSize_from {memory : ByteMemory} {environ : List ℕ} {size : ℕ}
    (bound : size + (environ.map (stringSize memory)).sum < 2 ^ 64) :
    environ.foldl (fun size p => add64 size (stringSize memory p)) size =
      size + (environ.map (stringSize memory)).sum := by
  induction environ generalizing size with
  | nil => rfl
  | cons p environ ih =>
      rw [List.map_cons, List.sum_cons, ← Nat.add_assoc] at bound
      rw [List.foldl_cons, add64_eq (by omega), ih bound, List.map_cons, List.sum_cons,
        Nat.add_assoc]

theorem environSize_eq (bound : (before.entries.map Entry.size).sum < 2 ^ 64) :
    environSize before.memory before.environ = (before.entries.map Entry.size).sum := by
  have sizes : before.entries.map Entry.size =
      before.environ.map (stringSize before.memory) := by
    rw [Proc.entries, List.map_map]
    rfl
  rw [sizes] at bound ⊢
  rw [environSize, environSize_from (by omega), Nat.zero_add]

namespace Proc.Layout

theorem strings (layout : before.Layout argv) {p : ℕ} (isPointer : p ∈ argv ++ before.environ) :
    before.memory.StringAt p (before.memory.stringAt p) :=
  stringAt_of_terminated (layout.ended p isPointer)

theorem allIn (layout : before.Layout argv) : Entry.AllIn before.entries before.memory := by
  intro entry isEntry
  rcases List.mem_map.mp isEntry with ⟨p, isPointer, rfl⟩
  exact layout.strings (List.mem_append_right _ isPointer)

theorem distinct (layout : before.Layout argv) :
    (before.entries.map Entry.region).Pairwise Region.Apart := by
  have apart := layout.apart
  rw [List.map_append, List.pairwise_append] at apart
  rw [entries, List.map_map]
  exact apart.2.1

theorem sizes (layout : before.Layout argv) :
    environSize before.memory before.environ = (before.entries.map Entry.size).sum := by
  apply environSize_eq
  have sum : before.entries.map Entry.size = (before.entries.map Entry.region).map Region.size := by
    rw [List.map_map]
    rfl
  rw [sum]
  apply lt_of_le_of_lt (Region.sum_size_le layout.distinct _) layout.bounded
  intro region isRegion
  rcases List.mem_map.mp isRegion with ⟨entry, isEntry, rfl⟩
  exact (layout.allIn entry isEntry).inside

theorem area_le (layout : before.Layout argv) {name last : ℕ} (nonempty : name < last)
    (passed : argvLast before.memory argv name = last) : last ≤ before.memory.bytes.length := by
  subst passed
  have inArea : (Region.between name (argvLast before.memory argv name)).Holds
      (argvLast before.memory argv name - 1) := Region.holds_between.mpr (by omega)
  rcases (argvLast_covered before.memory argv name).2 _ inArea with ⟨p, isPointer, inString⟩
  have inside := (layout.strings (List.mem_append_left _ isPointer)).inside
  have ends := inString.2
  simp only [stringRegion, Region.stop] at ends
  omega

end Proc.Layout

theorem relocating_start (layout : before.Layout argv) (fresh : before.Fresh argv malloc)
    {p name last : ℕ} (allocated : malloc (environSize before.memory before.environ) = some p)
    (nonempty : name < last) (passed : argvLast before.memory argv name = last) :
    Relocating name before.memory ⟨p, environSize before.memory before.environ⟩
      ⟨before.memory, [], last, p⟩ [] before.entries := by
  rcases fresh _ _ allocated with ⟨inside, isFresh⟩
  rw [layout.sizes] at inside isFresh ⊢
  have apart := layout.apart
  rw [List.map_append, List.pairwise_append] at apart
  refine ⟨rfl, layout.allIn, layout.distinct, ?_, ?_, ?_, ⟨le_rfl, le_rfl⟩, inside,
    layout.area_le nonempty passed, writesIn_refl _ _⟩
  · intro entry isEntry
    rcases List.mem_map.mp isEntry with ⟨q, isPointer, rfl⟩
    apply argvLast_apart passed
    intro other isOther
    exact apart.2.2 _ (List.mem_map_of_mem isOther) _ (List.mem_map_of_mem isPointer)
  · intro entry isEntry
    rcases List.mem_map.mp isEntry with ⟨q, isPointer, rfl⟩
    exact isFresh q (List.mem_append_right _ isPointer)
  · apply argvLast_apart passed
    intro other isOther
    exact (isFresh other (List.mem_append_left _ isOther)).symm

theorem Relocating.titled {name : ℕ} {memory : ByteMemory} {chunk : Region} {loop : EnvironLoop}
    {entries : List Entry} (ends : Relocating name memory chunk loop entries [])
    (starts : name + 2 ≤ loop.procLast) (bounded : loop.procLast < 2 ^ 64) (proc : Proc)
    (sameMemory : proc.memory = loop.memory) (sameEnviron : proc.environ = loop.passed)
    (first : proc.procArgv.head? = some name) (last : proc.procLast = sub64 loop.procLast 1) :
    Titled name proc.procLast entries proc := by
  have before : proc.procLast = loop.procLast - 1 := last.trans (sub64_eq (by omega) bounded)
  have shorter : Region.Inside (.between name proc.procLast) (.between name loop.procLast) := by
    apply Region.inside_between le_rfl
    rw [Region.between, Region.stop_mk]
    omega
  have all := List.append_nil entries
  refine ⟨?_, ?_, ?_, first, rfl, by omega, by omega⟩
  · rw [sameEnviron]
    exact ends.passed
  · rw [sameMemory]
    exact all ▸ ends.strings
  · exact (all ▸ ends.area).of_inside shorter

/-- The loop over `environ` starts behind `argv[0]`, and `proc_init` records what it comes to. -/
theorem procInit_start {name : ℕ} (layout : before.Layout argv) (fresh : before.Fresh argv malloc)
    (isFirst : argv.head? = some name) (init : procInit before argv malloc = (true, proc)) :
    ∃ p last loop, malloc (environSize before.memory before.environ) = some p ∧
      argvLast before.memory argv name = last ∧
      name + (before.memory.stringAt name).length + 1 ≤ last ∧
      Relocating name before.memory ⟨p, environSize before.memory before.environ⟩
        ⟨before.memory, [], last, p⟩ [] before.entries ∧
      (before.entries.map Prod.fst).foldl environStep ⟨before.memory, [], last, p⟩ = loop ∧
      proc = ⟨loop.memory, loop.passed, argv, sub64 loop.procLast 1⟩ := by
  rcases List.head?_eq_some_iff.mp isFirst with ⟨rest, rfl⟩
  unfold procInit at init
  dsimp only [List.headD_cons] at init
  split at init
  case h_1 => cases init
  case h_2 p allocated =>
    have starts : name + (before.memory.stringAt name).length + 1 ≤
        argvLast before.memory (name :: rest) name := by
      have first := argvLast_ge name rest before.memory
      have size : stringSize before.memory name = (before.memory.stringAt name).length + 1 := rfl
      omega
    have pointers : before.entries.map Prod.fst = before.environ := by
      rw [Proc.entries, List.map_map]
      exact List.map_id _
    cases init
    exact ⟨p, _, _, allocated, rfl, starts,
      relocating_start layout fresh allocated (by omega) rfl, by rw [pointers], rfl⟩

/-- `proc_init` leaves strings that a title does not reach. -/
theorem procInit_titled (layout : before.Layout argv) (fresh : before.Fresh argv malloc)
    (named : ∃ name ∈ argv.head?, before.memory.stringAt name ≠ [])
    (init : procInit before argv malloc = (true, proc)) :
    ∃ p entries, malloc (environSize before.memory before.environ) = some p ∧
      before.memory.WritesIn ⟨p, environSize before.memory before.environ⟩ proc.memory ∧
      entries.map Prod.snd = before.environ.map before.memory.stringAt ∧
      Titled (argv.headD 0) proc.procLast entries proc := by
  rcases named with ⟨name, isFirst, nonempty⟩
  rcases procInit_start layout fresh isFirst init with
    ⟨p, last, loop, allocated, -, starts, start, runs, rfl⟩
  rcases start.run with ⟨entries, ends, same, grows⟩
  rw [runs] at ends grows
  dsimp only at grows
  have positive := List.length_pos_iff.mpr nonempty
  have strings : entries.map Prod.snd = before.environ.map before.memory.stringAt := by
    rw [same, List.nil_append, Proc.entries, List.map_map]
    rfl
  have bounded := lt_of_le_of_lt ends.lastInside (ends.writes.length ▸ layout.bounded)
  rw [(headD_eq isFirst).1]
  exact ⟨p, entries, allocated, ends.writes, strings,
    ends.titled (by omega) bounded _ rfl rfl isFirst rfl⟩

/-- Titles leave the strings of `environ` as they were before `proc_init`, whose copies fit their
chunk, and are written to the area alone. -/
theorem environ_kept (layout : before.Layout argv) (fresh : before.Fresh argv malloc)
    (named : ∃ name ∈ argv.head?, before.memory.stringAt name ≠ [])
    (init : procInit before argv malloc = (true, proc)) (titles : List Bytes) :
    (∃ p, malloc (environSize before.memory before.environ) = some p ∧
      before.memory.WritesIn ⟨p, environSize before.memory before.environ⟩ proc.memory) ∧
    proc.memory.WritesIn (.between (argv.headD 0) proc.procLast)
      (titles.foldl procSetTitle proc).memory ∧
    (titles.foldl procSetTitle proc).environ.map
        (titles.foldl procSetTitle proc).memory.stringAt =
      before.environ.map before.memory.stringAt := by
  rcases procInit_titled layout fresh named init with
    ⟨p, entries, allocated, copies, same, titled⟩
  rcases titled.setTitles titles with ⟨kept, writes⟩
  refine ⟨⟨p, allocated, copies⟩, writes, ?_⟩
  rw [kept.strings_eq, same]

/-- The second string of `environ` follows `argv[0]` and is copied; the first one follows it, but
the loop has passed it by then.  The title is too long for the area. -/
theorem environ_kept_copied : ∃ before proc : Proc, proc.environ = [6, 8] ∧
    (∃ p, (fun size => if size ≤ 4 then some 8 else none)
        (environSize before.memory before.environ) = some p ∧
      before.memory.WritesIn ⟨p, environSize before.memory before.environ⟩ proc.memory) ∧
    proc.memory.WritesIn (.between ([1].headD 0) proc.procLast)
      ([[116, 105, 116, 108, 101]].foldl procSetTitle proc).memory ∧
    ([[116, 105, 116, 108, 101]].foldl procSetTitle proc).environ.map
        ([[116, 105, 116, 108, 101]].foldl procSetTitle proc).memory.stringAt =
      before.environ.map before.memory.stringAt := by
  let before : Proc := ⟨⟨[0, 97, 98, 0, 120, 0, 121, 0, 0, 0, 0, 0], []⟩, [6, 4], [], 0⟩
  let malloc : ℕ → Option ℕ := fun size => if size ≤ 4 then some 8 else none
  have layout : before.Layout [1] := by
    refine ⟨?_, by decide, by decide⟩
    intro p isPointer
    have isOne : p = 1 ∨ p = 6 ∨ p = 4 := by simpa [before] using isPointer
    rcases isOne with rfl | rfl | rfl
    · exact ⟨3, by decide, rfl⟩
    · exact ⟨7, by decide, rfl⟩
    · exact ⟨5, by decide, rfl⟩
  have fresh : before.Fresh [1] malloc := Proc.fresh_of_room (by decide) (by decide)
  exact ⟨before, (procInit before [1] malloc).2, rfl,
    environ_kept layout fresh ⟨1, rfl, by decide⟩ rfl [[116, 105, 116, 108, 101]]⟩

end Init

end Libhelp
