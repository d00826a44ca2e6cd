import Crpg.Rules.StatPersistence

/-!
# Reading a persisted stat block

What `from_serializable` accepts and what the block it builds says. The checks pass exactly when
every value reads as something (`Reads`) and the stat names are nonempty and distinct; after them
nothing fails, so a rejection leaves the interners as they were. The block says what the entries
read as, whatever the interners held before (`fromSerializable_of_accepted`), and what a block was
written as reads as what it said (`reads_serialize`).

`Built` are the blocks that the operations make; they stay within the limits (`Built.valid`), so
what is written of them is accepted again.
-/

set_option autoImplicit false

namespace Crpg.Rules

open Crpg.Core Crpg.Lib
open List (length_map map_append map_map mem_map mem_singleton nil_append)

/-! ### What is checked -/

/-- A persisted value reads as something, with the expression that its dice denote. -/
inductive Reads : SerializableStatValue → Option DiceExpr → NamedValue → Prop
  | int (value : ℤ) : Reads (.int value) none (.int value)
  | fixed (value : Fx16) : Reads (.fixed value) none (.fixed value)
  | bool (value : Bool) : Reads (.bool value) none (.bool value)
  | enum (entry : EnumValue) (henumId : entry.enumId ≠ "") (hvariant : entry.variant ≠ "") :
      Reads (.enum entry) none (.enum entry)
  | dice (text : String) (expr : DiceExpr) (hparse : DiceExpr.parse text = .ok expr) :
      Reads (.dice text) (some expr) (.dice expr)
  | tags (names : List String) (hlength : names.length ≤ maxTags) (hnames : "" ∉ names)
      (hnodup : names.Nodup) : Reads (.tags names) none (.tags names.toFinset)

theorem Reads.unique {value : SerializableStatValue} {first second : Option DiceExpr}
    {firstNamed secondNamed : NamedValue} (hfirst : Reads value first firstNamed)
    (hsecond : Reads value second secondNamed) : first = second ∧ firstNamed = secondNamed := by
  cases hfirst with
  | int _ => cases hsecond; exact ⟨rfl, rfl⟩
  | fixed _ => cases hsecond; exact ⟨rfl, rfl⟩
  | bool _ => cases hsecond; exact ⟨rfl, rfl⟩
  | enum _ _ _ => cases hsecond; exact ⟨rfl, rfl⟩
  | tags _ _ _ _ => cases hsecond; exact ⟨rfl, rfl⟩
  | dice _ _ hfirst =>
    cases hsecond with
    | dice _ _ hsecond =>
      have hsame := Except.ok.inj (hfirst.symm.trans hsecond)
      rw [hsame]
      exact ⟨rfl, rfl⟩

namespace StatBlock

theorem checkTags_eq_ok_iff {location : String} {child : ℕ} {seen : Finset String}
    {names : List String} : checkTags location child seen names = .ok () ↔
      (∀ name ∈ names, name ≠ "" ∧ name ∉ seen) ∧ names.Nodup := by
  induction names generalizing child seen with
  | nil => exact ⟨fun _ ↦ ⟨nofun, List.nodup_nil⟩, fun _ ↦ rfl⟩
  | cons name rest ih =>
    rw [checkTags, List.forall_mem_cons, List.nodup_cons]
    by_cases hempty : name = ""
    · rw [if_pos (by rw [String.isEmpty_iff]; exact hempty)]
      exact ⟨fun hchecked ↦ (nomatch hchecked), fun hnames ↦ absurd hempty hnames.1.1.1⟩
    · rw [if_neg (by rw [String.isEmpty_iff]; exact hempty)]
      by_cases hseen : name ∈ seen
      · rw [if_pos hseen]
        exact ⟨fun hchecked ↦ (nomatch hchecked), fun hnames ↦ absurd hseen hnames.1.1.2⟩
      · rw [if_neg hseen, ih]
        simp only [Finset.mem_insert, not_or]
        constructor
        · intro ⟨hrest, hnodup⟩
          exact ⟨⟨⟨hempty, hseen⟩, fun other hother ↦
            ⟨(hrest other hother).1, (hrest other hother).2.2⟩⟩,
            fun hin ↦ (hrest name hin).2.1 rfl, hnodup⟩
        · intro ⟨⟨_, hrest⟩, hfresh, hnodup⟩
          exact ⟨fun other hother ↦ ⟨(hrest other hother).1,
            fun hsame ↦ hfresh (hsame ▸ hother), (hrest other hother).2⟩, hnodup⟩

theorem checkPersistedValue_eq_ok_iff {location : String} {value : SerializableStatValue}
    {parsed : Option DiceExpr} : checkPersistedValue location value = .ok parsed ↔
      ∃ named, Reads value parsed named := by
  cases value with
  | int value =>
    exact ⟨fun hchecked ↦ Except.ok.inj hchecked ▸ ⟨_, .int value⟩, fun ⟨_, hreads⟩ ↦ by
      cases hreads; rfl⟩
  | fixed value =>
    exact ⟨fun hchecked ↦ Except.ok.inj hchecked ▸ ⟨_, .fixed value⟩, fun ⟨_, hreads⟩ ↦ by
      cases hreads; rfl⟩
  | bool value =>
    exact ⟨fun hchecked ↦ Except.ok.inj hchecked ▸ ⟨_, .bool value⟩, fun ⟨_, hreads⟩ ↦ by
      cases hreads; rfl⟩
  | enum entry =>
    unfold checkPersistedValue
    simp only [String.isEmpty_iff]
    constructor
    · intro hchecked
      split_ifs at hchecked with hempty
      obtain ⟨henumId, hvariant⟩ := not_or.mp hempty
      rw [← Except.ok.inj hchecked]
      exact ⟨_, .enum entry henumId hvariant⟩
    · intro ⟨_, hreads⟩
      cases hreads with
      | enum _ henumId hvariant => exact if_neg (not_or.mpr ⟨henumId, hvariant⟩)
  | dice text =>
    unfold checkPersistedValue
    dsimp only
    constructor
    · intro hchecked
      cases hparse : DiceExpr.parse text with
      | error failure =>
        rw [hparse] at hchecked
        exact nomatch hchecked
      | ok expr =>
        rw [hparse] at hchecked
        rw [← Except.ok.inj hchecked]
        exact ⟨_, .dice text expr hparse⟩
    · intro ⟨_, hreads⟩
      cases hreads with
      | dice _ expr hparse => rw [hparse]
  | tags names =>
    unfold checkPersistedValue
    dsimp only
    constructor
    · intro hchecked
      split_ifs at hchecked with hlong
      split at hchecked
      · exact nomatch hchecked
      · next htags =>
        obtain ⟨hnames, hnodup⟩ := checkTags_eq_ok_iff.mp htags
        rw [← Except.ok.inj hchecked]
        exact ⟨_, .tags names (not_lt.mp hlong) (fun hin ↦ (hnames "" hin).1 rfl) hnodup⟩
    · intro ⟨_, hreads⟩
      cases hreads with
      | tags _ hlength hnames hnodup =>
        have htags : checkTags (location ++ "/value") 0 ∅ names = .ok () :=
          checkTags_eq_ok_iff.mpr ⟨fun name hname ↦
            ⟨fun hempty ↦ hnames (hempty ▸ hname), Finset.notMem_empty name⟩, hnodup⟩
        rw [if_neg (not_lt.mpr hlength), htags]

/-- The checks of the entries pass exactly when the stat names are nonempty, fresh and distinct and
every value reads as something. -/
theorem checkEntries_eq_ok_iff {index : ℕ} {seen : Finset String}
    {entries : List SerializableStatEntry} {parsed : List (Option DiceExpr)} :
    checkEntries index seen entries = .ok parsed ↔
      (∀ entry ∈ entries, entry.stat ≠ "" ∧ entry.stat ∉ seen) ∧
      (entries.map SerializableStatEntry.stat).Nodup ∧
      List.Forall₂ (fun entry parsed ↦ ∃ named, Reads entry.value parsed named) entries parsed := by
  induction entries generalizing index seen parsed with
  | nil =>
    rw [checkEntries, Except.ok.injEq]
    constructor
    · intro hnil
      rw [← hnil]
      exact ⟨nofun, List.nodup_nil, .nil⟩
    · intro ⟨_, _, hall⟩
      cases hall
      rfl
  | cons entry rest ih =>
    rw [checkEntries, List.forall_mem_cons, List.map_cons, List.nodup_cons]
    by_cases hempty : entry.stat = ""
    · rw [if_pos (by rw [String.isEmpty_iff]; exact hempty)]
      exact ⟨fun hchecked ↦ (nomatch hchecked), fun hnames ↦ absurd hempty hnames.1.1.1⟩
    rw [if_neg (by rw [String.isEmpty_iff]; exact hempty)]
    by_cases hseen : entry.stat ∈ seen
    · rw [if_pos hseen]
      exact ⟨fun hchecked ↦ (nomatch hchecked), fun hnames ↦ absurd hseen hnames.1.1.2⟩
    rw [if_neg hseen]
    constructor
    · intro hchecked
      split at hchecked
      · exact nomatch hchecked
      · next value hvalue =>
        split at hchecked
        · exact nomatch hchecked
        · next later hlater =>
          obtain ⟨hrest, hnodup, hall⟩ := ih.mp hlater
          rw [← Except.ok.inj hchecked]
          refine ⟨⟨⟨hempty, hseen⟩, fun other hother ↦ ?_⟩, ⟨?_, hnodup⟩,
            .cons (checkPersistedValue_eq_ok_iff.mp hvalue) hall⟩
          · exact ⟨(hrest other hother).1, fun hin ↦
              (hrest other hother).2 (Finset.mem_insert_of_mem hin)⟩
          · intro hin
            obtain ⟨other, hother, hsame⟩ := mem_map.mp hin
            exact (hrest other hother).2 (hsame ▸ Finset.mem_insert_self _ _)
    · intro ⟨⟨_, hrest⟩, ⟨hfresh, hnodup⟩, hall⟩
      cases hall with
      | @cons _ value _ later hvalue hlater =>
        have htail : checkEntries (index + 1) (insert entry.stat seen) rest = .ok later := by
          refine ih.mpr ⟨fun other hother ↦ ⟨(hrest other hother).1, fun hin ↦ ?_⟩, hnodup, hlater⟩
          rcases Finset.mem_insert.mp hin with hsame | hin
          · exact hfresh (hsame ▸ List.mem_map_of_mem hother)
          · exact (hrest other hother).2 hin
        rw [checkPersistedValue_eq_ok_iff.mpr hvalue]
        dsimp only
        rw [htail]

/-! ### Interning -/

theorem internTags_spec (interners : Interners) (names : List String) :
    interners.Grows (internTags interners names).2 0 names.length ∧
      (∀ tag ∈ (internTags interners names).1, ∃ name ∈ names,
        (internTags interners names).2.tags.resolve tag = some name) ∧
      (∀ name ∈ names, ∃ tag ∈ (internTags interners names).1,
        (internTags interners names).2.tags.resolve tag = some name) ∧
      (internTags interners names).1.card ≤ names.length := by
  induction names generalizing interners with
  | nil => exact ⟨.refl interners 0 0, nofun, nofun, le_rfl⟩
  | cons name rest ih =>
    rw [internTags]
    dsimp only
    obtain ⟨hgrows, hissued, hfound, hcard⟩ := ih (interners.internTag name).2
    have hname : (internTags (interners.internTag name).2 rest).2.tags.resolve
        (interners.internTag name).1 = some name :=
      hgrows.tags.resolve (interners.tags.resolve_intern name)
    refine ⟨((interners.grows_internTag name).trans hgrows).mono le_rfl (Nat.add_comm ..).le,
      fun tag htag ↦ ?_, fun other hother ↦ ?_, ?_⟩
    · rcases Finset.mem_insert.mp htag with rfl | htag
      · exact ⟨name, List.mem_cons_self, hname⟩
      · obtain ⟨other, hother, hresolve⟩ := hissued tag htag
        exact ⟨other, List.mem_cons_of_mem _ hother, hresolve⟩
    · rcases List.mem_cons.mp hother with rfl | hother
      · exact ⟨_, Finset.mem_insert_self _ _, hname⟩
      · obtain ⟨tag, htag, hresolve⟩ := hfound other hother
        exact ⟨tag, Finset.mem_insert_of_mem htag, hresolve⟩
    · exact (Finset.card_insert_le _ _).trans (Nat.succ_le_succ hcard)

/-- A value within the limits of a block. A dice offset is an `i32`. -/
def Sound (value : StatValue) : Prop :=
  checkStandaloneValue value = .ok () ∧ ∀ expr, value = .dice expr → InI32 expr.offset

theorem convertValue_spec {value : SerializableStatValue} {parsed : Option DiceExpr}
    {named : NamedValue} (hreads : Reads value parsed named) (interners : Interners) :
    ∃ converted after, convertValue interners parsed value = some (converted, after) ∧
      interners.Grows after 0 maxTags ∧ converted.Issued after ∧ converted.named after = named ∧
      Sound converted := by
  cases hreads with
  | int value =>
    exact ⟨_, _, rfl, .refl .., trivial, rfl, rfl, nofun⟩
  | fixed value =>
    exact ⟨_, _, rfl, .refl .., trivial, rfl, rfl, nofun⟩
  | bool value =>
    exact ⟨_, _, rfl, .refl .., trivial, rfl, rfl, nofun⟩
  | enum entry henumId hvariant =>
    refine ⟨_, _, rfl, .refl .., trivial, rfl, ?_, nofun⟩
    unfold checkStandaloneValue
    simp only [String.isEmpty_iff]
    exact if_neg (not_or.mpr ⟨henumId, hvariant⟩)
  | dice text expr hparse =>
    refine ⟨_, _, rfl, .refl .., trivial, rfl, rfl, fun other hsame ↦ ?_⟩
    have hexpr : expr = other := StatValue.dice.inj hsame
    obtain ⟨-, -, -, -, hoffset⟩ := DiceExpr.parse_eq_ok_iff.mp hparse
    exact hexpr ▸ hoffset
  | tags names hlength hnames hnodup =>
    obtain ⟨hgrows, hissued, hfound, hcard⟩ :=
      internTags_spec interners (names.insertionSort (· ≤ ·))
    simp only [List.mem_insertionSort] at hissued hfound
    rw [List.length_insertionSort] at hcard hgrows
    refine ⟨_, _, rfl, hgrows.mono le_rfl hlength, fun tag htag ↦ ?_, ?_, ?_, nofun⟩
    · obtain ⟨name, -, hname⟩ := hissued tag htag
      exact ⟨name, hname⟩
    · show NamedValue.tags _ = _
      congr 1
      ext name
      rw [Finset.mem_image, List.mem_toFinset]
      unfold tagName
      constructor
      · intro ⟨tag, htag, hsame⟩
        obtain ⟨found, hmem, hresolve⟩ := hissued tag htag
        rw [hresolve, Option.getD_some] at hsame
        exact hsame ▸ hmem
      · intro hname
        obtain ⟨tag, htag, hresolve⟩ := hfound name hname
        exact ⟨tag, htag, by rw [hresolve, Option.getD_some]⟩
    · exact if_neg (not_lt.mpr (hcard.trans hlength))

variable {after : Interners} {value : StatValue} {block : StatBlock}

theorem named_of_extends {before : Interners} (hextends : before.Extends after)
    (hissued : value.Issued before) :
    value.Issued after ∧ value.named after = value.named before := by
  cases value with
  | int _ => exact ⟨trivial, rfl⟩
  | fixed _ => exact ⟨trivial, rfl⟩
  | bool _ => exact ⟨trivial, rfl⟩
  | enum _ => exact ⟨trivial, rfl⟩
  | dice _ => exact ⟨trivial, rfl⟩
  | tags tags =>
    have htags : ∀ tag ∈ tags, ∃ name, before.tags.resolve tag = some name := hissued
    constructor
    · intro tag htag
      obtain ⟨name, hname⟩ := htags tag htag
      exact ⟨name, hextends.tags.resolve hname⟩
    · show NamedValue.tags _ = NamedValue.tags _
      congr 1
      apply Finset.image_congr
      intro tag htag
      obtain ⟨name, hname⟩ := htags tag htag
      unfold tagName
      rw [hname, hextends.tags.resolve hname]

theorem Issued.of_extends {before : Interners} (hextends : before.Extends after)
    (hissued : block.Issued before) : block.Issued after ∧
      block.entries.map (namedEntry after) = block.entries.map (namedEntry before) := by
  constructor
  · constructor
    · intro stat hstat
      obtain ⟨name, hname⟩ := hissued.stats stat hstat
      exact ⟨name, hextends.stats.resolve hname⟩
    · exact fun entry hentry ↦ (named_of_extends hextends (hissued.values entry hentry)).1
  · apply List.map_congr_left
    intro entry hentry
    obtain ⟨⟨name, hname⟩, hvalue⟩ := hissued.entry hentry
    unfold namedEntry statName
    rw [hname, hextends.stats.resolve hname, (named_of_extends hextends hvalue).2]

/-! ### Building the block -/

/-- A block under construction: its handles come from the interner, its values are sound, and its
entries say a list of names and values. -/
structure Building (interners : Interners) (block : StatBlock)
    (said : List (String × NamedValue)) : Prop where
  issued : block.Issued interners
  sound : ∀ entry ∈ block.entries, Sound entry.2
  said : block.entries.map (namedEntry interners) = said

variable {interners : Interners}

theorem Building.insertEntry {said : List (String × NamedValue)}
    (hbuilding : Building interners block said) {item : SerializableStatEntry × Option DiceExpr}
    {named : NamedValue} (hreads : Reads item.1.value item.2 named)
    (hfresh : item.1.stat ∉ said.map Prod.fst) :
    ∃ built after, StatBlock.insertEntry (block, interners) item = some (built, after) ∧
      interners.Grows after 1 maxTags ∧ Building after built (said ++ [(item.1.stat, named)]) := by
  obtain ⟨converted, after, hconvert, hconverted, hissued, hnamed, hsound⟩ :=
    convertValue_spec hreads (interners.internStat item.1.stat).2
  have hgrown : interners.Grows after 1 maxTags :=
    ((interners.grows_internStat _).trans hconverted).mono le_rfl (Nat.zero_add _).le
  have hhandle : after.stats.resolve (interners.internStat item.1.stat).1 = some item.1.stat :=
    hconverted.stats.resolve (interners.stats.resolve_intern item.1.stat)
  obtain ⟨hblock, hsame⟩ := hbuilding.issued.of_extends hgrown.toExtends
  have hnew : (interners.internStat item.1.stat).1 ∉ block.keys := by
    intro hin
    apply hfresh
    rw [← hbuilding.said, ← hsame]
    obtain ⟨entry, hentry, hkey⟩ := mem_map.mp hin
    refine mem_map.mpr ⟨namedEntry after entry, List.mem_map_of_mem hentry, ?_⟩
    show statName after entry.1 = item.1.stat
    unfold statName
    rw [hkey, hhandle, Option.getD_some]
  have hentries : (block.insert (interners.internStat item.1.stat).1 converted).entries =
      block.entries ++ [((interners.internStat item.1.stat).1, converted)] :=
    IndexMap.entries_insert_of_notMem hnew
  have hsaid : namedEntry after ((interners.internStat item.1.stat).1, converted) =
      (item.1.stat, named) := by
    unfold namedEntry statName
    rw [hhandle, hnamed, Option.getD_some]
  refine ⟨block.insert (interners.internStat item.1.stat).1 converted, after, ?_, hgrown, ⟨?_, ?_⟩,
    ?_, ?_⟩
  · unfold StatBlock.insertEntry
    dsimp only
    rw [hconvert]
    rfl
  · intro stat hstat
    rw [IndexMap.keys_insert_of_notMem hnew, List.mem_append, mem_singleton] at hstat
    rcases hstat with hstat | rfl
    · exact hblock.stats stat hstat
    · exact ⟨item.1.stat, hhandle⟩
  · rw [hentries, List.forall_mem_append]
    exact ⟨hblock.values, List.forall_mem_singleton.mpr hissued⟩
  · rw [hentries, List.forall_mem_append]
    exact ⟨hbuilding.sound, List.forall_mem_singleton.mpr hsound⟩
  · rw [hentries, map_append, hsame, hbuilding.said, List.map_singleton, hsaid]

theorem Building.foldlM {said : List (String × NamedValue)}
    (hbuilding : Building interners block said)
    {items : List (SerializableStatEntry × Option DiceExpr)} {news : List (String × NamedValue)}
    (hreads : List.Forall₂ (fun item new ↦ new.1 = item.1.stat ∧ Reads item.1.value item.2 new.2)
      items news) (hnodup : ((said ++ news).map Prod.fst).Nodup) :
    ∃ built after, items.foldlM StatBlock.insertEntry (block, interners) = some (built, after) ∧
      interners.Grows after items.length (items.length * maxTags) ∧
        Building after built (said ++ news) := by
  induction hreads generalizing interners block said with
  | nil =>
    refine ⟨block, interners, rfl, .refl .., ?_⟩
    rw [List.append_nil]
    exact hbuilding
  | @cons item new items news hread _ ih =>
    have hmoved : said ++ new :: news = (said ++ [(item.1.stat, new.2)]) ++ news := by
      rw [List.append_assoc, List.singleton_append, ← hread.1]
    rw [hmoved] at hnodup ⊢
    have hfresh : item.1.stat ∉ said.map Prod.fst := by
      rw [map_append, map_append] at hnodup
      intro hin
      exact List.disjoint_of_nodup_append hnodup.of_append_left hin (mem_singleton.mpr rfl)
    obtain ⟨middle, between, hstep, hgrown, hmiddle⟩ := hbuilding.insertEntry hread.2 hfresh
    obtain ⟨built, after, hrest, hextends, hbuilt⟩ := ih hmiddle hnodup
    refine ⟨built, after, ?_, (hgrown.trans hextends).mono ?_ ?_, hbuilt⟩
    · rw [List.foldlM_cons, hstep]
      exact hrest
    · rw [List.length_cons, Nat.add_comm]
    · rw [List.length_cons, Nat.succ_mul, Nat.add_comm]

/-- A block within the limits. -/
structure Valid (block : StatBlock) : Prop where
  length : block.len ≤ maxStats
  sound : ∀ entry ∈ block.entries, Sound entry.2

/-- The entries pass the checks: at most the limit, with nonempty distinct names and values that
read as something. -/
structure Accepted (value : SerializableStatBlock) : Prop where
  length : value.entries.length ≤ maxStats
  nonempty : ∀ entry ∈ value.entries, entry.stat ≠ ""
  distinct : (value.entries.map SerializableStatEntry.stat).Nodup
  reads : ∀ entry ∈ value.entries, ∃ parsed named, Reads entry.value parsed named

theorem fromSerializable_of_not_accepted {value : SerializableStatBlock} (interners : Interners)
    (hrejected : ¬ Accepted value) :
    ∃ error, fromSerializable value interners = some (.error error, interners) := by
  unfold fromSerializable
  by_cases hlong : value.entries.length > maxStats
  · rw [if_pos hlong]
    exact ⟨_, rfl⟩
  rw [if_neg hlong]
  cases hcheck : checkEntries 0 ∅ value.entries with
  | error failure => exact ⟨failure, rfl⟩
  | ok parsed =>
    refine absurd ?_ hrejected
    obtain ⟨hnames, hnodup, hall⟩ := checkEntries_eq_ok_iff.mp hcheck
    refine ⟨not_lt.mp hlong, fun entry hentry ↦ (hnames entry hentry).1, hnodup,
      fun entry hentry ↦ ?_⟩
    obtain ⟨found, -, hreads⟩ := exists_of_forall₂ hall.flip hentry
    exact ⟨found, hreads⟩

theorem fromSerializable_of_accepted {value : SerializableStatBlock} (interners : Interners)
    (haccepted : Accepted value) :
    ∃ block after, fromSerializable value interners = some (.ok block, after) ∧
      interners.Grows after maxStats (maxStats * maxTags) ∧ block.Issued after ∧ block.Valid ∧
      ∀ name named, (block.named after).get? name = some named ↔
        ∃ entry ∈ value.entries, entry.stat = name ∧ ∃ parsed, Reads entry.value parsed named := by
  obtain ⟨parsed, hall⟩ := exists_forall₂_iff.mpr haccepted.reads
  have hcheck : checkEntries 0 ∅ value.entries = .ok parsed :=
    checkEntries_eq_ok_iff.mpr ⟨fun entry hentry ↦
      ⟨haccepted.nonempty entry hentry, Finset.notMem_empty _⟩, haccepted.distinct, hall⟩
  have hlength : value.entries.length = parsed.length := hall.length_eq
  have hsorted := List.perm_insertionSort (fun first second : SerializableStatEntry ×
    Option DiceExpr ↦ first.1.stat ≤ second.1.stat) (value.entries.zip parsed)
  unfold fromSerializable
  rw [if_neg (not_lt.mpr haccepted.length), hcheck]
  dsimp only
  generalize ((value.entries.zip parsed).insertionSort fun first second ↦
    first.1.stat ≤ second.1.stat) = items at hsorted ⊢
  -- Each item in the order of the names reads as something.
  obtain ⟨news, hnews⟩ : ∃ news : List (String × NamedValue), List.Forall₂ (fun item new ↦
      new.1 = item.1.stat ∧ Reads item.1.value item.2 new.2) items news := by
    refine exists_forall₂_iff.mpr fun item hitem ↦ ?_
    obtain ⟨named, hreads⟩ := List.forall₂_zip hall (hsorted.mem_iff.mp hitem)
    exact ⟨(item.1.stat, named), rfl, hreads⟩
  have hnames : news.map Prod.fst = items.map fun item ↦ item.1.stat := by
    rw [eq_comm, ← List.forall₂_eq_eq_eq, List.forall₂_map_left_iff, List.forall₂_map_right_iff]
    exact hnews.imp fun _ _ hnew ↦ hnew.1.symm
  have hitems : (items.map fun item ↦ item.1.stat).Perm
      (value.entries.map SerializableStatEntry.stat) := by
    have hfirst : (value.entries.zip parsed).map Prod.fst = value.entries :=
      List.map_fst_zip hlength.le
    rw [← hfirst, map_map]
    exact hsorted.map _
  have hdistinct : (([] ++ news).map Prod.fst).Nodup := by
    rw [nil_append, hnames]
    exact hitems.nodup_iff.mpr haccepted.distinct
  have hstart : Building interners IndexMap.empty [] := ⟨⟨nofun, nofun⟩, nofun, rfl⟩
  obtain ⟨block, after, hbuilt, hgrows, hbuilding⟩ := hstart.foldlM hnews hdistinct
  have hitemsLength : items.length ≤ maxStats := by
    have hsame := hitems.length_eq
    rw [length_map, length_map] at hsame
    exact hsame.trans_le haccepted.length
  rw [hbuilt]
  refine ⟨block, after, rfl, hgrows.mono hitemsLength (Nat.mul_le_mul_right _ hitemsLength),
    hbuilding.issued, ⟨?_, hbuilding.sound⟩, fun name named ↦ ?_⟩
  · have hsaid := congrArg List.length hbuilding.said
    have hnewsLength := congrArg List.length hnames
    simp only [length_map, nil_append] at hsaid hnewsLength
    exact (hsaid.trans hnewsLength).trans_le hitemsLength
  · rw [hbuilding.issued.get?_named, hbuilding.said, nil_append]
    constructor
    · intro hnew
      obtain ⟨item, hitem, hname, hreads⟩ := exists_of_forall₂ hnews hnew
      have hentry : item.1 ∈ value.entries := (List.of_mem_zip (hsorted.mem_iff.mp hitem)).1
      exact ⟨item.1, hentry, hname.symm, item.2, hreads⟩
    · intro ⟨entry, hentry, hname, parsedHere, hreads⟩
      have hmem : entry ∈ (value.entries.zip parsed).map Prod.fst := by
        rw [List.map_fst_zip hlength.le]
        exact hentry
      obtain ⟨item, hitem, hitemEntry⟩ := mem_map.mp hmem
      obtain ⟨new, hnew, hnewName, hnewReads⟩ :=
        exists_of_forall₂ hnews.flip (hsorted.mem_iff.mpr hitem)
      rw [hitemEntry] at hnewName hnewReads
      have hsame : new = (name, named) :=
        Prod.ext (hnewName.trans hname) (hnewReads.unique hreads).2
      exact hsame ▸ hnew

/-! ### Blocks within the limits -/

/-- A block that the operations of a block make. A dice offset that is inserted is an `i32`. -/
inductive Built : StatBlock → Prop
  | new : Built IndexMap.empty
  | insert {block after : StatBlock} {stat : StatId} {value : StatValue} (hblock : Built block)
      (hoffset : ∀ expr, value = .dice expr → InI32 expr.offset)
      (hinsert : block.insertChecked stat value = .ok after) : Built after
  | remove {block : StatBlock} (stat : StatId) (hblock : Built block) :
      Built (block.shiftRemove stat)
  | read {value : SerializableStatBlock} {interners after : Interners} {block : StatBlock}
      (hread : fromSerializable value interners = some (.ok block, after)) : Built block

theorem Valid.insert {after : StatBlock} {stat : StatId} (hvalid : block.Valid)
    (hoffset : ∀ expr, value = .dice expr → InI32 expr.offset)
    (hinsert : block.insertChecked stat value = .ok after) : after.Valid := by
  unfold insertChecked at hinsert
  split at hinsert
  · exact nomatch hinsert
  · next hchecked =>
    split_ifs at hinsert with hfull
    rw [← Except.ok.inj hinsert]
    constructor
    · have hlength : (block.insert stat value).keys.length ≤ maxStats := by
        by_cases hbound : stat ∈ block.keys
        · rw [IndexMap.keys_insert_of_mem hbound]
          exact (length_map _).trans_le hvalid.length
        · have hroom : block.len < maxStats := by
            rw [IndexMap.contains_eq_true_iff, not_and, not_le] at hfull
            exact hfull hbound
          rw [IndexMap.keys_insert_of_notMem hbound, List.length_append, List.length_singleton]
          exact (congrArg (· + 1) (length_map _)).trans_le hroom
      exact (length_map _).symm.trans_le hlength
    · intro entry hentry
      have hget := IndexMap.mem_entries_iff.mp hentry
      rw [IndexMap.get?_insert] at hget
      split_ifs at hget with hsame
      · rw [← Option.some.inj hget]
        exact ⟨hchecked, hoffset⟩
      · exact hvalid.sound entry (IndexMap.mem_entries_iff.mpr hget)

/-- The blocks that the operations make are within the limits. -/
theorem Built.valid (hbuilt : Built block) : block.Valid := by
  induction hbuilt with
  | new => exact ⟨Nat.zero_le _, nofun⟩
  | insert _ hoffset hinsert ih => exact ih.insert hoffset hinsert
  | remove stat _ ih =>
    exact ⟨(List.length_filter_le _ _).trans ih.length,
      fun entry hentry ↦ ih.sound entry (List.mem_of_mem_filter hentry)⟩
  | @read value interners after block hread =>
    by_cases haccepted : Accepted value
    · obtain ⟨built, grown, hbuilt, -, -, hvalid, -⟩ :=
        fromSerializable_of_accepted interners haccepted
      rw [hbuilt, Option.some.injEq, Prod.mk.injEq] at hread
      exact Except.ok.inj hread.1 ▸ hvalid
    · obtain ⟨error, hrejected⟩ := fromSerializable_of_not_accepted interners haccepted
      rw [hrejected, Option.some.injEq, Prod.mk.injEq] at hread
      exact nomatch hread.1

/-! ### Writing and reading back -/

theorem reads_serialize (hsound : Sound value) (hproper : (value.named interners).Proper) :
    ∃ parsed, Reads (value.named interners).serialize parsed (value.named interners) := by
  obtain ⟨hchecked, hoffset⟩ := hsound
  cases value with
  | int value => exact ⟨none, .int value⟩
  | fixed value => exact ⟨none, .fixed value⟩
  | bool value => exact ⟨none, .bool value⟩
  | enum entry =>
    unfold checkStandaloneValue at hchecked
    simp only [String.isEmpty_iff] at hchecked
    split_ifs at hchecked with hempty
    obtain ⟨henumId, hvariant⟩ := not_or.mp hempty
    exact ⟨none, .enum entry henumId hvariant⟩
  | dice expr => exact ⟨some expr, .dice _ expr (DiceExpr.parse_toText (hoffset expr rfl))⟩
  | tags tags =>
    unfold checkStandaloneValue at hchecked
    dsimp only at hchecked
    split_ifs at hchecked with hlong
    have hlength : ((tags.image (tagName interners)).sort (· ≤ ·)).length ≤ maxTags := by
      rw [Finset.length_sort]
      exact Finset.card_image_le.trans (not_lt.mp hlong)
    have hnames : "" ∉ (tags.image (tagName interners)).sort (· ≤ ·) := by
      rw [Finset.mem_sort]
      exact hproper
    have hreads := Reads.tags _ hlength hnames (Finset.sort_nodup _ _)
    rw [Finset.sort_toFinset] at hreads
    exact ⟨none, hreads⟩

theorem accepted_serializeNamed (hvalid : block.Valid) (hissued : block.Issued interners)
    (hproper : Proper (block.named interners)) :
    Accepted (serializeNamed (block.named interners)) := by
  have hentries : (serializeNamed (block.named interners)).entries =
      (block.named interners).entries.map serializeNamedEntry := rfl
  constructor
  · have hlength := congrArg List.length hissued.sort_entries
    rw [List.length_insertionSort, length_map, length_map] at hlength
    rw [hentries, ← hlength]
    exact hvalid.length
  · rw [hentries]
    intro entry hentry
    obtain ⟨⟨name, named⟩, hnamed, rfl⟩ := mem_map.mp hentry
    exact (hproper name named ((block.named interners).mem_entries_iff.mp hnamed)).1
  · rw [hentries, map_map]
    exact (block.named interners).nodup_keys
  · rw [hentries]
    intro entry hentry
    obtain ⟨⟨name, named⟩, hnamed, rfl⟩ := mem_map.mp hentry
    have hget := (block.named interners).mem_entries_iff.mp hnamed
    obtain ⟨found, hfound, hsame⟩ := mem_map.mp (hissued.get?_named.mp hget)
    have hvalue : found.2.named interners = named := (Prod.mk.inj hsame).2
    obtain ⟨parsed, hreads⟩ := reads_serialize (hvalid.sound found hfound)
      (hvalue.symm ▸ (hproper name named hget).2)
    rw [hvalue] at hreads
    exact ⟨parsed, named, hreads⟩

theorem named_of_serializeNamed {read : StatBlock} (hvalid : block.Valid)
    (hissued : block.Issued interners) (hproper : Proper (block.named interners))
    (hread : ∀ name named, (read.named after).get? name = some named ↔
      ∃ entry ∈ (serializeNamed (block.named interners)).entries, entry.stat = name ∧
        ∃ parsed, Reads entry.value parsed named) : read.named after = block.named interners := by
  have hentry {name : String} {named : NamedValue}
      (hget : (block.named interners).get? name = some named) :
      ∃ parsed, Reads named.serialize parsed named := by
    obtain ⟨found, hfound, hsame⟩ := mem_map.mp (hissued.get?_named.mp hget)
    have hvalue : found.2.named interners = named := (Prod.mk.inj hsame).2
    have hreads := reads_serialize (hvalid.sound found hfound)
      (hvalue.symm ▸ (hproper name named hget).2)
    rw [hvalue] at hreads
    exact hreads
  apply BTreeMap.ext_get?
  intro name
  apply Option.ext
  intro named
  rw [hread]
  constructor
  · intro ⟨entry, hmem, hname, parsed, hreads⟩
    obtain ⟨⟨said, value⟩, hsaid, rfl⟩ := mem_map.mp hmem
    have hget := (block.named interners).mem_entries_iff.mp hsaid
    obtain ⟨other, hvalue⟩ := hentry hget
    have hsame : said = name := hname
    rw [← (hvalue.unique hreads).2, ← hsame]
    exact hget
  · intro hget
    exact ⟨serializeNamedEntry (name, named),
      List.mem_map_of_mem ((block.named interners).mem_entries_iff.mpr hget), rfl, hentry hget⟩

/-- Blocks with the same bindings say the same. -/
theorem named_of_perm {reordered : StatBlock} (hperm : reordered.entries.Perm block.entries)
    (hissued : block.Issued interners) :
    reordered.Issued interners ∧ reordered.named interners = block.named interners := by
  have hreordered : reordered.Issued interners :=
    ⟨fun stat hstat ↦ hissued.stats stat ((hperm.map Prod.fst).mem_iff.mp hstat),
      fun entry hentry ↦ hissued.values entry (hperm.mem_iff.mp hentry)⟩
  refine ⟨hreordered, ?_⟩
  apply BTreeMap.ext_get?
  intro name
  apply Option.ext
  intro named
  rw [hreordered.get?_named, hissued.get?_named, (hperm.map _).mem_iff]

/-- Stat blocks persist. Assumes: a block made by its operations whose handles come from the
interners. Writing succeeds or names the handle of a stat with an empty name. What was written is
read through any interners as a block that says the same under them, and adds at most `maxStats`
names and `maxStats * maxTags` tags to them. Blocks that say the same are written the same, whatever
their order of insertion and their interner's numbering. Reading ends, and a rejection leaves the
interners as they were. -/
theorem stat_block_persists {block : StatBlock} {interners : Interners} (hbuilt : Built block)
    (hissued : block.Issued interners) :
    ((∃ serialized, toSerializable block interners = .ok serialized) ∨
      ∃ entry ∈ block.entries, ¬ ProperEntry (namedEntry interners entry) ∧
        toSerializable block interners =
          .error (.at .invalidName ("/stats/" ++ toString entry.1))) ∧
    (∀ serialized, toSerializable block interners = .ok serialized → ∀ others : Interners,
      ∃ read after, fromSerializable serialized others = some (.ok read, after) ∧
        others.Grows after maxStats (maxStats * maxTags) ∧ read.Issued after ∧
        read.named after = block.named interners) ∧
    (∀ (other : StatBlock) (others : Interners), other.Issued others →
      other.named others = block.named interners → ∀ serialized,
        toSerializable block interners = .ok serialized →
          toSerializable other others = .ok serialized) ∧
    (∀ reordered : StatBlock, reordered.entries.Perm block.entries → ∀ serialized,
      toSerializable block interners = .ok serialized →
        toSerializable reordered interners = .ok serialized) ∧
    ∀ (value : SerializableStatBlock) (others : Interners),
      (∃ result, fromSerializable value others = some result) ∧
        ∀ error after, fromSerializable value others = some (.error error, after) →
          after = others := by
  have hsame (other : StatBlock) (others : Interners) (hother : other.Issued others)
      (hnamed : other.named others = block.named interners) (serialized : SerializableStatBlock)
      (hwrite : toSerializable block interners = .ok serialized) :
      toSerializable other others = .ok serialized := by
    rw [toSerializable_eq_ok_iff hother, hnamed, ← toSerializable_eq_ok_iff hissued]
    exact hwrite
  refine ⟨?_, ?_, hsame, ?_, ?_⟩
  · cases hwrite : toSerializable block interners with
    | ok serialized => exact Or.inl ⟨serialized, rfl⟩
    | error failure =>
      obtain ⟨entry, hentry, himproper, hfault⟩ := fault_of_toSerializable hissued hwrite
      exact Or.inr ⟨entry, hentry, himproper, hfault ▸ rfl⟩
  · intro serialized hwrite others
    obtain ⟨hproper, hserialized⟩ := (toSerializable_eq_ok_iff hissued).mp hwrite
    rw [hserialized]
    obtain ⟨read, after, hread, hextends, hreadIssued, -, hsays⟩ :=
      fromSerializable_of_accepted others (accepted_serializeNamed hbuilt.valid hissued hproper)
    exact ⟨read, after, hread, hextends, hreadIssued,
      named_of_serializeNamed hbuilt.valid hissued hproper hsays⟩
  · intro reordered hperm
    obtain ⟨hreordered, hnamed⟩ := named_of_perm hperm hissued
    exact hsame reordered interners hreordered hnamed
  · intro value others
    by_cases haccepted : Accepted value
    · obtain ⟨read, grown, hread, -⟩ := fromSerializable_of_accepted others haccepted
      refine ⟨⟨_, hread⟩, fun error after hrejected ↦ ?_⟩
      rw [hread, Option.some.injEq, Prod.mk.injEq] at hrejected
      exact nomatch hrejected.1
    · obtain ⟨failure, hrejected⟩ := fromSerializable_of_not_accepted others haccepted
      refine ⟨⟨_, hrejected⟩, fun error after hsecond ↦ ?_⟩
      rw [hrejected, Option.some.injEq, Prod.mk.injEq] at hsecond
      exact hsecond.2.symm

def sampleDice : DiceExpr :=
  ⟨2, 6, .all, 3, by decide, by decide, by decide, by decide, trivial⟩

/-- A number, tags and dice. -/
def sampleBlock : StatBlock := ⟨[(1, .int 7), (0, .tags {0, 1}), (2, .dice sampleDice)], by decide⟩

def sampleInterners : Interners :=
  ⟨⟨["traits", "might", "attack"], by decide⟩, ⟨["undead", "swift"], by decide⟩⟩

/-- The sample is written, and read through interners that hold some of its names in another order.
-/
theorem one_stat_persists : ∃ serialized read after,
      toSerializable sampleBlock sampleInterners = .ok serialized ∧
      fromSerializable serialized ⟨⟨["attack", "might"], by decide⟩, ⟨["swift"], by decide⟩⟩ =
        some (.ok read, after) ∧
      read.named after = sampleBlock.named sampleInterners ∧
      (read.named after).get? "traits" = some (.tags {"undead", "swift"}) := by
  have hbuilt : Built sampleBlock := by
    have hmight : Built ⟨[(1, .int 7)], by decide⟩ :=
      @Built.insert IndexMap.empty _ 1 (.int 7) .new nofun rfl
    have htraits : Built ⟨[(1, .int 7), (0, .tags {0, 1})], by decide⟩ :=
      @Built.insert _ _ 0 (.tags {0, 1}) hmight nofun rfl
    refine @Built.insert _ _ 2 (.dice sampleDice) htraits ?_ rfl
    rintro expr ⟨⟩
    decide
  have hissued : sampleBlock.Issued sampleInterners := by
    constructor
    · intro stat hstat
      apply Option.isSome_iff_exists.mp
      revert stat
      decide
    · simp only [sampleBlock, List.forall_mem_cons, StatValue.Issued]
      refine ⟨trivial, fun tag htag ↦ ?_, trivial, nofun⟩
      apply Option.isSome_iff_exists.mp
      revert tag
      decide
  have htraits : (sampleBlock.named sampleInterners).get? "traits" =
      some (.tags {"undead", "swift"}) := by
    rw [hissued.get?_named]
    exact List.mem_cons_of_mem _ (List.mem_cons_self ..)
  have hwrite := (toSerializable_eq_ok_iff hissued).mpr ⟨hissued.proper_iff.mpr ?_, rfl⟩
  · obtain ⟨read, after, hread, -, -, hnamed⟩ := (stat_block_persists hbuilt hissued).2.1 _ hwrite
      ⟨⟨["attack", "might"], by decide⟩, ⟨["swift"], by decide⟩⟩
    exact ⟨_, read, after, hwrite, hread, hnamed, hnamed ▸ htraits⟩
  · simp only [sampleBlock, List.forall_mem_cons]
    refine ⟨⟨by decide, trivial⟩, ⟨by decide, ?_⟩, ⟨by decide, trivial⟩, nofun⟩
    show "" ∉ ({"undead", "swift"} : Finset String)
    decide

end StatBlock

end Crpg.Rules
