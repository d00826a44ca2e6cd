import Crpg.Core.Interning
import Crpg.Lib.Collect
import Crpg.Lib.Sorting
import Crpg.Rules.DiceNotation
import Crpg.Rules.Stats

/-!
# Persisted stat blocks

`StatBlock::to_serializable` and `from_serializable` of `crpg-rules/src/stats.rs`. A block holds
handles; its persisted form holds their strings, with the entries sorted by stat, the tags of a
value sorted and dice in their notation. Reading checks every name, value and limit first, and
interns the strings only then.

`NamedValue` is what a value says once its handles are resolved, and `StatBlock.named` what a block
says: a value for each stat name. The persisted form is a function of it
(`toSerializable_eq_ok_iff`).
-/

set_option autoImplicit false

namespace Crpg.Rules

open Crpg.Core Crpg.Lib

/-! ### The persisted form -/

/-- A value in symbolic form. -/
inductive SerializableStatValue
  | int (value : ℤ)
  | fixed (value : Fx16)
  | bool (value : Bool)
  | enum (value : EnumValue)
  | tags (names : List String)
  | dice (text : String)
deriving DecidableEq

structure SerializableStatEntry where
  stat : String
  value : SerializableStatValue
deriving DecidableEq

structure SerializableStatBlock where
  entries : List SerializableStatEntry
deriving DecidableEq

namespace StatBlock

/-! ### Writing -/

def resolveTag (interners : Interners) (location : String) (tag : TagId) :
    Except RulesError String :=
  match interners.tags.resolve tag with
  | none => .error (.at .unresolvedHandle location)
  | some name => if name.isEmpty then .error (.at .invalidName location) else .ok name

def serializeValue (interners : Interners) (location : String) :
    StatValue → Except RulesError SerializableStatValue
  | .int value => .ok (.int value)
  | .fixed value => .ok (.fixed value)
  | .bool value => .ok (.bool value)
  | .enum entry => .ok (.enum entry)
  | .dice expr => .ok (.dice expr.toText)
  | .tags tags =>
    match (tags.sort (· ≤ ·)).mapM (resolveTag interners location) with
    | .error error => .error error
    | .ok names => .ok (.tags (names.insertionSort (· ≤ ·)))

/-- One entry in symbolic form. Its faults name the handle of the stat. -/
def serializeEntry (interners : Interners) (entry : StatId × StatValue) :
    Except RulesError SerializableStatEntry :=
  let location := "/stats/" ++ toString entry.1
  match interners.stats.resolve entry.1 with
  | none => .error (.at .unresolvedHandle location)
  | some name =>
    if name.isEmpty then .error (.at .invalidName location)
    else match serializeValue interners location entry.2 with
      | .error error => .error error
      | .ok value => .ok ⟨name, value⟩

/-- `to_serializable`: the entries in insertion order, then sorted by stat name. -/
def toSerializable (block : StatBlock) (interners : Interners) :
    Except RulesError SerializableStatBlock :=
  match block.entries.mapM (serializeEntry interners) with
  | .error error => .error error
  | .ok entries => .ok ⟨entries.insertionSort fun first second ↦ first.stat ≤ second.stat⟩

/-! ### Reading -/

/-- The tags of a persisted value: nonempty and without repetition. -/
def checkTags (location : String) : ℕ → Finset String → List String → Except RulesError Unit
  | _, _, [] => .ok ()
  | child, seen, name :: rest =>
    if name.isEmpty then .error (.at .invalidName (location ++ "/" ++ toString child))
    else if name ∈ seen then .error (.at .duplicateTag (location ++ "/" ++ toString child))
    else checkTags location (child + 1) (insert name seen) rest

/-- `check_persisted_value`: the shape and limits of a persisted value, with the expression that its
dice denote. -/
def checkPersistedValue (location : String) :
    SerializableStatValue → Except RulesError (Option DiceExpr)
  | .int _ => .ok none
  | .fixed _ => .ok none
  | .bool _ => .ok none
  | .dice text =>
    match DiceExpr.parse text with
    | .ok expr => .ok (some expr)
    | .error error => .error { error with location := location ++ error.location }
  | .enum entry =>
    if entry.enumId.isEmpty ∨ entry.variant.isEmpty then
      .error (.at .invalidName (location ++ "/value"))
    else .ok none
  | .tags names =>
    if names.length > maxTags then .error (.at .limitExceeded (location ++ "/value"))
    else match checkTags (location ++ "/value") 0 ∅ names with
      | .error error => .error error
      | .ok () => .ok none

/-- The checks of all entries, in authored order, with the expressions of their dice. -/
def checkEntries : ℕ → Finset String → List SerializableStatEntry →
    Except RulesError (List (Option DiceExpr))
  | _, _, [] => .ok []
  | index, seen, entry :: rest =>
    let location := "/persisted/entries/" ++ toString index
    if entry.stat.isEmpty then .error (.at .invalidName location)
    else if entry.stat ∈ seen then .error (.at .duplicateStat location)
    else match checkPersistedValue location entry.value with
      | .error error => .error error
      | .ok parsed =>
        match checkEntries (index + 1) (insert entry.stat seen) rest with
        | .error error => .error error
        | .ok later => .ok (parsed :: later)

def internTags (interners : Interners) : List String → TagSet × Interners
  | [] => (∅, interners)
  | name :: rest =>
    let interned := interners.internTag name
    let later := internTags interned.2 rest
    (insert interned.1 later.1, later.2)

/-- The runtime value of a persisted one. `none` is the `expect` on a dice value that was not
parsed. -/
def convertValue (interners : Interners) (parsed : Option DiceExpr) :
    SerializableStatValue → Option (StatValue × Interners)
  | .int value => some (.int value, interners)
  | .fixed value => some (.fixed value, interners)
  | .bool value => some (.bool value, interners)
  | .enum entry => some (.enum entry, interners)
  | .dice _ => parsed.map fun expr ↦ (.dice expr, interners)
  | .tags names =>
    let interned := internTags interners (names.insertionSort (· ≤ ·))
    some (.tags interned.1, interned.2)

def insertEntry (state : StatBlock × Interners)
    (item : SerializableStatEntry × Option DiceExpr) : Option (StatBlock × Interners) :=
  let interned := state.2.internStat item.1.stat
  (convertValue interned.2 item.2 item.1.value).map fun converted ↦
    (state.1.insert interned.1 converted.1, converted.2)

/-- `from_serializable`: the outcome with the interners afterwards. The entries are interned in the
order of their stat names. -/
def fromSerializable (value : SerializableStatBlock) (interners : Interners) :
    Option (Except RulesError StatBlock × Interners) :=
  if value.entries.length > maxStats then
    some (.error (.at .limitExceeded "/persisted/entries"), interners)
  else match checkEntries 0 ∅ value.entries with
    | .error error => some (.error error, interners)
    | .ok parsed =>
      (((value.entries.zip parsed).insertionSort fun first second ↦
        first.1.stat ≤ second.1.stat).foldlM insertEntry (IndexMap.empty, interners)).map
        fun built ↦ (.ok built.1, built.2)

end StatBlock

/-! ### What a block says -/

/-- A value with its handles resolved. -/
inductive NamedValue
  | int (value : ℤ)
  | fixed (value : Fx16)
  | bool (value : Bool)
  | enum (value : EnumValue)
  | tags (names : Finset String)
  | dice (expr : DiceExpr)
deriving DecidableEq

def NamedValue.Proper : NamedValue → Prop
  | .tags names => "" ∉ names
  | _ => True

/-- The symbolic form of what a value says. -/
def NamedValue.serialize : NamedValue → SerializableStatValue
  | .int value => .int value
  | .fixed value => .fixed value
  | .bool value => .bool value
  | .enum entry => .enum entry
  | .tags names => .tags (names.sort (· ≤ ·))
  | .dice expr => .dice expr.toText

def tagName (interners : Interners) (tag : TagId) : String :=
  (interners.tags.resolve tag).getD ""

def statName (interners : Interners) (stat : StatId) : String :=
  (interners.stats.resolve stat).getD ""

namespace StatValue

def named (interners : Interners) : StatValue → NamedValue
  | .int value => .int value
  | .fixed value => .fixed value
  | .bool value => .bool value
  | .enum entry => .enum entry
  | .tags handles => .tags (handles.image (tagName interners))
  | .dice expr => .dice expr

def Issued (interners : Interners) : StatValue → Prop
  | .tags handles => ∀ tag ∈ handles, ∃ name, interners.tags.resolve tag = some name
  | _ => True

end StatValue

namespace StatBlock

structure Issued (interners : Interners) (block : StatBlock) : Prop where
  stats : ∀ stat ∈ block.keys, ∃ name, interners.stats.resolve stat = some name
  values : ∀ entry ∈ block.entries, entry.2.Issued interners

def named (interners : Interners) (block : StatBlock) : BTreeMap String NamedValue :=
  BTreeMap.ofList (block.entries.map fun entry ↦
    (statName interners entry.1, entry.2.named interners))

/-- All names that a block says are nonempty. -/
def Proper (named : BTreeMap String NamedValue) : Prop :=
  ∀ name value, named.get? name = some value → name ≠ "" ∧ value.Proper

/-- The symbolic form of what a block says. -/
def serializeNamed (named : BTreeMap String NamedValue) : SerializableStatBlock :=
  ⟨named.entries.map fun entry ↦ ⟨entry.1, entry.2.serialize⟩⟩

variable {interners : Interners} {block : StatBlock} {location : String}

/-! ### Writing resolves the handles -/

theorem resolveTag_eq {tag : TagId} (htag : ∃ name, interners.tags.resolve tag = some name) :
    resolveTag interners location tag =
      if tagName interners tag = "" then .error (.at .invalidName location)
      else .ok (tagName interners tag) := by
  obtain ⟨name, hname⟩ := htag
  unfold resolveTag tagName
  rw [hname, Option.getD_some]
  simp only [String.isEmpty_iff]

theorem sort_tagNames {tags : TagSet}
    (htags : ∀ tag ∈ tags, ∃ name, interners.tags.resolve tag = some name) :
    ((tags.sort (· ≤ ·)).map (tagName interners)).insertionSort (· ≤ ·) =
      (tags.image (tagName interners)).sort (· ≤ ·) := by
  have hinjective : ∀ first ∈ tags, ∀ second ∈ tags,
      tagName interners first = tagName interners second → first = second := by
    intro first hfirst second hsecond hsame
    obtain ⟨firstName, hfirstName⟩ := htags first hfirst
    obtain ⟨secondName, hsecondName⟩ := htags second hsecond
    unfold tagName at hsame
    rw [hfirstName, hsecondName, Option.getD_some, Option.getD_some] at hsame
    exact Interner.resolve_injective hfirstName (hsame ▸ hsecondName)
  have hnodup : ((tags.sort (· ≤ ·)).map (tagName interners)).Nodup :=
    List.Nodup.map_on (fun first hfirst second hsecond ↦
      hinjective first ((Finset.mem_sort _).mp hfirst) second ((Finset.mem_sort _).mp hsecond))
      (Finset.sort_nodup _ _)
  have hperm : ((tags.sort (· ≤ ·)).map (tagName interners)).Perm
      ((tags.image (tagName interners)).sort (· ≤ ·)) := by
    rw [List.perm_ext_iff_of_nodup hnodup (Finset.sort_nodup _ _)]
    intro name
    simp only [List.mem_map, Finset.mem_sort, Finset.mem_image]
  rw [insertionSort_eq_of_perm_keys hperm]
  exact (Finset.pairwise_sort _ _).insertionSort_eq

/-- A value is written as what it says, if no tag has the empty name. -/
theorem serializeValue_eq {value : StatValue} (hvalue : value.Issued interners) :
    ((value.named interners).Proper ∧
      serializeValue interners location value = .ok (value.named interners).serialize) ∨
    (¬ (value.named interners).Proper ∧
      serializeValue interners location value = .error (.at .invalidName location)) := by
  cases value with
  | int value => exact Or.inl ⟨trivial, rfl⟩
  | fixed value => exact Or.inl ⟨trivial, rfl⟩
  | bool value => exact Or.inl ⟨trivial, rfl⟩
  | enum entry => exact Or.inl ⟨trivial, rfl⟩
  | dice expr => exact Or.inl ⟨trivial, rfl⟩
  | tags tags =>
    have htags : ∀ tag ∈ tags, ∃ name, interners.tags.resolve tag = some name := hvalue
    have hproper : ((StatValue.tags tags).named interners).Proper ↔
        ∀ tag ∈ tags, tagName interners tag ≠ "" := by
      show "" ∉ tags.image (tagName interners) ↔ _
      simp only [Finset.mem_image, not_exists, not_and]
    rw [hproper]
    by_cases hnames : ∀ tag ∈ tags, tagName interners tag ≠ ""
    · refine Or.inl ⟨hnames, ?_⟩
      have hloop : (tags.sort (· ≤ ·)).mapM (resolveTag interners location) =
          .ok ((tags.sort (· ≤ ·)).map (tagName interners)) := by
        apply mapM_eq_ok_of_forall
        intro tag htag
        have hmem := (Finset.mem_sort _).mp htag
        rw [resolveTag_eq (htags tag hmem), if_neg (hnames tag hmem)]
      unfold serializeValue
      dsimp only
      rw [hloop]
      dsimp only
      rw [sort_tagNames htags]
      rfl
    · refine Or.inr ⟨hnames, ?_⟩
      unfold serializeValue
      dsimp only
      cases hloop : (tags.sort (· ≤ ·)).mapM (resolveTag interners location) with
      | ok names =>
        refine absurd (fun tag htag hempty ↦ ?_) hnames
        have hmem : tag ∈ tags.sort (· ≤ ·) := (Finset.mem_sort _).mpr htag
        obtain ⟨name, -, hname⟩ := exists_of_mapM_eq_ok hloop hmem
        rw [resolveTag_eq (htags tag htag), if_pos hempty] at hname
        exact nomatch hname
      | error failure =>
        obtain ⟨before, tag, after, hsplit, -, hfails⟩ := exists_of_mapM_eq_error hloop
        have hmem : tag ∈ tags := by
          rw [← Finset.mem_sort (· ≤ ·), hsplit]
          exact List.mem_append_right _ List.mem_cons_self
        rw [resolveTag_eq (htags tag hmem)] at hfails
        split_ifs at hfails
        rw [← Except.error.inj hfails]

def namedEntry (interners : Interners) (entry : StatId × StatValue) : String × NamedValue :=
  (statName interners entry.1, entry.2.named interners)

def ProperEntry (entry : String × NamedValue) : Prop := entry.1 ≠ "" ∧ entry.2.Proper

/-- An entry is written as what it says, if its names are nonempty; otherwise the fault names the
handle of the stat. -/
theorem serializeEntry_eq {entry : StatId × StatValue}
    (hstat : ∃ name, interners.stats.resolve entry.1 = some name)
    (hvalue : entry.2.Issued interners) :
    (ProperEntry (namedEntry interners entry) ∧ serializeEntry interners entry =
      .ok ⟨(namedEntry interners entry).1, (namedEntry interners entry).2.serialize⟩) ∨
    (¬ ProperEntry (namedEntry interners entry) ∧ serializeEntry interners entry =
      .error (.at .invalidName ("/stats/" ++ toString entry.1))) := by
  obtain ⟨name, hname⟩ := hstat
  have hstatName : statName interners entry.1 = name := by
    unfold statName
    rw [hname, Option.getD_some]
  unfold ProperEntry namedEntry serializeEntry
  dsimp only
  rw [hname, hstatName]
  dsimp only
  by_cases hempty : name = ""
  · refine Or.inr ⟨fun hproper ↦ hproper.1 hempty, if_pos ?_⟩
    rw [String.isEmpty_iff]
    exact hempty
  · rw [if_neg (by rw [String.isEmpty_iff]; exact hempty)]
    rcases serializeValue_eq hvalue with ⟨hproper, hwrite⟩ | ⟨himproper, hwrite⟩
    · rw [hwrite]
      exact Or.inl ⟨⟨hempty, hproper⟩, rfl⟩
    · rw [hwrite]
      exact Or.inr ⟨fun hproper ↦ himproper hproper.2, rfl⟩

theorem Issued.statName_injective (hissued : block.Issued interners) {first second : StatId}
    (hfirst : first ∈ block.keys) (hsecond : second ∈ block.keys)
    (hsame : statName interners first = statName interners second) : first = second := by
  obtain ⟨firstName, hfirstName⟩ := hissued.stats first hfirst
  obtain ⟨secondName, hsecondName⟩ := hissued.stats second hsecond
  unfold statName at hsame
  rw [hfirstName, hsecondName, Option.getD_some, Option.getD_some] at hsame
  exact Interner.resolve_injective hfirstName (hsame ▸ hsecondName)

theorem Issued.nodup_names (hissued : block.Issued interners) :
    ((block.entries.map (namedEntry interners)).map Prod.fst).Nodup := by
  have hnames : (block.entries.map (namedEntry interners)).map Prod.fst =
      block.keys.map (statName interners) := by
    unfold IndexMap.keys
    rw [List.map_map, List.map_map]
    rfl
  rw [hnames]
  exact block.nodup_keys.map_on fun first hfirst second hsecond ↦
    hissued.statName_injective hfirst hsecond

theorem Issued.get?_named (hissued : block.Issued interners) {name : String} {value : NamedValue} :
    (block.named interners).get? name = some value ↔
      (name, value) ∈ block.entries.map (namedEntry interners) :=
  ⟨BTreeMap.mem_of_get?_ofList, BTreeMap.get?_foldl_insert_of_mem _ hissued.nodup_names⟩

/-- The symbolic form of one entry of what a block says. -/
def serializeNamedEntry (entry : String × NamedValue) : SerializableStatEntry :=
  ⟨entry.1, entry.2.serialize⟩

section

variable (hissued : block.Issued interners)
include hissued

theorem Issued.sort_entries :
    ((block.entries.map (namedEntry interners)).map serializeNamedEntry).insertionSort
      (fun first second ↦ first.stat ≤ second.stat) =
        (block.named interners).entries.map serializeNamedEntry := by
  have hascending : ((block.named interners).entries.map serializeNamedEntry).Pairwise
      fun first second ↦ first.stat < second.stat :=
    List.pairwise_map.mpr (block.named interners).ascending
  have hperm : (block.entries.map (namedEntry interners)).Perm (block.named interners).entries := by
    have hnodup : (block.named interners).entries.Nodup :=
      (block.named interners).ascending.imp fun hlt hsame ↦ absurd (hsame ▸ hlt) (lt_irrefl _)
    rw [List.perm_ext_iff_of_nodup hissued.nodup_names.of_map hnodup]
    intro entry
    rw [BTreeMap.mem_entries_iff, hissued.get?_named]
  have hnodup : (((block.entries.map (namedEntry interners)).map serializeNamedEntry).map
      SerializableStatEntry.stat).Nodup := by
    rw [List.map_map]
    exact hissued.nodup_names
  have hsort := @insertionSort_eq_of_perm _ _ _ SerializableStatEntry.stat _ _
    (hperm.map serializeNamedEntry) hnodup
  rw [hsort]
  exact (hascending.imp le_of_lt).insertionSort_eq

theorem Issued.entry {entry : StatId × StatValue} (hentry : entry ∈ block.entries) :
    (∃ name, interners.stats.resolve entry.1 = some name) ∧ entry.2.Issued interners :=
  ⟨hissued.stats entry.1 (List.mem_map_of_mem hentry), hissued.values entry hentry⟩

theorem Issued.proper_iff : Proper (block.named interners) ↔
      ∀ entry ∈ block.entries, ProperEntry (namedEntry interners entry) := by
  unfold Proper
  simp only [hissued.get?_named]
  constructor
  · exact fun hproper entry hentry ↦ hproper _ _ (List.mem_map_of_mem hentry)
  · intro hproper name value hnamed
    obtain ⟨entry, hentry, hsame⟩ := List.mem_map.mp hnamed
    have hfound := hproper entry hentry
    rw [hsame] at hfound
    exact hfound

/-- What is written is what the block says, sorted by name. Assumes: handles of the interner. -/
theorem toSerializable_eq_ok_iff {serialized : SerializableStatBlock} :
    toSerializable block interners = .ok serialized ↔
      Proper (block.named interners) ∧ serialized = serializeNamed (block.named interners) := by
  rw [hissued.proper_iff]
  have hwritten (hproper : ∀ entry ∈ block.entries, ProperEntry (namedEntry interners entry)) :
      toSerializable block interners = .ok (serializeNamed (block.named interners)) := by
    have hloop : block.entries.mapM (serializeEntry interners) =
        .ok ((block.entries.map (namedEntry interners)).map serializeNamedEntry) := by
      rw [List.map_map]
      apply mapM_eq_ok_of_forall
      intro entry hentry
      obtain ⟨hstat, hvalue⟩ := hissued.entry hentry
      rcases serializeEntry_eq hstat hvalue with ⟨-, hwrite⟩ | ⟨himproper, -⟩
      · exact hwrite
      · exact absurd (hproper entry hentry) himproper
    unfold toSerializable serializeNamed
    rw [hloop]
    dsimp only
    rw [hissued.sort_entries]
    rfl
  constructor
  · intro hwrite
    have hproper : ∀ entry ∈ block.entries, ProperEntry (namedEntry interners entry) := by
      intro entry hentry
      obtain ⟨hstat, hvalue⟩ := hissued.entry hentry
      rcases serializeEntry_eq hstat hvalue with ⟨hproper, -⟩ | ⟨-, hfails⟩
      · exact hproper
      · unfold toSerializable at hwrite
        cases hloop : block.entries.mapM (serializeEntry interners) with
        | error failure =>
          rw [hloop] at hwrite
          exact nomatch hwrite
        | ok entries =>
          obtain ⟨value, -, hvalue⟩ := exists_of_mapM_eq_ok hloop hentry
          rw [hfails] at hvalue
          exact nomatch hvalue
    rw [hwritten hproper] at hwrite
    exact ⟨hproper, (Except.ok.inj hwrite).symm⟩
  · intro ⟨hproper, hserialized⟩
    rw [hserialized]
    exact hwritten hproper

/-- A fault of writing names the handle of a stat whose names are not all nonempty. Assumes: handles
of the interner. -/
theorem fault_of_toSerializable {error : RulesError}
    (hwrite : toSerializable block interners = .error error) :
    ∃ entry ∈ block.entries, ¬ ProperEntry (namedEntry interners entry) ∧
      error = .at .invalidName ("/stats/" ++ toString entry.1) := by
  unfold toSerializable at hwrite
  cases hloop : block.entries.mapM (serializeEntry interners) with
  | ok entries =>
    rw [hloop] at hwrite
    exact nomatch hwrite
  | error failure =>
    rw [hloop] at hwrite
    obtain ⟨before, entry, after, hsplit, -, hfails⟩ := exists_of_mapM_eq_error hloop
    have hentry : entry ∈ block.entries := by
      rw [hsplit]
      exact List.mem_append_right _ List.mem_cons_self
    obtain ⟨hstat, hvalue⟩ := hissued.entry hentry
    rcases serializeEntry_eq hstat hvalue with ⟨-, hwritten⟩ | ⟨himproper, hfault⟩
    · rw [hwritten] at hfails
      exact nomatch hfails
    · rw [hfault] at hfails
      rw [← Except.error.inj hwrite, ← Except.error.inj hfails]
      exact ⟨entry, hentry, himproper, rfl⟩

end

end StatBlock

end Crpg.Rules
