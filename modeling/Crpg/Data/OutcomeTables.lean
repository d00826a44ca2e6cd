import Crpg.Data.Combat
import Crpg.Data.Value
import Mathlib.Data.Int.ConditionallyCompleteOrder
import Mathlib.Order.ConditionallyCompleteLattice.Basic

/-!
# Outcome tables and their documents

The bands of a table partition the margins, so `evaluate` selects the one band that contains the
margin, and a shift moves inside the table. The validation of an outcome table document
(`validate_combat_local` in `crpg-data/src/combat.rs`) makes the checks of `OutcomeTable::new` with
limits of its own, after the texts of the document.
-/

set_option autoImplicit false

namespace Crpg.Rules

open Crpg.Core

/-! ### Ascending bounds -/

theorem ascending_iff {previous : ℤ} {bands : List OutcomeBand} : ascending previous bands = true ↔
      (previous :: bands.map OutcomeBand.minMargin).IsChain (· < ·) := by
  induction bands generalizing previous with
  | nil => simp [ascending]
  | cons band rest ih =>
    rw [ascending, Bool.and_eq_true, decide_eq_true_eq, ih, List.map_cons, List.isChain_cons_cons]

namespace OutcomeTable

variable (table : OutcomeTable)

structure Contains (index : ℕ) (margin : ℤ) : Prop where
  above : ∃ band, table.bands[index]? = some band ∧ band.minMargin ≤ margin
  below : ∀ next, table.bands[index + 1]? = some next → margin < next.minMargin

theorem bands_eq : ∃ first rest, table.bands = first :: rest ∧ first.minMargin = i64Min := by
  have hstart := table.bands_start
  cases hbands : table.bands with
  | nil =>
    rw [hbands] at hstart
    exact absurd hstart Bool.false_ne_true
  | cons first rest =>
    rw [hbands, bandsStart, Bool.and_eq_true, decide_eq_true_eq] at hstart
    exact ⟨first, rest, rfl, hstart.1⟩

theorem pairwise_bounds : (table.bands.map OutcomeBand.minMargin).Pairwise (· < ·) := by
  have hstart := table.bands_start
  cases hbands : table.bands with
  | nil => exact List.Pairwise.nil
  | cons first rest =>
    rw [hbands, bandsStart, Bool.and_eq_true, ascending_iff] at hstart
    exact List.isChain_iff_pairwise.mp hstart.2

variable {table}

theorem bound_le {first second : ℕ} {low high : OutcomeBand}
    (hlow : table.bands[first]? = some low) (hhigh : table.bands[second]? = some high)
    (hle : first ≤ second) : low.minMargin ≤ high.minMargin := by
  rcases hle.eq_or_lt with rfl | hlt
  · rw [hlow, Option.some.injEq] at hhigh
    rw [hhigh]
  · obtain ⟨hfirst, rfl⟩ := List.getElem?_eq_some_iff.mp hlow
    obtain ⟨hsecond, rfl⟩ := List.getElem?_eq_some_iff.mp hhigh
    have hbounds := List.pairwise_iff_getElem.mp table.pairwise_bounds first second
      (by rwa [List.length_map]) (by rwa [List.length_map]) hlt
    rw [List.getElem_map, List.getElem_map] at hbounds
    exact hbounds.le

/-- A higher margin does not lie in a lower band. -/
theorem Contains.le {first second : ℕ} {low high : ℤ} (hfirst : table.Contains first low)
    (hsecond : table.Contains second high) (hle : low ≤ high) : first ≤ second := by
  by_contra hnot
  obtain ⟨band, hband, habove⟩ := hfirst.above
  have hinside : second + 1 < table.bands.length := by
    have hlength := (List.getElem?_eq_some_iff.mp hband).1
    omega
  have hnext := List.getElem?_eq_getElem hinside
  have hbelow := hsecond.below _ hnext
  have hbound := bound_le hnext hband (by omega)
  omega

/-! ### Selecting a band -/

variable {margin : ℤ}

theorem bandIndexFrom_spec (margin : ℤ) (rest : List OutcomeBand) (start : ℕ) :
    ∃ steps, bandIndexFrom margin (start + 1) start rest = start + steps ∧
      (∀ index < steps, ∃ band, rest[index]? = some band ∧ band.minMargin ≤ margin) ∧
      ∀ next, rest[steps]? = some next → margin < next.minMargin := by
  induction rest generalizing start with
  | nil => exact ⟨0, rfl, fun index hindex ↦ absurd hindex (Nat.not_lt_zero index), by simp⟩
  | cons band rest ih =>
    unfold bandIndexFrom
    split_ifs with hle
    · obtain ⟨steps, heq, hbefore, hafter⟩ := ih (start + 1)
      refine ⟨steps + 1, by omega, fun index hindex ↦ ?_, by simpa using hafter⟩
      cases index with
      | zero => exact ⟨band, rfl, hle⟩
      | succ index => simpa using hbefore index (by omega)
    · refine ⟨0, rfl, fun index hindex ↦ absurd hindex (Nat.not_lt_zero index), ?_⟩
      intro next hnext
      rw [List.getElem?_cons_zero, Option.some.injEq] at hnext
      exact hnext ▸ not_le.mp hle

theorem contains_bandIndexFrom (hmargin : i64Min ≤ margin) :
    table.Contains (bandIndexFrom margin 0 0 table.bands) margin := by
  obtain ⟨first, rest, hbands, hfirst⟩ := table.bands_eq
  obtain ⟨steps, heq, hbefore, hafter⟩ := bandIndexFrom_spec margin rest 0
  rw [Nat.zero_add] at heq
  have hindex : bandIndexFrom margin 0 0 table.bands = steps := by
    rw [hbands, bandIndexFrom, if_pos (hfirst.trans_le hmargin)]
    exact heq.trans (Nat.zero_add steps)
  rw [hindex]
  constructor
  · cases steps with
    | zero => exact ⟨first, by rw [hbands]; rfl, hfirst.trans_le hmargin⟩
    | succ steps =>
      rw [hbands]
      exact hbefore steps (Nat.lt_succ_self steps)
  · rw [hbands]
    exact hafter

/-! ### Natural rules -/

def shifted (table : OutcomeTable) (bandIndex : ℕ) (steps : ℤ) : ℕ :=
  (max 0 (min ((table.bands.length : ℤ) - 1) ((bandIndex : ℤ) + steps))).toNat

theorem bands_pos : 0 < table.bands.length := by
  obtain ⟨first, rest, hbands, -⟩ := table.bands_eq
  rw [hbands]
  exact Nat.succ_pos _

theorem coe_shifted (bandIndex : ℕ) (steps : ℤ) : (table.shifted bandIndex steps : ℤ) =
      max 0 (min ((table.bands.length : ℤ) - 1) ((bandIndex : ℤ) + steps)) :=
  Int.toNat_of_nonneg (le_max_left _ _)

theorem shifted_lt (bandIndex : ℕ) (steps : ℤ) :
    table.shifted bandIndex steps < table.bands.length := by
  have hshifted := table.coe_shifted bandIndex steps
  have hpos := table.bands_pos
  omega

variable {index : ℕ}

theorem outcomeAt_eq (hindex : index < table.bands.length) :
    ∃ band, table.bands[index]? = some band ∧ table.outcomeAt index = band.outcome := by
  refine ⟨table.bands[index], List.getElem?_eq_getElem hindex, ?_⟩
  rw [outcomeAt, List.getElem?_eq_getElem hindex]
  rfl

theorem findIdx?_face_iff {face : ℕ} :
    (table.naturalRules.findIdx? fun rule ↦ decide (rule.face = face)) = some index ↔
      ∃ rule, table.naturalRules[index]? = some rule ∧ rule.face = face := by
  rw [List.findIdx?_eq_some_iff_getElem]
  constructor
  · intro ⟨hindex, hface, _⟩
    exact ⟨_, List.getElem?_eq_getElem hindex, of_decide_eq_true hface⟩
  · intro ⟨rule, hrule, hface⟩
    obtain ⟨hindex, rfl⟩ := List.getElem?_eq_some_iff.mp hrule
    refine ⟨hindex, decide_eq_true hface, fun other hother hsame ↦ ?_⟩
    have hfaces := List.pairwise_iff_getElem.mp table.faces_nodup other index
      (by rw [List.length_map]; omega) (by rwa [List.length_map]) hother
    rw [List.getElem_map, List.getElem_map] at hfaces
    exact hfaces ((of_decide_eq_true hsame).trans hface.symm)

/-! ### Decisions -/

structure Decides (table : OutcomeTable) (margin : ℤ) (natural : Option ℕ)
    (decision : OutcomeDecision) : Prop where
  band : table.Contains decision.bandIndex margin
  unique : ∀ index, table.Contains index margin → index = decision.bandIndex
  rule : ∀ index, decision.naturalRuleIndex = some index ↔
    ∃ rule, table.naturalRules[index]? = some rule ∧ natural = some rule.face
  single : ∀ (first second : ℕ) (low high : NaturalRule), table.naturalRules[first]? = some low →
    table.naturalRules[second]? = some high → natural = some low.face → natural = some high.face →
    first = second
  plain : decision.naturalRuleIndex = none → ∃ band,
    table.bands[decision.bandIndex]? = some band ∧ decision.outcome = band.outcome
  override : ∀ index face outcome, decision.naturalRuleIndex = some index →
    table.naturalRules[index]? = some ⟨face, .override outcome⟩ → decision.outcome = outcome
  shift : ∀ index face steps, decision.naturalRuleIndex = some index →
    table.naturalRules[index]? = some ⟨face, .shift steps⟩ → ∃ band,
      table.bands[table.shifted decision.bandIndex steps]? = some band ∧
        decision.outcome = band.outcome

theorem naturalRuleIndex_iff {natural : Option ℕ} :
    (table.evaluate margin natural).naturalRuleIndex = some index ↔
      ∃ rule, table.naturalRules[index]? = some rule ∧ natural = some rule.face := by
  show (natural.bind fun face ↦ table.naturalRules.findIdx? fun rule ↦ rule.face = face) =
    some index ↔ _
  cases natural with
  | none => simp
  | some face =>
    rw [Option.bind_some, findIdx?_face_iff]
    simp only [Option.some.injEq, eq_comm]

theorem decides_evaluate (natural : Option ℕ) (hmargin : i64Min ≤ margin) :
    table.Decides margin natural (table.evaluate margin natural) := by
  have hband : table.Contains (table.evaluate margin natural).bandIndex margin :=
    contains_bandIndexFrom hmargin
  have hinside : (table.evaluate margin natural).bandIndex < table.bands.length := by
    obtain ⟨band, hget, -⟩ := hband.above
    exact (List.getElem?_eq_some_iff.mp hget).1
  constructor
  case band => exact hband
  case unique =>
    intro index hindex
    exact le_antisymm (hindex.le hband le_rfl) (hband.le hindex le_rfl)
  case rule => exact fun index ↦ naturalRuleIndex_iff
  case single =>
    intro first second low high hlow hhigh hfirst hsecond
    have hleft : (table.evaluate margin natural).naturalRuleIndex = some first :=
      naturalRuleIndex_iff.mpr ⟨low, hlow, hfirst⟩
    have hright : (table.evaluate margin natural).naturalRuleIndex = some second :=
      naturalRuleIndex_iff.mpr ⟨high, hhigh, hsecond⟩
    rw [hleft, Option.some.injEq] at hright
    exact hright
  case plain =>
    intro hnone
    show ∃ band : OutcomeBand, _ ∧
      table.ruled _ (table.evaluate margin natural).naturalRuleIndex = band.outcome
    rw [hnone]
    exact outcomeAt_eq hinside
  case override =>
    intro index face outcome hindex hrule
    show table.ruled _ (table.evaluate margin natural).naturalRuleIndex = outcome
    rw [hindex, ruled, Option.bind_some, hrule]
  case shift =>
    intro index face steps hindex hrule
    show ∃ band : OutcomeBand, _ ∧
      table.ruled _ (table.evaluate margin natural).naturalRuleIndex = band.outcome
    rw [hindex, ruled, Option.bind_some, hrule]
    exact outcomeAt_eq (table.shifted_lt _ steps)

/-- A higher margin selects the same band or a higher one. -/
theorem bandIndex_mono {low high : ℤ} (first second : Option ℕ) (hlow : i64Min ≤ low)
    (hle : low ≤ high) :
    (table.evaluate low first).bandIndex ≤ (table.evaluate high second).bandIndex :=
  (decides_evaluate first hlow).band.le (decides_evaluate second (hlow.trans hle)).band hle

/-- What shifts do at a band: they stay in the table, move by their steps unless that leaves it, and
the sum the source clamps fits in 64 bits for every 16-bit shift. -/
structure Shifts (table : OutcomeTable) (index : ℕ) : Prop where
  inside : ∀ steps, table.shifted index steps < table.bands.length
  moves : ∀ steps : ℤ, 0 ≤ index + steps → index + steps < table.bands.length →
    (table.shifted index steps : ℤ) = index + steps
  bottom : ∀ steps : ℤ, index + steps < 0 → table.shifted index steps = 0
  top : ∀ steps : ℤ, (table.bands.length : ℤ) ≤ index + steps →
    table.shifted index steps = table.bands.length - 1
  mono : Monotone (table.shifted index)
  fits : ∀ steps : ℤ, -2 ^ 15 ≤ steps → steps < 2 ^ 15 →
    i64Min ≤ index + steps ∧ index + steps < 2 ^ 63

theorem shifts (hindex : index < table.bands.length) : table.Shifts index := by
  have hpos := table.bands_pos
  have hlength : table.bands.length ≤ 256 := table.bands_le
  have hshifted := table.coe_shifted index
  constructor
  case inside => exact table.shifted_lt index
  case moves =>
    intro steps hlow hhigh
    rw [hshifted]
    omega
  case bottom =>
    intro steps hlow
    have := hshifted steps
    omega
  case top =>
    intro steps hhigh
    have := hshifted steps
    omega
  case mono =>
    intro first second hle
    have hfirst := hshifted first
    have hsecond := hshifted second
    omega
  case fits =>
    intro steps hlow hhigh
    unfold i64Min
    omega

/-! ### What the constructor accepts -/

variable {bands : List OutcomeBand}

theorem bandFault_eq_none_iff {previous : ℤ} :
    bandFault index previous bands = none ↔ ascending previous bands = true := by
  induction bands generalizing index previous with
  | nil => simp [bandFault, ascending]
  | cons band rest ih =>
    rw [bandFault, ascending, Bool.and_eq_true, decide_eq_true_eq]
    split_ifs with hle
    · exact ⟨fun h ↦ (by cases h), fun h ↦ absurd h.1 (not_lt.mpr hle)⟩
    · exact ih.trans (and_iff_right (not_le.mp hle)).symm

/-- The rules whose faces lie in range and repeat neither each other nor an earlier face. -/
def FacesFit (seen : List ℕ) (rules : List NaturalRule) : Prop :=
  (∀ rule ∈ rules, (0 < rule.face ∧ rule.face ≤ maxDieSides) ∧ rule.face ∉ seen) ∧
    (rules.map NaturalRule.face).Nodup

theorem facesFit_cons {seen : List ℕ} {rule : NaturalRule} {rest : List NaturalRule} :
    FacesFit seen (rule :: rest) ↔ ((0 < rule.face ∧ rule.face ≤ maxDieSides) ∧ rule.face ∉ seen) ∧
        FacesFit (rule.face :: seen) rest := by
  rw [FacesFit, FacesFit, List.forall_mem_cons]
  simp only [List.map_cons, List.nodup_cons, List.mem_cons, not_or, List.mem_map, not_exists,
    not_and]
  constructor
  · intro ⟨⟨hrule, hrest⟩, hfresh, hnodup⟩
    exact ⟨hrule, fun other hother ↦ ⟨(hrest other hother).1, hfresh other hother,
      (hrest other hother).2⟩, hnodup⟩
  · intro ⟨hrule, hrest, hnodup⟩
    exact ⟨⟨hrule, fun other hother ↦ ⟨(hrest other hother).1, (hrest other hother).2.2⟩⟩,
      fun other hother ↦ (hrest other hother).2.1, hnodup⟩

variable {rules : List NaturalRule}

theorem faceFault_eq_none_iff {seen : List ℕ} :
    faceFault index seen rules = none ↔ FacesFit seen rules := by
  induction rules generalizing index seen with
  | nil => simp [faceFault, FacesFit]
  | cons rule rest ih =>
    rw [facesFit_cons, faceFault]
    split_ifs with hbad
    · refine ⟨fun h ↦ (nomatch h), fun ⟨⟨⟨hpos, hle⟩, hfresh⟩, _⟩ ↦ ?_⟩
      rcases hbad with hzero | hlarge | hseen
      · omega
      · omega
      · exact (hfresh hseen).elim
    · rw [not_or, not_or] at hbad
      rw [ih, and_iff_right ⟨⟨Nat.pos_of_ne_zero hbad.1, not_lt.mp hbad.2.1⟩, hbad.2.2⟩]

/-- A table the constructor returns is made of what it was given. -/
theorem parts_of_new {id : Ulid} (hnew : OutcomeTable.new id bands rules = .ok table) :
    table.id = id ∧ table.bands = bands ∧ table.naturalRules = rules := by
  unfold OutcomeTable.new at hnew
  split at hnew
  · cases hnew
  · split_ifs at hnew with _ _ hcount
    · split at hnew <;> cases hnew
    · split at hnew
      · cases hnew
      · split at hnew
        · cases hnew
        · rw [← Except.ok.inj hnew]
          exact ⟨rfl, rfl, rfl⟩

theorem new_eq_ok_iff {id : Ulid} : (∃ table, OutcomeTable.new id bands rules = .ok table) ↔
      bandsStart bands = true ∧ bands.length ≤ maxOutcomeBands ∧
        rules.length ≤ maxNaturalRules ∧ FacesFit [] rules := by
  constructor
  · intro ⟨table, hnew⟩
    obtain ⟨-, rfl, rfl⟩ := parts_of_new hnew
    exact ⟨table.bands_start, table.bands_le, table.rules_le,
      fun rule hrule ↦ ⟨table.faces_in rule hrule, List.not_mem_nil⟩, table.faces_nodup⟩
  · intro ⟨hstart, hlength, hcount, hfaces⟩
    cases bands with
    | nil => exact absurd hstart Bool.false_ne_true
    | cons first rest =>
      rw [bandsStart, Bool.and_eq_true, decide_eq_true_eq] at hstart
      unfold new
      dsimp only
      rw [dif_neg (not_lt.mpr hlength), dif_neg (not_not.mpr hstart.1)]
      split
      · next index hband =>
        rw [bandFault_eq_none_iff.mpr hstart.2] at hband
        cases hband
      · rw [dif_neg (not_lt.mpr hcount)]
        split
        · next index hface =>
          rw [faceFault_eq_none_iff.mpr hfaces] at hface
          cases hface
        · exact ⟨_, rfl⟩

end OutcomeTable

end Crpg.Rules

namespace Crpg.Data

open Crpg.Core Crpg.Rules

/-! ### Documents -/

/-- `MAX_OUTCOME_BANDS` of the data layer. -/
def maxOutcomeBands : ℕ := 256

/-- `MAX_NATURAL_RULES` of the data layer. -/
def maxNaturalRules : ℕ := 256

/-- `MAX_DIE_SIDES` of the data layer. -/
def maxDieSides : ℕ := 1000000

structure OutcomeTableDocument extends OutcomeTableDoc where
  slug : String
  name : String
deriving DecidableEq

namespace OutcomeTableDocument

/-- The loop over the bands: the bound of the band before, if there is one, and the bands left. -/
def checkBands : Option ℤ → List OutcomeBand → Except DataError Unit
  | _, [] => .ok ()
  | none, band :: rest =>
    if band.minMargin ≠ i64Min then
      .error (.malformed "first outcome band must start at i64::MIN")
    else checkBands (some band.minMargin) rest
  | some previous, band :: rest =>
    if band.minMargin ≤ previous then .error (.malformed "outcome bands must strictly increase")
    else checkBands (some band.minMargin) rest

def checkFaces (seen : List ℕ) : List NaturalRule → Except DataError Unit
  | [] => .ok ()
  | rule :: rest =>
    if rule.face = 0 ∨ rule.face > maxDieSides then
      .error (.malformed "natural rule faces must be 1..=1000000")
    else if rule.face ∈ seen then .error (.malformed "duplicate natural rule face")
    else checkFaces (rule.face :: seen) rest

/-- `validate_combat_local` on an outcome table document. -/
def validateCombatLocal (document : OutcomeTableDocument) : Except DataError Unit :=
  if document.slug.isEmpty ∨ document.name.isEmpty then
    .error (.malformed "outcome table slug and name must be nonempty")
  else if document.bands.isEmpty ∨ document.bands.length > maxOutcomeBands then
    .error (.malformed "outcome table bands must be 1..=256")
  else
    match checkBands none document.bands with
    | .error error => .error error
    | .ok () =>
      if document.naturalRules.length > maxNaturalRules then
        .error (.malformed "outcome table natural rules must be <=256")
      else checkFaces [] document.naturalRules

theorem checkBands_some_iff {previous : ℤ} {bands : List OutcomeBand} :
    checkBands (some previous) bands = .ok () ↔ ascending previous bands = true := by
  induction bands generalizing previous with
  | nil => simp [checkBands, ascending]
  | cons band rest ih =>
    rw [checkBands, ascending, Bool.and_eq_true, decide_eq_true_eq]
    split_ifs with hle
    · exact ⟨fun h ↦ (by cases h), fun h ↦ absurd h.1 (not_lt.mpr hle)⟩
    · exact ih.trans (and_iff_right (not_le.mp hle)).symm

theorem checkBands_none_iff {bands : List OutcomeBand} (hbands : bands ≠ []) :
    checkBands none bands = .ok () ↔ bandsStart bands = true := by
  cases bands with
  | nil => exact absurd rfl hbands
  | cons first rest =>
    rw [checkBands, bandsStart, Bool.and_eq_true, decide_eq_true_eq]
    split_ifs with hfirst
    · exact ⟨fun h ↦ (nomatch h), fun h ↦ absurd h.1 hfirst⟩
    · exact checkBands_some_iff.trans (and_iff_right (not_not.mp hfirst)).symm

theorem checkFaces_iff {seen : List ℕ} {rules : List NaturalRule} :
    checkFaces seen rules = .ok () ↔ OutcomeTable.FacesFit seen rules := by
  induction rules generalizing seen with
  | nil => simp [checkFaces, OutcomeTable.FacesFit]
  | cons rule rest ih =>
    rw [OutcomeTable.facesFit_cons, checkFaces]
    split_ifs with hbad hseen
    · refine ⟨fun h ↦ (nomatch h), fun ⟨⟨⟨hpos, hle⟩, _⟩, _⟩ ↦ ?_⟩
      rcases hbad with hzero | hlarge
      · omega
      · exact absurd hle (not_le.mpr hlarge)
    · exact ⟨fun h ↦ (nomatch h), fun h ↦ absurd hseen h.1.2⟩
    · rw [not_or] at hbad
      rw [ih, and_iff_right ⟨⟨Nat.pos_of_ne_zero hbad.1, not_lt.mp hbad.2⟩, hseen⟩]

theorem validateCombatLocal_iff (document : OutcomeTableDocument) :
    document.validateCombatLocal = .ok () ↔ document.slug ≠ "" ∧ document.name ≠ "" ∧
      ∃ table, OutcomeTable.new document.id document.bands document.naturalRules = .ok table := by
  rw [OutcomeTable.new_eq_ok_iff, validateCombatLocal]
  simp only [String.isEmpty_iff, List.isEmpty_iff]
  by_cases htexts : document.slug = "" ∨ document.name = ""
  · rw [if_pos htexts]
    exact ⟨fun h ↦ (nomatch h), fun h ↦ htexts.elim (absurd · h.1) (absurd · h.2.1)⟩
  rw [if_neg htexts]
  rw [not_or] at htexts
  rw [and_iff_right htexts.1, and_iff_right htexts.2]
  by_cases hbands : document.bands = [] ∨ document.bands.length > maxOutcomeBands
  · rw [if_pos hbands]
    refine ⟨fun h ↦ (nomatch h), fun ⟨hstart, hlength, _⟩ ↦ ?_⟩
    rcases hbands with hnil | hlarge
    · rw [hnil] at hstart
      exact absurd hstart Bool.false_ne_true
    · exact absurd hlength (not_le.mpr hlarge)
  rw [if_neg hbands]
  rw [not_or] at hbands
  have hstarted := checkBands_none_iff hbands.1
  cases hcheck : checkBands none document.bands with
  | error error =>
    rw [hcheck] at hstarted
    exact ⟨fun h ↦ (nomatch h), fun h ↦ nomatch hstarted.mpr h.1⟩
  | ok _ =>
    have hlength : document.bands.length ≤ Rules.maxOutcomeBands := not_lt.mp hbands.2
    rw [and_iff_right (hstarted.mp hcheck), and_iff_right hlength]
    dsimp only
    by_cases hcount : document.naturalRules.length > maxNaturalRules
    · rw [if_pos hcount]
      exact ⟨fun h ↦ (nomatch h), fun h ↦ absurd h.1 (not_le.mpr hcount)⟩
    · have hrules : document.naturalRules.length ≤ Rules.maxNaturalRules := not_lt.mp hcount
      rw [if_neg hcount, checkFaces_iff, and_iff_right hrules]

/-- Every table decides every margin, ascends with it, and shifts inside itself; the constructor
keeps what it is given; and a document is accepted when it has its texts and a table the constructor
returns. -/
theorem outcome_tables_exact :
    (∀ (table : OutcomeTable) (margin : ℤ) (natural : Option ℕ), i64Min ≤ margin →
      table.Decides margin natural (table.evaluate margin natural)) ∧
    (∀ (table : OutcomeTable) (low high : ℤ) (first second : Option ℕ), i64Min ≤ low → low ≤ high →
      (table.evaluate low first).bandIndex ≤ (table.evaluate high second).bandIndex) ∧
    (∀ (table : OutcomeTable) (index : ℕ), index < table.bands.length → table.Shifts index) ∧
    (∀ (id : Ulid) (bands : List OutcomeBand) (rules : List NaturalRule) (table : OutcomeTable),
      OutcomeTable.new id bands rules = .ok table →
        table.id = id ∧ table.bands = bands ∧ table.naturalRules = rules) ∧
    ∀ document : OutcomeTableDocument, document.validateCombatLocal = .ok () ↔
      document.slug ≠ "" ∧ document.name ≠ "" ∧
        ∃ table, OutcomeTable.new document.id document.bands document.naturalRules = .ok table := by
  refine ⟨?_, ?_, ?_, ?_, validateCombatLocal_iff⟩
  · intro table margin natural hmargin
    exact OutcomeTable.decides_evaluate natural hmargin
  · intro table low high first second hlow hle
    exact OutcomeTable.bandIndex_mono first second hlow hle
  · intro table index hindex
    exact OutcomeTable.shifts hindex
  · intro id bands rules table hnew
    exact OutcomeTable.parts_of_new hnew

def unbounded : OutcomeTable where
  id := 0
  bands := [⟨i64Min, .failure⟩, ⟨0, .success⟩, ⟨10, .criticalSuccess⟩]
  naturalRules := [⟨20, .shift 1⟩, ⟨1, .override .criticalFailure⟩]
  bands_start := by decide
  bands_le := by decide
  rules_le := by decide
  faces_in := by decide
  faces_nodup := by decide

/-- A success on a natural twenty is shifted to the band above. -/
theorem unbounded_decides : i64Min ≤ 4 ∧ (unbounded.evaluate 4 (some 20)).outcome = .criticalSuccess ∧
    unbounded.Decides 4 (some 20) (unbounded.evaluate 4 (some 20)) :=
  have hmargin : i64Min ≤ 4 := by decide
  ⟨hmargin, by decide, outcome_tables_exact.1 unbounded 4 (some 20) hmargin⟩

/-- The constructor knows nothing of the texts: a document without a slug is refused, and its table
is one the constructor returns. -/
theorem unnamed_table_refused : ¬∀ document : OutcomeTableDocument,
    document.validateCombatLocal = .ok () ↔
      ∃ table, OutcomeTable.new document.id document.bands document.naturalRules = .ok table := by
  intro hall
  have haccepted := (hall ⟨⟨0, [⟨i64Min, .success⟩], []⟩, "", "margins"⟩).mpr
    (OutcomeTable.new_eq_ok_iff.mpr ⟨by decide, by decide, by decide,
      fun rule hrule ↦ absurd hrule List.not_mem_nil, List.nodup_nil⟩)
  exact (validateCombatLocal_iff _).mp haccepted |>.1 rfl

end OutcomeTableDocument

end Crpg.Data
