import Crpg.Core.RangeDraw
import Crpg.Lib.Call
import Crpg.Rules.QueryReturns
import Crpg.Rules.Range
import Crpg.Rules.Resolution

/-!
# Transactional resolution

`resolve` as the call it is, on the caller's generator: it reads the generator once, draws on a
staged copy, and writes the copy back after complete success. The call returns; an error leaves the
generator as it was; a result leaves the draws of the sides that rolled, the actor's before the
opponent's (`SideDrawn`). `resolve_transactional` collects these with the margin and the decision.
-/

set_option autoImplicit false

namespace Crpg.Rules

open Crpg.Core Crpg.Lib ModifierPipeline
open Result (bind_eq_ok_iff bind_ok_iff expect_some failIf_eq_ok_iff mapErr_eq_ok_iff ok_bind
  pure_eq returns_failIf returns_ok)

/-! ### The call -/

/-- `resolve` on the caller's generator. -/
def resolveCall (request : ResolutionRequest) (context : ResolutionContext) :
    Call DeterministicRng RulesError ResolutionResult := do
  Call.ofResult (checkRequest request context)
  let view ← Call.expect (context.entities.get? request.roll.actor)
  let actorUnion ← Call.ofResult (unionTags view.tags request.roll.tags "/resolution/actor")
  let union ← Call.ofResult (opposedUnion context request.against)
  let done ← Call.ofResult (preflight context request.against)
  let staged ← Call.get
  let actor ← Call.ofResult
    (resolveSide context request.roll view actorUnion staged "/resolution/actor")
  let against ← Call.ofResult (resolveAgainst context request.against union done actor.2)
  let margin := actor.1.total - against.1.1
  let rolled := request.roll.roll.rolls || against.2.2
  if rolled then Call.set against.2.1
  pure ⟨actor.1, against.1.2, against.1.1, margin,
    context.outcomeTable.evaluate margin actor.1.natural⟩

/-- What a call leaves of a result that carries the generator after it. -/
def landed (rng : DeterministicRng) : Result RulesError (ResolutionResult × DeterministicRng) →
      Lib.Outcome DeterministicRng RulesError ResolutionResult
  | .ok (result, after) => .ok result after
  | .err error => .err error rng
  | .panic => .fault .panic

/-- A step that reads the request only. -/
theorem landed_bind {α : Type} (rng : DeterministicRng) (step : Result RulesError α)
    {next : α → Result RulesError (ResolutionResult × DeterministicRng)}
    {call : α → Call DeterministicRng RulesError ResolutionResult}
    (hnext : ∀ value, call value rng = landed rng (next value)) :
    (Call.ofResult step >>= call) rng = landed rng (step.bind next) := by
  cases step with
  | ok value => exact hnext value
  | err error => rfl
  | panic => rfl

/-- The call is `resolve`, with the generator in the caller's place. -/
theorem resolveCall_eq (request : ResolutionRequest) (context : ResolutionContext)
    (rng : DeterministicRng) :
    resolveCall request context rng = landed rng (resolve request context rng) := by
  unfold resolveCall resolve
  refine landed_bind rng _ fun _ ↦ ?_
  rw [Call.bind_apply]
  cases context.entities.get? request.roll.actor with
  | none => rfl
  | some view =>
    refine landed_bind rng _ fun _ ↦ landed_bind rng _ fun _ ↦ landed_bind rng _ fun _ ↦ ?_
    rw [Call.bind_apply, Call.get_apply, Lib.Outcome.ok_bind]
    refine landed_bind rng _ fun _ ↦ landed_bind rng _ fun against ↦ ?_
    simp only
    split_ifs
    · rfl
    · rfl

/-! ### Dice -/

/-- Range draws of one bound from a stream, one after another: the faces and the stream after. -/
inductive RangeDraws (sides : ℕ) : Pcg32 → List ℕ → Pcg32 → Prop
  | done (stream : Pcg32) : RangeDraws sides stream [] stream
  | draw {stream next last : Pcg32} {value : UInt32} {faces : List ℕ}
      (hdraw : stream.genRangeU32 (UInt32.ofNat sides) = some (value, next))
      (hrest : RangeDraws sides next faces last) :
      RangeDraws sides stream ((value.toNat + 1) :: faces) last

namespace DiceExpr

/-- Drawing dice ends, after one range draw for each. Assumes: an odd increment. -/
theorem draw_spec (sides count : ℕ) {stream : Pcg32} (hodd : stream.IsOdd) :
    ∃ dice last, draw sides count stream = some (dice, last) ∧ last.IsOdd ∧
      dice.length = count ∧ RangeDraws sides stream (dice.map DieResult.value) last := by
  induction count generalizing stream with
  | zero => exact ⟨[], stream, rfl, hodd, rfl, .done stream⟩
  | succ count ih =>
    obtain ⟨⟨value, next⟩, hdraw⟩ :=
      Option.isSome_iff_exists.mp (Pcg32.genRangeU32_isSome hodd (UInt32.ofNat sides))
    have hnext : next.IsOdd := by
      rw [Pcg32.IsOdd, Pcg32.redraw_inc hdraw]
      exact hodd
    obtain ⟨dice, last, hrest, hlast, hlength, hdraws⟩ := ih hnext
    refine ⟨⟨value.toNat + 1, true⟩ :: dice, last, ?_, hlast, ?_, .draw hdraw hdraws⟩
    · rw [draw, hdraw]
      show (draw sides count next).bind _ = _
      rw [hrest]
      rfl
    · rw [List.length_cons, hlength]

theorem map_value_dropAt (dice : List DieResult) (indices : List ℕ) :
    (dropAt dice indices).map DieResult.value = dice.map DieResult.value := by
  apply List.ext_getElem?
  intro index
  rw [dropAt, List.getElem?_map, List.getElem?_mapIdx, List.getElem?_map]
  cases dice[index]? with
  | none => rfl
  | some die =>
    show some (if index ∈ indices then { die with kept := false } else die).value = _
    split_ifs
    · rfl
    · rfl

theorem map_value_applySelection (dice : List DieResult) (selection : DiceSelection) :
    (applySelection dice selection).map DieResult.value = dice.map DieResult.value := by
  cases selection with
  | all => rfl
  | keepHighest kept => exact map_value_dropAt _ _
  | keepLowest kept => exact map_value_dropAt _ _
  | dropHighest dropped => exact map_value_dropAt _ _
  | dropLowest dropped => exact map_value_dropAt _ _

end DiceExpr

/-! ### One side -/

/-- What one side drew: nothing, or its dice, by range draws from its stream, with the natural face
its selector names. -/
def SideDrawn (request : RollRequest) (rng : DeterministicRng) (roll : Option DiceRoll)
    (natural : Option ℕ) (after : DeterministicRng) : Prop :=
  match request.roll with
  | .none => roll = none ∧ natural = none ∧ after = rng
  | .dice expr => ∃ trace stream, roll = some trace ∧ trace.dice.length = expr.count ∧
      RangeDraws expr.sides (rng.stream request.stream) (trace.dice.map DieResult.value) stream ∧
      after = rng.setStream request.stream stream ∧
      natural = request.naturalDie.bind fun selector ↦
        trace.dice[selector]?.map DieResult.value

variable {request : RollRequest} {rng staged : DeterministicRng}

theorem SideDrawn.get?_of_ne {after : DeterministicRng} {roll : Option DiceRoll}
    {natural : Option ℕ} (hdrawn : SideDrawn request rng roll natural after) {name : String}
    (hne : request.roll.rolls = true → name ≠ request.stream) :
    after.streams.get? name = rng.streams.get? name := by
  unfold SideDrawn at hdrawn
  split at hdrawn
  · rw [hdrawn.2.2]
  · rename_i expr hroll
    obtain ⟨trace, stream, -, -, -, rfl, -⟩ := hdrawn
    refine BTreeMap.get?_insert_of_ne _ (hne ?_) _
    rw [hroll]
    rfl

theorem SideDrawn.seed {after : DeterministicRng} {roll : Option DiceRoll} {natural : Option ℕ}
    (hdrawn : SideDrawn request rng roll natural after) : after.seed = rng.seed := by
  unfold SideDrawn at hdrawn
  split at hdrawn
  · rw [hdrawn.2.2]
  · obtain ⟨trace, stream, -, -, -, rfl, -⟩ := hdrawn
    rfl

/-- The dice of a side of valid shape are drawn. Assumes: streams with odd increments. -/
theorem rollSide_spec {path shapePath : String}
    (hshape : checkRollShape request shapePath = .ok ()) (hodd : rng.IsOdd) :
    ∃ roll natural total after, rollSide request rng path = .ok ((roll, natural, total), after) ∧
      SideDrawn request rng roll natural after ∧ after.IsOdd ∧ InI32 total := by
  unfold checkRollShape at hshape
  unfold rollSide SideDrawn
  cases hroll : request.roll with
  | none => exact ⟨none, none, 0, rng, rfl, ⟨rfl, rfl, rfl⟩, hodd, by decide⟩
  | dice expr =>
    rw [hroll] at hshape
    simp only at hshape ⊢
    cases hstream : checkStream request.stream with
    | error error =>
      rw [hstream] at hshape
      cases hshape
    | ok value =>
      rw [hstream] at hshape
      simp only [failIf_eq_ok_iff] at hshape
      obtain ⟨dice, last, hdraw, hlast, hlength, hdraws⟩ :=
        DiceExpr.draw_spec expr.sides expr.count (hodd.stream request.stream)
      have hvalues := DiceExpr.map_value_applySelection dice expr.selection
      have hlength' : (DiceExpr.applySelection dice expr.selection).length = expr.count := by
        have hmap := congrArg List.length hvalues
        rw [List.length_map, List.length_map, hlength] at hmap
        exact hmap
      rw [← hvalues] at hdraws
      simp only [DiceExpr.evaluate, hstream, hdraw, Option.map_some, Result.ofExcept, Result.mapErr,
        ok_bind, expect_some]
      cases hnatural : request.naturalDie with
      | none =>
        exact ⟨_, _, _, _, rfl, ⟨_, last, rfl, hlength', hdraws, rfl, rfl⟩,
          hodd.setStream hlast, inI32_clampI32 _⟩
      | some selector =>
        rw [hnatural, Option.any_some, decide_eq_true_eq, not_le] at hshape
        have hget : (DiceExpr.applySelection dice expr.selection)[selector]? =
            some ((DiceExpr.applySelection dice expr.selection)[selector]) :=
          List.getElem?_eq_getElem (by omega)
        simp only [hget, expect_some, ok_bind]
        refine ⟨_, _, _, _, rfl, ⟨_, last, rfl, hlength', hdraws, rfl, ?_⟩,
          hodd.setStream hlast, inI32_clampI32 _⟩
        rw [Option.bind_some, hget]
        rfl

section Sides

variable {context : ResolutionContext} {request : RollRequest} {view : QueryContext}
  {union : TagSet} {rng : DeterministicRng} {path shapePath : String}

theorem resolveSide_spec (hshape : checkRollShape request shapePath = .ok ()) (hodd : rng.IsOdd) :
    (resolveSide context request view union rng path).Returns ∧
      ∀ side after, resolveSide context request view union rng path = .ok (side, after) →
        SideDrawn request rng side.roll side.natural after ∧ after.IsOdd ∧
          (view.InRange → InI32 side.total) := by
  obtain ⟨roll, natural, total, staged, hrolled, hdrawn, hstaged, htotal⟩ :=
    @rollSide_spec request rng (path ++ "/roll") shapePath hshape hodd
  unfold resolveSide
  rw [hrolled, ok_bind]
  refine ⟨returns_queryNumeric.mapErr.bind fun _ _ ↦ returns_ok _, fun side after hok ↦ ?_⟩
  rw [bind_eq_ok_iff] at hok
  obtain ⟨folded, hfolded, hside⟩ := hok
  cases hside
  refine ⟨hdrawn, hstaged, fun hview ↦ ?_⟩
  rw [mapErr_eq_ok_iff] at hfolded
  simp only [queryNumeric, bind_ok_iff, pure_eq] at hfolded
  obtain ⟨_, -, _, -, _, -, hvalue⟩ := hfolded
  cases hvalue
  have hquery : (⟨request.actor, view.stats, union, view.modifiers⟩ : QueryContext).InRange :=
    ⟨hview.stats, hview.modifiers⟩
  exact foldNumeric_inRange hquery htotal

end Sides

/-! ### Checks -/

section Checks

variable {request : ResolutionRequest} {context : ResolutionContext}

structure Checked (request : ResolutionRequest) (context : ResolutionContext) : Prop where
  actor : ∃ view, context.entities.get? request.roll.actor = some view
  defender : ∃ view, context.entities.get? request.against.defender = some view
  shape : checkRollShape request.roll "/resolution/actor" = .ok ()
  opposing : ∀ opposed, request.against = .opposed opposed →
    checkRollShape opposed "/resolution/against" = .ok ()

theorem returns_checkRollShape {roll : RollRequest} {path : String} :
    (checkRollShape roll path).Returns := by
  unfold checkRollShape
  split
  · exact returns_failIf.bind fun _ _ ↦ returns_failIf
  · split
    · nofun
    · exact returns_failIf

theorem mem_participantsOf {participant : EntityId × String}
    (hmem : participant ∈ participantsOf request) :
    participant.1 = request.roll.actor ∨ participant.1 = request.against.defender := by
  unfold participantsOf at hmem
  simp only at hmem
  split_ifs at hmem
  · rw [List.mem_singleton] at hmem
    rw [hmem]
    exact Or.inl rfl
  · rw [List.mem_pair] at hmem
    obtain rfl | rfl := hmem
    · exact Or.inl rfl
    · exact Or.inr rfl
  · rw [List.mem_pair] at hmem
    obtain rfl | rfl := hmem
    · exact Or.inr rfl
    · exact Or.inl rfl

theorem returns_checkParticipant {participant : EntityId × String}
    (hview : ∃ view, context.entities.get? participant.1 = some view) :
    (checkParticipant context participant).Returns := by
  obtain ⟨view, hview⟩ := hview
  unfold checkParticipant
  exact (Result.returns_expect_some hview).bind fun _ _ ↦ returns_failIf.bind fun _ _ ↦
    returns_checkContext.mapErr

theorem exists_of_contains {entity : EntityId}
    (hcontains : ¬context.entities.contains entity = false) :
    ∃ view, context.entities.get? entity = some view := by
  rw [Bool.not_eq_false, BTreeMap.contains, Option.isSome_iff_exists] at hcontains
  exact hcontains

theorem checkRequest_spec : (checkRequest request context).Returns ∧
    (checkRequest request context = .ok () → Checked request context) := by
  constructor
  · unfold checkRequest
    refine returns_failIf.bind fun _ _ ↦ returns_failIf.bind fun _ hactor ↦
      returns_failIf.bind fun _ _ ↦ returns_failIf.bind fun _ hdefender ↦
      returns_checkRollShape.bind fun _ _ ↦ ?_
    rw [failIf_eq_ok_iff] at hactor hdefender
    have hparticipants : (Result.forM (checkParticipant context)
        (participantsOf request)).Returns := by
      apply Result.returns_forM_of_mem
      intro participant hmem
      apply returns_checkParticipant
      obtain hsame | hsame := mem_participantsOf hmem
      · rw [hsame]
        exact exists_of_contains hactor
      · rw [hsame]
        exact exists_of_contains hdefender
    split
    · exact returns_checkRollShape.bind fun _ _ ↦ hparticipants
    · exact hparticipants
  · intro hok
    simp only [checkRequest, Result.bind_eq, bind_eq_ok_iff, failIf_eq_ok_iff, exists_const] at hok
    obtain ⟨-, hactor, -, hdefender, ⟨⟩, hshape, hrest⟩ := hok
    refine ⟨exists_of_contains hactor, exists_of_contains hdefender, hshape, ?_⟩
    intro opposed hopposed
    rw [hopposed] at hrest
    simp only [bind_eq_ok_iff] at hrest
    obtain ⟨⟨⟩, hopposing, -⟩ := hrest
    exact hopposing

/-! ### The defence -/

structure ResolutionContext.InRange (context : ResolutionContext) : Prop where
  pipeline : context.pipeline.InRange
  views : ∀ entity view, context.entities.get? entity = some view → view.InRange

/-- The integer of a defence lies in the range of its type. -/
def Against.InRange : Against → Prop
  | .dc value _ _ => InI32 value
  | _ => True

/-- Whether the defending side draws dice. -/
def Against.rolls : Against → Bool
  | .opposed request => request.roll.rolls
  | _ => false

/-- What the defending side drew from a staged generator. -/
def AgainstDrawn (against : Against) (staged : DeterministicRng) (breakdown : AgainstBreakdown)
    (after : DeterministicRng) : Prop :=
  match against with
  | .opposed request => ∃ side, breakdown = .opposed side ∧
      SideDrawn request staged side.roll side.natural after
  | _ => after = staged

theorem queryNumeric_inRange {pipeline : ModifierPipeline} {view : QueryContext} {entity : EntityId}
    {target : ModifierTarget} {base : ℤ} {answer : ℤ × NumericModifierBreakdown}
    (hanswer : pipeline.queryNumeric entity target base view = .ok answer) (hview : view.InRange)
    (hbase : InI32 base) : InI32 answer.1 := by
  simp only [queryNumeric, bind_ok_iff, pure_eq] at hanswer
  obtain ⟨_, -, _, -, _, -, hvalue⟩ := hanswer
  cases hvalue
  exact foldNumeric_inRange hview hbase

/-- What the preflight leaves of a defence: a value in range, or nothing for an opposing roll. -/
def Preflighted (request : ResolutionRequest) (context : ResolutionContext)
    (done : Option (ℤ × AgainstBreakdown)) : Prop :=
  (∃ opposed, request.against = .opposed opposed) ∨
    ∃ found, done = some found ∧ (context.InRange → request.against.InRange → InI32 found.1)

theorem preflight_spec (hpipeline : ValidPipeline context.pipeline)
    (hchecked : Checked request context) : (preflight context request.against).Returns ∧
      ∀ done, preflight context request.against = .ok done → Preflighted request context done := by
  obtain ⟨view, hview⟩ := hchecked.defender
  unfold Preflighted
  cases hagainst : request.against with
  | opposed opposed => exact ⟨nofun, fun _ _ ↦ Or.inl ⟨opposed, rfl⟩⟩
  | dc value owner target =>
    rw [hagainst] at hview
    unfold preflight
    simp only [show context.entities.get? owner = some view from hview, expect_some, ok_bind]
    refine ⟨returns_queryNumeric.mapErr.bind fun _ _ ↦ returns_ok _, fun done hdone ↦ ?_⟩
    rw [bind_eq_ok_iff] at hdone
    obtain ⟨folded, hfolded, hsome⟩ := hdone
    cases hsome
    rw [mapErr_eq_ok_iff] at hfolded
    exact Or.inr ⟨_, rfl, fun hcontext hvalue ↦
      queryNumeric_inRange hfolded (hcontext.views _ _ hview) hvalue⟩
  | stat entity stat target =>
    rw [hagainst] at hview
    obtain ⟨hreturns, hevaluates⟩ := @query_cases context.pipeline view hpipeline entity stat
    unfold preflight
    simp only [show context.entities.get? entity = some view from hview, expect_some, ok_bind]
    constructor
    · refine hreturns.mapErr.bind fun queried _ ↦ ?_
      split
      · exact returns_queryNumeric.mapErr.bind fun _ _ ↦ returns_ok _
      · nofun
    · intro done hdone
      rw [bind_eq_ok_iff] at hdone
      obtain ⟨queried, hqueried, hfold⟩ := hdone
      rw [mapErr_eq_ok_iff] at hqueried
      split at hfold
      · rename_i base hbase
        rw [bind_eq_ok_iff] at hfold
        obtain ⟨folded, hfolded, hsome⟩ := hfold
        cases hsome
        rw [mapErr_eq_ok_iff] at hfolded
        refine Or.inr ⟨_, rfl, fun hcontext _ ↦ ?_⟩
        have hvalue := (hevaluates queried hqueried).inRange hcontext.pipeline
          (hcontext.views _ _ hview)
        rw [hbase] at hvalue
        exact queryNumeric_inRange hfolded (hcontext.views _ _ hview) hvalue
      · cases hfold

theorem opposedUnion_spec (hchecked : Checked request context) :
    (opposedUnion context request.against).Returns ∧
      ∀ union, opposedUnion context request.against = .ok union →
        ∀ opposed, request.against = .opposed opposed → ∃ tags, union = some tags := by
  have hunion : ∀ {tags more : TagSet} {path : String}, (unionTags tags more path).Returns := by
    intro tags more path
    simp only [unionTags]
    split_ifs
    · nofun
    · nofun
  cases hagainst : request.against with
  | dc value owner target => exact ⟨nofun, fun _ _ _ ↦ nofun⟩
  | stat entity stat target => exact ⟨nofun, fun _ _ _ ↦ nofun⟩
  | opposed opposed =>
    obtain ⟨view, hview⟩ := hchecked.defender
    rw [hagainst] at hview
    unfold opposedUnion
    simp only [show context.entities.get? opposed.actor = some view from hview, expect_some,
      ok_bind]
    refine ⟨hunion.bind fun _ _ ↦ returns_ok _, fun union hok other _ ↦ ?_⟩
    rw [bind_eq_ok_iff] at hok
    obtain ⟨tags, -, hsome⟩ := hok
    cases hsome
    exact ⟨tags, rfl⟩

/-- A defence that does not roll is taken from the preflight. -/
theorem resolveAgainst_of_ne_opposed {against : Against}
    (hplain : ∀ opposed, against ≠ .opposed opposed) (union : Option TagSet)
    (found : ℤ × AgainstBreakdown) (staged : DeterministicRng) :
    resolveAgainst context against union (some found) staged = .ok (found, staged, false) ∧
      AgainstDrawn against staged found.2 staged ∧ against.rolls = false := by
  cases against with
  | dc value owner target => exact ⟨rfl, rfl, rfl⟩
  | stat entity stat target => exact ⟨rfl, rfl, rfl⟩
  | opposed opposed => exact absurd rfl (hplain opposed)

theorem resolveAgainst_spec (hchecked : Checked request context) {union : Option TagSet}
    (hunion : ∀ opposed, request.against = .opposed opposed → ∃ tags, union = some tags)
    {done : Option (ℤ × AgainstBreakdown)} (hdone : Preflighted request context done)
    {staged : DeterministicRng} (hodd : staged.IsOdd) :
    (resolveAgainst context request.against union done staged).Returns ∧
      ∀ value breakdown after rolled, resolveAgainst context request.against union done staged =
          .ok ((value, breakdown), after, rolled) →
        AgainstDrawn request.against staged breakdown after ∧ after.IsOdd ∧
        rolled = request.against.rolls ∧
        (context.InRange → request.against.InRange → InI32 value) := by
  by_cases hopposed : ∃ opposed, request.against = .opposed opposed
  · obtain ⟨opposed, hagainst⟩ := hopposed
    obtain ⟨tags, rfl⟩ := hunion opposed hagainst
    obtain ⟨view, hview⟩ := hchecked.defender
    have hshape := hchecked.opposing opposed hagainst
    rw [hagainst] at hview
    rw [hagainst]
    obtain ⟨hreturns, hside⟩ := @resolveSide_spec context opposed view tags staged
      "/resolution/against" "/resolution/against" hshape hodd
    unfold resolveAgainst
    simp only [show context.entities.get? opposed.actor = some view from hview, expect_some,
      ok_bind]
    refine ⟨hreturns.bind fun _ _ ↦ returns_ok _, ?_⟩
    intro value breakdown after rolled hok
    rw [bind_eq_ok_iff] at hok
    obtain ⟨⟨side, left⟩, hresolved, hanswer⟩ := hok
    cases hanswer
    obtain ⟨hdrawn, hafter, htotal⟩ := hside side left hresolved
    exact ⟨⟨side, rfl, hdrawn⟩, hafter, rfl, fun hcontext _ ↦
      htotal (hcontext.views _ _ hview)⟩
  · obtain ⟨found, rfl, hrange⟩ := hdone.resolve_left hopposed
    obtain ⟨hresult, hdrawn, hrolls⟩ := @resolveAgainst_of_ne_opposed context request.against
      (fun opposed hagainst ↦ hopposed ⟨opposed, hagainst⟩) union found staged
    rw [hresult]
    refine ⟨nofun, fun value breakdown after rolled hok ↦ ?_⟩
    cases hok
    exact ⟨hdrawn, hodd, hrolls.symm, hrange⟩

end Checks

/-! ### Resolution -/

/-- What a resolution leaves: the draws of the sides that rolled and no others, the actor's first,
and the margin with its decision. -/
structure Transacted (request : ResolutionRequest) (context : ResolutionContext)
    (rng : DeterministicRng) (result : ResolutionResult) (after : DeterministicRng) : Prop where
  drawn : ∃ staged, SideDrawn request.roll rng result.actor.roll result.actor.natural staged ∧
    AgainstDrawn request.against staged result.against after
  untouched : request.roll.roll.rolls = false → request.against.rolls = false → after = rng
  others : ∀ name, (request.roll.roll.rolls = true → name ≠ request.roll.stream) →
    (∀ opposed, request.against = .opposed opposed → opposed.roll.rolls = true →
      name ≠ opposed.stream) → after.streams.get? name = rng.streams.get? name
  seed : after.seed = rng.seed
  isOdd : after.IsOdd
  margin : result.margin = result.actor.total - result.againstValue
  inRange : context.InRange → request.against.InRange →
    InI32 result.actor.total ∧ InI32 result.againstValue ∧
      -9223372036854775808 ≤ result.margin ∧ result.margin ≤ 9223372036854775807
  decision : result.decision = context.outcomeTable.evaluate result.margin result.actor.natural

/-- A side that draws nothing leaves the generator. -/
theorem SideDrawn.eq_of_not_rolls {after : DeterministicRng} {roll : Option DiceRoll}
    {natural : Option ℕ} (hdrawn : SideDrawn request rng roll natural after)
    (hrolls : request.roll.rolls = false) : after = rng := by
  unfold SideDrawn at hdrawn
  split at hdrawn
  · exact hdrawn.2.2
  · rename_i expr hroll
    rw [hroll] at hrolls
    cases hrolls

variable {breakdown : AgainstBreakdown}

/-- The defending side draws from the opponent's stream only, if from any. -/
theorem AgainstDrawn.get?_of_ne {against : Against} {after : DeterministicRng}
    (hdrawn : AgainstDrawn against staged breakdown after) {name : String}
    (hne : ∀ opposed, against = .opposed opposed → opposed.roll.rolls = true →
      name ≠ opposed.stream) : after.streams.get? name = staged.streams.get? name := by
  cases against with
  | opposed opposed =>
    obtain ⟨side, -, hside⟩ := hdrawn
    exact hside.get?_of_ne (hne opposed rfl)
  | dc value owner target => rw [show after = staged from hdrawn]
  | stat entity stat target => rw [show after = staged from hdrawn]

theorem AgainstDrawn.seed {against : Against} {after : DeterministicRng}
    (hdrawn : AgainstDrawn against staged breakdown after) : after.seed = staged.seed := by
  cases against with
  | opposed opposed =>
    obtain ⟨side, -, hside⟩ := hdrawn
    exact hside.seed
  | dc value owner target => rw [show after = staged from hdrawn]
  | stat entity stat target => rw [show after = staged from hdrawn]

theorem AgainstDrawn.eq_of_not_rolls {against : Against} {after : DeterministicRng}
    (hdrawn : AgainstDrawn against staged breakdown after) (hrolls : against.rolls = false) :
    after = staged := by
  cases against with
  | opposed opposed =>
    obtain ⟨side, -, hside⟩ := hdrawn
    exact hside.eq_of_not_rolls hrolls
  | dc value owner target => exact hdrawn
  | stat entity stat target => exact hdrawn

/-- Resolution returns, and what it leaves. Assumes: a valid pipeline and odd increments. -/
theorem resolve_spec {request : ResolutionRequest} {context : ResolutionContext}
    (hpipeline : ValidPipeline context.pipeline) (hodd : rng.IsOdd) :
    (resolve request context rng).Returns ∧ ∀ result after,
      resolve request context rng = .ok (result, after) →
        Transacted request context rng result after := by
  obtain ⟨hreturns, hchecks⟩ := @checkRequest_spec request context
  constructor
  · unfold resolve
    refine hreturns.bind fun _ hok ↦ ?_
    have hchecked := hchecks hok
    obtain ⟨view, hview⟩ := hchecked.actor
    have hunionTags : ∀ {tags more : TagSet} {path : String},
        (unionTags tags more path).Returns := by
      intro tags more path
      simp only [unionTags]
      split_ifs
      · nofun
      · nofun
    refine (Result.returns_expect_some hview).bind fun _ _ ↦ hunionTags.bind fun tags _ ↦
      (opposedUnion_spec hchecked).1.bind fun union hunion ↦
      (preflight_spec hpipeline hchecked).1.bind fun done hdone ↦
      (resolveSide_spec hchecked.shape hodd).1.bind fun actor hactor ↦ ?_
    obtain ⟨-, hstaged, -⟩ := (resolveSide_spec hchecked.shape hodd).2 actor.1 actor.2 hactor
    exact (resolveAgainst_spec hchecked ((opposedUnion_spec hchecked).2 union hunion)
      ((preflight_spec hpipeline hchecked).2 done hdone) hstaged).1.bind
        fun _ _ ↦ returns_ok _
  · intro result after hok
    simp only [resolve, bind_ok_iff, Result.expect_eq_ok_iff, pure_eq] at hok
    obtain ⟨⟨⟩, hchecked, view, hview, tags, -, union, hunion, done, hdone, ⟨actor, staged⟩,
      hactor, ⟨⟨value, breakdown⟩, left, rolled⟩, hagainst, hresult⟩ := hok
    have hchecked := hchecks hchecked
    obtain ⟨hdrawn, hstaged, htotal⟩ := (resolveSide_spec hchecked.shape hodd).2 _ _ hactor
    obtain ⟨hleft, hoddLeft, hrolled, hvalue⟩ := (resolveAgainst_spec hchecked
      ((opposedUnion_spec hchecked).2 union hunion)
      ((preflight_spec hpipeline hchecked).2 done hdone) hstaged).2 _ _ _ _ hagainst
    have hafter : (if (request.roll.roll.rolls || rolled) = true then left else rng) = left := by
      split_ifs with hrolls
      · rfl
      · rw [Bool.not_eq_true, Bool.or_eq_false_iff, hrolled] at hrolls
        rw [hleft.eq_of_not_rolls hrolls.2, hdrawn.eq_of_not_rolls hrolls.1]
    rw [Result.ok.injEq, Prod.mk.injEq, hafter] at hresult
    obtain ⟨rfl, rfl⟩ := hresult
    refine
      { drawn := ⟨staged, hdrawn, hleft⟩
        untouched := fun hactor hdefender ↦ ?_
        others := fun name hactor hdefender ↦ ?_
        seed := ?_
        isOdd := hoddLeft
        margin := rfl
        inRange := fun hcontext hrequest ↦ ?_
        decision := rfl }
    · rw [hleft.eq_of_not_rolls hdefender, hdrawn.eq_of_not_rolls hactor]
    · exact (hleft.get?_of_ne hdefender).trans (hdrawn.get?_of_ne hactor)
    · exact hleft.seed.trans hdrawn.seed
    · have hfirst := htotal (hcontext.views _ _ hview)
      have hsecond := hvalue hcontext hrequest
      refine ⟨hfirst, hsecond, ?_⟩
      have hmin : i32Min = -2147483648 := rfl
      have hmax : i32Max = 2147483647 := rfl
      unfold InI32 at hfirst hsecond
      simp only
      omega

/-- The call returns. An error leaves the caller's generator; a result leaves the draws of the sides
that rolled, with the margin and the decision of the totals. Assumes: a pipeline its constructor
accepted, and streams with odd increments, as every constructor of a stream makes them. -/
theorem resolve_transactional {definitions : List StatDefinition}
    {policies : BTreeMap String StackingPolicy} {request : ResolutionRequest}
    {context : ResolutionContext} {rng : DeterministicRng}
    (hnew : ModifierPipeline.new definitions policies = .ok context.pipeline) (hodd : rng.IsOdd) :
    (∀ why, resolveCall request context rng ≠ .fault why) ∧
    (∀ error after, resolveCall request context rng = .err error after → after = rng) ∧
    ∀ result after, resolveCall request context rng = .ok result after →
      Transacted request context rng result after := by
  obtain ⟨hreturns, hresolved⟩ := @resolve_spec rng request context (validPipeline_of_new hnew) hodd
  rw [resolveCall_eq]
  cases hresult : resolve request context rng with
  | panic => exact absurd hresult hreturns
  | err error =>
    refine ⟨fun _ ↦ nofun, fun other after herror ↦ ?_, fun _ _ ↦ nofun⟩
    cases herror
    rfl
  | ok answer =>
    refine ⟨fun _ ↦ nofun, fun _ _ ↦ nofun, fun result after hok ↦ ?_⟩
    cases hok
    exact hresolved _ _ hresult

/-- A d20 that drops nothing, in a side's own stream. -/
def sampleRoll : RollRequest where
  actor := ⟨0, firstGeneration⟩
  roll := .dice ⟨1, 20, .all, 3, by decide, by decide, by decide, by decide, trivial⟩
  bonusTarget := 0
  naturalDie := some 0
  stream := "check"
  tags := ∅

/-- Someone rolls against their own roll: both sides draw from one stream. -/
def sampleRequest : ResolutionRequest := ⟨sampleRoll, none, .opposed sampleRoll, 0⟩

theorem soleBand_start : bandsStart [⟨i64Min, .success⟩] = true := by decide

theorem soleBand_le : [OutcomeBand.mk i64Min .success].length ≤ maxOutcomeBands := by decide

/-- One participant without stats or modifiers, and a table of one band. -/
def sampleResolution : ResolutionContext where
  pipeline := ⟨.empty, .empty⟩
  entities := .ofList [(⟨0, firstGeneration⟩, ⟨⟨0, firstGeneration⟩, .empty, ∅, []⟩)]
  outcomeTable := ⟨0, [⟨i64Min, .success⟩], [], soleBand_start, soleBand_le, by decide,
    by decide, by decide⟩

/-- The opposed check resolves, and both sides drew. -/
theorem resolve_transactional_opposed :
    ∃ result after, resolveCall sampleRequest sampleResolution (.fromSeed 7) = .ok result after ∧
      Transacted sampleRequest sampleResolution (.fromSeed 7) result after := by
  have hnew : ModifierPipeline.new [] .empty = .ok sampleResolution.pipeline := by decide +kernel
  have hok : (resolve sampleRequest sampleResolution (.fromSeed 7)).isOkAnd
      (fun answer ↦ answer.1.actor.natural.isSome) = true := by decide +kernel
  have hdone := (@resolve_transactional _ _ sampleRequest _ _ hnew
    (DeterministicRng.isOdd_fromSeed 7)).2.2
  rw [resolveCall_eq] at hdone ⊢
  cases hresult : resolve sampleRequest sampleResolution (.fromSeed 7) with
  | ok answer =>
    rw [hresult] at hdone
    exact ⟨answer.1, answer.2, rfl, hdone _ _ rfl⟩
  | err error =>
    rw [hresult] at hok
    cases hok
  | panic =>
    rw [hresult] at hok
    cases hok

end Crpg.Rules
