import Crpg.Lib.Decimal
import Crpg.Net.CodecV2
import Crpg.Server.Capture
import Crpg.Sim.HistoryJournal

/-!
# One outcome vocabulary

An outcome travels as a text: `outcome_text` of `crpg-sim/src/history.rs` writes it, and the loader
of a history, the second wire (`crpg-net/src/codec_v2.rs`) and the checkpoint of a server
(`crpg-server/src/capture.rs`, `checkpoint.rs`) each recognise it with a function of their own. All
three accept exactly the written texts: the four degrees, and `custom:` with up to three digits that
are the shortest text of a number below 256.
-/

set_option autoImplicit false

namespace Crpg.Server

open Crpg.Core Crpg.Lib Crpg.Sim Crpg.Net Crpg.Rules
open Result (except_bind_eq_ok)

/-! ### The recogniser of the capture -/

/-- `parse::<u32>` of decimal digits. -/
def parseDigits (digits : List UInt8) : Option ℕ :=
  if decimalOf digits ≤ u32Max then some (decimalOf digits) else none

/-- `valid_outcome` of the capture. -/
def validOutcome (text : String) : Bool :=
  if text ∈ ["critical_success", "success", "failure", "critical_failure"] then true
  else if (textBytes "custom:").isPrefixOf (textBytes text) = false then false
  else
    let rest := (textBytes text).drop (textBytes "custom:").length
    if rest = [] ∨ 3 < rest.length ∨
        rest.all (fun byte ↦ 48 ≤ byte.toNat && byte.toNat ≤ 57) = false then false
    else if 1 < rest.length ∧ rest.head? = some 48 then false
    else (parseDigits rest).any (· ≤ 255)

def maxOutcomeBytes : ℕ := 256

/-- The first resolution among journaled events, as the capture holds it. -/
def resolution (events : List HistoryEnvelope) : Option CapturedOutcome :=
  events.findSome? fun envelope ↦ match envelope.payload with
    | .actionResolved actor target ability outcome damage =>
      some ⟨actor, target, ability, outcome, damage⟩
    | _ => none

/-- `outcome_matches`: the captured outcome agrees with the resolution in the captured events. -/
def outcomeMatches (record : CapturedRecord) : Bool :=
  match record.outcome, resolution record.events with
  | none, none => true
  | some captured, some resolved =>
    (textBytes captured.outcome).length ≤ maxOutcomeBytes && validOutcome captured.outcome &&
      captured.actor = resolved.actor && captured.target = resolved.target &&
      captured.ability = resolved.ability && captured.outcome = resolved.outcome &&
      captured.damage = resolved.damage
  | _, _ => false

/-! ### The texts of labels -/

theorem customText_spec (label : Fin 256) :
    Net.validOutcome ("custom:" ++ toString label.val) = true ∧ "custom:" ++ toString label.val ∉
        ["critical_success", "success", "failure", "critical_failure"] ∧
      ("custom:" ++ toString label.val).toList =
        "custom:".toList ++ (Decimal.digits label.val).map (fun byte ↦ Char.ofNat byte.toNat) ∧
      textBytes ("custom:" ++ toString label.val) =
        textBytes "custom:" ++ Decimal.digits label.val := by
  decide +kernel +revert

theorem textBytes_injective {first second : String} (hbytes : textBytes first = textBytes second) :
    first = second :=
  Option.some.inj ((textOf_eq_some_iff.mpr rfl).symm.trans (textOf_eq_some_iff.mpr hbytes))

theorem exists_outcome_of_degree {text : String}
    (hdegree : text ∈ ["critical_success", "success", "failure", "critical_failure"]) :
    ∃ outcome, outcomeText outcome = text := by
  simp only [List.mem_cons, List.not_mem_nil, or_false] at hdegree
  obtain rfl | rfl | rfl | rfl := hdegree
  · exact ⟨.criticalSuccess, rfl⟩
  · exact ⟨.success, rfl⟩
  · exact ⟨.failure, rfl⟩
  · exact ⟨.criticalFailure, rfl⟩

/-- `custom:` and digits without leading zeros, of a number below 256, are written: the text is
given by its characters or by its bytes. -/
theorem exists_outcome_of_run {text : String} {run : List UInt8} (hrun : Decimal.AllDigits run)
    (hpresent : run ≠ []) (hleading : ¬(1 < run.length ∧ run.head? = some 48))
    (hbounded : Decimal.value run ≤ 255)
    (htext : text.toList = "custom:".toList ++ run.map (fun byte ↦ Char.ofNat byte.toNat) ∨
      textBytes text = textBytes "custom:" ++ run) : ∃ outcome, outcomeText outcome = text := by
  have hlt := Nat.lt_succ_of_le hbounded
  obtain ⟨-, -, hchars, hbytes⟩ := customText_spec ⟨Decimal.value run, hlt⟩
  rw [Decimal.digits_value hrun hpresent hleading] at hchars hbytes
  have hwritten : outcomeText (.custom (UInt8.ofNat (Decimal.value run))) =
      "custom:" ++ toString (Decimal.value run) := by
    rw [outcomeText, UInt8.toNat_ofNat_of_lt' hlt]
  refine ⟨.custom (UInt8.ofNat (Decimal.value run)), hwritten.trans ?_⟩
  obtain htext | htext := htext
  · exact String.toList_inj.mp (hchars.trans htext.symm)
  · exact textBytes_injective (hbytes.trans htext.symm)

/-! ### The recognisers -/

/-- The recogniser of the wire accepts exactly the written texts. -/
theorem validOutcome_iff (text : String) :
    Net.validOutcome text = true ↔ ∃ outcome, outcomeText outcome = text := by
  constructor
  · intro hvalid
    unfold Net.validOutcome at hvalid
    by_cases hdegree : text ∈ ["critical_success", "success", "failure", "critical_failure"]
    · exact exists_outcome_of_degree hdegree
    · rw [if_neg hdegree] at hvalid
      dsimp only at hvalid
      split_ifs at hvalid with hstart hlength hall hleading
      rw [Bool.not_eq_false, List.isPrefixOf_iff_prefix] at hstart
      rw [Bool.not_eq_false, List.all_eq_true] at hall
      obtain ⟨rest, hrest⟩ := hstart
      rw [← hrest, List.drop_left] at hlength hall hleading hvalid
      refine exists_outcome_of_run (fun byte hbyte ↦ ?_) (fun hnil ↦ hlength (Or.inl hnil))
        hleading (of_decide_eq_true hvalid) (Or.inr hrest.symm)
      rw [Decimal.isDigit_iff]
      simpa using hall byte hbyte
  · rintro ⟨outcome, rfl⟩
    cases outcome with
    | criticalSuccess => decide +kernel
    | success => decide +kernel
    | failure => decide +kernel
    | criticalFailure => decide +kernel
    | custom label => exact (customText_spec ⟨label.toNat, label.toNat_lt⟩).1

/-- The recogniser of the capture is that of the wire. -/
theorem validOutcome_eq (text : String) : validOutcome text = Net.validOutcome text := by
  have hparse (digits : List UInt8) :
      (parseDigits digits).any (· ≤ 255) = decide (decimalOf digits ≤ 255) := by
    unfold parseDigits
    split_ifs with hfits
    · rfl
    · refine (decide_eq_false fun hle ↦ hfits (hle.trans ?_)).symm
      decide
  unfold validOutcome Net.validOutcome
  dsimp only
  rw [hparse]
  generalize (textBytes text).drop (textBytes "custom:").length = rest
  by_cases hlength : rest = [] ∨ 3 < rest.length
  · rw [if_pos hlength, if_pos (or_assoc.mp (Or.inl hlength))]
  · by_cases hall : rest.all (fun byte ↦ 48 ≤ byte.toNat && byte.toNat ≤ 57) = false
    · rw [if_neg hlength, if_pos hall, if_pos (or_assoc.mp (Or.inr hall))]
    · rw [if_neg hlength, if_neg hall, if_neg fun hsome ↦ (or_assoc.mpr hsome).elim hlength hall]

/-- The recogniser of the history accepts exactly the written texts. -/
theorem isValidOutcome_iff (text : String) :
    isValidOutcome text = true ↔ ∃ outcome, outcomeText outcome = text := by
  constructor
  · intro hvalid
    unfold isValidOutcome at hvalid
    simp only [Bool.or_eq_true, Bool.and_eq_true, Bool.not_eq_true', decide_eq_true_eq] at hvalid
    obtain hdegree | ⟨hstart, ⟨⟨⟨hpresent, -⟩, hall⟩, hleading⟩, hbounded⟩ := hvalid
    · exact exists_outcome_of_degree (by simpa [or_assoc] using hdegree)
    · rw [List.isPrefixOf_iff_prefix] at hstart
      obtain ⟨rest, hrest⟩ := hstart
      rw [← hrest, List.drop_left' (by decide)] at hpresent hall hleading hbounded
      have hcode (char : Char) (hchar : char ∈ rest) : 48 ≤ char.toNat ∧ char.toNat ≤ 57 :=
        Char.isDigit_iff_toNat.mp (List.all_eq_true.mp hall char hchar)
      have hbyte (char : Char) (hchar : char ∈ rest) :
          (UInt8.ofNat char.toNat).toNat = char.toNat :=
        UInt8.toNat_ofNat_of_lt' ((hcode char hchar).2.trans_lt (by decide))
      have hrun : Decimal.AllDigits (rest.map fun char ↦ UInt8.ofNat char.toNat) := by
        intro byte hmem
        obtain ⟨char, hchar, rfl⟩ := List.mem_map.mp hmem
        rw [Decimal.isDigit_iff, hbyte char hchar]
        exact hcode char hchar
      refine exists_outcome_of_run hrun ?_ ?_ ?_ (Or.inl ?_)
      · rw [Ne, List.map_eq_nil_iff, ← List.isEmpty_iff, hpresent]
        decide
      · rintro ⟨hlong, hzero⟩
        rw [List.head?_map, Option.map_eq_some_iff] at hzero
        obtain ⟨char, hhead, hchar⟩ := hzero
        have hsame : char = '0' := by
          apply Char.toNat_inj.mp
          rw [← hbyte char (List.mem_of_mem_head? hhead), hchar]
          rfl
        rw [List.length_map] at hlong
        rw [hhead, hsame, decide_eq_true hlong] at hleading
        exact absurd hleading (by decide)
      · refine le_of_eq_of_le ?_ hbounded
        show (rest.map fun char ↦ UInt8.ofNat char.toNat).foldl _ 0 = _
        rw [List.foldl_map]
        refine List.foldl_ext _ _ _ fun number char hchar ↦ ?_
        show number * 10 + ((UInt8.ofNat char.toNat).toNat - 48) = _
        rw [hbyte char hchar]
      · rw [← hrest, List.map_map]
        refine congrArg _ ((List.map_id rest).symm.trans (List.map_congr_left fun char hchar ↦ ?_))
        show char = Char.ofNat (UInt8.ofNat char.toNat).toNat
        rw [hbyte char hchar, Char.ofNat_toNat]
  · rintro ⟨outcome, rfl⟩
    exact (outcomeText_valid outcome).1

theorem eq_custom_of_text {label : UInt8} {outcome : Outcome}
    (htext : outcomeText (.custom label) = outcomeText outcome) : outcome = .custom label := by
  have hlabel := customText_spec ⟨label.toNat, label.toNat_lt⟩
  cases outcome with
  | custom other =>
    have hother := customText_spec ⟨other.toNat, other.toNat_lt⟩
    have hbytes := hlabel.2.2.2.symm.trans ((congrArg textBytes htext).trans hother.2.2.2)
    have hvalue := congrArg Decimal.value (List.append_cancel_left hbytes)
    rw [Decimal.value_digits, Decimal.value_digits] at hvalue
    rw [UInt8.toNat_inj.mp hvalue]
  | _ =>
    refine absurd ?_ hlabel.2.1
    show outcomeText (.custom label) ∈ _
    rw [htext]
    decide

theorem outcomeText_injective : Function.Injective outcomeText := by
  intro first second htext
  by_cases hfirst : ∃ label, first = .custom label
  · obtain ⟨label, rfl⟩ := hfirst
    exact (eq_custom_of_text htext).symm
  · by_cases hsecond : ∃ label, second = .custom label
    · obtain ⟨label, rfl⟩ := hsecond
      exact eq_custom_of_text htext.symm
    · cases first <;> cases second <;> first
        | rfl
        | exact absurd htext (by decide)
        | exact absurd ⟨_, rfl⟩ hfirst
        | exact absurd ⟨_, rfl⟩ hsecond

/-! ### Loading -/

theorem isValidOutcome_of_decodePayload {tag : String} {payload : Json} {actor target : EntityId}
    {ability : Ulid} {text : String} {damage : ℕ}
    (hread : decodePayload tag payload = .ok (.actionResolved actor target ability text damage)) :
    isValidOutcome text = true := by
  unfold decodePayload at hread
  split at hread
  case h_4 =>
    obtain ⟨seen, -, hread⟩ := except_bind_eq_ok hread
    obtain ⟨actor', -, hread⟩ := except_bind_eq_ok hread
    obtain ⟨target', -, hread⟩ := except_bind_eq_ok hread
    obtain ⟨ability', -, hread⟩ := except_bind_eq_ok hread
    obtain ⟨outcome, -, hread⟩ := except_bind_eq_ok hread
    obtain ⟨damage', -, hread⟩ := except_bind_eq_ok hread
    split_ifs at hread with hvalid
    injection hread with hevent
    injection hevent with _ _ _ houtcome
    rw [← houtcome]
    exact hvalid
  case h_10 => exact nomatch hread
  -- The other tags decode to events of their own kind.
  all_goals
    obtain ⟨seen, -, hread⟩ := except_bind_eq_ok hread
    obtain ⟨first, -, hread⟩ := except_bind_eq_ok hread
    first
      | cases hread
      | obtain ⟨second, -, hread⟩ := except_bind_eq_ok hread
        cases hread

/-- A loaded resolution has an outcome the recogniser accepts. -/
theorem isValidOutcome_of_decode {value : Json} {actor target : EntityId} {ability : Ulid}
    {text : String} {damage : ℕ}
    (hdecode : HistoryEvent.decode value = .ok (.actionResolved actor target ability text damage)) :
    isValidOutcome text = true := by
  unfold HistoryEvent.decode at hdecode
  obtain ⟨fields, -, hdecode⟩ := except_bind_eq_ok hdecode
  split at hdecode
  · obtain ⟨tag, -, hdecode⟩ := except_bind_eq_ok hdecode
    split at hdecode
    · obtain ⟨event, hread, hdecode⟩ := except_bind_eq_ok hdecode
      split_ifs at hdecode
      injection hdecode with hevent
      exact isValidOutcome_of_decodePayload (hread.trans (congrArg _ hevent))
    · exact nomatch hdecode
  · exact nomatch hdecode

/-! ### The vocabulary -/

theorem outcomeMatches_iff {record : CapturedRecord} {captured : CapturedOutcome}
    (houtcome : record.outcome = some captured) :
    outcomeMatches record = true ↔ resolution record.events = some captured ∧
      ∃ outcome, outcomeText outcome = captured.outcome := by
  unfold outcomeMatches
  rw [houtcome]
  cases hresolution : resolution record.events with
  | none =>
    constructor
    · intro hmatches
      exact nomatch hmatches
    · rintro ⟨hsome, -⟩
      exact nomatch hsome
  | some resolved =>
    simp only [Bool.and_eq_true, decide_eq_true_eq, Option.some.injEq]
    rw [← validOutcome_iff, ← validOutcome_eq]
    constructor
    · rintro ⟨⟨⟨⟨⟨⟨-, hvalid⟩, hactor⟩, htarget⟩, hability⟩, hsame⟩, hdamage⟩
      refine ⟨?_, hvalid⟩
      cases captured
      cases resolved
      simp_all only
    · rintro ⟨rfl, hvalid⟩
      rw [validOutcome_eq] at hvalid
      have hlength := (length_of_validOutcome hvalid).trans (show 16 ≤ maxOutcomeBytes by decide)
      rw [← validOutcome_eq] at hvalid
      exact ⟨⟨⟨⟨⟨⟨hlength, hvalid⟩, rfl⟩, rfl⟩, rfl⟩, rfl⟩, rfl⟩

/-- One outcome vocabulary: the three recognisers agree on every text and accept exactly the written
ones, different outcomes are written differently, and a text can be sent, received, kept in a
checkpoint and loaded exactly when it is written. -/
theorem one_outcome_vocabulary : (∀ text, isValidOutcome text = Net.validOutcome text ∧
      validOutcome text = Net.validOutcome text ∧
      (Net.validOutcome text = true ↔ ∃ outcome, outcomeText outcome = text)) ∧
    Function.Injective outcomeText ∧
    (∀ outcome, (textBytes (outcomeText outcome)).length ≤ maxWireStringBytes) ∧
    (∀ text, checkOutcome text = .ok () ↔ ∃ outcome, outcomeText outcome = text) ∧
    Codes (fun text bytes ↦ (∃ outcome, outcomeText outcome = text) ∧ bytes = putText text)
      takeOutcome ∧
    (∀ record captured, record.outcome = some captured → (outcomeMatches record = true ↔
      resolution record.events = some captured ∧
        ∃ outcome, outcomeText outcome = captured.outcome)) ∧
    (∀ value actor target ability text damage,
      HistoryEvent.decode value = .ok (.actionResolved actor target ability text damage) →
        ∃ outcome, outcomeText outcome = text) ∧
    ∀ actor target ability outcome damage, EntityId.Issuable actor → EntityId.Issuable target →
      HistoryEvent.decode (HistoryEvent.encode
        (.actionResolved actor target ability (outcomeText outcome) damage)) =
        .ok (.actionResolved actor target ability (outcomeText outcome) damage) := by
  refine ⟨fun text ↦ ⟨?_, validOutcome_eq text, validOutcome_iff text⟩, outcomeText_injective,
    fun outcome ↦ ?_, fun text ↦ ?_, ?_, fun record captured ↦ outcomeMatches_iff,
    fun value actor target ability text damage hdecode ↦ ?_,
    fun actor target ability outcome damage hactor htarget ↦ ?_⟩
  · rw [Bool.eq_iff_iff, isValidOutcome_iff, validOutcome_iff]
  · have hvalid := (validOutcome_iff (outcomeText outcome)).mpr ⟨outcome, rfl⟩
    exact (length_of_validOutcome hvalid).trans (by decide)
  · exact checkOutcome_eq_ok_iff.trans (validOutcome_iff text)
  · exact codes_outcome.congr fun text bytes ↦ and_congr_left fun _ ↦ validOutcome_iff text
  · exact (isValidOutcome_iff text).mp (isValidOutcome_of_decode hdecode)
  · exact HistoryEvent.decode_encode ⟨hactor, htarget, outcomeText_valid outcome⟩

end Crpg.Server
