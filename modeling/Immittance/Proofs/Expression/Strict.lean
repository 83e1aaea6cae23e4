import Mathlib
import Immittance.Expression.Parse
import Immittance.Proofs.Decimal.Literal
import Immittance.Proofs.Expression.Reading
import Immittance.Proofs.Text.Casing

/-!
# Reading with every step checked

Expressions are read once more with nothing taken for granted: a numeral is first compared with the
form of a literal and then read as a number, which may fail, and a specification whose kind is none of
the three is an issue of its own. Neither happens: the strict reading agrees with the other, and stops
only with its errors.
-/

set_option autoImplicit false

namespace Immittance.Expression

open Text

inductive Snag where
  | issue (e : ParseError)
  | notNumber (text : List Char)

def Matches (s : List Char) : Prop :=
  Decimal.IsLiteral s ∨ ∃ u, s = u ++ ['\n'] ∧ Decimal.IsLiteral u

open Classical in
noncomputable def number (token s : List Char) : Except Snag Float :=
  if Matches s then
    match Decimal.readFloat? s with
    | none => .error (.notNumber s)
    | some x =>
      if x.isFinite then .ok x
      else .error (.issue (Issue.tokenInvalidNumber.error token [("value", s)]))
  else .error (.issue (Issue.tokenInvalidNumber.error token [("value", s)]))

noncomputable def specification (s : List Char) : Except Snag Spec :=
  match s.dropWhile (· != ':') with
  | [] => .error (.issue (Issue.tokenNoSeparator.error s [("token", s)]))
  | _ :: after =>
    let word := trim (s.takeWhile (· != ':'))
    if word.isEmpty then .error (.issue (Issue.tokenEmptyKind.error s [("token", s)]))
    else do
      let x ← number s (trim after)
      match Kind.ofWord? word with
      | none => .error (.issue (Issue.tokenUnknownKind.error s [("kind", word)]))
      | some k => return Spec.ofWord [k.letter] x

noncomputable def leaf (token : List Char) : Except Snag (Part Float) :=
  if (trim token).isEmpty then .error (.issue (Issue.tokenEmpty.error token []))
  else do
    let spec ← specification (trim token)
    if spec.kind = some .resistor then return ⟨.resistor, spec.value⟩
    else if spec.kind = some .capacitor then return ⟨.capacitor, spec.value⟩
    else if spec.kind = some .inductor then return ⟨.inductor, spec.value⟩
    else .error (.issue (Issue.tokenUnknownSpec.error token [("token", token)]))

noncomputable def strictParse (s : List Char) : Except Snag (Circuit Float) :=
  match _h : Shape.of s with
  | .error e => .error (.issue e)
  | .ok (.token t) => (leaf t).map .part
  | .ok (.group w members) => do
    let circuits ← members.attach.mapM fun m => strictParse m.1
    return .group w circuits
termination_by s.length
decreasing_by exact Shape.length_lt _h m.2

/-! ## Numbers -/

theorem toLower_digit {c : Char} (hc : isDigit c = true) : c.toLower = c := by
  refine recasing_toLower.eq_self (Bool.eq_false_iff.mpr fun halpha => ?_)
  rw [isDigit, digitValue?_of_isAlpha c halpha] at hc
  cases hc

theorem nonFinite?_of_head {c : Char} (t : List Char) (hc : isDigit c = true ∨ c = '.') :
    Decimal.nonFinite? (c :: t) = none := by
  have hlow : c.toLower = c := by
    rcases hc with h | rfl
    · exact toLower_digit h
    · rfl
  have hi : c ≠ 'i' := by
    rintro rfl
    revert hc
    decide
  have hn : c ≠ 'n' := by
    rintro rfl
    revert hc
    decide
  simp [Decimal.nonFinite?, hlow, hi, hn]

theorem nonFinite?_of_mantissa {m : List Char} (hm : Decimal.IsMantissa m) (x : List Char) :
    Decimal.nonFinite? (m ++ x) = none := by
  cases hm with
  | whole hne hws =>
    obtain ⟨c, t, rfl⟩ := List.exists_cons_of_ne_nil hne
    exact nonFinite?_of_head _ (Or.inl (hws c (by simp)))
  | @point ws fs _ hws _ =>
    cases ws with
    | nil => exact nonFinite?_of_head _ (Or.inr rfl)
    | cons c t => exact nonFinite?_of_head _ (Or.inl (hws c (by simp)))

theorem unsigned_mantissa {m x : List Char} (hm : Decimal.IsMantissa m)
    (hx : Decimal.IsExponent x) : Decimal.Unsigned (m ++ x) := by
  cases hm with
  | whole hne hws => exact Decimal.unsigned_append hws (Decimal.unsigned_exponent hx)
  | point _ hws _ =>
    rw [List.append_assoc]
    exact Decimal.unsigned_append hws fun t => by simp

theorem readFloat?_of_literal {s : List Char} (h : Decimal.IsLiteral s) (ht : trim s = s) :
    Decimal.readFloat? s = (Decimal.read? s).map Decimal.toFloat := by
  obtain ⟨sign, m, x, hsign, hm, hx, rfl⟩ := h
  rw [Decimal.readFloat?, ht, Decimal.splitSign_append hsign (unsigned_mantissa hm hx)]
  simp only [nonFinite?_of_mantissa hm x]

theorem matches_trim_iff {s : List Char} (ht : trim s = s) : Matches s ↔ Decimal.IsLiteral s := by
  refine ⟨fun h => ?_, Or.inl⟩
  rcases h with h | ⟨u, rfl, -⟩
  · exact h
  · rw [trim_append_blank (by simp [Blank, isBlank, blanks])] at ht
    have := congrArg List.length ht
    have hle := length_trim_le u
    rw [List.length_append, List.length_singleton] at this
    omega

/-- A number is read where the value of a token is, and no literal is read as no number. -/
theorem number_eq (token : List Char) {s : List Char} (ht : trim s = s) :
    number token s =
      match Token.value? s with
      | none => .error (.issue (Issue.tokenInvalidNumber.error token [("value", s)]))
      | some x => .ok x := by
  rw [number, Token.value?]
  by_cases h : Decimal.IsLiteral s
  · obtain ⟨d, hd⟩ := Option.isSome_iff_exists.mp (Decimal.read?_isSome_iff.mpr h)
    rw [if_pos ((matches_trim_iff ht).mpr h), readFloat?_of_literal h ht, hd]
    simp only [Option.map_some]
    cases d.toFloat.isFinite <;> rfl
  · have hd : Decimal.read? s = none := by
      rw [← Option.not_isSome_iff_eq_none, Decimal.read?_isSome_iff]
      exact h
    rw [if_neg (fun k => h ((matches_trim_iff ht).mp k)), hd]

/-! ## Agreement -/

theorem leaf_eq (token : List Char) : leaf token = (Token.read token).mapError Snag.issue := by
  rw [leaf, Token.read]
  by_cases hb : (trim token).isEmpty = true
  · simp only [hb, if_true]
    rfl
  · simp only [hb, Bool.false_eq_true, if_false]
    rw [specification, Token.readTrimmed]
    cases hcut : (trim token).dropWhile (· != ':') with
    | nil => rfl
    | cons c after =>
      dsimp only
      by_cases hw : (trim ((trim token).takeWhile (· != ':'))).isEmpty = true
      · simp only [hw, if_true]
        rfl
      · simp only [hw, Bool.false_eq_true, if_false]
        rw [number_eq _ (trim_trim after)]
        cases Token.value? (trim after) with
        | none => rfl
        | some x =>
          cases Kind.ofWord? (trim ((trim token).takeWhile (· != ':'))) with
          | none => rfl
          | some k => cases k <;> rfl

theorem strictParse_of_token {s x : List Char} (h : Shape.of s = .ok (.token x)) :
    strictParse s = (leaf x).map .part := by
  rw [strictParse]
  split <;> simp_all

theorem strictParse_of_error {s : List Char} {e : ParseError} (h : Shape.of s = .error e) :
    strictParse s = .error (.issue e) := by
  rw [strictParse]
  split <;> simp_all

theorem strictParse_of_group {s : List Char} {w : Wiring} {ms : List (List Char)}
    (h : Shape.of s = .ok (.group w ms)) :
    strictParse s = (ms.mapM strictParse).map (.group w) := by
  rw [strictParse]
  split
  · simp_all
  · simp_all
  · next v members hshape =>
    obtain ⟨rfl, rfl⟩ : v = w ∧ members = ms := by simpa [hshape] using h
    rw [List.mapM_subtype (g := strictParse) (fun _ _ => rfl), List.unattach_attach]
    cases members.mapM strictParse <;> rfl

/-- The strict reading gives the same circuits and stops with the same errors. -/
theorem strictParse_eq (s : List Char) : strictParse s = (parse s).mapError Snag.issue := by
  induction s using parse.induct with
  | case1 s e hs =>
    rw [strictParse_of_error hs, parse_of_error hs]
    rfl
  | case2 s x hs =>
    rw [strictParse_of_token hs, parse_of_token hs, leaf_eq]
    cases Token.read x <;> rfl
  | case3 s w ms hs ih =>
    have hms : ms.mapM strictParse = (ms.mapM parse).mapError Snag.issue :=
      mapM_mapError fun m hm => ih ⟨m, hm⟩
    rw [strictParse_of_group hs, parse_of_group hs, hms]
    cases ms.mapM parse <;> rfl

end Immittance.Expression
