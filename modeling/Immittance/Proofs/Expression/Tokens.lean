import Mathlib
import Immittance.Expression.Token
import Immittance.Proofs.Decimal.Denotation
import Immittance.Proofs.Text.Casing

/-!
# What tokens are read as

A token is told by its text alone: by the first colon, by what is blank, by the form of the literal and
the double that it denotes, and by the first letter of the kind. No letter beyond the basic ones has
an upper case that begins with the letter of a kind, so six letters name kinds.
-/

set_option autoImplicit false

namespace Immittance

open Text

/-! ## Kinds -/

namespace Kind

theorem exists_upperChar (k : Kind) (c : Char) :
    ∃ d t, upperChar c = d :: t ∧ (d = k.letter ↔ c.toUpper = k.letter) := by
  have hbasic : 0 < k.letter.toNat ∧ k.letter.toNat < 0x80 := by cases k <;> decide
  have hlong : upperLong.all (fun l => l.2.head?.any (Char.ofNat · != k.letter)) = true := by
    cases k <;> decide +kernel
  have hruns : upperRuns.all (fun r => r.last < 0x80 ∨ (k.letter.toNat : ℤ) < r.first + r.shift ∨
      r.last + r.shift < k.letter.toNat) = true := by
    cases k <;> decide +kernel
  by_cases hc : c.toNat < 0x80
  · rw [upperChar, if_pos hc]
    exact ⟨c.toUpper, [], rfl, Iff.rfl⟩
  · obtain ⟨d, t, hd, hne⟩ := mapCase_ne hbasic (not_lt.mp hc) hlong hruns
    have hck : c.toUpper ≠ k.letter := by
      rw [toUpper_of_le (not_lt.mp hc)]
      rintro rfl
      exact hc hbasic.2
    rw [upperChar, if_neg hc]
    exact ⟨d, t, hd, iff_of_false hne hck⟩

def letters : List Char := ['r', 'R', 'c', 'C', 'l', 'L']

inductive Named : List Char → Kind → Prop
  | letter {c : Char} {s : List Char} {k : Kind} (mem : c ∈ letters) (upper : c.toUpper = k.letter) :
      Named (c :: s) k
  | inductor {s : List Char} (spelled : upper s = "INDUCTOR".toList) : Named s inductor

theorem mem_letters_iff {c : Char} : c ∈ letters ↔ ∃ k : Kind, c.toUpper = k.letter := by
  constructor
  · intro h
    simp only [letters, List.mem_cons, List.not_mem_nil, or_false] at h
    rcases h with rfl | rfl | rfl | rfl | rfl | rfl
    · exact ⟨resistor, rfl⟩
    · exact ⟨resistor, rfl⟩
    · exact ⟨capacitor, rfl⟩
    · exact ⟨capacitor, rfl⟩
    · exact ⟨inductor, rfl⟩
    · exact ⟨inductor, rfl⟩
  · rintro ⟨k, hk⟩
    have hc : c.isAlpha = true := by
      rw [← Char.isAlpha_toUpper_eq_isAlpha, hk]
      cases k <;> rfl
    revert hk
    exact forall_isAlpha (P := fun c => c.toUpper = k.letter → c ∈ letters)
      (by cases k <;> decide +kernel) c hc

/-- In upper case the kind is told by the first letter, but for one word. -/
theorem ofWord?_eq_some_iff {word : List Char} (ht : trim word = word) {k : Kind} :
    ofWord? word = some k ↔
      (∃ t, upper word = k.letter :: t) ∨ upper word = "INDUCTOR".toList ∧ k = inductor := by
  have hname : "INDUCTOR".toList = ['I', 'N', 'D', 'U', 'C', 'T', 'O', 'R'] := rfl
  rw [ofWord?, ht, hname]
  generalize upper word = w
  by_cases hw : w = ['I', 'N', 'D', 'U', 'C', 'T', 'O', 'R']
  · subst hw
    cases k <;> simp [letter]
  · simp only [hw, if_false, false_and, or_false]
    split <;> cases k <;> simp_all [letter]

theorem ofWord?_eq_some_iff_named {word : List Char} (ht : trim word = word) {k : Kind} :
    ofWord? word = some k ↔ Named word k := by
  have hfirst : (∃ t, upper word = k.letter :: t) ↔
      ∃ c s, word = c :: s ∧ c.toUpper = k.letter := by
    cases word with
    | nil => simp [upper]
    | cons c s =>
      obtain ⟨d, t, hd, hiff⟩ := exists_upperChar k c
      simp [upper, hd, hiff]
  rw [ofWord?_eq_some_iff ht, hfirst]
  constructor
  · rintro (⟨c, s, rfl, hc⟩ | ⟨hs, rfl⟩)
    · exact .letter (mem_letters_iff.mpr ⟨k, hc⟩) hc
    · exact .inductor hs
  · rintro (⟨-, hc⟩ | hs)
    · exact Or.inl ⟨_, _, rfl, hc⟩
    · exact Or.inr ⟨hs, rfl⟩

/-- A word names no kind if it neither begins with one of the letters nor is spelled as the one word. -/
theorem ofWord?_eq_none_iff {word : List Char} (ht : trim word = word) : ofWord? word = none ↔
    (∀ c s, word = c :: s → c ∉ letters) ∧ upper word ≠ "INDUCTOR".toList := by
  have hnone : ofWord? word = none ↔ ∀ k, ¬Named word k := by
    rw [Option.eq_none_iff_forall_ne_some]
    exact forall_congr' fun k => not_congr (ofWord?_eq_some_iff_named ht)
  rw [hnone]
  constructor
  · refine fun h => ⟨fun c s hw hc => ?_, fun hs => h inductor (.inductor hs)⟩
    obtain ⟨k, hk⟩ := mem_letters_iff.mp hc
    exact h k (hw ▸ .letter hc hk)
  · rintro ⟨hletter, hname⟩ k (⟨hc, -⟩ | hs)
    · exact hletter _ _ rfl hc
    · exact hname hs

end Kind

namespace Token

open Decimal (IsLiteral Means)

/-! ## Values -/

/-- A value is a finite double that a literal denotes. -/
theorem value?_eq_some_iff {s : List Char} {x : Float} :
    value? s = some x ↔ Means s x ∧ x.isFinite = true := by
  rw [Decimal.means_iff, value?]
  cases Decimal.read? s with
  | none => simp
  | some d =>
    by_cases h : d.toFloat.isFinite = true
    · simp only [h, if_true, Option.some.injEq, exists_eq_left']
      exact ⟨fun hx => ⟨hx, hx ▸ h⟩, fun hx => hx.1⟩
    · simp only [h, Option.some.injEq, exists_eq_left']
      exact ⟨fun hx => (by cases hx), fun hx => absurd (hx.1 ▸ hx.2) h⟩

/-- A text has no value if it is no literal, or one that denotes an infinity. -/
theorem value?_eq_none_iff {s : List Char} :
    value? s = none ↔ ¬IsLiteral s ∨ ∃ x, Means s x ∧ x.isInf = true := by
  simp only [Option.eq_none_iff_forall_ne_some, ne_eq, value?_eq_some_iff]
  constructor
  · intro h
    rw [Decimal.isLiteral_iff_means, or_iff_not_imp_left, not_not]
    rintro ⟨x, hx⟩
    exact ⟨x, hx, hx.isInf_iff.mpr (Bool.eq_false_iff.mpr fun hf => h x ⟨hx, hf⟩)⟩
  · rintro (hl | ⟨y, hy, hinf⟩) x ⟨hx, hf⟩
    · exact hl (Decimal.isLiteral_iff_means.mpr ⟨x, hx⟩)
    · obtain rfl := hx.unique hy
      exact absurd (hx.isInf_iff.mp hinf) (by simp [hf])

/-! ## Faults in their order -/

structure Cut (token word number : List Char) : Prop where
  split : trim token = word ++ ':' :: number
  first : ':' ∉ word

/-- What can come of a token. Each case leaves out the ones before it. -/
inductive Outcome (token : List Char) : Except ParseError (Part Float) → Prop
  | empty (blank : trim token = []) : Outcome token (.error (Issue.tokenEmpty.error token []))
  | noSeparator (some : trim token ≠ []) (noColon : ':' ∉ trim token) :
      Outcome token (.error (Issue.tokenNoSeparator.error (trim token) [("token", trim token)]))
  | emptyKind {word number : List Char} (cut : Cut token word number) (blank : Blank word) :
      Outcome token (.error (Issue.tokenEmptyKind.error (trim token) [("token", trim token)]))
  | invalidNumber {word number : List Char} (cut : Cut token word number) (some : ¬Blank word)
      (invalid : ¬IsLiteral (trim number) ∨ ∃ x, Means (trim number) x ∧ x.isInf = true) :
      Outcome token
        (.error (Issue.tokenInvalidNumber.error (trim token) [("value", trim number)]))
  | unknownKind {word number : List Char} {x : Float} (cut : Cut token word number)
      (some : ¬Blank word) (value : Means (trim number) x) (finite : x.isFinite = true)
      (noLetter : ∀ c s, trim word = c :: s → c ∉ Kind.letters)
      (noName : upper (trim word) ≠ "INDUCTOR".toList) :
      Outcome token (.error (Issue.tokenUnknownKind.error (trim token) [("kind", trim word)]))
  | part {word number : List Char} {k : Kind} {x : Float} (cut : Cut token word number)
      (some : ¬Blank word) (value : Means (trim number) x) (finite : x.isFinite = true)
      (named : Kind.Named (trim word) k) : Outcome token (.ok ⟨k, x⟩)

theorem Outcome.total (token : List Char) : ∃ r, Outcome token r := by
  by_cases hs : trim token = []
  · exact ⟨_, .empty hs⟩
  by_cases hc : ':' ∈ trim token
  · obtain ⟨word, number, hfirst, hsplit⟩ := exists_first hc
    have hcut : Cut token word number := ⟨hsplit, hfirst⟩
    by_cases hw : Blank word
    · exact ⟨_, .emptyKind hcut hw⟩
    cases hv : value? (trim number) with
    | none => exact ⟨_, .invalidNumber hcut hw (value?_eq_none_iff.mp hv)⟩
    | some x =>
      obtain ⟨hx, hfinite⟩ := value?_eq_some_iff.mp hv
      cases hk : Kind.ofWord? (trim word) with
      | none =>
        obtain ⟨hletter, hname⟩ := (Kind.ofWord?_eq_none_iff (trim_trim word)).mp hk
        exact ⟨_, .unknownKind hcut hw hx hfinite hletter hname⟩
      | some k =>
        have hnamed := (Kind.ofWord?_eq_some_iff_named (trim_trim word)).mp hk
        exact ⟨_, .part hcut hw hx hfinite hnamed⟩
  · exact ⟨_, .noSeparator hs hc⟩

/-- A token with a colon is read on from the two texts around it. -/
theorem read_of_cut {token word number : List Char} (h : Cut token word number) :
    read token =
      if (trim word).isEmpty then
        .error (Issue.tokenEmptyKind.error (trim token) [("token", trim token)])
      else
        match value? (trim number) with
        | none => .error (Issue.tokenInvalidNumber.error (trim token) [("value", trim number)])
        | some x =>
          match Kind.ofWord? (trim word) with
          | none => .error (Issue.tokenUnknownKind.error (trim token) [("kind", trim word)])
          | some k => .ok ⟨k, x⟩ := by
  have hsome : (trim token).isEmpty = false := by simp [h.split]
  rewrite [read, hsome, if_neg Bool.false_ne_true, readTrimmed, h.split, dropWhile_ne h.first,
    takeWhile_ne h.first]
  rfl

theorem Outcome.read_eq {token : List Char} {r : Except ParseError (Part Float)}
    (h : Outcome token r) : read token = r := by
  have hkind : ∀ word : List Char, ¬Blank word → (trim word).isEmpty = false := fun word hw => by
    simpa [trim_eq_nil_iff] using hw
  cases h with
  | empty blank => simp [read, blank]
  | noSeparator some noColon => simp [read, readTrimmed, some, dropWhile_ne_eq_nil noColon]
  | emptyKind cut blank => rw [read_of_cut cut, trim_eq_nil_iff.mpr blank, List.isEmpty_nil, if_pos rfl]
  | invalidNumber cut some invalid =>
    rw [read_of_cut cut, hkind _ some, if_neg Bool.false_ne_true, value?_eq_none_iff.mpr invalid]
  | unknownKind cut some value finite noLetter noName =>
    rw [read_of_cut cut, hkind _ some, if_neg Bool.false_ne_true,
      value?_eq_some_iff.mpr ⟨value, finite⟩,
      (Kind.ofWord?_eq_none_iff (trim_trim _)).mpr ⟨noLetter, noName⟩]
  | part cut some value finite named =>
    rw [read_of_cut cut, hkind _ some, if_neg Bool.false_ne_true,
      value?_eq_some_iff.mpr ⟨value, finite⟩,
      (Kind.ofWord?_eq_some_iff_named (trim_trim _)).mpr named]

theorem read_eq_iff {token : List Char} {r : Except ParseError (Part Float)} :
    read token = r ↔ Outcome token r := by
  refine ⟨?_, Outcome.read_eq⟩
  rintro rfl
  obtain ⟨r, hr⟩ := Outcome.total token
  rwa [hr.read_eq]

/-- Every token comes to what its text says, and to nothing else. A part has a finite value and a kind,
whose letter is a word for it. -/
theorem read_classified (token : List Char) :
    (∀ r, read token = r ↔ Outcome token r) ∧
      ∀ p, read token = .ok p → p.value.isFinite = true ∧ (Spec.ofPart p).kind.isSome = true ∧
        Spec.ofWord (Spec.ofPart p).letter (Spec.ofPart p).value = Spec.ofPart p := by
  refine ⟨fun r => read_eq_iff, fun p hp => ?_⟩
  cases read_eq_iff.mp hp with
  | @part _ _ k x _ _ _ finite _ => exact ⟨finite, rfl, by cases k <;> rfl⟩

/-- A small letter without its dot is put into upper case as one of the basic letters. -/
theorem read_classified_dotless :
    let token := " ınductor :.5E+1".toList
    read token = .ok ⟨.inductor, 5⟩ ∧ Outcome token (.ok ⟨.inductor, 5⟩) ∧
      (5 : Float).isFinite = true ∧ Spec.ofWord ['L'] 5 = Spec.ofPart ⟨.inductor, 5⟩ := by
  intro token
  have hread : read token = .ok ⟨.inductor, 5⟩ := rfl
  obtain ⟨hiff, hpart⟩ := read_classified token
  obtain ⟨hfinite, -, hspec⟩ := hpart _ hread
  exact ⟨hread, (hiff _).mp hread, hfinite, hspec⟩

end Token

end Immittance
