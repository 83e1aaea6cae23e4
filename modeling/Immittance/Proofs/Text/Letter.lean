import Mathlib
import Immittance.Text.Letter

/-!
# Texts of letters

A text of letters is the text of some characters exactly if all its letters are characters, and it is
then the text of no others. For characters themselves the order of texts is that of their codes.
-/

set_option autoImplicit false

namespace Immittance.Letter

variable {α : Type} [Letter α]

theorem ofChar_injective : Function.Injective (ofChar : Char → α) := by
  intro c d h
  have hcode := congrArg code h
  rw [code_ofChar, code_ofChar] at hcode
  exact Char.ext (UInt32.toNat_inj.mp hcode)

theorem spell_injective : Function.Injective (spell : List Char → List α) :=
  List.map_injective_iff.mpr ofChar_injective

theorem spell_inj {s t : List Char} : (spell s : List α) = spell t ↔ s = t :=
  spell_injective.eq_iff

theorem char?_ofChar (c : Char) : char? (ofChar c : α) = some c := by
  have hvalid : c.toNat.isValidChar := c.valid
  rw [char?, code_ofChar, if_pos hvalid, Char.ofNat_toNat]

theorem eq_ofChar_of_char? {a : α} {c : Char} (h : char? a = some c) : a = ofChar c := by
  rw [char?] at h
  split at h
  · next hvalid =>
    apply code_injective
    rw [code_ofChar, ← Option.some.inj h, Char.toNat_ofNat, if_pos hvalid]
  · cases h

theorem mapM_char?_eq_some_iff {s : List α} {cs : List Char} :
    s.mapM char? = some cs ↔ s = spell cs := by
  induction s generalizing cs with
  | nil => cases cs <;> simp [spell]
  | cons a s ih =>
    rw [List.mapM_cons]
    constructor
    · intro h
      obtain ⟨c, hc, h⟩ := Option.bind_eq_some_iff.mp h
      obtain ⟨ds, hds, h⟩ := Option.bind_eq_some_iff.mp h
      obtain rfl := Option.some.inj h
      rw [eq_ofChar_of_char? hc, ih.mp hds]
      rfl
    · intro h
      cases cs with
      | nil => cases h
      | cons c ds =>
        obtain ⟨rfl, rfl⟩ := List.cons.inj h
        rw [char?_ofChar, ih.mpr rfl]
        rfl

theorem same_iff {s t : List α} : same s t = true ↔ s = t := by
  have hcode : Function.Injective (code : α → ℕ) := fun _ _ => code_injective
  rw [same, beq_iff_eq, (List.map_injective_iff.mpr hcode).eq_iff]

/-! ## Characters -/

theorem spell_char (s : List Char) : (spell s : List Char) = s := List.map_id s

theorem word_char (s : String) : (word s : List Char) = s.toList := spell_char s.toList

theorem before_char {s t : List Char} : before s t = true ↔ s < t := by
  rw [before, decide_eq_true_eq]
  induction s generalizing t with
  | nil => cases t <;> simp
  | cons a s ih =>
    cases t with
    | nil => simp
    | cons b t =>
      have hlt : (code a : ℕ) < code b ↔ a < b := Iff.rfl
      have heq : (code a : ℕ) = code b ↔ a = b := ⟨code_injective, congrArg code⟩
      rw [List.map_cons, List.map_cons, List.cons_lt_cons_iff, List.cons_lt_cons_iff, ih, hlt, heq]

end Immittance.Letter
