import Mathlib
import Immittance.Decimal.Style
import Immittance.Proofs.Decimal.Shortest

/-!
# Reading what is written

The text of digits, in every style and layout, is read as a numeral of the value that the digits
have. So the shortest text of a finite double is read as the double itself, with its sign.
-/

set_option autoImplicit false

namespace Immittance

open Text Decimal

def Reads (s : List Char) (k : ℕ) (p : ℤ) : Prop :=
  ∀ sign, IsSign sign → ∃ c e, read? (sign ++ s) = some ⟨sign == ['-'], c, e⟩ ∧
    (c : ℚ) * 10 ^ e = k * 10 ^ p

namespace Style

theorem reads_whole {ws x : List Char} {k : ℕ} {p e : ℤ} (hne : ws ≠ []) (hws : AllDigits ws)
    (hx : readExponent? x = some e) (hv : (digitsValue ws : ℚ) * 10 ^ e = k * 10 ^ p) :
    Reads (ws ++ x) k p := by
  intro sign hsign
  have hexp : IsExponent x := isExponent_iff.mpr (by simp [hx])
  refine ⟨_, _, ?_, hv⟩
  rw [read?_whole hsign hne hws hexp, hx]
  rfl

theorem reads_point {ws fs x : List Char} {k : ℕ} {p e : ℤ} (hne : ws ≠ [] ∨ fs ≠ [])
    (hws : AllDigits ws) (hfs : AllDigits fs) (hx : readExponent? x = some e)
    (hv : (digitsValue (ws ++ fs) : ℚ) * 10 ^ (e - fs.length) = k * 10 ^ p) :
    Reads (ws ++ '.' :: (fs ++ x)) k p := by
  intro sign hsign
  have hexp : IsExponent x := isExponent_iff.mpr (by simp [hx])
  refine ⟨_, _, ?_, hv⟩
  rw [read?_point hsign hne hws hfs hexp, hx]
  rfl

theorem allDigits_append {xs ys : List Char} (hx : AllDigits xs) (hy : AllDigits ys) :
    AllDigits (xs ++ ys) := by
  intro c hc
  rcases List.mem_append.mp hc with h | h
  · exact hx c h
  · exact hy c h

theorem value_zeros (k z : ℕ) :
    digitsValue (Nat.toDigits 10 k ++ List.replicate z '0') = k * 10 ^ z := by
  rw [digitsValue_append, digitsValue_zeros, digitsValue_toDigits, List.length_replicate]
  ring

theorem zeros_value (k z : ℕ) :
    digitsValue (List.replicate z '0' ++ Nat.toDigits 10 k) = k := by
  rw [digitsValue_append, digitsValue_zeros, digitsValue_toDigits]
  ring

theorem reads_padded (style : Style) (k z : ℕ) :
    Reads (Nat.toDigits 10 k ++ List.replicate z '0' ++
      (if style.wholePoint then ['.', '0'] else [])) k z := by
  have hds := allDigits_append (allDigits_toDigits k) (allDigits_zeros z)
  have hne : Nat.toDigits 10 k ++ List.replicate z '0' ≠ [] := by simp
  cases style.wholePoint with
  | true =>
    have hval : digitsValue (Nat.toDigits 10 k ++ List.replicate z '0' ++ ['0']) =
        k * 10 ^ (z + 1) := by
      rw [← value_zeros, List.replicate_succ', List.append_assoc]
    have hzero : AllDigits ['0'] := allDigits_zeros 1
    apply reads_point (x := []) (e := 0) (Or.inl hne) hds hzero rfl
    rw [hval]
    push_cast
    rw [zpow_natCast, pow_succ, mul_assoc, mul_assoc]
    norm_num
  | false =>
    apply reads_whole (e := 0) hne hds rfl
    rw [value_zeros]
    push_cast
    rw [zpow_natCast, mul_one]

theorem reads_cut (k : ℕ) {w : ℕ} (hw : 0 < w) (hlt : w ≤ digitCount k) {x : List Char} {e : ℤ}
    (hx : readExponent? x = some e) :
    Reads ((Nat.toDigits 10 k).take w ++ '.' :: ((Nat.toDigits 10 k).drop w ++ x)) k
      (e + w - digitCount k) := by
  have hds := allDigits_toDigits k
  have hlen : ((Nat.toDigits 10 k).drop w).length = digitCount k - w := List.length_drop
  have hne : (Nat.toDigits 10 k).take w ≠ [] := by simp [hw.ne']
  apply reads_point (Or.inl hne) (fun c hc => hds c (List.mem_of_mem_take hc))
    (fun c hc => hds c (List.mem_of_mem_drop hc)) hx
  rw [List.take_append_drop, digitsValue_toDigits, hlen]
  congr 2
  omega

theorem reads_positional (style : Style) (k : ℕ) (p : ℤ) :
    Reads (style.positional (Nat.toDigits 10 k) p) k (p - digitCount k + 1) := by
  have hds := allDigits_toDigits k
  have hlen : (Nat.toDigits 10 k).length = digitCount k := rfl
  rw [positional]
  by_cases hp : 0 ≤ p
  · rw [if_pos hp]
    dsimp only
    by_cases hle : (Nat.toDigits 10 k).length ≤ p.toNat + 1
    · rw [if_pos hle]
      have hz : p - digitCount k + 1 = (p.toNat + 1 - (Nat.toDigits 10 k).length : ℕ) := by omega
      rw [hz]
      exact reads_padded style k _
    · rw [if_neg hle]
      have hcut := reads_cut k (Nat.succ_pos p.toNat) (by omega) (x := []) (e := 0) rfl
      rw [List.append_nil] at hcut
      have he : (0 : ℤ) + (p.toNat.succ : ℕ) - digitCount k = p - digitCount k + 1 := by omega
      rwa [he] at hcut
  · rw [if_neg hp]
    have hfs := allDigits_append (allDigits_zeros ((-p).toNat - 1)) hds
    have hzero : AllDigits ['0'] := allDigits_zeros 1
    have hpoint := reads_point (x := []) (k := k) (p := p - digitCount k + 1)
      (Or.inl (by simp)) hzero hfs (e := 0) rfl (by
        rw [← List.append_assoc]
        show ((digitsValue (List.replicate ((-p).toNat - 1 + 1) '0' ++ Nat.toDigits 10 k) : ℕ) : ℚ) *
          _ = _
        rw [zeros_value, List.length_append, List.length_replicate, hlen]
        congr 2
        omega)
    rw [List.append_nil] at hpoint
    exact hpoint

theorem readExponent?_exponent (p : ℤ) (z : ℕ) :
    readExponent? ('e' :: (if p < 0 then '-' else '+') ::
      (List.replicate z '0' ++ Nat.toDigits 10 p.natAbs)) = some p := by
  have hds := allDigits_append (allDigits_zeros z) (allDigits_toDigits p.natAbs)
  have hne : List.replicate z '0' ++ Nat.toDigits 10 p.natAbs ≠ [] := by simp
  by_cases hp : p < 0
  · have hsign : IsSign ['-'] := by simp [IsSign]
    have h := readExponent?_mark (Or.inl rfl) hsign hne hds
    rw [zeros_value] at h
    rw [if_pos hp]
    refine h.trans (congrArg some ?_)
    show -(p.natAbs : ℤ) = p
    omega
  · have hsign : IsSign ['+'] := by simp [IsSign]
    have h := readExponent?_mark (Or.inl rfl) hsign hne hds
    rw [zeros_value] at h
    rw [if_neg hp]
    refine h.trans (congrArg some ?_)
    show (p.natAbs : ℤ) = p
    omega

theorem reads_exponential (k : ℕ) (p : ℤ) :
    Reads (exponential (Nat.toDigits 10 k) p) k (p - digitCount k + 1) := by
  have hx := readExponent?_exponent p (2 - (Nat.toDigits 10 p.natAbs).length)
  have hpos := digitCount_pos k
  have hlen : (Nat.toDigits 10 k).length = digitCount k := rfl
  rw [exponential]
  by_cases h1 : (Nat.toDigits 10 k).length ≤ 1
  · rw [if_pos h1, List.append_nil, List.take_of_length_le h1]
    apply reads_whole (by simp) (allDigits_toDigits k) hx
    rw [digitsValue_toDigits]
    congr 2
    omega
  · rw [if_neg h1]
    have hcut := reads_cut k one_pos hpos hx
    have he : p + (1 : ℕ) - digitCount k = p - digitCount k + 1 := by omega
    rw [he] at hcut
    simpa using hcut

theorem reads_write (style : Style) (d : Digits) :
    Reads (style.write d) d.coefficient d.place := by
  rw [write]
  split
  · exact reads_positional style d.coefficient d.power
  · exact reads_exponential d.coefficient d.power

end Style

/-! ## The shortest text -/

theorem isSign_sign (negative : Bool) : IsSign (if negative then ['-'] else []) := by
  cases negative <;> simp [IsSign]

theorem sign_eq (negative : Bool) : ((if negative then ['-'] else []) == ['-']) = negative := by
  cases negative <;> rfl

theorem toFloat_eq {x : Float} {negative : Bool} {m : ℕ} {e : ℤ}
    (hx : Binary.ofFloat x = .finite negative m e) {c : ℕ} {p : ℤ}
    (hc : Binary.ofFloat (nearest c p) = .finite false m e) : toFloat ⟨negative, c, p⟩ = x := by
  apply Binary.ofFloat_injective
  rw [hx]
  cases negative with
  | false => simpa only [toFloat, Bool.false_eq_true, if_false] using hc
  | true => simpa only [toFloat, if_true, Bool.not_false] using Binary.ofFloat_neg hc

theorem ofFloat_zero : Binary.ofFloat (Float.ofBits 0) = .finite false 0 (-1074) := by
  have h : Binary.ofFloat (Float.ofBits (0 : ℕ).toUInt64) = Binary.ofNat 0 :=
    Binary.ofFloat_ofBits (Nat.zero_le _)
  have h0 : Binary.ofNat 0 = .finite false 0 (-1074) := by simp [Binary.ofNat]
  exact h.trans h0

theorem pos_of_value {c k : ℕ} {e p : ℤ} (hk : 0 < k) (h : (c : ℚ) * 10 ^ e = k * 10 ^ p) :
    0 < c := by
  by_contra h0
  obtain rfl : c = 0 := by omega
  have hpos : (0 : ℚ) < k * 10 ^ p := by positivity
  rw [← h, Nat.cast_zero, zero_mul] at hpos
  exact lt_irrefl _ hpos

/-- The shortest text of a finite double is a numeral that denotes the double. -/
theorem read?_shortestText {x : Float} (hx : x.isFinite = true) :
    ∃ d, read? (shortestText x) = some d ∧ d.toFloat = x := by
  obtain ⟨negative, m, e, hb⟩ := Binary.isFinite_iff.mp hx
  rw [shortestText, Style.text, hb]
  dsimp only
  by_cases h0 : m = 0
  · subst h0
    obtain ⟨c, p, hread, hval⟩ := Style.reads_write ⟨-4, 16, true⟩ ⟨0, 0⟩ _ (isSign_sign negative)
    rw [sign_eq] at hread
    rw [if_pos rfl]
    refine ⟨_, hread, toFloat_eq hb ?_⟩
    have hc : c = 0 := by
      have hp : (10 : ℚ) ^ p ≠ 0 := by positivity
      simpa [hp] using hval
    rw [hc, Binary.exponent_of_zero hb, nearest, if_pos rfl]
    exact ofFloat_zero
  · rw [if_neg h0]
    have hm : 0 < m := Nat.pos_of_ne_zero h0
    have habs := Binary.ofFloat_abs hb
    obtain ⟨hn, hd⟩ := unscale_pos (by omega : 0 < 2) hm e
    obtain ⟨hpos, heq⟩ := Digits.shortest_denotes habs hm hn hd (unscale_value 2 m e)
    obtain ⟨c, p, hread, hval⟩ := Style.reads_write ⟨-4, 16, true⟩
      (Digits.shortest x.abs (unscale 2 m e).1 (unscale 2 m e).2) _ (isSign_sign negative)
    rw [sign_eq] at hread
    refine ⟨_, hread, toFloat_eq hb ?_⟩
    rw [nearest_congr (pos_of_value hpos hval) hpos hval, heq]
    exact habs

end Immittance
