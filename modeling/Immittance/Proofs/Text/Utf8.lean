import Mathlib
import Immittance.Proofs.Results
import Immittance.Text.Utf8

/-!
# Decoding gives back what was encoded

Bytes are decoded to a text exactly if they are the text's UTF-8 form. Where the blocks end does not
show: a sequence that is cut short waits, and is decoded with the next block as if it had been whole.
-/

set_option autoImplicit false

namespace Immittance.Text

def charBytes (c : Char) : List ℕ := (String.utf8EncodeChar c).map UInt8.toNat

def utf8Bytes (cs : List Char) : List ℕ := cs.flatMap charBytes

/-! ## The bytes of a character -/

theorem charBytes_eq (c : Char) :
    charBytes c =
      if c.toNat < 0x80 then [c.toNat]
      else if c.toNat < 0x800 then [0xc0 + c.toNat / 64, 0x80 + c.toNat % 64]
      else if c.toNat < 0x10000 then
        [0xe0 + c.toNat / 4096, 0x80 + c.toNat / 64 % 64, 0x80 + c.toNat % 64]
      else
        [0xf0 + c.toNat / 262144, 0x80 + c.toNat / 4096 % 64, 0x80 + c.toNat / 64 % 64,
          0x80 + c.toNat % 64] := by
  have hc : c.val.toNat = c.toNat := rfl
  have hlt : c.toNat < 0x110000 := by
    rcases c.valid with h | h <;> simp only [UInt32.toNat] at * <;> omega
  rw [charBytes, String.utf8EncodeChar]
  split_ifs <;> simp only [List.map_cons, List.map_nil, UInt8.toNat_ofNat', hc] at * <;> grind

theorem charBytes_ne_nil (c : Char) : charBytes c ≠ [] := by
  rw [charBytes_eq]
  split_ifs <;> simp

theorem toNat_cases (c : Char) : c.toNat < 0xd800 ∨ 0xe000 ≤ c.toNat ∧ c.toNat < 0x110000 := by
  rcases c.valid with h | h
  · exact Or.inl h
  · exact Or.inr ⟨Nat.lt_of_succ_le h.1, h.2⟩

theorem toNat_ofNat {n : ℕ} (h : n < 0xd800 ∨ 0xe000 ≤ n ∧ n < 0x110000) :
    (Char.ofNat n).toNat = n := by
  have hn : n.isValidChar := by
    rcases h with h | ⟨h, k⟩
    · exact Or.inl h
    · exact Or.inr ⟨by omega, k⟩
  rw [Char.toNat_ofNat, if_pos hn]

/-! ## One character -/

theorem isContinuation_iff {b : ℕ} : isContinuation b = true ↔ 0x80 ≤ b ∧ b < 0xc0 := by
  simp [isContinuation]

theorem canFollow_iff {a b : ℕ} :
    canFollow a b = true ↔ (0x80 ≤ b ∧ b < 0xc0) ∧ (a = 0xe0 → 0xa0 ≤ b) ∧ (a = 0xed → b < 0xa0) ∧
      (a = 0xf0 → 0x90 ≤ b) ∧ (a = 0xf4 → b < 0x90) := by
  simp [canFollow, isContinuation_iff]
  grind

theorem decodeFirst_two {a : ℕ} (h : 0xc2 ≤ a ∧ a < 0xe0) (bs : List ℕ) :
    decodeFirst a bs = decodeTwo a bs := by
  rw [decodeFirst, if_neg (by omega), if_pos h]

theorem decodeFirst_three {a : ℕ} (h : 0xe0 ≤ a ∧ a < 0xf0) (bs : List ℕ) :
    decodeFirst a bs = decodeThree a bs := by
  rw [decodeFirst, if_neg (by omega), if_neg (by omega), if_pos h]

theorem decodeFirst_four {a : ℕ} (h : 0xf0 ≤ a ∧ a < 0xf5) (bs : List ℕ) :
    decodeFirst a bs = decodeFour a bs := by
  rw [decodeFirst, if_neg (by omega), if_neg (by omega), if_neg (by omega), if_pos h]

theorem canFollow_three {c : Char} (h : 0x800 ≤ c.toNat) (hlt : c.toNat < 0x10000) :
    canFollow (0xe0 + c.toNat / 4096) (0x80 + c.toNat / 64 % 64) = true := by
  have := toNat_cases c
  exact canFollow_iff.mpr (by omega)

theorem canFollow_four {c : Char} (h : 0x10000 ≤ c.toNat) :
    canFollow (0xf0 + c.toNat / 262144) (0x80 + c.toNat / 4096 % 64) = true := by
  have := toNat_cases c
  exact canFollow_iff.mpr (by omega)

theorem isContinuation_low (n : ℕ) : isContinuation (0x80 + n % 64) = true :=
  isContinuation_iff.mpr (by omega)

/-- A character is decoded from its bytes, whatever follows them. -/
theorem decodeFirst_charBytes {c : Char} {a : ℕ} {s : List ℕ} (h : charBytes c = a :: s)
    (rest : List ℕ) : decodeFirst a (s ++ rest) = .char c rest := by
  have hc := toNat_cases c
  have hself : ∀ m, m = c.toNat → Decoded.char (Char.ofNat m) rest = .char c rest := by
    rintro m rfl
    rw [Char.ofNat_toNat]
  rw [charBytes_eq] at h
  split_ifs at h with h1 h2 h3 <;> cases h
  · rw [decodeFirst, if_pos h1, List.nil_append]
    exact hself _ rfl
  · rw [decodeFirst_two (by omega), List.cons_append, List.nil_append, decodeTwo,
      if_pos (isContinuation_low _)]
    exact hself _ (by omega)
  · rw [decodeFirst_three (by omega)]
    simp only [List.cons_append, List.nil_append, decodeThree, canFollow_three (not_lt.mp h2) h3,
      isContinuation_low, Bool.not_true, Bool.false_eq_true, if_false, if_true]
    exact hself _ (by omega)
  · rw [decodeFirst_four (by omega)]
    simp only [List.cons_append, List.nil_append, decodeFour, canFollow_four (not_lt.mp h3),
      isContinuation_low, Bool.not_true, Bool.false_eq_true, if_false, if_true]
    exact hself _ (by omega)

/-- Bytes that break off inside of a character may yet be completed. -/
theorem decodeFirst_of_cut {c : Char} {a : ℕ} {s t : List ℕ} (h : charBytes c = a :: s ++ t)
    (ht : t ≠ []) : decodeFirst a s = .partly := by
  have hc := toNat_cases c
  -- something is missing, so there are fewer bytes than the character has
  have hlength := congrArg List.length h
  have hpos := List.length_pos_of_ne_nil ht
  rw [List.length_append, List.length_cons] at hlength
  rw [charBytes_eq] at h hlength
  split_ifs at h hlength with h1 h2 h3 <;> simp only [List.length_cons, List.length_nil] at hlength
    <;> obtain ⟨rfl, htail⟩ := List.cons.inj h
  · omega
  · rw [decodeFirst_two (by omega)]
    match s, htail with
    | [], _ => rfl
    | _ :: _, _ =>
      simp only [List.length_cons] at hlength
      omega
  · rw [decodeFirst_three (by omega)]
    match s, htail with
    | [], _ => rfl
    | [b], htail =>
      obtain ⟨rfl, _⟩ := List.cons.inj htail
      simp only [decodeThree, canFollow_three (not_lt.mp h2) h3, Bool.not_true, Bool.false_eq_true,
        if_false]
    | _ :: _ :: _, _ =>
      simp only [List.length_cons] at hlength
      omega
  · rw [decodeFirst_four (by omega)]
    match s, htail with
    | [], _ => rfl
    | [b], htail =>
      obtain ⟨rfl, _⟩ := List.cons.inj htail
      simp only [decodeFour, canFollow_four (not_lt.mp h3), Bool.not_true, Bool.false_eq_true,
        if_false]
    | [b, d], htail =>
      obtain ⟨rfl, hlast⟩ := List.cons.inj htail
      obtain ⟨rfl, _⟩ := List.cons.inj hlast
      simp only [decodeFour, canFollow_four (not_lt.mp h3), isContinuation_low, Bool.not_true,
        Bool.false_eq_true, if_false]
    | _ :: _ :: _ :: _, _ =>
      simp only [List.length_cons] at hlength
      omega

theorem charBytes_of_decodeTwo {c : Char} {a : ℕ} {bs rest : List ℕ} (ha : 0xc2 ≤ a ∧ a < 0xe0)
    (h : decodeTwo a bs = .char c rest) : a :: bs = charBytes c ++ rest := by
  match bs, h with
  | b :: bs, h =>
    simp only [decodeTwo] at h
    split_ifs at h with hb
    rw [isContinuation_iff] at hb
    simp only [Decoded.char.injEq] at h
    obtain ⟨rfl, rfl⟩ := h
    rw [charBytes_eq, toNat_ofNat (by omega), if_neg (by omega), if_pos (by omega)]
    simp only [List.cons_append, List.nil_append, List.cons.injEq, and_true]
    omega

theorem charBytes_of_decodeThree {c : Char} {a : ℕ} {bs rest : List ℕ} (ha : 0xe0 ≤ a ∧ a < 0xf0)
    (h : decodeThree a bs = .char c rest) : a :: bs = charBytes c ++ rest := by
  match bs, h with
  | [b], h =>
    simp only [decodeThree] at h
    split_ifs at h
  | b :: d :: bs, h =>
    simp only [decodeThree] at h
    split_ifs at h with hb hd
    rw [isContinuation_iff] at hd
    rw [Bool.not_eq_true', Bool.not_eq_false, canFollow_iff] at hb
    simp only [Decoded.char.injEq] at h
    obtain ⟨rfl, rfl⟩ := h
    rw [charBytes_eq, toNat_ofNat (by omega), if_neg (by omega), if_neg (by omega),
      if_pos (by omega)]
    simp only [List.cons_append, List.nil_append, List.cons.injEq, and_true]
    omega

theorem charBytes_of_decodeFour {c : Char} {a : ℕ} {bs rest : List ℕ} (ha : 0xf0 ≤ a ∧ a < 0xf5)
    (h : decodeFour a bs = .char c rest) : a :: bs = charBytes c ++ rest := by
  match bs, h with
  | [b], h =>
    simp only [decodeFour] at h
    split_ifs at h
  | [b, d], h =>
    simp only [decodeFour] at h
    split_ifs at h
  | b :: d :: e :: bs, h =>
    simp only [decodeFour] at h
    split_ifs at h with hb hd he
    rw [isContinuation_iff] at he
    rw [Bool.not_eq_true', Bool.not_eq_false, isContinuation_iff] at hd
    rw [Bool.not_eq_true', Bool.not_eq_false, canFollow_iff] at hb
    simp only [Decoded.char.injEq] at h
    obtain ⟨rfl, rfl⟩ := h
    rw [charBytes_eq, toNat_ofNat (by omega), if_neg (by omega), if_neg (by omega),
      if_neg (by omega)]
    simp only [List.cons_append, List.nil_append, List.cons.injEq, and_true]
    omega

theorem charBytes_of_decodeFirst {c : Char} {a : ℕ} {bs rest : List ℕ}
    (h : decodeFirst a bs = .char c rest) : a :: bs = charBytes c ++ rest := by
  rw [decodeFirst] at h
  split_ifs at h with h1 h2 h3 h4
  · simp only [Decoded.char.injEq] at h
    obtain ⟨rfl, rfl⟩ := h
    rw [charBytes_eq, toNat_ofNat (by omega), if_pos h1]
    rfl
  · exact charBytes_of_decodeTwo h2 h
  · exact charBytes_of_decodeThree h3 h
  · exact charBytes_of_decodeFour h4 h

theorem decodeFirst_eq_char_iff {c : Char} {a : ℕ} {bs rest : List ℕ} :
    decodeFirst a bs = .char c rest ↔ a :: bs = charBytes c ++ rest := by
  refine ⟨charBytes_of_decodeFirst, fun h => ?_⟩
  cases hc : charBytes c with
  | nil => exact absurd hc (charBytes_ne_nil c)
  | cons b s =>
    rw [hc, List.cons_append] at h
    obtain ⟨rfl, rfl⟩ := List.cons.inj h
    exact decodeFirst_charBytes hc rest

/-! ## Texts -/

theorem utf8Bytes_cons (c : Char) (cs : List Char) :
    utf8Bytes (c :: cs) = charBytes c ++ utf8Bytes cs :=
  List.flatMap_cons

theorem utf8Bytes_append (cs ds : List Char) :
    utf8Bytes (cs ++ ds) = utf8Bytes cs ++ utf8Bytes ds :=
  List.flatMap_append

theorem charBytes_append_inj {c d : Char} {s t : List ℕ} (h : charBytes c ++ s = charBytes d ++ t) :
    c = d ∧ s = t := by
  cases hc : charBytes c with
  | nil => exact absurd hc (charBytes_ne_nil c)
  | cons a r =>
    have hchar := decodeFirst_charBytes hc s
    rw [hc, List.cons_append] at h
    exact Decoded.char.inj (hchar.symm.trans (decodeFirst_eq_char_iff.mpr h))

theorem exists_of_utf8Bytes_eq_append {cs ds : List Char} {rest : List ℕ}
    (h : utf8Bytes ds = utf8Bytes cs ++ rest) : ∃ es, ds = cs ++ es ∧ rest = utf8Bytes es := by
  induction cs generalizing ds with
  | nil => exact ⟨ds, rfl, h.symm⟩
  | cons c cs ih =>
    rw [utf8Bytes_cons, List.append_assoc] at h
    cases ds with
    | nil => exact absurd (List.append_eq_nil_iff.mp h.symm).1 (charBytes_ne_nil c)
    | cons d ds =>
      rw [utf8Bytes_cons] at h
      obtain ⟨rfl, hds⟩ := charBytes_append_inj h
      obtain ⟨es, rfl, hes⟩ := ih hds
      exact ⟨es, rfl, hes⟩

/-! ## Blocks -/

def Waits : List ℕ → Prop
  | [] => True
  | a :: rest => decodeFirst a rest = .partly

theorem eq_nil_of_waits {cs : List Char} (h : Waits (utf8Bytes cs)) : cs = [] := by
  cases cs with
  | nil => rfl
  | cons c cs =>
    rw [utf8Bytes_cons] at h
    cases hc : charBytes c with
    | nil => exact absurd hc (charBytes_ne_nil c)
    | cons a s =>
      rw [hc, List.cons_append, Waits, decodeFirst_charBytes hc] at h
      cases h

/-- A block is decoded to characters whose bytes it begins with, and the others wait. -/
theorem decodeBlock_eq_ok {fuel position : ℕ} {done done' : List Char} {bytes carried : List ℕ}
    (hfuel : bytes.length ≤ fuel)
    (h : decodeBlock fuel position done bytes = .ok (done', carried)) :
    ∃ cs, done' = cs.reverse ++ done ∧ bytes = utf8Bytes cs ++ carried ∧ Waits carried := by
  induction fuel generalizing position done bytes with
  | zero =>
    obtain rfl := List.eq_nil_of_length_eq_zero (Nat.le_zero.mp hfuel)
    rw [decodeBlock] at h
    cases h
    exact ⟨[], rfl, rfl, trivial⟩
  | succ fuel ih =>
    cases bytes with
    | nil =>
      rw [decodeBlock] at h
      cases h
      exact ⟨[], rfl, rfl, trivial⟩
    | cons a rest =>
      rw [decodeBlock] at h
      cases hd : decodeFirst a rest with
      | char c r =>
        rw [hd] at h
        have hbytes := charBytes_of_decodeFirst hd
        have hlength := congrArg List.length hbytes
        have := List.length_pos_of_ne_nil (charBytes_ne_nil c)
        rw [List.length_append] at hlength
        obtain ⟨cs, rfl, rfl, hwaits⟩ := ih (by omega) h
        refine ⟨c :: cs, by simp, ?_, hwaits⟩
        rw [hbytes, utf8Bytes_cons, List.append_assoc]
      | fault reason count =>
        rw [hd] at h
        cases h
      | partly =>
        rw [hd] at h
        cases h
        exact ⟨[], rfl, rfl, hd⟩

/-- The beginning of a text's bytes is a block without a fault, wherever it ends. -/
theorem exists_decodeBlock {fuel position : ℕ} {done cs : List Char} {bytes more : List ℕ}
    (h : bytes ++ more = utf8Bytes cs) : ∃ r, decodeBlock fuel position done bytes = .ok r := by
  induction fuel generalizing position done bytes cs with
  | zero => cases bytes <;> exact ⟨_, rfl⟩
  | succ fuel ih =>
    cases bytes with
    | nil => exact ⟨_, rfl⟩
    | cons a rest =>
      cases cs with
      | nil => cases h
      | cons c cs =>
        rw [utf8Bytes_cons] at h
        rw [decodeBlock]
        rcases List.append_eq_append_iff.mp h with ⟨t, hc, ht⟩ | ⟨t, hbytes, ht⟩
        · by_cases hnil : t = []
          · subst hnil
            rw [List.append_nil] at hc
            have hd := decodeFirst_charBytes hc []
            rw [List.append_nil] at hd
            rw [hd]
            exact ih ht
          · rw [decodeFirst_of_cut hc hnil]
            exact ⟨_, rfl⟩
        · rw [decodeFirst_eq_char_iff.mpr hbytes]
          exact ih ht.symm

theorem decodeBlocks_eq_ok_iff {fuel : ℕ} {done cs : List Char} {carried bytes : List ℕ}
    (hfuel : bytes.length < fuel) (hwaits : Waits carried) :
    decodeBlocks fuel done carried bytes = .ok cs ↔
      ∃ ds, cs = done.reverse ++ ds ∧ carried ++ bytes = utf8Bytes ds := by
  induction fuel generalizing done carried bytes with
  | zero => omega
  | succ fuel ih =>
    cases bytes with
    | nil =>
      rw [List.append_nil]
      cases carried with
      | nil =>
        constructor
        · intro h
          cases h
          exact ⟨[], by simp, rfl⟩
        · rintro ⟨ds, rfl, hds⟩
          rw [hds] at hwaits
          obtain rfl := eq_nil_of_waits hwaits
          rw [List.append_nil]
          rfl
      | cons a rest =>
        refine ⟨nofun, ?_⟩
        rintro ⟨ds, _, hds⟩
        rw [hds] at hwaits
        obtain rfl := eq_nil_of_waits hwaits
        cases hds
    | cons b bs =>
      have hdrop : ((b :: bs).drop blockSize).length < fuel := by
        rw [List.length_drop, blockSize]
        rw [List.length_cons] at hfuel ⊢
        omega
      have hdata : carried ++ b :: bs =
          (carried ++ (b :: bs).take blockSize) ++ (b :: bs).drop blockSize := by
        rw [List.append_assoc, List.take_append_drop]
      rw [decodeBlocks, hdata, bind_eq_ok_iff]
      constructor
      · rintro ⟨⟨done', carried'⟩, hblock, h⟩
        obtain ⟨es, rfl, hes, hwaits'⟩ := decodeBlock_eq_ok le_rfl hblock
        obtain ⟨ds, rfl, hds⟩ := (ih hdrop hwaits').mp h
        refine ⟨es ++ ds, by simp, ?_⟩
        rw [hes, utf8Bytes_append, ← hds, List.append_assoc]
      · rintro ⟨ds, rfl, hds⟩
        -- the block has no fault; what it was decoded to begins the text, and the rest of the bytes
        -- are those of the rest of the text
        obtain ⟨⟨done', carried'⟩, hblock⟩ := exists_decodeBlock hds
        obtain ⟨es, rfl, hes, hwaits'⟩ := decodeBlock_eq_ok le_rfl hblock
        rw [hes, List.append_assoc] at hds
        obtain ⟨fs, rfl, hfs⟩ := exists_of_utf8Bytes_eq_append hds.symm
        refine ⟨_, hblock, (ih hdrop hwaits').mpr ⟨fs, by simp, hfs⟩⟩
      · exact nofun

theorem decodeUtf8_eq_ok_iff {bytes : List ℕ} {cs : List Char} :
    decodeUtf8 bytes = .ok cs ↔ bytes = utf8Bytes cs := by
  have hnone : Waits [] := trivial
  rw [decodeUtf8, decodeBlocks_eq_ok_iff (Nat.lt_succ_self _) hnone]
  simp

end Immittance.Text
