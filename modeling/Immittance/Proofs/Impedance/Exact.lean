import Mathlib
import Immittance.Proofs.Impedance.Group

/-!
# Networks in exact arithmetic

With fractions for numbers the impedances of a circuit are complex numbers: in series they add, in
parallel their inverses do. So the order of the members of a group makes no difference, and a group
inside of one of its own wiring may be dissolved.
-/

set_option autoImplicit false

namespace Immittance

instance : Scalar ℚ where
  zero := 0
  one := 1
  twoPi := 7074237752028440 / 2 ^ 50
  isZero x := x == 0
  isPositive x := 0 < x

theorem twoPi_value : ∃ (m : ℕ) (k : ℤ), Binary.ofFloat Scalar.twoPi = .finite false m k ∧
    (Scalar.twoPi : ℚ) = m * 2 ^ k := by
  refine ⟨7074237752028440, -50, by decide +kernel, ?_⟩
  show (7074237752028440 / 2 ^ 50 : ℚ) = _
  norm_num

/-! ## Phasors as complex numbers -/

namespace Phasor

def toComplex (z : Phasor ℚ) : ℂ := ⟨z.re, z.im⟩

theorem toComplex_injective : Function.Injective toComplex := by
  intro z w h
  obtain ⟨hre, him⟩ := Complex.ext_iff.mp h
  cases z
  cases w
  exact congrArg₂ Phasor.mk (Rat.cast_injective hre) (Rat.cast_injective him)

@[simp] theorem toComplex_zero : (zero : Phasor ℚ).toComplex = 0 := by
  apply Complex.ext
  · exact Rat.cast_zero
  · exact Rat.cast_zero

@[simp] theorem toComplex_add (z w : Phasor ℚ) : (z.add w).toComplex = z.toComplex + w.toComplex := by
  apply Complex.ext
  · exact Rat.cast_add z.re w.re
  · exact Rat.cast_add z.im w.im

theorem normSq_toComplex (z : Phasor ℚ) : Complex.normSq z.toComplex = (z.square : ℚ) := by
  rw [Complex.normSq_apply, toComplex, square]
  push_cast
  rfl

theorem isZero_square_iff (z : Phasor ℚ) : Scalar.isZero z.square = true ↔ z.toComplex = 0 := by
  rw [← Complex.normSq_eq_zero, normSq_toComplex, Rat.cast_eq_zero]
  exact beq_iff_eq

theorem reciprocal_toComplex (z : Phasor ℚ) :
    toComplex ⟨z.re / z.square, -z.im / z.square⟩ = z.toComplex⁻¹ := by
  apply Complex.ext
  · rw [Complex.inv_re, normSq_toComplex, toComplex, toComplex]
    exact Rat.cast_div z.re z.square
  · rw [Complex.inv_im, normSq_toComplex, toComplex, toComplex]
    push_cast
    rfl

theorem reciprocal?_eq_some_iff_inv {z y : Phasor ℚ} :
    z.reciprocal? = some y ↔ z.toComplex ≠ 0 ∧ y.toComplex = z.toComplex⁻¹ := by
  rw [reciprocal?_eq_some_iff, ← reciprocal_toComplex, toComplex_injective.eq_iff,
    Bool.eq_false_iff, ne_eq, isZero_square_iff]

theorem exists_reciprocal {z : Phasor ℚ} (h : z.toComplex ≠ 0) : ∃ y, z.reciprocal? = some y :=
  ⟨_, reciprocal?_eq_some_iff_inv.mpr ⟨h, reciprocal_toComplex z⟩⟩

theorem toComplex_foldl (total : Phasor ℚ) (zs : List (Phasor ℚ)) :
    (zs.foldl add total).toComplex = total.toComplex + (zs.map toComplex).sum := by
  induction zs generalizing total with
  | nil => simp
  | cons z zs ih => rw [List.foldl_cons, ih, toComplex_add, List.map_cons, List.sum_cons, add_assoc]

end Phasor

open Circuit Phasor

/-! ## The laws of groups -/

/-- What the impedances of the members make of a group: in series their sum, in parallel, where they
all have inverses, that which makes one with the sum of the inverses. -/
def Wiring.Combines (w : Wiring) (zs : List ℂ) (z : ℂ) : Prop :=
  match w with
  | .series => zs ≠ [] ∧ z = zs.sum
  | .parallel => (∀ x ∈ zs, x ≠ 0) ∧ z * (zs.map fun x => x⁻¹).sum = 1

/-- The members' reciprocals exist if their impedances have inverses, and are the inverses. -/
theorem forall₂_admits_iff {f : ℚ} {cs : List (Circuit ℚ)} {ys : List (Phasor ℚ)} :
    List.Forall₂ (Admits f) cs ys ↔ ∃ zs, List.Forall₂ (Evaluates f) cs zs ∧
      (∀ x ∈ zs.map toComplex, x ≠ 0) ∧
      ys.map toComplex = (zs.map toComplex).map fun x => x⁻¹ := by
  induction cs generalizing ys with
  | nil => simp
  | cons c cs ih =>
    rw [List.forall₂_cons_left_iff]
    constructor
    · rintro ⟨y, ys, ⟨z, hz, hy⟩, hys, rfl⟩
      obtain ⟨zs, hzs, hne, hmap⟩ := ih.mp hys
      obtain ⟨hz0, hinv⟩ := reciprocal?_eq_some_iff_inv.mp hy
      refine ⟨z :: zs, .cons hz hzs, ?_, ?_⟩
      · exact List.forall_mem_cons.mpr ⟨hz0, hne⟩
      · simp only [List.map_cons, hinv, hmap]
    · rintro ⟨zs, hzs, hne, hmap⟩
      cases hzs with
      | cons hz hzs =>
        obtain ⟨hz0, hne⟩ := List.forall_mem_cons.mp hne
        cases ys with
        | nil => cases hmap
        | cons y ys =>
          obtain ⟨hinv, hmap⟩ := List.cons.inj hmap
          exact ⟨y, ys, ⟨_, hz, reciprocal?_eq_some_iff_inv.mpr ⟨hz0, hinv⟩⟩,
            ih.mpr ⟨_, hzs, hne, hmap⟩, rfl⟩

theorem exists_inverses {zs : List (Phasor ℚ)} (h : ∀ x ∈ zs.map toComplex, x ≠ 0) :
    ∃ ys : List (Phasor ℚ), ys.map toComplex = (zs.map toComplex).map fun x => x⁻¹ := by
  induction zs with
  | nil => exact ⟨[], rfl⟩
  | cons z zs ih =>
    obtain ⟨hz, hzs⟩ := List.forall_mem_cons.mp h
    obtain ⟨ys, hys⟩ := ih hzs
    obtain ⟨y, hy⟩ := exists_reciprocal hz
    refine ⟨y :: ys, ?_⟩
    simp only [List.map_cons, (reciprocal?_eq_some_iff_inv.mp hy).2, hys]

/-- A group has the impedance that those of its members combine to. -/
theorem evaluates_group_iff {f : ℚ} {w : Wiring} {cs : List (Circuit ℚ)} {z : Phasor ℚ} :
    (Circuit.group w cs).Evaluates f z ↔ ∃ zs, List.Forall₂ (Evaluates f) cs zs ∧
      w.Combines (zs.map toComplex) z.toComplex := by
  cases w with
  | series =>
    rw [Evaluates, series_impedance_eq_ok_iff]
    constructor
    · rintro ⟨hne, zs, hzs, rfl⟩
      refine ⟨zs, hzs, ?_, ?_⟩
      · rintro h
        rw [List.map_eq_nil_iff] at h
        subst h
        cases hzs
        exact hne rfl
      · rw [toComplex_foldl, toComplex_zero, zero_add]
    · rintro ⟨zs, hzs, hne, hsum⟩
      refine ⟨?_, zs, hzs, ?_⟩
      · rintro rfl
        cases hzs
        exact hne rfl
      · apply toComplex_injective
        rw [hsum, toComplex_foldl, toComplex_zero, zero_add]
  | parallel =>
    rw [Evaluates, parallel_impedance_eq_ok_iff]
    constructor
    · rintro ⟨y, ys, hys, hz⟩
      obtain ⟨zs, hzs, hne, hmap⟩ := forall₂_admits_iff.mp hys
      obtain ⟨htotal, hinv⟩ := reciprocal?_eq_some_iff_inv.mp hz
      refine ⟨zs, hzs, hne, ?_⟩
      rw [toComplex_foldl, ← List.sum_cons, ← List.map_cons, hmap] at htotal hinv
      rw [hinv, inv_mul_cancel₀ htotal]
    · rintro ⟨zs, hzs, hne, hone⟩
      obtain ⟨ys, hys⟩ := exists_inverses hne
      rw [← hys] at hone
      cases ys with
      | nil => simp at hone
      | cons y ys =>
        refine ⟨y, ys, forall₂_admits_iff.mpr ⟨zs, hzs, hne, hys⟩, ?_⟩
        rw [reciprocal?_eq_some_iff_inv, toComplex_foldl, ← List.sum_cons, ← List.map_cons]
        exact ⟨right_ne_zero_of_mul_eq_one hone, eq_inv_of_mul_eq_one_left hone⟩

/-! ## Other members in a group -/

inductive Circuit.Regrouped {α : Type} (R : Wiring → List (Circuit α) → List (Circuit α) → Prop) :
    Circuit α → Circuit α → Prop
  | here {w : Wiring} {cs ds : List (Circuit α)} (h : R w cs ds) :
      Regrouped R (.group w cs) (.group w ds)
  | inside (w : Wiring) (before after : List (Circuit α)) {c d : Circuit α} (h : Regrouped R c d) :
      Regrouped R (.group w (before ++ c :: after)) (.group w (before ++ d :: after))

/-- The impedances of members around one of them. -/
theorem forall₂_append_cons {β γ : Type} {R : β → γ → Prop} {before after : List β} {x : β}
    {zs : List γ} : List.Forall₂ R (before ++ x :: after) zs ↔ ∃ us z vs,
      zs = us ++ z :: vs ∧ List.Forall₂ R before us ∧ R x z ∧ List.Forall₂ R after vs := by
  induction before generalizing zs with
  | nil =>
    rw [List.nil_append, List.forall₂_cons_left_iff]
    constructor
    · rintro ⟨z, vs, hz, hvs, rfl⟩
      exact ⟨[], z, vs, rfl, .nil, hz, hvs⟩
    · rintro ⟨us, z, vs, rfl, hus, hz, hvs⟩
      cases hus
      exact ⟨z, vs, hz, hvs, rfl⟩
  | cons b before ih =>
    rw [List.cons_append, List.forall₂_cons_left_iff]
    constructor
    · rintro ⟨y, ys, hy, hys, rfl⟩
      obtain ⟨us, z, vs, rfl, hus, hz, hvs⟩ := ih.mp hys
      exact ⟨y :: us, z, vs, rfl, .cons hy hus, hz, hvs⟩
    · rintro ⟨us, z, vs, rfl, hus, hz, hvs⟩
      cases hus with
      | cons hy hus => exact ⟨_, _, hy, ih.mpr ⟨_, z, vs, rfl, hus, hz, hvs⟩, rfl⟩

/-- Members that keep the impedance of their group keep that of the circuit. -/
theorem evaluates_regrouped {f : ℚ} {R : Wiring → List (Circuit ℚ) → List (Circuit ℚ) → Prop}
    (hR : ∀ w cs ds, R w cs ds → ∀ z, (Circuit.group w cs).Evaluates f z →
      (Circuit.group w ds).Evaluates f z) {t u : Circuit ℚ} (h : t.Regrouped R u) {z : Phasor ℚ}
    (hz : t.Evaluates f z) : u.Evaluates f z := by
  induction h generalizing z with
  | here h => exact hR _ _ _ h z hz
  | inside w before after _ ih =>
    obtain ⟨zs, hzs, hcombines⟩ := evaluates_group_iff.mp hz
    obtain ⟨us, y, vs, rfl, hus, hy, hvs⟩ := forall₂_append_cons.mp hzs
    have hmembers := forall₂_append_cons.mpr ⟨us, y, vs, rfl, hus, ih hy, hvs⟩
    exact evaluates_group_iff.mpr ⟨_, hmembers, hcombines⟩

/-! ## The order of the members -/

theorem regrouped_perm_symm {α : Type} {t u : Circuit α}
    (h : t.Regrouped (fun _ => List.Perm) u) : u.Regrouped (fun _ => List.Perm) t := by
  induction h with
  | here h => exact .here h.symm
  | inside w before after _ ih => exact .inside w before after ih

theorem combines_perm {w : Wiring} {xs ys : List ℂ} (h : xs.Perm ys) {z : ℂ}
    (hxs : w.Combines xs z) : w.Combines ys z := by
  cases w with
  | series =>
    obtain ⟨hne, hsum⟩ := hxs
    constructor
    · rintro rfl
      exact hne h.eq_nil
    · rw [hsum, h.sum_eq]
  | parallel =>
    obtain ⟨hne, hone⟩ := hxs
    constructor
    · exact fun x hx => hne x (h.mem_iff.mpr hx)
    · rw [← (h.map fun x => x⁻¹).sum_eq, hone]

theorem evaluates_perm {f : ℚ} {w : Wiring} {cs ds : List (Circuit ℚ)} (h : cs.Perm ds)
    {z : Phasor ℚ} (hcs : (Circuit.group w cs).Evaluates f z) :
    (Circuit.group w ds).Evaluates f z := by
  obtain ⟨zs, hzs, hcombines⟩ := evaluates_group_iff.mp hcs
  obtain ⟨ys, hys, hperm⟩ := List.perm_comp_forall₂ h.symm hzs
  exact evaluates_group_iff.mpr ⟨ys, hys, combines_perm (hperm.symm.map toComplex) hcombines⟩

/-! ## Groups inside of groups -/

inductive Wiring.Dissolves {α : Type} (w : Wiring) : List (Circuit α) → List (Circuit α) → Prop
  | group (before inner after : List (Circuit α)) :
      Dissolves w (before ++ .group w inner :: after) (before ++ (inner ++ after))

theorem combines_dissolve {w : Wiring} {before inner after : List ℂ} {y z : ℂ}
    (hinner : w.Combines inner y) (h : w.Combines (before ++ y :: after) z) :
    w.Combines (before ++ (inner ++ after)) z := by
  cases w with
  | series =>
    obtain ⟨hne, hy⟩ := hinner
    obtain ⟨-, hz⟩ := h
    constructor
    · simp [hne]
    · rw [hz, hy]
      simp
  | parallel =>
    obtain ⟨hne, hone⟩ := hinner
    obtain ⟨hne', hone'⟩ := h
    -- the group counts for as much as its members: its inverse is the sum of theirs
    have hy : y⁻¹ = (inner.map fun x => x⁻¹).sum := inv_eq_of_mul_eq_one_right hone
    constructor
    · intro x hx
      rw [List.mem_append, List.mem_append] at hx
      rcases hx with hx | hx | hx
      · exact hne' x (by simp [hx])
      · exact hne x hx
      · exact hne' x (by simp [hx])
    · rw [← hone']
      simp [hy]

theorem evaluates_dissolves {f : ℚ} {w : Wiring} {cs ds : List (Circuit ℚ)} (h : w.Dissolves cs ds)
    {z : Phasor ℚ} (hz : (Circuit.group w cs).Evaluates f z) :
    (Circuit.group w ds).Evaluates f z := by
  cases h with
  | group before inner after =>
    obtain ⟨zs, hzs, hcombines⟩ := evaluates_group_iff.mp hz
    obtain ⟨us, y, vs, rfl, hus, hy, hvs⟩ := forall₂_append_cons.mp hzs
    obtain ⟨ys, hys, hinner⟩ := evaluates_group_iff.mp hy
    have hmembers := List.rel_append hus (List.rel_append hys hvs)
    refine evaluates_group_iff.mpr ⟨us ++ (ys ++ vs), hmembers, ?_⟩
    rw [List.map_append, List.map_cons] at hcombines
    rw [List.map_append, List.map_append]
    exact combines_dissolve hinner hcombines

/-- In exact arithmetic impedances add in series and their inverses do in parallel. The order of the
members of a group makes no difference to the whole, nor does a group inside of one of its own wiring
whose members take its place. -/
theorem exact_laws (f : ℚ) :
    (∀ cs z, (Circuit.group .series cs).impedance f = .ok z →
      ∃ zs, List.Forall₂ (Evaluates f) cs zs ∧ z.toComplex = (zs.map toComplex).sum) ∧
    (∀ cs z, (Circuit.group .parallel cs).impedance f = .ok z →
      ∃ zs, List.Forall₂ (Evaluates f) cs zs ∧ (∀ y ∈ zs, y.toComplex ≠ 0) ∧
        z.toComplex * (zs.map fun y => y.toComplex⁻¹).sum = 1) ∧
    (∀ t u : Circuit ℚ, t.Regrouped (fun _ => List.Perm) u →
      ∀ z, t.impedance f = .ok z ↔ u.impedance f = .ok z) ∧
    ∀ t u : Circuit ℚ, t.Regrouped Wiring.Dissolves u →
      ∀ z, t.impedance f = .ok z → u.impedance f = .ok z := by
  refine ⟨?series, ?parallel, ?order, ?nesting⟩
  case series =>
    intro cs z hz
    obtain ⟨zs, hzs, -, hsum⟩ := evaluates_group_iff.mp hz
    exact ⟨zs, hzs, hsum⟩
  case parallel =>
    intro cs z hz
    obtain ⟨zs, hzs, hne, hone⟩ := evaluates_group_iff.mp hz
    rw [List.map_map] at hone
    exact ⟨zs, hzs, fun y hy => hne _ (List.mem_map_of_mem hy), hone⟩
  case order =>
    have hkeeps : ∀ t u : Circuit ℚ, t.Regrouped (fun _ => List.Perm) u →
        ∀ z, t.Evaluates f z → u.Evaluates f z := fun t u h z hz =>
      evaluates_regrouped (fun _ _ _ h _ => evaluates_perm h) h hz
    intro t u h z
    exact ⟨hkeeps t u h z, hkeeps u t (regrouped_perm_symm h) z⟩
  case nesting =>
    intro t u h z hz
    exact evaluates_regrouped (fun _ _ _ h _ => evaluates_dissolves h) h hz

theorem exact_laws_resistors :
    let r (v : ℚ) : Circuit ℚ := .part ⟨.resistor, v⟩
    let pair := Circuit.group .parallel [r 2, r 3]
    let nested := Circuit.group .series [r 1, .group .series [pair, r 4]]
    let turned := Circuit.group .series [r 1, .group .series [r 4, pair]]
    let flat := Circuit.group .series [r 1, pair, r 4]
    (∃ zs, List.Forall₂ (Evaluates 50) [r 2, r 3] zs ∧ (∀ y ∈ zs, y.toComplex ≠ 0) ∧
      toComplex ⟨6 / 5, 0⟩ * (zs.map fun y => y.toComplex⁻¹).sum = 1) ∧
    (∃ zs, List.Forall₂ (Evaluates 50) [r 1, pair, r 4] zs ∧
      toComplex ⟨31 / 5, 0⟩ = (zs.map toComplex).sum) ∧
    nested.impedance 50 = .ok ⟨31 / 5, 0⟩ ∧ turned.impedance 50 = .ok ⟨31 / 5, 0⟩ ∧
    flat.impedance 50 = .ok ⟨31 / 5, 0⟩ := by
  intro r pair nested turned flat
  have hpair : pair.impedance 50 = .ok ⟨6 / 5, 0⟩ := by cbv
  have hnested : nested.impedance 50 = .ok ⟨31 / 5, 0⟩ := by cbv
  have hturned : nested.Regrouped (fun _ => List.Perm) turned :=
    .inside .series [r 1] [] (.here (.swap _ _ _))
  have hdissolves : nested.Regrouped Wiring.Dissolves flat := .here (.group [r 1] [pair, r 4] [])
  obtain ⟨hseries, hparallel, hperm, hflat⟩ := exact_laws 50
  have hflat := hflat nested flat hdissolves _ hnested
  exact ⟨hparallel _ _ hpair, hseries _ _ hflat, hnested, (hperm _ _ hturned _).mp hnested, hflat⟩

end Immittance
