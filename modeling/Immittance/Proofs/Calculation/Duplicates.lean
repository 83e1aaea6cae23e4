import Mathlib
import Immittance.Proofs.Calculation.Layout
import Immittance.Proofs.Document.Increasing

/-!
# Names that several calculations have

In a list whose names are texts, where there are any, the names that are complained about are those of
two items or more, each of them once and in order. So they do not depend on the order of the items,
and there is no complaint if no two items have the same name.
-/

set_option autoImplicit false

namespace Immittance.Schema

open Letter

def calculations (v : Value) : Except Raised (List (Finding Char)) := Rules.check list v

def name? : Value → Option (List Char)
  | .map es =>
    match Value.get? "name".toList es with
    | some (.text s) => some s
    | _ => none
  | _ => none

def TextNamed : Value → Prop
  | .map es => ∀ n, Value.get? "name".toList es = some n → n = .null ∨ ∃ s, n = .text s
  | _ => True

def Shared (name : List Char) (vs : List Value) : Prop :=
  ∃ i j : Fin vs.length, i ≠ j ∧ name? (vs.get i) = some name ∧ name? (vs.get j) = some name

/-! ## The names of a list -/

theorem names_eq {vs : List Value} (h : ∀ v ∈ vs, TextNamed v) :
    names vs = (vs.filterMap name?).map .text := by
  induction vs with
  | nil => rfl
  | cons v vs ih =>
    obtain ⟨hv, hvs⟩ := List.forall_mem_cons.mp h
    cases v with
    | map es =>
      cases hn : Value.get? "name".toList es with
      | none =>
        have hname : name? (.map es) = none := by rw [name?, hn]
        rw [names, word_char, hn, List.filterMap_cons_none hname]
        exact ih hvs
      | some n =>
        rcases hv n hn with rfl | ⟨s, rfl⟩
        · have hname : name? (.map es) = none := by rw [name?, hn]
          rw [names, word_char, hn, List.filterMap_cons_none hname]
          exact ih hvs
        · have hname : name? (.map es) = some s := by rw [name?, hn]
          simp only [names, word_char, hn, List.filterMap_cons_some hname, List.map_cons, ih hvs]
    | _ => exact ih hvs

theorem duplicate_names_iff {name : List Char} {vs : List Value} :
    (vs.filterMap name?).Duplicate name ↔ (vs.map name?).Duplicate (some name) := by
  induction vs with
  | nil => simp
  | cons v vs ih =>
    rw [List.map_cons, List.duplicate_cons_iff]
    cases hv : name? v with
    | none => simp [List.filterMap_cons_none hv, ih]
    | some s => simp [List.filterMap_cons_some hv, List.duplicate_cons_iff, ih]

theorem shared_iff {name : List Char} {vs : List Value} :
    Shared name vs ↔ (vs.filterMap name?).Duplicate name := by
  rw [duplicate_names_iff, List.duplicate_iff_exists_distinct_get]
  constructor
  · rintro ⟨i, j, hne, hi, hj⟩
    rcases lt_or_gt_of_ne hne with hlt | hlt
    · exact ⟨i.cast (by simp), j.cast (by simp), hlt, by simpa using hi.symm, by simpa using hj.symm⟩
    · exact ⟨j.cast (by simp), i.cast (by simp), hlt, by simpa using hj.symm, by simpa using hi.symm⟩
  · rintro ⟨i, j, hlt, hi, hj⟩
    refine ⟨i.cast (by simp), j.cast (by simp), ?_, by simpa using hi.symm, by simpa using hj.symm⟩
    simpa using hlt.ne

/-! ## What is found -/

/-- The repeated names are those that were seen before and those that occur twice. -/
theorem repeated_texts (seen ss : List (List Char)) :
    ∃ again : List (List Char), repeated (seen.map .text) (ss.map .text) = .ok (again.map .text) ∧
      ∀ s, s ∈ again ↔ (s ∈ seen ∧ s ∈ ss) ∨ ss.Duplicate s := by
  induction ss generalizing seen with
  | nil => exact ⟨[], rfl, by simp⟩
  | cons t ss ih =>
    rw [List.map_cons, repeated]
    simp only [Value.notKey?]
    by_cases ht : t ∈ seen
    · obtain ⟨again, hagain, hmem⟩ := ih seen
      rw [if_pos (any_same_text.mpr ht)]
      refine ⟨t :: again, bind_eq_ok_iff.mpr ⟨_, hagain, rfl⟩, fun s => ?_⟩
      rw [List.mem_cons, hmem, List.duplicate_cons_iff, List.mem_cons]
      grind
    · obtain ⟨again, hagain, hmem⟩ := ih (t :: seen)
      rw [if_neg (any_same_text.not.mpr ht), ← List.map_cons]
      refine ⟨again, hagain, fun s => ?_⟩
      rw [hmem, List.duplicate_cons_iff, List.mem_cons, List.mem_cons]
      grind

theorem foldl_distinct_texts {found : List (List Char)} (hfound : found.Nodup)
    (ss : List (List Char)) :
    ∃ ds : List (List Char), (ss.map Value.text).foldl
        (fun found v => if found.any (·.same v) then found else found ++ [v]) (found.map .text) =
      ds.map .text ∧ ds.Nodup ∧ ∀ s, s ∈ ds ↔ s ∈ found ∨ s ∈ ss := by
  induction ss generalizing found with
  | nil => exact ⟨found, rfl, hfound, by simp⟩
  | cons t ss ih =>
    rw [List.map_cons, List.foldl_cons]
    by_cases ht : t ∈ found
    · obtain ⟨ds, hds, hnodup, hmem⟩ := ih hfound
      rw [if_pos (any_same_text.mpr ht)]
      refine ⟨ds, hds, hnodup, fun s => ?_⟩
      rw [hmem, List.mem_cons]
      grind
    · have hnext : (found ++ [t]).Nodup := by
        rw [List.nodup_append]
        grind
      obtain ⟨ds, hds, hnodup, hmem⟩ := ih hnext
      rw [if_neg (any_same_text.not.mpr ht)]
      rw [List.map_append] at hds
      refine ⟨ds, hds, hnodup, fun s => ?_⟩
      rw [hmem]
      grind

theorem distinct_texts (ss : List (List Char)) :
    ∃ ds : List (List Char), distinct (ss.map .text) = ds.map .text ∧ ds.Nodup ∧ ∀ s, s ∈ ds ↔ s ∈ ss := by
  obtain ⟨ds, hds, hnodup, hmem⟩ := foldl_distinct_texts List.nodup_nil ss
  exact ⟨ds, hds, hnodup, fun s => by rw [hmem]; simp⟩

def textOf : Value → List Char
  | .text s => s
  | _ => []

/-- Different texts are sorted into increasing order. -/
theorem sortBy_texts {ds : List (List Char)} (h : ds.Nodup) :
    ∃ es : List (List Char), Order.sortBy Value.before (ds.map .text) = .ok (es.map .text) ∧ es.Pairwise (· < ·) ∧
      es.Perm ds := by
  have hkey : Order.ByKey Value.before textOf (ds.map .text) := by
    intro x hx y hy
    obtain ⟨s, -, rfl⟩ := List.mem_map.mp hx
    obtain ⟨t, -, rfl⟩ := List.mem_map.mp hy
    have hbefore : Letter.before s t = true ↔ decide (s < t) = true :=
      before_char.trans decide_eq_true_iff.symm
    exact congrArg Except.ok ((Bool.eq_iff_iff.mpr hbefore).trans (decide_eq_decide.mpr Iff.rfl))
  obtain ⟨ys, hys⟩ := Order.exists_sortBy hkey.comparable
  have hperm := Order.sortBy_perm hys
  have htexts : (ys.map textOf).map .text = ys := by
    rw [List.map_map]
    refine (List.map_congr_left fun y hy => ?_).trans (List.map_id ys)
    obtain ⟨s, -, rfl⟩ := List.mem_map.mp (hperm.subset hy)
    rfl
  have hds : (ys.map textOf).Perm ds := by
    have := hperm.map textOf
    rwa [List.map_map, show textOf ∘ Value.text = id from rfl, List.map_id] at this
  refine ⟨ys.map textOf, htexts.symm ▸ hys, ?_, hds⟩
  have hle : (ys.map textOf).Pairwise (· ≤ ·) := List.pairwise_map.mpr (Order.sortBy_inOrder hkey hys)
  exact (hle.and (hds.nodup_iff.mpr h)).imp fun hst => lt_of_le_of_ne hst.1 hst.2

theorem duplicates_texts {vs : List Value} (h : ∀ v ∈ vs, TextNamed v) :
    ∃ ds : List (List Char), duplicates vs = .ok (ds.map .text) ∧ ds.Pairwise (· < ·) ∧
      ∀ name, name ∈ ds ↔ Shared name vs := by
  obtain ⟨again, hagain, hagainMem⟩ := repeated_texts [] (vs.filterMap name?)
  obtain ⟨ds, hds, hnodup, hmem⟩ := distinct_texts again
  obtain ⟨es, hes, hsorted, hperm⟩ := sortBy_texts hnodup
  refine ⟨es, ?_, hsorted, fun name => ?_⟩
  · rw [duplicates, names_eq h]
    exact bind_eq_ok_iff.mpr ⟨_, hagain, hds ▸ hes⟩
  · rw [hperm.mem_iff, hmem, hagainMem, shared_iff]
    simp

theorem duplicates_perm {vs ws : List Value} (h : ∀ v ∈ vs, TextNamed v) (hp : ws.Perm vs) :
    duplicates ws = duplicates vs := by
  obtain ⟨ds, hds, hsorted, hmem⟩ := duplicates_texts h
  obtain ⟨es, hes, hsorted', hmem'⟩ := duplicates_texts fun w hw => h w (hp.subset hw)
  have hshared : ∀ name, Shared name ws ↔ Shared name vs := fun name => by
    rw [shared_iff, shared_iff, List.duplicate_iff_two_le_count, List.duplicate_iff_two_le_count,
      @List.Perm.count_eq _ instBEqOfDecidableEq _ _ (hp.filterMap name?)]
  have hperm : es.Perm ds := (List.perm_ext_iff_of_nodup (hsorted'.imp ne_of_lt)
    (hsorted.imp ne_of_lt)).mpr fun name => by rw [hmem', hmem, hshared]
  rw [hds, hes, hperm.eq_of_pairwise (fun _ _ _ _ hst hts => absurd hts (not_lt_of_gt hst))
    hsorted' hsorted]

/-! ## What is complained about -/

/-- The rule for names complains about those that are shared, if there are any. -/
theorem complaint_mem_namesRule {vs names : List Value} {cs : List (Complaint Char)}
    (h : namesRule (.list vs) = .ok cs) :
    .duplicates names ∈ cs ↔ names ≠ [] ∧ duplicates vs = .ok names := by
  obtain ⟨shared, hshared, h⟩ := bind_eq_ok_iff.mp h
  rw [hshared]
  cases shared with
  | nil =>
    obtain rfl := Except.ok.inj h
    simp [eq_comm]
  | cons n ns =>
    obtain ⟨_, -, h⟩ := bind_eq_ok_iff.mp h
    obtain rfl := Except.ok.inj h
    rw [List.mem_singleton, Complaint.duplicates.injEq, Except.ok.injEq]
    constructor
    · rintro rfl
      exact ⟨List.cons_ne_nil n ns, rfl⟩
    · exact fun hnames => hnames.2.symm

/-- What is found about a list is a complaint about its shared names, if there are any, and what is
found about its items. -/
theorem complaint_mem_calculations {vs names : List Value} {fs : List (Finding Char)}
    (h : calculations (.list vs) = .ok fs) :
    .complaint (.duplicates names) ∈ fs ↔ names ≠ [] ∧ duplicates vs = .ok names := by
  obtain ⟨special, inItems, inFields, hown, hitems, hfields, rfl⟩ :=
    (Rules.check_eq_ok_iff ⟨.list, by simp [list], rfl⟩).mp h
  obtain ⟨cs, hcs, rfl⟩ : ∃ cs, namesRule (.list vs) = .ok cs ∧ special = [cs] := by
    obtain ⟨cs, rest, hcs, hrest, rfl⟩ := List.forall₂_cons_left_iff.mp (mapM_eq_ok_iff.mp hown)
    rw [List.forall₂_nil_left_iff.mp hrest]
    exact ⟨cs, hcs, rfl⟩
  have hsize : .complaint (.duplicates names) ∉
      (Rules.sizeComplaints (list (α := Char)).mayBeEmpty (list (α := Char)).least
        (.list vs)).map Finding.complaint := by
    cases vs <;> simp [Rules.sizeComplaints, Value.size?, list]
  have hinside : .complaint (.duplicates names) ∉ inItems := by
    rw [list, Rules.checkItems] at hitems
    obtain ⟨fields, -, hitems⟩ := bind_eq_ok_iff.mp hitems
    rw [← Except.ok.inj hitems]
    cases fields <;> simp [Finding.insideOf]
  obtain rfl := Except.ok.inj hfields
  rw [← complaint_mem_namesRule hcs, List.append_nil, List.mem_append, or_iff_left hinside,
    List.map_append, List.mem_append, or_iff_left hsize, List.flatten_singleton]
  simp

/-- The names complained about, in an order of their own and each of them once, are those that two
items have, whatever the order of the items. There is a complaint exactly if there is such a name. -/
theorem duplicates_report (vs : List Value) (h : ∀ v ∈ vs, TextNamed v) :
    ∃ shared : List (List Char), (∀ ws, ws.Perm vs → duplicates ws = .ok (shared.map .text)) ∧
      shared.Pairwise (· < ·) ∧ (∀ name, name ∈ shared ↔ Shared name vs) ∧
      ∀ fs, calculations (.list vs) = .ok fs →
        ((∃ names, .complaint (.duplicates names) ∈ fs) ↔ ∃ name, Shared name vs) ∧
        ∀ names, .complaint (.duplicates names) ∈ fs → names = shared.map .text := by
  obtain ⟨shared, hshared, hsorted, hmem⟩ := duplicates_texts h
  refine ⟨shared, fun ws hp => (duplicates_perm h hp).trans hshared, hsorted, hmem, fun fs hfs => ?_⟩
  simp only [complaint_mem_calculations hfs, hshared, Except.ok.injEq]
  constructor
  · constructor
    · rintro ⟨names, hne, rfl⟩
      obtain ⟨name, hname⟩ := List.exists_mem_of_ne_nil shared fun hnil => hne (by rw [hnil]; rfl)
      exact ⟨name, (hmem name).mp hname⟩
    · rintro ⟨name, hname⟩
      have hne : shared ≠ [] := List.ne_nil_of_mem ((hmem name).mpr hname)
      exact ⟨shared.map .text, by simpa using hne, rfl⟩
  · rintro names ⟨-, rfl⟩
    rfl

def mixedNames : List Value :=
  [.map [(.text "name".toList, .text ['b'])], .map [(.text "name".toList, .text ['a'])],
   .null, .map [(.text "name".toList, .text ['b'])], .map [(.text "name".toList, .null)],
   .map [(.text "name".toList, .text ['a'])], .map [(.text "name".toList, .text ['b'])]]

theorem duplicates_report_mixed : (∀ v ∈ mixedNames, TextNamed v) ∧
    ∃ shared : List (List Char),
      (∀ ws, ws.Perm mixedNames → duplicates ws = .ok (shared.map .text)) ∧
      shared = [['a'], ['b']] := by
  have hnames : ∀ v ∈ mixedNames, TextNamed v := by
    simp [mixedNames, TextNamed, Value.get?, Value.same, Value.isNumber]
  obtain ⟨shared, hperm, -⟩ := duplicates_report mixedNames hnames
  have hshared : duplicates mixedNames = .ok ([['a'], ['b']].map .text) := by rfl
  refine ⟨hnames, shared, hperm, ?_⟩
  have heq := Except.ok.inj ((hperm mixedNames (.refl _)).symm.trans hshared)
  exact List.map_injective_iff.mpr (fun _ _ h => Value.text.inj h) heq

end Immittance.Schema
