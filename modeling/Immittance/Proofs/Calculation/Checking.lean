import Mathlib
import Immittance.Calculation.Check
import Immittance.Proofs.Calculation.Rules
import Immittance.Proofs.Document.Sorting

/-!
# The validator goes by the rules

The validator that comes with this library finds nothing in exactly the documents that have what the
rules ask for. Along the recursion over the rules it is shown that no complaint is made about a value
exactly if it has what is asked for, and that the findings about the entries of a mapping, put in order
one after the other, are none exactly if there are none about each. Along the same recursion it comes
to an end about every value that can be checked, as fields that are texts can be put in order.
-/

set_option autoImplicit false

namespace Immittance

open Letter

variable {α : Type} [Letter α]

/-! ## Keys -/

namespace Value

theorem same_text_iff {k : Value α} {key : List α} : k.same (.text key) = true ↔ k = .text key := by
  cases k with
  | text s =>
    change Letter.same s key = true ↔ _
    rw [Letter.same_iff, text.injEq]
  | _ => simp [same, isNumber]

theorem mem_of_get? {es : List (Value α × Value α)} {key : List α} {v : Value α}
    (h : get? key es = some v) : (.text key, v) ∈ es := by
  induction es with
  | nil => cases h
  | cons e es ih =>
    obtain ⟨k, w⟩ := e
    rw [get?] at h
    by_cases hk : k.same (.text key) = true
    · rw [if_pos hk] at h
      rw [same_text_iff.mp hk, Option.some.inj h]
      exact List.mem_cons_self
    · rw [if_neg hk] at h
      exact List.mem_cons_of_mem _ (ih h)

end Value

/-! ## Findings -/

namespace Finding

theorem foldl_eq_nil_iff {β γ : Type} {step : List γ → β → List γ} (h : ∀ acc x, step acc x ≠ [])
    {acc : List γ} {xs : List β} : xs.foldl step acc = [] ↔ acc = [] ∧ xs = [] := by
  induction xs generalizing acc with
  | nil => simp
  | cons x xs ih => simp [ih, h]

theorem byField_eq_nil_iff {found : List (Value α × Finding α)} : byField found = [] ↔ found = [] := by
  rw [byField, foldl_eq_nil_iff]
  · simp
  · intro fields e
    split
    · next hany =>
      obtain ⟨f, hf, _⟩ := List.any_eq_true.mp hany
      simpa using List.ne_nil_of_mem hf
    · simp

omit [Letter α] in
theorem insideOf_eq_nil_iff {x : Except (Raised α) (Findings α)} :
    (do return insideOf (← x)) = Except.ok (ε := Raised α) [] ↔ x = .ok [] := by
  rw [bind_eq_ok_iff]
  constructor
  · rintro ⟨fields, hfields, h⟩
    cases fields with
    | nil => exact hfields
    | cons f fs => cases h
  · exact fun h => ⟨[], h, rfl⟩

theorem add_ne_nil (found : List (Value α × Finding α)) (key : Value α) (f : Finding α) :
    add found key f ≠ .ok [] := by
  intro h
  have hlength := (Order.sortBy_perm h).length_eq
  simp at hlength

theorem addAll_eq_nil_iff {found : List (Value α × Finding α)} {key : Value α} {fs : List (Finding α)} :
    addAll found key fs = .ok [] ↔ found = [] ∧ fs = [] := by
  induction fs generalizing found with
  | nil => simp [addAll]
  | cons f fs ih =>
    rw [addAll, bind_eq_ok_iff]
    constructor
    · rintro ⟨next, hnext, h⟩
      obtain ⟨rfl, _⟩ := ih.mp h
      exact absurd hnext (add_ne_nil found key f)
    · simp

/-- What is found about the entries of a mapping one after the other is nothing exactly if nothing is
found about each. -/
theorem foldlM_addAll_eq_nil_iff (check : Value α × Value α → Except (Raised α) (List (Finding α)))
    (es : List (Value α × Value α)) {found : List (Value α × Finding α)} :
    es.foldlM (fun found e => do addAll found e.1 (← check e)) found = .ok [] ↔
      found = [] ∧ ∀ e ∈ es, check e = .ok [] := by
  induction es generalizing found with
  | nil => simp [pure, Except.pure]
  | cons e es ih =>
    rw [List.foldlM_cons, bind_eq_ok_iff, List.forall_mem_cons]
    constructor
    · rintro ⟨next, hnext, h⟩
      obtain ⟨rfl, hes⟩ := ih.mp h
      obtain ⟨fs, hfs, hnext⟩ := bind_eq_ok_iff.mp hnext
      obtain ⟨rfl, rfl⟩ := addAll_eq_nil_iff.mp hnext
      exact ⟨rfl, hfs, hes⟩
    · rintro ⟨rfl, he, hes⟩
      exact ⟨[], bind_eq_ok_iff.mpr ⟨[], he, rfl⟩, ih.mpr ⟨rfl, hes⟩⟩

end Finding

namespace Rules

theorem requireFields_eq_nil_iff {es : List (Value α × Value α)} {found : List (Value α × Finding α)}
    {keys : List (List Char)} :
    requireFields es found keys = .ok [] ↔
      found = [] ∧ ∀ key ∈ keys, ∃ v, Value.get? (spell key) es = some v := by
  induction keys generalizing found with
  | nil => simp [requireFields]
  | cons key keys ih =>
    rw [requireFields, List.forall_mem_cons]
    cases h : Value.get? (spell key) es with
    | some v => simpa using ih
    | none =>
      simp only [Option.isSome_none, Bool.false_eq_true, if_false, reduceCtorEq, exists_false,
        false_and, and_false, iff_false]
      intro k
      obtain ⟨next, hnext, k⟩ := bind_eq_ok_iff.mp k
      obtain ⟨rfl, _⟩ := ih.mp k
      exact Finding.add_ne_nil found _ _ hnext

theorem mappingFindings_eq_ok_iff {required : List (List Char)}
    {checks : List (List Char × ValueCheck α)} {es : List (Value α × Value α)} {found : Findings α} :
    mappingFindings required checks es = .ok found ↔ ∃ inEntries all,
      es.foldlM (fun found e => do Finding.addAll found e.1 (← entryFindings checks e)) [] =
        .ok inEntries ∧
      requireFields es inEntries required = .ok all ∧ found = Finding.byField all := by
  rw [mappingFindings, bind_eq_ok_iff]
  constructor
  · rintro ⟨inEntries, hentries, h⟩
    obtain ⟨all, hall, h⟩ := bind_eq_ok_iff.mp h
    exact ⟨inEntries, all, hentries, hall, (Except.ok.inj h).symm⟩
  · rintro ⟨inEntries, all, hentries, hall, rfl⟩
    exact ⟨inEntries, hentries, bind_eq_ok_iff.mpr ⟨all, hall, rfl⟩⟩

theorem mappingFindings_eq_nil_iff {required : List (List Char)}
    {checks : List (List Char × ValueCheck α)} {es : List (Value α × Value α)} :
    mappingFindings required checks es = .ok [] ↔ (∀ e ∈ es, entryFindings checks e = .ok []) ∧
      ∀ key ∈ required, ∃ v, Value.get? (spell key) es = some v := by
  rw [mappingFindings_eq_ok_iff]
  constructor
  · rintro ⟨inEntries, all, hentries, hall, hnil⟩
    obtain rfl := Finding.byField_eq_nil_iff.mp hnil.symm
    obtain ⟨rfl, hrequired⟩ := requireFields_eq_nil_iff.mp hall
    exact ⟨((Finding.foldlM_addAll_eq_nil_iff _ es).mp hentries).2, hrequired⟩
  · rintro ⟨hentries, hrequired⟩
    exact ⟨[], [], (Finding.foldlM_addAll_eq_nil_iff _ es).mpr ⟨rfl, hentries⟩,
      requireFields_eq_nil_iff.mpr ⟨rfl, hrequired⟩, rfl⟩

theorem entryFindings_cons (key : List Char) (check : ValueCheck α)
    (checks : List (List Char × ValueCheck α)) (e : Value α × Value α) :
    entryFindings ((key, check) :: checks) e =
      if e.1.same (.text (spell key)) then check e.2 else entryFindings checks e := by
  rw [entryFindings, List.find?_cons]
  cases e.1.same (.text (spell key)) <;> rfl

/-- An entry is checked by the rules for its key. -/
theorem entryFindings_of_lookup {fs : FieldRules α} {e : Value α × Value α} {k : List Char}
    {r : Rules α} (hkey : e.1 = .text (spell k)) (hr : fs.lookup k = some r) :
    entryFindings (checks fs) e = r.check e.2 := by
  induction fs with
  | nil => cases hr
  | cons f fs ih =>
    obtain ⟨key, s⟩ := f
    rw [checks, entryFindings_cons]
    by_cases hk : k = key
    · subst hk
      rw [List.lookup_cons_self] at hr
      rw [if_pos (Value.same_text_iff.mpr hkey), Option.some.inj hr]
    · rw [List.lookup_cons, beq_eq_false_iff_ne.mpr hk] at hr
      rw [if_neg, ih hr]
      intro hsame
      exact hk (spell_injective (Value.text.inj (hkey.symm.trans (Value.same_text_iff.mp hsame))))

/-- An entry without rules for its key is unknown. -/
theorem exists_lookup_or_unknown (fs : FieldRules α) (e : Value α × Value α) :
    (∃ k r, e.1 = .text (spell k) ∧ fs.lookup k = some r) ∨
      entryFindings (checks fs) e = .ok [.complaint .unknown] := by
  induction fs with
  | nil => exact Or.inr rfl
  | cons f fs ih =>
    obtain ⟨key, s⟩ := f
    by_cases hsame : e.1.same (.text (spell key)) = true
    · exact Or.inl ⟨key, s, Value.same_text_iff.mp hsame, List.lookup_cons_self⟩
    · rw [checks, entryFindings_cons, if_neg hsame]
      refine ih.imp_left ?_
      rintro ⟨k, r, hkey, hr⟩
      refine ⟨k, r, hkey, ?_⟩
      rw [List.lookup_cons, beq_eq_false_iff_ne.mpr, hr]
      rintro rfl
      exact hsame (Value.same_text_iff.mpr hkey)

theorem exists_lookup_of_entryFindings {fs : FieldRules α} {e : Value α × Value α}
    (h : entryFindings (checks fs) e = .ok []) :
    ∃ k r, e.1 = .text (spell k) ∧ fs.lookup k = some r :=
  (exists_lookup_or_unknown fs e).resolve_right fun hunknown => by simp [hunknown] at h

/-! ## One value -/

theorem typeComplaints_eq_nil_iff {types : List ValueType} {hasItems : Bool} {v : Value α} :
    typeComplaints types hasItems v = .ok [] ↔ ∃ t ∈ types, t.admits v = true := by
  rw [← List.any_eq_true]
  cases v with
  | null =>
    refine iff_of_false nofun fun h => ?_
    obtain ⟨t, _, ht⟩ := List.any_eq_true.mp h
    cases t <;> cases ht
  | map es =>
    rw [typeComplaints]
    cases types.any (·.admits (.map es)) with
    | true => exact iff_of_true rfl rfl
    | false =>
      refine iff_of_false ?_ Bool.false_ne_true
      rw [if_neg Bool.false_ne_true]
      split <;> exact nofun
  | _ =>
    rw [typeComplaints]
    · cases types.any _ with
      | true => exact iff_of_true rfl rfl
      | false => exact iff_of_false nofun Bool.false_ne_true
    all_goals exact nofun

omit [Letter α] in
theorem sizeComplaints_eq_nil_iff {mayBeEmpty : Bool} {least : ℕ} {v : Value α} :
    sizeComplaints mayBeEmpty least v = [] ↔
      ∀ n, v.size? = some n → least ≤ n ∧ (n = 0 → mayBeEmpty = true) := by
  rw [sizeComplaints]
  cases v.size? with
  | none => simp
  | some n =>
    simp only [Option.some.injEq, forall_eq']
    split_ifs with hempty hleast
    · simp_all
    · simp [not_le.mpr hleast]
    · simp_all

omit [Letter α] in
theorem memberFindings_eq_nil_iff {check : ValueCheck α} {vs : List (Value α)} {place : ℕ} :
    memberFindings check place vs = .ok [] ↔ ∀ v ∈ vs, check v = .ok [] := by
  induction vs generalizing place with
  | nil => simp [memberFindings]
  | cons v vs ih =>
    rw [memberFindings, List.forall_mem_cons, ← @ih (place + 1)]
    constructor
    · intro h
      obtain ⟨fs, hfs, h⟩ := bind_eq_ok_iff.mp h
      obtain ⟨rest, hrest, h⟩ := bind_eq_ok_iff.mp h
      cases fs with
      | nil =>
        obtain rfl : rest = [] := Except.ok.inj h
        exact ⟨hfs, hrest⟩
      | cons f fs => cases h
    · rintro ⟨hv, hvs⟩
      exact bind_eq_ok_iff.mpr ⟨[], hv, bind_eq_ok_iff.mpr ⟨[], hvs, rfl⟩⟩

omit [Letter α] in
/-- The rules of the schema's own make no complaint together exactly if each makes none. -/
theorem exists_mapM_flatten_iff {own : List (OwnRule α)} {v : Value α} :
    (∃ special, own.mapM (fun rule => rule v) = .ok special ∧ special.flatten = []) ↔
      ∀ rule ∈ own, rule v = .ok [] := by
  simp only [mapM_eq_ok_iff]
  induction own with
  | nil => simp
  | cons rule own ih =>
    rw [List.forall_mem_cons, ← ih]
    constructor
    · rintro ⟨_, h, hnil⟩
      obtain ⟨cs, special, hrule, hown, rfl⟩ := List.forall₂_cons_left_iff.mp h
      obtain ⟨rfl, hnil⟩ := List.append_eq_nil_iff.mp (List.flatten_cons ▸ hnil)
      exact ⟨hrule, special, hown, hnil⟩
    · rintro ⟨hrule, special, hown, hnil⟩
      exact ⟨[] :: special, .cons hrule hown, hnil⟩

/-- What is found about a value of an admitted type is what its own rules complain about, what its size
is, and what is found about its items and its fields. -/
theorem check_eq_ok_iff {r : Rules α} {v : Value α} {found : List (Finding α)}
    (htype : ∃ t ∈ r.types, t.admits v = true) :
    r.check v = .ok found ↔ ∃ special inItems inFields,
      r.own.mapM (fun rule => rule v) = .ok special ∧ checkItems r.items v = .ok inItems ∧
      checkFields r.fields v = .ok inFields ∧
      found = (special.flatten ++ sizeComplaints r.mayBeEmpty r.least v).map .complaint ++ inItems ++
        inFields := by
  obtain ⟨types, required, mayBeEmpty, least, own, items, fields⟩ := r
  rw [check, typeComplaints_eq_nil_iff.mpr htype]
  constructor
  · intro h
    obtain ⟨_, hwrong, h⟩ := bind_eq_ok_iff.mp h
    obtain rfl := Except.ok.inj hwrong
    obtain ⟨special, hspecial, h⟩ := bind_eq_ok_iff.mp h
    obtain ⟨inItems, hinItems, h⟩ := bind_eq_ok_iff.mp h
    obtain ⟨inFields, hinFields, h⟩ := bind_eq_ok_iff.mp h
    exact ⟨special, inItems, inFields, hspecial, hinItems, hinFields, (Except.ok.inj h).symm⟩
  · rintro ⟨special, inItems, inFields, hspecial, hinItems, hinFields, rfl⟩
    exact bind_eq_ok_iff.mpr ⟨[], rfl, bind_eq_ok_iff.mpr ⟨special, hspecial, bind_eq_ok_iff.mpr
      ⟨inItems, hinItems, bind_eq_ok_iff.mpr ⟨inFields, hinFields, rfl⟩⟩⟩⟩

theorem admitted_of_check_eq_nil {r : Rules α} {v : Value α} (h : r.check v = .ok []) :
    ∃ t ∈ r.types, t.admits v = true := by
  obtain ⟨types, required, mayBeEmpty, least, own, items, fields⟩ := r
  rw [check] at h
  obtain ⟨wrong, hwrong, h⟩ := bind_eq_ok_iff.mp h
  cases wrong with
  | nil => exact typeComplaints_eq_nil_iff.mp hwrong
  | cons c cs => cases h

/-- If all rules for fields are checked as they ask, so are the fields of a mapping. -/
theorem mappingFindings_checks_eq_nil_iff {fs : FieldRules α}
    (hfs : ∀ f ∈ fs, ∀ v, f.2.check v = .ok [] ↔ Accepts f.2 v) {es : List (Value α × Value α)} :
    mappingFindings (requiredKeys fs) (checks fs) es = .ok [] ↔ AcceptsAll fs es := by
  have hrequired : (∀ key ∈ requiredKeys fs, ∃ v, Value.get? (spell key) es = some v) ↔
      ∀ f ∈ fs, f.2.required = true → ∃ v, Value.get? (spell f.1) es = some v := by
    simp only [requiredKeys, List.forall_mem_map, List.mem_filter, and_imp]
  have hcheck : ∀ {k r}, fs.lookup k = some r → ∀ v, r.check v = .ok [] ↔ Accepts r v :=
    fun {k r} hr => hfs (k, r) (mem_of_lookup hr)
  rw [mappingFindings_eq_nil_iff, hrequired]
  constructor
  · rintro ⟨hentries, present⟩
    refine .intro (fun e he => exists_lookup_of_entryFindings (hentries e he)) ?_ present
    intro e he k r hkey hr
    rw [← hcheck hr, ← entryFindings_of_lookup hkey hr]
    exact hentries e he
  · rintro ⟨known, each, present⟩
    refine ⟨fun e he => ?_, present⟩
    obtain ⟨k, r, hkey, hr⟩ := known e he
    rw [entryFindings_of_lookup hkey hr, hcheck hr]
    exact each e he k r hkey hr

mutual

/-- Nothing is found about a value exactly if it has what its rules ask for. -/
theorem check_eq_nil_iff : (r : Rules α) → (v : Value α) → (r.check v = .ok [] ↔ Accepts r v)
  | ⟨types, required, mayBeEmpty, least, own, items, fields⟩, v => by
    have hitems := checkItems_eq_nil_iff items v
    have hfields := checkFields_eq_nil_iff fields v
    constructor
    · intro h
      have htype := admitted_of_check_eq_nil h
      obtain ⟨special, inItems, inFields, hspecial, hinItems, hinFields, h⟩ :=
        (check_eq_ok_iff htype).mp h
      obtain ⟨hboth, rfl⟩ := List.append_eq_nil_iff.mp h.symm
      obtain ⟨hmade, rfl⟩ := List.append_eq_nil_iff.mp hboth
      obtain ⟨hnone, hsize⟩ := List.append_eq_nil_iff.mp (List.map_eq_nil_iff.mp hmade)
      exact .intro htype (sizeComplaints_eq_nil_iff.mp hsize)
        (exists_mapM_flatten_iff.mp ⟨special, hspecial, hnone⟩) (hitems.mp hinItems)
        (hfields.mp hinFields)
    · rintro ⟨htype, size, own, ofItems, ofFields⟩
      obtain ⟨special, hspecial, hnone⟩ := exists_mapM_flatten_iff.mpr own
      refine (check_eq_ok_iff htype).mpr
        ⟨special, [], [], hspecial, hitems.mpr ofItems, hfields.mpr ofFields, ?_⟩
      rw [hnone, sizeComplaints_eq_nil_iff.mpr size]
      rfl

theorem checkItems_eq_nil_iff : (items : Option (Rules α)) → (v : Value α) →
    (checkItems items v = .ok [] ↔ ∀ s, items = some s → ∀ w ∈ v.members, Accepts s w)
  | none, v => iff_of_true rfl nofun
  | some r, v => by
    have hr := check_eq_nil_iff r
    rw [checkItems, Finding.insideOf_eq_nil_iff, memberFindings_eq_nil_iff]
    simp only [Option.some.injEq, forall_eq', hr]

theorem checkFields_eq_nil_iff : (fields : Option (FieldRules α)) → (v : Value α) →
    (checkFields fields v = .ok [] ↔ ∀ fs es, fields = some fs → v = .map es → AcceptsAll fs es)
  | none, v => iff_of_true (by rw [checkFields]; exact nofun) nofun
  | some fs, v => by
    have hfs := checks_eq_nil_iff fs
    cases v with
    | map es =>
      rw [checkFields, Finding.insideOf_eq_nil_iff, mappingFindings_checks_eq_nil_iff hfs]
      constructor
      · rintro h _ _ hfs hes
        rwa [← Option.some.inj hfs, ← Value.map.inj hes]
      · exact fun h => h fs es rfl rfl
    | _ => exact iff_of_true (by rw [checkFields]; exact nofun) nofun

theorem checks_eq_nil_iff : (fs : FieldRules α) →
    ∀ f ∈ fs, ∀ v, f.2.check v = .ok [] ↔ Accepts f.2 v
  | [] => nofun
  | (key, r) :: fs => by
    have hr := check_eq_nil_iff r
    have hfs := checks_eq_nil_iff fs
    exact List.forall_mem_cons.mpr ⟨hr, hfs⟩

end

end Rules

/-! ## The fields at fault -/

section
variable {P : Value α → Prop} {found next : List (Value α × Finding α)}

namespace Finding

theorem add_keys {key : Value α} {f : Finding α} (hkey : P key) (hfound : ∀ e ∈ found, P e.1)
    (h : add found key f = .ok next) : ∀ e ∈ next, P e.1 := by
  intro e he
  rcases List.mem_append.mp ((Order.sortBy_perm h).subset he) with he | he
  · exact hfound e he
  · rwa [List.mem_singleton.mp he]

theorem addAll_keys {key : Value α} {fs : List (Finding α)} (hkey : P key)
    (hfound : ∀ e ∈ found, P e.1) (h : addAll found key fs = .ok next) : ∀ e ∈ next, P e.1 := by
  induction fs generalizing found with
  | nil =>
    obtain rfl := Except.ok.inj h
    exact hfound
  | cons f fs ih =>
    obtain ⟨mid, hmid, h⟩ := bind_eq_ok_iff.mp h
    exact ih (add_keys hkey hfound hmid) h

theorem foldlM_addAll_keys {check : Value α × Value α → Except (Raised α) (List (Finding α))}
    {es : List (Value α × Value α)} (hes : ∀ e ∈ es, P e.1) (hfound : ∀ e ∈ found, P e.1)
    (h : es.foldlM (fun found e => do addAll found e.1 (← check e)) found = .ok next) :
    ∀ e ∈ next, P e.1 := by
  induction es generalizing found with
  | nil =>
    obtain rfl := Except.ok.inj h
    exact hfound
  | cons e es ih =>
    obtain ⟨he, hes⟩ := List.forall_mem_cons.mp hes
    rw [List.foldlM_cons] at h
    obtain ⟨mid, hmid, h⟩ := bind_eq_ok_iff.mp h
    obtain ⟨fs, -, hmid⟩ := bind_eq_ok_iff.mp hmid
    exact ih hes (addAll_keys he hfound hmid) h

theorem foldl_byField_keys (fields : Findings α) (hfields : ∀ f ∈ fields, P f.1)
    (hfound : ∀ e ∈ found, P e.1) : ∀ f ∈ found.foldl (fun fields e =>
      if fields.any (·.1.same e.1) then
        fields.map fun g => if g.1.same e.1 then (g.1, g.2 ++ [e.2]) else g
      else fields ++ [(e.1, [e.2])]) fields, P f.1 := by
  induction found generalizing fields with
  | nil => exact hfields
  | cons e found ih =>
    obtain ⟨he, hfound⟩ := List.forall_mem_cons.mp hfound
    refine ih _ (fun f hf => ?_) hfound
    dsimp only at hf
    split_ifs at hf
    · obtain ⟨g, hg, rfl⟩ := List.mem_map.mp hf
      split_ifs
      · exact hfields g hg
      · exact hfields g hg
    · rcases List.mem_append.mp hf with hf | hf
      · exact hfields f hf
      · rwa [List.mem_singleton.mp hf]

theorem byField_keys (hfound : ∀ e ∈ found, P e.1) : ∀ f ∈ byField found, P f.1 :=
  foldl_byField_keys [] (by simp) hfound

end Finding

namespace Rules

theorem requireFields_keys {es : List (Value α × Value α)} {keys : List (List Char)}
    (hkeys : ∀ k ∈ keys, P (.text (spell k))) (hfound : ∀ e ∈ found, P e.1)
    (h : requireFields es found keys = .ok next) : ∀ e ∈ next, P e.1 := by
  induction keys generalizing found with
  | nil =>
    obtain rfl := Except.ok.inj h
    exact hfound
  | cons key keys ih =>
    obtain ⟨hkey, hkeys⟩ := List.forall_mem_cons.mp hkeys
    rw [requireFields] at h
    split at h
    · exact ih hkeys hfound h
    · obtain ⟨mid, hmid, h⟩ := bind_eq_ok_iff.mp h
      exact ih hkeys (Finding.add_keys hkey hfound hmid) h

theorem mappingFindings_keys {required : List (List Char)}
    {checks : List (List Char × ValueCheck α)} {es : List (Value α × Value α)} {fields : Findings α}
    (hes : ∀ e ∈ es, P e.1) (hrequired : ∀ k ∈ required, P (.text (spell k)))
    (h : mappingFindings required checks es = .ok fields) : ∀ f ∈ fields, P f.1 := by
  obtain ⟨inEntries, all, hentries, hall, rfl⟩ := mappingFindings_eq_ok_iff.mp h
  have hinEntries := Finding.foldlM_addAll_keys hes (by simp) hentries
  exact Finding.byField_keys (requireFields_keys hrequired hinEntries hall)

end Rules

end

/-! ## Checks that come to an end -/

namespace Finding

variable {found : List (Value α × Finding α)}

/-- Findings about fields that are texts can be put in order. -/
theorem comparable_of_textKeys (h : TextKeys found) : Order.Comparable precedes found := by
  intro a ha b hb
  obtain ⟨s, hs⟩ := h a ha
  obtain ⟨t, ht⟩ := h b hb
  rw [precedes, hs, ht]
  split_ifs
  · exact ⟨_, rfl⟩
  · exact ⟨_, rfl⟩

theorem exists_add {key : Value α} (hkey : key.IsText) (h : TextKeys found) (f : Finding α) :
    ∃ next, add found key f = .ok next := by
  refine Order.exists_sortBy (comparable_of_textKeys fun e he => ?_)
  rcases List.mem_append.mp he with he | he
  · exact h e he
  · rwa [List.mem_singleton.mp he]

theorem exists_addAll {key : Value α} (hkey : key.IsText) (h : TextKeys found)
    (fs : List (Finding α)) : ∃ next, addAll found key fs = .ok next := by
  induction fs generalizing found with
  | nil => exact ⟨found, rfl⟩
  | cons f fs ih =>
    obtain ⟨mid, hmid⟩ := exists_add hkey h f
    exact exists_bind_iff.mpr ⟨mid, hmid, ih (add_keys hkey h hmid)⟩

theorem exists_foldlM_addAll {check : Value α × Value α → Except (Raised α) (List (Finding α))}
    {es : List (Value α × Value α)} (hes : TextKeys es)
    (hcheck : ∀ e ∈ es, ∃ fs, check e = .ok fs) (h : TextKeys found) :
    ∃ next, es.foldlM (fun found e => do addAll found e.1 (← check e)) found = .ok next := by
  induction es generalizing found with
  | nil => exact ⟨found, rfl⟩
  | cons e es ih =>
    obtain ⟨he, hes⟩ := List.forall_mem_cons.mp hes
    obtain ⟨⟨fs, hfs⟩, hcheck⟩ := List.forall_mem_cons.mp hcheck
    obtain ⟨mid, hmid⟩ := exists_addAll he h fs
    have hnext := ih hes hcheck (addAll_keys he h hmid)
    rw [List.foldlM_cons]
    exact exists_bind_iff.mpr ⟨mid, bind_eq_ok_iff.mpr ⟨fs, hfs, hmid⟩, hnext⟩

end Finding

namespace Rules

theorem exists_requireFields {es : List (Value α × Value α)} {found : List (Value α × Finding α)}
    (h : TextKeys found) (keys : List (List Char)) :
    ∃ all, requireFields es found keys = .ok all := by
  induction keys generalizing found with
  | nil => exact ⟨found, rfl⟩
  | cons key keys ih =>
    rw [requireFields]
    split
    · exact ih h
    · obtain ⟨mid, hmid⟩ := Finding.exists_add (Value.isText_text (spell key)) h (.complaint .required)
      exact exists_bind_iff.mpr ⟨mid, hmid, ih (Finding.add_keys (Value.isText_text _) h hmid)⟩

theorem exists_mappingFindings {required : List (List Char)}
    {checks : List (List Char × ValueCheck α)} {es : List (Value α × Value α)} (hes : TextKeys es)
    (hentries : ∀ e ∈ es, ∃ fs, entryFindings checks e = .ok fs) :
    ∃ fields, mappingFindings required checks es = .ok fields := by
  have hstart : TextKeys ([] : List (Value α × Finding α)) := nofun
  obtain ⟨inEntries, hinEntries⟩ := Finding.exists_foldlM_addAll hes hentries hstart
  have hkeys : TextKeys inEntries := Finding.foldlM_addAll_keys hes (by simp) hinEntries
  obtain ⟨all, hall⟩ := exists_requireFields hkeys required
  exact ⟨_, mappingFindings_eq_ok_iff.mpr ⟨inEntries, all, hinEntries, hall, rfl⟩⟩

omit [Letter α] in
theorem exists_memberFindings {check : ValueCheck α} {vs : List (Value α)}
    (h : ∀ v ∈ vs, ∃ fs, check v = .ok fs) (place : ℕ) :
    ∃ fields, memberFindings check place vs = .ok fields := by
  induction vs generalizing place with
  | nil => exact ⟨[], rfl⟩
  | cons v vs ih =>
    obtain ⟨⟨fs, hfs⟩, hvs⟩ := List.forall_mem_cons.mp h
    obtain ⟨rest, hrest⟩ := ih hvs (place + 1)
    exact exists_bind_iff.mpr ⟨fs, hfs, exists_bind_iff.mpr ⟨rest, hrest, _, rfl⟩⟩

theorem exists_typeComplaints {types : List ValueType} {hasItems : Bool} {v : Value α}
    (h : ∀ es, hasItems = true → v = .map es → Value.get? (word "type") es = none) :
    ∃ cs, typeComplaints types hasItems v = .ok cs := by
  cases v with
  | null => exact ⟨_, rfl⟩
  | map es =>
    rw [typeComplaints]
    have huntyped : ¬(hasItems && (Value.get? (word "type") es).isSome) = true := by
      rw [Bool.and_eq_true]
      rintro ⟨hitems, hsome⟩
      rw [h es hitems rfl] at hsome
      cases hsome
    simp only [if_neg huntyped]
    split_ifs
    · exact ⟨_, rfl⟩
    · exact ⟨_, rfl⟩
  | _ =>
    rw [typeComplaints]
    · split_ifs
      · exact ⟨_, rfl⟩
      · exact ⟨_, rfl⟩
    all_goals exact nofun

/-- If the rules for fields come to an end, so do those for a mapping. -/
theorem exists_checkMapping {fs : FieldRules α}
    (hfs : ∀ f ∈ fs, ∀ v, Checkable f.2 v → ∃ found, f.2.check v = .ok found)
    {es : List (Value α × Value α)} (h : CheckableAll fs es) :
    ∃ fields, mappingFindings (requiredKeys fs) (checks fs) es = .ok fields := by
  obtain ⟨keys, each⟩ := h
  refine exists_mappingFindings keys fun e he => ?_
  rcases exists_lookup_or_unknown fs e with ⟨k, r, hkey, hr⟩ | hunknown
  · rw [entryFindings_of_lookup hkey hr]
    exact hfs (k, r) (mem_of_lookup hr) e.2 (each e he k r hkey hr)
  · exact ⟨_, hunknown⟩

mutual

theorem exists_check : (r : Rules α) → (v : Value α) → Checkable r v →
    ∃ found, r.check v = .ok found
  | ⟨types, required, mayBeEmpty, least, own, items, fields⟩, v, h => by
    obtain ⟨untyped, ofOwn, ofItems, ofFields⟩ := h
    have hmapping : ∀ es, items.isSome = true → v = .map es →
        Value.get? (word "type") es = none := by
      intro es hitems hv
      obtain ⟨s, hs⟩ := Option.isSome_iff_exists.mp hitems
      exact untyped s es hs hv
    have hwrong : ∃ wrong, typeComplaints types items.isSome v = .ok wrong :=
      exists_typeComplaints hmapping
    obtain ⟨wrong, hwrong⟩ := hwrong
    obtain ⟨special, hspecial⟩ := exists_forall₂_iff.mpr ofOwn
    obtain ⟨inItems, hinItems⟩ := exists_checkItems items v ofItems
    obtain ⟨inFields, hinFields⟩ := exists_checkFields fields v ofFields
    rw [check]
    refine exists_bind_iff.mpr ⟨wrong, hwrong, ?_⟩
    split
    · exact ⟨_, rfl⟩
    · exact exists_bind_iff.mpr ⟨special, mapM_eq_ok_iff.mpr hspecial, exists_bind_iff.mpr
        ⟨inItems, hinItems, exists_bind_iff.mpr ⟨inFields, hinFields, _, rfl⟩⟩⟩

theorem exists_checkItems : (items : Option (Rules α)) → (v : Value α) →
    (∀ s, items = some s → ∀ w ∈ v.members, Checkable s w) → ∃ found, checkItems items v = .ok found
  | none, v, _ => ⟨[], by rw [checkItems]⟩
  | some r, v, h => by
    have hmembers := fun w hw => exists_check r w (h r rfl w hw)
    obtain ⟨fields, hfields⟩ := exists_memberFindings hmembers 0
    rw [checkItems]
    exact exists_bind_iff.mpr ⟨fields, hfields, _, rfl⟩

theorem exists_checkFields : (fields : Option (FieldRules α)) → (v : Value α) →
    (∀ fs es, fields = some fs → v = .map es → CheckableAll fs es) →
    ∃ found, checkFields fields v = .ok found
  | none, v, _ => ⟨[], by rw [checkFields]; exact nofun⟩
  | some fs, v, h => by
    have hfs := exists_checks fs
    cases v with
    | map es =>
      obtain ⟨fields, hfields⟩ := exists_checkMapping hfs (h fs es rfl rfl)
      rw [checkFields]
      exact exists_bind_iff.mpr ⟨fields, hfields, _, rfl⟩
    | _ => exact ⟨[], by rw [checkFields]; exact nofun⟩

theorem exists_checks : (fs : FieldRules α) →
    ∀ f ∈ fs, ∀ v, Checkable f.2 v → ∃ found, f.2.check v = .ok found
  | [] => nofun
  | (key, r) :: fs => by
    have hr := exists_check r
    have hfs := exists_checks fs
    exact List.forall_mem_cons.mpr ⟨hr, hfs⟩

end

end Rules

/-! ## The laws -/

namespace Rules

theorem exists_own_of_check {r : Rules α} {v : Value α} {fs : List (Finding α)}
    (h : r.check v = .ok fs) (htype : ∃ t ∈ r.types, t.admits v = true) :
    ∀ rule ∈ r.own, ∃ cs, rule v = .ok cs := by
  obtain ⟨special, _, _, hspecial, -⟩ := (check_eq_ok_iff htype).mp h
  exact exists_forall₂_iff.mp ⟨special, mapM_eq_ok_iff.mp hspecial⟩

/-- Where the entries of a mapping are checked, each of them is. -/
theorem exists_of_foldlM_addAll {check : Value α × Value α → Except (Raised α) (List (Finding α))}
    {es : List (Value α × Value α)} {found next : List (Value α × Finding α)}
    (h : es.foldlM (fun found e => do Finding.addAll found e.1 (← check e)) found = .ok next) :
    ∀ e ∈ es, ∃ fs, check e = .ok fs := by
  induction es generalizing found with
  | nil => simp
  | cons e es ih =>
    rw [List.foldlM_cons] at h
    obtain ⟨mid, hmid, h⟩ := bind_eq_ok_iff.mp h
    obtain ⟨fs, hfs, -⟩ := bind_eq_ok_iff.mp hmid
    exact List.forall_mem_cons.mpr ⟨⟨fs, hfs⟩, ih h⟩

end Rules

theorem Validator.standard_eq_ok_iff {fs : FieldRules α} {es : List (Value α × Value α)}
    {verdict : Verdict α} :
    Validator.standard fs es = .ok verdict ↔ ∃ found,
      Rules.mappingFindings (Rules.requiredKeys fs) (Rules.checks fs) es = .ok found ∧
      verdict = ⟨found, es⟩ := by
  constructor
  · intro h
    obtain ⟨found, hfound, h⟩ := bind_eq_ok_iff.mp h
    exact ⟨found, hfound, (Except.ok.inj h).symm⟩
  · rintro ⟨found, hfound, rfl⟩
    exact bind_eq_ok_iff.mpr ⟨found, hfound, rfl⟩

/-- The validator goes by all rules. -/
theorem Validator.standard_obeys (fs : FieldRules α) : Validator.standard.Obeys fs where
  accepts es := by
    have hfs := Rules.checks_eq_nil_iff fs
    rw [← Rules.mappingFindings_checks_eq_nil_iff hfs]
    simp only [standard_eq_ok_iff]
    constructor
    · rintro ⟨d, found, hfound, h⟩
      rwa [← show ([] : Findings α) = found from congrArg Verdict.errors h] at hfound
    · exact fun h => ⟨es, [], h, rfl⟩
  keeps h := by
    obtain ⟨found, -, h⟩ := standard_eq_ok_iff.mp h
    exact congrArg Verdict.document h
  runs h e he k r hkey hr htype := by
    obtain ⟨found, hfound, -⟩ := standard_eq_ok_iff.mp h
    obtain ⟨inEntries, _, hentries, -, -⟩ := Rules.mappingFindings_eq_ok_iff.mp hfound
    obtain ⟨cs, hcs⟩ := Rules.exists_of_foldlM_addAll hentries e he
    rw [Rules.entryFindings_of_lookup hkey hr] at hcs
    exact Rules.exists_own_of_check hcs htype
  fields {es verdict} h := by
    obtain ⟨found, hfound, rfl⟩ := standard_eq_ok_iff.mp h
    have hrequired : ∀ k ∈ Rules.requiredKeys fs,
        ∃ g ∈ fs, (.text (spell k) : Value α) = .text (spell g.1) := by
      intro k hk
      obtain ⟨g, hg, rfl⟩ := List.mem_map.mp hk
      exact ⟨g, (List.mem_filter.mp hg).1, rfl⟩
    exact Rules.mappingFindings_keys
      (P := fun v => v ∈ es.map (·.1) ∨ ∃ g ∈ fs, v = .text (spell g.1))
      (fun e he => Or.inl (List.mem_map_of_mem he)) (fun k hk => Or.inr (hrequired k hk)) hfound

theorem Validator.standard_ends (fs : FieldRules α) : Validator.standard.Ends fs := by
  intro es hes
  obtain ⟨found, hfound⟩ := Rules.exists_checkMapping (Rules.exists_checks fs) hes
  exact ⟨⟨found, es⟩, standard_eq_ok_iff.mpr ⟨found, hfound, rfl⟩⟩

end Immittance
