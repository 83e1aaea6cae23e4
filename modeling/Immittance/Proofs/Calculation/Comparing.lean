import Mathlib
import Immittance.Calculation.Schema
import Immittance.Proofs.Calculation.Rules
import Immittance.Proofs.Calculation.Writing

/-!
# Names that can be compared

Names are compared while they may still be of any type. The rule for them comes to an end exactly if
all of them can be keys, those that stand behind an equal one are of one rank, and those that are
shared can be written. So the check of a document comes to an end if its keys are texts and the names
in its list are such names.
-/

set_option autoImplicit false

namespace Immittance

theorem Value.wholesAll_of_texts {α : Type} {vs : List (Value α)} (h : ∀ v ∈ vs, v.IsText) :
    wholesAll vs = [] := by
  induction vs with
  | nil => rfl
  | cons v vs ih =>
    obtain ⟨⟨s, rfl⟩, hvs⟩ := List.forall_mem_cons.mp h
    exact ih hvs

namespace Schema

open Letter

variable {α : Type} [Letter α]

def Repeats (ns : List (Value α)) (n : Value α) : Prop :=
  ∃ m, [m, n].Sublist ns ∧ m.same n = true

theorem Repeats.mem {ns : List (Value α)} {n : Value α} (h : Repeats ns n) : n ∈ ns := by
  obtain ⟨_, hsub, _⟩ := h
  exact hsub.subset (by simp)

structure Nameable (vs : List (Value α)) : Prop where
  keys : ∀ n ∈ names vs, n.notKey? = none
  oneRank : ∀ m n, Repeats (names vs) m → Repeats (names vs) n → m.rank? = n.rank?
  written : ∀ shared, duplicates vs = .ok shared → Value.Short (Value.wholesAll shared)

/-! ## Ranks of names -/

theorem rank?_eq_of_same {m n : Value α} (h : m.same n = true) : m.rank? = n.rank? := by
  cases m <;> cases n <;> simp_all [Value.same, Value.isNumber, Value.rank?]

theorem exists_rank?_of_key {n : Value α} (hkey : n.notKey? = none) (hnull : n ≠ .null) :
    ∃ k, n.rank? = some k := by
  cases n with
  | null => exact absurd rfl hnull
  | list | pairs | set | map => cases hkey
  | _ => exact ⟨_, rfl⟩

theorem ne_null_of_mem_names {vs : List (Value α)} {n : Value α} (h : n ∈ names vs) : n ≠ .null := by
  induction vs with
  | nil => cases h
  | cons v vs ih =>
    cases v with
    | map es =>
      rw [names] at h
      split at h
      · exact ih h
      · exact ih h
      · next w hnull hw =>
        rcases List.mem_cons.mp h with rfl | h
        · rintro rfl
          exact hnull rfl
        · exact ih h
    | _ => exact ih h

/-! ## What is repeated -/

theorem exists_repeated_iff {seen ns : List (Value α)} :
    (∃ again, repeated seen ns = .ok again) ↔ ∀ n ∈ ns, n.notKey? = none := by
  induction ns generalizing seen with
  | nil => exact iff_of_true ⟨_, rfl⟩ (by simp)
  | cons n ns ih =>
    rw [repeated, List.forall_mem_cons]
    cases hn : n.notKey? with
    | some e => simp
    | none =>
      dsimp only
      rw [eq_self, true_and]
      split
      · rw [exists_map_iff, ih]
      · exact ih

theorem repeated_cons {seen ns : List (Value α)} {n : Value α} (hn : n.notKey? = none) :
    repeated seen (n :: ns) =
      if seen.any (·.same n) then do return n :: (← repeated seen ns) else repeated (n :: seen) ns := by
  rw [repeated, hn]

/-- What is repeated stands behind an equal value, one of those seen before or one of the list. -/
theorem repeats_of_mem_repeated {seen ns again : List (Value α)} (h : repeated seen ns = .ok again)
    {n : Value α} (hn : n ∈ again) : (∃ m ∈ seen, n ∈ ns ∧ m.same n = true) ∨ Repeats ns n := by
  have hkeys := exists_repeated_iff.mp ⟨again, h⟩
  induction ns generalizing seen again with
  | nil =>
    obtain rfl := Except.ok.inj h
    cases hn
  | cons w ns ih =>
    obtain ⟨hw, hkeys⟩ := List.forall_mem_cons.mp hkeys
    have hbehind : ∀ {m : Value α}, Repeats ns m → Repeats (w :: ns) m :=
      fun {_} ⟨v, hsub, hsame⟩ => ⟨v, hsub.cons w, hsame⟩
    rw [repeated_cons hw] at h
    by_cases hany : seen.any (·.same w) = true
    · rw [if_pos hany] at h
      obtain ⟨rest, hrest, h⟩ := bind_eq_ok_iff.mp h
      obtain rfl := Except.ok.inj h
      rcases List.mem_cons.mp hn with rfl | hn
      · obtain ⟨m, hm, hsame⟩ := List.any_eq_true.mp hany
        exact Or.inl ⟨m, hm, List.mem_cons_self, hsame⟩
      · rcases ih hrest hn hkeys with ⟨m, hm, hmem, hsame⟩ | hrepeats
        · exact Or.inl ⟨m, hm, List.mem_cons_of_mem w hmem, hsame⟩
        · exact Or.inr (hbehind hrepeats)
    · rw [if_neg hany] at h
      rcases ih h hn hkeys with ⟨m, hm, hmem, hsame⟩ | hrepeats
      · rcases List.mem_cons.mp hm with rfl | hm
        · exact Or.inr ⟨m, (List.singleton_sublist.mpr hmem).cons_cons m, hsame⟩
        · exact Or.inl ⟨m, hm, List.mem_cons_of_mem w hmem, hsame⟩
      · exact Or.inr (hbehind hrepeats)

/-- Of what stands behind an equal value, one of its rank is repeated: it or the equal value. -/
theorem exists_mem_repeated {seen ns again : List (Value α)} (h : repeated seen ns = .ok again)
    {n : Value α} (hn : (∃ m ∈ seen, n ∈ ns ∧ m.same n = true) ∨ Repeats ns n) :
    ∃ a ∈ again, a.rank? = n.rank? := by
  have hkeys := exists_repeated_iff.mp ⟨again, h⟩
  induction ns generalizing seen again with
  | nil =>
    rcases hn with ⟨_, _, hmem, _⟩ | ⟨_, hsub, _⟩
    · cases hmem
    · cases hsub
  | cons w ns ih =>
    obtain ⟨hw, hkeys⟩ := List.forall_mem_cons.mp hkeys
    rw [repeated_cons hw] at h
    by_cases hany : seen.any (·.same w) = true
    · rw [if_pos hany] at h
      obtain ⟨rest, hrest, h⟩ := bind_eq_ok_iff.mp h
      obtain rfl := Except.ok.inj h
      have hrank : w.rank? = n.rank? ∨ ∃ a ∈ rest, a.rank? = n.rank? := by
        rcases hn with ⟨m, hm, hmem, hsame⟩ | ⟨m, hsub, hsame⟩
        · rcases List.mem_cons.mp hmem with rfl | hmem
          · exact Or.inl rfl
          · exact Or.inr (ih hrest (Or.inl ⟨m, hm, hmem, hsame⟩) hkeys)
        · rcases List.sublist_cons_iff.mp hsub with hsub | ⟨_, heq, _⟩
          · exact Or.inr (ih hrest (Or.inr ⟨m, hsub, hsame⟩) hkeys)
          · rw [← (List.cons.inj heq).1]
            exact Or.inl (rank?_eq_of_same hsame)
      simpa using hrank
    · rw [if_neg hany] at h
      refine ih h ?_ hkeys
      rcases hn with ⟨m, hm, hmem, hsame⟩ | ⟨m, hsub, hsame⟩
      · rcases List.mem_cons.mp hmem with rfl | hmem
        · exact absurd (List.any_eq_true.mpr ⟨m, hm, hsame⟩) hany
        · exact Or.inl ⟨m, List.mem_cons_of_mem w hm, hmem, hsame⟩
      · rcases List.sublist_cons_iff.mp hsub with hsub | ⟨_, heq, hsub⟩
        · exact Or.inr ⟨m, hsub, hsame⟩
        · obtain ⟨rfl, rfl⟩ := List.cons.inj heq
          exact Or.inl ⟨m, List.mem_cons_self, List.singleton_sublist.mp hsub, hsame⟩

/-! ## What is shared -/

theorem mem_of_mem_foldl_distinct {vs found : List (Value α)} {w : Value α}
    (h : w ∈ vs.foldl (fun found v => if found.any (·.same v) then found else found ++ [v]) found) :
    w ∈ found ∨ w ∈ vs := by
  induction vs generalizing found with
  | nil => exact Or.inl h
  | cons v vs ih =>
    rw [List.foldl_cons] at h
    rcases ih h with hw | hw
    · split_ifs at hw
      · exact Or.inl hw
      · rcases List.mem_append.mp hw with hw | hw
        · exact Or.inl hw
        · exact Or.inr (List.mem_cons.mpr (Or.inl (List.mem_singleton.mp hw)))
    · exact Or.inr (List.mem_cons_of_mem v hw)

theorem mem_of_mem_distinct {vs : List (Value α)} {w : Value α} (h : w ∈ distinct vs) : w ∈ vs :=
  (mem_of_mem_foldl_distinct h).resolve_left List.not_mem_nil

theorem repeats_of_mem_distinct {ns again : List (Value α)} (h : repeated [] ns = .ok again)
    {n : Value α} (hn : n ∈ distinct again) : Repeats ns n :=
  (repeats_of_mem_repeated h (mem_of_mem_distinct hn)).resolve_left (by simp)

theorem exists_mem_foldl_distinct {vs found : List (Value α)} {w : Value α}
    (h : (∃ d ∈ found, d.rank? = w.rank?) ∨ w ∈ vs) :
    ∃ d ∈ vs.foldl (fun found v => if found.any (·.same v) then found else found ++ [v]) found,
      d.rank? = w.rank? := by
  induction vs generalizing found with
  | nil => exact h.resolve_right List.not_mem_nil
  | cons v vs ih =>
    rw [List.foldl_cons]
    apply ih
    rw [List.mem_cons] at h
    split_ifs with hany
    · rcases h with h | rfl | h
      · exact Or.inl h
      · obtain ⟨d, hd, hsame⟩ := List.any_eq_true.mp hany
        exact Or.inl ⟨d, hd, rank?_eq_of_same hsame⟩
      · exact Or.inr h
    · rcases h with ⟨d, hd, hrank⟩ | rfl | h
      · exact Or.inl ⟨d, List.mem_append_left _ hd, hrank⟩
      · exact Or.inl ⟨w, by simp, rfl⟩
      · exact Or.inr h

theorem exists_mem_distinct {vs : List (Value α)} {w : Value α} (h : w ∈ vs) :
    ∃ d ∈ distinct vs, d.rank? = w.rank? :=
  exists_mem_foldl_distinct (Or.inr h)

/-- Shared names can be found and sorted exactly if all names are keys and those behind an equal one
are of one rank. -/
theorem exists_duplicates_iff {vs : List (Value α)} :
    (∃ shared, duplicates vs = .ok shared) ↔ (∀ n ∈ names vs, n.notKey? = none) ∧
      ∀ m n, Repeats (names vs) m → Repeats (names vs) n → m.rank? = n.rank? := by
  rw [duplicates, exists_bind_iff]
  simp only [Order.exists_sortBy_iff Value.exists_before_iff]
  constructor
  · rintro ⟨again, hagain, hsorts⟩
    refine ⟨exists_repeated_iff.mp ⟨again, hagain⟩, fun m n hm hn => ?_⟩
    obtain ⟨a, ha, hma⟩ := exists_mem_repeated hagain (Or.inr hm)
    obtain ⟨b, hb, hnb⟩ := exists_mem_repeated hagain (Or.inr hn)
    obtain ⟨d, hd, had⟩ := exists_mem_distinct ha
    obtain ⟨e, he, hbe⟩ := exists_mem_distinct hb
    rw [← hma, ← hnb, ← had, ← hbe]
    rcases hsorts with hlen | ⟨k, hk⟩
    · match distinct again, hlen, hd, he with
      | [_], _, hd, he => rw [List.mem_singleton.mp hd, List.mem_singleton.mp he]
    · rw [hk d hd, hk e he]
  · rintro ⟨hkeys, hranks⟩
    obtain ⟨again, hagain⟩ := exists_repeated_iff.mpr hkeys
    refine ⟨again, hagain, ?_⟩
    have hrepeats : ∀ d ∈ distinct again, Repeats (names vs) d :=
      fun _ hd => repeats_of_mem_distinct hagain hd
    cases hd : distinct again with
    | nil => exact Or.inl (Nat.zero_le 1)
    | cons d ds =>
      rw [hd] at hrepeats
      have hname := (hrepeats d List.mem_cons_self).mem
      obtain ⟨k, hk⟩ := exists_rank?_of_key (hkeys d hname) (ne_null_of_mem_names hname)
      exact Or.inr ⟨k, fun e he =>
        (hranks e d (hrepeats e he) (hrepeats d List.mem_cons_self)).trans hk⟩

theorem mem_names_of_mem_duplicates {vs shared : List (Value α)} (h : duplicates vs = .ok shared)
    {n : Value α} (hn : n ∈ shared) : n ∈ names vs := by
  obtain ⟨again, hagain, hsorted⟩ := bind_eq_ok_iff.mp h
  exact (repeats_of_mem_distinct hagain ((Order.sortBy_perm hsorted).subset hn)).mem

/-- Names that are texts can be compared. -/
theorem nameable_of_texts {vs : List (Value α)} (h : ∀ n ∈ names vs, n.IsText) : Nameable vs := by
  have hrank : ∀ n, Repeats (names vs) n → n.rank? = some .text := fun n hn => by
    obtain ⟨s, rfl⟩ := h n hn.mem
    rfl
  constructor
  case keys =>
    intro n hn
    obtain ⟨s, rfl⟩ := h n hn
    rfl
  case oneRank => exact fun m n hm hn => (hrank m hm).trans (hrank n hn).symm
  case written =>
    intro shared hshared
    rw [Value.wholesAll_of_texts fun n hn => h n (mem_names_of_mem_duplicates hshared hn)]
    exact Value.short_nil

/-! ## The rule -/

/-- The rule for names comes to an end. -/
theorem exists_namesRule_iff {vs : List (Value α)} :
    (∃ cs, namesRule (.list vs) = .ok cs) ↔ Nameable vs := by
  rw [namesRule, exists_bind_iff]
  constructor
  · rintro ⟨shared, hshared, hrule⟩
    obtain ⟨hkeys, hranks⟩ := exists_duplicates_iff.mp ⟨shared, hshared⟩
    refine ⟨hkeys, hranks, fun other hother => ?_⟩
    obtain rfl := Except.ok.inj (hshared.symm.trans hother)
    cases shared with
    | nil => exact Value.short_nil
    | cons n ns =>
      obtain ⟨s, hs, -⟩ := exists_bind_iff.mp hrule
      exact Complaint.exists_message_iff.mp ⟨s, hs⟩
  · rintro ⟨hkeys, hranks, hwritten⟩
    obtain ⟨shared, hshared⟩ := exists_duplicates_iff.mpr ⟨hkeys, hranks⟩
    refine ⟨shared, hshared, ?_⟩
    cases shared with
    | nil => exact ⟨_, rfl⟩
    | cons n ns =>
      obtain ⟨s, hs⟩ := (Complaint.exists_message_iff (c := .duplicates (n :: ns))).mpr
        (hwritten _ hshared)
      exact exists_bind_iff.mpr ⟨s, hs, _, rfl⟩

/-! ## Documents that are checked to the end -/

/-- The keys of the document and of the calculations in its list are texts and the names can be
compared. There is no mapping with a type in the place of the list. -/
structure Plain (es : List (Value α × Value α)) : Prop where
  keys : TextKeys es
  list : ∀ e ∈ es, e.1 = .text (word listField) → ∀ vs, e.2 = .list vs →
    Nameable vs ∧ ∀ fs, .map fs ∈ vs → TextKeys fs
  untyped : ∀ e ∈ es, e.1 = .text (word listField) → ∀ fs, e.2 = .map fs →
    Value.get? (word "type") fs = none

theorem checkable_of_noFields {r : Rules α} {v : Value α}
    (own : ∀ rule ∈ r.own, ∃ cs, rule v = .ok cs) (items : r.items = none)
    (fields : r.fields = none) : Checkable r v := by
  refine .intro ?_ own ?_ ?_
  · simp [items]
  · simp [items]
  · simp [fields]

theorem exists_nameRule (v : Value α) : ∃ cs, nameRule v = .ok cs := by
  cases v with
  | _ => exact ⟨_, rfl⟩

theorem checkable_calculation {v : Value α} (h : ∀ fs, v = .map fs → TextKeys fs) :
    Checkable calculation v := by
  refine .intro nofun (by simp [calculation]) nofun ?_
  intro fs es hfs hes
  obtain rfl : fields = fs := Option.some.inj hfs
  refine .intro (h es hes) fun e he k r _ hr => ?_
  have hmem := mem_of_lookup hr
  simp only [fields, List.mem_cons, Prod.mk.injEq, List.not_mem_nil, or_false] at hmem
  rcases hmem with ⟨_, rfl⟩ | ⟨_, rfl⟩ | ⟨_, rfl⟩
  · exact checkable_of_noFields (by simpa [nameRules] using exists_nameRule e.2) rfl rfl
  · exact checkable_of_noFields (by simp [expressionRules]) rfl rfl
  · exact checkable_of_noFields (by simp [frequencyRules]) rfl rfl

theorem exists_namesRule {v : Value α} (h : ∀ vs, v = .list vs → Nameable vs) :
    ∃ cs, namesRule v = .ok cs := by
  cases v with
  | list vs => exact exists_namesRule_iff.mpr (h vs rfl)
  | _ => exact ⟨_, rfl⟩

omit [Letter α] in
theorem mem_list_of_mem_members {v : Value α} {fs : List (Value α × Value α)}
    (h : .map fs ∈ v.members) : ∃ vs, v = .list vs ∧ .map fs ∈ vs := by
  cases v with
  | list vs => exact ⟨vs, rfl, h⟩
  | pairs es => simp [Value.members] at h
  | bytes bs => simp [Value.members] at h
  | _ => cases h

/-- The check of a plain document meets nothing that it cannot get past. -/
theorem Plain.checkable {es : List (Value α × Value α)} (h : Plain es) :
    CheckableAll document es := by
  refine .intro h.keys fun e he k r hkey hr => ?_
  have hmem := mem_of_lookup hr
  simp only [document, List.mem_singleton, Prod.mk.injEq] at hmem
  obtain ⟨rfl, rfl⟩ := hmem
  have hlist := h.list e he hkey
  refine .intro (fun _ fs _ hfs => h.untyped e he hkey fs hfs) ?_ ?_ nofun
  · simpa [Schema.list] using exists_namesRule fun vs hvs => (hlist vs hvs).1
  · intro s hs w hw
    obtain rfl : calculation = s := Option.some.inj hs
    refine checkable_calculation ?_
    rintro fs rfl
    obtain ⟨vs, hvs, hfs⟩ := mem_list_of_mem_members hw
    exact (hlist vs hvs).2 fs hfs

end Schema

end Immittance
