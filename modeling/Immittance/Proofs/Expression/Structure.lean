import Mathlib
import Immittance.Proofs.Expression.Layout

/-!
# The structure of an expression in its circuit

Every opening parenthesis of an expression is a group of the circuit, the groups are nested as deep as
the parentheses behind the first, and the parts are found in order by one pass over the text that
knows nothing of nesting. The members of a body are balanced, which keeps a parenthesis or a comma
from hiding in the name of a group or in a token.
-/

set_option autoImplicit false

namespace Immittance

open Text Expression

namespace Circuit

section
variable {α : Type}

mutual

def groupCount : Circuit α → ℕ
  | .part _ => 0
  | .group _ members => 1 + groupCounts members

def groupCounts : List (Circuit α) → ℕ
  | [] => 0
  | c :: cs => groupCount c + groupCounts cs

end

mutual

def depth : Circuit α → ℕ
  | .part _ => 0
  | .group _ members => 1 + depths members

def depths : List (Circuit α) → ℕ
  | [] => 0
  | c :: cs => max (depth c) (depths cs)

end

end

end Circuit

namespace Expression

/-! ## What members add up to -/

theorem plain_of_member {u t : List Char} (hb : Balanced (u ++ t)) (hw : Whole (u ++ t))
    (hu : '(' ∉ u) : Plain u := by
  have hclose := not_mem_close hb hu
  refine ⟨hu, hclose, fun hcomma => ?_⟩
  obtain ⟨p, q, -, rfl⟩ := exists_first hcomma
  have hne := hw p (q ++ t) (by simp)
  rw [List.count_eq_zero_of_not_mem fun h => hu (by simp [h]),
    List.count_eq_zero_of_not_mem fun h => hclose (by simp [h])] at hne
  exact hne rfl

structure AddsUp {α : Type} (f : List Char → α) (op : α → α → α) (e : α) : Prop where
  blank : ∀ s, Blank s → f s = e
  comma : ∀ p s, level p = 0 → f (p ++ ',' :: s) = op (f p) (f s)
  unit : ∀ s, op (f s) e = f s

namespace AddsUp

variable {α : Type} {f : List Char → α} {op : α → α → α} {e : α}

theorem joined (hf : AddsUp f op e) {ps : List (List Char)} (hps : ∀ p ∈ ps, level p = 0) :
    f (Expression.joined ps) = ps.foldr (fun p a => op (f p) a) e := by
  induction ps with
  | nil => exact hf.blank [] blank_nil
  | cons p ps ih =>
    have htail := ih fun q hq => hps q (List.mem_cons_of_mem _ hq)
    cases ps with
    | nil => rw [joined_singleton, List.foldr_cons, List.foldr_nil, hf.unit]
    | cons q ps =>
      rw [joined_cons_cons, hf.comma _ _ (hps p (by simp)), htail]
      rfl

/-- What adds up at commas adds up over the members of a body. -/
theorem members (hf : AddsUp f op e) {b : List Char} {ps : List (List Char)} (h : Members b ps) :
    f b = ps.foldr (fun p a => op (f p) a) e := by
  cases h with
  | none hb => exact hf.blank b hb
  | list hne hb heach =>
    have hlevel : ∀ p ∈ ps, level p = 0 := by
      intro p hp
      simpa using (balanced_iff_closes.mp (heach p hp).1).1
    rcases hb with rfl | rfl
    · exact hf.joined hlevel
    · -- a comma at the end has an empty text behind it, which adds nothing
      have hlast : ∀ p ∈ ps ++ [[]], level p = 0 := by
        intro p hp
        rcases List.mem_append.mp hp with hp | hp
        · exact hlevel p hp
        · rw [List.mem_singleton.mp hp, level_nil]
      rw [← joined_concat_nil hne, hf.joined hlast, List.foldr_append, List.foldr_cons,
        List.foldr_nil, hf.unit, hf.blank [] blank_nil]

end AddsUp

theorem balanced_of_members {b p : List Char} {ps : List (List Char)} (h : Members b ps)
    (hp : p ∈ ps) : Balanced p ∧ Whole p := by
  cases h with
  | none => cases hp
  | list _ _ heach => exact heach p hp

/-! ## Counting groups -/

theorem addsUp_count : AddsUp (List.count '(') (· + ·) 0 where
  blank _ hs := count_of_blank (by decide) hs
  comma p s _ := by simp
  unit _ := rfl

theorem count_of_derives {s : List Char} {c : Circuit Float} (h : Derives s c) :
    s.count '(' = c.groupCount := by
  refine h.by_members (motive := fun s c => s.count '(' = c.groupCount) ?token ?group
  case token =>
    intro s p hno _
    exact List.count_eq_zero_of_not_mem hno
  case group =>
    intro name body rest w ps cs hno hb hr hm hps
    have hbody : body.count '(' = ps.foldr (fun p n => p.count '(' + n) 0 :=
      addsUp_count.members hm
    have hcounts : ps.foldr (fun p n => p.count '(' + n) 0 = Circuit.groupCounts cs := by
      clear hbody hm
      induction hps with
      | nil => rfl
      | cons hpc _ ih => rw [List.foldr_cons, ih, hpc.2, Circuit.groupCounts]
    rw [List.count_append, List.count_eq_zero_of_not_mem hno, List.count_cons_self,
      List.count_append, hbody, hcounts, List.count_cons_of_ne (by decide),
      count_of_blank (by decide) hr, Circuit.groupCount]
    omega

/-! ## Depth -/

def deepest : List Char → ℤ
  | [] => 0
  | c :: s => max 0 (nesting c + deepest s)

theorem deepest_nonneg (s : List Char) : 0 ≤ deepest s := by
  cases s with
  | nil => exact le_rfl
  | cons c s => exact le_max_left _ _

theorem isGreatest_deepest (s : List Char) :
    IsGreatest {n : ℤ | ∃ p, p <+: s ∧ n = p.count '(' - p.count ')'} (deepest s) := by
  simp only [← level_eq]
  induction s with
  | nil =>
    refine ⟨⟨[], List.prefix_rfl, rfl⟩, ?_⟩
    rintro _ ⟨p, hp, rfl⟩
    rw [List.prefix_nil.mp hp]
    exact le_rfl
  | cons c s ih =>
    obtain ⟨⟨q, hq, hlevel⟩, hle⟩ := ih
    constructor
    · rcases max_cases 0 (nesting c + deepest s) with ⟨hmax, -⟩ | ⟨hmax, -⟩
      · exact ⟨[], List.nil_prefix, hmax⟩
      · refine ⟨c :: q, List.cons_prefix_cons.mpr ⟨rfl, hq⟩, ?_⟩
        rw [level_cons, ← hlevel]
        exact hmax
    · rintro _ ⟨p, hp, rfl⟩
      rcases List.prefix_cons_iff.mp hp with rfl | ⟨r, rfl, hr⟩
      · exact deepest_nonneg _
      · have := hle ⟨r, hr, rfl⟩
        rw [level_cons, deepest]
        omega

theorem deepest_append (s t : List Char) :
    deepest (s ++ t) = max (deepest s) (level s + deepest t) := by
  have ht := deepest_nonneg t
  induction s with
  | nil =>
    rw [List.nil_append, level_nil, deepest]
    omega
  | cons c s ih =>
    rw [List.cons_append, deepest, deepest, ih, level_cons]
    omega

theorem deepest_of_not_mem {s : List Char} (h : '(' ∉ s) : deepest s = 0 := by
  induction s with
  | nil => rfl
  | cons c s ih =>
    have hc : c ≠ '(' := fun hc => h (by simp [hc])
    have hnesting : nesting c ≤ 0 := by
      rw [nesting, if_neg hc]
      split <;> decide
    rw [deepest, ih fun hs => h (by simp [hs])]
    omega

theorem deepest_comma {p : List Char} (hp : level p = 0) (s : List Char) :
    deepest (p ++ ',' :: s) = max (deepest p) (deepest s) := by
  have hs := deepest_nonneg s
  rw [deepest_append, hp, deepest, nesting_comma]
  omega

theorem addsUp_deepest : AddsUp deepest max 0 where
  blank _ hs := deepest_of_not_mem (plain_of_blank hs).opening
  comma _ s hp := deepest_comma hp s
  unit s := max_eq_left (deepest_nonneg s)

theorem deepest_group {body rest : List Char} (hb : Balanced body) (hr : '(' ∉ rest) :
    deepest ('(' :: (body ++ ')' :: rest)) = 1 + deepest body := by
  have hopen : nesting '(' = 1 := rfl
  have hclose : nesting ')' = -1 := rfl
  have hlevel := (balanced_iff_closes.mp hb).1
  have hbody := deepest_nonneg body
  rw [deepest, deepest_append, deepest, deepest_of_not_mem hr, hopen, hclose, hlevel]
  omega

/-- The depth of a balanced text is found behind its first opening parenthesis. -/
theorem deepest_dropWhile {s : List Char} (h : Balanced s) :
    deepest (s.dropWhile (· != '(')) = deepest s := by
  by_cases hmem : '(' ∈ s
  · obtain ⟨u, t, hu, rfl⟩ := exists_first hmem
    have hlevel : level u = 0 := by
      rw [level_eq, List.count_eq_zero_of_not_mem hu,
        List.count_eq_zero_of_not_mem (not_mem_close h hu)]
      rfl
    have ht := deepest_nonneg ('(' :: t)
    rw [dropWhile_ne hu, deepest_append, deepest_of_not_mem hu, hlevel]
    omega
  · rw [dropWhile_ne_eq_nil hmem, deepest_of_not_mem hmem, deepest]

theorem deepest_of_derives {s : List Char} {c : Circuit Float} (h : Derives s c) :
    deepest (s.dropWhile (· != '(')) = c.depth := by
  refine h.by_members (motive := fun s c => deepest (s.dropWhile (· != '(')) = c.depth) ?token ?group
  case token =>
    intro s p hno _
    rw [dropWhile_ne_eq_nil hno, deepest, Circuit.depth, Nat.cast_zero]
  case group =>
    intro name body rest w ps cs hno hb hr hm hps
    have hbody : deepest body = ps.foldr (fun p n => max (deepest p) n) 0 :=
      addsUp_deepest.members hm
    have hdepths : ps.foldr (fun p n => max (deepest p) n) 0 = Circuit.depths cs := by
      have heach := fun p hp => (balanced_of_members hm (p := p) hp).1
      clear hbody hm
      induction hps with
      | nil => rfl
      | @cons p c ps cs hpc _ ih =>
        rw [List.foldr_cons, ih fun q hq => heach q (List.mem_cons_of_mem _ hq),
          ← deepest_dropWhile (heach p (by simp)), hpc.2, Circuit.depths, Nat.cast_max]
    rw [dropWhile_ne hno, deepest_group hb (plain_of_blank hr).opening, hbody, hdepths, Circuit.depth]
    push_cast
    rfl

end Expression

end Immittance
