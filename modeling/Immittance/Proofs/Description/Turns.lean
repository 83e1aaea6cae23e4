import Mathlib
import Immittance.Proofs.Circuit.Parts
import Immittance.Proofs.Description.Recursion

/-!
# Descriptions turn by turn

A description is written in turns: each takes the first of what waits and writes it or, if it is a
group, puts its members, separators and parentheses in its place. Every turn makes what waits lighter,
so the turns come to an end, and what is written then is the description by recursion.
-/

set_option autoImplicit false

namespace Immittance.Circuit

mutual

def described : Circuit Float → List Char
  | .part p => p.kind.letter :: '(' :: (shortestText p.value ++ [')'])
  | .group w members => w.word ++ '(' :: ([',', ' '].intercalate (describeds members) ++ [')'])

def describeds : List (Circuit Float) → List (List Char)
  | [] => []
  | c :: cs => described c :: describeds cs

end

theorem describeds_eq_map (cs : List (Circuit Float)) : describeds cs = cs.map described := by
  induction cs with
  | nil => rfl
  | cons c cs ih => rw [describeds, ih, List.map_cons]

theorem describe_eq_described (c : Circuit Float) : c.describe = c.described := by
  induction c using Circuit.by_members with
  | part p =>
    rw [describe_part, described]
    rfl
  | group w cs ih => rw [describe_group, described, describeds_eq_map, body, List.map_congr_left ih]

/-! ## Turns -/

structure Writing where
  done : List (List Char)
  waiting : List Pending

namespace Writing

def start (c : Circuit Float) : Writing := ⟨[], [.circuit c]⟩

def turn : Writing → Writing
  | ⟨done, []⟩ => ⟨done, []⟩
  | ⟨done, .text t :: rest⟩ => ⟨t :: done, rest⟩
  | ⟨done, .circuit (.part p) :: rest⟩ => ⟨p.describe :: done, rest⟩
  | ⟨done, .circuit (.group w members) :: rest⟩ => ⟨done, Pending.opened w members ++ rest⟩

/-- What is written in the end is the same before a turn and after it. -/
theorem describeFrom_turn (s : Writing) :
    describeFrom s.turn.done s.turn.waiting = describeFrom s.done s.waiting := by
  obtain ⟨done, waiting⟩ := s
  cases waiting with
  | nil => rfl
  | cons item rest =>
    cases item with
    | text t => rw [turn, describeFrom]
    | circuit c =>
      cases c with
      | part p => rw [turn, describeFrom]
      | group w members => rw [turn, describeFrom]

theorem weights_turn (s : Writing) :
    Pending.weights s.turn.waiting ≤ Pending.weights s.waiting - 1 := by
  obtain ⟨done, waiting⟩ := s
  cases waiting with
  | nil => simp [turn, Pending.weights]
  | cons item rest =>
    cases item with
    | text t => simp [turn, Pending.weights, Pending.weight]
    | circuit c =>
      cases c with
      | part p =>
        simp only [turn, Pending.weights, Pending.weight, size]
        omega
      | group w members =>
        have hmembers := Pending.weights_separated_le members
        have hopened := Pending.weights_opened w members
        simp only [turn, Pending.weights, Pending.weight, Pending.weights_append, size]
        omega

theorem eq_nil_of_weights {waiting : List Pending} (h : Pending.weights waiting = 0) :
    waiting = [] := by
  cases waiting with
  | nil => rfl
  | cons item rest =>
    have hpos : 0 < item.weight := by
      cases item with
      | text t => exact Nat.one_pos
      | circuit c =>
        have := size_pos c
        rw [Pending.weight]
        omega
    rw [Pending.weights] at h
    omega

/-- After as many turns as what waits weighs, nothing waits. -/
theorem turns_end (n : ℕ) (s : Writing) (h : Pending.weights s.waiting ≤ n) :
    (turn^[n] s).waiting = [] ∧
      (turn^[n] s).done.reverse.flatten = describeFrom s.done s.waiting := by
  induction n generalizing s with
  | zero =>
    have hnil := eq_nil_of_weights (Nat.le_zero.mp h)
    rw [Function.iterate_zero_apply, hnil, describeFrom]
    exact ⟨rfl, rfl⟩
  | succ n ih =>
    have hturn := weights_turn s
    rw [Function.iterate_succ_apply, ← describeFrom_turn]
    exact ih s.turn (by omega)

end Writing

/-- The description of a circuit is its description by recursion, and fewer turns than four times the
circuit's size write it and leave nothing waiting. -/
theorem describe_recursive (c : Circuit Float) :
    c.describe = c.described ∧
      ∃ n < 4 * c.size, ∃ done, Writing.turn^[n] (.start c) = ⟨done, []⟩ ∧
        done.reverse.flatten = c.described := by
  refine ⟨describe_eq_described c, 4 * c.size - 1, ?_, ?_⟩
  · have := size_pos c
    omega
  · have hweights : Pending.weights (Writing.start c).waiting ≤ 4 * c.size - 1 := by
      simp [Writing.start, Pending.weights, Pending.weight]
    obtain ⟨hwaiting, hdone⟩ := Writing.turns_end _ _ hweights
    refine ⟨_, ?_, hdone.trans (describe_eq_described c)⟩
    rw [← hwaiting]

end Immittance.Circuit
