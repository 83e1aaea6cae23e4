/-!
# Sorting by an order that may fail

Two elements may have no order; sorting them fails as soon as it compares them. The run in front,
rising or falling, is taken as it is, a falling one turned round, and every further element is put in
by bisection, behind those that it does not come before.

Other ways of sorting agree with this one where the order of the elements is that of keys, and on
whether there is an order at all. Elements such as what is no number, which come neither before nor
behind any other, may end up in other places where runs of a long list are merged.
-/

set_option autoImplicit false

namespace Immittance.Order

section
variable {ε α : Type}

/-- Goes on with a run, a falling or else a rising one, whose last element is known: the run and what
follows it. -/
def run (before : α → α → Except ε Bool) (falls : Bool) (last : α) :
    List α → Except ε (List α × List α)
  | [] => .ok ([], [])
  | x :: xs => do
    if (← before x last) == falls then
      let (run, rest) ← run before falls x xs
      return (x :: run, rest)
    else return ([], x :: xs)

def firstRun (before : α → α → Except ε Bool) : List α → Except ε (List α × List α)
  | x :: y :: zs => do
    let falls ← before y x
    let (run, rest) ← run before falls y zs
    return (if falls then (x :: y :: run).reverse else x :: y :: run, rest)
  | xs => .ok (xs, [])

def place (before : α → α → Except ε Bool) (x : α) (sorted : List α) (low high : Nat) :
    Except ε Nat :=
  if low < high then
    let middle := low + (high - low) / 2
    match sorted[middle]? with
    | none => .ok low
    | some y => do
      if ← before x y then place before x sorted low middle
      else place before x sorted (middle + 1) high
  else .ok low
termination_by high - low

def sortBy (before : α → α → Except ε Bool) (xs : List α) : Except ε (List α) := do
  let (run, rest) ← firstRun before xs
  rest.foldlM (fun sorted x => do
    return sorted.insertIdx (← place before x sorted 0 sorted.length) x) run

end

end Immittance.Order
