/-!
# Blank characters

Blank characters separate words: spaces of every width, tabulators, the ends of lines, and the
separators of files, groups, records and units. Marks of no width are not blank.
-/

set_option autoImplicit false

namespace Immittance.Text

def blanks : List Char :=
  ['\t', '\n', '\x0b', '\x0c', '\r', '\x1c', '\x1d', '\x1e', '\x1f', ' ', '\x85', '\u00a0',
   '\u1680', '\u2000', '\u2001', '\u2002', '\u2003', '\u2004', '\u2005', '\u2006', '\u2007',
   '\u2008', '\u2009', '\u200a', '\u2028', '\u2029', '\u202f', '\u205f', '\u3000']

def isBlank (c : Char) : Bool := blanks.contains c

def trimStart (s : List Char) : List Char := s.dropWhile isBlank

def trimEnd (s : List Char) : List Char := (s.reverse.dropWhile isBlank).reverse

def trim (s : List Char) : List Char := trimEnd (trimStart s)

theorem length_dropWhile_le (p : Char → Bool) (s : List Char) : (s.dropWhile p).length ≤ s.length := by
  induction s with
  | nil => simp
  | cons c s ih => by_cases h : p c <;> simp [List.dropWhile, h]; omega

theorem length_dropWhile_lt {p : Char → Bool} {s t : List Char} {c : Char}
    (h : s.dropWhile p = c :: t) : t.length < s.length := by
  have := length_dropWhile_le p s
  rw [h, List.length_cons] at this
  omega

theorem length_trim_le (s : List Char) : (trim s).length ≤ s.length := by
  have h := length_dropWhile_le isBlank (trimStart s).reverse
  have k := length_dropWhile_le isBlank s
  simp [trim, trimEnd, trimStart] at *
  omega

end Immittance.Text
