import Mathlib
import Immittance.Proofs.Circuit.Parts
import Immittance.Proofs.Decimal.RoundTrip
import Immittance.Proofs.Expression.Grammar
import Immittance.Proofs.Expression.Tokens

/-!
# Layouts of expressions

A circuit is written with blanks wherever they are ignored, its keywords in any case and with any
ending, its kinds in any spelling and its values as their shortest texts. Every such text is read as
the circuit again, as it is an expression of it in the grammar, however deep its groups are nested:
reading has no limit on the depth of calls.
-/

set_option autoImplicit false

namespace Immittance.Expression

open Text

structure Plain (s : List Char) : Prop where
  opening : '(' ∉ s
  closing : ')' ∉ s
  comma : ',' ∉ s

theorem plain_append {s t : List Char} (hs : Plain s) (ht : Plain t) : Plain (s ++ t) := by
  constructor
  · simp [hs.opening, ht.opening]
  · simp [hs.closing, ht.closing]
  · simp [hs.comma, ht.comma]

theorem plain_cons {c : Char} {s : List Char} :
    Plain (c :: s) ↔ ¬(c = '(' ∨ c = ')' ∨ c = ',') ∧ Plain s := by
  constructor
  · rintro ⟨hopen, hclose, hcomma⟩
    simp only [List.mem_cons, not_or] at hopen hclose hcomma
    refine ⟨?_, hopen.2, hclose.2, hcomma.2⟩
    rintro (rfl | rfl | rfl)
    · exact hopen.1 rfl
    · exact hclose.1 rfl
    · exact hcomma.1 rfl
  · rintro ⟨hc, hopen, hclose, hcomma⟩
    rw [not_or, not_or] at hc
    exact ⟨by simp [hopen, Ne.symm hc.1], by simp [hclose, Ne.symm hc.2.1],
      by simp [hcomma, Ne.symm hc.2.2]⟩

theorem plain_of_blank {s : List Char} (h : Blank s) : Plain s := by
  constructor
  · intro hc
    exact absurd (h _ hc) (by decide)
  · intro hc
    exact absurd (h _ hc) (by decide)
  · intro hc
    exact absurd (h _ hc) (by decide)

/-! ## Keywords -/

def IsKeyword (w : Wiring) (s : List Char) : Prop := s.map Char.toLower = w.word

theorem mem_of_isKeyword {w : Wiring} {s : List Char} (h : IsKeyword w s) {c : Char} (hc : c ∈ s) :
    c.toLower ∈ w.word := h ▸ List.mem_map_of_mem hc

theorem toNat_lt_of_toLower {w : Wiring} {c : Char} (h : c.toLower ∈ w.word) : c.toNat < 0x80 := by
  have hw : ∀ d ∈ w.word, d.toNat < 0x80 := by cases w <;> simp [Wiring.word]
  by_cases hc : 65 ≤ c.toNat ∧ c.toNat ≤ 90
  · omega
  · have hlow : c.toLower = c := by
      rw [Char.toLower, dif_neg]
      exact hc
    exact hw c (hlow ▸ h)

theorem not_blank_of_toLower {w : Wiring} {c : Char} (h : c.toLower ∈ w.word) :
    isBlank c = false := by
  have hb : ∀ d ∈ blanks, d.toLower ∉ w.word := by cases w <;> simp [Wiring.word, blanks]
  by_contra k
  exact hb c (by simpa [isBlank] using k) h

theorem plain_of_isKeyword {w : Wiring} {s : List Char} (h : IsKeyword w s) : Plain s := by
  have hm : ∀ d ∈ ['(', ')', ','], d.toLower ∉ w.word := by cases w <;> simp [Wiring.word]
  constructor
  · exact fun hc => hm _ (by simp) (mem_of_isKeyword h hc)
  · exact fun hc => hm _ (by simp) (mem_of_isKeyword h hc)
  · exact fun hc => hm _ (by simp) (mem_of_isKeyword h hc)

theorem trim_append_of_not_blank {s : List Char} (hne : s ≠ []) (h : ∀ c ∈ s, isBlank c = false)
    (t : List Char) : trim (s ++ t) = s ++ trimEnd t := by
  obtain ⟨init, last, rfl⟩ : ∃ init last, s = init ++ [last] :=
    ⟨s.dropLast, s.getLast hne, (List.dropLast_append_getLast hne).symm⟩
  have hstart : trimStart init = init := by
    rw [trimStart, List.dropWhile_eq_self_iff]
    intro hpos
    simpa using h (init[0]) (by simp)
  rw [List.append_assoc, List.singleton_append, trim_append_cons _ _ (h last (by simp)), hstart]
  simp

theorem word_begins {w : Wiring} {u keyword t : List Char} (hu : Blank u)
    (hk : IsKeyword w keyword) : w.word <+: lower (trim (u ++ (keyword ++ t))) := by
  have hne : keyword ≠ [] := by
    rintro rfl
    cases w <;> simp [IsKeyword, Wiring.word] at hk
  have hlow : ∀ c ∈ keyword, c.toLower ∈ w.word := fun c hc => mem_of_isKeyword hk hc
  rw [trim_blank_append hu, trim_append_of_not_blank hne fun c hc => not_blank_of_toLower (hlow c hc),
    lower, lowerFrom_append fun c hc => toNat_lt_of_toLower (hlow c hc), hk]
  exact List.prefix_append _ _

/-! ## Values -/

theorem not_digit_of_blank {c : Char} (h : isBlank c = true) : isDigit c = false := by
  have hb : blanks.all (fun d => !isDigit d) = true := by decide +kernel
  have := List.all_eq_true.mp hb c (by simpa [isBlank] using h)
  simpa using this

def IsLiteralChar (c : Char) : Prop := isDigit c = true ∨ c ∈ ['+', '-', '.', 'e', 'E']

theorem isLiteralChar_of_mem {s : List Char} (h : Decimal.IsLiteral s) :
    ∀ c ∈ s, IsLiteralChar c := by
  have hdigits : ∀ ds, Decimal.AllDigits ds → ∀ c ∈ ds, IsLiteralChar c :=
    fun ds hds c hc => Or.inl (hds c hc)
  have hsign : ∀ sign, Decimal.IsSign sign → ∀ c ∈ sign, IsLiteralChar c := by
    rintro sign (rfl | rfl | rfl) c hc
    · simp at hc
    · exact Or.inr (by simpa using Or.inl (List.mem_singleton.mp hc))
    · exact Or.inr (by simpa using Or.inr (Or.inl (List.mem_singleton.mp hc)))
  obtain ⟨sign, m, x, hs, hm, hx, rfl⟩ := h
  intro c hc
  rw [List.mem_append, List.mem_append] at hc
  rcases hc with hc | hc | hc
  · exact hsign sign hs c hc
  · cases hm with
    | whole _ hws => exact hdigits _ hws c hc
    | @point ws fs _ hws hfs =>
      rcases List.mem_append.mp hc with hc | hc
      · exact hdigits _ hws c hc
      · rcases List.mem_cons.mp hc with rfl | hc
        · exact Or.inr (by simp)
        · exact hdigits _ hfs c hc
  · rcases hx with rfl | ⟨mark, sign', ds, hmark, hs', -, hds, rfl⟩
    · simp at hc
    · rcases List.mem_cons.mp hc with rfl | hc
      · rcases hmark with rfl | rfl <;> exact Or.inr (by simp)
      · rcases List.mem_append.mp hc with hc | hc
        · exact hsign sign' hs' c hc
        · exact hdigits _ hds c hc

theorem not_blank_of_isLiteralChar {c : Char} (h : IsLiteralChar c) : isBlank c = false := by
  rcases h with h | h
  · by_contra k
    simp [not_digit_of_blank (by simpa using k)] at h
  · have hall : ['+', '-', '.', 'e', 'E'].all (fun d => !isBlank d) = true := by decide
    simpa using List.all_eq_true.mp hall c h

theorem plain_of_isLiteral {s : List Char} (h : Decimal.IsLiteral s) : Plain s := by
  have hno : ∀ c, isDigit c = false → c ∉ ['+', '-', '.', 'e', 'E'] → c ∉ s := by
    intro c hd hm hs
    rcases isLiteralChar_of_mem h c hs with k | k
    · simp [hd] at k
    · exact hm k
  exact ⟨hno _ (by decide) (by decide), hno _ (by decide) (by decide), hno _ (by decide) (by decide)⟩

theorem value?_shortestText {x : Float} (hx : x.isFinite = true) :
    Token.value? (shortestText x) = some x := by
  obtain ⟨d, hread, hd⟩ := read?_shortestText hx
  rw [Token.value?, hread]
  dsimp only
  rw [hd, if_pos hx]

/-- A word before a colon and a number behind it, with blanks around them, are a part. -/
theorem read_colon {word number : List Char} (hcolon : ':' ∉ word) {k : Kind}
    (hk : Kind.ofWord? word = some k) {x : Float} (hx : Token.value? (trim number) = some x) :
    Token.read (word ++ ':' :: number) = .ok ⟨k, x⟩ := by
  have hcut : Token.Cut (word ++ ':' :: number) (trimStart word) (trimEnd number) :=
    ⟨trim_append_cons word number (by decide), fun h => hcolon ((List.dropWhile_subset _) h)⟩
  have hk' : Kind.ofWord? (trim word) = some k := by
    rw [← hk, Kind.ofWord?, Kind.ofWord?, trim_trim]
  have hword : (trim word).isEmpty = false := by
    rw [List.isEmpty_eq_false_iff]
    intro h
    rw [h] at hk'
    simp [Kind.ofWord?, trim, trimStart, trimEnd, upper] at hk'
  rw [Token.read_of_cut hcut, trim_trimStart, trim_trimEnd, hword, if_neg Bool.false_ne_true, hx, hk']

/-! ## Written circuits -/

structure Spells (word : List Char) (k : Kind) : Prop where
  plain : Plain word
  colon : ':' ∉ word
  kind : Kind.ofWord? word = some k

/-- The layouts of a circuit. Blanks around the name of a group are part of its ending. -/
inductive Written : Circuit Float → List Char → Prop
  | part {p : Part Float} {t word u v x : List Char} (ht : Blank t) (hu : Blank u) (hv : Blank v)
      (hx : Blank x) (spells : Spells word p.kind) :
      Written (.part p) (t ++ (word ++ u) ++ ':' :: (v ++ (shortestText p.value ++ x)))
  | empty {w : Wiring} {t keyword ending body rest : List Char} (ht : Blank t)
      (hk : IsKeyword w keyword) (he : Plain ending) (hb : Blank body) (hr : Blank rest) :
      Written (.group w []) (t ++ (keyword ++ ending) ++ '(' :: (body ++ ')' :: rest))
  | group {w : Wiring} {c : Circuit Float} {cs : List (Circuit Float)}
      {texts : List (List Char)} {t keyword ending rest : List Char} (ht : Blank t)
      (hk : IsKeyword w keyword) (he : Plain ending) (hr : Blank rest)
      (members : List.Forall₂ Written (c :: cs) texts) :
      Written (.group w (c :: cs))
        (t ++ (keyword ++ ending) ++ '(' :: (joined texts ++ ')' :: rest))

def Finite (c : Circuit Float) : Prop := ∀ p ∈ c.parts, p.value.isFinite = true

theorem finite_group {w : Wiring} {cs : List (Circuit Float)} :
    Finite (.group w cs) ↔ ∀ c ∈ cs, Finite c := by
  simp only [Finite, Circuit.parts_group, List.mem_flatMap]
  constructor
  · intro h c hc p hp
    exact h p ⟨c, hc, hp⟩
  · rintro h p ⟨c, hc, hp⟩
    exact h c hc p hp

theorem finite_part {p : Part Float} : Finite (.part p) ↔ p.value.isFinite = true := by
  simp [Finite, Circuit.parts_part]

def Closed (s : List Char) : Prop := Closes 0 s ∧ Uncut 0 s

theorem closed_of_plain {s : List Char} (h : Plain s) : Closed s :=
  ⟨closes_of_not_mem h.opening h.closing, uncut_of_not_mem h.comma⟩

theorem closed_group {name body rest : List Char} (hn : Plain name) (hb : Closes 0 body)
    (hr : Plain rest) : Closed (name ++ '(' :: (body ++ ')' :: rest)) := by
  have hname := closed_of_plain hn
  have hrest := closed_of_plain hr
  have hlevel : level name = 0 := by simpa using hname.1.1
  have hbody : level body = 0 := by simpa using hb.1
  constructor
  · have htail : Closes 1 (')' :: rest) := closes_cons.mpr ⟨by omega, hrest.1⟩
    have hin : Closes 0 ('(' :: (body ++ ')' :: rest)) :=
      closes_cons.mpr ⟨le_rfl, closes_append hb htail⟩
    exact closes_append hname.1 hin
  · refine uncut_append hname.2 ?_
    rw [hlevel, uncut_cons]
    refine ⟨by simp, uncut_append (uncut_of_closes (by decide) hb) ?_⟩
    rw [hbody, uncut_cons]
    exact ⟨by simp, hrest.2⟩

theorem closes_joined {texts : List (List Char)} (h : ∀ t ∈ texts, Closes 0 t) :
    Closes 0 (joined texts) := by
  induction texts with
  | nil => exact closes_nil.mpr rfl
  | cons t texts ih =>
    cases texts with
    | nil => simpa using h t (by simp)
    | cons u texts =>
      have hrest := ih fun v hv => h v (List.mem_cons_of_mem _ hv)
      have hcomma : Closes 0 (',' :: joined (u :: texts)) := closes_cons.mpr ⟨le_rfl, hrest⟩
      have hall := closes_append (h t (by simp)) hcomma
      simpa using hall

theorem not_mem_colon {c : Char} (hc : c ≠ ':') {s t : List Char} (hs : c ∉ s) (ht : c ∉ t) :
    c ∉ s ++ ':' :: t := by
  simp [hs, ht, hc]

theorem plain_part {s t : List Char} (hs : Plain s) (ht : Plain t) : Plain (s ++ ':' :: t) :=
  ⟨not_mem_colon (by decide) hs.opening ht.opening, not_mem_colon (by decide) hs.closing ht.closing,
    not_mem_colon (by decide) hs.comma ht.comma⟩

theorem read_part {p : Part Float} (hf : p.value.isFinite = true) {t word u v x : List Char}
    (ht : Blank t) (hu : Blank u) (hv : Blank v) (hx : Blank x) (spells : Spells word p.kind) :
    Plain (t ++ (word ++ u) ++ ':' :: (v ++ (shortestText p.value ++ x))) ∧
      Token.read (t ++ (word ++ u) ++ ':' :: (v ++ (shortestText p.value ++ x))) = .ok p := by
  obtain ⟨d, hread, -⟩ := read?_shortestText hf
  have hlit : Decimal.IsLiteral (shortestText p.value) :=
    Decimal.read?_isSome_iff.mp (by simp [hread])
  have hword : Plain (t ++ (word ++ u)) :=
    plain_append (plain_of_blank ht) (plain_append spells.plain (plain_of_blank hu))
  have hnumber : Plain (v ++ (shortestText p.value ++ x)) :=
    plain_append (plain_of_blank hv) (plain_append (plain_of_isLiteral hlit) (plain_of_blank hx))
  refine ⟨plain_part hword hnumber, ?_⟩
  have hblank : ∀ w, Blank w → ':' ∉ w := fun w hw hc => absurd (hw _ hc) (by decide)
  have hcolon : ':' ∉ t ++ (word ++ u) := by
    simp [hblank t ht, hblank u hu, spells.colon]
  have hkind : Kind.ofWord? (t ++ (word ++ u)) = some p.kind := by
    rw [← spells.kind, Kind.ofWord?, Kind.ofWord?, trim_between ht hu]
  have hvalue : Token.value? (trim (v ++ (shortestText p.value ++ x))) = some p.value := by
    rw [trim_between hv hx, trim_eq_self fun c hc =>
      not_blank_of_isLiteralChar (isLiteralChar_of_mem hlit c hc)]
    exact value?_shortestText hf
  exact read_colon hcolon hkind hvalue

mutual

theorem derives_of_written : (c : Circuit Float) → {s : List Char} → Finite c → Written c s →
    Derives s c ∧ Closed s
  | .part p, _, hf, .part ht hu hv hx spells => by
    obtain ⟨hplain, hread⟩ := read_part (finite_part.mp hf) ht hu hv hx spells
    exact ⟨Derives.token hplain.opening hread, closed_of_plain hplain⟩
  | .group w [], _, hf, .empty ht hk he hb hr => by
    have hname := plain_append (plain_of_blank ht) (plain_append (plain_of_isKeyword hk) he)
    have hbody := (closed_of_plain (plain_of_blank hb)).1
    exact ⟨Derives.group hname.opening (word_begins ht hk) (balanced_iff_closes.mpr hbody) hr
      (Members.none hb) List.Forall₂.nil, closed_group hname hbody (plain_of_blank hr)⟩
  | .group w (c :: cs), _, hf, .group ht hk he hr members => by
    have hname := plain_append (plain_of_blank ht) (plain_append (plain_of_isKeyword hk) he)
    obtain ⟨hderives, hclosed⟩ := derives_of_writtens (c :: cs) (finite_group.mp hf) members
    have hbody := closes_joined fun t ht => (hclosed t ht).1
    have hne : ∀ {texts}, List.Forall₂ Written (c :: cs) texts → texts ≠ [] := by
      rintro _ h rfl
      cases h
    have heach := fun t ht => And.intro (balanced_iff_closes.mpr (hclosed t ht).1)
      (whole_iff_uncut.mpr (hclosed t ht).2)
    exact ⟨Derives.group hname.opening (word_begins ht hk) (balanced_iff_closes.mpr hbody) hr
      (Members.list (hne members) (Or.inl rfl) heach) hderives,
      closed_group hname hbody (plain_of_blank hr)⟩

theorem derives_of_writtens : (cs : List (Circuit Float)) → {texts : List (List Char)} →
    (∀ c ∈ cs, Finite c) → List.Forall₂ Written cs texts →
    List.Forall₂ Derives texts cs ∧ ∀ t ∈ texts, Closed t
  | [], _, _, .nil => ⟨List.Forall₂.nil, by simp⟩
  | c :: cs, _, hf, .cons hc hcs => by
    obtain ⟨hd, hclosed⟩ := derives_of_written c (hf c (by simp)) hc
    obtain ⟨hds, hcloseds⟩ := derives_of_writtens cs (fun d hd => hf d (by simp [hd])) hcs
    refine ⟨List.Forall₂.cons hd hds, fun t ht => ?_⟩
    rcases List.mem_cons.mp ht with rfl | ht
    · exact hclosed
    · exact hcloseds t ht

end

/-! ## The plain layout -/

mutual

def compact : Circuit Float → List Char
  | .part p => (Spec.ofPart p).text
  | .group w cs => w.word ++ '(' :: (joined (compacts cs) ++ [')'])

def compacts : List (Circuit Float) → List (List Char)
  | [] => []
  | c :: cs => compact c :: compacts cs

end

theorem spells_letter (k : Kind) : Spells [k.letter] k := by
  cases k
  · exact ⟨⟨by decide, by decide, by decide⟩, by decide, rfl⟩
  · exact ⟨⟨by decide, by decide, by decide⟩, by decide, rfl⟩
  · exact ⟨⟨by decide, by decide, by decide⟩, by decide, rfl⟩

theorem isKeyword_word (w : Wiring) : IsKeyword w w.word := by
  cases w <;> rfl

mutual

theorem written_compact : (c : Circuit Float) → Written c (compact c)
  | .part p => by
    have h := Written.part blank_nil blank_nil blank_nil blank_nil (spells_letter p.kind)
    simpa [compact, Spec.text, Spec.letter, Spec.ofPart] using h
  | .group w [] => by
    have h := Written.empty blank_nil (isKeyword_word w) (plain_of_blank blank_nil) blank_nil blank_nil
    simpa [compact, compacts] using h
  | .group w (c :: cs) => by
    have h := Written.group blank_nil (isKeyword_word w) (plain_of_blank blank_nil) blank_nil
      (written_compacts (c :: cs))
    simpa [compact] using h

theorem written_compacts : (cs : List (Circuit Float)) → List.Forall₂ Written cs (compacts cs)
  | [] => List.Forall₂.nil
  | c :: cs => List.Forall₂.cons (written_compact c) (written_compacts cs)

end

/-! ## Reading what was written -/

theorem finite_of_derives (c : Circuit Float) {s : List Char} (h : Derives s c) : Finite c := by
  refine h.by_members (motive := fun _ c => Finite c) ?token ?group
  case token =>
    intro s p _ hread
    cases Token.read_eq_iff.mp hread with
    | part _ _ _ finite _ => exact finite_part.mpr finite
  case group =>
    intro name body rest w ps cs _ _ _ _ hps
    exact finite_group.mpr (forall_of_forall₂ hps fun _ _ _ hc => hc.2)

/-- Every layout of a circuit of finite values is read as the circuit, the text without blanks is one
of its layouts, and whatever is read has finite values. -/
theorem parse_written :
    (∀ (c : Circuit Float) (s : List Char), (∀ p ∈ c.parts, p.value.isFinite = true) →
      Written c s → parse s = .ok c) ∧
    (∀ c : Circuit Float, Written c (compact c)) ∧
    ∀ (s : List Char) (c : Circuit Float), parse s = .ok c →
      ∀ p ∈ c.parts, p.value.isFinite = true := by
  refine ⟨fun c s hf h => ?_, written_compact, fun s c h => ?_⟩
  · exact (parse_eq_ok_iff s c).mpr (derives_of_written c hf h).1
  · exact finite_of_derives c ((parse_eq_ok_iff s c).mp h)

theorem parse_written_series :
    let c := Circuit.group .series [.part ⟨.resistor, (100 : Float)⟩, .group .parallel []]
    let s := "Series_1( r :\t100.0,PARALLEL( ) ) ".toList
    (∀ p ∈ c.parts, p.value.isFinite = true) ∧ Written c s ∧ parse s = .ok c := by
  intro c s
  have hspace : Blank [' '] := by simp [Blank, isBlank, blanks]
  have htab : Blank ['\t'] := by simp [Blank, isBlank, blanks]
  have hfinite : ∀ p ∈ c.parts, p.value.isFinite = true := by
    have h : (100 : Float).isFinite = true := by decide +kernel
    simpa [c, Circuit.parts_group, Circuit.parts_part] using h
  have hword : Spells ['r'] .resistor := ⟨⟨by decide, by decide, by decide⟩, by decide, rfl⟩
  have hvalue : shortestText 100 = ['1', '0', '0', '.', '0'] := by decide +kernel
  have hseries : IsKeyword .series "Series".toList := rfl
  have hparallel : IsKeyword .parallel "PARALLEL".toList := rfl
  have hending : Plain "_1".toList := ⟨by decide, by decide, by decide⟩
  have hpart := Written.part (p := ⟨.resistor, (100 : Float)⟩) hspace hspace htab blank_nil hword
  have hempty := Written.empty blank_nil hparallel (plain_of_blank blank_nil) hspace hspace
  have hwritten : Written c s := by
    have h := Written.group blank_nil hseries hending hspace (.cons hpart (.cons hempty .nil))
    rw [hvalue] at h
    exact h
  exact ⟨hfinite, hwritten, parse_written.1 c s hfinite hwritten⟩

end Immittance.Expression
