import Renovation.Document.Reader
import Renovation.Document.Writer
import Renovation.Proofs.Decimal.Written

set_option autoImplicit false

/-!
# Reading back what is written

The reader of documents undoes the writer. It is asked for one value of a longer text: of a written
value with anything behind it that does not go on with a number, it reads that value and leaves the
rest. A double reads as the double that its text stands for, and of the fields of one name in a
record the last is kept; all else reads as it was.
-/

namespace Renovation.Document

open Decimal

/-! ## What is read of a written value -/

/-- The double that the text of a double stands for. -/
def rereadDouble (x : Float) : Float :=
  match expand x with
  | .notANumber => undefinedDouble
  | .infinite negative => if negative then -infiniteDouble else infiniteDouble
  | .finite _ => (readDouble? (shortestText .plain x)).getD x

mutual

def reread : Datum → Datum
  | .real x => .real (rereadDouble x)
  | .list xs => .list (rereadItems xs)
  | .record fs => .record (Entries.ofList (rereadFields fs))
  | d => d

def rereadItems : List Datum → List Datum
  | [] => []
  | x :: xs => reread x :: rereadItems xs

def rereadFields : List (String × Datum) → List (String × Datum)
  | [] => []
  | (name, x) :: rest => (name, reread x) :: rereadFields rest

end

mutual

/-- Every whole number has few enough digits to be read. -/
def Legible : Datum → Prop
  | .whole n => (digitsOf n.natAbs).length ≤ wholeDigits
  | .list xs => ItemsLegible xs
  | .record fs => FieldsLegible fs
  | _ => True

def ItemsLegible : List Datum → Prop
  | [] => True
  | x :: xs => Legible x ∧ ItemsLegible xs

def FieldsLegible : List (String × Datum) → Prop
  | [] => True
  | (_, x) :: rest => Legible x ∧ FieldsLegible rest

end

/-! ## Blanks -/

def isBlank (c : Char) : Bool := c == ' ' || c == '\t' || c == '\n' || c == '\r'

theorem skipBlanks_append {blanks : List Char} (h : ∀ c ∈ blanks, isBlank c = true)
    (rest : List Char) : skipBlanks (blanks ++ rest) = skipBlanks rest :=
  List.dropWhile_append_of_pos h

theorem skipBlanks_cons {c : Char} (h : isBlank c = false) (rest : List Char) :
    skipBlanks (c :: rest) = c :: rest :=
  List.dropWhile_cons_of_neg (by simp [isBlank] at h ⊢; exact h)

/-- What sets the parts of a value apart is blank but for a comma and a colon. -/
structure Style.Spaced (style : Style) : Prop where
  line : ∀ depth, ∀ c ∈ (style.line depth).toList, isBlank c = true
  colon : ∃ blanks, style.colon.toList = ':' :: blanks ∧ ∀ c ∈ blanks, isBlank c = true
  comma : style.comma.toList = [',']

theorem unicodeEscape_append {digits : List Char} {n : Nat} (hlength : digits.length = 4)
    (hvalue : hexValue? digits = some n) (hhigh : isHighSurrogate n = false) (rest : List Char) :
    unicodeEscape (digits ++ rest) = some (loneChar n, rest) := by
  have htake : (digits ++ rest).take 4 = digits := by rw [← hlength, List.take_left]
  have hdrop : (digits ++ rest).drop 4 = rest := by rw [← hlength, List.drop_left]
  have hshort : ¬ (digits ++ rest).length < 4 := by
    rw [List.length_append]
    omega
  unfold unicodeEscape
  rw [if_neg hshort, htake, hdrop, hvalue]
  simp only [Option.bind_eq_bind, Option.bind_some, hhigh, Bool.false_and,
    Bool.false_eq_true, if_false]
  split
  · split <;> rfl
  · rfl

theorem escapeChar_cases (c : Char) :
    (escapeChar c = [c] ∧ c ≠ '"' ∧ c ≠ '\\') ∨
      ∃ tail, escapeChar c = '\\' :: tail ∧ ∀ rest, escaped (tail ++ rest) = some (c, rest) := by
  unfold escapeChar
  split
  · rename_i h
    refine .inr ⟨[c], rfl, fun rest => ?_⟩
    simp only [Bool.or_eq_true, beq_iff_eq] at h
    rcases h with rfl | rfl <;> rfl
  rename_i hplain
  simp only [Bool.or_eq_true, beq_iff_eq, not_or] at hplain
  split
  · rename_i h
    rw [beq_iff_eq.mp h]
    exact .inr ⟨['n'], rfl, fun _ => rfl⟩
  split
  · rename_i h
    rw [beq_iff_eq.mp h]
    exact .inr ⟨['r'], rfl, fun _ => rfl⟩
  split
  · rename_i h
    rw [beq_iff_eq.mp h]
    exact .inr ⟨['t'], rfl, fun _ => rfl⟩
  split
  · rename_i h
    rw [beq_iff_eq.mp h]
    exact .inr ⟨['b'], rfl, fun _ => rfl⟩
  split
  · rename_i h
    rw [beq_iff_eq.mp h]
    exact .inr ⟨['f'], rfl, fun _ => rfl⟩
  split
  · rename_i h
    have hhex : ∀ n < 32, (Text.hex 4 n).length = 4 ∧ hexValue? (Text.hex 4 n) = some n := by
      decide
    obtain ⟨hlength, hvalue⟩ := hhex c.toNat h
    have hhigh : isHighSurrogate c.toNat = false := by
      simp only [isHighSurrogate, Bool.and_eq_false_iff, decide_eq_false_iff_not]
      omega
    have hlone : loneChar c.toNat = c := by
      have hlow : isLowSurrogate c.toNat = false := by
        simp only [isLowSurrogate, Bool.and_eq_false_iff, decide_eq_false_iff_not]
        omega
      rw [loneChar, hhigh, hlow]
      exact Char.ofNat_toNat c
    refine .inr ⟨_, rfl, fun rest => ?_⟩
    rw [List.cons_append, escaped, unicodeEscape_append hlength hvalue hhigh, hlone]
  · exact .inl ⟨rfl, hplain⟩

theorem quotedChars_escaped {cs rest : List Char} {fuel : Nat}
    (h : (cs.flatMap escapeChar).length < fuel) :
    quotedChars fuel (cs.flatMap escapeChar ++ '"' :: rest) = some (cs, rest) := by
  induction cs generalizing fuel with
  | nil =>
    cases fuel with
    | zero => cases h
    | succ fuel => rfl
  | cons c cs ih =>
    cases fuel with
    | zero => cases h
    | succ fuel =>
      rw [List.flatMap_cons] at h ⊢
      rcases escapeChar_cases c with ⟨hc, hquote, hslash⟩ | ⟨tail, hc, htail⟩
      · rw [hc] at h ⊢
        have hrest := @ih fuel (by simpa using h)
        simp [quotedChars, hquote, hslash, hrest]
      · rw [hc] at h ⊢
        have hrest := @ih fuel (by rw [List.length_append, List.length_cons] at h; omega)
        simp [quotedChars, htail, hrest]

/-! ## Numbers and words -/

/-- The rest of a text does not go on with a number. -/
def Apart (rest : List Char) : Prop := ∀ c, rest.head? = some c → isNumberChar c = false

theorem isNumberChar_of_isMark {c : Char} (h : isMark c = true) : isNumberChar c = true := by
  simp only [isMark, isNumberChar, Bool.or_eq_true] at h ⊢
  exact .inl h

theorem scalar_of_marks {negative : Bool} {first : Char} {others rest : List Char}
    (hfirst : first.isDigit = true)
    (h : ∀ c ∈ signText negative ++ first :: others, isMark c = true) (hrest : Apart rest) :
    scalar (signText negative ++ first :: others ++ rest) =
      (numberOf? (signText negative ++ first :: others)).map (·, rest) := by
  have hne {c : Char} (hc : c.isDigit = false) : c ≠ first := by
    rintro rfl
    rw [hfirst] at hc
    cases hc
  obtain ⟨htake, hdrop⟩ := span_run (fun c hc => isNumberChar_of_isMark (h c hc)) hrest
  have hbind (found : Option Datum) : (found.bind fun value => some (value, rest)) =
      found.map (·, rest) := by cases found <;> rfl
  unfold scalar
  dsimp only
  rw [htake, hdrop]
  cases negative with
  | true =>
    simp [word?, signText, hne (c := 'I') (by decide), hbind]
  | false =>
    simp [word?, signText, hne (c := 'n') (by decide), hne (c := 't') (by decide),
      hne (c := 'f') (by decide), hne (c := 'N') (by decide), hne (c := 'I') (by decide),
      hne (c := '-') (by decide), hbind]

def Opens (c : Char) : Prop := isBlank c = false ∧ c ≠ ']' ∧ c ≠ '\x7d'

theorem opens_of_isMark {c : Char} (h : isMark c = true) : Opens c := by
  have hrange := toNat_of_isMark h
  have hother {d : Char} (hd : ¬ ((43 ≤ d.toNat ∧ d.toNat ≤ 57) ∨ d = 'e')) : c ≠ d := by
    rintro rfl
    exact hd hrange
  refine ⟨?_, hother (by decide), hother (by decide)⟩
  simp only [isBlank, Bool.or_eq_false_iff, beq_eq_false_iff_ne]
  exact ⟨⟨⟨hother (by decide), hother (by decide)⟩, hother (by decide)⟩, hother (by decide)⟩

theorem value_scalar {c : Char} {cs rest blanks : List Char} {fuel : Nat} (hblank : isBlank c = false)
    (htext : c ≠ '"') (hlist : c ≠ '[') (hrecord : c ≠ '\x7b')
    (hblanks : ∀ b ∈ blanks, isBlank b = true) :
    value (fuel + 1) (blanks ++ (c :: cs ++ rest)) = scalar (c :: cs ++ rest) := by
  rw [value, skipBlanks_append hblanks, List.cons_append, skipBlanks_cons hblank]
  split
  · rename_i heq
    exact absurd (List.cons.inj heq).1 htext
  · rename_i heq
    exact absurd (List.cons.inj heq).1 hlist
  · rename_i heq
    exact absurd (List.cons.inj heq).1 hrecord
  · rfl

theorem word?_append (word : String) (rest : List Char) :
    word? word (word.toList ++ rest) = some rest := by
  simp [word?]

theorem pairwise_words (undefined positive negative : Float) :
    [("null", Datum.null), ("true", .flag true), ("false", .flag false), ("NaN", .real undefined),
      ("Infinity", .real positive), ("-Infinity", .real negative)].Pairwise
        fun v w => ∀ rest, word? v.1 (w.1.toList ++ rest) = none := by
  simp [word?]

theorem scalar_word {word : String} {d : Datum} {rest : List Char}
    (hword : (word, d) ∈ [("null", Datum.null), ("true", .flag true), ("false", .flag false),
      ("NaN", .real undefinedDouble), ("Infinity", .real infiniteDouble),
      ("-Infinity", .real (-infiniteDouble))]) :
    scalar (word.toList ++ rest) = some (d, rest) := by
  obtain ⟨front, back, hsplit⟩ := List.append_of_mem hword
  have hpairwise := pairwise_words undefinedDouble infiniteDouble (-infiniteDouble)
  rw [hsplit] at hpairwise
  have hnone (other : String × Datum) (h : other ∈ front) :
      word? other.1 (word.toList ++ rest) = none :=
    (List.pairwise_append.mp hpairwise).2.2 other h (word, d) List.mem_cons_self rest
  have hfound := List.findSome?_eq_some_iff.mpr ⟨front, (word, d), back, hsplit,
    congrArg (Option.map (d, ·)) (word?_append word rest),
    fun other h => congrArg (Option.map (other.2, ·)) (hnone other h)⟩
  unfold scalar
  dsimp only
  rw [hfound]

theorem opens_word {word : String}
    (h : word ∈ ["null", "true", "false", "NaN", "Infinity", "-Infinity"]) :
    ∃ c tail, word.toList = c :: tail ∧ Opens c := by
  simp only [List.mem_cons, List.not_mem_nil, or_false] at h
  rcases h with rfl | rfl | rfl | rfl | rfl | rfl <;>
    exact ⟨_, _, rfl, by decide, by decide, by decide⟩

theorem value_word {word : String} {d : Datum} {rest blanks : List Char} {fuel : Nat}
    (hword : (word, d) ∈ [("null", Datum.null), ("true", .flag true), ("false", .flag false),
      ("NaN", .real undefinedDouble), ("Infinity", .real infiniteDouble),
      ("-Infinity", .real (-infiniteDouble))])
    (hblanks : ∀ b ∈ blanks, isBlank b = true) :
    value (fuel + 1) (blanks ++ (word.toList ++ rest)) = some (d, rest) := by
  obtain ⟨c, tail, htail, hblank, htext, hlist, hrecord⟩ : ∃ c tail, word.toList = c :: tail ∧
      isBlank c = false ∧ c ≠ '"' ∧ c ≠ '[' ∧ c ≠ '\x7b' := by
    simp only [List.mem_cons, Prod.mk.injEq, List.not_mem_nil, or_false] at hword
    rcases hword with h | h | h | h | h | h <;> obtain ⟨rfl, -⟩ := h <;>
      exact ⟨_, _, rfl, by decide⟩
  rw [← scalar_word hword, htail]
  exact value_scalar hblank htext hlist hrecord hblanks

theorem value_number {negative : Bool} {first : Char} {others rest blanks : List Char} {fuel : Nat}
    (hfirst : first.isDigit = true)
    (h : ∀ c ∈ signText negative ++ first :: others, isMark c = true) (hrest : Apart rest)
    (hblanks : ∀ b ∈ blanks, isBlank b = true) :
    value (fuel + 1) (blanks ++ (signText negative ++ first :: others ++ rest)) =
      (numberOf? (signText negative ++ first :: others)).map (·, rest) := by
  have hdigit {d : Char} (hd : d.isDigit = false) : first ≠ d := by
    rintro rfl
    rw [hfirst] at hd
    cases hd
  rw [← scalar_of_marks hfirst h hrest]
  cases negative with
  | true =>
    exact value_scalar (by decide) (by decide) (by decide) (by decide) hblanks
  | false =>
    exact value_scalar (opens_of_isMark (isMark_of_isDigit hfirst)).1 (hdigit (by decide))
      (hdigit (by decide)) (hdigit (by decide)) hblanks

theorem numberOf?_toString {n : Int} (h : (digitsOf n.natAbs).length ≤ wholeDigits) :
    numberOf? (toString n).toList = some (.whole n) := by
  have hplain : (toString n).toList.any (fun c => c == '.' || c == 'e' || c == 'E') = false := by
    rw [toList_toString, List.any_eq_false]
    intro c hc
    rcases List.mem_append.mp hc with hc | hc
    · have hminus : c = '-' := by
        unfold signText at hc
        split at hc
        · exact List.mem_singleton.mp hc
        · cases hc
      rw [hminus]
      decide
    · have hdigit := isDigit_of_mem_digitsOf hc
      simp only [Bool.or_eq_true, beq_iff_eq, not_or]
      refine ⟨⟨?_, ?_⟩, ?_⟩ <;> rintro rfl <;> cases hdigit
  rw [numberOf?, hplain, if_neg (by decide), String.ofList_toList, readWhole?_toString h]
  rfl

theorem numberOf?_shortestText {x : Float} {b : Binary} (h : expand x = .finite b) :
    numberOf? (shortestText .plain x).toList = some (.real (rereadDouble x)) := by
  obtain ⟨y, hy⟩ := readDouble?_shortestText h
  obtain ⟨whole, fraction, power, hparts, htext⟩ := exists_parts_shortestText h
  have hreal : (shortestText .plain x).toList.any (fun c => c == '.' || c == 'e' || c == 'E') =
      true := by
    rw [htext, List.any_eq_true]
    rcases hparts.real with hne | hne
    · obtain ⟨digits, rfl, -⟩ := hparts.behindPoint.resolve_left hne
      exact ⟨'.', by simp, rfl⟩
    · obtain ⟨sign, digits, rfl, -⟩ := hparts.exponent.resolve_left hne
      exact ⟨'e', by simp, rfl⟩
  rw [numberOf?, if_pos hreal, String.ofList_toList, rereadDouble, h]
  simp only [hy, Option.map_some, Option.getD_some]

theorem value_double {x : Float} {rest blanks : List Char} {fuel : Nat} (hrest : Apart rest)
    (hblanks : ∀ b ∈ blanks, isBlank b = true) :
    value (fuel + 1) (blanks ++ ((double x).toList ++ rest)) =
      some (.real (rereadDouble x), rest) := by
  cases hx : expand x with
  | notANumber =>
    rw [double, rereadDouble, hx]
    exact value_word (by simp) hblanks
  | infinite negative =>
    rw [double, rereadDouble, hx]
    cases negative <;> exact value_word (by simp) hblanks
  | finite b =>
    obtain ⟨whole, fraction, power, hparts, htext⟩ := exists_parts_shortestText hx
    obtain ⟨first, others, rfl⟩ := List.exists_cons_of_ne_nil hparts.ne_nil
    have hnumber := numberOf?_shortestText hx
    have hmarks := List.forall_mem_append.mpr
      ⟨fun c (hc : c ∈ signText b.negative) => isMark_of_mem_signText hc, hparts.marks⟩
    rw [double, hx]
    dsimp only
    rw [htext] at hnumber ⊢
    rw [List.cons_append, List.cons_append] at hmarks hnumber ⊢
    rw [value_number (hparts.digits first List.mem_cons_self) hmarks hrest hblanks, hnumber]
    rfl

/-! ## Values -/

theorem toList_quote (s : String) :
    (quote s).toList = '"' :: (s.toList.flatMap escapeChar ++ ['"']) := by
  rw [quote, String.toList_ofList]
  rfl

theorem quotedChars_quote (s : String) (rest : List Char) :
    quotedChars ((s.toList.flatMap escapeChar ++ '"' :: rest).length + 1)
      (s.toList.flatMap escapeChar ++ '"' :: rest) = some (s.toList, rest) := by
  refine quotedChars_escaped ?_
  rw [List.length_append]
  omega

theorem value_quote {s : String} {rest blanks : List Char} {fuel : Nat}
    (hblanks : ∀ b ∈ blanks, isBlank b = true) :
    value (fuel + 1) (blanks ++ ((quote s).toList ++ rest)) = some (.text s, rest) := by
  have hquoted := quotedChars_quote s rest
  rw [value, skipBlanks_append hblanks, toList_quote, List.cons_append, List.append_assoc,
    List.singleton_append, skipBlanks_cons (by decide)]
  change (quotedChars _ _).bind (fun found => some (Datum.text (String.ofList found.1), found.2)) = _
  rw [hquoted, Option.bind_some, String.ofList_toList]

theorem value_whole {n : Int} {rest blanks : List Char} {fuel : Nat}
    (h : (digitsOf n.natAbs).length ≤ wholeDigits) (hrest : Apart rest)
    (hblanks : ∀ b ∈ blanks, isBlank b = true) :
    value (fuel + 1) (blanks ++ ((toString n).toList ++ rest)) = some (.whole n, rest) := by
  have hnumber := numberOf?_toString h
  have hdigits : ∀ c ∈ digitsOf n.natAbs, c.isDigit = true := fun c hc => isDigit_of_mem_digitsOf hc
  obtain ⟨first, others, hcons⟩ := List.exists_cons_of_ne_nil (digitsOf_ne_nil n.natAbs)
  have hmarks := List.forall_mem_append.mpr
    ⟨fun c (hc : c ∈ signText (n < 0)) => isMark_of_mem_signText hc,
      fun c hc => isMark_of_isDigit (hdigits c hc)⟩
  rw [toList_toString] at hnumber ⊢
  rw [hcons] at hdigits hmarks hnumber ⊢
  rw [value_number (hdigits first List.mem_cons_self) hmarks hrest hblanks, hnumber]
  rfl

theorem value_list {cs rest blanks : List Char} {xs : List Datum} {fuel : Nat}
    (hblanks : ∀ b ∈ blanks, isBlank b = true) (hopen : ∃ c tail, skipBlanks cs = c :: tail ∧ Opens c)
    (h : items fuel (skipBlanks cs) = some (xs, rest)) :
    value (fuel + 1) (blanks ++ '[' :: cs) = some (.list xs, rest) := by
  obtain ⟨c, tail, htail, -, hclosing, -⟩ := hopen
  rw [htail] at h
  rw [value, skipBlanks_append hblanks, skipBlanks_cons (by decide)]
  simp only [htail]
  split
  · rename_i heq
    exact absurd (List.cons.inj heq).1 hclosing
  · rw [h]
    rfl

theorem value_record {cs rest blanks : List Char} {fs : List (String × Datum)} {fuel : Nat}
    (hblanks : ∀ b ∈ blanks, isBlank b = true) (hopen : ∃ tail, skipBlanks cs = '"' :: tail)
    (h : fields fuel (skipBlanks cs) = some (fs, rest)) :
    value (fuel + 1) (blanks ++ '\x7b' :: cs) = some (.record (Entries.ofList fs), rest) := by
  obtain ⟨tail, htail⟩ := hopen
  rw [htail] at h
  rw [value, skipBlanks_append hblanks, skipBlanks_cons (by decide)]
  simp only [htail]
  split
  · rename_i heq
    exact absurd (List.cons.inj heq).1 (by decide)
  · rw [h]
    rfl

theorem items_last {cs last rest : List Char} {x : Datum} {fuel : Nat}
    (hlast : ∀ b ∈ last, isBlank b = true) (h : value fuel cs = some (x, last ++ ']' :: rest)) :
    items (fuel + 1) cs = some ([x], rest) := by
  rw [items, h]
  simp only [Option.bind_eq_bind, Option.bind_some, skipBlanks_append hlast,
    skipBlanks_cons (show isBlank ']' = false by decide), Option.pure_def]

theorem items_next {cs rest others : List Char} {x : Datum} {xs : List Datum} {fuel : Nat}
    (h : value fuel cs = some (x, ',' :: others)) (hothers : items fuel others = some (xs, rest)) :
    items (fuel + 1) cs = some (x :: xs, rest) := by
  rw [items, h]
  simp only [Option.bind_eq_bind, Option.bind_some,
    skipBlanks_cons (show isBlank ',' = false by decide), hothers, Option.pure_def]

theorem skipBlanks_quote {name : String} {blanks rest : List Char}
    (hblanks : ∀ b ∈ blanks, isBlank b = true) :
    skipBlanks (blanks ++ ((quote name).toList ++ rest)) =
      '"' :: (name.toList.flatMap escapeChar ++ '"' :: rest) := by
  rw [skipBlanks_append hblanks, toList_quote, List.cons_append, List.append_assoc,
    List.singleton_append, skipBlanks_cons (by decide)]

theorem fields_last {name : String} {x : Datum} {blanks cs last rest : List Char} {fuel : Nat}
    (hblanks : ∀ b ∈ blanks, isBlank b = true) (hlast : ∀ b ∈ last, isBlank b = true)
    (h : value fuel cs = some (x, last ++ '\x7d' :: rest)) :
    fields (fuel + 1) (blanks ++ ((quote name).toList ++ ':' :: cs)) =
      some ([(name, x)], rest) := by
  rw [fields, skipBlanks_quote hblanks]
  simp only [Option.bind_eq_bind, quotedChars_quote, Option.bind_some,
    skipBlanks_cons (show isBlank ':' = false by decide), h, skipBlanks_append hlast,
    skipBlanks_cons (show isBlank '\x7d' = false by decide), Option.pure_def, String.ofList_toList]

theorem fields_next {name : String} {x : Datum} {fs : List (String × Datum)}
    {blanks cs others rest : List Char} {fuel : Nat} (hblanks : ∀ b ∈ blanks, isBlank b = true)
    (h : value fuel cs = some (x, ',' :: others)) (hothers : fields fuel others = some (fs, rest)) :
    fields (fuel + 1) (blanks ++ ((quote name).toList ++ ':' :: cs)) =
      some ((name, x) :: fs, rest) := by
  rw [fields, skipBlanks_quote hblanks]
  simp only [Option.bind_eq_bind, quotedChars_quote, Option.bind_some,
    skipBlanks_cons (show isBlank ':' = false by decide), h,
    skipBlanks_cons (show isBlank ',' = false by decide), hothers, Option.pure_def,
    String.ofList_toList]

def Style.joined (style : Style) (depth : Nat) (parts : List String) : List Char :=
  ((style.comma ++ style.line depth).intercalate parts).toList

theorem toList_enclose (style : Style) (depth : Nat) {opening closing : String} {first last : Char}
    (hopening : opening.toList = [first]) (hclosing : closing.toList = [last]) (part : String)
    (parts : List String) (rest : List Char) :
    (style.enclose depth opening closing (part :: parts)).toList ++ rest =
      first :: ((style.line (depth + 1)).toList ++ (style.joined (depth + 1) (part :: parts) ++
        ((style.line depth).toList ++ last :: rest))) := by
  simp [Style.enclose, Style.joined, hopening, hclosing]

theorem joined_singleton (style : Style) (depth : Nat) (part : String) :
    style.joined depth [part] = part.toList := by
  rw [Style.joined, String.intercalate_singleton]

theorem joined_cons {style : Style} (hstyle : style.Spaced) (depth : Nat) (part other : String)
    (others : List String) :
    style.joined depth (part :: other :: others) =
      part.toList ++ ',' :: ((style.line depth).toList ++ style.joined depth (other :: others)) := by
  simp only [Style.joined, String.intercalate_cons_cons, String.toList_append, hstyle.comma,
    List.append_assoc, List.cons_append, List.nil_append]

theorem exists_joined (style : Style) (depth : Nat) (part : String) (parts : List String) :
    ∃ tail, style.joined depth (part :: parts) = part.toList ++ tail := by
  cases parts with
  | nil => exact ⟨[], by rw [joined_singleton, List.append_nil]⟩
  | cons other others =>
    rw [Style.joined, String.intercalate_cons_cons, String.toList_append, String.toList_append,
      List.append_assoc]
    exact ⟨_, rfl⟩

theorem opens_of_marks {cs : List Char} (hne : cs ≠ []) (h : ∀ c ∈ cs, isMark c = true) :
    ∃ c tail, cs = c :: tail ∧ Opens c := by
  obtain ⟨c, tail, rfl⟩ := List.exists_cons_of_ne_nil hne
  exact ⟨c, tail, rfl, opens_of_isMark (h c List.mem_cons_self)⟩

theorem opens_double (x : Float) : ∃ c tail, (double x).toList = c :: tail ∧ Opens c := by
  cases hx : expand x with
  | notANumber =>
    rw [double, hx]
    exact opens_word (by simp)
  | infinite negative =>
    rw [double, hx]
    cases negative <;> exact opens_word (by simp)
  | finite b =>
    obtain ⟨whole, fraction, power, hparts, htext⟩ := exists_parts_shortestText hx
    rw [double, hx]
    dsimp only
    rw [htext]
    refine opens_of_marks ?_ (List.forall_mem_append.mpr
      ⟨fun c hc => isMark_of_mem_signText hc, hparts.marks⟩)
    simp [hparts.ne_nil]

theorem opens_enclose {style : Style} {depth : Nat} {opening closing : String} {first : Char}
    {parts : List String} (hopening : opening.toList = [first]) (hfirst : Opens first) :
    ∃ c tail, (style.enclose depth opening closing parts).toList = c :: tail ∧ Opens c := by
  unfold Style.enclose
  split
  · exact ⟨first, closing.toList, by simp [hopening], hfirst⟩
  · dsimp only
    simp only [String.toList_append, hopening, List.append_assoc, List.singleton_append]
    exact ⟨first, _, rfl, hfirst⟩

theorem opens_write (style : Style) (depth : Nat) (d : Datum) :
    ∃ c tail, (write style depth d).toList = c :: tail ∧ Opens c := by
  cases d with
  | null =>
    rw [write]
    exact opens_word (by simp)
  | flag b =>
    rw [write]
    cases b <;> exact opens_word (by simp)
  | whole n =>
    rw [write, toList_toString]
    exact opens_of_marks (by simp [digitsOf_ne_nil]) (List.forall_mem_append.mpr
      ⟨fun c hc => isMark_of_mem_signText hc,
        fun c hc => isMark_of_isDigit (isDigit_of_mem_digitsOf hc)⟩)
  | real x => exact opens_double x
  | text s =>
    rw [write, toList_quote]
    exact ⟨_, _, rfl, by decide, by decide, by decide⟩
  | list xs =>
    rw [write]
    exact opens_enclose rfl ⟨by decide, by decide, by decide⟩
  | record fs =>
    rw [write]
    exact opens_enclose rfl ⟨by decide, by decide, by decide⟩

theorem apart_of_blanks {blanks rest : List Char} {c : Char} (h : ∀ b ∈ blanks, isBlank b = true)
    (hc : isNumberChar c = false) : Apart (blanks ++ c :: rest) := by
  cases blanks with
  | nil =>
    rintro _ ⟨⟩
    exact hc
  | cons b blanks =>
    rintro _ ⟨⟩
    have hb := h b List.mem_cons_self
    simp only [isBlank, Bool.or_eq_true, beq_iff_eq] at hb
    rcases hb with ((rfl | rfl) | rfl) | rfl <;> decide

theorem value_nil {style : Style} {depth : Nat} {blanks rest : List Char} {fuel : Nat}
    (hblanks : ∀ b ∈ blanks, isBlank b = true) :
    value (fuel + 1) (blanks ++ ((write style depth (.list [])).toList ++ rest)) =
      some (.list [], rest) := by
  have hbrackets : (write style depth (.list [])).toList = ['[', ']'] := by
    simp [write, writeItems, Style.enclose]
  rw [value, skipBlanks_append hblanks, hbrackets]
  rfl

theorem value_emptyRecord {style : Style} {depth : Nat} {blanks rest : List Char} {fuel : Nat}
    (hblanks : ∀ b ∈ blanks, isBlank b = true) :
    value (fuel + 1) (blanks ++ ((write style depth (.record [])).toList ++ rest)) =
      some (.record [], rest) := by
  have hbraces : (write style depth (.record [])).toList = ['\x7b', '\x7d'] := by
    simp [write, writeFields, Style.enclose]
  rw [value, skipBlanks_append hblanks, hbraces]
  rfl

theorem skipBlanks_joined {style : Style} {depth : Nat} {blanks tail rest : List Char}
    {part : String} {parts : List String} {c : Char} (hblanks : ∀ b ∈ blanks, isBlank b = true)
    (hpart : part.toList = c :: tail) (hc : isBlank c = false) :
    skipBlanks (blanks ++ (style.joined depth (part :: parts) ++ rest)) =
        style.joined depth (part :: parts) ++ rest ∧
      ∃ tail, style.joined depth (part :: parts) ++ rest = c :: tail := by
  obtain ⟨others, hothers⟩ := exists_joined style depth part parts
  rw [skipBlanks_append hblanks, hothers, hpart]
  exact ⟨skipBlanks_cons hc _, _, rfl⟩

/-! ## What reads back -/

/-- The written value is read wherever it stands. -/
def ReadsBack (style : Style) (depth : Nat) (d : Datum) : Prop :=
  Legible d → ∀ {blanks rest : List Char} {fuel : Nat}, (∀ b ∈ blanks, isBlank b = true) →
    Apart rest → (write style depth d).toList.length ≤ fuel →
    value (fuel + 1) (blanks ++ ((write style depth d).toList ++ rest)) = some (reread d, rest)

def ItemsReadBack (style : Style) (depth : Nat) (xs : List Datum) : Prop :=
  xs ≠ [] → ItemsLegible xs → ∀ {blanks last rest : List Char} {fuel : Nat},
    (∀ b ∈ blanks, isBlank b = true) → (∀ b ∈ last, isBlank b = true) →
    (style.joined depth (writeItems style depth xs)).length + 1 ≤ fuel →
    items (fuel + 1)
      (blanks ++ (style.joined depth (writeItems style depth xs) ++ (last ++ ']' :: rest))) =
        some (rereadItems xs, rest)

def FieldsReadBack (style : Style) (depth : Nat) (fs : List (String × Datum)) : Prop :=
  fs ≠ [] → FieldsLegible fs → ∀ {blanks last rest : List Char} {fuel : Nat},
    (∀ b ∈ blanks, isBlank b = true) → (∀ b ∈ last, isBlank b = true) →
    (style.joined depth (writeFields style depth fs)).length + 1 ≤ fuel →
    fields (fuel + 1)
      (blanks ++ (style.joined depth (writeFields style depth fs) ++ (last ++ '\x7d' :: rest))) =
        some (rereadFields fs, rest)

section

variable {style : Style} {depth : Nat}

theorem readsBack_list (hstyle : style.Spaced) {xs : List Datum}
    (hxs : ItemsReadBack style (depth + 1) xs) : ReadsBack style depth (.list xs) := by
  intro h blanks rest fuel hblanks _ hfuel
  cases xs with
  | nil => exact value_nil hblanks
  | cons x xs =>
    have henclose := @toList_enclose style depth "[" "]" '[' ']' rfl rfl (write style (depth + 1) x)
      (writeItems style (depth + 1) xs)
    have hlength := congrArg List.length (henclose [])
    simp only [List.append_nil, List.length_append, List.length_cons] at hlength
    rw [write, writeItems] at hfuel ⊢
    rw [henclose]
    obtain ⟨fuel, rfl⟩ : ∃ others, fuel = others + 1 := ⟨fuel - 1, by omega⟩
    obtain ⟨c, tail, htail, hc⟩ := opens_write style (depth + 1) x
    obtain ⟨hskip, others, hothers⟩ := @skipBlanks_joined style (depth + 1) _ tail
      ((style.line depth).toList ++ ']' :: rest) _ (writeItems style (depth + 1) xs) c
      (hstyle.line (depth + 1)) htail hc.1
    refine value_list hblanks ⟨c, others, hskip.trans hothers, hc⟩ ?_
    rw [hskip]
    rw [← writeItems] at hfuel hlength ⊢
    exact @hxs (by simp) h [] _ _ _ nofun (hstyle.line depth) (by omega)

theorem readsBack_record (hstyle : style.Spaced) {fs : List (String × Datum)}
    (hfs : FieldsReadBack style (depth + 1) fs) : ReadsBack style depth (.record fs) := by
  intro h blanks rest fuel hblanks _ hfuel
  cases fs with
  | nil => exact value_emptyRecord hblanks
  | cons f fs =>
    obtain ⟨name, x⟩ := f
    have henclose := @toList_enclose style depth "\x7b" "\x7d" '\x7b' '\x7d' rfl rfl
      (quote name ++ style.colon ++ write style (depth + 1) x) (writeFields style (depth + 1) fs)
    have hlength := congrArg List.length (henclose [])
    simp only [List.append_nil, List.length_append, List.length_cons] at hlength
    rw [write, writeFields] at hfuel ⊢
    rw [henclose]
    obtain ⟨fuel, rfl⟩ : ∃ others, fuel = others + 1 := ⟨fuel - 1, by omega⟩
    have hquote : (quote name ++ style.colon ++ write style (depth + 1) x).toList = '"' ::
        (name.toList.flatMap escapeChar ++ '"' :: (style.colon.toList ++
          (write style (depth + 1) x).toList)) := by
      simp [toList_quote]
    obtain ⟨hskip, others, hothers⟩ := @skipBlanks_joined style (depth + 1) _ _
      ((style.line depth).toList ++ '\x7d' :: rest) _ (writeFields style (depth + 1) fs) '"'
      (hstyle.line (depth + 1)) hquote (by decide)
    refine value_record hblanks ⟨others, hskip.trans hothers⟩ ?_
    rw [hskip]
    rw [← writeFields] at hfuel hlength ⊢
    exact @hfs (by simp) h [] _ _ _ nofun (hstyle.line depth) (by omega)

theorem itemsReadBack_cons (hstyle : style.Spaced) {x : Datum} {xs : List Datum}
    (hx : ReadsBack style depth x) (hxs : ItemsReadBack style depth xs) :
    ItemsReadBack style depth (x :: xs) := by
  intro _ h blanks last rest fuel hblanks hlast hfuel
  obtain ⟨fuel, rfl⟩ : ∃ others, fuel = others + 1 := ⟨fuel - 1, by omega⟩
  cases xs with
  | nil =>
    rw [writeItems, writeItems, joined_singleton] at hfuel ⊢
    exact items_last hlast
      (hx h.1 hblanks (apart_of_blanks hlast (by decide)) (by omega))
  | cons y ys =>
    rw [writeItems, writeItems, joined_cons hstyle, ← writeItems] at hfuel ⊢
    simp only [List.length_append, List.length_cons] at hfuel
    rw [List.append_assoc, List.cons_append, List.append_assoc]
    exact items_next (hx h.1 hblanks (@apart_of_blanks [] _ ',' nofun (by decide)) (by omega))
      (hxs (by simp) h.2 (hstyle.line depth) hlast (by omega))

theorem fieldsReadBack_cons (hstyle : style.Spaced) {name : String} {x : Datum}
    {fs : List (String × Datum)} (hx : ReadsBack style depth x)
    (hfs : FieldsReadBack style depth fs) : FieldsReadBack style depth ((name, x) :: fs) := by
  intro _ h blanks last rest fuel hblanks hlast hfuel
  obtain ⟨colon, hcolon, hspaces⟩ := hstyle.colon
  obtain ⟨fuel, rfl⟩ : ∃ others, fuel = others + 1 := ⟨fuel - 1, by omega⟩
  cases fs with
  | nil =>
    rw [writeFields, writeFields, joined_singleton] at hfuel ⊢
    simp only [String.toList_append, hcolon, List.length_append, List.length_cons] at hfuel
    simp only [String.toList_append, hcolon, List.append_assoc, List.cons_append]
    exact fields_last hblanks hlast
      (hx h.1 hspaces (apart_of_blanks hlast (by decide)) (by omega))
  | cons g gs =>
    obtain ⟨other, y⟩ := g
    rw [writeFields, writeFields, joined_cons hstyle, ← writeFields] at hfuel ⊢
    simp only [String.toList_append, hcolon, List.length_append, List.length_cons] at hfuel
    simp only [String.toList_append, hcolon, List.append_assoc, List.cons_append]
    exact fields_next hblanks
      (hx h.1 hspaces (@apart_of_blanks [] _ ',' nofun (by decide)) (by omega))
      (hfs (by simp) h.2 (hstyle.line depth) hlast (by omega))

end

mutual

theorem readsBack {style : Style} (hstyle : style.Spaced) :
    ∀ (d : Datum) (depth : Nat), ReadsBack style depth d
  | .null, _ => fun _ _ _ _ hblanks _ _ => value_word (by simp [write, reread]) hblanks
  | .flag true, _ => fun _ _ _ _ hblanks _ _ => value_word (by simp [write, reread]) hblanks
  | .flag false, _ => fun _ _ _ _ hblanks _ _ => value_word (by simp [write, reread]) hblanks
  | .whole _, _ => fun h _ _ _ hblanks hrest _ => value_whole h hrest hblanks
  | .real _, _ => fun _ _ _ _ hblanks hrest _ => value_double hrest hblanks
  | .text _, _ => fun _ _ _ _ hblanks _ _ => value_quote hblanks
  | .list xs, depth => readsBack_list hstyle (itemsReadBack hstyle xs (depth + 1))
  | .record fs, depth => readsBack_record hstyle (fieldsReadBack hstyle fs (depth + 1))

theorem itemsReadBack {style : Style} (hstyle : style.Spaced) :
    ∀ (xs : List Datum) (depth : Nat), ItemsReadBack style depth xs
  | [], _ => fun h => absurd rfl h
  | x :: xs, depth =>
    itemsReadBack_cons hstyle (readsBack hstyle x depth) (itemsReadBack hstyle xs depth)

theorem fieldsReadBack {style : Style} (hstyle : style.Spaced) :
    ∀ (fs : List (String × Datum)) (depth : Nat), FieldsReadBack style depth fs
  | [], _ => fun h => absurd rfl h
  | (_, x) :: fs, depth =>
    fieldsReadBack_cons hstyle (readsBack hstyle x depth) (fieldsReadBack hstyle fs depth)

end

end Renovation.Document
