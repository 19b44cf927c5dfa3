import Mathlib
import Rollforward.Formula.Lexer
import Rollforward.Proofs.Text.Run

/-!
# `Rollforward.Proofs.Formula.Lexis`: how tokens are spelt

`Spells t word` says that `word` is a way to write the token `t`. It knows nothing of what stands
around the word. The scan reads the longest token that it can, so what follows has a say in where
the word ends (`Token.EndsBefore`): a sign `<` ends unless `=` follows, and a name in lower case may
turn out to be the first part of a prefix, which only shows at the colon.

`spells_of_scan` and `scan_of_spells` are the two directions: what is scanned is spelt so, and what
is spelt so is scanned where it ends.
-/

set_option autoImplicit false

namespace Rollforward.Formula

open Text (EndsRun endsRun_nil endsRun_cons endsRun_dropWhile)

/-! ### Words -/

/-- The characters of words lie between the digits and the lower-case letters. That none of them is
a blank follows from the bounds alone. -/
theorem range_of_isWordChar {c : Char} (h : isWordChar c = true) :
    48 ≤ c.toNat ∧ c.toNat ≤ 122 := by
  simp only [isWordChar, Char.isAlphanum, Char.isAlpha, Char.isUpper, Char.isLower, Char.isDigit,
    UInt32.le_iff_toNat_le, ge_iff_le, Bool.or_eq_true, Bool.and_eq_true, decide_eq_true_eq,
    beq_iff_eq] at h
  obtain ((upper | lower) | digit) | rfl := h
  · exact ⟨Nat.le_trans (by decide) upper.1, Nat.le_trans upper.2 (by decide)⟩
  · exact ⟨Nat.le_trans (by decide) lower.1, lower.2⟩
  · exact ⟨digit.1, Nat.le_trans digit.2 (by decide)⟩
  · decide

/-- What can begin a word can go on in it. -/
theorem isWordChar_of_isWordStart {c : Char} (h : isWordStart c = true) : isWordChar c = true := by
  simp only [isWordStart, isWordChar, Char.isAlphanum, Bool.or_eq_true] at h ⊢
  exact h.imp_left Or.inl

/-- The characters of hyphenated prefixes are characters of words. -/
theorem isWordChar_of_isLowerChar {c : Char} (h : isLowerChar c = true) : isWordChar c = true := by
  simp only [isLowerChar, isWordChar, Char.isAlphanum, Char.isAlpha, Bool.or_eq_true] at h ⊢
  tauto

/-- Lower-case words, each behind a hyphen. -/
inductive IsHyphenated : List Char → Prop where
  | nil : IsHyphenated []
  | part {word rest : List Char} (some : word ≠ []) (lower : ∀ c ∈ word, isLowerChar c = true)
    (more : IsHyphenated rest) : IsHyphenated ('-' :: (word ++ rest))

/-- A letter or an underscore, and then letters, digits and underscores. -/
structure IsName (word : List Char) : Prop where
  start : ∃ c ∈ word.head?, isWordStart c = true
  all : ∀ c ∈ word, isWordChar c = true

/-- A single letter is a name. -/
theorem isName_singleton {c : Char} (start : isWordStart c = true) : IsName [c] :=
  ⟨⟨c, rfl, start⟩, List.forall_mem_singleton.2 (isWordChar_of_isWordStart start)⟩

/-- A name, or lower-case words joined by hyphens. -/
inductive IsQualifier : List Char → Prop where
  | intro {word parts : List Char} (name : IsName word) (hyphens : IsHyphenated parts)
    (lower : parts ≠ [] → ∀ c ∈ word, isLowerChar c = true) : IsQualifier (word ++ parts)

/-- The hyphenated words in front of a text are taken. -/
theorem isHyphenated_take (cs : List Char) :
    hyphenated cs ≤ cs.length ∧ IsHyphenated (cs.take (hyphenated cs)) := by
  fun_induction hyphenated cs with
  | case1 after part none => exact ⟨Nat.zero_le _, .nil⟩
  | case2 after part some ih =>
      obtain ⟨le, more⟩ := ih
      have whole : part ++ after.dropWhile isLowerChar = after := List.takeWhile_append_dropWhile
      have length : part.length + (after.dropWhile isLowerChar).length = after.length := by
        rw [← List.length_append, whole]
      have taken :
          ('-' :: after).take (part.length + 1 + hyphenated (after.dropWhile isLowerChar)) =
            '-' :: (part ++ (after.dropWhile isLowerChar).take
              (hyphenated (after.dropWhile isLowerChar))) := by
        rw [Nat.add_right_comm, List.take_succ_cons, ← List.take_length_add_append, whole]
      refine ⟨by rw [List.length_cons]; omega, ?_⟩
      rw [taken]
      refine .part ?_ (fun c hc => List.mem_takeWhile_imp hc) more
      intro none
      exact some (List.isEmpty_iff.2 none)
  | case3 => exact ⟨Nat.zero_le _, .nil⟩

/-- Without a hyphen nothing of a hyphenated prefix is taken. -/
theorem hyphenated_eq_zero_of_head? {cs : List Char} (h : cs.head? ≠ some '-') :
    hyphenated cs = 0 := by
  unfold hyphenated
  split
  · exact absurd rfl h
  · rfl

/-- In front of a colon they are all taken. -/
theorem IsHyphenated.hyphenated_append {parts : List Char} (h : IsHyphenated parts)
    (rest : List Char) : hyphenated (parts ++ ':' :: rest) = parts.length := by
  induction h with
  | nil => exact hyphenated_eq_zero_of_head? nofun
  | @part word parts some lower more ih =>
      -- What follows the word is a hyphen or the colon.
      have ends : EndsRun isLowerChar (parts ++ ':' :: rest) := by
        cases more with
        | nil => exact endsRun_cons.2 (by decide)
        | part => exact endsRun_cons.2 (by decide)
      rw [List.cons_append, List.append_assoc, hyphenated, ends.takeWhile_append lower,
        ends.dropWhile_append lower, ih, if_neg (by simpa using some), List.length_cons,
        List.length_append]
      omega

/-! ### Tokens -/

/-- The signs of one character. -/
def signs : List (Char × Token) :=
  [('+', .plus), ('-', .minus), ('*', .star), ('/', .slash), ('^', .caret), ('(', .openParen),
    (')', .closeParen), ('[', .openBracket), (']', .closeBracket), (',', .comma), ('<', .less),
    ('>', .greater), ('=', .equal)]

/-- The signs with an equality sign behind them, by the character in front of it. -/
def doubledSigns : List (Char × Token) :=
  [('<', .lessEq), ('>', .greaterEq), ('=', .equal), ('!', .unequal)]

/-- The word is a way to write the token. -/
inductive Spells : Token → List Char → Prop where
  | whole {digits : List Char} (some : digits ≠ []) (all : ∀ c ∈ digits, c.isDigit = true) :
    Spells (.numeral (.ofParts digits [])) digits
  /-- There may be no digits on one side of the point. -/
  | pointed {whole fraction : List Char} (some : whole ≠ [] ∨ fraction ≠ [])
    (before : ∀ c ∈ whole, c.isDigit = true) (behind : ∀ c ∈ fraction, c.isDigit = true) :
    Spells (.numeral (.ofParts whole fraction)) (whole ++ '.' :: fraction)
  | text {quote : Char} {body : List Char} (isQuote : quote = '"' ∨ quote = '\'')
    (unquoted : quote ∉ body) : Spells (.text (String.ofList body)) (quote :: (body ++ [quote]))
  | name {word : List Char} (isName : IsName word) : Spells (.name (String.ofList word)) word
  | qualifier {word : List Char} (isQualifier : IsQualifier word) :
    Spells (.qualifier (String.ofList word)) (word ++ [':'])
  | sign {c : Char} {t : Token} (listed : (c, t) ∈ signs) : Spells t [c]
  | doubled {c : Char} {t : Token} (listed : (c, t) ∈ doubledSigns) : Spells t [c, '=']

namespace Spells

variable {s : String} {word : List Char}

/-- A text is spelt with quotes around it, the same on both sides. -/
theorem eq_of_text (h : Spells (.text s) word) :
    ∃ quote, (quote = '"' ∨ quote = '\'') ∧ word = quote :: (s.toList ++ [quote]) := by
  cases h with
  | @text quote body isQuote unquoted =>
      exact ⟨quote, isQuote, by rw [String.toList_ofList]⟩
  | sign listed => simp [signs] at listed
  | doubled listed => simp [doubledSigns] at listed

/-- A name is spelt as it is. -/
theorem eq_of_name (h : Spells (.name s) word) : IsName s.toList ∧ word = s.toList := by
  cases h with
  | name isName =>
      rw [String.toList_ofList]
      exact ⟨isName, rfl⟩
  | sign listed => simp [signs] at listed
  | doubled listed => simp [doubledSigns] at listed

/-- A prefix is spelt with its colon. -/
theorem eq_of_qualifier (h : Spells (.qualifier s) word) :
    IsQualifier s.toList ∧ word = s.toList ++ [':'] := by
  cases h with
  | qualifier isQualifier =>
      rw [String.toList_ofList]
      exact ⟨isQualifier, rfl⟩
  | sign listed => simp [signs] at listed
  | doubled listed => simp [doubledSigns] at listed

/-- A numeral has digits in it and at most a point. -/
theorem chars_of_numeral {n : Decimal.Numeral} (h : Spells (.numeral n) word) :
    ∀ c ∈ word, (c.isDigit || c == '.') = true := by
  cases h with
  | whole some all => exact fun c hc => by rw [all c hc, Bool.true_or]
  | pointed some before behind =>
      intro c hc
      rw [List.mem_append, List.mem_cons] at hc
      obtain hc | rfl | hc := hc
      · rw [before c hc, Bool.true_or]
      · decide
      · rw [behind c hc, Bool.true_or]
  | sign listed => simp [signs] at listed
  | doubled listed => simp [doubledSigns] at listed

/-- No number has a colon in it. -/
theorem colon_not_mem_of_numeral {n : Decimal.Numeral} (h : Spells (.numeral n) word) :
    ':' ∉ word :=
  fun colon => absurd (h.chars_of_numeral _ colon) (by decide)

end Spells

/-- The token ends in front of `rest`, in all its spellings. -/
def Token.EndsBefore : Token → List Char → Prop
  | .numeral _, rest => EndsRun (fun c => c.isDigit || c == '.') rest
  | .name _, rest => EndsRun isWordChar rest ∧ (rest.drop (hyphenated rest)).head? ≠ some ':'
  | .less, rest | .greater, rest | .equal, rest => rest.head? ≠ some '='
  | _, _ => True

/-! ### What is scanned is spelt -/

section
variable {cs : List Char} {t : Token} {more : Nat}

/-- What is scanned as a number is spelt like one. The hypothesis on the first character is the case
in which the lexer comes here. -/
theorem spells_of_scanNumeral (start : ∃ c ∈ cs.head?, (c.isDigit || c == '.') = true)
    (h : scanNumeral cs = .ok (t, more)) :
    ∃ word rest, cs = word ++ rest ∧ word.length = more + 1 ∧ Spells t word := by
  have split := List.takeWhile_append_dropWhile (p := Char.isDigit) (l := cs)
  have digits {ds : List Char} : ∀ c ∈ ds.takeWhile Char.isDigit, c.isDigit = true :=
    fun c hc => List.mem_takeWhile_imp hc
  unfold scanNumeral at h
  dsimp only at h
  split at h
  · next after point =>
    rw [point] at split
    split at h
    · cases h
    · next some =>
      obtain ⟨rfl, rfl⟩ := Prod.mk.inj (Except.ok.inj h)
      refine ⟨_, after.dropWhile Char.isDigit, ?_, ?_, .pointed ?_ digits digits⟩
      · rw [List.append_assoc, List.cons_append, List.takeWhile_append_dropWhile, split]
      · rw [List.length_append, List.length_cons, Nat.add_assoc]
      · simpa only [Bool.and_eq_true, List.isEmpty_iff, not_and_or] using some
  · next noPoint =>
    obtain ⟨rfl, rfl⟩ := Prod.mk.inj (Except.ok.inj h)
    -- The first character is a digit, since it would be a point otherwise.
    have some : cs.takeWhile Char.isDigit ≠ [] := by
      intro none
      rw [none, List.nil_append] at split
      obtain ⟨c, first, isStart⟩ := start
      obtain ⟨rest, rfl⟩ := List.head?_eq_some_iff.1 first
      have notDigit : c.isDigit = false := endsRun_cons.1 (split ▸ endsRun_dropWhile _ _)
      rw [notDigit, Bool.false_or, beq_iff_eq] at isStart
      exact noPoint rest (by rw [split, isStart])
    refine ⟨_, _, split.symm, ?_, .whole some digits⟩
    have pos := List.length_pos_iff.2 some
    omega

/-- What is scanned as a text has its quotes, and none of the same kind between them. -/
theorem spells_of_scanText {quote : Char} (isQuote : quote = '"' ∨ quote = '\'')
    (h : scanText quote cs = .ok (t, more)) :
    ∃ word rest, quote :: cs = word ++ rest ∧ word.length = more + 1 ∧ Spells t word := by
  have split := List.takeWhile_append_dropWhile (p := (· != quote)) (l := cs)
  unfold scanText at h
  dsimp only at h
  split at h
  · next closed =>
    obtain ⟨rfl, rfl⟩ := Prod.mk.inj (Except.ok.inj h)
    have unquoted : quote ∉ cs.takeWhile (· != quote) := by
      intro inside
      simpa using List.mem_takeWhile_imp inside
    have ends := endsRun_dropWhile (· != quote) cs
    cases behind : cs.dropWhile (· != quote) with
    | nil =>
        rw [behind, List.append_nil] at split
        rw [split] at closed
        exact absurd closed (Nat.lt_irrefl _)
    | cons c rest =>
        rw [behind] at split ends
        obtain rfl : c = quote := by simpa using endsRun_cons.1 ends
        refine ⟨_, rest, ?_, ?_, .text isQuote unquoted⟩
        · rw [List.cons_append, List.append_assoc, List.singleton_append, split]
        · rw [List.length_cons, List.length_append, List.length_singleton]
  · cases h

/-- The characters of a word behind a first one are a name. -/
theorem isName_takeWhile (start : ∃ c ∈ cs.head?, isWordStart c = true) :
    IsName (cs.takeWhile isWordChar) := by
  obtain ⟨c, first, isStart⟩ := start
  obtain ⟨rest, rfl⟩ := List.head?_eq_some_iff.1 first
  refine ⟨⟨c, ?_, isStart⟩, fun d hd => List.mem_takeWhile_imp hd⟩
  rw [List.takeWhile_cons, if_pos (isWordChar_of_isWordStart isStart)]
  rfl

/-- What is scanned as a word is a name or, with a colon behind it, a prefix. -/
theorem spells_of_scanWord (start : ∃ c ∈ cs.head?, isWordStart c = true)
    (h : scanWord cs = (t, more)) :
    ∃ word rest, cs = word ++ rest ∧ word.length = more + 1 ∧ Spells t word := by
  have split := List.takeWhile_append_dropWhile (p := isWordChar) (l := cs)
  have isName := isName_takeWhile start
  unfold scanWord at h
  dsimp only at h
  generalize reach_eq : (if (cs.takeWhile isWordChar).all isLowerChar then
    hyphenated (cs.dropWhile isWordChar) else 0) = reach at h
  split at h
  · next rest colon =>
    obtain ⟨rfl, rfl⟩ := Prod.mk.inj h
    have taken : cs.take ((cs.takeWhile isWordChar).length + reach) =
        cs.takeWhile isWordChar ++ (cs.dropWhile isWordChar).take reach := by
      rw [← List.take_length_add_append, split]
    have isQualifier : IsQualifier (cs.takeWhile isWordChar ++
        (cs.dropWhile isWordChar).take reach) := by
      -- Only lower-case words reach over a hyphen; any other ends where its characters do.
      split at reach_eq
      · next lower =>
        rw [← reach_eq]
        exact .intro isName (isHyphenated_take _).2 fun _ => List.all_eq_true.1 lower
      · rw [← reach_eq, List.take_zero]
        exact .intro isName .nil fun some => absurd rfl some
    rw [← taken] at isQualifier
    refine ⟨_, rest, ?_, ?_, .qualifier isQualifier⟩
    · rw [List.append_assoc, List.singleton_append, ← colon, List.take_append_drop]
    · have within : (cs.takeWhile isWordChar).length + reach < cs.length := by
        rw [← Nat.not_le, ← List.drop_eq_nil_iff, colon]
        nofun
      rw [List.length_append, List.length_singleton, List.length_take_of_le (Nat.le_of_lt within)]
  · obtain ⟨rfl, rfl⟩ := Prod.mk.inj h
    -- Without a colon the reach is given up, and the name is the word alone.
    refine ⟨_, _, split.symm, ?_, .name isName⟩
    have pos : 0 < (cs.takeWhile isWordChar).length := by
      obtain ⟨c, first, -⟩ := isName.start
      obtain ⟨rest, word⟩ := List.head?_eq_some_iff.1 first
      rw [word]
      exact Nat.succ_pos _
    omega

/-- A sign that is scanned is in one of the two lists. -/
theorem spells_of_scanSign {c : Char} (h : scanSign c cs = .ok (t, more)) :
    ∃ word rest, c :: cs = word ++ rest ∧ word.length = more + 1 ∧ Spells t word := by
  have single (listed : (c, t) ∈ signs) (none : more = 0) :
      ∃ word rest, c :: cs = word ++ rest ∧ word.length = more + 1 ∧ Spells t word :=
    ⟨[c], cs, rfl, by rw [none]; rfl, .sign listed⟩
  have double (listed : (c, t) ∈ doubledSigns) (one : more = 1) (next : cs.head? = some '=') :
      ∃ word rest, c :: cs = word ++ rest ∧ word.length = more + 1 ∧ Spells t word := by
    obtain ⟨rest, rfl⟩ := List.head?_eq_some_iff.1 next
    exact ⟨[c, '='], rest, rfl, by rw [one]; rfl, .doubled listed⟩
  unfold scanSign at h
  dsimp only at h
  by_cases next : cs.head? = some '='
  · rw [next, beq_self_eq_true] at h
    split at h
    all_goals cases h
    all_goals first | exact single (by decide) rfl | exact double (by decide) rfl next
  · rw [beq_eq_false_iff_ne.2 next] at h
    split at h
    all_goals cases h
    all_goals exact single (by decide) rfl

/-- The scan takes a spelling of its token from the front of the text. -/
theorem spells_of_scan {c : Char} (h : scan c cs = .ok (t, more)) :
    more ≤ cs.length ∧ Spells t (c :: cs.take more) := by
  have front : ∃ word rest, c :: cs = word ++ rest ∧ word.length = more + 1 ∧ Spells t word := by
    unfold scan at h
    split at h
    · next start => exact spells_of_scanNumeral ⟨c, rfl, start⟩ h
    split at h
    · next isQuote =>
      rw [Bool.or_eq_true, beq_iff_eq, beq_iff_eq] at isQuote
      exact spells_of_scanText isQuote h
    split at h
    · next start => exact spells_of_scanWord ⟨c, rfl, start⟩ (Except.ok.inj h)
    · exact spells_of_scanSign h
  obtain ⟨word, rest, split, length, spelt⟩ := front
  have taken : c :: cs.take more = word := by
    rw [← List.take_succ_cons, ← length, split, List.take_left]
  refine ⟨?_, by rwa [taken]⟩
  have lengths := congrArg List.length split
  rw [List.length_cons, List.length_append] at lengths
  omega

end

/-! ### What is spelt is scanned -/

section
variable {cs rest : List Char} {t : Token}

/-- A digit or a point begins a number. -/
theorem scan_of_startsNumeral {c : Char} (start : (c.isDigit || c == '.') = true) :
    scan c cs = scanNumeral (c :: cs) :=
  if_pos start

/-- A quote of either kind begins a text. -/
theorem scan_of_isQuote {quote : Char} (isQuote : quote = '"' ∨ quote = '\'') :
    scan quote cs = scanText quote cs := by
  obtain rfl | rfl := isQuote
  · rfl
  · rfl

/-- No character begins both a word and something else. -/
theorem scan_of_isWordStart {c : Char} (start : isWordStart c = true) :
    scan c cs = .ok (scanWord (c :: cs)) := by
  have range : 65 ≤ c.toNat := by
    simp only [isWordStart, Char.isAlpha, Char.isUpper, Char.isLower, UInt32.le_iff_toNat_le,
      ge_iff_le, Bool.or_eq_true, Bool.and_eq_true, decide_eq_true_eq, beq_iff_eq] at start
    obtain (⟨low, -⟩ | ⟨low, -⟩) | rfl := start
    · exact low
    · exact Nat.le_trans (by decide) low
    · decide
  have notNumeral : ¬(c.isDigit || c == '.') = true := by
    simp only [Char.isDigit, UInt32.le_iff_toNat_le, ge_iff_le, Bool.or_eq_true, Bool.and_eq_true,
      decide_eq_true_eq, beq_iff_eq]
    rintro (⟨-, high⟩ | rfl)
    · exact absurd (Nat.le_trans range high) (by decide)
    · exact absurd range (by decide)
  have notQuote : ¬(c == '"' || c == '\'') = true := by
    rw [Bool.or_eq_true, beq_iff_eq, beq_iff_eq]
    rintro (rfl | rfl)
    · exact absurd range (by decide)
    · exact absurd range (by decide)
  rw [scan, if_neg notNumeral, if_neg notQuote, if_pos start]

/-- A number without a point is scanned as a whole where neither a digit nor a point follows. -/
theorem scanNumeral_whole {digits : List Char} (all : ∀ c ∈ digits, c.isDigit = true)
    (ends : EndsRun (fun c => c.isDigit || c == '.') rest) :
    scanNumeral (digits ++ rest) = .ok (.numeral (.ofParts digits []), digits.length - 1) := by
  have noDigit : EndsRun Char.isDigit rest := ends.mono fun c digit => by rw [digit, Bool.true_or]
  unfold scanNumeral
  rw [noDigit.takeWhile_append all, noDigit.dropWhile_append all]
  cases rest with
  | nil => rfl
  | cons c cs =>
      have noPoint : c ≠ '.' := by
        rintro rfl
        exact absurd (endsRun_cons.1 ends) (by decide)
      split
      · next after point => exact absurd (List.cons.inj point).1 noPoint
      · rfl

/-- With a point, a second one ends the number, so only a digit must not follow. -/
theorem scanNumeral_pointed {whole fraction : List Char} (some : whole ≠ [] ∨ fraction ≠ [])
    (before : ∀ c ∈ whole, c.isDigit = true) (behind : ∀ c ∈ fraction, c.isDigit = true)
    (ends : EndsRun Char.isDigit rest) :
    scanNumeral (whole ++ '.' :: (fraction ++ rest)) =
      .ok (.numeral (.ofParts whole fraction), whole.length + fraction.length) := by
  have point : EndsRun Char.isDigit ('.' :: (fraction ++ rest)) := endsRun_cons.2 (by decide)
  have digits : ¬(whole.isEmpty && fraction.isEmpty) = true := by
    rwa [Bool.and_eq_true, List.isEmpty_iff, List.isEmpty_iff, not_and_or]
  unfold scanNumeral
  rw [point.takeWhile_append before, point.dropWhile_append before]
  simp only [ends.takeWhile_append behind]
  exact if_neg digits

/-- A text is scanned up to the first quote of its kind, whatever stands behind it. -/
theorem scanText_append {quote : Char} {body : List Char} (unquoted : quote ∉ body)
    (rest : List Char) :
    scanText quote (body ++ quote :: rest) = .ok (.text (String.ofList body), body.length + 1) := by
  have ends : EndsRun (· != quote) (quote :: rest) := endsRun_cons.2 (bne_self_eq_false quote)
  have inside : ∀ c ∈ body, (c != quote) = true := by
    intro c hc
    rw [bne_iff_ne]
    rintro rfl
    exact unquoted hc
  unfold scanText
  rw [ends.takeWhile_append inside, List.length_append, List.length_cons, if_pos (by omega)]

/-- A name is scanned as one where no character of a word follows. The last hypothesis keeps it from
being the first part of a prefix. -/
theorem scanWord_name {word : List Char} (isName : IsName word) (ends : EndsRun isWordChar rest)
    (noColon : (rest.drop (hyphenated rest)).head? ≠ some ':') :
    scanWord (word ++ rest) = (.name (String.ofList word), word.length - 1) := by
  unfold scanWord
  rw [ends.takeWhile_append isName.all, ends.dropWhile_append isName.all]
  dsimp only
  rw [List.drop_length_add_append]
  -- Without hyphens the colon would stand at once.
  have noColon' : rest.head? ≠ some ':' := by
    intro colon
    have none : hyphenated rest = 0 := hyphenated_eq_zero_of_head? (by rw [colon]; decide)
    rw [none, List.drop_zero] at noColon
    exact noColon colon
  split
  · next behind colon =>
    split at colon
    · exact absurd (by rw [colon]; rfl) noColon
    · rw [List.drop_zero] at colon
      exact absurd (by rw [colon]; rfl) noColon'
  · rfl

/-- A prefix is scanned up to its colon. The colon ends it in any case, so nothing is asked of the
rest. -/
theorem scanWord_qualifier {q : List Char} (isQualifier : IsQualifier q) (rest : List Char) :
    scanWord (q ++ ':' :: rest) = (.qualifier (String.ofList q), q.length) := by
  obtain ⟨isName, hyphens, lower⟩ := isQualifier
  rename_i word parts
  have ends : EndsRun isWordChar (parts ++ ':' :: rest) := by
    cases hyphens with
    | nil => exact endsRun_cons.2 (by decide)
    | part => exact endsRun_cons.2 (by decide)
  have reach : (if word.all isLowerChar then hyphenated (parts ++ ':' :: rest) else 0) =
      parts.length := by
    rw [hyphens.hyphenated_append]
    split
    · rfl
    · next notLower =>
      by_cases none : parts = []
      · rw [none, List.length_nil]
      · exact absurd (List.all_eq_true.2 (lower none)) notLower
  unfold scanWord
  rw [List.append_assoc, ends.takeWhile_append isName.all, ends.dropWhile_append isName.all]
  dsimp only
  rw [reach, ← List.append_assoc, ← List.length_append, List.drop_left, List.take_left]
  rfl

/-- A sign of one character is scanned as such unless it makes one of two with what follows. -/
theorem scan_sign {c : Char} (listed : (c, t) ∈ signs) (ends : t.EndsBefore rest) :
    scan c rest = .ok (t, 0) := by
  simp only [signs, List.mem_cons, Prod.mk.injEq, List.not_mem_nil, or_false] at listed
  obtain ⟨rfl, rfl⟩ | ⟨rfl, rfl⟩ | ⟨rfl, rfl⟩ | ⟨rfl, rfl⟩ | ⟨rfl, rfl⟩ | ⟨rfl, rfl⟩ | ⟨rfl, rfl⟩ |
    ⟨rfl, rfl⟩ | ⟨rfl, rfl⟩ | ⟨rfl, rfl⟩ | comparing := listed
  iterate 10 · rfl
  -- These might go on with an equality sign.
  obtain ⟨rfl, rfl⟩ | ⟨rfl, rfl⟩ | ⟨rfl, rfl⟩ := comparing
  all_goals
    have single : (rest.head? == some '=') = false := beq_eq_false_iff_ne.2 ends
    rw [scan, if_neg (by decide), if_neg (by decide), if_neg (by decide), scanSign, single]
    rfl

/-- A sign of two characters is always scanned as such. -/
theorem scan_doubled {c : Char} (listed : (c, t) ∈ doubledSigns) (rest : List Char) :
    scan c ('=' :: rest) = .ok (t, 1) := by
  simp only [doubledSigns, List.mem_cons, Prod.mk.injEq, List.not_mem_nil, or_false] at listed
  obtain ⟨rfl, rfl⟩ | ⟨rfl, rfl⟩ | ⟨rfl, rfl⟩ | ⟨rfl, rfl⟩ := listed
  all_goals rfl

/-- A spelling of a token is scanned as the token where the token ends. -/
theorem scan_of_spells {word : List Char} (spelt : Spells t word) (ends : t.EndsBefore rest) :
    ∃ c ds, word = c :: ds ∧ scan c (ds ++ rest) = .ok (t, ds.length) := by
  cases spelt with
  | @whole digits some all =>
      obtain ⟨d, ds, rfl⟩ := List.exists_cons_of_ne_nil some
      have digit : d.isDigit = true := all d List.mem_cons_self
      refine ⟨d, ds, rfl, ?_⟩
      rw [scan_of_startsNumeral (by rw [digit, Bool.true_or]), ← List.cons_append,
        scanNumeral_whole all ends]
      rfl
  | @pointed whole fraction some before behind =>
      have noDigit : EndsRun Char.isDigit rest :=
        EndsRun.mono ends fun c digit => by rw [digit, Bool.true_or]
      have scanned := scanNumeral_pointed some before behind noDigit
      -- A numeral may begin with its point, and then no digit is in front of it.
      cases whole with
      | nil =>
          refine ⟨'.', fraction, rfl, ?_⟩
          rw [scan_of_startsNumeral (by decide)]
          simpa using scanned
      | cons d ds =>
          have digit : d.isDigit = true := before d List.mem_cons_self
          refine ⟨d, ds ++ '.' :: fraction, rfl, ?_⟩
          rw [scan_of_startsNumeral (by rw [digit, Bool.true_or])]
          simpa [Nat.add_comm, Nat.add_left_comm] using scanned
  | @text quote body isQuote unquoted =>
      refine ⟨quote, body ++ [quote], rfl, ?_⟩
      rw [scan_of_isQuote isQuote, List.append_assoc, List.singleton_append,
        scanText_append unquoted, List.length_append, List.length_singleton]
  | @name word isName =>
      -- The scan goes by the first character, which a name and a prefix have in common.
      obtain ⟨c, first, start⟩ := isName.start
      obtain ⟨ds, rfl⟩ := List.head?_eq_some_iff.1 first
      refine ⟨c, ds, rfl, ?_⟩
      rw [scan_of_isWordStart start, ← List.cons_append, scanWord_name isName ends.1 ends.2]
      rfl
  | @qualifier q isQualifier =>
      obtain ⟨c, ds, rfl, start⟩ : ∃ c ds, q = c :: ds ∧ isWordStart c = true := by
        obtain ⟨⟨⟨c, first, start⟩, -⟩, -, -⟩ := isQualifier
        obtain ⟨ds, rfl⟩ := List.head?_eq_some_iff.1 first
        exact ⟨c, _, List.cons_append, start⟩
      refine ⟨c, ds ++ [':'], List.cons_append, ?_⟩
      rw [scan_of_isWordStart start, List.append_assoc, List.singleton_append, ← List.cons_append,
        scanWord_qualifier isQualifier, List.length_append]
      rfl
  | @sign c _ listed => exact ⟨c, [], rfl, scan_sign listed ends⟩
  | @doubled c _ listed => exact ⟨c, ['='], rfl, scan_doubled listed rest⟩

end

/-! ### What cannot be scanned -/

/-- What a scan can fail with: a point without digits, a quote that is not closed, and a character
that begins no token. -/
theorem fault_of_scan_error {c : Char} {cs : List Char} {fault : Fault}
    (h : scan c cs = .error fault) :
    (fault = .badNumeral "." ∧ c = '.') ∨
      (fault = .unterminatedText ∧ (c = '"' ∨ c = '\'')) ∨ fault = .unexpectedCharacter c := by
  unfold scan at h
  split at h
  · next start =>
    unfold scanNumeral at h
    dsimp only at h
    split at h
    · split at h
      · next none =>
        -- There are no digits, so the point is the first character.
        have notDigit : ¬c.isDigit = true := by
          intro digit
          simp [digit] at none
        rw [Bool.or_eq_true, beq_iff_eq] at start
        exact Or.inl ⟨(Except.error.inj h).symm, start.resolve_left notDigit⟩
      · cases h
    · cases h
  split at h
  · next isQuote =>
    rw [Bool.or_eq_true, beq_iff_eq, beq_iff_eq] at isQuote
    unfold scanText at h
    dsimp only at h
    split at h
    · cases h
    · exact Or.inr (Or.inl ⟨(Except.error.inj h).symm, isQuote⟩)
  split at h
  · cases h
  · refine Or.inr (Or.inr ?_)
    unfold scanSign at h
    dsimp only at h
    split at h
    case h_14 =>
      split at h
      · cases h
      · exact (Except.error.inj h).symm
    case h_15 => exact (Except.error.inj h).symm
    all_goals cases h

end Rollforward.Formula
