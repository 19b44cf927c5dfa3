import Rollforward.Proofs.Formula.Layout

/-!
# `Rollforward.Proofs.Formula.Bytes`: the text read byte by byte

`lexemes` goes from character to character and counts the bytes of each. One can as well go from
byte to byte without knowing what characters the bytes belong to (`byteLexemes`). The scan tells
apart only ASCII characters, and the bytes of all others are no ASCII characters either (`Coarse`),
so it cannot stop inside of one. Hence the tokens are the same, at the same places
(`byteLexemes_encodeAll`).
-/

set_option autoImplicit false

namespace Rollforward.Formula

/-! ### Encoding -/

/-- The bytes of a character, each as a character of its own. -/
def encode (c : Char) : List Char := (String.utf8EncodeChar c).map Char.ofUInt8

/-- The bytes of a row of characters. -/
def encodeAll (cs : List Char) : List Char := cs.flatMap encode

/-- A byte keeps its number as a character. -/
theorem toNat_ofUInt8 (b : UInt8) : (Char.ofUInt8 b).toNat = b.toNat := UInt8.toNat_toUInt32 b

/-- An ASCII character is its own byte. -/
theorem encode_of_ascii {c : Char} (ascii : c.toNat < 128) : encode c = [c] := by
  have single : c.utf8Size = 1 := by
    rw [Char.utf8Size_eq_one_iff, UInt32.le_iff_toNat_le]
    exact Nat.le_of_lt_succ ascii
  rw [encode, String.utf8EncodeChar_eq_singleton single, List.map_singleton]
  refine congrArg (· :: []) (Char.toNat_inj.1 ?_)
  rw [toNat_ofUInt8]
  exact Nat.mod_eq_of_lt (Nat.lt_trans ascii (by decide))

/-- A character that is not ASCII has no ASCII among its bytes. -/
theorem le_toNat_of_mem_encode {c d : Char} (wide : 128 ≤ c.toNat) (hd : d ∈ encode c) :
    128 ≤ d.toNat := by
  obtain ⟨byte, hb, rfl⟩ := List.mem_map.1 hd
  rw [toNat_ofUInt8]
  have wide : 128 ≤ c.val.toNat := wide
  unfold String.utf8EncodeChar at hb
  dsimp only at hb
  rw [if_neg (by omega)] at hb
  split at hb
  · simp only [List.mem_cons, List.not_mem_nil, or_false] at hb
    obtain rfl | rfl := hb
    all_goals
      simp only [UInt8.toNat_ofNat']
      omega
  split at hb
  · simp only [List.mem_cons, List.not_mem_nil, or_false] at hb
    obtain rfl | rfl | rfl := hb
    all_goals
      simp only [UInt8.toNat_ofNat']
      omega
  · simp only [List.mem_cons, List.not_mem_nil, or_false] at hb
    obtain rfl | rfl | rfl | rfl := hb
    all_goals
      simp only [UInt8.toNat_ofNat']
      omega

/-- No character vanishes, so a first byte belongs to a first character. -/
theorem encode_ne_nil (c : Char) : encode c ≠ [] := by
  rw [encode, ne_eq, List.map_eq_nil_iff]
  exact String.utf8EncodeChar_ne_nil

/-- The bytes of a row, from the first character on. -/
theorem encodeAll_cons (c : Char) (cs : List Char) :
    encodeAll (c :: cs) = encode c ++ encodeAll cs := List.flatMap_cons

/-- Where a row is split its bytes are. -/
theorem encodeAll_append (cs ds : List Char) :
    encodeAll (cs ++ ds) = encodeAll cs ++ encodeAll ds := List.flatMap_append

/-- Places count bytes, and this is the count. -/
theorem length_encodeAll (cs : List Char) : (encodeAll cs).length = byteLength cs := by
  induction cs with
  | nil => rfl
  | cons c cs ih =>
      rw [encodeAll_cons, List.length_append, ih, encode, List.length_map,
        String.length_utf8EncodeChar, byteLength]

/-- A row of ASCII characters is its own bytes. -/
theorem encodeAll_of_ascii {cs : List Char} (ascii : ∀ c ∈ cs, c.toNat < 128) :
    encodeAll cs = cs := by
  induction cs with
  | nil => rfl
  | cons c cs ih =>
      obtain ⟨first, rest⟩ := List.forall_mem_cons.1 ascii
      rw [encodeAll_cons, encode_of_ascii first, ih rest, List.singleton_append]

/-- The first byte is ASCII where the first character is. -/
theorem head?_encodeAll_eq_some_iff {a : Char} (ascii : a.toNat < 128) (cs : List Char) :
    (encodeAll cs).head? = some a ↔ cs.head? = some a := by
  cases cs with
  | nil => exact Iff.rfl
  | cons c cs =>
      rw [encodeAll_cons, List.head?_append_of_ne_nil _ (encode_ne_nil c), List.head?_cons]
      by_cases wide : 128 ≤ c.toNat
      · refine iff_of_false (fun first => ?_) (fun first => ?_)
        · have := le_toNat_of_mem_encode wide (List.mem_of_mem_head? first)
          omega
        · obtain rfl : c = a := Option.some.inj first
          omega
      · rw [encode_of_ascii (by omega), List.head?_cons]

/-! ### Runs of bytes -/

/-- The class does not tell apart what is not ASCII. -/
def Coarse (p : Char → Bool) : Prop :=
  ∀ c d : Char, 128 ≤ c.toNat → 128 ≤ d.toNat → p c = p d

/-- A class of ASCII characters has none of the others in it, so it cannot tell them apart. -/
theorem coarse_of_ascii {p : Char → Bool} (ascii : ∀ c, p c = true → c.toNat < 128) :
    Coarse p := by
  have none (c : Char) (wide : 128 ≤ c.toNat) : p c = false := by
    rw [← Bool.not_eq_true]
    intro inClass
    exact absurd (ascii c inClass) (Nat.not_lt.2 wide)
  intro c d hc hd
  rw [none c hc, none d hd]

section
variable {p : Char → Bool}

/-- A byte is in a coarse class with its character, or neither is. -/
theorem Coarse.eq_of_mem_encode (coarse : Coarse p) {c b : Char} (hb : b ∈ encode c) :
    p b = p c := by
  by_cases wide : 128 ≤ c.toNat
  · exact coarse b c (le_toNat_of_mem_encode wide hb) wide
  · rw [encode_of_ascii (by omega), List.mem_singleton] at hb
    rw [hb]

/-- A run of bytes of the class is made of whole characters. -/
theorem Coarse.takeWhile_encodeAll (coarse : Coarse p) (cs : List Char) :
    (encodeAll cs).takeWhile p = encodeAll (cs.takeWhile p) := by
  induction cs with
  | nil => rfl
  | cons c cs ih =>
      rw [encodeAll_cons, List.takeWhile_cons]
      split
      · next inClass =>
        rw [List.takeWhile_append_of_pos fun b hb => (coarse.eq_of_mem_encode hb).trans inClass, ih,
          encodeAll_cons]
      · next outside =>
        obtain ⟨b, bs, bytes⟩ := List.exists_cons_of_ne_nil (encode_ne_nil c)
        have same : p b = p c := coarse.eq_of_mem_encode (by simp [bytes])
        rw [bytes, List.cons_append, List.takeWhile_cons, same, if_neg outside]
        rfl

/-- What is behind the run begins with a whole character again. -/
theorem Coarse.dropWhile_encodeAll (coarse : Coarse p) (cs : List Char) :
    (encodeAll cs).dropWhile p = encodeAll (cs.dropWhile p) := by
  have split : encodeAll cs = encodeAll (cs.takeWhile p) ++ encodeAll (cs.dropWhile p) := by
    rw [← encodeAll_append, List.takeWhile_append_dropWhile]
  have split' := List.takeWhile_append_dropWhile (p := p) (l := encodeAll cs)
  rw [coarse.takeWhile_encodeAll] at split'
  exact List.append_cancel_left (split'.trans split)

end

/-! ### The classes of the scan -/

/-- Digits are ASCII characters. -/
theorem toNat_lt_of_isDigit {c : Char} (h : c.isDigit = true) : c.toNat < 128 := by
  simp only [Char.isDigit, UInt32.le_iff_toNat_le, ge_iff_le, Bool.and_eq_true,
    decide_eq_true_eq] at h
  exact Nat.lt_of_le_of_lt h.2 (by decide)

/-- Numbers are scanned in runs of digits. -/
theorem coarse_isDigit : Coarse Char.isDigit := coarse_of_ascii fun _ => toNat_lt_of_isDigit

/-- The characters of words are ASCII characters. -/
theorem toNat_lt_of_isWordChar {c : Char} (h : isWordChar c = true) : c.toNat < 128 :=
  Nat.lt_of_le_of_lt (range_of_isWordChar h).2 (by decide)

/-- Names are scanned in runs of these characters. -/
theorem coarse_isWordChar : Coarse isWordChar := coarse_of_ascii fun _ => toNat_lt_of_isWordChar

/-- The characters of hyphenated parts are ASCII characters. -/
theorem toNat_lt_of_isLowerChar {c : Char} (h : isLowerChar c = true) : c.toNat < 128 :=
  toNat_lt_of_isWordChar (isWordChar_of_isLowerChar h)

/-- The parts of a prefix behind a hyphen are scanned in runs of these characters. -/
theorem coarse_isLowerChar : Coarse isLowerChar := coarse_of_ascii fun _ => toNat_lt_of_isLowerChar

/-- Only ASCII characters separate tokens. A wide space does not. -/
theorem isSpacer_of_not_ascii {c : Char} (wide : 128 ≤ c.toNat) : Text.isSpacer c = false := by
  rw [← Bool.not_eq_true]
  intro spacer
  simp only [Text.isSpacer, Bool.or_eq_true, beq_iff_eq] at spacer
  obtain (((rfl | rfl) | rfl) | rfl) | rfl := spacer
  all_goals exact absurd wide (by decide)

/-- No token begins with a character that is not ASCII, nor with one of its bytes. -/
theorem scan_of_not_ascii {c : Char} (wide : 128 ≤ c.toNat) (cs : List Char) :
    scan c cs = .error (.unexpectedCharacter c) := by
  have ne {a : Char} (ascii : a.toNat < 128) : c ≠ a := by
    rintro rfl
    omega
  have notNumeral : ¬(c.isDigit || c == '.') = true := by
    rw [Bool.or_eq_true, beq_iff_eq]
    rintro (digit | point)
    · exact absurd (toNat_lt_of_isDigit digit) (Nat.not_lt.2 wide)
    · exact ne (by decide) point
  have notQuote : ¬(c == '"' || c == '\'') = true := by
    rw [Bool.or_eq_true, beq_iff_eq, beq_iff_eq]
    rintro (quote | quote)
    · exact ne (by decide) quote
    · exact ne (by decide) quote
  have notWord : ¬isWordStart c = true := by
    intro start
    exact absurd (toNat_lt_of_isWordChar (isWordChar_of_isWordStart start)) (Nat.not_lt.2 wide)
  rw [scan, if_neg notNumeral, if_neg notQuote, if_neg notWord, scanSign]
  all_goals exact ne (by decide)

/-! ### One token -/

/-- In front of other characters too an ASCII character is its own byte. -/
theorem encodeAll_cons_of_ascii {a : Char} (ascii : a.toNat < 128) (cs : List Char) :
    encodeAll (a :: cs) = a :: encodeAll cs := by
  rw [encodeAll_cons, encode_of_ascii ascii, List.singleton_append]

/-- Numbers are scanned alike from bytes and from characters: digits and a point are all that is
looked at. -/
theorem scanNumeral_encodeAll (cs : List Char) : scanNumeral (encodeAll cs) = scanNumeral cs := by
  have digits (cs : List Char) :
      encodeAll (cs.takeWhile Char.isDigit) = cs.takeWhile Char.isDigit :=
    encodeAll_of_ascii fun c hc => toNat_lt_of_isDigit (List.mem_takeWhile_imp hc)
  have point : '.'.toNat < 128 := by decide
  unfold scanNumeral
  rw [coarse_isDigit.takeWhile_encodeAll, coarse_isDigit.dropWhile_encodeAll, digits]
  dsimp only
  split
  · next after bytes =>
    have first : (cs.dropWhile Char.isDigit).head? = some '.' :=
      (head?_encodeAll_eq_some_iff point _).1 (by rw [bytes]; rfl)
    obtain ⟨rest, behind⟩ := List.head?_eq_some_iff.1 first
    rw [behind, encodeAll_cons_of_ascii point] at bytes
    obtain rfl : encodeAll rest = after := (List.cons.inj bytes).2
    rewrite [behind, coarse_isDigit.takeWhile_encodeAll, digits]
    rfl
  · next noPoint =>
    split
    · next rest behind =>
      rw [behind, encodeAll_cons_of_ascii point] at noPoint
      exact absurd rfl (noPoint _)
    · rfl

/-- As many characters are taken for hyphenated parts, and they are bytes. -/
theorem hyphenated_encodeAll (cs : List Char) : hyphenated (encodeAll cs) = hyphenated cs := by
  have hyphen : '-'.toNat < 128 := by decide
  have lower (cs : List Char) : encodeAll (cs.takeWhile isLowerChar) = cs.takeWhile isLowerChar :=
    encodeAll_of_ascii fun c hc => toNat_lt_of_isLowerChar (List.mem_takeWhile_imp hc)
  fun_induction hyphenated cs with
  | case1 after part none =>
      rw [encodeAll_cons_of_ascii hyphen, hyphenated, coarse_isLowerChar.takeWhile_encodeAll, lower,
        if_pos none]
  | case2 after part some ih =>
      rw [encodeAll_cons_of_ascii hyphen, hyphenated, coarse_isLowerChar.takeWhile_encodeAll,
        coarse_isLowerChar.dropWhile_encodeAll, lower, if_neg some, ih]
  | case3 cs noHyphen =>
      refine hyphenated_eq_zero_of_head? fun first => ?_
      rw [head?_encodeAll_eq_some_iff hyphen] at first
      obtain ⟨rest, split⟩ := List.head?_eq_some_iff.1 first
      exact noHyphen rest split

/-- As long as the first characters are ASCII the first bytes are the same. -/
theorem encodeAll_split {n : Nat} {cs : List Char} (ascii : ∀ c ∈ cs.take n, c.toNat < 128) :
    (encodeAll cs).take n = cs.take n ∧ (encodeAll cs).drop n = encodeAll (cs.drop n) := by
  induction n generalizing cs with
  | zero => exact ⟨rfl, rfl⟩
  | succ n ih =>
      cases cs with
      | nil => exact ⟨rfl, rfl⟩
      | cons c cs =>
          rw [List.take_succ_cons] at ascii
          obtain ⟨first, rest⟩ := List.forall_mem_cons.1 ascii
          obtain ⟨taken, dropped⟩ := ih rest
          rw [encodeAll_cons_of_ascii first, List.take_succ_cons, List.take_succ_cons,
            List.drop_succ_cons, List.drop_succ_cons]
          exact ⟨by rw [taken], dropped⟩

/-- Hyphens and the parts between them are ASCII characters. -/
theorem IsHyphenated.ascii {parts : List Char} (h : IsHyphenated parts) :
    ∀ c ∈ parts, c.toNat < 128 := by
  induction h with
  | nil => nofun
  | part some lower more ih =>
      refine List.forall_mem_cons.2 ⟨by decide, List.forall_mem_append.2 ⟨fun c hc => ?_, ih⟩⟩
      exact toNat_lt_of_isLowerChar (lower c hc)

/-- Words are scanned alike. -/
theorem scanWord_encodeAll (cs : List Char) : scanWord (encodeAll cs) = scanWord cs := by
  have colon : ':'.toNat < 128 := by decide
  have word : ∀ c ∈ cs.takeWhile isWordChar, c.toNat < 128 :=
    fun c hc => toNat_lt_of_isWordChar (List.mem_takeWhile_imp hc)
  unfold scanWord
  rw [coarse_isWordChar.takeWhile_encodeAll, coarse_isWordChar.dropWhile_encodeAll,
    hyphenated_encodeAll, encodeAll_of_ascii word]
  dsimp only
  generalize reach_eq : (if (cs.takeWhile isWordChar).all isLowerChar then
    hyphenated (cs.dropWhile isWordChar) else 0) = reach
  -- Nothing behind the word and the hyphenated parts is looked at, but for the colon.
  have ascii : ∀ c ∈ cs.take ((cs.takeWhile isWordChar).length + reach), c.toNat < 128 := by
    have taken : cs.take ((cs.takeWhile isWordChar).length + reach) =
        cs.takeWhile isWordChar ++ (cs.dropWhile isWordChar).take reach := by
      rw [← List.take_length_add_append, List.takeWhile_append_dropWhile]
    rw [taken]
    refine List.forall_mem_append.2 ⟨word, ?_⟩
    split at reach_eq
    · rw [← reach_eq]
      exact (isHyphenated_take _).2.ascii
    · rw [← reach_eq, List.take_zero]
      nofun
  obtain ⟨taken, dropped⟩ := encodeAll_split ascii
  rw [taken, dropped]
  generalize cs.drop ((cs.takeWhile isWordChar).length + reach) = behind
  split
  · next rest bytes =>
    have first : behind.head? = some ':' :=
      (head?_encodeAll_eq_some_iff colon behind).1 (by rw [bytes]; rfl)
    obtain ⟨rest, rfl⟩ := List.head?_eq_some_iff.1 first
    rfl
  · next noColon =>
    split
    · next rest =>
      rw [encodeAll_cons_of_ascii colon] at noColon
      exact absurd rfl (noColon _)
    · rfl

/-- Signs are scanned alike: at most one more character is looked at, and it is compared with an
equality sign. -/
theorem scanSign_encodeAll (c : Char) (cs : List Char) :
    scanSign c (encodeAll cs) = scanSign c cs := by
  have same : ((encodeAll cs).head? == some '=') = (cs.head? == some '=') := by
    rw [Bool.eq_iff_iff, beq_iff_eq, beq_iff_eq]
    exact head?_encodeAll_eq_some_iff (by decide) cs
  unfold scanSign
  rw [same]

/-! ### The bytes of a token -/

/-- The token with bytes for characters. Only text between quotes has others than ASCII in it. -/
def Token.inBytes : Token → Token
  | .text s => .text (String.ofList (encodeAll s.toList))
  | t => t

/-- A word of ASCII characters, or text between quotes. -/
theorem Spells.ascii_or_text {t : Token} {word : List Char} (h : Spells t word) :
    (t.inBytes = t ∧ ∀ c ∈ word, c.toNat < 128) ∨ ∃ s, t = .text s := by
  cases h with
  | whole some all => exact .inl ⟨rfl, fun c hc => toNat_lt_of_isDigit (all c hc)⟩
  | @pointed whole fraction some before behind =>
      have fractional : ∀ c ∈ '.' :: fraction, c.toNat < 128 :=
        List.forall_mem_cons.2 ⟨by decide, fun c hc => toNat_lt_of_isDigit (behind c hc)⟩
      exact .inl ⟨rfl, List.forall_mem_append.2
        ⟨fun c hc => toNat_lt_of_isDigit (before c hc), fractional⟩⟩
  | text => exact .inr ⟨_, rfl⟩
  | name isName => exact .inl ⟨rfl, fun c hc => toNat_lt_of_isWordChar (isName.all c hc)⟩
  | qualifier isQualifier =>
      obtain ⟨name, hyphens, -⟩ := isQualifier
      refine .inl ⟨rfl, List.forall_mem_append.2 ⟨List.forall_mem_append.2
        ⟨fun c hc => toNat_lt_of_isWordChar (name.all c hc), hyphens.ascii⟩, ?_⟩⟩
      exact List.forall_mem_singleton.2 (by decide)
  | @sign c t listed =>
      have all : ∀ p ∈ signs, p.2.inBytes = p.2 ∧ p.1.toNat < 128 := by decide
      obtain ⟨same, ascii⟩ := all _ listed
      exact .inl ⟨same, List.forall_mem_singleton.2 ascii⟩
  | @doubled c t listed =>
      have all : ∀ p ∈ doubledSigns, p.2.inBytes = p.2 ∧ p.1.toNat < 128 := by decide
      obtain ⟨same, ascii⟩ := all _ listed
      exact .inl ⟨same, List.forall_mem_cons.2 ⟨ascii, List.forall_mem_singleton.2 (by decide)⟩⟩

/-- An ASCII character that is not in a text is not among its bytes either. A quote is thus found in
the same place in both. -/
theorem not_mem_encodeAll {a : Char} (ascii : a.toNat < 128) {cs : List Char} (h : a ∉ cs) :
    a ∉ encodeAll cs := by
  intro inBytes
  obtain ⟨c, hc, ha⟩ := List.mem_flatMap.1 inBytes
  by_cases wide : 128 ≤ c.toNat
  · exact absurd (le_toNat_of_mem_encode wide ha) (Nat.not_le.2 ascii)
  · rw [encode_of_ascii (Nat.lt_of_not_le wide), List.mem_singleton] at ha
    exact h (ha ▸ hc)

/-- Text without its closing quote is a fault. -/
theorem scanText_of_not_mem {quote : Char} {cs : List Char} (unclosed : quote ∉ cs) :
    scanText quote cs = .error .unterminatedText := by
  have all : ∀ c ∈ cs, (c != quote) = true := by
    intro c hc
    rw [bne_iff_ne]
    rintro rfl
    exact unclosed hc
  unfold scanText
  rw [← List.append_nil cs, List.takeWhile_append_of_pos all, List.takeWhile_nil, List.append_nil]
  exact if_neg (Nat.lt_irrefl _)

/-- What a scan finds, with bytes for characters. -/
def Scanned.inBytes (cs : List Char) (found : Scanned) : Scanned :=
  found.map fun (t, more) => (t.inBytes, byteLength (cs.take more))

/-- No byte of another character closes the quote. -/
theorem scanText_encodeAll {quote : Char} (ascii : quote.toNat < 128) (cs : List Char) :
    scanText quote (encodeAll cs) = (scanText quote cs).inBytes cs := by
  by_cases closed : quote ∈ cs
  · obtain ⟨body, rest, rfl, unquoted⟩ := List.eq_append_cons_of_mem closed
    rw [encodeAll_append, encodeAll_cons_of_ascii ascii,
      scanText_append (not_mem_encodeAll ascii unquoted), scanText_append unquoted]
    have taken : (body ++ quote :: rest).take (body.length + 1) = body ++ [quote] := by
      rw [List.take_length_add_append]
      rfl
    have size : byteLength [quote] = 1 := by
      rw [← length_encodeAll, encodeAll_cons_of_ascii ascii]
      rfl
    show _ = Except.ok (Token.text _, _)
    rw [taken, byteLength_append, size, length_encodeAll, String.toList_ofList]
  · rw [scanText_of_not_mem closed, scanText_of_not_mem (not_mem_encodeAll ascii closed)]
    rfl

/-- The scan reads bytes as it reads characters. -/
theorem scan_encodeAll {c : Char} (ascii : c.toNat < 128) (cs : List Char) :
    scan c (encodeAll cs) = (scan c cs).inBytes cs := by
  by_cases isQuote : c = '"' ∨ c = '\''
  · rw [scan_of_isQuote isQuote, scan_of_isQuote isQuote, scanText_encodeAll ascii]
  · have notQuote : ¬(c == '"' || c == '\'') = true := by
      rwa [Bool.or_eq_true, beq_iff_eq, beq_iff_eq]
    have same : scan c (encodeAll cs) = scan c cs := by
      rw [scan, scan, if_neg notQuote, if_neg notQuote, ← encodeAll_cons_of_ascii ascii,
        scanNumeral_encodeAll, scanWord_encodeAll, scanSign_encodeAll]
    rw [same]
    cases found : scan c cs with
    | error fault => rfl
    | ok result =>
        obtain ⟨t, more⟩ := result
        obtain ⟨le, spelt⟩ := spells_of_scan found
        obtain ⟨sameToken, ascii⟩ | ⟨s, rfl⟩ := spelt.ascii_or_text
        · have size : byteLength (cs.take more) = more := by
            rw [← length_encodeAll, encodeAll_of_ascii (List.forall_mem_cons.1 ascii).2,
              List.length_take_of_le le]
          show _ = Except.ok (t.inBytes, byteLength (cs.take more))
          rw [sameToken, size]
        · obtain ⟨quote, quoted, word⟩ := spelt.eq_of_text
          obtain rfl : c = quote := (List.cons.inj word).1
          exact absurd quoted isQuote

/-! ### All tokens -/

/-- The fault with the first byte of a character for the character. -/
def Fault.inBytes : Fault → Fault
  | .unexpectedCharacter c => .unexpectedCharacter ((encode c).headD c)
  | fault => fault

/-- The error with bytes for characters, at the same place. -/
def SyntaxError.inBytes (e : SyntaxError) : SyntaxError := ⟨e.fault.inBytes, e.position⟩

/-- The token with the bytes of its spelling, at the same place. -/
def Lexeme.inBytes (l : Lexeme) : Lexeme := ⟨l.token.inBytes, l.start, encodeAll l.spelling⟩

/-- The tokens of a row of bytes, of which the first has offset `start`: each character is a byte by
itself. -/
def byteLexemes (start : Nat) : List Char → Except SyntaxError (List Lexeme)
  | [] => .ok []
  | c :: cs =>
    if Text.isSpacer c then byteLexemes (start + 1) cs
    else
      match scan c cs with
      | .error fault => .error ⟨fault, start⟩
      | .ok (token, more) =>
        match byteLexemes (start + (1 + more)) (cs.drop more) with
        | .error e => .error e
        | .ok rest => .ok (⟨token, start, c :: cs.take more⟩ :: rest)
termination_by cs => cs.length
decreasing_by
  all_goals simp only [List.length_cons, List.length_drop]; omega

/-- Behind a token the bytes go on with those of the characters behind it. -/
theorem byteLexemes_of_scan {c : Char} {cs : List Char} {t : Token} {more : Nat}
    (spacer : ¬Text.isSpacer c = true) (scanned : scan c cs = .ok (t, more)) (start : Nat) :
    byteLexemes start (encodeAll (c :: cs)) =
      (byteLexemes (start + byteLength (c :: cs.take more)) (encodeAll (cs.drop more))).map
        (⟨t.inBytes, start, encodeAll (c :: cs.take more)⟩ :: ·) := by
  have ascii : c.toNat < 128 := by
    rw [← Nat.not_le]
    intro wide
    cases (scan_of_not_ascii wide cs).symm.trans scanned
  have size : byteLength (c :: cs.take more) = 1 + byteLength (cs.take more) := by
    rw [← length_encodeAll, encodeAll_cons_of_ascii ascii, List.length_cons, length_encodeAll,
      Nat.add_comm]
  have split : encodeAll cs = encodeAll (cs.take more) ++ encodeAll (cs.drop more) := by
    rw [← encodeAll_append, List.take_append_drop]
  have taken : (encodeAll cs).take (byteLength (cs.take more)) = encodeAll (cs.take more) := by
    rw [split, ← length_encodeAll, List.take_left]
  have dropped : (encodeAll cs).drop (byteLength (cs.take more)) = encodeAll (cs.drop more) := by
    rw [split, ← length_encodeAll, List.drop_left]
  have scanned : scan c (encodeAll cs) = .ok (t.inBytes, byteLength (cs.take more)) := by
    rw [scan_encodeAll ascii, scanned]
    rfl
  rw [encodeAll_cons_of_ascii ascii, encodeAll_cons_of_ascii ascii, byteLexemes, if_neg spacer,
    scanned, size]
  dsimp only
  rw [taken, dropped]
  cases byteLexemes (start + (1 + byteLength (cs.take more))) (encodeAll (cs.drop more)) <;> rfl

/-- Where no token can be scanned there is none for the bytes either. -/
theorem byteLexemes_of_scan_error {c : Char} {cs : List Char} {fault : Fault}
    (spacer : ¬Text.isSpacer c = true) (scanned : scan c cs = .error fault) (start : Nat) :
    byteLexemes start (encodeAll (c :: cs)) = .error ⟨fault.inBytes, start⟩ := by
  by_cases wide : 128 ≤ c.toNat
  · obtain rfl : .unexpectedCharacter c = fault :=
      Except.error.inj ((scan_of_not_ascii wide cs).symm.trans scanned)
    obtain ⟨d, ds, bytes⟩ := List.exists_cons_of_ne_nil (encode_ne_nil c)
    have wideByte : 128 ≤ d.toNat := le_toNat_of_mem_encode wide (by simp [bytes])
    have noSpacer : ¬Text.isSpacer d = true := by simp [isSpacer_of_not_ascii wideByte]
    rw [encodeAll_cons, bytes, List.cons_append, byteLexemes, if_neg noSpacer,
      scan_of_not_ascii wideByte, Fault.inBytes, bytes]
    rfl
  · have ascii : c.toNat < 128 := Nat.lt_of_not_le wide
    have same : fault.inBytes = fault := by
      obtain ⟨rfl, -⟩ | ⟨rfl, -⟩ | rfl := fault_of_scan_error scanned
      · rfl
      · rfl
      · rw [Fault.inBytes, encode_of_ascii ascii]
        rfl
    rw [encodeAll_cons_of_ascii ascii, byteLexemes, if_neg spacer, scan_encodeAll ascii, scanned,
      same]
    rfl

/-- A text is read byte by byte as it is read character by character. -/
theorem byteLexemes_encodeAll (start : Nat) (cs : List Char) : byteLexemes start (encodeAll cs) =
    ((lexemes start cs).map (List.map Lexeme.inBytes)).mapError SyntaxError.inBytes := by
  fun_induction lexemes start cs with
  | case1 start =>
      rw [encodeAll, List.flatMap_nil, byteLexemes]
      rfl
  | case2 start c cs spacer ih =>
      have ascii : c.toNat < 128 := by
        rw [← Nat.not_le]
        intro wide
        rw [isSpacer_of_not_ascii wide] at spacer
        cases spacer
      have size : c.utf8Size = 1 := by
        rw [← String.length_utf8EncodeChar, ← List.length_map Char.ofUInt8,
          show (String.utf8EncodeChar c).map Char.ofUInt8 = [c] from encode_of_ascii ascii]
        rfl
      rw [encodeAll_cons_of_ascii ascii, byteLexemes, if_pos spacer, ← ih, size]
  | case3 start c cs spacer fault scanned =>
      rw [byteLexemes_of_scan_error spacer scanned]
      rfl
  | case4 start c cs spacer token more scanned spelling e failed ih =>
      rw [byteLexemes_of_scan spacer scanned, ih, failed]
      rfl
  | case5 start c cs spacer token more scanned spelling rest behind ih =>
      rw [byteLexemes_of_scan spacer scanned, ih, behind]
      rfl

/-- The tokens of a text that is known by its bytes. -/
def tokenizeBytes (bytes : List UInt8) : Except SyntaxError (List Lexeme) :=
  byteLexemes 0 (bytes.map Char.ofUInt8)

/-- The bytes of a formula have its tokens. -/
theorem tokenizeBytes_eq (formula : String) : tokenizeBytes formula.toByteArray.data.toList =
    ((tokenize formula).map (List.map Lexeme.inBytes)).mapError SyntaxError.inBytes := by
  have bytes : formula.toByteArray.data.toList.map Char.ofUInt8 = encodeAll formula.toList := by
    rw [← String.ofList_toList (s := formula), String.toByteArray_ofList, List.utf8Encode,
      List.data_toByteArray, List.map_flatMap, String.toList_ofList]
    rfl
  rw [tokenizeBytes, bytes, byteLexemes_encodeAll]
  rfl

end Rollforward.Formula
