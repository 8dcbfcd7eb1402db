import DealersChoice.Json.Printer
import DealersChoice.Json.Token
import Mathlib.Data.List.Basic
import Mathlib.Data.List.TakeDrop
import Mathlib.Data.List.TakeWhile
import Mathlib.Tactic.IntervalCases

/-!
# Scanning what was written

The characters of a written value are scanned as its tokens (`scan_chars`). A literal or a number is
a bare word and ends only with the character after it, so the scanner may still stand inside a word
when the value's last character is read (`Settles`); every character that may follow a value ends
it.
-/

namespace DealersChoice

namespace Json

/-- A tree that a text denotes exactly: every leaf has a meaning, and integers fit 64 bits. -/
inductive Exact : Json → Prop
  | null : Exact .null
  | bool (b : Bool) : Exact (.bool b)
  | nat (n : Nat) (h : n ≤ maxNat) : Exact (.int (.ofNat n))
  | negative (n : Nat) (h : n + 1 ≤ maxNegative) : Exact (.int (.negSucc n))
  | str (s : String) : Exact (.str s)
  | arr (elems : List Json) (h : ∀ v ∈ elems, Exact v) : Exact (.arr elems)
  | obj (members : List (String × Json)) (h : ∀ m ∈ members, Exact m.2) : Exact (.obj members)

mutual

/-- The tokens of a value. -/
def toTokens : Json → List Token
  | .str s => [.text (some s)]
  | .arr elems => .openBracket :: (elemsTokens elems ++ [.closeBracket])
  | .obj members => .openBrace :: (membersTokens members ++ [.closeBrace])
  | v => [.atom v]

/-- The tokens of the elements of an array. -/
def elemsTokens : List Json → List Token
  | [] => []
  | [v] => toTokens v
  | v :: rest => toTokens v ++ .comma :: elemsTokens rest

/-- The tokens of the members of an object. -/
def membersTokens : List (String × Json) → List Token
  | [] => []
  | [(k, v)] => .text (some k) :: .colon :: toTokens v
  | (k, v) :: rest => .text (some k) :: .colon :: (toTokens v ++ .comma :: membersTokens rest)

end

/-! ### Numbers -/

/-- A character of a bare word. -/
def inWord (c : Char) : Bool :=
  !isBlank c && c != '"' && (punctuation? c).isNone

theorem inWord_iff {c : Char} :
    inWord c = true ↔ isBlank c = false ∧ c ≠ '"' ∧ punctuation? c = none := by
  simp [inWord, and_assoc]

theorem inWord_of_isDigit {c : Char} (h : c.isDigit = true) : inWord c = true := by
  have hne : ∀ d : Char, d.isDigit = false → c ≠ d := by
    rintro d hd rfl
    exact Bool.false_ne_true (hd.symm.trans h)
  refine inWord_iff.2 ⟨?_, hne _ (by decide), ?_⟩
  · simp [isBlank, hne ' ' (by decide), hne '\t' (by decide), hne '\n' (by decide),
      hne '\r' (by decide)]
  · rw [punctuation?.eq_def]
    split
    · exact absurd rfl (hne _ (by decide))
    · exact absurd rfl (hne _ (by decide))
    · exact absurd rfl (hne _ (by decide))
    · exact absurd rfl (hne _ (by decide))
    · exact absurd rfl (hne _ (by decide))
    · exact absurd rfl (hne _ (by decide))
    · rfl

theorem ofDigits_toDigits (n : Nat) : ofDigits (Nat.toDigits 10 n) = n := by
  have h := Nat.ofDigitChars_toDigits (b := 10) (n := n) (by decide) (by decide)
  rw [Nat.ofDigitChars_eq_foldl] at h
  simpa [ofDigits, Nat.mul_comm] using h

theorem inWord_of_mem_toDigits {n : Nat} {c : Char} (h : c ∈ Nat.toDigits 10 n) :
    inWord c = true :=
  inWord_of_isDigit (Nat.isDigit_of_mem_toDigits (by decide) (by decide) h)

/-- The digits of a positive number do not start with a zero. -/
theorem head_toDigits_ne_zero {n : Nat} (h : 0 < n) : (Nat.toDigits 10 n).head? ≠ some '0' := by
  induction n using Nat.strong_induction_on with
  | _ n ih =>
    by_cases hlt : n < 10
    · rw [Nat.toDigits_of_lt_base hlt]
      interval_cases n <;> decide
    · rw [Nat.toDigits_of_base_le (by decide) (by omega),
        List.head?_append_of_ne_nil _ Nat.toDigits_ne_nil]
      exact ih (n / 10) (by omega) (by omega)

theorem isWholePart_toDigits (n : Nat) : isWholePart (Nat.toDigits 10 n) = true := by
  rcases Nat.eq_zero_or_pos n with rfl | hpos
  · rw [Nat.toDigits_zero]
    rfl
  · have hhead := head_toDigits_ne_zero hpos
    have hdigits : ∀ c ∈ Nat.toDigits 10 n, c.isDigit = true := fun c hc ↦
      Nat.isDigit_of_mem_toDigits (by decide) (by decide) hc
    obtain ⟨c, rest, hcons⟩ := List.exists_cons_of_ne_nil (Nat.toDigits_ne_nil (b := 10) (n := n))
    rw [hcons] at hhead hdigits ⊢
    have hc : c ≠ '0' := by simpa using hhead
    rw [isWholePart]
    · simpa [hc] using hdigits
    · simpa using fun h ↦ absurd h hc

theorem ne_of_mem_toDigits {n : Nat} {c : Char} (h : c ∈ Nat.toDigits 10 n) (d : Char)
    (hd : d.isDigit = false) : c ≠ d := by
  rintro rfl
  exact Bool.false_ne_true (hd.symm.trans (Nat.isDigit_of_mem_toDigits (by decide) (by decide) h))

/-- A span over characters that all belong to it. -/
theorem span_eq_of_forall {p : Char → Bool} {l : List Char} (h : ∀ c ∈ l, p c = true) :
    l.span p = (l, []) := by
  rw [List.span_eq_takeWhile_dropWhile, List.takeWhile_eq_self_iff.2 h,
    List.dropWhile_eq_nil_iff.2 h]

/-- Digits alone are a whole part, without point and exponent. -/
theorem numeral_toDigits (n : Nat) (negative : Bool) :
    Numeral.ofWord? (if negative then '-' :: Nat.toDigits 10 n else Nat.toDigits 10 n) =
      some { negative, whole := Nat.toDigits 10 n, fraction := [], exponent := 0, plain := true } := by
  have hmantissa : (Nat.toDigits 10 n).span (fun c ↦ c != 'e' && c != 'E') =
      (Nat.toDigits 10 n, []) := span_eq_of_forall fun c hc ↦ by
    simp [ne_of_mem_toDigits hc 'e' (by decide), ne_of_mem_toDigits hc 'E' (by decide)]
  have hwhole : (Nat.toDigits 10 n).span (· != '.') = (Nat.toDigits 10 n, []) :=
    span_eq_of_forall fun c hc ↦ by simp [ne_of_mem_toDigits hc '.' (by decide)]
  have hpositive : (Nat.toDigits 10 n).head? ≠ some '-' := fun h ↦
    ne_of_mem_toDigits (List.mem_of_mem_head? h) '-' (by decide) rfl
  cases negative with
  | true =>
    simp [-List.span_eq_takeWhile_dropWhile, Numeral.ofWord?, hmantissa, hwhole,
      isWholePart_toDigits]
  | false =>
    simp [-List.span_eq_takeWhile_dropWhile, Numeral.ofWord?, hpositive, hmantissa, hwhole,
      isWholePart_toDigits]

theorem ofWord?_toDigits {n : Nat} (h : n ≤ maxNat) :
    ofWord? (Nat.toDigits 10 n) = some (.int (.ofNat n)) := by
  have hnot : ∀ (c : Char) (rest : List Char), c.isDigit = false → Nat.toDigits 10 n ≠ c :: rest :=
    fun c rest hc heq ↦ ne_of_mem_toDigits (heq ▸ List.mem_cons_self ..) c hc rfl
  have hnumeral := numeral_toDigits n false
  rw [if_neg Bool.false_ne_true] at hnumeral
  have hint : Numeral.toInt? ⟨false, Nat.toDigits 10 n, [], 0, true⟩ = some (.ofNat n) := by
    simp [Numeral.toInt?, ofDigits_toDigits, h]
  rw [ofWord?, if_neg (hnot _ _ (by decide)), if_neg (hnot _ _ (by decide)),
    if_neg (hnot _ _ (by decide)), hnumeral, Option.map_some, Numeral.toJson, hint]

theorem ofWord?_negative {n : Nat} (h : n + 1 ≤ maxNegative) :
    ofWord? ('-' :: Nat.toDigits 10 (n + 1)) = some (.int (.negSucc n)) := by
  have hnumeral := numeral_toDigits (n + 1) true
  rw [if_pos rfl] at hnumeral
  have hint : Numeral.toInt? ⟨true, Nat.toDigits 10 (n + 1), [], 0, true⟩ =
      some (.negSucc n) := by
    simp [Numeral.toInt?, ofDigits_toDigits, h, Int.negSucc_eq]
  rw [ofWord?, if_neg (by simp), if_neg (by simp), if_neg (by simp), hnumeral, Option.map_some,
    Numeral.toJson, hint]

/-! ### One character after a value -/

/-- All tokens so far are known: the scanner stands between tokens, or inside a bare word that is
the last one of them. -/
structure Settles (s : Scanner) (tokens : List Token) : Prop where
  outside : s.scan = .between ∨ ∃ w, s.scan = .word w
  ends : s.endWord = some { tokens := tokens }

theorem Settles.between (tokens : List Token) : Settles { tokens := tokens } tokens :=
  ⟨Or.inl rfl, rfl⟩

theorem Settles.step {s : Scanner} {tokens : List Token} (h : Settles s tokens) (c : Char) :
    s.step c = s.plain c := by
  rcases h.outside with hscan | ⟨w, hscan⟩ <;> rw [Scanner.step, hscan]

/-- A blank ends a word. -/
theorem Settles.blank {s : Scanner} {tokens : List Token} (h : Settles s tokens) {c : Char}
    (hc : isBlank c = true) : s.step c = some { tokens := tokens } := by
  rw [h.step, Scanner.plain, if_pos hc, h.ends]

/-- Punctuation ends a word and is a token itself. -/
theorem Settles.punctuation {s : Scanner} {tokens : List Token} (h : Settles s tokens) {c : Char}
    {t : Token} (hc : punctuation? c = some t) : s.step c = some { tokens := t :: tokens } := by
  have hblank : isBlank c = false ∧ (c == '"') = false := by
    rw [punctuation?.eq_def] at hc
    split at hc
    · decide
    · decide
    · decide
    · decide
    · decide
    · decide
    · exact absurd hc (Option.some_ne_none t).symm
  rw [h.step, Scanner.plain, hblank.1, hblank.2, hc, h.ends]
  rfl

/-! ### Texts and their tokens -/

/-- **A text is scanned as some tokens**, wherever it starts between tokens. -/
def Scans (text : List Char) (tokens : List Token) : Prop :=
  ∀ before, ∃ s, text.foldlM Scanner.step { tokens := before } = some s ∧
    Settles s (tokens.reverse ++ before)

namespace Scans

theorem nil : Scans [] [] := fun before ↦ ⟨_, rfl, .between before⟩

/-- Two texts with punctuation between them. -/
theorem join {text rest : List Char} {tokens more : List Token} {c : Char} {t : Token}
    (h : Scans text tokens) (hc : punctuation? c = some t) (h' : Scans rest more) :
    Scans (text ++ c :: rest) (tokens ++ t :: more) := by
  intro before
  obtain ⟨s, hs, hsettles⟩ := h before
  obtain ⟨s', hs', hsettles'⟩ := h' (t :: (tokens.reverse ++ before))
  refine ⟨s', ?_, ?_⟩
  · rw [List.foldlM_append, hs, Option.bind_eq_bind, Option.bind_some, List.foldlM_cons,
      hsettles.punctuation hc, Option.bind_eq_bind, Option.bind_some, hs']
  · rw [List.reverse_append, List.reverse_cons, List.append_assoc, List.append_assoc,
      List.singleton_append]
    exact hsettles'

/-- A text in brackets. -/
theorem enclose {text : List Char} {tokens : List Token} {c d : Char} {t u : Token}
    (hc : punctuation? c = some t) (h : Scans text tokens) (hd : punctuation? d = some u) :
    Scans (c :: (text ++ [d])) (t :: (tokens ++ [u])) :=
  nil.join hc (h.join hd nil)

/-- A bare word goes on as long as its characters do. -/
theorem foldlM_word {word : List Char} (h : ∀ c ∈ word, inWord c = true) (before : List Token)
    (w : List Char) :
    word.foldlM Scanner.step { tokens := before, scan := .word w } =
      some { tokens := before, scan := .word (word.reverse ++ w) } := by
  induction word generalizing w with
  | nil => rfl
  | cons c word ih =>
    obtain ⟨hblank, hquote, hpunctuation⟩ := inWord_iff.1 (h c (List.mem_cons_self ..))
    have hstep : Scanner.step { tokens := before, scan := .word w } c =
        some { tokens := before, scan := .word (c :: w) } := by
      rw [Scanner.step, Scanner.plain, hblank, hpunctuation, beq_false_of_ne hquote]
      rfl
    rw [List.foldlM_cons, hstep, Option.bind_eq_bind, Option.bind_some,
      ih fun d hd ↦ h d (List.mem_cons_of_mem c hd), List.reverse_cons, List.append_assoc,
      List.singleton_append]

/-- A bare word is one value. -/
theorem word {word : List Char} {v : Json} (hne : word ≠ []) (hword : ∀ c ∈ word, inWord c = true)
    (hv : ofWord? word = some v) : Scans word [.atom v] := by
  intro before
  obtain ⟨c, rest, rfl⟩ := List.exists_cons_of_ne_nil hne
  obtain ⟨hblank, hquote, hpunctuation⟩ := inWord_iff.1 (hword c (List.mem_cons_self ..))
  have hstep : Scanner.step { tokens := before } c =
      some { tokens := before, scan := .word [c] } := by
    rw [Scanner.step, Scanner.plain, hblank, hpunctuation, beq_false_of_ne hquote]
    rfl
  refine ⟨{ tokens := before, scan := .word (rest.reverse ++ [c]) }, ?_, Or.inr ⟨_, rfl⟩, ?_⟩
  · rw [List.foldlM_cons, hstep, Option.bind_eq_bind, Option.bind_some,
      foldlM_word fun d hd ↦ hword d (List.mem_cons_of_mem c hd)]
  · rw [Scanner.endWord]
    simp only [List.reverse_append, List.reverse_reverse, List.reverse_singleton,
      List.singleton_append, hv]
    rfl

theorem hexDigit?_hexDigit {n : Nat} (h : n < 16) : hexDigit? (hexDigit n) = some n := by
  interval_cases n <;> decide

/-- An escaped character is read back. -/
theorem foldlM_escapeChar (before : List Token) (cs : List Char) (c : Char) :
    (escapeChar c).foldlM Scanner.step { tokens := before, scan := .quoted { chars := cs } } =
      some { tokens := before, scan := .quoted { chars := c :: cs } } := by
  rw [escapeChar]
  split_ifs with hquote hbackslash hb hf hn hr ht hcontrol
  · subst hquote; rfl
  · subst hbackslash; rfl
  · subst hb; rfl
  · subst hf; rfl
  · subst hn; rfl
  · subst hr; rfl
  · subst ht; rfl
  · -- four hexadecimal digits, of which the first two are zeros
    have hhigh := hexDigit?_hexDigit (n := c.toNat / 16) (by omega)
    have hlow := hexDigit?_hexDigit (n := c.toNat % 16) (by omega)
    have hunit : c.toNat / 16 * 16 + c.toNat % 16 = c.toNat := by omega
    have hzero : hexDigit? '0' = some 0 := by decide
    have hpush : Quoted.pushUnit { chars := cs } c.toNat = { chars := c :: cs } := by
      rw [Quoted.pushUnit]
      simp only
      rw [if_neg (by omega), if_neg (by omega), Char.ofNat_toNat]
      rfl
    simp [Scanner.step, hzero, hhigh, hlow, hunit, hpush]
  · rw [List.foldlM_cons, Scanner.step]
    simp only
    rw [beq_false_of_ne hquote, beq_false_of_ne hbackslash, if_neg hcontrol]
    rfl

theorem foldlM_escapeChars (before : List Token) (l cs : List Char) :
    (l.flatMap escapeChar).foldlM Scanner.step
        { tokens := before, scan := .quoted { chars := cs } } =
      some { tokens := before, scan := .quoted { chars := l.reverse ++ cs } } := by
  induction l generalizing cs with
  | nil => rfl
  | cons c l ih =>
    rw [List.flatMap_cons, List.foldlM_append, foldlM_escapeChar, Option.bind_eq_bind,
      Option.bind_some, ih, List.reverse_cons, List.append_assoc, List.singleton_append]

/-- A string in its quotes. -/
theorem quote (s : String) : Scans (Json.quote s) [.text (some s)] := by
  intro before
  refine ⟨_, ?_, .between _⟩
  have hopen : Scanner.step { tokens := before } '"' =
      some { tokens := before, scan := .quoted {} } := rfl
  rw [Json.quote, List.foldlM_cons, hopen, Option.bind_eq_bind, Option.bind_some,
    List.foldlM_append, foldlM_escapeChars, Option.bind_eq_bind, Option.bind_some]
  simp [Scanner.step, Quoted.close]

end Scans

/-! ### Values -/

theorem scans_elems {elems : List Json} (h : ∀ v ∈ elems, Scans (chars v) (toTokens v)) :
    Scans (elemsChars elems) (elemsTokens elems) := by
  induction elems with
  | nil => exact .nil
  | cons v rest ih =>
    have hv := h v (List.mem_cons_self ..)
    cases rest with
    | nil => exact hv
    | cons w rest => exact hv.join rfl (ih fun u hu ↦ h u (List.mem_cons_of_mem v hu))

theorem scans_members {members : List (String × Json)}
    (h : ∀ m ∈ members, Scans (chars m.2) (toTokens m.2)) :
    Scans (membersChars members) (membersTokens members) := by
  induction members with
  | nil => exact .nil
  | cons m rest ih =>
    obtain ⟨k, v⟩ := m
    have hv := h (k, v) (List.mem_cons_self ..)
    cases rest with
    | nil => exact (Scans.quote k).join rfl hv
    | cons m rest =>
      exact (Scans.quote k).join rfl (hv.join rfl (ih fun u hu ↦ h u (List.mem_cons_of_mem _ hu)))

/-- **A written value is scanned as its tokens.** -/
theorem scans_chars {v : Json} (h : Exact v) : Scans (chars v) (toTokens v) := by
  induction h with
  | null => exact .word (by decide) (List.all_eq_true.1 rfl) rfl
  | bool b => cases b <;> exact .word (by decide) (List.all_eq_true.1 rfl) rfl
  | nat n hle =>
    exact .word Nat.toDigits_ne_nil (fun _ ↦ inWord_of_mem_toDigits) (ofWord?_toDigits hle)
  | negative n hle =>
    refine .word (List.cons_ne_nil _ _) (fun c hc ↦ ?_) (ofWord?_negative hle)
    rcases List.mem_cons.1 hc with rfl | hc
    · decide
    · exact inWord_of_mem_toDigits hc
  | str s => exact .quote s
  | arr elems _ ih => exact .enclose rfl (scans_elems ih) rfl
  | obj members _ ih => exact .enclose rfl (scans_members ih) rfl

/-- The tokens of a line. -/
theorem tokens?_line {v : Json} (h : Exact v) : tokens? (chars v ++ ['\n']) = some (toTokens v) := by
  obtain ⟨s, hs, hsettles⟩ := scans_chars h []
  rw [tokens?, List.foldlM_append, hs, Option.bind_eq_bind, Option.bind_some, List.foldlM_cons,
    hsettles.blank rfl]
  simp [Scanner.finish]

end Json

end DealersChoice
