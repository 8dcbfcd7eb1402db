import Mathlib.Data.List.Induction
import DealersChoice.Card.Notation
import DealersChoice.Proofs.Variant.Loaded

/-!
# How ranks are spelled

A rank is read from its symbol or name in any letter case. What else is read is left to the parser
of small numbers, whose grammar is wider than one digit: `7`, `+7` and `007` are all a seven. So the
spellings of a rank are its names (`Rank.notations`) and, from two to nine, its digit after any
zeros and an optional plus sign (`Rank.IsNumeral`). There are no others, and the ranks of deck
lists, wild cards and qualifiers are spelled in the same way.
-/

namespace DealersChoice

/-- A text in capitals, as far as the letters of ASCII go. -/
def capitals (text : String) : String :=
  String.ofList (text.toList.map Char.toUpper)

namespace Rank

/-- The names of a rank: its symbol, and from ten on its word. -/
def notations : Rank → List String
  | two => ["2"]
  | three => ["3"]
  | four => ["4"]
  | five => ["5"]
  | six => ["6"]
  | seven => ["7"]
  | eight => ["8"]
  | nine => ["9"]
  | ten => ["T", "10", "TEN"]
  | jack => ["J", "JACK"]
  | queen => ["Q", "QUEEN"]
  | king => ["K", "KING"]
  | ace => ["A", "ACE"]
  | joker => ["*", "JOKER"]

/-- Whether a text is one of the names of a rank, in any letter case. -/
def IsNamed (r : Rank) (text : String) : Prop :=
  capitals text ∈ r.notations

instance (r : Rank) (text : String) : Decidable (r.IsNamed text) :=
  inferInstanceAs (Decidable (capitals text ∈ r.notations))

/-- Whether a text is the number of a small rank: its digit, after any zeros and perhaps a plus
sign. -/
def IsNumeral (r : Rank) (text : String) : Prop :=
  r.value ≤ 9 ∧ ∃ sign zeros, (sign = [] ∨ sign = ['+']) ∧
    text.toList = sign ++ (List.replicate zeros '0' ++ [r.symbol])

/-- Whether a text is a spelling of a rank. -/
def IsSpelled (r : Rank) (text : String) : Prop :=
  r.IsNamed text ∨ r.IsNumeral text

end Rank

/-! ### Letter case -/

theorem toUpper_of_lt {c : Char} (h : c.toNat < 'A'.toNat) : c.toUpper = c := by
  refine dif_neg fun hlower ↦ ?_
  have hle : 97 ≤ c.toNat := hlower.1
  have hlt : c.toNat < 65 := h
  omega

/-- What comes before the letters is the capital of nothing else. -/
theorem eq_of_toUpper_eq {c d : Char} (h : c.toUpper = d) (hd : d.toNat < 'A'.toNat) : c = d := by
  unfold Char.toUpper at h
  split at h
  · rename_i hlower
    have hle : 97 ≤ c.val.toNat := hlower.1
    have hge : c.val.toNat ≤ 122 := hlower.2
    have hshift : ('A'.val - 'a'.val).toNat = 2 ^ 32 - 32 := rfl
    have hd' : (c.val + ('A'.val - 'a'.val)).toNat < 65 := by rw [← h] at hd; exact hd
    rw [UInt32.toNat_add, hshift] at hd'
    omega
  · exact h

theorem map_toUpper_eq_iff {l m : List Char} (hm : ∀ d ∈ m, d.toNat < 'A'.toNat) :
    l.map Char.toUpper = m ↔ l = m := by
  constructor
  · rintro rfl
    refine (List.map_id l).symm.trans (List.map_congr_left fun c hc ↦ ?_)
    exact eq_of_toUpper_eq rfl (hm _ (List.mem_map_of_mem hc))
  · rintro rfl
    exact (List.map_congr_left fun c hc ↦ toUpper_of_lt (hm c hc)).trans (List.map_id l)

/-! ### Small numbers -/

/-- The digits of a number, without its sign. -/
def unsigned (text : List Char) : List Char :=
  if text.head? == some '+' then text.drop 1 else text

/-- The value of a list of digits. -/
def digitsValue (digits : List Char) : Nat :=
  digits.foldl (fun n c ↦ n * 10 + (c.toNat - '0'.toNat)) 0

theorem digitsValue_append_singleton (digits : List Char) (d : Char) :
    digitsValue (digits ++ [d]) = digitsValue digits * 10 + (d.toNat - '0'.toNat) := by
  rw [digitsValue, List.foldl_append, List.foldl_cons, List.foldl_nil, digitsValue]

theorem digitsValue_replicate (zeros : Nat) : digitsValue (List.replicate zeros '0') = 0 := by
  induction zeros with
  | zero => rfl
  | succ zeros ih => rw [List.replicate_succ', digitsValue_append_singleton, ih]; rfl

theorem toNat_of_isDigit {c : Char} (h : c.isDigit) :
    '0'.toNat ≤ c.toNat ∧ c.toNat ≤ '9'.toNat := by
  simpa [Char.isDigit, UInt32.le_iff_toNat_le] using h

/-- Digits that are worth nothing are zeros. -/
theorem eq_replicate_of_digitsValue_eq_zero {digits : List Char} (hdigits : ∀ c ∈ digits, c.isDigit)
    (h : digitsValue digits = 0) : ∃ zeros, digits = List.replicate zeros '0' := by
  refine ⟨digits.length, List.eq_replicate_of_mem fun c hc ↦ ?_⟩
  induction digits using List.reverseRecOn with
  | nil => exact absurd hc List.not_mem_nil
  | append_singleton digits d ih =>
    rw [digitsValue_append_singleton] at h
    rcases List.mem_append.1 hc with hc | hc
    · exact ih (fun c hc ↦ hdigits c (List.mem_append_left _ hc)) (by omega) hc
    · obtain rfl := List.mem_singleton.1 hc
      have hdigit := toNat_of_isDigit (hdigits c (List.mem_append_right _ hc))
      exact Char.toNat_inj.1 (by omega)

/-- A number of at most nine is one digit after zeros. -/
theorem eq_append_digit_of_digitsValue_le {digits : List Char} (hne : digits ≠ [])
    (hdigits : ∀ c ∈ digits, c.isDigit) (h : digitsValue digits ≤ 9) :
    ∃ zeros d, digits = List.replicate zeros '0' ++ [d] ∧ d.isDigit ∧
      d.toNat - '0'.toNat = digitsValue digits := by
  obtain ⟨before, d, rfl⟩ := (List.eq_nil_or_concat' digits).resolve_left hne
  rw [digitsValue_append_singleton] at h ⊢
  obtain ⟨zeros, rfl⟩ := eq_replicate_of_digitsValue_eq_zero
    (fun c hc ↦ hdigits c (List.mem_append_left _ hc)) (by omega : digitsValue before = 0)
  refine ⟨zeros, d, rfl, hdigits d (List.mem_append_right _ (List.mem_singleton_self d)), ?_⟩
  rw [digitsValue_replicate, Nat.zero_mul, Nat.zero_add]

theorem decimal?_eq_some_iff {text : List Char} {v : Nat} : decimal? text = some v ↔
    unsigned text ≠ [] ∧ (∀ c ∈ unsigned text, c.isDigit) ∧ digitsValue (unsigned text) = v := by
  change (if (unsigned text).isEmpty || !(unsigned text).all Char.isDigit then none
    else some (digitsValue (unsigned text))) = some v ↔ _
  rw [Option.ite_none_left_eq_some, Option.some_inj, ← and_assoc]
  refine and_congr_left fun _ ↦ ?_
  simp

/-- A text is its sign and its digits. -/
theorem exists_sign (text : List Char) :
    ∃ sign, (sign = [] ∨ sign = ['+']) ∧ text = sign ++ unsigned text := by
  unfold unsigned
  split
  · rename_i hplus
    obtain ⟨rest, rfl⟩ := List.head?_eq_some_iff.1 (eq_of_beq hplus)
    exact ⟨['+'], .inr rfl, rfl⟩
  · exact ⟨[], .inl rfl, rfl⟩

theorem unsigned_append {sign digits : List Char} (hsign : sign = [] ∨ sign = ['+'])
    (hdigits : ∀ c ∈ digits, c.isDigit) : unsigned (sign ++ digits) = digits := by
  rcases hsign with rfl | rfl
  · refine if_neg fun hplus ↦ ?_
    exact absurd (hdigits '+' (List.mem_of_head? (eq_of_beq hplus))) (by decide)
  · rfl

/-! ### Reading ranks -/

namespace Rank

variable {r : Rank} {text : String}

theorem value_of_ofValue? {v : Nat} (h : ofValue? v = some r) : r.value = v :=
  eq_of_beq (List.find?_some (p := fun r : Rank ↦ r.value == v) h)

theorem ofValue?_value (r : Rank) : ofValue? r.value = some r := by
  cases r <;> rfl

theorem two_le_value (r : Rank) : 2 ≤ r.value := by
  cases r <;> decide

/-- The symbol of a rank up to nine is the digit of its value. -/
theorem symbol_of_value_le (h : r.value ≤ 9) :
    r.symbol.isDigit ∧ r.symbol.toNat - '0'.toNat = r.value := by
  cases r <;> first | decide | exact absurd h (by decide)

/-- The rank that a small number names. -/
def ofNumber? (text : String) : Option Rank :=
  ((decimal? text.toList).filter fun v ↦ 2 ≤ v && v ≤ 9).bind ofValue?

theorem ofNumber?_eq_some_iff : ofNumber? text = some r ↔ r.IsNumeral text := by
  rw [ofNumber?, Option.bind_eq_some_iff]
  constructor
  · rintro ⟨v, hv, hr⟩
    obtain ⟨hdecimal, hrange⟩ := Option.filter_eq_some_iff.1 hv
    obtain ⟨hne, hdigits, rfl⟩ := decimal?_eq_some_iff.1 hdecimal
    obtain ⟨-, hle⟩ := (Bool.and_eq_true _ _).mp hrange
    have hvalue := value_of_ofValue? hr
    obtain ⟨zeros, d, hunsigned, hdigit, hd⟩ :=
      eq_append_digit_of_digitsValue_le hne hdigits (of_decide_eq_true hle)
    obtain ⟨sign, hsign, htext⟩ := exists_sign text.toList
    have hsmall : r.value ≤ 9 := hvalue ▸ of_decide_eq_true hle
    refine ⟨hsmall, sign, zeros, hsign, ?_⟩
    -- the digit of the text and the symbol are worth the same
    have hsymbol : d = r.symbol := by
      obtain ⟨hdigit', hsymbol⟩ := symbol_of_value_le hsmall
      have := toNat_of_isDigit hdigit
      have := toNat_of_isDigit hdigit'
      exact Char.toNat_inj.1 (by omega)
    rw [htext, hunsigned, hsymbol]
  · rintro ⟨hsmall, sign, zeros, hsign, htext⟩
    obtain ⟨hdigit, hsymbol⟩ := symbol_of_value_le hsmall
    have hdigits : ∀ c ∈ List.replicate zeros '0' ++ [r.symbol], c.isDigit := by
      intro c hc
      rcases List.mem_append.1 hc with hc | hc
      · rw [List.eq_of_mem_replicate hc]; decide
      · rwa [List.mem_singleton.1 hc]
    refine ⟨r.value, Option.filter_eq_some_iff.2 ⟨decimal?_eq_some_iff.2 ?_, ?_⟩, ofValue?_value r⟩
    · rw [htext, unsigned_append hsign hdigits, digitsValue_append_singleton,
        digitsValue_replicate, hsymbol]
      exact ⟨List.append_ne_nil_of_right_ne_nil _ (List.cons_ne_nil _ _), hdigits, by omega⟩
    · simp [two_le_value, hsmall]

/-- A number has no letters, so it is its own capitals and the capitals of nothing else. -/
theorem isNumeral_capitals : r.IsNumeral (capitals text) ↔ r.IsNumeral text := by
  refine and_congr_right fun hsmall ↦ exists₂_congr fun sign zeros ↦ and_congr_right fun hsign ↦ ?_
  rw [capitals, String.toList_ofList]
  refine map_toUpper_eq_iff fun d hd ↦ ?_
  rcases List.mem_append.1 hd with hd | hd
  · rcases hsign with rfl | rfl
    · contradiction
    · rw [List.mem_singleton.1 hd]; decide
  · rcases List.mem_append.1 hd with hd | hd
    · rw [List.eq_of_mem_replicate hd]; decide
    · rw [List.mem_singleton.1 hd]
      exact Nat.lt_of_le_of_lt (toNat_of_isDigit (symbol_of_value_le hsmall).1).2 (by decide)

/-- What is read off a text depends on its capitals alone. -/
theorem ofText?_congr {other : String} (h : capitals text = capitals other) :
    ofText? text = ofText? other := by
  rw [capitals, capitals] at h
  unfold ofText?
  rw [h]

theorem ofText?_of_isNamed (h : r.IsNamed text) : ofText? text = .ok r := by
  have hread : ∀ name ∈ r.notations, capitals name = name ∧ ofText? name = .ok r := by
    cases r <;> decide
  obtain ⟨hcapitals, hok⟩ := hread _ h
  exact (ofText?_congr hcapitals.symm).trans hok

/-- What is no name of a rank from ten on is left to the parser of numbers. -/
theorem ofText?_of_not_isNamed (h : ∀ high : Rank, 9 < high.value → ¬ high.IsNamed text) :
    ofText? text = match ofNumber? (capitals text) with
      | some rank => .ok rank
      | none => .error (.unknownRank (capitals text)) := by
  unfold ofText?
  dsimp only
  rw [if_neg, if_neg, if_neg, if_neg, if_neg, if_neg]
  · rfl
  · exact fun hname ↦ h joker (by decide) (by simpa [IsNamed, notations, capitals] using hname)
  · exact fun hname ↦ h ten (by decide) (by simpa [IsNamed, notations, capitals] using hname)
  · exact fun hname ↦ h jack (by decide) (by simpa [IsNamed, notations, capitals] using hname)
  · exact fun hname ↦ h queen (by decide) (by simpa [IsNamed, notations, capitals] using hname)
  · exact fun hname ↦ h king (by decide) (by simpa [IsNamed, notations, capitals] using hname)
  · exact fun hname ↦ h ace (by decide) (by simpa [IsNamed, notations, capitals] using hname)

/-- A number ends in a digit from two on, and no name of a rank from ten on does. -/
theorem IsNumeral.not_isNamed (h : r.IsNumeral text) (high : Rank) (hhigh : 9 < high.value) :
    ¬ high.IsNamed text := by
  obtain ⟨hsmall, sign, zeros, hsign, htext⟩ := isNumeral_capitals.2 h
  have hlast : (capitals text).toList.getLast? = some r.symbol := by
    rw [htext, ← List.append_assoc, List.getLast?_concat]
  have hother : ∀ name ∈ high.notations, name.toList.getLast? ≠ some r.symbol := by
    revert hsmall hhigh
    cases high <;> cases r <;> decide
  exact fun hname ↦ hother _ hname hlast

/-- **A text is read as a rank exactly if it is a spelling of it.** -/
theorem ofText?_eq_ok_iff : ofText? text = .ok r ↔ r.IsSpelled text := by
  constructor
  · intro h
    by_cases hhigh : ∃ high : Rank, 9 < high.value ∧ high.IsNamed text
    · obtain ⟨high, -, hname⟩ := hhigh
      obtain rfl := Except.ok.inj ((ofText?_of_isNamed hname).symm.trans h)
      exact .inl hname
    · rw [ofText?_of_not_isNamed (fun high hvalue hname ↦ hhigh ⟨high, hvalue, hname⟩)] at h
      split at h
      · rename_i rank hnumber
        obtain rfl := Except.ok.inj h
        exact .inr (isNumeral_capitals.1 (ofNumber?_eq_some_iff.1 hnumber))
      · contradiction
  · rintro (h | h)
    · exact ofText?_of_isNamed h
    · rw [ofText?_of_not_isNamed h.not_isNamed,
        ofNumber?_eq_some_iff.2 (isNumeral_capitals.2 h)]

theorem ofText?_eq_error (h : ∀ r : Rank, ¬ r.IsSpelled text) :
    ofText? text = .error (.unknownRank (capitals text)) := by
  cases hread : ofText? text with
  | ok r => exact absurd (ofText?_eq_ok_iff.1 hread) (h r)
  | error e =>
    rw [ofText?_of_not_isNamed fun high _ hname ↦ h high (.inl hname)] at hread
    split at hread
    · contradiction
    · exact hread.symm

end Rank

/-! ### Ranks in documents -/

theorem isSpelled_of_inNotation {r : Rank} {text : String}
    (h : inNotation (Rank.ofText? text) = .ok r) : r.IsSpelled text := by
  cases hread : Rank.ofText? text with
  | error e => rw [hread] at h; contradiction
  | ok r' =>
    rw [hread] at h
    obtain rfl := Except.ok.inj h
    exact Rank.ofText?_eq_ok_iff.1 hread

/-- Whether ranks are those that texts spell, one after another. -/
def Spelled (texts : List String) (ranks : List Rank) : Prop :=
  List.Forall₂ (fun text r ↦ r.IsSpelled text) texts ranks

theorem spelled_of_mapM {texts : List String} {ranks : List Rank}
    (h : (texts.mapM fun text ↦ inNotation (Rank.ofText? text)) = .ok ranks) :
    Spelled texts ranks :=
  (Checked.forall₂_of_mapM h).imp fun _ _ ↦ isSpelled_of_inNotation

/-- The wild ranks and the qualifier of a best hand are those that its document spells. -/
structure BestHandDocument.SpellsRanks (d : BestHandDocument) (rule : BestHandRule) : Prop where
  wild : Spelled d.wildCards rule.wildRanks
  qualifier : Option.Rel (fun text r ↦ r.IsSpelled text) d.qualifier rule.qualifier

theorem BestHandDocument.spellsRanks_of_toRule {d : BestHandDocument} {rule : BestHandRule}
    (h : d.toRule = .ok rule) : d.SpellsRanks rule := by
  rw [toRule] at h
  cases hpolicy : Policy.ofText? d.evaluationType with
  | error e =>
    simp only [hpolicy] at h
    contradiction
  | ok policy =>
    cases hqualifier : d.qualifier with
    | none =>
      simp only [hpolicy, hqualifier] at h
      obtain ⟨_, -, h⟩ := Checked.exists_of_bind h
      obtain ⟨selection, -, h⟩ := Checked.exists_of_bind h
      obtain ⟨qualifier, hnone, h⟩ := Checked.exists_of_bind h
      obtain rfl := Except.ok.inj hnone
      obtain ⟨wildRanks, hwild, h⟩ := Checked.exists_of_bind h
      obtain rfl := Except.ok.inj h
      exact ⟨spelled_of_mapM hwild, hqualifier ▸ .none⟩
    | some text =>
      simp only [hpolicy, hqualifier] at h
      obtain ⟨_, -, h⟩ := Checked.exists_of_bind h
      obtain ⟨selection, -, h⟩ := Checked.exists_of_bind h
      obtain ⟨qualifier, hread, h⟩ := Checked.exists_of_bind h
      obtain ⟨wildRanks, hwild, h⟩ := Checked.exists_of_bind h
      obtain rfl := Except.ok.inj h
      obtain ⟨r, hr, hsome⟩ := Checked.exists_of_bind (f := fun r ↦ .ok (some r)) hread
      obtain rfl := Except.ok.inj hsome
      exact ⟨spelled_of_mapM hwild, hqualifier ▸ .some (isSpelled_of_inNotation hr)⟩

/-- **A text is read as a rank exactly if it is one of its names in any letter case, or, for a rank
up to nine, its number**; any other text is refused with its capitals. Loaded rules have the ranks
that their document spells in this way, in the deck and in every best hand. -/
theorem ranks_as_spelled (text : String) :
    (∀ r, Rank.ofText? text = .ok r ↔ r.IsNamed text ∨ r.IsNumeral text) ∧
    ((∀ r : Rank, ¬ r.IsSpelled text) →
      Rank.ofText? text = .error (.unknownRank (capitals text))) ∧
    ∀ (d : VariantDocument) (v : Variant), d.toVariant = .ok v →
      (∀ deck texts, d.deck = some deck → deck.ranks = some texts → Spelled texts v.deck.ranks) ∧
      ∀ showdown hands, d.showdown = some showdown → showdown.bestHand = some hands →
        List.Forall₂ BestHandDocument.SpellsRanks hands v.showdown.hands := by
  refine ⟨fun r ↦ Rank.ofText?_eq_ok_iff, Rank.ofText?_eq_error, fun d v h ↦ ?_⟩
  obtain ⟨-, -, ⟨deck, hdeck, hread⟩, -, showdown, hands, hshowdown, hhands, hrules⟩ :=
    VariantDocument.parts_of_toVariant h
  constructor
  · rintro _ texts hdeck' htexts
    obtain rfl := Option.some.inj (hdeck.symm.trans hdeck')
    exact spelled_of_mapM ((DeckDocument.ranks_of_toComposition hread).2 texts htexts)
  · rintro _ _ hshowdown' hhands'
    obtain rfl := Option.some.inj (hshowdown.symm.trans hshowdown')
    obtain rfl := Option.some.inj (hhands.symm.trans hhands')
    exact (Checked.forall₂_of_mapM hrules).imp fun _ _ ↦ BestHandDocument.spellsRanks_of_toRule

/-- Rules with a low hand of at most eight in which sevens are wild, the numbers not written as
digits. -/
def paddedNumbers : VariantDocument where
  game := some "Padded Numbers"
  players := some { min := 2, max := 2 }
  deck := some
    { type := .custom, cards := none, ranks := some ["a", "King", "+7", "08", "10"], suits := none,
      jokers := none }
  forcedBets := some .antesOnly
  bettingStructures := some [.noLimit]
  gamePlay := some [{ name := "Showdown", actions := [("showdown", .null)] }]
  showdown := some
    { order := none, startingFrom := none
      bestHand := some
        [{ name := "Low", evaluationType := "a5_low", anyCards := some 5, holeCards := none,
           communityCards := none, zones := none, qualifier := some "+8", wildCards := ["007"] }] }

theorem paddedNumbers_as_spelled :
    Rank.ofText? "1" = .error (.unknownRank "1") ∧
    ∃ v, paddedNumbers.toVariant = .ok v ∧
      (Spelled ["a", "King", "+7", "08", "10"] v.deck.ranks ∧
        v.deck.ranks = [.ace, .king, .seven, .eight, .ten]) ∧
      ∃ hands, paddedNumbers.showdown.bind (·.bestHand) = some hands ∧
        List.Forall₂ BestHandDocument.SpellsRanks hands v.showdown.hands ∧
        v.showdown.hands.map (·.qualifier) = [some .eight] ∧
        v.showdown.hands.map (·.wildRanks) = [[.seven]] := by
  have hone : ∀ r : Rank, ¬ r.IsSpelled "1" := fun r hr ↦
    absurd (Rank.ofText?_eq_ok_iff.2 hr) (by cases r <;> decide)
  obtain ⟨-, hrefused, hloaded⟩ := ranks_as_spelled "1"
  obtain ⟨hdeck, hhands⟩ := hloaded paddedNumbers _ rfl
  exact ⟨hrefused hone, _, rfl, ⟨hdeck _ _ rfl rfl, rfl⟩, _, rfl, hhands _ _ rfl rfl, rfl, rfl⟩

/-- A plus sign before a digit, which no rank has in its names, is read all the same. -/
theorem plus_seven_read :
    Rank.ofText? "+7" = .ok .seven ∧ ∀ r : Rank, ¬ r.IsNamed "+7" :=
  ⟨by decide, fun r ↦ by cases r <;> decide⟩

end DealersChoice
