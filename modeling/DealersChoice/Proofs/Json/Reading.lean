import DealersChoice.Json.Reader
import DealersChoice.Proofs.Json.Scanning

/-!
# Reading what was written

The tokens of a value put it where the machine waits for one (`places_toTokens`), so a line that
holds a written value reads back as that value (`read_line`). This is said of the manner in which
records are read, which keeps every member of an object.
-/

namespace DealersChoice

namespace Json

/-- A value may come next. -/
def Phase.awaits : Phase → Prop
  | .value | .valueOrClose => True
  | _ => False

/-- **Tokens place a value**, wherever the machine waits for one. -/
def Places (tokens : List Token) (v : Json) : Prop :=
  ∀ frames phase, phase.awaits →
    tokens.foldlM (Machine.step .record) { frames, phase } = some (Machine.place { frames } v)

theorem step_of_awaits {frames : List Frame} {phase : Phase} (hphase : phase.awaits) {t : Token}
    (ht : t ≠ .closeBracket) :
    Machine.step .record { frames, phase } t = Machine.value { frames, phase } .record t := by
  cases phase with
  | value => rfl
  | valueOrClose => cases t <;> first | rfl | exact absurd rfl ht
  | key | keyOrClose | colon | separator | done => exact hphase.elim

/-- What some tokens make of a machine, the next ones go on from. -/
theorem foldlM_append_of_eq {m m' : Machine} {tokens : List Token}
    (h : tokens.foldlM (Machine.step .record) m = some m') (more : List Token) :
    (tokens ++ more).foldlM (Machine.step .record) m =
      more.foldlM (Machine.step .record) m' := by
  rw [List.foldlM_append, h, Option.bind_eq_bind, Option.bind_some]

/-! ### Leaves -/

theorem places_atom (v : Json) : Places [.atom v] v := by
  intro frames phase hphase
  rw [List.foldlM_cons, step_of_awaits hphase (by simp)]
  rfl

theorem places_text (s : String) : Places [.text (some s)] (.str s) := by
  intro frames phase hphase
  rw [List.foldlM_cons, step_of_awaits hphase (by simp)]
  rfl

/-! ### Arrays -/

/-- Elements go into the open array, last one first. -/
theorem foldlM_elemsTokens {elems : List Json} (hne : elems ≠ [])
    (h : ∀ v ∈ elems, Places (toTokens v) v) (before : List Json) (rest : List Frame) {phase : Phase}
    (hphase : phase.awaits) :
    (elemsTokens elems).foldlM (Machine.step .record)
        { frames := .array before :: rest, phase } =
      some { frames := .array (elems.reverse ++ before) :: rest, phase := .separator } := by
  induction elems generalizing before phase with
  | nil => exact absurd rfl hne
  | cons v elems ih =>
    have hv := h v (List.mem_cons_self ..) (.array before :: rest) phase hphase
    cases elems with
    | nil => exact hv
    | cons w elems =>
      rw [elemsTokens, foldlM_append_of_eq hv, List.foldlM_cons]
      · show (elemsTokens (w :: elems)).foldlM (Machine.step .record)
          { frames := .array (v :: before) :: rest, phase := .value } = _
        rw [ih (List.cons_ne_nil w elems) (fun u hu ↦ h u (List.mem_cons_of_mem v hu)) _
            (show Phase.value.awaits from trivial),
          List.reverse_cons (a := v), List.append_assoc, List.singleton_append]
      · exact List.cons_ne_nil w elems

theorem places_arr {elems : List Json} (h : ∀ v ∈ elems, Places (toTokens v) v) :
    Places (toTokens (.arr elems)) (.arr elems) := by
  intro frames phase hphase
  rw [toTokens, List.foldlM_cons, step_of_awaits hphase (by simp)]
  show (elemsTokens elems ++ [Token.closeBracket]).foldlM (Machine.step .record)
    { frames := .array [] :: frames, phase := .valueOrClose } = _
  cases elems with
  | nil => rfl
  | cons v elems =>
    rw [foldlM_append_of_eq (foldlM_elemsTokens (List.cons_ne_nil v elems) h [] frames
      (show Phase.valueOrClose.awaits from trivial)), List.append_nil]
    show some (Machine.place { frames } (.arr (v :: elems).reverse.reverse)) = _
    rw [List.reverse_reverse]

/-! ### Objects -/

/-- A key may come next. -/
def Phase.awaitsKey : Phase → Prop
  | .key | .keyOrClose => True
  | _ => False

theorem foldlM_member {k : String} {v : Json} (h : Places (toTokens v) v)
    (before : List (String × Json)) (rest : List Frame) {phase : Phase}
    (hphase : phase.awaitsKey) :
    (.text (some k) :: .colon :: toTokens v).foldlM (Machine.step .record)
        { frames := .object before none true :: rest, phase } =
      some { frames := .object ((k, v) :: before) none true :: rest, phase := .separator } := by
  have hkey : Machine.step .record { frames := .object before none true :: rest, phase }
      (.text (some k)) =
      some { frames := .object before (some k) true :: rest, phase := .colon } := by
    cases phase with
    | key | keyOrClose => rfl
    | value | valueOrClose | colon | separator | done => exact hphase.elim
  rw [List.foldlM_cons, hkey]
  exact h (.object before (some k) true :: rest) .value trivial

/-- Members go into the open object, last one first. -/
theorem foldlM_membersTokens {members : List (String × Json)} (hne : members ≠ [])
    (h : ∀ m ∈ members, Places (toTokens m.2) m.2) (before : List (String × Json))
    (rest : List Frame) {phase : Phase} (hphase : phase.awaitsKey) :
    (membersTokens members).foldlM (Machine.step .record)
        { frames := .object before none true :: rest, phase } =
      some { frames := .object (members.reverse ++ before) none true :: rest,
             phase := .separator } := by
  induction members generalizing before phase with
  | nil => exact absurd rfl hne
  | cons m members ih =>
    obtain ⟨k, v⟩ := m
    have hv := foldlM_member (k := k) (h (k, v) (List.mem_cons_self ..)) before rest hphase
    cases members with
    | nil => exact hv
    | cons m members =>
      rw [membersTokens, ← List.cons_append, ← List.cons_append, foldlM_append_of_eq hv,
        List.foldlM_cons]
      · show (membersTokens (m :: members)).foldlM (Machine.step .record)
          { frames := .object ((k, v) :: before) none true :: rest, phase := .key } = _
        rw [ih (List.cons_ne_nil m members) (fun u hu ↦ h u (List.mem_cons_of_mem _ hu)) _
            (show Phase.key.awaitsKey from trivial),
          List.reverse_cons (a := (k, v)), List.append_assoc, List.singleton_append]
      · exact List.cons_ne_nil m members

theorem places_obj {members : List (String × Json)}
    (h : ∀ m ∈ members, Places (toTokens m.2) m.2) :
    Places (toTokens (.obj members)) (.obj members) := by
  intro frames phase hphase
  rw [toTokens, List.foldlM_cons, step_of_awaits hphase (by simp)]
  show (membersTokens members ++ [Token.closeBrace]).foldlM (Machine.step .record)
    { frames := .object [] none true :: frames, phase := .keyOrClose } = _
  cases members with
  | nil => rfl
  | cons m members =>
    rw [foldlM_append_of_eq (foldlM_membersTokens (List.cons_ne_nil m members) h [] frames
      (show Phase.keyOrClose.awaitsKey from trivial)), List.append_nil]
    show some (Machine.place { frames } (.obj (m :: members).reverse.reverse)) = _
    rw [List.reverse_reverse]

/-! ### Values -/

/-- **The tokens of a value place it.** -/
theorem places_toTokens {v : Json} (h : Exact v) : Places (toTokens v) v := by
  induction h with
  | null => exact places_atom _
  | bool b => exact places_atom _
  | nat n _ => exact places_atom _
  | negative n _ => exact places_atom _
  | str s => exact places_text s
  | arr elems _ ih => exact places_arr ih
  | obj members _ ih => exact places_obj ih

/-! ### Lines -/

theorem newline_notMem_escapeChar (c : Char) : '\n' ∉ escapeChar c := by
  have hdigit : ∀ n < 16, hexDigit n ≠ '\n' := by decide
  rw [escapeChar]
  split_ifs with hquote hbackslash hb hf hn hr ht hcontrol
  · decide
  · decide
  · decide
  · decide
  · decide
  · decide
  · decide
  · have hhigh := hdigit (c.toNat / 16) (by omega)
    have hlow := hdigit (c.toNat % 16) (by omega)
    simp [hhigh.symm, hlow.symm]
  · simpa using Ne.symm hn

theorem newline_notMem_quote (s : String) : '\n' ∉ quote s := by
  simp only [quote, List.mem_cons, List.mem_append, List.mem_flatMap, List.not_mem_nil, or_false]
  rintro (h | ⟨c, -, hc⟩ | h)
  · exact absurd h (by decide)
  · exact newline_notMem_escapeChar c hc
  · exact absurd h (by decide)

theorem newline_notMem_elemsChars {elems : List Json} (h : ∀ v ∈ elems, '\n' ∉ chars v) :
    '\n' ∉ elemsChars elems := by
  induction elems with
  | nil => exact List.not_mem_nil
  | cons v rest ih =>
    have hv := h v (List.mem_cons_self ..)
    cases rest with
    | nil => exact hv
    | cons w rest =>
      have hrest := ih fun u hu ↦ h u (List.mem_cons_of_mem v hu)
      simpa [elemsChars, hv] using hrest

theorem newline_notMem_membersChars {members : List (String × Json)}
    (h : ∀ m ∈ members, '\n' ∉ chars m.2) : '\n' ∉ membersChars members := by
  induction members with
  | nil => exact List.not_mem_nil
  | cons m rest ih =>
    obtain ⟨k, v⟩ := m
    have hk := newline_notMem_quote k
    have hv := h (k, v) (List.mem_cons_self ..)
    cases rest with
    | nil => simpa [membersChars, hk] using hv
    | cons m rest =>
      have hrest := ih fun u hu ↦ h u (List.mem_cons_of_mem _ hu)
      simpa [membersChars, hk, hv] using hrest

/-- **A written value is one line.** -/
theorem newline_notMem_chars {v : Json} (h : Exact v) : '\n' ∉ chars v := by
  have hdigits : ∀ n, '\n' ∉ Nat.toDigits 10 n := fun n hn ↦
    ne_of_mem_toDigits hn '\n' (by decide) rfl
  induction h with
  | null => decide
  | bool b => cases b <;> decide
  | nat n _ => exact hdigits n
  | negative n _ => simpa [chars] using hdigits (n + 1)
  | str s => exact newline_notMem_quote s
  | arr elems _ ih => simpa [chars] using newline_notMem_elemsChars ih
  | obj members _ ih => simpa [chars] using newline_notMem_membersChars ih

/-- **A written value reads back**, with a line feed after it. -/
theorem read_line {v : Json} (h : Exact v) : read .record (v.render ++ "\n") = some v := by
  have hplaces : (toTokens v).foldlM (Machine.step .record) {} = some (Machine.place {} v) :=
    places_toTokens h [] .value trivial
  have htext : (v.render ++ "\n").toList = chars v ++ ['\n'] := by
    rw [String.toList_append, render, String.toList_ofList]
    rfl
  rw [read, htext, tokens?_line h, Option.bind_some, hplaces]
  rfl

end Json

end DealersChoice
