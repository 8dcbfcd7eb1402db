import DealersChoice.Json.Decode
import DealersChoice.Proofs.Json.Reading

/-!
# Decoding what was encoded

An encoding of a value is exact and decodes to that value (`Decodes`). Each combinator of decoding
has the encoding that goes with it, and what it decodes is decided by its parts; a record with
different field names gives every field its value (`fields?_obj`).
-/

namespace DealersChoice

namespace Json

variable {α β : Type}

theorem mapM_eq_some_map {f : α → Option β} {g : α → β} {l : List α}
    (h : ∀ a ∈ l, f a = some (g a)) : l.mapM f = some (l.map g) := by
  induction l with
  | nil => rfl
  | cons a l ih =>
    rw [List.mapM_cons, h a (List.mem_cons_self ..), Option.bind_eq_bind, Option.bind_some,
      ih fun b hb ↦ h b (List.mem_cons_of_mem a hb)]
    rfl

/-- **A tree is an exact encoding of a value.** -/
structure Decodes (decode : Json → Option α) (v : Json) (a : α) : Prop where
  exact : Exact v
  decode_eq : decode v = some a

namespace Decodes

theorem nat {n bound : Nat} (h : n ≤ bound) (hbound : bound ≤ maxNat) :
    Decodes (nat? bound) (.nat n) n :=
  ⟨.nat n (h.trans hbound), if_pos h⟩

theorem byte {n : Nat} (h : n ≤ 0xFF) : Decodes byte? (.nat n) n :=
  nat h (by decide)

theorem chips {n : Nat} (h : n ≤ 0xFFFFFFFF) : Decodes chips? (.nat n) n :=
  nat h (by decide)

theorem count {n : Nat} (h : n ≤ maxNat) : Decodes count? (.nat n) n :=
  nat h (Nat.le_refl _)

theorem str (s : String) : Decodes str? (.str s) s := ⟨.str s, rfl⟩

theorem bool (b : Bool) : Decodes bool? (.bool b) b := ⟨.bool b, rfl⟩

variable {decode : Json → Option α} {encode : α → Json}

theorem list {l : List α} (h : ∀ a ∈ l, Decodes decode (encode a) a) :
    Decodes (list? decode) (ofList encode l) l := by
  refine ⟨.arr _ fun v hv ↦ ?_, ?_⟩
  · obtain ⟨a, ha, rfl⟩ := List.mem_map.1 hv
    exact (h a ha).exact
  · have hall := mapM_eq_some_map (f := decode ∘ encode) fun a ha ↦ (h a ha).decode_eq
    rw [ofList, list?, List.mapM_map, hall, List.map_id']

theorem required {v : Json} {a : α} (h : Decodes decode v a) :
    Json.required decode (some v) = some a := h.decode_eq

theorem orElse {v : Json} {a default : α} (h : Decodes decode v a) :
    Json.orElse decode default (some v) = some a := h.decode_eq

/-- A field that may be absent, encoded with `null` for an absent value. -/
theorem orNone {o : Option α} (hnull : ∀ a, encode a ≠ .null)
    (h : ∀ a ∈ o, Decodes decode (encode a) a) :
    Exact (ofOption encode o) ∧ Json.orNone decode (some (ofOption encode o)) = some o := by
  cases o with
  | none => exact ⟨.null, rfl⟩
  | some a =>
    have ha := h a rfl
    refine ⟨ha.exact, ?_⟩
    rw [ofOption, Json.orNone, optional?, ha.decode_eq, Option.map_some]
    exact fun heq ↦ hnull a heq

/-- A choice without data is its name. -/
theorem oneOf {name : α → String} {values : List α} (hnames : (values.map name).Nodup) {a : α}
    (ha : a ∈ values) :
    Decodes (oneOf? (values.map fun b ↦ (name b, b))) (.str (name a)) a := by
  refine ⟨.str _, ?_⟩
  have hfind : values.find? (name · == name a) = some a := by
    induction values with
    | nil => simp at ha
    | cons b values ih =>
      obtain ⟨hb, hvalues⟩ := List.nodup_cons.1 hnames
      rw [List.find?_cons]
      rcases List.mem_cons.1 ha with rfl | ha
      · rw [beq_self_eq_true]
      · have hne : name b ≠ name a := fun heq ↦ hb (heq ▸ List.mem_map_of_mem ha)
        rw [beq_false_of_ne hne, ih hvalues ha]
  simpa [oneOf?, choice?, Function.comp_def] using hfind

end Decodes

/-! ### Records -/

theorem occurrences_of_mem {members : List (String × Json)} (hnames : (members.map (·.1)).Nodup)
    {m : String × Json} (hm : m ∈ members) : occurrences members m.1 = [m.2] := by
  have hfilter : members.filter (·.1 == m.1) = [m] := by
    induction members with
    | nil => simp at hm
    | cons n members ih =>
      rw [List.map_cons, List.nodup_cons] at hnames
      obtain ⟨hn, hmembers⟩ := hnames
      rcases List.mem_cons.1 hm with rfl | hm
      · have hrest : members.filter (·.1 == m.1) = [] := List.filter_eq_nil_iff.2 fun k hk heq ↦
          hn (List.mem_map.2 ⟨k, hk, eq_of_beq heq⟩)
        rw [List.filter_cons, if_pos (beq_self_eq_true _), hrest]
      · have hne : n.1 ≠ m.1 := fun heq ↦ hn (List.mem_map.2 ⟨m, hm, heq.symm⟩)
        rw [List.filter_cons, if_neg (by simpa using hne), ih hmembers hm]
  rw [occurrences, hfilter]
  rfl

/-- **Every field has its value**, if the names are different. -/
theorem fields?_obj {members : List (String × Json)} {names : List String}
    (hmembers : members.map (·.1) = names) (hnames : names.Nodup) (defaulted : Nat) :
    fields? names defaulted (.obj members) = some (members.map fun m ↦ some m.2) := by
  subst hmembers
  rw [fields?, List.mapM_map]
  refine mapM_eq_some_map fun m hm ↦ ?_
  rw [Function.comp_apply, occurrences_of_mem hnames hm]

/-- A record, if the fields' values are what its decoder makes of them. -/
theorem Decodes.record {decode : Json → Option α} {names : List String} {defaulted : Nat}
    {build : List (Option Json) → Option α} {members : List (String × Json)} {a : α}
    (hdecode : ∀ v, decode v = (fields? names defaulted v).bind build)
    (hmembers : members.map (·.1) = names) (hnames : names.Nodup)
    (hexact : ∀ m ∈ members, Exact m.2) (hbuild : build (members.map fun m ↦ some m.2) = some a) :
    Decodes decode (.obj members) a :=
  ⟨.obj members hexact, by
    rw [hdecode, fields?_obj hmembers hnames, Option.bind_some, hbuild]⟩

end Json

end DealersChoice
