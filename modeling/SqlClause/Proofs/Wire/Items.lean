import Mathlib.Data.List.Forall2
import SqlClause.Proofs.Wire.Contract
import SqlClause.Wire.Encoding

/-!
Encoding of values and of lists of values, by any library.

A value that is no list is written as bytes or refused with a failure that is reported, null apart,
which has no bytes (`answers_encode`).  A list is written item by item, so it is written if every
item is (`encode_list_eq_ok_iff`), and else the first item that cannot be written decides
(`encode_list_eq_error_iff`).
-/

namespace SqlClause

/-- Induction over the lists in a value. -/
@[elab_as_elim]
theorem Value.list_induction {motive : Value → Prop}
    (plain : ∀ v, v.isList = false → motive v)
    (list : ∀ items, (∀ x ∈ items, motive x) → motive (.list items)) (v : Value) : motive v := by
  cases v with
  | list items => exact list items fun x hx => Value.list_induction plain list x
  | _ => exact plain _ rfl
termination_by sizeOf v
decreasing_by
  have := List.sizeOf_lt_of_mem hx
  simp only [Value.list.sizeOf_spec]
  omega

namespace Wire

/-! ## Items of an array -/

def frame : Encoded → List UInt8
  | none => bigEndianInt 4 (-1)
  | some bytes => bigEndian 4 bytes.length ++ bytes

/-- The length of the bytes can be written. -/
def Encoded.Fits (encoded : Encoded) : Prop := ∀ bytes ∈ encoded, bytes.length < lengthLimit

/-- The item can be written, and its length too. -/
def Enters (item : Except Failure Encoded) (encoded : Encoded) : Prop :=
  item = .ok encoded ∧ encoded.Fits

/-- The item cannot stand in an array, and this is why. -/
inductive Stops : Except Failure Encoded → Failure → Prop where
  | failure (e : Failure) : Stops (.error e) e
  | length {encoded : Encoded} (h : ¬encoded.Fits) : Stops (.ok encoded) .tooLarge

section

variable {encoded : Encoded} {rest : List (Except Failure Encoded)}

theorem writeItem_of_fits (h : encoded.Fits) : writeItem encoded = .ok (frame encoded) := by
  cases encoded with
  | none => rfl
  | some bytes => exact if_pos (h bytes rfl)

theorem writeItem_of_not_fits (h : ¬encoded.Fits) : writeItem encoded = .error .tooLarge := by
  cases encoded with
  | none => exact absurd (fun _ hbytes => nomatch hbytes) h
  | some bytes =>
    refine if_neg fun hlength => h fun other hother => ?_
    rwa [← Option.some.inj hother]

theorem enters_or_stops (item : Except Failure Encoded) :
    (∃ encoded, Enters item encoded) ∨ ∃ e, Stops item e := by
  cases item with
  | error e => exact .inr ⟨e, .failure e⟩
  | ok encoded =>
    by_cases h : encoded.Fits
    · exact .inl ⟨encoded, rfl, h⟩
    · exact .inr ⟨_, .length h⟩

theorem writeItems_of_enters {item : Except Failure Encoded} (h : Enters item encoded) :
    writeItems (item :: rest)
      = (writeItems rest).map fun (hasNull, others) =>
          (encoded.isNone || hasNull, frame encoded ++ others) := by
  obtain ⟨rfl, hfits⟩ := h
  show (writeItem encoded).bind _ = _
  rw [writeItem_of_fits hfits]
  cases writeItems rest with
  | error e => rfl
  | ok r => rfl

theorem writeItems_of_stops {item : Except Failure Encoded} {e : Failure} (h : Stops item e) :
    writeItems (item :: rest) = .error e := by
  cases h with
  | failure e => rfl
  | length hfits =>
    show (writeItem _).bind _ = _
    rw [writeItem_of_not_fits hfits]
    rfl

theorem writeItems_cons_eq_ok_iff {item : Except Failure Encoded} {r : Bool × List UInt8} :
    writeItems (item :: rest) = .ok r ↔
      ∃ encoded others, Enters item encoded ∧ writeItems rest = .ok others ∧
        r = (encoded.isNone || others.1, frame encoded ++ others.2) := by
  constructor
  · intro h
    rcases enters_or_stops item with ⟨encoded, hitem⟩ | ⟨e, hitem⟩
    · rw [writeItems_of_enters hitem] at h
      cases hrest : writeItems rest with
      | error e =>
        rw [hrest] at h
        cases h
      | ok others =>
        rw [hrest] at h
        exact ⟨encoded, others, hitem, rfl, (Except.ok.inj h).symm⟩
    · rw [writeItems_of_stops hitem] at h
      cases h
  · rintro ⟨encoded, others, hitem, hrest, rfl⟩
    rw [writeItems_of_enters hitem, hrest]
    rfl

theorem writeItems_cons_eq_error_iff {item : Except Failure Encoded} {e : Failure} :
    writeItems (item :: rest) = .error e ↔
      Stops item e ∨ (∃ encoded, Enters item encoded) ∧ writeItems rest = .error e := by
  constructor
  · intro h
    rcases enters_or_stops item with ⟨encoded, hitem⟩ | ⟨e', hitem⟩
    · rw [writeItems_of_enters hitem] at h
      cases hrest : writeItems rest with
      | error e' =>
        rw [hrest] at h
        exact .inr ⟨⟨encoded, hitem⟩, congrArg _ (Except.error.inj h)⟩
      | ok others =>
        rw [hrest] at h
        cases h
    · rw [writeItems_of_stops hitem] at h
      exact .inl (Except.error.inj h ▸ hitem)
  · rintro (hitem | ⟨⟨encoded, hitem⟩, hrest⟩)
    · exact writeItems_of_stops hitem
    · rw [writeItems_of_enters hitem, hrest]
      rfl

end

section

variable {α : Type} {write : α → Except Failure Encoded} {items : List α}

/-- Items are written if every one is, one behind the other. -/
theorem writeItems_map_eq_ok_iff {r : Bool × List UInt8} :
    writeItems (items.map write) = .ok r ↔
      ∃ encodings, List.Forall₂ (fun x encoded => Enters (write x) encoded) items encodings ∧
        r = (encodings.any Option.isNone, encodings.flatMap frame) := by
  induction items generalizing r with
  | nil =>
    constructor
    · intro h
      exact ⟨[], .nil, (Except.ok.inj h).symm⟩
    · rintro ⟨encodings, hencodings, rfl⟩
      cases hencodings
      rfl
  | cons x rest ih =>
    rw [List.map_cons, writeItems_cons_eq_ok_iff]
    constructor
    · rintro ⟨encoded, others, hx, hrest, rfl⟩
      obtain ⟨encodings, hencodings, rfl⟩ := ih.mp hrest
      exact ⟨encoded :: encodings, .cons hx hencodings, rfl⟩
    · rintro ⟨encodings, hencodings, rfl⟩
      cases hencodings with
      | cons hx hrest => exact ⟨_, _, hx, ih.mpr ⟨_, hrest, rfl⟩, rfl⟩

/-- The failure of items is that of the first one that cannot be written. -/
theorem writeItems_map_eq_error_iff {e : Failure} :
    writeItems (items.map write) = .error e ↔
      ∃ front x back, items = front ++ x :: back ∧
        (∀ y ∈ front, ∃ encoded, Enters (write y) encoded) ∧ Stops (write x) e := by
  induction items with
  | nil =>
    constructor
    · intro h
      cases h
    · rintro ⟨front, x, back, hitems, -⟩
      cases front <;> cases hitems
  | cons x rest ih =>
    rw [List.map_cons, writeItems_cons_eq_error_iff]
    constructor
    · rintro (hx | ⟨hx, hrest⟩)
      · exact ⟨[], x, rest, rfl, List.forall_mem_nil _, hx⟩
      · obtain ⟨front, y, back, rfl, hfront, hy⟩ := ih.mp hrest
        exact ⟨x :: front, y, back, rfl, List.forall_mem_cons.mpr ⟨hx, hfront⟩, hy⟩
    · rintro ⟨front, y, back, hitems, hfront, hy⟩
      cases front with
      | nil =>
        obtain ⟨rfl, rfl⟩ := List.cons.inj hitems
        exact .inl hy
      | cons z front =>
        obtain ⟨rfl, rfl⟩ := List.cons.inj hitems
        obtain ⟨hx, hfront⟩ := List.forall_mem_cons.mp hfront
        exact .inr ⟨hx, ih.mpr ⟨front, y, back, rfl, hfront, hy⟩⟩

end

/-! ## Values -/

namespace Library

variable {T : Type} [DecidableEq T] {lib : Library T}

section

variable (hscalars : lib.ScalarLaws)

include hscalars

theorem answers_encodeInt (n : Int64) (type : T) : Answers (lib.encodeInt n type) := by
  unfold encodeInt
  split
  · split
    · exact hscalars.answers _ type
    · exact .failure rfl
  · split
    · split
      · exact hscalars.answers _ type
      · exact .failure rfl
    · exact hscalars.answers _ type

theorem answers_encodeUInt (n : UInt64) (type : T) : Answers (lib.encodeUInt n type) := by
  unfold encodeUInt
  split
  · exact answers_encodeInt hscalars _ type
  · exact .failure rfl

theorem answers_encodeFloat (x : Number.Binary64) (type : T) :
    Answers (lib.encodeFloat x type) := by
  unfold encodeFloat
  split
  · exact hscalars.answers _ type
  · exact hscalars.answers _ type

theorem answers_encode {v : Value} (hlist : v.isList = false) (hnull : v ≠ .null) (type : T) :
    Answers (lib.encode v type) := by
  cases v with
  | null => exact absurd rfl hnull
  | list items => cases hlist
  | int n => exact answers_encodeInt hscalars n type
  | uint n => exact answers_encodeUInt hscalars n type
  | float x => exact answers_encodeFloat hscalars x type
  | _ => exact hscalars.answers _ type

end

variable {items : List Value} {member type : T}

/-- Each item enters the array in the place of its bytes. -/
abbrev Fills (lib : Library T) (member : T) : List Value → List Encoded → Prop :=
  List.Forall₂ fun x encoded => Enters (lib.encode x member) encoded

theorem exists_fills_iff :
    (∃ encodings, lib.Fills member items encodings) ↔
      ∀ x ∈ items, ∃ encoded, Enters (lib.encode x member) encoded := by
  induction items with
  | nil => exact ⟨fun _ => List.forall_mem_nil _, fun _ => ⟨[], .nil⟩⟩
  | cons x rest ih =>
    rw [List.forall_mem_cons, ← ih]
    constructor
    · rintro ⟨encodings, hencodings⟩
      cases hencodings with
      | cons hx hrest => exact ⟨⟨_, hx⟩, ⟨_, hrest⟩⟩
    · rintro ⟨⟨encoded, hx⟩, ⟨encodings, hrest⟩⟩
      exact ⟨encoded :: encodings, .cons hx hrest⟩

theorem fits_of_fills {encodings : List Encoded} (h : lib.Fills member items encodings) :
    ∀ encoded ∈ encodings, encoded.Fits := by
  induction h with
  | nil => exact List.forall_mem_nil _
  | cons hx h ih => exact List.forall_mem_cons.mpr ⟨hx.2, ih⟩

theorem writers_eq_map (items : List Value) : lib.writers items = items.map lib.encode := by
  induction items with
  | nil => rfl
  | cons x rest ih => rw [writers, ih, List.map_cons]

theorem encode_list (items : List Value) (type : T) :
    lib.encode (.list items) type = lib.list (items.map lib.encode) type := by
  rw [encode, writers_eq_map]

variable (harrays : lib.ArrayLaws)

include harrays

theorem encode_list_of_none (h : lib.member? type = none) :
    lib.encode (.list items) type = .error .notAnArray := by
  rw [encode_list, harrays.refused h]

theorem encode_list_eq_writeArray (hm : lib.member? type = some member) :
    lib.encode (.list items) type
      = writeArray (lib.number member) (lib.lowerBound type)
          (items.map fun x => lib.encode x member) := by
  rw [encode_list, harrays.written hm, List.map_map]
  rfl

theorem encode_list_of_too_long (hm : lib.member? type = some member)
    (hlength : ¬items.length < lengthLimit) :
    lib.encode (.list items) type = .error .tooLarge := by
  rw [encode_list_eq_writeArray harrays hm]
  exact if_neg (by rwa [List.length_map])

theorem encode_list_eq_map (hm : lib.member? type = some member)
    (hlength : items.length < lengthLimit) :
    lib.encode (.list items) type
      = (writeItems (items.map fun x => lib.encode x member)).map fun (hasNull, bytes) =>
          some (arrayHeader hasNull (lib.number member) items.length (lib.lowerBound type)
            ++ bytes) := by
  rw [encode_list_eq_writeArray harrays hm, writeArray, List.length_map, if_pos hlength]
  cases writeItems (items.map fun x => lib.encode x member) with
  | error e => rfl
  | ok r => rfl

theorem encode_list_eq_ok_iff (hm : lib.member? type = some member)
    (hlength : items.length < lengthLimit) {encoded : Encoded} :
    lib.encode (.list items) type = .ok encoded ↔
      ∃ encodings, lib.Fills member items encodings ∧
        encoded = some (arrayHeader (encodings.any Option.isNone) (lib.number member) items.length
          (lib.lowerBound type) ++ encodings.flatMap frame) := by
  rw [encode_list_eq_map harrays hm hlength]
  constructor
  · intro h
    cases hitems : writeItems (items.map fun x => lib.encode x member) with
    | error e =>
      rw [hitems] at h
      cases h
    | ok r =>
      obtain ⟨encodings, hencodings, rfl⟩ := writeItems_map_eq_ok_iff.mp hitems
      rw [hitems] at h
      exact ⟨encodings, hencodings, (Except.ok.inj h).symm⟩
  · rintro ⟨encodings, hencodings, rfl⟩
    rw [writeItems_map_eq_ok_iff.mpr ⟨encodings, hencodings, rfl⟩]
    rfl

theorem encode_list_eq_error_iff (hm : lib.member? type = some member)
    (hlength : items.length < lengthLimit) {e : Failure} :
    lib.encode (.list items) type = .error e ↔
      ∃ front x back, items = front ++ x :: back ∧
        (∀ y ∈ front, ∃ encoded, Enters (lib.encode y member) encoded) ∧
          Stops (lib.encode x member) e := by
  rw [encode_list_eq_map harrays hm hlength, ← writeItems_map_eq_error_iff]
  cases writeItems (items.map fun x => lib.encode x member) with
  | error e' => simp [Except.map]
  | ok r => simp [Except.map]

/-- A list that is written has a type of arrays, and all of its items are in the array. -/
theorem exists_fills_of_encode_list {encoded : Encoded}
    (h : lib.encode (.list items) type = .ok encoded) :
    ∃ member encodings, lib.member? type = some member ∧ lib.Fills member items encodings ∧
      encoded ≠ none := by
  cases hm : lib.member? type with
  | none =>
    rw [encode_list_of_none harrays hm] at h
    cases h
  | some member =>
    by_cases hlength : items.length < lengthLimit
    · obtain ⟨encodings, hencodings, rfl⟩ := (encode_list_eq_ok_iff harrays hm hlength).mp h
      exact ⟨member, encodings, rfl, hencodings, nofun⟩
    · rw [encode_list_of_too_long harrays hm hlength] at h
      cases h

end Library
end Wire
end SqlClause
