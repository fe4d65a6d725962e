import SqlClause.Proofs.Wire.Items

/-!
Lists for types that are not of arrays.

Such a list is not reported but ends the run.  It may be the value itself, or an item at any depth
if nothing before it has failed (`Misplaced`), and there is no other way to end the run
(`encode_aborts_iff`).  A value whose lists all stand where the type has arrays, to the same depth,
is safe (`Shaped`).  This is so with any library that keeps the laws of single values and of arrays.
-/

namespace SqlClause
namespace Wire

variable {T : Type} [DecidableEq T] {lib : Library T} {v : Value} {type : T}

/-- Encoding comes to a list where no array is asked for. -/
inductive Misplaced (lib : Library T) : Value → T → Prop where
  | list {items : List Value} {type : T} (h : lib.member? type = none) :
    Misplaced lib (.list items) type
  /-- All items before it can be written. -/
  | item {front back : List Value} {x : Value} {type member : T}
    (hm : lib.member? type = some member) (hlength : (front ++ x :: back).length < lengthLimit)
    (hfront : ∀ y ∈ front, ∃ encoded, Enters (lib.encode y member) encoded)
    (h : Misplaced lib x member) : Misplaced lib (.list (front ++ x :: back)) type

/-- Lists stand only where the type has arrays. -/
inductive Shaped (lib : Library T) : Value → T → Prop where
  | plain {v : Value} {type : T} (h : v.isList = false) : Shaped lib v type
  | list {items : List Value} {type member : T} (hm : lib.member? type = some member)
    (h : ∀ x ∈ items, Shaped lib x member) : Shaped lib (.list items) type

theorem not_aborts_of_plain (hscalars : lib.ScalarLaws) (hlist : v.isList = false) {e : Failure}
    (he : lib.encode v type = .error e) : e.aborts = false := by
  by_cases hnull : v = .null
  · rw [hnull, Library.encode] at he
    cases he
  · exact (Library.answers_encode hscalars hlist hnull type).not_aborts he

theorem misplaced_of_aborts (hscalars : lib.ScalarLaws) (harrays : lib.ArrayLaws) {e : Failure}
    (he : lib.encode v type = .error e) (haborts : e.aborts = true) : Misplaced lib v type := by
  induction v using Value.list_induction generalizing type with
  | plain v hlist =>
    rw [not_aborts_of_plain hscalars hlist he] at haborts
    cases haborts
  | list items ih =>
    cases hm : lib.member? type with
    | none => exact .list hm
    | some member =>
      by_cases hlength : items.length < lengthLimit
      · rw [Library.encode_list_eq_error_iff harrays hm hlength] at he
        obtain ⟨front, x, back, rfl, hfront, hstops⟩ := he
        generalize hx : lib.encode x member = item at hstops
        cases hstops with
        | failure e => exact .item hm hlength hfront (ih x (by simp) hx)
        | length hfits => cases haborts
      · rw [Library.encode_list_of_too_long harrays hm hlength] at he
        cases he
        cases haborts

theorem Misplaced.aborts (harrays : lib.ArrayLaws) (h : Misplaced lib v type) :
    lib.encode v type = .error .notAnArray := by
  induction h with
  | list h => exact Library.encode_list_of_none harrays h
  | item hm hlength hfront h ih =>
    rw [Library.encode_list_eq_error_iff harrays hm hlength]
    exact ⟨_, _, _, rfl, hfront, ih ▸ .failure _⟩

theorem Shaped.not_misplaced (h : Shaped lib v type) : ¬Misplaced lib v type := by
  induction h with
  | plain hlist =>
    intro hmis
    cases hmis <;> cases hlist
  | list hm h ih =>
    intro hmis
    cases hmis with
    | list hnone =>
      rw [hm] at hnone
      cases hnone
    | item hm' hlength hfront hx =>
      obtain rfl := Option.some.inj (hm.symm.trans hm')
      exact ih _ (by simp) hx

theorem shaped_of_encode_eq_ok (harrays : lib.ArrayLaws) {encoded : Encoded}
    (h : lib.encode v type = .ok encoded) : Shaped lib v type := by
  induction v using Value.list_induction generalizing type encoded with
  | plain v hlist => exact .plain hlist
  | list items ih =>
    obtain ⟨member, encodings, hm, hfills, -⟩ := Library.exists_fills_of_encode_list harrays h
    refine .list hm fun x hx => ?_
    obtain ⟨encoded, hencode, -⟩ := Library.exists_fills_iff.mp ⟨encodings, hfills⟩ x hx
    exact ih x hx hencode

/-- Encoding ends the run exactly at a misplaced list, always in the same way, and in all other cases
gives a result or a failure that is reported.  A value of the shape of the type has no misplaced
list, and no other value can be written. -/
theorem encode_aborts_iff (hscalars : lib.ScalarLaws) (harrays : lib.ArrayLaws) (v : Value)
    (type : T) :
    ((∃ e, lib.encode v type = .error e ∧ e.aborts = true) ↔ Misplaced lib v type) ∧
      (Misplaced lib v type → lib.encode v type = .error .notAnArray) ∧
      (Shaped lib v type → ¬Misplaced lib v type) ∧
      (¬Shaped lib v type → ∀ encoded, lib.encode v type ≠ .ok encoded) := by
  have haborts : Misplaced lib v type → lib.encode v type = .error .notAnArray :=
    fun h => h.aborts harrays
  refine ⟨⟨?_, fun h => ⟨_, haborts h, rfl⟩⟩, haborts, Shaped.not_misplaced,
    fun hshape encoded h => hshape (shaped_of_encode_eq_ok harrays h)⟩
  rintro ⟨e, he, haborts⟩
  exact misplaced_of_aborts hscalars harrays he haborts

/-- A list in an array of numbers, behind a number. -/
theorem encode_aborts_iff_nestedList :
    postgres.ScalarLaws ∧ postgres.ArrayLaws ∧
      encode (.list [.int 1, .list [.int 2]]) (.builtin .int4Array) = .error .notAnArray ∧
      ∀ encoded, encode (.list [.int 1, .list [.int 2]]) (.builtin .int4Array) ≠ .ok encoded := by
  have hfirst : ∀ y ∈ [Value.int 1],
      ∃ encoded, Enters (postgres.encode y (.builtin .int4)) encoded := by
    intro y hy
    obtain rfl := List.mem_singleton.mp hy
    refine ⟨_, rfl, fun bytes hbytes => ?_⟩
    cases hbytes
    decide
  have hmis : Misplaced postgres (.list ([.int 1] ++ .list [.int 2] :: []))
      (.builtin .int4Array) := .item rfl (by decide) hfirst (.list rfl)
  obtain ⟨-, haborts, hshaped, hrefused⟩ := encode_aborts_iff scalarLaws_postgres
    arrayLaws_postgres (.list [.int 1, .list [.int 2]]) (.builtin .int4Array)
  exact ⟨scalarLaws_postgres, arrayLaws_postgres, haborts hmis,
    hrefused fun h => hshaped h hmis⟩

/-- A list of texts that is compared with a column of texts. -/
theorem textList_aborts :
    encode (.list [.text "a", .text "b"]) (.builtin .text) = .error .notAnArray ∧
      Failure.notAnArray.aborts = true :=
  ⟨rfl, rfl⟩

end Wire
end SqlClause
