import Mathlib.Data.List.DropRight
import SqlClause.Proofs.Placeholder.Lookback
import SqlClause.Proofs.Placeholder.Segments

/-!
Numbering as filling of gaps.

The segments of a clause leave a gap for each value.  What goes into a gap follows from the two
segments beside it and from the value (`filling`), so the gaps can be filled one by one, and only
then are the params numbered from left to right (`reference`).  The scan reads the clause once and
looks at what it has already written, so it could mistake filled-in text for text of the clause.
It never does, because nothing that goes into a gap ends in a character of a negated membership test
(`Sealed`), and `number_eq_reference` says that both agree on every clause.
-/

namespace SqlClause
namespace Placeholder

/-- The segments with their gaps filled.  `used` says that the first character of the segment is the
closing bracket of a test that has given way. -/
def assemble : Bool → List Char → List (Value × List Char) → List Slot
  | used, s, [] => Slot.chars (s.drop used.toNat)
  | used, s, (v, t) :: rest =>
    match filling s t v with
    | .slots filled => Slot.chars (s.drop used.toNat) ++ filled ++ assemble false t rest
    | .always =>
      Slot.chars
          ((s.rdrop "NOT IN (".toList.length).drop used.toNat ++ "<> ALL('\x7b\x7d')".toList)
        ++ assemble true t rest

/-- Numbering by gaps.  There must be one for each value. -/
def reference (sql : String) (values : List Value) (offset : Nat) : Except ClauseError Numbered :=
  let segments := cut sql
  if segments.2.length = values.length then
    let slots := assemble false segments.1 (values.zip segments.2)
    .ok ⟨String.ofList (Slot.render (offset + 1) slots), Slot.params slots⟩
  else .error (.paramMismatch segments.2.length values.length)

/-! ## Agreement -/

theorem filling_append_joined (before t : List Char) (others : List (List Char)) (v : Value) :
    filling before (t ++ joined others) v = filling before t v := by
  refine filling_append_right ?_ before v
  cases others with
  | nil => exact fun h => by cases h
  | cons s others => exact fun h => by cases h

/-- The scan from a segment on.  `tail` is what the scan still has of the segment, which is all of
it unless its closing bracket has been used up. -/
theorem scan_joined {others : List (List Char)} : ∀ {s tail : List Char} {used : Bool}
    {values : List Value} {d : Draft}, Segmented false tail others →
    values.length = others.length → d.Sealed → s = List.replicate used.toNat ')' ++ tail →
    scan false d values (tail ++ joined others)
      = d.put (assemble used s (values.zip others)) := by
  induction others with
  | nil =>
    intro s tail used values d hseg hlen _ hs
    rw [scan_plain hseg.count_head, List.zip_nil_right, assemble, Draft.put_chars, hs,
      List.drop_left' List.length_replicate]
    rfl
  | cons t others ih =>
    intro s tail used values d hseg hlen hd hs
    obtain ⟨hcount, hout, ht⟩ := hseg
    cases values with
    | nil => cases hlen
    | cons v values =>
      have hlen' : values.length = others.length := Nat.succ.inj hlen
      have htail : s.drop used.toNat = tail := by
        rw [hs, List.drop_left' List.length_replicate]
      have hused : ∀ c ∈ (List.replicate used.toNat ')').getLast?, c ∉ Draft.notIn := by
        intro c hc
        cases used with
        | false => cases hc
        | true => cases hc; decide
      have hdraft : ∀ c ∈ d.written.reverse.getLast?, c ∉ Draft.notIn := by
        intro c hc
        exact hd c (by rwa [List.getLast?_reverse] at hc)
      -- The draft and the bracket that has been used up are both sealed off from the segment.
      have hfill : filling (d.write tail).written.reverse (t ++ joined others) v
          = filling s t v := by
        rw [d.reverse_written_write, hs, filling_append_joined, (Closed.of_getLast? hused).filling_append,
          (Closed.of_getLast? hdraft).filling_append]
      rw [joined_cons, scan_plain hcount, hout, scan_mark hfill, List.zip_cons_cons, assemble,
        htail]
      cases hf : filling s t v with
      | slots filled =>
        rw [Draft.put_append, Draft.put_append, Draft.put_chars]
        exact ih ht hlen' (sealed_put_filling hf _) rfl
      | always =>
        obtain ⟨hn, hhead⟩ := of_filling_eq_always hf
        obtain ⟨after, rfl⟩ := List.head?_eq_some_iff.mp hhead
        obtain ⟨front, rfl⟩ := suffix_of_suffix_append (hs ▸ hn) hused
        have hfront : (s.rdrop Draft.notIn.length).drop used.toNat = front := by
          rw [hs, ← List.append_assoc, List.rdrop_append_length,
            List.drop_left' List.length_replicate]
        have hsealed : (d.write (front ++ Draft.always)).Sealed :=
          d.sealed_write_append front (by decide) (fun c hc => by cases hc; decide)
        simp only [toList_notIn, toList_always]
        rw [hfront, Draft.put_append, Draft.put_chars, Draft.settle_always]
        exact ih ht.of_bracket hlen' hsealed rfl

/-- Any segments that make up the clause will do. -/
theorem number_of_segmented {sql : String} {s : List Char} {others : List (List Char)}
    {values : List Value} (h : Segmented false s others) (hsql : s ++ joined others = sql.toList)
    (hlen : values.length = others.length) (offset : Nat) :
    let slots := assemble false s (values.zip others)
    number sql values offset
      = .ok ⟨String.ofList (Slot.render (offset + 1) slots), Slot.params slots⟩ := by
  have hsealed : (⟨[], [], offset + 1⟩ : Draft).Sealed := fun c hc => by cases hc
  have hcount : count sql = values.length := by
    rw [count, ← hsql, countFrom_joined h, hlen]
  exact number_of_scan hcount (hsql ▸ scan_joined h hlen hsealed rfl)

/-- Numbering fills the gaps that the placeholders leave and numbers the params from left to right.
It fails if there are not as many values as placeholders and only then. -/
theorem number_eq_reference (sql : String) (values : List Value) (offset : Nat) :
    number sql values offset = reference sql values offset := by
  unfold reference
  by_cases h : (cut sql).2.length = values.length
  · have hsealed : (⟨[], [], offset + 1⟩ : Draft).Sealed := fun c hc => by cases hc
    have hscan : scan false ⟨[], [], offset + 1⟩ values ((cut sql).1 ++ joined (cut sql).2)
        = (⟨[], [], offset + 1⟩ : Draft).put
          (assemble false (cut sql).1 (values.zip (cut sql).2)) :=
      scan_joined (cut_segmented sql) h.symm hsealed rfl
    rw [joined_cut] at hscan
    rw [if_pos h]
    exact number_of_scan ((count_eq_length_cut sql).trans h) hscan
  · rw [if_neg h, number, count_eq_length_cut, if_neg h]

end Placeholder
end SqlClause
