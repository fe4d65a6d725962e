import Mathlib.Data.List.Infix
import SqlClause.Proofs.Placeholder.Lookback

/-!
Two clauses numbered one after the other.

A scan of two texts is a scan of the second that goes on where the scan of the first has come to
(`scan_append`).  What has been written by then can count for the second text in one way only, which
is that a gap looks back into it.  No gap can look past a connective between blanks, because `AND`
and `OR` end in no letter that stands before a blank in `NOT IN (` (`closed_separator`).  So the second
text is numbered as if it stood alone, from the number that the first one has come to
(`number_joined`).
-/

namespace SqlClause
namespace Placeholder

/-- A first text with as many placeholders as values takes just these values. -/
theorem scan_append {inLiteral : Bool} {d : Draft} {values : List Value} {a : List Char}
    (hcount : countFrom inLiteral a = values.length) {b : List Char} (hb : b.head? ≠ some ')')
    (others : List Value) :
    scan inLiteral d (values ++ others) (a ++ b)
      = scan (literalAfter inLiteral a) (scan inLiteral d values a) others b := by
  induction inLiteral, d, values, a using scan_induction with
  | nil inLiteral d values =>
    obtain rfl : values = [] := List.eq_nil_of_length_eq_zero hcount.symm
    rfl
  | plain inLiteral d values c a hc ih =>
    rw [countFrom_cons hc] at hcount
    rw [List.cons_append, scan_cons hc, scan_cons hc, ih hcount]
    rfl
  | unbound d a ih => cases hcount
  | bound d v values a f hf ih =>
    have hrest : countFrom false a = values.length := Nat.succ.inj hcount
    have hfill : filling d.written.reverse (a ++ b) v = f :=
      (filling_append_right hb d.written.reverse v).trans hf
    rw [List.cons_append, List.cons_append, scan_mark hfill, scan_mark hf]
    cases f with
    | slots filled => exact ih hrest
    | always =>
      obtain ⟨a, rfl⟩ := List.head?_eq_some_iff.mp (of_filling_eq_always hf).2
      exact ih hrest

/-! ## Behind a closed text -/

namespace Draft

/-- What the first draft holds, put behind the second one. -/
def onto (e d : Draft) : Draft := ⟨e.written ++ d.written, e.params ++ d.params, e.next⟩

theorem reverse_written_onto (e d : Draft) :
    (e.onto d).written.reverse = d.written.reverse ++ e.written.reverse := List.reverse_append

theorem put_onto (e d : Draft) (slots : List Slot) :
    (e.onto d).put slots = (e.put slots).onto d := by
  rw [put_eq_append, put_eq_append]
  simp only [append, onto, List.append_assoc]

theorem settle_onto {e : Draft} {after : List Char} {v : Value} {f : Filling}
    (h : filling e.written.reverse after v = f) (d : Draft) :
    (e.onto d).settle f = (e.settle f).onto d := by
  cases f with
  | slots filled => exact e.put_onto d filled
  | always =>
    have hlength : notIn.length ≤ e.written.length := by
      have hsuffix := (of_filling_eq_always h).1.length_le
      rwa [List.length_reverse] at hsuffix
    have hdrop : (e.written ++ d.written).drop notIn.length
        = e.written.drop notIn.length ++ d.written := List.drop_append_of_le_length hlength
    show Draft.mk (always.reverse ++ (e.written ++ d.written).drop notIn.length) _ _ = _
    rw [hdrop, ← List.append_assoc]
    rfl

end Draft

theorem scan_onto {d : Draft} (hd : Closed d.written.reverse) (inLiteral : Bool) (e : Draft)
    (values : List Value) (text : List Char) :
    scan inLiteral (e.onto d) values text = (scan inLiteral e values text).onto d := by
  induction inLiteral, e, values, text using scan_induction with
  | nil inLiteral e values => rfl
  | plain inLiteral e values c rest hc ih =>
    rw [scan_cons hc, scan_cons hc]
    exact ih
  | unbound e rest ih => exact ih
  | bound e v values rest f hf ih =>
    have hfill : filling (e.onto d).written.reverse rest v = f := by
      rw [e.reverse_written_onto, hd.filling_append, hf]
    rw [scan_mark hfill, scan_mark hf, Draft.settle_onto hf]
    exact ih

/-! ## Connectives between clauses -/

section

variable {sep : String} (hsep : sep = " AND " ∨ sep = " OR ")

include hsep

theorem closed_separator (front : List Char) : Closed (front ++ sep.toList) := by
  have hlast : sep.toList.getLast? = some ' ' := by
    rcases hsep with rfl | rfl <;> decide
  have hapart : ∀ s ∈ Draft.notIn.inits, s ≠ [] → ¬s <:+ sep.toList ∧ ¬sep.toList <:+ s := by
    rcases hsep with rfl | rfl <;> decide
  refine ⟨?_, fun s hne hs hsuffix => ?_⟩
  · rw [List.getLast?_append, hlast]
    simp
  · obtain ⟨hshort, hlong⟩ := hapart s ((List.mem_inits s _).mpr hs) hne
    rcases List.suffix_or_suffix_of_suffix hsuffix (List.suffix_append front _) with h | h
    · exact hshort h
    · exact hlong h

theorem countFrom_separator : countFrom false sep.toList = 0 := by
  rcases hsep with rfl | rfl <;> decide

theorem literalAfter_separator : literalAfter false sep.toList = false := by
  rcases hsep with rfl | rfl <;> decide

theorem head?_separator (b : List Char) : (sep.toList ++ b).head? ≠ some ')' := by
  rcases hsep with rfl | rfl <;> simp

theorem count_joined {a : String} (heven : Even (a.toList.count quote)) (b : String) :
    count (a ++ sep ++ b) = count a + count b := by
  have hout : literalAfter false a.toList = false := (literalAfter_eq_false_iff _).mpr heven
  rw [count, String.toList_append, String.toList_append, countFrom_append, countFrom_append,
    literalAfter_append, hout, literalAfter_separator hsep, countFrom_separator hsep]
  rfl

/-- Behind a connective a scan goes on as if nothing had been written. -/
theorem scan_separator (d : Draft) (values : List Value) (b : List Char) :
    scan false d values (sep.toList ++ b)
      = (scan false ⟨[], [], d.next⟩ values b).onto (d.write sep.toList) := by
  have hclosed : Closed (d.write sep.toList).written.reverse := by
    rw [d.reverse_written_write]
    exact closed_separator hsep d.written.reverse
  rw [scan_plain (countFrom_separator hsep), literalAfter_separator hsep, ← scan_onto hclosed]
  rfl

end

/-! ## Numbers -/

/-- The numbers of the params go up from the offset without a gap. -/
def Draft.Counts (d : Draft) (offset : Nat) : Prop := d.next = offset + d.params.length + 1

theorem Draft.Counts.settle {d : Draft} {offset : Nat} (h : d.Counts offset) (f : Filling) :
    (d.settle f).Counts offset := by
  cases f with
  | slots filled =>
    unfold Counts at h ⊢
    simp only [Draft.settle, put_eq_append, append, List.length_append, List.length_reverse, h]
    omega
  | always => exact h

theorem Draft.Counts.scan {offset : Nat} {d : Draft} (h : d.Counts offset) (inLiteral : Bool)
    (values : List Value) (text : List Char) :
    (scan inLiteral d values text).Counts offset := by
  induction inLiteral, d, values, text using scan_induction with
  | nil inLiteral d values => exact h
  | plain inLiteral d values c rest hc ih =>
    rw [scan_cons hc]
    exact ih h
  | unbound d rest ih => exact ih h
  | bound d v values rest f hf ih =>
    rw [scan_mark hf]
    exact ih (h.settle f)

/-- Two clauses with a connective between them are numbered one after the other, the second one from
the number that the first has come to, if the first leaves no literal open. -/
theorem number_joined (a b : String) (va vb : List Value) (offset : Nat) (ra rb : Numbered)
    {sep : String} (hsep : sep = " AND " ∨ sep = " OR ") (heven : Even (a.toList.count quote))
    (ha : number a va offset = .ok ra)
    (hb : number b vb (offset + ra.params.length) = .ok rb) :
    number (a ++ sep ++ b) (va ++ vb) offset
      = .ok ⟨ra.sql ++ sep ++ rb.sql, ra.params ++ rb.params⟩ := by
  obtain ⟨hcounta, hra⟩ := of_number_eq_ok ha
  obtain ⟨hcountb, hrb⟩ := of_number_eq_ok hb
  have hout : literalAfter false a.toList = false := (literalAfter_eq_false_iff _).mpr heven
  have hcount : count (a ++ sep ++ b) = (va ++ vb).length := by
    rw [count_joined hsep heven, hcounta, hcountb, List.length_append]
  let front := scan false ⟨[], [], offset + 1⟩ va a.toList
  let back := scan false ⟨[], [], front.next⟩ vb b.toList
  have hscan : scan false ⟨[], [], offset + 1⟩ (va ++ vb) (a ++ sep ++ b).toList
      = back.onto (front.write sep.toList) := by
    rw [String.toList_append, String.toList_append, List.append_assoc,
      scan_append hcounta (head?_separator hsep b.toList), hout]
    exact scan_separator hsep front vb b.toList
  have hnext : front.next = offset + ra.params.length + 1 := by
    have hstart : (⟨[], [], offset + 1⟩ : Draft).Counts offset := rfl
    have hcounts : front.Counts offset := hstart.scan false va a.toList
    rw [hcounts, hra, List.length_reverse]
  have hback : rb = ⟨String.ofList back.written.reverse, back.params.reverse⟩ := by
    rw [hrb, ← hnext]
  have hwritten : String.ofList (back.onto (front.write sep.toList)).written.reverse
      = ra.sql ++ sep ++ rb.sql := by
    rw [back.reverse_written_onto, front.reverse_written_write, hra, hback, String.ofList_append,
      String.ofList_append, String.ofList_toList]
  have hparams : (back.onto (front.write sep.toList)).params.reverse
      = ra.params ++ rb.params := by
    rw [hra, hback]
    exact List.reverse_append
  rw [number_eq_scan hcount, hscan, ← hwritten, ← hparams]

/-- The end of the first clause and the start of the second read like a negated test. -/
theorem number_joined_negatedTest :
    Even ("a NOT IN (?) AND b IN (?) OR NOT".toList.count quote) ∧
      number ("a NOT IN (?) AND b IN (?) OR NOT" ++ " OR " ++ "IN (?)")
          [.list [], .list [.null, .bool true], .list []] 2
        = .ok ⟨"a <> ALL('\x7b\x7d') AND b IN ($3, $4) OR NOT OR IN (NULL)",
          [.null, .bool true]⟩ := by
  have heven : Even ("a NOT IN (?) AND b IN (?) OR NOT".toList.count quote) := by decide
  have hfront : scan false ⟨[], [], 2 + 1⟩ [.list [], .list [.null, .bool true]]
        "a NOT IN (?) AND b IN (?) OR NOT".toList
      = ⟨"a <> ALL('\x7b\x7d') AND b IN ($3, $4) OR NOT".toList.reverse,
        [.bool true, .null], 5⟩ := by
    have hthree : Nat.toDigits 10 3 = ['3'] := by decide
    have hfour : Nat.toDigits 10 4 = ['4'] := by decide
    simp [scan, Draft.write, Draft.fill, Draft.bindAll, Draft.bind, Draft.notIn, Draft.always,
      quote, mark, hthree, hfour]
  have hback : scan false ⟨[], [], 4 + 1⟩ [.list []] "IN (?)".toList
      = ⟨"IN (NULL)".toList.reverse, [], 5⟩ := by
    simp [scan, Draft.write, Draft.fill, Draft.notIn, quote, mark]
  have ha : number "a NOT IN (?) AND b IN (?) OR NOT" [.list [], .list [.null, .bool true]] 2
      = .ok ⟨"a <> ALL('\x7b\x7d') AND b IN ($3, $4) OR NOT", [.null, .bool true]⟩ := by
    rw [number_eq_scan (by decide), hfront]
    simp
  have hb : number "IN (?)" [.list []] 4 = .ok ⟨"IN (NULL)", []⟩ := by
    rw [number_eq_scan (by decide), hback]
    simp
  have hjoined := number_joined _ _ _ _ 2 _ _ (.inr rfl) heven ha hb
  exact ⟨heven, hjoined⟩

end Placeholder
end SqlClause
