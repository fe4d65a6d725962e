import SqlClause.Proofs.Placeholder.Lookback

/-!
What is left to number in a numbered clause.

Numbers, commas and `NULL` hold no quotes and no question marks, and the test that always holds
closes the literal that it brings along.  So a second scan of what has been written finds no
placeholder and is, wherever the first scan has come to, on the same side of the quotes as the first
one (`Draft.Finished`).  A numbered clause is therefore numbered again without a change, and text
behind it is read as it would be read behind the clause (`numbered_finished`).
-/

namespace SqlClause
namespace Placeholder

/-- A scan of what has been written finds no placeholder and ends inside or outside a literal. -/
structure Draft.Finished (d : Draft) (inLiteral : Bool) : Prop where
  count_written : countFrom false d.written.reverse = 0
  literalAfter_written : literalAfter false d.written.reverse = inLiteral

/-! ## What goes into a gap -/

theorem Slot.not_mem_render {c : Char} {slots : List Slot} (hdollar : c ≠ '$')
    (hdigit : ¬c.isDigit) (h : Slot.char c ∉ slots) (next : Nat) :
    c ∉ Slot.render next slots := by
  induction slots generalizing next with
  | nil => exact List.not_mem_nil
  | cons s slots ih =>
    rw [List.mem_cons, not_or] at h
    cases s with
    | char b =>
      rw [render, List.mem_cons, not_or]
      exact ⟨fun hb => h.1 (congrArg Slot.char hb), ih h.2 next⟩
    | param v =>
      rw [render, List.mem_append, not_or, List.mem_cons, not_or]
      exact ⟨⟨hdollar, fun hc => hdigit (isDigit_of_mem_toString hc)⟩, ih h.2 (next + 1)⟩

theorem Slot.char_mem_items {c : Char} {values : List Value}
    (h : Slot.char c ∈ Slot.items values) : c ∈ [',', ' '] := by
  induction values with
  | nil => cases h
  | cons v values ih =>
    cases values with
    | nil => simp [items] at h
    | cons w rest =>
      rw [items_cons_cons, List.mem_cons, List.mem_append] at h
      rcases h with h | h | h
      · cases h
      · simpa [chars] using h
      · exact ih h

/-- No text goes into a gap but commas and `NULL`. -/
theorem char_mem_filling {before after : List Char} {v : Value} {filled : List Slot} {c : Char}
    (h : filling before after v = .slots filled) (hc : Slot.char c ∈ filled) :
    c ∈ [',', ' ', 'N', 'U', 'L'] := by
  rw [filling_eq] at h
  split at h
  · split at h
    · split at h
      · cases h
      · cases h
        simp [Slot.chars] at hc
        simp [hc]
    · cases h
      have hsep := Slot.char_mem_items hc
      simp only [List.mem_cons, List.not_mem_nil, or_false] at hsep ⊢
      tauto
    · cases h
      simp at hc
  · cases h
    simp at hc

theorem not_mem_render_filling {before after : List Char} {v : Value} {filled : List Slot}
    {c : Char} (h : filling before after v = .slots filled) (hdollar : c ≠ '$')
    (hdigit : ¬c.isDigit) (hc : c ∉ [',', ' ', 'N', 'U', 'L']) (next : Nat) :
    c ∉ Slot.render next filled :=
  Slot.not_mem_render hdollar hdigit (fun hmem => hc (char_mem_filling h hmem)) next

/-! ## The scan -/

namespace Draft.Finished

variable {d : Draft} {inLiteral : Bool}

theorem write (h : d.Finished inLiteral) {text : List Char} (hc : countFrom inLiteral text = 0) :
    (d.write text).Finished (literalAfter inLiteral text) := by
  obtain ⟨hcount, hstate⟩ := h
  refine ⟨?_, ?_⟩
  · rw [d.reverse_written_write, countFrom_append, hcount, hstate, hc]
  · rw [d.reverse_written_write, literalAfter_append, hstate]

theorem put (h : d.Finished false) {before after : List Char} {v : Value} {filled : List Slot}
    (hf : filling before after v = .slots filled) : (d.put filled).Finished false := by
  have hquote : quote ∉ Slot.render d.next filled :=
    not_mem_render_filling hf (by decide) (by decide) (by decide) d.next
  have hmark : mark ∉ Slot.render d.next filled :=
    not_mem_render_filling hf (by decide) (by decide) (by decide) d.next
  have hwrite := h.write (countFrom_of_not_mem hmark false)
  rw [literalAfter_of_not_mem hquote] at hwrite
  rw [d.put_eq_append]
  exact ⟨hwrite.count_written, hwrite.literalAfter_written⟩

/-- The text that is taken back holds no quote. -/
theorem settle_always (h : d.Finished false) (hn : notIn <:+ d.written.reverse) :
    (d.settle .always).Finished false := by
  obtain ⟨front, hfront⟩ := hn
  obtain ⟨hcount, hstate⟩ := h
  have hnotIn : literalAfter (literalAfter false front) notIn = literalAfter false front :=
    literalAfter_of_not_mem (by decide) _
  have hwritten : (d.settle .always).written.reverse = front ++ always := by
    have hd : d.written = (front ++ notIn).reverse := by rw [hfront, List.reverse_reverse]
    have hdrop : d.written.drop notIn.length = front.reverse := by
      rw [hd, List.reverse_append]
      exact List.drop_left' List.length_reverse
    show (always.reverse ++ d.written.drop notIn.length).reverse = _
    rw [hdrop, List.reverse_append, List.reverse_reverse, List.reverse_reverse]
  rw [← hfront, countFrom_append] at hcount
  rw [← hfront, literalAfter_append, hnotIn] at hstate
  have hzero : countFrom false front = 0 := by omega
  refine ⟨?_, ?_⟩
  · rw [hwritten, countFrom_append, hzero, hstate]
    decide
  · rw [hwritten, literalAfter_append, hstate]
    decide

theorem settle (h : d.Finished false) {after : List Char} {v : Value} {f : Filling}
    (hf : filling d.written.reverse after v = f) : (d.settle f).Finished false := by
  cases f with
  | slots filled => exact h.put hf
  | always => exact h.settle_always (of_filling_eq_always hf).1

/-- A scan with a value for each placeholder finishes the text. -/
theorem scan (h : d.Finished inLiteral) {values : List Value} {text : List Char}
    (hcount : countFrom inLiteral text ≤ values.length) :
    (scan inLiteral d values text).Finished (literalAfter inLiteral text) := by
  induction inLiteral, d, values, text using scan_induction with
  | nil inLiteral d values => exact h
  | plain inLiteral d values c rest hc ih =>
    rw [countFrom_cons hc] at hcount
    rw [scan_cons hc]
    exact ih (h.write hc) hcount
  | unbound d rest ih => exact absurd hcount (Nat.not_succ_le_zero _)
  | bound d v values rest f hf ih =>
    have hrest : countFrom false rest ≤ values.length := Nat.le_of_succ_le_succ hcount
    have hmark : literalAfter false (mark :: rest)
        = literalAfter false (if f.used then rest.tail else rest) :=
      (literalAfter_unused hf).symm
    rw [scan_mark hf, hmark]
    exact ih (h.settle hf) (by rwa [countFrom_unused hf])

end Draft.Finished

theorem number_of_count_eq_zero {sql : String} (h : count sql = 0) (offset : Nat) :
    number sql [] offset = .ok ⟨sql, []⟩ := by
  have hscan : scan false ⟨[], [], offset + 1⟩ [] (sql.toList ++ [])
      = (⟨[], [], offset + 1⟩ : Draft).write sql.toList := scan_plain h _ [] []
  rw [List.append_nil] at hscan
  rw [number_eq_scan h, hscan]
  simp [Draft.write]

/-- All question marks of a numbered clause stand in literals, so numbering it again changes nothing.
The number of its quotes differs from that of the clause by an even number, so text that is put
behind it is read as it is behind the clause. -/
theorem numbered_finished {sql : String} {values : List Value} {offset : Nat} {r : Numbered}
    (h : number sql values offset = .ok r) :
    (∀ front back, r.sql.toList = front ++ mark :: back → ¬Even (front.count quote)) ∧
      (∀ next, number r.sql [] next = .ok ⟨r.sql, []⟩) ∧
      r.sql.toList.count quote % 2 = sql.toList.count quote % 2 ∧
      ∀ tail, count (sql ++ tail) = count sql + count (r.sql ++ tail) := by
  obtain ⟨hcount, hr⟩ := of_number_eq_ok h
  have hstart : (⟨[], [], offset + 1⟩ : Draft).Finished false := ⟨rfl, rfl⟩
  have hdone := hstart.scan (Nat.le_of_eq hcount)
  have hsql : r.sql.toList
      = (scan false ⟨[], [], offset + 1⟩ values sql.toList).written.reverse := by
    rw [hr, String.toList_ofList]
  have hzero : countFrom false r.sql.toList = 0 := hsql ▸ hdone.count_written
  have hstate : literalAfter false r.sql.toList = literalAfter false sql.toList :=
    hsql ▸ hdone.literalAfter_written
  refine ⟨fun front back hsplit heven => ?_, number_of_count_eq_zero hzero, ?_, fun tail => ?_⟩
  · have hin := literalAfter_of_countFrom_eq_zero (hsplit ▸ hzero)
    rw [(literalAfter_eq_false_iff front).mpr heven] at hin
    cases hin
  · have hiff := literalAfter_eq_true_iff false r.sql.toList
    rw [hstate, literalAfter_eq_true_iff] at hiff
    simp only [Bool.toNat_false, Nat.add_zero] at hiff
    omega
  · have htail : count (r.sql ++ tail)
        = countFrom (literalAfter false sql.toList) tail.toList := by
      rw [count, String.toList_append, countFrom_append, hzero, hstate, Nat.zero_add]
    rw [htail, count, String.toList_append, countFrom_append]
    rfl

/-- The literal that the clause leaves open is left open, and a test that gives way closes its own. -/
theorem numbered_finished_openLiteral :
    number "a NOT IN (?) OR b = ? OR c LIKE '?" [.list [], .null] 7
        = .ok ⟨"a <> ALL('\x7b\x7d') OR b = $8 OR c LIKE '?", [.null]⟩ ∧
      number "a <> ALL('\x7b\x7d') OR b = $8 OR c LIKE '?" [] 0
        = .ok ⟨"a <> ALL('\x7b\x7d') OR b = $8 OR c LIKE '?", []⟩ ∧
      count ("a NOT IN (?) OR b = ? OR c LIKE '?" ++ "' AND d = ?")
        = 2 + count ("a <> ALL('\x7b\x7d') OR b = $8 OR c LIKE '?" ++ "' AND d = ?") := by
  have hscan : scan false ⟨[], [], 7 + 1⟩ [.list [], .null]
        "a NOT IN (?) OR b = ? OR c LIKE '?".toList
      = ⟨"a <> ALL('\x7b\x7d') OR b = $8 OR c LIKE '?".toList.reverse, [.null], 9⟩ := by
    have hdigit : Nat.toDigits 10 8 = ['8'] := by decide
    simp [scan, Draft.write, Draft.fill, Draft.bind, Draft.notIn, Draft.always, quote, mark, hdigit]
  have h : number "a NOT IN (?) OR b = ? OR c LIKE '?" [.list [], .null] 7
      = .ok ⟨"a <> ALL('\x7b\x7d') OR b = $8 OR c LIKE '?", [.null]⟩ := by
    rw [number_eq_scan (by decide), hscan]
    simp
  obtain ⟨-, hagain, -, htail⟩ := numbered_finished h
  exact ⟨h, hagain 0, htail "' AND d = ?"⟩

end Placeholder
end SqlClause
