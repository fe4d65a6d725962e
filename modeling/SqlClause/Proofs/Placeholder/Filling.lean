import SqlClause.Proofs.Placeholder.Slot

/-!
What a value puts in the place of a question mark.

It depends on the text in front of the question mark, on the text behind it and on the value
(`filling`).  To the scan the text in front is all that it has written (`scan_mark`), but only
the end of that text counts (`Closed.filling_append`), and of the text behind it only the first
character (`filling_append_right`).
-/

namespace SqlClause
namespace Placeholder

inductive Filling where
  | slots (s : List Slot)
  /-- The test around the gap gives way to one that always holds. -/
  | always

/-- What goes into a gap between two texts.  A gap is bare if it stands alone in its brackets. -/
def filling (before after : List Char) (v : Value) : Filling :=
  if before.getLast? = some '(' ∧ after.head? = some ')' then
    match v with
    | .list [] =>
      if "NOT IN (".toList <:+ before then .always else .slots (Slot.chars "NULL".toList)
    | .list items => .slots (Slot.items items)
    | v => .slots [.param v]
  else .slots [.param v]

theorem toList_notIn : "NOT IN (".toList = Draft.notIn := by decide

theorem toList_always : "<> ALL('\x7b\x7d')".toList = Draft.always := by decide

theorem toList_null : "NULL".toList = ['N', 'U', 'L', 'L'] := by decide

/-- With the texts that numbering itself looks for and writes. -/
theorem filling_eq (before after : List Char) (v : Value) :
    filling before after v
      = if before.getLast? = some '(' ∧ after.head? = some ')' then
          match v with
          | .list [] =>
            if Draft.notIn <:+ before then .always else .slots (Slot.chars ['N', 'U', 'L', 'L'])
          | .list items => .slots (Slot.items items)
          | v => .slots [.param v]
        else .slots [.param v] := by
  simp only [filling, toList_notIn, toList_null]

theorem filling_of_not_list {v : Value} (h : v.isList = false) (before after : List Char) :
    filling before after v = .slots [.param v] := by
  unfold filling
  split
  · cases v with
    | list items => cases h
    | _ => rfl
  · rfl

theorem of_filling_eq_always {before after : List Char} {v : Value}
    (h : filling before after v = .always) :
    Draft.notIn <:+ before ∧ after.head? = some ')' := by
  rw [filling_eq] at h
  split at h
  · next hb =>
    split at h
    · split at h
      · next hn => exact ⟨hn, hb.2⟩
      · cases h
    · cases h
    · cases h
  · cases h

/-- An ending lies within the back part of a text, or something at its front ends the front part. -/
theorem suffix_append_cases {ending a b : List Char} (h : ending <:+ a ++ b) :
    ending <:+ b ∨ ∃ s, s ≠ [] ∧ s <+: ending ∧ s <:+ a := by
  rcases List.suffix_or_suffix_of_suffix h (List.suffix_append a b) with hb | ⟨s, rfl⟩
  · exact .inl hb
  · by_cases hs : s = []
    · rw [hs]
      exact .inl (List.suffix_refl b)
    · exact .inr ⟨s, hs, List.prefix_append s b, List.suffix_append_self_iff.mp h⟩

theorem not_suffix_of_getLast? {ending a s : List Char} (ha : ∀ c ∈ a.getLast?, c ∉ ending)
    (hne : s ≠ []) (hs : s <+: ending) : ¬s <:+ a := by
  rintro ⟨front, rfl⟩
  have hlast : s.getLast hne ∈ (front ++ s).getLast? := by
    rw [List.getLast?_append, List.getLast?_eq_some_getLast hne]
    rfl
  exact ha _ hlast (hs.subset (List.getLast_mem hne))

/-- An ending that holds nothing of what the front part ends in lies within the back part. -/
theorem suffix_of_suffix_append {ending a b : List Char} (h : ending <:+ a ++ b)
    (ha : ∀ c ∈ a.getLast?, c ∉ ending) : ending <:+ b := by
  rcases suffix_append_cases h with hb | ⟨s, hne, hs, hsa⟩
  · exact hb
  · exact absurd hsa (not_suffix_of_getLast? ha hne hs)

/-- No gap behind the text can see anything of it. -/
structure Closed (a : List Char) : Prop where
  not_bracket : a.getLast? ≠ some '('
  no_front : ∀ s, s ≠ [] → s <+: Draft.notIn → ¬s <:+ a

/-- What ends in no character of a negated membership test. -/
theorem Closed.of_getLast? {a : List Char} (ha : ∀ c ∈ a.getLast?, c ∉ Draft.notIn) : Closed a :=
  ⟨fun h => absurd (by decide) (ha '(' h), fun _ => not_suffix_of_getLast? ha⟩

/-- What stands before a segment does not matter if it is closed. -/
theorem Closed.filling_append {a : List Char} (ha : Closed a) (before after : List Char)
    (v : Value) : filling (a ++ before) after v = filling before after v := by
  have hlast : (a ++ before).getLast? = some '(' ↔ before.getLast? = some '(' := by
    rw [List.getLast?_append]
    cases hb : before.getLast? with
    | some c => rfl
    | none => exact ⟨fun h => absurd h ha.not_bracket, fun h => by cases h⟩
  have hsuffix : Draft.notIn <:+ a ++ before ↔ Draft.notIn <:+ before := by
    refine ⟨fun h => ?_, List.suffix_append_of_suffix⟩
    rcases suffix_append_cases h with hb | ⟨s, hne, hs, hsa⟩
    · exact hb
    · exact absurd hsa (ha.no_front s hne hs)
  simp only [filling_eq, hlast, hsuffix]

/-- What stands behind a segment does not matter unless it begins with a closing bracket. -/
theorem filling_append_right {t b : List Char} (hb : b.head? ≠ some ')') (before : List Char)
    (v : Value) : filling before (t ++ b) v = filling before t v := by
  have hhead : (t ++ b).head? = some ')' ↔ t.head? = some ')' := by
    cases t with
    | nil => exact ⟨fun h => absurd h hb, fun h => by cases h⟩
    | cons c t => rfl
  simp only [filling, hhead]

/-! ## The scan -/

def Filling.used : Filling → Bool
  | .slots _ => false
  | .always => true

namespace Draft

/-- A test that gives way is taken back up to its column. -/
def settle (d : Draft) : Filling → Draft
  | .slots filled => d.put filled
  | .always => { d with written := always.reverse ++ d.written.drop notIn.length }

theorem settle_always (d : Draft) (front : List Char) :
    (d.write (front ++ notIn)).settle .always = d.write (front ++ always) := by
  have hdrop : (d.write (front ++ notIn)).written.drop notIn.length
      = front.reverse ++ d.written := by
    show ((front ++ notIn).reverse ++ d.written).drop _ = _
    rw [List.reverse_append, List.append_assoc]
    exact List.drop_left' (by rw [List.length_reverse])
  rw [settle, hdrop]
  simp only [write, List.reverse_append, List.append_assoc]

end Draft

theorem fill_eq_filling (d : Draft) (after : List Char) (v : Value) :
    d.fill v (d.written.head? == some '(' && after.head? == some ')')
      = (d.settle (filling d.written.reverse after v),
        (filling d.written.reverse after v).used) := by
  have hsuffix : Draft.notIn.reverse.isPrefixOf d.written = true
      ↔ Draft.notIn <:+ d.written.reverse := by
    rw [List.isPrefixOf_iff_prefix, ← List.reverse_prefix, List.reverse_reverse]
  rw [filling_eq, List.getLast?_reverse]
  by_cases hb : d.written.head? = some '(' ∧ after.head? = some ')'
  · have hbare : (d.written.head? == some '(' && after.head? == some ')') = true := by
      rw [hb.1, hb.2]
      rfl
    rw [if_pos hb, hbare]
    cases v with
    | list items =>
      cases items with
      | nil =>
        show (if Draft.notIn.reverse.isPrefixOf d.written = true then _ else _) = _
        by_cases hn : Draft.notIn <:+ d.written.reverse
        · rw [if_pos (hsuffix.mpr hn), if_pos hn]
          rfl
        · rw [if_neg (mt hsuffix.mp hn), if_neg hn]
          exact congrArg (·, false) (d.put_chars ['N', 'U', 'L', 'L']).symm
      | cons v rest => exact congrArg (·, false) (d.put_items (v :: rest)).symm
    | _ => rfl
  · have hbare : (d.written.head? == some '(' && after.head? == some ')') = false := by
      rw [← Bool.not_eq_true, Bool.and_eq_true, beq_iff_eq, beq_iff_eq]
      exact hb
    rw [if_neg hb, hbare]
    rfl

/-- To the scan all that it has written is the text in front. -/
theorem scan_mark {d : Draft} {v : Value} {rest : List Char} {f : Filling}
    (h : filling d.written.reverse rest v = f) (values : List Value) :
    scan false d (v :: values) (mark :: rest)
      = scan false (d.settle f) values (if f.used then rest.tail else rest) := by
  rw [scan.eq_def]
  show (if mark = quote then _ else if mark = mark ∧ false = false then _ else _) = _
  rw [if_neg (by decide), if_pos ⟨rfl, rfl⟩]
  simp only [fill_eq_filling, h]
  cases f with
  | slots filled => rfl
  | always => cases rest <;> rfl

/-- Along a scan.  A character that is no placeholder is written, and a placeholder takes a value if
there is one left, and with it perhaps the bracket behind it. -/
@[elab_as_elim]
theorem scan_induction {motive : Bool → Draft → List Value → List Char → Prop}
    (nil : ∀ inLiteral d values, motive inLiteral d values [])
    (plain : ∀ inLiteral d values c rest, countFrom inLiteral [c] = 0 →
      motive (literalAfter inLiteral [c]) (d.write [c]) values rest →
      motive inLiteral d values (c :: rest))
    (unbound : ∀ d rest, motive false (d.write [mark]) [] rest → motive false d [] (mark :: rest))
    (bound : ∀ d v values rest f, filling d.written.reverse rest v = f →
      motive false (d.settle f) values (if f.used then rest.tail else rest) →
      motive false d (v :: values) (mark :: rest))
    (inLiteral : Bool) (d : Draft) (values : List Value) (text : List Char) :
    motive inLiteral d values text := by
  induction hn : text.length using Nat.strong_induction_on
    generalizing inLiteral d values text with
  | h n ih =>
    cases text with
    | nil => exact nil inLiteral d values
    | cons c rest =>
      have hlen : rest.length < n := hn ▸ Nat.lt_succ_self rest.length
      by_cases hm : c = mark ∧ inLiteral = false
      · obtain ⟨rfl, rfl⟩ := hm
        cases values with
        | nil => exact unbound d rest (ih _ hlen false _ [] rest rfl)
        | cons v values =>
          refine bound d v values rest _ rfl (ih _ ?_ false _ values _ rfl)
          split
          · exact Nat.lt_of_le_of_lt (by simp) hlen
          · exact hlen
      · exact plain inLiteral d values c rest (countFrom_singleton hm)
          (ih _ hlen _ _ values rest rfl)

end Placeholder
end SqlClause
