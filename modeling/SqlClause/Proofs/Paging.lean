import Mathlib.Algebra.Group.Nat.Defs
import SqlClause.Page

/-!
Pages without gaps and without overlaps.

A policy that is put together by its settings asks for no page of size zero, in whatever order the
settings come (`proper_ofSettings`), and no page has the number zero (`Page.one_le_number`), so the
pages before it can be counted.  Then the pages of one size lie side by side from row zero on.
An offset too large for its word gives way to the largest number of that word, which is no row, so
the pages beyond the last row hold nothing (`Page.holds_iff`).  Each row stands on one page
(`rows_tiled`).
-/

namespace SqlClause

namespace PagePolicy

inductive Setting where
  | defaultSize (size : UInt64)
  | maxSize (size : UInt64)

def set (p : PagePolicy) : Setting → PagePolicy
  | .defaultSize size => p.withDefaultSize size
  | .maxSize size => p.withMaxSize size

/-- The standard policy with some settings changed, one after the other. -/
def ofSettings (settings : List Setting) : PagePolicy := settings.foldl set standard

/-- A page holds one row at least, whatever size is asked for. -/
structure Proper (p : PagePolicy) : Prop where
  default_pos : 0 < p.defaultSize
  max_pos : ∀ most ∈ p.maxSize, 0 < most

/-- Zero stands for a size that is not zero. -/
theorem pos_of_default {size default : UInt64} (h : 0 < default) :
    0 < if size = 0 then default else size := by
  by_cases hsize : size = 0
  · rw [if_pos hsize]
    exact h
  · rw [if_neg hsize]
    exact UInt64.pos_iff_ne_zero.mpr hsize

theorem pos_min {a b : UInt64} (ha : 0 < a) (hb : 0 < b) : 0 < min a b := by
  rcases Std.min_eq_or (a := a) (b := b) with h | h
  · rwa [h]
  · rwa [h]

theorem proper_standard : standard.Proper := ⟨by decide, nofun⟩

variable {p : PagePolicy}

theorem Proper.set (h : p.Proper) (s : Setting) : (p.set s).Proper := by
  cases s with
  | defaultSize size =>
    have hstandard : 0 < standardSize := by decide
    exact ⟨pos_of_default hstandard, h.max_pos⟩
  | maxSize size =>
    refine ⟨h.default_pos, fun most hmost => ?_⟩
    obtain rfl := Option.some.inj hmost
    show 0 < if size ≤ 1 then 1 else size
    by_cases hs : size ≤ 1
    · rw [if_pos hs]
      decide
    · rw [if_neg hs]
      exact UInt64.lt_trans (by decide) (UInt64.not_le.mp hs)

theorem proper_ofSettings (settings : List Setting) : (ofSettings settings).Proper := by
  have h : ∀ q : PagePolicy, q.Proper → (settings.foldl PagePolicy.set q).Proper := by
    induction settings with
    | nil => exact fun _ hq => hq
    | cons s rest ih => exact fun q hq => ih _ (hq.set s)
  exact h standard proper_standard

theorem Proper.size_pos (h : p.Proper) (asked : UInt64) : 0 < p.size asked := by
  have hasked : 0 < if asked = 0 then p.defaultSize else asked := pos_of_default h.default_pos
  rw [size]
  cases hmax : p.maxSize with
  | none => exact hasked
  | some most => exact pos_min hasked (h.max_pos most hmax)

theorem size_le_max {most : UInt64} (h : most ∈ p.maxSize) (asked : UInt64) :
    p.size asked ≤ most := by
  rw [size, Option.mem_def.mp h]
  exact Std.min_le_right

end PagePolicy

namespace Page

/-- The row stands on the page. -/
def Holds (p : Page) (row : Nat) : Prop :=
  p.offset.toNat ≤ row ∧ row < p.offset.toNat + p.size.toNat

theorem toNat_saturatingProduct (m n : UInt64) :
    (saturatingProduct m n).toNat = min (m.toNat * n.toNat) (2 ^ 64 - 1) :=
  UInt64.toNat_ofNat_of_lt' (Nat.lt_of_le_of_lt (Nat.min_le_right _ _) (by decide))

/-- The pages before are counted in a word, where page zero would have more than all others. -/
theorem toNat_offset {p : Page} (h : 1 ≤ p.number) :
    p.offset.toNat = min ((p.number.toNat - 1) * p.size.toNat) (2 ^ 64 - 1) := by
  have hbefore : (p.number - 1).toNat = p.number.toNat - 1 := UInt64.toNat_sub_of_le _ _ h
  rw [offset, toNat_saturatingProduct, hbefore]

theorem toNat_number (policy : PagePolicy) (number asked : UInt64) :
    (ofRequest policy number asked).number.toNat = max number.toNat 1 := by
  show (if number = 0 then 1 else number).toNat = _
  by_cases h : number = 0
  · rw [if_pos h, h]
    rfl
  · have hpos : 0 < number.toNat := UInt64.lt_iff_toNat_lt.mp (UInt64.pos_iff_ne_zero.mpr h)
    rw [if_neg h]
    omega

theorem one_le_number (policy : PagePolicy) (number asked : UInt64) :
    1 ≤ (ofRequest policy number asked).number := by
  rw [UInt64.le_iff_toNat_le, toNat_number]
  exact Nat.le_max_right _ 1

/-- Where offsets are cut off there are no rows left. -/
theorem holds_iff {p : Page} {row : Nat} (hrow : row < 2 ^ 64 - 1) (hsize : 0 < p.size.toNat)
    (hnumber : 1 ≤ p.number) : p.Holds row ↔ p.number.toNat = row / p.size.toNat + 1 := by
  have hone : 1 ≤ p.number.toNat := UInt64.le_iff_toNat_le.mp hnumber
  have hcut : p.Holds row ↔ (p.number.toNat - 1) * p.size.toNat ≤ row ∧
      row < (p.number.toNat - 1) * p.size.toNat + p.size.toNat := by
    rw [Holds, toNat_offset hnumber]
    omega
  have hquotient : row / p.size.toNat = p.number.toNat - 1 ↔
      (p.number.toNat - 1) * p.size.toNat ≤ row ∧
        row < (p.number.toNat - 1) * p.size.toNat + p.size.toNat := by
    rw [Nat.div_eq_iff hsize]
    omega
  rw [hcut, ← hquotient]
  omega

end Page

/-- All pages have one size and a number from one on, and each row stands on just one of them, up to
the largest offset that there is. -/
theorem rows_tiled (settings : List PagePolicy.Setting) (asked : UInt64) :
    let policy := PagePolicy.ofSettings settings
    let page := fun number => (PagedQuery.ofRequest policy number asked).page
    ∃ z : UInt64, (∀ number, (page number).size = z) ∧ 1 ≤ z ∧ (∀ most ∈ policy.maxSize, z ≤ most) ∧
      (∀ number, 1 ≤ (page number).number ∧ (page number).number.toNat = max number.toNat 1) ∧
      (∀ number, (page number).offset.toNat
        = min ((max number.toNat 1 - 1) * z.toNat) (2 ^ 64 - 1)) ∧
      ∀ row : Nat, row < 2 ^ 64 - 1 →
        ∃ number : UInt64, 1 ≤ number ∧ number.toNat = row / z.toNat + 1 ∧
          ∀ other : UInt64, 1 ≤ other → ((page other).Holds row ↔ other = number) := by
  intro policy page
  have hproper : policy.Proper := PagePolicy.proper_ofSettings settings
  have hpos : 0 < (policy.size asked).toNat := UInt64.lt_iff_toNat_lt.mp (hproper.size_pos asked)
  have hone : ∀ number, 1 ≤ (page number).number :=
    fun number => Page.one_le_number policy number asked
  have hnumber : ∀ number, (page number).number.toNat = max number.toNat 1 :=
    fun number => Page.toNat_number policy number asked
  refine ⟨policy.size asked, fun _ => rfl, UInt64.le_iff_toNat_le.mpr hpos,
    fun most hmost => PagePolicy.size_le_max hmost asked,
    fun number => ⟨hone number, hnumber number⟩, fun number => ?_, fun row hrow => ?_⟩
  · rw [Page.toNat_offset (hone number), hnumber]
    rfl
  · have hlast : row / (policy.size asked).toNat ≤ row := Nat.div_le_self _ _
    have hnat : (UInt64.ofNat (row / (policy.size asked).toNat + 1)).toNat
        = row / (policy.size asked).toNat + 1 :=
      UInt64.toNat_ofNat_of_lt' (show _ < 2 ^ 64 by omega)
    refine ⟨_, UInt64.le_iff_toNat_le.mpr (by rw [hnat]; exact Nat.le_add_left 1 _), hnat,
      fun other hother => ?_⟩
    have hother : 1 ≤ other.toNat := UInt64.le_iff_toNat_le.mp hother
    have hpage : (page other).number.toNat = other.toNat := by
      rw [hnumber, Nat.max_eq_left hother]
    rw [Page.holds_iff hrow hpos (hone other), hpage, ← UInt64.toNat_inj, hnat]
    rfl

/-- A default above the cap.  Page zero is the first one, the last row stands on a page that is not
full, and the last page that can be asked for begins behind it. -/
theorem rows_tiled_capped :
    let policy := PagePolicy.ofSettings [.maxSize 0, .defaultSize 0, .maxSize 3]
    let page := fun number => (PagedQuery.ofRequest policy number 0).page
    3 ∈ policy.maxSize ∧ 2 ^ 64 - 2 < 2 ^ 64 - 1 ∧ (page 7).size = 3 ∧
      1 ≤ (page 0).number ∧ (page 0).offset.toNat = 0 ∧
      ∃ number : UInt64, number.toNat = 6148914691236517205 ∧ (page number).Holds (2 ^ 64 - 2) ∧
        ¬(page 18446744073709551615).Holds (2 ^ 64 - 2) := by
  intro policy page
  obtain ⟨z, hsize, -, -, hnumbers, hoffset, hrows⟩ := rows_tiled [.maxSize 0, .defaultSize 0, .maxSize 3] 0
  obtain rfl : z = 3 := (hsize 7).symm.trans (by decide)
  obtain ⟨number, hone, hnumber, hholds⟩ := hrows (2 ^ 64 - 2) (by decide)
  refine ⟨by decide, by decide, hsize 7, (hnumbers 0).1, hoffset 0, number, hnumber,
    (hholds number hone).mpr rfl, ?_⟩
  intro hlast
  rw [← (hholds _ (by decide)).mp hlast] at hnumber
  exact absurd hnumber (by decide)

end SqlClause
