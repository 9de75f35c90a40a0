/-
CriteriaSql/Proofs/Session/Truncation.lean

What is logged of a long statement.

The cut goes back from the limit, byte by byte, to the first boundary.  That is
the greatest boundary within the limit (`isGreatest_lastBoundary`), and the
boundaries of a text are the sizes of its prefixes (`isBoundary_iff`), so the
text before the cut is the longest prefix that fits (`longestWithin_before?`).

Main result: `truncate?_longest`.
-/
import CriteriaSql.Session.Config
import Mathlib.Data.Nat.Find
import Mathlib.Order.Bounds.Basic

namespace CriteriaSql

namespace Text.Utf8

/-! ### Boundaries -/

variable {s : String}

/-- The boundaries of a text are the sizes of its prefixes. -/
theorem isBoundary_iff {byte : Nat} :
    IsBoundary s byte ↔ ∃ kept rest, s = kept ++ rest ∧ kept.utf8ByteSize = byte := by
  rw [IsBoundary, String.Pos.Raw.isValid_iff_exists_append]
  constructor
  · rintro ⟨kept, rest, heq, hbyte⟩
    exact ⟨kept, rest, heq, (congrArg String.Pos.Raw.byteIdx hbyte).symm⟩
  · rintro ⟨kept, rest, heq, rfl⟩
    exact ⟨kept, rest, heq, rfl⟩

/-- A text is cut exactly where one of its prefixes ends, and the cut leaves
that prefix. -/
theorem before?_eq_some_iff {byte : Nat} {kept : String} :
    before? s byte = some kept ↔ ∃ rest, s = kept ++ rest ∧ kept.utf8ByteSize = byte := by
  unfold before?
  split
  · next h =>
    constructor
    · intro heq
      obtain rfl := Option.some.inj heq
      have hsplits := String.Pos.splits (⟨⟨byte⟩, h⟩ : s.Pos)
      exact ⟨_, hsplits.eq_append,
        congrArg String.Pos.Raw.byteIdx hsplits.offset_eq_rawEndPos.symm⟩
    · rintro ⟨rest, heq, rfl⟩
      have hsplits : (⟨⟨kept.utf8ByteSize⟩, h⟩ : s.Pos).Splits kept rest := ⟨heq, rfl⟩
      rw [hsplits.copy_sliceTo_eq]
  · next h =>
    constructor
    · intro heq
      cases heq
    · rintro ⟨rest, heq, hbyte⟩
      exact absurd (isBoundary_iff.mpr ⟨kept, rest, heq, hbyte⟩) h

theorem lastBoundary_eq_findGreatest (byte : Nat) :
    lastBoundary s byte = Nat.findGreatest (IsBoundary s) byte := by
  induction byte with
  | zero => rfl
  | succ byte ih => rw [lastBoundary, Nat.findGreatest_succ, ih]

/-- Going back ends at the greatest boundary that is not behind the start. -/
theorem isGreatest_lastBoundary (s : String) (limit : Nat) :
    IsGreatest {byte | IsBoundary s byte ∧ byte ≤ limit} (lastBoundary s limit) := by
  refine ⟨⟨isBoundary_lastBoundary s limit, ?_⟩, ?_⟩
  · rw [lastBoundary_eq_findGreatest]
    exact Nat.findGreatest_le limit
  · rintro byte ⟨hbyte, hlimit⟩
    rw [lastBoundary_eq_findGreatest]
    exact Nat.le_findGreatest hlimit hbyte

/-! ### The longest prefix -/

/-- The longest prefix of a text that takes no more bytes than the limit: it
begins the text, it fits, and every prefix that fits begins it. -/
structure LongestWithin (limit : Nat) (s kept : String) : Prop where
  begins : kept.toList <+: s.toList
  fits : kept.utf8ByteSize ≤ limit
  longest : ∀ other : String, other.toList <+: s.toList → other.utf8ByteSize ≤ limit →
    other.toList <+: kept.toList

theorem isPrefix_toList_iff {kept : String} :
    kept.toList <+: s.toList ↔ ∃ rest, s = kept ++ rest := by
  constructor
  · rintro ⟨rest, heq⟩
    refine ⟨String.ofList rest, String.toList_inj.mp ?_⟩
    rw [String.toList_append, String.toList_ofList, heq]
  · rintro ⟨rest, rfl⟩
    exact ⟨rest.toList, String.toList_append.symm⟩

/-- Of two prefixes, the one with fewer bytes begins the other. -/
theorem isPrefix_of_utf8ByteSize_le {a b : String} (ha : a.toList <+: s.toList)
    (hb : b.toList <+: s.toList) (h : a.utf8ByteSize ≤ b.utf8ByteSize) :
    a.toList <+: b.toList := by
  rcases List.prefix_or_prefix_of_prefix ha hb with hab | hba
  · exact hab
  · -- then `b` begins `a` with nothing left behind it
    obtain ⟨rest, rfl⟩ := isPrefix_toList_iff.mp hba
    rw [String.utf8ByteSize_append] at h
    have hrest : rest = "" := String.utf8ByteSize_eq_zero_iff.mp (by omega)
    have hsame : b ++ rest = b := by rw [hrest, String.append_empty]
    exact ⟨[], (List.append_nil _).trans (congrArg String.toList hsame)⟩

theorem longestWithin_before? {limit : Nat} {kept : String}
    (h : before? s (lastBoundary s limit) = some kept) : LongestWithin limit s kept := by
  obtain ⟨rest, heq, hsize⟩ := before?_eq_some_iff.mp h
  obtain ⟨⟨-, hle⟩, hgreatest⟩ := isGreatest_lastBoundary s limit
  have hbegins : kept.toList <+: s.toList := isPrefix_toList_iff.mpr ⟨rest, heq⟩
  refine ⟨hbegins, hsize ▸ hle, fun other hother hfits => ?_⟩
  obtain ⟨rest', heq'⟩ := isPrefix_toList_iff.mp hother
  have hboundary : IsBoundary s other.utf8ByteSize := isBoundary_iff.mpr ⟨other, rest', heq', rfl⟩
  exact isPrefix_of_utf8ByteSize_le hother hbegins (hsize ▸ hgreatest ⟨hboundary, hfits⟩)

theorem utf8Size_le_of_mem_head? {c : Char} (h : c ∈ s.toList.head?) :
    c.utf8Size ≤ s.utf8ByteSize := by
  obtain ⟨cs, hcs⟩ := List.head?_eq_some_iff.mp h
  obtain ⟨rest, rfl⟩ : ∃ rest, s = String.singleton c ++ rest :=
    isPrefix_toList_iff.mp ⟨cs, by rw [String.toList_singleton, hcs, List.singleton_append]⟩
  rw [String.utf8ByteSize_append, String.utf8ByteSize_singleton]
  exact Nat.le_add_right _ _

/-- Where not even the first character fits, nothing is left. -/
theorem LongestWithin.eq_empty {limit : Nat} {kept : String} (h : LongestWithin limit s kept)
    {c : Char} (hc : c ∈ s.toList.head?) (hlimit : limit < c.utf8Size) : kept = "" := by
  rcases hkept : kept.toList with - | ⟨d, ds⟩
  · exact String.toList_eq_nil_iff.mp hkept
  · -- a first character that is kept is that of the text, which does not fit
    obtain ⟨rest, heq⟩ := h.begins
    rw [← heq, hkept] at hc
    have hfirst : c ∈ kept.toList.head? := by rwa [hkept]
    have hle : c.utf8Size ≤ limit := (utf8Size_le_of_mem_head? hfirst).trans h.fits
    exact absurd hlimit (Nat.not_lt.mpr hle)

end Text.Utf8

/-! ### Main result -/

namespace Config

open Text.Utf8

theorem truncate?_eq_self {c : Config} {sql : String}
    (h : ∀ limit ∈ c.maxSqlLength, sql.utf8ByteSize ≤ limit) : c.truncate? sql = some sql := by
  unfold truncate?
  split
  · rfl
  · next limit hlimit => rw [if_neg (Nat.not_lt.mpr (h limit hlimit))]

theorem exists_truncate?_eq {c : Config} {sql : String} {limit : Nat}
    (hlimit : limit ∈ c.maxSqlLength) (h : limit < sql.utf8ByteSize) :
    ∃ kept, before? sql (lastBoundary sql limit) = some kept ∧ LongestWithin limit sql kept
      ∧ c.truncate? sql = some (kept ++ "...") := by
  obtain ⟨kept, hkept⟩ := Option.isSome_iff_exists.mp
    (isSome_before? (isBoundary_lastBoundary sql limit))
  refine ⟨kept, hkept, longestWithin_before? hkept, ?_⟩
  rw [truncate?, Option.mem_def.mp hlimit]
  dsimp only
  rw [if_pos h, hkept, Option.map_some]

/-- There is always a text to log.  It is the whole text when that is within the
limit or there is no limit.  Otherwise the text is cut at the greatest boundary
within the limit, where it can be cut, and what is logged is the longest prefix
that fits and three dots; these are all when the limit is less than the first
character. -/
theorem truncate?_longest (c : Config) (sql : String) :
    c.truncate? sql = some (c.truncate sql)
    ∧ ((∀ limit ∈ c.maxSqlLength, sql.utf8ByteSize ≤ limit) → c.truncate? sql = some sql)
    ∧ (∀ limit ∈ c.maxSqlLength, limit < sql.utf8ByteSize →
      ∃ kept, before? sql (lastBoundary sql limit) = some kept ∧ LongestWithin limit sql kept
        ∧ c.truncate? sql = some (kept ++ "..."))
    ∧ (∀ limit, IsGreatest {byte | IsBoundary sql byte ∧ byte ≤ limit} (lastBoundary sql limit))
    ∧ ∀ limit ∈ c.maxSqlLength, ∀ first ∈ sql.toList.head?, limit < first.utf8Size →
      c.truncate? sql = some "..." := by
  refine ⟨(Option.some_get _).symm, truncate?_eq_self, fun _ => exists_truncate?_eq,
    isGreatest_lastBoundary sql, ?_⟩
  intro limit hlimit first hfirst hsmall
  have hsize : limit < sql.utf8ByteSize := hsmall.trans_le (utf8Size_le_of_mem_head? hfirst)
  obtain ⟨kept, -, hlongest, htruncate⟩ := exists_truncate?_eq hlimit hsize
  rw [htruncate, hlongest.eq_empty hfirst hsmall, String.empty_append]

/-- Settings that log four bytes of a statement. -/
def fourBytes : Config := standard.withMaxSqlLength 4

/-- A last character of two bytes is left out as a whole, a text of four bytes
is logged as it is, and three bytes are too few for a character of four. -/
theorem truncate?_longest_accent :
    fourBytes.truncate? "abcé" = some "abc..."
    ∧ fourBytes.truncate? "abcd" = some "abcd"
    ∧ (standard.withMaxSqlLength 3).truncate? "😀" = some "..." := by
  refine ⟨?_, (truncate?_longest fourBytes "abcd").2.1 ?_, ?_⟩
  · obtain ⟨kept, hkept, -, htruncate⟩ := (truncate?_longest fourBytes "abcé").2.2.1 4 rfl (by decide)
    have habc : before? "abcé" (lastBoundary "abcé" 4) = some "abc" :=
      before?_eq_some_iff.mpr ⟨"é", by decide, by decide⟩
    rw [htruncate, Option.some.inj (hkept.symm.trans habc)]
    decide
  · intro limit hlimit
    obtain rfl := Option.some.inj hlimit
    decide
  · exact (truncate?_longest (standard.withMaxSqlLength 3) "😀").2.2.2.2 3 rfl '😀' rfl (by decide)

end Config

end CriteriaSql
