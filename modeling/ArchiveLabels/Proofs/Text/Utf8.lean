import ArchiveLabels.Text.Utf8
import Mathlib.Data.String.Basic
import Mathlib.Tactic.SplitIfs

/-!
# The order of texts and of their bytes

Texts are ordered by their characters, file systems order names by their bytes. Both orders are the
same, as UTF-8 gives the smaller of two characters the smaller bytes (`utf8EncodeChar_append_lt`),
whatever follows it (`bytes_lt`).
-/

namespace ArchiveLabels.Text.Utf8

/-- The bytes of a text as a list. -/
def bytes (s : String) : List UInt8 :=
  (encode s).data.toList

/-- The bytes of a text are those of its characters, one after the other. -/
theorem bytes_eq (s : String) : bytes s = s.toList.flatMap String.utf8EncodeChar := by
  conv_lhs => rw [← String.ofList_toList (s := s)]
  rw [bytes, encode, String.toUTF8_eq_toByteArray, String.toByteArray_ofList, List.utf8Encode]
  simp

theorem toNat_lt (c : Char) : c.val.toNat < 0x110000 := by
  rcases c.valid with h | h
  · exact h.trans (by decide)
  · exact h.2

/-- The smaller of two characters has the smaller bytes, and neither is a front part of the other. -/
theorem utf8EncodeChar_append_lt {c d : Char} (h : c < d) (xs ys : List UInt8) :
    String.utf8EncodeChar c ++ xs < String.utf8EncodeChar d ++ ys := by
  have hlt : c.val.toNat < d.val.toNat := h
  have hd := toNat_lt d
  have hdigits (v : Nat) : v / 4096 = v / 64 / 64 ∧ v / 262144 = v / 64 / 64 / 64 := by
    omega
  simp only [String.utf8EncodeChar, (hdigits _).1, (hdigits _).2]
  split_ifs
  all_goals
    simp only [List.cons_append, List.nil_append, List.cons_lt_cons_iff, UInt8.lt_iff_toNat_lt,
      ← UInt8.toNat_inj, UInt8.toNat_ofNat']
    omega

/-- Of two texts the smaller one has the smaller bytes. -/
theorem bytes_lt {s t : String} (h : s < t) : bytes s < bytes t := by
  rw [bytes_eq, bytes_eq]
  have hlt : List.Lex (· < ·) s.toList t.toList := h
  generalize s.toList = cs at hlt
  generalize t.toList = ds at hlt
  induction hlt with
  | @nil d ds =>
    have hne : String.utf8EncodeChar d ≠ [] := String.utf8EncodeChar_ne_nil
    obtain ⟨b, bs, hbs⟩ := List.exists_cons_of_ne_nil hne
    rw [List.flatMap_nil, List.flatMap_cons, hbs]
    exact List.nil_lt_cons _ _
  | rel h => exact utf8EncodeChar_append_lt h _ _
  | cons _ ih => exact List.append_left_lt ih

end ArchiveLabels.Text.Utf8
