import JvmCoverage.Proofs.Field.Varint
import JvmCoverage.Text.Utf8
import Mathlib.Tactic.SplitIfs
/-!
# The order of texts is the order of their bytes

Texts are ordered by their characters, while the names of classes are meant to be ordered by the
bytes that they are written as. The two orders are one (`Utf8.encode_lt_iff`): a smaller character
has a smaller byte at the first place where the encoded forms differ, and no encoded form of a
character begins another one.
-/

set_option autoImplicit false
set_option relaxedAutoImplicit false

namespace JvmCoverage.Utf8

theorem encode_eq (text : String) : encode text = text.toList.flatMap String.utf8EncodeChar := by
  rw [encode, ← String.utf8Encode_toList, toList_eq_data]
  exact List.toList_data_toByteArray

/-- The first bytes that differ are there in both, and are smaller in the first row. -/
def Precedes : List UInt8 → List UInt8 → Prop
  | first :: rest, second :: others => first < second ∨ first = second ∧ Precedes rest others
  | _, _ => False

/-- Whatever follows, the order is decided. -/
theorem Precedes.append_lt {first second : List UInt8} (hprecedes : Precedes first second)
    (rest others : List UInt8) : first ++ rest < second ++ others := by
  induction first generalizing second with
  | nil => cases second <;> exact hprecedes.elim
  | cons byte front ih =>
    cases second with
    | nil => exact hprecedes.elim
    | cons other back =>
      rw [List.cons_append, List.cons_append, List.cons_lt_cons_iff]
      exact hprecedes.imp id fun ⟨hsame, hback⟩ ↦ ⟨hsame, ih hback⟩

theorem toNat_val_lt (char : Char) : char.val.toNat < 0x110000 := by
  have hvalid := char.valid
  simp only [UInt32.isValidChar, Nat.isValidChar] at hvalid
  omega

/-- The lead bytes of encoded forms of different lengths lie in different ranges, and within one
length the bytes are the digits of the character, the highest first. -/
theorem precedes_utf8EncodeChar {first second : Char} (hlt : first < second) :
    Precedes (String.utf8EncodeChar first) (String.utf8EncodeChar second) := by
  have hnumbers : first.val.toNat < second.val.toNat := hlt
  have hfirst := toNat_val_lt first
  have hsecond := toNat_val_lt second
  dsimp only [String.utf8EncodeChar]
  generalize first.val.toNat = low at *
  generalize second.val.toNat = high at *
  split_ifs
  all_goals
    simp (disch := omega) only [Precedes, UInt8.lt_iff_toNat_lt, ← UInt8.toNat_inj,
      UInt8.toNat_ofNat', Nat.mod_eq_of_lt]
    omega

theorem encode_lt_of_lt {first second : String} (hlt : first < second) :
    encode first < encode second := by
  rw [encode_eq, encode_eq]
  rw [String.lt_iff] at hlt
  generalize first.toList = chars at hlt ⊢
  generalize second.toList = others at hlt ⊢
  induction hlt with
  | @nil char rest =>
    obtain ⟨lead, bytes, hbytes⟩ := List.exists_cons_of_ne_nil (@String.utf8EncodeChar_ne_nil char)
    rw [List.flatMap_nil, List.flatMap_cons, hbytes, List.cons_append]
    exact List.nil_lt_cons _ _
  | rel hchar => exact (precedes_utf8EncodeChar hchar).append_lt _ _
  | cons _ ih => exact List.append_left_lt ih

theorem encode_lt_iff {first second : String} : encode first < encode second ↔ first < second := by
  refine ⟨fun hbytes ↦ ?_, encode_lt_of_lt⟩
  rcases Std.lt_trichotomy first second with hlt | heq | hgt
  · exact hlt
  · exact absurd hbytes (heq ▸ List.lt_irrefl _)
  · exact absurd hbytes (List.lt_asymm (encode_lt_of_lt hgt))

end JvmCoverage.Utf8
