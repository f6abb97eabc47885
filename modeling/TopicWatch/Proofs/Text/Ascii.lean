import TopicWatch.Proofs.Text.Utf8
import TopicWatch.Text.Ascii

/-!
# ASCII case in texts and in their bytes

Folding the bytes of a text gives the bytes of the text in lower case, as no byte of a longer
character is that of a letter. So two texts are equal up to ASCII case exactly if they are
equal in lower case, and one ends with another exactly if it does in lower case.
-/

namespace TopicWatch.Ascii

theorem fold_of_le {b : UInt8} (h : 0x80 ≤ b.toNat) : fold b = b := by
  rw [fold, if_neg]
  rintro ⟨-, hle⟩
  have hle : b.toNat ≤ 0x5A := UInt8.le_iff_toNat_le.1 hle
  omega

theorem map_fold_encodeChar (c : Char) :
    (String.utf8EncodeChar c).map fold = String.utf8EncodeChar c.toLower := by
  by_cases hlow : c.val.toNat < 0x80
  · have hascii : ∀ n < 0x80, (String.utf8EncodeChar (Char.ofNat n)).map fold =
        String.utf8EncodeChar (Char.ofNat n).toLower := by decide
    have hchar : Char.ofNat c.val.toNat = c := Char.ofNat_toNat c
    rw [← hchar]
    exact hascii _ hlow
  · have hnot : ¬(c.val ≥ 'A'.val ∧ c.val ≤ 'Z'.val) := by
      rintro ⟨-, hle⟩
      have hle : c.val.toNat ≤ 0x5A := UInt32.le_iff_toNat_le.1 hle
      omega
    have hsame : c.toLower = c := dif_neg hnot
    have hhigh : ∀ b ∈ String.utf8EncodeChar c, 0x80 ≤ b.toNat := by
      intro b hb
      rcases Utf8.mem_encodeChar hb with heq | hge
      · rw [heq]
        exact Nat.le_of_not_lt hlow
      · exact hge
    have hfold : (String.utf8EncodeChar c).map fold = (String.utf8EncodeChar c).map id :=
      List.map_congr_left fun b hb => fold_of_le (hhigh b hb)
    rw [hsame, hfold, List.map_id]

theorem toList_toLower (s : String) : s.toLower.toList = s.toList.map Char.toLower :=
  String.toList_map

/-- Folding bytes is lower case for characters. -/
theorem map_fold_encode (s : String) : (Utf8.encode s).map fold = Utf8.encode s.toLower := by
  rw [Utf8.encode, Utf8.encode, toList_toLower, List.map_flatMap, List.flatMap_map]
  simp only [map_fold_encodeChar]

theorem equalFold_iff {a b : String} : equalFold a b ↔ a.toLower = b.toLower := by
  rw [equalFold, beq_iff_eq, map_fold_encode, map_fold_encode]
  exact ⟨Utf8.encode_injective, congrArg Utf8.encode⟩

/-- One text ends with another one up to ASCII case exactly if its characters do. -/
theorem endsWithFold_iff {text ending : String} :
    endsWithFold text ending ↔
      ending.toList.map Char.toLower <:+ text.toList.map Char.toLower := by
  have hbytes : ending.toList.map Char.toLower <:+ text.toList.map Char.toLower ↔
      (Utf8.encode ending).map fold <:+ (Utf8.encode text).map fold := by
    rw [map_fold_encode, map_fold_encode, Utf8.encode_suffix_iff, toList_toLower, toList_toLower]
  rw [hbytes, endsWithFold, Bool.and_eq_true, decide_eq_true_iff, beq_iff_eq, List.map_drop]
  constructor
  · rintro ⟨-, hdrop⟩
    rw [← hdrop]
    exact List.drop_suffix _ _
  · intro h
    have hle := h.length_le
    have hdrop := List.suffix_iff_eq_drop.1 h
    rw [List.length_map, List.length_map] at hle hdrop
    exact ⟨hle, hdrop.symm⟩

end TopicWatch.Ascii
