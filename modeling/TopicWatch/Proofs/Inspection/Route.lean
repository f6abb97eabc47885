import Mathlib.Data.List.TakeWhile
import TopicWatch.Inspection.Route
import TopicWatch.Proofs.Json.Text
import TopicWatch.Proofs.Text.Ascii
import TopicWatch.Record.Kind

/-!
# What targets ask for

A target is read up to its query. Its path is that of all observations, or one segment below
it that stands for a name, and every name but the empty one can be asked for. A kind is known
by its name in letters of either case.
-/

namespace TopicWatch

/-! ## Names of kinds -/

theorem Record.Kind.toLower_name (kind : Kind) : kind.name.toLower = kind.name := by
  apply String.toList_injective
  rw [Ascii.toList_toLower]
  cases kind <;> decide

theorem Record.Kind.ofName?_eq_some_iff {name : String} {kind : Kind} :
    ofName? name = some kind ↔ name.toLower = kind.name := by
  have hsound : ∀ kind, ofName? name = some kind → name.toLower = kind.name := by
    intro kind h
    rw [ofName?] at h
    have hequal := List.find?_some h
    rw [← Ascii.equalFold_iff.1 hequal, toLower_name]
  refine ⟨hsound kind, fun h => ?_⟩
  cases hfound : ofName? name with
  | none =>
      have hequal : Ascii.equalFold kind.name name :=
        Ascii.equalFold_iff.2 (kind.toLower_name.trans h.symm)
      exact absurd hequal (List.find?_eq_none.1 hfound kind (mem_all kind))
  | some other => rw [name_injective ((hsound other hfound).symm.trans h)]

/-! ## Percent signs -/

namespace Percent

/-- A byte as a percent sign and two digits. -/
def escape (b : UInt8) : List Char :=
  ['%', Char.ofNat (Json.hexByte (b.toNat / 16)).toNat,
    Char.ofNat (Json.hexByte (b.toNat % 16)).toNat]

theorem encode_escape (b : UInt8) :
    (escape b).flatMap String.utf8EncodeChar =
      [sign, Json.hexByte (b.toNat / 16), Json.hexByte (b.toNat % 16)] := by
  have hdigit : ∀ n < 16, String.utf8EncodeChar (Char.ofNat (Json.hexByte n).toNat) =
      [Json.hexByte n] := by decide
  have hb : b.toNat < 256 := b.toNat_lt
  rw [escape, List.flatMap_cons, List.flatMap_cons, List.flatMap_singleton,
    hdigit _ (by omega), hdigit _ (by omega)]
  rfl

theorem decode_escape (b : UInt8) (rest : Bytes) :
    decode (sign :: Json.hexByte (b.toNat / 16) :: Json.hexByte (b.toNat % 16) :: rest) =
      b :: decode rest := by
  have hb : b.toNat < 256 := b.toNat_lt
  have hbyte : byte? (Json.hexByte (b.toNat / 16)) (Json.hexByte (b.toNat % 16)) = some b := by
    have hsum : b.toNat / 16 * 16 + b.toNat % 16 = b.toNat := by omega
    rw [byte?, Json.hexDigit?_hexByte (by omega), Json.hexDigit?_hexByte (by omega)]
    simp only [hsum, UInt8.ofNat_toNat]
  rw [decode, if_pos rfl, hbyte]

/-- Bytes that are all written with percent signs are read back. -/
theorem decode_escapes (bs : Bytes) :
    decode ((bs.flatMap escape).flatMap String.utf8EncodeChar) = bs := by
  induction bs with
  | nil => rfl
  | cons b bs ih =>
      rw [List.flatMap_cons, List.flatMap_append, encode_escape]
      exact (decode_escape b _).trans (congrArg (b :: ·) ih)

theorem not_mem_escapes {c : Char} (hsign : c ≠ '%') (hdigit : ∀ n < 16,
    c ≠ Char.ofNat (Json.hexByte n).toNat) (bs : Bytes) : c ∉ bs.flatMap escape := by
  rw [List.mem_flatMap]
  rintro ⟨b, -, hc⟩
  have hb : b.toNat < 256 := b.toNat_lt
  simp only [escape, List.mem_cons, List.not_mem_nil, or_false] at hc
  rcases hc with hc | hc | hc
  · exact hsign hc
  · exact hdigit _ (by omega) hc
  · exact hdigit _ (by omega) hc

end Percent

namespace Inspection

/-! ## Targets -/

namespace Resource

theorem after?_eq_some_iff {front s rest : List Char} :
    after? front s = some rest ↔ s = front ++ rest := by
  induction front generalizing s with
  | nil => simp [after?]
  | cons c front ih =>
      cases s with
      | nil => simp [after?]
      | cons d s =>
          rw [after?, List.cons_append, List.cons.injEq]
          by_cases hc : c = d
          · rw [if_pos hc, ih]
            simp [hc]
          · rw [if_neg hc]
            simp [Ne.symm hc]

theorem ofTarget?_eq_all_iff {target : String} :
    ofTarget? target = some .all ↔ path target = allPath.toList := by
  have hfront := @after?_eq_some_iff allPath.toList (path target) []
  rw [List.append_nil] at hfront
  rw [ofTarget?, ← hfront]
  cases after? allPath.toList (path target) with
  | none => simp
  | some rest =>
      cases rest with
      | nil => simp
      | cons slash segment => simp

end Resource

/-- A target whose path is that of all observations. -/
def OfAll (target : String) : Prop := Resource.path target = Resource.allPath.toList

instance (target : String) : Decidable (OfAll target) := inferInstanceAs (Decidable (_ = _))

/-- A target whose path has one more segment, which stands for a name. -/
def OfName (target name : String) : Prop :=
  ∃ segment, Resource.path target = Resource.allPath.toList ++ '/' :: segment ∧
    segment ≠ [] ∧ '/' ∉ segment ∧ segmentText? (String.ofList segment) = some name

theorem OfAll.ofRequest {target : String} (h : OfAll target) (method : Method) :
    Query.ofRequest method target = Query.of method .all := by
  rw [Query.ofRequest, Resource.ofTarget?_eq_all_iff.2 h]

theorem OfName.ofRequest {target name : String} (h : OfName target name) :
    Query.ofRequest .get target = .ok (.list name) := by
  obtain ⟨segment, hpath, hne, hslash, htext⟩ := h
  rw [Query.ofRequest, Resource.ofTarget?, Resource.after?_eq_some_iff.2 hpath]
  simp only [hne, hslash, ne_eq, not_false_eq_true, and_self, if_true, Query.of, htext]

/-- Only deleting all observations clears. -/
theorem ofRequest_eq_clear_iff {method : Method} {target : String} :
    Query.ofRequest method target = .ok .clear ↔ method = .delete ∧ OfAll target := by
  rw [OfAll, ← Resource.ofTarget?_eq_all_iff, Query.ofRequest]
  cases Resource.ofTarget? target with
  | none => simp
  | some resource =>
      cases resource with
      | all => cases method <;> simp [Query.of]
      | kind segment =>
          cases method with
          | get | head =>
              simp only [Query.of]
              split <;> simp
          | delete | other => simp [Query.of]

/-- Every name but the empty one can be asked for. -/
theorem exists_ofName {name : String} (h : name ≠ "") : ∃ target, OfName target name := by
  let segment := (Utf8.encode name).flatMap Percent.escape
  have hnone : ∀ c, c ≠ '%' → (∀ n < 16, c ≠ Char.ofNat (Json.hexByte n).toNat) → c ∉ segment :=
    fun c hsign hdigit => Percent.not_mem_escapes hsign hdigit _
  have htext : Percent.decode (segment.flatMap String.utf8EncodeChar) = Utf8.encode name :=
    Percent.decode_escapes _
  have hkept : ∀ c ∈ Resource.allPath.toList ++ '/' :: segment, c != '?' && c != '#' := by
    have hfixed : Resource.allPath.toList.all fun c => c != '?' && c != '#' := by decide
    refine List.forall_mem_append.2 ⟨List.all_eq_true.1 hfixed, ?_⟩
    refine List.forall_mem_cons.2 ⟨rfl, fun c hc => ?_⟩
    have hquery : c ≠ '?' := fun heq => hnone '?' (by decide) (by decide) (heq ▸ hc)
    have hfragment : c ≠ '#' := fun heq => hnone '#' (by decide) (by decide) (heq ▸ hc)
    simp [hquery, hfragment]
  refine ⟨String.ofList (Resource.allPath.toList ++ '/' :: segment), segment, ?_, ?_, ?_, ?_⟩
  · rw [Resource.path, String.toList_ofList]
    exact List.takeWhile_eq_self_iff.2 hkept
  · intro hnil
    rw [hnil] at htext
    exact h (Utf8.encode_injective htext.symm)
  · exact hnone '/' (by decide) (by decide)
  · rw [segmentText?, Utf8.encode, String.toList_ofList, htext]
    exact Utf8.decode?_encode name

/-- A name in letters of either case, one of them behind a percent sign. -/
example : OfName "/api/observations/FAIL%65d?all" "FAILed" :=
  ⟨"FAIL%65d".toList, by decide, by decide, by decide, by decide +kernel⟩

end Inspection

end TopicWatch
