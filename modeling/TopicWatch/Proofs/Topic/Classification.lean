import TopicWatch.Proofs.Text.Ascii
import TopicWatch.Topic.Suffixes

/-!
# Topics are told by their endings

Endings are compared byte by byte, yet what a topic is for depends on characters only. It
depends on the set of endings up to ASCII case and on nothing else about the lists.
-/

namespace TopicWatch.Topic

/-- An ending stands at the end of a topic, character by character and up to ASCII case. The
empty one stands nowhere. -/
def StandsAtEnd (ending topic : String) : Prop :=
  ending ≠ "" ∧ ending.toList.map Char.toLower <:+ topic.toList.map Char.toLower

/-- Two lists hold the same endings up to ASCII case, in any order and any number of times. -/
def SameEndings (endings others : List String) : Prop :=
  ∀ e, e ∈ endings.map String.toLower ↔ e ∈ others.map String.toLower

theorem endsWith_iff {topic ending : String} : endsWith topic ending ↔ StandsAtEnd ending topic := by
  rw [endsWith, StandsAtEnd, Bool.and_eq_true, Ascii.endsWithFold_iff, Bool.not_eq_true',
    String.isEmpty_eq_false_iff]

theorem endsWithAny_iff {topic : String} {endings : List String} :
    endsWithAny topic endings ↔ ∃ e ∈ endings, StandsAtEnd e topic := by
  simp only [endsWithAny, List.any_eq_true, endsWith_iff]

theorem StandsAtEnd.append {ending topic : String} (h : StandsAtEnd ending topic)
    (front : String) : StandsAtEnd ending (front ++ topic) := by
  refine ⟨h.1, h.2.trans ?_⟩
  rw [String.toList_append, List.map_append]
  exact List.suffix_append _ _

/-- Only the lower case of both texts counts. -/
theorem standsAtEnd_iff_toLower {ending topic : String} :
    StandsAtEnd ending topic ↔
      ending.toLower ≠ "" ∧ ending.toLower.toList <:+ topic.toLower.toList := by
  have hempty : ending.toLower = "" ↔ ending = "" := by
    rw [← String.toList_eq_nil_iff, ← String.toList_eq_nil_iff, Ascii.toList_toLower,
      List.map_eq_nil_iff]
  rw [StandsAtEnd, ne_eq, ne_eq, hempty, Ascii.toList_toLower, Ascii.toList_toLower]

/-- The endings of a topic are the same under other spellings of topic and endings. -/
theorem exists_standsAtEnd_congr {topic topic' : String} {endings endings' : List String}
    (htopic : topic'.toLower = topic.toLower) (hendings : SameEndings endings' endings) :
    (∃ e ∈ endings', StandsAtEnd e topic') ↔ ∃ e ∈ endings, StandsAtEnd e topic := by
  have hlower : ∀ (t : String) (es : List String), (∃ e ∈ es, StandsAtEnd e t) ↔
      ∃ e ∈ es.map String.toLower, e ≠ "" ∧ e.toList <:+ t.toLower.toList := by
    intro t es
    constructor
    · rintro ⟨e, he, hend⟩
      exact ⟨e.toLower, List.mem_map_of_mem he, standsAtEnd_iff_toLower.1 hend⟩
    · rintro ⟨_, hlower, hend⟩
      obtain ⟨e, he, rfl⟩ := List.mem_map.1 hlower
      exact ⟨e, he, standsAtEnd_iff_toLower.2 hend⟩
  rw [hlower, hlower, htopic]
  simp only [hendings _]

/-- What the endings that stand at the end of a topic say that it is for. -/
def Told (topic : String) (error retry : List String) : Kind → Prop
  | .error => ∃ e ∈ error, StandsAtEnd e topic
  | .retry => (¬∃ e ∈ error, StandsAtEnd e topic) ∧ ∃ e ∈ retry, StandsAtEnd e topic
  | .normal => (¬∃ e ∈ error, StandsAtEnd e topic) ∧ ¬∃ e ∈ retry, StandsAtEnd e topic

section Classify

variable {topic : String} {error retry : List String}

theorem classify_eq_iff {kind : Kind} :
    classify topic error retry = kind ↔ Told topic error retry kind := by
  rw [classify]
  by_cases herror : ∃ e ∈ error, StandsAtEnd e topic
  · rw [if_pos (endsWithAny_iff.2 herror)]
    cases kind <;> simp [Told, herror]
  · rw [if_neg (mt endsWithAny_iff.1 herror)]
    by_cases hretry : ∃ e ∈ retry, StandsAtEnd e topic
    · rw [if_pos (endsWithAny_iff.2 hretry)]
      cases kind <;> simp only [Told, herror, hretry] <;> simp
    · rw [if_neg (mt endsWithAny_iff.1 hretry)]
      cases kind <;> simp only [Told, herror, hretry] <;> simp

/-- What a topic is for does not depend on how topic and endings are spelled. -/
theorem classify_congr {topic' : String} {error' retry' : List String}
    (htopic : topic'.toLower = topic.toLower) (herror : SameEndings error' error)
    (hretry : SameEndings retry' retry) :
    classify topic' error' retry' = classify topic error retry := by
  have herror := exists_standsAtEnd_congr htopic herror
  have hretry := exists_standsAtEnd_congr htopic hretry
  have htold : Told topic error retry (classify topic error retry) := classify_eq_iff.1 rfl
  apply classify_eq_iff.2
  cases hkind : classify topic error retry with
  | error =>
      rw [hkind] at htold
      exact herror.2 htold
  | retry =>
      rw [hkind] at htold
      exact ⟨mt herror.1 htold.1, hretry.2 htold.2⟩
  | normal =>
      rw [hkind] at htold
      exact ⟨mt herror.1 htold.1, mt hretry.1 htold.2⟩

end Classify

/-- A topic is classified by the characters that it ends with. It is an error topic exactly if
one of the endings of error topics stands at its end, a retry topic exactly if none of those does
and one of the endings of retry topics does, and normal otherwise. So neither the ASCII case of
topic and endings makes a difference nor the order of the endings or how often they are listed,
an error topic is still one with anything in front of it, and whatever the endings of retry
topics are. -/
theorem classified_by_characters (topic : String) (error retry : List String) :
    (classify topic error retry = .error ↔ ∃ e ∈ error, StandsAtEnd e topic) ∧
      (classify topic error retry = .retry ↔
        (¬∃ e ∈ error, StandsAtEnd e topic) ∧ ∃ e ∈ retry, StandsAtEnd e topic) ∧
      (classify topic error retry = .normal ↔
        (¬∃ e ∈ error, StandsAtEnd e topic) ∧ ¬∃ e ∈ retry, StandsAtEnd e topic) ∧
      (∀ topic' error' retry', topic'.toLower = topic.toLower → SameEndings error' error →
        SameEndings retry' retry →
          classify topic' error' retry' = classify topic error retry) ∧
      (∀ front, classify topic error retry = .error →
        classify (front ++ topic) error retry = .error) ∧
      ∀ retry', classify topic error retry = .error → classify topic error retry' = .error := by
  refine ⟨classify_eq_iff, classify_eq_iff, classify_eq_iff, fun _ _ _ => classify_congr, ?_, ?_⟩
  · intro front h
    obtain ⟨e, he, hend⟩ := classify_eq_iff.1 h
    exact classify_eq_iff.2 ⟨e, he, hend.append front⟩
  · intro retry' h
    obtain ⟨e, he, hend⟩ := classify_eq_iff.1 h
    exact classify_eq_iff.2 ⟨e, he, hend⟩

/-- Only the letters of ASCII are folded, so of the two endings only the second one stands at the
end of the topic. -/
theorem classified_by_characters_folded :
    "KööR".toLower = "köör".toLower ∧ SameEndings ["öR", "ÖR", "öR"] ["ÖR", "ör"] ∧
      SameEndings [] [] ∧ classify "köör" ["ÖR", "ör"] [] = .error ∧
      classify "KööR" ["öR", "ÖR", "öR"] [] = classify "köör" ["ÖR", "ör"] [] ∧
      classify ("x" ++ "köör") ["ÖR", "ör"] [] = .error ∧
      classify "köör" ["ÖR", "ör"] ["r"] = .error := by
  have htopic : "KööR".toLower = "köör".toLower := Ascii.equalFold_iff.1 (by decide)
  have herror : SameEndings ["öR", "ÖR", "öR"] ["ÖR", "ör"] := by
    have hsame : "öR".toLower = "ör".toLower := Ascii.equalFold_iff.1 (by decide)
    intro e
    simp only [List.map_cons, List.map_nil, List.mem_cons, List.not_mem_nil, or_false, hsame]
    constructor
    · rintro (h | h | h)
      · exact Or.inr h
      · exact Or.inl h
      · exact Or.inr h
    · rintro (h | h)
      · exact Or.inr (Or.inl h)
      · exact Or.inl h
  have hretry : SameEndings [] [] := fun _ => Iff.rfl
  have hkind : classify "köör" ["ÖR", "ör"] [] = .error := by decide +kernel
  have hlaws := classified_by_characters "köör" ["ÖR", "ör"] []
  exact ⟨htopic, herror, hretry, hkind, hlaws.2.2.2.1 _ _ _ htopic herror hretry,
    hlaws.2.2.2.2.1 "x" hkind, hlaws.2.2.2.2.2 ["r"] hkind⟩

end TopicWatch.Topic
