import TopicWatch.Proofs.Text.Utf8

/-!
# Damage to text stays where it is

Bytes are displayed character by character as far as characters stand there. A damaged stretch is
the longest front with which a character could still have begun, or a single byte with which none
begins, and shows as one `U+FFFD`. Since no byte that goes on with a character begins one, a text
among other bytes is displayed as it is, whatever stands on either side.
-/

namespace TopicWatch.Utf8

/-- Bytes with which the form of some character begins. -/
def WellBegun (t : Bytes) : Prop := ∃ c : Char, t <+: String.utf8EncodeChar c

/-- A stretch in front of further bytes is damaged: no character stands there, and it is either
one byte with which no character begins, or the longest stretch with which one does. -/
structure Damaged (stretch rest : Bytes) : Prop where
  noCharacter : ∀ c : Char, ¬String.utf8EncodeChar c <+: stretch ++ rest
  maximal : (∃ b, stretch = [b] ∧ ¬WellBegun [b]) ∨
    stretch ≠ [] ∧ WellBegun stretch ∧ ∀ b tail, rest = b :: tail → ¬WellBegun (stretch ++ [b])

/-- What bytes are displayed as: characters as they are, and a replacement character for every
damaged stretch. -/
inductive Displays : Bytes → List Char → Prop
  | nil : Displays [] []
  | char (c : Char) {rest : Bytes} {cs : List Char} (h : Displays rest cs) :
      Displays (String.utf8EncodeChar c ++ rest) (c :: cs)
  | damaged {stretch rest : Bytes} {cs : List Char} (hd : Damaged stretch rest)
      (h : Displays rest cs) : Displays (stretch ++ rest) ('\ufffd' :: cs)

/-- Forms of two to four bytes whose number has a shorter form, is a surrogate, or is greater than
every code point. -/
inductive Misformed : Bytes → Prop
  | two {v : Nat} (h : v < 0x80) :
      Misformed [UInt8.ofNat (v / 64 + 0xC0), UInt8.ofNat (v % 64 + 0x80)]
  | three {v : Nat} (h : v < 0x800 ∨ 0xD800 ≤ v ∧ v ≤ 0xDFFF) :
      Misformed [UInt8.ofNat (v / 4096 + 0xE0), UInt8.ofNat (v / 64 % 64 + 0x80),
        UInt8.ofNat (v % 64 + 0x80)]
  | four {v : Nat} (h : v < 0x10000 ∨ 0x10FFFF < v ∧ v < 0x200000) :
      Misformed [UInt8.ofNat (v / 262144 + 0xF0), UInt8.ofNat (v / 4096 % 64 + 0x80),
        UInt8.ofNat (v / 64 % 64 + 0x80), UInt8.ofNat (v % 64 + 0x80)]

/-- Bytes that do not begin with one that goes on with a character. -/
def Fresh (s : Bytes) : Prop := ∀ b ∈ s.head?, ¬(0x80 ≤ b ∧ b ≤ 0xBF)

/-! ## What stands behind -/

theorem lead?_range {b : UInt8} {l : Lead} (h : lead? b = some l) :
    0x80 ≤ l.least ∧ l.least ≤ l.greatest ∧ l.greatest ≤ 0xBF := by
  rcases lead?_cases h with ⟨-, -, rfl⟩ | ⟨-, -, rfl⟩ | ⟨-, -, rfl⟩
  · dsimp only
    decide
  · dsimp only
    split
    · next hleast =>
        rw [if_neg (by omega)]
        decide
    · split <;> decide
  · dsimp only
    split
    · next hleast =>
        rw [if_neg (by omega)]
        decide
    · split <;> decide

theorem follow_append {behind : Bytes} (hfresh : Fresh behind) {least greatest : UInt8}
    (hleast : 0x80 ≤ least) (hgreatest : greatest ≤ 0xBF) (n bits : Nat) (rest : Bytes) :
    follow n least greatest bits (rest ++ behind) =
      ((follow n least greatest bits rest).1, (follow n least greatest bits rest).2 ++ behind) := by
  induction n generalizing least greatest bits rest with
  | zero => rfl
  | succ n ih =>
      cases rest with
      | nil =>
          cases behind with
          | nil => rfl
          | cons x behind =>
              have hx : ¬(least ≤ x ∧ x ≤ greatest) := fun hx =>
                hfresh x rfl ⟨UInt8.le_trans hleast hx.1, UInt8.le_trans hx.2 hgreatest⟩
              exact if_neg hx
      | cons x rest =>
          rw [List.cons_append, follow, follow]
          split
          · exact ih (UInt8.le_refl _) (UInt8.le_refl _) _ rest
          · rfl

theorem next_append {behind : Bytes} (hfresh : Fresh behind) (b : UInt8) (rest : Bytes) :
    next b (rest ++ behind) = ((next b rest).1, (next b rest).2 ++ behind) := by
  unfold next
  split
  · rfl
  · split
    · rfl
    · next l hl =>
        have hrange := lead?_range hl
        exact follow_append hfresh hrange.1 hrange.2.2 l.following l.bits rest

/-- Bytes are cut as if nothing stood behind them, unless what does could go on with them. -/
theorem pieces_append {behind : Bytes} (hfresh : Fresh behind) (s : Bytes) :
    pieces (s ++ behind) = pieces s ++ pieces behind := by
  induction h : s.length using Nat.strongRecOn generalizing s with
  | ind n ih =>
      cases s with
      | nil => rw [pieces_nil]; rfl
      | cons b rest =>
          have hlt : (next b rest).2.length < n := by
            have := next_length_le b rest
            simp only [List.length_cons] at h
            omega
          rw [List.cons_append, pieces_cons, pieces_cons, next_append hfresh, ih _ hlt _ rfl]
          rfl

/-- A byte that only goes on with characters, or with which no form begins, is damaged alone. -/
theorem next_stray {b : UInt8} (h : 0x80 ≤ b.toNat) (hstray : b.toNat < 0xC2 ∨ 0xF5 ≤ b.toNat)
    (rest : Bytes) : next b rest = (.damaged, rest) := by
  have hhigh : ¬b < 0x80 := fun hlow => Nat.not_lt.2 h (UInt8.lt_iff_toNat_lt.1 hlow)
  rw [next, if_neg hhigh, lead?_eq_none hstray]

theorem next_of_prefix {b : UInt8} {s : Bytes} {c : Char}
    (h : String.utf8EncodeChar c <+: b :: s) : ∃ rest, next b s = (.char c, rest) := by
  obtain ⟨rest, hrest⟩ := h
  cases hc : String.utf8EncodeChar c with
  | nil => exact absurd hc String.utf8EncodeChar_ne_nil
  | cons x tail =>
      rw [hc] at hrest
      obtain ⟨rfl, rfl⟩ := List.cons.inj hrest
      exact ⟨rest, next_of_encodeChar hc rest⟩

theorem fresh_encodeChar (c : Char) (rest : Bytes) :
    Fresh (String.utf8EncodeChar c ++ rest) := by
  rintro b hb ⟨hleast, hgreatest⟩
  obtain ⟨tail, htail⟩ := List.head?_eq_some_iff.1 hb
  obtain ⟨rest', hnext⟩ := next_of_prefix (htail ▸ List.prefix_append _ rest)
  have hgreatest : b.toNat ≤ 0xBF := UInt8.le_iff_toNat_le.1 hgreatest
  rw [next_stray (UInt8.le_iff_toNat_le.1 hleast) (Or.inl (by omega))] at hnext
  cases hnext

theorem lossy_append {behind : Bytes} (hfresh : Fresh behind) (s : Bytes) :
    lossy (s ++ behind) = lossy s ++ lossy behind := by
  rw [lossy, pieces_append hfresh, List.map_append, String.ofList_append]
  rfl

theorem lossy_encode_append (s : String) (behind : Bytes) :
    lossy (encode s ++ behind) = s ++ lossy behind := by
  have hshown : (s.toList.map Piece.char).map Piece.shown = s.toList := by
    rw [List.map_map]
    exact List.map_id _
  rw [lossy, encode, pieces_encode_append, List.map_append, hshown, String.ofList_append,
    String.ofList_toList]
  rfl

theorem fresh_encode_append {s : String} (hs : s ≠ "") (behind : Bytes) :
    Fresh (encode s ++ behind) := by
  cases hcs : s.toList with
  | nil => exact absurd (String.toList_eq_nil_iff.1 hcs) hs
  | cons c cs =>
      rw [encode, hcs, List.flatMap_cons, List.append_assoc]
      exact fresh_encodeChar c _

/-- Text among other bytes is displayed as it is, and so is what stands on either side. -/
theorem lossy_append_encode_append (front behind : Bytes) {s : String} (hs : s ≠ "") :
    lossy (front ++ encode s ++ behind) = lossy front ++ s ++ lossy behind := by
  calc lossy (front ++ encode s ++ behind)
      = lossy (front ++ (encode s ++ behind)) := by rw [List.append_assoc]
    _ = lossy front ++ lossy (encode s ++ behind) :=
        lossy_append (fresh_encode_append hs behind) front
    _ = lossy front ++ (s ++ lossy behind) := by rw [lossy_encode_append]
    _ = lossy front ++ s ++ lossy behind := String.append_assoc.symm

/-! ## What a damaged stretch is -/

theorem WellBegun.mono {t t' : Bytes} (h : WellBegun t') (hfits : t <+: t') : WellBegun t := by
  obtain ⟨c, hc⟩ := h
  exact ⟨c, hfits.trans hc⟩

theorem follow_replicate (n bits : Nat) (rest : Bytes) :
    ∃ c, follow n 0x80 0xBF bits (List.replicate n 0x80 ++ rest) = (.char c, rest) := by
  induction n generalizing bits with
  | zero => exact ⟨_, rfl⟩
  | succ n ih =>
      rw [List.replicate_succ, List.cons_append, follow, if_pos (by decide)]
      exact ih _

/-- A character that breaks off could have gone on, but not with the byte that comes next. -/
theorem exists_of_follow_damaged {n bits : Nat} {least greatest : UInt8} {s rest : Bytes}
    (hrange : least ≤ greatest) (h : follow n least greatest bits s = (.damaged, rest)) :
    ∃ stretch, s = stretch ++ rest ∧
      (∃ more c, follow n least greatest bits (stretch ++ more) = (.char c, [])) ∧
      ∀ b tail, rest = b :: tail → ∀ more,
        (follow n least greatest bits (stretch ++ b :: more)).1 = .damaged := by
  induction n generalizing bits least greatest s with
  | zero => cases h
  | succ n ih =>
      have hgoesOn : ∃ more c, follow (n + 1) least greatest bits more = (.char c, []) := by
        obtain ⟨c, hc⟩ := follow_replicate n (bits * 64 + (least.toNat - 0x80)) []
        refine ⟨least :: (List.replicate n 0x80 ++ []), c, ?_⟩
        rw [follow, if_pos ⟨UInt8.le_refl _, hrange⟩, hc]
      cases s with
      | nil =>
          cases h
          refine ⟨[], rfl, hgoesOn, ?_⟩
          intro b tail hnil
          exact absurd hnil.symm (List.cons_ne_nil b tail)
      | cons x s =>
          rw [follow] at h
          split at h
          · next hx =>
              obtain ⟨stretch, rfl, ⟨more, c, hmore⟩, hends⟩ := ih (by decide) h
              refine ⟨x :: stretch, rfl, ⟨more, c, ?_⟩, ?_⟩
              · rw [List.cons_append, follow, if_pos hx, hmore]
              · intro b tail hrest more
                rw [List.cons_append, follow, if_pos hx]
                exact hends b tail hrest more
          · next hx =>
              cases h
              refine ⟨[], rfl, hgoesOn, ?_⟩
              intro b tail hrest more
              obtain ⟨rfl, -⟩ := List.cons.inj hrest
              rw [List.nil_append, follow, if_neg hx]

theorem not_wellBegun_of_next {b : UInt8} {s : Bytes}
    (h : ∀ more, (next b (s ++ more)).1 = .damaged) : ¬WellBegun (b :: s) := by
  rintro ⟨c, more, hc⟩
  have hfits : String.utf8EncodeChar c <+: b :: (s ++ more) := hc ▸ List.prefix_refl _
  obtain ⟨rest, hnext⟩ := next_of_prefix hfits
  have hdamaged := h more
  rw [hnext] at hdamaged
  cases hdamaged

theorem wellBegun_of_next {b : UInt8} {s more : Bytes} {c : Char}
    (h : next b (s ++ more) = (.char c, [])) : WellBegun (b :: s) := by
  have hform := encodeChar_of_next h
  rw [List.append_nil] at hform
  exact ⟨c, more, hform⟩

/-- What is cut off as damage is a damaged stretch. -/
theorem damaged_of_next {b : UInt8} {s rest : Bytes} (h : next b s = (.damaged, rest)) :
    ∃ stretch, b :: s = stretch ++ rest ∧ Damaged stretch rest := by
  have hnone : ∀ c : Char, ¬String.utf8EncodeChar c <+: b :: s := by
    intro c hc
    obtain ⟨rest', hnext⟩ := next_of_prefix hc
    rw [h] at hnext
    cases hnext
  by_cases hlow : b < 0x80
  · rw [next, if_pos hlow] at h
    cases h
  · cases hl : lead? b with
    | none =>
        have hstray : ∀ more, next b more = (.damaged, more) := by
          intro more
          rw [next, if_neg hlow, hl]
        obtain rfl : s = rest := congrArg Prod.snd ((hstray s).symm.trans h)
        refine ⟨[b], rfl, hnone, Or.inl ⟨b, rfl, ?_⟩⟩
        exact not_wellBegun_of_next fun more => congrArg Prod.fst (hstray more)
    | some l =>
        have hfollow : ∀ more, next b more = follow l.following l.least l.greatest l.bits more := by
          intro more
          rw [next, if_neg hlow, hl]
        rw [hfollow] at h
        obtain ⟨stretch, rfl, ⟨more, c, hmore⟩, hends⟩ :=
          exists_of_follow_damaged (lead?_range hl).2.1 h
        refine ⟨b :: stretch, rfl, hnone, Or.inr ⟨List.cons_ne_nil b stretch, ?_, ?_⟩⟩
        · exact wellBegun_of_next ((hfollow _).trans hmore)
        · intro x tail hrest
          apply not_wellBegun_of_next
          intro more
          show (next b (stretch ++ [x] ++ more)).1 = .damaged
          rw [List.append_assoc, hfollow]
          exact hends x tail hrest more

theorem Damaged.ne_nil {stretch rest : Bytes} (h : Damaged stretch rest) : stretch ≠ [] := by
  rcases h.maximal with ⟨b, rfl, -⟩ | ⟨hne, -⟩
  · exact List.cons_ne_nil b []
  · exact hne

/-- Of two damaged stretches at the same place neither goes on behind the other. -/
theorem Damaged.eq_nil {stretch more rest : Bytes} (h : Damaged stretch (more ++ rest))
    (h' : Damaged (stretch ++ more) rest) : more = [] := by
  cases more with
  | nil => rfl
  | cons x more =>
      exfalso
      have hlonger : ∀ b, stretch ++ x :: more ≠ [b] := by
        intro b heq
        have hlength := congrArg List.length heq
        have hpos := List.length_pos_iff.2 h.ne_nil
        simp only [List.length_append, List.length_cons, List.length_nil] at hlength
        omega
      rcases h'.maximal with ⟨b, heq, -⟩ | ⟨-, hbegun, -⟩
      · exact hlonger b heq
      · rcases h.maximal with ⟨b, rfl, hnone⟩ | ⟨-, -, hends⟩
        · exact hnone (hbegun.mono (List.prefix_append _ _))
        · apply hends x _ rfl
          refine hbegun.mono ⟨more, ?_⟩
          rw [List.append_assoc, List.singleton_append]

theorem Damaged.unique {stretch stretch' rest rest' : Bytes} (h : Damaged stretch rest)
    (h' : Damaged stretch' rest') (heq : stretch ++ rest = stretch' ++ rest') : rest = rest' := by
  rcases List.append_eq_append_iff.1 heq with ⟨more, rfl, rfl⟩ | ⟨more, rfl, rfl⟩
  · rw [h.eq_nil h', List.nil_append]
  · rw [h'.eq_nil h, List.nil_append]

/-- A damaged stretch is one piece. -/
theorem Damaged.pieces {stretch rest : Bytes} (h : Damaged stretch rest) :
    Utf8.pieces (stretch ++ rest) = .damaged :: Utf8.pieces rest := by
  cases stretch with
  | nil => exact absurd rfl h.ne_nil
  | cons b s =>
      rw [List.cons_append, pieces_cons]
      cases hnext : next b (s ++ rest) with
      | mk p rest' =>
          cases p with
          | char c =>
              have hform := encodeChar_of_next hnext
              exact absurd ⟨rest', hform.symm⟩ (h.noCharacter c)
          | damaged =>
              obtain ⟨stretch', heq, h'⟩ := damaged_of_next hnext
              rw [h.unique h' heq]

theorem displays_pieces (s : Bytes) : Displays s ((pieces s).map Piece.shown) := by
  induction h : s.length using Nat.strongRecOn generalizing s with
  | ind n ih =>
      cases s with
      | nil =>
          rw [pieces_nil]
          exact Displays.nil
      | cons b s =>
          have hlt : (next b s).2.length < n := by
            have := next_length_le b s
            simp only [List.length_cons] at h
            omega
          have hrest := ih _ hlt _ rfl
          rw [pieces_cons]
          cases hnext : next b s with
          | mk p rest =>
              rw [hnext] at hrest
              cases p with
              | char c =>
                  rw [encodeChar_of_next hnext]
                  exact Displays.char c hrest
              | damaged =>
                  obtain ⟨stretch, heq, hd⟩ := damaged_of_next hnext
                  rw [heq]
                  exact Displays.damaged hd hrest

theorem Displays.eq_pieces {s : Bytes} {cs : List Char} (h : Displays s cs) :
    cs = (pieces s).map Piece.shown := by
  induction h with
  | nil =>
      rw [pieces_nil]
      rfl
  | char c _ ih =>
      rw [pieces_encodeChar_append, ih]
      rfl
  | damaged hd _ ih =>
      rw [hd.pieces, ih]
      rfl

/-- Bytes are displayed in one way only. -/
theorem lossy_eq_iff {s : Bytes} {text : String} : lossy s = text ↔ Displays s text.toList := by
  constructor
  · rintro rfl
    rw [lossy, String.toList_ofList]
    exact displays_pieces s
  · intro h
    rw [lossy, ← h.eq_pieces, String.ofList_toList]

/-! ## Forms of no character -/

theorem pieces_stray {n : Nat} (h : 0x80 ≤ n) (hstray : n < 0xC2 ∨ 0xF5 ≤ n) (hn : n < 256)
    (rest : Bytes) : pieces (UInt8.ofNat n :: rest) = .damaged :: pieces rest := by
  have hval := toNat_ofNat_of_lt hn
  rw [pieces_cons, next_stray (by omega) (by omega)]

theorem pieces_continuation (n : Nat) (rest : Bytes) :
    pieces (UInt8.ofNat (n % 64 + 0x80) :: rest) = .damaged :: pieces rest :=
  pieces_stray (by omega) (by omega) (by omega) rest

/-- The second byte does not fit the first one. -/
theorem pieces_halted {n m following bits : Nat} {least greatest : UInt8} (hn : 0x80 ≤ n)
    (hn' : n < 256) (hm : m < 256)
    (hl : lead? (UInt8.ofNat n) = some ⟨following + 1, least, greatest, bits⟩)
    (hx : m < least.toNat ∨ greatest.toNat < m) (rest : Bytes) :
    pieces (UInt8.ofNat n :: UInt8.ofNat m :: rest) =
      .damaged :: pieces (UInt8.ofNat m :: rest) := by
  have hout : ¬(least ≤ UInt8.ofNat m ∧ UInt8.ofNat m ≤ greatest) := by
    rw [UInt8.le_iff_toNat_le, UInt8.le_iff_toNat_le, toNat_ofNat_of_lt hm]
    omega
  rw [pieces_cons, next_ofNat hn hn' hl, follow, if_neg hout]

/-- Of a form that is not that of a character every byte is damaged by itself. -/
theorem Misformed.pieces {t : Bytes} (h : Misformed t) (rest : Bytes) :
    Utf8.pieces (t ++ rest) = List.replicate t.length .damaged ++ Utf8.pieces rest := by
  cases h with
  | @two v hv =>
      show Utf8.pieces (_ :: _ :: rest) = .damaged :: .damaged :: Utf8.pieces rest
      rw [pieces_stray (by omega) (by omega) (by omega), pieces_continuation]
  | @three v hv =>
      show Utf8.pieces (_ :: _ :: _ :: rest) =
        .damaged :: .damaged :: .damaged :: Utf8.pieces rest
      have hfirst : Utf8.pieces (UInt8.ofNat (v / 4096 + 0xE0) ::
            UInt8.ofNat (v / 64 % 64 + 0x80) :: UInt8.ofNat (v % 64 + 0x80) :: rest) =
          .damaged :: Utf8.pieces
            (UInt8.ofNat (v / 64 % 64 + 0x80) :: UInt8.ofNat (v % 64 + 0x80) :: rest) := by
        rcases hv with hshort | hsurrogate
        · have hzero : v / 4096 + 0xE0 = 0xE0 := by omega
          have hlow : v / 64 % 64 + 0x80 < 0xA0 := by omega
          rw [hzero, pieces_halted (by decide) (by decide) (by omega) (lead?_three (by decide)
            (by decide)) (Or.inl hlow)]
        · have hmark : v / 4096 + 0xE0 = 0xED := by omega
          have hhigh : 0x9F < v / 64 % 64 + 0x80 := by omega
          rw [hmark, pieces_halted (by decide) (by decide) (by omega) (lead?_three (by decide)
            (by decide)) (Or.inr hhigh)]
      rw [hfirst, pieces_continuation, pieces_continuation]
  | @four v hv =>
      show Utf8.pieces (_ :: _ :: _ :: _ :: rest) =
        .damaged :: .damaged :: .damaged :: .damaged :: Utf8.pieces rest
      have hfirst : Utf8.pieces (UInt8.ofNat (v / 262144 + 0xF0) ::
            UInt8.ofNat (v / 4096 % 64 + 0x80) :: UInt8.ofNat (v / 64 % 64 + 0x80) ::
              UInt8.ofNat (v % 64 + 0x80) :: rest) =
          .damaged :: Utf8.pieces (UInt8.ofNat (v / 4096 % 64 + 0x80) ::
            UInt8.ofNat (v / 64 % 64 + 0x80) :: UInt8.ofNat (v % 64 + 0x80) :: rest) := by
        by_cases hshort : v < 0x10000
        · have hzero : v / 262144 + 0xF0 = 0xF0 := by omega
          have hlow : v / 4096 % 64 + 0x80 < 0x90 := by omega
          rw [hzero, pieces_halted (by decide) (by decide) (by omega) (lead?_four (by decide)
            (by decide)) (Or.inl hlow)]
        · by_cases hmark : v / 262144 + 0xF0 = 0xF4
          · have hhigh : 0x8F < v / 4096 % 64 + 0x80 := by omega
            rw [hmark, pieces_halted (by decide) (by decide) (by omega) (lead?_four (by decide)
              (by decide)) (Or.inr hhigh)]
          · rw [pieces_stray (by omega) (by omega) (by omega)]
      rw [hfirst, pieces_continuation, pieces_continuation, pieces_continuation]

theorem Misformed.lossy {t : Bytes} (h : Misformed t) (rest : Bytes) :
    Utf8.lossy (t ++ rest) =
      String.ofList (List.replicate t.length '\ufffd') ++ Utf8.lossy rest := by
  rw [Utf8.lossy, h.pieces, List.map_append, List.map_replicate, String.ofList_append]
  rfl

/-- Damage stays where it is. A text among any other bytes is displayed as it is, and what stands
in front of it and behind it as if it stood alone; so a character that breaks off in front takes
nothing of the text with it, and bytes that are those of a text show that text. Bytes are
displayed by their characters and one replacement character for each damaged stretch, which is
the longest one with which a character begins, or a byte with which none does, and in no other
way. Of an overlong form, a surrogate and a number above every code point every byte is damaged
by itself. -/
theorem damage_stays_local :
    (∀ (front behind : Bytes) (s : String), s ≠ "" →
      lossy (front ++ encode s ++ behind) = lossy front ++ s ++ lossy behind) ∧
      (∀ s, lossy (encode s) = s) ∧
      (∀ bytes text, lossy bytes = text ↔ Displays bytes text.toList) ∧
      ∀ t rest, Misformed t →
        lossy (t ++ rest) = String.ofList (List.replicate t.length '\ufffd') ++ lossy rest := by
  refine ⟨?_, lossy_encode, fun _ _ => lossy_eq_iff, fun _ rest h => h.lossy rest⟩
  intro front behind s hs
  exact lossy_append_encode_append front behind hs

/-- The first two bytes of a character of three do not take the first byte of the next character
with them, and none of the three bytes of a surrogate is taken for a character. -/
theorem damage_stays_local_cut :
    "é" ≠ "" ∧ Misformed [0xED, 0xA0, 0x80] ∧
      lossy ([0xE2, 0x82] ++ encode "é" ++ [0xED, 0xA0, 0x80]) =
        lossy [0xE2, 0x82] ++ "é" ++ lossy [0xED, 0xA0, 0x80] ∧
      lossy ([0xED, 0xA0, 0x80] ++ []) = "\ufffd\ufffd\ufffd" ++ lossy [] := by
  have htext : "é" ≠ "" := by decide
  have hsurrogate : Misformed [0xED, 0xA0, 0x80] :=
    Misformed.three (v := 0xD800) (Or.inr (by decide))
  obtain ⟨hlocal, -, -, hforms⟩ := damage_stays_local
  exact ⟨htext, hsurrogate, hlocal _ _ _ htext, hforms _ [] hsurrogate⟩

end TopicWatch.Utf8
