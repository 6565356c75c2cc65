import RustSamples.DlpFanotify

/-! # Files with secrets

`evaluate_file_safety` looks at the first 1024 bytes of a file.  They are decoded before the
patterns are matched, and what is not UTF-8 is let through.  A text need not be UTF-8 up to its
byte 1024: a character can stand on both sides of the cut.  Then its front is not matched at all,
whatever it contains (`secret_denied_iff`).
-/
namespace RustSamples.DlpFanotify
open RustStr CallTrace

/-- The end of the first 1024 bytes is the end of a character. -/
def CutBetweenCharacters (content : List Char) : Prop :=
  ∃ front, front <+: content ∧ len front = min fileBufLen (len content)

/-- `matches_pattern` holds of every text in which the secret stands. -/
def Finds (config : DlpConfig) (secret : List Char) : Prop :=
  ∀ s, secret <:+: s → config.matchesPattern s = true

/-- **No file with the secret in its first 1024 bytes is let through.** -/
def DeniesSecrets : Prop :=
  ∀ (config : DlpConfig) (secret content : List Char) (fd : Int32) (E : Surroundings Answer)
    (t : Trace Answer), secret ≠ [] → Finds config secret →
    utf8 secret <:+: (utf8 content).take fileBufLen →
    E t (.pread fd fileBufLen 0) = some ((utf8 content).take fileBufLen) →
    (evaluateFileSafety fd config).Returns E t fun decision _ => decision = fanDeny

/-- What is denied is a text that is matched. -/
theorem safetyOf_eq_fanDeny_iff {config : DlpConfig} {fileBuf : List UInt8} :
    safetyOf config (some fileBuf) = fanDeny ↔
      fileBuf ≠ [] ∧ ∃ s, fileBuf = utf8 s ∧ config.matchesPattern s = true := by
  have hne : fanAllow ≠ fanDeny := by decide
  rw [← List.length_pos_iff]
  constructor
  · intro h
    rw [safetyOf] at h
    split_ifs at h with hpos
    · cases hdecode : decodeUtf8 fileBuf with
      | none =>
        rw [hdecode] at h
        exact absurd h hne
      | some s =>
        rw [hdecode] at h
        dsimp only at h
        split_ifs at h with hmatch
        · exact ⟨hpos, s, decodeUtf8_eq_some_iff.1 hdecode, hmatch⟩
        · exact absurd h hne
    · exact absurd h hne
  · rintro ⟨hpos, s, hs, hmatch⟩
    rw [safetyOf, if_pos hpos, decodeUtf8_eq_some_iff.2 hs]
    exact if_pos hmatch

/-- The first bytes are a text exactly if they are cut between characters. -/
theorem exists_utf8_eq_take_iff {content : List Char} :
    (∃ s, (utf8 content).take fileBufLen = utf8 s) ↔ CutBetweenCharacters content := by
  constructor
  · rintro ⟨s, hs⟩
    refine ⟨s, utf8_prefix_iff.1 (hs ▸ List.take_prefix _ _), ?_⟩
    rw [← length_utf8, ← hs, List.length_take, length_utf8]
  · rintro ⟨front, hprefix, hlen⟩
    refine ⟨front, ?_⟩
    rw [← length_utf8, ← length_utf8, ← List.length_take] at hlen
    exact (List.prefix_of_prefix_length_le (List.take_prefix _ _) (utf8_prefix_iff.2 hprefix)
      (Nat.le_of_eq hlen.symm)).eq_of_length hlen.symm

/-- Where the front of the file contains the secret, the cut decides. -/
theorem safetyOf_front_iff {config : DlpConfig} {secret content : List Char}
    (hsecret : secret ≠ []) (hfinds : Finds config secret)
    (hfront : utf8 secret <:+: (utf8 content).take fileBufLen) :
    safetyOf config (some ((utf8 content).take fileBufLen)) = fanDeny ↔
      CutBetweenCharacters content := by
  rw [safetyOf_eq_fanDeny_iff, ← exists_utf8_eq_take_iff]
  constructor
  · rintro ⟨_, s, hs, _⟩
    exact ⟨s, hs⟩
  · rintro ⟨s, hs⟩
    refine ⟨fun hnil => ?_, s, hs, hfinds s ?_⟩
    · obtain ⟨c, rest, rfl⟩ := List.exists_cons_of_ne_nil hsecret
      rw [hnil, List.infix_nil, utf8_cons, List.append_eq_nil_iff] at hfront
      exact utf8EncodeChar_ne_nil c hfront.1
    · rw [hs] at hfront
      exact (utf8_infix_iff hsecret).1 hfront

theorem evaluateFileSafety_returns_iff {config : DlpConfig} {fd : Int32} {decision : UInt32}
    {E : Surroundings Answer} {t : Trace Answer} :
    (evaluateFileSafety fd config).Returns E t (fun result _ => result = decision) ↔
      safetyOf config (E t (.pread fd fileBufLen 0)) = decision := by
  rw [evaluateFileSafety, Program.returns_bind, Program.returns_call, Program.returns_pure]

/-- **A file with the secret in front is denied exactly if its first 1024 bytes end between
characters.** -/
theorem secret_denied_iff {config : DlpConfig} {secret content : List Char} {fd : Int32}
    {E : Surroundings Answer} {t : Trace Answer} (hsecret : secret ≠ [])
    (hfinds : Finds config secret) (hfront : utf8 secret <:+: (utf8 content).take fileBufLen)
    (hpread : E t (.pread fd fileBufLen 0) = some ((utf8 content).take fileBufLen)) :
    (evaluateFileSafety fd config).Returns E t (fun decision _ => decision = fanDeny) ↔
      CutBetweenCharacters content := by
  rw [evaluateFileSafety_returns_iff, hpread]
  exact safetyOf_front_iff hsecret hfinds hfront

/-- A configuration that looks for a `K`. -/
def findsK : DlpConfig := ⟨fun s => s.contains 'K'⟩

theorem finds_findsK : Finds findsK ['K'] := by
  rintro _ ⟨front, behind, rfl⟩
  simp [findsK]

/-- Surroundings in which every file is this text. -/
def fileOf (content : List Char) : Surroundings Answer := fun t c =>
  match c with
  | .pread _ count _ => some ((utf8 content).take count)
  | c => quietKernel t c

/-- The secret, a character of two bytes, and more than 1024 bytes in all. -/
def longText : List Char := 'K' :: 'é' :: List.replicate 2000 'a'

theorem cutBetweenCharacters_longText : CutBetweenCharacters longText := by
  have hfirst : 'K'.utf8Size = 1 := by decide
  have hsecond : 'é'.utf8Size = 2 := by decide
  have hthird : 'a'.utf8Size = 1 := by decide
  refine ⟨'K' :: 'é' :: List.replicate 1021 'a', ⟨List.replicate 979 'a', ?_⟩, ?_⟩
  · rw [longText, List.cons_append, List.cons_append, List.replicate_append_replicate]
  · rw [longText, len_cons, len_cons, len_replicate, len_cons, len_cons, len_replicate, hfirst,
      hsecond, hthird]
    decide

/-- A long file is denied that has a character of two bytes before the cut. -/
theorem long_file_denied : (evaluateFileSafety 7 findsK).Returns (fileOf longText) []
    fun decision _ => decision = fanDeny :=
  (secret_denied_iff (List.cons_ne_nil _ _) finds_findsK
    (show utf8 ['K'] <:+: (utf8 longText).take fileBufLen from ⟨[], _, rfl⟩) rfl).2
    cutBetweenCharacters_longText

/-- The secret, and a character on both sides of the cut. -/
def cutText : List Char := 'K' :: List.replicate 1022 'a' ++ ['é']

theorem not_cutBetweenCharacters_cutText : ¬ CutBetweenCharacters cutText := by
  have hhead : len ('K' :: List.replicate 1022 'a') = 1023 := by
    rw [len_cons, len_replicate]
    rfl
  have hlast : 'é'.utf8Size = 2 := by decide
  rintro ⟨front, hprefix, hlen⟩
  rw [cutText, len_append, hhead, len_cons, len_nil, hlast] at hlen
  rw [cutText, List.prefix_concat_iff] at hprefix
  rcases hprefix with rfl | ⟨rest, hrest⟩
  · rw [len_append, hhead, len_cons, len_nil, hlast] at hlen
    exact absurd hlen (by decide)
  · rw [← hrest, len_append] at hhead
    have hcut : min fileBufLen (1023 + (2 + 0)) = 1024 := by decide
    omega

/-- **A file that begins with the secret is let through.** -/
theorem secret_let_through : ¬ DeniesSecrets := by
  intro h
  have hfront : utf8 ['K'] <:+: (utf8 cutText).take fileBufLen := ⟨[], _, rfl⟩
  have hdenied := h findsK ['K'] cutText 7 (fileOf cutText) [] (List.cons_ne_nil _ _) finds_findsK
    hfront rfl
  rw [evaluateFileSafety_returns_iff] at hdenied
  exact not_cutBetweenCharacters_cutText
    ((safetyOf_front_iff (List.cons_ne_nil _ _) finds_findsK hfront).1 hdenied)

end RustSamples.DlpFanotify
