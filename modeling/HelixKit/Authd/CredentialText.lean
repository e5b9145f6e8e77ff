/-
Purpose: The spellings of a persistent credential: the text of one that was issued is read back,
  and a text that is read is that of the credential unless base64 was lenient with it.
Trusted boundary: none
Main exports: credential_spelling_iff
-/
import HelixKit.Authd.Base64
import HelixKit.Authd.Methods

namespace HelixKit.Authd

open HelixKit.Backend.OfflineCode (IsCode readCode device_decodeCode_eq utf8ByteSize_code)
open HelixKit.Dialogue

/-- `NewPersistentCredential` has ended with the credential, and each buffer was filled. -/
def Issued (c : PersistentCredential) : Prop :=
  ∃ past, newPersistentCredential.Reaches past (.result (some c)) ∧
    ∀ size raw, ⟨Ask.readRandom size, some raw⟩ ∈ past → raw.length = size

/-- The secret as it is spelled. -/
def spelledSecret (token : String) : Option (List Char) := do
  let (_, rest) ← splitUnderscore (trimSpace token).toList
  let (_, secret) ← splitUnderscore rest
  return secret

/-- The secret is spelled without a line break, and its last letter has nothing to spare. -/
def Canonical (token : String) : Prop :=
  ∀ secret, spelledSecret token = some secret →
    (∀ c ∈ secret, c ≠ '\n' ∧ c ≠ '\r') ∧
      ∀ last, secret.getLast? = some last → base64URLAlphabet.idxOf last % 2 ^ 2 = 0

/-! ### Splitting -/

theorem splitUnderscore_some {text before after : List Char}
    (split : splitUnderscore text = some (before, after)) : text = before ++ '_' :: after := by
  induction text generalizing before with
  | nil => cases split
  | cons c rest ih =>
    unfold splitUnderscore at split
    split_ifs at split with underscore
    · cases split
      rw [underscore]
      rfl
    · obtain ⟨⟨front, back⟩, found, same⟩ := Option.map_eq_some_iff.mp split
      cases same
      rw [List.cons_append, ih found]

theorem splitUnderscore_append {before : List Char} (free : '_' ∉ before) (after : List Char) :
    splitUnderscore (before ++ '_' :: after) = some (before, after) := by
  induction before with
  | nil => rfl
  | cons c rest ih =>
    have other : c ≠ '_' := fun same => free (same ▸ List.mem_cons_self)
    rw [List.cons_append, splitUnderscore, if_neg other,
      ih fun member => free (List.mem_cons_of_mem c member)]
    rfl

theorem trimSpace_eq {s : String} (plain : ∀ c ∈ s.toList, isSpace c = false) :
    trimSpace s = s := by
  have kept : ∀ text : List Char, (∀ c ∈ text, isSpace c = false) →
      text.dropWhile isSpace = text := by
    intro text plain
    cases text with
    | nil => rfl
    | cons c rest => simp [plain c List.mem_cons_self]
  have back : ∀ c ∈ s.toList.reverse, isSpace c = false := fun c member =>
    plain c (List.mem_reverse.mp member)
  rw [trimSpace, kept _ plain, kept _ back, List.reverse_reverse, String.ofList_toList]

theorem string_toList (c : PersistentCredential) :
    c.string.toList =
      credentialPrefix.toList ++ '_' :: (c.id.toList ++ '_' :: base64Encode c.secret) := by
  simp [PersistentCredential.string]

/-! ### A text that is accepted -/

variable {token : String} {c : PersistentCredential}

/-- What an accepted text is made of. -/
theorem parsed_shape (parsed : parseCredential token = some c) :
    ∃ secret, spelledSecret token = some secret ∧
      (trimSpace token).toList =
        credentialPrefix.toList ++ '_' :: (c.id.toList ++ '_' :: secret) ∧
      base64Decode secret = some c.secret ∧ c.secret.length = credentialSecretSz := by
  simp only [parseCredential, Option.bind_eq_bind, Option.bind_eq_some_iff] at parsed
  obtain ⟨⟨format, rest⟩, first, ⟨id, secret⟩, second, parsed⟩ := parsed
  split_ifs at parsed with known sized
  simp only [Option.bind_eq_some_iff] at parsed
  obtain ⟨_, _, bytes, read, parsed⟩ := parsed
  split_ifs at parsed with long
  cases parsed
  refine ⟨secret, ?_, ?_, read, not_not.mp long⟩
  · simp [spelledSecret, first, second]
  · have after : rest = id ++ '_' :: secret := splitUnderscore_some second
    rw [splitUnderscore_some first, after, ← not_not.mp known]
    simp

theorem canonical_iff {secret : List Char}
    (spelled : spelledSecret token = some secret) (long : secret.length % 4 = 3) :
    Canonical token ↔ unbroken secret = secret ∧ TailClear (readLetters secret) := by
  have digits : (readLetters secret).length % 4 = 3 := by
    rw [readLetters, List.length_map]
    exact long
  rw [tailClear_iff digits, readLetters, List.getLast?_map, unbroken, List.filter_eq_self,
    Canonical, spelled]
  simp

/-- An accepted text is the text of the credential exactly when it is canonical. -/
theorem string_iff (parsed : parseCredential token = some c) :
    c.string = trimSpace token ↔ Canonical token := by
  obtain ⟨secret, spelled, shape, read, long⟩ := parsed_shape parsed
  have size := base64Decode_length read
  rw [long, credentialSecretSz] at size
  have texts : c.string = trimSpace token ↔ base64Encode c.secret = secret := by
    rw [← String.toList_inj, string_toList, shape]
    simp
  rw [texts, base64Encode_iff read]
  constructor
  · rintro ⟨whole, clear⟩
    rw [whole] at size
    exact (canonical_iff spelled (by omega)).mpr ⟨whole, clear⟩
  · intro canonical
    have whole : unbroken secret = secret := by
      rw [unbroken, List.filter_eq_self]
      intro c member
      simpa using (canonical secret spelled).1 c member
    rw [whole] at size
    exact (canonical_iff spelled (by omega)).mp canonical

/-! ### A credential that was issued -/

theorem newPersistentCredential_ends :
    Program.Guards (fun _ _ => True) (fun past result => ∀ c, result = some c →
      (∃ idBytes, encodeCode idBytes = some c.id) ∧
        ⟨Ask.readRandom credentialSecretSz, some c.secret⟩ ∈ past) [] newPersistentCredential := by
  unfold newPersistentCredential
  rw [Program.guards_inquire_bind]
  refine ⟨trivial, fun reply => ?_⟩
  cases reply with
  | none => simp
  | some idBytes =>
    simp only
    split
    next => simp
    next id written =>
      rw [Program.guards_inquire_bind]
      refine ⟨trivial, fun reply => ?_⟩
      cases reply with
      | none => simp
      | some secret =>
        rw [Program.guards_pure]
        rintro c ⟨⟩
        exact ⟨⟨idBytes, written⟩, by simp⟩

theorem issued_shape (issued : Issued c) :
    (∃ idBytes, encodeCode idBytes = some c.id) ∧ c.secret.length = credentialSecretSz := by
  obtain ⟨past, reaches, filled⟩ := issued
  have ends := newPersistentCredential_ends.reaches reaches
  rw [List.nil_append, Program.guards_result] at ends
  obtain ⟨id, asked⟩ := ends c rfl
  exact ⟨id, filled _ _ asked⟩

theorem encodeCode_code {raw : Bytes} {code : String} (written : encodeCode raw = some code) :
    IsCode code.toList := by
  unfold encodeCode at written
  split_ifs at written
  cases written
  rw [String.toList_ofList]
  refine ⟨by simp [digitsOf, codeChars], fun char member => ?_⟩
  obtain ⟨digit, inside, rfl⟩ := List.mem_map.mp member
  have small := digitsOf_lt inside
  rw [List.getD_eq_getElem _ _ small]
  exact List.getElem_mem _

theorem code_plain : ∀ c ∈ codeAlphabet,
    isSpace c = false ∧ upperRune c = c ∧ c ≠ '-' ∧ c ≠ ' ' ∧ c ≠ '_' :=
  List.all_iff_forall_prop.mp (by decide)

/-- A code stands as it is normalized. -/
theorem normalizeCode_code {code : String} (letters : IsCode code.toList) :
    normalizeCode code = code := by
  have plain := fun c member => code_plain c (letters.2 c member)
  have upper : toUpper code = code := by
    have same : code.toList.map upperRune = code.toList := by
      conv_rhs => rw [← List.map_id code.toList]
      exact List.map_congr_left fun c member => (plain c member).2.1
    rw [toUpper, same, String.ofList_toList]
  have kept : (code.toList.filter fun c => c ≠ '-' && c ≠ ' ') = code.toList := by
    refine List.filter_eq_self.mpr fun c member => ?_
    obtain ⟨-, -, dash, space, -⟩ := plain c member
    simp [dash, space]
  rw [normalizeCode, trimSpace_eq fun c member => (plain c member).1, upper, kept,
    String.ofList_toList]

theorem decodeCode_code {code : String} (letters : IsCode code.toList) :
    ∃ bytes, decodeCode code = some bytes := by
  rw [device_decodeCode_eq, normalizeCode_code letters, readCode, if_pos letters]
  exact ⟨_, rfl⟩

/-- The text of a credential with a code for its id has no white space. -/
theorem string_plain (letters : IsCode c.id.toList) :
    ∀ char ∈ c.string.toList, isSpace char = false := by
  intro char member
  rw [string_toList] at member
  simp only [List.mem_append, List.mem_cons] at member
  rcases member with format | rfl | id | rfl | secret
  · have plain : ∀ char ∈ credentialPrefix.toList, isSpace char = false :=
      List.all_iff_forall_prop.mp (by decide)
    exact plain char format
  · rfl
  · exact (code_plain char (letters.2 char id)).1
  · rfl
  · exact alphabet_plain char (base64Encode_alphabet c.secret char secret)

/-- What the device issues is read back. -/
theorem parse_string (issued : Issued c) :
    parseCredential c.string = some c := by
  obtain ⟨⟨idBytes, written⟩, long⟩ := issued_shape issued
  have letters := encodeCode_code written
  have noUnderscore : '_' ∉ c.id.toList := fun member =>
    (code_plain '_' (letters.2 '_' member)).2.2.2.2 rfl
  have first : splitUnderscore (trimSpace c.string).toList =
      some (credentialPrefix.toList, c.id.toList ++ '_' :: base64Encode c.secret) := by
    rw [trimSpace_eq (string_plain letters), string_toList]
    exact splitUnderscore_append (by decide) _
  have second := splitUnderscore_append noUnderscore (base64Encode c.secret)
  have size : c.id.utf8ByteSize = credentialIDChars := by
    rw [← String.ofList_toList (s := c.id), utf8ByteSize_code letters.2, letters.1]
    rfl
  obtain ⟨bytes, decoded⟩ := decodeCode_code letters
  simp [parseCredential, first, second, size, decoded, base64Decode_encode, long]

/-- An accepted text is the credential's own text exactly when it is canonical, and the text of
every credential that the device issues is accepted for it. -/
theorem credential_spelling_iff (token : String) (c : PersistentCredential) :
    (parseCredential token = some c → (c.string = trimSpace token ↔ Canonical token)) ∧
    (Issued c → parseCredential c.string = some c) :=
  ⟨string_iff, parse_string⟩

/-- A last letter with a bit to spare is read as the one without. -/
theorem last_letter_lenient :
    parseCredential "hlx1_D7K4P9QX_AAAAAAAAAAAAAAAAAAAAAAAAAAAAAAAAAAAAAAAAAAB" =
      some ⟨"D7K4P9QX", List.replicate 32 0⟩ ∧
    PersistentCredential.string ⟨"D7K4P9QX", List.replicate 32 0⟩ ≠
      trimSpace "hlx1_D7K4P9QX_AAAAAAAAAAAAAAAAAAAAAAAAAAAAAAAAAAAAAAAAAAB" := by
  decide

end HelixKit.Authd
