/-
Purpose: The texts and the bindings on which the device and the cloud agree in the offline login.
Trusted boundary: none
Main exports: offline_agree
-/
import HelixKit.Backend.OfflineCode
import HelixKit.Lib.Trimming

namespace HelixKit.Backend.OfflineAgreement

open HelixKit.Authd (Bytes OfflineBinding isSpace upperRune bigEndian writeLengthPrefixed)
open HelixKit.Backend.JsText
open HelixKit.Backend.OfflineCode
open HelixKit.Trimming

/-! ## What a text spells -/

/-- What either side trims. -/
def isBlank (c : Char) : Bool := isSpace c || isWhiteSpace c

/-- The letters of a typed text: without the blanks around it, in capitals, and without hyphens
and spaces. -/
def spelling (typed : String) : List Char :=
  ((trimmed isBlank typed.toList).flatMap upperCase).filter fun c => c ≠ '-' && c ≠ ' '

/-- A blank for the device only (NEL). -/
def nextLine : Char := Char.ofNat 0x85

/-- A blank for the cloud only. -/
def byteOrderMark : Char := Char.ofNat 0xFEFF

/-- The sharp s and the ligatures ff, fl, ffl and st: for the cloud their capitals are letters of
codes, and for the device they have none. -/
def ligatures : List Nat := [0xDF, 0xFB00, 0xFB02, 0xFB04, 0xFB05, 0xFB06]

/-- The text has nothing that only the cloud takes. -/
def DevicePlain (typed : String) : Prop :=
  ∀ c ∈ typed.toList, c ≠ byteOrderMark ∧ c.toNat ∉ ligatures

/-- The text has nothing that only the device takes. -/
def CloudPlain (typed : String) : Prop := ∀ c ∈ typed.toList, c ≠ nextLine

instance (typed : String) : Decidable (DevicePlain typed) := List.decidableBAll _ _

instance (typed : String) : Decidable (CloudPlain typed) := List.decidableBAll _ _

/-- A capital that is left out of a code, or stands in it. -/
def Typed (c : Char) : Prop := c = '-' ∨ c = ' ' ∨ c ∈ codeAlphabet

instance (c : Char) : Decidable (Typed c) := inferInstanceAs (Decidable (_ ∨ _))

/-! ## The characters -/

theorem toNat_ne {c : Char} {code : Nat} (other : c ≠ Char.ofNat code) : c.toNat ≠ code := by
  intro same
  apply other
  rw [← same, Char.ofNat_toNat]

theorem isBlank_device {c : Char} (other : c ≠ byteOrderMark) : isBlank c = isSpace c := by
  have apart : c.toNat ≠ 0xFEFF := toNat_ne other
  rw [Bool.eq_iff_iff]
  simp [isBlank, isSpace, isWhiteSpace]
  omega

theorem isBlank_cloud {c : Char} (other : c ≠ nextLine) : isBlank c = isWhiteSpace c := by
  have apart : c.toNat ≠ 0x85 := toNat_ne other
  rw [Bool.eq_iff_iff]
  simp [isBlank, isSpace, isWhiteSpace]
  omega

/-- Outside the table the two sides have the same capitals. -/
theorem upperCase_eq {c : Char} (plain : c.toNat ∉ upperToAscii.map Prod.fst) :
    upperCase c = [upperRune c] := by
  have absent : upperToAscii.lookup c.toNat = none := by
    rw [List.lookup_eq_none_iff]
    intro entry member
    have apart : c.toNat ≠ entry.1 := by
      intro same
      exact plain (same ▸ List.mem_map_of_mem member)
    simpa using apart
  have dotless : c.toNat ≠ 0x131 := by
    intro same
    exact plain (same ▸ by decide)
  have long : c.toNat ≠ 0x17F := by
    intro same
    exact plain (same ▸ by decide)
  rw [upperCase, absent, upperRune, if_neg dotless, if_neg long]

/-- A character of which the device makes something typed has the same capital for the cloud. -/
theorem upperCase_device {c : Char} (typed : Typed (upperRune c)) : upperCase c = [upperRune c] := by
  by_cases plain : c.toNat ∈ upperToAscii.map Prod.fst
  · have table : ∀ code ∈ upperToAscii.map Prod.fst, Typed (upperRune (Char.ofNat code)) →
        upperCase (Char.ofNat code) = [upperRune (Char.ofNat code)] := by decide
    have entry := table c.toNat plain
    rw [Char.ofNat_toNat] at entry
    exact entry typed
  · exact upperCase_eq plain

/-- A character of which the cloud makes something typed has the same capital for the device, if
it is no ligature. -/
theorem upperCase_cloud {c : Char} (typed : ∀ capital ∈ upperCase c, Typed capital)
    (single : c.toNat ∉ ligatures) : upperCase c = [upperRune c] := by
  by_cases plain : c.toNat ∈ upperToAscii.map Prod.fst
  · have table : ∀ code ∈ upperToAscii.map Prod.fst,
        ((upperCase (Char.ofNat code)).all fun capital => Typed capital) → code ∉ ligatures →
        upperCase (Char.ofNat code) = [upperRune (Char.ofNat code)] := by decide
    have entry := table c.toNat plain
    rw [Char.ofNat_toNat] at entry
    exact entry (List.all_iff_forall_prop.mpr typed) single
  · exact upperCase_eq plain

/-! ## The normalized texts -/

/-- A character whose capitals are typed, if what is left of them is a code. -/
theorem typed_of_code {capitals : List Char}
    (code : IsCode (capitals.filter fun c => c ≠ '-' && c ≠ ' ')) {c : Char}
    (member : c ∈ capitals) : Typed c := by
  by_cases hyphen : c = '-'
  · exact .inl hyphen
  by_cases space : c = ' '
  · exact .inr (.inl space)
  have kept : c ∈ capitals.filter fun c => c ≠ '-' && c ≠ ' ' := by
    apply List.mem_filter.mpr
    simp [member, hyphen, space]
  exact .inr (.inr (code.2 c kept))

theorem device_normalized (typed : String) : (Authd.normalizeCode typed).toList =
    ((trimmed isSpace typed.toList).map upperRune).filter fun c => c ≠ '-' && c ≠ ' ' := by
  simp [Authd.normalizeCode, Authd.toUpper, Authd.trimSpace, trimmed]

theorem cloud_normalized (typed : String) : (normalizeCode typed).toList =
    ((trimmed isWhiteSpace typed.toList).flatMap upperCase).filter
      fun c => c ≠ '-' && c ≠ ' ' := by
  simp [normalizeCode, toUpperCase, trim, trimmed, List.filter_filter, Bool.and_comm]

/-- Where the two sides have the same capitals and blanks, the device normalizes a text to what it
spells. -/
theorem device_spelling {typed : String} (plain : DevicePlain typed)
    (capitals : ∀ c ∈ trimmed isSpace typed.toList, upperCase c = [upperRune c]) :
    (Authd.normalizeCode typed).toList = spelling typed := by
  have blanks : trimmed isBlank typed.toList = trimmed isSpace typed.toList :=
    trimmed_congr fun c member => isBlank_device (plain c member).1
  rw [device_normalized, spelling, blanks, List.flatMap_congr capitals, List.map_eq_flatMap]

theorem cloud_spelling {typed : String} (plain : CloudPlain typed) :
    (normalizeCode typed).toList = spelling typed := by
  have blanks : trimmed isBlank typed.toList = trimmed isWhiteSpace typed.toList :=
    trimmed_congr fun c member => isBlank_cloud (plain c member)
  rw [cloud_normalized, spelling, blanks]

/-- What the device takes has nothing that only the cloud takes. -/
theorem device_plain {typed : String} (code : IsCode (Authd.normalizeCode typed).toList) :
    DevicePlain typed ∧ (Authd.normalizeCode typed).toList = spelling typed := by
  rw [device_normalized] at code
  have capitals : ∀ c ∈ trimmed isSpace typed.toList, Typed (upperRune c) :=
    fun c member => typed_of_code code (List.mem_map_of_mem member)
  have strays : ∀ code ∈ 0xFEFF :: ligatures, ¬Typed (upperRune (Char.ofNat code)) ∧
      isSpace (Char.ofNat code) = false := by decide
  have out : ∀ c ∈ typed.toList, c.toNat ∉ 0xFEFF :: ligatures := by
    intro c member stray
    obtain ⟨untyped, filled⟩ := strays c.toNat stray
    rw [Char.ofNat_toNat] at untyped filled
    rcases mem_trimmed_or member with kept | blank
    · exact untyped (capitals c kept)
    · rw [filled] at blank
      cases blank
  have plain : DevicePlain typed := by
    intro c member
    constructor
    · intro mark
      apply out c member
      rw [mark]
      exact List.mem_cons_self
    · intro ligature
      exact out c member (List.mem_cons_of_mem _ ligature)
  exact ⟨plain, device_spelling plain fun c member => upperCase_device (capitals c member)⟩

theorem cloud_plain {typed : String} (code : IsCode (normalizeCode typed).toList) :
    CloudPlain typed := by
  rw [cloud_normalized] at code
  have stray : upperCase nextLine = [nextLine] ∧ ¬Typed nextLine ∧
      isWhiteSpace nextLine = false := by decide
  obtain ⟨same, untyped, filled⟩ := stray
  rintro c member rfl
  rcases mem_trimmed_or member with kept | blank
  · apply untyped
    apply typed_of_code code
    apply List.mem_flatMap.mpr
    refine ⟨nextLine, kept, ?_⟩
    rw [same]
    exact List.mem_singleton_self nextLine
  · rw [filled] at blank
    cases blank

/-- The device takes a text that spells a code and has nothing that only the cloud takes. -/
theorem device_decode (typed : String) : Authd.decodeCode typed =
    if DevicePlain typed then readCode (spelling typed) else none := by
  rw [device_decodeCode_eq]
  by_cases code : IsCode (Authd.normalizeCode typed).toList
  · obtain ⟨plain, same⟩ := device_plain code
    rw [if_pos plain, same]
  · rw [readCode, if_neg code]
    split
    next plain =>
      rw [readCode, if_neg]
      intro spelled
      apply code
      have capitals : ∀ c ∈ trimmed isSpace typed.toList, upperCase c = [upperRune c] := by
        intro c member
        apply upperCase_cloud
        · intro capital made
          apply typed_of_code spelled
          apply List.mem_flatMap.mpr
          refine ⟨c, ?_, made⟩
          have blanks : trimmed isBlank typed.toList = trimmed isSpace typed.toList :=
            trimmed_congr fun c member => isBlank_device (plain c member).1
          rw [blanks]
          exact member
        · exact (plain c (mem_of_mem_trimmed member)).2
      rw [device_spelling plain capitals]
      exact spelled
    · rfl

/-- The cloud takes a text that spells a code and has nothing that only the device takes. -/
theorem cloud_decode (typed : String) : decodeCode typed =
    if CloudPlain typed then readCode (spelling typed) else none := by
  rw [decodeCode_eq]
  split
  next plain =>
    rw [cloud_spelling plain]
  next stray =>
    rw [readCode, if_neg fun code => stray (cloud_plain code)]

/-- The two sides read a text alike exactly if it spells no code, or has both something that only
the device takes and something that only the cloud takes, or neither. -/
theorem decode_agree (typed : String) : Authd.decodeCode typed = decodeCode typed ↔
    (IsCode (spelling typed) → (DevicePlain typed ↔ CloudPlain typed)) := by
  rw [device_decode, cloud_decode, readCode]
  by_cases code : IsCode (spelling typed)
  · rw [if_pos code]
    by_cases device : DevicePlain typed
    · by_cases cloud : CloudPlain typed
      · simp [device, cloud]
      · simp [device, cloud, code]
    by_cases cloud : CloudPlain typed
    · simp [device, cloud, code]
    · simp [device, cloud]
  · simp [code]

/-! ## The message of the HMAC -/

/-- What is under the digest, with the bytes of the challenge. -/
def macInput (binding : OfflineBinding) (challenge : Bytes) : Bytes :=
  offlineDomain ++ writeLengthPrefixed binding.deviceID ++ writeLengthPrefixed binding.userID ++
    bigEndian 8 binding.linuxUID.toNat ++ challenge

/-- What the device gives to the HMAC; `none` is an error before it. -/
def deviceMessage (secret : Bytes) (binding : OfflineBinding) : Option Bytes := do
  let challenge ← Authd.decodeCode binding.challenge
  if secret.length = 0 then none else return macInput binding challenge

/-- The lengths of both ids can be written in two bytes. -/
def Fits (binding : OfflineBinding) : Prop :=
  binding.deviceID.utf8ByteSize < 2 ^ 16 ∧ binding.userID.utf8ByteSize < 2 ^ 16

instance (binding : OfflineBinding) : Decidable (Fits binding) :=
  inferInstanceAs (Decidable (_ ∧ _))

theorem device_offlineResponse_eq (createHmac : Bytes → Bytes → Bytes) (secret : Bytes)
    (binding : OfflineBinding) : Authd.offlineResponse createHmac secret binding =
      (deviceMessage secret binding).bind fun message =>
        Authd.encodeCode ((createHmac secret message).take 5) := by
  rw [Authd.offlineResponse, deviceMessage]
  cases Authd.decodeCode binding.challenge with
  | none => rfl
  | some challenge =>
    by_cases empty : secret.length = 0
    · simp [empty]
    · simp [empty, macInput]
      rfl

/-- The cloud's message is the device's, if it reads the challenge and the ids fit. -/
theorem message_eq (secret : Bytes) (binding : OfflineBinding) : message secret binding =
    if secret.length ≠ 0 ∧ Fits binding then
      (decodeCode binding.challenge).map (macInput binding)
    else none := by
  rw [message, lengthPrefixed_eq, lengthPrefixed_eq, lowBytes_eq]
  by_cases empty : secret.length = 0
  · have unasked : ¬(secret.length ≠ 0 ∧ Fits binding) := fun ready => ready.1 empty
    rw [if_pos empty, if_neg unasked]
  rw [if_neg empty]
  by_cases fits : Fits binding
  · obtain ⟨device, user⟩ := fits
    rw [if_pos device, if_pos user, if_pos ⟨empty, device, user⟩]
    cases decodeCode binding.challenge with
    | none => rfl
    | some challenge => rfl
  have unfit : ¬(secret.length ≠ 0 ∧ Fits binding) := fun ready => fits ready.2
  rw [if_neg unfit]
  cases decodeCode binding.challenge with
  | none => rfl
  | some challenge =>
    by_cases device : binding.deviceID.utf8ByteSize < 2 ^ 16
    · have user : ¬binding.userID.utf8ByteSize < 2 ^ 16 := fun user => fits ⟨device, user⟩
      rw [if_pos device, if_neg user]
      rfl
    · rw [if_neg device]
      rfl

theorem writeLengthPrefixed_length (value : String) :
    (writeLengthPrefixed value).length = 2 + value.utf8ByteSize := by
  rw [writeLengthPrefixed, List.length_append, bigEndian_length]
  rfl

theorem toUTF8_inj {value other : String}
    (same : value.toUTF8.data.toList = other.toUTF8.data.toList) : value = other := by
  apply String.toByteArray_inj.mp
  apply ByteArray.ext
  exact Array.toList_inj.mp same

/-- A field whose length is known is told apart from what follows it. -/
theorem writeLengthPrefixed_inj {value other : String} {rest more : Bytes}
    (sized : value.utf8ByteSize = other.utf8ByteSize)
    (same : writeLengthPrefixed value ++ rest = writeLengthPrefixed other ++ more) :
    value = other ∧ rest = more := by
  have lengths : (writeLengthPrefixed value).length = (writeLengthPrefixed other).length := by
    rw [writeLengthPrefixed_length, writeLengthPrefixed_length, sized]
  obtain ⟨field, left⟩ := List.append_inj same lengths
  have prefixes : (bigEndian 2 value.utf8ByteSize).length =
      (bigEndian 2 other.utf8ByteSize).length := by
    rw [bigEndian_length, bigEndian_length]
  exact ⟨toUTF8_inj (List.append_inj field prefixes).2, left⟩

/-- A binding whose ids fit shares its message with no other. -/
theorem macInput_inj {binding other : OfflineBinding} {challenge given : Bytes}
    (fits : Fits binding) (sized : challenge.length = given.length)
    (same : macInput binding challenge = macInput other given) :
    binding.deviceID = other.deviceID ∧ binding.userID = other.userID ∧
      binding.linuxUID = other.linuxUID ∧ challenge = given := by
  have total := congrArg List.length same
  simp only [macInput, List.append_assoc] at same
  have fields := List.append_cancel_left same
  simp only [macInput, List.length_append, writeLengthPrefixed_length, bigEndian_length] at total
  have prefixes : bigEndian 2 binding.deviceID.utf8ByteSize =
      bigEndian 2 other.deviceID.utf8ByteSize := by
    simp only [writeLengthPrefixed, List.append_assoc] at fields
    apply List.append_inj_left fields
    rw [bigEndian_length, bigEndian_length]
  have residues := bigEndian_mod prefixes
  -- A longer device id would leave the user id less than no bytes.
  have device : binding.deviceID.utf8ByteSize = other.deviceID.utf8ByteSize := by
    obtain ⟨short, brief⟩ := fits
    omega
  obtain ⟨sameDevice, others⟩ := writeLengthPrefixed_inj device fields
  obtain ⟨sameUser, last⟩ := writeLengthPrefixed_inj (by omega) others
  have uids : (bigEndian 8 binding.linuxUID.toNat).length =
      (bigEndian 8 other.linuxUID.toNat).length := by
    rw [bigEndian_length, bigEndian_length]
  obtain ⟨uid, sameChallenge⟩ := List.append_inj last uids
  have number := bigEndian_mod uid
  have below := binding.linuxUID.toNat_lt
  have under := other.linuxUID.toNat_lt
  have sameUid : binding.linuxUID = other.linuxUID := by
    apply UInt32.toNat_inj.mp
    omega
  exact ⟨sameDevice, sameUser, sameUid, sameChallenge⟩

/-! ## The agreement -/

/-- What HMAC-SHA-256 gives. -/
abbrev Digest : Type := { bytes : Bytes // bytes.length = 32 }

theorem encodeCode_digest (digest : Digest) : Authd.encodeCode (digest.1.take 5) ≠ none := by
  have five : (digest.1.take 5).length = Authd.codeRawBytes := by
    rw [List.length_take, digest.2]
    rfl
  rw [Authd.encodeCode, if_neg (not_not_intro five)]
  exact Option.some_ne_none _

/-- The bindings are the same, with challenges that are read as the same bytes. -/
structure SameBinding (decode : String → Option Bytes) (binding other : OfflineBinding) : Prop where
  deviceID : binding.deviceID = other.deviceID
  userID : binding.userID = other.userID
  linuxUID : binding.linuxUID = other.linuxUID
  challenge : decode binding.challenge = decode other.challenge

/-- The two sides read the challenge as the same bytes or not at all, answer it with the same code
or not at all, and neither gives the HMAC a message that another binding gives too. -/
structure Agrees (createHmac : Bytes → Bytes → Digest) (secret : Bytes)
    (binding : OfflineBinding) : Prop where
  decoded : Authd.decodeCode binding.challenge = decodeCode binding.challenge
  response : Authd.offlineResponse (fun key text => (createHmac key text).1) secret binding =
    offlineResponse (fun key text => (createHmac key text).1) secret binding
  deviceInput : ∀ other text, deviceMessage secret binding = some text →
    deviceMessage secret other = some text → SameBinding Authd.decodeCode binding other
  cloudInput : ∀ other text, message secret binding = some text →
    message secret other = some text → SameBinding decodeCode binding other

/-- If the challenge spells a code, what one side leaves out of it is balanced by what the other
does; and if it is answered, the ids fit. -/
structure Alike (secret : Bytes) (binding : OfflineBinding) : Prop where
  plain : IsCode (spelling binding.challenge) →
    (DevicePlain binding.challenge ↔ CloudPlain binding.challenge)
  fits : IsCode (spelling binding.challenge) → DevicePlain binding.challenge →
    secret.length ≠ 0 → Fits binding

section Messages

variable {secret : Bytes} {binding : OfflineBinding} {text : Bytes}

theorem deviceMessage_some (sent : deviceMessage secret binding = some text) :
    ∃ challenge, secret.length ≠ 0 ∧ Authd.decodeCode binding.challenge = some challenge ∧
      text = macInput binding challenge := by
  rw [deviceMessage] at sent
  cases decoded : Authd.decodeCode binding.challenge with
  | none =>
    rw [decoded] at sent
    cases sent
  | some challenge =>
    rw [decoded] at sent
    by_cases empty : secret.length = 0
    · simp [empty] at sent
    · have given : macInput binding challenge = text := by simpa [empty] using sent
      exact ⟨challenge, empty, rfl, given.symm⟩

theorem message_some (sent : message secret binding = some text) :
    ∃ challenge, Fits binding ∧ decodeCode binding.challenge = some challenge ∧
      text = macInput binding challenge := by
  rw [message_eq] at sent
  split_ifs at sent with ready
  obtain ⟨challenge, decoded, rfl⟩ := Option.map_eq_some_iff.mp sent
  exact ⟨challenge, ready.2, decoded, rfl⟩

/-- A code and a text that is plain for the device are what it takes. -/
theorem device_decode_some {typed : String} {challenge : Bytes}
    (decoded : Authd.decodeCode typed = some challenge) :
    IsCode (spelling typed) ∧ DevicePlain typed := by
  rw [device_decode] at decoded
  split_ifs at decoded with plain
  have code := readCode_isSome.mp (Option.isSome_of_eq_some decoded)
  exact ⟨code, plain⟩

theorem message_alike (alike : Alike secret binding) :
    message secret binding = deviceMessage secret binding := by
  have decoded := (decode_agree binding.challenge).mpr alike.plain
  rw [message_eq, deviceMessage, ← decoded]
  cases device : Authd.decodeCode binding.challenge with
  | none => simp
  | some challenge =>
    obtain ⟨code, plain⟩ := device_decode_some device
    by_cases empty : secret.length = 0
    · simp [empty]
    · have fits := alike.fits code plain empty
      simp [empty, fits]

end Messages

/-- For every secret and binding the two sides agree exactly if nothing that only one of them
takes decides on the challenge, and the ids of an answered binding fit. -/
theorem offline_agree (createHmac : Bytes → Bytes → Digest) (secret : Bytes)
    (binding : OfflineBinding) : Agrees createHmac secret binding ↔ Alike secret binding := by
  constructor
  · intro agrees
    refine ⟨(decode_agree _).mp agrees.decoded, ?_⟩
    intro code plain answered
    obtain ⟨challenge, read⟩ := Option.isSome_iff_exists.mp (readCode_isSome.mpr code)
    have taken : Authd.decodeCode binding.challenge = some challenge := by
      rw [device_decode, if_pos plain, read]
    have sent : deviceMessage secret binding = some (macInput binding challenge) := by
      rw [deviceMessage, taken]
      simp [answered]
    by_contra unfit
    have refused : message secret binding = none := by
      rw [message_eq, if_neg fun ready => unfit ready.2]
    have response := agrees.response
    rw [device_offlineResponse_eq, sent, offlineResponse, refused] at response
    exact encodeCode_digest _ response
  · intro alike
    have decoded := (decode_agree binding.challenge).mpr alike.plain
    constructor
    · exact decoded
    · rw [device_offlineResponse_eq, offlineResponse, message_alike alike]
      simp only [encodeCode_eq]
      rfl
    · intro other text sent also
      obtain ⟨challenge, answered, taken, rfl⟩ := deviceMessage_some sent
      obtain ⟨given, -, accepted, same⟩ := deviceMessage_some also
      obtain ⟨code, plain⟩ := device_decode_some taken
      have sized : challenge.length = given.length := by
        rw [device_decodeCode_eq] at taken accepted
        rw [readCode_length taken, readCode_length accepted]
      obtain ⟨device, user, uid, bytes⟩ :=
        macInput_inj (alike.fits code plain answered) sized same
      exact ⟨device, user, uid, by rw [taken, accepted, bytes]⟩
    · intro other text sent also
      obtain ⟨challenge, fits, taken, rfl⟩ := message_some sent
      obtain ⟨given, -, accepted, same⟩ := message_some also
      have sized : challenge.length = given.length := by
        rw [decodeCode_eq] at taken accepted
        rw [readCode_length taken, readCode_length accepted]
      obtain ⟨device, user, uid, bytes⟩ := macInput_inj fits sized same
      exact ⟨device, user, uid, by rw [taken, accepted, bytes]⟩

/-- The code that the user retypes, with a sharp s for its last two letters. -/
theorem sharp_s_taken : ¬ ∀ (createHmac : Bytes → Bytes → Digest) (secret : Bytes)
    (binding : OfflineBinding), Agrees createHmac secret binding := by
  intro agree
  have digest : Digest := ⟨List.replicate 32 0, by decide⟩
  have decoded := (agree (fun _ _ => digest) [1]
    { deviceID := "dev_1", userID := "user_alice", linuxUID := 200001,
      challenge := "ABCD-EFß" }).decoded
  revert decoded
  decide

end HelixKit.Backend.OfflineAgreement
