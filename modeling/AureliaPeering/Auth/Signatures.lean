import AureliaPeering.Ids
import AureliaPeering.Lib.BigEndian

/-!
What the two signatures of the socket authentication are made over.

Either input determines its fields, but the two kinds of input are not kept apart: the length
fields of a challenge and the first 28 bytes of its paths can be read as a callback nonce.
-/

namespace AureliaPeering.Auth

open List

def nonceLen : Nat := 32
def pathMaxLen : Nat := 4096

/-- What `Path::to_str` returns, as UTF-8 bytes. -/
abbrev Path := Option Bytes

def violation (message : String) : AureliaError := .withMessage .protocolViolation message

def putU16 (value : Nat) : Bytes := BigEndian.bytes 2 value

def pathBytes : Path → Except AureliaError Bytes
  | none => .error (violation "path not utf8")
  | some bytes =>
    if bytes = [] ∨ pathMaxLen < bytes.length ∨ 65535 < bytes.length then
      .error (violation "path length out of bounds")
    else .ok bytes

/-- Both inputs are nonces in a row, the lengths of the paths and the paths. -/
def signedInput (message : String) (nonces : List Bytes) (originPath destinationPath : Path) :
    Except AureliaError Bytes := do
  if ∃ nonce ∈ nonces, nonce.length ≠ nonceLen then throw (violation message)
  let origin ← pathBytes originPath
  let dest ← pathBytes destinationPath
  return nonces.flatten ++ (putU16 origin.length ++ (putU16 dest.length ++ (origin ++ dest)))

def authChallengeSig (nonceA nonceB : Bytes) : Path → Path → Except AureliaError Bytes :=
  signedInput "invalid challenge nonce length" [nonceA, nonceB]

def authProofSig (nonceB nonceA nonceBCb : Bytes) : Path → Path → Except AureliaError Bytes :=
  signedInput "invalid proof nonce length" [nonceB, nonceA, nonceBCb]

theorem pathBytes_eq_ok_iff {path : Path} {bytes : Bytes} :
    pathBytes path = .ok bytes ↔
      path = some bytes ∧ 0 < bytes.length ∧ bytes.length ≤ pathMaxLen := by
  cases path with
  | none => simp [pathBytes]
  | some text =>
    rw [pathBytes]
    split
    next outside =>
      rw [← length_eq_zero_iff, pathMaxLen] at outside
      simp only [reduceCtorEq, Option.some.injEq, false_iff, pathMaxLen]
      rintro ⟨rfl, nonempty, short⟩
      omega
    next inBounds =>
      rw [← length_eq_zero_iff] at inBounds
      simp only [Except.ok.injEq, Option.some.injEq]
      constructor
      · rintro rfl
        exact ⟨rfl, by omega⟩
      · exact fun ⟨same, _⟩ => same

variable {message message' : String} {nonces nonces' : List Bytes} {data : Bytes}
variable {originPath destinationPath originPath' destinationPath' : Path}

theorem signedInput_eq_ok_iff :
    signedInput message nonces originPath destinationPath = .ok data ↔
      (∀ nonce ∈ nonces, nonce.length = nonceLen) ∧ ∃ origin dest : Bytes,
        originPath = some origin ∧ destinationPath = some dest ∧
        (0 < origin.length ∧ origin.length ≤ pathMaxLen) ∧
        (0 < dest.length ∧ dest.length ≤ pathMaxLen) ∧
        data = nonces.flatten ++
          (putU16 origin.length ++ (putU16 dest.length ++ (origin ++ dest))) := by
  unfold signedInput
  constructor
  · intro made
    split at made
    next => cases made
    next lengths =>
      obtain ⟨origin, first, made⟩ := bind_eq_ok made
      obtain ⟨dest, second, made⟩ := bind_eq_ok made
      cases made
      obtain ⟨isOrigin, short⟩ := pathBytes_eq_ok_iff.mp first
      obtain ⟨isDest, brief⟩ := pathBytes_eq_ok_iff.mp second
      exact ⟨by simpa using lengths, origin, dest, isOrigin, isDest, short, brief, rfl⟩
  · rintro ⟨lengths, origin, dest, rfl, rfl, short, brief, rfl⟩
    rw [if_neg (by simpa using lengths), pathBytes_eq_ok_iff.mpr ⟨rfl, short⟩,
      pathBytes_eq_ok_iff.mpr ⟨rfl, brief⟩]
    rfl

theorem putU16_inj {first second : Nat} (short : first ≤ pathMaxLen) (brief : second ≤ pathMaxLen)
    (same : putU16 first = putU16 second) : first = second := by
  rw [pathMaxLen] at short brief
  rw [← @BigEndian.value_bytes 2 first (by omega), ← @BigEndian.value_bytes 2 second (by omega)]
  exact congrArg BigEndian.value same

theorem flatten_append_inj {width : Nat} {xs ys : List Bytes} {rest rest' : Bytes}
    (count : xs.length = ys.length) (wide : ∀ x ∈ xs, x.length = width)
    (wide' : ∀ y ∈ ys, y.length = width) (same : xs.flatten ++ rest = ys.flatten ++ rest') :
    xs = ys ∧ rest = rest' := by
  induction xs generalizing ys with
  | nil => simp_all [eq_comm]
  | cons x xs ih =>
    obtain ⟨y, ys, rfl⟩ := exists_cons_of_length_eq_add_one count.symm
    simp only [flatten_cons, append_assoc, forall_mem_cons] at same wide wide'
    obtain ⟨rfl, others⟩ := append_inj same (wide.1.trans wide'.1.symm)
    obtain ⟨rfl, rfl⟩ := ih (by simpa using count) wide.2 wide'.2 others
    exact ⟨rfl, rfl⟩

theorem signedInput_inj (count : nonces.length = nonces'.length)
    (first : signedInput message nonces originPath destinationPath = .ok data)
    (second : signedInput message' nonces' originPath' destinationPath' = .ok data) :
    nonces = nonces' ∧ originPath = originPath' ∧ destinationPath = destinationPath' := by
  obtain ⟨wide, origin, dest, rfl, rfl, short, _, rfl⟩ := signedInput_eq_ok_iff.mp first
  obtain ⟨wide', origin', dest', rfl, rfl, short', _, same⟩ := signedInput_eq_ok_iff.mp second
  obtain ⟨rfl, fields⟩ := flatten_append_inj count wide wide' same
  obtain ⟨lengths, dests⟩ := append_inj fields (by simp [putU16])
  obtain ⟨_, paths⟩ := append_inj dests (by simp [putU16])
  obtain ⟨rfl, rfl⟩ := append_inj paths (putU16_inj short.2 short'.2 lengths)
  exact ⟨rfl, rfl, rfl⟩

theorem putU16_value {digits : Bytes} (wide : digits.length = 2) :
    putU16 (BigEndian.value digits) = digits := by
  obtain ⟨high, low, rfl⟩ := length_eq_two.mp wide
  have bound := low.toNat_lt
  have upper : (high.toNat * 256 + low.toNat) / 256 = high.toNat := by omega
  have lower : UInt8.ofNat (high.toNat * 256 + low.toNat) = low := by
    rw [← UInt8.toNat_inj, UInt8.toNat_ofNat']
    omega
  simp [putU16, BigEndian.bytes, BigEndian.value, upper, lower]

/-- The 28 bytes of the paths of a challenge that can end a callback nonce are followed by what a
proof has behind it: two lengths and texts of these lengths. -/
def ReadsAsProof (Text : Bytes → Prop) (paths : Bytes) : Prop :=
  let origin := BigEndian.value ((paths.drop 28).take 2)
  let dest := BigEndian.value ((paths.drop 30).take 2)
  (0 < origin ∧ origin ≤ pathMaxLen) ∧ (0 < dest ∧ dest ≤ pathMaxLen) ∧
    32 + (origin + dest) = paths.length ∧ Text ((paths.drop 32).take origin) ∧
    Text (paths.drop (32 + origin))

theorem readsAsProof_iff (Text : Bytes → Prop) (paths : Bytes) :
    ReadsAsProof Text paths ↔ ∃ origin dest : Bytes, Text origin ∧ Text dest ∧
      (0 < origin.length ∧ origin.length ≤ pathMaxLen) ∧
      (0 < dest.length ∧ dest.length ≤ pathMaxLen) ∧
      paths.drop 28 = putU16 origin.length ++ (putU16 dest.length ++ (origin ++ dest)) := by
  have third : paths.drop 30 = (paths.drop 28).drop 2 := by rw [drop_drop]
  have fourth : paths.drop 32 = (paths.drop 28).drop 4 := by rw [drop_drop]
  constructor
  · rintro ⟨someOrigin, someDest, total, isOrigin, isDest⟩
    have lengths : ((paths.drop 32).take (BigEndian.value ((paths.drop 28).take 2))).length =
          BigEndian.value ((paths.drop 28).take 2) ∧
        (paths.drop (32 + BigEndian.value ((paths.drop 28).take 2))).length =
          BigEndian.value ((paths.drop 30).take 2) := by
      simp only [length_take, length_drop]
      omega
    refine ⟨_, _, isOrigin, isDest, lengths.1.symm ▸ someOrigin, lengths.2.symm ▸ someDest, ?_⟩
    rw [lengths.1, lengths.2, putU16_value (by simp; omega), putU16_value (by simp; omega),
      ← drop_drop, take_append_drop, fourth, third, ← drop_drop (i := 2) (j := 2),
      take_append_drop, take_append_drop]
  · rintro ⟨origin, dest, isOrigin, isDest, someOrigin, someDest, fields⟩
    have total := congrArg length fields
    have values : ∀ path : Bytes, path.length ≤ pathMaxLen →
        BigEndian.value (putU16 path.length) = path.length := fun path short =>
      @BigEndian.value_bytes 2 _ (by rw [pathMaxLen] at short; omega)
    simp only [length_drop, length_append, putU16, BigEndian.length_bytes] at total
    have first : BigEndian.value ((paths.drop 28).take 2) = origin.length := by
      rw [fields, take_append_of_le_length (by simp [putU16]), take_of_length_le (by simp [putU16]),
        values origin someOrigin.2]
    have second : BigEndian.value ((paths.drop 30).take 2) = dest.length := by
      rw [third, fields, drop_append_of_le_length (by simp [putU16]),
        drop_eq_nil_of_le (by simp [putU16]), nil_append,
        take_append_of_le_length (by simp [putU16]), take_of_length_le (by simp [putU16]),
        values dest someDest.2]
    have texts : paths.drop 32 = origin ++ dest := by
      rw [fourth, fields, ← append_assoc, drop_append_of_le_length (by simp [putU16]),
        drop_eq_nil_of_le (by simp [putU16]), nil_append]
    refine ⟨first ▸ someOrigin, second ▸ someDest, by omega, ?_, ?_⟩
    · rw [first, texts, take_left]
      exact isOrigin
    · rw [first, ← drop_drop, texts, drop_left]
      exact isDest

theorem challenge_is_proof_iff (Text : Bytes → Prop) {nonceA nonceB origin dest : Bytes}
    (challenge : authChallengeSig nonceA nonceB (some origin) (some dest) = .ok data) :
    (∃ nonceB' nonceA' nonceBCb origin' dest', Text origin' ∧ Text dest' ∧
      authProofSig nonceB' nonceA' nonceBCb (some origin') (some dest') = .ok data) ↔
    ReadsAsProof Text (origin ++ dest) := by
  obtain ⟨wide, _, _, isOrigin, isDest, short, brief, rfl⟩ := signedInput_eq_ok_iff.mp challenge
  cases isOrigin
  cases isDest
  simp only [forall_mem_cons] at wide
  -- a callback nonce takes the length fields and 28 bytes of the paths
  have nonce : ∀ cb rest : Bytes, cb.length = nonceLen →
      (putU16 origin.length ++ (putU16 dest.length ++ (origin ++ dest)) = cb ++ rest →
        (origin ++ dest).drop 28 = rest) := by
    intro cb rest isNonce fields
    calc (origin ++ dest).drop 28
      _ = (putU16 origin.length ++ (putU16 dest.length ++ (origin ++ dest))).drop 32 := rfl
      _ = rest := by rw [fields, ← nonceLen, ← isNonce, drop_left]
  rw [readsAsProof_iff]
  constructor
  · rintro ⟨nonceB', nonceA', cb, origin', dest', isText, alsoText, proof⟩
    obtain ⟨wide', _, _, isOrigin, isDest, short', brief', same⟩ := signedInput_eq_ok_iff.mp proof
    cases isOrigin
    cases isDest
    simp only [flatten_cons, flatten_nil, append_nil, append_assoc, forall_mem_cons] at same wide'
    obtain ⟨_, seconds⟩ := append_inj same (wide.1.trans wide'.1.symm)
    obtain ⟨_, fields⟩ := append_inj seconds (wide.2.1.trans wide'.2.1.symm)
    exact ⟨origin', dest', isText, alsoText, short', brief', nonce cb _ wide'.2.2.1 fields⟩
  · rintro ⟨origin', dest', isText, alsoText, short', brief', fields⟩
    refine ⟨nonceA, nonceB,
      putU16 origin.length ++ (putU16 dest.length ++ (origin ++ dest).take 28), origin', dest',
      isText, alsoText, signedInput_eq_ok_iff.mpr
        ⟨?_, origin', dest', rfl, rfl, short', brief', ?_⟩⟩
    · have long := congrArg length fields
      simp only [length_drop, length_append, putU16, BigEndian.length_bytes] at long
      simp only [forall_mem_cons, wide, not_mem_nil, false_imp_iff, implies_true, and_true,
        true_and, length_append, length_take, putU16, BigEndian.length_bytes, nonceLen]
      omega
    · simp only [flatten_cons, flatten_nil, append_nil, append_assoc, ← fields, take_append_drop]

/-- Equal inputs of one kind have equal fields.  A challenge is also a proof exactly if bytes 28 to
31 of its paths are lengths for the texts behind them. -/
theorem transcripts_unambiguous (data : Bytes) :
    (∀ {nonceA nonceB nonceA' nonceB' : Bytes} {origin dest origin' dest' : Path},
      authChallengeSig nonceA nonceB origin dest = .ok data →
      authChallengeSig nonceA' nonceB' origin' dest' = .ok data →
      nonceA = nonceA' ∧ nonceB = nonceB' ∧ origin = origin' ∧ dest = dest') ∧
    (∀ {nonceB nonceA cb nonceB' nonceA' cb' : Bytes} {origin dest origin' dest' : Path},
      authProofSig nonceB nonceA cb origin dest = .ok data →
      authProofSig nonceB' nonceA' cb' origin' dest' = .ok data →
      nonceB = nonceB' ∧ nonceA = nonceA' ∧ cb = cb' ∧ origin = origin' ∧ dest = dest') ∧
    ∀ (Text : Bytes → Prop) {nonceA nonceB origin dest : Bytes},
      authChallengeSig nonceA nonceB (some origin) (some dest) = .ok data →
      ((∃ nonceB' nonceA' cb origin' dest', Text origin' ∧ Text dest' ∧
        authProofSig nonceB' nonceA' cb (some origin') (some dest') = .ok data) ↔
          ReadsAsProof Text (origin ++ dest)) := by
  refine ⟨fun first second => ?_, fun first second => ?_, challenge_is_proof_iff⟩
  · simpa [and_assoc] using signedInput_inj (by rfl) first second
  · simpa [and_assoc] using signedInput_inj (by rfl) first second

/-- The challenge of two paths of one byte is not a proof. -/
theorem transcripts_unambiguous_slash :
    let nonce := replicate 32 0
    let data := nonce ++ nonce ++ [0, 1, 0, 1, 47, 47]
    authChallengeSig nonce nonce (some [47]) (some [47]) = .ok data ∧
    ¬∃ nonceB nonceA cb origin dest,
      authProofSig nonceB nonceA cb (some origin) (some dest) = .ok data := by
  intro nonce data
  have made : authChallengeSig nonce nonce (some [47]) (some [47]) = .ok data := rfl
  have exact := (transcripts_unambiguous data).2.2 (fun _ => True) made
  simp only [true_and] at exact
  exact ⟨made, exact.not.mpr (by simp [ReadsAsProof, BigEndian.value])⟩

set_option maxRecDepth 4000 in
/-- Absolute paths of 289 and 257 ASCII bytes whose challenge is also a proof. -/
theorem challenge_read_as_proof :
    let nonce := replicate 32 0
    let name := 47 :: replicate 256 97
    let long := 47 :: replicate 27 97 ++ [1, 1, 1, 1] ++ name
    (∀ byte ∈ long, byte < 128) ∧ ∃ data,
      authChallengeSig nonce nonce (some long) (some name) = .ok data ∧
      authProofSig nonce nonce ([1, 33, 1, 1] ++ (47 :: replicate 27 97)) (some name) (some name) =
        .ok data :=
  ⟨by simp [or_imp, forall_and], _, rfl, rfl⟩

end AureliaPeering.Auth
