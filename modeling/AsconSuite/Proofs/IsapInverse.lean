/-
Module: AsconSuite.Proofs.IsapInverse
Layer: Proofs
Purpose: The ISAP functions implement a cipher whose tag is a MAC of the ciphertext, so they are exact inverses
  of each other. A saved key loads as the key itself, and no call changes the key object it is given.
Imports: AsconSuite.Aead.Isap, AsconSuite.Proofs.Keystream, AsconSuite.Proofs.SealedCalls,
  AsconSuite.Proofs.InputBytes
Trusted boundary: none
Main exports: isapCipher, isapCalls, isapCalls_implements, isapLoadKey_isapSaveKey, IsapCall.run_keeps_key,
  isap_encrypt_decrypt_inverse
-/
import AsconSuite.Aead.Isap
import AsconSuite.Proofs.Keystream
import AsconSuite.Proofs.SealedCalls
import AsconSuite.Proofs.InputBytes

namespace AsconSuite

open ByteWord ByteMemory

namespace IsapParams

variable (p : IsapParams)

/-! ### The encryption pass -/

/-- The state in front of the first block. -/
def cryptStart (pk : IsapKey) (npub : Mem) : AsconState :=
  asconOverwriteBytes (p.rekey pk.ke npub isapNonceSize) npub (isapStateSize - isapNonceSize) isapNonceSize

theorem encrypt_eq_write (pk : IsapKey) (npub mem : Mem) {c m mlen : Nat} (ranges : SameOrApart c m mlen) :
    (p.encrypt pk npub mem c m mlen).2 =
      mem.write c (keystream .eight (12 - p.sE) (p.cryptStart pk npub) (mem.read m mlen)) := by
  have small := Rate.eight.size_le
  exact @keystreamLoop_eq_write .eight
    (fun state mem c m len => asconExtractAndAddBytes state mem m c 0 len)
    (fun s mem c m len fits ranges => asconExtractAndAddBytes_eq_combine s mem (by omega) ranges)
    (12 - p.sE) (p.cryptStart pk npub) mem c m mlen ranges

/-! ### Re-keying -/

theorem rekeyLoop_congr (state : AsconState) {data data' : Mem} {dataLen bit remaining : Nat}
    (within : bit + remaining ≤ dataLen * 8) (same : ∀ i < dataLen, data i = data' i) :
    p.rekeyLoop state data bit remaining = p.rekeyLoop state data' bit remaining := by
  induction remaining generalizing state bit with
  | zero => rfl
  | succ remaining ih =>
      rw [rekeyLoop, rekeyLoop, same _ (by omega)]
      exact ih _ (by omega)

/-- Re-keying reads no more than the data. -/
theorem rekey_congr (pk : AsconState) {data data' : Mem} {dataLen : Nat} (some_data : 0 < dataLen)
    (same : ∀ i < dataLen, data i = data' i) : p.rekey pk data dataLen = p.rekey pk data' dataLen := by
  rw [rekey, rekey, same _ (by omega), p.rekeyLoop_congr pk (by omega) same]

/-! ### The authentication pass -/

/-- The absorption loops are those of the AEAD functions at a rate of eight bytes. -/
theorem absorb_eq_aeadAbsorb (state : AsconState) (data : Mem) (len : Nat) :
    p.absorb state data len = aeadAbsorb .eight state data len (12 - p.sH) true := by
  have block (state : AsconState) (data : Mem) :
      asconAddBytes state data 0 isapRate = Rate.eight.absorbBlock state data :=
    (asconAbsorb8_eq_addBytes state data rfl (by decide)).symm
  simp only [absorb, aeadAbsorb, block, asconAbsorbPartial, if_true, Nat.pos_iff_ne_zero]
  rfl

/-- Two overwrites that cover the whole state leave nothing of it. -/
theorem overwriteBoth_congr (s t : AsconState) (front back : Mem) {m : Nat} (hm : m ≤ 40) :
    asconOverwriteBytes (asconOverwriteBytes s front 0 m) back m (40 - m) =
      asconOverwriteBytes (asconOverwriteBytes t front 0 m) back m (40 - m) := by
  refine eq_of_byteForOffset_eq fun o ho => ?_
  rw [byteForOffset_asconOverwriteBytes _ _ (by omega) ho, byteForOffset_asconOverwriteBytes _ _ (by omega) ho,
    byteForOffset_asconOverwriteBytes _ _ (by omega) ho, byteForOffset_asconOverwriteBytes _ _ (by omega) ho]
  by_cases behind : m ≤ o
  · rw [if_pos ⟨behind, by omega⟩, if_pos ⟨behind, by omega⟩]
  · rw [if_neg (by omega), if_pos (by omega), if_neg (by omega), if_pos (by omega)]

/-- The state after the associated data and the ciphertext. -/
def absorbed (npub ad : Mem) (adlen : Nat) (c : Mem) (clen : Nat) : AsconState :=
  let state := asconOverwriteBytes asconInit npub 0 isapNonceSize
  let state := asconOverwriteBytes state p.ivA isapNonceSize (isapStateSize - isapNonceSize)
  let state := asconPermute state (12 - p.sH)
  p.absorb (asconSeparator (p.absorb state ad adlen)) c clen

/-- The state with the tag, after re-keying. -/
def tagState (pk : IsapKey) (state : AsconState) : AsconState :=
  let preserve := asconExtractBytes state (fun _ => 0) 0 p.keySize (isapStateSize - p.keySize)
  let keyed := p.rekey pk.ka (byteForOffset state) p.keySize
  asconPermute (asconOverwriteBytes keyed preserve p.keySize (isapStateSize - p.keySize)) (12 - p.sH)

/-- The authentication pass ends in the state with the tag, whatever the state was in front of it. A part
of the tag's buffer may have been written. -/
theorem macState_eq (state : AsconState) (pk : IsapKey) (npub ad : Mem) (adlen : Nat) (c : Mem)
    (clen : Nat) (mem : Mem) (tag : Nat) :
    (p.macState state pk npub ad adlen c clen mem tag).1 = p.tagState pk (p.absorbed npub ad adlen c clen) ∧
      ∃ bytes : List Byte, bytes.length ≤ asconTagSize ∧
        (p.macState state pk npub ad adlen c clen mem tag).2 = mem.write tag bytes := by
  have covered := overwriteBoth_congr state asconInit npub p.ivA (show isapNonceSize ≤ 40 by decide)
  have reached : p.absorb (asconSeparator (p.absorb (asconPermute (asconOverwriteBytes
      (asconOverwriteBytes state npub 0 isapNonceSize) p.ivA isapNonceSize (isapStateSize - isapNonceSize))
        (12 - p.sH)) ad adlen)) c clen = p.absorbed npub ad adlen c clen :=
    congrArg (fun s => p.absorb (asconSeparator (p.absorb (asconPermute s (12 - p.sH)) ad adlen)) c clen)
      covered
  rw [macState]
  simp only [reached]
  generalize p.absorbed npub ad adlen c clen = s
  rw [tagState]
  by_cases same : p.keySize = asconTagSize
  · -- the bytes that re-key the state are read back from the buffer of the tag.
    have written := asconExtractBytes_eq_write s mem tag (show 0 + asconTagSize ≤ 40 by decide)
    have back : ∀ i < asconTagSize,
        (asconExtractBytes s mem tag 0 asconTagSize).view tag i = byteForOffset s i := by
      intro i hi
      have byte := write_apply_of_lt mem tag (Mem.read (byteForOffset s) 0 asconTagSize)
        (show i < _ by rwa [length_read])
      rw [getD_read _ _ hi, Nat.zero_add] at byte
      rw [view_apply, written, byte]
    have keyed := p.rekey_congr pk.ka (by decide) back
    simp only [if_pos same]
    rw [keyed, same]
    exact ⟨rfl, _, (length_read _ _ _).le, written⟩
  · have larger : 0 + p.keySize ≤ 40 ∧ 0 < p.keySize := by
      rcases p.keySize_eq with equal | equal <;> omega
    have back : ∀ i < p.keySize,
        asconExtractBytes s (fun _ => 0) 0 0 p.keySize i = byteForOffset s i := by
      intro i hi
      have byte := write_apply_of_lt (fun _ => 0) 0 (Mem.read (byteForOffset s) 0 p.keySize)
        (show i < _ by rwa [length_read])
      rw [getD_read _ _ hi, Nat.zero_add] at byte
      rw [asconExtractBytes_eq_write s _ 0 larger.1]
      exact byte
    have keyed := p.rekey_congr pk.ka larger.2 back
    simp only [if_neg same]
    rw [keyed]
    exact ⟨rfl, [], Nat.zero_le _, (write_nil mem tag).symm⟩

theorem absorbed_congr (npub ad : Mem) (adlen : Nat) {c c' : Mem} {clen : Nat}
    (body : ∀ i < clen, c i = c' i) :
    p.absorbed npub ad adlen c clen = p.absorbed npub ad adlen c' clen := by
  rw [absorbed, absorbed]
  simp only [p.absorb_eq_aeadAbsorb, aeadAbsorb_congr _ _ _ _ body]

end IsapParams

/-! ### The cipher -/

section

variable (p : IsapParams) (ad : Mem) (adlen : Nat) (npub : Mem) (pk : IsapKey)

/-- The tag of a ciphertext. -/
def isapTag (body : List Byte) : List Byte :=
  (p.mac asconInit pk npub ad adlen (tablePtr body) body.length (fun _ => 0) 0).2.read 0 asconTagSize

/-- A message with the key stream added, or a ciphertext. -/
def isapBody (message : List Byte) : List Byte :=
  keystream .eight (12 - p.sE) (p.cryptStart pk npub) message

/-- The algorithm as a cipher. -/
def isapCipher : SealedCipher Byte :=
  .encryptThenMac asconTagSize (isapBody p npub pk) (isapTag p ad adlen npub pk)
    (fun _ => length_read _ _ _) (fun _ => length_keystream _ _ _ _)
    fun _ => keystream_keystream _ _ _ _

/-- The functions of `isap/` for one message. -/
def isapCalls : SealedCalls where
  encrypt := fun mem c m mlen => p.aeadEncrypt mem c m mlen ad adlen npub pk
  decrypt := fun mem m c clen => p.aeadDecrypt mem m c clen ad adlen npub pk

variable {p ad adlen npub pk}

/-- `_mac` writes sixteen bytes of the state it reaches. -/
theorem mac_eq_write_state (state : AsconState) (c : Mem) (clen : Nat) (mem : Mem) (tag : Nat) :
    (p.mac state pk npub ad adlen c clen mem tag).2 = mem.write tag
      (Mem.read (byteForOffset (p.tagState pk (p.absorbed npub ad adlen c clen))) 0 asconTagSize) := by
  obtain ⟨state_eq, bytes, len, mem_eq⟩ := p.macState_eq state pk npub ad adlen c clen mem tag
  rw [IsapParams.mac]
  simp only
  rw [state_eq, mem_eq, asconExtractBytes_eq_write _ _ _ (by decide)]
  exact write_write_of_le mem tag (by rwa [length_read])

/-- The tag depends on the bytes of the ciphertext, and not on where it is computed or written. -/
theorem mac_eq_write (state : AsconState) (c : Mem) (clen : Nat) (mem : Mem) (tag : Nat) :
    (p.mac state pk npub ad adlen c clen mem tag).2 =
      mem.write tag (isapTag p ad adlen npub pk (c.read 0 clen)) := by
  have body : ∀ i < clen, tablePtr (c.read 0 clen) i = c i := by
    intro i hi
    rw [tablePtr_read c 0 hi, view_zero]
  have returned := read_write_same (fun _ => 0) 0
    (Mem.read (byteForOffset (p.tagState pk (p.absorbed npub ad adlen c clen))) 0 asconTagSize)
  rw [length_read] at returned
  rw [mac_eq_write_state, isapTag, mac_eq_write_state, length_read, p.absorbed_congr npub ad adlen body,
    returned]

end

theorem isapAeadEncrypt_eq (p : IsapParams) (mem : Mem) {c m mlen : Nat} (ad : Mem) (adlen : Nat)
    (npub : Mem) (pk : IsapKey) (ranges : PlaintextRange m c (mlen + asconTagSize)) :
    p.aeadEncrypt mem c m mlen ad adlen npub pk =
      (mem.write c ((isapCipher p ad adlen npub pk).sealMessage (mem.read m mlen)),
        mlen + asconTagSize) := by
  have apart : SameOrApart c m mlen := by
    unfold PlaintextRange at ranges
    unfold SameOrApart
    omega
  obtain ⟨body, body_eq⟩ : ∃ body, isapBody p npub pk (mem.read m mlen) = body := ⟨_, rfl⟩
  have body_len : body.length = mlen := by
    rw [← body_eq, isapBody, length_keystream, length_read]
  have encrypted : (p.encrypt pk npub mem c m mlen).2 = mem.write c body :=
    (p.encrypt_eq_write pk npub mem apart).trans (congrArg (mem.write c) body_eq)
  have ciphertext : ((mem.write c body).view c).read 0 mlen = body := by
    rw [read_view, Nat.add_zero, ← body_len]
    exact read_write_same mem c body
  have joined := write_append mem c body (isapTag p ad adlen npub pk body)
  rw [body_len] at joined
  rw [IsapParams.aeadEncrypt]
  simp only
  rw [encrypted, mac_eq_write, ciphertext, joined, ← body_eq]
  rfl

theorem isapAeadDecrypt_eq (p : IsapParams) (mem : Mem) {m c mlen : Nat} (ad : Mem) (adlen : Nat)
    (npub : Mem) (pk : IsapKey) (ranges : PlaintextRange m c (mlen + asconTagSize)) :
    p.aeadDecrypt mem m c (mlen + asconTagSize) ad adlen npub pk =
      match (isapCipher p ad adlen npub pk).reveal (mem.read c mlen) (mem.read (c + mlen) asconTagSize) with
      | some message => ⟨mem.write m message, some mlen, 0⟩
      | none => ⟨mem.write m (List.replicate mlen 0), some mlen, -1⟩ := by
  have apart := ranges.sameOrApart
  rw [Nat.add_sub_cancel] at apart
  obtain ⟨plain, plain_eq⟩ : ∃ plain, isapBody p npub pk (mem.read c mlen) = plain := ⟨_, rfl⟩
  have plain_len : plain.length = mlen := by
    rw [← plain_eq, isapBody, length_keystream, length_read]
  have decrypted : (p.encrypt pk npub mem m c mlen).2 = mem.write m plain :=
    (p.encrypt_eq_write pk npub mem apart).trans (congrArg (mem.write m) plain_eq)
  have tag_eq : (p.mac asconInit pk npub ad adlen (mem.view c) mlen (fun _ => 0) 0).2.read 0 asconTagSize =
      isapTag p ad adlen npub pk (mem.read c mlen) := by
    have len : (isapTag p ad adlen npub pk (mem.read c mlen)).length = asconTagSize := length_read _ _ _
    rw [mac_eq_write, read_view, Nat.add_zero, ← len]
    exact read_write_same _ _ _
  have revealed : (isapCipher p ad adlen npub pk).reveal (mem.read c mlen)
      (mem.read (c + mlen) asconTagSize) =
        if isapTag p ad adlen npub pk (mem.read c mlen) = mem.read (c + mlen) asconTagSize then some plain
        else none := by
    rw [← plain_eq]
    rfl
  rw [IsapParams.aeadDecrypt, if_neg (by omega), Nat.add_sub_cancel, revealed]
  simp only
  rw [decrypted, ranges.checkTag_eq mem plain_len, tag_eq]
  by_cases agree : isapTag p ad adlen npub pk (mem.read c mlen) = mem.read (c + mlen) asconTagSize
  · rw [if_pos agree, if_pos agree]
  · rw [if_neg agree, if_neg agree]

theorem isapCalls_implements (p : IsapParams) (ad : Mem) (adlen : Nat) (npub : Mem) (pk : IsapKey) :
    (isapCalls p ad adlen npub pk).Implements (isapCipher p ad adlen npub pk) where
  tagSize := rfl
  encrypt_eq := fun mem _ _ _ ranges => isapAeadEncrypt_eq p mem ad adlen npub pk ranges
  decrypt_of_lt := fun mem m c _ short => by
    rw [isapCalls]
    simp only
    rw [IsapParams.aeadDecrypt, if_pos short]
  decrypt_eq := fun mem _ _ _ ranges => isapAeadDecrypt_eq p mem ad adlen npub pk ranges

/-! ### Pre-computed keys -/

theorem isapSaveKey_eq_write (pk : IsapKey) (mem : Mem) (k : Nat) :
    isapSaveKey pk mem k = mem.write k
      (Mem.read (byteForOffset pk.ke) 0 isapStateSize ++ Mem.read (byteForOffset pk.ka) 0 isapStateSize) := by
  have joined := write_append mem k (Mem.read (byteForOffset pk.ke) 0 isapStateSize)
    (Mem.read (byteForOffset pk.ka) 0 isapStateSize)
  rw [length_read] at joined
  rw [isapSaveKey, ← joined, asconExtractBytes_eq_write _ _ _ (by decide),
    asconExtractBytes_eq_write _ _ _ (by decide)]

/-- The forty bytes of a state overwrite a state with that state. -/
theorem asconOverwriteBytes_bytes (s t : AsconState) {data : Mem}
    (bytes : ∀ i < isapStateSize, data i = byteForOffset t i) :
    asconOverwriteBytes s data 0 isapStateSize = t := by
  refine eq_of_byteForOffset_eq fun o ho => ?_
  rw [byteForOffset_asconOverwriteBytes _ _ (by decide) ho, if_pos ⟨by omega, by rwa [Nat.zero_add]⟩,
    Nat.sub_zero, bytes o ho]

/-- A saved key loads as the key itself, from wherever its bytes have been kept. -/
theorem isapLoadKey_isapSaveKey (pk : IsapKey) (mem saved : Mem) (k : Nat)
    (kept : saved.read 0 isapObjectSize = (isapSaveKey pk mem k).read k isapObjectSize) :
    isapLoadKey saved = pk := by
  have len (s : AsconState) : (Mem.read (byteForOffset s) 0 isapStateSize).length = isapStateSize :=
    length_read _ _ _
  have bytes (i : Nat) (hi : i < isapObjectSize) : saved i =
      (Mem.read (byteForOffset pk.ke) 0 isapStateSize ++
        Mem.read (byteForOffset pk.ka) 0 isapStateSize).getD i 0 := by
    have byte := eq_of_read_eq kept hi
    rwa [Nat.zero_add, isapSaveKey_eq_write,
      write_apply_of_lt _ _ _ (by rwa [List.length_append, len, len, ← Nat.two_mul])] at byte
  have ke : ∀ i < isapStateSize, saved i = byteForOffset pk.ke i := by
    intro i hi
    rw [bytes i (by unfold isapObjectSize; omega), List.getD_append _ _ _ _ (by rwa [len]),
      getD_read _ _ hi, Nat.zero_add]
  have ka : ∀ i < isapStateSize, saved.view isapStateSize i = byteForOffset pk.ka i := by
    intro i hi
    rw [view_apply, bytes _ (by unfold isapObjectSize; omega),
      List.getD_append_right _ _ _ _ (by rw [len]; omega), len, Nat.add_sub_cancel_left, getD_read _ _ hi,
      Nat.zero_add]
  rw [isapLoadKey, asconOverwriteBytes_bytes _ _ ke, asconOverwriteBytes_bytes _ _ ka]

/-- The buffers of a call are used as documented, and what it writes is apart from the key object. -/
def IsapCall.Apart (pk : Nat) : IsapCall → Prop
  | encrypt c m mlen _ _ _ => PlaintextRange m c (mlen + asconTagSize) ∧
      (pk + isapObjectSize ≤ c ∨ c + (mlen + asconTagSize) ≤ pk)
  | decrypt m c clen _ _ _ => PlaintextRange m c clen ∧
      (pk + isapObjectSize ≤ m ∨ m + (clen - asconTagSize) ≤ pk)
  | saveKey k => pk + isapObjectSize ≤ k ∨ k + isapObjectSize ≤ pk

/-- One call leaves the key object as it was. -/
theorem IsapCall.run_read {p : IsapParams} (object : List Byte → IsapKey) {pk : Nat} (mem : Mem)
    {call : IsapCall} (apart : call.Apart pk) :
    (call.run p object pk mem).read pk isapObjectSize = mem.read pk isapObjectSize := by
  cases call with
  | encrypt c m mlen ad adlen npub =>
      obtain ⟨ranges, apart⟩ := apart
      have sealed := (isapCipher p ad adlen npub (object (mem.read pk isapObjectSize))).length_sealMessage
        (mem.read m mlen)
      rw [length_read] at sealed
      rw [run, isapAeadEncrypt_eq p mem ad adlen npub _ ranges]
      exact read_write_apart _ _ _ (apart.imp id fun below => sealed ▸ below)
  | decrypt m c clen ad adlen npub =>
      obtain ⟨ranges, apart⟩ := apart
      have implements := isapCalls_implements p ad adlen npub (object (mem.read pk isapObjectSize))
      rcases Nat.lt_or_ge clen asconTagSize with short | long
      · have rejected := implements.decrypt_of_lt mem m c short
        exact congrArg (fun d : AeadDecrypted => d.mem.read pk isapObjectSize) rejected
      · rcases implements.decrypt_cases mem long ranges with
          ⟨message, len, -, decrypted⟩ | ⟨-, decrypted⟩
        · refine (congrArg (fun d : AeadDecrypted => d.mem.read pk isapObjectSize) decrypted).trans ?_
          exact read_write_apart _ _ _ (len ▸ apart)
        · refine (congrArg (fun d : AeadDecrypted => d.mem.read pk isapObjectSize) decrypted).trans ?_
          exact read_write_apart _ _ _ (by rwa [List.length_replicate])
  | saveKey k =>
      rw [run, isapSaveKey_eq_write]
      refine read_write_apart _ _ _ ?_
      rw [List.length_append, length_read, length_read, ← Nat.two_mul]
      exact apart

/-- Any calls one after the other leave the key object as it was. -/
theorem IsapCall.run_keeps_key {p : IsapParams} (object : List Byte → IsapKey) {pk : Nat} (mem : Mem)
    (calls : List IsapCall) (apart : ∀ call ∈ calls, call.Apart pk) :
    (calls.foldl (IsapCall.run p object pk) mem).read pk isapObjectSize = mem.read pk isapObjectSize := by
  induction calls generalizing mem with
  | nil => rfl
  | cons call calls ih =>
      rw [List.foldl_cons, ih _ fun later behind => apart later (List.mem_cons_of_mem call behind)]
      exact call.run_read object mem (apart call List.mem_cons_self)

/-- ISAP decryption undoes ISAP encryption and accepts nothing else, in place and between two buffers; a
key that was saved and loaded encrypts and decrypts as the key itself; and in any sequence of calls the
pre-computed key stays what it was. -/
theorem isap_encrypt_decrypt_inverse (p : IsapParams) :
    (∀ (ad : Mem) (adlen : Nat) (npub : Mem) (pk : IsapKey),
      (isapCalls p ad adlen npub pk).ExactInverse) ∧
    (∀ (pk : IsapKey) (mem saved : Mem) (k : Nat),
      saved.read 0 isapObjectSize = (isapSaveKey pk mem k).read k isapObjectSize →
      ∀ (ad : Mem) (adlen : Nat) (npub : Mem),
        isapCalls p ad adlen npub (isapLoadKey saved) = isapCalls p ad adlen npub pk) ∧
    (∀ (object : List Byte → IsapKey) (pk : Nat) (mem : Mem) (calls : List IsapCall),
      (∀ call ∈ calls, call.Apart pk) →
      (calls.foldl (IsapCall.run p object pk) mem).read pk isapObjectSize =
        mem.read pk isapObjectSize) := by
  refine ⟨fun ad adlen npub pk => (isapCalls_implements p ad adlen npub pk).exactInverse, ?_, ?_⟩
  · intro pk mem saved k kept ad adlen npub
    rw [isapLoadKey_isapSaveKey pk mem saved k kept]
  · intro object pk mem calls apart
    exact IsapCall.run_keeps_key object mem calls apart

/-- Three bytes are encrypted in place and decrypted to another place, a saved key is loaded, and a key object at 0
survives three calls. -/
theorem isap_encrypt_decrypt_inverse_threeBytes :
    let key := isapLoadKey fun _ => 3
    let calls := isapCalls ascon128aIsap (fun _ => 1) 2 (fun _ => 2) key
    let e := calls.encrypt (fun _ => 4) 100 100 3
    ((calls.decrypt e.1 50 100 e.2).result = 0 ∧
      (calls.decrypt e.1 50 100 e.2).mem.read 50 3 = [4, 4, 4]) ∧
    isapCalls ascon128aIsap (fun _ => 1) 2 (fun _ => 2)
      (isapLoadKey ((isapSaveKey key (fun _ => 0) 100).view 100)) = calls ∧
    ([IsapCall.encrypt 300 300 3 (fun _ => 1) 2 (fun _ => 2), .decrypt 300 300 19 (fun _ => 1) 2 (fun _ => 2),
        .saveKey 400].foldl (IsapCall.run ascon128aIsap (fun _ => isapLoadKey fun _ => 3) 0)
      (fun _ => 4)).read 0 isapObjectSize = Mem.read (fun _ => 4) 0 isapObjectSize := by
  have inverse := isap_encrypt_decrypt_inverse ascon128aIsap
  have trip := (inverse.1 (fun _ => 1) 2 (fun _ => 2) (isapLoadKey fun _ => 3)).round_trip
    (fun _ => 4) 100 100 3 50 (by decide) (by decide)
  have saved := inverse.2.1 (isapLoadKey fun _ => 3) (fun _ => 0)
    ((isapSaveKey (isapLoadKey fun _ => 3) (fun _ => 0) 100).view 100) 100 (read_view _ _ _ _)
  refine ⟨⟨trip.2.2.1, trip.2.2.2.2⟩, saved _ _ _, inverse.2.2 _ 0 _ _ ?_⟩
  intro call member
  simp only [List.mem_cons, List.not_mem_nil, or_false] at member
  rcases member with rfl | rfl | rfl
  · exact ⟨by decide, by decide⟩
  · exact ⟨by decide, by decide⟩
  · exact Or.inl (by decide)

end AsconSuite
