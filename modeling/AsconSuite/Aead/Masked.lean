/-
Module: AsconSuite.Aead.Masked
Layer: Model
Purpose: The masked AEAD algorithms, `aead/ascon-aead-masked-*.c`, for every number of key shares and data
  shares the build may choose. With one data share the payload is handled by the unmasked functions.
Imports: AsconSuite.Aead.OneShot, AsconSuite.Masking.State, AsconSuite.Masking.Key
Trusted boundary: the outputs of the random number generator, which are arbitrary
Main exports: MaskedConfig, MaskedRun, maskedAbsorb, maskedEncrypt, maskedDecrypt, maskedAeadEncrypt,
  maskedAeadDecrypt
-/
import AsconSuite.Aead.OneShot
import AsconSuite.Masking.State
import AsconSuite.Masking.Key

namespace AsconSuite

open ByteWord ByteMemory

/-- `ASCON_MASKED_KEY_SHARES` and `ASCON_MASKED_DATA_SHARES`, in the ranges that
`ascon-masked-config.h` checks. -/
structure MaskedConfig where
  keyShares : Nat
  dataShares : Nat
  keyShares_range : 2 ≤ keyShares ∧ keyShares ≤ 4
  dataShares_range : 1 ≤ dataShares ∧ dataShares ≤ keyShares

/-- The numbers of shares of a build that selects none. -/
def MaskedConfig.standard : MaskedConfig := ⟨4, 2, by decide, by decide⟩

/-- The local variables of a masked encryption that change on the way. -/
structure MaskedRun where
  state : MaskedState
  preserve : Nat → Word
  trng : Trng

namespace MaskedRun

variable (n : Nat) (run : MaskedRun)

/-- `load` a word of data and `xor` it into `M[i]`. -/
def addData (i : Nat) (data : Mem) : MaskedRun :=
  let loaded := maskedWordLoad n data run.trng
  { run with state := run.state.modify i (maskedWordXor n · loaded.1), trng := loaded.2 }

/-- `load_partial` the last bytes of the data and `xor` them into `M[i]`. -/
def addPartial (i : Nat) (data : Mem) (len : Nat) : MaskedRun :=
  let loaded := maskedWordLoadPartial n data len run.trng
  { run with state := run.state.modify i (maskedWordXor n · loaded.1), trng := loaded.2 }

/-- `xor` a word of the key into `M[i]`. -/
def addKey (i : Nat) (word : MaskedWord) : MaskedRun :=
  { run with state := run.state.modify i (maskedWordXor n · word) }

/-- `permute`. -/
def permute (firstRound : Nat) : MaskedRun :=
  let done := permuteShares n run.state firstRound run.preserve
  { run with state := done.1, preserve := done.2 }

/-- `ascon_masked_word_pad` on `M[i]`. -/
def pad (i offset : Nat) : MaskedRun :=
  { run with state := run.state.modify i (maskedWordPad · offset) }

/-- `load`, `xor` and `store` a word, then assign the ciphertext word to `M[i]`. -/
def decryptWord (i : Nat) (mem : Mem) (dest src : Nat) : MaskedRun × Mem :=
  let loaded := maskedWordLoad n (mem.view src) run.trng
  let added := run.state.modify i (maskedWordXor n · loaded.1)
  ({ run with state := added.set i loaded.1, trng := loaded.2 },
    maskedWordStore n mem dest (added.get i))

/-- The same for the last bytes, where `replace` assigns the bytes of the ciphertext only. -/
def decryptPartial (i : Nat) (mem : Mem) (dest src len : Nat) : MaskedRun × Mem :=
  let loaded := maskedWordLoadPartial n (mem.view src) len run.trng
  let added := run.state.modify i (maskedWordXor n · loaded.1)
  ({ run with
      state := added.modify i (maskedWordReplace n · loaded.1 len)
      trng := loaded.2 },
    maskedWordStorePartial n mem dest len (added.get i))

/-- Fill the array of words for the permutation calls. -/
def refresh (keyShares : Nat) : MaskedRun :=
  { run with
    preserve := fun j => if j < keyShares - 1 then run.trng j else run.preserve j
    trng := run.trng.skip (keyShares - 1) }

end MaskedRun

/-! ### `ascon-aead-masked-common.c` -/

/-- A full block of `ascon_masked_aead_absorb_8` or `ascon_masked_aead_absorb_16`. -/
def maskedAbsorbBlock (n : Nat) (rate : Rate) (firstRound : Nat) (run : MaskedRun) (data : Mem) :
    MaskedRun :=
  match rate with
  | .eight => (run.addData n 0 data).permute n firstRound
  | .sixteen => ((run.addData n 0 data).addData n 1 (data.view 8)).permute n firstRound

/-- The end of the data in word `i`, with its padding. -/
def maskedAbsorbTail (n : Nat) (run : MaskedRun) (i : Nat) (data : Mem) (len : Nat) : MaskedRun :=
  (if 0 < len then run.addPartial n i data len else run).pad i len

/-- The body that `ascon_masked_aead_absorb_8` and `ascon_masked_aead_absorb_16` share. -/
def maskedAbsorb (n : Nat) (rate : Rate) (run : MaskedRun) (data : Mem) (len firstRound : Nat) :
    MaskedRun :=
  let (run, data, len) := absorbLoop rate.size (maskedAbsorbBlock n rate firstRound) run data len
  let run :=
    if rate = .sixteen ∧ 8 ≤ len then
      maskedAbsorbTail n (run.addData n 0 data) 1 (data.view 8) (len - 8)
    else maskedAbsorbTail n run 0 data len
  run.permute n firstRound

/-- A full block of `ascon_masked_aead_encrypt_8` or `ascon_masked_aead_encrypt_16`. -/
def maskedEncryptBlock (n : Nat) (rate : Rate) (run : MaskedRun) (mem : Mem) (dest src : Nat) :
    MaskedRun × Mem :=
  match rate with
  | .eight =>
      let run := run.addData n 0 (mem.view src)
      (run, maskedWordStore n mem dest (run.state.get 0))
  | .sixteen =>
      let run := (run.addData n 0 (mem.view src)).addData n 1 (mem.view (src + 8))
      (run, maskedWordStore n (maskedWordStore n mem dest (run.state.get 0)) (dest + 8)
        (run.state.get 1))

/-- The end of the plaintext in word `i`. -/
def maskedEncryptTail (n : Nat) (run : MaskedRun) (i : Nat) (mem : Mem) (dest src len : Nat) :
    MaskedRun × Mem :=
  if 0 < len then
    let run := run.addPartial n i (mem.view src) len
    (run, maskedWordStorePartial n mem dest len (run.state.get i))
  else (run, mem)

/-- A full block of `ascon_masked_aead_decrypt_8` or `ascon_masked_aead_decrypt_16`. -/
def maskedDecryptBlock (n : Nat) (rate : Rate) (run : MaskedRun) (mem : Mem) (dest src : Nat) :
    MaskedRun × Mem :=
  match rate with
  | .eight => run.decryptWord n 0 mem dest src
  | .sixteen =>
      let first := run.decryptWord n 0 mem dest src
      first.1.decryptWord n 1 first.2 (dest + 8) (src + 8)

/-- The end of the ciphertext in word `i`. -/
def maskedDecryptTail (n : Nat) (run : MaskedRun) (i : Nat) (mem : Mem) (dest src len : Nat) :
    MaskedRun × Mem :=
  if 0 < len then run.decryptPartial n i mem dest src len else (run, mem)

/-- The body that the masked encrypt and decrypt functions share. A remainder of eight bytes or more at the
rate of sixteen fills word 0 like a block of the rate of eight and goes on in word 1. -/
def maskedCrypt (n : Nat) (rate : Rate)
    (block : Rate → MaskedRun → Mem → Nat → Nat → MaskedRun × Mem)
    (tail : MaskedRun → Nat → Mem → Nat → Nat → Nat → MaskedRun × Mem)
    (run : MaskedRun) (mem : Mem) (dest src len firstRound : Nat) : MaskedRun × Mem :=
  let p := blockLoop rate.size
    (fun run mem dest src =>
      let next := block rate run mem dest src
      (next.1.permute n firstRound, next.2))
    ⟨run, mem, dest, src, len⟩
  if rate = .sixteen ∧ 8 ≤ p.len then
    let first := block .eight p.state p.mem p.dest p.src
    let last := tail first.1 1 first.2 (p.dest + 8) (p.src + 8) (p.len - 8)
    (last.1.pad 1 (p.len - 8), last.2)
  else
    let last := tail p.state 0 p.mem p.dest p.src p.len
    (last.1.pad 0 p.len, last.2)

/-- `ascon_masked_aead_encrypt_8` and `ascon_masked_aead_encrypt_16`. -/
def maskedEncrypt (n : Nat) (rate : Rate) :=
  maskedCrypt n rate (maskedEncryptBlock n) (maskedEncryptTail n)

/-- `ascon_masked_aead_decrypt_8` and `ascon_masked_aead_decrypt_16`. -/
def maskedDecrypt (n : Nat) (rate : Rate) :=
  maskedCrypt n rate (maskedDecryptBlock n) (maskedDecryptTail n)

/-! ### `ascon-aead-masked-128.c`, `ascon-aead-masked-128a.c` and `ascon-aead-masked-80pq.c` -/

/-- The initialization vector at the start of the masked state, for ASCON-80pq expanded to 8 bytes. -/
def AeadVariant.maskedIv : AeadVariant → List Byte
  | ascon128 => ascon128Iv
  | ascon128a => ascon128aIv
  | ascon80pq => [0xa0, 0x40, 0x0c, 0x06, 0x00, 0x00, 0x00, 0x00]

namespace MaskedRun

variable (n : Nat) (run : MaskedRun)

/-- Add the key in front of the first permutation. -/
def loadKey (v : AeadVariant) (k : MaskedKey) : MaskedRun :=
  match v with
  | .ascon128 => (run.addKey n 1 (k 0)).addKey n 2 (k 1)
  | .ascon128a => (run.addKey n 1 (k 0)).addKey n 2 (k 1)
  | .ascon80pq => ((run.addKey n 0 (k 3)).addKey n 1 (k 4)).addKey n 2 (k 5)

/-- Add the key behind the first permutation. -/
def absorbKey (v : AeadVariant) (k : MaskedKey) : MaskedRun :=
  match v with
  | .ascon128 => (run.addKey n 3 (k 0)).addKey n 4 (k 1)
  | .ascon128a => (run.addKey n 3 (k 0)).addKey n 4 (k 1)
  | .ascon80pq => ((run.addKey n 2 (k 3)).addKey n 3 (k 4)).addKey n 4 (k 5)

/-- Add the key around the last permutation. -/
def finalizeKey (v : AeadVariant) (k : MaskedKey) : MaskedRun :=
  match v with
  | .ascon128 =>
      let run := ((run.addKey n 1 (k 0)).addKey n 2 (k 1)).permute n 0
      (run.addKey n 3 (k 0)).addKey n 4 (k 1)
  | .ascon128a =>
      let run := ((run.addKey n 2 (k 0)).addKey n 3 (k 1)).permute n 0
      (run.addKey n 3 (k 0)).addKey n 4 (k 1)
  | .ascon80pq =>
      let run := (((run.addKey n 1 (k 0)).addKey n 2 (k 1)).addKey n 3 (k 2)).permute n 0
      (run.addKey n 3 (k 4)).addKey n 4 (k 5)

/-- Replace the state by one made from it and from random words. -/
def convert (step : Trng → MaskedState × Trng) : MaskedRun :=
  let done := step run.trng
  { run with state := done.1, trng := done.2 }

/-- `ascon_copy_key_to_x2`, `ascon_copy_key_to_x3` and `ascon_copy_key_to_x4`. -/
def copyKeyTo (keyShares dataShares : Nat) : MaskedRun :=
  match keyShares, dataShares with
  | 3, 2 => run.convert (asconX2CopyFromX3 run.state)
  | 4, 2 => run.convert (asconX2CopyFromX4 run.state)
  | 4, 3 => run.convert (asconX3CopyFromX4 run.state)
  | _, _ => run

/-- `ascon_copy_key_from_x2`, `ascon_copy_key_from_x3` and `ascon_copy_key_from_x4`. -/
def copyKeyFrom (keyShares dataShares : Nat) : MaskedRun :=
  if dataShares = keyShares then run.convert (maskedRandomize keyShares run.state)
  else run.convert (maskedCopyWiden keyShares dataShares run.state)

end MaskedRun

/-- The init functions up to the conversion of the state. What the local variables hold before is
overwritten. -/
def maskedAeadInit (n : Nat) (v : AeadVariant) (locals : MaskedRun) (npub : Mem) (k : MaskedKey) :
    MaskedRun :=
  let run := locals.refresh n
  let run := { run with state := maskedStateInit }
  let run := run.convert (maskedRandomize n run.state)
  let run := run.addData n 0 (tablePtr v.maskedIv)
  let run := run.loadKey n v k
  let run := run.addData n 3 npub
  let run := run.addData n 4 (npub.view 8)
  let run := run.permute n 0
  run.absorbKey n v k

/-- The finalize functions from the conversion of the state on: the tag is written at `tag`. -/
def maskedAeadFinalize (n : Nat) (v : AeadVariant) (run : MaskedRun) (k : MaskedKey) (mem : Mem)
    (tag : Nat) : Mem :=
  let run := run.finalizeKey n v k
  maskedWordStore n (maskedWordStore n mem tag (run.state.get 3)) (tag + 8) (run.state.get 4)

/-- The payload with one data share: the state goes through the unmasked functions and comes back in
masked form. -/
def maskedPayloadX1 (keyShares : Nat) (v : AeadVariant)
    (crypt : AsconState → Mem → Nat → Nat → Nat → Nat → AsconState × Mem × Nat)
    (run : MaskedRun) (mem : Mem) (dest src len : Nat) (ad : Mem) (adlen : Nat) : MaskedRun × Mem :=
  let stateX1 := maskedCopyToX1 keyShares run.state
  let stateX1 := v.absorbData stateX1 ad adlen
  let stateX1 := asconSeparator stateX1
  let (stateX1, mem, partialLen) := crypt stateX1 mem dest src len 0
  let stateX1 := asconPad stateX1 partialLen
  ((run.refresh keyShares).convert (maskedCopyFromX1 keyShares stateX1), mem)

/-- The payload with two data shares or more. -/
def maskedPayload (keyShares dataShares : Nat) (v : AeadVariant)
    (crypt : MaskedRun → Mem → Nat → Nat → Nat → Nat → MaskedRun × Mem)
    (run : MaskedRun) (mem : Mem) (dest src len : Nat) (ad : Mem) (adlen : Nat) : MaskedRun × Mem :=
  let run := run.copyKeyTo keyShares dataShares
  let run := if 0 < adlen then maskedAbsorb dataShares v.rate run ad adlen v.firstRound else run
  let run := { run with state := run.state.modify 4 maskedWordSeparator }
  let (run, mem) := crypt run mem dest src len v.firstRound
  ((run.refresh keyShares).copyKeyFrom keyShares dataShares, mem)

/-- The body of the three masked encrypt functions: the memory and `*clen`. -/
def maskedAeadEncrypt (cfg : MaskedConfig) (v : AeadVariant) (locals : MaskedRun) (mem : Mem)
    (c m mlen : Nat) (ad : Mem) (adlen : Nat) (npub : Mem) (k : MaskedKey) : Mem × Nat :=
  let clen := mlen + asconTagSize
  let run := maskedAeadInit cfg.keyShares v locals npub k
  let (run, mem) :=
    if cfg.dataShares = 1 then
      maskedPayloadX1 cfg.keyShares v v.encryptMessage run mem c m mlen ad adlen
    else
      maskedPayload cfg.keyShares cfg.dataShares v (maskedEncrypt cfg.dataShares v.rate) run mem c m
        mlen ad adlen
  (maskedAeadFinalize cfg.keyShares v run k mem (c + mlen), clen)

/-- The body of the three masked decrypt functions. -/
def maskedAeadDecrypt (cfg : MaskedConfig) (v : AeadVariant) (locals : MaskedRun) (mem : Mem)
    (m c clen : Nat) (ad : Mem) (adlen : Nat) (npub : Mem) (k : MaskedKey) : AeadDecrypted :=
  if clen < asconTagSize then ⟨mem, none, -1⟩
  else
    let mlen := clen - asconTagSize
    let run := maskedAeadInit cfg.keyShares v locals npub k
    let (run, mem) :=
      if cfg.dataShares = 1 then
        maskedPayloadX1 cfg.keyShares v v.decryptMessage run mem m c mlen ad adlen
      else
        maskedPayload cfg.keyShares cfg.dataShares v (maskedDecrypt cfg.dataShares v.rate) run mem m
          c mlen ad adlen
    let tag := maskedAeadFinalize cfg.keyShares v run k (fun _ => 0) 0
    let (mem, result) := asconAeadCheckTag mem m mlen tag (mem.view (c + mlen)) asconTagSize
    ⟨mem, some mlen, result⟩

/-- `ascon128_masked_aead_encrypt`. -/
def ascon128MaskedAeadEncrypt (cfg : MaskedConfig) := maskedAeadEncrypt cfg .ascon128

/-- `ascon128_masked_aead_decrypt`. -/
def ascon128MaskedAeadDecrypt (cfg : MaskedConfig) := maskedAeadDecrypt cfg .ascon128

/-- `ascon128a_masked_aead_encrypt`. -/
def ascon128aMaskedAeadEncrypt (cfg : MaskedConfig) := maskedAeadEncrypt cfg .ascon128a

/-- `ascon128a_masked_aead_decrypt`. -/
def ascon128aMaskedAeadDecrypt (cfg : MaskedConfig) := maskedAeadDecrypt cfg .ascon128a

/-- `ascon80pq_masked_aead_encrypt`. -/
def ascon80pqMaskedAeadEncrypt (cfg : MaskedConfig) := maskedAeadEncrypt cfg .ascon80pq

/-- `ascon80pq_masked_aead_decrypt`. -/
def ascon80pqMaskedAeadDecrypt (cfg : MaskedConfig) := maskedAeadDecrypt cfg .ascon80pq

end AsconSuite
