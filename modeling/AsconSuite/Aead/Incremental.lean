/-
Module: AsconSuite.Aead.Incremental
Layer: Model
Purpose: The incremental functions of the three algorithms, `aead/ascon-aead-inc-*.c`, the nonce increment of
  `aead/ascon-aead-util.c`, and the calls an application makes for a series of packets.
Imports: AsconSuite.Aead.OneShot, AsconSuite.Base.Transducer
Trusted boundary: the application starts a packet before it feeds data and finalizes it once
Main exports: AeadState, asconAeadIncrementNonce, aeadReinit, aeadStart, aeadEncryptBlock,
  aeadEncryptFinalize, aeadDecryptBlock, aeadDecryptFinalize, BlockCall, PacketCall, sessionStep
-/
import AsconSuite.Aead.OneShot
import AsconSuite.Base.Transducer

namespace AsconSuite

open ByteWord ByteMemory

/-- `ascon128_state_t` and its siblings; an array field is the pointer to it. -/
structure AeadState where
  state : AsconState
  key : Mem
  nonce : Mem
  posn : Nat

/-- The loop of `ascon_aead_increment_nonce`. -/
def incrementNonceLoop (npub : Mem) (carry : BitVec 16) : (index : Nat) → Mem
  | 0 => npub
  | index + 1 =>
      let carry := carry + (npub index).setWidth 16
      incrementNonceLoop (npub.store index (carry.setWidth 8)) (carry >>> 8) index

/-- `ascon_aead_increment_nonce`. -/
def asconAeadIncrementNonce (npub : Mem) : Mem :=
  incrementNonceLoop npub 1 ascon128NonceSize

/-- The body of the three `reinit` functions; a null pointer is `none`. -/
def aeadReinit (v : AeadVariant) (state : AeadState) (npub k : Option Mem) : AeadState where
  state := state.state
  key := match k with
    | some k => state.key.write 0 (k.read 0 v.keySize)
    | none => state.key.write 0 (List.replicate v.keySize 0)
  nonce := match npub with
    | some npub => state.nonce.write 0 (npub.read 0 ascon128NonceSize)
    | none => state.nonce.write 0 (List.replicate ascon128NonceSize 0)
  posn := 0

/-- The body of the three `init` functions. -/
def aeadInit (v : AeadVariant) (state : AeadState) (npub k : Option Mem) : AeadState :=
  aeadReinit v { state with state := asconInit } npub k

/-- The body of the three `start` functions. -/
def aeadStart (v : AeadVariant) (state : AeadState) (ad : Mem) (adlen : Nat) : AeadState :=
  { state with
    state := v.startFrom state.state ad adlen state.nonce state.key
    posn := 0
    nonce := asconAeadIncrementNonce state.nonce }

/-- The body of the three `encrypt_block` functions. -/
def aeadEncryptBlock (v : AeadVariant) (state : AeadState) (mem : Mem) (input output len : Nat) :
    AeadState × Mem :=
  let done := v.encryptMessage state.state mem output input len state.posn
  ({ state with state := done.1, posn := done.2.2 }, done.2.1)

/-- The body of the three `encrypt_finalize` functions. -/
def aeadEncryptFinalize (v : AeadVariant) (state : AeadState) (mem : Mem) (tag : Nat) :
    AeadState × Mem :=
  let last := v.finalize (asconPad state.state state.posn) state.key
  ({ state with state := last }, v.squeezeTag last mem tag)

/-- The body of the three `decrypt_block` functions. -/
def aeadDecryptBlock (v : AeadVariant) (state : AeadState) (mem : Mem) (input output len : Nat) :
    AeadState × Mem :=
  let done := v.decryptMessage state.state mem output input len state.posn
  ({ state with state := done.1, posn := done.2.2 }, done.2.1)

/-- The body of the three `decrypt_finalize` functions. -/
def aeadDecryptFinalize (v : AeadVariant) (state : AeadState) (mem : Mem) (tag : Mem) :
    AeadState × Int :=
  let last := v.finalize (asconPad state.state state.posn) state.key
  ({ state with state := last }, (asconAeadCheckTag mem 0 0 (tagBuffer last) tag asconTagSize).2)

/-! ### The functions of each algorithm -/

/-- `ascon128_aead_init`. -/
def ascon128AeadInit := aeadInit .ascon128

/-- `ascon128_aead_reinit`. -/
def ascon128AeadReinit := aeadReinit .ascon128

/-- `ascon128_aead_start`. -/
def ascon128AeadStart := aeadStart .ascon128

/-- `ascon128_aead_encrypt_block`. -/
def ascon128AeadEncryptBlock := aeadEncryptBlock .ascon128

/-- `ascon128_aead_encrypt_finalize`. -/
def ascon128AeadEncryptFinalize := aeadEncryptFinalize .ascon128

/-- `ascon128_aead_decrypt_block`. -/
def ascon128AeadDecryptBlock := aeadDecryptBlock .ascon128

/-- `ascon128_aead_decrypt_finalize`. -/
def ascon128AeadDecryptFinalize := aeadDecryptFinalize .ascon128

/-- `ascon128a_aead_init`. -/
def ascon128aAeadInit := aeadInit .ascon128a

/-- `ascon128a_aead_reinit`. -/
def ascon128aAeadReinit := aeadReinit .ascon128a

/-- `ascon128a_aead_start`. -/
def ascon128aAeadStart := aeadStart .ascon128a

/-- `ascon128a_aead_encrypt_block`. -/
def ascon128aAeadEncryptBlock := aeadEncryptBlock .ascon128a

/-- `ascon128a_aead_encrypt_finalize`. -/
def ascon128aAeadEncryptFinalize := aeadEncryptFinalize .ascon128a

/-- `ascon128a_aead_decrypt_block`. -/
def ascon128aAeadDecryptBlock := aeadDecryptBlock .ascon128a

/-- `ascon128a_aead_decrypt_finalize`. -/
def ascon128aAeadDecryptFinalize := aeadDecryptFinalize .ascon128a

/-- `ascon80pq_aead_init`. -/
def ascon80pqAeadInit := aeadInit .ascon80pq

/-- `ascon80pq_aead_reinit`. -/
def ascon80pqAeadReinit := aeadReinit .ascon80pq

/-- `ascon80pq_aead_start`. -/
def ascon80pqAeadStart := aeadStart .ascon80pq

/-- `ascon80pq_aead_encrypt_block`. -/
def ascon80pqAeadEncryptBlock := aeadEncryptBlock .ascon80pq

/-- `ascon80pq_aead_encrypt_finalize`. -/
def ascon80pqAeadEncryptFinalize := aeadEncryptFinalize .ascon80pq

/-- `ascon80pq_aead_decrypt_block`. -/
def ascon80pqAeadDecryptBlock := aeadDecryptBlock .ascon80pq

/-- `ascon80pq_aead_decrypt_finalize`. -/
def ascon80pqAeadDecryptFinalize := aeadDecryptFinalize .ascon80pq

/-! ### Calls of an application -/

/-- The arguments of one block call, with the memory at the time of the call. -/
structure BlockCall where
  mem : Mem
  input : Nat
  output : Nat
  len : Nat
  ranges : SameOrApart output input len

/-- The bytes handed to the call. -/
def BlockCall.bytes (call : BlockCall) : List Byte := call.mem.read call.input call.len

/-- An encrypt call and the bytes found in its output buffer afterwards. -/
def encryptCall (v : AeadVariant) (state : AeadState) (call : BlockCall) : AeadState × List Byte :=
  let done := aeadEncryptBlock v state call.mem call.input call.output call.len
  (done.1, done.2.read call.output call.len)

/-- A decrypt call and the bytes found in its output buffer afterwards. -/
def decryptCall (v : AeadVariant) (state : AeadState) (call : BlockCall) : AeadState × List Byte :=
  let done := aeadDecryptBlock v state call.mem call.input call.output call.len
  (done.1, done.2.read call.output call.len)

/-- The associated data of a packet and the calls its payload is cut into. -/
structure PacketCall where
  ad : Mem
  adlen : Nat
  calls : List BlockCall

/-- The payload of a packet. -/
def PacketCall.bytes (packet : PacketCall) : List Byte :=
  (packet.calls.map BlockCall.bytes).flatten

/-- What the application does next: encrypt a packet, or decrypt one with the tag that came with it. -/
inductive SessionCall where
  | encrypt (packet : PacketCall)
  | decrypt (packet : PacketCall) (tag : Mem)

/-- What the application gets: the concatenated outputs, and the tag or the result of its check. -/
inductive SessionResult where
  | encrypted (output tag : List Byte)
  | decrypted (output : List Byte) (result : Int)

/-- One packet from `start` to `finalize`. The tag of an encrypted packet goes to a buffer of its own. -/
def sessionStep (v : AeadVariant) : Transducer.Step AeadState SessionCall SessionResult
  | state, .encrypt packet =>
      let started := aeadStart v state packet.ad packet.adlen
      let done := Transducer.run (encryptCall v) started packet.calls
      let final := aeadEncryptFinalize v done.1 (fun _ => 0) 0
      (final.1, .encrypted done.2.flatten (final.2.read 0 asconTagSize))
  | state, .decrypt packet tag =>
      let started := aeadStart v state packet.ad packet.adlen
      let done := Transducer.run (decryptCall v) started packet.calls
      let final := aeadDecryptFinalize v done.1 (fun _ => 0) tag
      (final.1, .decrypted done.2.flatten final.2)

end AsconSuite
