/-
Module: AsconSuite.Hash.Xof
Layer: Model
Purpose: The functions of `hash/ascon-xof.c` and `hash/ascon-xofa.c`, and `ascon_hash` of
  `hash/ascon-hash.c`. The two files differ in their constants, in the rounds of the permutation and in
  the place of the permutation in their squeeze functions.
Imports: AsconSuite.Aead.OneShot
Trusted boundary: a function name is the list of the characters in front of its terminator
Main exports: XofState, asconXofAbsorb, asconXofSqueeze, asconXofaSqueeze, asconXofInitFixed,
  asconXofInitCustom, asconHashInit, asconHash
-/
import AsconSuite.Aead.OneShot

namespace AsconSuite

open ByteWord ByteMemory

/-- `ASCON_XOF_RATE`. -/
def asconXofRate : Nat := 8

/-- `ASCON_HASH_SIZE`. -/
def asconHashSize : Nat := 32

/-- `ascon_xof_state_t`. -/
structure XofState where
  state : AsconState
  count : Nat
  mode : Bool

/-- `ascon_hash_init` of the 64-bit sliced backend. -/
def asconHashInit : XofState where
  state := ⟨0xee9398aadb67f03d, 0x8bb21831c60f1002, 0xb48a92db98d5da62, 0x43189921b8f8e3e8,
    0x348fa5c9d525e140⟩
  count := 0
  mode := false

/-- The full blocks and the block left over at the end of `ascon_xof_absorb`. -/
def xofAbsorbBlocks (firstRound : Nat) (state : AsconState) (input : Mem) (inlen : Nat) : XofState :=
  let (state, input, inlen) := absorbLoop asconXofRate
    (fun state input => asconPermute (asconAbsorb8 state input 0) firstRound) state input inlen
  let temp := inlen
  let state := if 0 < temp then asconAbsorbPartial state input 0 temp else state
  ⟨state, temp, false⟩

/-- The body that `ascon_xof_absorb` shares with its sibling of other rounds. -/
def xofAbsorb (firstRound : Nat) (xof : XofState) (input : Mem) (inlen : Nat) : XofState :=
  let xof := if xof.mode then ⟨asconPermute xof.state 0, 0, false⟩ else xof
  if xof.count ≠ 0 then
    let temp := asconXofRate - xof.count
    if inlen < temp then
      { xof with
        state := asconAbsorbPartial xof.state input xof.count inlen
        count := xof.count + inlen }
    else
      let state := asconAbsorbPartial xof.state input xof.count temp
      xofAbsorbBlocks firstRound (asconPermute state firstRound) (input.view temp) (inlen - temp)
  else xofAbsorbBlocks firstRound xof.state input inlen

/-- `ascon_xof_absorb`. -/
def asconXofAbsorb := xofAbsorb 0

/-- The full blocks and the block left over at the end of `ascon_xof_squeeze`. -/
def asconXofSqueezeBlocks (state : AsconState) (mem : Mem) (out outlen : Nat) : XofState × Mem :=
  if asconXofRate ≤ outlen then
    let state := asconPermute state 0
    asconXofSqueezeBlocks state (asconSqueeze8 state mem out 0) (out + asconXofRate)
      (outlen - asconXofRate)
  else if 0 < outlen then
    let state := asconPermute state 0
    (⟨state, outlen, true⟩, asconSqueezePartial state mem out 0 outlen)
  else (⟨state, 0, true⟩, mem)
termination_by outlen
decreasing_by
  have positive : 0 < asconXofRate := by decide
  omega

/-- `ascon_xof_squeeze`. -/
def asconXofSqueeze (xof : XofState) (mem : Mem) (out outlen : Nat) : XofState × Mem :=
  let xof := if xof.mode then xof else ⟨asconPad xof.state xof.count, 0, true⟩
  if xof.count ≠ 0 then
    let temp := asconXofRate - xof.count
    if outlen < temp then
      ({ xof with count := xof.count + outlen },
        asconSqueezePartial xof.state mem out xof.count outlen)
    else
      asconXofSqueezeBlocks xof.state (asconSqueezePartial xof.state mem out xof.count temp)
        (out + temp) (outlen - temp)
  else asconXofSqueezeBlocks xof.state mem out outlen

/-- `ascon_hash`: the memory with the digest at `out`. -/
def asconHash (mem : Mem) (out : Nat) (input : Mem) (inlen : Nat) : Mem :=
  (asconXofSqueeze (asconXofAbsorb asconHashInit input inlen) mem out asconHashSize).2

/-! ### The functions of `ascon-xofa.c` -/

/-- `ascon_xofa_absorb`. -/
def asconXofaAbsorb := xofAbsorb 4

/-- The full blocks and the block left over at the end of `ascon_xofa_squeeze`. -/
def asconXofaSqueezeBlocks (state : AsconState) (mem : Mem) (out outlen : Nat) : XofState × Mem :=
  if asconXofRate ≤ outlen then
    asconXofaSqueezeBlocks (asconPermute state 4) (asconSqueeze8 state mem out 0) (out + asconXofRate)
      (outlen - asconXofRate)
  else if 0 < outlen then (⟨state, outlen, true⟩, asconSqueezePartial state mem out 0 outlen)
  else (⟨state, 0, true⟩, mem)
termination_by outlen
decreasing_by
  have positive : 0 < asconXofRate := by decide
  omega

/-- `ascon_xofa_squeeze`. -/
def asconXofaSqueeze (xof : XofState) (mem : Mem) (out outlen : Nat) : XofState × Mem :=
  let xof := if xof.mode then xof else ⟨asconPermute (asconPad xof.state xof.count) 0, 0, true⟩
  if xof.count ≠ 0 then
    let temp := asconXofRate - xof.count
    if outlen < temp then
      ({ xof with count := xof.count + outlen },
        asconSqueezePartial xof.state mem out xof.count outlen)
    else
      let mem := asconSqueezePartial xof.state mem out xof.count temp
      asconXofaSqueezeBlocks (asconPermute xof.state 4) mem (out + temp) (outlen - temp)
  else asconXofaSqueezeBlocks xof.state mem out outlen

/-! ### Padding to a block -/

/-- The body that `ascon_xof_pad` shares with its sibling of other rounds. -/
def xofPad (firstRound : Nat) (xof : XofState) : XofState :=
  if xof.mode then xofAbsorb firstRound xof (tablePtr []) 0
  else if xof.count ≠ 0 then { xof with state := asconPermute xof.state firstRound, count := 0 }
  else xof

/-- `ascon_xof_pad`. -/
def asconXofPad := xofPad 0

/-- `ascon_xofa_pad`. -/
def asconXofaPad := xofPad 4

/-! ### Initialization -/

/-- `ascon_xof_init` of the 64-bit sliced backend. -/
def asconXofInit : XofState where
  state := ⟨0xb57e273b814cd416, 0x2b51042562ae2420, 0x66a3a7768ddf2218, 0x5aad0a7a8153650c,
    0x4f3e0e32539493b6⟩
  count := 0
  mode := false

/-- `ascon_xofa_init` of the 64-bit sliced backend. -/
def asconXofaInit : XofState where
  state := ⟨0x44906568b77b9832, 0xcd8d6cae53455532, 0xf7b5212756422129, 0x246885e1de0d225b,
    0xa8cb5ce33449973f⟩
  count := 0
  mode := false

/-- The initial values of `ascon_xofa_init_fixed` for outputs of 32 bytes. -/
def asconHashaInit : XofState where
  state := ⟨0x01470194fc6528a6, 0x738ec38ac0adffa7, 0x2ec8e3296c76384c, 0xd6f6a54d7f52377d,
    0xa13c42a223be8d87⟩
  count := 0
  mode := false

/-- The length of the output as the functions use it: too large ones stand for any length. -/
def xofOutputLength (outlen : Nat) : Nat := if 2 ^ 29 ≤ outlen then 0 else outlen

/-- `be_store_word64(iv, word | (outlen * 8UL))`. -/
def xofBlock (word : Word) (outlen : Nat) : Mem :=
  tablePtr (beBytes64 (word ||| BitVec.ofNat 64 (outlen * 8)))

/-- The body that `ascon_xof_init_fixed` shares with its sibling: the states for outputs of any length
and of 32 bytes, and the first word for other lengths. -/
def xofInitFixed (init hashInit : XofState) (word : Word) (outlen : Nat) : XofState :=
  let outlen := xofOutputLength outlen
  if outlen = 0 then init
  else if outlen = 32 then hashInit
  else ⟨asconPermute (asconOverwriteBytes asconInit (xofBlock word outlen) 0 8) 0, 0, false⟩

/-- `ascon_xof_init_fixed`. -/
def asconXofInitFixed := xofInitFixed asconXofInit asconHashInit 0x00400c0000000000#64

/-- `ascon_xofa_init_fixed`. -/
def asconXofaInitFixed := xofInitFixed asconXofaInit asconHashaInit 0x00400c0400000000#64

/-- The body that `ascon_xof_absorb_custom` shares with its sibling. -/
def xofAbsorbCustom (firstRound : Nat) (xof : XofState) (custom : Mem) (customlen : Nat) : XofState :=
  if 0 < customlen then
    let xof := xofAbsorb firstRound xof custom customlen
    { xof with
      state := asconSeparator (asconPermute (asconPad xof.state xof.count) firstRound)
      count := 0 }
  else xof

/-- `ascon_xof_absorb_custom`. -/
def asconXofAbsorbCustom := xofAbsorbCustom 0

/-- `ascon_xofa_absorb_custom`. -/
def asconXofaAbsorbCustom := xofAbsorbCustom 4

/-- The body that `ascon_xof_init_custom` shares with its sibling. A name of more than 32 characters is
replaced by its hash. -/
def xofInitCustom (hash : (name : Mem) → (len : Nat) → Mem)
    (absorbCustom : XofState → Mem → Nat → XofState) (word : Word) (functionName : Option (List Byte))
    (custom : Mem) (customlen outlen : Nat) : XofState :=
  let name := functionName.getD []
  let len := name.length
  let outlen := xofOutputLength outlen
  let temp : Mem := if len ≤ asconHashSize then tablePtr name else hash (tablePtr name) len
  let state := asconOverwriteBytes asconInit temp 8 asconHashSize
  let state := asconOverwriteBytes state (xofBlock word outlen) 0 8
  absorbCustom ⟨asconPermute state 0, 0, false⟩ custom customlen

/-- `ascon_xof_init_custom`. -/
def asconXofInitCustom :=
  xofInitCustom
    (fun name len => (asconXofSqueeze (asconXofAbsorb (asconXofInitFixed asconHashSize) name len)
      (tablePtr []) 0 asconHashSize).2)
    asconXofAbsorbCustom 0x00400c0000000000#64

/-- `ascon_xofa_init_custom`. -/
def asconXofaInitCustom :=
  xofInitCustom
    (fun name len => (asconXofaSqueeze (asconXofaAbsorb (asconXofaInitFixed asconHashSize) name len)
      (tablePtr []) 0 asconHashSize).2)
    asconXofaAbsorbCustom 0x00400c0400000000#64

/-! ### Calls of one object -/

/-- The two extendable-output functions. -/
inductive XofVariant where
  | xof
  | xofa
deriving DecidableEq

/-- A call of an absorb function. -/
structure AbsorbCall where
  input : Mem
  inlen : Nat

/-- A call of a squeeze function, on the memory it finds. -/
structure SqueezeCall where
  mem : Mem
  out : Nat
  outlen : Nat

/-- A call on an object. -/
inductive XofCall where
  | absorb (call : AbsorbCall)
  | squeeze (call : SqueezeCall)
  | pad

/-- How an object is initialized. -/
inductive XofStart where
  | init
  | initFixed (outlen : Nat)
  | initCustom (functionName : Option (List Byte)) (custom : Mem) (customlen outlen : Nat)

namespace XofVariant

def absorb : XofVariant → XofState → Mem → Nat → XofState
  | xof => asconXofAbsorb
  | xofa => asconXofaAbsorb

def squeeze : XofVariant → XofState → Mem → Nat → Nat → XofState × Mem
  | xof => asconXofSqueeze
  | xofa => asconXofaSqueeze

def pad : XofVariant → XofState → XofState
  | xof => asconXofPad
  | xofa => asconXofaPad

/-- The object after its initialization. -/
def start : XofVariant → XofStart → XofState
  | xof, .init => asconXofInit
  | xof, .initFixed outlen => asconXofInitFixed outlen
  | xof, .initCustom functionName custom customlen outlen =>
      asconXofInitCustom functionName custom customlen outlen
  | xofa, .init => asconXofaInit
  | xofa, .initFixed outlen => asconXofaInitFixed outlen
  | xofa, .initCustom functionName custom customlen outlen =>
      asconXofaInitCustom functionName custom customlen outlen

/-- One call: the object after it, and the bytes in the output buffer after it. -/
def call (v : XofVariant) (xof : XofState) : XofCall → XofState × List Byte
  | .absorb ⟨input, inlen⟩ => (v.absorb xof input inlen, [])
  | .squeeze ⟨mem, out, outlen⟩ =>
      let (xof, mem) := v.squeeze xof mem out outlen
      (xof, mem.read out outlen)
  | .pad => (v.pad xof, [])

end XofVariant

end AsconSuite
