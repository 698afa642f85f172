/-
Module: AsconSuite.Masking.State
Layer: Model
Purpose: Masked states, `masking/ascon-masked-state.c`: randomization, and the conversions between states
  with different numbers of shares and to and from the plain state.
Imports: AsconSuite.Masking.Permute
Trusted boundary: none
Main exports: maskedStateInit, maskedRandomize, maskedCopyFromX1, maskedCopyToX1, maskedCopyWiden,
  asconX2CopyFromX3, asconX2CopyFromX4, asconX3CopyFromX4, permuteShares
-/
import AsconSuite.Masking.Permute

namespace AsconSuite

open ByteWord ByteMemory

/-- `ascon_masked_state_init`. -/
def maskedStateInit : MaskedState :=
  ⟨fun _ => 0, fun _ => 0, fun _ => 0, fun _ => 0, fun _ => 0⟩

/-- `for (index = 0; index < 5; ++index)` over the words of a masked state, where every step draws from the
generator. -/
def forEachWord (step : Nat → Trng → MaskedWord × Trng) (trng : Trng) : MaskedState × Trng :=
  let (m0, trng) := step 0 trng
  let (m1, trng) := step 1 trng
  let (m2, trng) := step 2 trng
  let (m3, trng) := step 3 trng
  let (m4, trng) := step 4 trng
  (⟨m0, m1, m2, m3, m4⟩, trng)

/-- `ascon_x<n>_randomize`, which `ascon_x<n>_copy_from_x<n>` repeats. -/
def maskedRandomize (n : Nat) (state : MaskedState) (trng : Trng) : MaskedState × Trng :=
  forEachWord (fun index => maskedWordRandomize n (state.get index)) trng

/-- `ascon_x<n>_copy_from_x1`. -/
def maskedCopyFromX1 (n : Nat) (src : AsconState) (trng : Trng) : MaskedState × Trng :=
  forEachWord (fun index =>
    maskedWordLoad n (asconSqueeze8 src (fun _ => 0) 0 (index * 8))) trng

/-- `ascon_x<n>_copy_to_x1`. -/
def maskedCopyToX1 (n : Nat) (src : MaskedState) : AsconState :=
  let copy (dest : AsconState) (index : Nat) : AsconState :=
    asconOverwriteBytes dest (maskedWordStore n (fun _ => 0) 0 (src.get index)) (index * 8) 8
  copy (copy (copy (copy (copy asconInit 0) 1) 2) 3) 4

/-- `ascon_x<n>_copy_from_x<m>` for `m < n`. -/
def maskedCopyWiden (n m : Nat) (src : MaskedState) (trng : Trng) : MaskedState × Trng :=
  forEachWord (fun index => maskedWordWiden n m (src.get index)) trng

/-- `ascon_x2_copy_from_x3`. -/
def asconX2CopyFromX3 (src : MaskedState) (trng : Trng) : MaskedState × Trng :=
  forEachWord (fun index => maskedWordX2FromX3 (src.get index)) trng

/-- `ascon_x2_copy_from_x4`. -/
def asconX2CopyFromX4 (src : MaskedState) (trng : Trng) : MaskedState × Trng :=
  forEachWord (fun index => maskedWordX2FromX4 (src.get index)) trng

/-- `ascon_x3_copy_from_x4`. -/
def asconX3CopyFromX4 (src : MaskedState) (trng : Trng) : MaskedState × Trng :=
  forEachWord (fun index => maskedWordX3FromX4 (src.get index)) trng

/-- `ascon_x<n>_permute`. -/
def permuteShares (n : Nat) : MaskedState → Nat → (Nat → Word) → MaskedState × (Nat → Word) :=
  match n with
  | 2 => asconX2Permute
  | 3 => asconX3Permute
  | _ => asconX4Permute

end AsconSuite
