/-
Module: AsconSuite.Proofs.MaskedBounds
Layer: Proofs
Purpose: Which functions on masked words, states and keys stay inside of the arrays of shares, for every configured
  number of shares.
Imports: AsconSuite.Base.EmitLogic, AsconSuite.Masking.Bounded
Trusted boundary: none (fully proved)
Main exports: Bounded.Inside, Bounded.Steady, Bounded.sharesCode_steady, Bounded.directCode_steady,
  Bounded.operation_inside_iff
-/
import AsconSuite.Base.EmitLogic
import AsconSuite.Masking.Bounded

namespace AsconSuite.Bounded

open ByteWord ByteMemory RotatedSharing
open Emit (Fails fails_of_error fails_bind fails_forM)
open Sliced32 (SlicedWord)

/-! ### Code that stays inside of its arrays -/

section Rules

variable {β α γ κ : Type}

/-- Whatever is in memory, the code ends without an access beyond an array. -/
def Inside (m : Shared β α) : Prop := ∀ s, ∃ a s', m.run s = .ok (a, s')

theorem inside_pure (a : α) : Inside (pure a : Shared β α) := fun s => ⟨a, s, rfl⟩

theorem inside_bind {m : Shared β α} {f : α → Shared β γ} (first : Inside m) (second : ∀ a, Inside (f a)) :
    Inside (m >>= f) := by
  intro s
  obtain ⟨a, s₁, ran⟩ := first s
  obtain ⟨b, s₂, ran'⟩ := second a s₁
  refine ⟨b, s₂, ?_⟩
  rw [StateT.run_bind, ran]
  exact ran'

theorem inside_ite {c : Prop} [Decidable c] {m n : Shared β α} (first : c → Inside m) (second : ¬c → Inside n) :
    Inside (if c then m else n) := by
  split
  · exact first ‹_›
  · exact second ‹_›

theorem inside_forM {l : List κ} {f : κ → Shared β PUnit} (turn : ∀ x ∈ l, Inside (f x)) : Inside (l.forM f) := by
  induction l with
  | nil => exact inside_pure PUnit.unit
  | cons x rest ih =>
      exact inside_bind (turn x List.mem_cons_self) fun _ => ih fun y member => turn y (List.mem_cons_of_mem x member)

theorem inside_modify (f : Memory β → Memory β) : Inside (modify f : Shared β PUnit) := fun s => ⟨⟨⟩, f s, rfl⟩

theorem inside_draw (f : Trng → α × Trng) : Inside (draw f : Shared β α) := fun _ => ⟨_, _, rfl⟩

theorem inside_readCell {max share : Nat} (bound : share < max) (word index : Nat) :
    Inside (readCell max share word index : Shared β β) :=
  inside_ite (fun _ s => ⟨_, s, rfl⟩) fun beyond => absurd bound beyond

theorem inside_writeCell {max share : Nat} (bound : share < max) (word index : Nat) (x : β) :
    Inside (writeCell max share word index x) :=
  inside_ite (fun _ => inside_modify _) fun beyond => absurd bound beyond

/-- Code that does not end for one state of memory does not stay inside. -/
theorem not_inside {m : Shared β α} {s : Memory β} (fails : Fails m s) : ¬Inside m := by
  intro inside
  obtain ⟨a, s', ran⟩ := inside s
  exact fails a s' ran

/-- A read beyond the array does not end. -/
theorem fails_readCell {max share word index : Nat} {s : Memory β} (beyond : max ≤ share) :
    Fails (readCell max share word index) s := by
  unfold readCell
  rw [if_neg (Nat.not_lt.2 beyond)]
  exact fails_of_error rfl

theorem fails_writeCell {max share word index : Nat} {x : β} {s : Memory β} (beyond : max ≤ share) :
    Fails (writeCell max share word index x) s := by
  unfold writeCell
  rw [if_neg (Nat.not_lt.2 beyond)]
  exact fails_of_error rfl

end Rules

/-! ### Words of whole shares -/

/-- The functions on words stay inside for these arguments. -/
structure Steady {β : Type} (code : WordCode β) (max : Nat) : Prop where
  load : ∀ n word data, Shares max n → Inside (code.load n word data)
  load32 : ∀ n word data1 data2, Shares max n → Inside (code.load32 n word data1 data2)
  store : ∀ n mem data word, Shares max n → Inside (code.store n mem data word)
  storeHalf : ∀ n mem data word, Shares max n → Inside (code.storePartial n mem data 4 word)
  randomize : ∀ n dest src, Shares max n → Inside (code.randomize n dest src)
  xor : ∀ n dest src, Shares max n → Inside (code.xor n dest src)
  convert : ∀ n m dest src, Shares max n → Shares max m → Inside (code.convert n m dest src)
  separator : ∀ word, Inside (code.separator word)

section Shares

variable {σ : Type} {max : Nat} {zero : σ}

theorem inside_readShares (word : Nat) {n : Nat} (fits : n ≤ max) : Inside (readShares max zero word n) := by
  induction n with
  | zero => exact inside_pure _
  | succ n ih =>
      exact inside_bind (ih (Nat.le_of_succ_le fits)) fun shares =>
        inside_bind (inside_readCell fits word n) fun x => inside_pure _

theorem inside_writeShares (word : Nat) {n : Nat} (fits : n ≤ max) (value : Nat → σ) :
    Inside (writeShares max word n value) :=
  inside_forM fun i member => inside_writeCell (Nat.lt_of_lt_of_le (List.mem_range.1 member) fits) word i _

theorem inside_clearShares (word n : Nat) : Inside (clearShares max zero word n) := by
  have one (i : Nat) : Inside (clearShare max zero word n i) :=
    inside_ite (fun both => inside_writeCell both.1 word i zero) fun _ => inside_pure _
  exact inside_bind (one 2) fun _ => one 3

theorem inside_fillShares {n : Nat} (fits : n ≤ max) (word : Nat) (value : Trng → (Nat → σ) × Trng) :
    Inside (fillShares max zero n word value) :=
  inside_bind (inside_draw _) fun shares => inside_bind (inside_writeShares word fits shares) fun _ =>
    inside_clearShares word n

variable {words : MaskedWords (Nat → σ)}

theorem inside_storePartial {n : Nat} (fits : n ≤ max) (mem : Mem) (data size word : Nat) :
    Inside ((sharesCode max zero words).storePartial n mem data size word) :=
  inside_bind (inside_readShares word fits) fun _ => inside_pure _

theorem inside_replace {n : Nat} (fits : n ≤ max) (dest src size : Nat) :
    Inside ((sharesCode max zero words).replace n dest src size) :=
  inside_bind (inside_readShares dest fits) fun _ => inside_bind (inside_readShares src fits) fun _ =>
    inside_writeShares dest fits _

theorem inside_pad (some_share : 1 ≤ max) (word offset : Nat) : Inside ((sharesCode max zero words).pad word offset) :=
  inside_bind (inside_readShares word some_share) fun _ => inside_writeShares word some_share _

/-- The functions on words of whole shares stay inside, whatever they compute. -/
theorem sharesCode_steady (some_share : 1 ≤ max) : Steady (sharesCode max zero words) max where
  load := fun n word data shares => inside_fillShares shares.fits word _
  load32 := fun n word data1 data2 shares => inside_fillShares shares.fits word _
  store := fun n mem data word shares => inside_bind (inside_readShares word shares.fits) fun _ => inside_pure _
  storeHalf := fun n mem data word shares => inside_storePartial shares.fits mem data 4 word
  randomize := fun n dest src shares => inside_bind (inside_readShares src shares.fits) fun _ =>
    inside_bind (inside_draw _) fun _ => inside_writeShares dest shares.fits _
  xor := fun n dest src shares => inside_bind (inside_readShares dest shares.fits) fun _ =>
    inside_bind (inside_readShares src shares.fits) fun _ => inside_writeShares dest shares.fits _
  convert := by
    intro n m dest src shares other
    have fits : (if n < m then m else n) ≤ max := by
      split
      · exact other.fits
      · exact shares.fits
    exact inside_bind (inside_readShares src other.fits) fun _ => inside_bind (inside_draw _) fun _ =>
      inside_bind (inside_writeShares dest fits _) fun _ => inside_clearShares dest _
  separator := fun word => inside_bind (inside_readShares word some_share) fun _ => inside_writeShares word some_share _

theorem inside_permuteWords {τ : Type} {n : Nat} (fits : n ≤ max) (state : Nat)
    (permute : Five (Nat → σ) → Five (Nat → σ) × τ) : Inside (permuteWords max zero n state permute) :=
  inside_bind (inside_readShares state fits) fun _ => inside_bind (inside_readShares _ fits) fun _ =>
    inside_bind (inside_readShares _ fits) fun _ => inside_bind (inside_readShares _ fits) fun _ =>
    inside_bind (inside_readShares _ fits) fun _ =>
    inside_bind (inside_forM fun _ _ => inside_writeShares _ fits _) fun _ => inside_pure _

end Shares

/-- The functions of the 64-bit backend differ from these in one only. -/
theorem c64Code_steady {max : Nat} (some_share : 1 ≤ max) : Steady (c64Code max) max := by
  have same : Steady (sharesCode max 0 maskedWords64) max := sharesCode_steady some_share
  exact ⟨same.load, same.load32, same.store, same.storeHalf, same.randomize, same.xor, same.convert, same.separator⟩

/-- Zero with three shares writes a fourth one. -/
theorem c64Zero_inside_iff {max n : Nat} (word : Nat) (shares : Shares max n) (upper : max ≤ 4) :
    Inside (c64Zero max n word) ↔ ¬(n = 3 ∧ max = 3) := by
  have others (other : n ≠ 3) : c64Zero max n word = fillShares max 0 n word (maskedWords64.zero n) := by
    unfold c64Zero
    split
    · exact absurd rfl other
    · rfl
  by_cases three : n = 3
  · subst three
    constructor
    · rintro inside ⟨_, rfl⟩
      refine not_inside (s := ⟨fun _ _ => 0, fun _ => 0⟩) ?_ inside
      refine fails_bind fun _ _ _ => fails_bind fun _ _ _ => fails_bind fun a g ran => ?_
      exact absurd ran (fails_writeCell (Nat.le_refl 3) a g)
    · intro notThree
      have fits := shares.fits
      have room : 3 < max := by omega
      exact inside_bind (inside_draw _) fun _ => inside_bind (inside_writeShares word fits _) fun _ =>
        inside_bind (inside_writeCell room word 3 0) fun _ => inside_clearShares word 3
  · refine iff_of_true ?_ fun both => three both.1
    rw [others three]
    exact inside_fillShares shares.fits word _

/-! ### Bytes -/

section Direct

variable {max : Nat}

theorem inside_readByte {index : Nat} (bound : index < 8 * max) (word : Nat) : Inside (readByte max word index) :=
  inside_readCell (Nat.div_lt_of_lt_mul bound) word index

theorem inside_writeByte {index : Nat} (bound : index < 8 * max) (word : Nat) (x : Byte) :
    Inside (writeByte max word index x) :=
  inside_writeCell (Nat.div_lt_of_lt_mul bound) word index x

theorem fails_readByte {index word : Nat} {s : Memory Byte} (beyond : 8 * max ≤ index) :
    Fails (readByte max word index) s :=
  fails_readCell ((Nat.le_div_iff_mul_le (by decide)).2 (Nat.mul_comm max 8 ▸ beyond))

/-- Byte `index` of a share that there is. -/
theorem byte_lt {index k n : Nat} (byte : index < 8) (share : k < n) (fits : n ≤ max) : index + 8 * k < 8 * max := by
  omega

theorem inside_setShare {i : Nat} (bound : i < max) (word : Nat) (x : Word) : Inside (setShare max word i x) :=
  inside_forM fun _ member => inside_writeByte (byte_lt (List.mem_range.1 member) bound (Nat.le_refl max)) word _

theorem inside_clearBytes (word n : Nat) : Inside (clearBytes max word n) := by
  have one (i : Nat) : Inside (clearByteShare max word n i) :=
    inside_ite (fun both => inside_setShare both.1 word 0) fun _ => inside_pure _
  exact inside_bind (one 2) fun _ => one 3

theorem inside_drawShares {n : Nat} (fits : n ≤ max) (word : Nat) : Inside (drawShares max word n) := by
  refine inside_forM fun k member => inside_bind (inside_draw _) fun x => inside_setShare ?_ word x
  have lower := List.mem_range.1 member
  omega

theorem inside_sumShares {index first count : Nat} (word : Nat) (bound : index + 8 * (first + count) < 8 * max + 8) :
    Inside (sumShares max word index first count) := by
  induction count generalizing first with
  | zero => exact inside_pure _
  | succ count ih =>
      refine inside_bind (inside_readByte (by omega) word) fun x => inside_bind (ih (by omega)) fun sum => inside_pure _

theorem fails_sumShares {index first count word : Nat} {s : Memory Byte} (some_share : 0 < count)
    (beyond : 8 * max + 8 ≤ index + 8 * (first + count)) : Fails (sumShares max word index first count) s := by
  induction count generalizing first s with
  | zero => exact absurd some_share (Nat.lt_irrefl 0)
  | succ count ih =>
      rcases Nat.eq_zero_or_pos count with last | more
      · refine fails_bind fun a g ran => absurd ran (fails_readByte ?_ a g)
        omega
      · refine fails_bind fun _ _ _ => fails_bind fun a g ran => absurd ran (ih more ?_ a g)
        omega

theorem inside_maskBytes {n first count : Nat} (bound : first + count + 8 * (n - 1) ≤ 8 * max)
    (word : Nat) (data : Nat → Byte) : Inside (maskBytes max n word data first count) := by
  refine inside_forM fun index member => ?_
  obtain ⟨_, lower⟩ := List.mem_range'_1.1 member
  exact inside_bind (inside_sumShares word (by omega)) fun sum => inside_writeByte (by omega) word _

theorem fails_maskBytes {n first count word : Nat} {data : Nat → Byte} {s : Memory Byte} (some_share : 2 ≤ n)
    (some_byte : 0 < count) (beyond : 8 * max < first + count + 8 * (n - 1)) :
    Fails (maskBytes max n word data first count) s := by
  have last : first + count - 1 ∈ List.range' first count := List.mem_range'_1.2 (by omega)
  refine fails_forM last fun g => fails_bind fun a g' ran => absurd ran (fails_sumShares ?_ ?_ a g')
  · omega
  · omega

theorem directLoadPartial_inside_iff {n word size : Nat} {data : Mem} (shares : Shares max n) :
    Inside (directLoadPartial max n word data size) ↔ size + 8 * (n - 1) ≤ 8 * max := by
  obtain ⟨lower, _, fits⟩ := shares
  constructor
  · intro inside
    apply Classical.byContradiction
    intro beyond
    refine not_inside (s := ⟨fun _ _ => 0, fun _ => 0⟩) ?_ inside
    refine fails_bind fun _ _ _ => fails_bind fun a g ran => absurd ran (fails_maskBytes lower ?_ ?_ a g)
    · omega
    · omega
  · intro bound
    exact inside_bind (inside_drawShares fits word) fun _ =>
      inside_bind (inside_maskBytes (by omega) word data) fun _ =>
      inside_bind (inside_maskBytes (by omega) word _) fun _ => inside_clearBytes word n

theorem inside_directStorePartial {n size : Nat} (shares : Shares max n) (bound : size + 8 * (n - 1) ≤ 8 * max)
    (mem : Mem) (data word : Nat) : Inside (directStorePartial max n mem data size word) := by
  have lower := shares.lower
  induction size with
  | zero => exact inside_pure _
  | succ size ih =>
      exact inside_bind (ih (by omega)) fun mem => inside_bind (inside_sumShares word (by omega)) fun sum => inside_pure _

theorem directStorePartial_inside_iff {n data word size : Nat} {mem : Mem} (shares : Shares max n) :
    Inside (directStorePartial max n mem data size word) ↔ size + 8 * (n - 1) ≤ 8 * max := by
  refine ⟨fun inside => ?_, fun bound => inside_directStorePartial shares bound mem data word⟩
  obtain ⟨lower, _, fits⟩ := shares
  apply Classical.byContradiction
  intro beyond
  refine not_inside (s := ⟨fun _ _ => 0, fun _ => 0⟩) ?_ inside
  cases size with
  | zero => omega
  | succ size =>
      refine fails_bind fun _ _ _ => fails_bind fun a g ran => absurd ran (fails_sumShares ?_ ?_ a g)
      · omega
      · omega

theorem directReplace_inside_iff {n dest src size : Nat} (shares : Shares max n) :
    Inside (directReplace max n dest src size) ↔ size + 8 * (n - 1) ≤ 8 * max := by
  obtain ⟨lower, _, fits⟩ := shares
  constructor
  · intro inside
    apply Classical.byContradiction
    intro beyond
    refine not_inside (s := ⟨fun _ _ => 0, fun _ => 0⟩) ?_ inside
    have lastByte : size - 1 ∈ List.range size := List.mem_range.2 (by omega)
    have lastShare : n - 1 ∈ List.range n := List.mem_range.2 (by omega)
    refine fails_forM lastByte fun g => fails_forM lastShare fun g => fails_bind fun a g' ran =>
      absurd ran (fails_readByte ?_ a g')
    omega
  · intro bound
    refine inside_forM fun index member => inside_forM fun k member' => ?_
    have byte := List.mem_range.1 member
    have share := List.mem_range.1 member'
    exact inside_bind (inside_readByte (by omega) src) fun x => inside_writeByte (by omega) dest x

theorem xorByte_inside_iff {word index : Nat} {x : Byte} : Inside (xorByte max word index x) ↔ index < 8 * max := by
  constructor
  · intro inside
    apply Classical.byContradiction
    intro beyond
    refine not_inside (s := ⟨fun _ _ => 0, fun _ => 0⟩) ?_ inside
    exact fails_bind fun a g ran => absurd ran (fails_readByte (Nat.not_lt.1 beyond) a g)
  · intro bound
    exact inside_bind (inside_readByte bound word) fun y => inside_writeByte bound word _

theorem inside_directZero {n : Nat} (shares : Shares max n) (word : Nat) : Inside (directZero max n word) := by
  obtain ⟨lower, upper, fits⟩ := shares
  have masked : Inside (drawShares max word n >>= fun _ => maskBytes max n word (fun _ => 0) 0 8 >>= fun _ =>
      clearBytes max word n) :=
    inside_bind (inside_drawShares fits word) fun _ =>
      inside_bind (inside_maskBytes (by omega) word _) fun _ => inside_clearBytes word n
  unfold directZero
  split
  · refine inside_bind (inside_draw _) fun x => inside_bind (inside_setShare (by omega) word x) fun _ =>
      inside_bind (inside_forM fun index member => ?_) fun _ => inside_clearBytes word 2
    have byte := List.mem_range.1 member
    exact inside_bind (inside_readByte (by omega) word) fun x => inside_writeByte (by omega) word x
  · exact masked

theorem inside_directWiden {n m : Nat} (fits : n ≤ max) (some_share : 1 ≤ m) (fewer : m ≤ n) (dest src : Nat) :
    Inside (directWiden max n m dest src) := by
  refine inside_bind (inside_draw _) fun _ => inside_bind (inside_forM fun index member => ?_) fun _ =>
    inside_clearBytes dest n
  have byte := List.mem_range.1 member
  refine inside_bind (inside_readByte (by omega) src) fun _ => inside_bind (inside_writeByte (by omega) dest _) fun _ =>
    inside_bind (inside_forM fun k member' => ?_) fun _ => inside_forM fun k member' => ?_
  · have share := List.mem_range.1 member'
    exact inside_bind (inside_readByte (by omega) src) fun _ => inside_writeByte (by omega) dest _
  · obtain ⟨_, share⟩ := List.mem_range'_1.1 member'
    exact inside_writeByte (by omega) dest _

theorem inside_directConvert {n m : Nat} (shares : Shares max n) (other : Shares max m) (dest src : Nat) :
    Inside (directConvert max n m dest src) := by
  obtain ⟨lower, upper, fits⟩ := shares
  obtain ⟨lower', upper', fits'⟩ := other
  have loop {f : Nat → Shared Byte PUnit} (turn : ∀ index < 8, Inside (f index)) : Inside ((List.range 8).forM f) :=
    inside_forM fun index member => turn index (List.mem_range.1 member)
  unfold directConvert
  split
  · refine inside_bind (inside_draw _) fun _ => inside_bind (loop fun index byte => ?_) fun _ =>
      inside_bind (inside_setShare (by omega) dest 0) fun _ => inside_clearBytes dest 3
    exact inside_bind (inside_readByte (by omega) src) fun _ => inside_bind (inside_writeByte (by omega) dest _) fun _ =>
      inside_bind (inside_readByte (by omega) src) fun _ => inside_bind (inside_readByte (by omega) src) fun _ =>
      inside_writeByte (by omega) dest _
  · refine inside_bind (inside_draw _) fun _ => inside_bind (loop fun index byte => ?_) fun _ =>
      inside_bind (inside_setShare (by omega) dest 0) fun _ => inside_setShare (by omega) dest 0
    exact inside_bind (inside_readByte (by omega) src) fun _ => inside_bind (inside_readByte (by omega) src) fun _ =>
      inside_bind (inside_writeByte (by omega) dest _) fun _ => inside_bind (inside_readByte (by omega) src) fun _ =>
      inside_bind (inside_readByte (by omega) src) fun _ => inside_writeByte (by omega) dest _
  · refine inside_bind (inside_draw _) fun _ => inside_bind (inside_draw _) fun _ =>
      inside_bind (loop fun index byte => ?_) fun _ => inside_setShare (by omega) dest 0
    exact inside_bind (inside_readByte (by omega) src) fun _ => inside_bind (inside_readByte (by omega) src) fun _ =>
      inside_bind (inside_writeByte (by omega) dest _) fun _ => inside_bind (inside_readByte (by omega) src) fun _ =>
      inside_bind (inside_writeByte (by omega) dest _) fun _ => inside_bind (inside_readByte (by omega) src) fun _ =>
      inside_writeByte (by omega) dest _
  · rename_i no23 no24 no34
    refine inside_directWiden fits (by omega) (Nat.not_lt.1 fun more => ?_) dest src
    have cases : (n = 2 ∧ m = 3) ∨ (n = 2 ∧ m = 4) ∨ (n = 3 ∧ m = 4) := by omega
    rcases cases with ⟨rfl, rfl⟩ | ⟨rfl, rfl⟩ | ⟨rfl, rfl⟩
    · exact no23 rfl rfl
    · exact no24 rfl rfl
    · exact no34 rfl rfl

theorem directCode_steady (some_share : 1 ≤ max) : Steady (directCode max) max where
  load := by
    intro n word data ⟨lower, _, fits⟩
    exact inside_bind (inside_drawShares fits word) fun _ =>
      inside_bind (inside_maskBytes (by omega) word data) fun _ => inside_clearBytes word n
  load32 := by
    intro n word data1 data2 ⟨lower, _, fits⟩
    refine inside_bind (inside_drawShares fits word) fun _ => inside_bind (inside_forM fun index member => ?_) fun _ =>
      inside_clearBytes word n
    have byte := List.mem_range.1 member
    exact inside_bind (inside_sumShares word (by omega)) fun _ => inside_bind (inside_writeByte (by omega) word _) fun _ =>
      inside_bind (inside_sumShares word (by omega)) fun _ => inside_writeByte (by omega) word _
  store := by
    intro n mem data word shares
    have fits := shares.fits
    have lower := shares.lower
    exact inside_directStorePartial shares (by omega) mem data word
  storeHalf := by
    intro n mem data word shares
    have fits := shares.fits
    have lower := shares.lower
    exact inside_directStorePartial shares (by omega) mem data word
  randomize := by
    intro n dest src ⟨lower, _, fits⟩
    refine inside_bind (inside_draw _) fun _ => inside_forM fun index member => ?_
    have byte := List.mem_range.1 member
    refine inside_bind (inside_readByte (by omega) src) fun _ => inside_bind (inside_writeByte (by omega) dest _) fun _ =>
      inside_forM fun k member' => ?_
    have share := List.mem_range.1 member'
    exact inside_bind (inside_readByte (by omega) src) fun _ => inside_writeByte (by omega) dest _
  xor := by
    intro n dest src ⟨lower, _, fits⟩
    refine inside_forM fun index member => inside_forM fun k member' => ?_
    have bound := byte_lt (List.mem_range.1 member) (List.mem_range.1 member') fits
    exact inside_bind (inside_readByte bound dest) fun _ => inside_bind (inside_readByte bound src) fun _ =>
      inside_writeByte bound dest _
  convert := fun n m dest src shares other => inside_directConvert shares other dest src
  separator := fun word => xorByte_inside_iff.2 (by omega)

end Direct

/-! ### States and keys -/

section Words

variable {β : Type} {code : WordCode β} {max keyShares : Nat} {zero : β}

/-- The functions on states and keys stay inside because those on words do. -/
theorem Steady.copyToX1Loop (steady : Steady code max) {n : Nat} (shares : Shares max n) (src : Nat) (dest : Mem)
    (index count : Nat) : Inside (copyToX1Loop code n src dest index count) := by
  induction count generalizing index dest with
  | zero => exact inside_pure _
  | succ count ih => exact inside_bind (steady.store n dest _ _ shares) fun dest => ih dest (index + 1)

theorem Steady.stateRandomize (steady : Steady code max) {n : Nat} (shares : Shares max n) (dest src : Nat) :
    Inside (stateRandomize code n dest src) :=
  inside_forM fun _ _ => steady.randomize n _ _ shares

theorem Steady.stateCopyFrom (steady : Steady code max) {n m : Nat} (shares : Shares max n) (other : Shares max m)
    (dest src : Nat) : Inside (stateCopyFrom code n m dest src) :=
  inside_ite (fun _ => steady.stateRandomize shares dest src) fun _ =>
    inside_forM fun _ _ => steady.convert n m _ _ shares other

theorem inside_clearKey (masked count : Nat) : Inside (clearKey max zero masked count) :=
  inside_ite (fun _ => inside_modify _) fun _ => inside_pure _

theorem Steady.key128Init (steady : Steady code max) (keys : Shares max keyShares) (masked : Nat) (key : Mem) :
    Inside (key128Init code max keyShares zero masked key) :=
  inside_bind (inside_clearKey masked 2) fun _ => inside_bind (steady.load _ _ _ keys) fun _ => steady.load _ _ _ keys

theorem Steady.key160Init (steady : Steady code max) (keys : Shares max keyShares) (masked : Nat) (key : Mem) :
    Inside (key160Init code max keyShares zero masked key) :=
  inside_bind (inside_clearKey masked 6) fun _ => inside_bind (steady.load _ _ _ keys) fun _ =>
    inside_bind (steady.load _ _ _ keys) fun _ => inside_bind (steady.load32 _ _ _ _ keys) fun _ =>
    inside_bind (steady.load32 _ _ _ _ keys) fun _ => inside_bind (steady.load _ _ _ keys) fun _ =>
    steady.load _ _ _ keys

theorem Steady.key160Randomize (steady : Steady code max) (two : Shares max 2) (masked : Nat) :
    Inside (key160Randomize code masked) :=
  inside_forM fun _ _ => steady.randomize 2 _ _ two

/-- The calls that are no more than the functions of `Steady`. -/
def Plain : Operation → Prop
  | .zero _ _ | .loadPartial _ _ _ _ | .storePartial _ _ _ _ _ | .replace _ _ _ _ | .pad _ _
  | .statePermute _ _ _ _ => False
  | _ => True

theorem Steady.plain (steady : Steady code max) (two : Shares max 2) (keys : Shares max keyShares)
    {permute : (n state firstRound : Nat) → (Nat → Word) → Shared β (Nat → Word)} {backend : Backend} {op : Operation}
    (compiled : Compiled backend max op) (plain : Plain op) : Inside (op.code code permute max keyShares zero) := by
  cases op with
  | zero | loadPartial | storePartial | replace | pad | statePermute => exact plain.elim
  | load n word data => exact steady.load n word data compiled
  | load32 n word data1 data2 => exact steady.load32 n word data1 data2 compiled
  | store n mem data word => exact inside_bind (steady.store n mem data word compiled) fun _ => inside_pure _
  | randomize n dest src => exact steady.randomize n dest src compiled
  | xor n dest src => exact steady.xor n dest src compiled
  | convert n m dest src => exact steady.convert n m dest src compiled.1 compiled.2.1
  | separator word => exact steady.separator word
  | stateInit | stateFree | key128Free | key160Free => exact inside_modify _
  | stateRandomize n state => exact steady.stateRandomize compiled state state
  | stateCopyFromX1 n dest src => exact inside_forM fun _ _ => steady.load n _ _ compiled
  | stateCopyToX1 n src => exact inside_bind (steady.copyToX1Loop compiled src _ 0 5) fun _ => inside_pure _
  | stateCopyFrom n m dest src => exact steady.stateCopyFrom compiled.1 compiled.2 dest src
  | key128Init masked key => exact steady.key128Init keys masked key
  | key160Init masked key => exact steady.key160Init keys masked key
  | key128Randomize masked =>
      exact inside_bind (steady.randomize _ _ _ keys) fun _ => steady.randomize _ _ _ keys
  | key160Randomize masked => exact steady.key160Randomize two masked
  | key128Extract masked mem key =>
      exact inside_bind (inside_bind (steady.store _ _ _ _ keys) fun mem => steady.store _ mem _ _ keys) fun _ =>
        inside_pure _
  | key160Extract masked mem key =>
      exact inside_bind (inside_bind (steady.store _ _ _ _ keys) fun mem => inside_bind (steady.store _ mem _ _ keys)
        fun mem => steady.storeHalf _ mem _ _ keys) fun _ => inside_pure _

end Words

/-! ### All operations -/

/-- Whatever is in memory, a call of a backend makes no access to a share beyond the maximum. -/
def Backend.StaysInside (backend : Backend) (max keyShares : Nat) (op : Operation) : Prop :=
  Inside (backend.code max keyShares op).2

/-- The calls that stay inside: not zero for three shares of at most three in the 64-bit backend, and in the direct one
only for the bytes that a word has. -/
def Fits (backend : Backend) (max : Nat) : Operation → Prop
  | .zero n _ => ¬(backend = .c64 ∧ n = 3 ∧ max = 3)
  | .loadPartial n _ _ size | .storePartial n _ _ size _ | .replace n _ _ size =>
      backend = .direct → size + 8 * (n - 1) ≤ 8 * max
  | .pad _ offset => backend = .direct → offset < 8 * max
  | _ => True

/-- A call that ends in another one. -/
theorem inside_ignore_iff {β α : Type} {m : Shared β α} :
    Inside (do let _ ← m) ↔ Inside m := by
  refine ⟨fun inside s => ?_, fun inside => inside_bind inside fun _ => inside_pure _⟩
  obtain ⟨a, s', ran⟩ := inside s
  rw [StateT.run_bind] at ran
  cases first : m.run s with
  | error share =>
      rw [first] at ran
      exact nomatch ran
  | ok result => exact ⟨result.1, result.2, rfl⟩

/-- A call that is compiled makes no access to a share beyond the configured maximum if and only if it is not
`ascon_masked_word_x3_zero` of the 64-bit backend with at most three shares, and not one of the direct backend with more
bytes than a word has. -/
theorem operation_inside_iff {backend : Backend} {max keyShares : Nat} {op : Operation} (lower : 2 ≤ max) (upper : max ≤ 4)
    (lowerKey : 2 ≤ keyShares) (upperKey : keyShares ≤ 4) (compiled : Compiled backend max op) :
    backend.StaysInside max (clampShares max keyShares) op ↔ Fits backend max op := by
  have some_share : 1 ≤ max := Nat.le_of_succ_le lower
  have two : Shares max 2 := ⟨Nat.le_refl 2, by decide, lower⟩
  have keys : Shares max (clampShares max keyShares) := by
    unfold clampShares
    split
    · exact ⟨lower, upper, Nat.le_refl max⟩
    · exact ⟨lowerKey, upperKey, Nat.le_of_not_lt ‹_›⟩
  by_cases plain : Plain op
  · have fits : Fits backend max op := by
      cases op <;> first | exact plain.elim | trivial
    refine iff_of_true ?_ fits
    cases backend with
    | c64 => exact (c64Code_steady some_share).plain two keys compiled plain
    | c32 => exact Steady.plain (sharesCode_steady some_share) two keys compiled plain
    | direct => exact (directCode_steady some_share).plain two keys compiled plain
  · cases op with
    | zero n word =>
        cases backend with
        | c64 =>
            refine (c64Zero_inside_iff word compiled upper).trans ?_
            simp [Fits]
        | c32 => exact iff_of_true (inside_fillShares compiled.fits word _) (by simp [Fits])
        | direct => exact iff_of_true (inside_directZero compiled word) (by simp [Fits])
    | loadPartial n word data size =>
        cases backend with
        | c64 | c32 => exact iff_of_true (inside_fillShares compiled.fits word _) (by simp [Fits])
        | direct => exact (directLoadPartial_inside_iff compiled).trans (by simp [Fits])
    | storePartial n mem data size word =>
        cases backend with
        | c64 | c32 =>
            exact iff_of_true (inside_ignore_iff.2 (inside_storePartial compiled.fits mem data size word)) (by simp [Fits])
        | direct => exact (inside_ignore_iff.trans (directStorePartial_inside_iff compiled)).trans (by simp [Fits])
    | replace n dest src size =>
        cases backend with
        | c64 | c32 => exact iff_of_true (inside_replace compiled.fits dest src size) (by simp [Fits])
        | direct => exact (directReplace_inside_iff compiled).trans (by simp [Fits])
    | pad word offset =>
        cases backend with
        | c64 | c32 => exact iff_of_true (inside_pad some_share word offset) (by simp [Fits])
        | direct => exact xorByte_inside_iff.trans (by simp [Fits])
    | statePermute n state firstRound preserve =>
        cases backend with
        | c64 | c32 =>
            exact iff_of_true (inside_ignore_iff.2 (inside_permuteWords compiled.1.fits state _)) trivial
        | direct => exact absurd rfl compiled.2
    | load | load32 | store | randomize | xor | convert | separator | stateInit | stateFree | stateRandomize
    | stateCopyFromX1 | stateCopyToX1 | stateCopyFrom | key128Init | key160Init | key128Free | key160Free
    | key128Randomize | key160Randomize | key128Extract | key160Extract => exact absurd trivial plain

/-- A state with three shares copied to one with two, where three is the maximum. -/
theorem operation_inside_iff_copy :
    Backend.StaysInside .c32 3 (clampShares 3 4) (.stateCopyFrom 2 3 0 5) ↔ Fits .c32 3 (.stateCopyFrom 2 3 0 5) :=
  operation_inside_iff (by decide) (by decide) (by decide) (by decide)
    ⟨⟨by decide, by decide, by decide⟩, by decide, by decide, by decide⟩

/-- With at most three shares, zero of the 64-bit backend writes a fourth one. -/
theorem c64_zero_beyond :
    Compiled .c64 3 (.zero 3 0) ∧
      ((c64Code 3).zero 3 0).run ⟨fun _ _ => 0, fun _ => 0⟩ = .error 3 :=
  ⟨⟨by decide, by decide, by decide⟩, rfl⟩

end AsconSuite.Bounded
