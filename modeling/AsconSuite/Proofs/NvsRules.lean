/-
Module: AsconSuite.Proofs.NvsRules
Layer: Proofs
Purpose: A rule for each operation of the non-volatile storage: what has to hold when the power is lost in
  front of it, and what for every outcome it can report.
Imports: AsconSuite.Secure.Nvs
Trusted boundary: none
Main exports: wp_nvsBegin, wp_nvsIsKey, wp_nvsGetBytes, wp_nvsGetUInt, wp_nvsPut
-/
import AsconSuite.Secure.Nvs

namespace AsconSuite

open CrashLogic

variable {R S β : Type} {lost : S → Prop} {ram : R} {store : S} {script : List NvsReply}

theorem wp_nvsBegin {post : Bool → R → S → List NvsReply → Prop} (cut : lost store)
    (refused : ∀ rest, post false ram store rest)
    (opened : ∀ rest, script = .ok :: rest → post true ram store rest) :
    wp nvsBegin post lost ram store script := by
  apply wp_ask cut
  intro reply rest replies
  by_cases success : reply = .ok
  · rw [success] at replies ⊢
    exact opened rest replies
  · simpa only [success, decide_false] using refused rest

theorem wp_nvsIsKey {present : S → Bool} {post : Bool → R → S → List NvsReply → Prop}
    (cut : lost store)
    (absent : ∀ reply rest, script = reply :: rest → (reply = .ok → present store = false) →
      post false ram store rest)
    (found : ∀ rest, script = .ok :: rest → present store = true → post true ram store rest) :
    wp (nvsIsKey present) post lost ram store script := by
  apply wp_ask cut
  intro reply rest replies
  by_cases success : reply = .ok
  · cases stored : present store with
    | false => simpa only [success, Bool.and_false] using absent reply rest replies fun _ => stored
    | true =>
        rw [success] at replies ⊢
        exact found rest replies stored
  · simpa only [success, decide_false, Bool.false_and] using
      absent reply rest replies fun same => absurd same success

theorem wp_nvsGetBytes {entry : S → Option β} {post : Option β → R → S → List NvsReply → Prop}
    (cut : lost store) (unread : ∀ rest, post none ram store rest)
    (read : ∀ value rest, script = .ok :: rest → entry store = some value →
      post (some value) ram store rest) :
    wp (nvsGetBytes entry) post lost ram store script := by
  apply wp_ask cut
  intro reply rest replies
  by_cases success : reply = .ok
  · cases stored : entry store with
    | none => simpa only [success, if_pos] using unread rest
    | some value =>
        rw [success] at replies
        simpa only [success, if_pos, stored] using read value rest replies stored
  · simpa only [success, if_neg, not_false_eq_true] using unread rest

theorem wp_nvsGetUInt {entry : S → Option Counter} {defaultValue : Counter}
    {post : Counter → R → S → List NvsReply → Prop} (cut : lost store)
    (unread : ∀ reply rest, script = reply :: rest → (reply = .ok → entry store = none) →
      post defaultValue ram store rest)
    (read : ∀ value rest, script = .ok :: rest → entry store = some value →
      post value ram store rest) :
    wp (nvsGetUInt entry defaultValue) post lost ram store script := by
  apply wp_ask cut
  intro reply rest replies
  by_cases success : reply = .ok
  · cases stored : entry store with
    | none => simpa only [success, if_pos, stored, Option.getD_none] using
        unread reply rest replies fun _ => stored
    | some value =>
        rw [success] at replies
        simpa only [success, if_pos, stored, Option.getD_some] using read value rest replies stored
  · simpa only [success, if_neg, not_false_eq_true] using
      unread reply rest replies fun same => absurd same success

theorem wp_nvsPut {write : S → S} {post : Bool → R → S → List NvsReply → Prop} (cut : lost store)
    (refused : ∀ rest, post false ram store rest)
    (unreported : ∀ rest, post false ram (write store) rest)
    (written : ∀ rest, script = .ok :: rest → post true ram (write store) rest) :
    wp (nvsPut write) post lost ram store script := by
  apply wp_ask cut
  intro reply rest replies
  cases reply with
  | ok => exact written rest replies
  | fail => exact refused rest
  | failWritten => exact unreported rest
  | failCleared keyKept prefixKept reservedKept => exact refused rest
  | drawn key noncePrefix => exact refused rest

end AsconSuite
