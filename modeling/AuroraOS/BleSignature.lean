import AuroraOS.Lib.ByteMem
import AuroraOS.Lib.Transducer

/-!
# Signed frames over Bluetooth

`BleSignatureVerifier` of `net/ble/ble_signature.cpp`. A frame is a nonce of four bytes, a length of
two, the payload and a signature of 64 bytes. `ed25519_verify` is a parameter, and so is the key in
the hardware. The copy of the message on the stack is left out, with its clearing.

`verify_runs`: what a run of `verify` accepts has rising nonces, good lengths and good signatures,
and what it rejects might as well not have been sent.
-/

namespace AuroraOS

/-! ## Frames -/

namespace BleFrame

/-- `SIGNATURE_SIZE` -/
def signatureSize : Nat := 64

/-- `HEADER_SIZE`: `NONCE_SIZE` and `LEN_SIZE`. -/
def headerSize : Nat := 4 + 2

/-- `MIN_FRAME_SIZE` -/
def minFrameSize : Nat := headerSize + signatureSize

/-- `MAX_PAYLOAD_SIZE` -/
def maxPayloadSize : Nat := 4096

def nonce (frame : List UInt8) : Nat := ByteMem.word frame 0 4

def payloadLen (frame : List UInt8) : Nat := ByteMem.word frame 4 2

/-- What is signed: nonce, length and payload. -/
def message (frame : List UInt8) : List UInt8 :=
  frame.take headerSize ++ (frame.drop headerSize).take (payloadLen frame)

def signature (frame : List UInt8) : List UInt8 :=
  (frame.drop (headerSize + payloadLen frame)).take signatureSize

end BleFrame

/-! ## The verifier -/

structure BleSignatureVerifier where
  publicKey : Vector UInt8 32
  lastNonce : Nat
  failureCount : Nat
  deriving DecidableEq

/-- `ed25519_verify` of a signature, a message and a key. -/
abbrev Ed25519Verify := List UInt8 → List UInt8 → Vector UInt8 32 → Int

namespace BleSignatureVerifier

open BleFrame

/-- `init`. Without a key the one in the hardware is taken. -/
def init (hardwareKey : Vector UInt8 32) (overridePubKey : Option (Vector UInt8 32)) :
    BleSignatureVerifier where
  publicKey := overridePubKey.getD hardwareKey
  lastNonce := 0
  failureCount := 0

def incFailure (v : BleSignatureVerifier) : BleSignatureVerifier :=
  if v.failureCount < 2 ^ 32 - 1 then { v with failureCount := v.failureCount + 1 } else v

def verify (ed25519Verify : Ed25519Verify) (v : BleSignatureVerifier) (frame : List UInt8) :
    Bool × BleSignatureVerifier :=
  if frame.length < minFrameSize then (false, v.incFailure)
  else if payloadLen frame > maxPayloadSize ∨
      frame.length ≠ headerSize + payloadLen frame + signatureSize then
    (false, v.incFailure)
  else if nonce frame ≤ v.lastNonce then (false, v.incFailure)
  else if ed25519Verify (signature frame) (message frame) v.publicKey ≠ 0 then
    (true, { v with lastNonce := nonce frame, failureCount := 0 })
  else (false, v.incFailure)

variable {ed : Ed25519Verify} {v w : BleSignatureVerifier} {frame : List UInt8}

/-- What an accepted frame has shown, apart from its place in the run. -/
structure Genuine (ed : Ed25519Verify) (key : Vector UInt8 32) (frame : List UInt8) : Prop where
  length : frame.length = headerSize + payloadLen frame + signatureSize
  payload : payloadLen frame ≤ maxPayloadSize
  signed : ed (signature frame) (message frame) key ≠ 0

theorem verify_cases (ed : Ed25519Verify) (v : BleSignatureVerifier) (frame : List UInt8) :
    Genuine ed v.publicKey frame ∧ v.lastNonce < nonce frame ∧
        v.verify ed frame = (true, { v with lastNonce := nonce frame, failureCount := 0 }) ∨
      ¬(Genuine ed v.publicKey frame ∧ v.lastNonce < nonce frame) ∧
        v.verify ed frame = (false, v.incFailure) := by
  simp only [verify]
  split_ifs with hmin hlen hnonce hsig
  · refine .inr ⟨fun h => ?_, rfl⟩
    have := h.1.length
    simp only [minFrameSize] at hmin
    omega
  · refine .inr ⟨fun h => ?_, rfl⟩
    rcases hlen with hlen | hlen
    · exact absurd h.1.payload (by omega)
    · exact hlen h.1.length
  · exact .inr ⟨fun h => absurd h.2 (by omega), rfl⟩
  · rw [not_or, not_lt, not_not] at hlen
    exact .inl ⟨⟨hlen.2, hlen.1, hsig⟩, by omega, rfl⟩
  · exact .inr ⟨fun h => hsig h.1.signed, rfl⟩

theorem verify_eq_true_iff :
    (v.verify ed frame).1 = true ↔ Genuine ed v.publicKey frame ∧ v.lastNonce < nonce frame := by
  obtain ⟨hgen, hnonce, h⟩ | ⟨hnot, h⟩ := verify_cases ed v frame
  · simp [h, hgen, hnonce]
  · simp [h, hnot]

theorem verify_of_true (h : (v.verify ed frame).1 = true) :
    (v.verify ed frame).2 = { v with lastNonce := nonce frame, failureCount := 0 } := by
  obtain ⟨-, -, heq⟩ | ⟨-, heq⟩ := verify_cases ed v frame
  · rw [heq]
  · simp [heq] at h

theorem verify_of_false (h : (v.verify ed frame).1 = false) :
    (v.verify ed frame).2 = { v with failureCount := (v.verify ed frame).2.failureCount } := by
  obtain ⟨-, -, heq⟩ | ⟨-, heq⟩ := verify_cases ed v frame
  · simp [heq] at h
  · simp only [heq, incFailure]
    split_ifs <;> rfl

@[simp] theorem publicKey_verify : (v.verify ed frame).2.publicKey = v.publicKey := by
  cases h : (v.verify ed frame).1 with
  | true => rw [verify_of_true h]
  | false => rw [verify_of_false h]

/-! ## Runs -/

section Runs

open Transducer

/-- Two verifiers that judge alike: the counters may differ. -/
def Alike (v w : BleSignatureVerifier) : Prop :=
  w.publicKey = v.publicKey ∧ w.lastNonce = v.lastNonce

/-- The counter is not looked at, and a frame is judged alike by both. -/
theorem Alike.verify (h : Alike v w) (frame : List UInt8) :
    (w.verify ed frame).1 = (v.verify ed frame).1 ∧
      Alike (v.verify ed frame).2 (w.verify ed frame).2 := by
  have hverdict : (w.verify ed frame).1 = (v.verify ed frame).1 := by
    rw [Bool.eq_iff_iff, verify_eq_true_iff, verify_eq_true_iff, h.1, h.2]
  refine ⟨hverdict, by simp [h.1], ?_⟩
  cases hv : (v.verify ed frame).1 with
  | true => rw [verify_of_true hv, verify_of_true (hverdict.trans hv)]
  | false => rw [verify_of_false hv, verify_of_false (hverdict.trans hv), h.2]

/-- A rejected frame leaves the verifier as it was, to later frames. -/
theorem Alike.rejected (h : Alike v w) (hrej : (v.verify ed frame).1 = false) :
    Alike (v.verify ed frame).2 w := by
  rw [verify_of_false hrej]
  exact h

theorem accepted_rising (ed : Ed25519Verify) (v : BleSignatureVerifier)
    (frames : List (List UInt8)) :
    (accepted (verify ed) v frames).Pairwise (fun f g => nonce f < nonce g) ∧
      ∀ f ∈ accepted (verify ed) v frames, Genuine ed v.publicKey f ∧ v.lastNonce < nonce f := by
  refine accepted_pairwise (I := fun v f => Genuine ed v.publicKey f ∧ v.lastNonce < nonce f)
    ?_ ?_ (always_of_forall (fun _ _ _ => trivial) v)
  · intro v f _ hacc
    obtain ⟨hgen, hnew⟩ := verify_eq_true_iff.1 hacc
    refine ⟨⟨hgen, hnew⟩, fun g hg => ?_⟩
    rw [verify_of_true hacc] at hg
    exact ⟨⟨hg.1, hnew.trans hg.2⟩, hg.2⟩
  · intro v f hrej g hg
    rw [verify_of_false hrej] at hg
    exact hg

/-- **Runs of `verify`** after `init`. -/
theorem verify_runs (ed : Ed25519Verify) (hardwareKey : Vector UInt8 32)
    (overridePubKey : Option (Vector UInt8 32)) :
    -- what is accepted
    (∀ frames, let acc := accepted (verify ed) (init hardwareKey overridePubKey) frames
      acc.Pairwise (fun f g => nonce f < nonce g) ∧ acc.Nodup ∧
        ∀ f ∈ acc, Genuine ed (overridePubKey.getD hardwareKey) f) ∧
    -- what a rejected frame does, in every state of a run
    (∀ frames frame, let v := final (verify ed) (init hardwareKey overridePubKey) frames
      (v.verify ed frame).1 = false →
        (v.verify ed frame).2 = { v with failureCount := (v.verify ed frame).2.failureCount }) ∧
    -- frames with a mark that are all rejected, anywhere in the run, change no other verdict
    (∀ history : List (List UInt8 × Bool),
      let t := trace (marked (verify ed)) (init hardwareKey overridePubKey) history
      (∀ e ∈ t, e.1.2 = true → e.2 = false) →
        (t.filter (!·.1.2)).map (fun e => (e.1.1, e.2)) =
          trace (verify ed) (init hardwareKey overridePubKey) (unmarked history)) := by
  refine ⟨fun frames => ?_, fun frames frame => verify_of_false, fun history hmarked => ?_⟩
  · obtain ⟨hrise, hall⟩ := accepted_rising ed (init hardwareKey overridePubKey) frames
    refine ⟨hrise, hrise.imp ?_, fun f hf => (hall f hf).1⟩
    rintro f g hlt rfl
    exact absurd hlt (lt_irrefl _)
  · exact trace_unmarked (R := Alike) (P := fun _ ok => ok = false) (fun _ _ f h => h.verify f)
      (fun _ _ _ h hrej => h.rejected hrej) ⟨rfl, rfl⟩ hmarked

/-- A frame without payload. -/
def emptyFrame (nonce : UInt8) : List UInt8 := nonce :: List.replicate 69 0

/-- The first frame again, between the first and the second. -/
theorem verify_runs_replay :
    let key := Vector.replicate 32 0
    let v := init key none
    let yes : Ed25519Verify := fun _ _ _ => 1
    accepted (verify yes) v [emptyFrame 1, emptyFrame 1, emptyFrame 2] =
        [emptyFrame 1, emptyFrame 2] ∧
      (v.verify yes (emptyFrame 0)).2 = { v with failureCount := 1 } ∧
      trace (verify yes) v (unmarked [(emptyFrame 1, false), (emptyFrame 1, true),
        (emptyFrame 2, false)]) =
        [(emptyFrame 1, true), (emptyFrame 2, true)] :=
  ⟨by decide +kernel,
    (verify_runs (fun _ _ _ => 1) (Vector.replicate 32 0) none).2.1 [] (emptyFrame 0)
      (by decide +kernel),
    ((verify_runs (fun _ _ _ => 1) (Vector.replicate 32 0) none).2.2
      [(emptyFrame 1, false), (emptyFrame 1, true), (emptyFrame 2, false)]
      (by decide +kernel)).symm.trans (by decide +kernel)⟩

end Runs

end BleSignatureVerifier

end AuroraOS
