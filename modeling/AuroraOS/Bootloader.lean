import AuroraOS.Firmware

/-!
# The bootloader under power loss

The power can be lost after every operation of the flash controller, and every operation can fail
and be done in part only. What the bootloader needs to find is that one of the partitions verifies,
and that a partition that verifies holds a known image (`Recoverable`).

`kernelMain_safe`: it leaves the flash like that at every point. It writes to A only while B
verifies, and A does not verify before its header is there, which comes last.
-/

namespace AuroraOS.Firmware

open Crash Function FlashOp Safe List

variable (ed : Ed25519)

/-! ## What a partition holds -/

/-- The payload of a partition that verifies. -/
def imageOf (f : Flash) (offset partSize : Nat) : Option (List Byte) :=
  if verifyFirmware ed f offset partSize then some (payload f offset (headerAt f offset).imageSize)
  else none

/-- The image that the bootloader finds in A. -/
def imageA (f : Flash) : Option (List Byte) := imageOf ed f (partA f).offset (partA f).size

/-- The image that the bootloader finds in B, for which it uses the size of A. -/
def imageB (f : Flash) : Option (List Byte) := imageOf ed f (partB f).offset (partA f).size

/-- The partitions are the default ones, which are also those of `scripts/build_image.py`. -/
def Standard (f : Flash) : Prop := partA f = ptPartA ∧ partB f = ptPartB

/-- A failed operation may be done in part, but what it leaves does not pass for another image. -/
def FailsDetected (o : FlashOp) (f f' : Flash) : Prop :=
  o.Torn f f' ∧ ∀ address, o = .erasePage address →
    (∀ p ∈ imageA ed f', imageA ed f = some p) ∧ ∀ p ∈ imageB ed f', imageB ed f = some p

/-- The flash controller, with or without failures. -/
def controller (fallible : Prop) : Device FlashOp Flash where
  apply := FlashOp.apply
  Fails o f f' := fallible ∧ FailsDetected ed o f f'

/-- What the board needs to come up again. -/
structure Recoverable (images : List (List Byte)) (f : Flash) : Prop where
  standard : Standard f
  verifies : (imageA ed f).isSome ∨ (imageB ed f).isSome
  known_a : ∀ p ∈ imageA ed f, p ∈ images
  known_b : ∀ p ∈ imageB ed f, p ∈ images

variable {ed}

theorem imageOf_eq_some {f : Flash} {offset partSize : Nat} {p : List Byte} :
    imageOf ed f offset partSize = some p ↔ verifyFirmware ed f offset partSize = true ∧
      payload f offset (headerAt f offset).imageSize = p := by
  unfold imageOf
  split <;> simp_all

theorem imageOf_isSome {f : Flash} {offset partSize : Nat} :
    (imageOf ed f offset partSize).isSome = verifyFirmware ed f offset partSize := by
  unfold imageOf
  split <;> simp_all

/-- Images are the same if the bodies are, and the headers up to the status. -/
theorem imageOf_congr {f f' : Flash} {offset offset' partSize : Nat}
    (hhead : ∀ i < 20, i ≠ 3 → headerAt f offset i = headerAt f' offset' i)
    (hbody : (headerAt f' offset').imageSize ≤ maxImageSize partSize →
      ∀ i < ((headerAt f' offset').imageSize + 3) / 4,
        f (offset / 4 + 32 + i) = f' (offset' / 4 + 32 + i)) :
    imageOf ed f offset partSize = imageOf ed f' offset' partSize := by
  have hmagic : (headerAt f offset).magic = (headerAt f' offset').magic :=
    hhead 0 (by omega) (by omega)
  have hsize : (headerAt f offset).imageSize = (headerAt f' offset').imageSize :=
    congrArg BitVec.toNat (hhead 2 (by omega) (by omega))
  have hsig : (headerAt f offset).signature = (headerAt f' offset').signature := by
    apply map_congr_left
    intro i hi
    rw [mem_range] at hi
    rw [hhead (4 + i / 4) (by omega) (by omega)]
  unfold imageOf verifyFirmware
  simp only [hmagic, hsize, hsig]
  by_cases hle : (headerAt f' offset').imageSize ≤ maxImageSize partSize
  · have hpay : payload f offset (headerAt f' offset').imageSize =
        payload f' offset' (headerAt f' offset').imageSize := by
      apply map_congr_left
      intro i hi
      rw [mem_range] at hi
      rw [hbody hle (i / 4) (by omega)]
    rw [hpay]
  · simp [Nat.lt_of_not_le hle]

/-! ## The two partitions -/

/-- The partitions of the standard layout. -/
inductive Part
  | a
  | b

namespace Part

/-- The number of the first word of a partition. -/
def base : Part → Nat
  | a => 0x2000
  | b => 0x8000

def offset (p : Part) : Nat := 4 * p.base

def other : Part → Part
  | a => b
  | b => a

/-- The words that may change while a partition is written. The updater can run over the end of
B. -/
def Owns : Part → Nat → Prop
  | a, w => 0x2000 ≤ w ∧ w < 0x8000
  | b, w => 0x8000 ≤ w

end Part

variable (ed) in
/-- What a partition of the standard layout holds. -/
def image (f : Flash) (p : Part) : Option (List Byte) := imageOf ed f p.offset 0x18000

theorem maxImageSize_standard : maxImageSize 0x18000 = 0x17F80 := by decide

variable {f : Flash}

theorem Standard.image_a (h : Standard f) : imageA ed f = image ed f .a := by
  rw [imageA, h.1]
  rfl

theorem Standard.image_b (h : Standard f) : imageB ed f = image ed f .b := by
  rw [imageB, h.1, h.2]
  rfl

theorem Standard.congr {f f' : Flash} (h : Standard f) (hf : ∀ w < 0x2000, f' w = f w) :
    Standard f' := by
  unfold Standard partA partB partitionEntry at h ⊢
  rw [hf _ (by omega), hf _ (by omega), hf _ (by omega), hf _ (by omega), hf _ (by omega)]
  exact h

theorem headerAt_offset (f : Flash) (p : Part) (i : Nat) :
    headerAt f p.offset i = f (p.base + i) := by
  rw [headerAt, Part.offset, Nat.mul_div_cancel_left _ (by omega)]

variable {p : Part}

theorem image_congr {f f' : Flash} (h : ∀ w < 0x6000, f (p.base + w) = f' (p.base + w)) :
    image ed f p = image ed f' p := by
  apply imageOf_congr
  · intro i hi _
    rw [headerAt_offset, headerAt_offset, h i (by omega)]
  · intro hle i hi
    rw [maxImageSize_standard] at hle
    rw [Part.offset, Nat.mul_div_cancel_left _ (by omega), Nat.add_assoc, h (32 + i) (by omega)]

/-- What an image tells about its header. -/
theorem header_of_image {x : List Byte} (h : image ed f p = some x) :
    f p.base = firmwareMagic ∧ 0 < (headerAt f p.offset).imageSize ∧
      (headerAt f p.offset).imageSize ≤ 0x17F80 ∧
      payload f p.offset (headerAt f p.offset).imageSize = x := by
  obtain ⟨hver, hpay⟩ := imageOf_eq_some.1 h
  unfold verifyFirmware at hver
  rw [maxImageSize_standard] at hver
  have hmagic : (headerAt f p.offset).magic = f p.base := headerAt_offset f p 0
  dsimp only at hver
  split_ifs at hver with h₁
  · refine ⟨hmagic ▸ not_not.1 h₁, by omega, by omega, hpay⟩

theorem image_of_magic (h : f p.base = erased) : image ed f p = none := by
  apply Option.eq_none_iff_forall_not_mem.2
  intro x hx
  have hmagic := (header_of_image hx).1
  rw [h] at hmagic
  exact absurd hmagic (by decide)

theorem image_of_size (h : f (p.base + 2) = erased) : image ed f p = none := by
  apply Option.eq_none_iff_forall_not_mem.2
  intro x hx
  have hsize := (header_of_image hx).2.2.1
  rw [FirmwareHeader.imageSize, headerAt_offset, h] at hsize
  exact absurd hsize (by decide)

theorem recoverable_iff {images : List (List Byte)} :
    Recoverable ed images f ↔ Standard f ∧ (∃ p, (image ed f p).isSome) ∧
      ∀ p, ∀ x ∈ image ed f p, x ∈ images := by
  constructor
  · intro h
    refine ⟨h.standard, ?_, ?_⟩
    · rcases h.verifies with hs | hs
      · exact ⟨.a, h.standard.image_a ▸ hs⟩
      · exact ⟨.b, h.standard.image_b ▸ hs⟩
    · intro p
      cases p with
      | a => exact h.standard.image_a ▸ h.known_a
      | b => exact h.standard.image_b ▸ h.known_b
  · intro h
    obtain ⟨hstd, ⟨p, hp⟩, hknown⟩ := h
    refine ⟨hstd, ?_, hstd.image_a ▸ hknown .a, hstd.image_b ▸ hknown .b⟩
    cases p with
    | a => exact .inl (hstd.image_a ▸ hp)
    | b => exact .inr (hstd.image_b ▸ hp)

/-! ## Writing one partition -/

/-- Only words of the partition have changed. -/
def Keeps (p : Part) (f₀ f : Flash) : Prop := ∀ w, ¬p.Owns w → f w = f₀ w

theorem Keeps.trans {f g h : Flash} (hfg : Keeps p f g) (hgh : Keeps p g h) : Keeps p f h :=
  fun w hw => (hgh w hw).trans (hfg w hw)

variable {f₀ f : Flash} {q x : List Byte} {f' : Flash} {i : Nat}

theorem Keeps.standard (h : Keeps p f₀ f) (h₀ : Standard f₀) : Standard f := by
  refine h₀.congr fun w hw => h w ?_
  cases p <;> simp only [Part.Owns] <;> omega

theorem Keeps.image_other (h : Keeps p f₀ f) : image ed f p.other = image ed f₀ p.other := by
  refine image_congr fun w hw => h _ ?_
  cases p <;> simp only [Part.Owns, Part.other, Part.base] <;> omega

theorem FlashOp.torn_apply (o : FlashOp) (f : Flash) : o.Torn f (o.apply f) := by
  intro w
  unfold apply
  split
  · next h => exact .inr ⟨h, rfl⟩
  · exact .inl rfl

theorem FlashOp.Torn.apart {o : FlashOp} (h : o.Torn f f') {w : Nat}
    (hw : ¬o.Touches w) : f' w = f w :=
  (h w).resolve_right fun hr => hw hr.1

/-- While the other partition holds an image, the board stays recoverable whatever is written, as
long as the partition does not hold an unknown image. -/
theorem Recoverable.keeps {images : List (List Byte)} (h : Recoverable ed images f₀)
    (hother : (image ed f₀ p.other).isSome) (hf : Keeps p f₀ f)
    (himage : ∀ x ∈ image ed f p, x ∈ images) : Recoverable ed images f := by
  obtain ⟨hstd, -, hknown⟩ := recoverable_iff.1 h
  refine recoverable_iff.2 ⟨hf.standard hstd, ⟨p.other, hf.image_other ▸ hother⟩, ?_⟩
  have hknown' : ∀ x ∈ image ed f p.other, x ∈ images := hf.image_other ▸ hknown p.other
  intro p'
  cases p <;> cases p' <;> assumption

theorem erasePage_touches {w : Nat} :
    (FlashOp.erasePage (p.offset + 1024 * i)).Touches w ↔
      p.base + 256 * i ≤ w ∧ w < p.base + 256 * (i + 1) := by
  unfold FlashOp.Touches Part.offset
  cases p <;> simp only [Part.base] <;> omega

theorem erasePage_owns {w : Nat} (hi : i < 96)
    (h : (FlashOp.erasePage (p.offset + 1024 * i)).Touches w) : p.Owns w := by
  rw [erasePage_touches] at h
  cases p <;> simp only [Part.base, Part.Owns] at h ⊢ <;> omega

theorem erasePage_keeps (hi : i < 96) (h : (FlashOp.erasePage (p.offset + 1024 * i)).Torn f f') :
    Keeps p f f' :=
  fun _ hw => h.apart fun ht => hw (erasePage_owns hi ht)

/-- An erase that fails and is done entirely or not at all leaves no other image, since the magic of
the header goes with the first page. -/
theorem erasePage_failsDetected (hi : i < 96) (hstd : Standard f)
    (hfirst : i = 0 ∨ f p.base = erased)
    (hf' : f' = f ∨ f' = (FlashOp.erasePage (p.offset + 1024 * i)).apply f) :
    FailsDetected ed (.erasePage (p.offset + 1024 * i)) f f' := by
  rcases hf' with rfl | rfl
  · exact ⟨fun _ => .inl rfl, fun _ _ => ⟨fun _ => id, fun _ => id⟩⟩
  · have hmagic : (FlashOp.erasePage (p.offset + 1024 * i)).apply f p.base = erased := by
      unfold apply
      split
      · rfl
      · next hnot =>
        rw [erasePage_touches] at hnot
        exact hfirst.resolve_left (by omega)
    have hkeep := erasePage_keeps (p := p) hi (torn_apply _ f)
    have hself : image ed _ p = none := image_of_magic hmagic
    have hstd' := hkeep.standard hstd
    refine ⟨torn_apply _ f, fun _ _ => ?_⟩
    rw [hstd.image_a, hstd.image_b, hstd'.image_a, hstd'.image_b]
    cases p with
    | a => exact ⟨by simp [hself], fun _ hx => hkeep.image_other ▸ hx⟩
    | b => exact ⟨fun _ hx => hkeep.image_other ▸ hx, by simp [hself]⟩

variable {fallible : Prop} {images : List (List Byte)}

/-- **Erasing a page** of a partition, the first one or one that follows it, while the other
partition holds an image. -/
theorem erasePage_safe (hi : i < 96) (hrec : Recoverable ed images f)
    (hother : (image ed f p.other).isSome) (hfirst : i = 0 ∨ f p.base = erased) :
    Safe (controller ed fallible) (Recoverable ed images)
      (fun ok f' => (Recoverable ed images f' ∧ Keeps p f f') ∧
        cond ok (f' = (FlashOp.erasePage (p.offset + 1024 * i)).apply f) fallible)
      (erasePage (p.offset + 1024 * i)) f := by
  have hdetected : ∀ f', FailsDetected ed (.erasePage (p.offset + 1024 * i)) f f' →
      Recoverable ed images f' ∧ Keeps p f f' := by
    intro f' hfail
    obtain ⟨htorn, hdetect⟩ := hfail
    have hkeep := erasePage_keeps hi htorn
    refine ⟨hrec.keeps hother hkeep fun x hx => (recoverable_iff.1 hrec).2.2 p x ?_, hkeep⟩
    have hstd' := hkeep.standard hrec.standard
    obtain ⟨hda, hdb⟩ := hdetect _ rfl
    rw [hrec.standard.image_a, hstd'.image_a] at hda
    rw [hrec.standard.image_b, hstd'.image_b] at hdb
    cases p with
    | a => exact hda x hx
    | b => exact hdb x hx
  apply try_
  · have hdone := hdetected _ (erasePage_failsDetected hi hrec.standard hfirst (.inr rfl))
    exact ⟨hdone.1, hdone, rfl⟩
  · intro f' hfail
    have hdone := hdetected f' hfail.2
    exact ⟨hdone.1, hdone, hfail.1⟩

/-- Erasing a partition while the other one holds an image. -/
theorem erasePartition_safe (h₀ : Recoverable ed images f₀)
    (hother : (image ed f₀ p.other).isSome) :
    Safe (controller ed fallible) (Recoverable ed images)
      (fun ok f => (Recoverable ed images f ∧ Keeps p f₀ f) ∧
        cond ok (∀ w < 0x6000, f (p.base + w) = erased) fallible)
      (erasePartition p.offset 0x18000) f₀ := by
  refine mono (loop
    (J := fun i f => (Recoverable ed images f ∧ Keeps p f₀ f) ∧
      ∀ w < 256 * i, f (p.base + w) = erased)
    (F := fun f => (Recoverable ed images f ∧ Keeps p f₀ f) ∧ fallible) ?_
    ⟨⟨h₀, fun _ _ => rfl⟩, fun w hw => absurd hw (by omega)⟩) ?_
  · intro i f _ hi hJ
    obtain ⟨⟨hrec, hkeep⟩, herased⟩ := hJ
    have hfirst : i = 0 ∨ f p.base = erased := by
      by_cases h0 : i = 0
      · exact .inl h0
      · exact .inr (herased 0 (by omega))
    refine (erasePage_safe (by omega) hrec (hkeep.image_other ▸ hother) hfirst).mono ?_
    intro ok f' h
    obtain ⟨⟨hrec', hkeep'⟩, hend⟩ := h
    cases ok with
    | false => exact ⟨⟨hrec', hkeep.trans hkeep'⟩, hend⟩
    | true =>
      refine ⟨⟨hrec', hkeep.trans hkeep'⟩, fun w hw => ?_⟩
      rw [show f' = _ from hend, apply]
      split
      · rfl
      · next hnot =>
        rw [erasePage_touches] at hnot
        exact herased w (by omega)
  · intro ok f h
    cases ok with
    | false => exact h
    | true => exact h

theorem erased_and (d : Word) : erased &&& d = d := BitVec.allOnes_and

/-- **Programming a word.** If the operation fails, the word is programmed or it is not. -/
theorem writeWord_safe {address w : Nat} {data v : Word} {Q : Bool → Flash → Prop}
    (hw : address / 4 = w) (hv : f w &&& data = v)
    (hdone : Recoverable ed images (update f w v) ∧ Q true (update f w v) ∧
      (fallible → Q false (update f w v)))
    (hnot : Recoverable ed images f ∧ (fallible → Q false f)) :
    Safe (controller ed fallible) (Recoverable ed images) Q (writeWord address data) f := by
  subst hw hv
  have happly : (FlashOp.writeWord address data).apply f =
      update f (address / 4) (f (address / 4) &&& data) := by
    funext x
    by_cases hx : x = address / 4
    · subst hx
      simp [apply, FlashOp.Touches, value]
    · simp [FlashOp.apply, FlashOp.Touches, hx]
  apply try_
  · change Recoverable ed images (apply _ f) ∧ Q true (apply _ f)
    rw [happly]
    exact ⟨hdone.1, hdone.2.1⟩
  · intro f' hfail
    obtain ⟨hfal, htorn, -⟩ := hfail
    have hapart : ∀ x, x ≠ address / 4 → f' x = f x := fun x hx => htorn.apart hx
    rcases htorn (address / 4) with hold | ⟨-, hnew⟩
    · obtain rfl : f' = f := by
        rw [← update_eq_self (address / 4) f]
        exact eq_update_iff.2 ⟨hold, hapart⟩
      exact ⟨hnot.1, hnot.2 hfal⟩
    · obtain rfl := eq_update_iff.2 ⟨hnew, hapart⟩
      exact ⟨hdone.1, hdone.2.2 hfal⟩

/-- The body decides which image there is, once the size is there. -/
theorem image_of_body {size : Word} {body : Nat → Word}
    (hsize : f (p.base + 2) = erased ∨ f (p.base + 2) = size)
    (hbody : size.toNat ≤ 0x17F80 → ∀ i < (size.toNat + 3) / 4, f (p.base + 32 + i) = body i)
    (h : image ed f p = some x) :
    x = (range size.toNat).map fun i => byte (body (i / 4)) (i % 4) := by
  have hsize' : f (p.base + 2) = size := by
    refine hsize.resolve_left fun hno => ?_
    rw [image_of_size hno] at h
    exact absurd h (by simp)
  obtain ⟨-, -, hle, rfl⟩ := header_of_image h
  rw [FirmwareHeader.imageSize, headerAt_offset, hsize'] at hle ⊢
  apply map_congr_left
  intro i hi
  rw [mem_range] at hi
  rw [Part.offset, Nat.mul_div_cancel_left _ (by omega), hbody hle (i / 4) (by omega)]

/-! ## The bootloader -/

/-- **A loop that copies to A**, word by word. `J n` says what is there after `n` of them. -/
theorem copy_safe {J : Nat → Flash → Prop} {n a : Nat} {word : Flash → Nat → Word} {f₁ : Flash}
    (herased : ∀ i f, i < n → J i f → f (a / 4 + i) = erased)
    (hwrite : ∀ i f, i < n → J i f → J (i + 1) (update f (a / 4 + i) (word f i)))
    (hrec : ∀ i f, J i f → Keeps .a f₀ f ∧ Recoverable ed images f) (h₁ : J 0 f₁) :
    Safe (controller ed fallible) (Recoverable ed images)
      (fun ok f => cond ok (J n f) (fallible ∧ Keeps .a f₀ f ∧ Recoverable ed images f))
      (.loop (fun i => do
        let f ← .read
        writeWord (a + 4 * i) (word f i)) 0 n) f₁ := by
  conv in J n => rw [← Nat.zero_add n]
  refine loop (J := J) ?_ h₁
  intro i f _ hi hJ
  have hnext := hwrite i f (by omega) hJ
  refine writeWord_safe (v := word f i) (by omega) ?_
    ⟨(hrec _ _ hnext).2, hnext, fun hfal => ⟨hfal, hrec _ _ hnext⟩⟩
    ⟨(hrec _ _ hJ).2, fun hfal => ⟨hfal, hrec _ _ hJ⟩⟩
  rw [herased i f (by omega) hJ]
  exact erased_and _

/-- The first `n` words of the body of B are in A, whose other words are erased. -/
structure BodyCopied (f₀ : Flash) (n : Nat) (f : Flash) : Prop where
  keeps : Keeps .a f₀ f
  body : ∀ i < n, f (0x2020 + i) = f₀ (0x8020 + i)
  head : ∀ i < 32, f (0x2000 + i) = erased
  rest : ∀ i, n ≤ i → i < 0x5FE0 → f (0x2020 + i) = erased

theorem BodyCopied.write (h : BodyCopied f₀ i f) (hi : i < 0x5FE0) :
    BodyCopied f₀ (i + 1) (update f (0x2020 + i) (f (0x8020 + i))) where
  keeps w hw := by
    have hne : w ≠ 0x2020 + i := by
      intro heq
      exact hw ⟨by omega, by omega⟩
    rw [update_of_ne hne, h.keeps w hw]
  body j hj := by
    by_cases hji : j = i
    · subst hji
      rw [update_self]
      exact h.keeps _ (by simp only [Part.Owns]; omega)
    · rw [update_of_ne (by omega), h.body j (by omega)]
  head j hj := by rw [update_of_ne (by omega), h.head j hj]
  rest j hj hlt := by rw [update_of_ne (by omega), h.rest j (by omega) hlt]

theorem copyBody_safe {f₁ : Flash} (h₀ : Recoverable ed images f₀)
    (hq : image ed f₀ .b = some q) (h₁ : BodyCopied f₀ 0 f₁) :
    Safe (controller ed fallible) (Recoverable ed images)
      (fun ok f => cond ok (BodyCopied f₀ (((headerAt f₀ 0x20000).imageSize + 3) / 4) f)
        (fallible ∧ Keeps .a f₀ f ∧ Recoverable ed images f))
      (copyBody 0x8000 0x20000) f₁ := by
  have hsize : headerAt f₁ 0x20000 = headerAt f₀ 0x20000 := by
    funext i
    exact h₁.keeps _ (by simp only [Part.Owns]; omega)
  have hle : (headerAt f₀ 0x20000).imageSize ≤ 0x17F80 := (header_of_image hq).2.2.1
  unfold copyBody
  rw [safe_bind, safe_read, hsize]
  generalize (headerAt f₀ 0x20000).imageSize = n at hle
  have hwords : (if n % 4 ≠ 0 then n / 4 + 1 else n / 4) = (n + 3) / 4 := by
    split_ifs <;> omega
  dsimp only
  rw [hwords]
  refine copy_safe (J := BodyCopied f₀) (fun i f hi hJ => hJ.rest i (le_refl i) (by omega))
    (fun i f hi hJ => hJ.write (by omega)) (fun n f hJ => ⟨hJ.keeps, ?_⟩) h₁
  -- the magic of the header is not there yet
  refine h₀.keeps (by simp [Part.other, hq]) hJ.keeps ?_
  rw [image_of_magic (hJ.head 0 (by omega))]
  simp

/-- The body of B is in A, and each word of the header is there or erased: the first `n` are
there. -/
structure HeaderCopied (f₀ : Flash) (n : Nat) (f : Flash) : Prop where
  keeps : Keeps .a f₀ f
  body : ∀ i < ((headerAt f₀ 0x20000).imageSize + 3) / 4, f (0x2020 + i) = f₀ (0x8020 + i)
  head : ∀ i < n, f (0x2000 + i) = if i = 3 then statusValid else f₀ (0x8000 + i)
  rest : ∀ i, n ≤ i → i < 32 → f (0x2000 + i) = erased

/-- With some of the header there, A holds the image of B or none. -/
theorem image_of_headerCopied {n : Nat} (h : HeaderCopied f₀ n f)
    (hq : image ed f₀ .b = some q) (hx : image ed f .a = some x) : x = q := by
  have hsize : f (Part.a.base + 2) = erased ∨ f (Part.a.base + 2) = f₀ 0x8002 := by
    by_cases hn : 2 < n
    · exact .inr (h.head 2 hn)
    · exact .inl (h.rest 2 (by omega) (by omega))
  rw [image_of_body hsize (fun _ i hi => h.body i hi) hx]
  exact (header_of_image hq).2.2.2

theorem HeaderCopied.image_eq (h : HeaderCopied f₀ 32 f) : image ed f .a = image ed f₀ .b := by
  apply imageOf_congr
  · intro i hi h3
    exact (h.head i (by omega)).trans (if_neg h3)
  · intro _ i hi
    exact h.body i hi

theorem HeaderCopied.write (h : HeaderCopied f₀ i f) (hi : i < 32) :
    HeaderCopied f₀ (i + 1) (update f (0x2000 + i)
      (if i = 3 then statusValid else f (0x8000 + i))) where
  keeps w hw := by
    have hne : w ≠ 0x2000 + i := by
      intro heq
      exact hw ⟨by omega, by omega⟩
    rw [update_of_ne hne, h.keeps w hw]
  body j hj := by rw [update_of_ne (by omega), h.body j hj]
  head j hj := by
    by_cases hji : j = i
    · subst hji
      rw [update_self, h.keeps (0x8000 + j) (by simp only [Part.Owns]; omega)]
    · rw [update_of_ne (by omega), h.head j (by omega)]
  rest j hj hlt := by rw [update_of_ne (by omega), h.rest j (by omega) hlt]

theorem copyHeader_safe {f₁ : Flash} (h₀ : Recoverable ed images f₀)
    (hq : image ed f₀ .b = some q) (h₁ : HeaderCopied f₀ 0 f₁) :
    Safe (controller ed fallible) (Recoverable ed images)
      (fun ok f => cond ok (Keeps .a f₀ f ∧ image ed f .a = some q)
        (fallible ∧ Keeps .a f₀ f ∧ Recoverable ed images f))
      (copyHeader 0x8000 0x20000) f₁ := by
  refine mono (copy_safe (J := HeaderCopied f₀) (fun i f hi hJ => hJ.rest i (le_refl i) hi)
    (fun i f hi hJ => hJ.write hi) (fun n f hJ => ⟨hJ.keeps, ?_⟩) h₁) fun ok f h => ?_
  · refine h₀.keeps (by simp [Part.other, hq]) hJ.keeps fun x hx => ?_
    rw [image_of_headerCopied hJ hq hx]
    exact (recoverable_iff.1 h₀).2.2 .b q hq
  · cases ok with
    | false => exact h
    | true =>
      have hall : HeaderCopied f₀ 32 f := h
      exact ⟨hall.keeps, hall.image_eq.trans hq⟩

/-- **The copy of B to A.** -/
theorem swap_safe (h₀ : Recoverable ed images f₀)
    (hq : image ed f₀ .b = some q) :
    Safe (controller ed fallible) (Recoverable ed images)
      (fun ok f => cond ok (Keeps .a f₀ f ∧ image ed f .a = some q)
        (fallible ∧ Keeps .a f₀ f ∧ Recoverable ed images f))
      (swap 0x8000 0x20000 0x18000) f₀ := by
  obtain ⟨-, hpos, hle, -⟩ := header_of_image hq
  unfold swap
  rw [safe_bind, safe_read]
  have hbounds : ¬((headerAt f₀ 0x20000).imageSize = 0 ∨
      maxImageSize 0x18000 < (headerAt f₀ 0x20000).imageSize) := by
    exact not_or.2 ⟨Nat.pos_iff_ne_zero.1 hpos, Nat.not_lt.2 hle⟩
  rw [if_neg hbounds, safe_bind]
  refine (erasePartition_safe (p := .a) h₀ (by simp [Part.other, hq])).mono ?_
  intro ok f herase
  obtain ⟨⟨hrec, hkeep⟩, hend⟩ := herase
  cases ok with
  | false => exact ⟨hend, hkeep, hrec⟩
  | true =>
    have hbody : BodyCopied f₀ 0 f :=
      ⟨hkeep, fun i hi => absurd hi (by omega), fun i hi => hend i (by omega), fun i _ hi => by
        have := hend (32 + i) (by omega)
        rwa [← Nat.add_assoc] at this⟩
    refine safe_bind.2 ((copyBody_safe h₀ hq hbody).mono ?_)
    intro ok f' hcopy
    cases ok with
    | false => exact hcopy
    | true =>
      refine copyHeader_safe h₀ hq ⟨hcopy.keeps, hcopy.body, fun i hi => absurd hi (by omega), ?_⟩
      intro i _ hi
      exact hcopy.head i hi

variable (ed) in
/-- How a run of the bootloader ends. -/
structure Booted (fallible : Prop) (images : List (List Byte)) (r : BootResult)
    (f : Flash) : Prop where
  recoverable : Recoverable ed images f
  verified : ∀ sp pc, r = .handOver sp pc → (imageA ed f).isSome
  without_failure : ¬fallible → (imageA ed f).isSome ∧ r = bootResult f (partA f).offset

theorem booted_of_image (hrec : Recoverable ed images f) (ha : (image ed f .a).isSome) :
    Booted ed fallible images (bootResult f 0x8000) f where
  recoverable := hrec
  verified _ _ _ := hrec.standard.image_a ▸ ha
  without_failure _ := ⟨hrec.standard.image_a ▸ ha, by rw [hrec.standard.1]; rfl⟩

/-- **The bootloader** keeps the board recoverable, jumps to an image that verifies only, and finds
one if nothing fails. -/
theorem kernelMain_safe (h₀ : Recoverable ed images f₀) :
    Safe (controller ed fallible) (Recoverable ed images) (Booted ed fallible images)
      (kernelMain ed) f₀ := by
  obtain ⟨hstd, hsome, hknown⟩ := recoverable_iff.1 h₀
  unfold kernelMain
  rw [safe_bind, safe_read, hstd.1, hstd.2]
  dsimp only [ptPartA, ptPartB]
  have hva : verifyFirmware ed f₀ 0x8000 0x18000 = (image ed f₀ .a).isSome := imageOf_isSome.symm
  have hvb : verifyFirmware ed f₀ 0x20000 0x18000 = (image ed f₀ .b).isSome := imageOf_isSome.symm
  rw [hva, hvb]
  split_ifs with hswap ha
  · obtain ⟨q, hq⟩ := Option.isSome_iff_exists.1 hswap.1
    refine safe_bind.2 ((swap_safe h₀ hq).mono ?_)
    intro ok f hdone
    have hkeep : Keeps .a f₀ f := by
      cases ok with
      | false => exact hdone.2.1
      | true => exact hdone.1
    have hrec : Recoverable ed images f := by
      cases ok with
      | false => exact hdone.2.2
      | true =>
        refine h₀.keeps (by simp [Part.other, hq]) hkeep fun x hx => ?_
        rw [hdone.2] at hx
        exact Option.some.inj hx ▸ hknown .b q hq
    rw [safe_bind, safe_read, show verifyFirmware ed f 0x8000 0x18000 = (image ed f .a).isSome from
      imageOf_isSome.symm]
    by_cases ha : (image ed f .a).isSome
    · rw [if_pos ha, safe_bind]
      refine (erasePage_safe (p := .b) (by omega) hrec ha (.inl rfl)).mono ?_
      intro _ f' h
      have ha' : (image ed f' .a).isSome := h.1.2.image_other ▸ ha
      exact booted_of_image h.1.1 ha'
    · rw [if_neg ha]
      refine ⟨hrec, by simp, fun hno => ?_⟩
      cases ok with
      | false => exact absurd hdone.1 hno
      | true => exact absurd (by simp [hdone.2]) ha
  · exact booted_of_image h₀ ha
  · -- one of the partitions holds an image
    obtain ⟨p, hp⟩ := hsome
    cases p with
    | a => exact absurd hp ha
    | b => exact absurd ⟨hp, .inl (by simpa using ha)⟩ hswap

end AuroraOS.Firmware
