import AuroraOS.CacheCoherence
import AuroraOS.Lib.Register
import AuroraOS.Lib.Run

/-!
# Tasks that share a photon cache

Any number of tasks call `read`, `write`, `erase` and `sync` of one `PhotonCacheLayer`. They take
turns: a turn is a section that holds `cache_mutex_`, or a flash operation outside of it. The
history records for every byte what was written to it and when, and every call's return.

No page is ever in two slots. The bytes that reads return are another matter: a page is read from
the flash with the lock given up, and put into its slot later, when the flash, or the block, may
have changed. Where the copy is still good each time, reads are regular and nothing is lost.
-/

namespace AuroraOS

open PhotonCache Register Nat Option

/-! ## Turns -/

/-- What a task calls. -/
inductive CacheRequest
  | transfer (direction : Direction) (block offset : Nat) (buf : Nat → UInt8) (size : Nat)
      (fits : offset + size ≤ 2 ^ 32)
  | erase (block : Nat)
  | sync

/-- Where a task is. In the middle of a transfer it has reserved a slot, and has or has not yet read
the page. In the middle of an erase it has cleared the slots. -/
inductive CacheLocal
  | idle
  | fetching (x : Transfer) (slot : Fin 8) (copy : Option (Nat → UInt8))
  | erasing (called block : Nat)

namespace CacheLocal

/-- The call the task is in. -/
def call : CacheLocal → Option Nat
  | idle => none
  | fetching x _ _ => some x.called
  | erasing called _ => some called

def Erases : CacheLocal → Nat → Prop
  | erasing _ block, b => b = block
  | _, _ => False

instance (l : CacheLocal) (b : Nat) : Decidable (l.Erases b) := by
  cases l <;> dsimp only [Erases] <;> infer_instance

end CacheLocal

namespace PhotonCache

namespace Transfer

/-- The bytes that `x` writes on the way to `n`. -/
def written (x : Transfer) (n : Nat) (k : Nat × Nat) : Option UInt8 :=
  if x.direction = .write ∧ k.1 = x.block ∧ x.offset + x.done ≤ k.2 ∧ k.2 < x.offset + n then
    some (x.buf (k.2 - x.offset))
  else none

theorem put_eq (x : Transfer) (n : Nat) (cur : Nat → Nat → UInt8) :
    x.put n cur = fun block o => (x.written n (block, o)).getD (cur block o) := by
  funext block o
  unfold put written
  split_ifs <;> rfl

end Transfer

namespace Outcome

def next (x : Transfer) : Outcome → CacheLocal
  | fetch i => .fetching x i none
  | returned _ => .idle

/-- A read has completed. -/
def completed (x : Transfer) : Outcome → Option Transfer
  | returned true => if x.direction = .read then some x else none
  | _ => none

end Outcome

end PhotonCache

/-- Tasks `T`, and the cache. `reads` holds the reads that have completed, with the time they
returned. -/
structure CacheSys (T : Type*) where
  cache : PhotonCache
  task : T → CacheLocal
  history : History (Nat × Nat) UInt8
  reads : List (Transfer × Nat)

/-- A turn. `junk` is what the stack has in it where a page is read to. -/
inductive CacheAct (T : Type*)
  | start (t : T) (request : CacheRequest)
  | readFlash (t : T) (junk : Nat → UInt8)
  | resume (t : T)
  | eraseFlash (t : T)

namespace CacheSys

variable {T : Type*}

def init : CacheSys T := ⟨.init, fun _ => .idle, .init fun _ => 0xFF, []⟩

/-- An erase of the block has cleared the slots, and has not come to the flash. -/
def Erasing (s : CacheSys T) (block : Nat) : Prop := ∃ t, (s.task t).Erases block

instance [Fintype T] (s : CacheSys T) (block : Nat) : Decidable (s.Erasing block) :=
  inferInstanceAs (Decidable (∃ t, (s.task t).Erases block))

/-- The call of `read` or `write` that is made now. -/
def opening (s : CacheSys T) (direction : Direction) (block offset : Nat) (buf : Nat → UInt8)
    (size : Nat) (fits : offset + size ≤ 2 ^ 32) : Transfer :=
  ⟨direction, s.history.now, block, offset, buf, size, 0, fits⟩

section Turns

variable [DecidableEq T]

/-- Task `t` takes a turn in its call. The call returns if the task is idle then. -/
def advance (s : CacheSys T) (t : T) (call : Nat) (cache : PhotonCache)
    (values : Nat × Nat → Option UInt8) (next : CacheLocal) (completed : Option Transfer) :
    CacheSys T where
  cache := cache
  task := Function.update s.task t next
  history := s.history.step call values next.call.isNone
  reads := completed.toList.map (·, s.history.now) ++ s.reads

/-- The turn was a section of `x`. -/
def settle (s : CacheSys T) (t : T) (x : Transfer) (r : PhotonCache × Transfer × Outcome) :
    CacheSys T :=
  s.advance t x.called r.1 (x.written r.2.1.done) (r.2.2.next r.2.1) (r.2.2.completed r.2.1)

variable (g : FlashGeometry)

/-- The first section of a call. -/
def start (s : CacheSys T) (t : T) : CacheRequest → CacheSys T
  | .transfer direction block offset buf size fits =>
    let x := s.opening direction block offset buf size fits
    s.settle t x (beginTransfer g s.cache x)
  | .erase block =>
    s.advance t s.history.now (s.cache.clearBlock block) (fun _ => none)
      (.erasing s.history.now block) none
  | .sync => s.advance t s.history.now (s.cache.sync g) (fun _ => none) .idle none

def exec : CacheAct T → CacheSys T → Option (CacheSys T)
  | .start t request, s =>
    match s.task t with
    | .idle => some (s.start g t request)
    | _ => none
  | .readFlash t junk, s =>
    match s.task t with
    | .fetching x slot none =>
      let copy := (g.readBlocks s.cache.memory x.block (x.page g) junk g.cachedSize).getD junk
      some (s.advance t x.called s.cache (fun _ => none) (.fetching x slot (some copy)) none)
    | _ => none
  | .resume t, s =>
    match s.task t with
    | .fetching x slot (some copy) => some (s.settle t x (resumeTransfer g s.cache x slot copy))
    | _ => none
  | .eraseFlash t, s =>
    match s.task t with
    | .erasing called block =>
      let memory := (g.eraseBlock s.cache.memory block).getD s.cache.memory
      some (s.advance t called { s.cache with memory }
        (fun k => if k.1 = block ∧ block < g.blockCount ∧
          k.2 < g.blockSize then some 0xFF else none)
        .idle none)
    | _ => none

/-! ## What is asked of a turn -/

/-- The bytes that the turn writes are erased. -/
def WritesErased (s : CacheSys T) : CacheAct T → Prop
  | .start _ (.transfer direction block offset buf size fits) =>
    let x := s.opening direction block offset buf size fits
    Erased (g.bytes s.cache.memory) x (beginTransfer g s.cache x).2.1
  | .resume t =>
    match s.task t with
    | .fetching x slot (some copy) =>
      Erased (g.bytes s.cache.memory) x (resumeTransfer g s.cache x slot copy).2.1
    | _ => True
  | _ => True

/-- A page that is put into a slot is what the flash holds, and its block is not being erased. -/
def InstallsFresh (s : CacheSys T) : CacheAct T → Prop
  | .resume t =>
    match s.task t with
    | .fetching x slot (some copy) =>
      (∀ j ≠ slot, ¬(s.cache.pool j).Holds x.block (x.page g)) → (s.cache.pool slot).isReserved →
        Coherent.Fresh g s.Erasing (g.bytes s.cache.memory) x.block (x.page g) copy
    | _ => True
  | _ => True

instance (s : CacheSys T) : DecidablePred (WritesErased g s) := by
  intro act
  unfold WritesErased
  repeat' split
  all_goals infer_instance

instance [Fintype T] (s : CacheSys T) : DecidablePred (InstallsFresh g s) := by
  intro act
  unfold InstallsFresh
  repeat' split
  all_goals infer_instance

variable {g} {s s' : CacheSys T} {t : T}

/-- **No turn puts a page into two slots.** -/
theorem exec_slots {act : CacheAct T} (h : s.cache.Slots) (hexec : exec g act s = some s') :
    s'.cache.Slots := by
  cases act with
  | start t request =>
    simp only [exec] at hexec
    split at hexec <;> cases hexec
    cases request with
    | transfer => exact h.transfer g _ _
    | erase block => exact h.clearBlock block
    | sync => exact h.sync
  | readFlash =>
    simp only [exec] at hexec
    split at hexec <;> cases hexec
    exact h
  | resume t =>
    simp only [exec] at hexec
    split at hexec <;> cases hexec
    exact h.resumeTransfer g _ _ _
  | eraseFlash t =>
    simp only [exec] at hexec
    split at hexec <;> cases hexec
    exact ⟨h.unique, h.apart, h.dirty⟩

end Turns

/-! ## The invariant -/

variable {g : FlashGeometry} {s s' : CacheSys T} {t : T}

/-- The bytes as they should be. -/
def content (s : CacheSys T) (block o : Nat) : UInt8 := s.history.value (block, o)

/-- What a read has returned so far is regular. -/
def ReadsRegular (h : History (Nat × Nat) UInt8) (x : Transfer) (n done : Nat) : Prop :=
  ∀ j < n, Regular h.returned x.called done (x.buf j) (h.log (x.block, x.offset + j))

structure Inv (g : FlashGeometry) (s : CacheSys T) : Prop where
  coherent : Coherent g s.Erasing s.content s.cache
  ok : s.history.Ok
  opened : ∀ t, ∀ c ∈ (s.task t).call, c < s.history.now ∧ s.history.Open c
  apart : ∀ t t', ∀ c ∈ (s.task t).call, c ∈ (s.task t').call → t = t'
  pending : ∀ t x slot copy, s.task t = .fetching x slot copy → x.direction = .read →
    ReadsRegular s.history x x.done s.history.now
  reads : ∀ r ∈ s.reads, r.1.called ≤ s.history.now ∧ ReadsRegular s.history r.1 r.1.size r.2

theorem Inv.init (g : FlashGeometry) : Inv g (init : CacheSys T) where
  coherent :=
    { slots := ⟨by simp [CacheSys.init, PhotonCache.init, CachePage.Holds],
        by simp [CacheSys.init, PhotonCache.init], by simp [CacheSys.init, PhotonCache.init]⟩
      pages := by simp [CacheSys.init, PhotonCache.init]
      stored := fun _ _ _ _ _ _ => rfl }
  ok := .init _
  opened := by simp [CacheSys.init, CacheLocal.call]
  apart := by simp [CacheSys.init, CacheLocal.call]
  pending := by simp [CacheSys.init]
  reads := by simp [CacheSys.init]

/-- The task may take a turn in this call: it is in the call, or makes it now. -/
def MayTurn (s : CacheSys T) (t : T) (call : Nat) : Prop :=
  (s.task t).call = some call ∨ (s.task t).call = none ∧ call = s.history.now

theorem ReadsRegular.step {h : History (Nat × Nat) UInt8} {x : Transfer} {n done done' c : Nat}
    {values : Nat × Nat → Option UInt8} {returns : Bool} (hx : ReadsRegular h x n done)
    (hc : h.Open c) (hcalled : x.called ≤ h.now) (hdone : done ≤ done') :
    ReadsRegular (h.step c values returns) x n done' :=
  fun j hj => History.regular_step hc hcalled hdone (hx j hj)

theorem MayTurn.isOpen (h : Inv g s) {call : Nat} (hturn : s.MayTurn t call) :
    s.history.Open call := by
  rcases hturn with hcall | ⟨-, rfl⟩
  · exact (h.opened t call hcall).2
  · exact h.ok.open_now

/-- No other task is in the call. -/
theorem MayTurn.alone (h : Inv g s) {call : Nat} (hturn : s.MayTurn t call) {t' : T}
    (hcall : call ∈ (s.task t').call) : t' = t := by
  rcases hturn with hself | ⟨-, rfl⟩
  · exact h.apart t' t call hcall hself
  · exact absurd (h.opened t' _ hcall).1 (lt_irrefl _)

variable [DecidableEq T]

section Advance

variable {call : Nat} {cache : PhotonCache} {values : Nat × Nat → Option UInt8} {next : CacheLocal}
  {completed : Option Transfer}

/-- **A turn keeps the invariant** if it keeps the cache coherent, and if what it has read is
regular at the time of the turn. -/
theorem Inv.advance (h : Inv g s) (hturn : s.MayTurn t call) (hnext : ∀ c ∈ next.call, c = call)
    (hcoherent : Coherent g (s.advance t call cache values next completed).Erasing
      (s.advance t call cache values next completed).content cache)
    (hpending : ∀ x slot copy, next = .fetching x slot copy → x.direction = .read →
      ReadsRegular s.history x x.done s.history.now)
    (hcompleted : ∀ x ∈ completed, x.called = call ∧
      ReadsRegular s.history x x.size s.history.now) :
    Inv g (s.advance t call cache values next completed) := by
  have hopen := hturn.isOpen h
  have htask : ∀ t', (s.advance t call cache values next completed).task t' =
      if t' = t then next else s.task t' := fun t' => Function.update_apply ..
  -- a task that is in a call after the turn was in it before, or is `t`
  have hcalls : ∀ t', ∀ c ∈ ((s.advance t call cache values next completed).task t').call,
      t' = t ∧ c = call ∧ next.call = some call ∨ t' ≠ t ∧ c ≠ call ∧ c ∈ (s.task t').call := by
    intro t' c hc
    rw [htask] at hc
    split_ifs at hc with ht
    · have := hnext c hc
      exact .inl ⟨ht, this, this ▸ hc⟩
    · exact .inr ⟨ht, fun heq => ht (hturn.alone h (heq ▸ hc)), hc⟩
  refine ⟨hcoherent, h.ok.step hopen, fun t' c hc => ?_, fun t₁ t₂ c h₁ h₂ => ?_,
    fun t' x slot copy ht hx => ?_, fun r hr => ?_⟩
  · rcases hcalls t' c hc with ⟨-, rfl, hsome⟩ | ⟨-, hne, hc⟩
    · exact ⟨lt_succ_of_le hopen.1, hopen.step (by simp [hsome])⟩
    · obtain ⟨hlt, hopen'⟩ := h.opened t' c hc
      exact ⟨lt_succ_of_lt hlt, hopen'.step fun _ => hne⟩
  · rcases hcalls t₁ c h₁ with ⟨rfl, rfl, -⟩ | ⟨-, hne₁, hc₁⟩ <;>
      rcases hcalls t₂ c h₂ with ⟨rfl, heq, -⟩ | ⟨-, hne₂, hc₂⟩
    · rfl
    · exact absurd rfl hne₂
    · exact absurd heq hne₁
    · exact h.apart t₁ t₂ c hc₁ hc₂
  · have hcall := hcalls t' x.called (by rw [ht]; rfl)
    rw [htask] at ht
    split_ifs at ht with htt
    · rcases hcall with ⟨-, hc, -⟩ | ⟨hne, -, -⟩
      · exact (hpending x slot copy ht hx).step hopen (hc ▸ hopen.1) (le_succ _)
      · exact absurd htt hne
    · have hlt := (h.opened t' x.called (by rw [ht]; rfl)).1
      exact (h.pending t' x slot copy ht hx).step hopen hlt.le (le_succ _)
  · rcases List.mem_append.1 hr with hr | hr
    · simp only [List.mem_map, mem_toList] at hr
      obtain ⟨x, hx, rfl⟩ := hr
      obtain ⟨hcall, hreg⟩ := hcompleted x hx
      exact ⟨le_succ_of_le (hcall ▸ hopen.1), hreg.step hopen (hcall ▸ hopen.1) (le_refl _)⟩
    · obtain ⟨hle, hreg⟩ := h.reads r hr
      exact ⟨le_succ_of_le hle, hreg.step hopen hle (le_refl _)⟩

theorem task_advance (s : CacheSys T) (t : T) :
    (s.advance t call cache values next completed).task = Function.update s.task t next := rfl

theorem content_advance (s : CacheSys T) (t : T) :
    (s.advance t call cache values next completed).content =
    fun block o => (values (block, o)).getD (s.content block o) := by
  funext block o
  exact History.value_step ..

/-- An erase is under way in another task. -/
def Others (s : CacheSys T) (t : T) (block : Nat) : Prop := ∃ t' ≠ t, (s.task t').Erases block

theorem erasing_iff (s : CacheSys T) (t : T) (block : Nat) :
    s.Erasing block ↔ s.Others t block ∨ (s.task t).Erases block := by
  constructor
  · rintro ⟨t', ht'⟩
    by_cases heq : t' = t
    · exact .inr (heq ▸ ht')
    · exact .inl ⟨t', heq, ht'⟩
  · rintro (⟨t', -, ht'⟩ | ht)
    · exact ⟨t', ht'⟩
    · exact ⟨t, ht⟩

theorem erasing_advance (s : CacheSys T) (t : T) (block : Nat) :
    (s.advance t call cache values next completed).Erasing block ↔
      s.Others t block ∨ next.Erases block := by
  rw [erasing_iff _ t]
  have hothers : (s.advance t call cache values next completed).Others t block ↔
      s.Others t block := by
    refine exists_congr fun t' => and_congr_right fun ht' => ?_
    rw [task_advance, Function.update_of_ne ht']
  rw [hothers, task_advance, Function.update_self]

theorem erasing_advance_eq (hnow : ∀ b, ¬(s.task t).Erases b) (hnext : ∀ b, ¬next.Erases b) :
    (s.advance t call cache values next completed).Erasing = s.Erasing := by
  funext b
  exact propext (by rw [erasing_advance, erasing_iff s t, or_iff_left (hnext b),
    or_iff_left (hnow b)])

end Advance

/-! ## Turns keep the invariant -/

theorem Inv.settle (h : Inv g s) {x : Transfer} {r : PhotonCache × Transfer × Outcome}
    (hturn : s.MayTurn t x.called) (hnow : ∀ b, ¬(s.task t).Erases b)
    (hsofar : x.direction = .read → ReadsRegular s.history x x.done s.history.now)
    (hsection : Section g s.Erasing s.content x r)
    (hreturned : r.2.2 = .returned true → x.size ≤ r.2.1.done) : Inv g (s.settle t x r) := by
  have hadv := hsection.advances
  -- what is read in the section is what should be there
  have hregular : r.2.1.direction = .read →
      ReadsRegular s.history r.2.1 r.2.1.done s.history.now := by
    intro hx j hj
    rw [hadv.direction] at hx
    rw [hadv.called, hadv.block, hadv.offset]
    rcases lt_or_ge j x.done with hlt | hle
    · rw [hadv.old j hlt]
      exact hsofar hx j hlt
    · rw [hadv.new hx j hle hj]
      exact h.ok.regular_value _
  obtain ⟨c, x', outcome⟩ := r
  refine h.advance hturn ?_ ?_ ?_ ?_
  · intro c hc
    cases outcome with
    | fetch i =>
      cases hc
      exact hadv.called
    | returned => cases hc
  · rw [erasing_advance_eq hnow (by cases outcome <;> exact fun _ => id), content_advance]
    exact x.put_eq _ _ ▸ hsection.coherent
  · intro x'' slot copy hnext hx
    cases outcome with
    | fetch i =>
      cases hnext
      exact hregular hx
    | returned => cases hnext
  · intro x'' hx''
    cases outcome with
    | fetch => cases hx''
    | returned ok =>
      cases ok with
      | false => cases hx''
      | true =>
        simp only [Outcome.completed] at hx''
        split_ifs at hx'' with hread
        · cases hx''
          refine ⟨hadv.called, fun j hj => hregular hread j (hj.trans_le ?_)⟩
          exact hadv.size.le.trans (hreturned rfl)
        · cases hx''

theorem Inv.start (h : Inv g s) (ht : s.task t = .idle) {request : CacheRequest}
    (herased : WritesErased g s (.start t request)) : Inv g (s.start g t request) := by
  have hturn : s.MayTurn t s.history.now := .inr ⟨by rw [ht]; rfl, rfl⟩
  have hnow : ∀ b, ¬(s.task t).Erases b := by
    rw [ht]
    exact fun _ => id
  cases request with
  | transfer =>
    refine h.settle hturn hnow (fun _ j hj => absurd hj (not_lt_zero j))
      (h.coherent.transfer _ herased) (transfer_returned g (le_refl _))
  | erase =>
    refine h.advance hturn (by rintro _ ⟨⟩; rfl) ?_ (by simp) (by simp)
    refine h.coherent.clearBlock fun b => ?_
    rw [erasing_advance, erasing_iff s t, or_iff_left (hnow b)]
    rfl
  | sync =>
    refine h.advance hturn (by simp [CacheLocal.call]) ?_ (by simp) (by simp)
    rw [erasing_advance_eq hnow fun _ => id]
    exact h.coherent.sync

/-- **Every turn keeps the invariant**, if what it writes is erased and what it installs is
fresh. -/
theorem Inv.exec {act : CacheAct T} (h : Inv g s)
    (hok : WritesErased g s act ∧ InstallsFresh g s act) (hexec : exec g act s = some s') :
    Inv g s' := by
  obtain ⟨herased, hfresh⟩ := hok
  cases act with
  | start =>
    simp only [CacheSys.exec] at hexec
    split at hexec <;> cases hexec
    next ht => exact h.start ht herased
  | readFlash t junk =>
    simp only [CacheSys.exec] at hexec
    split at hexec <;> cases hexec
    next x slot ht =>
    refine h.advance (.inl (by rw [ht]; rfl)) (by rintro _ ⟨⟩; rfl) ?_ ?_ (by simp)
    · rw [erasing_advance_eq (by rw [ht]; exact fun _ => id) fun _ => id]
      exact h.coherent
    · rintro _ _ _ ⟨⟩ hx
      exact h.pending t x slot none ht hx
  | resume t =>
    simp only [CacheSys.exec] at hexec
    split at hexec <;> cases hexec
    next x slot copy ht =>
    simp only [WritesErased, InstallsFresh, ht] at herased hfresh
    exact h.settle (.inl (by rw [ht]; rfl)) (by rw [ht]; exact fun _ => id)
      (h.pending t x slot (some copy) ht) (h.coherent.resumeTransfer hfresh herased)
      (resumeTransfer_returned g)
  | eraseFlash t =>
    simp only [CacheSys.exec] at hexec
    split at hexec <;> cases hexec
    next called block ht =>
    refine h.advance (.inl (by rw [ht]; rfl)) (by simp [CacheLocal.call]) ?_ (by simp) (by simp)
    have hblock : s.Erasing block := ⟨t, by rw [ht]; rfl⟩
    have hcontent : (fun b o => ((if b = block ∧ block < g.blockCount ∧ o < g.blockSize then
        some 0xFF else none : Option UInt8)).getD (s.content b o)) =
        fun b o => if b = block ∧ block < g.blockCount ∧ o < g.blockSize then 0xFF
          else s.content b o := by
      funext b o
      split_ifs <;> rfl
    rw [content_advance, hcontent]
    refine h.coherent.eraseBlock hblock fun b => ?_
    rw [erasing_advance, erasing_iff s t, ht, or_iff_left (show ¬CacheLocal.idle.Erases b from id)]
    rfl

/-! ## Runs -/

/-- **Runs of the cache.** No page is ever in two slots. In a run that writes erased bytes only, and
where each page that is put into a slot is what the flash holds then and its block is not being
erased, every read that completes is regular in each byte, and each byte of a block that is not
being erased is, in the cache or in the flash, what was last written to it. -/
theorem run_regular (g : FlashGeometry) {acts : List (CacheAct T)} {s : CacheSys T}
    (hrun : acts.foldlM (fun s act => exec g act s) init = some s) :
    (∀ i j block page, (s.cache.pool i).Holds block page →
      (s.cache.pool j).Holds block page → i = j) ∧
    (Run.Allowed (exec g) (fun s act => WritesErased g s act ∧ InstallsFresh g s act) acts init →
      (∀ r ∈ s.reads, ∀ j < r.1.size, Regular s.history.returned r.1.called r.2 (r.1.buf j)
        (s.history.log (r.1.block, r.1.offset + j))) ∧
      ∀ block < g.blockCount, ∀ o < g.blockSize, ¬s.Erasing block →
        lookup g s.cache block o = s.history.value (block, o)) := by
  constructor
  · have hslots : s.cache.Slots :=
      Run.foldlM_invariant (P := fun s => s.cache.Slots) (fun _ _ _ _ h hexec => exec_slots h hexec)
        (Inv.init g).coherent.slots hrun
    exact hslots.unique
  · intro hallowed
    have hinv : Inv g s :=
      Run.rel_of_actions (R := fun s t => Inv g s → Inv g t) (fun _ => id) (fun h h' => h' ∘ h)
        (fun _ _ _ hok hexec h => h.exec hok hexec) hallowed hrun (Inv.init g)
    refine ⟨fun r hr => (hinv.reads r hr).2, fun block hblock o ho herasing => ?_⟩
    exact hinv.coherent.lookup_eq hblock ho herasing

/-- A byte is written by one task and read by another, which fetches a page of its own meanwhile. -/
theorem run_regular_write_read : ∃ s : CacheSys Bool,
    [.start false (.transfer .write 0 0 (fun _ => 0x12) 1 (by decide)),
      .start true (.transfer .read 1 0 (fun _ => 0) 1 (by decide)), .readFlash false fun _ => 0,
      .readFlash true fun _ => 0, .resume false, .resume true, .start false .sync,
      .start true (.transfer .read 0 0 (fun _ => 0) 1 (by decide))].foldlM
        (fun s act => exec .standard act s) init = some s ∧ s.reads.length = 2 ∧
    (∀ r ∈ s.reads, ∀ j < r.1.size, Regular s.history.returned r.1.called r.2 (r.1.buf j)
      (s.history.log (r.1.block, r.1.offset + j))) := by
  refine ⟨_, (some_get (by decide +kernel)).symm, by decide +kernel, ?_⟩
  exact ((run_regular .standard (some_get (by decide +kernel)).symm).2 (by decide +kernel)).1

/-- The byte that was written is flushed, and its block erased. Between the two halves of the erase
another task fetches the page. -/
def eraseRace : List (CacheAct Bool) :=
  [.start false (.transfer .write 0 0 (fun _ => 0x12) 1 (by decide)), .readFlash false fun _ => 0,
    .resume false, .start false .sync, .start true (.erase 0),
    .start false (.transfer .read 0 0 (fun _ => 0) 1 (by decide)),
    .readFlash false fun _ => 0, .eraseFlash true, .resume false,
    .start false (.transfer .read 0 0 (fun _ => 0) 1 (by decide))]

/-- **A read after an erase returns what was there before.** -/
theorem eraseRace_not_regular :
    Run.Allowed (exec .standard) (WritesErased .standard) eraseRace init ∧
    ∃ s, eraseRace.foldlM (fun s act => exec .standard act s) init = some s ∧
      ∃ r ∈ s.reads, ∃ j < r.1.size, ¬Regular s.history.returned r.1.called r.2 (r.1.buf j)
        (s.history.log (r.1.block, r.1.offset + j)) := by
  refine ⟨by decide +kernel, _, (some_get (by decide +kernel)).symm, by decide +kernel⟩

end CacheSys

end AuroraOS
