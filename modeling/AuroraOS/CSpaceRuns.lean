import AuroraOS.CSpace
import AuroraOS.System
import AuroraOS.Lib.RefCount

/-!
# Bitmaps and reference counts over runs

The operations of `CSpace` and of the device registry that change capability spaces, in any order
and by any tasks, while the rest of the kernel does what it likes.

Reference counts are right in every run. Bitmaps are not: `open_device` fills a slot without setting
its bit, so `cap_alloc_slot` may offer the slot again, and a capability that is copied onto its own
slot is emptied before it is read, which leaves a bit without a capability. Where neither happens,
the bitmaps are right too.
-/

namespace AuroraOS

open Bitmap Relation Function CapState Option

variable {N : Nat}

/-! ## Operations -/

inductive CapOp (N : Nat)
  | insert (task : Option (Fin N)) (slotId : Nat) (cap : CapRef N)
  | lookup (task : Option (Fin N)) (slotId : Nat)
  | delete (task : Option (Fin N)) (slotId : Nat)
  | derive (task : Option (Fin N)) (srcSlot dstSlot : Nat) (rights : BitVec 32)
  | mint (task : Option (Fin N)) (srcSlot dstSlot : Nat) (rights : BitVec 32) (badge : Nat)
  | grant (srcTask dstTask : Option (Fin N)) (srcSlot dstSlot : Nat) (newRights : BitVec 32)
      (badge : Nat)
  | revoke (task : Option (Fin N)) (slotId : Nat)
  | openDevice (task : Option (Fin N)) (name : Option (List UInt8)) (dstSlot : Nat)
      (requestedRights : BitVec 32) (openRes : Int)
  | deviceClose (task : Option (Fin N)) (capSlot : Nat)

def CapOp.exec : CapOp N → CapState N → Option (CapState N)
  | .insert task slot cap, s => (s.capInsert task slot cap).map Prod.fst
  | .lookup task slot, s => some (s.capLookup task slot).1
  | .delete task slot, s => (s.capDelete task slot).map Prod.fst
  | .derive task src dst rights, s => (s.capDerive task src dst rights).map Prod.fst
  | .mint task src dst rights badge, s => (s.capMint task src dst rights badge).map Prod.fst
  | .grant t u src dst rights badge, s => (s.capGrant t u src dst rights badge).map Prod.fst
  | .revoke task slot, s => (s.capRevoke task slot).map Prod.fst
  | .openDevice task name dst rights res, s =>
    (s.openDevice task name dst rights res).map Prod.fst
  | .deviceClose task slot, s => (s.deviceClose task slot).map Prod.fst

/-- The state after a list of operations. -/
def CapOp.execAll (ops : List (CapOp N)) (s : CapState N) : Option (CapState N) :=
  ops.foldlM (fun s op => op.exec s) s

/-- An operation, or anything that leaves capability spaces and reference counts alone. -/
inductive CapStep (ok : CapState N → CapOp N → Prop) (s : CapState N) : CapState N → Prop
  | op {s' : CapState N} (op : CapOp N) (hok : ok s op) (h : op.exec s = some s') : CapStep ok s s'
  | kernel (k : Kernel N) : CapStep ok s (s.withKernel k)

/-- The operation opens no device, and copies no capability onto its own slot. -/
def CapOp.Separate (s : CapState N) : CapOp N → Prop
  | .insert task slot cap => ∀ p ∈ place task slot, cap = .slot p → (s.cspace p).type = .null
  | .derive task src dst rights | .mint task src dst rights _ =>
    ∀ p ∈ place task src, place task dst = some p → ¬ s.mayCopy p rights
  | .grant t u src dst rights _ =>
    ∀ p ∈ place t src, place u dst = some p → ¬ s.mayCopy p rights
  | .openDevice _ name _ rights res => s.deviceFor name rights = none ∨ res ≠ 0
  | .lookup .. | .delete .. | .revoke .. | .deviceClose .. => True

namespace CapState

/-! ## The invariants -/

/-- The bit of a slot in `occupied_mask`. -/
def bit (s : CapState N) (p : Place N) : Bool := (s.occupiedMask p.1).getLsbD p.2

/-- The bitmaps say which slots hold a capability. -/
def Occupied (s : CapState N) : Prop := ∀ p, s.bit p = true ↔ (s.cspace p).type ≠ .null

/-- The object that each slot points to. -/
def object (s : CapState N) (p : Place N) : Option (KernelObject N) := (s.cspace p).object

/-- The number of slots, over all tasks, that point to an object. -/
def slotsTo (s : CapState N) (o : KernelObject N) : Nat := RefCount.holders s.object o

/-- Empty slots point nowhere, and the counts are those of the slots and of the references held
elsewhere. -/
structure Referenced (elsewhere : KernelObject N → Nat) (s : CapState N) : Prop where
  null : ∀ p, (s.cspace p).type = .null → s.object p = none
  counts : RefCount.Counts elsewhere s.object s.refCount

variable {s s' t : CapState N} {p : Place N} {cap : Capability N}

/-! ## Bits -/

theorem bit_occupy (s : CapState N) (p q : Place N) :
    (s.occupy p).bit q = (decide (q = p) || s.bit q) := by
  obtain ⟨t, i⟩ := p
  obtain ⟨u, j⟩ := q
  show (update s.occupiedMask t (setBit (s.occupiedMask t) i) u).getLsbD j = _
  by_cases hu : u = t
  · subst hu
    rw [update_self, getLsbD_setBit _ i.isLt]
    simp [bit, Fin.ext_iff]
  · simp [bit, hu]

theorem bit_vacate (s : CapState N) (p q : Place N) :
    (s.vacate p).bit q = (!decide (q = p) && s.bit q) := by
  obtain ⟨t, i⟩ := p
  obtain ⟨u, j⟩ := q
  show (update s.occupiedMask t (clearBit (s.occupiedMask t) i) u).getLsbD j = _
  by_cases hu : u = t
  · subst hu
    rw [update_self, getLsbD_clearBit _ i.isLt]
    simp [bit, Fin.ext_iff]
  · simp [bit, hu]

namespace Occupied

theorem congr (h : t.Occupied) (hc : s.cspace = t.cspace)
    (hm : s.occupiedMask = t.occupiedMask) : s.Occupied := by
  intro p
  have hp := h p
  unfold bit at hp ⊢
  rw [hm, hc]
  exact hp

theorem withdraws (h : t.Occupied) (hs : Withdraws s t s') : s'.Occupied :=
  h.congr hs.cspace hs.occupiedMask

theorem syncBit (h : s.Occupied) (p : Place N) : (s.syncBit p).Occupied := by
  intro q
  unfold CapState.syncBit
  split_ifs with hnull
  · rw [bit_vacate]
    by_cases hq : q = p
    · subst hq
      simpa [vacate] using hnull
    · simpa [hq, vacate] using h q
  · rw [bit_occupy]
    by_cases hq : q = p
    · subst hq
      simpa [occupy] using hnull
    · simpa [hq, occupy] using h q

theorem deleted (h : s.Occupied) (p : Place N) : (s.deleted p).Occupied := by
  intro q
  rw [show (s.deleted p).bit q = _ from s.bit_vacate p q]
  by_cases hq : q = p
  · subst hq
    simp [cspace_deleted_self, Capability.cleared]
  · rw [cspace_deleted_of_ne hq]
    simpa [hq] using h q

theorem filled (h : s.Occupied) (hcap : cap.type ≠ .null) (p : Place N) :
    ((s.filled p cap).occupy p).Occupied := by
  intro q
  have hcspace : ((s.filled p cap).occupy p).cspace = update s.cspace p cap :=
    s.cspace_filled p cap
  have hbit : (s.filled p cap).bit q = s.bit q := by
    unfold bit
    rw [(s.rest_filled p cap).2.1]
  rw [bit_occupy, hbit, hcspace]
  by_cases hq : q = p
  · subst hq
    simpa using hcap
  · simpa [hq] using h q

theorem null_of_capAllocSlot (h : s.Occupied) {u : Fin N} {i : Fin maxCspaceSlots}
    (hi : s.capAllocSlot (some u) = some i) : (s.cspace (u, i)).type = .null := by
  by_contra hne
  have hbit : (s.occupiedMask u).getLsbD i = true := (h (u, i)).mpr hne
  have hfree := (findLowestBit_spec hi).1
  rw [BitVec.getLsbD_not, hbit] at hfree
  simp at hfree

end Occupied

/-! ## Counts -/

namespace Referenced

variable {elsewhere : KernelObject N → Nat}

theorem congr (h : t.Referenced elsewhere) (hc : s.cspace = t.cspace)
    (hr : s.refCount = t.refCount) : s.Referenced elsewhere := by
  have hobject : s.object = t.object := by
    unfold object
    rw [hc]
  refine ⟨fun p hp => ?_, ?_⟩
  · rw [hobject]
    apply h.null
    rw [← hc]
    exact hp
  · rw [hobject, hr]
    exact h.counts

theorem withdraws (h : t.Referenced elsewhere) (hs : Withdraws s t s') :
    s'.Referenced elsewhere :=
  h.congr hs.cspace hs.refCount

theorem occupy (h : s.Referenced elsewhere) (p : Place N) : (s.occupy p).Referenced elsewhere :=
  h.congr rfl rfl

theorem syncBit (h : s.Referenced elsewhere) (p : Place N) :
    (s.syncBit p).Referenced elsewhere := by
  unfold CapState.syncBit
  split_ifs
  · exact h.congr rfl rfl
  · exact h.occupy p

theorem object_deleted (s : CapState N) (p : Place N) :
    (s.deleted p).object = update s.object p none := by
  funext q
  unfold object
  by_cases hq : q = p
  · rw [hq, cspace_deleted_self, update_self]
    rfl
  · rw [cspace_deleted_of_ne hq, update_of_ne hq]

theorem object_filled (s : CapState N) (p : Place N) (cap : Capability N) :
    (s.filled p cap).object = update s.object p cap.object := by
  funext q
  unfold object
  rw [cspace_filled]
  by_cases hq : q = p
  · rw [hq, update_self, update_self]
  · rw [update_of_ne hq, update_of_ne hq]

theorem deleted (h : s.Referenced elsewhere) (p : Place N) :
    (s.deleted p).Referenced elsewhere := by
  refine ⟨fun q hq => ?_, ?_⟩
  · rw [object_deleted]
    by_cases hqp : q = p
    · rw [hqp, update_self]
    · rw [cspace_deleted_of_ne hqp] at hq
      rw [update_of_ne hqp, h.null q hq]
  · rw [object_deleted]
    cases hobject : s.object p with
    | none =>
      have hcount : (s.deleted p).refCount = s.refCount := by
        unfold object at hobject
        unfold CapState.deleted
        rw [hobject]
        cases (s.cspace p).type <;> rfl
      rw [hcount, update_eq_self_iff.mpr hobject.symm]
      exact h.counts
    | some o =>
      have htype : (s.cspace p).type ≠ .null := by
        intro hnull
        rw [h.null p hnull] at hobject
        cases hobject
      have hcount : (s.deleted p).refCount = update s.refCount o (s.refCount o - 1) := by
        unfold object at hobject
        unfold CapState.deleted
        rw [hobject]
        cases hty : (s.cspace p).type with
        | null => exact absurd hty htype
        | _ => rfl
      rw [hcount]
      exact h.counts.drop hobject

/-- Losing a capability in a revocation is losing it in `cap_delete`. -/
theorem dropCap (h : s.Referenced elsewhere) {o : KernelObject N}
    (hobject : s.object p = some o) (hs : s.dropCap p o = some s') : s.capDeleteAt p = some s' := by
  have htype : (s.cspace p).type ≠ .null := by
    intro hnull
    rw [h.null p hnull] at hobject
    cases hobject
  unfold object at hobject
  unfold capDeleteAt
  rw [hobject]
  cases hty : (s.cspace p).type with
  | null => exact absurd hty htype
  | _ => exact hs

theorem filled (h : s.Referenced elsewhere)
    (hroom : ∀ o, elsewhere o + N * maxCspaceSlots < 2 ^ 32) (hp : s.object p = none)
    (cap : Capability N) (hcap : cap.type = .null → cap.object = none) :
    (s.filled p cap).Referenced elsewhere := by
  refine ⟨fun q hq => ?_, ?_⟩
  · rw [object_filled]
    rw [cspace_filled] at hq
    by_cases hqp : q = p
    · rw [hqp, update_self] at hq ⊢
      exact hcap hq
    · rw [update_of_ne hqp] at hq ⊢
      exact h.null q hq
  · rw [object_filled]
    unfold CapState.filled
    cases hobject : cap.object with
    | none =>
      rw [update_eq_self_iff.mpr hp.symm]
      exact h.counts
    | some o =>
      refine h.counts.take hp ?_
      rw [Fintype.card_prod, Fintype.card_fin]
      exact hroom o

end Referenced

end CapState

/-! ## Runs -/

section Runs

open CapState

variable {s s' : CapState N} {elsewhere : KernelObject N → Nat} {r : CapState N × Bool}
  {op : CapOp N}

theorem CapState.object_deleted_self (s : CapState N) (p : Place N) :
    (s.deleted p).object p = none := by
  rw [Referenced.object_deleted, update_self]

theorem CapState.copyCap_referenced (h : s.Referenced elsewhere)
    (hroom : ∀ o, elsewhere o + N * maxCspaceSlots < 2 ^ 32) {src dst : Place N}
    {rights : BitVec 32} {badge : Nat}
    (hr : s.copyCap src dst rights badge = some r) : r.1.Referenced elsewhere := by
  cases copyCap_cases hr with
  | refused => exact h
  | onto _ _ hs' =>
    have hfilled := (h.deleted dst).filled hroom (s.object_deleted_self dst)
      { s.copyOf src rights badge with type := .null, object := none } fun _ => rfl
    exact (hfilled.occupy dst).withdraws hs'
  | copied _ hne hs' =>
    have hsrc : (s.copyOf src rights badge).type = .null →
        (s.copyOf src rights badge).object = none := h.null src
    have hfilled := (h.deleted dst).filled hroom (s.object_deleted_self dst) _ hsrc
    exact (hfilled.occupy dst).withdraws hs'

theorem CapState.copyCap_occupied (h : s.Occupied) {src dst : Place N} {rights : BitVec 32}
    {badge : Nat} (hsep : src = dst → ¬ s.mayCopy src rights)
    (hr : s.copyCap src dst rights badge = some r) : r.1.Occupied := by
  cases copyCap_cases hr with
  | refused => exact h
  | onto hmay heq _ => exact absurd hmay (hsep heq)
  | copied hmay hne hs' =>
    have htype : (s.copyOf src rights badge).type ≠ .null := by
      intro hnull
      have hnull : (s.cspace src).type = .null := hnull
      simp [mayCopy, hnull] at hmay
    exact ((h.deleted dst).filled htype dst).withdraws hs'

/-- **The rule for the operations.** What they are made of: bits are brought in line, capabilities
are lost, copied and inserted, and devices opened. -/
theorem CapOp.exec_invariant {P : CapState N → Prop} (h : op.exec s = some s')
    (hs : P s) (hsync : ∀ s p, P s → P (syncBit s p))
    (hdelete : ∀ s s' p, P s → capDeleteAt s p = some s' → P s')
    (hdrop : ∀ s s' p o, (cspace s p).object = some o → dropCap s p o = some s' → P s → P s')
    (hcopy : ∀ src dst rights badge r, (op.Separate s → src = dst → ¬ s.mayCopy src rights) →
      s.copyCap src dst rights badge = some r → P r.1)
    (hinsert : ∀ p cap r, (op.Separate s → cap = .slot p → (s.cspace p).type = .null) →
      InsertCap s p cap r → P r.1)
    (hopen : ∀ dst dev rights s', ¬ op.Separate s →
      Withdraws s ((s.deleted dst).filled dst (deviceCap dev rights)) s' → P s') : P s' := by
  cases op with
  | insert task slot cap =>
    obtain ⟨r, hr, rfl⟩ := map_eq_some_iff.mp h
    rcases capInsert_cases hr with rfl | ⟨p, hp, hcases⟩
    · exact hs
    · exact hinsert p cap r (fun hsep => hsep p hp) hcases
  | lookup task slot =>
    rw [← some.inj h]
    rcases s.capLookup_cases task slot with heq | ⟨p, -, heq, -⟩
    · rw [heq]
      exact hs
    · rw [heq]
      exact hsync s p hs
  | delete =>
    obtain ⟨r, hr, rfl⟩ := map_eq_some_iff.mp h
    rcases capDelete_cases hr with heq | ⟨p, -, hdel⟩
    · rw [heq]
      exact hs
    · exact hdelete s r.1 p hs hdel
  | derive task src dst rights =>
    obtain ⟨r, hr, rfl⟩ := map_eq_some_iff.mp h
    rcases capDerive_cases hr with rfl | ⟨_, -, hr⟩
    · exact hs
    rcases capGrant_cases hr with rfl | ⟨p, q, hp, hq, hr⟩
    · exact hs
    · exact hcopy p q rights _ r (fun hsep heq => hsep p hp (heq ▸ hq)) hr
  | mint task src dst rights =>
    obtain ⟨r, hr, rfl⟩ := map_eq_some_iff.mp h
    rcases capGrant_cases (s.capMint_eq .. ▸ hr) with rfl | ⟨p, q, hp, hq, hr⟩
    · exact hs
    · exact hcopy p q rights _ r (fun hsep heq => hsep p hp (heq ▸ hq)) hr
  | grant t u src dst rights =>
    obtain ⟨r, hr, rfl⟩ := map_eq_some_iff.mp h
    rcases capGrant_cases hr with rfl | ⟨p, q, hp, hq, hr⟩
    · exact hs
    · exact hcopy p q rights _ r (fun hsep heq => hsep p hp (heq ▸ hq)) hr
  | revoke =>
    obtain ⟨r, hr, rfl⟩ := map_eq_some_iff.mp h
    exact capRevoke_invariant hsync hdrop hr hs
  | openDevice task name dst rights res =>
    obtain ⟨r, hr, rfl⟩ := map_eq_some_iff.mp h
    rcases openDevice_cases hr with heq | ⟨p, dev, -, hdev, hres, hs'⟩
    · rw [heq]
      exact hs
    · refine hopen p dev rights r.1 (fun hsep => ?_) hs'
      rcases hsep with hnone | hne
      · rw [hdev] at hnone
        cases hnone
      · exact hne hres
  | deviceClose =>
    obtain ⟨r, hr, rfl⟩ := map_eq_some_iff.mp h
    rcases deviceClose_cases hr with heq | ⟨p, -, heq | hdel⟩
    · rw [heq]
      exact hs
    · rw [heq]
      exact hsync s p hs
    · exact hdelete _ r.1 p (hsync s p hs) hdel

theorem CapState.Referenced.exec (h : s.Referenced elsewhere)
    (hroom : ∀ o, elsewhere o + N * maxCspaceSlots < 2 ^ 32)
    (hexec : op.exec s = some s') : s'.Referenced elsewhere := by
  have hdelete : ∀ (s s' : CapState N) (p : Place N), s.Referenced elsewhere →
      s.capDeleteAt p = some s' → s'.Referenced elsewhere := fun s s' p h hs' =>
    (h.deleted p).withdraws (capDeleteAt_withdraws hs')
  apply CapOp.exec_invariant hexec h
  · exact fun s p h => h.syncBit p
  · exact hdelete
  · exact fun s s' p o ho hs' h => hdelete s s' p h (h.dropCap ho hs')
  · exact fun src dst rights badge r _ hr => copyCap_referenced h hroom hr
  · intro p cap r _ hr
    cases hr with
    | refused => exact h
    | onto _ _ hs' => exact ((h.deleted p).occupy p).withdraws hs'
    | inserted hne _ hs' =>
      have hfilled := (h.deleted p).filled hroom (s.object_deleted_self p)
        (s.readRef cap) fun hnull => absurd hnull hne
      exact (hfilled.occupy p).withdraws hs'
  · intro dst dev rights s' _ hs'
    have hfilled := (h.deleted dst).filled hroom (s.object_deleted_self dst)
      (deviceCap dev rights) fun hnull => nomatch hnull
    exact hfilled.withdraws hs'

/-- Bitmaps survive the operations that open no device and copy no slot onto itself. -/
theorem CapState.Occupied.exec (h : s.Occupied) (hsep : op.Separate s)
    (hexec : op.exec s = some s') : s'.Occupied := by
  apply CapOp.exec_invariant hexec h
  · exact fun s p h => h.syncBit p
  · exact fun s s' p h hs' => (h.deleted p).withdraws (capDeleteAt_withdraws hs')
  · intro s s' p o _ hs' h
    have hdropped : ((s.setRefCount o (s.refCount o - 1)).setSlot p
        (s.cspace p).cleared |>.vacate p).Occupied := (h.deleted p).congr rfl rfl
    exact hdropped.withdraws (dropCap_withdraws hs')
  · exact fun src dst rights badge r hne hr => copyCap_occupied h (hne hsep) hr
  · intro p cap r hne hr
    cases hr with
    | refused => exact h
    | onto htype heq _ =>
      rw [heq] at htype
      exact absurd (hne hsep heq) htype
    | inserted htype _ hs' => exact ((h.deleted p).filled htype p).withdraws hs'
  · exact fun dst dev rights s' hopens _ => absurd hsep hopens

/-- **Reference counts are right in every run, and bitmaps in every run that opens no device and
copies no capability onto its own slot.** -/
theorem capabilities_accounted (href : s.Referenced elsewhere) (hocc : s.Occupied)
    (hroom : ∀ o, elsewhere o + N * maxCspaceSlots < 2 ^ 32) :
    (∀ s', ReflTransGen (CapStep fun _ _ => True) s s' →
      ∀ o, s'.refCount o = elsewhere o + s'.slotsTo o) ∧
    ∀ s', ReflTransGen (CapStep CapOp.Separate) s s' →
      (∀ t (i : Fin maxCspaceSlots), (s'.occupiedMask t).getLsbD i = true ↔
        (s'.cspace (t, i)).type ≠ .null) ∧
      (∀ t i, s'.capAllocSlot (some t) = some i → (s'.cspace (t, i)).type = .null) ∧
      ∀ o, s'.refCount o = elsewhere o + s'.slotsTo o := by
  have hcounts : ∀ s', ReflTransGen (CapStep fun _ _ => True) s s' → s'.Referenced elsewhere := by
    intro s' hrun
    induction hrun with
    | refl => exact href
    | tail _ hstep ih =>
      cases hstep with
      | op op _ h => exact ih.exec hroom h
      | kernel k => exact ih.congr rfl rfl
  refine ⟨fun s' hrun => (hcounts s' hrun).counts, fun s' hrun => ?_⟩
  have hocc' : s'.Occupied := by
    induction hrun with
    | refl => exact hocc
    | tail _ hstep ih =>
      cases hstep with
      | op op hsep h => exact ih.exec hsep h
      | kernel k => exact ih.congr rfl rfl
  have hany : ReflTransGen (CapStep fun _ _ => True) s s' := by
    refine ReflTransGen.mono (fun a b hstep => ?_) _ _ hrun
    cases hstep with
    | op op _ h => exact .op op trivial h
    | kernel k => exact .kernel k
  exact ⟨fun t i => hocc' (t, i), fun t i => hocc'.null_of_capAllocSlot, (hcounts s' hany).counts⟩

end Runs

/-! ## Runs by example -/

/-- Two tasks without capabilities, and one device that may be read and written. -/
def noCaps : CapState 2 where
  kernel := twoTasks
  cspace _ := ⟨.null, ⟨false, false, false⟩, 0, none⟩
  occupiedMask _ := 0#_
  refCount _ := 1
  registry := [⟨[116, 116, 121], some 0, 3#32, true⟩]

theorem noCaps_occupied : noCaps.Occupied := fun p => by simp [noCaps, bit]

theorem noCaps_referenced : noCaps.Referenced fun _ => 1 where
  null _ _ := rfl
  counts o := by simp [noCaps, RefCount.holders, object]

/-- An endpoint capability with all rights. -/
def endpointCap (badge : Nat) : Capability N :=
  ⟨.endpoint, ⟨true, true, true⟩, badge, some (.endpoint 0)⟩

/-- The first task gets a capability, derives a weaker one from it, grants that to the second task
and gives up its own. -/
def handOver : List (CapOp 2) :=
  [.insert (some 0) 0 (.value (endpointCap 5)), .derive (some 0) 0 1 2#32,
    .grant (some 0) (some 1) 1 0 2#32 7, .delete (some 0) 0]

instance (s : CapState N) : DecidablePred (CapOp.Separate s) := by
  intro op
  cases op <;> dsimp only [CapOp.Separate] <;> infer_instance

theorem capabilities_accounted_handOver : ∃ s,
    CapOp.execAll handOver noCaps = some s ∧
      (s.cspace (1, 0)).badge = 7 ∧ s.capAllocSlot (some 0) = some 0 ∧
      s.refCount (.endpoint 0) = 3 ∧ s.slotsTo (.endpoint 0) = 2 := by
  obtain ⟨s, hs, hfacts⟩ : ∃ s ∈ CapOp.execAll handOver noCaps, (s.cspace (1, 0)).badge = 7 ∧
      s.capAllocSlot (some 0) = some 0 ∧ s.refCount (.endpoint 0) = 3 := by decide +kernel
  have hrun : ReflTransGen (CapStep CapOp.Separate) noCaps s :=
    Run.reflTransGen_of_actions (fun _ _ op hop hexec => .op op hop hexec)
      (by decide +kernel) hs
  obtain ⟨-, -, hcounts⟩ := (capabilities_accounted noCaps_referenced noCaps_occupied
    (fun _ => by decide)).2 s hrun
  have hcount := hcounts (.endpoint 0)
  exact ⟨s, hs, hfacts.1, hfacts.2.1, hfacts.2.2, by omega⟩

/-- `open_device` leaves the bit of the slot clear, and the slot is offered as free. A capability
derived onto its own slot is gone, and the slot is taken for occupied. -/
theorem occupiedMask_ne_slots :
    (∃ s, (CapOp.openDevice (some 0) (some [116, 116, 121]) 0 1#32 0).exec noCaps = some s ∧
      (s.cspace (0, 0)).type = .device ∧ s.bit (0, 0) = false ∧
      s.capAllocSlot (some 0) = some 0) ∧
    ∃ s, CapOp.execAll [.insert (some 0) 0 (.value (endpointCap 5)), .derive (some 0) 0 0 1#32]
        noCaps = some s ∧
      (s.cspace (0, 0)).type = .null ∧ s.bit (0, 0) = true := by
  constructor
  · decide +kernel
  · decide +kernel

end AuroraOS
