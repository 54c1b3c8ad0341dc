import AuroraOS.Firewall
import AuroraOS.Lib.Bitmap
import AuroraOS.Lib.Run

/-!
# Automatic blocks

`AutoBlockManager` of `security/response/auto_block.hpp`. A block is an entry with a time, and a
rule in the table of the firewall. The number of blocks and the text of the last action are left
out.

`blocked_until`: if there is room for the rule and no other of its kind, and if the time neither
wraps nor happens to be the mark for permanent blocks, then nothing in good form gets through until
the block ends, rules that come earlier apart, and afterwards the rule is gone.
-/

namespace AuroraOS

open Function List RuleTable

/-! ## The manager -/

structure BlockEntry where
  active : Bool := false
  ip : Nat := 0
  expireTick : Nat := 0

structure AutoBlockManager where
  entries : Fin 16 → BlockEntry := fun _ => {}

/-- The entry blocks the host. -/
def BlockEntry.IsFor (ip : Nat) (e : BlockEntry) : Prop := e.active ∧ e.ip = ip
  deriving Decidable

namespace FwRule

/-- What `find_block_rule_` asks of a rule in force. The flags of TCP are not among it. -/
def Blocks (ip : Nat) (r : FwRule) : Prop :=
  r.matchSrcIp ∧ r.srcIp = ip ∧ r.action = .drop ∧ !r.matchDstIp ∧ !r.matchProtocol ∧
    !r.matchSrcPort ∧ !r.matchDstPort ∧ !r.matchInterface
  deriving Decidable

/-- The rule that `block_ip` adds. -/
def block (ip : Nat) : FwRule := { matchSrcIp := true, srcIp := ip, action := .drop }

end FwRule

namespace AutoBlockManager

def kPermanent : Nat := 0xFFFFFFFF

def setEntry (m : AutoBlockManager) (i : Fin 16) (e : BlockEntry) : AutoBlockManager :=
  ⟨Function.update m.entries i e⟩

/-- The rule is in force and blocks the host. -/
def Barrier (ip : Nat) (r : FwRule) : Prop := r.enabled ∧ r.Blocks ip
  deriving Decidable

def findBlockRule (t : RuleTable) (ip : Nat) : Option (Fin 16) :=
  (List.finRange 16).find? fun i => Barrier ip (t.rules i)

def findEntry (m : AutoBlockManager) (ip : Nat) : Option (Fin 16) :=
  (List.finRange 16).find? fun i => (m.entries i).IsFor ip

def expireTick (now duration : Nat) : Nat :=
  if duration = 0 then kPermanent else (now + duration) % 2 ^ 32

/-- `block_ip`. That `add_rule` fails is not noticed. -/
def blockIp (m : AutoBlockManager) (t : RuleTable) (now ip duration : Nat) :
    Bool × AutoBlockManager × RuleTable :=
  match m.findEntry ip with
  | some i => (true, m.setEntry i { m.entries i with expireTick := expireTick now duration }, t)
  | none =>
    match (List.finRange 16).find? fun i => !(m.entries i).active with
    | some i => (true, m.setEntry i ⟨true, ip, expireTick now duration⟩, (t.addRule (.block ip)).2)
    | none => (false, m, t)

def unblockIp (m : AutoBlockManager) (t : RuleTable) (ip : Nat) :
    Bool × AutoBlockManager × RuleTable :=
  match m.findEntry ip with
  | some i =>
    (true, m.setEntry i { m.entries i with active := false },
      match findBlockRule t ip with
      | some r => (t.deleteRule r).2
      | none => t)
  | none => (false, m, t)

/-- One round of `tick`. -/
def expire (now : Nat) (s : AutoBlockManager × RuleTable) (i : Fin 16) :
    AutoBlockManager × RuleTable :=
  if (s.1.entries i).active ∧ (s.1.entries i).expireTick ≠ kPermanent ∧
      now ≥ (s.1.entries i).expireTick then (s.1.unblockIp s.2 (s.1.entries i).ip).2
  else s

def tick (m : AutoBlockManager) (t : RuleTable) (now : Nat) : AutoBlockManager × RuleTable :=
  (List.finRange 16).foldl (expire now) (m, t)

/-- One round of `reset`. -/
def clear (s : AutoBlockManager × RuleTable) (i : Fin 16) : AutoBlockManager × RuleTable :=
  if (s.1.entries i).active then
    (s.1.setEntry i { s.1.entries i with active := false },
      match findBlockRule s.2 (s.1.entries i).ip with
      | some r => (s.2.deleteRule r).2
      | none => s.2)
  else s

def reset (m : AutoBlockManager) (t : RuleTable) : AutoBlockManager × RuleTable :=
  (List.finRange 16).foldl clear (m, t)

end AutoBlockManager

/-! ## What a host sees -/

namespace AutoBlockManager

variable {ip ip' now d : Nat} {m m' : AutoBlockManager} {t : RuleTable} {i r : Fin 16}
  {rule : FwRule}

/-- Neither the entries nor the rules of the host are touched. -/
structure Keeps (ip : Nat) (s s' : AutoBlockManager × RuleTable) : Prop where
  entry : ∀ i, (s.1.entries i).IsFor ip ∨ (s'.1.entries i).IsFor ip → s'.1.entries i = s.1.entries i
  rule : ∀ i, Barrier ip (s.2.rules i) ∨ Barrier ip (s'.2.rules i) → s'.2.rules i = s.2.rules i

namespace Keeps

variable {s s' s'' : AutoBlockManager × RuleTable}

theorem refl (ip : Nat) (s : AutoBlockManager × RuleTable) : Keeps ip s s :=
  ⟨fun _ _ => rfl, fun _ _ => rfl⟩

theorem trans (h : Keeps ip s s') (h' : Keeps ip s' s'') : Keeps ip s s'' where
  entry i hi := by
    rcases hi with hi | hi
    · have heq := h.entry i (.inl hi)
      exact (h'.entry i (.inl (heq ▸ hi))).trans heq
    · have heq := h'.entry i (.inr hi)
      exact heq.trans (h.entry i (.inr (heq ▸ hi)))
  rule i hi := by
    rcases hi with hi | hi
    · have heq := h.rule i (.inl hi)
      exact (h'.rule i (.inl (heq ▸ hi))).trans heq
    · have heq := h'.rule i (.inr hi)
      exact heq.trans (h.rule i (.inr (heq ▸ hi)))

theorem setEntry {e : BlockEntry} (hold : ¬(m.entries i).IsFor ip) (hnew : ¬e.IsFor ip) :
    Keeps ip (m, t) (m.setEntry i e, t) := by
  refine ⟨fun j hj => ?_, fun _ _ => rfl⟩
  dsimp only [AutoBlockManager.setEntry] at hj ⊢
  by_cases hji : j = i
  · rw [hji, update_self] at hj
    exact absurd hj (not_or.2 ⟨hold, hnew⟩)
  · exact update_of_ne hji ..

theorem setRule (hold : ¬Barrier ip (t.rules i)) (hnew : ¬Barrier ip rule) :
    Keeps ip (m, t) (m, ⟨update t.rules i rule⟩) := by
  refine ⟨fun _ _ => rfl, fun j hj => ?_⟩
  dsimp only at hj ⊢
  by_cases hji : j = i
  · rw [hji, update_self] at hj
    exact absurd hj (not_or.2 ⟨hold, hnew⟩)
  · exact update_of_ne hji ..

end Keeps

theorem addRule_cases (t : RuleTable) (rule : FwRule) :
    (∃ i, (t.rules i).enabled = false ∧
      t.addRule rule = (true, ⟨update t.rules i { rule with enabled := true }⟩)) ∨
    t.addRule rule = (false, t) := by
  unfold addRule
  cases hfind : (finRange 16).find? fun i => !(t.rules i).enabled with
  | some i => exact .inl ⟨i, by simpa using find?_some hfind, rfl⟩
  | none => exact .inr rfl

theorem addRule_keeps (m : AutoBlockManager) (t : RuleTable) (h : ¬rule.Blocks ip) :
    Keeps ip (m, t) (m, (t.addRule rule).2) := by
  rcases addRule_cases t rule with ⟨i, hi, heq⟩ | heq
  · rw [heq]
    exact .setRule (fun hb => absurd hb.1 (by simp [hi])) fun hb => h hb.2
  · rw [heq]
    exact .refl ip _

/-- A rule is switched on or off that is not one for the host. -/
theorem enableRule_keeps (m : AutoBlockManager) (t : RuleTable) {index : Int} {enable : Bool}
    (h : ∀ i : Fin 16, (i : Int) = index → ¬(t.rules i).Blocks ip) :
    Keeps ip (m, t) (m, (t.enableRule index enable).2) := by
  unfold enableRule
  split_ifs
  · have hnot := h ⟨index.toNat, by omega⟩ (by dsimp only; omega)
    exact .setRule (fun hb => hnot hb.2) fun hb => hnot hb.2
  · exact .refl ip _

theorem deleteRule_eq (t : RuleTable) (r : Fin 16) :
    (t.deleteRule r).2 = ⟨update t.rules r { t.rules r with enabled := false }⟩ := by
  unfold deleteRule enableRule
  simp

theorem findBlockRule_some (h : findBlockRule t ip = some r) : Barrier ip (t.rules r) := by
  simpa using find?_some h

theorem Barrier.ne (h : Barrier ip rule) (h' : rule.Blocks ip') : ip = ip' :=
  h.2.2.1.symm.trans h'.2.1

theorem findEntry_some (h : m.findEntry ip = some i) : (m.entries i).IsFor ip := by
  simpa using find?_some h

theorem findEntry_none (h : m.findEntry ip = none) (i : Fin 16) : ¬(m.entries i).IsFor ip := by
  simpa using find?_eq_none.1 h i (mem_finRange i)

theorem deleteBlock_keeps (m : AutoBlockManager) (t : RuleTable) (hne : ip' ≠ ip) :
    Keeps ip (m, t) (m, match findBlockRule t ip' with
      | some r => (t.deleteRule r).2
      | none => t) := by
  cases hfind : findBlockRule t ip' with
  | none => exact .refl ip _
  | some r =>
    dsimp only
    rw [deleteRule_eq]
    exact .setRule (fun hb => hne (hb.ne (findBlockRule_some hfind).2).symm) fun hb => by cases hb.1

theorem unblockIp_keeps (m : AutoBlockManager) (t : RuleTable) (hne : ip' ≠ ip) :
    Keeps ip (m, t) (m.unblockIp t ip').2 := by
  unfold unblockIp
  cases hfind : m.findEntry ip' with
  | none => exact .refl ip _
  | some i =>
    have hi := findEntry_some hfind
    refine Keeps.trans (deleteBlock_keeps m t hne) (.setEntry (fun h => hne ?_) fun h => ?_)
    · exact hi.2.symm.trans h.2
    · cases h.1

theorem blockIp_keeps (m : AutoBlockManager) (t : RuleTable) (now duration : Nat) (hne : ip' ≠ ip) :
    Keeps ip (m, t) (m.blockIp t now ip' duration).2 := by
  unfold blockIp
  cases hfind : m.findEntry ip' with
  | some i =>
    have hi := findEntry_some hfind
    exact .setEntry (fun h => hne (hi.2.symm.trans h.2)) fun h => hne (hi.2.symm.trans h.2)
  | none =>
    cases hfree : (finRange 16).find? fun i => !(m.entries i).active with
    | none => exact .refl ip _
    | some i =>
      have hi : (m.entries i).active = false := by simpa using find?_some hfree
      refine Keeps.trans (addRule_keeps m t fun h => hne h.2.1)
        (.setEntry (fun h => ?_) fun h => ?_)
      · exact absurd h.1 (by simp [hi])
      · exact hne h.2

/-! ## Blocked, and free again -/

/-- The host has one entry, with this time, and one rule. -/
structure Held (ip expire : Nat) (e r : Fin 16) (s : AutoBlockManager × RuleTable) : Prop where
  entry : (s.1.entries e).IsFor ip
  time : (s.1.entries e).expireTick = expire
  entries : ∀ i, (s.1.entries i).IsFor ip → i = e
  rule : Barrier ip (s.2.rules r)
  plain : (s.2.rules r).matchTcpFlags = false
  rules : ∀ i, Barrier ip (s.2.rules i) → i = r

/-- The host has neither. -/
structure Free (ip : Nat) (s : AutoBlockManager × RuleTable) : Prop where
  entries : ∀ i, ¬(s.1.entries i).IsFor ip
  rules : ∀ i, ¬Barrier ip (s.2.rules i)

variable {s s' : AutoBlockManager × RuleTable} {time : Nat} {e : Fin 16}

theorem Held.keeps (h : Held ip time e r s) (hk : Keeps ip s s') : Held ip time e r s' := by
  have hentry := hk.entry e (.inl h.entry)
  have hrule := hk.rule r (.inl h.rule)
  refine ⟨hentry ▸ h.entry, hentry ▸ h.time, fun i hi => ?_, hrule ▸ h.rule, hrule ▸ h.plain,
    fun i hi => ?_⟩
  · exact h.entries i (hk.entry i (.inr hi) ▸ hi)
  · exact h.rules i (hk.rule i (.inr hi) ▸ hi)

theorem Free.keeps (h : Free ip s) (hk : Keeps ip s s') : Free ip s' :=
  ⟨fun i hi => h.entries i (hk.entry i (.inr hi) ▸ hi),
    fun i hi => h.rules i (hk.rule i (.inr hi) ▸ hi)⟩

theorem Held.unblockIp (h : Held ip time e r (m, t)) : Free ip (m.unblockIp t ip).2 := by
  have hentry : m.findEntry ip = some e := by
    cases hfind : m.findEntry ip with
    | none => exact absurd h.entry (findEntry_none hfind e)
    | some i => rw [h.entries i (findEntry_some hfind)]
  have hrule : findBlockRule t ip = some r := by
    cases hfind : findBlockRule t ip with
    | none =>
      have := find?_eq_none.1 hfind r (mem_finRange r)
      exact absurd h.rule (by simpa using this)
    | some i => rw [h.rules i (findBlockRule_some hfind)]
  unfold AutoBlockManager.unblockIp
  rw [hentry]
  rw [hrule]
  dsimp only
  rw [deleteRule_eq]
  refine ⟨fun i hi => ?_, fun i hi => ?_⟩ <;> dsimp only [setEntry] at hi
  · by_cases hie : i = e
    · rw [hie, update_self] at hi
      cases hi.1
    · rw [update_of_ne hie] at hi
      exact hie (h.entries i hi)
  · by_cases hir : i = r
    · rw [hir, update_self] at hi
      cases hi.1
    · rw [update_of_ne hir] at hi
      exact hir (h.rules i hi)

theorem expire_keeps (hi : ¬(s.1.entries i).IsFor ip) : Keeps ip s (expire now s i) := by
  unfold expire
  split_ifs with hdue
  · exact unblockIp_keeps s.1 s.2 fun heq => hi ⟨hdue.1, heq⟩
  · exact .refl ip s

theorem Free.expires (h : Free ip s) (l : List (Fin 16)) : Free ip (l.foldl (expire now) s) :=
  Run.foldl_invariant (fun _ i _ h => h.keeps (expire_keeps (h.entries i))) h

/-- Before its time a block stays. -/
theorem Held.tick (h : Held ip time e r (m, t)) (hnow : time = kPermanent ∨ now < time) :
    Held ip time e r (m.tick t now) := by
  refine Run.foldl_invariant (fun s i _ h => ?_) h
  by_cases hi : (s.1.entries i).IsFor ip
  · have htime := h.time
    rw [← h.entries i hi] at htime
    have hstay : expire now s i = s := if_neg (by rw [htime]; omega)
    rw [hstay]
    exact h
  · exact h.keeps (expire_keeps hi)

/-- When its time has come it is taken away. -/
theorem Held.expires (h : Held ip time e r s) (htime : time ≠ kPermanent) (hnow : time ≤ now)
    {l : List (Fin 16)} (hl : e ∈ l) : Free ip (l.foldl (expire now) s) := by
  induction l generalizing s with
  | nil => cases hl
  | cons i l ih =>
    by_cases hi : i = e
    · have hdue : expire now s i = (s.1.unblockIp s.2 ip).2 := by
        have htime' := h.time
        unfold expire
        rw [hi, if_pos ⟨h.entry.1, by rwa [htime'], by rwa [htime']⟩, h.entry.2]
      rw [foldl_cons, hdue]
      exact Free.expires h.unblockIp l
    · have hkeeps : Keeps ip s (expire now s i) := expire_keeps fun hfor => hi (h.entries i hfor)
      refine ih (h.keeps hkeeps) ?_
      rcases mem_cons.1 hl with heq | hmem
      · exact absurd heq.symm hi
      · exact hmem

/-! ## One entry for each host -/

/-- No entry for the host is added. -/
def Shrinks (ip : Nat) (m m' : AutoBlockManager) : Prop :=
  ∀ i, (m'.entries i).IsFor ip → (m.entries i).IsFor ip

/-- The host has one entry at most. -/
def Single (ip : Nat) (m : AutoBlockManager) : Prop :=
  ∀ i j, (m.entries i).IsFor ip → (m.entries j).IsFor ip → i = j

theorem Single.shrinks (h : Single ip m) (hm : Shrinks ip m m') : Single ip m' :=
  fun i j hi hj => h i j (hm i hi) (hm j hj)

theorem deactivate_shrinks (m : AutoBlockManager) (i : Fin 16) :
    Shrinks ip m (m.setEntry i { m.entries i with active := false }) := by
  intro j hj
  dsimp only [setEntry] at hj
  by_cases hji : j = i
  · rw [hji, update_self] at hj
    cases hj.1
  · rwa [update_of_ne hji] at hj

theorem unblockIp_shrinks (m : AutoBlockManager) (t : RuleTable) (ip' : Nat) :
    Shrinks ip m (m.unblockIp t ip').2.1 := by
  unfold unblockIp
  cases m.findEntry ip' with
  | some i => exact deactivate_shrinks m i
  | none => exact fun _ => id

theorem Single.tick (h : Single ip m) (t : RuleTable) (now : Nat) : Single ip (m.tick t now).1 := by
  refine Run.foldl_invariant (P := fun s : AutoBlockManager × RuleTable => Single ip s.1)
    (fun s i _ h => ?_) h
  unfold expire
  split_ifs
  · exact h.shrinks (unblockIp_shrinks s.1 s.2 _)
  · exact h

theorem Single.reset (h : Single ip m) (t : RuleTable) : Single ip (m.reset t).1 := by
  refine Run.foldl_invariant (P := fun s : AutoBlockManager × RuleTable => Single ip s.1)
    (fun s i _ h => ?_) h
  unfold clear
  split_ifs
  · exact h.shrinks (deactivate_shrinks s.1 i)
  · exact h

theorem blockIp_entry (h : Single ip m) (hblock : (m.blockIp t now ip d).1 = true) :
    ∃ e, (((m.blockIp t now ip d).2.1).entries e).IsFor ip ∧
      (((m.blockIp t now ip d).2.1).entries e).expireTick = expireTick now d ∧
      ∀ i, (((m.blockIp t now ip d).2.1).entries i).IsFor ip → i = e := by
  unfold blockIp at hblock ⊢
  cases hfind : m.findEntry ip with
  | some e =>
    have he := findEntry_some hfind
    refine ⟨e, ?_, ?_, fun i hi => ?_⟩ <;> dsimp only [setEntry] at *
    · rw [update_self]
      exact he
    · rw [update_self]
    · by_contra hie
      rw [update_of_ne hie] at hi
      exact hie (h i e hi he)
  | none =>
    rw [hfind] at hblock
    cases hfree : (finRange 16).find? fun i => !(m.entries i).active with
    | none =>
      rw [hfree] at hblock
      cases hblock
    | some e =>
      refine ⟨e, ?_, ?_, fun i hi => ?_⟩ <;> dsimp only [setEntry] at *
      · rw [update_self]
        exact ⟨rfl, rfl⟩
      · rw [update_self]
      · by_contra hie
        rw [update_of_ne hie] at hi
        exact findEntry_none hfind i hi

/-- There is room for a block. A host without an entry has no rule, and `r` is the slot that
`add_rule` takes; the rule of a host with an entry is `r`, the only one of its kind. -/
def Room (ip : Nat) (r : Fin 16) (m : AutoBlockManager) (t : RuleTable) : Prop :=
  if ∃ i, (m.entries i).IsFor ip then
    Barrier ip (t.rules r) ∧ (t.rules r).matchTcpFlags = false ∧ ∀ i, Barrier ip (t.rules i) → i = r
  else
    (finRange 16).find? (fun i => !(t.rules i).enabled) = some r ∧ ∀ i, ¬Barrier ip (t.rules i)
  deriving Decidable

/-- A block that is reported holds, if there is room for it. -/
theorem blockIp_held (h : Single ip m) (hroom : Room ip r m t)
    (hblock : (m.blockIp t now ip d).1 = true) :
    ∃ e, Held ip (expireTick now d) e r (m.blockIp t now ip d).2 := by
  obtain ⟨e, hentry, htime, hentries⟩ := blockIp_entry h hblock
  suffices hrules : Barrier ip ((m.blockIp t now ip d).2.2.rules r) ∧
      ((m.blockIp t now ip d).2.2.rules r).matchTcpFlags = false ∧
      ∀ i, Barrier ip ((m.blockIp t now ip d).2.2.rules i) → i = r from
    ⟨e, hentry, htime, hentries, hrules.1, hrules.2.1, hrules.2.2⟩
  unfold Room at hroom
  unfold blockIp at hblock ⊢
  cases hfind : m.findEntry ip with
  | some i => rwa [if_pos ⟨i, findEntry_some hfind⟩] at hroom
  | none =>
    rw [if_neg fun ⟨i, hi⟩ => findEntry_none hfind i hi] at hroom
    rw [hfind] at hblock
    cases hfree : (finRange 16).find? fun i => !(m.entries i).active with
    | none =>
      rw [hfree] at hblock
      cases hblock
    | some i =>
      dsimp only [addRule]
      rw [hroom.1]
      dsimp only
      rw [update_self]
      refine ⟨by simp [Barrier, FwRule.Blocks, FwRule.block], rfl, fun j hj => ?_⟩
      by_contra hjr
      rw [update_of_ne hjr] at hj
      exact hroom.2 j hj

theorem Single.blockIp (h : Single ip m) (t : RuleTable) (now ip' d : Nat) :
    Single ip (m.blockIp t now ip' d).2.1 := by
  by_cases hip : ip' = ip
  · rw [hip]
    cases hblock : (m.blockIp t now ip d).1 with
    | true =>
      obtain ⟨e, -, -, honly⟩ := blockIp_entry h hblock
      exact fun i j hi hj => (honly i hi).trans (honly j hj).symm
    | false =>
      have hsame : (m.blockIp t now ip d).2.1 = m := by
        unfold AutoBlockManager.blockIp at hblock ⊢
        split at hblock
        · cases hblock
        · split at hblock
          · cases hblock
          · rfl
      rw [hsame]
      exact h
  · exact h.shrinks fun i hi => (blockIp_keeps m t now d hip).entry i (.inr hi) ▸ hi

end AutoBlockManager

/-! ## Runs -/

open AutoBlockManager

/-- The firewall, the blocks, and `tick_count`. -/
structure Guarded where
  engine : FirewallEngine := {}
  blocks : AutoBlockManager := {}
  now : Nat := 0

namespace Guarded

/-- What may happen. Deleting a rule is switching it off. -/
inductive Event
  | frame (stealth : StealthIdentity) (f : Frame) (interface : List Char)
  | tick
  | block (ip duration : Nat)
  | unblock (ip : Nat)
  | reset
  | addRule (rule : FwRule)
  | enableRule (index : Int) (enable : Bool)
  | enable (enable : Bool)

/-- The blocks and the rules. -/
def tables (s : Guarded) : AutoBlockManager × RuleTable := (s.blocks, s.engine.ruleTable)

def setTables (s : Guarded) (p : AutoBlockManager × RuleTable) : Guarded :=
  { s with blocks := p.1, engine := { s.engine with ruleTable := p.2 } }

def step (s : Guarded) : Event → Guarded
  | .frame stealth f interface =>
    { s with engine := (s.engine.processPacket stealth s.now f interface).2 }
  | .tick =>
    let s := { s with now := (s.now + 1) % 2 ^ 32 }
    let s := { s with engine := s.engine.tick s.now }
    s.setTables (s.blocks.tick s.engine.ruleTable s.now)
  | .block ip duration => s.setTables (s.blocks.blockIp s.engine.ruleTable s.now ip duration).2
  | .unblock ip => s.setTables (s.blocks.unblockIp s.engine.ruleTable ip).2
  | .reset => s.setTables (s.blocks.reset s.engine.ruleTable)
  | .addRule rule => s.setTables (s.blocks, (s.engine.ruleTable.addRule rule).2)
  | .enableRule index enable =>
    s.setTables (s.blocks, (s.engine.ruleTable.enableRule index enable).2)
  | .enable enable => { s with engine := { s.engine with enabled := enable } }

/-- A run from the start, at any tick. -/
def run (start : Nat) (events : List Event) : Guarded :=
  events.foldl step { now := start % 2 ^ 32 }

def Event.ticks : Event → Nat
  | .tick => 1
  | _ => 0

/-- The event leaves the block of the host alone. -/
def Leaves (ip : Nat) (s : Guarded) : Event → Prop
  | .frame .. => True
  | .tick => True
  | .block ip' _ => ip' ≠ ip
  | .unblock ip' => ip' ≠ ip
  | .reset => False
  | .addRule rule => ¬rule.Blocks ip
  | .enableRule index _ => ∀ i : Fin 16, (i : Int) = index → ¬(s.engine.ruleTable.rules i).Blocks ip
  | .enable _ => True

/-- `s'` comes `n` ticks after `s`, the block of the host having been left alone. -/
inductive Later (ip : Nat) (s : Guarded) : Nat → Guarded → Prop
  | refl : Later ip s 0 s
  | step {n : Nat} {s' : Guarded} (h : Later ip s n s') (e : Event) (he : Leaves ip s' e) :
      Later ip s (n + e.ticks) (s'.step e)

variable {ip d start : Nat} {s s' : Guarded} {time : Nat} {e r : Fin 16}

theorem ruleTable_processPacket (engine : FirewallEngine) (stealth : StealthIdentity) (now : Nat)
    (f : Frame) (interface : List Char) :
    (engine.processPacket stealth now f interface).2.ruleTable = engine.ruleTable := by
  unfold FirewallEngine.processPacket
  dsimp only
  split_ifs <;> rfl

theorem ruleTable_tick (engine : FirewallEngine) (now : Nat) :
    (engine.tick now).ruleTable = engine.ruleTable := by
  unfold FirewallEngine.tick
  split_ifs <;> rfl

theorem Leaves.keeps {event : Event} (h : Leaves ip s event) (hticks : event.ticks = 0) :
    Keeps ip s.tables (s.step event).tables ∧ (s.step event).now = s.now := by
  cases event with
  | frame =>
    refine ⟨?_, rfl⟩
    rw [tables, tables, step, ruleTable_processPacket]
    exact .refl ip _
  | tick => cases hticks
  | block => exact ⟨blockIp_keeps _ _ _ _ h, rfl⟩
  | unblock ip' => exact ⟨unblockIp_keeps _ _ h, rfl⟩
  | reset => exact h.elim
  | addRule rule => exact ⟨addRule_keeps _ _ h, rfl⟩
  | enableRule => exact ⟨enableRule_keeps _ _ h, rfl⟩
  | enable => exact ⟨.refl ip _, rfl⟩

theorem tables_tick (s : Guarded) : (s.step .tick).tables =
    s.blocks.tick s.engine.ruleTable ((s.now + 1) % 2 ^ 32) := by
  unfold step setTables tables
  dsimp only
  rw [ruleTable_tick]

theorem run_now_lt (start : Nat) (events : List Event) : (run start events).now < 2 ^ 32 := by
  refine Run.foldl_invariant (P := fun s : Guarded => s.now < 2 ^ 32) (fun s event _ h => ?_)
    (Nat.mod_lt _ (by decide))
  cases event with
  | tick => exact Nat.mod_lt _ (by decide)
  | _ => exact h

theorem run_single (ip start : Nat) (events : List Event) :
    Single ip (run start events).blocks := by
  refine Run.foldl_invariant (P := fun s : Guarded => Single ip s.blocks) (fun s event _ h => ?_)
    fun i _ hi => ?_
  · cases event with
    | tick => exact h.tick _ _
    | block => exact h.blockIp _ _ _ _
    | unblock ip' => exact h.shrinks (unblockIp_shrinks _ _ _)
    | reset => exact h.reset _
    | _ => exact h
  · cases hi.1

/-! ## The guarantee -/

/-- What holds `n` ticks after a block for `d` ticks was made at tick `t`. -/
structure Phase (ip t d : Nat) (e r : Fin 16) (n : Nat) (s : Guarded) : Prop where
  now : s.now = (t + n) % 2 ^ 32
  held : d = 0 ∨ n < d → Held ip (expireTick t d) e r s.tables
  free : d ≠ 0 → d ≤ n → Free ip s.tables

theorem Phase.tick {t n : Nat} (h : Phase ip t d e r n s) (htime : d = 0 ∨ t + d < kPermanent) :
    Phase ip t d e r (n + 1) (s.step .tick) := by
  have hnow : (s.now + 1) % 2 ^ 32 = (t + (n + 1)) % 2 ^ 32 := by
    rw [h.now]
    omega
  have hkperm : kPermanent = 2 ^ 32 - 1 := by decide
  -- the time is what it looks like
  have hexpire : d ≠ 0 → expireTick t d = t + d := by
    intro hd
    rw [expireTick, if_neg hd, Nat.mod_eq_of_lt (by omega)]
  refine ⟨hnow, fun hd => ?_, fun hd hn => ?_⟩ <;> rw [tables_tick]
  · refine (h.held (by omega)).tick ?_
    by_cases hd0 : d = 0
    · exact .inl (if_pos hd0)
    · omega
  · by_cases hlast : n < d
    · refine Held.expires (h.held (.inr hlast)) ?_ ?_ (mem_finRange e) <;> rw [hexpire hd] <;> omega
    · exact (h.free hd (Nat.not_lt.1 hlast)).expires _

theorem Later.phase {t n : Nat} (hlater : Later ip s n s') (h : Phase ip t d e r 0 s)
    (htime : d = 0 ∨ t + d < kPermanent) : Phase ip t d e r n s' := by
  induction hlater with
  | refl => exact h
  | @step n s' _ event he ih =>
    by_cases hticks : event.ticks = 0
    · obtain ⟨hkeeps, hnow⟩ := he.keeps hticks
      rw [hticks]
      exact ⟨hnow.trans ih.now, fun hd => (ih.held hd).keeps hkeeps,
        fun hd hn => (ih.free hd hn).keeps hkeeps⟩
    · cases event with
      | tick => exact ih.tick htime
      | _ => exact absurd rfl hticks

/-- A frame of the host meets the rule, or one before it. -/
theorem matchFrame_held {f : Frame} {interface : List Char} {t : RuleTable}
    (hrule : Barrier ip (t.rules r)) (hplain : (t.rules r).matchTcpFlags = false)
    (hf : f.IsIpv4) (hsrc : f.srcIp = ip) (hwell : f.WellFormed)
    (hearlier : ∀ j < r, (t.rules j).enabled → (t.rules j).action = .accept →
      ¬(t.rules j).Holds f interface) : t.matchFrame f interface ≠ .accept := by
  obtain ⟨henabled, hmatch, hip, haction, hdst, hprotocol, hsport, hdport, hinterface⟩ := hrule
  have hholds : (t.rules r).Holds f interface := by
    simp only [Bool.not_eq_true'] at hdst hprotocol hsport hdport hinterface
    simp [FwRule.Holds, FwRule.HeaderHolds, FwRule.TransportHolds, hdst, hprotocol, hsport, hdport,
      hinterface, hplain, hip, hsrc]
  rw [matchFrame_wellFormed hf hwell]
  cases hfind : (finRange 16).find? fun i =>
      decide ((t.rules i).enabled ∧ (t.rules i).Holds f interface) with
  | none =>
    have := find?_eq_none.1 hfind r (mem_finRange r)
    simp [henabled, hholds] at this
  | some j =>
    obtain ⟨hj, hleast⟩ := Bitmap.find?_finRange hfind
    simp only [decide_eq_true_eq] at hj
    dsimp only
    rcases Nat.lt_trichotomy j r with hlt | heq | hgt
    · exact fun haccept => hearlier j hlt hj.1 haccept hj.2
    · rw [Fin.ext heq, haction]
      decide
    · have := hleast r hgt
      simp [henabled, hholds] at this

/-- **Blocked until the time has come.** A block for which there is room, and whose time is neither
wrapped nor the mark of permanent blocks: as long as it lasts, no frame of the host in good form
gets through, unless a rule in front of the block accepts it; and when it has ended, no rule that
blocks the host is left. -/
theorem blocked_until {history : List Event} (hs : run start history = s)
    (hblock : (s.blocks.blockIp s.engine.ruleTable s.now ip d).1 = true)
    (hroom : Room ip r s.blocks s.engine.ruleTable)
    (htime : d = 0 ∨ s.now + d < kPermanent) {n : Nat}
    (hlater : Later ip (s.step (.block ip d)) n s') :
    (d = 0 ∨ n < d → ∀ stealth f interface, s'.engine.enabled → f.IsIpv4 → f.srcIp = ip →
      f.WellFormed ∨ f.protocol = 6 ∧ f.ihl < 5 →
      (∀ j < r, (s'.engine.ruleTable.rules j).enabled →
        (s'.engine.ruleTable.rules j).action = .accept →
        ¬(s'.engine.ruleTable.rules j).Holds f interface) →
      (s'.engine.processPacket stealth s'.now f interface).1 = false) ∧
    (d ≠ 0 → d ≤ n → ∀ i, ¬Barrier ip (s'.engine.ruleTable.rules i)) := by
  obtain ⟨e, hheld⟩ := blockIp_held (hs ▸ run_single ip start history) hroom hblock
  have hnow : s.now < 2 ^ 32 := hs ▸ run_now_lt start history
  have hphase : Phase ip s.now d e r 0 (s.step (.block ip d)) := by
    exact ⟨(Nat.mod_eq_of_lt hnow).symm, fun _ => hheld, fun hd hn => absurd (Nat.le_zero.1 hn) hd⟩
  have hphase' := hlater.phase hphase htime
  refine ⟨fun hd stealth f interface henabled hf hsrc hform hearlier => ?_, fun hd hn => ?_⟩
  · have hheld := hphase'.held hd
    rw [FirewallEngine.processPacket_fst henabled]
    by_cases hwell : f.WellFormed
    · exact .inr (.inr (.inl (matchFrame_held hheld.rule hheld.plain hf hsrc hwell hearlier)))
    · refine .inr (.inr (.inr ?_))
      rw [StatefulInspector.processTcpPacket_malformed hf hwell]
      exact hform.resolve_left hwell
  · exact (hphase'.free hd hn).rules

/-- 10.0.0.1, which `FirewallEngine.bareFrame` is from. -/
def badHost : Nat := 0x0A000001

theorem blocked_until_two_ticks : ∃ s', Later badHost ((run 100 []).step (.block badHost 10)) 2 s' ∧
    (s'.engine.processPacket {} s'.now (FirewallEngine.bareFrame 5 17) ['e', 'n', '0']).1 =
      false := by
  have hlater : Later badHost ((run 100 []).step (.block badHost 10)) 2 _ :=
    (Later.refl.step .tick trivial).step .tick trivial
  refine ⟨_, hlater, ?_⟩
  exact (blocked_until (r := 0) rfl rfl (by decide +kernel) (by decide) hlater).1
    (by decide) {} _ _ rfl (by decide) (by decide) (by decide) (by decide)

/-- A frame of the host gets through. -/
def LetsThrough (s : Guarded) : Prop :=
  (s.engine.processPacket {} s.now (FirewallEngine.bareFrame 5 17) ['e', 'n', '0']).1 = true
  deriving Decidable

/-- Sixteen rules on other hosts. -/
def fullTable : Guarded := run 100 (List.replicate 16 (.addRule (.block 1)))

/-- **Blocks that do not hold.** With the table full, a block is reported that has no rule. A block
whose time wraps ends with the next tick. A block whose time is the mark for permanent ones never
ends. -/
theorem block_without_effect :
    ((fullTable.blocks.blockIp fullTable.engine.ruleTable fullTable.now badHost 10).1 = true ∧
      (fullTable.step (.block badHost 10)).LetsThrough) ∧
    (((run (2 ^ 32 - 5) []).step (.block badHost 10)).step .tick).LetsThrough ∧
    ∃ i, Barrier badHost (((((run (2 ^ 32 - 3) []).step (.block badHost 2)).step .tick).step
      .tick).engine.ruleTable.rules i) := by
  decide +kernel

end Guarded

end AuroraOS
